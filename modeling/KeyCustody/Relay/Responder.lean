import KeyCustody.Custody.Dispatcher
import KeyCustody.Pending.Table
import KeyCustody.Relay.Gate
/-!
# Frames from peers

A request that passes the gate is looked up in the node itself, never relayed further, and only a
success is answered: one frame to the peer that asked, on the response protocol, with the message id
of the request. An answer that passes the gate goes into the slot under its message id, as nothing
if it is no reply.

## Main definitions

* `Slots`: the slots in which answers are awaited.
* `onRequest`, `Reaction`: a request, and what is done about it.
* `onResponse`: an answer.
-/

namespace KeyCustody.Relay

open Crypto (SignatureScheme)
open Custody (Dispatcher)
open Node (Log)
open Peer (PeerId PeerStore Identity)
open Wire (Envelope EnvelopeError GetRequest GetReply Payload)

/-- The slots in which answers are awaited; an answer that is no reply is nothing. -/
abbrev Slots := Pending.Table (Option GetReply)

/-! ### Requests -/

/-- What is done about a request. -/
structure Reaction (σ : Type) where
  storage : σ
  log : Log
  /-- The frame to send to the peer on the response protocol. -/
  frame? : Option Bytes

/-- The frame with a reply. -/
def answerFrame {S : SignatureScheme} (own : Identity S) (timestamp : UInt64) (messageId : String)
    (reply : GetReply) : Except EnvelopeError Bytes :=
  (Envelope.build .keyResponse messageId (Payload.encode reply) timestamp own).encode?

/-- What is reported of an answer that could not be made or sent. -/
def unanswered : Log := Node.warn "Failed to answer relay"

/-- The reaction to a request that was looked up. -/
def react {S : SignatureScheme} {σ : Type} (own : Identity S) (timestamp : UInt64)
    (messageId : String) (looked : Except Custody.DispatchError GetReply × Log × σ) : Reaction σ :=
  let (result, log, storage) := looked
  match result with
  | .error _ => ⟨storage, log ++ Node.info "Relayed lookup failed", none⟩
  | .ok reply =>
    if reply.code = .success then
      match answerFrame own timestamp messageId reply with
      | .ok frame => ⟨storage, log, some frame⟩
      | .error _ => ⟨storage, log ++ unanswered, none⟩
    else ⟨storage, log ++ Node.info "Relayed lookup not answered", none⟩

/-- The reaction to an envelope that passed the gate. -/
def serve {S : SignatureScheme} {σ : Type} (own : Identity S) (dispatcher : Dispatcher σ)
    (timestamp : UInt64) (env : Envelope) (storage : σ) : Reaction σ :=
  match Payload.decode env.payload with
  | .error _ => ⟨storage, Node.warn "Bad get-key payload", none⟩
  | .ok (request : GetRequest) =>
    let serving := Node.info "Serving relayed get-key request"
    if dispatcher.isSupported request.chain then
      let r := react own timestamp env.messageId (dispatcher.get request storage)
      { r with log := serving ++ r.log }
    else ⟨storage, serving ++ Node.info "Chain not served here", none⟩

/-- The reaction to a frame on the request protocol. -/
def onRequest {S : SignatureScheme} {σ : Type} (own : Identity S) (store : PeerStore)
    (dispatcher : Dispatcher σ) (timestamp : UInt64) (remote : PeerId) (data : Bytes)
    (storage : σ) : Reaction σ :=
  match inspect S store .request remote data with
  | .error e => ⟨storage, e.log .request, none⟩
  | .ok env => serve own dispatcher timestamp env storage

/-! ### Answers -/

/-- What a payload is worth as an answer, and what is reported of it. -/
def replyOf (payload : Bytes) : Option GetReply × Log :=
  match Payload.decode payload with
  | .ok reply => (some reply, [])
  | .error _ => (none, Node.warn "Unusable relay answer")

/-- The slots after a frame on the response protocol. -/
def onResponse (S : SignatureScheme) (store : PeerStore) (remote : PeerId) (data : Bytes)
    (slots : Slots) : Slots × Log :=
  match inspect S store .response remote data with
  | .error e => (slots, e.log .response)
  | .ok env =>
    let (reply, log) := replyOf env.payload
    let (slots, delivered) := slots.deliver env.messageId reply
    (slots, if delivered then log else log ++ Node.info "No waiter for relay answer")

end KeyCustody.Relay
