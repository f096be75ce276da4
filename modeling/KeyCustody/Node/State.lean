import KeyCustody.Relay.Call
/-!
# Nodes

A node is an identity with adaptors and their storage, with what it knows of its peers, and with the
slots in which it awaits answers to relayed requests. What its clients ask for is answered by the
adaptors. Only a request for keys that finds nothing here is relayed, if the node relays at all; and
when nobody answers in time, the failure that nothing was found here is the answer.

## Main definitions

* `State`: a node.
* `State.onFrame`: a frame from a peer.
* `State.support`, `State.set`, `State.lookUp`: what clients ask for.
* `State.startRelay`, `afterRelay`: a request that is relayed, and the answer to the client.
-/

namespace KeyCustody.Node

open Crypto (SignatureScheme)
open Custody (Dispatcher DispatchError)
open Peer (PeerId PeerStore Identity)
open Relay (RelayError Settings Slots)
open Wire (SupportRequest SupportReply GetRequest GetReply SetRequest SetReply StreamProtocol)

/-- An instant on the two clocks of a node. -/
structure Instant where
  /-- Milliseconds on the clock by which it waits. -/
  millis : Nat
  /-- Seconds since 1970. -/
  seconds : UInt64
  deriving DecidableEq, Repr

/-- A node. -/
structure State (S : SignatureScheme) (σ : Type) where
  identity : Identity S
  dispatcher : Dispatcher σ
  /-- How it relays, if it does. -/
  relay? : Option Settings
  store : PeerStore
  storage : σ
  slots : Slots

/-- Why a client gets no reply. -/
inductive ServiceError where
  | dispatch (e : DispatchError)
  | relay (e : RelayError)
  deriving DecidableEq, Repr

/-- The words for a missing reply. -/
def ServiceError.message : ServiceError → String
  | .dispatch e => e.message
  | .relay e => "relay failed: " ++ e.message

/-- The result of a request to the adaptors as one for a client. -/
def ofDispatch {α : Type} : Except DispatchError α → Except ServiceError α
  | .ok a => .ok a
  | .error e => .error (.dispatch e)

namespace State

variable {S : SignatureScheme} {σ : Type}

/-- The node's peer id. -/
def peerId (n : State S σ) : PeerId :=
  n.identity.peerId

/-! ### Frames from peers -/

/-- The node after a frame from a peer, with what it reports and the frame that it sends back to the
peer on the response protocol. -/
def onFrame (n : State S σ) (remote : PeerId) (protocol : StreamProtocol) (data : Bytes)
    (now : Instant) : State S σ × Log × Option Bytes :=
  match protocol with
  | .request =>
    let r := Relay.onRequest n.identity n.store n.dispatcher now.seconds remote data n.storage
    ({ n with storage := r.storage }, r.log, r.frame?)
  | .response =>
    let (slots, log) := Relay.onResponse S n.store remote data n.slots
    ({ n with slots }, log, none)

/-! ### Clients -/

/-- Whether a chain is served. -/
def support (n : State S σ) (request : SupportRequest) : Except ServiceError SupportReply × Log :=
  let (result, log) := n.dispatcher.support request
  (ofDispatch result, log)

/-- One more key of an identity. -/
def set (n : State S σ) (request : SetRequest) : State S σ × Except ServiceError SetReply × Log :=
  let (result, log, storage) := n.dispatcher.set request n.storage
  ({ n with storage }, ofDispatch result, log)

/-- What becomes of a request for keys after the lookup in the node itself. -/
inductive Lookup where
  | answered (result : Except ServiceError GetReply)
  /-- Nothing was found, and peers are asked. -/
  | relayed (settings : Settings) (miss : DispatchError)

/-- The lookup of a request in the node itself. -/
def lookUp (n : State S σ) (request : GetRequest) : State S σ × Lookup × Log :=
  let (result, log, storage) := n.dispatcher.get request n.storage
  let n := { n with storage }
  match result, n.relay? with
  | .error e, some settings =>
    if e.isKeyMiss then (n, .relayed settings e, log ++ info "Key not held locally, relaying")
    else (n, .answered (.error (.dispatch e)), log)
  | result, _ => (n, .answered (ofDispatch result), log)

/-- The start of a relayed request for keys. -/
def startRelay (n : State S σ) (settings : Settings) (request : GetRequest) (messageId : String)
    (now : Instant) : State S σ × Relay.Call :=
  let (slots, call) := Relay.Call.start n.identity n.store settings request messageId now.millis
    now.seconds n.slots
  ({ n with slots }, call)

end State

/-- The answer to a client whose request was relayed, after a miss here. -/
def afterRelay (miss : DispatchError) : Outcome RelayError GetReply → Outcome ServiceError GetReply
  | .value reply => .value reply
  | .failure .timeout => .failure (.dispatch miss)
  | .failure e => .failure (.relay e)
  | .breakdown b => .breakdown b

end KeyCustody.Node
