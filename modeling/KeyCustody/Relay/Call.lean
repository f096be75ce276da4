import KeyCustody.Net.Transport
import KeyCustody.Pending.Wait
import KeyCustody.Relay.Error
import KeyCustody.Relay.Responder
/-!
# Relayed requests

A request that a node cannot answer is put into an envelope and sent to one peer after another, each
chosen at random among all known ones, until one takes it or the attempts are used up. Then the
answer is awaited in a slot that was registered before the first attempt. Peers, attempts and the
outcome of each are explicit, so that a call is a sequence of steps between which anything may
happen to the slots.

## Main definitions

* `Settings`: attempts, and the times of a wait.
* `Sending`, `Sending.start`, `Sending.choose`, `Sending.onSent`: the attempts.
* `Call`, `Call.start`, `Call.onSent`, `Call.ofWait`: a request with the wait for its answer.
-/

namespace KeyCustody.Relay

open Crypto (SignatureScheme)
open Net (TransportError)
open Node (Log)
open Peer (PeerId PeerStore Identity)
open Pending (Waiter WaitError)
open Wire (Envelope GetRequest GetReply Payload StreamProtocol)

/-- How requests are relayed. Times are in milliseconds. -/
structure Settings where
  /-- The most attempts to send a request. -/
  attempts : Nat
  /-- The time between two looks at the slot. -/
  poll : Nat
  timeout : Nat
  deriving DecidableEq, Repr

/-! ### Sending -/

/-- A request that no peer has taken yet. -/
structure Sending where
  messageId : String
  protocol : StreamProtocol
  frame : Bytes
  /-- The known peers: one, and the others. -/
  first : PeerId
  others : List PeerId
  /-- How many attempts are left. -/
  left : Nat
  deriving DecidableEq

/-- The peers that a node can ask. -/
def candidates (store : PeerStore) (own : PeerId) (now : Nat) : List PeerId :=
  (store.peers now).filter fun p => p ≠ own

/-- The frame of a relayed request. -/
def requestFrame {S : SignatureScheme} (own : Identity S) (timestamp : UInt64) (messageId : String)
    (payload : Bytes) : Except Wire.EnvelopeError Bytes :=
  (Envelope.build .relayRequest messageId payload timestamp own).encode?

namespace Sending

/-- The known peers. -/
def peers (s : Sending) : List PeerId :=
  s.first :: s.others

/-- The peer for an attempt, where the choice is a random number. -/
def choose (s : Sending) (choice : Nat) : PeerId :=
  s.peers.get ⟨choice % s.peers.length, Nat.mod_lt _ (Nat.succ_pos _)⟩

/-- The end of the attempts without success: the slot is removed. -/
def giveUp (messageId : String) (slots : Slots) : Slots × Except RelayError Sending :=
  (slots.remove messageId, .error .noHost)

/-- The start of a relayed request at instant `now`: a slot is registered and the frame made. -/
def start {S : SignatureScheme} (own : Identity S) (store : PeerStore) (attempts : Nat)
    (protocol : StreamProtocol) (payload : Bytes) (messageId : String) (now : Nat)
    (timestamp : UInt64) (slots : Slots) : Slots × Except RelayError Sending :=
  match candidates store own.peerId now with
  | [] => (slots, .error .noPeers)
  | first :: others =>
    if payload.isEmpty then (slots, .error .emptyRequest)
    else
      let slots := slots.insert messageId
      match requestFrame own timestamp messageId payload with
      | .error e => (slots.remove messageId, .error (.envelope e))
      | .ok frame =>
        let left := min attempts (others.length + 1)
        if left = 0 then giveUp messageId slots
        else (slots, .ok { messageId, protocol, frame, first, others, left })

/-- How an attempt leaves a request: taken, or with fewer attempts left. -/
inductive Progress where
  | taken
  | again (s : Sending)
  | failed (e : RelayError)

/-- The request after the outcome of an attempt. -/
def onSent (s : Sending) (outcome : Except TransportError Unit) (slots : Slots) :
    Slots × Progress × Log :=
  match outcome with
  | .ok () => (slots, .taken, Node.info "Request relayed")
  | .error _ =>
    let log := Node.warn "Relay attempt failed"
    if s.left ≤ 1 then (slots.remove s.messageId, .failed .noHost, log)
    else (slots, .again { s with left := s.left - 1 }, log)

end Sending

/-! ### Whole calls -/

/-- How far a request for keys is. -/
inductive Call where
  | sending (s : Sending)
  | waiting (w : Waiter)
  | done (outcome : Outcome RelayError GetReply)

namespace Call

/-- The start of a call. -/
def start {S : SignatureScheme} (own : Identity S) (store : PeerStore) (settings : Settings)
    (request : GetRequest) (messageId : String) (now : Nat) (timestamp : UInt64) (slots : Slots) :
    Slots × Call :=
  match Sending.start own store settings.attempts .request (Payload.encode request) messageId now
    timestamp slots with
  | (slots, .ok s) => (slots, .sending s)
  | (slots, .error e) => (slots, .done (.failure e))

/-- The start of the wait for the answer. -/
def await (settings : Settings) (messageId : String) (now : Nat) (slots : Slots) : Slots × Call :=
  match Waiter.begin slots messageId settings.poll settings.timeout now with
  | (slots, .value w) => (slots, .waiting w)
  | (slots, .failure _) => (slots, .done (.failure .unusable))
  | (slots, .breakdown b) => (slots, .done (.breakdown b))

/-- The call after the outcome of an attempt. -/
def onSent (settings : Settings) (s : Sending) (outcome : Except TransportError Unit) (now : Nat)
    (slots : Slots) : Slots × Call × Log :=
  match s.onSent outcome slots with
  | (slots, .taken, log) =>
    let (slots, call) := await settings s.messageId now slots
    (slots, call, log)
  | (slots, .again s, log) => (slots, .sending s, log)
  | (slots, .failed e, log) => (slots, .done (.failure e), log)

/-- The result of a call whose wait is over. -/
def ofWait : Except WaitError (Option GetReply) → Except RelayError GetReply × Log
  | .ok (some reply) => (.ok reply, Node.info "Relayed answer received")
  | .ok none => (.error .unusable, [])
  | .error .unknown => (.error .unusable, [])
  | .error .timeout => (.error .timeout, Node.warn "Relay timed out")

/-- The slots after a call is given up: a waiting one drops its receiving end, and the slot of one
that is still sending stays. -/
def cancel (c : Call) (slots : Slots) : Slots :=
  match c with
  | .waiting w => w.cancel slots
  | _ => slots

end Call

end KeyCustody.Relay
