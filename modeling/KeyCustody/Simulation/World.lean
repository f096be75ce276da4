import KeyCustody.Api.Routes
import KeyCustody.Node.State
import KeyCustody.Wire.MessageId
/-!
# Running nodes

Nodes run somewhere: in a place that keeps them under names, carries their frames, has a clock and
is a source of chance. In such a place whole requests can be carried out: the attempts to relay, the
wait while other nodes do their work, and the answer to the client.

## Main definitions

* `World`: a place where nodes run.
* `relay`: a request that is sent to a peer.
* `runCall`, `relayKeys`: a relayed request with the wait for its answer.
* `getKeys`, `perform`: what a client asks for.
-/

namespace KeyCustody.Simulation

open Crypto (SignatureScheme)
open Net (TransportError)
open Node (Log Instant ServiceError)
open Peer (PeerId)
open Relay (RelayError Call Sending Settings)
open Wire (GetRequest GetReply StreamProtocol)

/-- A place where nodes run under names. -/
class World (ω : Type) (S : outParam SignatureScheme) (σ : outParam Type) where
  node? : ω → String → Option (Node.State S σ)
  setNode : ω → String → Node.State S σ → ω
  now : ω → Instant
  /-- A random number below a bound. -/
  below : ω → Nat → Nat × ω
  messageId : ω → String × ω
  report : ω → Log → ω
  /-- A frame of a node to a peer, which was chosen among so many. -/
  transmit : ω → String → (choices : Nat) → PeerId → StreamProtocol → Bytes →
    ω × Except TransportError Unit
  /-- Everything that is under way arrives. -/
  drain : ω → ω
  /-- The clock moves to an instant. -/
  waitUntil : ω → Nat → ω
  /-- The peers to which a node is connected. -/
  connected : ω → String → List PeerId

section

variable {ω : Type} {S : SignatureScheme} {σ : Type} [World ω S σ]

open World

/-! ### Relaying -/

/-- One attempt to send a request. -/
def attempt (w : ω) (name : String) (s : Sending) : ω × Except TransportError Unit :=
  let (choice, w) := below w s.peers.length
  transmit w name s.peers.length (s.choose choice) s.protocol s.frame

/-- The world with the slots of a node changed. -/
def withSlots (w : ω) (name : String) (slots : Relay.Slots) : ω :=
  match node? w name with
  | some n => setNode w name { n with slots }
  | none => w

/-- The slots of a node. -/
def slotsOf (w : ω) (name : String) : Relay.Slots :=
  match node? w name with
  | some n => n.slots
  | none => .empty

/-- The remaining attempts of a request, with its message id if a peer takes it. -/
def runSending (name : String) : (fuel : Nat) → ω → Sending → ω × Except RelayError String
  | 0, w, _ => (w, .error .noHost)
  | fuel + 1, w, s =>
    let (w, outcome) := attempt w name s
    let (slots, progress, log) := s.onSent outcome (slotsOf w name)
    let w := report (withSlots w name slots) log
    match progress with
    | .taken => (w, .ok s.messageId)
    | .again s => runSending name fuel w s
    | .failed e => (w, .error e)

/-- A payload that a node relays, with the message id if a peer takes it. -/
def relay (w : ω) (name : String) (settings : Settings) (protocol : StreamProtocol)
    (payload : Bytes) : ω × Except RelayError String :=
  match node? w name with
  | none => (w, .error .noHost)
  | some n =>
    let (id, w) := messageId w
    let (slots, started) := Sending.start n.identity n.store settings.attempts protocol payload id
      (now w).millis (now w).seconds n.slots
    let w := setNode w name { n with slots }
    match started with
    | .ok s => runSending name s.left w s
    | .error e => (w, .error e)

/-- The end of a wait: at once, after everything under way has arrived, or at the deadline. -/
def endWait (w : ω) (name : String) (waiter : Pending.Waiter) :
    ω × Except Pending.WaitError (Option GetReply) :=
  let settled? (w : ω) : Option (ω × Except Pending.WaitError (Option GetReply)) :=
    (waiter.settle? (slotsOf w name) (now w).millis).map fun (slots, result) =>
      (withSlots w name slots, result)
  let arrived := drain w
  let late := waitUntil arrived waiter.deadline
  ((settled? w).or ((settled? arrived).or (settled? late))).getD (late, .error .timeout)

/-- A wait for whatever arrives in a slot of a node. -/
def awaitSlot (w : ω) (name id : String) (poll timeout : Nat) :
    ω × Outcome Pending.WaitError (Option GetReply) :=
  match Pending.Waiter.begin (slotsOf w name) id poll timeout (now w).millis with
  | (slots, .value waiter) =>
    let (w, result) := endWait (withSlots w name slots) name waiter
    (w, .ofExcept result)
  | (slots, .failure e) => (withSlots w name slots, .failure e)
  | (slots, .breakdown b) => (withSlots w name slots, .breakdown b)

/-- The rest of a call. The fuel is the number of attempts and two more. -/
def runCall (name : String) (settings : Settings) :
    (fuel : Nat) → ω → Call → ω × Outcome RelayError GetReply
  | _, w, .done outcome => (w, outcome)
  | _, w, .waiting waiter =>
    let (w, result) := endWait w name waiter
    let (result, log) := Call.ofWait result
    (report w log, .ofExcept result)
  | 0, w, _ => (w, .failure .noHost)
  | fuel + 1, w, .sending s =>
    let (w, outcome) := attempt w name s
    let (slots, call, log) := Call.onSent settings s outcome (now w).millis (slotsOf w name)
    runCall name settings fuel (report (withSlots w name slots) log) call

/-- A request for keys that a node relays. -/
def relayKeys (w : ω) (name : String) (settings : Settings) (request : GetRequest) :
    ω × Outcome RelayError GetReply :=
  match node? w name with
  | none => (w, .failure .noHost)
  | some n =>
    let (id, w) := messageId w
    let (n, call) := n.startRelay settings request id (now w)
    runCall name settings (settings.attempts + 2) (setNode w name n) call

/-! ### Clients -/

/-- A request for keys of a client. -/
def getKeys (w : ω) (name : String) (request : GetRequest) : ω × Outcome ServiceError GetReply :=
  match node? w name with
  | none => (w, .failure (.relay .noHost))
  | some n =>
    let (n, lookup, log) := n.lookUp request
    let w := report (setNode w name n) log
    match lookup with
    | .answered result => (w, .ofExcept result)
    | .relayed settings miss =>
      let (w, outcome) := relayKeys w name settings request
      (w, Node.afterRelay miss outcome)

/-- The response to a client, unless the node breaks down over the request. -/
def perform (w : ω) (name : String) (r : Api.Request) : ω × Outcome Empty Api.Response :=
  match Api.route r, node? w name with
  | .error response, _ => (w, .value response)
  | .ok _, none => (w, .value (.bare 404))
  | .ok (.support request), some n =>
    let (result, log) := n.support request
    (report w log, .value (Api.resultResponse result))
  | .ok (.set request), some n =>
    let (n, result, log) := n.set request
    (report (setNode w name n) log, .value (Api.resultResponse result))
  | .ok (.get request), some _ =>
    match getKeys w name request with
    | (w, .value reply) => (w, .value (Api.replyResponse reply))
    | (w, .failure e) => (w, .value (Api.failureResponse e))
    | (w, .breakdown b) => (w, .breakdown b)
  | .ok (.peers headOnly), some n =>
    (w, .value (Api.peersResponse n.peerId (n.store.peers (now w).millis) (connected w name)
      headOnly))

end

end KeyCustody.Simulation
