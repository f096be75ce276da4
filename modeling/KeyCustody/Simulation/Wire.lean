import KeyCustody.Simulation.World
/-!
# Nodes on an unreliable wire

Here the frames of nodes go over a wire that may deliver, lose, alter, repeat or forge them, or tell
the sender that it failed. The fate of each frame is decided in advance, by a script for each node
and a usual fate after its end. Frames that are delivered wait until the sender is done, and arrive
in the order in which they were sent.

## Main definitions

* `Fate`: what becomes of a frame.
* `Member`, `Network`: nodes with their scripts, and the frames under way.
* `Network.transmit`, `Network.arriveNext`: a frame is sent, and a frame arrives.
-/

namespace KeyCustody.Simulation

open Crypto (SignatureScheme Entropy)
open Net (TransportError)
open Node (Log Instant)
open Peer (PeerId Identity)
open Wire (Envelope GetReply Payload StreamProtocol)

/-- What becomes of a frame. -/
inductive Fate where
  | deliver
  /-- The sender is told that the frame arrived, and it does not. -/
  | lost
  /-- The last bit is changed. -/
  | flip
  /-- The second half is missing. -/
  | cut
  | twice
  /-- An answer of the sender arrives in its place that is no reply. -/
  | garble
  /-- An answer of the sender arrives in its place that says no. -/
  | refuse
  | fail
  | noAck
  | closed
  deriving DecidableEq, Repr

namespace Fate

/-- All fates. -/
def all : List Fate :=
  [.deliver, .lost, .flip, .cut, .twice, .garble, .refuse, .fail, .noAck, .closed]

/-- The name of a fate. -/
def name : Fate → String
  | .deliver => "deliver"
  | .lost => "lost"
  | .flip => "flip"
  | .cut => "cut"
  | .twice => "twice"
  | .garble => "garble"
  | .refuse => "refuse"
  | .fail => "fail"
  | .noAck => "noack"
  | .closed => "closed"

/-- The fate with a name. -/
def ofName? (s : String) : Option Fate :=
  all.find? fun f => f.name == s

end Fate

/-- A frame under way. -/
structure Delivery where
  sender : PeerId
  receiver : PeerId
  protocol : StreamProtocol
  data : Bytes

/-- A frame as it was sent. -/
structure Sent where
  receiver : PeerId
  /-- Among how many peers the receiver was chosen. -/
  choices : Nat
  protocol : StreamProtocol
  fate : Fate
  data : Bytes

/-- A node on the wire. -/
structure Member (S : SignatureScheme) (σ : Type) where
  state : Node.State S σ
  /-- The fates of its next frames. -/
  script : List Fate
  /-- The fate of its frames after the script. -/
  usual : Fate
  /-- What it sent, the oldest frame first. -/
  sent : List Sent

/-- Nodes and the wire between them. -/
structure Network (S : SignatureScheme) (σ : Type) where
  members : Assoc String (Member S σ)
  clock : Instant
  entropy : Entropy
  /-- The frames under way, the next one to arrive first. -/
  underWay : List Delivery
  log : Log

namespace Network

variable {S : SignatureScheme} {σ : Type}

/-- Nodes with nothing under way. -/
def start (members : Assoc String (Member S σ)) (seconds : UInt64) (entropy : Entropy) :
    Network S σ where
  members
  clock := ⟨0, seconds⟩
  entropy
  underWay := []
  log := []

/-- The name of the node with a peer id. -/
def nameOf? (w : Network S σ) (p : PeerId) : Option String :=
  (w.members.find? fun m => m.2.state.peerId = p).map Prod.fst

/-- The network with a node changed. -/
def update (w : Network S σ) (name : String) (f : Member S σ → Member S σ) : Network S σ :=
  match Assoc.get? w.members name with
  | some m => { w with members := Assoc.put w.members name (f m) }
  | none => w

/-! ### Sending -/

/-- The octets with the last bit changed. -/
def flipLast (data : Bytes) : Bytes :=
  match data.reverse with
  | b :: bs => ((b ^^^ 1) :: bs).reverse
  | [] => []

/-- An answer of a node with the message id of a frame. -/
def forge (own : Identity S) (seconds : UInt64) (data payload : Bytes) : Bytes :=
  match Envelope.decode data with
  | .ok env => (Envelope.build .keyResponse env.messageId payload seconds own).octets
  | .error _ => data

/-- The reply that says no. -/
def refusal : GetReply := ⟨.error, "refused", []⟩

/-- What arrives in the place of a frame, or why it does not get through. -/
def arrivals (own : Identity S) (seconds : UInt64) (receiver : PeerId) (protocol : StreamProtocol)
    (data : Bytes) : Fate → Except TransportError (List Bytes)
  | .deliver => .ok [data]
  | .lost => .ok []
  | .flip => .ok [flipLast data]
  | .cut => .ok [data.take (data.length / 2)]
  | .twice => .ok [data, data]
  | .garble => .ok [forge own seconds data [0xFF, 0x00]]
  | .refuse => .ok [forge own seconds data (Payload.encode refusal)]
  | .fail => .error (.stream receiver protocol "connection reset")
  | .noAck => .error (.noAck receiver protocol)
  | .closed => .error .hostClosed

/-- A node sends a frame: it takes the next fate of the script. A frame that would arrive needs a
node where it does. -/
def transmit (w : Network S σ) (name : String) (choices : Nat) (receiver : PeerId)
    (protocol : StreamProtocol) (data : Bytes) : Network S σ × Except TransportError Unit :=
  match Assoc.get? w.members name with
  | none => (w, .error .hostClosed)
  | some m =>
    let fate := m.script.headD m.usual
    let sent := m.sent ++ [⟨receiver, choices, protocol, fate, data⟩]
    let w := w.update name fun m => { m with script := m.script.tail, sent }
    match arrivals m.state.identity w.clock.seconds receiver protocol data fate with
    | .error e => (w, .error e)
    | .ok [] => (w, .ok ())
    | .ok frames =>
      match w.nameOf? receiver with
      | none => (w, .error (.dial receiver "unreachable"))
      | some _ =>
        let deliveries := frames.map fun data => ⟨m.state.peerId, receiver, protocol, data⟩
        ({ w with underWay := w.underWay ++ deliveries }, .ok ())

/-! ### Arrival -/

/-- A node handles a frame, and what it sends back goes over the wire. -/
def arrive (w : Network S σ) (name : String) (remote : PeerId) (protocol : StreamProtocol)
    (data : Bytes) : Network S σ :=
  match Assoc.get? w.members name with
  | none => w
  | some m =>
    let (state, log, frame?) := m.state.onFrame remote protocol data w.clock
    let w := w.update name fun m => { m with state }
    let w := { w with log := w.log ++ log }
    match frame? with
    | none => w
    | some frame =>
      match w.transmit name 1 remote .response frame with
      | (w, .ok ()) => w
      | (w, .error _) => { w with log := w.log ++ Relay.unanswered }

/-- The network after the next frame under way has arrived. -/
def arriveNext (w : Network S σ) : Network S σ :=
  match w.underWay with
  | [] => w
  | d :: rest =>
    let w := { w with underWay := rest }
    match w.nameOf? d.receiver with
    | some name => w.arrive name d.sender d.protocol d.data
    | none => w

/-- The network after so many arrivals. -/
def arriveAll : (fuel : Nat) → Network S σ → Network S σ
  | 0, w => w
  | fuel + 1, w => arriveAll fuel w.arriveNext

/-- The network after everything under way has arrived. A frame brings about two others at most,
and these no more. -/
def drain (w : Network S σ) : Network S σ :=
  arriveAll (3 * w.underWay.length) w

/-! ### Looking on -/

/-- What a node sent, which is taken out. -/
def takeSent (w : Network S σ) (name : String) : Network S σ × List Sent :=
  match Assoc.get? w.members name with
  | some m => (w.update name fun m => { m with sent := [] }, m.sent)
  | none => (w, [])

/-- A frame arrives at a node from outside, with all that comes of it and what is reported of it. -/
def inject (w : Network S σ) (name : String) (remote : PeerId) (protocol : StreamProtocol)
    (data : Bytes) : Network S σ × Log :=
  let w := (arrive { w with log := [] } name remote protocol data).drain
  (w, w.log)

end Network

instance {S : SignatureScheme} {σ : Type} : World (Network S σ) S σ where
  node? w name := (Assoc.get? w.members name).map Member.state
  setNode w name state := w.update name fun m => { m with state }
  now w := w.clock
  below w n :=
    let (k, entropy) := w.entropy.below n
    (k, { w with entropy })
  messageId w :=
    let (id, entropy) := Wire.freshMessageId w.entropy
    (id, { w with entropy })
  report w log := { w with log := w.log ++ log }
  transmit := Network.transmit
  drain := Network.drain
  waitUntil w millis := { w with clock := { w.clock with millis := max millis w.clock.millis } }
  connected _ _ := []

end KeyCustody.Simulation
