import KeyCustody.Node.Connections
import KeyCustody.Node.Recovery
import KeyCustody.Wire.Stream
/-!
# The host of a node

The host owns the connections of a node. Clients give it commands to send a frame or to dial, each
with a handle for the reply; the swarm, which does the work below, gives it events. A frame for a
peer that is not connected waits until a dial to the peer ends, and so does every further command
for the same peer. The swarm numbers the frames of each protocol apart, from one on, and the host
keeps the frames of both protocols in one map under their bare numbers. Every frame from a peer is
acknowledged at once and handed to whoever handles frames. Peers that announce another version are
forgotten and disconnected; of the others, key and addresses go into the peer store. What the host
wants to be done is returned as a list of effects.

## Main definitions

* `Command`, `Event`, `Effect`: what comes in and what goes out.
* `Machine`: the state of a host.
* `Machine.onCommand`, `Machine.onEvent`: the steps.
-/

namespace KeyCustody.Host

open Net (Multiaddr TransportError)
open Node (Connections Discovered Log)
open Peer (PeerId PeerStore PublicKey)
open Wire (StreamProtocol acknowledgement)

/-! ### What comes in and what goes out -/

/-- What a client asks for, with the handle for the reply. -/
inductive Command (ρ : Type) where
  | send (peer : PeerId) (protocol : StreamProtocol) (data : Bytes) (reply : ρ)
  | dial (peer : PeerId) (addrs : List Multiaddr) (reply : ρ)

/-- What happened below. -/
inductive Event where
  | connected (peer : PeerId)
  /-- A connection was closed, and so many to the peer are left. -/
  | closed (peer : PeerId) (left : Nat)
  | dialFailed (peer : PeerId) (reason : String)
  /-- A frame came from a peer. -/
  | frame (peer : PeerId) (protocol : StreamProtocol) (data : Bytes)
  /-- The answer to a frame that was sent, which has its number among those of its protocol. -/
  | answered (protocol : StreamProtocol) (id : Nat) (answer : Bytes)
  | unanswered (protocol : StreamProtocol) (id : Nat) (reason : String)
  /-- A peer told its version, its public key and its addresses. -/
  | identified (peer : PeerId) (version : String) (key : PublicKey) (addrs : List Multiaddr)
  /-- Peers nearby announced their addresses, one by one. -/
  | discovered (found : List (PeerId × Multiaddr))
  | expired (found : List (PeerId × Multiaddr))
  /-- The time has come to look after the number of connections. -/
  | tick

/-- What the host wants to be done. -/
inductive Effect (ρ : Type) where
  | reply (asker : ρ) (result : Except TransportError Unit)
  /-- A handle is thrown away without a reply, which its client takes for the end of the host. -/
  | drop (asker : ρ)
  | dial (peer : PeerId) (addrs : List Multiaddr)
  | request (id : Nat) (peer : PeerId) (protocol : StreamProtocol) (data : Bytes)
  | disconnect (peer : PeerId)
  | acknowledge (peer : PeerId) (protocol : StreamProtocol)
  /-- A frame from a peer is to be handled. -/
  | handle (peer : PeerId) (protocol : StreamProtocol) (data : Bytes)
  /-- The host broke down. -/
  | halt (b : Breakdown)

/-- What the swarm says to a dial. -/
inductive DialAnswer where
  | started
  /-- The peer is connected or being dialed, so that no dial is started. -/
  | underWay
  | refused (reason : String)
  deriving DecidableEq, Repr

/-- What the swarm says when it is asked. -/
structure Swarm where
  isConnected : PeerId → Bool
  dial : PeerId → List Multiaddr → DialAnswer

/-! ### The state -/

/-- A command that waits for the end of a dial. -/
inductive Waiter (ρ : Type) where
  | dial (reply : ρ)
  | send (protocol : StreamProtocol) (data : Bytes) (reply : ρ)
  deriving DecidableEq

/-- The handle of a command that waits. -/
def Waiter.handle {ρ : Type} : Waiter ρ → ρ
  | .dial reply => reply
  | .send _ _ reply => reply

/-- A frame that was sent and is not answered. -/
structure Outbound (ρ : Type) where
  peer : PeerId
  protocol : StreamProtocol
  reply : ρ
  deriving DecidableEq

/-- The state of a host. -/
structure Machine (ρ : Type) where
  /-- The version that it announces and expects. -/
  version : String
  connections : Connections PeerId
  /-- The commands that wait for a dial, the oldest first. -/
  waiters : Assoc PeerId (List (Waiter ρ))
  /-- The frames that are not answered, by number and whatever their protocol. -/
  outbound : Assoc Nat (Outbound ρ)
  /-- The number of the next frame of a protocol. -/
  nextRequest : StreamProtocol → Nat
  /-- The discoveries that nobody took yet, and how many there may be. -/
  discoveries : List Discovered
  room : Nat
  /-- Whether anybody handles frames. -/
  hasHandler : Bool

namespace Machine

variable {ρ : Type}

/-- A host at its start. -/
def start (rendezvous : String) (low high grace room : Nat) (hasHandler : Bool) : Machine ρ where
  version := Wire.announcedVersion rendezvous
  connections := ⟨low, high, grace, []⟩
  waiters := []
  outbound := []
  nextRequest _ := 1
  discoveries := []
  room
  hasHandler

/-! ### Sending and dialing -/

/-- The numbers after a frame of a protocol. -/
def advance (next : StreamProtocol → Nat) (protocol : StreamProtocol) : StreamProtocol → Nat :=
  fun q => if q = protocol then next q + 1 else next q

/-- What becomes of the handle under a number when another frame takes its place. -/
def displace (h : Machine ρ) (id : Nat) : List (Effect ρ) :=
  (Assoc.get? h.outbound id).toList.map fun o => .drop o.reply

/-- A frame is sent to a connected peer. -/
def sendRequest (h : Machine ρ) (peer : PeerId) (protocol : StreamProtocol) (data : Bytes)
    (reply : ρ) : Machine ρ × List (Effect ρ) :=
  let id := h.nextRequest protocol
  ({ h with
      nextRequest := advance h.nextRequest protocol
      outbound := Assoc.put h.outbound id ⟨peer, protocol, reply⟩ },
    .request id peer protocol data :: h.displace id)

/-- The command waits for a dial to the peer. -/
def park (h : Machine ρ) (peer : PeerId) (w : Waiter ρ) : Machine ρ :=
  { h with waiters := Assoc.modify h.waiters peer [] (· ++ [w]) }

/-- A peer that is not connected is dialed, and the command waits; without addresses, or if the
swarm refuses, it fails. -/
def startDial (h : Machine ρ) (swarm : Swarm) (peer : PeerId) (addrs : List Multiaddr)
    (w : Waiter ρ) : Machine ρ × List (Effect ρ) :=
  if addrs.isEmpty then (h, [.reply w.handle (.error (.dial peer "no known addresses"))])
  else
    match swarm.dial peer addrs with
    | .started => (h.park peer w, [.dial peer addrs])
    | .underWay => (h.park peer w, [])
    | .refused reason => (h, [.reply w.handle (.error (.dial peer reason))])

/-- The step for a command, at an instant at which the store has the given addresses. -/
def onCommand (h : Machine ρ) (swarm : Swarm) (store : PeerStore) (now : Nat) :
    Command ρ → Machine ρ × List (Effect ρ)
  | .send peer protocol data reply =>
    if swarm.isConnected peer then h.sendRequest peer protocol data reply
    else h.startDial swarm peer (store.addrs peer now) (.send protocol data reply)
  | .dial peer addrs reply =>
    if swarm.isConnected peer then (h, [.reply reply (.ok ())])
    else h.startDial swarm peer addrs (.dial reply)

/-- Commands that waited go on after a dial that succeeded, in their order. -/
def goOn (peer : PeerId) : List (Waiter ρ) → Machine ρ → Machine ρ × List (Effect ρ)
  | [], h => (h, [])
  | .dial reply :: ws, h =>
    let (h, effects) := goOn peer ws h
    (h, .reply reply (.ok ()) :: effects)
  | .send protocol data reply :: ws, h =>
    let (h, first) := h.sendRequest peer protocol data reply
    let (h, effects) := goOn peer ws h
    (h, first ++ effects)

/-- The end of a dial, with the reason if it failed. -/
def settleDial (h : Machine ρ) (peer : PeerId) (failure? : Option String) :
    Machine ρ × List (Effect ρ) :=
  let ws := (Assoc.get? h.waiters peer).getD []
  let h := { h with waiters := Assoc.erase h.waiters peer }
  match failure? with
  | none => goOn peer ws h
  | some reason => (h, ws.map fun w => .reply w.handle (.error (.dial peer reason)))

/-! ### Connections -/

/-- Connections beyond the high watermark are closed. -/
def trim (h : Machine ρ) (now : Nat) : Machine ρ × List (Effect ρ) :=
  match h.connections.trim now with
  | (connections, .value victims) => ({ h with connections }, victims.map .disconnect)
  | (connections, .breakdown b) => ({ h with connections }, [.halt b])

/-- The step for a new connection: commands go on, and others may have to give way. -/
def onConnected (h : Machine ρ) (peer : PeerId) (now : Nat) : Machine ρ × List (Effect ρ) :=
  let h := { h with connections := h.connections.connected peer now }
  let (h, settled) := h.settleDial peer none
  let (h, trimmed) := h.trim now
  (h, settled ++ trimmed)

/-! ### Discoveries -/

/-- The announced addresses peer by peer. -/
def byPeer (found : List (PeerId × Multiaddr)) : List Discovered :=
  let groups : Assoc PeerId (List Multiaddr) :=
    found.foldl (fun m (p, a) => Assoc.modify m p [] (· ++ [a])) []
  groups.map fun (p, addrs) => ⟨p, addrs⟩

/-- A discovery is kept, if there is room. -/
def discover (h : Machine ρ) (d : Discovered) : Machine ρ × Log :=
  if h.discoveries.length < h.room then ({ h with discoveries := h.discoveries ++ [d] }, [])
  else (h, Node.warn "Discovery queue full, dropping")

/-- Discoveries one after another. -/
def discoverAll : List Discovered → Machine ρ → Machine ρ × Log
  | [], h => (h, [])
  | d :: ds, h =>
    let (h, log) := h.discover d
    let (h, rest) := discoverAll ds h
    (h, log ++ rest)

/-! ### Events -/

/-- The result for a client whose frame was answered. -/
def ofAnswer (o : Outbound ρ) (answer : Bytes) : Except TransportError Unit :=
  if answer = acknowledgement then .ok () else .error (.noAck o.peer o.protocol)

/-- The end of the frame that the host has under a number. -/
def settleRequest (h : Machine ρ) (id : Nat) (result : Outbound ρ → Except TransportError Unit) :
    Machine ρ × List (Effect ρ) :=
  match Assoc.get? h.outbound id with
  | some o => ({ h with outbound := Assoc.erase h.outbound id }, [.reply o.reply (result o)])
  | none => (h, [])

/-- The step for what a peer told of itself. -/
def onIdentified (h : Machine ρ) (store : PeerStore) (now : Nat) (peer : PeerId) (version : String)
    (key : PublicKey) (addrs : List Multiaddr) : PeerStore × Log × List (Effect ρ) :=
  if version = h.version then
    let (store, log) := store.setPublicKey peer key
    (store.addAddrs peer addrs Node.recoveredTtl now, log, [])
  else
    (store.remove peer, Node.warn "Peer is in another rendezvous, disconnecting",
      [.disconnect peer])

/-- The step for an event at an instant. -/
def onEvent (h : Machine ρ) (swarm : Swarm) (store : PeerStore) (now : Nat) :
    Event → Machine ρ × PeerStore × Log × List (Effect ρ)
  | .connected peer =>
    let (h, effects) := h.onConnected peer now
    (h, store, [], effects)
  | .closed peer left =>
    let connections := if left = 0 then h.connections.disconnected peer else h.connections
    ({ h with connections }, store, [], [])
  | .dialFailed peer reason =>
    let (h, effects) :=
      if swarm.isConnected peer then (h, []) else h.settleDial peer (some reason)
    (h, store, Node.warn "Outgoing connection error", effects)
  | .frame peer protocol data =>
    if h.hasHandler then
      (h, store, [], [.acknowledge peer protocol, .handle peer protocol data])
    else
      (h, store, Node.warn "No protocol handler, dropping stream", [.acknowledge peer protocol])
  | .answered _ id answer =>
    let (h, effects) := h.settleRequest id fun o => ofAnswer o answer
    (h, store, [], effects)
  | .unanswered _ id reason =>
    let (h, effects) := h.settleRequest id fun o => .error (.stream o.peer o.protocol reason)
    (h, store, Node.warn "Outbound failure", effects)
  | .identified peer version key addrs =>
    let (store, log, effects) := h.onIdentified store now peer version key addrs
    (h, store, log, effects)
  | .discovered found =>
    let (h, log) := discoverAll (byPeer found) h
    (h, store, log, [])
  | .expired _ => (h, store, [], [])
  | .tick =>
    let (h, effects) := h.trim now
    (h, store, [], effects)

end Machine

end KeyCustody.Host
