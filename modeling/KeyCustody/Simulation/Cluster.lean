import KeyCustody.Host.Machine
import KeyCustody.Simulation.World
/-!
# Nodes with hosts

Here every node has a host, and hosts are connected by links. What happens is a queue: commands of
clients, events for a host, dials, frames under way. Each happening may bring about others, which
join the queue at its end, so that a run of the queue is one of the orders in which hosts and links
may work; every happening takes a millisecond. A station that follows a script stands for a peer of
any other make: it keeps every connection and gives the same answer to every frame.

## Main definitions

* `Station`, `Cluster`: nodes and scripted peers, with the links between them.
* `Happening`, `Cluster.happen`, `Cluster.settle`: one happening, and all of them.
* `Cluster.ask`, `Cluster.askByScript`: commands of a client, and a frame of a scripted peer.
* `Cluster.notify`, `Cluster.shutDown`: an event for a host, and its end.
-/

namespace KeyCustody.Simulation

open Crypto (Entropy SignatureScheme)
open Host (Command Effect Event Machine Swarm)
open Net (Multiaddr TransportError)
open Node (Discovered Instant Log Recovery)
open Peer (Identity PeerId PeerStore)
open Wire (StreamProtocol)

/-! ### Stations -/

/-- Who awaits the end of a command. -/
inductive Handle where
  /-- A client with the number of its ticket. -/
  | client (ticket : Nat)
  /-- The recovery of a discovered peer. -/
  | recovery (d : Discovered)
  /-- Nobody, for a frame that is sent back. -/
  | nobody

/-- Who awaits the answer to a frame. -/
inductive Origin where
  /-- A host, with the number of the frame among those of its protocol. -/
  | host (protocol : StreamProtocol) (id : Nat)
  /-- A script, with the number of its ticket. -/
  | script (ticket : Nat)

/-- What happens next to a station. -/
inductive Happening where
  | command (c : Command Handle)
  | event (e : Event)
  /-- A dial comes to its end. -/
  | dial (peer : PeerId) (addrs : List Multiaddr)
  /-- Another station tells of itself over a link. -/
  | told (teller : String)
  /-- A frame comes to a neighbour. -/
  | frame (origin : Origin) (peer : PeerId) (protocol : StreamProtocol) (data : Bytes)
  /-- Recovery looks for a discovery. -/
  | recovery

/-- A node with its host. -/
structure Hosted (S : SignatureScheme) (σ : Type) where
  state : Node.State S σ
  machine : Machine Handle
  isAlive : Bool
  /-- Whether recovery takes the discoveries of the host. -/
  recovers : Bool
  /-- Whether recovery awaits a dial. -/
  isRecovering : Bool

/-- A frame that a scripted peer got. -/
structure Received where
  sender : PeerId
  protocol : StreamProtocol
  size : Nat

/-- A scripted peer. -/
structure Scripted where
  /-- What it answers to a frame, if it answers. -/
  answer? : Option Bytes
  /-- What it got, the oldest frame first. -/
  received : List Received

/-- What is at a station. -/
inductive Occupant (S : SignatureScheme) (σ : Type) where
  | hosted (h : Hosted S σ)
  | scripted (p : Scripted)

/-- A peer at its address. -/
structure Station (S : SignatureScheme) (σ : Type) where
  identity : Identity S
  /-- The version that it announces. -/
  version : String
  listen : Multiaddr
  occupant : Occupant S σ

/-- Stations and the links between them. -/
structure Cluster (S : SignatureScheme) (σ : Type) where
  stations : Assoc String (Station S σ)
  /-- Whether dials get anywhere. -/
  isReachable : Bool
  /-- The stations that are linked, the one that dialed first. -/
  links : List (String × String)
  /-- The dials under way. -/
  dials : List (String × PeerId)
  /-- What happens next, to which station. -/
  queue : List (String × Happening)
  clock : Instant
  entropy : Entropy
  nextTicket : Nat
  /-- How the commands of clients ended. -/
  replies : Assoc Nat (Except TransportError Unit)
  /-- What scripted peers got in answer to their frames. -/
  answers : Assoc Nat (Option Bytes)
  log : Log

namespace Cluster

variable {S : SignatureScheme} {σ : Type}

/-- Stations without links. -/
def start (stations : Assoc String (Station S σ)) (isReachable : Bool) (seconds : UInt64)
    (entropy : Entropy) : Cluster S σ where
  stations
  isReachable
  links := []
  dials := []
  queue := []
  clock := ⟨0, seconds⟩
  entropy
  nextTicket := 0
  replies := []
  answers := []
  log := []

/-- The node at a station. -/
def hosted? (w : Cluster S σ) (name : String) : Option (Hosted S σ) :=
  match Assoc.get? w.stations name with
  | some ⟨_, _, _, .hosted h⟩ => some h
  | _ => none

/-- The node at a station whose host is alive. -/
def alive? (w : Cluster S σ) (name : String) : Option (Hosted S σ) :=
  (w.hosted? name).filter Hosted.isAlive

/-- Whether anybody is at a station. -/
def isUp (w : Cluster S σ) (name : String) : Bool :=
  (w.hosted? name).all Hosted.isAlive

/-- The cluster with what is at a station changed. -/
def occupy (w : Cluster S σ) (name : String) (occupant : Occupant S σ) : Cluster S σ :=
  match Assoc.get? w.stations name with
  | some s => { w with stations := Assoc.put w.stations name { s with occupant } }
  | none => w

/-- The cluster with the node at a station changed. -/
def updateHosted (w : Cluster S σ) (name : String) (f : Hosted S σ → Hosted S σ) : Cluster S σ :=
  match w.hosted? name with
  | some h => w.occupy name (.hosted (f h))
  | none => w

/-- The cluster with one more happening to come. -/
def push (w : Cluster S σ) (name : String) (what : Happening) : Cluster S σ :=
  { w with queue := w.queue ++ [(name, what)] }

/-- The cluster with more lines in its log. -/
def logged (w : Cluster S σ) (log : Log) : Cluster S σ :=
  { w with log := w.log ++ log }

/-! ### Links -/

/-- The stations that are linked to a station. -/
def neighbours (w : Cluster S σ) (name : String) : List String :=
  w.links.filterMap fun (a, b) =>
    if a = name then some b else if b = name then some a else none

/-- The peers that are linked to a station. -/
def connected (w : Cluster S σ) (name : String) : List PeerId :=
  (w.neighbours name).filterMap fun n =>
    (Assoc.get? w.stations n).map fun s => s.identity.peerId

/-- The neighbour of a station with a peer id. -/
def neighbour? (w : Cluster S σ) (name : String) (peer : PeerId) : Option String :=
  (w.neighbours name).find? fun n =>
    (Assoc.get? w.stations n).any fun s => s.identity.peerId = peer

/-- The station that listens at an address, which may name the peer at its end. -/
def listener? (w : Cluster S σ) (a : Multiaddr) : Option String :=
  (w.stations.find? fun (_, s) =>
    s.listen = a ∨ s.listen ++ [.p2p s.identity.peerId] = a).map Prod.fst

/-- Another station with a peer id that can be reached at one of the addresses, which may name the
peer at their end. -/
def reachable? (w : Cluster S σ) (name : String) (peer : PeerId) (addrs : List Multiaddr) :
    Option String :=
  if w.isReachable then
    (w.stations.find? fun (n, s) =>
      n ≠ name ∧ w.isUp n ∧ s.identity.peerId = peer ∧
        (s.listen ∈ addrs ∨ s.listen ++ [.p2p peer] ∈ addrs)).map Prod.fst
  else none

/-- A new link: either side notices it, and then learns about the other. -/
def link (w : Cluster S σ) (dialer listener : String) : Cluster S σ :=
  match Assoc.get? w.stations dialer, Assoc.get? w.stations listener with
  | some d, some l =>
    { w with
      links := w.links ++ [(dialer, listener)]
      queue := w.queue ++
        [(dialer, .event (.connected l.identity.peerId)),
          (listener, .event (.connected d.identity.peerId)),
          (dialer, .told listener), (listener, .told dialer)] }
  | _, _ => w

/-- The link between two stations is gone, which either side notices. -/
def unlink (w : Cluster S σ) (a b : String) : Cluster S σ :=
  match Assoc.get? w.stations a, Assoc.get? w.stations b with
  | some s, some t =>
    { w with
      links := w.links.filter fun l => l ≠ (a, b) ∧ l ≠ (b, a)
      queue := w.queue ++
        [(a, .event (.closed t.identity.peerId 0)), (b, .event (.closed s.identity.peerId 0))] }
  | _, _ => w

/-- A host comes to its end, and its links with it. -/
def kill (w : Cluster S σ) (name : String) : Cluster S σ :=
  (w.neighbours name).foldl (fun w other => w.unlink name other)
    (w.updateHosted name fun h => { h with isAlive := false })

/-- What the swarm below a host knows. -/
def swarm (w : Cluster S σ) (name : String) : Swarm where
  isConnected peer := (w.neighbour? name peer).isSome
  dial peer _ :=
    if (Assoc.get? w.stations name).any fun s => s.identity.peerId = peer then
      .refused "tried to dial local peer id"
    else if w.dials.contains (name, peer) then .underWay
    else .started

/-! ### Effects -/

/-- The end of a command, for whoever awaits it. -/
def settleCommand (w : Cluster S σ) (name : String) (result : Except TransportError Unit) :
    Handle → Cluster S σ
  | .client ticket => { w with replies := Assoc.put w.replies ticket result }
  | .nobody =>
    match result with
    | .ok () => w
    | .error _ => w.logged Relay.unanswered
  | .recovery d =>
    match w.hosted? name with
    | none => w
    | some h =>
      let outcome := match result with
        | .ok () => .connected
        | .error e => .failed e
      let (store, log) := Recovery.onDial d outcome h.state.store w.clock.millis
      let h := { h with state := { h.state with store }, isRecovering := false }
      ((w.occupy name (.hosted h)).logged log).push name .recovery

/-- A node handles a frame, and its host is to send back what the node answers. -/
def handle (w : Cluster S σ) (name : String) (peer : PeerId) (protocol : StreamProtocol)
    (data : Bytes) : Cluster S σ :=
  match w.hosted? name with
  | none => w
  | some h =>
    let (state, log, frame?) := h.state.onFrame peer protocol data w.clock
    let w := (w.occupy name (.hosted { h with state })).logged log
    match frame? with
    | some frame => w.push name (.command (.send peer .response frame .nobody))
    | none => w

/-- What a host wants to be done is done. The acknowledgement of a frame is the answer to it, which
is given where the frame arrives. -/
def act (name : String) (w : Cluster S σ) : Effect Handle → Cluster S σ
  | .reply asker result => w.settleCommand name result asker
  | .drop asker => w.settleCommand name (.error .hostClosed) asker
  | .dial peer addrs => { w with dials := w.dials ++ [(name, peer)] }.push name (.dial peer addrs)
  | .request id peer protocol data => w.push name (.frame (.host protocol id) peer protocol data)
  | .disconnect peer =>
    match w.neighbour? name peer with
    | some other => w.unlink name other
    | none => w
  | .acknowledge _ _ => w
  | .handle peer protocol data => w.handle name peer protocol data
  | .halt _ => w.kill name

/-- The step of a host for an event, and whether it acknowledges a frame. -/
def onEvent (w : Cluster S σ) (name : String) (e : Event) : Cluster S σ × Bool :=
  match w.alive? name with
  | none => (w, false)
  | some h =>
    let (machine, store, log, effects) :=
      h.machine.onEvent (w.swarm name) h.state.store w.clock.millis e
    let h := { h with machine, state := { h.state with store } }
    let w := (w.occupy name (.hosted h)).logged log
    (effects.foldl (act name) w, effects.any fun | .acknowledge _ _ => true | _ => false)

/-- The step of a host for a command. A host that is no more leaves it to its clients to notice. -/
def onCommand (w : Cluster S σ) (name : String) (c : Command Handle) : Cluster S σ :=
  match w.alive? name with
  | none => w
  | some h =>
    let (machine, effects) :=
      h.machine.onCommand (w.swarm name) h.state.store w.clock.millis c
    effects.foldl (act name) (w.occupy name (.hosted { h with machine }))

/-! ### Frames under way -/

/-- The answer to a frame, which is none if it is too long. -/
def answer (w : Cluster S σ) (name : String) (origin : Origin) (answer? : Option Bytes) :
    Cluster S σ :=
  match origin, answer?.filter fun bs => bs.length ≤ Wire.largestAnswer with
  | .host protocol id, some bs => w.push name (.event (.answered protocol id bs))
  | .host protocol id, none => w.push name (.event (.unanswered protocol id "no answer"))
  | .script ticket, bs? => { w with answers := Assoc.put w.answers ticket bs? }

/-- A frame arrives at a station, which may refuse it. -/
def deliver (w : Cluster S σ) (receiver : String) (sender : PeerId) (protocol : StreamProtocol)
    (data : Bytes) : Cluster S σ × Option Bytes :=
  if Wire.largestEnvelope < data.length then (w, none)
  else
    match Assoc.get? w.stations receiver with
    | some ⟨_, _, _, .scripted p⟩ =>
      let received := p.received ++ [⟨sender, protocol, data.length⟩]
      (w.occupy receiver (.scripted { p with received }), p.answer?)
    | _ =>
      match w.onEvent receiver (.frame sender protocol data) with
      | (w, true) => (w, some Wire.acknowledgement)
      | (w, false) => (w, none)

/-- A frame of a station comes to a neighbour, if the link is still there. -/
def carry (w : Cluster S σ) (name : String) (origin : Origin) (peer : PeerId)
    (protocol : StreamProtocol) (data : Bytes) : Cluster S σ :=
  match Assoc.get? w.stations name, w.neighbour? name peer with
  | some s, some other =>
    let (w, answer?) := w.deliver other s.identity.peerId protocol data
    w.answer name origin answer?
  | _, _ => w.answer name origin none

/-! ### Recovery -/

/-- The discoveries up to the first one that is to be dialed, for a node. -/
def recoverUntilDial (w : Cluster S σ) (name : String) :
    List Discovered → Hosted S σ → Log → Hosted S σ × Log × Option Discovered
  | [], h, log => ({ h with machine := { h.machine with discoveries := [] } }, log, none)
  | d :: ds, h, log =>
    match Recovery.begin h.state.peerId d with
    | none => recoverUntilDial w name ds h log
    | some _ =>
      let isConnected := (w.neighbour? name d.peer).isSome
      match Recovery.onConnected d isConnected h.state.store w.clock.millis with
      | (store, none, more) =>
        recoverUntilDial w name ds { h with state := { h.state with store } } (log ++ more)
      | (_, some _, more) =>
        let machine := { h.machine with discoveries := ds }
        ({ h with machine, isRecovering := true }, log ++ more, some d)

/-- Recovery goes on, unless it awaits a dial. -/
def recover (w : Cluster S σ) (name : String) : Cluster S σ :=
  match w.alive? name with
  | none => w
  | some h =>
    if !h.recovers || h.isRecovering then w
    else
      let (h, log, dial?) := w.recoverUntilDial name h.machine.discoveries h []
      let w := (w.occupy name (.hosted h)).logged log
      match dial? with
      | some d => w.push name (.command (.dial d.peer d.addrs (.recovery d)))
      | none => w

/-! ### Happenings -/

/-- What a happening at a station brings about. -/
def happen (w : Cluster S σ) (name : String) : Happening → Cluster S σ
  | .command c => w.onCommand name c
  | .event e =>
    match e with
    | .discovered _ => (w.onEvent name e).1.push name .recovery
    | _ => (w.onEvent name e).1
  | .dial peer addrs =>
    let other? := w.reachable? name peer addrs
    let w := { w with dials := w.dials.filter fun d => d ≠ (name, peer) }
    match other? with
    | some other =>
      if (w.neighbours name).contains other then w.push name (.event (.connected peer))
      else w.link name other
    | none => w.push name (.event (.dialFailed peer "nobody there"))
  | .told teller =>
    match Assoc.get? w.stations teller with
    | some s =>
      if (w.neighbours name).contains teller then
        (w.onEvent name
          (.identified s.identity.peerId s.version s.identity.publicKey [s.listen])).1
      else w
    | none => w
  | .frame origin peer protocol data => w.carry name origin peer protocol data
  | .recovery => w.recover name

/-- The cluster a millisecond later. -/
def tick (w : Cluster S σ) : Cluster S σ :=
  { w with clock := { w.clock with millis := w.clock.millis + 1 } }

/-- The cluster after so many happenings, or when nothing more is to come. -/
def settleFor : (fuel : Nat) → Cluster S σ → Cluster S σ
  | 0, w => w
  | fuel + 1, w =>
    match w.queue with
    | [] => w
    | (name, what) :: queue => settleFor fuel ({ w with queue }.tick.happen name what)

/-- The cluster when nothing more is to come. What happens brings about only a few other things,
which end well before the fuel does. -/
def settle (w : Cluster S σ) : Cluster S σ :=
  settleFor 1000000 w

/-! ### Clients -/

/-- A client gives its host the same command so many times, and awaits the replies. -/
def ask (w : Cluster S σ) (name : String) (times : Nat) (c : Handle → Command Handle) :
    Cluster S σ × List (Except TransportError Unit) :=
  let tickets := (List.range times).map (w.nextTicket + ·)
  let w := { w with nextTicket := w.nextTicket + times }
  let w := (tickets.foldl (fun w t => w.push name (.command (c (.client t)))) w).settle
  (w, tickets.map fun t => (Assoc.get? w.replies t).getD (.error .hostClosed))

/-- A scripted peer sends a frame to a station, which it dials if it is not linked to it, and awaits
the answer. -/
def askByScript (w : Cluster S σ) (name : String) (peer : PeerId) (protocol : StreamProtocol)
    (data : Bytes) : Cluster S σ × Option Bytes :=
  let listens := w.stations.map fun (_, s) => s.listen
  let linked := match w.neighbour? name peer, w.reachable? name peer listens with
    | none, some other => w.link name other
    | _, _ => w
  let ticket := w.nextTicket
  let w := ({ linked with nextTicket := ticket + 1 }.push name
    (.frame (.script ticket) peer protocol data)).settle
  (w, (Assoc.get? w.answers ticket).getD none)

/-- An event for a host, and what comes of it. -/
def notify (w : Cluster S σ) (name : String) (e : Event) : Cluster S σ :=
  (w.push name (.event e)).settle

/-- The end of a host, and what comes of it. -/
def shutDown (w : Cluster S σ) (name : String) : Cluster S σ :=
  (w.kill name).settle

/-- The discoveries of a host, which are taken out. -/
def takeDiscoveries (w : Cluster S σ) (name : String) : Cluster S σ × List Discovered :=
  match w.hosted? name with
  | some h =>
    (w.occupy name (.hosted { h with machine := { h.machine with discoveries := [] } }),
      h.machine.discoveries)
  | none => (w, [])

/-- What a scripted peer got, which is taken out. -/
def takeReceived (w : Cluster S σ) (name : String) : Cluster S σ × List Received :=
  match Assoc.get? w.stations name with
  | some ⟨_, _, _, .scripted p⟩ =>
    (w.occupy name (.scripted { p with received := [] }), p.received)
  | _ => (w, [])

end Cluster

instance {S : SignatureScheme} {σ : Type} : World (Cluster S σ) S σ where
  node? w name := (w.hosted? name).map Hosted.state
  setNode w name state := w.updateHosted name fun h => { h with state }
  now w := w.clock
  below w n :=
    let (k, entropy) := w.entropy.below n
    (k, { w with entropy })
  messageId w :=
    let (id, entropy) := Wire.freshMessageId w.entropy
    (id, { w with entropy })
  report := Cluster.logged
  transmit w name _ peer protocol data :=
    let (w, results) := w.ask name 1 (.send peer protocol data)
    (w, results.headD (.error .hostClosed))
  drain := Cluster.settle
  waitUntil w millis := { w with clock := { w.clock with millis := max millis w.clock.millis } }
  connected w name := w.connected name

end KeyCustody.Simulation
