import KeyCustody.Net.Transport
import KeyCustody.Peer.Store
/-!
# Recovery of discovered peers

A node that hears of a peer nearby connects to it and takes it into its peer store. Of two peers
that hear of each other only the one with the smaller id dials. What is done about one peer takes
steps between which other things may happen: the question whether it is connected, the dial, and the
entry in the store.

## Main definitions

* `Discovered`: a peer with the addresses that it announced.
* `shouldDial`: which of two peers dials.
* `Recovery`, `Recovery.begin`, `Recovery.onConnected`, `Recovery.onDial`: the steps.
* `Encounter`: an announcement with the answers that the node gives about it.
* `recoverAll`, `recover`: the steps for announcements one after another.
-/

namespace KeyCustody.Node

open Net (Multiaddr TransportError)
open Peer (PeerId PeerStore)

/-- A peer nearby, with the addresses that it announced. -/
structure Discovered where
  peer : PeerId
  addrs : List Multiaddr
  deriving DecidableEq

/-- How long the addresses of a recovered peer are good: twelve hours in milliseconds. -/
def recoveredTtl : Nat := 12 * 60 * 60 * 1000

/-- How long a dial may take: ten seconds in milliseconds. -/
def dialTimeout : Nat := 10 * 1000

/-- Whether the first of two peers is the one that dials. -/
def shouldDial (own remote : PeerId) : Bool :=
  own.lt remote

/-- How a dial ended, which is given up after a while. -/
inductive DialOutcome where
  | connected
  | failed (e : TransportError)
  | timedOut
  deriving DecidableEq

/-- What is awaited about a peer. -/
inductive Recovery where
  /-- Whether the peer is connected. -/
  | asking (d : Discovered)
  /-- How the dial ends. -/
  | dialing (d : Discovered)
  deriving DecidableEq

namespace Recovery

/-- The first step about a peer, if it is one to be dialed from here. -/
def begin (own : PeerId) (d : Discovered) : Option Recovery :=
  if d.peer = own ∨ !shouldDial own d.peer then none else some (.asking d)

/-- The store with a recovered peer. -/
def record (s : PeerStore) (d : Discovered) (now : Nat) : PeerStore :=
  s.addAddrs d.peer d.addrs recoveredTtl now

/-- The step after the answer whether the peer is connected: its addresses are recorded, or it is
dialed. -/
def onConnected (d : Discovered) (isConnected : Bool) (s : PeerStore) (now : Nat) :
    PeerStore × Option Recovery × Log :=
  if isConnected then (record s d now, none, [])
  else (s, some (.dialing d), info "Dialing discovered peer")

/-- The step after the dial. -/
def onDial (d : Discovered) (outcome : DialOutcome) (s : PeerStore) (now : Nat) :
    PeerStore × Log :=
  match outcome with
  | .connected => (record s d now, info "Peer recovered")
  | .failed _ => (s, warn "Recovery dial failed")
  | .timedOut => (s, warn "Recovery dial timed out")

end Recovery

/-- One announcement, and what the node finds about the peer when it comes to it. -/
structure Encounter where
  announced : Discovered
  /-- The answer whether the peer is connected. -/
  isConnected : Bool
  /-- The instant of this answer. -/
  answered : Nat
  /-- How a dial of the peer ends, if it is dialed. -/
  outcome : DialOutcome
  /-- The instant at which the dial ends. -/
  ended : Nat

/-- What came of announcements. -/
structure Recovered where
  store : PeerStore
  /-- The dials, the first one first. -/
  dialed : List Discovered
  log : Log
  /-- How long the dials took, in milliseconds. -/
  waited : Nat
  deriving DecidableEq

/-- What comes of one more announcement. -/
def recoverOne (own : PeerId) (r : Recovered) (e : Encounter) : Recovered :=
  match Recovery.begin own e.announced with
  | none => r
  | some _ =>
    match Recovery.onConnected e.announced e.isConnected r.store e.answered with
    | (store, none, log) => { r with store, log := r.log ++ log }
    | (store, some _, log) =>
      let (store, dialLog) := Recovery.onDial e.announced e.outcome store e.ended
      { store
        dialed := r.dialed ++ [e.announced]
        log := r.log ++ log ++ dialLog
        waited := if e.outcome = .timedOut then r.waited + dialTimeout else r.waited }

/-- What comes of announcements one after another. -/
def recoverAll (own : PeerId) (s : PeerStore) (es : List Encounter) : Recovered :=
  es.foldl (recoverOne own) ⟨s, [], [], 0⟩

/-- What comes of announcements one after another, where `isConnected` and `dial` are the answers
of the node. -/
def recover (own : PeerId) (isConnected : PeerId → Bool) (dial : Discovered → DialOutcome)
    (now : Nat) (s : PeerStore) (ds : List Discovered) : Recovered :=
  recoverAll own s (ds.map fun d => ⟨d, isConnected d.peer, now, dial d, now⟩)

end KeyCustody.Node
