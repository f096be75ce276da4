import KeyCustody.Assoc
import KeyCustody.Outcome
/-!
# Watermarks of connections

A node keeps its connections between two watermarks. With more than the high one it closes the
oldest until the low one is left, but never a connection that is younger than a period of grace, so
that it may stop above the low watermark.

Instants are in milliseconds.

## Main definitions

* `Connections`: the watermarks, and since when each peer is connected.
* `Connections.connected`, `Connections.disconnected`: what is noted of a peer.
* `Connections.trim`: the connections to close.
-/

namespace KeyCustody.Node

variable {π : Type} [DecidableEq π]

/-- Since when peers are connected, and how many may be. -/
structure Connections (π : Type) where
  low : Nat
  high : Nat
  grace : Nat
  since : Assoc π Nat
  deriving DecidableEq, Repr

namespace Connections

/-- The number of peers. -/
def size (c : Connections π) : Nat :=
  c.since.length

/-- A connection of a peer at instant `now`; the time of the first one counts. -/
def connected (c : Connections π) (p : π) (now : Nat) : Connections π :=
  if Assoc.contains c.since p then c else { c with since := Assoc.put c.since p now }

/-- The last connection of a peer is gone. -/
def disconnected (c : Connections π) (p : π) : Connections π :=
  { c with since := Assoc.erase c.since p }

/-- The peers that are connected for the period of grace at least, the oldest first. -/
def candidates (c : Connections π) (now : Nat) : List π :=
  Assoc.keys ((c.since.filter fun p => c.grace ≤ now - p.2).mergeSort fun p q => p.2 ≤ q.2)

/-- The peers to disconnect at instant `now`, which are forgotten at once. A low watermark above the
number of peers that are over the high one makes it break down. -/
def trim (c : Connections π) (now : Nat) : Connections π × Outcome Empty (List π) :=
  if c.size ≤ c.high then (c, .value [])
  else if c.size < c.low then (c, .breakdown .subtractionOverflow)
  else
    let victims := (c.candidates now).take (c.size - c.low)
    ({ c with since := c.since.filter fun p => !victims.contains p.1 }, .value victims)

end Connections

end KeyCustody.Node
