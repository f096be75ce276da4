import KeyCustody.Assoc
import KeyCustody.Net.Multiaddr
import KeyCustody.Node.Log
/-!
# The peer store

What a node knows of its peers: addresses that are good until some instant, and the public keys by
which messages are checked. A key is taken only if the peer id belongs to it. A peer of which no key
was learned has the one in its id, if it is in the store at all.

Instants are in milliseconds.

## Main definitions

* `PeerRecord`, `PeerStore`: the records by peer.
* `PeerStore.addAddrs`, `PeerStore.setPublicKey`, `PeerStore.remove`: changes.
* `PeerStore.addrs`, `PeerStore.peers`, `PeerStore.publicKey?`: views at an instant.
-/

namespace KeyCustody.Peer

open Crypto (SignatureScheme)
open Net (Multiaddr)

/-- What is known of a peer. -/
structure PeerRecord where
  /-- The addresses, each with the instant at which it stops being good. -/
  addrs : Assoc Multiaddr Nat
  /-- The public key that was learned. -/
  publicKey? : Option PublicKey
  deriving DecidableEq

/-- What is known of all peers. -/
structure PeerStore where
  records : Assoc PeerId PeerRecord
  deriving DecidableEq

namespace PeerRecord

/-- Nothing but that there is the peer. -/
def empty : PeerRecord := ⟨[], none⟩

/-- The record with an address that is good until `expires` at least. -/
def addAddr (expires : Nat) (r : PeerRecord) (a : Multiaddr) : PeerRecord :=
  { r with addrs := Assoc.modify r.addrs a expires (max expires) }

/-- The addresses that are good at instant `now`. -/
def goodAddrs (r : PeerRecord) (now : Nat) : List Multiaddr :=
  Assoc.keys (r.addrs.filter fun p => now < p.2)

end PeerRecord

namespace PeerStore

/-- The store without peers. -/
def empty : PeerStore := ⟨[]⟩

/-- The store with addresses of a peer that are good for `ttl` from `now` on. -/
def addAddrs (s : PeerStore) (p : PeerId) (addrs : List Multiaddr) (ttl now : Nat) : PeerStore :=
  ⟨Assoc.modify s.records p .empty fun r => addrs.foldl (PeerRecord.addAddr (now + ttl)) r⟩

/-- The store with the public key of a peer; a key that does not belong to the id is ignored. -/
def setPublicKey (s : PeerStore) (p : PeerId) (k : PublicKey) : PeerStore × Node.Log :=
  if PeerId.ofPublicKey k = p then
    (⟨Assoc.modify s.records p .empty fun r => { r with publicKey? := some k }⟩, [])
  else (s, Node.warn "Ignoring public key that does not match peer id")

/-- The store without a peer. -/
def remove (s : PeerStore) (p : PeerId) : PeerStore :=
  ⟨Assoc.erase s.records p⟩

/-- The public key of a peer in the store: the one that was learned, else the one in its id. -/
def publicKey? (S : SignatureScheme) (s : PeerStore) (p : PeerId) : Option PublicKey := do
  let r ← Assoc.get? s.records p
  r.publicKey?.or (p.embeddedKey? S)

/-- The addresses of a peer that are good at instant `now`. -/
def addrs (s : PeerStore) (p : PeerId) (now : Nat) : List Multiaddr :=
  match Assoc.get? s.records p with
  | some r => r.goodAddrs now
  | none => []

/-- The peers with an address that is good at instant `now`. -/
def peers (s : PeerStore) (now : Nat) : List PeerId :=
  Assoc.keys (s.records.filter fun p => !(p.2.goodAddrs now).isEmpty)

/-- The number of peers with a good address. -/
def size (s : PeerStore) (now : Nat) : Nat :=
  (s.peers now).length

end PeerStore

end KeyCustody.Peer
