import KeyCustody.Peer.Varint
/-!
# Records of keys

Keys travel in a record of two numbered fields: the kind of the key and its octets. Every field is a
tag, which is the number of the field with the form of its contents, and the contents. A reader
skips fields that it does not know, and of a repeated field the last one counts, so that a key has
many records but one that is written.

## Main definitions

* `KeyRecord.encode`: the record that is written.
* `KeyRecord.decode?`: the kind and the octets in a record.
-/

namespace KeyCustody.Peer

/-- The kind of a key and its octets. -/
structure KeyRecord where
  kind : Nat
  data : Bytes
  deriving DecidableEq, Repr

namespace KeyRecord

/-! ### Tags -/

/-- The tag of the kind: field one, a variable-length number. -/
def kindTag : Nat := 8

/-- The tag of the octets: field two, a length and as many octets. -/
def dataTag : Nat := 18

/-- The kind of the keys in use here. -/
def ed25519 : Nat := 1

/-- The record of a key. -/
def encode (r : KeyRecord) : Bytes :=
  Varint.encode kindTag ++ Varint.encode r.kind ++
    Varint.encode dataTag ++ Varint.encode r.data.length ++ r.data

/-! ### Reading -/

/-- The octets after the first `n`, of which there must be as many. -/
def dropExactly (n : Nat) (bs : Bytes) : Option Bytes :=
  if n ≤ bs.length then some (bs.drop n) else none

/-- The octets after the contents of an unknown field, whose form the last three bits of the tag
tell: a number, eight octets, a length with as many octets, or four octets. -/
def skip (tag : Nat) (bs : Bytes) : Option Bytes :=
  match tag % 8 with
  | 0 => (Varint.read 64 bs).map Prod.snd
  | 1 => dropExactly 8 bs
  | 2 => do
    let (n, bs) ← Varint.read 64 bs
    dropExactly n bs
  | 5 => dropExactly 4 bs
  | _ => none

/-- The record after one more field, and the octets after the field. -/
def readField (r : KeyRecord) (bs : Bytes) : Option (KeyRecord × Bytes) := do
  let (tag, bs) ← Varint.read 32 bs
  if tag = kindTag then
    let (kind, bs) ← Varint.read 32 bs
    some ({ r with kind }, bs)
  else if tag = dataTag then
    let (n, bs) ← Varint.read 32 bs
    let rest ← dropExactly n bs
    some ({ r with data := bs.take n }, rest)
  else
    let bs ← skip tag bs
    some (r, bs)

/-- The record after all fields. The fuel is the number of octets, since a field has at least
one. -/
def readFields : (fuel : Nat) → KeyRecord → Bytes → Option KeyRecord
  | _, r, [] => some r
  | 0, _, _ :: _ => none
  | fuel + 1, r, bs => do
    let (r, bs) ← readField r bs
    readFields fuel r bs

/-- The key in a record; a missing kind is zero, and missing octets are none. -/
def decode? (bs : Bytes) : Option KeyRecord :=
  readFields bs.length ⟨0, []⟩ bs

end KeyRecord

end KeyCustody.Peer
