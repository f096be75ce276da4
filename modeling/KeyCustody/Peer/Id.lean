import KeyCustody.Crypto.Sha256
import KeyCustody.Crypto.Signature
import KeyCustody.Peer.KeyRecord
import KeyCustody.Text.Base58
/-!
# Peer ids

A peer is named after its public key. Its id is a tagged digest: a code for the kind of the digest,
the length and the octets. The record of a short key is its own digest, so that the key can be read
back from the id; a longer one is hashed. The text of an id is base 58.

## Main definitions

* `PublicKey`: the octets of a public key, with its record.
* `PeerId`: a tagged digest of an admissible length.
* `PeerId.ofPublicKey`, `PeerId.embeddedKey?`: the id of a key, and the key in an id.
* `PeerId.toBytes`, `PeerId.ofBytes?`, `PeerId.toText`, `PeerId.ofText?`: octets and texts.
* `PeerId.lt`: the order of the octets.
-/

namespace KeyCustody.Peer

open Crypto (SignatureScheme keyLength)

/-! ### Public keys -/

/-- A public key. -/
structure PublicKey where
  /-- The octets of the key. -/
  bytes : Bytes
  /-- There are thirty-two of them. -/
  length_bytes : bytes.length = keyLength
  deriving DecidableEq

namespace PublicKey

/-- The record of a public key. -/
def toRecord (k : PublicKey) : Bytes :=
  KeyRecord.encode ⟨KeyRecord.ed25519, k.bytes⟩

/-- The public key in a record: it must be of the right kind and length, and the scheme must accept
its octets. -/
def ofRecord? (S : SignatureScheme) (bs : Bytes) : Option PublicKey := do
  let r ← KeyRecord.decode? bs
  if h : r.data.length = keyLength then
    if r.kind = KeyRecord.ed25519 ∧ S.isPublic r.data then some ⟨r.data, h⟩ else none
  else none

end PublicKey

/-! ### Digests -/

/-- The kinds of digests that name peers. -/
inductive DigestKind where
  /-- The digest is the record of the key itself. -/
  | inline
  /-- The digest is a hash of the record. -/
  | sha256
  deriving DecidableEq, Repr

/-- The code of a kind of digest. -/
def DigestKind.code : DigestKind → Nat
  | .inline => 0x00
  | .sha256 => 0x12

/-- The kind of digest with a code. -/
def DigestKind.ofCode? (n : Nat) : Option DigestKind :=
  if n = 0x00 then some .inline
  else if n = 0x12 then some .sha256
  else none

/-- The octets of the longest digest of a kind. -/
def DigestKind.longest : DigestKind → Nat
  | .inline => 42
  | .sha256 => 64

/-- The id of a peer. -/
structure PeerId where
  kind : DigestKind
  digest : Bytes
  /-- The digest is no longer than its kind allows. -/
  length_le : digest.length ≤ kind.longest
  deriving DecidableEq

namespace PeerId

/-- The id with a digest, if the digest is not too long. -/
def mk? (kind : DigestKind) (digest : Bytes) : Option PeerId :=
  if h : digest.length ≤ kind.longest then some ⟨kind, digest, h⟩ else none

/-- The octets of an id. -/
def toBytes (p : PeerId) : Bytes :=
  Varint.encode p.kind.code ++ Varint.encode p.digest.length ++ p.digest

/-- The id of octets: code and length are numbers without superfluous digits, and the digest takes
up the rest. -/
def ofBytes? (bs : Bytes) : Option PeerId := do
  let (code, bs) ← Varint.readMinimal 64 bs
  let (n, bs) ← Varint.readMinimal 64 bs
  let kind ← DigestKind.ofCode? code
  if bs.length = n then mk? kind bs else none

/-- The text of an id. -/
def toText (p : PeerId) : String :=
  Text.Base58.encode p.toBytes

/-- The id with a text. -/
def ofText? (s : String) : Option PeerId := do
  ofBytes? (← Text.Base58.decode? s)

/-- The order of ids by their octets. -/
def lt (p q : PeerId) : Bool :=
  Bytes.lexLt p.toBytes q.toBytes

/-! ### Keys and ids -/

/-- The id of a public key: its record is short enough to be its own digest. -/
def ofPublicKey (k : PublicKey) : PeerId :=
  ⟨.inline, k.toRecord, by
    have h1 : Varint.encode KeyRecord.kindTag = [8] := by
      rw [Varint.encode, dif_pos (by decide)]; rfl
    have h2 : Varint.encode KeyRecord.ed25519 = [1] := by
      rw [Varint.encode, dif_pos (by decide)]; rfl
    have h3 : Varint.encode KeyRecord.dataTag = [18] := by
      rw [Varint.encode, dif_pos (by decide)]; rfl
    have h4 : Varint.encode keyLength = [32] := by
      rw [Varint.encode, dif_pos (by decide)]; rfl
    simp [PublicKey.toRecord, KeyRecord.encode, k.length_bytes, h1, h2, h3, h4,
      DigestKind.longest, keyLength]⟩

/-- The public key whose record is the digest of an id. -/
def embeddedKey? (S : SignatureScheme) (p : PeerId) : Option PublicKey :=
  match p.kind with
  | .inline => PublicKey.ofRecord? S p.digest
  | .sha256 => none

end PeerId

end KeyCustody.Peer
