import KeyCustody.Peer.Id
import KeyCustody.Text.Base64
import KeyCustody.Text.Blank
import KeyCustody.Text.Hex
/-!
# Identities

A node signs with one key pair, and its peer id is that of the public half. The private half is
given to a node as a text: the record of the key pair in hexadecimal or in base 64. A text of an
even number of hexadecimal digits counts as hexadecimal, whatever else it might be.

## Main definitions

* `Identity`: a seed with its public key.
* `Identity.sign`, `PublicKey.verify`: signatures.
* `Identity.encode`, `Identity.ofEncoded`: the text form, and the key pair in a text.
-/

namespace KeyCustody.Peer

open Crypto (SignatureScheme keyLength)

/-- A key pair of a signature scheme. -/
structure Identity (S : SignatureScheme) where
  /-- The secret from which the keys are made. -/
  seed : Bytes
  /-- The public half. -/
  publicKey : PublicKey
  /-- The secret has a fixed length. -/
  length_seed : seed.length = keyLength
  /-- The halves match. -/
  publicKey_bytes : publicKey.bytes = S.publicOf seed

/-- Why a text holds no identity. -/
inductive IdentityError where
  | unset (name : String)
  | empty
  | invalidBase64
  | invalidRecord
  deriving DecidableEq, Repr

/-- The words for an unusable text. -/
def IdentityError.message : IdentityError → String
  | .unset name => "private key environment variable " ++ name ++ " is not set"
  | .empty => "empty private key"
  | .invalidBase64 => "invalid private key base64"
  | .invalidRecord => "invalid private key encoding"

/-- Whether a signature of a message is good under a public key. -/
def PublicKey.verify (S : SignatureScheme) (k : PublicKey) (message signature : Bytes) : Bool :=
  S.verify k.bytes message signature

namespace Identity

variable {S : SignatureScheme}

/-- The identity of a seed. -/
def ofSeed (S : SignatureScheme) (seed : Bytes) (h : seed.length = keyLength) : Identity S :=
  ⟨seed, ⟨S.publicOf seed, S.length_publicOf seed⟩, h, rfl⟩

/-- The peer id of an identity. -/
def peerId (i : Identity S) : PeerId :=
  .ofPublicKey i.publicKey

/-- The signature of a message. -/
def sign (i : Identity S) (message : Bytes) : Bytes :=
  S.sign i.seed message

/-! ### Records -/

/-- The record of a key pair: the seed and the public key one after the other. -/
def toRecord (i : Identity S) : Bytes :=
  KeyRecord.encode ⟨KeyRecord.ed25519, i.seed ++ i.publicKey.bytes⟩

/-- The identity in a record, whose public half must be the one of the seed. -/
def ofRecord? (S : SignatureScheme) (bs : Bytes) : Option (Identity S) := do
  let r ← KeyRecord.decode? bs
  let seed := r.data.take keyLength
  if h : seed.length = keyLength then
    let i := ofSeed S seed h
    if r.kind = KeyRecord.ed25519 ∧ r.data.drop keyLength = i.publicKey.bytes then some i
    else none
  else none

/-! ### Texts -/

/-- The text form: the record in hexadecimal. -/
def encode (i : Identity S) : String :=
  Text.Hex.encode i.toRecord

/-- The octets that a trimmed text stands for. -/
def octetsOf (cs : List Char) : Except IdentityError Bytes :=
  match Text.Hex.decodeList (Text.dropHexMarks cs) with
  | some bs => .ok bs
  | none =>
    match Text.Base64.decodeList cs with
    | some bs => .ok bs
    | none => .error .invalidBase64

/-- The identity in a text, around which blanks do no harm. -/
def ofEncoded (S : SignatureScheme) (s : String) : Except IdentityError (Identity S) :=
  let cs := Text.trimList s.toList
  if cs.isEmpty then .error .empty
  else do
    let bs ← octetsOf cs
    match ofRecord? S bs with
    | some i => .ok i
    | none => .error .invalidRecord

/-- The identity in the value of an environment variable. -/
def ofVariable (S : SignatureScheme) (name : String) (value : Option String) :
    Except IdentityError (Identity S) :=
  match value with
  | some s => ofEncoded S s
  | none => .error (.unset name)

end Identity

end KeyCustody.Peer
