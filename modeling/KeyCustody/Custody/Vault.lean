import KeyCustody.Assoc
import KeyCustody.Crypto.KeyFile
import KeyCustody.Crypto.SymmetricKey
import KeyCustody.Custody.Error
/-!
# The vault

Every identity has one RSA key pair, made when its first key is stored and kept in the vault of the
node, which all adaptors share. The private half is never kept in the clear: it is encrypted under
the symmetric key of the node. The vault also notes every key that was stored for an identity.

## Main definitions

* `SecretRecord`, `KeyNote`, `Vault`: what is kept.
* `Vault.insertSecret`: the first record of an identity stays.
* `SecretRecord.generate`, `SecretRecord.codec`: fresh pairs, and the codec of a record.
* `Vault.codecOf`, `Vault.codecFor`: the codec of an identity, which must have a pair or gets one.
-/

namespace KeyCustody.Custody

open Crypto (SymmetricKey Entropy)
open Crypto.Rsa (Codec)

/-- The key pair of an identity. -/
structure SecretRecord where
  /-- The file of the public key. -/
  publicText : String
  /-- The file of the private key, encrypted and in base 64. -/
  privateEncrypted : String
  deriving DecidableEq, Repr

/-- A key that was stored, with its content id in a content store. -/
structure KeyNote where
  secret : String
  cid? : Option String
  deriving DecidableEq, Repr

/-- Key pairs and notes by identity. -/
structure Vault where
  secrets : Assoc String SecretRecord
  notes : Assoc String (List KeyNote)
  deriving DecidableEq, Repr

namespace Vault

/-- The vault with nothing in it. -/
def empty : Vault := ⟨[], []⟩

/-- The key pair of an identity. -/
def secret? (v : Vault) (uuid : String) : Option SecretRecord :=
  Assoc.get? v.secrets uuid

/-- The vault with a key pair for an identity, unless it has one, and the one that it now has. -/
def insertSecret (v : Vault) (uuid : String) (r : SecretRecord) : Vault × SecretRecord :=
  match v.secret? uuid with
  | some old => (v, old)
  | none => ({ v with secrets := Assoc.put v.secrets uuid r }, r)

/-- The vault with one more note for an identity. -/
def addNote (v : Vault) (uuid : String) (n : KeyNote) : Vault :=
  { v with notes := Assoc.modify v.notes uuid [] (· ++ [n]) }

/-- The notes for an identity, the first one first. -/
def notesOf (v : Vault) (uuid : String) : List KeyNote :=
  (Assoc.get? v.notes uuid).getD []

end Vault

namespace SecretRecord

/-- The octets of the vector in front of a ciphertext. -/
def vectorLength : Nat := 16

/-- A fresh key pair of `bits` bits. -/
def generate (uuid : String) (aes : SymmetricKey) (bits : Nat) (r : Entropy) :
    Except AdaptorError SecretRecord × Entropy :=
  match Crypto.KeyFile.Pair.generate bits r with
  | (.error e, r) => (.error (.codec uuid e), r)
  | (.ok pair, r) =>
    let (iv, r) := r.draw vectorLength
    (.ok ⟨pair.publicText, aes.encryptBase64 iv (Bytes.ofText pair.privateText)⟩, r)

/-- The codec of a record: its private half is decrypted, and both halves are read. -/
def codec (uuid : String) (r : SecretRecord) (aes : SymmetricKey) : Outcome AdaptorError Codec := do
  let octets ← (Outcome.ofExcept (aes.decryptBase64 r.privateEncrypted)).mapFailure (.codec uuid)
  match Bytes.text? octets with
  | none => .failure (.backend ("stored private key for " ++ uuid ++ " is not UTF-8"))
  | some privateText =>
    (Crypto.KeyFile.loadCodec r.publicText privateText).mapFailure (.codec uuid)

end SecretRecord

namespace Vault

/-- The codec of an identity. It is for lookups on a chain, where no pair means no key. -/
def codecOf (v : Vault) (chain uuid : String) (aes : SymmetricKey) : Outcome AdaptorError Codec :=
  match v.secret? uuid with
  | some r => r.codec uuid aes
  | none => .failure (.keyNotFound chain uuid)

/-- The codec of an identity with its record. If there is none, one of `bits` bits is made, and the
vault keeps it even if it is too short to be read again. -/
def codecFor (v : Vault) (uuid : String) (aes : SymmetricKey) (bits : Nat) (r : Entropy) :
    Outcome AdaptorError (Codec × SecretRecord) × Vault × Entropy :=
  let withRecord (record : SecretRecord) : Outcome AdaptorError (Codec × SecretRecord) := do
    pure (← record.codec uuid aes, record)
  match v.secret? uuid with
  | some record => (withRecord record, v, r)
  | none =>
    match SecretRecord.generate uuid aes bits r with
    | (.error e, r) => (.failure e, v, r)
    | (.ok fresh, r) =>
      let (v, record) := v.insertSecret uuid fresh
      (withRecord record, v, r)

end Vault

end KeyCustody.Custody
