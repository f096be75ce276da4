import KeyCustody.Bytes
/-!
# Signature schemes

What the rest of the library asks of a signature scheme: a public key for every seed, signatures of
byte strings, and their verification. The scheme in use is `KeyCustody.Crypto.Ed25519.scheme`.
-/

namespace KeyCustody.Crypto

/-- The octets of a seed and of a public key. -/
abbrev keyLength : Nat := 32

/-- A signature scheme over byte strings. -/
structure SignatureScheme where
  /-- The public key of a seed. -/
  publicOf : (seed : Bytes) → Bytes
  /-- Public keys have a fixed length. -/
  length_publicOf : ∀ seed, (publicOf seed).length = keyLength
  /-- Whether a byte string is a public key at all. -/
  isPublic : Bytes → Bool
  /-- The signature of a message under a seed. -/
  sign : (seed message : Bytes) → Bytes
  /-- Whether a signature of a message is good under a public key. -/
  verify : (publicKey message signature : Bytes) → Bool

/-- A scheme accepts the signatures that it makes. -/
def SignatureScheme.AcceptsOwn (S : SignatureScheme) : Prop :=
  ∀ seed message, S.verify (S.publicOf seed) message (S.sign seed message) = true

end KeyCustody.Crypto
