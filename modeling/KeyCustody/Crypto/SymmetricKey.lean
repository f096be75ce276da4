import KeyCustody.Crypto.Aes
import KeyCustody.Crypto.Error
import KeyCustody.Text.Base64
/-!
# Symmetric encryption

A symmetric key encrypts a byte string with AES in cipher block chaining mode. The plaintext is
filled up to whole blocks, with a whole block of filling when it ends on a boundary, and the
ciphertext starts with the initialisation vector. The vector is an argument: whoever encrypts draws
a fresh one for every message.

## Main definitions

* `SymmetricKey`: a key of 16 or 32 octets; `SymmetricKey.ofBytes?` checks the length.
* `SymmetricKey.encrypt`, `SymmetricKey.decrypt`: the octets, with the vector in front.
* `SymmetricKey.encryptBase64`, `SymmetricKey.decryptBase64`: the same as texts, the form in which
  private keys are stored.
-/

namespace KeyCustody.Crypto

/-! ### Filling -/

/-- The octets of a block. -/
abbrev blockSize : Nat := Aes.blockSize

/-- The plaintext filled up to whole blocks; every filling octet is the number of filling octets. -/
def pad (data : Bytes) : Bytes :=
  let n := blockSize - data.length % blockSize
  data ++ List.replicate n (UInt8.ofNat n)

/-- The plaintext of a filled one. -/
def unpad? (data : Bytes) : Option Bytes :=
  let n := (data.getLast?.getD 0).toNat
  if 1 ≤ n ∧ n ≤ blockSize ∧ n ≤ data.length ∧
      (data.drop (data.length - n)).all (· == UInt8.ofNat n) then
    some (data.take (data.length - n))
  else none

/-! ### Chaining -/

namespace BlockCipher

/-- The ciphertext of plaintext blocks, each combined with the ciphertext block before it. -/
def encryptChain (c : BlockCipher) : (previous : Bytes) → List Bytes → Bytes
  | _, [] => []
  | previous, p :: ps =>
    let block := c.encrypt (Bytes.xor p previous)
    block ++ encryptChain c block ps

/-- The plaintext of ciphertext blocks. -/
def decryptChain (c : BlockCipher) : (previous : Bytes) → List Bytes → Bytes
  | _, [] => []
  | previous, b :: bs => Bytes.xor (c.decrypt b) previous ++ decryptChain c b bs

/-- The vector followed by the ciphertext of the filled plaintext. -/
def encryptMessage (c : BlockCipher) (iv data : Bytes) : Bytes :=
  iv ++ c.encryptChain iv (Bytes.chunks blockSize (pad data))

/-- The plaintext of a message that starts with its vector. -/
def decryptMessage (c : BlockCipher) (data : Bytes) : Except CryptoError Bytes :=
  if data.length < 2 * blockSize ∨ data.length % blockSize ≠ 0 then
    .error (.ciphertextTooShort data.length)
  else
    let plain := c.decryptChain (data.take blockSize)
      (Bytes.chunks blockSize (data.drop blockSize))
    match unpad? plain with
    | some data => .ok data
    | none => .error .badPadding

end BlockCipher

/-! ### Keys -/

/-- A symmetric key of 16 or 32 octets. -/
structure SymmetricKey where
  /-- The octets of the key. -/
  bytes : Bytes
  /-- There are 16 or 32 of them. -/
  length_bytes : bytes.length = 16 ∨ bytes.length = 32
  deriving DecidableEq

/-- The two lengths of symmetric keys. -/
inductive KeyKind where
  | aes128
  | aes256
  deriving DecidableEq, Repr

namespace SymmetricKey

/-- The key with the given octets. -/
def ofBytes? (bytes : Bytes) : Except CryptoError SymmetricKey :=
  if h : bytes.length = 16 ∨ bytes.length = 32 then .ok ⟨bytes, h⟩
  else .error (.invalidKeyLength bytes.length)

/-- Which of the two lengths the key has. -/
def kind (k : SymmetricKey) : KeyKind :=
  if k.bytes.length = 16 then .aes128 else .aes256

/-- The block cipher of the key. -/
def cipher (k : SymmetricKey) : BlockCipher :=
  Aes.cipher k.bytes

/-- The ciphertext of `data` under the vector `iv`. -/
def encrypt (k : SymmetricKey) (iv data : Bytes) : Bytes :=
  k.cipher.encryptMessage iv data

/-- The plaintext of a ciphertext. -/
def decrypt (k : SymmetricKey) (data : Bytes) : Except CryptoError Bytes :=
  k.cipher.decryptMessage data

/-- The ciphertext of `data` under the vector `iv` in base 64. -/
def encryptBase64 (k : SymmetricKey) (iv data : Bytes) : String :=
  Text.Base64.encode (k.encrypt iv data)

/-- The plaintext of a ciphertext in base 64. -/
def decryptBase64 (k : SymmetricKey) (data : String) : Except CryptoError Bytes :=
  match Text.Base64.decode? data with
  | some raw => k.decrypt raw
  | none => .error .invalidBase64

/-- The name of the key's kind, which is shown in place of its octets. -/
def shown (k : SymmetricKey) : String :=
  match k.kind with
  | .aes128 => "SymmetricKey::Aes128(..)"
  | .aes256 => "SymmetricKey::Aes256(..)"

end SymmetricKey

end KeyCustody.Crypto
