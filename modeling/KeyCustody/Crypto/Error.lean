/-!
# Failures of the cryptographic operations
-/

namespace KeyCustody.Crypto

/-- The halves of an RSA key pair. -/
inductive KeyHalf where
  | publicHalf
  | privateHalf
  deriving DecidableEq, Repr

/-- The word for a half of a key pair. -/
def KeyHalf.name : KeyHalf → String
  | .publicHalf => "public"
  | .privateHalf => "private"

/-- Why a cryptographic operation failed. -/
inductive CryptoError where
  /-- A symmetric key with a number of octets other than 16 and 32. -/
  | invalidKeyLength (length : Nat)
  /-- A symmetric ciphertext whose length no encryption produces. -/
  | ciphertextTooShort (length : Nat)
  /-- A symmetric ciphertext that does not end in a padding. -/
  | badPadding
  /-- No key pair of the wanted size can be made. -/
  | keyGeneration
  /-- A text that holds no key of the wanted form. -/
  | invalidPem
  /-- The half of the key pair that the operation needs is not there. -/
  | missingKey (half : KeyHalf)
  /-- A block that is too long for the modulus. -/
  | encryptFailed
  /-- A block that no encryption produces. -/
  | decryptFailed
  /-- A text that is not base 64. -/
  | invalidBase64
  deriving DecidableEq, Repr

/-- The wording of a failure. -/
def CryptoError.message : CryptoError → String
  | .invalidKeyLength n =>
    "invalid symmetric key length " ++ toString n ++ ": expected 16 or 32 bytes"
  | .ciphertextTooShort n => "ciphertext too short: " ++ toString n ++ " bytes"
  | .badPadding => "bad padding or corrupted ciphertext"
  | .keyGeneration => "rsa key generation failed"
  | .invalidPem => "invalid PEM key"
  | .missingKey half => "no " ++ half.name ++ " key loaded"
  | .encryptFailed => "rsa encrypt failed"
  | .decryptFailed => "rsa decrypt failed"
  | .invalidBase64 => "base64 decode failed"

end KeyCustody.Crypto
