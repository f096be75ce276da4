import KeyCustody.Crypto.Entropy
import KeyCustody.Crypto.Error
import KeyCustody.Crypto.Modular
import KeyCustody.Outcome
/-!
# RSA on blocks and on messages

A block is encrypted by raising a number below the modulus to the public exponent. The number is
made of the plaintext block with the padding of PKCS #1 version 1.5 in front, which takes at least
eleven octets. A message is cut into blocks that leave room for the padding; each is encrypted on
its own and the results are strung together. Decryption walks the ciphertext in pieces of the size
of the modulus.

## Main definitions

* `Rsa.PublicKey`, `Rsa.PrivateKey`: the numbers of a key, with the conditions on them.
* `Rsa.encryptBlock`, `Rsa.decryptBlock`: one block.
* `Rsa.Codec`: a key of which either half may be missing, acting on messages.
* `Rsa.generate`: a fresh private key.
-/

namespace KeyCustody.Crypto.Rsa

/-! ### Keys -/

/-- The bits of the largest modulus. -/
def largestBits : Nat := 4096

/-- The least and the largest public exponent. -/
def leastExponent : Nat := 2
def largestExponent : Nat := Nat.pow 2 33 - 1

/-- How many bits the number has. -/
def bitLength (n : Nat) : Nat :=
  if n = 0 then 0 else n.log2 + 1

/-- The public half of a key pair. -/
structure PublicKey where
  modulus : Nat
  exponent : Nat
  deriving DecidableEq, Repr

/-- The octets of the modulus, which are those of a ciphertext block. -/
def PublicKey.size (k : PublicKey) : Nat :=
  (bitLength k.modulus + 7) / 8

/-- Whether a public key is fit for use: the modulus is odd and not too long, and the exponent is
odd, within its bounds and below the modulus. -/
def PublicKey.isValid (k : PublicKey) : Bool :=
  bitLength k.modulus ≤ largestBits && k.exponent < k.modulus && k.modulus % 2 == 1 &&
    k.exponent % 2 == 1 && leastExponent ≤ k.exponent && k.exponent ≤ largestExponent

/-- The private half of a key pair, which has the public one in it. -/
structure PrivateKey where
  modulus : Nat
  publicExponent : Nat
  privateExponent : Nat
  prime1 : Nat
  prime2 : Nat
  deriving DecidableEq, Repr

/-- The public half that belongs to a private one. -/
def PrivateKey.toPublic (k : PrivateKey) : PublicKey :=
  ⟨k.modulus, k.publicExponent⟩

/-- The octets of the modulus. -/
def PrivateKey.size (k : PrivateKey) : Nat :=
  k.toPublic.size

/-- Whether the exponents undo each other to the modulus `p - 1`, which breaks down for `p = 1`. -/
def exponentsAgree (k : PrivateKey) (p : Nat) : Outcome Unit Bool :=
  if p = 1 then .breakdown .divisionByZero
  else .value (k.publicExponent * k.privateExponent % (p - 1) == 1)

/-- The check of a private key: its public half is fit for use, the primes multiply to the modulus,
and the exponents undo each other to each prime minus one. -/
def PrivateKey.check (k : PrivateKey) : Outcome Unit PrivateKey :=
  if k.toPublic.isValid ∧ k.prime1 ≠ 0 ∧ k.prime2 ≠ 0 ∧ k.prime1 * k.prime2 = k.modulus then
    (exponentsAgree k k.prime1).bind fun first =>
      if first then
        (exponentsAgree k k.prime2).bind fun second =>
          if second then .value k else .failure ()
      else .failure ()
  else .failure ()

/-! ### Blocks -/

/-- The octets that padding takes up at least. -/
def overhead : Nat := 11

/-- The block that is encrypted: a zero octet, the octet 2, the padding, a zero octet, the data. -/
def padBlock (padding data : Bytes) : Bytes :=
  0 :: 2 :: padding ++ 0 :: data

/-- The data of a padded block whose padding has at least eight octets, none of them zero. -/
def unpadBlock? : Bytes → Option Bytes
  | 0 :: 2 :: rest =>
    let padding := rest.takeWhile (· != 0)
    if 8 ≤ padding.length ∧ padding.length < rest.length then
      some (rest.drop (padding.length + 1))
    else none
  | _ => none

/-- The ciphertext block of `data` with the given padding, which has the length that fills the
block. -/
def encryptBlockWith (k : PublicKey) (padding data : Bytes) : Bytes :=
  Bytes.ofNatBE k.size
    (Modular.pow (Bytes.toNatBE (padBlock padding data)) k.exponent k.modulus)

/-- The ciphertext block of `data`, with random padding. -/
def encryptBlock (k : PublicKey) (data : Bytes) (r : Entropy) :
    Except CryptoError Bytes × Entropy :=
  if k.size < data.length + overhead then (.error .encryptFailed, r)
  else
    let (padding, r) := r.drawNonzero (k.size - data.length - 3)
    (.ok (encryptBlockWith k padding data), r)

/-- The data of a ciphertext block: a number below the modulus whose root is a padded block. -/
def decryptBlock (k : PrivateKey) (block : Bytes) : Except CryptoError Bytes :=
  let c := Bytes.toNatBE block
  let m := Modular.pow c k.privateExponent k.modulus
  if c < k.modulus ∧ Modular.pow m k.publicExponent k.modulus = c then
    match unpadBlock? (Bytes.ofNatBE k.size m) with
    | some data => .ok data
    | none => .error .decryptFailed
  else .error .decryptFailed

/-! ### Messages -/

/-- A key of which either half may be missing. -/
structure Codec where
  publicKey : Option PublicKey
  privateKey : Option PrivateKey
  deriving DecidableEq, Repr

namespace Codec

/-- The pieces of a message that are encrypted one by one; an empty message is one empty piece. -/
def pieces (size : Nat) (data : Bytes) : List Bytes :=
  if data.isEmpty then [[]] else Bytes.chunks size data

/-- The ciphertext blocks of pieces. -/
def encryptPieces (k : PublicKey) : List Bytes → Entropy → Except CryptoError Bytes × Entropy
  | [], r => (.ok [], r)
  | piece :: rest, r =>
    match encryptBlock k piece r with
    | (.error e, r) => (.error e, r)
    | (.ok block, r) =>
      match encryptPieces k rest r with
      | (.error e, r) => (.error e, r)
      | (.ok blocks, r) => (.ok (block ++ blocks), r)

/-- The ciphertext of a message. A modulus that leaves no room for data makes it break down: with
fewer octets than the padding takes the room is negative, with as many there are no pieces. -/
def encrypt (c : Codec) (data : Bytes) (r : Entropy) : Outcome CryptoError Bytes × Entropy :=
  match c.publicKey with
  | none => (.failure (.missingKey .publicHalf), r)
  | some k =>
    if k.size < overhead then (.breakdown .subtractionOverflow, r)
    else if k.size = overhead then (.breakdown .divisionByZero, r)
    else
      let (result, r) := encryptPieces k (pieces (k.size - overhead) data) r
      (.ofExcept result, r)

/-- The plaintexts of ciphertext blocks. -/
def decryptPieces (k : PrivateKey) : List Bytes → Except CryptoError Bytes
  | [] => .ok []
  | block :: rest => do
    let head ← decryptBlock k block
    let tail ← decryptPieces k rest
    pure (head ++ tail)

/-- The message of a ciphertext; no block is an empty message. -/
def decrypt (c : Codec) (data : Bytes) : Except CryptoError Bytes :=
  match c.privateKey with
  | none => .error (.missingKey .privateHalf)
  | some k => decryptPieces k (Bytes.chunks k.size data)

/-- The octets of the modulus, if there is a key at all. -/
def keySize (c : Codec) : Option Nat :=
  match c.publicKey with
  | some k => some k.size
  | none => c.privateKey.map PrivateKey.size

end Codec

/-! ### Fresh keys -/

/-- The public exponent of fresh keys. -/
def freshExponent : Nat := 65537

/-- The bits of the shortest modulus for which there are primes enough to choose from. -/
def fewestBits : Nat := 12

/-- An odd number of `bits` bits whose two highest bits are set. -/
def oddCandidate (bits : Nat) (r : Entropy) : Nat × Entropy :=
  let (bs, r) := r.draw (bits / 8 + 1)
  let low := Bytes.toNatBE bs % Nat.pow 2 (bits - 2)
  (3 * Nat.pow 2 (bits - 2) + low / 2 * 2 + 1, r)

/-- A number of `bits` bits that seems prime, found among `fuel` candidates. -/
def findPrime (bits : Nat) : (fuel : Nat) → Entropy → Option Nat × Entropy
  | 0, r => (none, r)
  | fuel + 1, r =>
    let (n, r) := oddCandidate bits r
    if Modular.seemsPrime n then (some n, r) else findPrime bits fuel r

/-- The private key of two primes, if the fresh exponent has an inverse. -/
def ofPrimes? (p q : Nat) : Option PrivateKey := do
  let d ← Modular.inverse? freshExponent ((p - 1) * (q - 1))
  some ⟨p * q, freshExponent, d, p, q⟩

/-- A private key of `bits` bits, found in `fuel` rounds of two primes each. -/
def findKey (bits : Nat) : (fuel : Nat) → Entropy → Option PrivateKey × Entropy
  | 0, r => (none, r)
  | fuel + 1, r =>
    match findPrime (bits / 2) (64 * bits) r with
    | (none, r) => (none, r)
    | (some p, r) =>
      match findPrime (bits - bits / 2) (64 * bits) r with
      | (none, r) => (none, r)
      | (some q, r) =>
        match ofPrimes? p q with
        | some k => if p ≠ q ∧ bitLength k.modulus = bits then (some k, r) else findKey bits fuel r
        | none => findKey bits fuel r

/-- A fresh private key of `bits` bits. Below `fewestBits` bits there are too few primes, above
`largestBits` no key is fit for use, and so no key is looked for. -/
def generate (bits : Nat) (r : Entropy) : Except CryptoError PrivateKey × Entropy :=
  if bits < fewestBits ∨ largestBits < bits then (.error .keyGeneration, r)
  else
    match findKey bits 256 r with
    | (some k, r) =>
      match k.check with
      | .value k => (.ok k, r)
      | _ => (.error .keyGeneration, r)
    | (none, r) => (.error .keyGeneration, r)

end KeyCustody.Crypto.Rsa
