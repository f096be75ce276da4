import KeyCustody.Bytes
/-!
# The AES block cipher

The cipher of FIPS 197 on blocks of sixteen octets with keys of sixteen or thirty-two octets. A
block is the list of its octets, column by column. The substitution of octets is computed from its
definition: the inverse in the field with 256 elements, followed by an affine map of bits.
-/

namespace KeyCustody.Crypto

/-- A pair of maps on blocks, each meant to undo the other. -/
structure BlockCipher where
  /-- The encryption of a block. -/
  encrypt : Bytes → Bytes
  /-- The decryption of a block. -/
  decrypt : Bytes → Bytes

namespace Aes

/-- The octets in a block. -/
def blockSize : Nat := 16

/-! ### The field with 256 elements -/

/-- The double of a field element, reduced by the polynomial `x^8 + x^4 + x^3 + x + 1`. -/
def double (a : UInt8) : UInt8 :=
  if a < 0x80 then a <<< 1 else (a <<< 1) ^^^ 0x1B

/-- The product of field elements, over the lowest `bits` bits of the second. -/
def mulBits : (bits : Nat) → UInt8 → UInt8 → UInt8
  | 0, _, _ => 0
  | bits + 1, a, b => (if b % 2 = 1 then a else 0) ^^^ mulBits bits (double a) (b >>> 1)

/-- The product of field elements. -/
def mul (a b : UInt8) : UInt8 :=
  mulBits 8 a b

/-- The inverse of a field element; zero has none and stays. -/
def inverse (a : UInt8) : UInt8 :=
  (((List.range 256).map UInt8.ofNat).find? fun b => mul a b == 1).getD 0

/-- The octet with its bits turned to the left. -/
def rotateLeft (a n : UInt8) : UInt8 :=
  (a <<< n) ||| (a >>> (8 - n))

/-- The substitution of an octet. -/
def substitute (a : UInt8) : UInt8 :=
  let b := inverse a
  b ^^^ rotateLeft b 1 ^^^ rotateLeft b 2 ^^^ rotateLeft b 3 ^^^ rotateLeft b 4 ^^^ 0x63

/-- The substitutions of all octets. -/
def substitutions : Array UInt8 :=
  ((List.range 256).map fun n => substitute (UInt8.ofNat n)).toArray

/-- The octets whose substitutions are the octets in order. -/
def unsubstitutions : Array UInt8 :=
  ((List.range 256).map fun n =>
    UInt8.ofNat ((substitutions.findIdx? (· == UInt8.ofNat n)).getD 0)).toArray

/-- The substitution, looked up. -/
def sub (a : UInt8) : UInt8 :=
  substitutions.getD a.toNat 0

/-- The inverse substitution, looked up. -/
def unsub (a : UInt8) : UInt8 :=
  unsubstitutions.getD a.toNat 0

/-! ### The key schedule -/

/-- The words of the schedule from the last `width` words on, newest first; `n` words are still to
be made, `i` are there, and `rc` is the next round constant. -/
def expand (width : Nat) : (n : Nat) → (i : Nat) → (rc : UInt8) → List Bytes → List Bytes
  | 0, _, _, ws => ws
  | n + 1, i, rc, ws =>
    let last := ws.headD []
    let mixed :=
      if i % width = 0 then
        match last with
        | [a, b, c, d] => [sub b ^^^ rc, sub c, sub d, sub a]
        | w => w
      else if width > 6 ∧ i % width = 4 then last.map sub
      else last
    let w := Bytes.xor (ws.getD (width - 1) []) mixed
    expand width n (i + 1) (if i % width = 0 then double rc else rc) (w :: ws)

/-- The keys of the rounds, the key of the whitening before the first round included. -/
def roundKeys (key : Bytes) : List Bytes :=
  let width := key.length / 4
  let total := 4 * (width + 7)
  let ws := expand width (total - width) width 1 (Bytes.chunks 4 key).reverse
  Bytes.chunks 16 ws.reverse.flatten

/-! ### Rounds -/

/-- The rows of the block turned to the left, the row `r` by `r` places. -/
def shiftRows : Bytes → Bytes
  | [a0, a1, a2, a3, b0, b1, b2, b3, c0, c1, c2, c3, d0, d1, d2, d3] =>
    [a0, b1, c2, d3, b0, c1, d2, a3, c0, d1, a2, b3, d0, a1, b2, c3]
  | s => s

/-- The rows of the block turned to the right, the row `r` by `r` places. -/
def unshiftRows : Bytes → Bytes
  | [a0, a1, a2, a3, b0, b1, b2, b3, c0, c1, c2, c3, d0, d1, d2, d3] =>
    [a0, d1, c2, b3, b0, a1, d2, c3, c0, b1, a2, d3, d0, c1, b2, a3]
  | s => s

/-- Each column multiplied by the polynomial `3 x^3 + x^2 + x + 2`. -/
def mixColumns : Bytes → Bytes
  | a :: b :: c :: d :: rest =>
    let t := a ^^^ b ^^^ c ^^^ d
    (a ^^^ t ^^^ double (a ^^^ b)) :: (b ^^^ t ^^^ double (b ^^^ c)) ::
      (c ^^^ t ^^^ double (c ^^^ d)) :: (d ^^^ t ^^^ double (d ^^^ a)) :: mixColumns rest
  | _ => []

/-- Each column multiplied by the inverse of the polynomial of `mixColumns`. -/
def unmixColumns : Bytes → Bytes
  | a :: b :: c :: d :: rest =>
    let u := double (double (a ^^^ c))
    let v := double (double (b ^^^ d))
    mixColumns [a ^^^ u, b ^^^ v, c ^^^ u, d ^^^ v] ++ unmixColumns rest
  | _ => []

/-- The rounds after the whitening, the last of which does not mix columns. -/
def encryptRounds : List Bytes → Bytes → Bytes
  | [], s => s
  | [k], s => Bytes.xor (shiftRows (s.map sub)) k
  | k :: ks, s => encryptRounds ks (Bytes.xor (mixColumns (shiftRows (s.map sub))) k)

/-- The inverse rounds, with the keys in the reverse order and the whitening key last. -/
def decryptRounds : List Bytes → Bytes → Bytes
  | [], s => s
  | [k], s => Bytes.xor ((unshiftRows s).map unsub) k
  | k :: ks, s => decryptRounds ks (unmixColumns (Bytes.xor ((unshiftRows s).map unsub) k))

/-- The block cipher of a key of sixteen or thirty-two octets. -/
def cipher (key : Bytes) : BlockCipher :=
  let ks := roundKeys key
  let back := ks.reverse
  { encrypt := fun s => encryptRounds (ks.drop 1) (Bytes.xor s (ks.headD []))
    decrypt := fun s => decryptRounds (back.drop 1) (Bytes.xor s (back.headD [])) }

end Aes

end KeyCustody.Crypto
