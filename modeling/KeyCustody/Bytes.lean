/-!
# Byte strings

Byte strings are lists of octets, so that every codec of the library is a function on lists.
This file has the two positional readings of a byte string as a number, the passage between texts
and their UTF-8 octets, and the reading of octets that are not UTF-8 in which every maximal
ill-formed part becomes one replacement character.

## Main definitions

* `Bytes.ofNatBE`, `Bytes.ofNatLE`, `Bytes.toNatBE`, `Bytes.toNatLE`: numbers and octets.
* `Bytes.minimalBE`: the shortest big-endian form of a number.
* `Bytes.chunks`, `Bytes.xor`: pieces and combination of byte strings.
* `Bytes.ofText`, `Bytes.text?`, `Bytes.textLossy`: texts and octets.
* `Bytes.lexLt`: the lexicographic order of byte strings.
-/

namespace KeyCustody

/-- A byte string. -/
abbrev Bytes := List UInt8

namespace Bytes

/-! ### Numbers -/

/-- The number whose digits to base 256 are the octets, least significant first. -/
def toNatLE : Bytes → Nat
  | [] => 0
  | b :: bs => b.toNat + 256 * toNatLE bs

/-- The number whose digits to base 256 are the octets, most significant first. -/
def toNatBE (bs : Bytes) : Nat :=
  bs.foldl (fun n b => n * 256 + b.toNat) 0

/-- The lowest `width` digits of `n` to base 256, least significant first. -/
def ofNatLE : (width : Nat) → Nat → Bytes
  | 0, _ => []
  | width + 1, n => UInt8.ofNat (n % 256) :: ofNatLE width (n / 256)

/-- The lowest `width` digits of `n` to base 256, most significant first. -/
def ofNatBE (width n : Nat) : Bytes :=
  (ofNatLE width n).reverse

/-- How many digits to base 256 the number has; zero has none. -/
def natWidth (n : Nat) : Nat :=
  if n = 0 then 0 else n.log2 / 8 + 1

/-- The number in as few octets as possible, most significant first; zero is empty. -/
def minimalBE (n : Nat) : Bytes :=
  ofNatBE (natWidth n) n

@[simp] theorem length_ofNatLE (width n : Nat) : (ofNatLE width n).length = width := by
  induction width generalizing n with
  | zero => rfl
  | succ width ih => simp [ofNatLE, ih]

@[simp] theorem length_ofNatBE (width n : Nat) : (ofNatBE width n).length = width := by
  simp [ofNatBE]

/-! ### Pieces -/

/-- The byte string cut into pieces of `size` octets, the last of which may be shorter. There are
no pieces of no octets. -/
def chunks (size : Nat) (bs : Bytes) : List Bytes :=
  if _h : size = 0 ∨ bs = [] then []
  else bs.take size :: chunks size (bs.drop size)
termination_by bs.length
decreasing_by
  have : bs.length ≠ 0 := fun e => _h (Or.inr (List.eq_nil_of_length_eq_zero e))
  have : size ≠ 0 := fun e => _h (Or.inl e)
  simp only [List.length_drop]
  omega

/-- The octets of both byte strings combined by exclusive or, as far as the shorter one goes. -/
def xor (as bs : Bytes) : Bytes :=
  List.zipWith (· ^^^ ·) as bs

/-- Whether `needle` occurs in the byte string. -/
def contains (needle : Bytes) : Bytes → Bool
  | [] => needle.isEmpty
  | b :: bs => needle.isPrefixOf (b :: bs) || contains needle bs

/-! ### Texts -/

/-- The UTF-8 octets of a text. -/
def ofText (s : String) : Bytes :=
  s.toByteArray.data.toList

/-- The text whose UTF-8 octets these are, if they are well formed. -/
def text? (bs : Bytes) : Option String :=
  String.fromUTF8? ⟨bs.toArray⟩

/-- Whether the octet continues a character of several octets. -/
def isContinuation (b : UInt8) : Bool :=
  0x80 ≤ b && b ≤ 0xBF

/-- The number of octets of the character that a first octet announces, with the interval of the
second octet; `none` when the octet starts no character of several octets. -/
def sequenceStart (b : UInt8) : Option (Nat × UInt8 × UInt8) :=
  if 0xC2 ≤ b && b ≤ 0xDF then some (2, 0x80, 0xBF)
  else if b = 0xE0 then some (3, 0xA0, 0xBF)
  else if b = 0xED then some (3, 0x80, 0x9F)
  else if 0xE1 ≤ b && b ≤ 0xEF then some (3, 0x80, 0xBF)
  else if b = 0xF0 then some (4, 0x90, 0xBF)
  else if b = 0xF4 then some (4, 0x80, 0x8F)
  else if 0xF1 ≤ b && b ≤ 0xF3 then some (4, 0x80, 0xBF)
  else none

/-- The length of the longest beginning of `bs` that begins some character, and whether it is a
whole character; at least one octet of a byte string that is not empty. -/
def sequenceLength (bs : Bytes) : Nat × Bool :=
  match bs with
  | [] => (0, true)
  | b :: rest =>
    if b < 0x80 then (1, true)
    else match sequenceStart b with
      | none => (1, false)
      | some (n, low, high) =>
        match rest with
        | [] => (1, false)
        | c :: rest =>
          if c < low || high < c then (1, false)
          else
            let tail := (rest.take (n - 2)).takeWhile isContinuation
            (2 + tail.length, tail.length == n - 2)

/-- The octets with every maximal ill-formed part replaced by the octets of U+FFFD. The fuel is the
number of octets, since each round uses at least one. -/
def repair : (fuel : Nat) → Bytes → Bytes
  | 0, _ => []
  | _, [] => []
  | fuel + 1, bs =>
    let (n, whole) := sequenceLength bs
    (if whole then bs.take n else [0xEF, 0xBF, 0xBD]) ++ repair fuel (bs.drop n)

/-- The text of the octets, with U+FFFD for every maximal ill-formed part. -/
def textLossy (bs : Bytes) : String :=
  match text? bs with
  | some s => s
  | none => (text? (repair bs.length bs)).getD ""

/-! ### Order -/

/-- The lexicographic order: a proper beginning comes first. -/
def lexLt : Bytes → Bytes → Bool
  | _, [] => false
  | [], _ :: _ => true
  | a :: as, b :: bs => a < b || (a == b && lexLt as bs)

end Bytes

end KeyCustody
