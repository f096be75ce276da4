import KeyCustody.Bytes
/-!
# Distinguished encoding

The encoding of ASN.1 that key files use: an element is a tag octet, the length of its contents and
the contents. Lengths are written as short as possible, and so are integers, so that a value has one
encoding; reading refuses every other.
-/

namespace KeyCustody.Crypto.Der

/-- The length octets of contents of `n` octets. -/
def encodeLength (n : Nat) : Bytes :=
  if n < 128 then [UInt8.ofNat n]
  else
    let digits := Bytes.minimalBE n
    UInt8.ofNat (128 + digits.length) :: digits

/-- An element. -/
def encode (tag : UInt8) (contents : Bytes) : Bytes :=
  tag :: encodeLength contents.length ++ contents

/-- A length in its only form, and the octets after it. At most four octets hold a long one. -/
def readLength : Bytes → Option (Nat × Bytes)
  | [] => none
  | b :: rest =>
    if b < 0x80 then some (b.toNat, rest)
    else
      let width := b.toNat - 128
      let digits := rest.take width
      let n := Bytes.toNatBE digits
      if 1 ≤ width ∧ width ≤ 4 ∧ digits.length = width ∧ 128 ≤ n ∧
          Bytes.minimalBE n = digits then
        some (n, rest.drop width)
      else none

/-- The first element of a byte string: tag, contents and the octets after it. -/
def read : Bytes → Option (UInt8 × Bytes × Bytes)
  | [] => none
  | tag :: rest => do
    let (n, rest) ← readLength rest
    if n ≤ rest.length then some (tag, rest.take n, rest.drop n) else none

/-- The contents of the first element, which must have the tag, and the octets after it. -/
def expect (tag : UInt8) (bs : Bytes) : Option (Bytes × Bytes) := do
  let (t, contents, rest) ← read bs
  if t = tag then some (contents, rest) else none

/-- The contents of an element with the tag that takes up the whole byte string. -/
def expectWhole (tag : UInt8) (bs : Bytes) : Option Bytes := do
  let (contents, rest) ← expect tag bs
  if rest.isEmpty then some contents else none

/-! ### Kinds of elements -/

def integerTag : UInt8 := 0x02
def bitStringTag : UInt8 := 0x03
def octetStringTag : UInt8 := 0x04
def sequenceTag : UInt8 := 0x30

/-- A natural number; a zero octet in front keeps the sign bit clear. -/
def encodeNat (n : Nat) : Bytes :=
  let digits := Bytes.minimalBE n
  let contents := match digits with
    | [] => [0]
    | b :: _ => if b < 0x80 then digits else 0 :: digits
  encode integerTag contents

/-- The natural number of the contents of an integer in its only form. -/
def natOfContents : Bytes → Option Nat
  | [] => none
  | [0] => some 0
  | 0 :: b :: bs => if b < 0x80 then none else some (Bytes.toNatBE (b :: bs))
  | b :: bs => if b < 0x80 then some (Bytes.toNatBE (b :: bs)) else none

/-- A natural number and the octets after it. -/
def readNat (bs : Bytes) : Option (Nat × Bytes) := do
  let (contents, rest) ← expect integerTag bs
  let n ← natOfContents contents
  some (n, rest)

/-- Natural numbers one after another, as many as asked for, and the octets after them. -/
def readNats : (count : Nat) → Bytes → Option (List Nat × Bytes)
  | 0, bs => some ([], bs)
  | count + 1, bs => do
    let (n, bs) ← readNat bs
    let (ns, bs) ← readNats count bs
    some (n :: ns, bs)

/-- A sequence of natural numbers. -/
def encodeNats (ns : List Nat) : Bytes :=
  encode sequenceTag (ns.flatMap encodeNat)

/-- A byte string as a string of whole octets of bits. -/
def encodeBits (bs : Bytes) : Bytes :=
  encode bitStringTag (0 :: bs)

/-- The octets of a bit string without unused bits. -/
def octetsOfBits : Bytes → Option Bytes
  | 0 :: bs => some bs
  | _ => none

end KeyCustody.Crypto.Der
