import KeyCustody.Bytes
/-!
# Heads of items

A document of RFC 8949 is a tree of items. An item starts with a head: three bits that tell what it
is and a number, which stands in the head's first octet if it is small and in one, two, four or
eight octets after it if not. Heads are written as short as possible; every length is read.

## Main definitions

* `Head`: what a head says.
* `ReadError`: why octets cannot be read.
* `encodeHead`, `readHead`: heads and octets.
-/

namespace KeyCustody.Cbor

/-- Why octets cannot be read. -/
inductive ReadError where
  /-- The octets end early. -/
  | truncated
  /-- A head or a text is ill formed. -/
  | malformed
  /-- An item is well formed but not of the kind that is wanted. -/
  | unfit
  /-- The items are nested too deep. -/
  | tooDeep
  deriving DecidableEq, Repr

/-- The word for a reading error. -/
def ReadError.message : ReadError → String
  | .truncated => "Io"
  | .malformed => "Syntax"
  | .unfit => "Semantic"
  | .tooDeep => "RecursionLimitExceeded"

/-- What a head says. A length is absent where the item goes on until a stop. -/
inductive Head where
  | unsigned (n : Nat)
  /-- The number `-1 - n`. -/
  | negative (n : Nat)
  | bytes (length : Option Nat)
  | text (length : Option Nat)
  | array (length : Option Nat)
  | map (length : Option Nat)
  | tag (n : Nat)
  | simple (n : Nat)
  /-- A floating-point number in two, four or eight octets. -/
  | float (octets : Bytes)
  | stop
  deriving DecidableEq, Repr

/-! ### Writing -/

/-- The three bits of each kind of item. -/
def unsignedMajor : Nat := 0
def negativeMajor : Nat := 1
def bytesMajor : Nat := 2
def textMajor : Nat := 3
def arrayMajor : Nat := 4
def mapMajor : Nat := 5
def tagMajor : Nat := 6
def otherMajor : Nat := 7

/-- The octet with the three bits `major` and the five bits `info`. -/
def leadOctet (major info : Nat) : UInt8 :=
  UInt8.ofNat (32 * major + info)

/-- The head with the three bits `major` and the number `n` in as few octets as possible. -/
def encodeHead (major n : Nat) : Bytes :=
  if n < 24 then [leadOctet major n]
  else if n < Nat.pow 2 8 then leadOctet major 24 :: Bytes.ofNatBE 1 n
  else if n < Nat.pow 2 16 then leadOctet major 25 :: Bytes.ofNatBE 2 n
  else if n < Nat.pow 2 32 then leadOctet major 26 :: Bytes.ofNatBE 4 n
  else leadOctet major 27 :: Bytes.ofNatBE 8 n

/-! ### Reading -/

/-- The first `n` octets and the rest. -/
def readExactly (n : Nat) (bs : Bytes) : Except ReadError (Bytes × Bytes) :=
  let taken := bs.take n
  if taken.length = n then .ok (taken, bs.drop n) else .error .truncated

/-- The octets of the number that the five bits `info` announce; none where they are the number, or
where there is no number. -/
def numberWidth (info : Nat) : Nat :=
  if info = 24 then 1 else if info = 25 then 2 else if info = 26 then 4 else if info = 27 then 8
  else 0

/-- The number of a head, absent in an indefinite one. -/
def headNumber (info : Nat) (octets : Bytes) : Option Nat :=
  if info < 24 then some info
  else if info = 31 then none
  else some (Bytes.toNatBE octets)

/-- What a head with the given three bits, five bits and octets of the number says. -/
def ofParts (major info : Nat) (octets : Bytes) : Except ReadError Head :=
  let number := headNumber info octets
  match major, number with
  | 0, some n => .ok (.unsigned n)
  | 1, some n => .ok (.negative n)
  | 2, n => .ok (.bytes n)
  | 3, n => .ok (.text n)
  | 4, n => .ok (.array n)
  | 5, n => .ok (.map n)
  | 6, some n => .ok (.tag n)
  | 7, none => .ok .stop
  | 7, some n => .ok (if octets.length ≤ 1 then .simple n else .float octets)
  | _, _ => .error .malformed

/-- The head at the start of the octets. -/
def readHead : Bytes → Except ReadError (Head × Bytes)
  | [] => .error .truncated
  | b :: bs =>
    let major := b.toNat / 32
    let info := b.toNat % 32
    if 28 ≤ info ∧ info < 31 then .error .malformed
    else do
      let (octets, bs) ← readExactly (numberWidth info) bs
      let head ← ofParts major info octets
      pure (head, bs)

end KeyCustody.Cbor
