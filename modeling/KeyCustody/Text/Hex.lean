import KeyCustody.Bytes
/-!
# Hexadecimal

An octet is written as two digits of base sixteen, the higher first. Writing uses lower-case
letters; reading takes letters of either case.
-/

namespace KeyCustody.Text.Hex

/-- The digit of a value below sixteen, a lower-case letter from ten on. -/
def digit (n : Nat) : Char :=
  if n < 10 then Char.ofNat (48 + n) else Char.ofNat (87 + n)

/-- The value of a digit of either case. -/
def digit? (c : Char) : Option Nat :=
  if '0' ≤ c ∧ c ≤ '9' then some (c.toNat - 48)
  else if 'a' ≤ c ∧ c ≤ 'f' then some (c.toNat - 87)
  else if 'A' ≤ c ∧ c ≤ 'F' then some (c.toNat - 55)
  else none

/-- Two digits for every octet. -/
def encodeList : Bytes → List Char
  | [] => []
  | b :: bs => digit (b.toNat / 16) :: digit (b.toNat % 16) :: encodeList bs

/-- The octets that pairs of digits stand for; an odd digit or another character is refused. -/
def decodeList : List Char → Option Bytes
  | [] => some []
  | [_] => none
  | h :: l :: cs =>
    match digit? h, digit? l, decodeList cs with
    | some h, some l, some bs => some (UInt8.ofNat (16 * h + l) :: bs)
    | _, _, _ => none

/-- The octets in lower-case hexadecimal. -/
def encode (bs : Bytes) : String :=
  String.ofList (encodeList bs)

/-- The octets that a hexadecimal text stands for. -/
def decode? (s : String) : Option Bytes :=
  decodeList s.toList

/-- The digits of a number to base sixteen, without leading zeros; zero is one digit. -/
def ofNat (n : Nat) : String :=
  String.ofList (Nat.toDigits 16 n)

end KeyCustody.Text.Hex
