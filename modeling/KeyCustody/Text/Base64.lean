import KeyCustody.Bytes
/-!
# Base 64

Three octets are written as four digits of the standard alphabet; a last group of one or two octets
is filled up with the sign `=`. Reading accepts exactly what writing produces: the fill must be
there, nothing may follow it, no white space is skipped, and the digit bits that belong to no octet
must be zero.
-/

namespace KeyCustody.Text.Base64

/-- The digit of a value below sixty-four in the standard alphabet. -/
def digit (n : Nat) : Char :=
  if n < 26 then Char.ofNat (65 + n)
  else if n < 52 then Char.ofNat (71 + n)
  else if n < 62 then Char.ofNat (n - 4)
  else if n = 62 then '+'
  else '/'

/-- The value of a digit of the standard alphabet. -/
def digit? (c : Char) : Option Nat :=
  if 'A' ≤ c ∧ c ≤ 'Z' then some (c.toNat - 65)
  else if 'a' ≤ c ∧ c ≤ 'z' then some (c.toNat - 71)
  else if '0' ≤ c ∧ c ≤ '9' then some (c.toNat + 4)
  else if c = '+' then some 62
  else if c = '/' then some 63
  else none

/-- Four digits for every three octets, the last group filled up with `=`. -/
def encodeList : Bytes → List Char
  | [] => []
  | [a] =>
    [digit (a.toNat / 4), digit (a.toNat % 4 * 16), '=', '=']
  | [a, b] =>
    [digit (a.toNat / 4), digit (a.toNat % 4 * 16 + b.toNat / 16), digit (b.toNat % 16 * 4), '=']
  | a :: b :: c :: rest =>
    digit (a.toNat / 4) :: digit (a.toNat % 4 * 16 + b.toNat / 16) ::
      digit (b.toNat % 16 * 4 + c.toNat / 64) :: digit (c.toNat % 64) :: encodeList rest

/-- The octets of a last group, which may be filled up with `=`. -/
def decodeLast (p q r s : Char) : Option Bytes := do
  let p ← digit? p
  let q ← digit? q
  if r = '=' then
    if s = '=' ∧ q % 16 = 0 then some [UInt8.ofNat (p * 4 + q / 16)] else none
  else
    let r ← digit? r
    if s = '=' then
      if r % 4 = 0 then some [UInt8.ofNat (p * 4 + q / 16), UInt8.ofNat (q % 16 * 16 + r / 4)]
      else none
    else
      let s ← digit? s
      some [UInt8.ofNat (p * 4 + q / 16), UInt8.ofNat (q % 16 * 16 + r / 4),
        UInt8.ofNat (r % 4 * 64 + s)]

/-- The octets of a group that is not the last, which has four digits. -/
def decodeGroup (p q r s : Char) : Option Bytes := do
  let p ← digit? p
  let q ← digit? q
  let r ← digit? r
  let s ← digit? s
  some [UInt8.ofNat (p * 4 + q / 16), UInt8.ofNat (q % 16 * 16 + r / 4),
    UInt8.ofNat (r % 4 * 64 + s)]

/-- The octets that a written form stands for. -/
def decodeList : List Char → Option Bytes
  | [] => some []
  | [p, q, r, s] => decodeLast p q r s
  | p :: q :: r :: s :: rest =>
    match decodeGroup p q r s, decodeList rest with
    | some head, some tail => some (head ++ tail)
    | _, _ => none
  | _ => none

/-- The octets in base 64. -/
def encode (bs : Bytes) : String :=
  String.ofList (encodeList bs)

/-- The octets that a base 64 text stands for. -/
def decode? (s : String) : Option Bytes :=
  decodeList s.toList

end KeyCustody.Text.Base64
