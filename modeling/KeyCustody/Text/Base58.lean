import KeyCustody.Bytes
/-!
# Base 58

The octets are read as one big-endian number, which is written to base fifty-eight in an alphabet
without look-alikes; every leading zero octet is one leading `1`.
-/

namespace KeyCustody.Text.Base58

/-- The fifty-eight digits in order of value. -/
def alphabet : List Char :=
  "123456789ABCDEFGHJKLMNPQRSTUVWXYZabcdefghijkmnopqrstuvwxyz".toList

/-- The digit of a value below fifty-eight. -/
def digit (n : Nat) : Char :=
  alphabet.getD n '1'

/-- The value of a digit. -/
def digit? (c : Char) : Option Nat :=
  alphabet.findIdx? (· == c)

/-- The digits of a number to base fifty-eight, least significant first; zero has none. -/
def digitsLE (n : Nat) : List Nat :=
  if h : n = 0 then [] else n % 58 :: digitsLE (n / 58)
termination_by n
decreasing_by exact Nat.div_lt_self (Nat.pos_of_ne_zero h) (by decide)

/-- The digits of the octets in base 58. -/
def encodeList (bs : Bytes) : List Char :=
  List.replicate (bs.takeWhile (· == 0)).length '1' ++
    ((digitsLE (Bytes.toNatBE bs)).map digit).reverse

/-- The octets that base 58 digits stand for; any other character is refused. -/
def decodeList (cs : List Char) : Option Bytes := do
  let digits ← cs.mapM digit?
  let n := digits.foldl (fun n d => n * 58 + d) 0
  some (List.replicate (digits.takeWhile (· == 0)).length 0 ++ Bytes.minimalBE n)

/-- The octets in base 58. -/
def encode (bs : Bytes) : String :=
  String.ofList (encodeList bs)

/-- The octets that a base 58 text stands for. -/
def decode? (s : String) : Option Bytes :=
  decodeList s.toList

end KeyCustody.Text.Base58
