/-!
# Decimal numbers

Reading of natural numbers in decimal, with a largest value.
-/

namespace KeyCustody.Text.Decimal

/-- The value of a decimal digit. -/
def digit? (c : Char) : Option Nat :=
  if '0' ≤ c ∧ c ≤ '9' then some (c.toNat - 48) else none

/-- The number that decimal digits stand for; there must be one, and leading zeros do no harm. -/
def digits? (cs : List Char) : Option Nat :=
  if cs.isEmpty then none
  else (cs.mapM digit?).map fun ds => ds.foldl (fun n d => 10 * n + d) 0

/-- A number of at most `largest` as a person types it: digits after at most one plus sign. -/
def typed? (largest : Nat) (s : String) : Option Nat := do
  let n ← digits? (match s.toList with
    | '+' :: cs => cs
    | cs => cs)
  if n ≤ largest then some n else none

/-- The largest value of an octet pair. -/
def largest16 : Nat := 65535

/-- The largest value of eight octets. -/
def largest64 : Nat := 18446744073709551615

end KeyCustody.Text.Decimal
