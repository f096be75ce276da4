import KeyCustody.Text.Decimal
import KeyCustody.Text.Hex
/-!
# Internet addresses

Addresses of four octets and of eight groups of sixteen bits, read strictly and printed in one way.
An octet is written without superfluous zeros. One run of zero groups may be left out between two
colons, and the last two groups may be written as four octets; what is printed leaves out the first
of the longest runs, if it has at least two groups.

## Main definitions

* `Ipv4`, `Ipv6`: addresses, with their texts.
* `Socket`: an address with a socket number.
-/

namespace KeyCustody.Net

/-! ### Reading numbers -/

/-- What follows the character `c`. -/
def readChar (c : Char) : List Char → Option (List Char)
  | d :: cs => if d = c then some cs else none
  | [] => none

/-- The digits that the characters start with, and the rest. -/
def readDigits (digit? : Char → Option Nat) (cs : List Char) : List Nat × List Char :=
  ((cs.takeWhile fun c => (digit? c).isSome).filterMap digit?,
    cs.dropWhile fun c => (digit? c).isSome)

/-- The number of digits to the given base. -/
def ofDigits (base : Nat) (ds : List Nat) : Nat :=
  ds.foldl (fun n d => base * n + d) 0

/-- A decimal number of at most `largest`, in which leading zeros do no harm. -/
def readDecimal (largest : Nat) (cs : List Char) : Option (Nat × List Char) :=
  let (ds, rest) := readDigits Text.Decimal.digit? cs
  if ds.isEmpty ∨ largest < ofDigits 10 ds then none else some (ofDigits 10 ds, rest)

/-! ### Four octets -/

/-- An address of four octets. -/
structure Ipv4 where
  a : UInt8
  b : UInt8
  c : UInt8
  d : UInt8
  deriving DecidableEq, Repr

namespace Ipv4

/-- An octet in decimal: at most three digits, the first of which is zero only when it is alone. -/
def readOctet (cs : List Char) : Option (UInt8 × List Char) :=
  let (ds, rest) := readDigits Text.Decimal.digit? cs
  if ds.isEmpty ∨ 3 < ds.length ∨ (1 < ds.length ∧ ds.head? = some 0) ∨ 255 < ofDigits 10 ds then
    none
  else some (UInt8.ofNat (ofDigits 10 ds), rest)

/-- The address at the start of the characters. -/
def read (cs : List Char) : Option (Ipv4 × List Char) := do
  let (a, cs) ← readOctet cs
  let (b, cs) ← readOctet (← readChar '.' cs)
  let (c, cs) ← readOctet (← readChar '.' cs)
  let (d, cs) ← readOctet (← readChar '.' cs)
  some (⟨a, b, c, d⟩, cs)

/-- The address with a text. -/
def ofText? (s : String) : Option Ipv4 :=
  match read s.toList with
  | some (ip, []) => some ip
  | _ => none

/-- The text of an address. -/
def toText (ip : Ipv4) : String :=
  ".".intercalate ([ip.a, ip.b, ip.c, ip.d].map fun n => toString n.toNat)

/-- The address as two groups of sixteen bits. -/
def groups (ip : Ipv4) : List Nat :=
  [ip.a.toNat * 256 + ip.b.toNat, ip.c.toNat * 256 + ip.d.toNat]

end Ipv4

/-! ### Eight groups -/

/-- An address of eight groups of sixteen bits. -/
structure Ipv6 where
  groups : List Nat
  length_groups : groups.length = 8
  deriving DecidableEq, Repr

namespace Ipv6

/-- The address of the groups, if there are eight. -/
def mk? (groups : List Nat) : Option Ipv6 :=
  if h : groups.length = 8 then some ⟨groups, h⟩ else none

/-- What follows a colon, except in front of the first group. -/
def readSeparator (index : Nat) (cs : List Char) : Option (List Char) :=
  if index = 0 then some cs else readChar ':' cs

/-- A group: at most four hexadecimal digits. -/
def readGroup (cs : List Char) : Option (Nat × List Char) :=
  let (ds, rest) := readDigits Text.Hex.digit? cs
  if ds.isEmpty ∨ 4 < ds.length then none else some (ofDigits 16 ds, rest)

/-- The groups that the characters start with, at most `room` of them after the first `index`, with
the rest and whether the last two were written as four octets. -/
def readGroups (index : Nat) : (room : Nat) → List Char → List Nat × Bool × List Char
  | 0, cs => ([], false, cs)
  | room + 1, cs =>
    let quad := if room = 0 then none else (readSeparator index cs).bind Ipv4.read
    match quad with
    | some (ip, rest) => (ip.groups, true, rest)
    | none =>
      match (readSeparator index cs).bind readGroup with
      | none => ([], false, cs)
      | some (g, rest) =>
        let (gs, octets, rest) := readGroups (index + 1) room rest
        (g :: gs, octets, rest)

/-- The address at the start of the characters. -/
def read (cs : List Char) : Option (Ipv6 × List Char) :=
  let (head, octets, rest) := readGroups 0 8 cs
  if head.length = 8 then (mk? head).map fun ip => (ip, rest)
  else if octets then none
  else do
    let rest ← readChar ':' (← readChar ':' rest)
    let (tail, _, rest) := readGroups 0 (7 - head.length) rest
    let gap := List.replicate (8 - head.length - tail.length) 0
    (mk? (head ++ gap ++ tail)).map fun ip => (ip, rest)

/-- The address with a text. -/
def ofText? (s : String) : Option Ipv6 :=
  match read s.toList with
  | some (ip, []) => some ip
  | _ => none

/-- The length of the run of zeros that a list starts with. -/
def zeroRun (gs : List Nat) : Nat :=
  (gs.takeWhile (· == 0)).length

/-- Start and length of the first of the longest runs of zeros. -/
def longestRun (gs : List Nat) : Nat × Nat :=
  (List.range gs.length).foldl
    (fun (start, n) i =>
      let m := zeroRun (gs.drop i)
      if n < m then (i, m) else (start, n))
    (0, 0)

/-- Groups between colons. -/
def joinGroups (gs : List Nat) : String :=
  ":".intercalate (gs.map Text.Hex.ofNat)

/-- The text of an address. One that holds an address of four octets shows them. -/
def toText (ip : Ipv6) : String :=
  match ip.groups with
  | [0, 0, 0, 0, 0, 0xFFFF, x, y] =>
    "::ffff:" ++ Ipv4.toText ⟨UInt8.ofNat (x / 256), UInt8.ofNat x, UInt8.ofNat (y / 256),
      UInt8.ofNat y⟩
  | gs =>
    let (start, n) := longestRun gs
    if 1 < n then joinGroups (gs.take start) ++ "::" ++ joinGroups (gs.drop (start + n))
    else joinGroups gs

end Ipv6

/-! ### Addresses with a socket number -/

/-- An address with a socket number; one of eight groups may name a zone by a number. -/
inductive Socket where
  | v4 (ip : Ipv4) (number : Nat)
  | v6 (ip : Ipv6) (zone : Nat) (number : Nat)
  deriving DecidableEq, Repr

namespace Socket

/-- The largest zone. -/
def largestZone : Nat := 4294967295

/-- A colon and a socket number. -/
def readNumber (cs : List Char) : Option (Nat × List Char) := do
  readDecimal Text.Decimal.largest16 (← readChar ':' cs)

/-- An address of four octets with a socket number. -/
def readV4 (cs : List Char) : Option (Socket × List Char) := do
  let (ip, cs) ← Ipv4.read cs
  let (number, cs) ← readNumber cs
  some (.v4 ip number, cs)

/-- An address of eight groups in brackets, perhaps with a zone, with a socket number. -/
def readV6 (cs : List Char) : Option (Socket × List Char) := do
  let (ip, cs) ← Ipv6.read (← readChar '[' cs)
  let (zone, cs) ← match readChar '%' cs with
    | some cs => readDecimal largestZone cs
    | none => some (0, cs)
  let (number, cs) ← readNumber (← readChar ']' cs)
  some (.v6 ip zone number, cs)

/-- The address with a text. -/
def ofText? (s : String) : Option Socket :=
  let whole : Option (Socket × List Char) → Option Socket
    | some (a, []) => some a
    | _ => none
  (whole (readV4 s.toList)).or (whole (readV6 s.toList))

/-- The text of an address. -/
def toText : Socket → String
  | .v4 ip number => ip.toText ++ ":" ++ toString number
  | .v6 ip zone number =>
    let suffix := if zone = 0 then "" else "%" ++ toString zone
    "[" ++ ip.toText ++ suffix ++ "]:" ++ toString number

end Socket

end KeyCustody.Net
