import KeyCustody.Bytes
import KeyCustody.Text.Decimal
import KeyCustody.Text.Hex
/-!
# Reading JSON for a wanted type

Readers for documents of a known kind. They go through the octets from left to right, and the first
fault decides how a document is refused: as malformed, when the octets up to the fault are no
beginning of a document, and as unfit, when they are but not of the kind that is wanted.

A record is an object with its fields in any order, unknown ones skipped and none twice, or a list
of the fields in their own order. What is skipped is checked for its grammar alone.

## Main definitions

* `ReadError`: the two ways in which a document is refused.
* `readText`, `readFlag`, `readChoice`, `readList`, `readRecord`: the readers.
* `readWhole`: a document that takes up all octets.
-/

namespace KeyCustody.Json

/-- How a document is refused. -/
inductive ReadError where
  | malformed
  | unfit
  deriving DecidableEq, Repr

/-! ### Characters -/

/-- The octet of a character that takes one octet. -/
def octet (c : Char) : UInt8 := UInt8.ofNat c.toNat

/-- Whether the octet is a blank between tokens. -/
def isBlank (b : UInt8) : Bool :=
  b == 0x20 || b == 0x0A || b == 0x09 || b == 0x0D

/-- The octets after leading blanks. -/
def skipBlanks (bs : Bytes) : Bytes :=
  bs.dropWhile isBlank

/-- The value of a decimal digit. -/
def isDigit (b : UInt8) : Bool :=
  0x30 ≤ b && b ≤ 0x39

/-- The octets after a word. -/
def skipWord (word : String) (bs : Bytes) : Except ReadError Bytes :=
  let w := Bytes.ofText word
  if w.isPrefixOf bs then .ok (bs.drop w.length) else .error .malformed

/-! ### Texts -/

/-- The number of four hexadecimal digits, and the octets after them. -/
def readHex4 (bs : Bytes) : Option (Nat × Bytes) := do
  let digits ← (bs.take 4).mapM fun b => Text.Hex.digit? (Char.ofNat b.toNat)
  if digits.length = 4 then some (digits.foldl (fun n d => 16 * n + d) 0, bs.drop 4) else none

/-- The octets of the character with a number. -/
def ofCode (n : Nat) : Bytes :=
  Bytes.ofText (String.singleton (Char.ofNat n))

/-- The octets that an escape stands for, and the octets after it. A character beyond sixteen bits
is written as a high and a low half, and neither half stands alone. -/
def readEscape : Bytes → Option (Bytes × Bytes)
  | [] => none
  | b :: bs =>
    if b = octet '"' ∨ b = octet '\\' ∨ b = octet '/' then some ([b], bs)
    else if b = octet 'b' then some ([0x08], bs)
    else if b = octet 'f' then some ([0x0C], bs)
    else if b = octet 'n' then some ([0x0A], bs)
    else if b = octet 'r' then some ([0x0D], bs)
    else if b = octet 't' then some ([0x09], bs)
    else if b = octet 'u' then do
      let (n, bs) ← readHex4 bs
      if 0xDC00 ≤ n ∧ n ≤ 0xDFFF then none
      else if 0xD800 ≤ n ∧ n ≤ 0xDBFF then
        match bs with
        | b :: c :: bs =>
          if b = octet '\\' ∧ c = octet 'u' then do
            let (m, bs) ← readHex4 bs
            if 0xDC00 ≤ m ∧ m ≤ 0xDFFF then
              some (ofCode (0x10000 + (n - 0xD800) * 0x400 + (m - 0xDC00)), bs)
            else none
          else none
        | _ => none
      else some (ofCode n, bs)
    else none

/-- The octets of a text after its opening quote, after those already read, which are in reverse,
and the octets after the closing quote. -/
def readQuoted : (fuel : Nat) → (read : Bytes) → Bytes → Except ReadError (Bytes × Bytes)
  | 0, _, _ => .error .malformed
  | _, _, [] => .error .malformed
  | fuel + 1, read, b :: bs =>
    if b = octet '"' then .ok (read.reverse, bs)
    else if b < 0x20 then .error .malformed
    else if b = octet '\\' then
      match readEscape bs with
      | some (octets, bs) => readQuoted fuel (octets.reverse ++ read) bs
      | none => .error .malformed
    else readQuoted fuel (b :: read) bs

/-- The text after an opening quote, which must be UTF-8. -/
def readQuotedText (fuel : Nat) (bs : Bytes) : Except ReadError (String × Bytes) := do
  let (octets, bs) ← readQuoted fuel [] bs
  match Bytes.text? octets with
  | some s => pure (s, bs)
  | none => throw .malformed

/-- The octets after a text of which only the grammar is checked: escapes may be halves of a
character, and it need not be UTF-8. -/
def skipQuoted : (fuel : Nat) → Bytes → Except ReadError Bytes
  | 0, _ => .error .malformed
  | _, [] => .error .malformed
  | fuel + 1, b :: bs =>
    if b = octet '"' then .ok bs
    else if b < 0x20 then .error .malformed
    else if b = octet '\\' then
      match bs with
      | [] => .error .malformed
      | c :: bs =>
        if c = octet 'u' then
          match readHex4 bs with
          | some (_, bs) => skipQuoted fuel bs
          | none => .error .malformed
        else if (Bytes.ofText "\"\\/bfnrt").any (· == c) then skipQuoted fuel bs
        else .error .malformed
    else skipQuoted fuel bs

/-! ### Numbers -/

/-- A number as it is written: the digits before and after the point, and the exponent. -/
structure Numeral where
  whole : Bytes
  fraction : Bytes
  isNegativeExponent : Bool
  exponent : Bytes

/-- The leading digits, of which there must be one, and the octets after them. -/
def readDigits (bs : Bytes) : Except ReadError (Bytes × Bytes) :=
  let digits := bs.takeWhile isDigit
  if digits.isEmpty then .error .malformed else .ok (digits, bs.drop digits.length)

/-- The exponent of a number, if one follows. -/
def readExponent (bs : Bytes) : Except ReadError (Bool × Bytes × Bytes) :=
  match bs with
  | b :: rest =>
    if b = octet 'e' ∨ b = octet 'E' then
      let (negative, rest) := match rest with
        | c :: r => if c = octet '-' then (true, r) else if c = octet '+' then (false, r)
          else (false, rest)
        | [] => (false, rest)
      (readDigits rest).map fun (digits, rest) => (negative, digits, rest)
    else .ok (false, [], bs)
  | [] => .ok (false, [], bs)

/-- A number without its sign: no superfluous zero in front, and digits on both sides of a point. -/
def readNumeral (bs : Bytes) : Except ReadError (Numeral × Bytes) := do
  let (whole, bs) ← readDigits bs
  if 1 < whole.length ∧ whole.head? = some 0x30 then throw .malformed
  let (fraction, bs) ← match bs with
    | b :: rest => if b = octet '.' then readDigits rest else pure ([], bs)
    | [] => pure ([], bs)
  let (negative, exponent, bs) ← readExponent bs
  pure (⟨whole, fraction, negative, exponent⟩, bs)

/-- The number of decimal digits. -/
def ofDigits (bs : Bytes) : Nat :=
  bs.foldl (fun n b => 10 * n + (b.toNat - 0x30)) 0

/-- The least number that is beyond the range of floating-point numbers of eight octets. -/
def floatBound : Nat := Nat.pow 2 1024 - Nat.pow 2 970

/-- Whether a number is beyond the range of floating-point numbers. -/
def Numeral.isOutOfRange (x : Numeral) : Bool :=
  let digits := ofDigits (x.whole ++ x.fraction)
  if digits = 0 ∨ x.isNegativeExponent ∨ (x.fraction.isEmpty ∧ x.exponent.isEmpty ∧
      x.whole.length < 300) then false
  else
    let exponent := ofDigits x.exponent
    if 400 + x.fraction.length < exponent then true
    else floatBound * Nat.pow 10 x.fraction.length ≤ digits * Nat.pow 10 exponent

/-! ### Skipping -/

/-- The octets after a document without brackets. -/
def skipScalar (fuel : Nat) (b : UInt8) (bs : Bytes) : Except ReadError Bytes :=
  if b = octet 'n' then skipWord "null" bs
  else if b = octet 't' then skipWord "true" bs
  else if b = octet 'f' then skipWord "false" bs
  else if b = octet '-' then (readNumeral (bs.drop 1)).map Prod.snd
  else if isDigit b then (readNumeral bs).map Prod.snd
  else if b = octet '"' then skipQuoted fuel (bs.drop 1)
  else .error .malformed

/-- What a reader of nested documents waits for: a document, a name in an object, or, after a
document, a comma or the end of the innermost list or object. The flag tells whether the innermost
may end here although nothing is in it. -/
inductive Expecting where
  | document (mayEnd : Bool)
  | name
  | separator

/-- The octets after a document of which only the grammar is checked. Of the lists and objects that
are open, the innermost first, `true` is an object. -/
def skipNested : (fuel : Nat) → Expecting → (isOpen : List Bool) → Bytes → Except ReadError Bytes
  | 0, _, _, _ => .error .malformed
  | fuel + 1, expecting, isOpen, bs =>
    match skipBlanks bs with
    | [] => match expecting, isOpen with
      | .separator, [] => .ok bs
      | _, _ => .error .malformed
    | b :: rest =>
      match expecting with
      | .separator =>
        match isOpen with
        | [] => .ok bs
        | isObject :: outer =>
          if b = octet ',' then
            skipNested fuel (if isObject then .name else .document false) isOpen rest
          else if b = octet (if isObject then '\x7d' else ']') then
            skipNested fuel .separator outer rest
          else .error .malformed
      | .name =>
        if b = octet '"' then
          match skipQuoted fuel rest with
          | .ok rest =>
            match skipBlanks rest with
            | c :: rest =>
              if c = octet ':' then skipNested fuel (.document false) isOpen rest
              else .error .malformed
            | [] => .error .malformed
          | .error e => .error e
        else .error .malformed
      | .document mayEnd =>
        if b = octet '[' then skipNested fuel (.document true) (false :: isOpen) rest
        else if b = octet '\x7b' then
          match skipBlanks rest with
          | c :: after =>
            if c = octet '\x7d' then skipNested fuel .separator isOpen after
            else skipNested fuel .name (true :: isOpen) rest
          | [] => .error .malformed
        else if b = octet ']' ∧ mayEnd then skipNested fuel .separator (isOpen.drop 1) rest
        else
          match skipScalar fuel b (b :: rest) with
          | .ok rest => skipNested fuel .separator isOpen rest
          | .error e => .error e

/-- The octets after a document of which only the grammar is checked. -/
def skipDocument (fuel : Nat) (bs : Bytes) : Except ReadError Bytes :=
  skipNested fuel (.document false) [] bs

/-! ### Documents of a kind -/

/-- The refusal of a document of a kind that is not wanted: if it is no document at all, it is
malformed. -/
def refuse (fuel : Nat) (bs : Bytes) : ReadError :=
  match bs with
  | [] => .malformed
  | b :: rest =>
    if b = octet '[' ∨ b = octet '\x7b' then .unfit
    else
      let outcome : Except ReadError Unit :=
        if b = octet '"' then (readQuotedText fuel rest).map fun _ => ()
        else if b = octet '-' ∨ isDigit b then do
          let (x, _) ← readNumeral (if b = octet '-' then rest else bs)
          if x.isOutOfRange then throw .malformed
        else (skipScalar fuel b bs).map fun _ => ()
      match outcome with
      | .ok _ => .unfit
      | .error e => e

/-- A text. -/
def readText (fuel : Nat) (bs : Bytes) : Except ReadError (String × Bytes) :=
  match skipBlanks bs with
  | b :: rest =>
    if b = octet '"' then readQuotedText fuel rest else .error (refuse fuel (b :: rest))
  | [] => .error .malformed

/-- A truth value. -/
def readFlag (fuel : Nat) (bs : Bytes) : Except ReadError (Bool × Bytes) :=
  match skipBlanks bs with
  | b :: rest =>
    if b = octet 't' then (skipWord "true" (b :: rest)).map fun rest => (true, rest)
    else if b = octet 'f' then (skipWord "false" (b :: rest)).map fun rest => (false, rest)
    else .error (refuse fuel (b :: rest))
  | [] => .error .malformed

/-- The absent value. -/
def readNull (fuel : Nat) (bs : Bytes) : Except ReadError Bytes :=
  match skipBlanks bs with
  | b :: rest =>
    if b = octet 'n' then skipWord "null" (b :: rest) else .error (refuse fuel (b :: rest))
  | [] => .error .malformed

/-- The octets after the given octet, which must come next. -/
def expect (b : UInt8) (bs : Bytes) : Except ReadError Bytes :=
  match skipBlanks bs with
  | c :: rest => if c = b then .ok rest else .error .malformed
  | [] => .error .malformed

/-- One of the given choices, told by its name; it may stand as the only name of an object, with the
absent value. -/
def readChoice {α : Type} (choices : List (String × α)) (fuel : Nat) (bs : Bytes) :
    Except ReadError (α × Bytes) := do
  let named (bs : Bytes) : Except ReadError (α × Bytes) := do
    let (name, bs) ← readText fuel bs
    match choices.find? fun c => c.1 == name with
    | some c => pure (c.2, bs)
    | none => throw .unfit
  match skipBlanks bs with
  | b :: rest =>
    if b = octet '\x7b' then do
      let (a, bs) ← named rest
      let bs ← expect (octet ':') bs
      let bs ← readNull fuel bs
      let bs ← expect (octet '\x7d') bs
      pure (a, bs)
    else if b = octet '"' then named (b :: rest)
    else throw .malformed
  | [] => throw .malformed

/-- Whether a list goes on with another item: the octets of the item, or those from the closing
bracket on. The flag tells whether an item came before. -/
def readNextItem (hasItem : Bool) (bs : Bytes) : Except ReadError (Bool × Bytes) :=
  match skipBlanks bs with
  | b :: rest =>
    if b = octet ']' then .ok (false, b :: rest)
    else if !hasItem then .ok (true, b :: rest)
    else if b = octet ',' then
      match skipBlanks rest with
      | c :: rest => if c = octet ']' then .error .malformed else .ok (true, c :: rest)
      | [] => .error .malformed
    else .error .malformed
  | [] => .error .malformed

/-- The items of a list after its opening bracket, after those already read, which are in
reverse. -/
def readItems {α : Type} (item : Bytes → Except ReadError (α × Bytes)) :
    (fuel : Nat) → List α → Bytes → Except ReadError (List α × Bytes)
  | 0, _, _ => .error .malformed
  | fuel + 1, read, bs =>
    match readNextItem (!read.isEmpty) bs with
    | .error e => .error e
    | .ok (false, bs) => .ok (read.reverse, bs.drop 1)
    | .ok (true, bs) =>
      match item bs with
      | .error e => .error e
      | .ok (a, bs) => readItems item fuel (a :: read) bs

/-- The items of a list. -/
def readList {α : Type} (item : Bytes → Except ReadError (α × Bytes)) (fuel : Nat) (bs : Bytes) :
    Except ReadError (List α × Bytes) :=
  match skipBlanks bs with
  | b :: rest =>
    if b = octet '[' then readItems item fuel [] rest else .error (refuse fuel (b :: rest))
  | [] => .error .malformed

/-! ### Records -/

/-- The name of a field, and its default if it may be left out. -/
structure Slot (φ : Type) where
  name : String
  default? : Option φ

/-- Whether an object goes on with another name: the octets after its quote, or those from the
closing bracket on. The flag tells whether a field came before. -/
def readNextName (hasField : Bool) (bs : Bytes) : Except ReadError (Bool × Bytes) :=
  match skipBlanks bs with
  | b :: rest =>
    if b = octet '\x7d' then .ok (false, b :: rest)
    else if b = octet (if hasField then ',' else '"') then
      if hasField then (expect (octet '"') rest).map fun rest => (true, rest)
      else .ok (true, rest)
    else .error .malformed
  | [] => .error .malformed

/-- The fields of an object after its opening bracket, after those already found, up to the closing
bracket. -/
def readFields {φ : Type} (slots : List (Slot φ))
    (field : (i : Nat) → Bytes → Except ReadError (φ × Bytes)) :
    (fuel : Nat) → (hasField : Bool) → (found : List (Option φ)) → Bytes →
      Except ReadError (List (Option φ) × Bytes)
  | 0, _, _, _ => .error .malformed
  | fuel + 1, hasField, found, bs => do
    match ← readNextName hasField bs with
    | (false, bs) => pure (found, bs)
    | (true, bs) =>
      let (name, bs) ← readQuotedText fuel bs
      match slots.findIdx? fun s => s.name == name with
      | some i =>
        if (found.getD i none).isSome then throw .unfit
        else
          let bs ← expect (octet ':') bs
          let (v, bs) ← field i bs
          readFields slots field fuel true (found.set i (some v)) bs
      | none =>
        let bs ← expect (octet ':') bs
        let bs ← skipDocument fuel bs
        readFields slots field fuel true found bs

/-- The fields of a list after its opening bracket, in the order of `slots`; at the end of the list
those with a default may be missing. -/
def readInOrder {φ : Type} (field : (i : Nat) → Bytes → Except ReadError (φ × Bytes)) :
    (i : Nat) → List (Slot φ) → Bytes → Except ReadError (List φ × Bytes)
  | _, [], bs => .ok ([], bs)
  | i, s :: slots, bs => do
    match ← readNextItem (i != 0) bs with
    | (true, bs) =>
      let (v, bs) ← field i bs
      let (vs, bs) ← readInOrder field (i + 1) slots bs
      pure (v :: vs, bs)
    | (false, bs) =>
      match s.default? with
      | some v =>
        let (vs, bs) ← readInOrder field (i + 1) slots bs
        pure (v :: vs, bs)
      | none => throw .unfit

/-- The fields of a record in the order of `slots`. Field number `i` is read by `field i`. -/
def readRecord {φ : Type} (slots : List (Slot φ))
    (field : (i : Nat) → Bytes → Except ReadError (φ × Bytes)) (fuel : Nat) (bs : Bytes) :
    Except ReadError (List φ × Bytes) := do
  match skipBlanks bs with
  | b :: rest =>
    if b = octet '[' then
      let (fields, bs) ← readInOrder field 0 slots rest
      let bs ← expect (octet ']') bs
      pure (fields, bs)
    else if b = octet '\x7b' then
      let (found, bs) ← readFields slots field fuel false (slots.map fun _ => none) rest
      match (List.zipWith (fun s v => v.or s.default?) slots found).mapM id with
      | some fields =>
        let bs ← expect (octet '\x7d') bs
        pure (fields, bs)
      | none => throw .unfit
    else throw (refuse fuel (b :: rest))
  | [] => throw .malformed

/-- Fuel that suffices for the octets: at most three steps for each. -/
def fuelFor (bs : Bytes) : Nat :=
  3 * bs.length + 3

/-- A document that takes up all octets, but for blanks around it. -/
def readWhole {α : Type} (reader : (fuel : Nat) → Bytes → Except ReadError (α × Bytes))
    (bs : Bytes) : Except ReadError α := do
  let (a, rest) ← reader (fuelFor bs) bs
  if (skipBlanks rest).isEmpty then pure a else throw .malformed

end KeyCustody.Json
