import KeyCustody.Cbor.Value
/-!
# Reading for a wanted type

Readers for items of a known kind. They do not go through the tree of the document, so that the
first fault in the order of the octets is the one that is reported. Tags in front of a wanted item
are skipped.

A record is a map whose keys are the names of its fields, as texts or as byte strings. Its fields
come in any order, unknown ones are skipped with their values, and none may come twice. A field that
is left out has its default, if it has one.

## Main definitions

* `readText`, `readBool`, `readChoice`, `readList`: single items.
* `readRecord`: the fields of a record.
-/

namespace KeyCustody.Cbor

/-- The first head that is no tag, and the octets after it. -/
def readUntagged : (fuel : Nat) → Bytes → Except ReadError (Head × Bytes)
  | 0, _ => .error .truncated
  | fuel + 1, bs =>
    match readHead bs with
    | .ok (.tag _, bs) => readUntagged fuel bs
    | other => other

/-! ### Single items -/

/-- A text. -/
def readText (fuel : Nat) (bs : Bytes) : Except ReadError (String × Bytes) := do
  let (head, bs) ← readUntagged fuel bs
  match head with
  | .text n =>
    let (octets, bs) ← readString .text fuel n bs
    pure (textOf octets, bs)
  | _ => throw .unfit

/-- A truth value. -/
def readBool (fuel : Nat) (bs : Bytes) : Except ReadError (Bool × Bytes) := do
  let (head, bs) ← readUntagged fuel bs
  match head with
  | .simple 20 => pure (false, bs)
  | .simple 21 => pure (true, bs)
  | _ => throw .unfit

/-- The octets of the longest name. -/
def longestName : Nat := 4096

/-- A name: a text or a byte string in one piece that is not too long. -/
def readName (fuel : Nat) (bs : Bytes) : Except ReadError (Bytes × Bytes) := do
  let (head, bs) ← readUntagged fuel bs
  match head with
  | .text (some n) => if n ≤ longestName then readSegment .text n bs else throw .unfit
  | .bytes (some n) => if n ≤ longestName then readSegment .bytes n bs else throw .unfit
  | _ => throw .unfit

/-- One of the given choices, told by its name. The name may stand as the key of a map of one pair,
in which case what follows it is left where it is. -/
def readChoice {α : Type} (choices : List (String × α)) (fuel depth : Nat) (bs : Bytes) :
    Except ReadError (α × Bytes) := do
  let rec select (fuel : Nat) (bs : Bytes) : Except ReadError Bytes :=
    match fuel with
    | 0 => .error .truncated
    | fuel + 1 =>
      match readHead bs with
      | .ok (.tag _, bs) => select fuel bs
      | .ok (.map (some 1), bs) => .ok bs
      | .ok (.text _, _) => .ok bs
      | .ok _ => .error .unfit
      | .error e => .error e
  let bs ← select fuel bs
  let _ ← enter depth
  let (name, bs) ← readName fuel bs
  match choices.find? fun c => Bytes.ofText c.1 == name with
  | some c => pure (c.2, bs)
  | none => throw .unfit

/-- The items of an array of the given length, each read by `item`, after those already read, which
are in reverse. -/
def readElements {α : Type} (item : Bytes → Except ReadError (α × Bytes)) :
    (fuel : Nat) → (length : Option Nat) → List α → Bytes →
      Except ReadError (List α × Bytes)
  | 0, _, _, _ => .error .truncated
  | fuel + 1, length, read, bs =>
    match readMore length bs with
    | .error e => .error e
    | .ok (none, bs) => .ok (read.reverse, bs)
    | .ok (some length, bs) =>
      match item bs with
      | .error e => .error e
      | .ok (a, bs) => readElements item fuel length (a :: read) bs

/-- The items of an array, each read by `item` within the budget. An empty byte string counts as an
array without items. -/
def readList {α : Type} (item : (depth : Nat) → Bytes → Except ReadError (α × Bytes))
    (fuel depth : Nat) (bs : Bytes) : Except ReadError (List α × Bytes) := do
  let (head, bs) ← readUntagged fuel bs
  match head with
  | .array n =>
    let depth ← enter depth
    readElements (item depth) fuel n [] bs
  | .bytes n =>
    let (octets, bs) ← readString .bytes fuel n bs
    if octets.isEmpty then pure ([], bs) else throw .unfit
  | _ => throw .unfit

/-! ### Records -/

/-- The name of a field, and its default if it may be left out. -/
structure Slot (φ : Type) where
  name : String
  default? : Option φ

/-- The position of the field with the given name. -/
def position? {φ : Type} (slots : List (Slot φ)) (name : Bytes) : Option Nat :=
  slots.findIdx? fun s => Bytes.ofText s.name == name

/-- The fields of a map of the given length, after those already found. Field number `i` is read by
`field i`, and an unknown one is skipped within the budget. -/
def readFields {φ : Type} (slots : List (Slot φ))
    (field : (i : Nat) → Bytes → Except ReadError (φ × Bytes)) (depth : Nat) :
    (fuel : Nat) → (length : Option Nat) → (found : List (Option φ)) → Bytes →
      Except ReadError (List (Option φ) × Bytes)
  | 0, _, _, _ => .error .truncated
  | fuel + 1, length, found, bs => do
    let (more, bs) ← readMore length bs
    match more with
    | none => pure (found, bs)
    | some length =>
      let (name, bs) ← readName fuel bs
      match position? slots name with
      | some i =>
        if (found.getD i none).isSome then throw .unfit
        else
          let (v, bs) ← field i bs
          readFields slots field depth fuel length (found.set i (some v)) bs
      | none =>
        let (_, bs) ← readValue fuel depth bs
        readFields slots field depth fuel length found bs

/-- The fields with their defaults, if none is missing. -/
def complete {φ : Type} (slots : List (Slot φ)) (found : List (Option φ)) : Option (List φ) :=
  (List.zipWith (fun s v => v.or s.default?) slots found).mapM id

/-- The fields of a record in the order of `slots`. Field number `i` is read by `field i` within the
budget. -/
def readRecord {φ : Type} (slots : List (Slot φ))
    (field : (i depth : Nat) → Bytes → Except ReadError (φ × Bytes)) (fuel depth : Nat)
    (bs : Bytes) : Except ReadError (List φ × Bytes) := do
  let (head, bs) ← readUntagged fuel bs
  match head with
  | .map n =>
    let depth ← enter depth
    let (found, bs) ← readFields slots (fun i => field i depth) depth fuel n
      (slots.map fun _ => none) bs
    match complete slots found with
    | some fields => pure (fields, bs)
    | none => throw .unfit
  | _ => throw .unfit

end KeyCustody.Cbor
