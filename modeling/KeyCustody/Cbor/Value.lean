import KeyCustody.Cbor.Head
/-!
# Values

The tree of a document as a value, its one written form, and the reader of every form. A tagged
byte string of at most sixteen octets may stand for an integer. Nesting is limited by a budget that
every array, map and tag takes one of.

## Main definitions

* `Value`: the tree.
* `Value.encode`: the written form.
* `readString`: byte strings and texts, whole or in segments.
* `readValue`, `Value.decode`: the value at the start of the octets.
-/

namespace KeyCustody.Cbor

/-- The tree of a document. -/
inductive Value where
  | int (n : Int)
  | bytes (octets : Bytes)
  | text (s : String)
  | array (items : List Value)
  | map (pairs : List (Value × Value))
  | tag (n : Nat) (item : Value)
  | bool (b : Bool)
  | null
  | float (octets : Bytes)

/-! ### Writing -/

/-- The octets of a byte string. -/
def encodeBytes (bs : Bytes) : Bytes :=
  encodeHead bytesMajor bs.length ++ bs

/-- The octets of a text. -/
def encodeText (s : String) : Bytes :=
  let bs := Bytes.ofText s
  encodeHead textMajor bs.length ++ bs

/-- The octets of an integer. -/
def encodeInt : Int → Bytes
  | .ofNat n => encodeHead unsignedMajor n
  | .negSucc n => encodeHead negativeMajor n

mutual

/-- The octets of a value. -/
def Value.encode : Value → Bytes
  | .int n => encodeInt n
  | .bytes bs => encodeBytes bs
  | .text s => encodeText s
  | .array items => encodeHead arrayMajor items.length ++ encodeItems items
  | .map pairs => encodeHead mapMajor pairs.length ++ encodePairs pairs
  | .tag n item => encodeHead tagMajor n ++ item.encode
  | .bool b => [leadOctet otherMajor (if b then 21 else 20)]
  | .null => [leadOctet otherMajor 22]
  | .float octets =>
    leadOctet otherMajor (if octets.length = 2 then 25 else if octets.length = 4 then 26 else 27) ::
      octets

/-- The octets of values one after another. -/
def encodeItems : List Value → Bytes
  | [] => []
  | v :: vs => v.encode ++ encodeItems vs

/-- The octets of pairs one after another. -/
def encodePairs : List (Value × Value) → Bytes
  | [] => []
  | (k, v) :: ps => k.encode ++ v.encode ++ encodePairs ps

end

/-! ### Strings -/

/-- The two kinds of strings. -/
inductive StringKind where
  | bytes
  | text
  deriving DecidableEq, Repr

/-- The octets of the portions in which a long text is read. -/
def portionSize : Nat := 4096

/-- Whether the octets start an incomplete character and end within it. -/
def isCutCharacter (bs : Bytes) : Bool :=
  match bs with
  | [] => false
  | b :: _ =>
    let (n, whole) := Bytes.sequenceLength bs
    !whole && n == bs.length && (Bytes.sequenceStart b).isSome

/-- The octets that begin at the first ill-formed or incomplete character. The fuel is the number of
octets. -/
def fromIllFormed : (fuel : Nat) → Bytes → Bytes
  | 0, bs => bs
  | fuel + 1, bs =>
    let (n, whole) := Bytes.sequenceLength bs
    if whole ∧ n ≠ 0 then fromIllFormed fuel (bs.drop n) else bs

/-- Whether a text of which the end is missing is ill formed in a portion that is there as a whole.
A character that a portion cuts is carried over to the next one. The fuel is the number of
octets. -/
def isBrokenEarly : (fuel : Nat) → Bytes → Bool
  | 0, _ => false
  | fuel + 1, bs =>
    let portion := bs.take portionSize
    if portion.length < portionSize then false
    else
      let rest := fromIllFormed portion.length portion
      if rest.isEmpty ∨ isCutCharacter rest then
        isBrokenEarly fuel (bs.drop (portion.length - rest.length))
      else true

/-- The first `n` octets, which must be UTF-8 in a text, and the rest. -/
def readSegment (kind : StringKind) (n : Nat) (bs : Bytes) : Except ReadError (Bytes × Bytes) :=
  match kind with
  | .bytes => readExactly n bs
  | .text =>
    match readExactly n bs with
    | .ok (octets, rest) =>
      if (Bytes.text? octets).isSome then .ok (octets, rest) else .error .malformed
    | .error e => .error (if isBrokenEarly bs.length bs then .malformed else e)

/-- The length in a head of the given kind of string. -/
def StringKind.length? : StringKind → Head → Option (Option Nat)
  | .bytes, .bytes n => some n
  | .text, .text n => some n
  | _, _ => none

/-- The segments of a string up to the stop, which must be of its own kind. Segments may have
segments in turn, `nesting` deep so far. -/
def readSegments (kind : StringKind) :
    (fuel nesting : Nat) → (read : Bytes) → Bytes → Except ReadError (Bytes × Bytes)
  | 0, _, _, _ => .error .truncated
  | fuel + 1, nesting, read, bs => do
    let (head, bs) ← readHead bs
    match head, nesting, kind.length? head with
    | .stop, 0, _ => pure (read, bs)
    | .stop, nesting + 1, _ => readSegments kind fuel nesting read bs
    | _, nesting, some none => readSegments kind fuel (nesting + 1) read bs
    | _, nesting, some (some n) =>
      let (segment, bs) ← readSegment kind n bs
      readSegments kind fuel nesting (read ++ segment) bs
    | _, _, none => throw .malformed

/-- The string after a head with the given length. -/
def readString (kind : StringKind) (fuel : Nat) (length : Option Nat) (bs : Bytes) :
    Except ReadError (Bytes × Bytes) :=
  match length with
  | some n => readSegment kind n bs
  | none => readSegments kind fuel 0 [] bs

/-- The text of octets that are known to be UTF-8. -/
def textOf (bs : Bytes) : String :=
  (Bytes.text? bs).getD ""

/-! ### Integers in byte strings -/

/-- The tags of byte strings that stand for integers. -/
def positiveTag : Nat := 2
def negativeTag : Nat := 3

/-- The octets of the longest byte string that stands for an integer. -/
def longestInteger : Nat := 16

/-- One more than the largest number of a head. -/
def headBound : Nat := Nat.pow 2 64

/-- The value of a byte string with one of the two tags. An integer too large for a head stays a
tagged byte string, and a negative one beyond a signed number of sixteen octets is refused. -/
def ofTaggedBytes (tag : Nat) (octets : Bytes) : Except ReadError Value :=
  let n := Bytes.toNatBE octets
  if tag = negativeTag ∧ Nat.pow 2 127 ≤ n then .error .unfit
  else if headBound ≤ n then .ok (.tag tag (.bytes octets))
  else if tag = positiveTag then .ok (.int n)
  else .ok (.int (-1 - n))

/-- Whether a tag and the head after it are an integer in a byte string; its length. -/
def taggedLength? (tag : Nat) : Head → Option Nat
  | .bytes (some n) =>
    if (tag = positiveTag ∨ tag = negativeTag) ∧ n ≤ longestInteger then some n else none
  | _ => none

/-! ### Reading -/

/-- The value of a simple number. -/
def ofSimple : Nat → Except ReadError Value
  | 20 => .ok (.bool false)
  | 21 => .ok (.bool true)
  | 22 => .ok .null
  | 23 => .ok .null
  | _ => .error .unfit

/-- The budget for one more level, if there is any left. -/
def enter (depth : Nat) : Except ReadError Nat :=
  match depth with
  | 0 => .error .tooDeep
  | depth + 1 => .ok depth

/-- Whether an array or a map of the given length goes on: the length of what is left of it, absent
at its end, and the octets after a stop. -/
def readMore (length : Option Nat) (bs : Bytes) :
    Except ReadError (Option (Option Nat) × Bytes) :=
  match length with
  | some 0 => .ok (none, bs)
  | some (n + 1) => .ok (some (some n), bs)
  | none =>
    match readHead bs with
    | .ok (.stop, rest) => .ok (none, rest)
    | .ok _ => .ok (some none, bs)
    | .error e => .error e

mutual

/-- The value at the start of the octets, nested at most `depth` deep. -/
def readValue : (fuel depth : Nat) → Bytes → Except ReadError (Value × Bytes)
  | 0, _, _ => .error .truncated
  | fuel + 1, depth, bs => do
    let (head, bs) ← readHead bs
    match head with
    | .unsigned n => pure (.int n, bs)
    | .negative n => pure (.int (-1 - n), bs)
    | .bytes n =>
      let (octets, bs) ← readString .bytes fuel n bs
      pure (.bytes octets, bs)
    | .text n =>
      let (octets, bs) ← readString .text fuel n bs
      pure (.text (textOf octets), bs)
    | .array n =>
      let depth ← enter depth
      let (items, bs) ← readItems fuel depth n [] bs
      pure (.array items, bs)
    | .map n =>
      let depth ← enter depth
      let (pairs, bs) ← readPairs fuel depth n [] bs
      pure (.map pairs, bs)
    | .tag n =>
      let (inner, afterInner) ← readHead bs
      match taggedLength? n inner with
      | some length =>
        let (octets, bs) ← readExactly length afterInner
        let v ← ofTaggedBytes n octets
        pure (v, bs)
      | none =>
        let depth ← enter depth
        let (v, bs) ← readValue fuel depth bs
        pure (.tag n v, bs)
    | .simple n =>
      let v ← ofSimple n
      pure (v, bs)
    | .float octets => pure (.float octets, bs)
    | .stop => throw .unfit

/-- The items of an array of the given length, after those already read, which are in reverse. -/
def readItems : (fuel depth : Nat) → (length : Option Nat) → List Value → Bytes →
    Except ReadError (List Value × Bytes)
  | 0, _, _, _, _ => .error .truncated
  | fuel + 1, depth, length, read, bs =>
    match readMore length bs with
    | .error e => .error e
    | .ok (none, bs) => .ok (read.reverse, bs)
    | .ok (some length, bs) =>
      match readValue fuel depth bs with
      | .error e => .error e
      | .ok (v, bs) => readItems fuel depth length (v :: read) bs

/-- The pairs of a map of the given length, after those already read, which are in reverse. -/
def readPairs : (fuel depth : Nat) → (length : Option Nat) → List (Value × Value) → Bytes →
    Except ReadError (List (Value × Value) × Bytes)
  | 0, _, _, _, _ => .error .truncated
  | fuel + 1, depth, length, read, bs =>
    match readMore length bs with
    | .error e => .error e
    | .ok (none, bs) => .ok (read.reverse, bs)
    | .ok (some length, bs) =>
      match readValue fuel depth bs with
      | .error e => .error e
      | .ok (k, bs) =>
        match readValue fuel depth bs with
        | .error e => .error e
        | .ok (v, bs) => readPairs fuel depth length ((k, v) :: read) bs

end

/-- The budget of a whole document. -/
def depthLimit : Nat := 256

/-- Fuel that suffices for the octets: every item takes at least one, and every item of an array or
a map is reached in at most three steps. -/
def fuelFor (bs : Bytes) : Nat :=
  3 * bs.length + 3

/-- The value at the start of the octets; what follows it is not looked at. -/
def Value.decode (bs : Bytes) : Except ReadError Value :=
  (readValue (fuelFor bs) depthLimit bs).map Prod.fst

end KeyCustody.Cbor
