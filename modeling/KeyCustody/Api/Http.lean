import KeyCustody.Bytes
/-!
# Requests of clients

Clients talk to a node by method, path and body. A body counts as a document if its media type says
so: `application/json`, or a type of `application` that ends in `+json`. The rest of the media type
is only checked to be well formed.

## Main definitions

* `Request`, `Response`: what comes in and what goes out.
* `isJsonType`: whether a media type is that of a document.
-/

namespace KeyCustody.Api

/-- What a client sends. -/
structure Request where
  method : String
  path : String
  /-- The media type of the body. -/
  contentType? : Option String
  body : Bytes

/-- What a client gets. -/
structure Response where
  status : Nat
  contentType? : Option String
  body : String
  deriving DecidableEq, Repr

namespace Response

/-- A response without a body. -/
def bare (status : Nat) : Response := ⟨status, none, ""⟩

/-- A response in words. -/
def plain (status : Nat) (words : String) : Response :=
  ⟨status, some "text/plain; charset=utf-8", words⟩

/-- A response whose body is left out. -/
def headOnly (r : Response) : Response := { r with body := "" }

end Response

/-! ### Media types -/

/-- Whether a character may stand in a name. -/
def isToken (c : Char) : Bool :=
  c.isAlphanum || "!#$%&'+-.^_`|~".toList.contains c

/-- Whether a character may stand between quotes. -/
def isQuotable (c : Char) : Bool :=
  31 < c.toNat && c.toNat != 127

/-- Whether a character may stand in a header. -/
def isVisible (c : Char) : Bool :=
  (32 ≤ c.toNat && c.toNat < 127) || c == '\t'

/-- What follows a value in quotes, up to the next parameter. -/
def afterQuoted : List Char → Option (List Char)
  | [] => some []
  | ';' :: cs => some cs
  | ' ' :: cs => afterQuoted cs
  | _ => none

/-- What follows the value of a parameter. -/
def afterValue (cs : List Char) : Option (List Char) :=
  match cs with
  | '"' :: rest =>
    let value := rest.takeWhile fun c => isQuotable c && c != '"'
    match rest.drop value.length with
    | '"' :: rest => if value.isEmpty then none else afterQuoted rest
    | _ => none
  | cs =>
    let value := cs.takeWhile isToken
    match cs.drop value.length with
    | [] => some []
    | ';' :: rest => if value.isEmpty then none else some rest
    | _ => none

/-- Whether the characters are parameters. -/
def areParameters : (fuel : Nat) → List Char → Bool
  | _, [] => true
  | 0, _ => false
  | fuel + 1, cs =>
    match cs with
    | ' ' :: rest => areParameters fuel rest
    | cs =>
      let name := cs.takeWhile fun c => isToken c
      match cs.drop name.length with
      | '=' :: rest =>
        if name.isEmpty then false else (afterValue rest).any (areParameters fuel)
      | _ => false

/-- The type of a media type, what follows its slash up to the parameters, and the parameters. -/
def mediaParts? (cs : List Char) : Option (List Char × List Char × List Char) :=
  let top := cs.takeWhile isToken
  match cs.drop top.length with
  | '/' :: rest =>
    let sub := rest.takeWhile isToken
    match rest.drop sub.length with
    | [] => some (top, sub, [])
    | c :: rest =>
      if (c = ';' ∨ c = ' ') ∧ sub ≠ [] then some (top, sub, rest) else none
  | _ => none

/-- The parts around the last plus sign behind the first character. -/
def splitSuffix (sub : List Char) : List Char × Option (List Char) :=
  let suffix := (sub.reverse.takeWhile (· ≠ '+')).reverse
  let front := sub.take (sub.length - suffix.length - 1)
  if suffix.length < sub.length ∧ front ≠ [] then (front, some suffix) else (sub, none)

/-- Whether a media type is that of a document. -/
def isJsonType (mediaType : String) : Bool :=
  let cs := mediaType.toList
  match mediaParts? (cs.map Char.toLower) with
  | none => false
  | some (top, sub, parameters) =>
    let (front, suffix?) := splitSuffix sub
    cs.all isVisible && areParameters parameters.length parameters &&
      top == "application".toList &&
      (front == "json".toList || suffix? == some "json".toList)

end KeyCustody.Api
