import KeyCustody.Text.Base64
/-!
# Textual encoding of key files

A key file is a text of a line that begins it and names its kind, base 64 in lines of sixty-four
characters, and a line that ends it and names the kind again. Text in front of the first line is
allowed; after the last line at most one line end is, and a blank line may stand before it.
-/

namespace KeyCustody.Crypto.Pem

/-- The characters of a line. -/
def lineWidth : Nat := 64

def beginMark : List Char := "-----BEGIN ".toList
def endMark : List Char := "-----END ".toList
def closeMark : List Char := "-----".toList

/-! ### Writing -/

/-- The characters in lines of the line width, every line closed by a line feed. -/
def lines (cs : List Char) : List Char :=
  if _h : cs = [] then []
  else cs.take lineWidth ++ '\n' :: lines (cs.drop lineWidth)
termination_by cs.length
decreasing_by
  have : cs.length ≠ 0 := fun e => _h (List.eq_nil_of_length_eq_zero e)
  simp only [List.length_drop, lineWidth]
  omega

/-- The file of the given kind. -/
def encode (label : String) (der : Bytes) : String :=
  String.ofList (beginMark ++ label.toList ++ closeMark ++ '\n' ::
    lines (Text.Base64.encodeList der) ++ endMark ++ label.toList ++ closeMark ++ ['\n'])

/-! ### Reading -/

/-- What follows a beginning of the list. -/
def dropStart? (start : List Char) (cs : List Char) : Option (List Char) :=
  if start.isPrefixOf cs then some (cs.drop start.length) else none

/-- What stands before an end of the list. -/
def dropEnd? (ending : List Char) (cs : List Char) : Option (List Char) :=
  if ending.isSuffixOf cs then some (cs.take (cs.length - ending.length)) else none

/-- The characters after one line end: a line feed, a carriage return, or the two together. -/
def dropLineEnd? : List Char → Option (List Char)
  | '\r' :: '\n' :: cs => some cs
  | '\n' :: cs => some cs
  | '\r' :: cs => some cs
  | _ => none

/-- The characters before one line end. -/
def dropLastLineEnd? (cs : List Char) : Option (List Char) :=
  (match cs.reverse with
    | '\n' :: '\r' :: rest => some rest
    | '\n' :: rest => some rest
    | '\r' :: rest => some rest
    | _ => none).map List.reverse

/-- The characters from the first line that begins a file; no NUL may stand before it. -/
def fromBegin? : List Char → Option (List Char)
  | [] => none
  | c :: cs =>
    if c = '\x00' then none
    else if c = '\n' ∧ beginMark.isPrefixOf cs then some cs
    else fromBegin? cs

/-- The base 64 digits of the lines, all of which but the last have the line width. A shorter last
line may have a line end of its own, so that one blank line may follow it. -/
def unwrap? (cs : List Char) : Option (List Char) :=
  if cs.length < lineWidth then some ((dropLastLineEnd? cs).getD cs)
  else if cs.length = lineWidth then some cs
  else do
    let rest ← match cs.drop lineWidth with
      | '\r' :: '\n' :: rest => some rest
      | '\n' :: rest => some rest
      | '\r' :: rest => some rest
      | _ => none
    let digits ← if _ : rest.length < cs.length then unwrap? rest else none
    some (cs.take lineWidth ++ digits)
termination_by cs.length

/-- The octets in a file of the given kind. -/
def decode? (label : String) (text : String) : Option Bytes := do
  let cs := text.toList
  let cs ← if beginMark.isPrefixOf cs then some cs else fromBegin? cs
  let cs ← dropStart? (beginMark ++ label.toList ++ closeMark) cs
  let cs ← dropLineEnd? cs
  let cs := (dropLastLineEnd? cs).getD cs
  let cs ← dropEnd? (endMark ++ label.toList ++ closeMark) cs
  let cs ← dropLastLineEnd? cs
  let digits ← unwrap? cs
  Text.Base64.decodeList digits

end KeyCustody.Crypto.Pem
