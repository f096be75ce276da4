import KeyCustody.Text.Hidden
/-!
# Texts in a log

A text in a log stands between quotes. Quotes, backslashes and the common controls have escapes of
two characters, and every other character that is not shown is written by its number.
-/

namespace KeyCustody.Text.Quoted

/-- The number of a character between braces. -/
def byNumber (c : Char) : List Char :=
  ['\\', 'u', '\x7b'] ++ Nat.toDigits 16 c.toNat ++ ['\x7d']

/-- The characters for one character of a text. -/
def escape (c : Char) : List Char :=
  if c = '\x00' then ['\\', '0']
  else if c = '\t' then ['\\', 't']
  else if c = '\n' then ['\\', 'n']
  else if c = '\r' then ['\\', 'r']
  else if c = '"' then ['\\', '"']
  else if c = '\\' then ['\\', '\\']
  else if c.toNat < 32 ∨ isHidden c then byNumber c
  else [c]

/-- The text between quotes. -/
def encode (s : String) : String :=
  String.ofList ('"' :: s.toList.flatMap escape ++ ['"'])

end KeyCustody.Text.Quoted
