import KeyCustody.Text.Hex
/-!
# JSON documents

The part of JSON in which a node answers its clients: texts, truth values, lists and objects.
Documents are printed without blanks, and in texts only what must be escaped is.
-/

namespace KeyCustody.Json

/-- A document. -/
inductive Tree where
  | text (s : String)
  | flag (b : Bool)
  | list (items : List Tree)
  | object (fields : List (String × Tree))

/-- The characters for one character of a text. -/
def escape (c : Char) : List Char :=
  if c = '"' then ['\\', '"']
  else if c = '\\' then ['\\', '\\']
  else if c = '\n' then ['\\', 'n']
  else if c = '\r' then ['\\', 'r']
  else if c = '\t' then ['\\', 't']
  else if c = '\x08' then ['\\', 'b']
  else if c = '\x0c' then ['\\', 'f']
  else if c.toNat < 32 then
    ['\\', 'u', '0', '0', Text.Hex.digit (c.toNat / 16), Text.Hex.digit (c.toNat % 16)]
  else [c]

/-- A text between quotes. -/
def quote (s : String) : List Char :=
  '"' :: s.toList.flatMap escape ++ ['"']

namespace Tree

mutual

/-- The characters of a document. -/
def printList : Tree → List Char
  | .text s => quote s
  | .flag true => ['t', 'r', 'u', 'e']
  | .flag false => ['f', 'a', 'l', 's', 'e']
  | .list items => '[' :: printItems items ++ [']']
  | .object fields => '\x7b' :: printFields fields ++ ['\x7d']

/-- The characters of documents with commas between them. -/
def printItems : List Tree → List Char
  | [] => []
  | [t] => t.printList
  | t :: u :: ts => t.printList ++ ',' :: printItems (u :: ts)

/-- The characters of named documents with commas between them. -/
def printFields : List (String × Tree) → List Char
  | [] => []
  | [(name, t)] => quote name ++ ':' :: t.printList
  | (name, t) :: f :: fs => quote name ++ ':' :: t.printList ++ ',' :: printFields (f :: fs)

end

/-- The text of a document. -/
def print (t : Tree) : String :=
  String.ofList t.printList

end Tree

end KeyCustody.Json
