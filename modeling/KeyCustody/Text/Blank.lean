/-!
# Blank characters

The characters with the Unicode property White_Space, and the trimming of texts by it.
-/

namespace KeyCustody.Text

/-- Whether the character has the property White_Space. -/
def isBlank (c : Char) : Bool :=
  let n := c.toNat
  (9 ≤ n && n ≤ 13) || n == 0x20 || n == 0x85 || n == 0xA0 || n == 0x1680 ||
    (0x2000 ≤ n && n ≤ 0x200A) || n == 0x2028 || n == 0x2029 || n == 0x202F || n == 0x205F ||
    n == 0x3000

/-- The characters without the blanks at both ends. -/
def trimList (cs : List Char) : List Char :=
  ((cs.dropWhile isBlank).reverse.dropWhile isBlank).reverse

/-- The text without the blanks at both ends. -/
def trim (s : String) : String :=
  String.ofList (trimList s.toList)

/-- The characters after every leading repetition of the two characters `p` and `q`. -/
def dropPairs (p q : Char) : List Char → List Char
  | c :: d :: cs => if c = p ∧ d = q then dropPairs p q cs else c :: d :: cs
  | cs => cs

/-- The characters after every leading `0x`. -/
def dropHexMarks (cs : List Char) : List Char :=
  dropPairs '0' 'x' cs

end KeyCustody.Text
