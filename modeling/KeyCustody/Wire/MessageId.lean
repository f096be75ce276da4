import KeyCustody.Crypto.Entropy
import KeyCustody.Text.Hex
/-!
# Message ids

A request that leaves a node has an id of its own, sixteen random octets but for six bits that mark
them as random. The text is in hexadecimal in five parts.

## Main definitions

* `mark`: the octets with the six bits set.
* `messageIdText`, `freshMessageId`: the text, and a fresh one.
-/

namespace KeyCustody.Wire

open Crypto (Entropy)

/-- The octets of an id. -/
def messageIdLength : Nat := 16

/-- The octets with the bits set that mark them as random: version four in the seventh octet, and
the variant in the ninth. -/
def mark (octets : Bytes) : Bytes :=
  octets.mapIdx fun i b =>
    if i = 6 then (b &&& 0x0F) ||| 0x40
    else if i = 8 then (b &&& 0x3F) ||| 0x80
    else b

/-- The text of an id: parts of four, two, two, two and six octets. -/
def messageIdText (octets : Bytes) : String :=
  let part (start n : Nat) : String := Text.Hex.encode ((octets.drop start).take n)
  "-".intercalate [part 0 4, part 4 2, part 6 2, part 8 2, part 10 6]

/-- A fresh id. -/
def freshMessageId (r : Entropy) : String × Entropy :=
  let (octets, r) := r.draw messageIdLength
  (messageIdText (mark octets), r)

end KeyCustody.Wire
