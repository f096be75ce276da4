import KeyCustody.Bytes
/-!
# Variable-length numbers

A number in digits of seven bits, least significant first, one digit an octet; the high bit of an
octet says that another one follows. Writing uses as few octets as possible. Reading takes at most
ten octets and leaves it to the caller whether superfluous digits do harm, and to how many bits the
number is cut.

## Main definitions

* `Varint.encode`: the shortest form of a number.
* `Varint.readDigits`: the digits at the start of a byte string.
* `Varint.read`, `Varint.readMinimal`: the number they stand for.
-/

namespace KeyCustody.Peer.Varint

/-- The number in as few octets as possible. -/
def encode (n : Nat) : Bytes :=
  if h : n < 128 then [UInt8.ofNat n]
  else UInt8.ofNat (n % 128 + 128) :: encode (n / 128)
termination_by n
decreasing_by omega

/-- The octets of the longest number that is read. -/
def longest : Nat := 10

/-- The digits at the start of a byte string, of which there are at most `most`, and the octets
after them. -/
def readDigits : (most : Nat) → Bytes → Option (List Nat × Bytes)
  | 0, _ => none
  | _, [] => none
  | most + 1, b :: bs =>
    if b < 0x80 then some ([b.toNat], bs)
    else (readDigits most bs).map fun (ds, rest) => ((b.toNat - 128) :: ds, rest)

/-- The number of digits to base 128, least significant first. -/
def value (ds : List Nat) : Nat :=
  ds.foldr (fun d n => d + 128 * n) 0

/-- The number at the start of a byte string, cut to `bits` bits, and the octets after it. -/
def read (bits : Nat) (bs : Bytes) : Option (Nat × Bytes) :=
  (readDigits longest bs).map fun (ds, rest) => (value ds % Nat.pow 2 bits, rest)

/-- Like `read`, but a last digit of zero is allowed only when it is the only one. -/
def readMinimal (bits : Nat) (bs : Bytes) : Option (Nat × Bytes) := do
  let (ds, rest) ← readDigits longest bs
  if 1 < ds.length ∧ ds.getLast? = some 0 then none
  else some (value ds % Nat.pow 2 bits, rest)

end KeyCustody.Peer.Varint
