import KeyCustody.Crypto.Sha256
/-!
# SHA-512

The hash function of FIPS 180-4 with words of 64 bits, blocks of one hundred and twenty-eight octets
and eighty rounds. It is made as `KeyCustody.Crypto.Sha256` is.
-/

namespace KeyCustody.Crypto.Sha512

open Sha256 (primes rootFraction)

/-- The constants of the rounds. -/
def roundConstants : Array UInt64 :=
  ((primes.take 80).map fun p => UInt64.ofNat (rootFraction 3 64 p)).toArray

/-- The state of eight words. -/
structure State where
  a : UInt64
  b : UInt64
  c : UInt64
  d : UInt64
  e : UInt64
  f : UInt64
  g : UInt64
  h : UInt64

/-- The state before the first block. -/
def State.first : State :=
  let w (i : Nat) := UInt64.ofNat (rootFraction 2 64 (primes.getD i 2))
  ⟨w 0, w 1, w 2, w 3, w 4, w 5, w 6, w 7⟩

/-- The word turned to the right. -/
def rotateRight (x : UInt64) (n : UInt64) : UInt64 :=
  (x >>> n) ||| (x <<< (64 - n))

/-- The words of a byte string whose length is a multiple of eight. -/
def words : Bytes → List UInt64
  | a :: b :: c :: d :: e :: f :: g :: h :: rest =>
    ((Sha256.word a b c d).toUInt64 <<< 32 ||| (Sha256.word e f g h).toUInt64) :: words rest
  | _ => []

/-- The message schedule: sixteen words of the block and, after them, mixtures of earlier ones. -/
def schedule (block : Array UInt64) : Array UInt64 :=
  (List.range 64).foldl (fun w i =>
    let x := w.getD (i + 1) 0
    let y := w.getD (i + 14) 0
    let s0 := rotateRight x 1 ^^^ rotateRight x 8 ^^^ (x >>> 7)
    let s1 := rotateRight y 19 ^^^ rotateRight y 61 ^^^ (y >>> 6)
    w.push (w.getD i 0 + s0 + w.getD (i + 9) 0 + s1)) block

/-- One round with the constant `k` and the schedule word `w`. -/
def State.round (s : State) (k w : UInt64) : State :=
  let s1 := rotateRight s.e 14 ^^^ rotateRight s.e 18 ^^^ rotateRight s.e 41
  let choice := (s.e &&& s.f) ^^^ (~~~s.e &&& s.g)
  let t1 := s.h + s1 + choice + k + w
  let s0 := rotateRight s.a 28 ^^^ rotateRight s.a 34 ^^^ rotateRight s.a 39
  let majority := (s.a &&& s.b) ^^^ (s.a &&& s.c) ^^^ (s.b &&& s.c)
  ⟨t1 + (s0 + majority), s.a, s.b, s.c, s.d + t1, s.e, s.f, s.g⟩

/-- The state after a block of sixteen words. -/
def State.block (s : State) (block : Array UInt64) : State :=
  let w := schedule block
  let t := (List.range 80).foldl
    (fun t i => t.round (roundConstants.getD i 0) (w.getD i 0)) s
  ⟨s.a + t.a, s.b + t.b, s.c + t.c, s.d + t.d, s.e + t.e, s.f + t.f, s.g + t.g, s.h + t.h⟩

/-- The message filled up to whole blocks: a one bit, zeros, and the length in bits. -/
def padded (message : Bytes) : Bytes :=
  let zeros := (239 - message.length % 128) % 128
  message ++ 0x80 :: List.replicate zeros 0 ++ Bytes.ofNatBE 16 (8 * message.length)

/-- The state after all blocks of the words, whose number is the fuel. -/
def State.blocks : (fuel : Nat) → List UInt64 → State → State
  | 0, _, s => s
  | _, [], s => s
  | fuel + 1, ws, s => blocks fuel (ws.drop 16) (s.block (ws.take 16).toArray)

/-- The octets of a state. -/
def State.toBytes (s : State) : Bytes :=
  [s.a, s.b, s.c, s.d, s.e, s.f, s.g, s.h].flatMap fun w => Bytes.ofNatBE 8 w.toNat

/-- The hash of a message, sixty-four octets. -/
def digest (message : Bytes) : Bytes :=
  let ws := words (padded message)
  (State.first.blocks ws.length ws).toBytes

theorem length_digest (message : Bytes) : (digest message).length = 64 := by
  simp [digest, State.toBytes]

end KeyCustody.Crypto.Sha512
