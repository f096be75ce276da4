import KeyCustody.Bytes
/-!
# SHA-256

The hash function of FIPS 180-4 with words of 32 bits. The message is filled up to whole blocks of
sixty-four octets, and every block updates a state of eight words.

The round constants and the first state are the leading bits of the fractional parts of cube and
square roots of the first primes, and are computed as such.
-/

namespace KeyCustody.Crypto.Sha256

/-- The first prime numbers, as many as the rounds of the longer members of the family need. -/
def primes : List Nat :=
  (List.range 420).filter fun n => 2 ≤ n && (List.range n).all fun d => d < 2 || n % d != 0

/-- The greatest `x` below `2 ^ bits` with `x ^ k ≤ n`, found from the highest bit down. -/
def rootFloor (k n : Nat) : (bits : Nat) → (low : Nat) → Nat
  | 0, low => low
  | bits + 1, low =>
    let x := low + Nat.pow 2 bits
    rootFloor k n bits (if Nat.pow x k ≤ n then x else low)

/-- The first `width` bits of the fractional part of the `k`-th root of `p`. -/
def rootFraction (k width p : Nat) : Nat :=
  rootFloor k (p * Nat.pow 2 (k * width)) (width + 5) 0 % Nat.pow 2 width

/-- The constants of the rounds. -/
def roundConstants : Array UInt32 :=
  ((primes.take 64).map fun p => UInt32.ofNat (rootFraction 3 32 p)).toArray

/-- The state of eight words. -/
structure State where
  a : UInt32
  b : UInt32
  c : UInt32
  d : UInt32
  e : UInt32
  f : UInt32
  g : UInt32
  h : UInt32

/-- The state before the first block. -/
def State.first : State :=
  let w (i : Nat) := UInt32.ofNat (rootFraction 2 32 (primes.getD i 2))
  ⟨w 0, w 1, w 2, w 3, w 4, w 5, w 6, w 7⟩

/-- The word turned to the right. -/
def rotateRight (x : UInt32) (n : UInt32) : UInt32 :=
  (x >>> n) ||| (x <<< (32 - n))

/-- The big-endian word of four octets. -/
def word (a b c d : UInt8) : UInt32 :=
  (a.toUInt32 <<< 24) ||| (b.toUInt32 <<< 16) ||| (c.toUInt32 <<< 8) ||| d.toUInt32

/-- The words of a byte string whose length is a multiple of four. -/
def words : Bytes → List UInt32
  | a :: b :: c :: d :: rest => word a b c d :: words rest
  | _ => []

/-- The message schedule: sixteen words of the block and, after them, mixtures of earlier ones. -/
def schedule (block : Array UInt32) : Array UInt32 :=
  (List.range 48).foldl (fun w i =>
    let x := w.getD (i + 1) 0
    let y := w.getD (i + 14) 0
    let s0 := rotateRight x 7 ^^^ rotateRight x 18 ^^^ (x >>> 3)
    let s1 := rotateRight y 17 ^^^ rotateRight y 19 ^^^ (y >>> 10)
    w.push (w.getD i 0 + s0 + w.getD (i + 9) 0 + s1)) block

/-- One round with the constant `k` and the schedule word `w`. -/
def State.round (s : State) (k w : UInt32) : State :=
  let s1 := rotateRight s.e 6 ^^^ rotateRight s.e 11 ^^^ rotateRight s.e 25
  let choice := (s.e &&& s.f) ^^^ (~~~s.e &&& s.g)
  let t1 := s.h + s1 + choice + k + w
  let s0 := rotateRight s.a 2 ^^^ rotateRight s.a 13 ^^^ rotateRight s.a 22
  let majority := (s.a &&& s.b) ^^^ (s.a &&& s.c) ^^^ (s.b &&& s.c)
  ⟨t1 + (s0 + majority), s.a, s.b, s.c, s.d + t1, s.e, s.f, s.g⟩

/-- The state after a block of sixteen words. -/
def State.block (s : State) (block : Array UInt32) : State :=
  let w := schedule block
  let t := (List.range 64).foldl
    (fun t i => t.round (roundConstants.getD i 0) (w.getD i 0)) s
  ⟨s.a + t.a, s.b + t.b, s.c + t.c, s.d + t.d, s.e + t.e, s.f + t.f, s.g + t.g, s.h + t.h⟩

/-- The message filled up to whole blocks: a one bit, zeros, and the length in bits. -/
def padded (message : Bytes) : Bytes :=
  let zeros := (119 - message.length % 64) % 64
  message ++ 0x80 :: List.replicate zeros 0 ++ Bytes.ofNatBE 8 (8 * message.length)

/-- The state after all blocks of the words, whose number is the fuel. -/
def State.blocks : (fuel : Nat) → List UInt32 → State → State
  | 0, _, s => s
  | _, [], s => s
  | fuel + 1, ws, s => blocks fuel (ws.drop 16) (s.block (ws.take 16).toArray)

/-- The octets of a state. -/
def State.toBytes (s : State) : Bytes :=
  [s.a, s.b, s.c, s.d, s.e, s.f, s.g, s.h].flatMap fun w => Bytes.ofNatBE 4 w.toNat

/-- The hash of a message, thirty-two octets. -/
def digest (message : Bytes) : Bytes :=
  let ws := words (padded message)
  (State.first.blocks ws.length ws).toBytes

theorem length_digest (message : Bytes) : (digest message).length = 32 := by
  simp [digest, State.toBytes]

end KeyCustody.Crypto.Sha256
