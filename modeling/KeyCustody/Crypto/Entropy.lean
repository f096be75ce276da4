import KeyCustody.Bytes
/-!
# Random octets

Randomness is an endless sequence of octets, of which a computation uses up a beginning. A statement
about every random choice is a statement about every sequence.

## Main definitions

* `Entropy`: the sequence, and how much of it is used.
* `Entropy.draw`, `Entropy.drawNonzero`, `Entropy.below`: octets and numbers from it.
* `Entropy.ofSeed`, `Entropy.ofOctets`: a sequence that looks random, computed from a number, and
  one that begins with given octets.
-/

namespace KeyCustody.Crypto

/-- An endless sequence of octets with a mark up to which it is used. -/
structure Entropy where
  /-- The octet at a position. -/
  octet : Nat → UInt8
  /-- How many octets are used. -/
  used : Nat

namespace Entropy

/-- The next `n` octets. -/
def draw (n : Nat) (r : Entropy) : Bytes × Entropy :=
  ((List.range n).map fun i => r.octet (r.used + i), { r with used := r.used + n })

/-- The next `n` octets different from zero, each made from two of the sequence. -/
def drawNonzero (n : Nat) (r : Entropy) : Bytes × Entropy :=
  let octetAt (i : Nat) : UInt8 :=
    let x := (r.octet (r.used + 2 * i)).toNat * 256 + (r.octet (r.used + 2 * i + 1)).toNat
    UInt8.ofNat (1 + x % 255)
  ((List.range n).map octetAt, { r with used := r.used + 2 * n })

/-- A number below `n`, or zero if there is none, made from eight octets. -/
def below (n : Nat) (r : Entropy) : Nat × Entropy :=
  let (bs, r) := r.draw 8
  (Bytes.toNatBE bs % n, r)

@[simp] theorem length_draw (n : Nat) (r : Entropy) : (r.draw n).1.length = n := by
  simp [draw]

@[simp] theorem length_drawNonzero (n : Nat) (r : Entropy) : (r.drawNonzero n).1.length = n := by
  simp [drawNonzero]

theorem drawNonzero_ne_zero (n : Nat) (r : Entropy) : ∀ b ∈ (r.drawNonzero n).1, b ≠ 0 := by
  intro b hb
  simp only [drawNonzero, List.mem_map] at hb
  obtain ⟨i, -, rfl⟩ := hb
  generalize (r.octet (r.used + 2 * i)).toNat * 256 + (r.octet (r.used + 2 * i + 1)).toNat = x
  intro h
  have h := congrArg UInt8.toNat h
  simp only [UInt8.toNat_ofNat', UInt8.toNat_ofNat] at h
  omega

/-- A thorough mixture of the bits of a word. -/
def mix (x : UInt64) : UInt64 :=
  let x := (x ^^^ (x >>> 30)) * 0xBF58476D1CE4E5B9
  let x := (x ^^^ (x >>> 27)) * 0x94D049BB133111EB
  x ^^^ (x >>> 31)

/-- The sequence of a seed: each octet is a mixture of the seed and its position. -/
def ofSeed (seed : Nat) : Entropy where
  octet i := (mix (mix (UInt64.ofNat seed) + UInt64.ofNat (i + 1) * 0x9E3779B97F4A7C15)).toUInt8
  used := 0

/-- The sequence that begins with given octets, and goes on with zeros. -/
def ofOctets (octets : Bytes) : Entropy where
  octet i := octets[i]?.getD 0
  used := 0

end Entropy

end KeyCustody.Crypto
