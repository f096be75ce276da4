import KeyCustody.Crypto.Modular
import Mathlib.FieldTheory.Finite.Basic
/-!
# Laws of arithmetic to a modulus

Squaring yields the power. To a modulus of two different primes, a power whose exponent is one to
each prime minus one is the number itself.

## Main results

* `pow_eq`: powers by squaring.
* `pow_modEq_self_of_primes`: exponents that do nothing.
-/

namespace KeyCustody.Crypto.Modular

/-- The power by squaring is the power. -/
theorem pow_eq (b e m : Nat) : pow b e m = b ^ e % m := by
  fun_induction pow b e m with
  | case1 b => rw [Nat.pow_zero]
  | case2 b e he rest hodd ih =>
    have hrest : rest = (b * b) ^ (e / 2) % m := by
      rw [Nat.pow_mod]
      exact ih
    have hsplit : (2 * (e / 2)).succ = e := by
      omega
    rw [hrest, Nat.mul_mod_mod, ← Nat.pow_two, ← Nat.pow_mul, ← Nat.pow_succ', hsplit]
  | case3 b e he rest heven ih =>
    have hrest : rest = (b * b) ^ (e / 2) % m := by
      rw [Nat.pow_mod]
      exact ih
    have hsplit : 2 * (e / 2) = e := by
      omega
    rw [hrest, ← Nat.pow_two, ← Nat.pow_mul, hsplit]

/-- To a prime, a power whose exponent is one to the prime minus one is the number itself. -/
theorem pow_modEq_self {p e : Nat} (hp : p.Prime) (he : e % (p - 1) = 1) (m : Nat) :
    m ^ e ≡ m [MOD p] := by
  have hsplit := Nat.div_add_mod e (p - 1)
  rw [he] at hsplit
  by_cases hm : m.Coprime p
  · calc m ^ e = (m ^ (p - 1)) ^ (e / (p - 1)) * m := by
          rw [← pow_mul, ← pow_succ, hsplit]
      _ ≡ 1 ^ (e / (p - 1)) * m [MOD p] :=
          ((Nat.ModEq.pow_card_sub_one_eq_one hp hm).pow _).mul_right m
      _ = m := by rw [one_pow, one_mul]
  · have hdvd : p ∣ m := by
      rw [Nat.coprime_comm] at hm
      exact (Nat.Prime.dvd_iff_not_coprime hp).2 hm
    have hpow : p ∣ m ^ e := hdvd.pow (by rw [← hsplit]; exact Nat.succ_ne_zero _)
    exact (Nat.modEq_zero_iff_dvd.2 hpow).trans (Nat.modEq_zero_iff_dvd.2 hdvd).symm

/-- **Exponents that do nothing** to a modulus of two different primes are those that are one to
each prime minus one. -/
theorem pow_modEq_self_of_primes {p q e : Nat} (hp : p.Prime) (hq : q.Prime) (hne : p ≠ q)
    (hep : e % (p - 1) = 1) (heq : e % (q - 1) = 1) (m : Nat) : m ^ e ≡ m [MOD p * q] :=
  (Nat.modEq_and_modEq_iff_modEq_mul ((Nat.coprime_primes hp hq).2 hne)).1
    ⟨pow_modEq_self hp hep m, pow_modEq_self hq heq m⟩

end KeyCustody.Crypto.Modular
