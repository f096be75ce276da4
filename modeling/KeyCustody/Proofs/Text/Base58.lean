import KeyCustody.Proofs.Bytes
import KeyCustody.Text.Base58
/-!
# Reading base 58

A byte string is read back from its text. The number of the octets comes back from its digits; the
zero octets in front, which the number does not know of, come back from the digits in front of it.

## Main results

* `Bytes.minimalBE_toNatBE`: the shortest form of a byte string's number.
* `Base58.decode?_encode`: a byte string is read back.
-/

namespace KeyCustody

/-! ### Shortest forms -/

namespace Bytes

/-- A byte string that starts with no zero is as long as its number is wide. -/
theorem natWidth_toNatBE {b : UInt8} (hb : b ≠ 0) (bs : Bytes) :
    natWidth (toNatBE (b :: bs)) = bs.length + 1 := by
  have hpos : 0 < b.toNat := Nat.pos_of_ne_zero fun h => hb (UInt8.toNat_inj.1 h)
  have hlow : 256 ^ bs.length ≤ toNatBE (b :: bs) := by
    rw [toNatBE_cons]
    calc 256 ^ bs.length = 1 * 256 ^ bs.length := (Nat.one_mul _).symm
      _ ≤ b.toNat * 256 ^ bs.length := Nat.mul_le_mul_right _ hpos
      _ ≤ b.toNat * 256 ^ bs.length + toNatBE bs := Nat.le_add_right _ _
  refine Nat.le_antisymm (natWidth_le (toNatBE_lt (b :: bs))) (Nat.succ_le_of_lt ?_)
  exact (Nat.pow_lt_pow_iff_right (by decide)).1 (hlow.trans_lt (lt_pow_natWidth _))

/-- The shortest form of a byte string's number is the byte string without the zeros in front. -/
theorem minimalBE_toNatBE (bs : Bytes) :
    List.replicate (bs.takeWhile (· == 0)).length 0 ++ minimalBE (toNatBE bs) = bs := by
  induction bs with
  | nil => simp [minimalBE, natWidth, ofNatBE, ofNatLE]
  | cons b bs ih =>
    by_cases hb : b = 0
    · subst hb
      have hzero : toNatBE (0 :: bs) = toNatBE bs := by
        simp [toNatBE_cons]
      rw [List.takeWhile_cons_of_pos (by rfl), List.length_cons, List.replicate_succ,
        List.cons_append, hzero, ih]
    · rw [List.takeWhile_cons_of_neg (by simpa using hb), List.length_nil, List.replicate_zero,
        List.nil_append, minimalBE, natWidth_toNatBE hb]
      simpa using ofNatBE_toNatBE (b :: bs)

end Bytes

namespace Text.Base58

/-! ### Digits -/

theorem digit?_digit {d : Nat} (h : d < 58) : digit? (digit d) = some d := by
  have key : ∀ i : Fin 58, digit? (digit i) = some i.val := by decide
  exact key ⟨d, h⟩

theorem lt_of_mem_digitsLE {n d : Nat} (h : d ∈ digitsLE n) : d < 58 := by
  induction n using Nat.strong_induction_on with
  | _ n ih =>
    rw [digitsLE] at h
    split_ifs at h with hn
    · simp at h
    · rcases List.mem_cons.1 h with rfl | h
      · exact Nat.mod_lt _ (by decide)
      · exact ih (n / 58) (Nat.div_lt_self (Nat.pos_of_ne_zero hn) (by decide)) h

/-- The number comes back from its digits. -/
theorem foldl_digitsLE (n : Nat) :
    (digitsLE n).reverse.foldl (fun n d => n * 58 + d) 0 = n := by
  induction n using Nat.strong_induction_on with
  | _ n ih =>
    rw [digitsLE]
    split_ifs with hn
    · simp [hn]
    · rw [List.reverse_cons, List.foldl_append,
        ih (n / 58) (Nat.div_lt_self (Nat.pos_of_ne_zero hn) (by decide))]
      simp only [List.foldl_cons, List.foldl_nil]
      omega

/-- The first digit of a number is not zero. -/
theorem getLast?_digitsLE (n : Nat) : (digitsLE n).getLast? ≠ some 0 := by
  induction n using Nat.strong_induction_on with
  | _ n ih =>
    rw [digitsLE]
    split_ifs with hn
    · simp
    · rw [List.getLast?_cons]
      have := ih (n / 58) (Nat.div_lt_self (Nat.pos_of_ne_zero hn) (by decide))
      cases hlast : (digitsLE (n / 58)).getLast? with
      | none =>
        have hnil := List.getLast?_eq_none_iff.1 hlast
        have hsmall : n / 58 = 0 := by
          by_contra h
          rw [digitsLE, dif_neg h] at hnil
          simp at hnil
        simp only [Option.getD_none, ne_eq, Option.some.injEq]
        omega
      | some d =>
        rw [hlast] at this
        simpa using this

theorem takeWhile_reverse_digitsLE (n : Nat) :
    (digitsLE n).reverse.takeWhile (· == 0) = [] := by
  have := getLast?_digitsLE n
  rw [← List.head?_reverse] at this
  cases hdigits : (digitsLE n).reverse with
  | nil => rfl
  | cons d ds =>
    rw [hdigits, List.head?_cons] at this
    exact List.takeWhile_cons_of_neg (by simpa using this)

/-! ### Texts -/

theorem mapM_digit? (ds : List Nat) (h : ∀ d ∈ ds, d < 58) :
    (ds.map digit).mapM digit? = some ds := by
  induction ds with
  | nil => rfl
  | cons d ds ih =>
    have hd := digit?_digit (h d List.mem_cons_self)
    have hds := ih fun e he => h e (List.mem_cons_of_mem _ he)
    simp [hd, hds]

theorem decodeList_encodeList (bs : Bytes) : decodeList (encodeList bs) = some bs := by
  have hdigits : encodeList bs =
      (List.replicate (bs.takeWhile (· == 0)).length 0 ++
        (digitsLE (Bytes.toNatBE bs)).reverse).map digit := by
    rw [encodeList, List.map_append, List.map_replicate, List.map_reverse]
    rfl
  have hbound : ∀ d ∈ List.replicate (bs.takeWhile (· == 0)).length 0 ++
      (digitsLE (Bytes.toNatBE bs)).reverse, d < 58 := by
    intro d hd
    rcases List.mem_append.1 hd with hd | hd
    · rw [List.eq_of_mem_replicate hd]
      decide
    · exact lt_of_mem_digitsLE (List.mem_reverse.1 hd)
  have hzeros : ∀ n : Nat, (List.replicate n 0).foldl (fun n d => n * 58 + d) 0 = 0 := by
    intro n
    induction n with
    | zero => rfl
    | succ n ih => rw [List.replicate_succ, List.foldl_cons, Nat.zero_mul, ih]
  have hfront : (List.replicate (bs.takeWhile (· == 0)).length 0 ++
      (digitsLE (Bytes.toNatBE bs)).reverse).takeWhile (· == 0) =
        List.replicate (bs.takeWhile (· == 0)).length 0 := by
    rw [List.takeWhile_append_of_pos (by simp), takeWhile_reverse_digitsLE, List.append_nil]
  rw [decodeList, hdigits, mapM_digit? _ hbound]
  simp only [Option.bind_eq_bind, Option.bind_some, List.foldl_append, hzeros, foldl_digitsLE,
    hfront, List.length_replicate, Bytes.minimalBE_toNatBE]

/-- **A byte string is read back** from its text in base 58. -/
theorem decode?_encode (bs : Bytes) : decode? (encode bs) = some bs := by
  rw [decode?, encode, String.toList_ofList, decodeList_encodeList]

end Text.Base58

end KeyCustody
