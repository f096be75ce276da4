import KeyCustody.Text.Base64
import Mathlib.Data.List.Basic
/-!
# Laws of base 64

Every digit is read as its value and none is the sign that fills up a last group, so the octets of a
group are read back from its digits, and those of a whole byte string group by group.

## Main results

* `decode?_encode`: the octets are read back from their written form.
-/

namespace KeyCustody.Text.Base64

/-! ### Digits -/

theorem digit?_digit {n : Nat} (hn : n < 64) : digit? (digit n) = some n :=
  (by decide : ∀ n : Fin 64, digit? (digit n) = some n.1) ⟨n, hn⟩

theorem digit_ne_fill {n : Nat} (hn : n < 64) : digit n ≠ '=' :=
  (by decide : ∀ n : Fin 64, digit n ≠ '=') ⟨n, hn⟩

/-! ### Groups -/

/-- The three octets of four digits, as they are written. -/
theorem octets_of_digits (a b c : UInt8) :
    UInt8.ofNat (a.toNat / 4 * 4 + (a.toNat % 4 * 16 + b.toNat / 16) / 16) = a ∧
      UInt8.ofNat ((a.toNat % 4 * 16 + b.toNat / 16) % 16 * 16 +
        (b.toNat % 16 * 4 + c.toNat / 64) / 4) = b ∧
      UInt8.ofNat ((b.toNat % 16 * 4 + c.toNat / 64) % 4 * 64 + c.toNat % 64) = c := by
  have ha : a.toNat < 256 := a.toNat_lt
  have hb : b.toNat < 256 := b.toNat_lt
  have hc : c.toNat < 256 := c.toNat_lt
  refine ⟨?_, ?_, ?_⟩
  · rw [show a.toNat / 4 * 4 + (a.toNat % 4 * 16 + b.toNat / 16) / 16 = a.toNat by omega,
      UInt8.ofNat_toNat]
  · rw [show (a.toNat % 4 * 16 + b.toNat / 16) % 16 * 16 +
      (b.toNat % 16 * 4 + c.toNat / 64) / 4 = b.toNat by omega, UInt8.ofNat_toNat]
  · rw [show (b.toNat % 16 * 4 + c.toNat / 64) % 4 * 64 + c.toNat % 64 = c.toNat by omega,
      UInt8.ofNat_toNat]

/-- The digits of three octets stand for values below sixty-four. -/
theorem digits_lt (a b c : UInt8) : a.toNat / 4 < 64 ∧ a.toNat % 4 * 16 + b.toNat / 16 < 64 ∧
    b.toNat % 16 * 4 + c.toNat / 64 < 64 ∧ c.toNat % 64 < 64 := by
  have ha : a.toNat < 256 := a.toNat_lt
  have hb : b.toNat < 256 := b.toNat_lt
  have hc : c.toNat < 256 := c.toNat_lt
  omega

theorem decodeGroup_digits (a b c : UInt8) :
    decodeGroup (digit (a.toNat / 4)) (digit (a.toNat % 4 * 16 + b.toNat / 16))
      (digit (b.toNat % 16 * 4 + c.toNat / 64)) (digit (c.toNat % 64)) = some [a, b, c] := by
  obtain ⟨hp, hq, hr, hs⟩ := digits_lt a b c
  obtain ⟨ha, hb, hc⟩ := octets_of_digits a b c
  simp only [decodeGroup, digit?_digit hp, digit?_digit hq, digit?_digit hr, digit?_digit hs,
    Option.bind_eq_bind, Option.bind_some, ha, hb, hc]

theorem decodeLast_three (a b c : UInt8) :
    decodeLast (digit (a.toNat / 4)) (digit (a.toNat % 4 * 16 + b.toNat / 16))
      (digit (b.toNat % 16 * 4 + c.toNat / 64)) (digit (c.toNat % 64)) = some [a, b, c] := by
  obtain ⟨hp, hq, hr, hs⟩ := digits_lt a b c
  obtain ⟨ha, hb, hc⟩ := octets_of_digits a b c
  simp only [decodeLast, digit?_digit hp, digit?_digit hq, digit?_digit hr, digit?_digit hs,
    Option.bind_eq_bind, Option.bind_some, digit_ne_fill hr, digit_ne_fill hs, if_false, ha, hb, hc]

theorem decodeLast_two (a b : UInt8) :
    decodeLast (digit (a.toNat / 4)) (digit (a.toNat % 4 * 16 + b.toNat / 16))
      (digit (b.toNat % 16 * 4)) '=' = some [a, b] := by
  obtain ⟨hp, hq, hr, -⟩ := digits_lt a b 0
  obtain ⟨ha, hb, -⟩ := octets_of_digits a b 0
  simp only [UInt8.toNat_zero, Nat.zero_div, Nat.add_zero] at hr hb
  have hmod : b.toNat % 16 * 4 % 4 = 0 := by
    omega
  simp only [decodeLast, digit?_digit hp, digit?_digit hq, digit?_digit hr, Option.bind_eq_bind,
    Option.bind_some, digit_ne_fill hr, if_false, if_true, hmod, ha, hb]

theorem decodeLast_one (a : UInt8) :
    decodeLast (digit (a.toNat / 4)) (digit (a.toNat % 4 * 16)) '=' '=' = some [a] := by
  obtain ⟨hp, hq, -, -⟩ := digits_lt a 0 0
  obtain ⟨ha, -, -⟩ := octets_of_digits a 0 0
  simp only [UInt8.toNat_zero, Nat.zero_div, Nat.add_zero] at hq ha
  simp only [decodeLast, digit?_digit hp, digit?_digit hq, Option.bind_eq_bind, Option.bind_some,
    if_true, Nat.mul_mod_left, and_self, ha]

/-! ### Byte strings -/

/-- What holds of every digit and of the sign that fills up a last group holds of every character
of a written form. -/
theorem forall_mem_encodeList {P : Char → Prop} (hdigit : ∀ n < 64, P (digit n)) (hfill : P '=')
    (bs : Bytes) : ∀ c ∈ encodeList bs, P c := by
  induction bs using encodeList.induct with
  | case1 => exact List.forall_mem_nil _
  | case2 a =>
    obtain ⟨hp, hq, -, -⟩ := digits_lt a 0 0
    rw [UInt8.toNat_zero, Nat.zero_div, Nat.add_zero] at hq
    simp only [encodeList, List.forall_mem_cons]
    exact ⟨hdigit _ hp, hdigit _ hq, hfill, hfill, List.forall_mem_nil _⟩
  | case3 a b =>
    obtain ⟨hp, hq, hr, -⟩ := digits_lt a b 0
    rw [UInt8.toNat_zero, Nat.zero_div, Nat.add_zero] at hr
    simp only [encodeList, List.forall_mem_cons]
    exact ⟨hdigit _ hp, hdigit _ hq, hdigit _ hr, hfill, List.forall_mem_nil _⟩
  | case4 a b c rest ih =>
    obtain ⟨hp, hq, hr, hs⟩ := digits_lt a b c
    simp only [encodeList, List.forall_mem_cons]
    exact ⟨hdigit _ hp, hdigit _ hq, hdigit _ hr, hdigit _ hs, ih⟩

/-- The last group is filled up unless there are three octets to every group. -/
theorem fill_mem_encodeList {bs : Bytes} (h : bs.length % 3 ≠ 0) : '=' ∈ encodeList bs := by
  induction bs using encodeList.induct with
  | case1 => simp at h
  | case2 a => simp [encodeList]
  | case3 a b => simp [encodeList]
  | case4 a b c rest ih =>
    have hrest : rest.length % 3 ≠ 0 := by
      simp only [List.length_cons] at h
      omega
    simp [encodeList, ih hrest]

theorem encodeList_ne_nil {bs : Bytes} (h : bs ≠ []) : encodeList bs ≠ [] := by
  rcases bs with _ | ⟨a, _ | ⟨b, _ | ⟨c, rest⟩⟩⟩ <;> simp [encodeList] at h ⊢

theorem decodeList_encodeList (bs : Bytes) : decodeList (encodeList bs) = some bs := by
  induction bs using encodeList.induct with
  | case1 => rfl
  | case2 a => exact decodeLast_one a
  | case3 a b => exact decodeLast_two a b
  | case4 a b c rest ih =>
    rw [encodeList]
    rcases eq_or_ne rest [] with rfl | hrest
    · exact decodeLast_three a b c
    · rw [decodeList.eq_3 _ _ _ _ _ (encodeList_ne_nil hrest), decodeGroup_digits, ih]
      rfl

/-- **The octets are read back** from their written form. -/
@[simp] theorem decode?_encode (bs : Bytes) : decode? (encode bs) = some bs := by
  rw [decode?, encode, String.toList_ofList, decodeList_encodeList]

end KeyCustody.Text.Base64
