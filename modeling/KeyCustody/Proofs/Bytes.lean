import KeyCustody.Bytes
import Mathlib.Data.List.Basic
import Mathlib.Tactic.IntervalCases
import Mathlib.Tactic.Ring
/-!
# Laws of byte strings

The positional readings of a byte string are inverse to its positional forms as far as the width
goes, pieces of a byte string string together to it again, and the octets of a text are the octets
of no other text. A bit that flips changes one octet in one place.

## Main definitions

* `Bytes.flipBit`: a byte string with one of its bits flipped.
* `Bytes.AtLeast`: a byte string, or any that has more octets.

## Main results

* `Bytes.toNatBE_ofNatBE`, `Bytes.ofNatBE_toNatBE`: numbers and octets.
* `Bytes.toNatBE_minimalBE`, `Bytes.ne_zero_of_minimalBE`: shortest forms of numbers.
* `Bytes.chunks_append`, `Bytes.flatten_chunks`: pieces.
* `Bytes.text?_ofText`, `Bytes.textLossy_ofText`: texts and octets.
* `Bytes.xor_xor_cancel`: combination by exclusive or undoes itself.
* `Bytes.lexLt_iff`, `Bytes.xor_lt_of_ne`: byte strings are ordered as lists are.
* `Bytes.flipBit_ne`, `Bytes.getElem?_flipBit`: flipped bits.
-/

namespace KeyCustody.Bytes

/-! ### Numbers -/

theorem toNatLE_ofNatLE (width n : Nat) : toNatLE (ofNatLE width n) = n % 256 ^ width := by
  induction width generalizing n with
  | zero => simp [ofNatLE, toNatLE, Nat.mod_one]
  | succ width ih =>
    have hlow : (UInt8.ofNat (n % 256)).toNat = n % 256 := by
      simp only [UInt8.toNat_ofNat']
      omega
    rw [ofNatLE, toNatLE, ih, hlow, Nat.pow_succ, Nat.mul_comm (256 ^ width), Nat.mod_mul]

theorem toNatBE_cons (b : UInt8) (bs : Bytes) :
    toNatBE (b :: bs) = b.toNat * 256 ^ bs.length + toNatBE bs := by
  have key : ∀ (cs : Bytes) (n : Nat),
      cs.foldl (fun n b => n * 256 + b.toNat) n = n * 256 ^ cs.length + toNatBE cs := by
    intro cs
    induction cs with
    | nil => intro n; simp [toNatBE]
    | cons c cs ih =>
      intro n
      simp only [toNatBE, List.foldl_cons, List.length_cons, Nat.pow_succ] at ih ⊢
      rw [ih, ih (0 * 256 + c.toNat)]
      ring
  simpa [toNatBE] using key bs b.toNat

@[simp] theorem toNatBE_nil : toNatBE [] = 0 := rfl

theorem toNatBE_append (as bs : Bytes) :
    toNatBE (as ++ bs) = toNatBE as * 256 ^ bs.length + toNatBE bs := by
  induction as with
  | nil => simp
  | cons a as ih =>
    rw [List.cons_append, toNatBE_cons, ih, toNatBE_cons, List.length_append, Nat.pow_add]
    ring

theorem toNatBE_reverse (bs : Bytes) : toNatBE bs.reverse = toNatLE bs := by
  induction bs with
  | nil => rfl
  | cons b bs ih =>
    rw [List.reverse_cons, toNatBE_append, ih, toNatBE_cons, toNatLE]
    simp only [List.length_cons, List.length_nil, toNatBE_nil]
    ring

/-- A number is read back as far as the width goes. -/
theorem toNatBE_ofNatBE (width n : Nat) : toNatBE (ofNatBE width n) = n % 256 ^ width := by
  rw [ofNatBE, toNatBE_reverse, toNatLE_ofNatLE]

theorem toNatBE_ofNatBE_of_lt {width n : Nat} (h : n < 256 ^ width) :
    toNatBE (ofNatBE width n) = n := by
  rw [toNatBE_ofNatBE, Nat.mod_eq_of_lt h]

theorem toNatBE_lt (bs : Bytes) : toNatBE bs < 256 ^ bs.length := by
  induction bs with
  | nil => simp
  | cons b bs ih =>
    have hb : b.toNat < 256 := b.toNat_lt
    rw [toNatBE_cons, List.length_cons, Nat.pow_succ]
    calc b.toNat * 256 ^ bs.length + toNatBE bs
        < b.toNat * 256 ^ bs.length + 256 ^ bs.length := by omega
      _ = (b.toNat + 1) * 256 ^ bs.length := by ring
      _ ≤ 256 * 256 ^ bs.length := Nat.mul_le_mul_right _ hb
      _ = 256 ^ bs.length * 256 := by ring

theorem ofNatLE_toNatLE (bs : Bytes) : ofNatLE bs.length (toNatLE bs) = bs := by
  induction bs with
  | nil => rfl
  | cons b bs ih =>
    have hb : b.toNat < 256 := b.toNat_lt
    have hlow : (b.toNat + 256 * toNatLE bs) % 256 = b.toNat := by omega
    have hhigh : (b.toNat + 256 * toNatLE bs) / 256 = toNatLE bs := by omega
    rw [List.length_cons, toNatLE, ofNatLE, hlow, hhigh, ih, UInt8.ofNat_toNat]

theorem toNatLE_ofNatLE_of_lt {width n : Nat} (h : n < 256 ^ width) :
    toNatLE (ofNatLE width n) = n := by
  rw [toNatLE_ofNatLE, Nat.mod_eq_of_lt h]

theorem toNatLE_lt (bs : Bytes) : toNatLE bs < 256 ^ bs.length := by
  rw [← toNatBE_reverse, ← List.length_reverse]
  exact toNatBE_lt bs.reverse

/-- A byte string is the form of its number in its own width. -/
theorem ofNatBE_toNatBE (bs : Bytes) : ofNatBE bs.length (toNatBE bs) = bs := by
  have h := ofNatLE_toNatLE bs.reverse
  rw [List.length_reverse] at h
  rw [ofNatBE, ← List.reverse_reverse bs, toNatBE_reverse, List.length_reverse,
    List.length_reverse, h]

@[simp] theorem toNatBE_replicate_zero (k : Nat) : toNatBE (List.replicate k 0) = 0 := by
  induction k with
  | zero => rfl
  | succ k ih => simp [List.replicate_succ, toNatBE_cons, ih]

/-- The octets beyond those that a number needs are zero. -/
theorem ofNatBE_add {n width : Nat} (k : Nat) (h : n < 256 ^ width) :
    ofNatBE (k + width) n = List.replicate k 0 ++ ofNatBE width n := by
  have hnumber : toNatBE (List.replicate k 0 ++ ofNatBE width n) = n := by
    rw [toNatBE_append, toNatBE_replicate_zero, Nat.zero_mul, Nat.zero_add,
      toNatBE_ofNatBE_of_lt h]
  have hform := ofNatBE_toNatBE (List.replicate k 0 ++ ofNatBE width n)
  rwa [hnumber, List.length_append, List.length_replicate, length_ofNatBE] at hform

/-! ### Shortest forms of numbers -/

/-- A number has no more digits than its width. -/
theorem lt_pow_natWidth (n : Nat) : n < 256 ^ natWidth n := by
  rw [natWidth]
  split_ifs with hn
  · simp [hn]
  · calc n < 2 ^ (n.log2 + 1) := Nat.lt_log2_self
      _ ≤ 2 ^ (8 * (n.log2 / 8 + 1)) := Nat.pow_le_pow_right (by decide) (by omega)
      _ = 256 ^ (n.log2 / 8 + 1) := by rw [Nat.pow_mul]

/-- The first digit of a number is not zero. -/
theorem pow_natWidth_le {n : Nat} (hn : n ≠ 0) : 256 ^ (natWidth n - 1) ≤ n := by
  rw [natWidth, if_neg hn, Nat.add_sub_cancel]
  calc 256 ^ (n.log2 / 8) = 2 ^ (8 * (n.log2 / 8)) := by rw [Nat.pow_mul]
    _ ≤ 2 ^ n.log2 := Nat.pow_le_pow_right (by decide) (by omega)
    _ ≤ n := (Nat.le_log2 hn).1 (Nat.le_refl _)

theorem natWidth_le {n width : Nat} (h : n < 256 ^ width) : natWidth n ≤ width := by
  by_contra hlt
  have hn : n ≠ 0 := by
    rintro rfl
    exact hlt (Nat.zero_le _)
  have hle : 256 ^ width ≤ 256 ^ (natWidth n - 1) := Nat.pow_le_pow_right (by decide) (by omega)
  exact absurd (h.trans_le (hle.trans (pow_natWidth_le hn))) (lt_irrefl n)

@[simp] theorem length_minimalBE (n : Nat) : (minimalBE n).length = natWidth n :=
  length_ofNatBE _ _

/-- A number is read back from its shortest form. -/
@[simp] theorem toNatBE_minimalBE (n : Nat) : toNatBE (minimalBE n) = n :=
  toNatBE_ofNatBE_of_lt (lt_pow_natWidth n)

/-- The shortest form of a number starts with no zero. -/
theorem ne_zero_of_minimalBE {n : Nat} {b : UInt8} {bs : Bytes} (h : minimalBE n = b :: bs) :
    b ≠ 0 := by
  rintro rfl
  have hwidth : natWidth n - 1 = bs.length := by
    rw [← length_minimalBE, h, List.length_cons, Nat.add_sub_cancel]
  have hvalue : n = toNatBE bs := by
    rw [← toNatBE_minimalBE n, h, toNatBE_cons, UInt8.toNat_zero, Nat.zero_mul, Nat.zero_add]
  have hn : n ≠ 0 := by
    rintro rfl
    cases h
  have hle := pow_natWidth_le hn
  rw [hwidth] at hle
  exact absurd (hle.trans hvalue.le) (Nat.not_le.2 (toNatBE_lt bs))

/-! ### Pieces -/

@[simp] theorem chunks_nil (size : Nat) : chunks size [] = [] := by
  rw [chunks]
  simp

/-- The first piece is cut off in front. -/
theorem chunks_of_ne_nil {size : Nat} {bs : Bytes} (hsize : size ≠ 0) (hbs : bs ≠ []) :
    chunks size bs = bs.take size :: chunks size (bs.drop size) := by
  rw [chunks, dif_neg (by simp [hsize, hbs])]

/-- A whole piece in front is the first piece. -/
theorem chunks_append {size : Nat} {as : Bytes} (hsize : size ≠ 0) (has : as.length = size)
    (bs : Bytes) : chunks size (as ++ bs) = as :: chunks size bs := by
  have hne : as ++ bs ≠ [] := by
    intro h
    have : as = [] := (List.append_eq_nil_iff.1 h).1
    subst this
    exact hsize has.symm
  rw [chunks_of_ne_nil hsize hne, ← has, List.take_left, List.drop_left]

/-- The pieces string together to the byte string. -/
theorem flatten_chunks {size : Nat} (hsize : size ≠ 0) (bs : Bytes) :
    (chunks size bs).flatten = bs := by
  induction h : bs.length using Nat.strong_induction_on generalizing bs with
  | _ n ih =>
    rcases eq_or_ne bs [] with rfl | hbs
    · simp
    · have hpos := List.length_pos_of_ne_nil hbs
      rw [chunks_of_ne_nil hsize hbs, List.flatten_cons,
        ih (bs.drop size).length (by rw [List.length_drop]; omega) _ rfl, List.take_append_drop]

/-- There are as many pieces as it takes to cover the byte string. -/
theorem length_chunks {size : Nat} (hsize : size ≠ 0) (bs : Bytes) :
    (chunks size bs).length = (bs.length + size - 1) / size := by
  induction h : bs.length using Nat.strong_induction_on generalizing bs with
  | _ n ih =>
    rcases eq_or_ne bs [] with rfl | hbs
    · obtain rfl : 0 = n := h
      rw [chunks_nil, List.length_nil, Nat.zero_add, Nat.div_eq_of_lt (by omega)]
    · have hpos := List.length_pos_of_ne_nil hbs
      have hrest : (bs.drop size).length = n - size := by
        rw [List.length_drop, h]
      rw [chunks_of_ne_nil hsize hbs, List.length_cons, ih (n - size) (by omega) _ hrest]
      rcases Nat.lt_or_ge size n with hlong | hshort
      · have hsplit : n + size - 1 = (n - size + size - 1) + size := by omega
        rw [hsplit, Nat.add_div_right _ (Nat.pos_of_ne_zero hsize)]
      · have hsplit : n + size - 1 = (n - 1) + size := by omega
        rw [hsplit, Nat.add_div_right _ (Nat.pos_of_ne_zero hsize),
          Nat.div_eq_of_lt (by omega), Nat.div_eq_of_lt (by omega)]

/-- No piece is longer than its size, and none is empty. -/
theorem length_of_mem_chunks {size : Nat} {bs piece : Bytes} (hp : piece ∈ chunks size bs) :
    piece ≠ [] ∧ piece.length ≤ size := by
  induction h : bs.length using Nat.strong_induction_on generalizing bs with
  | _ n ih =>
    by_cases hbs : size = 0 ∨ bs = []
    · rw [chunks, dif_pos hbs] at hp
      simp at hp
    · obtain ⟨hsize, hbs⟩ := not_or.1 hbs
      have hpos := List.length_pos_of_ne_nil hbs
      rw [chunks_of_ne_nil hsize hbs] at hp
      rcases List.mem_cons.1 hp with rfl | hp
      · refine ⟨?_, List.length_take_le _ _⟩
        rw [← List.length_pos_iff_ne_nil, List.length_take]
        omega
      · exact ih (bs.drop size).length (by rw [List.length_drop]; omega) hp rfl

/-- Every piece of a byte string of whole pieces is whole. -/
theorem length_of_mem_chunks_of_dvd {size : Nat} {bs piece : Bytes} (hdvd : size ∣ bs.length)
    (hp : piece ∈ chunks size bs) : piece.length = size := by
  induction h : bs.length using Nat.strong_induction_on generalizing bs with
  | _ n ih =>
    by_cases hbs : size = 0 ∨ bs = []
    · rw [chunks, dif_pos hbs] at hp
      simp at hp
    · obtain ⟨hsize, hbs⟩ := not_or.1 hbs
      have hpos := List.length_pos_of_ne_nil hbs
      have hle : size ≤ bs.length := Nat.le_of_dvd hpos hdvd
      rw [chunks_of_ne_nil hsize hbs] at hp
      rcases List.mem_cons.1 hp with rfl | hp
      · rw [List.length_take]
        omega
      · refine ih (bs.drop size).length (by rw [List.length_drop]; omega) ?_ hp rfl
        rw [List.length_drop]
        exact Nat.dvd_sub hdvd (Nat.dvd_refl size)

theorem length_flatten_of_forall {size : Nat} {pieces : List Bytes}
    (h : ∀ piece ∈ pieces, piece.length = size) :
    pieces.flatten.length = pieces.length * size := by
  induction pieces with
  | nil => simp
  | cons piece pieces ih =>
    obtain ⟨hpiece, hpieces⟩ := List.forall_mem_cons.1 h
    rw [List.flatten_cons, List.length_append, hpiece, ih hpieces, List.length_cons, Nat.succ_mul,
      Nat.add_comm]

/-- A byte string of whole pieces has as many of them as go into its length. -/
theorem length_chunks_mul {size : Nat} {bs : Bytes} (hsize : size ≠ 0) (hdvd : size ∣ bs.length) :
    (chunks size bs).length * size = bs.length := by
  rw [← length_flatten_of_forall fun piece hp => length_of_mem_chunks_of_dvd hdvd hp,
    flatten_chunks hsize]

/-! ### Combination -/

theorem length_xor (as bs : Bytes) : (xor as bs).length = min as.length bs.length := by
  simp [xor]

/-- A byte string that is combined twice with one that is as long is the byte string again. -/
theorem xor_xor_cancel {as bs : Bytes} (h : as.length = bs.length) : xor (xor as bs) bs = as := by
  induction as generalizing bs with
  | nil => simp [xor]
  | cons a as ih =>
    cases bs with
    | nil => simp at h
    | cons b bs =>
      have ih := @ih bs (by simpa using h)
      simp only [xor, List.zipWith_cons_cons] at ih ⊢
      rw [ih, UInt8.xor_assoc, UInt8.xor_self, UInt8.xor_zero]

/-! ### Texts -/

/-- The octets of a text are read as the text. -/
@[simp] theorem text?_ofText (s : String) : text? (ofText s) = some s := by
  have h : (⟨(ofText s).toArray⟩ : ByteArray) = s.toByteArray := by
    simp [ofText]
  rw [text?, h, String.fromUTF8?, dif_pos s.isValidUTF8]
  rfl

/-- A text that is read has the octets it is read from. -/
theorem ofText_of_text? {bs : Bytes} {s : String} (h : text? bs = some s) : ofText s = bs := by
  rw [text?, String.fromUTF8?] at h
  split_ifs at h
  obtain rfl := Option.some.inj h
  rfl

/-- The octets of a text have no ill-formed part. -/
@[simp] theorem textLossy_ofText (s : String) : textLossy (ofText s) = s := by
  rw [textLossy, text?_ofText]

theorem ofText_append (s t : String) : ofText (s ++ t) = ofText s ++ ofText t := by
  simp [ofText, String.toByteArray_append]

theorem isSome_text?_append {as bs : Bytes} (has : (text? as).isSome) (hbs : (text? bs).isSome) :
    (text? (as ++ bs)).isSome := by
  obtain ⟨s, hs⟩ := Option.isSome_iff_exists.1 has
  obtain ⟨t, ht⟩ := Option.isSome_iff_exists.1 hbs
  rw [← ofText_of_text? hs, ← ofText_of_text? ht, ← ofText_append, text?_ofText]
  rfl

theorem ofText_injective : Function.Injective ofText := by
  intro s t h
  have := congrArg text? h
  simpa using this

/-! ### Order -/

/-- The order of byte strings is that of lists. -/
theorem lexLt_iff {as bs : Bytes} : lexLt as bs = true ↔ as < bs := by
  induction as generalizing bs with
  | nil => cases bs <;> simp [lexLt]
  | cons a as ih =>
    cases bs with
    | nil => simp [lexLt]
    | cons b bs => simp [lexLt, List.cons_lt_cons_iff, ih]

/-- Of two byte strings that differ one comes before the other, and not the other way round. -/
theorem xor_lt_of_ne {as bs : Bytes} (h : as ≠ bs) : Xor (as < bs) (bs < as) := by
  rw [xor_iff_or_and_not_and]
  refine ⟨?_, fun hboth => List.lt_asymm hboth.1 hboth.2⟩
  by_contra hneither
  obtain ⟨hle, hge⟩ := not_or.1 hneither
  exact h (List.le_antisymm (List.not_lt.1 hge) (List.not_lt.1 hle))

/-! ### Flipped bits -/

/-- The byte string with bit `k` of the octet in place `i` flipped. -/
def flipBit (bs : Bytes) (i k : Nat) : Bytes :=
  bs.modify i (· ^^^ UInt8.ofNat (2 ^ k))

@[simp] theorem length_flipBit (bs : Bytes) (i k : Nat) : (bs.flipBit i k).length = bs.length :=
  List.length_modify ..

theorem getElem?_flipBit (bs : Bytes) (i k j : Nat) : (bs.flipBit i k)[j]? =
    bs[j]?.map fun b => if i = j then b ^^^ UInt8.ofNat (2 ^ k) else b := by
  rw [flipBit, List.getElem?_modify]
  rfl

theorem flipBit_ne {bs : Bytes} {i k : Nat} (hi : i < bs.length) (hk : k < 8) :
    bs.flipBit i k ≠ bs := by
  intro h
  have hoctet := getElem?_flipBit bs i k i
  rw [h, List.getElem?_eq_getElem hi, Option.map_some, if_pos rfl, Option.some.injEq] at hoctet
  have hzero : UInt8.ofNat (2 ^ k) = 0 :=
    (UInt8.xor_right_inj bs[i]).1 (by rw [← hoctet, UInt8.xor_zero])
  interval_cases k <;> cases hzero

/-! ### Shortest forms -/

/-- The octets `form` are `bs`, or more octets than those. -/
def AtLeast (bs form : Bytes) : Prop :=
  form = bs ∨ bs.length < form.length

namespace AtLeast

variable {as bs as' bs' : Bytes}

theorem refl (bs : Bytes) : AtLeast bs bs := .inl rfl

theorem length_le (h : AtLeast bs bs') : bs.length ≤ bs'.length := by
  rcases h with rfl | h
  · exact Nat.le_refl _
  · exact h.le

theorem append (ha : AtLeast as as') (hb : AtLeast bs bs') : AtLeast (as ++ bs) (as' ++ bs') := by
  have hal := ha.length_le
  have hbl := hb.length_le
  rcases ha with rfl | ha
  · rcases hb with rfl | hb
    · exact .refl _
    · exact .inr (by simp only [List.length_append]; omega)
  · exact .inr (by simp only [List.length_append]; omega)

theorem eq_of_length_le (h : AtLeast bs bs') (hle : bs'.length ≤ bs.length) : bs' = bs :=
  h.resolve_right (Nat.not_lt.2 hle)

end AtLeast

end KeyCustody.Bytes
