import KeyCustody.Crypto.Aes
import KeyCustody.Proofs.Bytes
import Mathlib.Data.LawfulXor.Basic
import Mathlib.Data.List.Iterate
import Mathlib.Logic.Function.Iterate
/-!
# Laws of the AES block cipher

The double of a field element is linear in its bits, and a product is the sum of doubles that the
bits of its second factor choose. So products with different factors commute, and as one is a unit,
the product is commutative. Every element but zero is a power of three, which makes it invertible;
the substitution therefore loses nothing, and looking it up backwards undoes it.

The polynomial of the mixing of columns has the fourth power one. Its square has only the
coefficients that the mixing backwards adds before it mixes, which is thus the third power.

## Main results

* `unsub_sub`, `unshiftRows_shiftRows`, `unmixColumns_mixColumns`: the parts of a round are undone.
* `length_of_mem_roundKeys`: every round has a key of the length of a block.
* `cipher_decrypt_encrypt`: the block cipher decrypts what it encrypts.
-/

namespace KeyCustody.Crypto.Aes

/-! ### Sums -/

theorem xor_left_comm (a b c : UInt8) : a ^^^ (b ^^^ c) = b ^^^ (a ^^^ c) := by
  rw [← UInt8.xor_assoc, UInt8.xor_comm a b, UInt8.xor_assoc]

/-- Pairs of sums are sums of pairs. -/
theorem xor_xor_xor_comm (a b c d : UInt8) : a ^^^ b ^^^ (c ^^^ d) = a ^^^ c ^^^ (b ^^^ d) := by
  rw [UInt8.xor_assoc, UInt8.xor_assoc, xor_left_comm b]

theorem lt_iff_msb_eq_false {a : UInt8} : a < 0x80 ↔ a.toBitVec.msb = false := by
  rw [BitVec.msb_eq_decide, decide_eq_false_iff_not, UInt8.lt_iff_toNat_lt]
  simp

theorem double_eq (a : UInt8) :
    double a = a <<< 1 ^^^ if a.toBitVec.msb then 0x1B else 0 := by
  rw [double]
  by_cases h : a < 0x80
  · rw [if_pos h, lt_iff_msb_eq_false.1 h]
    simp
  · rw [if_neg h, if_pos (by simpa using mt lt_iff_msb_eq_false.2 h)]

/-- The double of a sum is the sum of the doubles. -/
theorem double_xor (a b : UInt8) : double (a ^^^ b) = double a ^^^ double b := by
  have hreduce : (if (a ^^^ b).toBitVec.msb then (0x1B : UInt8) else 0) =
      (if a.toBitVec.msb then 0x1B else 0) ^^^ if b.toBitVec.msb then 0x1B else 0 := by
    rw [UInt8.toBitVec_xor, BitVec.msb_xor]
    cases a.toBitVec.msb <;> cases b.toBitVec.msb <;> rfl
  rw [double_eq, double_eq, double_eq, hreduce, UInt8.shiftLeft_xor, xor_xor_xor_comm]

/-! ### Products -/

theorem mulBits_xor (n : Nat) (a a' b : UInt8) :
    mulBits n (a ^^^ a') b = mulBits n a b ^^^ mulBits n a' b := by
  induction n generalizing a a' b with
  | zero => simp [mulBits]
  | succ n ih =>
    have hlow : (if b % 2 = 1 then a ^^^ a' else 0) =
        (if b % 2 = 1 then a else 0) ^^^ if b % 2 = 1 then a' else 0 := by
      split <;> simp
    rw [mulBits, mulBits, mulBits, double_xor, ih, hlow, xor_xor_xor_comm]

theorem mulBits_zero (n : Nat) (b : UInt8) : mulBits n 0 b = 0 := by
  have h := mulBits_xor n 0 0 b
  rwa [UInt8.xor_self, UInt8.xor_self] at h

theorem mulBits_double (n : Nat) (a b : UInt8) :
    mulBits n (double a) b = double (mulBits n a b) := by
  induction n generalizing a b with
  | zero => rfl
  | succ n ih =>
    have hlow : (if b % 2 = 1 then double a else 0) = double (if b % 2 = 1 then a else 0) := by
      split <;> rfl
    rw [mulBits, mulBits, double_xor, ih, hlow]

/-- Products with two factors may be taken in either order. -/
theorem mulBits_right_comm (n m : Nat) (a b c : UInt8) :
    mulBits m (mulBits n a b) c = mulBits n (mulBits m a c) b := by
  induction n generalizing a b with
  | zero => exact mulBits_zero m c
  | succ n ih =>
    have hlow : mulBits m (if b % 2 = 1 then a else 0) c =
        if b % 2 = 1 then mulBits m a c else 0 := by
      split
      · rfl
      · exact mulBits_zero m c
    rw [mulBits, mulBits, mulBits_xor, hlow, ih, mulBits_double]

theorem mul_right_comm (a b c : UInt8) : mul (mul a b) c = mul (mul a c) b :=
  mulBits_right_comm 8 8 a b c

theorem one_mul (a : UInt8) : mul 1 a = a := by
  have h := (by decide +kernel : ∀ n : Fin 256, mul 1 (UInt8.ofNat n) = UInt8.ofNat n)
    ⟨a.toNat, a.toNat_lt⟩
  rwa [UInt8.ofNat_toNat] at h

theorem mul_comm (a b : UInt8) : mul a b = mul b a := by
  calc mul a b = mul (mul 1 a) b := by rw [one_mul]
    _ = mul (mul 1 b) a := mul_right_comm 1 a b
    _ = mul b a := by rw [one_mul]

/-! ### Inverses -/

/-- Three times a field element. -/
def triple (a : UInt8) : UInt8 :=
  a ^^^ double a

theorem mul_triple_iterate (i : Nat) (a b : UInt8) :
    mul (triple^[i] a) b = triple^[i] (mul a b) := by
  induction i generalizing a with
  | zero => rfl
  | succ i ih =>
    rw [Function.iterate_succ_apply, Function.iterate_succ_apply, ih, triple, triple, mul,
      mulBits_xor, mulBits_double, ← mul]

theorem triple_iterate_one : triple^[255] 1 = 1 := by
  decide +kernel

/-- Every field element but zero is a power of three. -/
theorem exists_triple_iterate {a : UInt8} (ha : a ≠ 0) : ∃ i < 255, triple^[i] 1 = a := by
  have h := (by decide +kernel : (List.range' 1 255).all fun n =>
    (List.iterate triple 1 255).any fun b => b.toNat == n)
  have hpos : a.toNat ≠ 0 := fun h => ha (UInt8.toNat_inj.1 h)
  have hmem : a.toNat ∈ List.range' 1 255 := by
    have := a.toNat_lt
    rw [List.mem_range'_1]
    omega
  obtain ⟨b, hb, hba⟩ := List.any_eq_true.1 (List.all_eq_true.1 h _ hmem)
  obtain ⟨i, hi, rfl⟩ := List.mem_iterate.1 hb
  exact ⟨i, hi, UInt8.toNat_inj.1 (by simpa using hba)⟩

theorem exists_mul_eq_one {a : UInt8} (ha : a ≠ 0) : ∃ b, mul a b = 1 := by
  obtain ⟨i, hi, rfl⟩ := exists_triple_iterate ha
  refine ⟨triple^[255 - i] 1, ?_⟩
  rw [mul_triple_iterate, one_mul, ← Function.iterate_add_apply, Nat.add_sub_cancel' hi.le,
    triple_iterate_one]

theorem mem_octets (a : UInt8) : a ∈ (List.range 256).map UInt8.ofNat :=
  List.mem_map.2 ⟨a.toNat, List.mem_range.2 a.toNat_lt, UInt8.ofNat_toNat⟩

theorem mul_inverse {a : UInt8} (ha : a ≠ 0) : mul a (inverse a) = 1 := by
  obtain ⟨b, hb⟩ := exists_mul_eq_one ha
  rw [inverse]
  cases hfind : ((List.range 256).map UInt8.ofNat).find? fun b => mul a b == 1 with
  | none =>
    rw [List.find?_eq_none] at hfind
    exact absurd (by simpa using hb) (hfind b (mem_octets b))
  | some c => simpa using List.find?_some hfind

theorem inverse_zero : inverse 0 = 0 := by
  rw [inverse, List.find?_eq_none.2]
  · rfl
  · intro b _
    rw [mul, mulBits_zero]
    decide

/-- Different field elements have different inverses. -/
theorem inverse_injective : Function.Injective inverse := by
  have hzero : ∀ a, inverse a = 0 → a = 0 := by
    intro a h
    by_contra ha
    have := mul_inverse ha
    rw [h, mul_comm, mul, mulBits_zero] at this
    exact absurd this (by decide)
  intro a b h
  rcases eq_or_ne a 0 with rfl | ha
  · exact (hzero b (by rw [← h, inverse_zero])).symm
  · have hb : b ≠ 0 := by
      rintro rfl
      exact ha (hzero a (by rw [h, inverse_zero]))
    calc a = mul (mul b (inverse b)) a := by rw [mul_inverse hb, one_mul]
      _ = mul (mul b a) (inverse a) := by rw [mul_right_comm, h]
      _ = mul (mul a (inverse a)) b := by rw [mul_comm b a, mul_right_comm]
      _ = b := by rw [mul_inverse ha, one_mul]

/-! ### Substitutions -/

/-- The map of bits that follows the inverse loses nothing. -/
theorem affine_injective : Function.Injective fun b : UInt8 =>
    b ^^^ rotateLeft b 1 ^^^ rotateLeft b 2 ^^^ rotateLeft b 3 ^^^ rotateLeft b 4 ^^^ 0x63 := by
  -- It is undone by turning what it makes by one, three and six places and adding the constant 5.
  have h := (by decide +kernel : ∀ n : Fin 256,
    let b := UInt8.ofNat n
    let s := b ^^^ rotateLeft b 1 ^^^ rotateLeft b 2 ^^^ rotateLeft b 3 ^^^ rotateLeft b 4 ^^^ 0x63
    rotateLeft s 1 ^^^ rotateLeft s 3 ^^^ rotateLeft s 6 ^^^ 0x05 = b)
  have hundo : Function.LeftInverse
      (fun s => rotateLeft s 1 ^^^ rotateLeft s 3 ^^^ rotateLeft s 6 ^^^ 0x05)
      fun b : UInt8 => b ^^^ rotateLeft b 1 ^^^ rotateLeft b 2 ^^^ rotateLeft b 3 ^^^
        rotateLeft b 4 ^^^ 0x63 := by
    intro b
    have := h ⟨b.toNat, b.toNat_lt⟩
    simpa only [UInt8.ofNat_toNat] using this
  exact hundo.injective

theorem substitute_injective : Function.Injective substitute :=
  affine_injective.comp inverse_injective

theorem sub_eq (a : UInt8) : sub a = substitute a := by
  have ha : a.toNat < 256 := a.toNat_lt
  simp [sub, substitutions, Array.getD, ha]

/-- The substitution is undone. -/
@[simp] theorem unsub_sub (a : UInt8) : unsub (sub a) = a := by
  have hlookup : ∀ b : UInt8, unsub b =
      UInt8.ofNat ((substitutions.findIdx? (· == b)).getD 0) := by
    intro b
    have hb : b.toNat < 256 := b.toNat_lt
    simp [unsub, unsubstitutions, Array.getD, hb]
  rw [hlookup, sub_eq]
  cases hfind : substitutions.findIdx? (· == substitute a) with
  | none =>
    rw [Array.findIdx?_eq_none_iff] at hfind
    have hmem : substitute a ∈ substitutions := by
      rw [substitutions, List.mem_toArray, List.mem_map]
      exact ⟨a.toNat, List.mem_range.2 a.toNat_lt, by rw [UInt8.ofNat_toNat]⟩
    simpa using hfind _ hmem
  | some i =>
    obtain ⟨hi, hsame, -⟩ := Array.findIdx?_eq_some_iff_getElem.1 hfind
    have hsame' : substitute (UInt8.ofNat i) = substitute a := by
      simpa [substitutions] using hsame
    exact substitute_injective hsame'

/-! ### Rows and columns -/

theorem length_shiftRows (s : Bytes) : (shiftRows s).length = s.length := by
  unfold shiftRows
  split <;> rfl

@[simp] theorem unshiftRows_shiftRows (s : Bytes) : unshiftRows (shiftRows s) = s := by
  unfold shiftRows
  split
  · rfl
  · unfold unshiftRows
    split
    · rename_i h
      exact (h _ _ _ _ _ _ _ _ _ _ _ _ _ _ _ _ rfl).elim
    · rfl

/-- What holds of no columns, and of one more column if of the others, holds of whole columns. -/
@[elab_as_elim]
theorem columns_induction {P : Bytes → Prop} (nil : P [])
    (cons : ∀ a b c d rest, P rest → P (a :: b :: c :: d :: rest)) {s : Bytes}
    (hs : s.length % 4 = 0) : P s := by
  induction s using mixColumns.induct with
  | case1 a b c d rest ih =>
    refine cons a b c d rest (ih ?_)
    simpa [Nat.add_assoc] using hs
  | case2 s h =>
    rcases s with _ | ⟨a, _ | ⟨b, _ | ⟨c, _ | ⟨d, rest⟩⟩⟩⟩
    · exact nil
    · simp at hs
    · simp at hs
    · simp at hs
    · exact absurd rfl (h a b c d rest)

theorem length_mixColumns {s : Bytes} (hs : s.length % 4 = 0) :
    (mixColumns s).length = s.length := by
  refine columns_induction rfl (fun a b c d rest ih => ?_) hs
  simp [mixColumns, ih]

/-- Mixing a column twice adds four times the sum of every other octet. -/
theorem mixColumns_mixColumns (a b c d : UInt8) :
    mixColumns (mixColumns [a, b, c, d]) =
      [a ^^^ double (double (a ^^^ c)), b ^^^ double (double (b ^^^ d)),
        c ^^^ double (double (a ^^^ c)), d ^^^ double (double (b ^^^ d))] := by
  simp only [mixColumns, double_xor, List.cons.injEq, and_true]
  refine ⟨?_, ?_, ?_, ?_⟩ <;> simp [UInt8.xor_assoc, UInt8.xor_comm, xor_left_comm]

/-- Mixing backwards is mixing three times. -/
theorem unmixColumns_column (a b c d : UInt8) :
    unmixColumns [a, b, c, d] = mixColumns (mixColumns (mixColumns [a, b, c, d])) := by
  rw [mixColumns_mixColumns]
  simp [unmixColumns]

theorem mixColumns_column (a b c d : UInt8) :
    ∃ a' b' c' d', mixColumns [a, b, c, d] = [a', b', c', d'] :=
  ⟨_, _, _, _, rfl⟩

/-- Mixing four times does nothing. -/
theorem mixColumns_iterate_four (a b c d : UInt8) :
    mixColumns (mixColumns (mixColumns (mixColumns [a, b, c, d]))) = [a, b, c, d] := by
  rw [mixColumns_mixColumns a b c d, mixColumns_mixColumns]
  simp [UInt8.xor_comm, xor_left_comm]

theorem unmixColumns_append {s : Bytes} (a b c d : UInt8) :
    unmixColumns ([a, b, c, d] ++ s) = unmixColumns [a, b, c, d] ++ unmixColumns s := by
  simp [unmixColumns]

/-- The mixing of whole columns is undone. -/
theorem unmixColumns_mixColumns {s : Bytes} (hs : s.length % 4 = 0) :
    unmixColumns (mixColumns s) = s := by
  refine columns_induction rfl (fun a b c d rest ih => ?_) hs
  have hfront : mixColumns (a :: b :: c :: d :: rest) =
      mixColumns [a, b, c, d] ++ mixColumns rest := by
    simp [mixColumns]
  obtain ⟨a', b', c', d', hcolumn⟩ := mixColumns_column a b c d
  rw [hfront, hcolumn, unmixColumns_append, ih, unmixColumns_column, ← hcolumn,
    mixColumns_iterate_four]
  rfl

/-! ### Keys of rounds -/

/-- A word of the schedule is made from words of four octets. -/
theorem exists_word {w : Bytes} (hw : w.length = 4) : ∃ a b c d, w = [a, b, c, d] := by
  rcases w with _ | ⟨a, _ | ⟨b, _ | ⟨c, _ | ⟨d, _ | ⟨e, rest⟩⟩⟩⟩⟩ <;> simp at hw
  exact ⟨a, b, c, d, rfl⟩

/-- The schedule has as many words as are to be made, all of four octets. -/
theorem length_of_mem_expand {width : Nat} (hwidth : width ≠ 0) (n i : Nat) (rc : UInt8)
    {ws : List Bytes} (hws : width ≤ ws.length) (hall : ∀ w ∈ ws, w.length = 4) :
    (∀ w ∈ expand width n i rc ws, w.length = 4) ∧
      (expand width n i rc ws).length = n + ws.length := by
  induction n generalizing i rc ws with
  | zero => exact ⟨hall, by simp [expand]⟩
  | succ n ih =>
    obtain ⟨last, rest, rfl⟩ := List.exists_cons_of_length_pos (by omega : 0 < ws.length)
    obtain ⟨a, b, c, d, rfl⟩ := exists_word (hall last List.mem_cons_self)
    have hback : (([a, b, c, d] :: rest).getD (width - 1) []).length = 4 := by
      rw [List.getD_eq_getElem?_getD, List.getElem?_eq_getElem (by omega)]
      exact hall _ (List.getElem_mem _)
    obtain ⟨x, y, z, t, hmixed⟩ : ∃ x y z t,
        (if i % width = 0 then [sub b ^^^ rc, sub c, sub d, sub a]
          else if width > 6 ∧ i % width = 4 then [a, b, c, d].map sub
          else [a, b, c, d]) = [x, y, z, t] := by
      split_ifs <;> exact ⟨_, _, _, _, rfl⟩
    rw [expand]
    simp only [List.headD_cons, hmixed]
    have hword :
        (Bytes.xor (([a, b, c, d] :: rest).getD (width - 1) []) [x, y, z, t]).length = 4 := by
      rw [Bytes.length_xor, hback]
      rfl
    obtain ⟨hall', hlength⟩ := ih (i + 1) (if i % width = 0 then double rc else rc)
      (hws.trans (Nat.le_succ _)) (List.forall_mem_cons.2 ⟨hword, hall⟩)
    refine ⟨hall', hlength.trans ?_⟩
    rw [List.length_cons]
    omega

/-- Every round has a key, which is as long as a block, and so has the whitening. -/
theorem length_of_mem_roundKeys {key : Bytes} (hkey : key.length = 16 ∨ key.length = 32) :
    (∀ k ∈ roundKeys key, k.length = blockSize) ∧ roundKeys key ≠ [] := by
  have hdvd : 4 ∣ key.length := by
    omega
  have hcount := Bytes.length_chunks_mul (by decide : (4 : Nat) ≠ 0) hdvd
  have hwords : key.length / 4 ≤ (Bytes.chunks 4 key).reverse.length := by
    rw [List.length_reverse]
    omega
  obtain ⟨hall, hlength⟩ := length_of_mem_expand (by omega : key.length / 4 ≠ 0)
    (4 * (key.length / 4 + 7) - key.length / 4) (key.length / 4) 1 hwords
    (fun w hw => Bytes.length_of_mem_chunks_of_dvd hdvd (List.mem_reverse.1 hw))
  have hflat : (expand (key.length / 4) (4 * (key.length / 4 + 7) - key.length / 4)
      (key.length / 4) 1 (Bytes.chunks 4 key).reverse).reverse.flatten.length =
      16 * (key.length / 4 + 7) := by
    rw [Bytes.length_flatten_of_forall (by simpa using hall), List.length_reverse, hlength,
      List.length_reverse]
    omega
  refine ⟨fun k hk => Bytes.length_of_mem_chunks_of_dvd (hflat ▸ Nat.dvd_mul_right _ _) hk, ?_⟩
  intro hnil
  have := Bytes.length_chunks_mul (by decide : (16 : Nat) ≠ 0) (hflat ▸ Nat.dvd_mul_right _ _)
  rw [roundKeys] at hnil
  rw [hnil, hflat] at this
  simp at this

/-! ### Rounds -/

variable {k s : Bytes} {ks : List Bytes}

/-- The state in the middle of a round, before its columns are mixed. -/
theorem length_middle (hs : s.length = blockSize) :
    (shiftRows (s.map sub)).length = blockSize := by
  rw [length_shiftRows, List.length_map, hs]

theorem unround (s : Bytes) : (unshiftRows (shiftRows (s.map sub))).map unsub = s := by
  rw [unshiftRows_shiftRows, List.map_map]
  simp [Function.comp_def]

theorem encryptRounds_cons (hks : ks ≠ []) : encryptRounds (k :: ks) s =
    encryptRounds ks (Bytes.xor (mixColumns (shiftRows (s.map sub))) k) :=
  encryptRounds.eq_3 _ _ _ hks

theorem decryptRounds_cons (hks : ks ≠ []) : decryptRounds (k :: ks) s =
    decryptRounds ks (unmixColumns (Bytes.xor ((unshiftRows s).map unsub) k)) :=
  decryptRounds.eq_3 _ _ _ hks

theorem length_encryptRounds (hks : ∀ k ∈ ks, k.length = blockSize) (hs : s.length = blockSize) :
    (encryptRounds ks s).length = blockSize := by
  induction ks generalizing s with
  | nil => exact hs
  | cons k ks ih =>
    obtain ⟨hk, hks'⟩ := List.forall_mem_cons.1 hks
    cases ks with
    | nil => rw [encryptRounds, Bytes.length_xor, length_middle hs, hk, Nat.min_self]
    | cons k' ks =>
      rw [encryptRounds_cons (List.cons_ne_nil _ _)]
      refine ih hks' ?_
      rw [Bytes.length_xor, length_mixColumns (by rw [length_middle hs]; rfl), length_middle hs,
        hk, Nat.min_self]

/-- Once the last key is taken off, the rounds are undone up to the middle of the first one. -/
theorem decryptRounds_encryptRounds {last : Bytes} {tail : List Bytes} (htail : tail ≠ [])
    (hks : ∀ k ∈ ks, k.length = blockSize) (hlast : last ∈ ks.getLast?)
    (hs : s.length = blockSize) :
    decryptRounds (ks.reverse.drop 1 ++ tail) (Bytes.xor (encryptRounds ks s) last) =
      decryptRounds tail (shiftRows (s.map sub)) := by
  induction ks generalizing s tail with
  | nil => simp at hlast
  | cons k ks ih =>
    obtain ⟨hk, hks'⟩ := List.forall_mem_cons.1 hks
    cases ks with
    | nil =>
      obtain rfl : k = last := by
        simpa using hlast
      rw [encryptRounds, Bytes.xor_xor_cancel (by rw [length_middle hs, hk])]
      rfl
    | cons k' ks =>
      have hmix : (mixColumns (shiftRows (s.map sub))).length = blockSize := by
        rw [length_mixColumns (by rw [length_middle hs]; rfl), length_middle hs]
      have hkeys : (k :: k' :: ks).reverse.drop 1 ++ tail =
          (k' :: ks).reverse.drop 1 ++ k :: tail := by
        rw [List.reverse_cons, List.drop_append_of_le_length (by simp), List.append_assoc]
        rfl
      rw [encryptRounds_cons (List.cons_ne_nil _ _), hkeys,
        ih (List.cons_ne_nil _ _) hks' (by simpa using hlast)
          (by rw [Bytes.length_xor, hmix, hk, Nat.min_self]),
        decryptRounds_cons htail, unround, Bytes.xor_xor_cancel (by rw [hmix, hk]),
        unmixColumns_mixColumns (by rw [length_middle hs]; rfl)]

/-- A block stays a block. -/
theorem length_cipher_encrypt {key : Bytes} (hkey : key.length = 16 ∨ key.length = 32)
    (hs : s.length = blockSize) : ((cipher key).encrypt s).length = blockSize := by
  obtain ⟨hks, hne⟩ := length_of_mem_roundKeys hkey
  obtain ⟨k, ks, hkeys⟩ := List.exists_cons_of_ne_nil hne
  rw [hkeys, List.forall_mem_cons] at hks
  simp only [cipher, hkeys, List.drop_one, List.tail_cons, List.headD_cons]
  exact length_encryptRounds hks.2 (by rw [Bytes.length_xor, hs, hks.1, Nat.min_self])

/-- **The block cipher decrypts what it encrypts.** -/
theorem cipher_decrypt_encrypt {key : Bytes} (hkey : key.length = 16 ∨ key.length = 32)
    (hs : s.length = blockSize) : (cipher key).decrypt ((cipher key).encrypt s) = s := by
  obtain ⟨hks, hne⟩ := length_of_mem_roundKeys hkey
  obtain ⟨k, ks, hkeys⟩ := List.exists_cons_of_ne_nil hne
  rw [hkeys, List.forall_mem_cons] at hks
  obtain ⟨hk, hks⟩ := hks
  have hxor : (Bytes.xor s k).length = blockSize := by
    rw [Bytes.length_xor, hs, hk, Nat.min_self]
  simp only [cipher, hkeys, List.drop_one, List.tail_cons, List.headD_cons, List.reverse_cons]
  rcases List.eq_nil_or_concat ks with rfl | ⟨front, last, rfl⟩
  · simpa [encryptRounds, decryptRounds] using Bytes.xor_xor_cancel (hs.trans hk.symm)
  · rw [List.concat_eq_append] at hks ⊢
    have hlast : last ∈ (front ++ [last]).getLast? := by
      simp
    have hrounds := decryptRounds_encryptRounds (List.cons_ne_nil k []) hks hlast hxor
    rw [List.reverse_append, List.reverse_singleton, List.singleton_append, List.drop_one,
      List.tail_cons] at hrounds
    rw [List.reverse_append, List.reverse_singleton, List.singleton_append, List.cons_append,
      List.tail_cons, List.headD_cons, hrounds, decryptRounds, unround,
      Bytes.xor_xor_cancel (hs.trans hk.symm)]

end KeyCustody.Crypto.Aes
