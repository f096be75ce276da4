import KeyCustody.Text.Hex
/-!
# Laws of hexadecimal

Every digit is read as its value, so the octets are read back two digits at a time, and different
octets have different written forms. The case of a letter does not matter.

## Main results

* `decode?_encode`: the octets are read back from their written form.
* `encode_injective`: a written form is that of one byte string.
* `decodeList_of_map_toLower`: the octets are read back whichever letters are in upper case.
-/

namespace KeyCustody.Text.Hex

theorem digit?_digit {n : Nat} (hn : n < 16) : digit? (digit n) = some n :=
  (by decide : ∀ n : Fin 16, digit? (digit n) = some n.1) ⟨n, hn⟩

theorem decodeList_encodeList (bs : Bytes) : decodeList (encodeList bs) = some bs := by
  induction bs with
  | nil => rfl
  | cons b bs ih =>
    have hb : b.toNat < 256 := b.toNat_lt
    have hhigh : b.toNat / 16 < 16 := by omega
    have hlow : b.toNat % 16 < 16 := Nat.mod_lt _ (by decide)
    simp only [encodeList, decodeList, digit?_digit hhigh, digit?_digit hlow, ih]
    rw [Nat.div_add_mod, UInt8.ofNat_toNat]

/-- **The octets are read back** from their written form. -/
@[simp] theorem decode?_encode (bs : Bytes) : decode? (encode bs) = some bs := by
  rw [decode?, encode, String.toList_ofList, decodeList_encodeList]

/-- Different octets have different written forms. -/
theorem encode_injective : Function.Injective encode := by
  intro as bs h
  simpa using congrArg decode? h

theorem encode_ne_empty {bs : Bytes} (h : bs ≠ []) : encode bs ≠ "" := by
  intro hempty
  have hback := congrArg decode? hempty
  rw [decode?_encode] at hback
  exact h (Option.some.inj hback)

/-! ### Upper and lower case -/

/-- The value of a digit by its number. -/
theorem digit?_eq (c : Char) : digit? c =
    if 48 ≤ c.toNat ∧ c.toNat ≤ 57 then some (c.toNat - 48)
    else if 97 ≤ c.toNat ∧ c.toNat ≤ 102 then some (c.toNat - 87)
    else if 65 ≤ c.toNat ∧ c.toNat ≤ 70 then some (c.toNat - 55)
    else none := rfl

theorem toNat_toLower (c : Char) :
    c.toLower.toNat = if 65 ≤ c.toNat ∧ c.toNat ≤ 90 then c.toNat + 32 else c.toNat := by
  have hrange : ('A'.val ≤ c.val ∧ c.val ≤ 'Z'.val) ↔ 65 ≤ c.toNat ∧ c.toNat ≤ 90 := by
    simp only [UInt32.le_iff_toNat_le]
    rfl
  by_cases h : c.val ≥ 'A'.val ∧ c.val ≤ 'Z'.val
  · have hbounds := hrange.1 h
    have hlower : c.toLower.toNat = (c.val + ('a'.val - 'A'.val)).toNat :=
      congrArg Char.toNat (dif_pos h)
    rw [if_pos hbounds, hlower, UInt32.toNat_add]
    show (c.toNat + 32) % 2 ^ 32 = _
    omega
  · have hlower : c.toLower.toNat = c.toNat := congrArg Char.toNat (dif_neg h)
    rw [if_neg (h ∘ hrange.2), hlower]

theorem digit?_toLower (c : Char) : digit? c.toLower = digit? c := by
  rw [digit?_eq, digit?_eq, toNat_toLower]
  grind

theorem decodeList_map_toLower : ∀ cs : List Char, decodeList (cs.map Char.toLower) = decodeList cs
  | [] => rfl
  | [_] => rfl
  | h :: l :: cs => by
    simp only [List.map_cons, decodeList, digit?_toLower, decodeList_map_toLower cs]

/-- Whatever does not change the digits does not change a written form. -/
theorem map_encodeList {f : Char → Char} (hf : ∀ n : Fin 16, f (digit n) = digit n) (bs : Bytes) :
    (encodeList bs).map f = encodeList bs := by
  induction bs with
  | nil => rfl
  | cons b bs ih =>
    have hb : b.toNat < 256 := b.toNat_lt
    have hhigh := hf ⟨b.toNat / 16, by omega⟩
    have hlow := hf ⟨b.toNat % 16, by omega⟩
    simp only at hhigh hlow
    rw [encodeList, List.map_cons, List.map_cons, hhigh, hlow, ih]

/-- Written digits are in lower case. -/
theorem map_toLower_encodeList (bs : Bytes) : (encodeList bs).map Char.toLower = encodeList bs :=
  map_encodeList (by decide) bs

theorem map_toLower_map_toUpper_encodeList (bs : Bytes) :
    ((encodeList bs).map Char.toUpper).map Char.toLower = encodeList bs := by
  rw [List.map_map]
  exact map_encodeList (by decide) bs

/-- **The octets are read back** whichever letters of their written form are in upper case. -/
theorem decodeList_of_map_toLower {cs : List Char} {bs : Bytes}
    (h : cs.map Char.toLower = encodeList bs) : decodeList cs = some bs := by
  rw [← decodeList_map_toLower, h, decodeList_encodeList]

/-- A text that is read is one of digits. -/
theorem isSome_digit?_of_decodeList : ∀ {cs : List Char} {bs : Bytes}, decodeList cs = some bs →
    ∀ c ∈ cs, (digit? c).isSome
  | [], _, _ => List.forall_mem_nil _
  | [_], _, h => nomatch h
  | c :: d :: cs, bs, h => by
    rw [decodeList] at h
    split at h
    · rename_i hc hd hcs
      simp only [List.forall_mem_cons]
      exact ⟨Option.isSome_of_eq_some hc, Option.isSome_of_eq_some hd,
        isSome_digit?_of_decodeList hcs⟩
    · cases h

end KeyCustody.Text.Hex
