import KeyCustody.Crypto.Der
import KeyCustody.Proofs.Bytes
/-!
# Laws of the distinguished encoding

An element is read back from its written form in front of any octets, if its length fits the four
octets that a reader allows it. So are natural numbers one by one, and any number of them in a row.

## Main definitions

* `Der.IsShort`: contents whose length a reader accepts.

## Main results

* `Der.read_encode`, `Der.expectWhole_encode`: an element is read back.
* `Der.readNat_encodeNat`, `Der.readNats_flatMap_encodeNat`: natural numbers are read back.
* `Der.length_encode_le`, `Der.length_flatMap_encodeNat_le`: how long written forms are.
-/

namespace KeyCustody.Crypto.Der

/-! ### Lengths -/

/-- The contents have a length that four octets can hold. -/
def IsShort (contents : Bytes) : Prop :=
  contents.length < 256 ^ 4

variable {contents : Bytes}

/-- The width of a number that four octets can hold, and that has to be written in the long form. -/
theorem natWidth_of_long {n : Nat} (hlong : ¬n < 128) (hn : n < 256 ^ 4) :
    1 ≤ Bytes.natWidth n ∧ Bytes.natWidth n ≤ 4 := by
  refine ⟨Nat.pos_of_ne_zero fun h => ?_, Bytes.natWidth_le hn⟩
  have hlt := Bytes.lt_pow_natWidth n
  rw [h, Nat.pow_zero] at hlt
  omega

/-- A length is read back in front of any octets. -/
theorem readLength_encodeLength {n : Nat} (hn : n < 256 ^ 4) (rest : Bytes) :
    readLength (encodeLength n ++ rest) = some (n, rest) := by
  rw [encodeLength]
  split_ifs with hshort
  · have hvalue : (UInt8.ofNat n).toNat = n := by
      rw [UInt8.toNat_ofNat']
      omega
    have hlow : UInt8.ofNat n < 0x80 := by
      rw [UInt8.lt_iff_toNat_lt, hvalue]
      exact hshort
    rw [List.singleton_append, readLength, if_pos hlow, hvalue]
  · obtain ⟨hpos, hle⟩ := natWidth_of_long hshort hn
    have hvalue : (UInt8.ofNat (128 + Bytes.natWidth n)).toNat = 128 + Bytes.natWidth n := by
      rw [UInt8.toNat_ofNat']
      omega
    have hhigh : ¬UInt8.ofNat (128 + Bytes.natWidth n) < 0x80 := by
      rw [UInt8.lt_iff_toNat_lt, hvalue]
      exact Nat.not_lt.2 (Nat.le_add_right 128 _)
    have hdigits : (Bytes.minimalBE n ++ rest).take (Bytes.natWidth n) = Bytes.minimalBE n :=
      List.take_left' (Bytes.length_minimalBE n)
    have hrest : (Bytes.minimalBE n ++ rest).drop (Bytes.natWidth n) = rest :=
      List.drop_left' (Bytes.length_minimalBE n)
    simp only [List.cons_append, readLength, Bytes.length_minimalBE, if_neg hhigh, hvalue,
      Nat.add_sub_cancel_left, hdigits, hrest, Bytes.toNatBE_minimalBE]
    rw [if_pos ⟨hpos, hle, trivial, Nat.not_lt.1 hshort, trivial⟩]

theorem length_encodeLength_le {n : Nat} (hn : n < 256 ^ 4) : (encodeLength n).length ≤ 5 := by
  rw [encodeLength]
  split_ifs with hshort
  · exact Nat.succ_le_succ (Nat.zero_le 4)
  · rw [List.length_cons, Bytes.length_minimalBE]
    exact Nat.succ_le_succ (natWidth_of_long hshort hn).2

/-! ### Elements -/

/-- **An element is read back** in front of any octets. -/
theorem read_encode (tag : UInt8) (h : IsShort contents) (rest : Bytes) :
    read (encode tag contents ++ rest) = some (tag, contents, rest) := by
  have hform : encode tag contents ++ rest =
      tag :: (encodeLength contents.length ++ (contents ++ rest)) := by
    simp only [encode, List.cons_append, List.append_assoc]
  have hle : contents.length ≤ (contents ++ rest).length := by
    rw [List.length_append]
    exact Nat.le_add_right _ _
  simp only [hform, read, readLength_encodeLength h, Option.bind_eq_bind, Option.bind_some,
    if_pos hle, List.take_left, List.drop_left]

theorem expect_encode (tag : UInt8) (h : IsShort contents) (rest : Bytes) :
    expect tag (encode tag contents ++ rest) = some (contents, rest) := by
  simp only [expect, read_encode tag h, Option.bind_eq_bind, Option.bind_some, if_true]

/-- An element that takes up the whole byte string is read back. -/
theorem expectWhole_encode (tag : UInt8) (h : IsShort contents) :
    expectWhole tag (encode tag contents) = some contents := by
  have hexpect := expect_encode tag h []
  rw [List.append_nil] at hexpect
  simp only [expectWhole, hexpect, Option.bind_eq_bind, Option.bind_some, List.isEmpty_nil, if_true]

/-- The tag and the length of an element take up at most six octets. -/
theorem length_encode_le (tag : UInt8) (h : IsShort contents) :
    (encode tag contents).length ≤ contents.length + 6 := by
  have := length_encodeLength_le h
  simp only [encode, List.cons_append, List.length_cons, List.length_append]
  omega

/-! ### Natural numbers -/

/-- The contents of a natural number: they denote it, and take up at most one octet more than its
shortest form. -/
theorem exists_encodeNat (n : Nat) : ∃ contents, encodeNat n = encode integerTag contents ∧
    natOfContents contents = some n ∧ contents.length ≤ Bytes.natWidth n + 1 := by
  have hvalue := Bytes.toNatBE_minimalBE n
  have hlength := Bytes.length_minimalBE n
  simp only [encodeNat]
  cases hdigits : Bytes.minimalBE n with
  | nil =>
    rw [hdigits] at hvalue
    subst hvalue
    exact ⟨[0], rfl, rfl, Nat.le_add_left 1 _⟩
  | cons b bs =>
    have hb : b ≠ 0 := Bytes.ne_zero_of_minimalBE hdigits
    rw [hdigits] at hvalue hlength
    simp only
    split_ifs with hlow
    · refine ⟨b :: bs, rfl, ?_, hlength.le.trans (Nat.le_succ _)⟩
      rw [natOfContents.eq_4 _ _ (fun h => absurd h hb) (fun _ _ h => absurd h hb), if_pos hlow,
        hvalue]
    · refine ⟨0 :: b :: bs, rfl, ?_, Nat.succ_le_succ hlength.le⟩
      rw [natOfContents, if_neg hlow, hvalue]

/-- The number has so few octets that their count fits a length, with one octet to spare. -/
def IsShortNat (n : Nat) : Prop :=
  Bytes.natWidth n + 1 < 256 ^ 4

/-- **A natural number is read back** in front of any octets. -/
theorem readNat_encodeNat {n : Nat} (h : IsShortNat n) (rest : Bytes) :
    readNat (encodeNat n ++ rest) = some (n, rest) := by
  obtain ⟨contents, hform, hread, hlength⟩ := exists_encodeNat n
  have hshort : IsShort contents := lt_of_le_of_lt hlength h
  simp only [readNat, hform, expect_encode integerTag hshort, hread, Option.bind_eq_bind,
    Option.bind_some]

/-- **Natural numbers in a row** are read back in front of any octets. -/
theorem readNats_flatMap_encodeNat {ns : List Nat} (h : ∀ n ∈ ns, IsShortNat n) (rest : Bytes) :
    readNats ns.length (ns.flatMap encodeNat ++ rest) = some (ns, rest) := by
  induction ns with
  | nil => rfl
  | cons n ns ih =>
    obtain ⟨hn, hns⟩ := List.forall_mem_cons.1 h
    simp only [List.length_cons, List.flatMap_cons, List.append_assoc, readNats,
      readNat_encodeNat hn, ih hns, Option.bind_eq_bind, Option.bind_some]

theorem length_encodeNat_le {n : Nat} (h : IsShortNat n) :
    (encodeNat n).length ≤ Bytes.natWidth n + 7 := by
  obtain ⟨contents, hform, -, hlength⟩ := exists_encodeNat n
  have hshort : IsShort contents := lt_of_le_of_lt hlength h
  have := length_encode_le integerTag hshort
  rw [hform]
  omega

/-- Numbers of at most `width` octets take up at most seven octets more than that each. -/
theorem length_flatMap_encodeNat_le {ns : List Nat} {width : Nat} (hwidth : width + 1 < 256 ^ 4)
    (h : ∀ n ∈ ns, Bytes.natWidth n ≤ width) :
    (ns.flatMap encodeNat).length ≤ ns.length * (width + 7) := by
  induction ns with
  | nil => exact Nat.zero_le _
  | cons n ns ih =>
    obtain ⟨hn, hns⟩ := List.forall_mem_cons.1 h
    have hhead := length_encodeNat_le (n := n) (lt_of_le_of_lt (Nat.succ_le_succ hn) hwidth)
    have htail := ih hns
    rw [List.flatMap_cons, List.length_append, List.length_cons, Nat.succ_mul]
    omega

end KeyCustody.Crypto.Der
