import KeyCustody.Proofs.Text.Base64
import KeyCustody.Proofs.Text.Hex
import KeyCustody.Text.Blank
import Mathlib.Data.List.TakeWhile
/-!
# Laws of trimming

Blanks around a text without blanks are trimmed, and nothing else; the written forms of byte strings
have no blanks. Marks of hexadecimal are dropped in front of digits and never among them.

## Main results

* `trimList_append`: blanks around a text without blanks are trimmed.
* `forall_isBlank_of_decodeList`, `Base64.forall_isBlank`: written forms have no blanks.
* `dropHexMarks_of_decodeList`: a text of hexadecimal digits has no mark in front.
-/

namespace KeyCustody.Text

variable {front cs back : List Char} {bs : Bytes} {c : Char}

/-! ### Blanks -/

/-- A text that starts with no blank is not trimmed in front. -/
theorem dropWhile_isBlank_append (hne : cs ≠ []) (hcs : ∀ c ∈ cs, isBlank c = false) :
    (cs ++ back).dropWhile isBlank = cs ++ back := by
  cases cs with
  | nil => exact absurd rfl hne
  | cons c cs =>
    rw [List.cons_append]
    exact List.dropWhile_cons_of_neg (by simp [hcs c])

/-- **Blanks around a text without blanks** are trimmed. -/
theorem trimList_append (hfront : ∀ c ∈ front, isBlank c) (hback : ∀ c ∈ back, isBlank c)
    (hcs : ∀ c ∈ cs, isBlank c = false) : trimList (front ++ cs ++ back) = cs := by
  rw [trimList, List.append_assoc, List.dropWhile_append_of_pos hfront]
  rcases eq_or_ne cs [] with rfl | hne
  · rw [List.nil_append, List.dropWhile_eq_nil_iff.2 hback]
    rfl
  · have hfirst : (cs.reverse ++ []).dropWhile isBlank = cs.reverse ++ [] :=
      dropWhile_isBlank_append (by simpa using hne) (by simpa using hcs)
    rw [List.append_nil] at hfirst
    rw [dropWhile_isBlank_append hne hcs, List.reverse_append,
      List.dropWhile_append_of_pos (by simpa using hback), hfirst, List.reverse_reverse]

/-- A digit or a letter is no blank. -/
theorem isBlank_of_le (hlow : 48 ≤ c.toNat) (hhigh : c.toNat ≤ 122) : isBlank c = false := by
  rw [Bool.eq_false_iff]
  simp only [isBlank, ne_eq, Bool.or_eq_true, Bool.and_eq_true, decide_eq_true_eq, beq_iff_eq]
  omega

/-- A text that is read as hexadecimal has no blanks. -/
theorem forall_isBlank_of_decodeList (h : Hex.decodeList cs = some bs) :
    ∀ c ∈ cs, isBlank c = false := by
  intro c hc
  have hdigit := Hex.isSome_digit?_of_decodeList h c hc
  have hrange : 48 ≤ c.toNat ∧ c.toNat ≤ 102 := by
    rw [Hex.digit?_eq] at hdigit
    grind
  exact isBlank_of_le hrange.1 (by omega)

/-- A text in base 64 has no blanks. -/
theorem Base64.forall_isBlank (bs : Bytes) : ∀ c ∈ encodeList bs, isBlank c = false :=
  forall_mem_encodeList
    (fun n hn => (by decide : ∀ n : Fin 64, isBlank (digit n) = false) ⟨n, hn⟩) (by decide) bs

/-! ### Marks of hexadecimal -/

@[simp] theorem dropHexMarks_marked (cs : List Char) :
    dropHexMarks ('0' :: 'x' :: cs) = dropHexMarks cs := rfl

/-- **A text of hexadecimal digits** has no mark in front. -/
theorem dropHexMarks_of_decodeList (h : Hex.decodeList cs = some bs) : dropHexMarks cs = cs := by
  have hdigits := Hex.isSome_digit?_of_decodeList h
  match cs with
  | [] => rfl
  | [_] => rfl
  | c :: d :: cs =>
    have hd : d ≠ 'x' := by
      rintro rfl
      exact absurd (hdigits 'x' (by simp)) (by decide)
    rw [dropHexMarks, dropPairs, if_neg fun hmark => hd hmark.2]

/-- What is no part of a mark is not dropped. -/
theorem mem_dropHexMarks (hzero : c ≠ '0') (hx : c ≠ 'x') :
    ∀ {cs : List Char}, c ∈ cs → c ∈ dropHexMarks cs
  | [], h => h
  | [_], h => h
  | d :: e :: cs, h => by
    rw [dropHexMarks, dropPairs]
    split_ifs with hmark
    · obtain ⟨rfl, rfl⟩ := hmark
      have hmem : c ∈ cs := by simpa [hzero, hx] using h
      exact mem_dropHexMarks hzero hx hmem
    · exact h

end KeyCustody.Text
