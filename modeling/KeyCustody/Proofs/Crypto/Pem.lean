import KeyCustody.Crypto.Pem
import KeyCustody.Proofs.Text.Base64
/-!
# Laws of the textual encoding

The octets of a file are read back from it: the lines that begin and end it are taken off, and the
lines between them, all but the last of which are full, string together to the digits.

## Main results

* `Pem.unwrap?_of_lines`: the digits are read back from their lines.
* `Pem.decode?_encode`: the octets are read back from their file.
-/

namespace KeyCustody.Crypto.Pem

variable {cs : List Char}

/-! ### Line ends -/

/-- The characters have no line end. -/
def OnOneLine (cs : List Char) : Prop :=
  ∀ c ∈ cs, c ≠ '\n' ∧ c ≠ '\r'

/-- A line feed that ends a text is taken off alone, if no carriage return stands before it. -/
theorem dropLastLineEnd?_append (h : '\r' ∉ cs.getLast?) :
    dropLastLineEnd? (cs ++ ['\n']) = some cs := by
  have hreverse : (cs ++ ['\n']).reverse = '\n' :: cs.reverse := by
    rw [List.reverse_append]
    rfl
  rw [dropLastLineEnd?, hreverse]
  cases hlast : cs.reverse with
  | nil => rw [List.reverse_eq_nil_iff.1 hlast]; rfl
  | cons c rest =>
    have hc : c ≠ '\r' := by
      rintro rfl
      rw [← List.head?_reverse, hlast] at h
      exact h rfl
    have hback : (c :: rest).reverse = cs := by
      rw [← hlast, List.reverse_reverse]
    split
    · rename_i heq
      exact absurd (List.cons.inj (List.cons.inj heq).2).1 hc
    · rename_i heq
      rw [← (List.cons.inj heq).2]
      exact congrArg some hback
    · rename_i heq
      exact absurd (List.cons.inj heq).1 (by decide)
    · rename_i h₁ h₂ h₃
      exact absurd rfl (h₂ _)

/-- A text without line ends has none to take off. -/
theorem dropLastLineEnd?_of_onOneLine (h : OnOneLine cs) : dropLastLineEnd? cs = none := by
  have hreverse : OnOneLine cs.reverse := fun c hc => h c (List.mem_reverse.1 hc)
  rw [dropLastLineEnd?]
  cases hlast : cs.reverse with
  | nil => rfl
  | cons c rest =>
    obtain ⟨hfeed, hreturn⟩ := hreverse c (hlast ▸ List.mem_cons_self)
    split
    · rename_i heq
      exact absurd (List.cons.inj heq).1 hfeed
    · rename_i heq
      exact absurd (List.cons.inj heq).1 hfeed
    · rename_i heq
      exact absurd (List.cons.inj heq).1 hreturn
    · rfl

/-! ### Lines -/

theorem lines_nil : lines [] = [] := by
  rw [lines, dif_pos rfl]

theorem lines_of_ne_nil (h : cs ≠ []) :
    lines cs = cs.take lineWidth ++ '\n' :: lines (cs.drop lineWidth) := by
  rw [lines, dif_neg h]

/-- What holds of every character and of the line feed holds of every character of the lines. -/
theorem forall_mem_lines {P : Char → Prop} (hfeed : P '\n') (h : ∀ c ∈ cs, P c) :
    ∀ c ∈ lines cs, P c := by
  induction cs using lines.induct with
  | case1 =>
    rw [lines_nil]
    exact List.forall_mem_nil _
  | case2 cs hcs ih =>
    rw [lines_of_ne_nil hcs, List.forall_mem_append, List.forall_mem_cons]
    exact ⟨fun c hc => h c (List.mem_of_mem_take hc), hfeed,
      ih fun c hc => h c (List.mem_of_mem_drop hc)⟩

/-- **Digits are read back from their lines**, of which the last is closed by a line feed. -/
theorem unwrap?_of_lines (hne : cs ≠ []) (h : OnOneLine cs) :
    ∃ body, lines cs = body ++ ['\n'] ∧ body.getLast? = cs.getLast? ∧ unwrap? body = some cs := by
  induction cs using lines.induct with
  | case1 => exact absurd rfl hne
  | case2 cs hcs ih =>
    rcases Nat.lt_or_ge lineWidth cs.length with hlong | hshort
    · have hrest : cs.drop lineWidth ≠ [] := by
        rw [Ne, List.drop_eq_nil_iff]
        exact Nat.not_le.2 hlong
      obtain ⟨body, hlines, hlast, hbody⟩ :=
        ih hrest fun c hc => h c (List.mem_of_mem_drop hc)
      have hfirst : (cs.take lineWidth).length = lineWidth :=
        List.length_take_of_le (Nat.le_of_lt hlong)
      refine ⟨cs.take lineWidth ++ '\n' :: body, ?_, ?_, ?_⟩
      · rw [lines_of_ne_nil hcs, hlines, List.append_assoc, List.cons_append]
      · rw [List.getLast?_append, List.getLast?_cons, hlast, List.getLast?_drop,
          if_neg (Nat.not_le.2 hlong)]
        rw [List.getLast?_eq_some_getLast hcs]
        rfl
      · have hlength :
            (cs.take lineWidth ++ '\n' :: body).length = lineWidth + body.length + 1 := by
          rw [List.length_append, hfirst, List.length_cons]
          rfl
        have hdrop : (cs.take lineWidth ++ '\n' :: body).drop lineWidth = '\n' :: body :=
          List.drop_left' hfirst
        have htake : (cs.take lineWidth ++ '\n' :: body).take lineWidth = cs.take lineWidth :=
          List.take_left' hfirst
        rw [unwrap?, if_neg (by omega), if_neg (by omega)]
        simp only [hdrop, htake, Option.bind_eq_bind, Option.bind_some, hlength]
        rw [dif_pos (by omega), hbody, Option.bind_some, List.take_append_drop]
    · refine ⟨cs, ?_, rfl, ?_⟩
      · rw [lines_of_ne_nil hcs, List.take_of_length_le hshort, List.drop_of_length_le hshort,
          lines_nil]
      · rw [unwrap?]
        split_ifs with hlt heq
        · rw [dropLastLineEnd?_of_onOneLine h, Option.getD_none]
        · rfl
        · omega

/-! ### Files -/

theorem dropStart?_append (start rest : List Char) :
    dropStart? start (start ++ rest) = some rest := by
  rw [dropStart?, if_pos (List.isPrefixOf_iff_prefix.2 (List.prefix_append start rest)),
    List.drop_left]

theorem dropEnd?_append (front ending : List Char) :
    dropEnd? ending (front ++ ending) = some front := by
  rw [dropEnd?, if_pos (List.isSuffixOf_iff_suffix.2 (List.suffix_append front ending)),
    List.length_append, Nat.add_sub_cancel, List.take_left]

/-- The digits of base 64 are no line ends. -/
theorem onOneLine_encodeList (bs : Bytes) : OnOneLine (Text.Base64.encodeList bs) :=
  Text.Base64.forall_mem_encodeList
    (fun n hn => (by decide : ∀ n : Fin 64, Text.Base64.digit n ≠ '\n' ∧
      Text.Base64.digit n ≠ '\r') ⟨n, hn⟩) (by decide) bs

/-- **The octets are read back** from their file, if there are any. -/
theorem decode?_encode (label : String) {der : Bytes} (hder : der ≠ []) :
    decode? label (encode label der) = some der := by
  obtain ⟨body, hlines, hlast, hbody⟩ :=
    unwrap?_of_lines (Text.Base64.encodeList_ne_nil hder) (onOneLine_encodeList der)
  have hform : (encode label der).toList = beginMark ++ label.toList ++ closeMark ++
      '\n' :: ((body ++ ['\n']) ++ (endMark ++ label.toList ++ closeMark) ++ ['\n']) := by
    rw [encode, String.toList_ofList, hlines]
    simp only [List.append_assoc, List.cons_append]
  have hbegin : beginMark.isPrefixOf (beginMark ++ label.toList ++ closeMark ++
      '\n' :: ((body ++ ['\n']) ++ (endMark ++ label.toList ++ closeMark) ++ ['\n'])) := by
    rw [List.isPrefixOf_iff_prefix, List.append_assoc, List.append_assoc]
    exact List.prefix_append _ _
  have hclosed : '\r' ∉ ((body ++ ['\n']) ++ (endMark ++ label.toList ++ closeMark)).getLast? := by
    have hmark : closeMark.getLast? = some '-' := rfl
    rw [List.getLast?_append, List.getLast?_append, hmark, Option.some_or, Option.some_or]
    simp
  have hdigits : '\r' ∉ body.getLast? := by
    rw [hlast]
    exact fun hmem => (onOneLine_encodeList der _ (List.mem_of_getLast? hmem)).2 rfl
  simp only [decode?, hform, hbegin, if_true, dropStart?_append, dropLineEnd?,
    dropLastLineEnd?_append hclosed, dropEnd?_append, dropLastLineEnd?_append hdigits, hbody,
    Text.Base64.decodeList_encodeList, Option.bind_eq_bind, Option.bind_some, Option.getD_some]

end KeyCustody.Crypto.Pem
