import KeyCustody.Proofs.Cbor.Length
/-!
# The shortest forms of a document

A reader accepts many forms of a value: heads that are longer than need be, strings in segments,
integers in byte strings. The form that is written is shorter than any other, up to one exception: a
large integer may take fewer octets in a byte string than in a head. Such a form begins with the
head of a tag. So a document with one integer that keeps its length and becomes another form of the
same value must show the head of a tag where the integer was, and that takes more than the change of
one bit.

Documents are of at most `2 ^ 16` octets here: in longer ones a string may be shorter in segments.

## Main definitions

* `Value.Flat`: texts, byte strings, natural numbers and truth values.
* `IsForm`: what octets may be read as such a value.
* `MakesNoTag`: octets that are altered without making a tag of a number.

## Main results

* `isForm_of_readValue`, `forms_of_readItems`: forms that are read.
* `Value.Rigid.atLeast`: the form that is written is the shortest.
* `length_encode_le_of_decode_array`: a document with one integer is short in its written form.
* `eq_of_decode_array`: a document that is altered within its length.
-/

namespace KeyCustody.Cbor

open Bytes (AtLeast)

/-! ### Heads -/

/-- The three bits of the kind of item. -/
def Head.major : Head → Nat
  | .unsigned _ => unsignedMajor
  | .negative _ => negativeMajor
  | .bytes _ => bytesMajor
  | .text _ => textMajor
  | .array _ => arrayMajor
  | .map _ => mapMajor
  | .tag _ => tagMajor
  | .simple _ => otherMajor
  | .float _ => otherMajor
  | .stop => otherMajor

/-- The number in the head, absent in an indefinite one and in a floating-point number. -/
def Head.number? : Head → Option Nat
  | .unsigned n => some n
  | .negative n => some n
  | .bytes length => length
  | .text length => length
  | .array length => length
  | .map length => length
  | .tag n => some n
  | .simple n => some n
  | .float _ => none
  | .stop => none

theorem major_of_ofParts {major info : Nat} {octets : Bytes} {head : Head}
    (h : ofParts major info octets = .ok head) :
    major = head.major ∧ ∀ n, head.number? = some n → headNumber info octets = some n := by
  unfold ofParts at h
  simp only at h
  split at h
  case h_9 n hnumber =>
    split_ifs at h <;> obtain rfl := Except.ok.inj h
    · exact ⟨rfl, fun m hm => hm ▸ hnumber⟩
    · exact ⟨rfl, fun m hm => by cases hm⟩
  case h_8 => exact ⟨by cases h; rfl, fun m hm => by cases h; cases hm⟩
  case h_10 => cases h
  all_goals
    obtain rfl := Except.ok.inj h
    exact ⟨rfl, fun m hm => by first | exact hm | simp_all [Head.number?]⟩

/-- The five bits in the head that is written for a number. -/
def headInfo (n : Nat) : Nat :=
  if n < 24 then n
  else if n < Nat.pow 2 8 then 24
  else if n < Nat.pow 2 16 then 25
  else if n < Nat.pow 2 32 then 26
  else 27

theorem numberWidth_of_lt {info : Nat} (h : info < 24) : numberWidth info = 0 := by
  unfold numberWidth
  split_ifs <;> omega

theorem encodeHead_eq (major n : Nat) : encodeHead major n =
    leadOctet major (headInfo n) :: Bytes.ofNatBE (numberWidth (headInfo n)) n := by
  unfold encodeHead headInfo
  split_ifs with h
  · rw [numberWidth_of_lt h]
    rfl
  all_goals rfl

@[simp] theorem length_encodeHead (major n : Nat) :
    (encodeHead major n).length = numberWidth (headInfo n) + 1 := by
  rw [encodeHead_eq, List.length_cons, Bytes.length_ofNatBE]

theorem numberWidth_headInfo (n : Nat) : numberWidth (headInfo n) =
    if n < 24 then 0 else if n < 2 ^ 8 then 1 else if n < 2 ^ 16 then 2
    else if n < 2 ^ 32 then 4 else 8 := by
  simp only [headInfo, Nat.pow_eq]
  split_ifs with h
  · exact numberWidth_of_lt h
  all_goals rfl

/-- A number that fits the octets after five bits is written with the same five bits or with fewer
octets. -/
theorem headInfo_eq_or_lt {info n : Nat} (hlow : 24 ≤ info) (hhigh : info < 28)
    (hn : n < 256 ^ numberWidth info) :
    headInfo n = info ∨ numberWidth (headInfo n) < numberWidth info := by
  unfold headInfo
  obtain rfl | rfl | rfl | rfl : info = 24 ∨ info = 25 ∨ info = 26 ∨ info = 27 := by omega
  all_goals
    simp only [numberWidth, if_true, Nat.reduceEqDiff, if_false, Nat.reducePow] at hn
    split_ifs with h
    · exact .inr (by rw [numberWidth_of_lt h]; decide)
    all_goals first | exact .inl rfl | exact .inr (by decide)

/-- A head that is read is the one that is written, or longer. -/
theorem atLeast_encodeHead {info n : Nat} {octets : Bytes} (major : Nat) (hinfo : info < 28)
    (hlength : octets.length = numberWidth info) (hn : headNumber info octets = some n) :
    AtLeast (encodeHead major n) (leadOctet major info :: octets) := by
  rw [encodeHead_eq]
  rcases Nat.lt_or_ge info 24 with hsmall | hlarge
  · rw [headNumber, if_pos hsmall] at hn
    obtain rfl := Option.some.inj hn
    rw [numberWidth_of_lt hsmall, List.length_eq_zero_iff] at hlength
    have hself : headInfo info = info := if_pos hsmall
    rw [hself, numberWidth_of_lt hsmall, hlength]
    exact .refl _
  · rw [headNumber, if_neg (by omega), if_neg (by omega)] at hn
    obtain rfl := Option.some.inj hn
    have hlt := Bytes.toNatBE_lt octets
    rw [hlength] at hlt
    rcases headInfo_eq_or_lt hlarge hinfo hlt with heq | hlt
    · left
      rw [heq, ← hlength, Bytes.ofNatBE_toNatBE]
    · exact .inr (by simpa [hlength] using hlt)

/-- **A head takes at least the octets that are written for its number.** -/
theorem head_of_readHead {bs rest : Bytes} {head : Head} (h : readHead bs = .ok (head, rest)) :
    ∃ b octets, bs = b :: octets ++ rest ∧ b.toNat / 32 = head.major ∧
      ∀ n, head.number? = some n → AtLeast (encodeHead head.major n) (b :: octets) := by
  cases bs with
  | nil => cases h
  | cons b bs =>
    rw [readHead] at h
    split_ifs at h with hmalformed
    obtain ⟨⟨octets, after⟩, hoctets, h⟩ := bind_eq_ok.1 h
    obtain ⟨head', hparts, h⟩ := bind_eq_ok.1 h
    obtain ⟨rfl, rfl⟩ := Prod.mk.inj (Except.ok.inj h)
    obtain ⟨hmajor, hnumber⟩ := major_of_ofParts hparts
    obtain ⟨hlength, rfl⟩ := append_of_readExactly hoctets
    refine ⟨b, octets, rfl, hmajor, fun n hn => ?_⟩
    have hn' := hnumber n hn
    have hinfo : b.toNat % 32 < 28 := by
      have hbits : b.toNat % 32 < 32 := Nat.mod_lt _ (by decide)
      by_contra hlarge
      have hstop : b.toNat % 32 = 31 := by omega
      rw [headNumber, if_neg (by omega), if_pos hstop] at hn'
      cases hn'
    have hb : b = leadOctet head'.major (b.toNat % 32) := by
      rw [leadOctet, ← hmajor, Nat.div_add_mod, UInt8.ofNat_toNat]
    have := atLeast_encodeHead head'.major hinfo hlength hn'
    rwa [← hb] at this

/-! ### Strings -/

/-- The three bits of the heads of strings. -/
def StringKind.major : StringKind → Nat
  | .bytes => bytesMajor
  | .text => textMajor

theorem StringKind.head_of_length? {kind : StringKind} {head : Head} {length : Option Nat}
    (h : kind.length? head = some length) : head.major = kind.major ∧ head.number? = length := by
  unfold StringKind.length? at h
  split at h <;> cases h <;> exact ⟨rfl, rfl⟩

/-- Up to `2 ^ 16` octets, a string in two parts takes no fewer octets for their lengths than the
whole string would. -/
theorem numberWidth_headInfo_add {m n : Nat} (h : m + n < 2 ^ 16) :
    numberWidth (headInfo (m + n)) ≤
      numberWidth (headInfo m) + numberWidth (headInfo n) + 1 := by
  simp only [numberWidth_headInfo]
  split_ifs <;> omega

/-- **Segments take at least as many octets as a head and the string**, the stop included. -/
theorem form_of_readSegments {kind : StringKind} {fuel nesting : Nat}
    {read bs octets rest : Bytes} (hbs : bs.length < 2 ^ 16) (hread : kind.Holds read)
    (h : readSegments kind fuel nesting read bs = .ok (octets, rest)) :
    ∃ more form, octets = read ++ more ∧ kind.Holds octets ∧ bs = form ++ rest ∧
      (encodeHead kind.major more.length).length + more.length ≤ form.length := by
  induction fuel generalizing nesting read bs with
  | zero => cases h
  | succ fuel ih =>
    rw [readSegments] at h
    obtain ⟨⟨head, after⟩, hhead, hnext⟩ := bind_eq_ok.1 h
    obtain ⟨b, number, rfl, -, hnumber⟩ := head_of_readHead hhead
    rw [List.length_append] at hbs
    simp only at hnext
    split at hnext
    · obtain ⟨rfl, rfl⟩ := Prod.mk.inj (Except.ok.inj hnext)
      exact ⟨[], b :: number, (List.append_nil _).symm, hread, rfl, by simp [headInfo, numberWidth]⟩
    · obtain ⟨more, form, hmore, hholds, rfl, hcost⟩ := ih (by omega) hread hnext
      exact ⟨more, b :: number ++ form, hmore, hholds, by simp,
        by rw [List.length_append]; omega⟩
    · obtain ⟨more, form, hmore, hholds, rfl, hcost⟩ := ih (by omega) hread hnext
      exact ⟨more, b :: number ++ form, hmore, hholds, by simp,
        by rw [List.length_append]; omega⟩
    · rename_i n _ hkind
      obtain ⟨hmajor, hlength⟩ := StringKind.head_of_length? hkind
      obtain ⟨⟨segment, after'⟩, hsegment, hlast⟩ := bind_eq_ok.1 hnext
      obtain ⟨rfl, rfl, hholds⟩ := append_of_readSegment hsegment
      have hboth : kind.Holds (read ++ segment) := fun hk =>
        Bytes.isSome_text?_append (hread hk) (hholds hk)
      rw [List.length_append] at hbs
      obtain ⟨more, form, rfl, hholds', rfl, hcost⟩ := ih (by simp only; omega) hboth hlast
      have hhd := (hnumber _ hlength).length_le
      refine ⟨segment ++ more, b :: number ++ (segment ++ form), by simp, hholds', by simp, ?_⟩
      simp only [length_encodeHead, List.length_append] at hcost hhd hbs ⊢
      have hadd := numberWidth_headInfo_add
        (by omega : segment.length + more.length < 2 ^ 16)
      omega
    · cases hnext

/-- **A string takes at least the octets in which it is written.** -/
theorem form_of_readString {kind : StringKind} {fuel : Nat} {length : Option Nat} {b : UInt8}
    {number bs octets rest : Bytes} (h : readString kind fuel length bs = .ok (octets, rest))
    (hbs : bs.length < 2 ^ 16)
    (hlength : ∀ n, length = some n → AtLeast (encodeHead kind.major n) (b :: number)) :
    kind.Holds octets ∧ ∃ form, b :: number ++ bs = form ++ rest ∧
      AtLeast (encodeHead kind.major octets.length ++ octets) form := by
  cases length with
  | some n =>
    obtain ⟨rfl, rfl, hholds⟩ := append_of_readSegment h
    exact ⟨hholds, b :: number ++ octets, by simp, (hlength _ rfl).append (.refl _)⟩
  | none =>
    obtain ⟨more, form, hmore, hholds, rfl, hcost⟩ :=
      form_of_readSegments hbs (fun _ => by decide) h
    obtain rfl : octets = more := hmore
    refine ⟨hholds, b :: number ++ form, by simp, .inr ?_⟩
    simp only [List.length_append, List.length_cons]
    omega

/-! ### Values -/

/-- Texts, byte strings, natural numbers and truth values. -/
inductive Value.Flat : Value → Prop
  | bytes (bs : Bytes) : Flat (.bytes bs)
  | text (s : String) : Flat (.text s)
  | int (n : Nat) : Flat (.int n)
  | bool (b : Bool) : Flat (.bool b)

/-- What octets may be read as a value: the form that is written, a longer one, or, for an integer,
a byte string with a tag in front. -/
inductive IsForm : Value → Bytes → Prop
  | atLeast {v : Value} {form : Bytes} (h : AtLeast v.encode form) : IsForm v form
  | tagged {n width : Nat} {b : UInt8} {tail : Bytes} (hb : b.toNat / 32 = tagMajor)
      (hn : n < 256 ^ width) (hwidth : width + 1 ≤ tail.length) : IsForm (.int n) (b :: tail)

theorem encode_natCast (n : Nat) : (Value.int n).encode = encodeHead unsignedMajor n := rfl

/-- An integer in a byte string fits its octets. -/
theorem lt_of_ofTaggedBytes {tag : Nat} {octets : Bytes} {v : Value} (hv : v.Flat)
    (h : ofTaggedBytes tag octets = .ok v) : ∃ n : Nat, v = .int n ∧ n < 256 ^ octets.length := by
  unfold ofTaggedBytes at h
  simp only at h
  split_ifs at h
  · obtain rfl := Except.ok.inj h
    cases hv
  · obtain rfl := Except.ok.inj h
    exact ⟨_, rfl, Bytes.toNatBE_lt octets⟩
  · obtain rfl := Except.ok.inj h
    generalize hm : (-1 - (octets.toNatBE : Int)) = m at hv
    cases hv
    omega

theorem atLeast_of_ofSimple {n : Nat} {form : Bytes} {v : Value} (hv : v.Flat)
    (h : ofSimple n = .ok v) (hform : AtLeast (encodeHead otherMajor n) form) :
    AtLeast v.encode form := by
  unfold ofSimple at h
  split at h <;> cases h <;> first | exact hform | cases hv

/-- **What is read as a value is a form of it.** -/
theorem isForm_of_readValue {fuel depth : Nat} {bs rest : Bytes} {v : Value}
    (hbs : bs.length ≤ 2 ^ 16) (hv : v.Flat) (h : readValue fuel depth bs = .ok (v, rest)) :
    ∃ form, bs = form ++ rest ∧ IsForm v form := by
  obtain _ | fuel := fuel
  · simp [readValue] at h
  obtain ⟨head, after, hhead, hread⟩ := readAs_of_readValue h
  have hlength := length_of_readHead hhead
  have hafter : after.length < 2 ^ 16 := by omega
  obtain ⟨b, number, rfl, hb, hnumber⟩ := head_of_readHead hhead
  cases hread with
  | unsigned => exact ⟨_, rfl, .atLeast (hnumber _ rfl)⟩
  | @negative n =>
    generalize hm : (-1 - (n : Int)) = m at hv
    cases hv
    omega
  | bytes hstring =>
    obtain ⟨-, form, hform, hleast⟩ := form_of_readString hstring hafter hnumber
    exact ⟨form, hform, .atLeast hleast⟩
  | text hstring =>
    obtain ⟨hholds, form, hform, hleast⟩ := form_of_readString hstring hafter hnumber
    refine ⟨form, hform, .atLeast ?_⟩
    rw [Value.encode, encodeText, ofText_textOf hholds]
    exact hleast
  | @integer _ _ _ _ _ octets _ _ hinner htagged hoctets hvalue =>
    obtain ⟨c, number', rfl, -, -⟩ := head_of_readHead hinner
    obtain ⟨rfl, rfl⟩ := append_of_readExactly hoctets
    obtain ⟨m, rfl, hm⟩ := lt_of_ofTaggedBytes hv hvalue
    exact ⟨b :: (number ++ (c :: number' ++ octets)), by simp, .tagged hb hm (by simp; omega)⟩
  | simple hvalue =>
    exact ⟨_, rfl, .atLeast (atLeast_of_ofSimple hv hvalue (hnumber _ rfl))⟩
  | array | map | tag | float => cases hv

/-! ### Items -/

/-- Forms of values one after another. -/
inductive AreForms : List Value → Bytes → Prop
  | nil : AreForms [] []
  | cons {v : Value} {vs : List Value} {form forms : Bytes} (hv : IsForm v form)
      (hvs : AreForms vs forms) : AreForms (v :: vs) (form ++ forms)

theorem AreForms.of_append {vs ws : List Value} {forms : Bytes} (h : AreForms (vs ++ ws) forms) :
    ∃ left right, forms = left ++ right ∧ AreForms vs left ∧ AreForms ws right := by
  induction vs generalizing forms with
  | nil => exact ⟨[], forms, rfl, .nil, h⟩
  | cons v vs ih =>
    cases h with
    | cons hv hvs =>
      obtain ⟨left, right, rfl, hleft, hright⟩ := ih hvs
      exact ⟨_, right, (List.append_assoc ..).symm, .cons hv hleft, hright⟩

/-- **Items that are read are forms of them one after another**, before something else if they have
no number in front. -/
theorem forms_of_readItems {fuel depth : Nat} {length : Option Nat} {read items : List Value}
    {bs rest : Bytes} (hbs : bs.length ≤ 2 ^ 16) (hflat : ∀ v ∈ items, v.Flat)
    (h : readItems fuel depth length read bs = .ok (items, rest)) :
    ∃ more forms tail, items = read.reverse ++ more ∧ bs = forms ++ tail ∧
      AreForms more forms ∧ (length = some more.length ∨ length = none ∧ tail ≠ []) := by
  induction fuel generalizing length read bs with
  | zero => simp [readItems] at h
  | succ fuel ih =>
    rw [readItems] at h
    split at h
    · cases h
    · rename_i hmore
      obtain ⟨rfl, rfl⟩ := Prod.mk.inj (Except.ok.inj h)
      exact ⟨[], [], bs, by simp, rfl, .nil, readMore_eq_none hmore⟩
    · rename_i left after hmore
      obtain ⟨rfl, rfl⟩ := readMore_eq_some hmore
      split at h
      · cases h
      · rename_i v after' hv
        have hlength := ((noLonger _).value hv).1
        obtain ⟨more, forms, tail, rfl, rfl, hforms, hleft⟩ := ih (by omega) h
        obtain ⟨form, rfl, hform⟩ := isForm_of_readValue hbs (hflat v (by simp)) hv
        refine ⟨v :: more, form ++ forms, tail, by simp, by simp, .cons hform hforms, ?_⟩
        rcases hleft with rfl | ⟨rfl, htail⟩
        · exact .inl rfl
        · exact .inr ⟨rfl, htail⟩

/-- **What is read as an array** is a head and forms of its items. The head is at least the one that
is written, or something comes after the items. -/
theorem forms_of_decode_array {bs : Bytes} {items : List Value} (hbs : bs.length ≤ 2 ^ 16)
    (hflat : ∀ v ∈ items, v.Flat) (h : Value.decode bs = .ok (.array items)) :
    ∃ b number forms tail, bs = b :: number ++ (forms ++ tail) ∧ AreForms items forms ∧
      (AtLeast (encodeHead arrayMajor items.length) (b :: number) ∨ tail ≠ []) := by
  obtain ⟨rest, hread⟩ := exists_readValue_of_decode h
  obtain ⟨head, after, hhead, hread⟩ := readAs_of_readValue hread
  have hafter := length_of_readHead hhead
  obtain ⟨b, number, rfl, -, hnumber⟩ := head_of_readHead hhead
  generalize hv : Value.array items = v at hread
  cases hread with
  | array hdepth hitems =>
    obtain rfl := Value.array.inj hv
    obtain ⟨more, forms, tail, rfl, rfl, hforms, hlength⟩ :=
      forms_of_readItems (by omega) hflat hitems
    refine ⟨b, number, forms, tail, rfl, hforms, ?_⟩
    rcases hlength with hlength | ⟨-, htail⟩
    · exact .inl (hnumber _ hlength)
    · exact .inr htail
  | integer hinner htagged hoctets hvalue =>
    unfold ofTaggedBytes at hvalue
    simp only at hvalue
    split_ifs at hvalue <;> cases hvalue <;> cases hv
  | simple hvalue =>
    unfold ofSimple at hvalue
    split at hvalue <;> cases hvalue <;> cases hv
  | _ => cases hv

/-! ### Rigid values -/

/-- Flat values of which no form is as short as the one that is written. -/
inductive Value.Rigid : Value → Prop
  | bytes (bs : Bytes) : Rigid (.bytes bs)
  | text (s : String) : Rigid (.text s)
  | int {n : Nat} (h : n < 2 ^ 16) : Rigid (.int n)
  | bool (b : Bool) : Rigid (.bool b)

namespace Value.Rigid

variable {v : Value}

theorem flat (h : v.Rigid) : v.Flat := by
  cases h with
  | bytes bs => exact .bytes bs
  | text s => exact .text s
  | int h => exact .int _
  | bool b => exact .bool b

/-- **The form that is written is the shortest.** -/
theorem atLeast (h : v.Rigid) {form : Bytes} (hform : IsForm v form) :
    AtLeast v.encode form := by
  cases hform with
  | atLeast hleast => exact hleast
  | @tagged n width b tail hb hn hwidth =>
    have hsmall : n < 2 ^ 16 := by
      cases h
      assumption
    have hbytes : numberWidth (headInfo n) ≤ width := by
      rw [numberWidth_headInfo]
      rcases width with _ | _ | width
      · rw [if_pos (by omega)]
      · split_ifs <;> omega
      · split_ifs <;> omega
    exact .inr (by rw [encode_natCast, length_encodeHead, List.length_cons]; omega)

theorem atLeast_encodeItems {vs : List Value} {forms : Bytes} (hrigid : ∀ v ∈ vs, v.Rigid)
    (h : AreForms vs forms) : AtLeast (encodeItems vs) forms := by
  induction h with
  | nil => exact .refl _
  | cons hv hvs ih =>
    obtain ⟨hhead, htail⟩ := List.forall_mem_cons.1 hrigid
    exact (hhead.atLeast hv).append (ih htail)

end Value.Rigid

theorem encodeItems_append (vs ws : List Value) :
    encodeItems (vs ++ ws) = encodeItems vs ++ encodeItems ws := by
  induction vs with
  | nil => rfl
  | cons v vs ih => rw [List.cons_append, encodeItems, encodeItems, ih, List.append_assoc]

/-! ### Documents with one integer -/

variable {before after : List Value} {n : Nat} {bs : Bytes}

/-- **A byte string saves two octets at most** where it stands for an integer. -/
theorem IsForm.length_encode_natCast_le {form : Bytes} (h : IsForm (.int n) form) :
    (Value.int n).encode.length ≤ form.length + 2 := by
  generalize hv : Value.int n = v at h
  rcases h with hleast | @⟨m, width, b, tail, -, hm, hwidth⟩
  · exact hleast.length_le.trans (Nat.le_add_right _ _)
  · obtain rfl : n = m := by simpa using hv
    have hpow : ∀ k, width ≤ k → n < 256 ^ k := fun k hk =>
      hm.trans_le (Nat.pow_le_pow_right (by decide) hk)
    have hbytes : numberWidth (headInfo n) ≤ width + 3 := by
      rw [numberWidth_headInfo]
      split_ifs with h1 h2 h3 h4
      · omega
      · omega
      · omega
      · by_contra hlt
        have := hpow 0 (by omega)
        omega
      · by_contra hlt
        have := hpow 4 (by omega)
        omega
    rw [encode_natCast, length_encodeHead, List.length_cons]
    omega

/-- **What is read as an array with one integer** is a head, forms of the items before the integer,
a form of the integer and forms of the items after it. The head is at least the one that is written,
or something comes after the items. -/
theorem parts_of_decode_array (hbefore : ∀ v ∈ before, v.Rigid) (hafter : ∀ v ∈ after, v.Rigid)
    (hbs : bs.length ≤ 2 ^ 16) (h : Value.decode bs = .ok (.array (before ++ .int n :: after))) :
    ∃ b number left form right tail,
      bs = b :: number ++ (left ++ (form ++ right) ++ tail) ∧
        AtLeast (encodeItems before) left ∧ IsForm (.int n) form ∧
        AtLeast (encodeItems after) right ∧
        (AtLeast (encodeHead arrayMajor (before ++ .int n :: after).length) (b :: number) ∨
          tail ≠ []) := by
  have hflat : ∀ v ∈ before ++ .int n :: after, v.Flat := by
    intro v hv
    rcases List.mem_append.1 hv with hv | hv
    · exact (hbefore v hv).flat
    · rcases List.mem_cons.1 hv with rfl | hv
      · exact .int n
      · exact (hafter v hv).flat
  obtain ⟨b, number, forms, tail, rfl, hforms, hhead⟩ := forms_of_decode_array hbs hflat h
  obtain ⟨left, right, rfl, hleft, hright⟩ := hforms.of_append
  obtain _ | @⟨_, _, form, right, hform, hright⟩ := hright
  exact ⟨b, number, left, form, right, tail, rfl, Value.Rigid.atLeast_encodeItems hbefore hleft,
    hform, Value.Rigid.atLeast_encodeItems hafter hright, hhead⟩

/-- **The form that is written takes two octets more at most** than whatever it was read from. -/
theorem length_encode_le_of_decode_array (hbefore : ∀ v ∈ before, v.Rigid)
    (hafter : ∀ v ∈ after, v.Rigid) (hcount : (before ++ .int n :: after).length < 24)
    (hbs : bs.length ≤ 2 ^ 16) (h : Value.decode bs = .ok (.array (before ++ .int n :: after))) :
    (Value.array (before ++ .int n :: after)).encode.length ≤ bs.length + 2 := by
  obtain ⟨b, number, left, form, right, tail, rfl, hleft, hform, hright, -⟩ :=
    parts_of_decode_array hbefore hafter hbs h
  have hleft := hleft.length_le
  have hform := hform.length_encode_natCast_le
  have hright := hright.length_le
  rw [Value.encode, encodeItems_append, encodeItems, List.length_append, length_encodeHead,
    numberWidth_headInfo, if_pos hcount]
  simp only [List.length_append, List.length_cons]
  omega

/-! ### Altered documents -/

theorem headInfo_lt (n : Nat) : headInfo n < 32 := by
  unfold headInfo
  split_ifs <;> omega

/-- Where an integer is written with more octets than a tagged byte string takes, its first octets
are no heads of tags. -/
theorem getElem?_encodeHead {n width e : Nat} (hn : n < 256 ^ width)
    (he : e + width + 2 ≤ (encodeHead unsignedMajor n).length) :
    ∃ b, (encodeHead unsignedMajor n)[e]? = some b ∧ b.toNat / 32 = unsignedMajor := by
  rw [length_encodeHead] at he
  rw [encodeHead_eq]
  cases e with
  | zero =>
    have hinfo := headInfo_lt n
    refine ⟨_, rfl, ?_⟩
    rw [toNat_leadOctet (by decide) hinfo]
    exact Nat.div_eq_of_lt (by simpa [unsignedMajor] using hinfo)
  | succ e =>
    obtain ⟨k, hk⟩ := Nat.exists_eq_add_of_le' (by omega : width ≤ numberWidth (headInfo n))
    refine ⟨0, ?_, rfl⟩
    rw [List.getElem?_cons_succ, hk, Bytes.ofNatBE_add k hn,
      List.getElem?_append_left (by rw [List.length_replicate]; omega),
      List.getElem?_replicate_of_lt (by omega)]

/-- Nowhere became an octet with the three bits of a number the head of a tag. -/
def MakesNoTag (written altered : Bytes) : Prop :=
  ∀ (i : Nat) (b c : UInt8), written[i]? = some b → altered[i]? = some c →
    b.toNat / 32 = unsignedMajor → c.toNat / 32 ≠ tagMajor

/-- One flipped bit makes no tag. -/
theorem makesNoTag_flipBit (bs : Bytes) (i : Nat) {k : Nat} (hk : k < 8) :
    MakesNoTag bs (bs.flipBit i k) := by
  intro j b c hb hc hmajor
  have hflips : ∀ n < 32, ∀ k < 8, (n ^^^ 2 ^ k) / 32 ≠ tagMajor := by decide
  have hsmall : b.toNat < 32 := by
    rw [unsignedMajor] at hmajor
    omega
  rw [Bytes.getElem?_flipBit, hb, Option.map_some, Option.some.injEq] at hc
  split_ifs at hc
  · have hpow : 2 ^ k < 256 := Nat.pow_lt_pow_right (by decide) hk
    rw [← hc, UInt8.toNat_xor, UInt8.toNat_ofNat_of_lt' hpow]
    exact hflips _ hsmall k hk
  · rw [← hc, hmajor]
    decide

/-- Where no tag is made, an integer cannot begin as many octets late as a tag in its place would
save. -/
theorem MakesNoTag.length_lt {front front' behind rest : Bytes} {c : UInt8} {n width e : Nat}
    (h : MakesNoTag (front ++ (encodeHead unsignedMajor n ++ behind)) (front' ++ c :: rest))
    (hfront : front'.length = front.length + e) (hc : c.toNat / 32 = tagMajor)
    (hn : n < 256 ^ width) : (encodeHead unsignedMajor n).length < e + width + 2 := by
  by_contra hle
  obtain ⟨d, hd, hmajor⟩ := getElem?_encodeHead hn (Nat.le_of_not_lt hle)
  refine h front'.length d c ?_ ?_ hmajor hc
  · rw [hfront, List.getElem?_append_right (Nat.le_add_right _ _), Nat.add_sub_cancel_left,
      List.getElem?_append_left (by omega), hd]
  · rw [List.getElem?_append_right (Nat.le_refl _), Nat.sub_self]
    rfl

/-- **A document with one integer that is altered within its length.** If it is read as the value
that it was written for, and no tag was made in it, then it is the document as it was written. -/
theorem eq_of_decode_array {written : Bytes}
    (hbefore : ∀ v ∈ before, v.Rigid) (hafter : ∀ v ∈ after, v.Rigid)
    (hcount : (before ++ .int n :: after).length < 24)
    (hwritten : written = (Value.array (before ++ .int n :: after)).encode)
    (hlength : bs.length = written.length) (hsize : written.length ≤ 2 ^ 16)
    (hquiet : MakesNoTag written bs)
    (h : Value.decode bs = .ok (.array (before ++ .int n :: after))) : bs = written := by
  obtain ⟨b, number, left, form, right, tail, rfl, hleft, hform, hright, hhead⟩ :=
    parts_of_decode_array hbefore hafter (hlength ▸ hsize) h
  generalize hhd : encodeHead arrayMajor (before ++ .int n :: after).length = hd at hhead
  have hone : hd.length = 1 := by
    rw [← hhd, length_encodeHead, numberWidth_headInfo, if_pos hcount]
  have hparts : written = hd ++ (encodeItems before ++ (encodeHead unsignedMajor n ++
      encodeItems after)) := by
    rw [hwritten, Value.encode, hhd, encodeItems_append, encodeItems, encode_natCast]
  have hsum := hlength
  simp only [hparts, List.length_append, List.length_cons, hone] at hsum
  have hleftLe := hleft.length_le
  have hrightLe := hright.length_le
  cases hform with
  | atLeast hform =>
    -- Every part is as short as it can be, so that each is the one that is written.
    rw [encode_natCast] at hform
    have hformLe := hform.length_le
    rcases hhead with hhead | htail
    · have hwhole := hhead.append (hleft.append (hform.append hright))
      rw [← hparts] at hwhole
      obtain rfl : tail = [] := List.eq_nil_of_length_eq_zero (by omega)
      rw [List.append_nil] at hlength ⊢
      exact hwhole.eq_of_length_le hlength.le
    · have := List.length_pos_of_ne_nil htail
      omega
  | @tagged _ width c rest hc hn hwidth =>
    -- What the parts before the tag have more than they need is what the tag saves at most.
    obtain ⟨e, he⟩ := Nat.exists_eq_add_of_le
      (by simp only [List.length_append, List.length_cons, hone]; omega :
        (hd ++ encodeItems before).length ≤ (b :: number ++ left).length)
    rw [hparts, List.append_assoc left, ← List.append_assoc _ left, ← List.append_assoc hd]
      at hquiet
    have hlt := hquiet.length_lt he hc hn
    simp only [List.length_append, List.length_cons, hone] at he hsum
    omega

end KeyCustody.Cbor
