import KeyCustody.Proofs.Cbor.Length
/-!
# Where an item ends

The octets of a value end at one place, whatever fuel and budget they are read with. A reader for a
wanted kind ends there too, if it takes anything: what it skips and what it does not look into is
the whole of an item. A choice in a map of one pair is the one exception; what follows its name is
left to be read as something else, and if that is no name, then no record goes on with it.

## Main definitions

* `Spans`: the octets from which a value is read.
* `Value.name?`, `Value.MayName`: keys that are names.
* `Nameless`: octets at which no name is read.
* `TakesOr`, `TakesWhole`: a reader takes the whole of a value, or leaves certain octets.

## Main results

* `Spans.unique`: one value, one end.
* `takesWhole_readText`, `takesWhole_readBool`, `takesOr_readChoice`, `takesWhole_readList`: the
  readers for a wanted kind.
-/

namespace KeyCustody.Cbor

variable {α φ : Type} {fuel fuel' depth depth' : Nat} {bs rest rest' after : Bytes} {v w : Value}
  {length : Option Nat}

/-! ### Fuel and budget -/

theorem readSegments_mono {kind : StringKind} {nesting : Nat} {read : Bytes}
    {result : Bytes × Bytes} (hfuel : fuel ≤ fuel')
    (h : readSegments kind fuel nesting read bs = .ok result) :
    readSegments kind fuel' nesting read bs = .ok result := by
  induction fuel generalizing fuel' nesting read bs with
  | zero => simp [readSegments] at h
  | succ fuel ih =>
    obtain ⟨fuel', rfl⟩ : ∃ k, fuel' = k + 1 := ⟨fuel' - 1, by omega⟩
    have hle : fuel ≤ fuel' := by omega
    rw [readSegments] at h ⊢
    obtain ⟨⟨head, after⟩, hhead, h⟩ := bind_eq_ok.1 h
    rw [hhead, ok_bind]
    simp only at h ⊢
    split at h
    · exact h
    · exact ih hle h
    · exact ih hle h
    · obtain ⟨segment, hsegment, h⟩ := bind_eq_ok.1 h
      rw [hsegment, ok_bind]
      exact ih hle h
    · cases h

theorem readString_mono {kind : StringKind} {result : Bytes × Bytes} (hfuel : fuel ≤ fuel')
    (h : readString kind fuel length bs = .ok result) :
    readString kind fuel' length bs = .ok result := by
  cases length with
  | some n => exact h
  | none => exact readSegments_mono hfuel h

theorem readString_some_bytes {n : Nat} {result : Bytes × Bytes}
    (h : readExactly n bs = .ok result) : readString .bytes 0 (some n) bs = .ok result := h

/-- A string is the same with any fuel that suffices. -/
theorem readString_unique {kind : StringKind} {result result' : Bytes × Bytes}
    (h : readString kind fuel length bs = .ok result)
    (h' : readString kind fuel' length bs = .ok result') : result = result' := by
  have hmax := readString_mono (Nat.le_max_left fuel fuel') h
  rw [readString_mono (Nat.le_max_right fuel fuel') h'] at hmax
  exact (Except.ok.inj hmax).symm

theorem enter_mono {inner : Nat} (hdepth : depth ≤ depth') (h : enter depth = .ok inner) :
    ∃ inner', enter depth' = .ok inner' ∧ inner ≤ inner' := by
  obtain _ | depth := depth
  · cases h
  · obtain rfl := Except.ok.inj h
    obtain ⟨depth', rfl⟩ : ∃ k, depth' = k + 1 := ⟨depth' - 1, by omega⟩
    exact ⟨depth', rfl, by omega⟩

/-- What is read with the given fuel is read with more fuel and more budget. -/
structure Settled (fuel : Nat) : Prop where
  value {fuel' depth depth' : Nat} {bs : Bytes} {result : Value × Bytes} (hfuel : fuel ≤ fuel')
    (hdepth : depth ≤ depth') (h : readValue fuel depth bs = .ok result) :
    readValue fuel' depth' bs = .ok result
  items {fuel' depth depth' : Nat} {length : Option Nat} {read : List Value} {bs : Bytes}
    {result : List Value × Bytes} (hfuel : fuel ≤ fuel') (hdepth : depth ≤ depth')
    (h : readItems fuel depth length read bs = .ok result) :
    readItems fuel' depth' length read bs = .ok result
  pairs {fuel' depth depth' : Nat} {length : Option Nat} {read : List (Value × Value)} {bs : Bytes}
    {result : List (Value × Value) × Bytes} (hfuel : fuel ≤ fuel') (hdepth : depth ≤ depth')
    (h : readPairs fuel depth length read bs = .ok result) :
    readPairs fuel' depth' length read bs = .ok result

namespace Settled

theorem value_succ (ih : Settled fuel) {result : Value × Bytes} (hfuel : fuel ≤ fuel')
    (hdepth : depth ≤ depth') (h : readValue (fuel + 1) depth bs = .ok result) :
    readValue (fuel' + 1) depth' bs = .ok result := by
  obtain ⟨v, rest⟩ := result
  obtain ⟨head, after, hhead, hread⟩ := readAs_of_readValue h
  rw [readValue, hhead, ok_bind]
  cases hread with
  | unsigned | negative | float => rfl
  | bytes hstring | text hstring =>
    simp only [readString_mono hfuel hstring, ok_bind]
    rfl
  | array henter hitems =>
    obtain ⟨inner, henter, hinner⟩ := enter_mono hdepth henter
    simp only [henter, ih.items hfuel hinner hitems, ok_bind]
    rfl
  | map henter hpairs =>
    obtain ⟨inner, henter, hinner⟩ := enter_mono hdepth henter
    simp only [henter, ih.pairs hfuel hinner hpairs, ok_bind]
    rfl
  | integer hnext hlength hoctets hv =>
    simp only [hnext, hlength, hoctets, hv, ok_bind]
    rfl
  | tag hnext hlength henter hv =>
    obtain ⟨inner, henter, hinner⟩ := enter_mono hdepth henter
    simp only [hnext, hlength, henter, ih.value hfuel hinner hv, ok_bind]
    rfl
  | simple hv =>
    simp only [hv, ok_bind]
    rfl

theorem items_succ (ih : Settled fuel) {read : List Value} {result : List Value × Bytes}
    (hfuel : fuel ≤ fuel') (hdepth : depth ≤ depth')
    (h : readItems (fuel + 1) depth length read bs = .ok result) :
    readItems (fuel' + 1) depth' length read bs = .ok result := by
  rw [readItems] at h ⊢
  split at h
  · cases h
  · exact h
  · split at h
    · cases h
    · rename_i hv
      simp only [ih.value hfuel hdepth hv]
      exact ih.items hfuel hdepth h

theorem pairs_succ (ih : Settled fuel) {read : List (Value × Value)}
    {result : List (Value × Value) × Bytes} (hfuel : fuel ≤ fuel') (hdepth : depth ≤ depth')
    (h : readPairs (fuel + 1) depth length read bs = .ok result) :
    readPairs (fuel' + 1) depth' length read bs = .ok result := by
  rw [readPairs] at h ⊢
  split at h
  · cases h
  · exact h
  · split at h
    · cases h
    · rename_i hk
      split at h
      · cases h
      · rename_i hv
        simp only [ih.value hfuel hdepth hk, ih.value hfuel hdepth hv]
        exact ih.pairs hfuel hdepth h

end Settled

theorem settled (fuel : Nat) : Settled fuel := by
  induction fuel with
  | zero =>
    constructor
    · intro fuel' depth depth' bs result hfuel hdepth h
      simp [readValue] at h
    · intro fuel' depth depth' length read bs result hfuel hdepth h
      simp [readItems] at h
    · intro fuel' depth depth' length read bs result hfuel hdepth h
      simp [readPairs] at h
  | succ fuel ih =>
    constructor
    · intro fuel' depth depth' bs result hfuel hdepth h
      obtain ⟨fuel', rfl⟩ : ∃ k, fuel' = k + 1 := ⟨fuel' - 1, by omega⟩
      exact ih.value_succ (Nat.le_of_succ_le_succ hfuel) hdepth h
    · intro fuel' depth depth' length read bs result hfuel hdepth h
      obtain ⟨fuel', rfl⟩ : ∃ k, fuel' = k + 1 := ⟨fuel' - 1, by omega⟩
      exact ih.items_succ (Nat.le_of_succ_le_succ hfuel) hdepth h
    · intro fuel' depth depth' length read bs result hfuel hdepth h
      obtain ⟨fuel', rfl⟩ : ∃ k, fuel' = k + 1 := ⟨fuel' - 1, by omega⟩
      exact ih.pairs_succ (Nat.le_of_succ_le_succ hfuel) hdepth h

/-! ### The octets of a value -/

/-- The value is read from the octets up to the rest, with some fuel and some budget. -/
def Spans (bs : Bytes) (v : Value) (rest : Bytes) : Prop :=
  ∃ fuel depth, readValue fuel depth bs = .ok (v, rest)

/-- **Octets begin with one value at most, and it ends at one place.** -/
theorem Spans.unique (h : Spans bs v rest) (h' : Spans bs w rest') : v = w ∧ rest = rest' := by
  obtain ⟨fuel, depth, h⟩ := h
  obtain ⟨fuel', depth', h'⟩ := h'
  have hmax := (settled fuel).value (Nat.le_max_left fuel fuel') (Nat.le_max_left depth depth') h
  rw [(settled fuel').value (Nat.le_max_right fuel fuel') (Nat.le_max_right depth depth') h']
    at hmax
  obtain ⟨rfl, rfl⟩ := Prod.mk.inj (Except.ok.inj hmax)
  exact ⟨rfl, rfl⟩

/-- A value that was written spans its octets. -/
theorem Spans.of_fits (hv : v.Fits depth) (rest : Bytes) : Spans (v.encode ++ rest) v rest :=
  ⟨_, depth, readValue_encode hv _ rest le_rfl⟩

/-- Values one after another, to the end of an array of the given length. -/
inductive SpansItems : Option Nat → Bytes → List Value → Bytes → Prop
  | nil {length : Option Nat} {bs rest : Bytes} (hmore : readMore length bs = .ok (none, rest)) :
      SpansItems length bs [] rest
  | cons {length left : Option Nat} {bs bs' after rest : Bytes} {v : Value} {vs : List Value}
      (hmore : readMore length bs = .ok (some left, bs')) (hv : Spans bs' v after)
      (hvs : SpansItems left after vs rest) : SpansItems length bs (v :: vs) rest

/-- Pairs one after another, to the end of a map of the given length. -/
inductive SpansPairs : Option Nat → Bytes → List (Value × Value) → Bytes → Prop
  | nil {length : Option Nat} {bs rest : Bytes} (hmore : readMore length bs = .ok (none, rest)) :
      SpansPairs length bs [] rest
  | cons {length left : Option Nat} {bs bs' middle after rest : Bytes} {k v : Value}
      {ps : List (Value × Value)} (hmore : readMore length bs = .ok (some left, bs'))
      (hk : Spans bs' k middle) (hv : Spans middle v after) (hps : SpansPairs left after ps rest) :
      SpansPairs length bs ((k, v) :: ps) rest

theorem spansItems_of_readItems {read items : List Value}
    (h : readItems fuel depth length read bs = .ok (items, rest)) :
    ∃ more, items = read.reverse ++ more ∧ SpansItems length bs more rest := by
  induction fuel generalizing length read bs with
  | zero => simp [readItems] at h
  | succ fuel ih =>
    rw [readItems] at h
    split at h
    · cases h
    · rename_i hmore
      obtain ⟨rfl, rfl⟩ := Prod.mk.inj (Except.ok.inj h)
      exact ⟨[], (List.append_nil _).symm, .nil hmore⟩
    · rename_i hmore
      split at h
      · cases h
      · rename_i v _ hv
        obtain ⟨more, rfl, hitems⟩ := ih h
        exact ⟨v :: more, by simp, .cons hmore ⟨_, _, hv⟩ hitems⟩

theorem spansPairs_of_readPairs {read pairs : List (Value × Value)}
    (h : readPairs fuel depth length read bs = .ok (pairs, rest)) :
    ∃ more, pairs = read.reverse ++ more ∧ SpansPairs length bs more rest := by
  induction fuel generalizing length read bs with
  | zero => simp [readPairs] at h
  | succ fuel ih =>
    rw [readPairs] at h
    split at h
    · cases h
    · rename_i hmore
      obtain ⟨rfl, rfl⟩ := Prod.mk.inj (Except.ok.inj h)
      exact ⟨[], (List.append_nil _).symm, .nil hmore⟩
    · rename_i hmore
      split at h
      · cases h
      · rename_i k _ hk
        split at h
        · cases h
        · rename_i v _ hv
          obtain ⟨more, rfl, hpairs⟩ := ih h
          exact ⟨(k, v) :: more, by simp, .cons hmore ⟨_, _, hk⟩ ⟨_, _, hv⟩ hpairs⟩

/-- A map of length zero has no pair. -/
theorem SpansPairs.eq_nil {pairs : List (Value × Value)} (h : SpansPairs (some 0) bs pairs rest) :
    pairs = [] := by
  cases h with
  | nil => rfl
  | cons hmore => cases hmore

/-- A map of length one has one pair. -/
theorem SpansPairs.exists_singleton {pairs : List (Value × Value)}
    (h : SpansPairs (some 1) bs pairs rest) :
    ∃ k w middle, pairs = [(k, w)] ∧ Spans bs k middle ∧ Spans middle w rest := by
  cases h with
  | nil hmore => cases hmore
  | cons hmore hk hv hps =>
    cases hmore
    cases hps with
    | nil hmore =>
      cases hmore
      exact ⟨_, _, _, rfl, hk, hv⟩
    | cons hmore => cases hmore

/-- Where a value begins nothing ends. -/
theorem Spans.readMore_ne (h : Spans bs v rest) : readMore none bs ≠ .ok (none, after) := by
  intro hmore
  obtain ⟨fuel, depth, h⟩ := h
  obtain _ | fuel := fuel
  · simp [readValue] at h
  obtain ⟨head, after', hhead, hread⟩ := readAs_of_readValue h
  rw [readMore, hhead] at hmore
  cases hread <;> cases hmore

/-! ### Names -/

/-- The value without the tags in front of it. -/
def Value.untagged : Value → Value
  | .tag _ item => item.untagged
  | v => v

/-- The name that a key is: a text or a byte string. -/
def Value.name? (key : Value) : Option Bytes :=
  match key.untagged with
  | .text s => some (Bytes.ofText s)
  | .bytes octets => some octets
  | _ => none

/-- The key is the name, or an integer, which the octets of the name stand for behind a tag. -/
def Value.MayName (key : Value) (name : Bytes) : Prop :=
  match key.untagged with
  | .text s => Bytes.ofText s = name
  | .bytes octets => octets = name
  | .int n => n = Bytes.toNatBE name ∨ n = -1 - Bytes.toNatBE name
  | _ => False

theorem Value.MayName.eq_of_name? {key : Value} {name name' : Bytes} (h : key.MayName name)
    (hname : key.name? = some name') : name' = name := by
  unfold MayName at h
  unfold name? at hname
  split at h <;> simp_all

theorem mayName_of_ofTaggedBytes {tag : Nat} {octets : Bytes}
    (h : ofTaggedBytes tag octets = .ok v) : v.MayName octets := by
  unfold ofTaggedBytes at h
  simp only at h
  split_ifs at h <;> cases h <;> simp [Value.MayName, Value.untagged]

/-! ### What belongs to a head -/

theorem eq_bytes_of_taggedLength? {tag n : Nat} {head : Head}
    (h : taggedLength? tag head = some n) : head = .bytes (some n) := by
  unfold taggedLength? at h
  split at h
  · split_ifs at h
    exact congrArg _ h
  · cases h

/-- What is read as a value after a head that is no tag. -/
inductive Body : Head → Bytes → Value → Bytes → Prop
  | unsigned {n : Nat} {bs : Bytes} {v : Value} : Body (.unsigned n) bs v bs
  | negative {n : Nat} {bs : Bytes} {v : Value} : Body (.negative n) bs v bs
  | bytes {fuel : Nat} {length : Option Nat} {bs octets rest : Bytes} {v : Value}
      (h : readString .bytes fuel length bs = .ok (octets, rest)) (hv : v.MayName octets) :
      Body (.bytes length) bs v rest
  | text {fuel : Nat} {length : Option Nat} {bs octets rest : Bytes} {v : Value}
      (h : readString .text fuel length bs = .ok (octets, rest))
      (hv : v.untagged = .text (textOf octets)) : Body (.text length) bs v rest
  | array {length : Option Nat} {bs rest : Bytes} {v : Value} {items : List Value}
      (h : SpansItems length bs items rest) (hv : v.untagged = .array items) :
      Body (.array length) bs v rest
  | map {length : Option Nat} {bs rest : Bytes} {v : Value} {pairs : List (Value × Value)}
      (h : SpansPairs length bs pairs rest) (hv : v.untagged = .map pairs) :
      Body (.map length) bs v rest
  | simple {n : Nat} {bs : Bytes} {v : Value} : Body (.simple n) bs v bs
  | float {octets bs : Bytes} {v : Value} : Body (.float octets) bs v bs

theorem Body.tag {head : Head} {tag : Nat} (h : Body head bs v rest) :
    Body head bs (.tag tag v) rest := by
  cases h with
  | unsigned => exact .unsigned
  | negative => exact .negative
  | bytes h hv => exact .bytes h hv
  | text h hv => exact .text h hv
  | array h hv => exact .array h hv
  | map h hv => exact .map h hv
  | simple => exact .simple
  | float => exact .float

/-- A value is its first head that is no tag and what belongs to it. -/
theorem Spans.body {head : Head} (h : Spans bs v rest)
    (hhead : readUntagged fuel bs = .ok (head, after)) : Body head after v rest := by
  induction fuel generalizing bs v with
  | zero => cases hhead
  | succ fuel ih =>
    obtain ⟨fuel', depth, h⟩ := h
    obtain _ | fuel' := fuel'
    · simp [readValue] at h
    obtain ⟨head', after', hhead', hread⟩ := readAs_of_readValue h
    by_cases htag : ∃ n, head' = .tag n
    · obtain ⟨n, rfl⟩ := htag
      rw [readUntagged, hhead'] at hhead
      cases hread with
      | integer hnext hlength hoctets hv =>
        obtain rfl := eq_bytes_of_taggedLength? hlength
        obtain _ | fuel := fuel
        · cases hhead
        · simp only [readUntagged_of_readHead hnext (by simp)] at hhead
          obtain ⟨rfl, rfl⟩ := Prod.mk.inj (Except.ok.inj hhead)
          exact .bytes (readString_some_bytes hoctets) (mayName_of_ofTaggedBytes hv)
      | tag _ _ _ hv => exact (ih ⟨_, _, hv⟩ hhead).tag
    · rw [readUntagged_of_readHead hhead' fun n hn => htag ⟨n, hn⟩] at hhead
      obtain ⟨rfl, rfl⟩ := Prod.mk.inj (Except.ok.inj hhead)
      cases hread with
      | unsigned => exact .unsigned
      | negative => exact .negative
      | bytes hstring => exact .bytes hstring rfl
      | text hstring => exact .text hstring rfl
      | array _ hitems =>
        obtain ⟨more, rfl, hitems⟩ := spansItems_of_readItems hitems
        exact .array hitems rfl
      | map _ hpairs =>
        obtain ⟨more, rfl, hpairs⟩ := spansPairs_of_readPairs hpairs
        exact .map hpairs rfl
      | integer | tag => exact absurd ⟨_, rfl⟩ htag
      | simple => exact .simple
      | float => exact .float

/-! ### Readers for a wanted kind -/

/-- If the reader takes anything of the octets of the value, it takes the whole of it, or it leaves
octets such as given. -/
def TakesOr (P : Bytes → Prop) (read : Bytes → Except ReadError (α × Bytes)) (v : Value) : Prop :=
  ∀ (bs rest rest' : Bytes) (a : α), Spans bs v rest → read bs = .ok (a, rest') →
    rest' = rest ∨ P rest'

/-- If the reader takes anything of the octets of the value, it takes the whole of it. -/
def TakesWhole (read : Bytes → Except ReadError (α × Bytes)) (v : Value) : Prop :=
  ∀ (bs rest rest' : Bytes) (a : α), Spans bs v rest → read bs = .ok (a, rest') → rest' = rest

theorem TakesWhole.takesOr {read : Bytes → Except ReadError (α × Bytes)} (h : TakesWhole read v)
    (P : Bytes → Prop) : TakesOr P read v :=
  fun bs rest rest' a hv hread => .inl (h bs rest rest' a hv hread)

theorem TakesOr.map {β : Type} {P : Bytes → Prop} {read : Bytes → Except ReadError (α × Bytes)}
    (h : TakesOr P read v) (f : α → β) :
    TakesOr P (fun bs => read bs >>= fun (a, bs) => pure (f a, bs)) v := by
  intro bs rest rest' b hv hread
  obtain ⟨⟨a, after⟩, hread, hb⟩ := bind_eq_ok.1 hread
  cases hb
  exact h _ _ _ _ hv hread

theorem takesWhole_readValue : TakesWhole (readValue fuel depth) v := by
  intro bs rest rest' w hv h
  exact (Spans.unique ⟨_, _, h⟩ hv).2

theorem takesWhole_readText : TakesWhole (readText fuel) v := by
  intro bs rest rest' s hv h
  rw [readText] at h
  obtain ⟨⟨head, after⟩, hhead, h⟩ := bind_eq_ok.1 h
  cases hv.body hhead with
  | text hstring =>
    obtain ⟨⟨octets, after'⟩, hread, h⟩ := bind_eq_ok.1 h
    obtain ⟨rfl, rfl⟩ := Prod.mk.inj (readString_unique hread hstring)
    cases h
    rfl
  | _ => cases h

theorem takesWhole_readBool : TakesWhole (readBool fuel) v := by
  intro bs rest rest' b hv h
  rw [readBool] at h
  obtain ⟨⟨head, after⟩, hhead, h⟩ := bind_eq_ok.1 h
  cases hv.body hhead with
  | simple =>
    simp only at h
    split at h <;> cases h <;> rfl
  | _ => cases h

/-- A name that is read is the whole key. -/
theorem mayName_of_readName {name : Bytes} (hspans : Spans bs v rest)
    (h : readName fuel bs = .ok (name, rest')) : rest' = rest ∧ v.MayName name := by
  rw [readName] at h
  obtain ⟨⟨head, after⟩, hhead, h⟩ := bind_eq_ok.1 h
  cases hspans.body hhead with
  | @text _ length _ _ _ _ hstring hv =>
    cases length with
    | none => cases h
    | some n =>
      simp only at h
      split_ifs at h
      obtain ⟨rfl, rfl⟩ := Prod.mk.inj (Except.ok.inj (h.symm.trans hstring))
      have htext := ofText_textOf (append_of_readSegment h).2.2
      exact ⟨rfl, by simpa only [Value.MayName, hv] using htext⟩
  | @bytes _ length _ _ _ _ hstring hv =>
    cases length with
    | none => cases h
    | some n =>
      simp only at h
      split_ifs at h
      obtain ⟨rfl, rfl⟩ := Prod.mk.inj (Except.ok.inj (h.symm.trans hstring))
      exact ⟨rfl, hv⟩
  | _ => cases h

/-- Where a choice is looked for: after a head of a map of one pair, or at a text. -/
theorem select_eq_ok (h : readChoice.select fuel bs = .ok after) :
    readUntagged fuel bs = .ok (.map (some 1), after) ∨
      ∃ length left, readUntagged fuel bs = .ok (.text length, left) ∧
        readHead after = .ok (.text length, left) := by
  induction fuel generalizing bs with
  | zero => cases h
  | succ fuel ih =>
    rw [readChoice.select] at h
    split at h
    · rename_i hhead
      rw [readUntagged, hhead]
      exact ih h
    · rename_i hhead
      cases h
      exact .inl (readUntagged_of_readHead hhead (by simp))
    · rename_i hhead
      cases h
      exact .inr ⟨_, _, readUntagged_of_readHead hhead (by simp), hhead⟩
    · cases h
    · cases h

/-- The octets begin with a value that is no name. -/
def Nameless (bs : Bytes) : Prop :=
  ∃ v rest, Spans bs v rest ∧ ∀ name, ¬ v.MayName name

/-- A choice is read as a whole. Of a map of one pair the value is left, which may be no name. -/
theorem takesOr_readChoice {choices : List (String × α)}
    (hv : ∀ p, v.untagged = .map [p] → ∀ name, ¬ p.2.MayName name) :
    TakesOr Nameless (readChoice choices fuel depth) v := by
  intro bs rest rest' a hspans h
  rw [readChoice] at h
  obtain ⟨after, hselect, h⟩ := bind_eq_ok.1 h
  obtain ⟨_, -, h⟩ := bind_eq_ok.1 h
  obtain ⟨⟨name, left⟩, hname, h⟩ := bind_eq_ok.1 h
  have hleft : rest' = left := by
    simp only at h
    split at h <;> cases h
    rfl
  rw [hleft]
  rcases select_eq_ok hselect with hmap | ⟨length, left', htext, hhead⟩
  · cases hspans.body hmap with
    | map hpairs hmap =>
      obtain ⟨k, w, middle, rfl, hk, hw⟩ := hpairs.exists_singleton
      obtain ⟨rfl, -⟩ := mayName_of_readName hk hname
      exact .inr ⟨w, rest, hw, hv _ hmap⟩
  · -- The name begins at the text, which the tags in front of it do not change.
    obtain _ | fuel := fuel
    · cases htext
    have hsame : readName (fuel + 1) bs = readName (fuel + 1) after := by
      rw [readName, readName, htext, readUntagged_of_readHead hhead (by simp)]
    rw [← hsame] at hname
    exact .inl (mayName_of_readName hspans hname).1

/-! ### Lists -/

theorem rest_of_readElements {item : Bytes → Except ReadError (α × Bytes)} {items : List Value}
    (each : ∀ w, TakesWhole item w) (hitems : SpansItems length bs items rest) {read as : List α}
    (h : readElements item fuel length read bs = .ok (as, rest')) : rest' = rest := by
  induction hitems generalizing fuel read with
  | nil hmore =>
    obtain _ | fuel := fuel
    · cases h
    · rw [readElements, hmore] at h
      cases h
      rfl
  | cons hmore hv _ ih =>
    obtain _ | fuel := fuel
    · cases h
    · rw [readElements, hmore] at h
      simp only at h
      split at h
      · cases h
      · rename_i hitem
        obtain rfl := each _ _ _ _ _ hv hitem
        exact ih h

theorem takesWhole_readList {item : Nat → Bytes → Except ReadError (α × Bytes)}
    (each : ∀ depth w, TakesWhole (item depth) w) : TakesWhole (readList item fuel depth) v := by
  intro bs rest rest' as hv h
  rw [readList] at h
  obtain ⟨⟨head, after⟩, hhead, h⟩ := bind_eq_ok.1 h
  cases hv.body hhead with
  | array hitems =>
    obtain ⟨inner, -, h⟩ := bind_eq_ok.1 h
    exact rest_of_readElements (each inner) hitems h
  | bytes hstring =>
    obtain ⟨⟨octets, after'⟩, hread, h⟩ := bind_eq_ok.1 h
    obtain ⟨rfl, rfl⟩ := Prod.mk.inj (readString_unique hread hstring)
    simp only at h
    split_ifs at h
    cases h
    rfl
  | _ => cases h

end KeyCustody.Cbor
