import KeyCustody.Proofs.Cbor.Extent
/-!
# Records in any order

A record that was written is read back from its pairs in any order, with unknown fields between
them and without the fields that have their defaults. The other way round, a record that is read has
no field twice and every field without a default: what is found is in the pairs, and each pair is
looked at once.

## Main definitions

* `Arranged`: the pairs of a record in other orders, with unknown fields and without defaults.
* `foundAt`: the fields found so far.
* `Gathered`: what is found in pairs.

## Main results

* `Arranged.reads_readRecord`: arranged records are read back.
* `gathered_of_readRecord`: what is in the pairs of a record that is read.
-/

namespace KeyCustody.Cbor

variable {φ : Type} {slots : List (Slot φ)} {form : φ → Value} {values : List φ}
  {nesting fuel depth : Nat} {ps qs : List (Value × Value)}

/-! ### Positions -/

theorem position?_of_getElem? (hnames : (slots.map Slot.name).Nodup) {i : Nat} {s : Slot φ}
    (hs : slots[i]? = some s) : position? slots (Bytes.ofText s.name) = some i := by
  obtain ⟨hi, rfl⟩ := List.getElem?_eq_some_iff.1 hs
  exact position?_ofText hnames hi

theorem position?_eq_none {name : String} (h : name ∉ slots.map Slot.name) :
    position? slots (Bytes.ofText name) = none := by
  rw [position?, List.findIdx?_eq_none_iff]
  intro s hs
  rw [beq_eq_false_iff_ne]
  intro heq
  exact h (Bytes.ofText_injective heq ▸ List.mem_map_of_mem hs)

/-- The positions of the fields that are in the pairs. -/
def positions (slots : List (Slot φ)) (ps : List (Value × Value)) : List Nat :=
  ps.filterMap fun p => p.1.name?.bind (position? slots)

theorem positions_cons_of_some {name : String} {w : Value} {i : Nat}
    (h : position? slots (Bytes.ofText name) = some i) :
    positions slots ((.text name, w) :: ps) = i :: positions slots ps := by
  rw [positions, List.filterMap_cons_some (b := i)]
  · rfl
  · simpa [Value.name?, Value.untagged] using h

theorem positions_cons_of_none {name : String} {w : Value}
    (h : position? slots (Bytes.ofText name) = none) :
    positions slots ((.text name, w) :: ps) = positions slots ps := by
  rw [positions, List.filterMap_cons_none]
  · rfl
  · simpa [Value.name?, Value.untagged] using h

theorem positions_append :
    positions slots (ps ++ qs) = positions slots ps ++ positions slots qs :=
  List.filterMap_append

/-- The pairs that are written are those of all fields in their order. -/
theorem positions_writtenPairs (hnames : (slots.map Slot.name).Nodup)
    (hlength : values.length = slots.length) :
    positions slots (writtenPairs form (slots.map Slot.name) values) =
      List.range slots.length := by
  have hmap : (writtenPairs form (slots.map Slot.name) values).map
      (fun p => p.1.name?.bind (position? slots)) = (List.range slots.length).map some := by
    refine List.ext_getElem (by simp [writtenPairs, hlength]) fun i h1 h2 => ?_
    have hi : i < slots.length := by simpa using h2
    simpa [writtenPairs, Value.name?, Value.untagged] using position?_ofText hnames hi
  have hsome := congrArg (List.filterMap id) hmap
  rwa [List.filterMap_map, List.filterMap_map, Function.id_comp, Function.id_comp,
    List.filterMap_some] at hsome

/-! ### Arranged records -/

/-- The pairs in which a record may stand. They are those that are written, in any order, with
unknown fields of which the values are nested at most so deep, and without fields that have their
defaults. -/
inductive Arranged (nesting : Nat) (slots : List (Slot φ)) (form : φ → Value) (values : List φ) :
    List (Value × Value) → Prop
  | written : Arranged nesting slots form values (writtenPairs form (slots.map Slot.name) values)
  | perm {ps qs : List (Value × Value)} (h : Arranged nesting slots form values ps)
      (hperm : ps.Perm qs) : Arranged nesting slots form values qs
  | insert {ps qs : List (Value × Value)} {name : String} {w : Value}
      (h : Arranged nesting slots form values (ps ++ qs)) (hname : name ∉ slots.map Slot.name)
      (hshort : (Bytes.ofText name).length ≤ longestName) (hw : w.Fits nesting) :
      Arranged nesting slots form values (ps ++ (.text name, w) :: qs)
  | leaveOut {ps qs : List (Value × Value)} {i : Nat} {s : Slot φ} {v : φ}
      (h : Arranged nesting slots form values (ps ++ (.text s.name, form v) :: qs))
      (hs : slots[i]? = some s) (hv : values[i]? = some v) (hdefault : s.default? = some v) :
      Arranged nesting slots form values (ps ++ qs)

/-- A pair of an arranged record: a field with its contents, or an unknown field. -/
inductive Entry (nesting : Nat) (slots : List (Slot φ)) (form : φ → Value) (values : List φ) :
    Value × Value → Prop
  | known {i : Nat} {s : Slot φ} {v : φ} (hs : slots[i]? = some s) (hv : values[i]? = some v) :
      Entry nesting slots form values (.text s.name, form v)
  | unknown {name : String} {w : Value} (hname : name ∉ slots.map Slot.name)
      (hshort : (Bytes.ofText name).length ≤ longestName) (hw : w.Fits nesting) :
      Entry nesting slots form values (.text name, w)

namespace Arranged

theorem entry (h : Arranged nesting slots form values ps) {p : Value × Value} (hp : p ∈ ps) :
    Entry nesting slots form values p := by
  induction h with
  | written =>
    obtain ⟨i, hi, rfl⟩ := List.getElem_of_mem hp
    simp only [writtenPairs, List.length_zipWith, List.length_map] at hi
    simp only [writtenPairs, List.getElem_zipWith, List.getElem_map]
    exact .known (i := i) (List.getElem?_eq_getElem _) (List.getElem?_eq_getElem _)
  | perm _ hperm ih => exact ih (hperm.mem_iff.2 hp)
  | @insert ps qs _ _ _ hname hshort hw ih =>
    rcases List.mem_append.1 hp with hp | hp
    · exact ih (List.mem_append_left _ hp)
    · rcases List.mem_cons.1 hp with rfl | hp
      · exact .unknown hname hshort hw
      · exact ih (List.mem_append_right _ hp)
  | leaveOut _ _ _ _ ih =>
    refine ih ?_
    rcases List.mem_append.1 hp with hp | hp
    · exact List.mem_append_left _ hp
    · exact List.mem_append_right _ (List.mem_cons_of_mem _ hp)

/-- No field is in the pairs twice. -/
theorem nodup_positions (h : Arranged nesting slots form values ps)
    (hnames : (slots.map Slot.name).Nodup) (hlength : values.length = slots.length) :
    (positions slots ps).Nodup := by
  induction h with
  | written =>
    rw [positions_writtenPairs hnames hlength]
    exact List.nodup_range
  | perm _ hperm ih => exact (hperm.filterMap _).nodup_iff.1 ih
  | insert _ hname _ _ ih =>
    rw [positions_append, positions_cons_of_none (position?_eq_none hname)]
    rwa [positions_append] at ih
  | leaveOut _ hs _ _ ih =>
    rw [positions_append, positions_cons_of_some (position?_of_getElem? hnames hs)] at ih
    rw [positions_append]
    exact ih.sublist (List.Sublist.append_left (List.sublist_cons_self _ _) _)

/-- A field is in the pairs, or it has its default. -/
theorem mem_positions_or (h : Arranged nesting slots form values ps)
    (hnames : (slots.map Slot.name).Nodup) (hlength : values.length = slots.length) {i : Nat}
    {s : Slot φ} {v : φ} (hs : slots[i]? = some s) (hv : values[i]? = some v) :
    i ∈ positions slots ps ∨ s.default? = some v := by
  induction h with
  | written =>
    left
    rw [positions_writtenPairs hnames hlength]
    exact List.mem_range.2 (List.getElem?_eq_some_iff.1 hs).1
  | perm _ hperm ih => exact ih.imp_left (hperm.filterMap _).mem_iff.1
  | insert _ hname _ _ ih =>
    rw [positions_append, positions_cons_of_none (position?_eq_none hname)]
    rwa [positions_append] at ih
  | @leaveOut ps qs j t u _ ht hu hdefault ih =>
    by_cases hij : i = j
    · subst hij
      obtain rfl := Option.some.inj (hs.symm.trans ht)
      obtain rfl := Option.some.inj (hv.symm.trans hu)
      exact .inr hdefault
    · refine ih.imp_left fun hi => ?_
      rw [positions_append, positions_cons_of_some (position?_of_getElem? hnames ht)] at hi
      rw [positions_append]
      simpa [hij] using hi

end Arranged

/-! ### Reading an arranged record -/

/-- The fields found so far: those at the given positions. -/
def foundAt (values : List φ) (is : List Nat) : List (Option φ) :=
  values.mapIdx fun i v => if i ∈ is then some v else none

theorem foundAt_nil (hlength : values.length = slots.length) :
    foundAt values [] = slots.map fun _ => none :=
  List.ext_getElem (by simp [foundAt, hlength]) fun i h1 h2 => by simp [foundAt]

theorem getD_foundAt_of_notMem {is : List Nat} {i : Nat} (hi : i ∉ is) :
    (foundAt values is).getD i none = none := by
  rw [List.getD_eq_getElem?_getD, foundAt, List.getElem?_mapIdx]
  cases values[i]? <;> simp [hi]

theorem set_foundAt {is : List Nat} {i : Nat} {v : φ} (hv : values[i]? = some v) :
    (foundAt values is).set i (some v) = foundAt values (is ++ [i]) := by
  refine List.ext_getElem? fun j => ?_
  by_cases hij : i = j
  · subst hij
    obtain ⟨hi, rfl⟩ := List.getElem?_eq_some_iff.1 hv
    simp [foundAt, hi]
  · have hji : j ≠ i := fun h => hij h.symm
    simp [foundAt, List.getElem?_set_ne hij, hji]

theorem mapM_id_map_some (values : List φ) : (values.map some).mapM id = some values := by
  induction values with
  | nil => rfl
  | cons v values ih => simp [ih]

/-- Nothing is missing if each field is found or has its default. -/
theorem complete_foundAt {is : List Nat} (hlength : values.length = slots.length)
    (h : ∀ (i : Nat) (s : Slot φ) (v : φ), slots[i]? = some s → values[i]? = some v →
      i ∈ is ∨ s.default? = some v) :
    complete slots (foundAt values is) = some values := by
  have hzip : List.zipWith (fun s v => v.or s.default?) slots (foundAt values is) =
      values.map some := by
    refine List.ext_getElem (by simp [foundAt, hlength]) fun i h1 h2 => ?_
    have hi : i < values.length := by simpa using h2
    simp only [List.getElem_zipWith, foundAt, List.getElem_mapIdx, List.getElem_map]
    rcases h i slots[i] values[i] (List.getElem?_eq_getElem _) (List.getElem?_eq_getElem _) with
      hmem | hdefault
    · simp [hmem]
    · rw [hdefault]
      split_ifs <;> rfl
  rw [complete, hzip, mapM_id_map_some]

/-- An unknown field is skipped. -/
theorem readFields_skip {field : Nat → Bytes → Except ReadError (φ × Bytes)}
    {found : List (Option φ)} {name : String} {w : Value} {n : Nat} (hfuel : 0 < fuel)
    (hwfuel : 2 * w.encode.length ≤ fuel) (hname : name ∉ slots.map Slot.name)
    (hshort : (Bytes.ofText name).length ≤ longestName) (hw : w.Fits depth) (rest : Bytes) :
    readFields slots field depth (fuel + 1) (some (n + 1)) found
        ((Value.text name).encode ++ (w.encode ++ rest)) =
      readFields slots field depth fuel (some n) found rest := by
  have hread := reads_readName hfuel hshort (w.encode ++ rest)
  rw [readFields]
  simp only [readMore, ok_bind, hread, position?_eq_none hname,
    readValue_encode hw fuel rest hwfuel]

/-- The pairs of an arranged record are read one after another. -/
theorem readFields_encodePairs {field : Nat → Bytes → Except ReadError (φ × Bytes)}
    (hnames : (slots.map Slot.name).Nodup)
    (hshort : ∀ s ∈ slots, (Bytes.ofText s.name).length ≤ longestName) (hnesting : nesting ≤ depth)
    (hentry : ∀ p ∈ ps, Entry nesting slots form values p)
    (each : ∀ (i : Nat) (v : φ), values[i]? = some v →
      (form v).encode.length ≤ (encodePairs ps).length → Reads (field i) (form v).encode v)
    {is : List Nat} (hnodup : (is ++ positions slots ps).Nodup)
    (hfuel : 2 * (encodePairs ps).length < fuel) (rest : Bytes) :
    readFields slots field depth fuel (some ps.length) (foundAt values is)
        (encodePairs ps ++ rest) =
      .ok (foundAt values (is ++ positions slots ps), rest) := by
  -- Of what is still to be read no field is among those at `is`, so that none is found twice.
  induction ps generalizing fuel is with
  | nil =>
    obtain ⟨fuel, rfl⟩ : ∃ k, fuel = k + 1 := ⟨fuel - 1, by omega⟩
    simp [readFields, readMore, encodePairs, positions, pure, Except.pure]
  | cons p ps ih =>
    obtain ⟨k, w⟩ := p
    have hk := k.length_encode_pos
    simp only [encodePairs, List.length_append] at hfuel each
    obtain ⟨fuel, rfl⟩ : ∃ k, fuel = k + 1 := ⟨fuel - 1, by omega⟩
    have hentry' : ∀ p ∈ ps, Entry nesting slots form values p := fun p hp =>
      hentry p (List.mem_cons_of_mem _ hp)
    have each' : ∀ (i : Nat) (v : φ), values[i]? = some v →
        (form v).encode.length ≤ (encodePairs ps).length → Reads (field i) (form v).encode v :=
      fun i v hv hle => each i v hv (by omega)
    rw [List.length_cons, encodePairs, List.append_assoc, List.append_assoc]
    cases hentry (k, w) List.mem_cons_self with
    | @known i s v hs hv =>
      have hposition := position?_of_getElem? hnames hs
      rw [positions_cons_of_some hposition] at hnodup ⊢
      have hi : i ∉ is := fun hi =>
        List.disjoint_of_nodup_append hnodup hi List.mem_cons_self
      rw [List.append_cons] at hnodup ⊢
      have hread := each i v hv (by omega)
      rw [readFields_cons depth ps.length form v (by omega) hposition
        (hshort s (List.mem_of_getElem? hs)) (getD_foundAt_of_notMem hi) hread, set_foundAt hv]
      exact ih hentry' each' hnodup (by omega)
    | unknown hname hlong hw =>
      rw [positions_cons_of_none (position?_eq_none hname)] at hnodup ⊢
      rw [readFields_skip (by omega) (by omega) hname hlong (hw.mono hnesting)]
      exact ih hentry' each' hnodup (by omega)

/-- **An arranged record is read back**, whatever follows it. -/
theorem Arranged.reads_readRecord {field : Nat → Nat → Bytes → Except ReadError (φ × Bytes)}
    (h : Arranged nesting slots form values ps) (hnames : (slots.map Slot.name).Nodup)
    (hshort : ∀ s ∈ slots, (Bytes.ofText s.name).length ≤ longestName)
    (hlength : values.length = slots.length) (hnesting : nesting ≤ depth)
    (hfit : ps.length < headBound) (hfuel : 2 * (encodePairs ps).length < fuel)
    (each : ∀ (i : Nat) (v : φ), values[i]? = some v →
      (form v).encode.length ≤ (encodePairs ps).length → Reads (field i depth) (form v).encode v) :
    Reads (readRecord slots field fuel (depth + 1)) (Value.map ps).encode values := by
  intro rest
  have hnodup : ([] ++ positions slots ps).Nodup := h.nodup_positions hnames hlength
  have hfields := readFields_encodePairs hnames hshort hnesting (fun p hp => h.entry hp) each
    hnodup hfuel rest
  rw [foundAt_nil hlength] at hfields
  have hcomplete := complete_foundAt hlength fun i s v hs hv =>
    h.mem_positions_or hnames hlength hs hv
  obtain ⟨fuel, rfl⟩ : ∃ k, fuel = k + 1 := ⟨fuel - 1, by omega⟩
  have hhead := readHead_encodeHead mapMajor (by decide) hfit (encodePairs ps ++ rest)
  rw [← List.append_assoc] at hhead
  rw [readRecord, Value.encode, readUntagged_of_readHead hhead (by simp [Head.ofNumber,
    mapMajor, arrayMajor, textMajor, unsignedMajor, negativeMajor, bytesMajor])]
  simp only [Head.ofNumber, mapMajor, arrayMajor, textMajor, unsignedMajor, negativeMajor,
    bytesMajor, ok_bind, enter]
  simp only [Nat.reduceEqDiff, OfNat.ofNat_ne_zero, if_false, if_true, ok_bind, hfields,
    List.nil_append, hcomplete]
  rfl

/-! ### What is found in pairs -/

theorem exists_of_position? {name : Bytes} {i : Nat} (h : position? slots name = some i) :
    ∃ s, slots[i]? = some s ∧ Bytes.ofText s.name = name := by
  obtain ⟨hi, hname, -⟩ := List.findIdx?_eq_some_iff_getElem.1 h
  exact ⟨slots[i], List.getElem?_eq_getElem hi, by simpa using hname⟩

/-- The fields found in pairs, after those found before. No pair has the name of a field that was
found before, no two have the same, and a field that is found has its name in a pair. -/
structure Gathered (slots : List (Slot φ)) (pairs : List (Value × Value))
    (before found : List (Option φ)) : Prop where
  once {name : Bytes} {i : Nat} (h : position? slots name = some i) :
    pairs.countP (fun p => p.1.name? = some name) + (before.getD i none).toList.length ≤ 1
  named {i : Nat} (h : (found.getD i none).isSome) :
    (before.getD i none).isSome ∨
      ∃ p ∈ pairs, ∃ name, p.1.MayName name ∧ position? slots name = some i

namespace Gathered

variable {pairs : List (Value × Value)} {before found : List (Option φ)} {key w : Value}
  {name : Bytes} {i : Nat} {v : φ}

theorem nil : Gathered slots [] before before where
  once {_ i} _ := by
    cases before.getD i none <;> simp
  named h := .inl h

theorem getD_set (hi : i < before.length) (j : Nat) :
    (before.set i (some v)).getD j none = if i = j then some v else before.getD j none := by
  simp only [List.getD_eq_getElem?_getD, List.getElem?_set, if_pos hi]
  split_ifs <;> rfl

/-- One more field was found. -/
theorem cons_known (h : Gathered slots pairs (before.set i (some v)) found)
    (hi : i < before.length) (hkey : key.MayName name)
    (hposition : position? slots name = some i) (hbefore : before.getD i none = none) :
    Gathered slots ((key, w) :: pairs) before found where
  once {name' j} h' := by
    have honce := h.once h'
    rw [getD_set hi] at honce
    by_cases hname : key.name? = some name'
    · rw [hkey.eq_of_name? hname, hposition] at h'
      obtain rfl := Option.some.inj h'
      rw [List.countP_cons_of_pos (by simpa using hname), hbefore]
      simpa using honce
    · rw [List.countP_cons_of_neg (by simpa using hname)]
      by_cases hij : i = j
      · subst hij
        rw [hbefore]
        exact (Nat.le_add_right _ _).trans honce
      · rwa [if_neg hij] at honce
  named {j} h' := by
    rcases h.named h' with hset | ⟨p, hp, hnamed⟩
    · rw [getD_set hi] at hset
      by_cases hij : i = j
      · subst hij
        exact .inr ⟨_, List.mem_cons_self, name, hkey, hposition⟩
      · rw [if_neg hij] at hset
        exact .inl hset
    · exact .inr ⟨p, List.mem_cons_of_mem _ hp, hnamed⟩

/-- An unknown field was skipped. -/
theorem cons_unknown (h : Gathered slots pairs before found) (hkey : key.MayName name)
    (hposition : position? slots name = none) :
    Gathered slots ((key, w) :: pairs) before found where
  once {name' i} h' := by
    have hne : key.name? ≠ some name' := by
      intro hname
      rw [hkey.eq_of_name? hname, hposition] at h'
      cases h'
    rw [List.countP_cons_of_neg (by simpa using hne)]
    exact h.once h'
  named h' := (h.named h').imp_right fun ⟨p, hp, hnamed⟩ =>
    ⟨p, List.mem_cons_of_mem _ hp, hnamed⟩

end Gathered

/-- Where no name is read a record has ended. -/
theorem readFields_of_nameless {field : Nat → Bytes → Except ReadError (φ × Bytes)}
    {length : Option Nat} {bs rest : Bytes} {before found : List (Option φ)} (hbs : Nameless bs)
    (h : readFields slots field depth fuel length before bs = .ok (found, rest)) :
    length = some 0 ∧ found = before ∧ rest = bs := by
  obtain ⟨v, after, hv, hnameless⟩ := hbs
  obtain _ | fuel := fuel
  · cases h
  rw [readFields] at h
  obtain ⟨⟨more, bs'⟩, hmore, hnext⟩ := bind_eq_ok.1 h
  cases more with
  | none =>
    cases hnext
    rcases readMore_eq_none hmore with rfl | ⟨rfl, -⟩
    · cases hmore
      exact ⟨rfl, rfl, rfl⟩
    · exact absurd hmore hv.readMore_ne
  | some left =>
    obtain ⟨rfl, -⟩ := readMore_eq_some hmore
    obtain ⟨⟨name, _⟩, hname, -⟩ := bind_eq_ok.1 hnext
    exact absurd (mayName_of_readName hv hname).2 (hnameless name)

/-- **What is found in a map is in its pairs.** The map is read to its end, or else to octets at
which no name is read. -/
theorem gathered_of_readFields {P : Bytes → Prop} (hP : ∀ bs, P bs → Nameless bs)
    {field : Nat → Bytes → Except ReadError (φ × Bytes)} {pairs : List (Value × Value)}
    {length : Option Nat} {bs rest rest' : Bytes} {before found : List (Option φ)}
    (hpairs : SpansPairs length bs pairs rest) (hlength : before.length = slots.length)
    (each : ∀ p ∈ pairs, ∀ (name : Bytes) (i : Nat), p.1.MayName name →
      position? slots name = some i → TakesOr P (field i) p.2)
    (h : readFields slots field depth fuel length before bs = .ok (found, rest')) :
    (rest' = rest ∨ P rest') ∧ found.length = slots.length ∧
      Gathered slots pairs before found := by
  -- The reader of the record keeps step with the pairs: each key is read as a name, each value by
  -- the reader of its field or skipped, and both end where the pair does. Where a field leaves
  -- something else, no name follows, so that it was the last one.
  induction hpairs generalizing fuel before with
  | nil hmore =>
    obtain _ | fuel := fuel
    · cases h
    rw [readFields, hmore, ok_bind] at h
    cases h
    exact ⟨.inl rfl, hlength, .nil⟩
  | cons hmore hk hv hps ih =>
    obtain _ | fuel := fuel
    · cases h
    have each' := fun p hp => each p (List.mem_cons_of_mem _ hp)
    rw [readFields, hmore, ok_bind] at h
    obtain ⟨⟨name, middle⟩, hname, h⟩ := bind_eq_ok.1 h
    obtain ⟨rfl, hkey⟩ := mayName_of_readName hk hname
    cases hposition : position? slots name with
    | some i =>
      simp only [hposition] at h
      split_ifs at h with hbefore
      obtain ⟨⟨v, after⟩, hfield, h⟩ := bind_eq_ok.1 h
      obtain ⟨s, hs, -⟩ := exists_of_position? hposition
      have hi : i < before.length := hlength ▸ (List.getElem?_eq_some_iff.1 hs).1
      have hnone : before.getD i none = none := by simpa using hbefore
      rcases each _ List.mem_cons_self name i hkey hposition _ _ _ _ hv hfield with rfl | hafter
      · obtain ⟨hrest, hfound, hgathered⟩ := ih (by simpa using hlength) each' h
        exact ⟨hrest, hfound, hgathered.cons_known hi hkey hposition hnone⟩
      · obtain ⟨rfl, rfl, rfl⟩ := readFields_of_nameless (hP _ hafter) h
        obtain rfl := hps.eq_nil
        exact ⟨.inr hafter, by simpa using hlength,
          Gathered.nil.cons_known hi hkey hposition hnone⟩
    | none =>
      simp only [hposition] at h
      obtain ⟨⟨w, after⟩, hskip, h⟩ := bind_eq_ok.1 h
      obtain rfl := takesWhole_readValue _ _ _ _ hv hskip
      obtain ⟨hrest, hfound, hgathered⟩ := ih hlength each' h
      exact ⟨hrest, hfound, hgathered.cons_unknown hkey hposition⟩

theorem isSome_of_mapM_id {found : List (Option φ)} (h : found.mapM id = some values) :
    ∀ o ∈ found, o.isSome := by
  induction found generalizing values with
  | nil => simp
  | cons o found ih =>
    intro o' ho'
    obtain _ | v := o
    · simp at h
    · cases hrest : found.mapM id with
      | none => simp [hrest] at h
      | some rest =>
        rcases List.mem_cons.1 ho' with rfl | ho'
        · rfl
        · exact ih hrest o' ho'

/-- A field without a default is found in a record that is read. -/
theorem isSome_of_complete {found : List (Option φ)} (hlength : found.length = slots.length)
    (h : complete slots found = some values) {i : Nat} {s : Slot φ} (hs : slots[i]? = some s)
    (hdefault : s.default? = none) : (found.getD i none).isSome := by
  obtain ⟨hi, rfl⟩ := List.getElem?_eq_some_iff.1 hs
  have hfound : i < found.length := hlength ▸ hi
  have hmem : (found[i].or slots[i].default?) ∈
      List.zipWith (fun s v => v.or s.default?) slots found :=
    List.mem_iff_getElem.2 ⟨i, by simpa [hlength] using hi, by simp⟩
  have hsome := isSome_of_mapM_id h _ hmem
  rw [hdefault, Option.or_none] at hsome
  rwa [List.getD_eq_getElem?_getD, List.getElem?_eq_getElem hfound, Option.getD_some]

/-- **A record that is read has no field twice and every field without a default.** It is read to
its end, or else to octets at which no name is read. -/
theorem gathered_of_readRecord {P : Bytes → Prop} (hP : ∀ bs, P bs → Nameless bs)
    {field : Nat → Nat → Bytes → Except ReadError (φ × Bytes)} {bs rest rest' : Bytes} {v : Value}
    {fields : List φ} (hv : Spans bs v rest)
    (each : ∀ pairs, v.untagged = .map pairs → ∀ p ∈ pairs, ∀ (name : Bytes) (i inner : Nat),
      p.1.MayName name → position? slots name = some i → TakesOr P (field i inner) p.2)
    (h : readRecord slots field fuel depth bs = .ok (fields, rest')) :
    (rest' = rest ∨ P rest') ∧ ∃ pairs found, v.untagged = .map pairs ∧
      found.length = slots.length ∧ complete slots found = some fields ∧
      Gathered slots pairs (slots.map fun _ => none) found := by
  rw [readRecord] at h
  obtain ⟨⟨head, after⟩, hhead, h⟩ := bind_eq_ok.1 h
  cases hv.body hhead with
  | @map _ _ _ _ pairs hpairs hmap =>
    obtain ⟨inner, -, h⟩ := bind_eq_ok.1 h
    obtain ⟨⟨found, rest''⟩, hfields, h⟩ := bind_eq_ok.1 h
    obtain ⟨hrest, hlength, hgathered⟩ := gathered_of_readFields hP hpairs (by simp)
      (fun p hp name i hkey hposition => each pairs hmap p hp name i inner hkey hposition) hfields
    cases hcomplete : complete slots found with
    | none =>
      simp only [hcomplete] at h
      cases h
    | some fields' =>
      simp only [hcomplete] at h
      obtain ⟨rfl, rfl⟩ := Prod.mk.inj (Except.ok.inj h)
      exact ⟨hrest, pairs, found, hmap, hlength, hcomplete, hgathered⟩
  | _ => cases h

theorem takesWhole_readRecord {field : Nat → Nat → Bytes → Except ReadError (φ × Bytes)} {v : Value}
    (each : ∀ (i inner : Nat) (w : Value), TakesWhole (field i inner) w) :
    TakesWhole (readRecord slots field fuel depth) v := by
  intro bs rest rest' fields hv h
  obtain ⟨hrest, -⟩ := gathered_of_readRecord (fun _ => False.elim) hv
    (fun _ _ p _ _ i inner _ _ => (each i inner p.2).takesOr fun _ => False) h
  exact hrest.resolve_right id

end KeyCustody.Cbor
