import KeyCustody.Proofs.Cbor.Typed
/-!
# Lengths

The parts of a value are no longer than its octets. Reading makes no octets either: a reader never
goes back, and a string that is read is no longer than the octets it is read from. So the texts and
the byte strings of a message that is not too large are short, on both sides.

## Main definitions

* `StringKind.Holds`: octets that may be a string of a kind.
* `Value.contentLength`: the octets of a string.
* `ReadAs`: what belongs to a head.

## Main results

* `length_le_encode_array`, `length_le_encodePairs`: written parts.
* `readAs_of_readValue`: values that are read.
* `noLonger`: values, items and pairs.
* `contentLength_of_decode_array`: the items of an array.
-/

namespace KeyCustody.Cbor

/-! ### Strings -/

theorem append_of_readExactly {n : Nat} {bs octets rest : Bytes}
    (h : readExactly n bs = .ok (octets, rest)) : octets.length = n ∧ bs = octets ++ rest := by
  unfold readExactly at h
  simp only at h
  split_ifs at h with hn
  obtain ⟨rfl, rfl⟩ := Prod.mk.inj (Except.ok.inj h)
  exact ⟨hn, (List.take_append_drop n bs).symm⟩

theorem length_of_readExactly {n : Nat} {bs octets rest : Bytes}
    (h : readExactly n bs = .ok (octets, rest)) : octets.length + rest.length = bs.length := by
  rw [(append_of_readExactly h).2, List.length_append]

theorem length_of_readHead {bs rest : Bytes} {head : Head} (h : readHead bs = .ok (head, rest)) :
    rest.length < bs.length := by
  cases bs with
  | nil => simp [readHead] at h
  | cons b bs =>
    rw [readHead] at h
    split_ifs at h
    obtain ⟨⟨octets, after⟩, hoctets, h⟩ := bind_eq_ok.1 h
    obtain ⟨head', -, h⟩ := bind_eq_ok.1 h
    obtain ⟨rfl, rfl⟩ := Prod.mk.inj (Except.ok.inj h)
    have := length_of_readExactly hoctets
    rw [List.length_cons]
    omega

/-- The octets may be a string of the kind: a text is UTF-8. -/
def StringKind.Holds (kind : StringKind) (octets : Bytes) : Prop :=
  kind = .text → (Bytes.text? octets).isSome

theorem append_of_readSegment {kind : StringKind} {n : Nat} {bs octets rest : Bytes}
    (h : readSegment kind n bs = .ok (octets, rest)) :
    octets.length = n ∧ bs = octets ++ rest ∧ kind.Holds octets := by
  cases kind with
  | bytes =>
    obtain ⟨hlength, happend⟩ := append_of_readExactly h
    exact ⟨hlength, happend, fun hkind => by cases hkind⟩
  | text =>
    rw [readSegment] at h
    cases hread : readExactly n bs with
    | error e =>
      rw [hread] at h
      cases h
    | ok result =>
      obtain ⟨octets', rest'⟩ := result
      rw [hread] at h
      simp only at h
      split_ifs at h with htext
      obtain ⟨rfl, rfl⟩ := Prod.mk.inj (Except.ok.inj h)
      obtain ⟨hlength, happend⟩ := append_of_readExactly hread
      exact ⟨hlength, happend, fun _ => htext⟩

theorem ofText_textOf {octets : Bytes} (h : StringKind.text.Holds octets) :
    Bytes.ofText (textOf octets) = octets := by
  obtain ⟨s, hs⟩ := Option.isSome_iff_exists.1 (h rfl)
  rw [textOf, hs, Option.getD_some, Bytes.ofText_of_text? hs]

theorem length_of_readSegment {kind : StringKind} {n : Nat} {bs octets rest : Bytes}
    (h : readSegment kind n bs = .ok (octets, rest)) :
    octets.length + rest.length = bs.length := by
  rw [(append_of_readSegment h).2.1, List.length_append]

theorem length_of_readSegments {kind : StringKind} {fuel nesting : Nat}
    {read bs octets rest : Bytes}
    (h : readSegments kind fuel nesting read bs = .ok (octets, rest)) :
    octets.length + rest.length ≤ read.length + bs.length := by
  induction fuel generalizing nesting read bs with
  | zero => simp [readSegments] at h
  | succ fuel ih =>
    rw [readSegments] at h
    obtain ⟨⟨head, after⟩, hhead, h⟩ := bind_eq_ok.1 h
    have hafter := length_of_readHead hhead
    simp only at h
    split at h
    · obtain ⟨rfl, rfl⟩ := Prod.mk.inj (Except.ok.inj h)
      omega
    · have := ih h
      omega
    · have := ih h
      omega
    · obtain ⟨⟨segment, after'⟩, hsegment, h⟩ := bind_eq_ok.1 h
      have hlength := length_of_readSegment hsegment
      have := ih h
      simp only [List.length_append] at this hlength hafter
      omega
    · cases h

theorem length_of_readString {kind : StringKind} {fuel : Nat} {length : Option Nat}
    {bs octets rest : Bytes} (h : readString kind fuel length bs = .ok (octets, rest)) :
    octets.length + rest.length ≤ bs.length := by
  cases length with
  | some n => exact (length_of_readSegment h).le
  | none => simpa using length_of_readSegments h

theorem length_of_readMore {length : Option Nat} {more : Option (Option Nat)} {bs rest : Bytes}
    (h : readMore length bs = .ok (more, rest)) : rest.length ≤ bs.length := by
  unfold readMore at h
  split at h
  · cases h
    rfl
  · cases h
    rfl
  · split at h
    · rename_i hhead
      cases h
      exact (length_of_readHead hhead).le
    · cases h
      rfl
    · cases h

/-- An array ends after its items, or with a stop. -/
theorem readMore_eq_none {length : Option Nat} {bs rest : Bytes}
    (h : readMore length bs = .ok (none, rest)) : length = some 0 ∨ length = none ∧ bs ≠ [] := by
  unfold readMore at h
  split at h
  · exact .inl rfl
  · cases h
  · refine .inr ⟨rfl, ?_⟩
    rintro rfl
    cases h

/-- An array goes on where it is. -/
theorem readMore_eq_some {length more : Option Nat} {bs rest : Bytes}
    (h : readMore length bs = .ok (some more, rest)) :
    rest = bs ∧ length = more.map (· + 1) := by
  unfold readMore at h
  split at h
  · cases h
  · cases h
    exact ⟨rfl, rfl⟩
  · split at h
    · cases h
    · cases h
      exact ⟨rfl, rfl⟩
    · cases h

/-! ### Values -/

/-- The octets in a text or a byte string. -/
def Value.contentLength : Value → Nat
  | .bytes bs => bs.length
  | .text s => (Bytes.ofText s).length
  | _ => 0

theorem length_ofText_textOf_le (octets : Bytes) :
    (Bytes.ofText (textOf octets)).length ≤ octets.length := by
  cases h : Bytes.text? octets with
  | none => simp [textOf, h, Bytes.ofText]
  | some s => simp [textOf, h, Bytes.ofText_of_text? h]

/-- The items of an array that are strings are no longer than that. -/
def Value.ItemsWithin (n : Nat) (v : Value) : Prop :=
  ∀ items, v = .array items → ∀ w ∈ items, w.contentLength ≤ n

theorem contentLength_of_ofTaggedBytes {tag : Nat} {octets : Bytes} {v : Value}
    (h : ofTaggedBytes tag octets = .ok v) : v.contentLength = 0 ∧ ∀ n, v.ItemsWithin n := by
  unfold ofTaggedBytes at h
  simp only at h
  split_ifs at h <;> cases h <;> exact ⟨rfl, fun n items h => by cases h⟩

theorem contentLength_of_ofSimple {n : Nat} {v : Value} (h : ofSimple n = .ok v) :
    v.contentLength = 0 ∧ ∀ n, v.ItemsWithin n := by
  unfold ofSimple at h
  split at h <;> cases h <;> exact ⟨rfl, fun n items h => by cases h⟩

/-- What is read as a value after a head, and what is left. -/
inductive ReadAs (fuel depth : Nat) : Head → Bytes → Value → Bytes → Prop
  | unsigned {n : Nat} {bs : Bytes} : ReadAs fuel depth (.unsigned n) bs (.int n) bs
  | negative {n : Nat} {bs : Bytes} : ReadAs fuel depth (.negative n) bs (.int (-1 - n)) bs
  | bytes {length : Option Nat} {bs octets rest : Bytes}
      (h : readString .bytes fuel length bs = .ok (octets, rest)) :
      ReadAs fuel depth (.bytes length) bs (.bytes octets) rest
  | text {length : Option Nat} {bs octets rest : Bytes}
      (h : readString .text fuel length bs = .ok (octets, rest)) :
      ReadAs fuel depth (.text length) bs (.text (textOf octets)) rest
  | array {inner : Nat} {length : Option Nat} {bs rest : Bytes} {items : List Value}
      (hdepth : enter depth = .ok inner)
      (h : readItems fuel inner length [] bs = .ok (items, rest)) :
      ReadAs fuel depth (.array length) bs (.array items) rest
  | map {inner : Nat} {length : Option Nat} {bs rest : Bytes} {pairs : List (Value × Value)}
      (hdepth : enter depth = .ok inner)
      (h : readPairs fuel inner length [] bs = .ok (pairs, rest)) :
      ReadAs fuel depth (.map length) bs (.map pairs) rest
  | integer {tag length : Nat} {inner : Head} {bs after octets rest : Bytes} {v : Value}
      (hhead : readHead bs = .ok (inner, after)) (hlength : taggedLength? tag inner = some length)
      (hoctets : readExactly length after = .ok (octets, rest))
      (hv : ofTaggedBytes tag octets = .ok v) : ReadAs fuel depth (.tag tag) bs v rest
  | tag {tag inner : Nat} {next : Head} {bs after rest : Bytes} {v : Value}
      (hhead : readHead bs = .ok (next, after)) (hlength : taggedLength? tag next = none)
      (hdepth : enter depth = .ok inner) (h : readValue fuel inner bs = .ok (v, rest)) :
      ReadAs fuel depth (.tag tag) bs (.tag tag v) rest
  | simple {n : Nat} {bs : Bytes} {v : Value} (hv : ofSimple n = .ok v) :
      ReadAs fuel depth (.simple n) bs v bs
  | float {octets bs : Bytes} : ReadAs fuel depth (.float octets) bs (.float octets) bs

/-- What is read as a value is a head and what belongs to it. -/
theorem readAs_of_readValue {fuel depth : Nat} {bs rest : Bytes} {v : Value}
    (h : readValue (fuel + 1) depth bs = .ok (v, rest)) :
    ∃ head after, readHead bs = .ok (head, after) ∧ ReadAs fuel depth head after v rest := by
  rw [readValue] at h
  obtain ⟨⟨head, after⟩, hhead, h⟩ := bind_eq_ok.1 h
  refine ⟨head, after, hhead, ?_⟩
  cases head with
  | unsigned n =>
    cases h
    exact .unsigned
  | negative n =>
    cases h
    exact .negative
  | bytes length =>
    obtain ⟨⟨octets, rest'⟩, hstring, h⟩ := bind_eq_ok.1 h
    cases h
    exact .bytes hstring
  | text length =>
    obtain ⟨⟨octets, rest'⟩, hstring, h⟩ := bind_eq_ok.1 h
    cases h
    exact .text hstring
  | array length =>
    obtain ⟨inner, hdepth, h⟩ := bind_eq_ok.1 h
    obtain ⟨⟨items, rest'⟩, hitems, h⟩ := bind_eq_ok.1 h
    cases h
    exact .array hdepth hitems
  | map length =>
    obtain ⟨inner, hdepth, h⟩ := bind_eq_ok.1 h
    obtain ⟨⟨pairs, rest'⟩, hpairs, h⟩ := bind_eq_ok.1 h
    cases h
    exact .map hdepth hpairs
  | tag tag =>
    obtain ⟨⟨inner, afterInner⟩, hinner, h⟩ := bind_eq_ok.1 h
    cases hlength : taggedLength? tag inner with
    | some length =>
      simp only [hlength] at h
      obtain ⟨⟨octets, rest'⟩, hoctets, h⟩ := bind_eq_ok.1 h
      obtain ⟨v', hv, h⟩ := bind_eq_ok.1 h
      cases h
      exact .integer hinner hlength hoctets hv
    | none =>
      simp only [hlength] at h
      obtain ⟨depth', hdepth, h⟩ := bind_eq_ok.1 h
      obtain ⟨⟨v', rest'⟩, hv, h⟩ := bind_eq_ok.1 h
      cases h
      exact .tag hinner hlength hdepth hv
  | simple n =>
    obtain ⟨v', hv, h⟩ := bind_eq_ok.1 h
    cases h
    exact .simple hv
  | float octets =>
    cases h
    exact .float
  | stop => cases h

/-- What a reader with the given fuel does not do: go back, or make up octets. -/
structure NoLonger (fuel : Nat) : Prop where
  value {depth : Nat} {bs rest : Bytes} {v : Value} (h : readValue fuel depth bs = .ok (v, rest)) :
    v.contentLength + rest.length ≤ bs.length ∧ v.ItemsWithin bs.length
  items {depth : Nat} {length : Option Nat} {read items : List Value} {bs rest : Bytes}
    (h : readItems fuel depth length read bs = .ok (items, rest)) :
    rest.length ≤ bs.length ∧ ∀ v ∈ items, v ∈ read ∨ v.contentLength ≤ bs.length
  pairs {depth : Nat} {length : Option Nat} {read pairs : List (Value × Value)} {bs rest : Bytes}
    (h : readPairs fuel depth length read bs = .ok (pairs, rest)) : rest.length ≤ bs.length

namespace NoLonger

variable {fuel : Nat}

theorem value_succ (ih : NoLonger fuel) {depth : Nat} {bs rest : Bytes} {v : Value}
    (h : readValue (fuel + 1) depth bs = .ok (v, rest)) :
    v.contentLength + rest.length ≤ bs.length ∧ v.ItemsWithin bs.length := by
  obtain ⟨head, after, hhead, hread⟩ := readAs_of_readValue h
  have hafter := length_of_readHead hhead
  cases hread with
  | unsigned | negative | float =>
    exact ⟨by simp [Value.contentLength, hafter.le], fun items h => by cases h⟩
  | bytes hstring =>
    have := length_of_readString hstring
    exact ⟨by simp only [Value.contentLength]; omega, fun items h => by cases h⟩
  | @text _ _ octets _ hstring =>
    have := length_of_readString hstring
    have := length_ofText_textOf_le octets
    exact ⟨by simp only [Value.contentLength]; omega, fun items h => by cases h⟩
  | array hdepth hitems =>
    obtain ⟨hrest, heach⟩ := ih.items hitems
    refine ⟨by simp only [Value.contentLength]; omega, fun items h w hw => ?_⟩
    obtain rfl := Value.array.inj h
    have := (heach w hw).resolve_left (by simp)
    omega
  | map hdepth hpairs =>
    have := ih.pairs hpairs
    exact ⟨by simp only [Value.contentLength]; omega, fun items h => by cases h⟩
  | integer hinner hlength hoctets hv =>
    have := length_of_readHead hinner
    have := length_of_readExactly hoctets
    obtain ⟨hzero, hitems⟩ := contentLength_of_ofTaggedBytes hv
    exact ⟨by omega, hitems _⟩
  | tag _ _ hdepth hv =>
    have := (ih.value hv).1
    exact ⟨by simp only [Value.contentLength]; omega, fun items h => by cases h⟩
  | simple hv =>
    obtain ⟨hzero, hitems⟩ := contentLength_of_ofSimple hv
    exact ⟨by omega, hitems _⟩

theorem items_succ (ih : NoLonger fuel) {depth : Nat} {length : Option Nat}
    {read items : List Value} {bs rest : Bytes}
    (h : readItems (fuel + 1) depth length read bs = .ok (items, rest)) :
    rest.length ≤ bs.length ∧ ∀ v ∈ items, v ∈ read ∨ v.contentLength ≤ bs.length := by
  rw [readItems] at h
  split at h
  · cases h
  · rename_i hmore
    cases h
    exact ⟨length_of_readMore hmore, fun v hv => .inl (by simpa using hv)⟩
  · rename_i hmore
    have hmore := length_of_readMore hmore
    split at h
    · cases h
    · rename_i hv
      have hv := (ih.value hv).1
      obtain ⟨hrest, hitems⟩ := ih.items h
      refine ⟨by omega, fun w hw => ?_⟩
      rcases hitems w hw with hw | hw
      · rcases List.mem_cons.1 hw with rfl | hw
        · exact .inr (by omega)
        · exact .inl hw
      · exact .inr (by omega)

theorem pairs_succ (ih : NoLonger fuel) {depth : Nat} {length : Option Nat}
    {read pairs : List (Value × Value)} {bs rest : Bytes}
    (h : readPairs (fuel + 1) depth length read bs = .ok (pairs, rest)) :
    rest.length ≤ bs.length := by
  rw [readPairs] at h
  split at h
  · cases h
  · rename_i hmore
    cases h
    exact length_of_readMore hmore
  · rename_i hmore
    have hmore := length_of_readMore hmore
    split at h
    · cases h
    · rename_i hk
      have hk := (ih.value hk).1
      split at h
      · cases h
      · rename_i hv
        have hv := (ih.value hv).1
        have := ih.pairs h
        omega

end NoLonger

theorem noLonger (fuel : Nat) : NoLonger fuel := by
  induction fuel with
  | zero =>
    constructor
    · intro depth bs rest v h
      simp [readValue] at h
    · intro depth length read items bs rest h
      simp [readItems] at h
    · intro depth length read pairs bs rest h
      simp [readPairs] at h
  | succ fuel ih => exact ⟨ih.value_succ, ih.items_succ, ih.pairs_succ⟩

theorem exists_readValue_of_decode {bs : Bytes} {v : Value} (h : Value.decode bs = .ok v) :
    ∃ rest, readValue (fuelFor bs) depthLimit bs = .ok (v, rest) := by
  rw [Value.decode] at h
  cases hread : readValue (fuelFor bs) depthLimit bs with
  | error e =>
    rw [hread] at h
    cases h
  | ok result =>
    rw [hread] at h
    exact ⟨result.2, by rw [← Except.ok.inj h]⟩

/-- The strings in an array are no longer than the octets of its document. -/
theorem contentLength_of_decode_array {bs : Bytes} {items : List Value}
    (h : Value.decode bs = .ok (.array items)) : ∀ v ∈ items, v.contentLength ≤ bs.length := by
  obtain ⟨rest, hread⟩ := exists_readValue_of_decode h
  exact ((noLonger _).value hread).2 items rfl

/-! ### Written parts -/

theorem length_ofText_le_encode (s : String) :
    (Bytes.ofText s).length ≤ (Value.text s).encode.length := by
  simp [Value.encode, encodeText]

theorem length_le_encode_bytes (bs : Bytes) : bs.length ≤ (Value.bytes bs).encode.length := by
  simp [Value.encode, encodeBytes]

theorem length_encode_le_encodeItems {v : Value} {items : List Value} (h : v ∈ items) :
    v.encode.length ≤ (encodeItems items).length := by
  induction items with
  | nil => simp at h
  | cons w items ih =>
    rw [encodeItems, List.length_append]
    rcases List.mem_cons.1 h with rfl | h
    · omega
    · have := ih h
      omega

theorem length_le_encodeItems (items : List Value) :
    items.length ≤ (encodeItems items).length := by
  induction items with
  | nil => simp
  | cons v items ih =>
    have := v.length_encode_pos
    rw [encodeItems, List.length_append, List.length_cons]
    omega

theorem length_le_encodePairs (pairs : List (Value × Value)) :
    pairs.length ≤ (encodePairs pairs).length := by
  induction pairs with
  | nil => simp
  | cons p pairs ih =>
    have := p.1.length_encode_pos
    rw [encodePairs, List.length_append, List.length_append, List.length_cons]
    omega

/-- A list and its items are no longer than their octets. -/
theorem length_le_encode_array (items : List Value) :
    items.length ≤ (Value.array items).encode.length ∧
      ∀ v ∈ items, v.encode.length ≤ (Value.array items).encode.length := by
  have hitems := length_le_encodeItems items
  refine ⟨?_, fun v hv => ?_⟩
  · simp only [Value.encode, List.length_append]
    omega
  · have := length_encode_le_encodeItems hv
    simp only [Value.encode, List.length_append]
    omega

theorem length_encodePairs_lt (pairs : List (Value × Value)) :
    (encodePairs pairs).length < (Value.map pairs).encode.length := by
  have := length_encodeHead_pos mapMajor pairs.length
  simp only [Value.encode, List.length_append]
  omega

end KeyCustody.Cbor
