import KeyCustody.Proofs.Wire.Payload
/-!
# Payloads in other forms

The fields of a payload may be sent in any order, with fields that nobody knows among them and
without those that have their defaults. What is read is the same payload. But no field may be sent
twice, and none may be missing that has no default, however the octets look otherwise.

A return code is the exception. It may stand in a map of one pair, and what it is paired with is
read as the next name of the record. If it may be a name, then names and contents have changed
places from there on, and a field may come twice without anybody noticing.

## Main definitions

* `FieldSpec.Repeated`, `FieldSpec.Missing`: pairs with a field twice, or without it.
* `CodesUnpaired`: pairs in which no return code is paired with what may be a name.

## Main results

* `takesOr_readField`: the contents of a field.
* `Payload.decode_map`: records in any arrangement.
* `Payload.not_repeated_of_decode`, `Payload.not_missing_of_decode`: records that are read.
* `Payload.decode_document`: what is read of a payload and of documents like it.
-/

namespace KeyCustody.Wire

open Cbor (Arranged Gathered Nameless Reads Spans TakesOr TakesWhole Value headBound position?)

/-! ### Fields -/

theorem takesWhole_readSocialKey {fuel depth : Nat} {v : Value} :
    TakesWhole (readSocialKey fuel depth) v := by
  intro bs rest rest' k hv h
  rw [readSocialKey] at h
  obtain ⟨⟨texts, after⟩, hrecord, h⟩ := bind_eq_ok.1 h
  obtain rfl := Cbor.takesWhole_readRecord (fun _ _ _ => Cbor.takesWhole_readText) _ _ _ _ hv
    hrecord
  simp only at h
  split at h <;> cases h
  rfl

/-- The contents of a field are read as a whole, but for a return code in a map of one pair. -/
theorem takesOr_readField {kind : FieldKind} {fuel depth : Nat} {v : Value}
    (hcode : kind = .code → ∀ p, v.untagged = .map [p] → ∀ name, ¬ p.2.MayName name) :
    TakesOr Nameless (readField kind fuel depth) v := by
  cases kind with
  | text => exact (Cbor.takesWhole_readText.takesOr _).map Field.text
  | flag => exact (Cbor.takesWhole_readBool.takesOr _).map Field.flag
  | code => exact (Cbor.takesOr_readChoice (hcode rfl)).map Field.code
  | keys =>
    exact ((Cbor.takesWhole_readList fun _ _ => takesWhole_readSocialKey).takesOr _).map Field.keys

/-! ### Pairs that are refused -/

/-- The field is in the pairs twice, or more often. -/
def FieldSpec.Repeated (f : FieldSpec) (pairs : List (Value × Value)) : Prop :=
  2 ≤ pairs.countP fun p => p.1.name? = some (Bytes.ofText f.name)

/-- The field is not in the pairs and has no default. A key that is an integer may be the name,
behind a tag. -/
def FieldSpec.Missing (f : FieldSpec) (pairs : List (Value × Value)) : Prop :=
  f.default? = none ∧ ∀ p ∈ pairs, ¬ p.1.MayName (Bytes.ofText f.name)

/-- No return code in the pairs stands in a map of one pair with something that may be a name. -/
def CodesUnpaired (specs : List FieldSpec) (pairs : List (Value × Value)) : Prop :=
  ∀ f ∈ specs, f.kind = .code → ∀ p ∈ pairs, p.1.MayName (Bytes.ofText f.name) →
    ∀ q, p.2.untagged = .map [q] → ∀ name, ¬ q.2.MayName name

/-! ### Payloads -/

namespace Payload

variable {α : Type} [Payload α] {specs : List FieldSpec} {ps pairs : List (Value × Value)}
  {bs rest : Bytes} {v : Value} {f : FieldSpec} {a : α}

/-- What is in the pairs of a payload that is read. -/
theorem gathered_of_decode (hshape : shape α = .record specs) (hv : Spans bs v rest)
    (hmap : v.untagged = .map pairs) (hcodes : CodesUnpaired specs pairs)
    (h : decode bs = .ok a) :
    ∃ found fields, found.length = (specs.map FieldSpec.slot).length ∧
      Cbor.complete (specs.map FieldSpec.slot) found = some fields ∧
      Gathered (specs.map FieldSpec.slot) pairs ((specs.map FieldSpec.slot).map fun _ => none)
        found := by
  have each : ∀ pairs', v.untagged = .map pairs' → ∀ p ∈ pairs', ∀ (name : Bytes) (i inner : Nat),
      p.1.MayName name → position? (specs.map FieldSpec.slot) name = some i →
      TakesOr Nameless (readField ((specs.map FieldSpec.kind).getD i .text) (Cbor.fuelFor bs) inner)
        p.2 := by
    intro pairs' hmap' p hp name i inner hkey hposition
    obtain rfl : pairs' = pairs := Value.map.inj (hmap'.symm.trans hmap)
    obtain ⟨s, hs, rfl⟩ := Cbor.exists_of_position? hposition
    rw [List.getElem?_map, Option.map_eq_some_iff] at hs
    obtain ⟨f, hf, rfl⟩ := hs
    have hkind : (specs.map FieldSpec.kind).getD i .text = f.kind := by
      rw [List.getD_eq_getElem?_getD, List.getElem?_map, hf]
      rfl
    rw [hkind]
    exact takesOr_readField fun hcode => hcodes f (List.mem_of_getElem? hf) hcode p hp hkey
  rw [decode, hshape] at h
  obtain ⟨⟨fields, rest'⟩, hread, -⟩ := bind_eq_ok.1 h
  rw [readShape] at hread
  obtain ⟨-, pairs', found, hmap', hlength, hcomplete, hgathered⟩ :=
    Cbor.gathered_of_readRecord (fun _ => id) hv each hread
  obtain rfl : pairs' = pairs := Value.map.inj (hmap'.symm.trans hmap)
  exact ⟨found, fields, hlength, hcomplete, hgathered⟩

variable [LawfulPayload α]

/-- A payload is read from its pairs in any arrangement. -/
theorem decode_map {nesting : Nat} (hshape : shape α = .record specs)
    (h : Arranged nesting (specs.map FieldSpec.slot) Field.toValue (toFields a) ps)
    (hnesting : nesting ≤ 255) (hlength : (Value.map ps).encode.length < headBound)
    (rest : Bytes) : decode ((Value.map ps).encode ++ rest) = .ok a := by
  have hfuel : 2 * (Value.map ps).encode.length <
      Cbor.fuelFor ((Value.map ps).encode ++ rest) := by
    rw [Cbor.fuelFor, List.length_append]
    omega
  have hread : Reads (readShape (shape α) _ (253 + 3)) (Value.map ps).encode (toFields a) :=
    reads_readShape_map hshape h hnesting hlength hfuel
  rw [decode, Cbor.depthLimit, hread rest, ok_bind]
  simp only [LawfulPayload.restored]
  rfl

theorem exists_position (hshape : shape α = .record specs) (hf : f ∈ specs) :
    ∃ i, (specs.map FieldSpec.slot)[i]? = some f.slot ∧
      position? (specs.map FieldSpec.slot) (Bytes.ofText f.name) = some i := by
  obtain ⟨i, hi⟩ := List.getElem?_of_mem hf
  have hslot : (specs.map FieldSpec.slot)[i]? = some f.slot := by
    rw [List.getElem?_map, hi]
    rfl
  have hnames := LawfulPayload.names (α := α)
  rw [hshape] at hnames
  exact ⟨i, hslot, Cbor.position?_of_getElem? (map_name_slot specs ▸ hnames) hslot⟩

/-- A payload that is read has no field twice. -/
theorem not_repeated_of_decode (hshape : shape α = .record specs) (hv : Spans bs v rest)
    (hmap : v.untagged = .map pairs) (hcodes : CodesUnpaired specs pairs)
    (h : decode bs = .ok a) (hf : f ∈ specs) : ¬ f.Repeated pairs := by
  obtain ⟨found, fields, -, -, hgathered⟩ := gathered_of_decode hshape hv hmap hcodes h
  obtain ⟨i, -, hposition⟩ := exists_position hshape hf
  have honce := hgathered.once hposition
  rw [FieldSpec.Repeated]
  omega

/-- A payload that is read has every field without a default. -/
theorem not_missing_of_decode (hshape : shape α = .record specs) (hv : Spans bs v rest)
    (hmap : v.untagged = .map pairs) (hcodes : CodesUnpaired specs pairs)
    (h : decode bs = .ok a) (hf : f ∈ specs) : ¬ f.Missing pairs := by
  rintro ⟨hdefault, hmissing⟩
  obtain ⟨found, fields, hlength, hcomplete, hgathered⟩ :=
    gathered_of_decode hshape hv hmap hcodes h
  obtain ⟨i, hslot, hposition⟩ := exists_position hshape hf
  have hfound := Cbor.isSome_of_complete hlength hcomplete hslot hdefault
  rcases hgathered.named hfound with hbefore | ⟨p, hp, name, hkey, hname⟩
  · rw [List.getD_eq_getElem?_getD, List.getElem?_map, hslot] at hbefore
    cases hbefore
  · obtain ⟨s, hs, rfl⟩ := Cbor.exists_of_position? hname
    obtain rfl := Option.some.inj (hslot.symm.trans hs)
    exact hmissing p hp hkey

/-- **What is read of a payload and of documents like it.** A payload is read back from its octets,
and a record from its pairs in any order, with unknown fields among them and without those that have
their defaults, whatever follows. Pairs with a field twice or without a field that has no default
are refused in all forms of their document, if no return code in a map of one pair stands before
what may be a name. -/
theorem decode_document :
    (∀ (a : α) (rest : Bytes), (encode a).length < headBound →
      decode (encode a ++ rest) = .ok a) ∧
    ∀ specs, shape α = .record specs →
      (∀ (a : α) (ps : List (Value × Value)) (rest : Bytes),
        Arranged 200 (specs.map FieldSpec.slot) Field.toValue (toFields a) ps →
        (Value.map ps).encode.length < headBound →
        decode ((Value.map ps).encode ++ rest) = .ok a) ∧
      ∀ (bs rest : Bytes) (v : Value) (pairs : List (Value × Value)),
        Spans bs v rest → v.untagged = .map pairs → CodesUnpaired specs pairs →
        (∃ f ∈ specs, f.Repeated pairs ∨ f.Missing pairs) →
        ∃ e, (decode bs : Except Cbor.ReadError α) = .error e := by
  refine ⟨fun a rest h => decode_encode a h rest, fun specs hshape => ⟨?_, ?_⟩⟩
  · intro a ps rest h hlength
    exact decode_map hshape h (by decide) hlength rest
  · rintro bs rest v pairs hv hmap hcodes ⟨f, hf, hrefused⟩
    cases hdecode : (decode bs : Except Cbor.ReadError α) with
    | error e => exact ⟨e, rfl⟩
    | ok a =>
      rcases hrefused with hrepeated | hmissing
      · exact absurd hrepeated (not_repeated_of_decode hshape hv hmap hcodes hdecode hf)
      · exact absurd hmissing (not_missing_of_decode hshape hv hmap hcodes hdecode hf)

/-- A request with its fields in another order and an unknown one among them, without those that
are empty. -/
def sparseRequest : List (Value × Value) :=
  [(.text "uuid", .text "u"), (.text "note", .array [.bool true]), (.text "key", .text "k"),
    (.text "chain", .text "c")]

theorem arranged_sparseRequest :
    Arranged 200 ((shape SetRequest).specs.map FieldSpec.slot) Field.toValue
      (toFields (⟨"c", "u", "k", "", ""⟩ : SetRequest)) sparseRequest := by
  let IsArranged := Arranged 200 ((shape SetRequest).specs.map FieldSpec.slot) Field.toValue
    (toFields (⟨"c", "u", "k", "", ""⟩ : SetRequest))
  let chain : Value × Value := (.text "chain", .text "c")
  let uuid : Value × Value := (.text "uuid", .text "u")
  let key : Value × Value := (.text "key", .text "k")
  let password : Value × Value := (.text "password", .text "")
  have hpassword : IsArranged ([chain, uuid, key, password] ++ []) :=
    Arranged.leaveOut (i := 4) (s := ⟨"social_code", some (.text "")⟩) (v := .text "") .written
      rfl rfl rfl
  have hkey : IsArranged ([chain, uuid, key] ++ []) :=
    Arranged.leaveOut (i := 3) (s := ⟨"password", some (.text "")⟩) (v := .text "") hpassword
      rfl rfl rfl
  have hmoved : IsArranged ([uuid] ++ [key, chain]) :=
    hkey.perm (List.perm_append_comm : ([chain] ++ [uuid, key]).Perm ([uuid, key] ++ [chain]))
  have hnote : (Value.array [.bool true]).Fits 200 := .array (by decide) (by simp [Value.Fits.bool])
  exact hmoved.insert (by decide) (by decide) hnote

/-- A request in another form is read. One with a key twice is not, and an empty one is not. -/
theorem decode_sparseRequest :
    decode ((Value.map sparseRequest).encode ++ [0]) =
        .ok (⟨"c", "u", "k", "", ""⟩ : SetRequest) ∧
      (∃ e, (decode (Value.map [(.text "key", .null), (.text "key", .null)]).encode :
        Except Cbor.ReadError SetRequest) = .error e) ∧
      ∃ e, (decode (Value.map []).encode : Except Cbor.ReadError SetRequest) = .error e := by
  obtain ⟨-, hrecord⟩ := decode_document (α := SetRequest)
  obtain ⟨harranged, hrefused⟩ := hrecord (shape SetRequest).specs rfl
  have hcodes : ∀ pairs, CodesUnpaired (shape SetRequest).specs pairs := by
    intro pairs f hf hcode
    have hnone : ∀ f ∈ (shape SetRequest).specs, f.kind ≠ .code := by decide
    exact absurd hcode (hnone f hf)
  have hkey : (Value.text "key").Fits 0 := .text (by decide)
  have htwice : (Value.map [(.text "key", .null), (.text "key", .null)]).Fits 1 :=
    .map (by decide) (by simp [hkey]) (by simp [Value.Fits.null])
  have hempty : (Value.map []).Fits 1 := .map (by decide) (by simp) (by simp)
  refine ⟨harranged _ _ _ arranged_sparseRequest (by decide +kernel), ?_, ?_⟩
  · exact hrefused _ [] _ _ (List.append_nil _ ▸ Spans.of_fits htwice []) rfl (hcodes _)
      ⟨(.text "key" : FieldSpec).secret, by decide, .inl (by unfold FieldSpec.Repeated; decide)⟩
  · exact hrefused _ [] _ _ (List.append_nil _ ▸ Spans.of_fits hempty []) rfl (hcodes _)
      ⟨(.text "key" : FieldSpec).secret, by decide, .inr ⟨rfl, by simp⟩⟩

/-- A reply as it is written, with an unknown field at its end and its return code once more in
front, in a map of one pair. -/
def pairedCodeReply : List (Value × Value) :=
  [(.text "code", .map [(.text "success", .text "a")]), (.text "code", .text "success"),
    (.text "msg", .text "msg"), (.text "pub_key", .text "pub_key"),
    (.text "priv_key", .text "priv_key"), (.text "file_cid", .text "file_cid"),
    (.text "b", .text "")]

theorem arranged_pairedCodeReply :
    Arranged 200 ((shape SetReply).specs.map FieldSpec.slot) Field.toValue
      (toFields (⟨.success, "msg", "pub_key", "priv_key", "file_cid"⟩ : SetReply))
      pairedCodeReply.tail := by
  have hwritten : Arranged 200 ((shape SetReply).specs.map FieldSpec.slot) Field.toValue
      (toFields (⟨.success, "msg", "pub_key", "priv_key", "file_cid"⟩ : SetReply))
      (pairedCodeReply.tail.take 5 ++ []) := .written
  exact hwritten.insert (by decide) (by decide) (.text (by decide))

/-- The return code comes twice, and a reply is read in which every text is the next name. -/
theorem decode_pairedCodeReply :
    Arranged 200 ((shape SetReply).specs.map FieldSpec.slot) Field.toValue
        (toFields (⟨.success, "msg", "pub_key", "priv_key", "file_cid"⟩ : SetReply))
        pairedCodeReply.tail ∧
      (FieldSpec.code "code").Repeated pairedCodeReply ∧
      decode (Value.map pairedCodeReply).encode =
        .ok (⟨.success, "pub_key", "priv_key", "file_cid", "b"⟩ : SetReply) :=
  ⟨arranged_pairedCodeReply, by unfold FieldSpec.Repeated; decide, by decide +kernel⟩

end Payload

end KeyCustody.Wire
