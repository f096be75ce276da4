import KeyCustody.Proofs.Cbor.Record
import KeyCustody.Wire.Payload
/-!
# Payloads on the wire

A payload is read back from its octets, whatever follows them, if there are not more octets than a
head can count. The description of its record decides that: the contents of the fields are of the
kinds announced, the names are distinct and short, and the fields make up the record again.

## Main definitions

* `LawfulPayload`: descriptions of records that can be read back.

## Main results

* `reads_readField`: the contents of a field.
* `Payload.reads_readShape_map`: the fields of a record in any arrangement.
* `Payload.decode_encode`: payloads.
-/

namespace KeyCustody.Wire

open Cbor (Reads Value headBound longestName)

/-! ### Fields -/

theorem recordValue_map {φ : Type} (specs : List FieldSpec) (form : φ → Value) (values : List φ) :
    recordValue specs (values.map form) =
      .map (Cbor.writtenPairs form (specs.map FieldSpec.name) values) := by
  simp [recordValue, Cbor.writtenPairs, List.zipWith_map_left, List.zipWith_map_right]

theorem map_name_slot (specs : List FieldSpec) :
    (specs.map FieldSpec.slot).map Cbor.Slot.name = specs.map FieldSpec.name := by
  rw [List.map_map]
  rfl

/-- A stored key is read back. -/
theorem reads_readSocialKey {fuel depth : Nat} {k : SocialKey}
    (hlength : k.toValue.encode.length < headBound) (hfuel : 2 * k.toValue.encode.length < fuel) :
    Reads (readSocialKey fuel (depth + 1)) k.toValue.encode k := by
  let slots : List (Cbor.Slot String) := socialKeyFields.map fun f => ⟨f.name, none⟩
  obtain ⟨ps, hps⟩ : ∃ ps, ps =
      Cbor.writtenPairs Value.text (slots.map Cbor.Slot.name) [k.id, k.key] := ⟨_, rfl⟩
  have hvalue : k.toValue = .map ps := hps ▸ rfl
  have hwritten : Cbor.Arranged 0 slots Value.text [k.id, k.key] ps := hps ▸ .written
  rw [hvalue] at hlength hfuel ⊢
  have hpairs := Cbor.length_encodePairs_lt ps
  have hcount := Cbor.length_le_encodePairs ps
  have hread : Reads (Cbor.readRecord slots (fun _ _ => Cbor.readText fuel) fuel (depth + 1)) _
      [k.id, k.key] :=
    hwritten.reads_readRecord (by decide) (by decide) rfl (Nat.zero_le _) (by omega) (by omega)
      fun i s _ hle => by
        have := Cbor.length_ofText_le_encode s
        exact Cbor.reads_readText (by omega) (by omega)
  intro rest
  rw [readSocialKey, hread rest]
  rfl

/-- The kind of what stands in a field. -/
def Field.kind : Field → FieldKind
  | .text _ => .text
  | .flag _ => .flag
  | .code _ => .code
  | .keys _ => .keys

/-- The contents of a field are read back. -/
theorem reads_readField {fuel : Nat} (depth : Nat) {f : Field}
    (hlength : f.toValue.encode.length < headBound) (hfuel : 2 * f.toValue.encode.length < fuel) :
    Reads (readField f.kind fuel (depth + 2)) f.toValue.encode f := by
  have hpos : 0 < fuel := by omega
  intro rest
  cases f with
  | text s =>
    have := Cbor.length_ofText_le_encode s
    simp only [Field.toValue] at hlength ⊢
    rw [Field.kind, readField, Cbor.reads_readText hpos (by omega)]
    rfl
  | flag b =>
    simp only [Field.toValue]
    rw [Field.kind, readField, Cbor.reads_readBool hpos]
    rfl
  | code c =>
    have hchoice : Reads (Cbor.readChoice codeChoices fuel (depth + 1 + 1))
        (Value.text c.name).encode c :=
      Cbor.reads_readChoice (c := (c.name, c)) hpos (by cases c <;> decide) (by cases c <;> decide)
    simp only [Field.toValue]
    rw [Field.kind, readField, hchoice]
    rfl
  | keys ks =>
    simp only [Field.toValue] at hlength hfuel ⊢
    obtain ⟨hcount, hitems⟩ := Cbor.length_le_encode_array (ks.map SocialKey.toValue)
    rw [List.length_map] at hcount
    have hlist : Reads (Cbor.readList (readSocialKey fuel) fuel (depth + 1 + 1))
        (Value.array (ks.map SocialKey.toValue)).encode ks := by
      refine Cbor.reads_readList (by omega) (by omega) fun k hk => ?_
      have hk := hitems _ (List.mem_map_of_mem hk)
      exact reads_readSocialKey (by omega) (by omega)
    rw [Field.kind, readField, hlist]
    rfl

/-! ### Payloads -/

/-- The fields of a form. -/
def Shape.specs : Shape → List FieldSpec
  | .code => [.code ""]
  | .record specs => specs

/-- The description fits its records: the contents of the fields are of the kinds announced, the
names are distinct and short, and a record is made up of its fields. -/
class LawfulPayload (α : Type) [Payload α] : Prop where
  kinds (a : α) : (Payload.toFields a).map Field.kind = (Payload.shape α).specs.map FieldSpec.kind
  names : ((Payload.shape α).specs.map FieldSpec.name).Nodup
  short : ∀ f ∈ (Payload.shape α).specs, (Bytes.ofText f.name).length ≤ longestName
  restored (a : α) : Payload.ofFields? (Payload.toFields a) = some a

instance : LawfulPayload ReturnCode := ⟨fun _ => rfl, by decide, by decide, fun _ => rfl⟩

instance : LawfulPayload SupportRequest := ⟨fun _ => rfl, by decide, by decide, fun _ => rfl⟩

instance : LawfulPayload SupportReply := ⟨fun _ => rfl, by decide, by decide, fun _ => rfl⟩

instance : LawfulPayload GetRequest := ⟨fun _ => rfl, by decide, by decide, fun _ => rfl⟩

instance : LawfulPayload SocialKey := ⟨fun _ => rfl, by decide, by decide, fun _ => rfl⟩

instance : LawfulPayload GetReply := ⟨fun _ => rfl, by decide, by decide, fun _ => rfl⟩

instance : LawfulPayload SetRequest := ⟨fun _ => rfl, by decide, by decide, fun _ => rfl⟩

instance : LawfulPayload SetReply := ⟨fun _ => rfl, by decide, by decide, fun _ => rfl⟩

namespace Payload

variable {α : Type} [Payload α] [LawfulPayload α]

/-- The fields of a payload are read back from its pairs in any arrangement. -/
theorem reads_readShape_map {nesting fuel depth : Nat} {specs : List FieldSpec} {a : α}
    {ps : List (Value × Value)} (hshape : shape α = .record specs)
    (h : Cbor.Arranged nesting (specs.map FieldSpec.slot) Field.toValue (toFields a) ps)
    (hnesting : nesting ≤ depth + 2) (hlength : (Value.map ps).encode.length < headBound)
    (hfuel : 2 * (Value.map ps).encode.length < fuel) :
    Reads (readShape (shape α) fuel (depth + 3)) (Value.map ps).encode (toFields a) := by
  have hkinds := LawfulPayload.kinds a
  have hnames := LawfulPayload.names (α := α)
  have hshort := LawfulPayload.short (α := α)
  rw [hshape] at hkinds hnames hshort ⊢
  simp only [Shape.specs] at hkinds hnames hshort
  have hcount : (toFields a).length = (specs.map FieldSpec.slot).length := by
    simpa using congrArg List.length hkinds
  have hpairs := Cbor.length_encodePairs_lt ps
  have hps := Cbor.length_le_encodePairs ps
  refine h.reads_readRecord (map_name_slot specs ▸ hnames) ?_ hcount hnesting (by omega)
    (by omega) ?_
  · intro s hs
    obtain ⟨f, hf, rfl⟩ := List.mem_map.1 hs
    exact hshort f hf
  · intro i f hf hle
    have hkind : (specs.map FieldSpec.kind).getD i .text = f.kind := by
      rw [← hkinds, List.getD_eq_getElem?_getD, List.getElem?_map, hf]
      rfl
    rw [hkind]
    exact reads_readField _ (by omega) (by omega)

/-- The fields of a payload are read back. -/
theorem reads_readShape {fuel : Nat} (depth : Nat) {a : α} (hlength : (encode a).length < headBound)
    (hfuel : 2 * (encode a).length < fuel) :
    Reads (readShape (shape α) fuel (depth + 3)) (encode a) (toFields a) := by
  have hkinds := LawfulPayload.kinds a
  cases hshape : shape α with
  | code =>
    simp only [encode, toValue, hshape] at hkinds hlength hfuel ⊢
    obtain ⟨f, hfields, hf⟩ := List.map_eq_singleton_iff.1 hkinds
    simp only [hfields, List.map_cons, List.headD_cons] at hlength hfuel ⊢
    intro rest
    have hread := reads_readField (depth + 1) hlength hfuel rest
    rw [hf] at hread
    simp only [FieldSpec.code] at hread
    rw [readShape, hread]
    rfl
  | record specs =>
    have hvalue : toValue a = .map (Cbor.writtenPairs Field.toValue
        ((specs.map FieldSpec.slot).map Cbor.Slot.name) (toFields a)) := by
      simp only [toValue, hshape, recordValue_map, map_name_slot]
    simp only [encode, hvalue] at hlength hfuel ⊢
    rw [← hshape]
    exact reads_readShape_map hshape .written (Nat.zero_le _) hlength hfuel

/-- **A payload is read back from its octets**, whatever follows them. -/
theorem decode_encode (a : α) (h : (encode a).length < headBound) (rest : Bytes) :
    decode (encode a ++ rest) = .ok a := by
  have hfuel : 2 * (encode a).length < Cbor.fuelFor (encode a ++ rest) := by
    rw [Cbor.fuelFor, List.length_append]
    omega
  have hread := reads_readShape 253 h hfuel rest
  rw [decode, Cbor.depthLimit, hread, ok_bind]
  simp only [LawfulPayload.restored]
  rfl

/-- Octets of a payload are those of one payload. -/
theorem eq_of_decode_encode {a b : α} (h : (encode a).length < headBound)
    (hb : decode (encode a) = .ok b) : b = a := by
  have ha := decode_encode a h []
  rw [List.append_nil] at ha
  exact Except.ok.inj (hb.symm.trans ha)

end Payload

end KeyCustody.Wire
