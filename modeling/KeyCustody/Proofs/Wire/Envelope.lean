import KeyCustody.Proofs.Cbor.Length
import KeyCustody.Wire.Envelope
/-!
# Envelopes on the wire

An envelope whose texts and octets a head can count is read back from its octets, and two of them
with the same octets to sign differ at most in their signatures. An envelope that is read is of the
version that nodes speak, and its fields are no longer than the octets it is read from, so that the
one condition on lengths is met by everything that arrives.

## Main definitions

* `Envelope.cleared`: the envelope without its signature.
* `Envelope.items`: the values that an envelope is written as.
* `Envelope.Countable`: a head can count the texts and the octets of the envelope.

## Main results

* `Envelope.ofItems_eq_ok`: an envelope is made up of its own items only.
* `Envelope.decode_octets`: an envelope is read back.
* `Envelope.eq_of_signingBytes`: what is signed is the envelope.
* `Envelope.length_octets_of_decode`: what arrives is countable.
-/

namespace KeyCustody.Wire.Envelope

open Cbor (Value headBound)

/-- The envelope without its signature. -/
def cleared (env : Envelope) : Envelope := { env with signature := [] }

@[simp] theorem messageId_cleared (env : Envelope) : env.cleared.messageId = env.messageId := rfl

@[simp] theorem payload_cleared (env : Envelope) : env.cleared.payload = env.payload := rfl

@[simp] theorem nodeId_cleared (env : Envelope) : env.cleared.nodeId = env.nodeId := rfl

@[simp] theorem kind_cleared (env : Envelope) : env.cleared.kind = env.kind := rfl

/-- What is signed is the form of the envelope with its signature cleared. -/
theorem signingBytes_eq (env : Envelope) : env.signingBytes = env.cleared.octets := rfl

@[simp] theorem signingBytes_cleared (env : Envelope) :
    env.cleared.signingBytes = env.signingBytes := rfl

/-- The values that an envelope is written as, one for each field. -/
def items (env : Envelope) : List Value :=
  [.text env.version, .text env.clientVersion, .text env.nodeId, .int env.timestamp.toNat,
    .text env.messageId, .bool env.gossip, .int env.kind.code, .bytes env.payload,
    .bytes env.signature]

theorem octets_eq (env : Envelope) : env.octets = (Value.array env.items).encode := rfl

/-! ### Countable envelopes -/

/-- A head can count the texts and the octets of the envelope. -/
structure Countable (env : Envelope) : Prop where
  version : (Bytes.ofText env.version).length < headBound
  clientVersion : (Bytes.ofText env.clientVersion).length < headBound
  nodeId : (Bytes.ofText env.nodeId).length < headBound
  messageId : (Bytes.ofText env.messageId).length < headBound
  payload : env.payload.length < headBound
  signature : env.signature.length < headBound

namespace Countable

variable {env : Envelope}

theorem fits_items (h : env.Countable) (depth : Nat) : ∀ v ∈ env.items, v.Fits depth := by
  have htime := env.timestamp.toNat_lt
  have hbound : (headBound : Int) = 2 ^ 64 := rfl
  intro v hv
  simp only [items, List.mem_cons, List.not_mem_nil, or_false] at hv
  rcases hv with rfl | rfl | rfl | rfl | rfl | rfl | rfl | rfl | rfl
  · exact .text h.version
  · exact .text h.clientVersion
  · exact .text h.nodeId
  · exact .int (by omega) (by omega)
  · exact .text h.messageId
  · exact .bool _
  · exact .int (by omega) (by cases env.kind <;> simp [MessageKind.code, headBound])
  · exact .bytes h.payload
  · exact .bytes h.signature

theorem fits (h : env.Countable) : (Value.array env.items).Fits Cbor.depthLimit :=
  .array (by simp [items, headBound]) (h.fits_items _)

end Countable

/-- An envelope of countable octets is countable. -/
theorem countable_of_length {env : Envelope} (h : env.octets.length < headBound) :
    env.Countable := by
  have hitems : ∀ v ∈ env.items, v.encode.length < headBound := fun v hv =>
    lt_of_le_of_lt ((Cbor.length_le_encode_array _).2 v hv) h
  have htext : ∀ s, (Value.text s).encode.length < headBound →
      (Bytes.ofText s).length < headBound := fun s hs =>
    lt_of_le_of_lt (Cbor.length_ofText_le_encode s) hs
  have hbytes : ∀ bs : Bytes, (Value.bytes bs).encode.length < headBound →
      bs.length < headBound := fun bs hbs =>
    lt_of_le_of_lt (Cbor.length_le_encode_bytes bs) hbs
  simp only [items, List.forall_mem_cons] at hitems
  obtain ⟨h0, h1, h2, -, h4, -, -, h7, h8, -⟩ := hitems
  exact ⟨htext _ h0, htext _ h1, htext _ h2, htext _ h4, hbytes _ h7, hbytes _ h8⟩

/-- The octets of a countable envelope with at most so many in its fields are not many more. -/
theorem length_octets_le (env : Envelope) {n : Nat} (hv : (Bytes.ofText env.version).length ≤ n)
    (hc : (Bytes.ofText env.clientVersion).length ≤ n) (hi : (Bytes.ofText env.nodeId).length ≤ n)
    (hm : (Bytes.ofText env.messageId).length ≤ n) (hp : env.payload.length ≤ n)
    (hs : env.signature.length ≤ n) : env.octets.length ≤ 6 * n + 90 := by
  have hhead := Cbor.length_encodeHead_le
  have h0 := hhead Cbor.textMajor (Bytes.ofText env.version).length
  have h1 := hhead Cbor.textMajor (Bytes.ofText env.clientVersion).length
  have h2 := hhead Cbor.textMajor (Bytes.ofText env.nodeId).length
  have h3 := hhead Cbor.unsignedMajor env.timestamp.toNat
  have h4 := hhead Cbor.textMajor (Bytes.ofText env.messageId).length
  have h6 := hhead Cbor.unsignedMajor env.kind.code
  have h7 := hhead Cbor.bytesMajor env.payload.length
  have h8 := hhead Cbor.bytesMajor env.signature.length
  have h9 := hhead Cbor.arrayMajor 9
  simp only [octets, toValue, Value.encode, Cbor.encodeItems, Cbor.encodeText, Cbor.encodeBytes,
    Cbor.encodeInt, List.length_append, List.length_cons, List.length_nil, Nat.reduceAdd]
  omega

/-! ### Reading -/

theorem checkSize_eq_ok {size : Nat} : checkSize size = .ok () ↔ size ≤ largestEnvelope := by
  unfold checkSize
  split_ifs <;> simp <;> omega

theorem encode?_eq (env : Envelope) : env.encode? =
    if env.octets.length ≤ largestEnvelope then .ok env.octets
    else .error (.tooLarge env.octets.length) := by
  rw [encode?, checkSize]
  by_cases hsize : env.octets.length ≤ largestEnvelope
  · rw [if_neg (Nat.not_lt.2 hsize), if_pos hsize]
    rfl
  · rw [if_pos (Nat.lt_of_not_le hsize), if_neg hsize]
    rfl

theorem encode?_eq_ok {env : Envelope} {bs : Bytes} :
    env.encode? = .ok bs ↔ env.octets.length ≤ largestEnvelope ∧ env.octets = bs := by
  rw [encode?_eq]
  split_ifs with hsize <;> simp [hsize]

theorem textOf_eq_ok {v : Value} {s : String} : textOf v = .ok s ↔ v = .text s := by
  cases v <;> simp [textOf, eq_comm]

theorem bytesOf_eq_ok {v : Value} {bs : Bytes} : bytesOf v = .ok bs ↔ v = .bytes bs := by
  cases v <;> simp [bytesOf, eq_comm]

@[simp] theorem field_eq_ok {α : Type} {x : Except DecodeError α} {a : α} :
    field x = .ok a ↔ x = .ok a := by
  cases x <;> simp [field]

theorem boolOf_eq_ok {v : Value} {b : Bool} : boolOf v = .ok b ↔ v = .bool b := by
  cases v <;> simp [boolOf, eq_comm]

theorem numberOf_eq_ok {bound n : Nat} {overflow : DecodeError} {v : Value} :
    numberOf bound overflow v = .ok n ↔ v = .int n ∧ n < bound := by
  cases v with
  | int i =>
    cases i with
    | ofNat m =>
      simp only [numberOf, Value.int.injEq, Int.ofNat_eq_natCast, Int.natCast_inj]
      split_ifs <;> simp <;> omega
    | negSucc m => simp [numberOf]
  | _ => simp [numberOf]

theorem kindOf_code (k : MessageKind) : kindOf k.code = .ok k := by
  rw [kindOf, MessageKind.ofCode?_code]

theorem kindOf_eq_ok {n : Nat} {k : MessageKind} : kindOf n = .ok k ↔ n = k.code := by
  refine ⟨fun h => ?_, fun h => h ▸ kindOf_code k⟩
  unfold kindOf MessageKind.ofCode? at h
  split_ifs at h <;> cases h <;> assumption

/-- The items of an envelope make it up again if it is of the version that nodes speak; any other
version is refused. -/
theorem ofItems_items (env : Envelope) : ofItems env.items =
    if env.version = protocolVersion then .ok env
    else .error (.unsupportedVersion env.version) := by
  have htime : numberOf (Nat.pow 2 64) .overflow64 (.int env.timestamp.toNat) =
      .ok env.timestamp.toNat :=
    numberOf_eq_ok.2 ⟨rfl, env.timestamp.toNat_lt⟩
  have hkind : numberOf (Nat.pow 2 16) .overflow16 (.int env.kind.code) = .ok env.kind.code :=
    numberOf_eq_ok.2 ⟨rfl, by cases env.kind <;> decide⟩
  simp only [items, ofItems, textOf, boolOf, bytesOf, htime, hkind, field, ok_bind, kindOf_code]
  by_cases hversion : env.version = protocolVersion
  · rw [if_neg (not_not.2 hversion), if_pos hversion]
    simp [pure, Except.pure]
  · rw [if_pos hversion, if_neg hversion]
    rfl

/-- **An envelope is made up of its own items only**, and is of the version that nodes speak. -/
theorem ofItems_eq_ok {vs : List Value} {env : Envelope} :
    ofItems vs = .ok env ↔ env.version = protocolVersion ∧ vs = env.items := by
  constructor
  · intro h
    unfold ofItems at h
    split at h
    · rename_i v0 v1 v2 v3 v4 v5 v6 v7 v8
      obtain ⟨version, h0, h⟩ := bind_eq_ok.1 h
      by_cases hversion : version = protocolVersion
      · simp only [hversion, ne_eq, not_true_eq_false, if_false] at h
        obtain ⟨clientVersion, h1, h⟩ := bind_eq_ok.1 h
        obtain ⟨nodeId, h2, h⟩ := bind_eq_ok.1 h
        obtain ⟨timestamp, h3, h⟩ := bind_eq_ok.1 h
        obtain ⟨messageId, h4, h⟩ := bind_eq_ok.1 h
        obtain ⟨gossip, h5, h⟩ := bind_eq_ok.1 h
        obtain ⟨code, h6, h⟩ := bind_eq_ok.1 h
        obtain ⟨kind, hkind, h⟩ := bind_eq_ok.1 h
        obtain ⟨payload, h7, h⟩ := bind_eq_ok.1 h
        obtain ⟨signature, h8, hmade⟩ := bind_eq_ok.1 h
        simp only [field_eq_ok, textOf_eq_ok, bytesOf_eq_ok, boolOf_eq_ok, numberOf_eq_ok,
          kindOf_eq_ok] at h0 h1 h2 h3 h4 h5 h6 h7 h8 hkind
        obtain ⟨rfl, htime⟩ := h3
        obtain ⟨rfl, -⟩ := h6
        subst hversion h0 h1 h2 h4 h5 h7 h8 hkind
        cases hmade
        refine ⟨rfl, ?_⟩
        rw [items, UInt64.toNat_ofNat_of_lt' htime]
      · simp only [hversion, ne_eq, not_false_eq_true, if_true] at h
        cases h
    · cases h
  · rintro ⟨hversion, rfl⟩
    rw [ofItems_items, if_pos hversion]

/-- **An envelope is read from its octets**, if they are not too many, as it was written; of another
version than the one that nodes speak it is refused. -/
theorem decode_octets_eq {env : Envelope} (hsize : env.octets.length ≤ largestEnvelope) :
    decode env.octets = if env.version = protocolVersion then .ok env
      else .error (.unsupportedVersion env.version) := by
  have hcountable : env.Countable :=
    countable_of_length (lt_of_le_of_lt hsize (by decide))
  have hread := Value.decode_encode hcountable.fits []
  rw [List.append_nil] at hread
  rw [decode, checkSize_eq_ok.2 hsize, ok_bind, octets_eq, hread]
  exact ofItems_items env

theorem decode_octets {env : Envelope} (hversion : env.version = protocolVersion)
    (hsize : env.octets.length ≤ largestEnvelope) : decode env.octets = .ok env := by
  rw [decode_octets_eq hsize, if_pos hversion]

/-- The fields of an envelope are as long as its items. -/
theorem length_le_of_items {env : Envelope} {n : Nat}
    (hlength : ∀ v ∈ env.items, v.contentLength ≤ n) :
    (Bytes.ofText env.version).length ≤ n ∧ (Bytes.ofText env.clientVersion).length ≤ n ∧
      (Bytes.ofText env.nodeId).length ≤ n ∧ (Bytes.ofText env.messageId).length ≤ n ∧
      env.payload.length ≤ n ∧ env.signature.length ≤ n := by
  simp only [items, List.forall_mem_cons] at hlength
  obtain ⟨h0, h1, h2, -, h4, -, -, h7, h8, -⟩ := hlength
  exact ⟨h0, h1, h2, h4, h7, h8⟩

/-- Octets that are read as an envelope are not too many, and are an array of its items. -/
theorem items_of_decode {bs : Bytes} {env : Envelope} (h : decode bs = .ok env) :
    bs.length ≤ largestEnvelope ∧ env.version = protocolVersion ∧
      Value.decode bs = .ok (.array env.items) := by
  rw [decode] at h
  obtain ⟨⟨⟩, hsize, h⟩ := bind_eq_ok.1 h
  refine ⟨checkSize_eq_ok.1 hsize, ?_⟩
  split at h
  · rename_i vs hread
    obtain ⟨hversion, rfl⟩ := ofItems_eq_ok.1 h
    exact ⟨hversion, hread⟩
  · cases h
  · cases h

theorem length_le_of_decode {bs : Bytes} {env : Envelope} (h : decode bs = .ok env) :
    bs.length ≤ largestEnvelope :=
  (items_of_decode h).1

theorem version_of_decode {bs : Bytes} {env : Envelope} (h : decode bs = .ok env) :
    env.version = protocolVersion :=
  (items_of_decode h).2.1

/-- The octets of what arrives can be counted by a head, whatever form it arrived in, with its
signature and without. -/
theorem length_octets_of_decode {bs : Bytes} {env : Envelope} (h : decode bs = .ok env) :
    env.octets.length < headBound ∧ env.cleared.octets.length < headBound := by
  obtain ⟨hsize, -, hread⟩ := items_of_decode h
  obtain ⟨h0, h1, h2, h4, h7, h8⟩ :=
    length_le_of_items (Cbor.contentLength_of_decode_array hread)
  have hwhole := length_octets_le env h0 h1 h2 h4 h7 h8
  have hcleared := length_octets_le env.cleared h0 h1 h2 h4 h7 (Nat.zero_le _)
  have hbound : headBound = 2 ^ 64 := rfl
  have hlargest : largestEnvelope = 65536 := rfl
  omega

theorem countable_of_decode {bs : Bytes} {env : Envelope} (h : decode bs = .ok env) :
    env.Countable :=
  countable_of_length (length_octets_of_decode h).1

/-! ### Signatures -/

/-- The octets of an envelope are those of no other countable one. -/
theorem eq_of_octets {env env' : Envelope} (henv : env.Countable) (henv' : env'.Countable)
    (h : env.octets = env'.octets) : env = env' := by
  have hvalue := Value.encode_injective henv.fits henv'.fits h
  simp only [items, Value.array.injEq, List.cons.injEq, Value.text.injEq, Value.int.injEq,
    Value.bool.injEq, Value.bytes.injEq] at hvalue
  obtain ⟨h0, h1, h2, h3, h4, h5, h6, h7, h8, -⟩ := hvalue
  have htime : env.timestamp = env'.timestamp := UInt64.toNat_inj.1 (by omega)
  have hkind : env.kind = env'.kind := by
    have : env.kind.code = env'.kind.code := by omega
    have := congrArg MessageKind.ofCode? this
    simpa [MessageKind.ofCode?_code] using this
  cases env
  cases env'
  simp_all

/-- **What is signed is the envelope**: one that arrives has the octets to sign of no other, up to
the signature. -/
theorem eq_of_signingBytes {bs : Bytes} {env env' : Envelope} (henv : decode bs = .ok env)
    (h : env.signingBytes = env'.signingBytes) : env.cleared = env'.cleared := by
  have hlength := (length_octets_of_decode henv).2
  have hlength' : env'.cleared.octets.length < headBound := by
    rw [← signingBytes_eq, ← h]
    exact hlength
  exact eq_of_octets (countable_of_length hlength) (countable_of_length hlength') h

end KeyCustody.Wire.Envelope
