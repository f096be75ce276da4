import KeyCustody.Cbor.Value
import KeyCustody.Proofs.Bytes
import KeyCustody.Proofs.Outcome
import Mathlib.Tactic.IntervalCases
/-!
# Reading what was written

A head that was written is read back, whatever follows it, and so is every value whose numbers and
lengths fit a head and that is not nested too deep. Since the written form of a value is read as
that value, no other value has the same one.

## Main definitions

* `Head.ofNumber`: what a head with a number says.
* `Value.Fits`: values of which every number and every length fits a head, nested at most so deep.

## Main results

* `readHead_encodeHead`: heads.
* `readValue_encode`, `Value.decode_encode`: values.
* `Value.encode_injective`: a written form is that of one value.
-/

namespace KeyCustody.Cbor

/-! ### Heads -/

/-- What a head of the given three bits says with a number. -/
def Head.ofNumber (major n : Nat) : Head :=
  if major = unsignedMajor then .unsigned n
  else if major = negativeMajor then .negative n
  else if major = bytesMajor then .bytes (some n)
  else if major = textMajor then .text (some n)
  else if major = arrayMajor then .array (some n)
  else if major = mapMajor then .map (some n)
  else .tag n

theorem toNat_leadOctet {major info : Nat} (hmajor : major < 8) (hinfo : info < 32) :
    (leadOctet major info).toNat = 32 * major + info := by
  rw [leadOctet, UInt8.toNat_ofNat']
  omega

theorem ofParts_of_number {major info n : Nat} {octets : Bytes} (hmajor : major < 7)
    (hn : headNumber info octets = some n) :
    ofParts major info octets = .ok (.ofNumber major n) := by
  unfold ofParts
  interval_cases major <;> simp only [hn] <;> rfl

theorem readExactly_append (as bs : Bytes) :
    readExactly as.length (as ++ bs) = .ok (as, bs) := by
  simp [readExactly]

theorem readExactly_append_of_length {n : Nat} {as : Bytes} (h : as.length = n) (bs : Bytes) :
    readExactly n (as ++ bs) = .ok (as, bs) := by
  rw [← h, readExactly_append]

/-- A head whose number is in the octets after it. -/
theorem readHead_leadOctet {major info n : Nat} (octets : Bytes) (hmajor : major < 7)
    (hinfo : info < 28) (hlength : octets.length = numberWidth info)
    (hn : headNumber info octets = some n) (rest : Bytes) :
    readHead (leadOctet major info :: (octets ++ rest)) = .ok (.ofNumber major n, rest) := by
  have hlead := toNat_leadOctet (by omega : major < 8) (by omega : info < 32)
  have hdiv : (32 * major + info) / 32 = major := by omega
  have hmod : (32 * major + info) % 32 = info := by omega
  rw [readHead]
  simp only [hlead, hdiv, hmod]
  rw [if_neg (by omega), readExactly_append_of_length hlength, ok_bind, ofParts_of_number hmajor hn,
    ok_bind]
  rfl

/-- A head that was written is read back. -/
theorem readHead_encodeHead (major : Nat) {n : Nat} (hmajor : major < 7) (hn : n < headBound)
    (rest : Bytes) :
    readHead (encodeHead major n ++ rest) = .ok (.ofNumber major n, rest) := by
  have key : ∀ width info : Nat, 24 ≤ info → info < 28 → numberWidth info = width →
      n < 256 ^ width →
      readHead (leadOctet major info :: Bytes.ofNatBE width n ++ rest) =
        .ok (.ofNumber major n, rest) := by
    intro width info hlow hhigh hwidth hlt
    refine readHead_leadOctet _ hmajor hhigh (by rw [Bytes.length_ofNatBE, hwidth]) ?_ rest
    rw [headNumber, if_neg (by omega), if_neg (by omega), Bytes.toNatBE_ofNatBE_of_lt hlt]
  unfold encodeHead
  split_ifs with h1 h2 h3 h4
  · have hwidth : numberWidth n = 0 := by
      unfold numberWidth
      split_ifs <;> omega
    exact readHead_leadOctet [] hmajor (by omega) (by rw [hwidth]; rfl)
      (by rw [headNumber, if_pos h1]) rest
  · exact key 1 24 (by omega) (by omega) rfl h2
  · exact key 2 25 (by omega) (by omega) rfl h3
  · exact key 4 26 (by omega) (by omega) rfl h4
  · exact key 8 27 (by omega) (by omega) rfl hn

theorem length_encodeHead_pos (major n : Nat) : 0 < (encodeHead major n).length := by
  unfold encodeHead
  split_ifs <;> simp

theorem length_encodeHead_le (major n : Nat) : (encodeHead major n).length ≤ 9 := by
  unfold encodeHead
  split_ifs <;> simp

theorem readHead_bool (b : Bool) (rest : Bytes) :
    readHead ((Value.bool b).encode ++ rest) = .ok (.simple (if b then 21 else 20), rest) := by
  cases b <;> simp [Value.encode, readHead, leadOctet, otherMajor, numberWidth, readExactly,
    ofParts, headNumber, pure, Except.pure]

theorem readHead_null (rest : Bytes) :
    readHead (Value.null.encode ++ rest) = .ok (.simple 22, rest) := by
  simp [Value.encode, readHead, leadOctet, otherMajor, numberWidth, readExactly, ofParts,
    headNumber, pure, Except.pure]

/-! ### Strings -/

theorem readSegment_bytes (bs rest : Bytes) :
    readSegment .bytes bs.length (bs ++ rest) = .ok (bs, rest) :=
  readExactly_append bs rest

theorem readSegment_text (s : String) (rest : Bytes) :
    readSegment .text (Bytes.ofText s).length (Bytes.ofText s ++ rest) =
      .ok (Bytes.ofText s, rest) := by
  simp [readSegment, readExactly_append]

@[simp] theorem textOf_ofText (s : String) : textOf (Bytes.ofText s) = s := by
  simp [textOf]

/-! ### Values that fit -/

/-- Every number and every length in the value fits a head, there are no tags and no floating-point
numbers, and arrays and maps are nested at most so deep. -/
inductive Value.Fits : (depth : Nat) → Value → Prop
  | int {depth : Nat} {n : Int} (low : -(headBound : Int) ≤ n) (high : n < headBound) :
      Fits depth (.int n)
  | bytes {depth : Nat} {bs : Bytes} (h : bs.length < headBound) : Fits depth (.bytes bs)
  | text {depth : Nat} {s : String} (h : (Bytes.ofText s).length < headBound) :
      Fits depth (.text s)
  | array {depth : Nat} {items : List Value} (h : items.length < headBound)
      (each : ∀ v ∈ items, Fits depth v) : Fits (depth + 1) (.array items)
  | map {depth : Nat} {pairs : List (Value × Value)} (h : pairs.length < headBound)
      (keys : ∀ p ∈ pairs, Fits depth p.1) (values : ∀ p ∈ pairs, Fits depth p.2) :
      Fits (depth + 1) (.map pairs)
  | bool {depth : Nat} (b : Bool) : Fits depth (.bool b)
  | null {depth : Nat} : Fits depth .null

theorem Value.Fits.mono {depth depth' : Nat} {v : Value} (h : v.Fits depth)
    (hdepth : depth ≤ depth') : v.Fits depth' := by
  induction h generalizing depth' with
  | int low high => exact .int low high
  | bytes h => exact .bytes h
  | text h => exact .text h
  | array h _ ih =>
    obtain ⟨depth', rfl⟩ : ∃ k, depth' = k + 1 := ⟨depth' - 1, by omega⟩
    exact .array h fun v hv => ih v hv (Nat.le_of_succ_le_succ hdepth)
  | map h _ _ ihk ihv =>
    obtain ⟨depth', rfl⟩ : ∃ k, depth' = k + 1 := ⟨depth' - 1, by omega⟩
    exact .map h (fun p hp => ihk p hp (Nat.le_of_succ_le_succ hdepth))
      fun p hp => ihv p hp (Nat.le_of_succ_le_succ hdepth)
  | bool b => exact .bool b
  | null => exact .null

theorem Value.length_encode_pos : (v : Value) → 0 < v.encode.length
  | .int (.ofNat n) => by simpa [Value.encode, encodeInt] using length_encodeHead_pos _ _
  | .int (.negSucc n) => by simpa [Value.encode, encodeInt] using length_encodeHead_pos _ _
  | .bytes bs => by
    have := length_encodeHead_pos bytesMajor bs.length
    simp only [Value.encode, encodeBytes, List.length_append]
    omega
  | .text s => by
    have := length_encodeHead_pos textMajor (Bytes.ofText s).length
    simp only [Value.encode, encodeText, List.length_append]
    omega
  | .array items => by
    have := length_encodeHead_pos arrayMajor items.length
    simp only [Value.encode, List.length_append]
    omega
  | .map pairs => by
    have := length_encodeHead_pos mapMajor pairs.length
    simp only [Value.encode, List.length_append]
    omega
  | .tag n item => by
    have := length_encodeHead_pos tagMajor n
    simp only [Value.encode, List.length_append]
    omega
  | .bool b => by simp [Value.encode]
  | .null => by simp [Value.encode]
  | .float octets => by simp [Value.encode]

/-- What is read of a value that was written: with fuel for its octets, it is read back. -/
def Value.ReadsBack (depth : Nat) (v : Value) : Prop :=
  ∀ (fuel : Nat) (rest : Bytes), 2 * v.encode.length ≤ fuel →
    readValue fuel depth (v.encode ++ rest) = .ok (v, rest)

theorem readValue_int {n : Int} (low : -(headBound : Int) ≤ n) (high : n < headBound)
    (fuel depth : Nat) (rest : Bytes) :
    readValue (fuel + 1) depth ((Value.int n).encode ++ rest) = .ok (.int n, rest) := by
  cases n with
  | ofNat n =>
    have hn : n < headBound := by simpa using high
    rw [readValue, Value.encode, encodeInt, readHead_encodeHead _ (by decide) hn]
    rfl
  | negSucc n =>
    have hn : n < headBound := by omega
    rw [readValue, Value.encode, encodeInt, readHead_encodeHead _ (by decide) hn]
    simp only [ok_bind, Head.ofNumber, negativeMajor, unsignedMajor]
    rw [Int.negSucc_eq]
    simp only [pure, Except.pure, one_ne_zero, if_false, if_true]
    congr 3
    omega

theorem readValue_bytes {bs : Bytes} (h : bs.length < headBound) (fuel depth : Nat)
    (rest : Bytes) :
    readValue (fuel + 1) depth ((Value.bytes bs).encode ++ rest) = .ok (.bytes bs, rest) := by
  rw [readValue, Value.encode, encodeBytes, List.append_assoc,
    readHead_encodeHead _ (by decide) h]
  simp only [ok_bind, Head.ofNumber, bytesMajor, unsignedMajor, negativeMajor, readString]
  simp [readSegment_bytes, pure, Except.pure]

theorem readValue_text {s : String} (h : (Bytes.ofText s).length < headBound) (fuel depth : Nat)
    (rest : Bytes) :
    readValue (fuel + 1) depth ((Value.text s).encode ++ rest) = .ok (.text s, rest) := by
  rw [readValue, Value.encode, encodeText, List.append_assoc, readHead_encodeHead _ (by decide) h]
  simp only [ok_bind, Head.ofNumber, textMajor, bytesMajor, unsignedMajor, negativeMajor,
    readString]
  simp [readSegment_text, pure, Except.pure]

/-- A value without parts is read back with any fuel. -/
theorem readValue_flat {v : Value} (hv : v.Fits 0) (fuel depth : Nat) (rest : Bytes) :
    readValue (fuel + 1) depth (v.encode ++ rest) = .ok (v, rest) := by
  cases hv with
  | int low high => exact readValue_int low high fuel depth rest
  | bytes h => exact readValue_bytes h fuel depth rest
  | text h => exact readValue_text h fuel depth rest
  | bool b =>
    rw [readValue, readHead_bool]
    cases b <;> rfl
  | null =>
    rw [readValue, readHead_null]
    rfl

theorem readsBack_flat {v : Value} (hv : v.Fits 0) (depth : Nat) : v.ReadsBack depth := by
  intro fuel rest hfuel
  have hpos := v.length_encode_pos
  obtain ⟨fuel, rfl⟩ : ∃ k, fuel = k + 1 := ⟨fuel - 1, by omega⟩
  exact readValue_flat hv fuel depth rest

/-- Items that are read back one by one are read back one after another. -/
theorem readItems_encodeItems {depth : Nat} (items : List Value)
    (each : ∀ v ∈ items, Value.ReadsBack depth v) (fuel : Nat) (read : List Value) (rest : Bytes)
    (hfuel : 2 * (encodeItems items).length + 1 ≤ fuel) :
    readItems fuel depth (some items.length) read (encodeItems items ++ rest) =
      .ok (read.reverse ++ items, rest) := by
  induction items generalizing fuel read with
  | nil =>
    obtain ⟨fuel, rfl⟩ : ∃ k, fuel = k + 1 := ⟨fuel - 1, by omega⟩
    simp [readItems, readMore, encodeItems]
  | cons v items ih =>
    have hpos := v.length_encode_pos
    simp only [encodeItems, List.length_append] at hfuel
    obtain ⟨fuel, rfl⟩ : ∃ k, fuel = k + 1 := ⟨fuel - 1, by omega⟩
    have hv := each v List.mem_cons_self fuel (encodeItems items ++ rest) (by omega)
    have hitems := ih (fun w hw => each w (List.mem_cons_of_mem _ hw)) fuel (v :: read) (by omega)
    simp only [readItems, readMore, List.length_cons, encodeItems, List.append_assoc, hv, hitems]
    simp

/-- Pairs whose parts are read back one by one are read back one after another. -/
theorem readPairs_encodePairs {depth : Nat} (pairs : List (Value × Value))
    (keys : ∀ p ∈ pairs, Value.ReadsBack depth p.1)
    (values : ∀ p ∈ pairs, Value.ReadsBack depth p.2) (fuel : Nat) (read : List (Value × Value))
    (rest : Bytes) (hfuel : 2 * (encodePairs pairs).length + 1 ≤ fuel) :
    readPairs fuel depth (some pairs.length) read (encodePairs pairs ++ rest) =
      .ok (read.reverse ++ pairs, rest) := by
  induction pairs generalizing fuel read with
  | nil =>
    obtain ⟨fuel, rfl⟩ : ∃ k, fuel = k + 1 := ⟨fuel - 1, by omega⟩
    simp [readPairs, readMore, encodePairs]
  | cons p pairs ih =>
    obtain ⟨k, v⟩ := p
    have hkpos := k.length_encode_pos
    have hvpos := v.length_encode_pos
    simp only [encodePairs, List.length_append] at hfuel
    obtain ⟨fuel, rfl⟩ : ∃ k, fuel = k + 1 := ⟨fuel - 1, by omega⟩
    have hk := keys (k, v) List.mem_cons_self fuel (v.encode ++ (encodePairs pairs ++ rest))
      (by simp only; omega)
    have hv := values (k, v) List.mem_cons_self fuel (encodePairs pairs ++ rest)
      (by simp only; omega)
    have hpairs := ih (fun w hw => keys w (List.mem_cons_of_mem _ hw))
      (fun w hw => values w (List.mem_cons_of_mem _ hw)) fuel ((k, v) :: read) (by omega)
    simp only [readPairs, readMore, List.length_cons, encodePairs, List.append_assoc, hk, hv,
      hpairs]
    simp

theorem readsBack_array {depth : Nat} {items : List Value} (h : items.length < headBound)
    (each : ∀ v ∈ items, Value.ReadsBack depth v) :
    Value.ReadsBack (depth + 1) (.array items) := by
  intro fuel rest hfuel
  have hhead := length_encodeHead_pos arrayMajor items.length
  simp only [Value.encode, List.length_append] at hfuel
  obtain ⟨fuel, rfl⟩ : ∃ k, fuel = k + 1 := ⟨fuel - 1, by omega⟩
  rw [readValue, Value.encode, List.append_assoc, readHead_encodeHead _ (by decide) h]
  simp only [ok_bind, Head.ofNumber, arrayMajor, textMajor, bytesMajor, unsignedMajor,
    negativeMajor, enter]
  simp [readItems_encodeItems items each fuel [] rest (by omega), pure, Except.pure]

theorem readsBack_map {depth : Nat} {pairs : List (Value × Value)}
    (h : pairs.length < headBound) (keys : ∀ p ∈ pairs, Value.ReadsBack depth p.1)
    (values : ∀ p ∈ pairs, Value.ReadsBack depth p.2) :
    Value.ReadsBack (depth + 1) (.map pairs) := by
  intro fuel rest hfuel
  have hhead := length_encodeHead_pos mapMajor pairs.length
  simp only [Value.encode, List.length_append] at hfuel
  obtain ⟨fuel, rfl⟩ : ∃ k, fuel = k + 1 := ⟨fuel - 1, by omega⟩
  rw [readValue, Value.encode, List.append_assoc, readHead_encodeHead _ (by decide) h]
  simp only [ok_bind, Head.ofNumber, mapMajor, arrayMajor, textMajor, bytesMajor, unsignedMajor,
    negativeMajor, enter]
  simp [readPairs_encodePairs pairs keys values fuel [] rest (by omega), pure, Except.pure]

/-- **A value that fits is read back**, whatever follows it. -/
theorem readValue_encode {depth : Nat} {v : Value} (hv : v.Fits depth) : v.ReadsBack depth := by
  induction hv with
  | int low high => exact readsBack_flat (.int low high) _
  | bytes h => exact readsBack_flat (.bytes h) _
  | text h => exact readsBack_flat (.text h) _
  | array h _ ih => exact readsBack_array h ih
  | map h _ _ ihk ihv => exact readsBack_map h ihk ihv
  | bool b => exact readsBack_flat (.bool b) _
  | null => exact readsBack_flat .null _

/-- **A document is read as the value that was written**, whatever follows it. -/
theorem Value.decode_encode {v : Value} (hv : v.Fits depthLimit) (rest : Bytes) :
    Value.decode (v.encode ++ rest) = .ok v := by
  have hfuel : 2 * v.encode.length ≤ fuelFor (v.encode ++ rest) := by
    rw [fuelFor, List.length_append]
    omega
  rw [Value.decode, readValue_encode hv _ rest hfuel]
  rfl

/-- A written form is that of one value. -/
theorem Value.encode_injective {v w : Value} (hv : v.Fits depthLimit) (hw : w.Fits depthLimit)
    (h : v.encode = w.encode) : v = w := by
  have hread := Value.decode_encode hv []
  rw [h, Value.decode_encode hw []] at hread
  exact (Except.ok.inj hread).symm

end KeyCustody.Cbor
