import KeyCustody.Cbor.Typed
import KeyCustody.Proofs.Cbor.Value
import Mathlib.Data.List.Nodup
/-!
# Reading what was written for a wanted type

The readers of texts, truth values, choices and lists give back what was written, whatever follows
it. In a record a field is read after its name.

## Main definitions

* `Reads`: a reader takes given octets, and no more, for a given thing.

## Main results

* `reads_readText`, `reads_readBool`, `reads_readChoice`: single items.
* `reads_readList`: lists.
* `readFields_cons`: one field of a record.
-/

namespace KeyCustody.Cbor

variable {α φ : Type}

/-- The reader takes the octets for `a`, whatever follows them. -/
def Reads (read : Bytes → Except ReadError (α × Bytes)) (octets : Bytes) (a : α) : Prop :=
  ∀ rest : Bytes, read (octets ++ rest) = .ok (a, rest)

/-! ### Single items -/

/-- A head that is no tag is read as it stands. -/
theorem readUntagged_of_readHead {fuel : Nat} {bs rest : Bytes} {head : Head}
    (h : readHead bs = .ok (head, rest)) (htag : ∀ n, head ≠ .tag n) :
    readUntagged (fuel + 1) bs = .ok (head, rest) := by
  rw [readUntagged, h]
  cases head <;> simp_all

theorem reads_readText {fuel : Nat} (hfuel : 0 < fuel) {s : String}
    (hs : (Bytes.ofText s).length < headBound) :
    Reads (readText fuel) (Value.text s).encode s := by
  intro rest
  obtain ⟨fuel, rfl⟩ : ∃ k, fuel = k + 1 := ⟨fuel - 1, by omega⟩
  have hhead := readHead_encodeHead textMajor (by decide) hs (Bytes.ofText s ++ rest)
  rw [← List.append_assoc] at hhead
  rw [readText, Value.encode, encodeText, readUntagged_of_readHead hhead (by simp [Head.ofNumber,
    textMajor, unsignedMajor, negativeMajor, bytesMajor])]
  simp [Head.ofNumber, textMajor, unsignedMajor, negativeMajor, bytesMajor, readString,
    readSegment_text, pure, Except.pure]

theorem reads_readBool {fuel : Nat} (hfuel : 0 < fuel) (b : Bool) :
    Reads (readBool fuel) (Value.bool b).encode b := by
  intro rest
  obtain ⟨fuel, rfl⟩ : ∃ k, fuel = k + 1 := ⟨fuel - 1, by omega⟩
  rw [readBool, readUntagged_of_readHead (readHead_bool b rest) (by simp)]
  cases b <;> rfl

theorem reads_readName {fuel : Nat} (hfuel : 0 < fuel) {s : String}
    (hs : (Bytes.ofText s).length ≤ longestName) :
    Reads (readName fuel) (Value.text s).encode (Bytes.ofText s) := by
  intro rest
  obtain ⟨fuel, rfl⟩ : ∃ k, fuel = k + 1 := ⟨fuel - 1, by omega⟩
  have hlt : (Bytes.ofText s).length < headBound := lt_of_le_of_lt hs (by decide)
  have hhead := readHead_encodeHead textMajor (by decide) hlt (Bytes.ofText s ++ rest)
  rw [← List.append_assoc] at hhead
  rw [readName, Value.encode, encodeText, readUntagged_of_readHead hhead (by simp [Head.ofNumber,
    textMajor, unsignedMajor, negativeMajor, bytesMajor])]
  simp [Head.ofNumber, textMajor, unsignedMajor, negativeMajor, bytesMajor, hs, readSegment_text]

/-- The name of a choice is read as the choice. -/
theorem reads_readChoice {choices : List (String × α)} {fuel depth : Nat} (hfuel : 0 < fuel)
    {c : String × α} (hc : choices.find? (fun d => Bytes.ofText d.1 == Bytes.ofText c.1) = some c)
    (hs : (Bytes.ofText c.1).length ≤ longestName) :
    Reads (readChoice choices fuel (depth + 1)) (Value.text c.1).encode c.2 := by
  intro rest
  have hname := reads_readName hfuel hs rest
  obtain ⟨fuel, rfl⟩ : ∃ k, fuel = k + 1 := ⟨fuel - 1, by omega⟩
  have hlt : (Bytes.ofText c.1).length < headBound := lt_of_le_of_lt hs (by decide)
  have hhead := readHead_encodeHead textMajor (by decide) hlt (Bytes.ofText c.1 ++ rest)
  rw [← List.append_assoc] at hhead
  have hselect : readChoice.select (fuel + 1) ((Value.text c.1).encode ++ rest) =
      .ok ((Value.text c.1).encode ++ rest) := by
    rw [readChoice.select, Value.encode, encodeText, hhead]
    rfl
  rw [readChoice, hselect]
  simp only [ok_bind, enter, hname, hc]
  rfl

/-! ### Lists -/

/-- Items that are read one by one are read one after another. -/
theorem readElements_encodeItems {item : Bytes → Except ReadError (α × Bytes)} {form : α → Value}
    (as : List α) (each : ∀ a ∈ as, Reads item (form a).encode a) (fuel : Nat) (read : List α)
    (rest : Bytes) (hfuel : as.length < fuel) :
    readElements item fuel (some as.length) read (encodeItems (as.map form) ++ rest) =
      .ok (read.reverse ++ as, rest) := by
  induction as generalizing fuel read with
  | nil =>
    obtain ⟨fuel, rfl⟩ : ∃ k, fuel = k + 1 := ⟨fuel - 1, by omega⟩
    simp [readElements, readMore, encodeItems]
  | cons a as ih =>
    simp only [List.length_cons] at hfuel
    obtain ⟨fuel, rfl⟩ : ∃ k, fuel = k + 1 := ⟨fuel - 1, by omega⟩
    have ha := each a List.mem_cons_self (encodeItems (as.map form) ++ rest)
    have has := ih (fun b hb => each b (List.mem_cons_of_mem _ hb)) fuel (a :: read) (by omega)
    simp only [readElements, readMore, List.length_cons, List.map_cons, encodeItems,
      List.append_assoc, ha, has]
    simp

theorem reads_readList {item : Nat → Bytes → Except ReadError (α × Bytes)} {form : α → Value}
    {fuel depth : Nat} {as : List α} (hfuel : as.length < fuel) (hlength : as.length < headBound)
    (each : ∀ a ∈ as, Reads (item depth) (form a).encode a) :
    Reads (readList item fuel (depth + 1)) (Value.array (as.map form)).encode as := by
  intro rest
  have hitems := readElements_encodeItems as each fuel [] rest hfuel
  obtain ⟨fuel, rfl⟩ : ∃ k, fuel = k + 1 := ⟨fuel - 1, by omega⟩
  have hhead := readHead_encodeHead arrayMajor (by decide) hlength
    (encodeItems (as.map form) ++ rest)
  rw [← List.append_assoc] at hhead
  rw [readList, Value.encode, List.length_map, readUntagged_of_readHead hhead (by simp
    [Head.ofNumber, arrayMajor, textMajor, unsignedMajor, negativeMajor, bytesMajor])]
  simp only [Head.ofNumber, arrayMajor, textMajor, unsignedMajor, negativeMajor, bytesMajor,
    ok_bind, enter]
  simpa using hitems

/-! ### Records -/

/-- A field is found by its name if no other field has it. -/
theorem position?_ofText {slots : List (Slot φ)} (hnames : (slots.map Slot.name).Nodup) {i : Nat}
    (hi : i < slots.length) : position? slots (Bytes.ofText slots[i].name) = some i := by
  rw [position?, List.findIdx?_eq_some_iff_getElem]
  refine ⟨hi, by simp, fun j hj => ?_⟩
  have hne : slots[j].name ≠ slots[i].name := by
    intro hsame
    have hnames' : (slots.map Slot.name)[j]? = (slots.map Slot.name)[i]? := by
      simpa [hi, Nat.lt_trans hj hi] using hsame
    have hlength : j < (slots.map Slot.name).length := by
      simpa using Nat.lt_trans hj hi
    exact Nat.ne_of_lt hj ((List.getElem?_inj hlength hnames).1 hnames')
  simpa using fun h => hne (Bytes.ofText_injective h)

/-- The pairs of a record in the order of its fields. -/
def writtenPairs (form : φ → Value) (names : List String) (values : List φ) :
    List (Value × Value) :=
  List.zipWith (fun name v => (.text name, form v)) names values

/-- One more field is found. -/
theorem readFields_cons {slots : List (Slot φ)} {field : Nat → Bytes → Except ReadError (φ × Bytes)}
    {fuel i : Nat} {found : List (Option φ)} {name : String} (depth n : Nat) (form : φ → Value)
    (v : φ) (hfuel : 0 < fuel) (hposition : position? slots (Bytes.ofText name) = some i)
    (hshort : (Bytes.ofText name).length ≤ longestName) (hfound : found.getD i none = none)
    (hfield : Reads (field i) (form v).encode v) (rest : Bytes) :
    readFields slots field depth (fuel + 1) (some (n + 1)) found
        ((Value.text name).encode ++ ((form v).encode ++ rest)) =
      readFields slots field depth fuel (some n) (found.set i (some v)) rest := by
  have hname := reads_readName hfuel hshort ((form v).encode ++ rest)
  have hv := hfield rest
  rw [readFields]
  simp only [readMore, ok_bind, hname, hposition, hfound, hv, Option.isSome_none,
    Bool.false_eq_true, if_false]

end KeyCustody.Cbor
