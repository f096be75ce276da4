import KeyCustody.Crypto.Ed25519
import KeyCustody.Peer.Identity
import KeyCustody.Proofs.Outcome
import KeyCustody.Proofs.Peer.Store
import KeyCustody.Proofs.Text.Blank
/-!
# Texts of identities

An identity is read back from its record, and its record from each of its texts: hexadecimal digits
with letters of either case, with or without a mark in front, and base 64, with blanks around. The
record has sixty-eight octets, so that its text in base 64 is filled up at the end and cannot be one
of hexadecimal digits; and a text of hexadecimal digits has no mark among them.

## Main definitions

* `TextForm`: the texts of a byte string.

## Main results

* `Identity.ofRecord?_toRecord`: an identity is read back from its record.
* `Identity.ofEncoded_of_textForm`: an identity is read back from its texts.
* `Identity.texts_agree`: the texts of an identity, and the text of one that was read.
-/

namespace KeyCustody.Peer

open Crypto (SignatureScheme keyLength)
open Text (isBlank trimList dropHexMarks)

/-- The texts of a byte string without blanks around. -/
inductive TextForm (bs : Bytes) : List Char → Prop
  /-- Hexadecimal digits, with letters of either case. -/
  | hex {cs : List Char} (h : cs.map Char.toLower = Text.Hex.encodeList bs) : TextForm bs cs
  /-- Hexadecimal digits behind a mark. -/
  | marked {cs : List Char} (h : cs.map Char.toLower = Text.Hex.encodeList bs) :
      TextForm bs ('0' :: 'x' :: cs)
  | base64 : TextForm bs (Text.Base64.encodeList bs)

theorem TextForm.isBlank_eq_false {bs : Bytes} {cs : List Char} (h : TextForm bs cs) :
    ∀ c ∈ cs, isBlank c = false := by
  cases h with
  | hex h => exact Text.forall_isBlank_of_decodeList (Text.Hex.decodeList_of_map_toLower h)
  | marked h =>
    simp only [List.forall_mem_cons]
    exact ⟨by decide, by decide,
      Text.forall_isBlank_of_decodeList (Text.Hex.decodeList_of_map_toLower h)⟩
  | base64 => exact Text.Base64.forall_isBlank bs

namespace Identity

variable {S : SignatureScheme} {i : Identity S} {cs : List Char}

/-! ### Records -/

theorem toRecord_eq (i : Identity S) :
    i.toRecord = [8, 1, 18, 64] ++ (i.seed ++ i.publicKey.bytes) := by
  have hlength : (i.seed ++ i.publicKey.bytes).length = 64 := by
    simp [i.length_seed, i.publicKey.length_bytes, keyLength]
  rw [toRecord, KeyRecord.encode_of_lt (by simp [KeyRecord.ed25519]) (by simp [hlength])]
  simp only [hlength]
  rfl

theorem length_toRecord (i : Identity S) : i.toRecord.length = 68 := by
  simp [toRecord_eq, i.length_seed, i.publicKey.length_bytes, keyLength]

/-- **An identity is read back from its record.** -/
theorem ofRecord?_toRecord (i : Identity S) : ofRecord? S i.toRecord = some i := by
  have hdecode : KeyRecord.decode? i.toRecord =
      some ⟨KeyRecord.ed25519, i.seed ++ i.publicKey.bytes⟩ :=
    KeyRecord.decode?_encode (r := ⟨KeyRecord.ed25519, i.seed ++ i.publicKey.bytes⟩)
      (by simp [KeyRecord.ed25519])
      (by simp [i.length_seed, i.publicKey.length_bytes, keyLength])
  obtain ⟨seed, ⟨bytes, hbytes⟩, hseed, hmatch⟩ := i
  have htake : (seed ++ bytes).take keyLength = seed := List.take_left' hseed
  have hdrop : (seed ++ bytes).drop keyLength = bytes := List.drop_left' hseed
  simp only at hmatch hdecode
  subst hmatch
  simp [ofRecord?, hdecode, htake, hdrop, hseed, ofSeed]

/-! ### Texts -/

/-- The text of a record in base 64 is not taken for hexadecimal. -/
theorem decodeList_base64 (i : Identity S) :
    Text.Hex.decodeList (dropHexMarks (Text.Base64.encodeList i.toRecord)) = none := by
  have hfill : '=' ∈ dropHexMarks (Text.Base64.encodeList i.toRecord) :=
    Text.mem_dropHexMarks (by decide) (by decide)
      (Text.Base64.fill_mem_encodeList (by simp [length_toRecord]))
  rw [← Option.not_isSome_iff_eq_none]
  intro hsome
  obtain ⟨bs, hbs⟩ := Option.isSome_iff_exists.1 hsome
  exact absurd (Text.Hex.isSome_digit?_of_decodeList hbs '=' hfill) (by decide)

/-- The octets of an identity are read from each of its texts. -/
theorem octetsOf_of_textForm (h : TextForm i.toRecord cs) : octetsOf cs = .ok i.toRecord := by
  rw [octetsOf]
  cases h with
  | hex h =>
    have hread := Text.Hex.decodeList_of_map_toLower h
    rw [Text.dropHexMarks_of_decodeList hread, hread]
  | @marked cs h =>
    have hread := Text.Hex.decodeList_of_map_toLower h
    rw [Text.dropHexMarks_marked, Text.dropHexMarks_of_decodeList hread, hread]
  | base64 => rw [decodeList_base64, Text.Base64.decodeList_encodeList]

theorem ne_nil_of_textForm (h : TextForm i.toRecord cs) : cs ≠ [] := by
  rintro rfl
  have hread := octetsOf_of_textForm h
  have hlength := congrArg List.length (Except.ok.inj hread)
  rw [length_toRecord] at hlength
  exact absurd hlength (by decide)

/-- **An identity is read back from each of its texts**, with blanks around. -/
theorem ofEncoded_of_textForm (h : TextForm i.toRecord cs) {front back : List Char}
    (hfront : ∀ c ∈ front, isBlank c) (hback : ∀ c ∈ back, isBlank c) :
    ofEncoded S (String.ofList (front ++ cs ++ back)) = .ok i := by
  have htrim : trimList (front ++ cs ++ back) = cs :=
    Text.trimList_append hfront hback h.isBlank_eq_false
  have hne : cs.isEmpty = false := by simpa using ne_nil_of_textForm h
  rw [ofEncoded, String.toList_ofList]
  simp only [htrim, hne, Bool.false_eq_true, if_false, octetsOf_of_textForm h, ok_bind,
    ofRecord?_toRecord]

theorem ofEncoded_encode (i : Identity S) : ofEncoded S i.encode = .ok i := by
  have hform : TextForm i.toRecord (Text.Hex.encodeList i.toRecord) :=
    .hex (Text.Hex.map_toLower_encodeList i.toRecord)
  have hread := ofEncoded_of_textForm hform (List.forall_mem_nil _) (List.forall_mem_nil _)
  rwa [List.nil_append, List.append_nil] at hread

/-! ### All texts of an identity -/

/-- **The texts of an identity agree.** Its text form, and every other text of its record with any
blanks around, is read as the identity, seed and public key, and so as its peer id; a text in base
64 is never taken for hexadecimal. The text form of whatever was read from some text is read as the
same identity again. -/
theorem texts_agree (S : SignatureScheme) :
    (∀ i : Identity S, ofEncoded S i.encode = .ok i ∧
      (∀ cs, TextForm i.toRecord cs → ∀ front back : List Char, (∀ c ∈ front, isBlank c) →
        (∀ c ∈ back, isBlank c) →
        ofEncoded S (String.ofList (front ++ cs ++ back)) = .ok i) ∧
      Text.Hex.decodeList (dropHexMarks (Text.Base64.encodeList i.toRecord)) = none) ∧
    ∀ s i, ofEncoded S s = .ok i → ∃ again, ofEncoded S i.encode = .ok again ∧
      again.peerId = i.peerId ∧ again.publicKey = i.publicKey := by
  refine ⟨fun i => ⟨ofEncoded_encode i, ?_, decodeList_base64 i⟩, fun s i _ => ?_⟩
  · intro cs hform front back hfront hback
    exact ofEncoded_of_textForm hform hfront hback
  · exact ⟨i, ofEncoded_encode i, rfl, rfl⟩

/-- The identity whose seed has thirty-two octets with the value one. -/
def ofOnes : Identity Crypto.Ed25519.scheme :=
  ofSeed _ (List.replicate 32 1) List.length_replicate

/-- The record of this identity in digits, with the letters in upper case. -/
def upperDigits : List Char :=
  (Text.Hex.encodeList ofOnes.toRecord).map Char.toUpper

/-- Upper-case digits behind a mark, with blanks around, are read as the identity, and its text form
is read as the same one. -/
theorem upper_text_agrees : upperDigits.map Char.toLower = Text.Hex.encodeList ofOnes.toRecord ∧
    ofEncoded Crypto.Ed25519.scheme
      (String.ofList (['\t', ' '] ++ '0' :: 'x' :: upperDigits ++ ['\n'])) = .ok ofOnes ∧
    ∃ again, ofEncoded Crypto.Ed25519.scheme ofOnes.encode = .ok again ∧
      again.peerId = ofOnes.peerId ∧ again.publicKey = ofOnes.publicKey := by
  have hlower : upperDigits.map Char.toLower = Text.Hex.encodeList ofOnes.toRecord :=
    Text.Hex.map_toLower_map_toUpper_encodeList _
  obtain ⟨hforms, haccepted⟩ := texts_agree Crypto.Ed25519.scheme
  have hfront : ∀ c ∈ ['\t', ' '], isBlank c := List.forall_mem_cons.2 ⟨rfl, by simp; rfl⟩
  have hback : ∀ c ∈ ['\n'], isBlank c := by
    simp only [List.mem_singleton, forall_eq]
    rfl
  have hread := (hforms ofOnes).2.1 _ (.marked hlower) ['\t', ' '] ['\n'] hfront hback
  exact ⟨hlower, hread, haccepted _ _ hread⟩

end Identity

end KeyCustody.Peer
