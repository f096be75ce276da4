import KeyCustody.Custody.Vault
import KeyCustody.Proofs.Crypto.KeyFile
import KeyCustody.Proofs.Crypto.SymmetricKey
/-!
# Laws of the vault

A record seals a key if its texts are the files of the key, the private one encrypted. A fresh
record seals the key that was generated for it, and whoever has the symmetric key gets from a record
what is in the files of the key that it seals. Once the vault has a record for an identity, it keeps
this record.

## Main definitions

* `SecretRecord.Seals`: the key that a record is made of.
* `Usable`: a key that is worth being sealed.

## Main results

* `Usable.of_generate`: the files of a fresh key are read as the key.
* `SecretRecord.seals_of_generate`: a fresh record seals the key that was generated.
* `SecretRecord.Seals.codec_of_usable`: the codec of a record that seals a usable key.
* `Vault.secret?_insertSecret_of_eq_some`: a record stays.
-/

namespace KeyCustody.Custody

open Crypto (SymmetricKey Entropy)
open Crypto.Rsa (Codec PrivateKey)

/-! ### Records -/

/-- A key whose primes are prime numbers, whose modulus leaves room for data, and whose files are
read as the key. -/
structure Usable (key : PrivateKey) : Prop where
  prime1 : key.prime1.Prime
  prime2 : key.prime2.Prime
  size : 12 ≤ key.size
  readable : Crypto.KeyFile.loadCodec (Crypto.KeyFile.Pair.ofKey key).publicText
    (Crypto.KeyFile.Pair.ofKey key).privateText = .value ⟨some key.toPublic, some key⟩

/-- A fresh key is usable if its primes are prime numbers and its modulus leaves room for data. -/
theorem Usable.of_generate {key : PrivateKey} {bits : Nat} {r r' : Entropy}
    (h : Crypto.Rsa.generate bits r = (.ok key, r')) (h₁ : key.prime1.Prime)
    (h₂ : key.prime2.Prime) (hsize : 12 ≤ key.size) : Usable key :=
  ⟨h₁, h₂, hsize, (Crypto.KeyFile.storable_of_generate h h₁.one_lt h₂.one_lt).loadCodec⟩

namespace SecretRecord

/-- The texts of a record are the files of a key, the private one encrypted. -/
structure Seals (aes : SymmetricKey) (key : PrivateKey) (record : SecretRecord) : Prop where
  publicText : record.publicText = (Crypto.KeyFile.Pair.ofKey key).publicText
  privateEncrypted : ∃ iv : Bytes, iv.length = vectorLength ∧ record.privateEncrypted =
    aes.encryptBase64 iv (Bytes.ofText (Crypto.KeyFile.Pair.ofKey key).privateText)

variable {aes : SymmetricKey} {key : PrivateKey} {record : SecretRecord}

/-- A fresh record seals the key that was generated. -/
theorem seals_of_generate {uuid : String} {bits : Nat} {r r' : Entropy}
    (h : generate uuid aes bits r = (.ok record, r')) :
    ∃ key r₁, Crypto.Rsa.generate bits r = (.ok key, r₁) ∧ record.Seals aes key := by
  rcases hgenerate : Crypto.Rsa.generate bits r with ⟨_ | key, r₁⟩
  · simp [generate, Crypto.KeyFile.Pair.generate, hgenerate] at h
  · have hdraw := Entropy.length_draw vectorLength r₁
    simp only [generate, Crypto.KeyFile.Pair.generate, hgenerate] at h
    obtain rfl := Except.ok.inj (congrArg Prod.fst h)
    exact ⟨key, r₁, rfl, rfl, _, hdraw, rfl⟩

/-- A key that is generated for a record is sealed by it. -/
theorem exists_generate {bits : Nat} {r r' : Entropy}
    (h : Crypto.Rsa.generate bits r = (.ok key, r')) (uuid : String) (aes : SymmetricKey) :
    ∃ record r₁, generate uuid aes bits r = (.ok record, r₁) ∧ record.Seals aes key := by
  obtain ⟨record, r₁, hrecord⟩ : ∃ record r₁, generate uuid aes bits r = (.ok record, r₁) := by
    simp only [generate, Crypto.KeyFile.Pair.generate, h]
    exact ⟨_, _, rfl⟩
  obtain ⟨key', r₂, hgenerate, hseals⟩ := seals_of_generate hrecord
  obtain rfl := Except.ok.inj (congrArg Prod.fst (h.symm.trans hgenerate))
  exact ⟨record, r₁, hrecord, hseals⟩

/-- The codec of a record is what is in the files of the key that it seals. -/
theorem Seals.codec_eq (h : record.Seals aes key) (uuid : String) :
    record.codec uuid aes =
      (Crypto.KeyFile.loadCodec (Crypto.KeyFile.Pair.ofKey key).publicText
        (Crypto.KeyFile.Pair.ofKey key).privateText).mapFailure (.codec uuid) := by
  obtain ⟨iv, hiv, hencrypted⟩ := h.privateEncrypted
  rw [codec, hencrypted, aes.decryptBase64_encryptBase64 hiv, Outcome.ofExcept_ok,
    Outcome.mapFailure_value, Outcome.value_bind, Bytes.text?_ofText, h.publicText]

/-- The codec of a record that seals a usable key has both halves of the key. -/
theorem Seals.codec_of_usable (h : record.Seals aes key) (hkey : Usable key) (uuid : String) :
    record.codec uuid aes = .value ⟨some key.toPublic, some key⟩ := by
  rw [h.codec_eq, hkey.readable, Outcome.mapFailure_value]

end SecretRecord

/-! ### Vaults -/

namespace Vault

variable {v : Vault} {uuid u : String} {record old : SecretRecord}

theorem secret?_insertSecret_of_eq_none (record : SecretRecord) (u : String)
    (h : v.secret? uuid = none) :
    (v.insertSecret uuid record).2 = record ∧
      (v.insertSecret uuid record).1.secret? u = if u = uuid then some record else v.secret? u := by
  rw [insertSecret, h]
  exact ⟨rfl, Assoc.get?_put _ _ _ _⟩

theorem insertSecret_of_eq_some (h : v.secret? uuid = some old) :
    v.insertSecret uuid record = (v, old) := by
  rw [insertSecret, h]

/-- The vault has the record that it says it has. -/
theorem secret?_insertSecret_self :
    (v.insertSecret uuid record).1.secret? uuid = some (v.insertSecret uuid record).2 := by
  cases h : v.secret? uuid with
  | none =>
    obtain ⟨hsnd, hget⟩ := secret?_insertSecret_of_eq_none record uuid h
    rw [hsnd, hget, if_pos rfl]
  | some old => rw [insertSecret_of_eq_some h, h]

/-- **A record stays** when another one is put in. -/
theorem secret?_insertSecret_of_eq_some (h : v.secret? u = some old) :
    (v.insertSecret uuid record).1.secret? u = some old := by
  cases huuid : v.secret? uuid with
  | some other => rw [insertSecret_of_eq_some huuid, h]
  | none =>
    rw [(secret?_insertSecret_of_eq_none record u huuid).2, if_neg, h]
    rintro rfl
    rw [h] at huuid
    cases huuid

/-- The records of other identities are left alone. -/
theorem secret?_insertSecret_of_ne (hu : u ≠ uuid) :
    (v.insertSecret uuid record).1.secret? u = v.secret? u := by
  cases huuid : v.secret? uuid with
  | some other => rw [insertSecret_of_eq_some huuid]
  | none => rw [(secret?_insertSecret_of_eq_none record u huuid).2, if_neg hu]

/-- A record in the vault was there before, or is the one that was put in. -/
theorem secret?_insertSecret_cases (h : (v.insertSecret uuid record).1.secret? u = some old) :
    v.secret? u = some old ∨ old = record := by
  cases huuid : v.secret? uuid with
  | some other =>
    rw [insertSecret_of_eq_some huuid] at h
    exact .inl h
  | none =>
    rw [(secret?_insertSecret_of_eq_none record u huuid).2] at h
    split_ifs at h
    · exact .inr (Option.some.inj h).symm
    · exact .inl h

@[simp] theorem secret?_addNote (n : KeyNote) : (v.addNote uuid n).secret? u = v.secret? u := rfl

end Vault

end KeyCustody.Custody
