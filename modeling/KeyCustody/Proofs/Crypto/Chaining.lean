import KeyCustody.Proofs.Crypto.SymmetricKey
import Mathlib.Data.FinEnum
import Mathlib.Data.Set.Finite.List
/-!
# What a symmetric key accepts

A block cipher that decrypts what it encrypts maps different blocks to different blocks. There are
only finitely many blocks, so every block is the encryption of one, and the cipher also encrypts
what it decrypts. A chain of whole blocks is therefore the encryption of what it is decrypted to,
and a plaintext has only one filling. So a key accepts nothing but what it encrypts.

## Main results

* `pad_of_unpad?`: whole blocks are the filled form of what is left when the filling is taken off.
* `BlockCipher.Lawful.encrypt_decrypt`: blocks are encrypted to what they are decrypted from.
* `BlockCipher.Lawful.encryptChain_decryptChain`: and so are chains.
* `SymmetricKey.accepts_what_it_encrypts`: how decryption ends, for every byte string.
-/

namespace KeyCustody.Crypto

/-! ### Filling -/

/-- **Whole blocks have one filling**: they are the filled form of their plaintext. -/
theorem pad_of_unpad? {data plain : Bytes} (hdvd : blockSize ∣ data.length)
    (h : unpad? data = some plain) : pad plain = data := by
  rw [unpad?] at h
  split_ifs at h with hfilled
  obtain ⟨hpos, hle, hlength, hall⟩ := hfilled
  generalize hn : (data.getLast?.getD 0).toNat = n at h hpos hle hlength hall
  obtain rfl := Option.some.inj h
  have hplain : (data.take (data.length - n)).length = data.length - n := by
    rw [List.length_take]
    omega
  -- The plaintext ends where the last whole block is left, so this is the only length to fill up.
  have hcount : blockSize - (data.length - n) % blockSize = n := by
    simp only [blockSize, Aes.blockSize] at hdvd hle ⊢
    omega
  have htail : data.drop (data.length - n) = List.replicate n (UInt8.ofNat n) := by
    refine List.eq_replicate_iff.2 ⟨?_, fun b hb => ?_⟩
    · rw [List.length_drop]
      omega
    · simpa using List.all_eq_true.1 hall b hb
  rw [pad, hplain, hcount, ← htail, List.take_append_drop]

/-! ### Chaining -/

namespace BlockCipher

variable {c : BlockCipher}

theorem finite_blocks : {s : Bytes | s.length = blockSize}.Finite :=
  List.finite_length_eq UInt8 blockSize

/-- Every block is the encryption of a block. -/
theorem Lawful.exists_encrypt_eq (hc : c.Lawful) {b : Bytes} (hb : b.length = blockSize) :
    ∃ s : Bytes, s.length = blockSize ∧ c.encrypt s = b := by
  have hmaps : Set.MapsTo c.encrypt {s | s.length = blockSize} {s | s.length = blockSize} :=
    fun s hs => hc.length_encrypt hs
  have hinj : Set.InjOn c.encrypt {s | s.length = blockSize} := by
    intro s hs t ht hst
    rw [← hc.decrypt_encrypt hs, hst, hc.decrypt_encrypt ht]
  exact ((finite_blocks.injOn_iff_bijOn_of_mapsTo hmaps).1 hinj).surjOn hb

/-- Blocks are decrypted to blocks. -/
theorem Lawful.length_decrypt (hc : c.Lawful) {b : Bytes} (hb : b.length = blockSize) :
    (c.decrypt b).length = blockSize := by
  obtain ⟨s, hs, rfl⟩ := hc.exists_encrypt_eq hb
  rw [hc.decrypt_encrypt hs, hs]

/-- **Blocks are encrypted to what they are decrypted from.** -/
theorem Lawful.encrypt_decrypt (hc : c.Lawful) {b : Bytes} (hb : b.length = blockSize) :
    c.encrypt (c.decrypt b) = b := by
  obtain ⟨s, hs, rfl⟩ := hc.exists_encrypt_eq hb
  rw [hc.decrypt_encrypt hs]

theorem Lawful.length_decryptChain (hc : c.Lawful) {previous : Bytes} {bs : List Bytes}
    (hprevious : previous.length = blockSize) (hbs : ∀ b ∈ bs, b.length = blockSize) :
    (c.decryptChain previous bs).length = bs.length * blockSize := by
  induction bs generalizing previous with
  | nil => simp [decryptChain]
  | cons b bs ih =>
    obtain ⟨hb, hbs⟩ := List.forall_mem_cons.1 hbs
    rw [decryptChain, List.length_append, Bytes.length_xor, hc.length_decrypt hb, hprevious,
      Nat.min_self, ih hb hbs, List.length_cons, Nat.succ_mul, Nat.add_comm]

/-- A chain of whole blocks is the encryption of what it is decrypted to. -/
theorem Lawful.encryptChain_decryptChain (hc : c.Lawful) {previous : Bytes} {bs : List Bytes}
    (hprevious : previous.length = blockSize) (hbs : ∀ b ∈ bs, b.length = blockSize) :
    c.encryptChain previous (Bytes.chunks blockSize (c.decryptChain previous bs)) = bs.flatten := by
  induction bs generalizing previous with
  | nil => simp [decryptChain, encryptChain]
  | cons b bs ih =>
    obtain ⟨hb, hbs⟩ := List.forall_mem_cons.1 hbs
    have hdecrypt := hc.length_decrypt hb
    have hxor : (Bytes.xor (c.decrypt b) previous).length = blockSize := by
      rw [Bytes.length_xor, hdecrypt, hprevious, Nat.min_self]
    rw [decryptChain, Bytes.chunks_append (by decide) hxor, encryptChain,
      Bytes.xor_xor_cancel (hdecrypt.trans hprevious.symm), hc.encrypt_decrypt hb, ih hb hbs,
      List.flatten_cons]

/-- A message with a vector and whole blocks is accepted, or its filling is refused. -/
theorem decryptMessage_of_whole (c : BlockCipher) {data : Bytes}
    (h : ¬(data.length < 2 * blockSize ∨ data.length % blockSize ≠ 0)) :
    (∃ plain, c.decryptMessage data = .ok plain) ∨ c.decryptMessage data = .error .badPadding := by
  rw [decryptMessage, if_neg h]
  simp only
  split
  · exact .inl ⟨_, rfl⟩
  · exact .inr rfl

/-- A message is too short exactly if it has not a vector and at least one whole block. -/
theorem decryptMessage_eq_tooShort_iff (c : BlockCipher) (data : Bytes) :
    c.decryptMessage data = .error (.ciphertextTooShort data.length) ↔
      data.length < 2 * blockSize ∨ data.length % blockSize ≠ 0 := by
  refine ⟨fun h => ?_, fun h => by rw [decryptMessage, if_pos h]⟩
  by_contra hwhole
  rcases c.decryptMessage_of_whole hwhole with ⟨plain, hplain⟩ | hbad
  · rw [hplain] at h
    cases h
  · rw [hbad] at h
    cases h

/-- **A message that is accepted was encrypted**, under the vector in front of it. -/
theorem Lawful.eq_encryptMessage (hc : c.Lawful) {data plain : Bytes}
    (h : c.decryptMessage data = .ok plain) :
    blockSize ≤ data.length ∧ data = c.encryptMessage (data.take blockSize) plain := by
  rw [decryptMessage] at h
  split_ifs at h with hshort
  obtain ⟨hlong, hwhole⟩ := not_or.1 hshort
  have hle : blockSize ≤ data.length := by omega
  have hiv : (data.take blockSize).length = blockSize := by
    rw [List.length_take, Nat.min_eq_left hle]
  have hdvd : blockSize ∣ (data.drop blockSize).length := by
    rw [List.length_drop]
    exact Nat.dvd_sub (Nat.dvd_of_mod_eq_zero (not_not.1 hwhole)) (Nat.dvd_refl _)
  have hbs : ∀ b ∈ Bytes.chunks blockSize (data.drop blockSize), b.length = blockSize :=
    fun b hb => Bytes.length_of_mem_chunks_of_dvd hdvd hb
  have hplain : blockSize ∣ (c.decryptChain (data.take blockSize)
      (Bytes.chunks blockSize (data.drop blockSize))).length := by
    rw [hc.length_decryptChain hiv hbs]
    exact Nat.dvd_mul_left _ _
  simp only at h
  split at h
  · rename_i plain' hunpad
    obtain rfl := Except.ok.inj h
    refine ⟨hle, ?_⟩
    rw [encryptMessage, pad_of_unpad? hplain hunpad, hc.encryptChain_decryptChain hiv hbs,
      Bytes.flatten_chunks (by decide), List.take_append_drop]
  · cases h

end BlockCipher

/-! ### Keys -/

namespace SymmetricKey

/-- **A symmetric key accepts exactly what it encrypts.** Under every vector a plaintext is
encrypted to the vector and one more block than it has whole ones, and comes back, as octets and as
a text in base 64. A byte string is decrypted to a plaintext exactly if it is the encryption of this
plaintext under the vector in front of it. It is too short exactly if it has not a vector and some
whole blocks, and in all other cases its filling is refused. -/
theorem accepts_what_it_encrypts (k : SymmetricKey) :
    (∀ iv data : Bytes, iv.length = blockSize →
      (k.encrypt iv data).length = blockSize + blockSize * (data.length / blockSize + 1) ∧
      k.decrypt (k.encrypt iv data) = .ok data ∧
      k.decryptBase64 (k.encryptBase64 iv data) = .ok data) ∧
    ∀ cipher : Bytes,
      (∀ data, k.decrypt cipher = .ok data ↔
        blockSize ≤ cipher.length ∧ cipher = k.encrypt (cipher.take blockSize) data) ∧
      (k.decrypt cipher = .error (.ciphertextTooShort cipher.length) ↔
        cipher.length < 2 * blockSize ∨ cipher.length % blockSize ≠ 0) ∧
      (k.decrypt cipher = .error .badPadding ↔
        ¬(cipher.length < 2 * blockSize ∨ cipher.length % blockSize ≠ 0) ∧
        ∀ data, cipher ≠ k.encrypt (cipher.take blockSize) data) := by
  refine ⟨fun iv data hiv => ⟨?_, k.decrypt_encrypt hiv data,
    k.decryptBase64_encryptBase64 hiv data⟩, fun cipher => ?_⟩
  · have hmod := Nat.div_add_mod data.length blockSize
    have hlt : data.length % blockSize < blockSize := Nat.mod_lt _ (by decide)
    rw [encrypt, k.cipher_lawful.length_encryptMessage hiv, length_pad, Nat.mul_add_one]
    omega
  have hok : ∀ data, k.decrypt cipher = .ok data ↔
      blockSize ≤ cipher.length ∧ cipher = k.encrypt (cipher.take blockSize) data := by
    refine fun data => ⟨fun h => k.cipher_lawful.eq_encryptMessage h, fun ⟨hle, h⟩ => ?_⟩
    have hiv : (cipher.take blockSize).length = blockSize := by
      rw [List.length_take, Nat.min_eq_left hle]
    rw [h]
    exact k.decrypt_encrypt hiv data
  have hshort : k.decrypt cipher = .error (.ciphertextTooShort cipher.length) ↔
      cipher.length < 2 * blockSize ∨ cipher.length % blockSize ≠ 0 :=
    k.cipher.decryptMessage_eq_tooShort_iff cipher
  refine ⟨hok, hshort, fun h => ?_, fun ⟨hwhole, hne⟩ => ?_⟩
  · have hwhole : ¬(cipher.length < 2 * blockSize ∨ cipher.length % blockSize ≠ 0) := by
      intro hlength
      rw [hshort.2 hlength] at h
      cases h
    refine ⟨hwhole, fun data hdata => ?_⟩
    have hle : blockSize ≤ cipher.length := by omega
    rw [(hok data).2 ⟨hle, hdata⟩] at h
    cases h
  · rcases k.cipher.decryptMessage_of_whole hwhole with ⟨data, hdata⟩ | hbad
    · exact absurd ((hok data).1 hdata).2 (hne data)
    · exact hbad

/-- A key, a vector, and a plaintext that fills one block: its ciphertext has the vector and two
blocks. -/
theorem wholeBlock_accepted :
    let k : SymmetricKey := ⟨List.replicate 32 1, .inr (by simp)⟩
    let iv : Bytes := List.replicate 16 2
    let data : Bytes := List.replicate 16 3
    iv.length = blockSize ∧ (k.encrypt iv data).length = 48 ∧
      k.decrypt (k.encrypt iv data) = .ok data ∧
      k.decryptBase64 (k.encryptBase64 iv data) = .ok data := by
  intro k iv data
  have hiv : iv.length = blockSize := List.length_replicate
  have hblocks : blockSize + blockSize * (data.length / blockSize + 1) = 48 := by
    simp only [data, List.length_replicate, blockSize, Aes.blockSize]
  obtain ⟨hlength, hback⟩ := k.accepts_what_it_encrypts.1 iv data hiv
  exact ⟨hiv, hlength.trans hblocks, hback⟩

end SymmetricKey

end KeyCustody.Crypto
