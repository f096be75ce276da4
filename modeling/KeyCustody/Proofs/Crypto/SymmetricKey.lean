import KeyCustody.Crypto.SymmetricKey
import KeyCustody.Proofs.Crypto.Aes
import KeyCustody.Proofs.Text.Base64
/-!
# Laws of symmetric encryption

A chain of blocks is decrypted block by block, each combined with the ciphertext block before it,
and the filling says how long it is. So whatever the vector is, a symmetric key decrypts what it
encrypts, as octets and as a text in base 64.

## Main definitions

* `BlockCipher.Lawful`: blocks are encrypted to blocks that decrypt to them.

## Main results

* `unpad?_pad`: the filling is taken off again.
* `BlockCipher.Lawful.decryptMessage_encryptMessage`: messages of a lawful cipher.
* `SymmetricKey.decryptBase64_encryptBase64`: the key decrypts what it encrypts.
-/

namespace KeyCustody.Crypto

/-! ### Filling -/

theorem length_pad (data : Bytes) :
    (pad data).length = data.length + (blockSize - data.length % blockSize) := by
  simp [pad]

theorem dvd_length_pad (data : Bytes) : blockSize ∣ (pad data).length := by
  have hmod : data.length % 16 < 16 := Nat.mod_lt _ (by decide)
  rw [length_pad]
  simp only [blockSize, Aes.blockSize]
  omega

theorem blockSize_le_length_pad (data : Bytes) : blockSize ≤ (pad data).length := by
  have hmod : data.length % 16 ≤ data.length := Nat.mod_le _ _
  rw [length_pad]
  simp only [blockSize, Aes.blockSize]
  omega

/-- The filling is taken off again. -/
theorem unpad?_pad (data : Bytes) : unpad? (pad data) = some data := by
  obtain ⟨n, hn, hpos, hle⟩ : ∃ n, blockSize - data.length % blockSize = n ∧ 1 ≤ n ∧
      n ≤ blockSize := by
    have hmod : data.length % blockSize < blockSize := Nat.mod_lt _ (by decide)
    exact ⟨_, rfl, by omega, by omega⟩
  have hlast : ((pad data).getLast?.getD 0).toNat = n := by
    have hlt : n < 256 := hle.trans_lt (by decide)
    obtain ⟨m, rfl⟩ := Nat.exists_eq_add_of_le' hpos
    simp only [pad, hn, List.replicate_succ', ← List.append_assoc, List.getLast?_concat,
      Option.getD_some, UInt8.toNat_ofNat']
    omega
  have hlength : (pad data).length - n = data.length := by
    rw [length_pad, hn, Nat.add_sub_cancel]
  rw [unpad?, hlast, hlength]
  simp [hpos, hle, pad, hn]

/-! ### Chaining -/

namespace BlockCipher

/-- Blocks are encrypted to blocks, which are decrypted to the blocks that they come from. -/
structure Lawful (c : BlockCipher) : Prop where
  length_encrypt : ∀ {s : Bytes}, s.length = blockSize → (c.encrypt s).length = blockSize
  decrypt_encrypt : ∀ {s : Bytes}, s.length = blockSize → c.decrypt (c.encrypt s) = s

variable {c : BlockCipher}

theorem Lawful.length_encryptChain (hc : c.Lawful) {previous : Bytes} {ps : List Bytes}
    (hprevious : previous.length = blockSize) (hps : ∀ p ∈ ps, p.length = blockSize) :
    (c.encryptChain previous ps).length = ps.length * blockSize := by
  induction ps generalizing previous with
  | nil => simp [encryptChain]
  | cons p ps ih =>
    obtain ⟨hp, hps⟩ := List.forall_mem_cons.1 hps
    have hblock := hc.length_encrypt (s := Bytes.xor p previous)
      (by rw [Bytes.length_xor, hp, hprevious, Nat.min_self])
    rw [encryptChain, List.length_append, hblock, ih hblock hps, List.length_cons, Nat.succ_mul,
      Nat.add_comm]

/-- A chain is decrypted to the blocks that it is made of. -/
theorem Lawful.decryptChain_encryptChain (hc : c.Lawful) {previous : Bytes} {ps : List Bytes}
    (hprevious : previous.length = blockSize) (hps : ∀ p ∈ ps, p.length = blockSize) :
    c.decryptChain previous (Bytes.chunks blockSize (c.encryptChain previous ps)) = ps.flatten := by
  induction ps generalizing previous with
  | nil => simp [encryptChain, decryptChain]
  | cons p ps ih =>
    obtain ⟨hp, hps⟩ := List.forall_mem_cons.1 hps
    have hxor : (Bytes.xor p previous).length = blockSize := by
      rw [Bytes.length_xor, hp, hprevious, Nat.min_self]
    have hblock := hc.length_encrypt hxor
    rw [encryptChain, Bytes.chunks_append (by decide) hblock, decryptChain,
      hc.decrypt_encrypt hxor, Bytes.xor_xor_cancel (hp.trans hprevious.symm), ih hblock hps,
      List.flatten_cons]

/-- A message is the vector and a chain of the length of the filled plaintext. -/
theorem Lawful.length_encryptMessage (hc : c.Lawful) {iv : Bytes} (hiv : iv.length = blockSize)
    (data : Bytes) : (c.encryptMessage iv data).length = blockSize + (pad data).length := by
  have hps : ∀ p ∈ Bytes.chunks blockSize (pad data), p.length = blockSize :=
    fun p hp => Bytes.length_of_mem_chunks_of_dvd (dvd_length_pad data) hp
  rw [encryptMessage, List.length_append, hiv, hc.length_encryptChain hiv hps,
    Bytes.length_chunks_mul (by decide) (dvd_length_pad data)]

/-- **A message is decrypted to what it was encrypted from.** -/
theorem Lawful.decryptMessage_encryptMessage (hc : c.Lawful) {iv : Bytes}
    (hiv : iv.length = blockSize) (data : Bytes) :
    c.decryptMessage (c.encryptMessage iv data) = .ok data := by
  have hps : ∀ p ∈ Bytes.chunks blockSize (pad data), p.length = blockSize :=
    fun p hp => Bytes.length_of_mem_chunks_of_dvd (dvd_length_pad data) hp
  have hwhole : ¬((c.encryptMessage iv data).length < 2 * blockSize ∨
      (c.encryptMessage iv data).length % blockSize ≠ 0) := by
    have hle := blockSize_le_length_pad data
    have hmod := Nat.mod_eq_zero_of_dvd (dvd_length_pad data)
    rw [hc.length_encryptMessage hiv, Nat.add_mod_left]
    omega
  have htake : (c.encryptMessage iv data).take blockSize = iv := by
    rw [encryptMessage, ← hiv, List.take_left]
  have hdrop : (c.encryptMessage iv data).drop blockSize =
      c.encryptChain iv (Bytes.chunks blockSize (pad data)) := by
    rw [encryptMessage, ← hiv, List.drop_left]
  rw [decryptMessage, if_neg hwhole, htake, hdrop, hc.decryptChain_encryptChain hiv hps,
    Bytes.flatten_chunks (by decide)]
  simp only [unpad?_pad]

end BlockCipher

/-! ### Keys -/

namespace SymmetricKey

variable (k : SymmetricKey)

theorem cipher_lawful : k.cipher.Lawful where
  length_encrypt := Aes.length_cipher_encrypt k.length_bytes
  decrypt_encrypt := Aes.cipher_decrypt_encrypt k.length_bytes

theorem decrypt_encrypt {iv : Bytes} (hiv : iv.length = blockSize) (data : Bytes) :
    k.decrypt (k.encrypt iv data) = .ok data :=
  k.cipher_lawful.decryptMessage_encryptMessage hiv data

/-- **A symmetric key decrypts what it encrypts**, whatever the vector is. -/
theorem decryptBase64_encryptBase64 {iv : Bytes} (hiv : iv.length = blockSize) (data : Bytes) :
    k.decryptBase64 (k.encryptBase64 iv data) = .ok data := by
  rw [decryptBase64, encryptBase64, Text.Base64.decode?_encode]
  exact k.decrypt_encrypt hiv data

end SymmetricKey

end KeyCustody.Crypto
