import KeyCustody.Proofs.Crypto.KeyFile
import Mathlib.Algebra.Order.Floor.Div
import Mathlib.NumberTheory.LucasLehmer
/-!
# Messages under every choice of padding

A message is encrypted with one padding for each of its pieces. Every run chooses paddings that fit,
and every choice that fits is that of some run, since there are octets from which it is drawn. The
length of the ciphertext is settled by the number of pieces, and the message comes back whatever the
choice is.

## Main definitions

* `Entropy.Spells`: the octets that come next make given octets that are not zero.
* `Rsa.Codec.ofKey`: the codec with both halves of a key.

## Main results

* `Rsa.Codec.exists_encrypt_of_fit`: every choice of padding is that of some run.
* `Rsa.Codec.length_pieces`: how many pieces a message has.
* `KeyFile.decrypt_encrypt_every_padding`: the message comes back from a codec that is loaded.
-/

namespace KeyCustody.Crypto

/-! ### Drawn octets -/

namespace Entropy

variable {r : Entropy}

/-- The octets that come next are the pairs from which the given octets are made. -/
def Spells (r : Entropy) (bs : Bytes) : Prop :=
  ∀ i b, bs[i]? = some b → r.octet (r.used + 2 * i) = 0 ∧ r.octet (r.used + 2 * i + 1) = b - 1

theorem exists_spells (bs : Bytes) : ∃ r : Entropy, r.Spells bs := by
  refine ⟨⟨fun j => if j % 2 = 0 then 0 else (bs[j / 2]?).getD 0 - 1, 0⟩, fun i b hb => ?_⟩
  have heven : (0 + 2 * i) % 2 = 0 := by omega
  have hodd : ¬(0 + 2 * i + 1) % 2 = 0 := by omega
  have hhalf : (0 + 2 * i + 1) / 2 = i := by omega
  simp only [heven, if_true, hodd, if_false, hhalf, hb, Option.getD_some, and_self]

/-- An octet that is not zero is made from its pair. -/
theorem ofNat_pair {b : UInt8} (hb : b ≠ 0) :
    UInt8.ofNat (1 + ((0 : UInt8).toNat * 256 + (b - 1).toNat) % 255) = b := by
  have hpos : b.toNat ≠ 0 := fun h => hb (UInt8.toNat_inj.1 h)
  have hlt : b.toNat < 256 := b.toNat_lt
  have hone : (1 : UInt8) ≤ b := by
    rw [UInt8.le_iff_toNat_le]
    exact Nat.pos_of_ne_zero hpos
  have hvalue : 1 + ((0 : UInt8).toNat * 256 + (b - 1).toNat) % 255 = b.toNat := by
    rw [UInt8.toNat_sub_of_le _ _ hone, UInt8.toNat_zero, UInt8.toNat_one]
    omega
  rw [hvalue, UInt8.ofNat_toNat]

/-- Octets that are not zero are drawn if they come first, and the others come next. -/
theorem drawNonzero_of_spells {padding rest : Bytes} (h : r.Spells (padding ++ rest))
    (hpadding : ∀ b ∈ padding, b ≠ 0) :
    ∃ r' : Entropy, r.drawNonzero padding.length = (padding, r') ∧ r'.Spells rest := by
  refine ⟨{ r with used := r.used + 2 * padding.length }, ?_, fun i b hb => ?_⟩
  · refine Prod.ext (List.ext_getElem (by simp) fun i _ hi => ?_) rfl
    have hfront : (padding ++ rest)[i]? = some padding[i] := by
      rw [List.getElem?_append_left hi, List.getElem?_eq_getElem hi]
    obtain ⟨hhigh, hlow⟩ := h i _ hfront
    simp only [drawNonzero, List.getElem_map, List.getElem_range, hhigh, hlow]
    exact ofNat_pair (hpadding _ (List.getElem_mem hi))
  · have hback : (padding ++ rest)[padding.length + i]? = some b := by
      rw [List.getElem?_append_right (Nat.le_add_right _ _), Nat.add_sub_cancel_left, hb]
    have hplace : r.used + 2 * padding.length + 2 * i = r.used + 2 * (padding.length + i) := by
      omega
    simp only [hplace]
    exact h _ b hback

end Entropy

/-! ### Choices of padding -/

namespace Rsa

variable {paddings pieces : List Bytes}

theorem length_encryptWith {k : PublicKey} (hfit : PaddingsFit k.size paddings pieces) :
    (encryptWith k paddings pieces).length = k.size * pieces.length := by
  induction hfit with
  | nil => rfl
  | cons _ _ ih =>
    rw [encryptWith_cons, List.length_append, length_encryptBlockWith, ih, List.length_cons,
      Nat.mul_succ, Nat.add_comm]

/-- The numbers of a private key of two different odd primes belong together if its exponents are
inverse to each prime minus one. -/
theorem PrivateKey.fit_of_modEq {k : PrivateKey} (hp : k.prime1.Prime) (hq : k.prime2.Prime)
    (hodd₁ : Odd k.prime1) (hodd₂ : Odd k.prime2) (hne : k.prime1 ≠ k.prime2)
    (hmodulus : k.prime1 * k.prime2 = k.modulus)
    (h₁ : k.publicExponent * k.privateExponent ≡ 1 [MOD k.prime1 - 1])
    (h₂ : k.publicExponent * k.privateExponent ≡ 1 [MOD k.prime2 - 1]) : k.Fit := by
  have hone : ∀ p : Nat, p.Prime → Odd p → 1 % (p - 1) = 1 := by
    intro p hp hodd
    have htwo := hp.two_le
    obtain ⟨m, rfl⟩ := hodd
    exact Nat.mod_eq_of_lt (by omega)
  exact ⟨hp, hq, hne, hmodulus, Eq.trans h₁ (hone _ hp hodd₁), Eq.trans h₂ (hone _ hq hodd₂)⟩

namespace Codec

/-- A run whose octets make the paddings chooses these. -/
theorem encryptPieces_of_spells {k : PublicKey} {r : Entropy}
    (hpieces : ∀ piece ∈ pieces, piece.length + overhead ≤ k.size)
    (hfit : PaddingsFit k.size paddings pieces) (h : r.Spells paddings.flatten) :
    ∃ r', encryptPieces k pieces r = (.ok (encryptWith k paddings pieces), r') := by
  induction hfit generalizing r with
  | nil => exact ⟨r, rfl⟩
  | @cons padding piece paddings pieces hpadding _ ih =>
    obtain ⟨hpiece, hpieces⟩ := List.forall_mem_cons.1 hpieces
    obtain ⟨hfull, hne⟩ := hpadding
    obtain ⟨r₁, hdraw, hspells⟩ := Entropy.drawNonzero_of_spells h hne
    obtain ⟨r₂, hrest⟩ := ih hpieces hspells
    have hcount : k.size - piece.length - 3 = padding.length := by omega
    refine ⟨r₂, ?_⟩
    simp only [encryptPieces, encryptBlock, if_neg (Nat.not_lt.2 hpiece), hcount, hdraw, hrest,
      encryptWith_cons]

/-- **Every choice of padding** that fits is that of some run. -/
theorem exists_encrypt_of_fit {c : Codec} {k : PublicKey} (hk : c.publicKey = some k)
    (hsize : overhead < k.size) {data : Bytes} {paddings : List Bytes}
    (hfit : PaddingsFit k.size paddings (Codec.pieces (k.size - overhead) data)) :
    ∃ r r', c.encrypt data r =
      (.value (encryptWith k paddings (Codec.pieces (k.size - overhead) data)), r') := by
  obtain ⟨r, hspells⟩ := Entropy.exists_spells paddings.flatten
  obtain ⟨r', hencrypt⟩ :=
    encryptPieces_of_spells (length_add_overhead_le hsize data) hfit hspells
  exact ⟨r, r', by simp only [encrypt, hk, if_neg hsize.not_gt, if_neg hsize.ne', hencrypt,
    Outcome.ofExcept_ok]⟩

/-- A message has as many pieces as it takes to cover it, and at least one. -/
theorem length_pieces {size : Nat} (hsize : size ≠ 0) (data : Bytes) :
    (Codec.pieces size data).length = max 1 (data.length ⌈/⌉ size) := by
  rw [Codec.pieces]
  split_ifs with hempty
  · rw [List.isEmpty_iff.1 hempty, List.length_nil, zero_ceilDiv]
    rfl
  · have hpos : 1 ≤ data.length := by
      rw [List.isEmpty_iff] at hempty
      exact List.length_pos_of_ne_nil hempty
    have hone : 1 ≤ data.length ⌈/⌉ size := by
      rw [Nat.ceilDiv_eq_add_pred_div, Nat.le_div_iff_mul_le (Nat.pos_of_ne_zero hsize)]
      omega
    rw [Bytes.length_chunks hsize, ← Nat.ceilDiv_eq_add_pred_div, Nat.max_eq_right hone]

/-- The codec with both halves of a key. -/
def ofKey (k : PrivateKey) : Codec :=
  ⟨some k.toPublic, some k⟩

end Codec

end Rsa

/-! ### Loaded codecs -/

namespace KeyFile

open Rsa (PrivateKey Codec PaddingsFit encryptWith)

/-- **A message comes back under every choice of padding.** Take a key of two different odd primes
whose exponents are inverse to each prime minus one, and whose modulus has at least twelve octets.
Loading its private file, alone or together with the file of its public half, yields the codec with
both halves. Whatever the random octets are, this codec encrypts a message with some paddings that
fit. Every choice of paddings that fits is one that may be made; the ciphertext has one block for
each piece of the message, and it is decrypted to the message. -/
theorem decrypt_encrypt_every_padding {k : PrivateKey} (hp : k.prime1.Prime) (hq : k.prime2.Prime)
    (hodd₁ : Odd k.prime1) (hodd₂ : Odd k.prime2) (hne : k.prime1 ≠ k.prime2)
    (hmodulus : k.prime1 * k.prime2 = k.modulus)
    (h₁ : k.publicExponent * k.privateExponent ≡ 1 [MOD k.prime1 - 1])
    (h₂ : k.publicExponent * k.privateExponent ≡ 1 [MOD k.prime2 - 1]) (hsize : 12 ≤ k.size) :
    (∀ publicText privateText, readPrivate privateText = .value k →
      publicText = "" ∨ readPublic? publicText = some k.toPublic →
      loadCodec publicText privateText = .value (.ofKey k)) ∧
    ∀ data : Bytes,
      (∀ r, ∃ paddings r', PaddingsFit k.size paddings (Codec.pieces (k.size - 11) data) ∧
        (Codec.ofKey k).encrypt data r =
          (.value (encryptWith k.toPublic paddings (Codec.pieces (k.size - 11) data)), r')) ∧
      ∀ paddings, PaddingsFit k.size paddings (Codec.pieces (k.size - 11) data) →
        (∃ r r', (Codec.ofKey k).encrypt data r =
          (.value (encryptWith k.toPublic paddings (Codec.pieces (k.size - 11) data)), r')) ∧
        (encryptWith k.toPublic paddings (Codec.pieces (k.size - 11) data)).length =
          k.size * max 1 (data.length ⌈/⌉ (k.size - 11)) ∧
        (Codec.ofKey k).decrypt
          (encryptWith k.toPublic paddings (Codec.pieces (k.size - 11) data)) = .ok data := by
  have hk : k.Fit := PrivateKey.fit_of_modEq hp hq hodd₁ hodd₂ hne hmodulus h₁ h₂
  have hroom : Rsa.overhead < k.toPublic.size := hsize
  have hpiece : k.size - 11 ≠ 0 := by omega
  refine ⟨fun _ _ hprivate hpublic => loadCodec_of_readPrivate hprivate hpublic, fun data =>
    ⟨fun r => Codec.exists_encrypt_eq rfl hroom data r, fun paddings hfit => ⟨?_, ?_, ?_⟩⟩⟩
  · exact Codec.exists_encrypt_of_fit rfl hroom hfit
  · rw [Rsa.length_encryptWith hfit, Codec.length_pieces hpiece]
    rfl
  · exact Codec.decrypt_encryptWith hk rfl hroom hfit

/-- A key of the primes 3 and 2 ^ 89 - 1, whose modulus has twelve octets. -/
def mersenneKey : PrivateKey where
  modulus := 3 * (2 ^ 89 - 1)
  publicExponent := 65537
  privateExponent := 463625422192654777564758143
  prime1 := 3
  prime2 := 2 ^ 89 - 1

theorem prime_two_pow_sub_one : (2 ^ 89 - 1).Prime :=
  lucas_lehmer_sufficiency 89 (by decide) (by norm_num)

/-- The private file of this key is loaded, and three octets come back from three blocks. -/
theorem mersenneKey_three_octets :
    loadCodec "" (encodePrivate mersenneKey) = .value (.ofKey mersenneKey) ∧
    ∃ cipher r r', (Codec.ofKey mersenneKey).encrypt [1, 0, 2] r = (.value cipher, r') ∧
      cipher.length = 36 ∧ (Codec.ofKey mersenneKey).decrypt cipher = .ok [1, 0, 2] := by
  have hstorable : Storable mersenneKey := ⟨by decide +kernel, by decide +kernel⟩
  obtain ⟨hload, hmessage⟩ := decrypt_encrypt_every_padding (k := mersenneKey) Nat.prime_three
    prime_two_pow_sub_one (by decide) (by decide +kernel) (by decide +kernel) rfl
    (by decide +kernel) (by decide +kernel) (by decide +kernel)
  obtain ⟨hruns, hchoices⟩ := hmessage [1, 0, 2]
  obtain ⟨paddings, r', hfit, hencrypt⟩ := hruns (.ofOctets [])
  obtain ⟨-, hlength, hdecrypt⟩ := hchoices paddings hfit
  have hcount : mersenneKey.size * max 1 ([1, 0, 2].length ⌈/⌉ (mersenneKey.size - 11)) = 36 := by
    decide +kernel
  exact ⟨hload _ _ hstorable.readPrivate (.inl rfl), _, _, r', hencrypt, hlength.trans hcount,
    hdecrypt⟩

end KeyFile

end KeyCustody.Crypto
