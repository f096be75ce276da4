import KeyCustody.Crypto.Rsa
import KeyCustody.Proofs.Bytes
import KeyCustody.Proofs.Crypto.Modular
import KeyCustody.Proofs.Outcome
/-!
# Laws of RSA

The check of a private key ensures that its exponents undo each other, provided that its primes are
two different prime numbers. A padded block starts with a zero octet, so its number is below the
modulus and is found again; the padding has no zero octet, so it ends where the data begin. A
message comes back piece by piece.

## Main definitions

* `PrivateKey.Fit`: the numbers of a private key belong together.
* `PaddingsFit`, `encryptWith`: a choice of padding for each piece, and the ciphertext with it.

## Main results

* `fit_of_generate`: a fresh key is fit if its primes are prime numbers.
* `decryptBlock_encryptBlockWith`: a block comes back whatever the padding is.
* `Codec.exists_encrypt_eq`, `Codec.decrypt_encryptWith`: a message is encrypted with paddings that
  fit, and comes back whatever these are.
* `Codec.decrypt_encrypt`: a message is encrypted, and comes back.
-/

namespace KeyCustody.Crypto.Rsa

/-! ### Keys whose numbers belong together -/

/-- The numbers of a private key belong together: the modulus is the product of two different
primes, and the exponents undo each other to each of them. -/
structure PrivateKey.Fit (k : PrivateKey) : Prop where
  prime1 : k.prime1.Prime
  prime2 : k.prime2.Prime
  distinct : k.prime1 ≠ k.prime2
  modulus : k.prime1 * k.prime2 = k.modulus
  agree1 : k.publicExponent * k.privateExponent % (k.prime1 - 1) = 1
  agree2 : k.publicExponent * k.privateExponent % (k.prime2 - 1) = 1

variable {k : PrivateKey}

theorem exponentsAgree_eq_true {p : Nat} (h : exponentsAgree k p = .value true) :
    k.publicExponent * k.privateExponent % (p - 1) = 1 := by
  unfold exponentsAgree at h
  split_ifs at h
  simpa using Outcome.value.inj h

/-- What the check of a private key ensures. -/
theorem check_eq_value {k' : PrivateKey} (h : k.check = .value k') :
    k' = k ∧ k.prime1 * k.prime2 = k.modulus ∧
      k.publicExponent * k.privateExponent % (k.prime1 - 1) = 1 ∧
      k.publicExponent * k.privateExponent % (k.prime2 - 1) = 1 := by
  unfold PrivateKey.check at h
  split_ifs at h with hvalid
  cases h₁ : exponentsAgree k k.prime1 with
  | failure e => simp [h₁, Outcome.bind] at h
  | breakdown b => simp [h₁, Outcome.bind] at h
  | value first =>
    cases h₂ : exponentsAgree k k.prime2 with
    | failure e => cases first <;> simp [h₁, h₂, Outcome.bind] at h
    | breakdown b => cases first <;> simp [h₁, h₂, Outcome.bind] at h
    | value second =>
      cases first <;> cases second <;> simp [h₁, h₂, Outcome.bind] at h
      exact ⟨h.symm, hvalid.2.2.2, exponentsAgree_eq_true h₁, exponentsAgree_eq_true h₂⟩

theorem primes_of_ofPrimes? {p q : Nat} (h : ofPrimes? p q = some k) :
    k.prime1 = p ∧ k.prime2 = q := by
  obtain ⟨d, -, hd⟩ := Option.bind_eq_some_iff.1 h
  obtain rfl := Option.some.inj hd
  exact ⟨rfl, rfl⟩

/-- A key that is found is made of its two primes, which are different, and its modulus has the
wanted length. -/
theorem findKey_eq_some {bits fuel : Nat} {r r' : Entropy}
    (h : findKey bits fuel r = (some k, r')) : ofPrimes? k.prime1 k.prime2 = some k ∧
      k.prime1 ≠ k.prime2 ∧ bitLength k.modulus = bits := by
  induction fuel generalizing r with
  | zero => cases h
  | succ fuel ih =>
    rw [findKey] at h
    rcases hp : findPrime (bits / 2) (64 * bits) r with ⟨_ | p, r₁⟩
    · simp [hp] at h
    rcases hq : findPrime (bits - bits / 2) (64 * bits) r₁ with ⟨_ | q, r₂⟩
    · simp [hp, hq] at h
    cases hkey : ofPrimes? p q with
    | none =>
      simp only [hp, hq, hkey] at h
      exact ih h
    | some key =>
      simp only [hp, hq, hkey] at h
      split_ifs at h with hgood
      · obtain rfl := Option.some.inj (congrArg Prod.fst h)
        obtain ⟨h₁, h₂⟩ := primes_of_ofPrimes? hkey
        rw [h₁, h₂]
        exact ⟨hkey, hgood⟩
      · exact ih h

/-- A fresh key is one that is found, and passes its own check. -/
theorem findKey_of_generate {bits : Nat} {r r' : Entropy} (h : generate bits r = (.ok k, r')) :
    k.check = .value k ∧ findKey bits 256 r = (some k, r') := by
  unfold generate at h
  split_ifs at h
  · cases h
  rcases hfind : findKey bits 256 r with ⟨_ | key, r₁⟩
  · simp [hfind] at h
  rw [hfind] at h
  simp only at h
  split at h
  · rename_i key' hcheck
    obtain rfl := (check_eq_value hcheck).1
    obtain rfl := Except.ok.inj (congrArg Prod.fst h)
    obtain rfl := congrArg Prod.snd h
    exact ⟨hcheck, rfl⟩
  · cases h

/-- A fresh key passes its own check, and its modulus has the wanted length. -/
theorem generate_eq_ok {bits : Nat} {r r' : Entropy} (h : generate bits r = (.ok k, r')) :
    k.check = .value k ∧ k.prime1 ≠ k.prime2 ∧ bitLength k.modulus = bits :=
  ⟨(findKey_of_generate h).1, (findKey_eq_some (findKey_of_generate h).2).2⟩

/-- **A fresh key is fit** if its primes are prime numbers. -/
theorem fit_of_generate {bits : Nat} {r r' : Entropy} (h : generate bits r = (.ok k, r'))
    (h₁ : k.prime1.Prime) (h₂ : k.prime2.Prime) : k.Fit := by
  obtain ⟨hcheck, hne, -⟩ := generate_eq_ok h
  obtain ⟨-, hmodulus, hagree1, hagree2⟩ := check_eq_value hcheck
  exact ⟨h₁, h₂, hne, hmodulus, hagree1, hagree2⟩

/-- The exponents undo each other. -/
theorem PrivateKey.Fit.pow_pow (hk : k.Fit) {m : Nat} (hm : m < k.modulus) :
    Modular.pow (Modular.pow m k.publicExponent k.modulus) k.privateExponent k.modulus = m := by
  have hsame :=
    Modular.pow_modEq_self_of_primes hk.prime1 hk.prime2 hk.distinct hk.agree1 hk.agree2 m
  rw [hk.modulus, Nat.ModEq, Nat.mod_eq_of_lt hm] at hsame
  rw [Modular.pow_eq, Modular.pow_eq, ← Nat.pow_mod, ← pow_mul, hsame]

/-! ### Blocks -/

theorem lt_two_pow_bitLength (n : Nat) : n < 2 ^ bitLength n := by
  rw [bitLength]
  split_ifs with hn
  · simp [hn]
  · exact Nat.lt_log2_self

theorem two_pow_le_of_lt_bitLength {n i : Nat} (hi : i < bitLength n) : 2 ^ i ≤ n := by
  rw [bitLength] at hi
  split_ifs at hi with hn
  · exact absurd hi (Nat.not_lt_zero i)
  · exact (Nat.le_log2 hn).1 (Nat.le_of_lt_succ hi)

/-- The modulus has as many octets as its size. -/
theorem PublicKey.modulus_lt (k : PublicKey) : k.modulus < 256 ^ k.size := by
  calc k.modulus < 2 ^ bitLength k.modulus := lt_two_pow_bitLength k.modulus
    _ ≤ 2 ^ (8 * k.size) := by
      refine Nat.pow_le_pow_right (by decide) ?_
      rw [size]
      omega
    _ = 256 ^ k.size := by rw [pow_mul]; rfl

theorem PublicKey.le_modulus (k : PublicKey) (hk : k.size ≠ 0) :
    256 ^ (k.size - 1) ≤ k.modulus := by
  calc 256 ^ (k.size - 1) = 2 ^ (8 * (k.size - 1)) := by rw [pow_mul]; rfl
    _ ≤ k.modulus := by
      refine two_pow_le_of_lt_bitLength ?_
      rw [size] at hk ⊢
      omega

theorem length_padBlock (padding data : Bytes) :
    (padBlock padding data).length = padding.length + data.length + 3 := by
  simp [padBlock]
  omega

/-- The data of a padded block begin after the first zero octet. -/
theorem unpadBlock?_padBlock {padding : Bytes} (data : Bytes) (hlength : 8 ≤ padding.length)
    (hpadding : ∀ b ∈ padding, b ≠ 0) : unpadBlock? (padBlock padding data) = some data := by
  have htake : (padding ++ 0 :: data).takeWhile (· != 0) = padding := by
    rw [List.takeWhile_append_of_pos (by simpa using hpadding)]
    simp
  have hdrop : (padding ++ 0 :: data).drop (padding.length + 1) = data := by
    rw [← List.singleton_append, ← List.append_assoc, List.drop_left' (by simp)]
  simp only [padBlock, List.cons_append, unpadBlock?, htake, hdrop]
  rw [if_pos]
  simp [hlength]

/-- The number of a padded block is below the modulus. -/
theorem toNatBE_padBlock_lt (k : PublicKey) {padding data : Bytes}
    (hlength : padding.length + data.length + 3 = k.size) :
    Bytes.toNatBE (padBlock padding data) < k.modulus := by
  have hfront : Bytes.toNatBE (padBlock padding data) =
      Bytes.toNatBE (2 :: (padding ++ 0 :: data)) := by
    rw [padBlock, List.cons_append, List.cons_append, Bytes.toNatBE_cons, UInt8.toNat_zero,
      Nat.zero_mul, Nat.zero_add]
  have hsize : (2 :: (padding ++ 0 :: data)).length = k.size - 1 := by
    simp only [List.length_cons, List.length_append]
    omega
  calc Bytes.toNatBE (padBlock padding data)
      < 256 ^ (k.size - 1) := by
        rw [hfront, ← hsize]
        exact Bytes.toNatBE_lt _
    _ ≤ k.modulus := k.le_modulus (by omega)

theorem length_encryptBlockWith (k : PublicKey) (padding data : Bytes) :
    (encryptBlockWith k padding data).length = k.size :=
  Bytes.length_ofNatBE _ _

/-- **A block comes back** whatever the padding is, if it has no zero octet and is long enough. -/
theorem decryptBlock_encryptBlockWith (hk : k.Fit) {padding data : Bytes}
    (hlength : 8 ≤ padding.length) (hfull : padding.length + data.length + 3 = k.size)
    (hpadding : ∀ b ∈ padding, b ≠ 0) :
    decryptBlock k (encryptBlockWith k.toPublic padding data) = .ok data := by
  have hm := toNatBE_padBlock_lt k.toPublic hfull
  have hpos : 0 < k.modulus := (Nat.zero_le _).trans_lt hm
  have hc : Modular.pow (Bytes.toNatBE (padBlock padding data)) k.publicExponent k.modulus <
      k.modulus := by
    rw [Modular.pow_eq]
    exact Nat.mod_lt _ hpos
  have hread : Bytes.toNatBE (encryptBlockWith k.toPublic padding data) =
      Modular.pow (Bytes.toNatBE (padBlock padding data)) k.publicExponent k.modulus :=
    Bytes.toNatBE_ofNatBE_of_lt (hc.trans k.toPublic.modulus_lt)
  have hblock : Bytes.ofNatBE k.size (Bytes.toNatBE (padBlock padding data)) =
      padBlock padding data := by
    rw [← hfull, ← length_padBlock, Bytes.ofNatBE_toNatBE]
  rw [decryptBlock, hread, hk.pow_pow hm]
  simp only [hc, and_self, if_true, hblock, unpadBlock?_padBlock data hlength hpadding]

/-! ### Messages -/

/-- The paddings fill the blocks of the pieces, one each, and have no zero octet. -/
def PaddingsFit (size : Nat) : (paddings pieces : List Bytes) → Prop :=
  List.Forall₂ fun padding piece =>
    padding.length + piece.length + 3 = size ∧ ∀ b ∈ padding, b ≠ 0

/-- The ciphertext of pieces with the given paddings. -/
def encryptWith (k : PublicKey) (paddings pieces : List Bytes) : Bytes :=
  (List.zipWith (encryptBlockWith k) paddings pieces).flatten

theorem encryptWith_cons (k : PublicKey) (padding piece : Bytes) (paddings pieces : List Bytes) :
    encryptWith k (padding :: paddings) (piece :: pieces) =
      encryptBlockWith k padding piece ++ encryptWith k paddings pieces := rfl

/-- Data that leave room for the padding are encrypted with some padding that fits. -/
theorem exists_encryptBlock_eq (k : PublicKey) {data : Bytes}
    (hdata : data.length + overhead ≤ k.size) (r : Entropy) :
    ∃ padding r', (padding.length + data.length + 3 = k.size ∧ ∀ b ∈ padding, b ≠ 0) ∧
      encryptBlock k data r = (.ok (encryptBlockWith k padding data), r') := by
  have hlength := Entropy.length_drawNonzero (k.size - data.length - 3) r
  have hne := Entropy.drawNonzero_ne_zero (k.size - data.length - 3) r
  rcases hdraw : r.drawNonzero (k.size - data.length - 3) with ⟨padding, r'⟩
  rw [hdraw] at hlength hne
  refine ⟨padding, r', ⟨?_, hne⟩, ?_⟩
  · simp only [overhead] at hdata hlength
    omega
  · rw [encryptBlock, if_neg (Nat.not_lt.2 hdata), hdraw]

namespace Codec

/-- Pieces that leave room for the padding are encrypted with some paddings that fit, whatever the
numbers of the key are. -/
theorem exists_encryptPieces_eq (k : PublicKey) {pieces : List Bytes}
    (hpieces : ∀ piece ∈ pieces, piece.length + overhead ≤ k.size) (r : Entropy) :
    ∃ paddings r', PaddingsFit k.size paddings pieces ∧
      encryptPieces k pieces r = (.ok (encryptWith k paddings pieces), r') := by
  induction pieces generalizing r with
  | nil => exact ⟨[], r, .nil, rfl⟩
  | cons piece pieces ih =>
    obtain ⟨hpiece, hpieces⟩ := List.forall_mem_cons.1 hpieces
    obtain ⟨padding, r₁, hfit, hblock⟩ := exists_encryptBlock_eq k hpiece r
    obtain ⟨paddings, r₂, hfits, hrest⟩ := ih hpieces r₁
    refine ⟨padding :: paddings, r₂, .cons hfit hfits, ?_⟩
    rw [encryptPieces, hblock]
    simp only [hrest, encryptWith_cons]

/-- **Pieces come back** whatever the paddings are, if they fit. -/
theorem decryptPieces_encryptWith (hk : k.Fit) {paddings pieces : List Bytes}
    (hpieces : ∀ piece ∈ pieces, piece.length + overhead ≤ k.size)
    (hfit : PaddingsFit k.size paddings pieces) :
    decryptPieces k (Bytes.chunks k.size (encryptWith k.toPublic paddings pieces)) =
      .ok pieces.flatten := by
  induction hfit with
  | nil => simp [encryptWith, decryptPieces]
  | @cons padding piece paddings pieces hpadding _ ih =>
    obtain ⟨hpiece, hpieces⟩ := List.forall_mem_cons.1 hpieces
    obtain ⟨hfull, hne⟩ := hpadding
    simp only [overhead] at hpiece
    have hsize : k.size ≠ 0 := by omega
    have hlong : 8 ≤ padding.length := by omega
    rw [encryptWith_cons, Bytes.chunks_append hsize (length_encryptBlockWith _ _ _), decryptPieces,
      decryptBlock_encryptBlockWith hk hlong hfull hne, ok_bind, ih hpieces, ok_bind]
    rfl

theorem flatten_pieces {size : Nat} (hsize : size ≠ 0) (data : Bytes) :
    (pieces size data).flatten = data := by
  rw [pieces]
  split_ifs with h
  · simp [List.isEmpty_iff.1 h]
  · exact Bytes.flatten_chunks hsize data

theorem length_of_mem_pieces {size : Nat} {data piece : Bytes} (h : piece ∈ pieces size data) :
    piece.length ≤ size := by
  rw [pieces] at h
  split_ifs at h
  · simp [List.mem_singleton.1 h]
  · exact (Bytes.length_of_mem_chunks h).2

/-- The pieces of a message leave room for the padding. -/
theorem length_add_overhead_le {size : Nat} (hsize : overhead < size) (data : Bytes) :
    ∀ piece ∈ pieces (size - overhead) data, piece.length + overhead ≤ size := by
  intro piece hpiece
  have := length_of_mem_pieces hpiece
  omega

/-- A message is encrypted with some paddings that fit, if the modulus leaves room for data. -/
theorem exists_encrypt_eq {c : Codec} {k : PublicKey} (hk : c.publicKey = some k)
    (hsize : overhead < k.size) (data : Bytes) (r : Entropy) :
    ∃ paddings r', PaddingsFit k.size paddings (pieces (k.size - overhead) data) ∧
      c.encrypt data r =
        (.value (encryptWith k paddings (pieces (k.size - overhead) data)), r') := by
  obtain ⟨paddings, r', hfit, hencrypt⟩ :=
    exists_encryptPieces_eq k (length_add_overhead_le hsize data) r
  exact ⟨paddings, r', hfit, by simp only [encrypt, hk, if_neg hsize.not_gt, if_neg hsize.ne',
    hencrypt, Outcome.ofExcept_ok]⟩

/-- A message comes back whatever the paddings are, if they fit. -/
theorem decrypt_encryptWith (hk : k.Fit) {c : Codec} (hc : c.privateKey = some k)
    (hsize : overhead < k.size) {data : Bytes} {paddings : List Bytes}
    (hfit : PaddingsFit k.size paddings (pieces (k.size - overhead) data)) :
    c.decrypt (encryptWith k.toPublic paddings (pieces (k.size - overhead) data)) = .ok data := by
  simp only [decrypt, hc]
  rw [decryptPieces_encryptWith hk (length_add_overhead_le hsize data) hfit,
    flatten_pieces (by omega)]

/-- How the encryption of a message ends: it breaks down unless the modulus leaves room for data. -/
theorem outcome_encrypt {c : Codec} {k : PublicKey} (hk : c.publicKey = some k) (data : Bytes)
    (r : Entropy) :
    (k.size < overhead → (c.encrypt data r).1 = .breakdown .subtractionOverflow) ∧
    (k.size = overhead → (c.encrypt data r).1 = .breakdown .divisionByZero) ∧
    (overhead < k.size → ∃ cipher, (c.encrypt data r).1 = .value cipher) := by
  refine ⟨fun h => ?_, fun h => ?_, fun h => ?_⟩
  · simp only [encrypt, hk, if_pos h]
  · simp only [encrypt, hk, h, lt_irrefl, if_false, if_true]
  · obtain ⟨paddings, r', -, hencrypt⟩ := exists_encrypt_eq hk h data r
    exact ⟨_, congrArg Prod.fst hencrypt⟩

/-- **A message is encrypted, and comes back**, if the modulus leaves room for data. -/
theorem decrypt_encrypt (hk : k.Fit) (hsize : overhead < k.size) (data : Bytes) (r : Entropy) :
    ∃ cipher r', (⟨some k.toPublic, some k⟩ : Codec).encrypt data r = (.value cipher, r') ∧
      (⟨some k.toPublic, some k⟩ : Codec).decrypt cipher = .ok data := by
  obtain ⟨paddings, r', hfit, hencrypt⟩ :=
    exists_encrypt_eq (c := ⟨some k.toPublic, some k⟩) rfl hsize data r
  exact ⟨_, r', hencrypt, decrypt_encryptWith hk rfl hsize hfit⟩

end Codec

end KeyCustody.Crypto.Rsa
