import KeyCustody.Crypto.KeyFile
import KeyCustody.Proofs.Crypto.Der
import KeyCustody.Proofs.Crypto.Pem
import KeyCustody.Proofs.Crypto.Rsa
/-!
# Laws of key files

A key that passes its own check is read back from its files, whether both files are given or the
private one alone. The numbers of such a key have at most as many octets as the largest modulus, so
every element of a file is short enough for the reader.

## Main definitions

* `KeyFile.Storable`: a private key whose files are read back.

## Main results

* `KeyFile.readPublic?_encodePublic`, `KeyFile.Storable.readPrivate`: a half is read back.
* `KeyFile.loadCodec_of_readPrivate`: a codec that is loaded has what its files say.
* `KeyFile.storable_of_generate`: the files of a fresh key are read back.
-/

namespace KeyCustody.Crypto

/-! ### Numbers of a key -/

namespace Rsa

variable {k : PrivateKey}

/-- A key that passes its own check has a public half that is fit for use. -/
theorem isValid_of_check {k' : PrivateKey} (h : k.check = .value k') : k.toPublic.isValid := by
  unfold PrivateKey.check at h
  split_ifs at h with hvalid
  exact hvalid.1

/-- The modulus of a public half that is fit for use has at most the largest number of bits, and the
exponent is below it. -/
theorem bounds_of_isValid {k : PublicKey} (h : k.isValid) :
    bitLength k.modulus ≤ largestBits ∧ k.exponent < k.modulus := by
  simp only [PublicKey.isValid, Bool.and_eq_true, decide_eq_true_eq] at h
  exact ⟨h.1.1.1.1.1, h.1.1.1.1.2⟩

/-- The private exponent of two primes is below their product. -/
theorem privateExponent_lt_of_ofPrimes? {p q : Nat} (h : ofPrimes? p q = some k) (hp : 1 < p)
    (hq : 1 < q) : k.privateExponent < k.modulus := by
  obtain ⟨d, hinverse, hk⟩ := Option.bind_eq_some_iff.1 h
  obtain rfl := Option.some.inj hk
  have hpos : 0 < (p - 1) * (q - 1) := Nat.mul_pos (by omega) (by omega)
  have hd : d < (p - 1) * (q - 1) := by
    unfold Modular.inverse? at hinverse
    split at hinverse
    · rw [← Option.some.inj hinverse]
      exact Nat.mod_lt _ hpos
    · cases hinverse
  exact hd.trans_le (Nat.mul_le_mul (Nat.sub_le p 1) (Nat.sub_le q 1))

end Rsa

namespace KeyFile

open Rsa (PublicKey PrivateKey Codec)

/-! ### Short numbers -/

/-- The octets of the largest modulus. -/
def largestSize : Nat := 512

variable {n : Nat} {k : PrivateKey}

theorem natWidth_le_of_bitLength {n' : Nat} (h : Rsa.bitLength n ≤ Rsa.largestBits) (hle : n' ≤ n) :
    Bytes.natWidth n' ≤ largestSize := by
  refine Bytes.natWidth_le ?_
  calc n' ≤ n := hle
    _ < 2 ^ Rsa.bitLength n := Rsa.lt_two_pow_bitLength n
    _ ≤ 2 ^ (8 * largestSize) := Nat.pow_le_pow_right (by decide) h
    _ = 256 ^ largestSize := by rw [Nat.pow_mul]

theorem isShortNat_of_natWidth_le (h : Bytes.natWidth n ≤ largestSize) : Der.IsShortNat n :=
  lt_of_le_of_lt (Nat.succ_le_succ h) (by decide)

theorem isShort_of_length_le {bs : Bytes} (h : bs.length ≤ 5000) : Der.IsShort bs :=
  lt_of_le_of_lt h (by decide)

/-- A few numbers of the largest size are short, with room to spare. -/
theorem length_numbers_le {ns : List Nat} (hcount : ns.length ≤ 9)
    (h : ∀ n ∈ ns, Bytes.natWidth n ≤ largestSize) :
    (ns.flatMap Der.encodeNat).length ≤ 4700 :=
  calc (ns.flatMap Der.encodeNat).length ≤ ns.length * (largestSize + 7) :=
        Der.length_flatMap_encodeNat_le (by decide) h
    _ ≤ 9 * (largestSize + 7) := Nat.mul_le_mul_right _ hcount
    _ ≤ 4700 := by decide

/-- A few numbers in a sequence are read back. -/
theorem expectWhole_encodeNats {ns : List Nat} (hcount : ns.length ≤ 9)
    (h : ∀ n ∈ ns, Bytes.natWidth n ≤ largestSize) :
    Der.expectWhole Der.sequenceTag (Der.encodeNats ns) = some (ns.flatMap Der.encodeNat) :=
  Der.expectWhole_encode _
    (isShort_of_length_le ((length_numbers_le hcount h).trans (by decide)))

theorem length_encodeNats_le {ns : List Nat} (hcount : ns.length ≤ 9)
    (h : ∀ n ∈ ns, Bytes.natWidth n ≤ largestSize) : (Der.encodeNats ns).length ≤ 4800 := by
  have hlength := length_numbers_le hcount h
  have := Der.length_encode_le Der.sequenceTag (isShort_of_length_le (hlength.trans (by decide)))
  rw [Der.encodeNats]
  omega

theorem readNats_encodeNats {ns : List Nat} (h : ∀ n ∈ ns, Bytes.natWidth n ≤ largestSize) :
    Der.readNats ns.length (ns.flatMap Der.encodeNat) = some (ns, []) := by
  have hread := Der.readNats_flatMap_encodeNat
    (fun n hn => isShortNat_of_natWidth_le (h n hn)) []
  rwa [List.append_nil] at hread

theorem afterAlgorithm?_append (rest : Bytes) :
    afterAlgorithm? (algorithm ++ rest) = some rest := by
  rw [afterAlgorithm?, if_pos (List.isPrefixOf_iff_prefix.2 (List.prefix_append _ rest)),
    List.drop_left]

theorem length_algorithm : algorithm.length = 15 := by decide

/-! ### Public keys -/

/-- A public key that is fit for use is read back from its octets. -/
theorem publicOfDer?_publicDer {k : PublicKey} (h : k.isValid) :
    publicOfDer? (publicDer k) = some k := by
  obtain ⟨hbits, hexponent⟩ := Rsa.bounds_of_isValid h
  have hnumbers : ∀ n ∈ [k.modulus, k.exponent], Bytes.natWidth n ≤ largestSize := by
    simp only [List.forall_mem_cons]
    exact ⟨natWidth_le_of_bitLength hbits le_rfl, natWidth_le_of_bitLength hbits hexponent.le,
      List.forall_mem_nil _⟩
  have hcount : [k.modulus, k.exponent].length ≤ 9 := Nat.le_add_right 2 7
  have hread := expectWhole_encodeNats hcount hnumbers
  have hlength := length_encodeNats_le hcount hnumbers
  have hbitsShort : Der.IsShort (0 :: Der.encodeNats [k.modulus, k.exponent]) :=
    isShort_of_length_le (by rw [List.length_cons]; omega)
  have hbitsLength := Der.length_encode_le Der.bitStringTag hbitsShort
  rw [List.length_cons] at hbitsLength
  have hshort : Der.IsShort
      (algorithm ++ Der.encodeBits (Der.encodeNats [k.modulus, k.exponent])) := by
    refine isShort_of_length_le ?_
    rw [List.length_append, length_algorithm, Der.encodeBits]
    omega
  have hbitString : Der.expectWhole Der.bitStringTag
      (Der.encodeBits (Der.encodeNats [k.modulus, k.exponent])) =
        some (0 :: Der.encodeNats [k.modulus, k.exponent]) :=
    Der.expectWhole_encode _ hbitsShort
  have hnats : Der.readNats 2 ([k.modulus, k.exponent].flatMap Der.encodeNat) =
      some ([k.modulus, k.exponent], []) := readNats_encodeNats hnumbers
  simp only [publicOfDer?, publicDer, Der.expectWhole_encode _ hshort, afterAlgorithm?_append,
    hbitString, Der.octetsOfBits, hread, hnats, Option.bind_eq_bind, Option.bind_some, if_pos h]

/-- **A public key that is fit for use is read back** from its file. -/
theorem readPublic?_encodePublic {k : PublicKey} (h : k.isValid) :
    readPublic? (encodePublic k) = some k := by
  have hder : publicDer k ≠ [] := List.cons_ne_nil _ _
  simp only [readPublic?, encodePublic, Pem.decode?_encode _ hder, publicOfDer?_publicDer h,
    Option.bind_eq_bind, Option.bind_some]

/-! ### Private keys -/

/-- The files of a private key are read back if it passes its own check and its private exponent is
below the modulus. -/
structure Storable (k : PrivateKey) : Prop where
  check : k.check = .value k
  exponent : k.privateExponent < k.modulus

/-- None of the numbers of a storable key has more octets than the largest modulus. -/
theorem Storable.natWidth_le (h : Storable k) :
    ∀ n ∈ privateNumbers k, Bytes.natWidth n ≤ largestSize := by
  obtain ⟨hbits, hpublic⟩ := Rsa.bounds_of_isValid (Rsa.isValid_of_check h.check)
  have hmodulus := (Rsa.check_eq_value h.check).2.1
  have hpos : 0 < k.prime1 * k.prime2 := by
    rw [hmodulus]
    exact Nat.zero_lt_of_lt hpublic
  have hp : k.prime1 ≤ k.modulus := by
    rw [← hmodulus]
    exact Nat.le_mul_of_pos_right _ (Nat.pos_of_mul_pos_left hpos)
  have hq : k.prime2 ≤ k.modulus := by
    rw [← hmodulus]
    exact Nat.le_mul_of_pos_left _ (Nat.pos_of_mul_pos_right hpos)
  have hcoefficient : (Modular.inverse? k.prime2 k.prime1).getD 0 ≤ k.modulus := by
    unfold Modular.inverse?
    split
    · exact (Nat.mod_lt _ (Nat.pos_of_mul_pos_right hpos)).le.trans hp
    · exact Nat.zero_le _
  have hle : ∀ n ∈ privateNumbers k, n ≤ k.modulus := by
    simp only [privateNumbers, List.forall_mem_cons]
    exact ⟨Nat.zero_le _, le_rfl, hpublic.le, h.exponent.le, hp, hq,
      (Nat.mod_le _ _).trans h.exponent.le, (Nat.mod_le _ _).trans h.exponent.le, hcoefficient,
      List.forall_mem_nil _⟩
  exact fun n hn => natWidth_le_of_bitLength hbits (hle n hn)

theorem length_privateNumbers (k : PrivateKey) : (privateNumbers k).length = 9 := rfl

/-- A storable key is read back from its bare numbers. -/
theorem Storable.numbersOfDer? (h : Storable k) :
    numbersOfDer? (Der.encodeNats (privateNumbers k)) = some k := by
  have hread := expectWhole_encodeNats (length_privateNumbers k).le h.natWidth_le
  have hnats : Der.readNats 9 ((privateNumbers k).flatMap Der.encodeNat) =
      some (privateNumbers k, []) := readNats_encodeNats h.natWidth_le
  simp only [KeyFile.numbersOfDer?, hread, hnats, Option.bind_eq_bind, Option.bind_some]
  rfl

/-- A storable key is read back from its octets. -/
theorem Storable.privateOfDer? (h : Storable k) : privateOfDer? (privateDer k) = some k := by
  have hlength := length_encodeNats_le (length_privateNumbers k).le h.natWidth_le
  have hnumbers : Der.IsShort (Der.encodeNats (privateNumbers k)) :=
    isShort_of_length_le (hlength.trans (by decide))
  have hnumbersLength := Der.length_encode_le Der.octetStringTag hnumbers
  have hversion : (Der.encodeNat 0).length = 3 := by decide
  have hshort : Der.IsShort (Der.encodeNat 0 ++ algorithm ++
      Der.encode Der.octetStringTag (Der.encodeNats (privateNumbers k))) := by
    refine isShort_of_length_le ?_
    rw [List.length_append, List.length_append, length_algorithm, hversion]
    omega
  have hzero : Der.readNat (Der.encodeNat 0 ++ algorithm ++
      Der.encode Der.octetStringTag (Der.encodeNats (privateNumbers k))) =
        some (0, algorithm ++
          Der.encode Der.octetStringTag (Der.encodeNats (privateNumbers k))) := by
    rw [List.append_assoc]
    exact Der.readNat_encodeNat (isShortNat_of_natWidth_le (Nat.zero_le _)) _
  have hoctets := Der.expect_encode Der.octetStringTag hnumbers []
  rw [List.append_nil] at hoctets
  have htail : isFitTail 0 [] = true := by decide
  simp only [KeyFile.privateOfDer?, privateDer, Der.expectWhole_encode _ hshort, hzero,
    afterAlgorithm?_append, hoctets, htail, h.numbersOfDer?, Option.bind_eq_bind, Option.bind_some,
    if_true]

/-- The words that tell bare numbers do not begin among characters without a blank, nor do they go
on after a dash. -/
theorem hasMark_append {cs : List Char} (h : ' ' ∉ cs) (rest : List Char) :
    isBare.hasMark (cs ++ '-' :: rest) = isBare.hasMark ('-' :: rest) := by
  induction cs with
  | nil => rfl
  | cons c cs ih =>
    have hno : bareMark.isPrefixOf (c :: (cs ++ '-' :: rest)) = false := by
      rw [Bool.eq_false_iff, Ne, List.isPrefixOf_iff_prefix]
      intro hmark
      have hcs : c :: cs ++ ['-'] <+: c :: (cs ++ '-' :: rest) :=
        ⟨rest, by simp only [List.cons_append, List.append_assoc, List.nil_append]⟩
      rcases Nat.lt_or_ge (c :: cs).length bareMark.length with hlt | hge
      · have hlength : (c :: cs ++ ['-']).length ≤ bareMark.length := by
          rw [List.length_append]
          exact hlt
        have hdash : '-' ∈ bareMark :=
          (List.prefix_of_prefix_length_le hcs hmark hlength).subset
            (List.mem_append_right _ List.mem_cons_self)
        exact absurd hdash (by decide)
      · have hblank : bareMark <+: c :: cs :=
          List.prefix_of_prefix_length_le hmark ⟨'-' :: rest, rfl⟩ hge
        exact h (hblank.subset (by decide))
    rw [List.cons_append, isBare.hasMark, hno, Bool.false_or,
      ih fun hmem => h (List.mem_cons_of_mem _ hmem)]

/-- The file of a private key does not pass for one of bare numbers. -/
theorem isBare_encodePrivate (k : PrivateKey) : isBare (encodePrivate k) = false := by
  have hblank : ' ' ∉ Pem.lines (Text.Base64.encodeList (privateDer k)) := by
    have hdigits := Text.Base64.forall_mem_encodeList (P := (· ≠ ' '))
      (fun n hn => (by decide : ∀ n : Fin 64, Text.Base64.digit n ≠ ' ') ⟨n, hn⟩) (by decide)
      (privateDer k)
    exact fun hmem => Pem.forall_mem_lines (P := (· ≠ ' ')) (by decide) hdigits _ hmem rfl
  have hform : (encodePrivate k).toList = Pem.beginMark ++ privateLabel.toList ++ Pem.closeMark ++
      '\n' :: (Pem.lines (Text.Base64.encodeList (privateDer k)) ++
        (Pem.endMark ++ privateLabel.toList ++ Pem.closeMark ++ ['\n'])) := by
    rw [encodePrivate, Pem.encode, String.toList_ofList]
    simp only [List.append_assoc, List.cons_append]
  rw [isBare, hform]
  -- the first line ends outside the mark, so the search goes on behind it
  calc isBare.hasMark _
      = isBare.hasMark (Pem.lines (Text.Base64.encodeList (privateDer k)) ++
          (Pem.endMark ++ privateLabel.toList ++ Pem.closeMark ++ ['\n'])) := rfl
    _ = isBare.hasMark (Pem.endMark ++ privateLabel.toList ++ Pem.closeMark ++ ['\n']) :=
        hasMark_append hblank _
    _ = false := by decide

/-- **A storable key is read back** from its file. -/
theorem Storable.readPrivate (h : Storable k) : readPrivate (encodePrivate k) = .value k := by
  have hder : privateDer k ≠ [] := List.cons_ne_nil _ _
  have hdecode : Pem.decode? privateLabel (encodePrivate k) = some (privateDer k) :=
    Pem.decode?_encode _ hder
  simp only [KeyFile.readPrivate, isBare_encodePrivate, Bool.false_eq_true, if_false, hdecode,
    Option.bind_some, h.privateOfDer?, h.check, Outcome.mapFailure_value]

/-! ### Codecs -/

/-- A codec that is loaded from the file of a private key, with or without that of its public half,
has both halves. -/
theorem loadCodec_of_readPrivate {publicText privateText : String}
    (hprivate : readPrivate privateText = .value k)
    (hpublic : publicText = "" ∨ readPublic? publicText = some k.toPublic) :
    loadCodec publicText privateText = .value ⟨some k.toPublic, some k⟩ := by
  have hne : privateText.isEmpty = false := by
    rw [String.isEmpty_eq_false_iff]
    rintro rfl
    cases hprivate
  have hhalf : (some <$> readPrivate privateText : Outcome CryptoError (Option PrivateKey)) =
      .value (some k) := by
    rw [hprivate]
    rfl
  simp only [KeyFile.loadCodec, hne, Bool.false_eq_true, if_false, hhalf, Outcome.value_bind]
  split_ifs with hempty
  · rfl
  · have hread : readPublic? publicText = some k.toPublic := by
      refine hpublic.resolve_left fun h => hempty ?_
      rw [h]
      rfl
    rw [hread]
    rfl

/-- **The files of a storable key** load the codec with both halves. -/
theorem Storable.loadCodec (h : Storable k) :
    loadCodec (Pair.ofKey k).publicText (Pair.ofKey k).privateText =
      .value ⟨some k.toPublic, some k⟩ :=
  loadCodec_of_readPrivate h.readPrivate
    (.inr (readPublic?_encodePublic (Rsa.isValid_of_check h.check)))

/-- **The files of a fresh key** are read back, if its primes are more than one. -/
theorem storable_of_generate {bits : Nat} {r r' : Entropy} (h : Rsa.generate bits r = (.ok k, r'))
    (hp : 1 < k.prime1) (hq : 1 < k.prime2) : Storable k :=
  ⟨(Rsa.generate_eq_ok h).1,
    Rsa.privateExponent_lt_of_ofPrimes?
      (Rsa.findKey_eq_some (Rsa.findKey_of_generate h).2).1 hp hq⟩

end KeyFile

end KeyCustody.Crypto
