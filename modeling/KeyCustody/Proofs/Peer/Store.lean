import KeyCustody.Crypto.Ed25519
import KeyCustody.Peer.Store
import KeyCustody.Proofs.Assoc
import KeyCustody.Proofs.Peer.Id
import Mathlib.Data.List.Induction
/-!
# The keys that a peer store resolves

What a store has for a peer depends on the changes since the last one that removed the peer: it has
a record if addresses or a key of the peer came in since, and the record has a key if one was
learned. A learned key belongs to the id of its peer. So does a key that is read from an id made of
a key, since the record that is written is read back. But a reader takes other records as well, with
the fields in another order or with fields it does not know, and an id whose digest is such a record
resolves to a key whose own id is another one.

## Main definitions

* `PeerStore.Knows`: a store has a record of a peer.
* `PeerStore.Change`, `PeerStore.run`: changes, and the store after a list of them.
* `PeerStore.Recorded`, `PeerStore.Learned`: changes leave a record of a peer, and a key in it.
* `PeerStore.Genuine`: learned keys belong to the ids of their peers.

## Main results

* `PublicKey.ofRecord?_toRecord`: the record of a key is read back.
* `PeerStore.genuine_run`: every store is genuine.
* `PeerStore.publicKey?_run`: which key a store resolves for a peer, after any changes.
-/

namespace KeyCustody.Peer

open Crypto (SignatureScheme keyLength)
open Net (Multiaddr)

/-! ### Records are read back -/

/-- A number of one digit is read back. -/
theorem Varint.read_encode_of_lt {bits n : Nat} (hbits : 7 ≤ bits) (hn : n < 128) (rest : Bytes) :
    read bits (encode n ++ rest) = some (n, rest) := by
  have htoNat : (UInt8.ofNat n).toNat = n := by
    rw [UInt8.toNat_ofNat']
    omega
  have hlt : UInt8.ofNat n < 0x80 := by
    rw [UInt8.lt_iff_toNat_lt, htoNat]
    exact hn
  have hpow : n < 2 ^ bits := lt_of_lt_of_le hn (Nat.pow_le_pow_right two_pos hbits)
  rw [encode_of_lt hn]
  simp only [read, longest, List.singleton_append, readDigits, if_pos hlt, htoNat, Option.map_some,
    value, List.foldr_cons, List.foldr_nil, Nat.mul_zero, Nat.add_zero, Nat.pow_eq,
    Nat.mod_eq_of_lt hpow]

namespace KeyRecord

variable {r : KeyRecord} {rest : Bytes}

theorem readField_kind {kind : Nat} (hkind : kind < 128) (rest : Bytes) :
    readField r (Varint.encode kindTag ++ (Varint.encode kind ++ rest)) =
      some ({ r with kind }, rest) := by
  rw [readField, Varint.read_encode_of_lt (by decide) (by decide)]
  simp only [Option.bind_eq_bind, Option.bind_some, if_true]
  rw [Varint.read_encode_of_lt (by decide) hkind]
  rfl

theorem readField_data {data : Bytes} (hdata : data.length < 128) (rest : Bytes) :
    readField r (Varint.encode dataTag ++ (Varint.encode data.length ++ (data ++ rest))) =
      some ({ r with data }, rest) := by
  rw [readField, Varint.read_encode_of_lt (by decide) (by decide)]
  simp only [Option.bind_eq_bind, Option.bind_some, if_neg (by decide : dataTag ≠ kindTag), if_true]
  rw [Varint.read_encode_of_lt (by decide) hdata]
  simp [dropExactly]

theorem readFields_nil (fuel : Nat) : readFields fuel r [] = some r := by
  cases fuel <;> rfl

/-- Fields are read one after the other while there is fuel. -/
theorem readFields_of_readField {fuel : Nat} {r' : KeyRecord} {bs : Bytes} (hbs : bs ≠ [])
    (h : readField r bs = some (r', rest)) :
    readFields (fuel + 1) r bs = readFields fuel r' rest := by
  cases bs with
  | nil => exact absurd rfl hbs
  | cons b bs => simp [readFields, h]

theorem encode_of_lt (hkind : r.kind < 128) (hdata : r.data.length < 128) :
    r.encode = [8, UInt8.ofNat r.kind, 18, UInt8.ofNat r.data.length] ++ r.data := by
  rw [encode, Varint.encode_of_lt hkind, Varint.encode_of_lt hdata,
    Varint.encode_of_lt (by decide : kindTag < 128),
    Varint.encode_of_lt (by decide : dataTag < 128)]
  rfl

/-- A short record is read back. -/
theorem decode?_encode (hkind : r.kind < 128) (hdata : r.data.length < 128) :
    decode? r.encode = some r := by
  have hlength : r.encode.length = r.data.length + 2 + 1 + 1 := by
    rw [encode_of_lt hkind hdata]
    simp
  have hfirst := readField_kind (r := ⟨0, []⟩) hkind
    (Varint.encode dataTag ++ (Varint.encode r.data.length ++ (r.data ++ [])))
  have hsecond := readField_data (r := ⟨r.kind, []⟩) hdata []
  have hencode : r.encode = Varint.encode kindTag ++ (Varint.encode r.kind ++
      (Varint.encode dataTag ++ (Varint.encode r.data.length ++ (r.data ++ [])))) := by
    simp [encode]
  rw [decode?, hlength, hencode,
    readFields_of_readField (by simp [Varint.encode_of_lt, kindTag]) hfirst,
    readFields_of_readField (by simp [Varint.encode_of_lt, dataTag]) hsecond, readFields_nil]

end KeyRecord

namespace PublicKey

theorem decode?_toRecord (k : PublicKey) :
    KeyRecord.decode? k.toRecord = some ⟨KeyRecord.ed25519, k.bytes⟩ :=
  KeyRecord.decode?_encode (r := ⟨KeyRecord.ed25519, k.bytes⟩) (by simp [KeyRecord.ed25519])
    (by simp [k.length_bytes, keyLength])

/-- **The record of a key is read back**, if the scheme accepts the key. -/
theorem ofRecord?_toRecord (S : SignatureScheme) (k : PublicKey) :
    ofRecord? S k.toRecord = if S.isPublic k.bytes then some k else none := by
  rw [ofRecord?, decode?_toRecord]
  simp [k.length_bytes]

theorem toRecord_injective : Function.Injective toRecord := by
  intro k k' h
  have hdecode := congrArg KeyRecord.decode? h
  rw [decode?_toRecord, decode?_toRecord] at hdecode
  cases k
  cases k'
  simpa using hdecode

end PublicKey

namespace PeerId

variable {S : SignatureScheme} {p : PeerId} {k : PublicKey}

theorem ofPublicKey_injective : Function.Injective ofPublicKey := fun _ _ h =>
  PublicKey.toRecord_injective (congrArg digest h)

theorem embeddedKey?_eq_some : p.embeddedKey? S = some k ↔
    p.kind = .inline ∧ PublicKey.ofRecord? S p.digest = some k := by
  obtain ⟨kind, digest, hlength⟩ := p
  cases kind <;> simp [embeddedKey?]

/-- The id of a key has this key in it. -/
theorem embeddedKey?_ofPublicKey (S : SignatureScheme) (k : PublicKey) :
    (ofPublicKey k).embeddedKey? S = if S.isPublic k.bytes then some k else none :=
  PublicKey.ofRecord?_toRecord S k

end PeerId

namespace PeerStore

variable {S : SignatureScheme} {p : PeerId} {k : PublicKey}

/-! ### What a change leaves of a peer -/

theorem get?_addAddrs (s : PeerStore) (p q : PeerId) (addrs : List Multiaddr) (ttl now : Nat) :
    Assoc.get? (s.addAddrs q addrs ttl now).records p =
      if p = q then some (addrs.foldl (PeerRecord.addAddr (now + ttl))
        ((Assoc.get? s.records p).getD .empty))
      else Assoc.get? s.records p := by
  rw [addAddrs, Assoc.modify, Assoc.get?_put]
  by_cases h : p = q
  · rw [if_pos h, if_pos h, h]
  · rw [if_neg h, if_neg h]

/-- A key that does not belong to the id leaves the store as it is. -/
theorem get?_setPublicKey (s : PeerStore) (p q : PeerId) (k : PublicKey) :
    Assoc.get? (s.setPublicKey q k).1.records p =
      if p = q ∧ PeerId.ofPublicKey k = p then
        some ⟨((Assoc.get? s.records p).getD .empty).addrs, some k⟩
      else Assoc.get? s.records p := by
  rw [setPublicKey]
  by_cases hk : PeerId.ofPublicKey k = q
  · rw [if_pos hk, Assoc.modify, Assoc.get?_put]
    by_cases h : p = q
    · rw [if_pos h, if_pos ⟨h, hk.trans h.symm⟩, h]
    · rw [if_neg h, if_neg fun hp => h hp.1]
  · rw [if_neg hk, if_neg fun hp => hk (hp.2.trans hp.1)]

theorem get?_remove (s : PeerStore) (p q : PeerId) :
    Assoc.get? (s.remove q).records p = if p = q then none else Assoc.get? s.records p :=
  Assoc.get?_erase ..

theorem publicKey?_foldl_addAddr (expires : Nat) (addrs : List Multiaddr) (r : PeerRecord) :
    (addrs.foldl (PeerRecord.addAddr expires) r).publicKey? = r.publicKey? := by
  induction addrs generalizing r with
  | nil => rfl
  | cons a addrs ih => exact ih _

/-! ### Known peers -/

/-- The store has a record of a peer. -/
def Knows (s : PeerStore) (p : PeerId) : Prop :=
  ∃ r, Assoc.get? s.records p = some r

theorem knows_addAddrs {s : PeerStore} {q : PeerId} {addrs : List Multiaddr} {ttl now : Nat} :
    (s.addAddrs q addrs ttl now).Knows p ↔ p = q ∨ s.Knows p := by
  rw [Knows, get?_addAddrs]
  by_cases h : p = q <;> simp [h, Knows]

theorem knows_setPublicKey {s : PeerStore} {q : PeerId} :
    (s.setPublicKey q k).1.Knows p ↔ p = q ∧ PeerId.ofPublicKey k = p ∨ s.Knows p := by
  rw [Knows, get?_setPublicKey]
  by_cases h : p = q ∧ PeerId.ofPublicKey k = p
  · simp [h]
  · rw [if_neg h]
    exact ⟨.inr, fun hs => hs.resolve_left h⟩

theorem knows_remove {s : PeerStore} {q : PeerId} : (s.remove q).Knows p ↔ p ≠ q ∧ s.Knows p := by
  rw [Knows, get?_remove]
  by_cases h : p = q <;> simp [h, Knows]

/-- A peer with a good address is known. -/
theorem Knows.of_mem_peers {s : PeerStore} {now : Nat} (h : p ∈ s.peers now) : s.Knows p := by
  obtain ⟨⟨q, r⟩, hmem, rfl⟩ := List.mem_map.1 h
  exact Option.isSome_iff_exists.1 (Assoc.isSome_get?_of_mem (List.mem_of_mem_filter hmem))

/-- The peers with a good address, if no peer has two records. -/
theorem mem_peers {s : PeerStore} {now : Nat} (hs : (Assoc.keys s.records).Nodup) :
    p ∈ s.peers now ↔ s.addrs p now ≠ [] := by
  rw [peers, Assoc.keys, List.mem_map, addrs]
  constructor
  · rintro ⟨⟨q, r⟩, hmem, rfl⟩
    obtain ⟨hmem, hgood⟩ := List.mem_filter.1 hmem
    rw [Assoc.get?_of_mem hs hmem]
    simpa using hgood
  · intro haddrs
    cases hr : Assoc.get? s.records p with
    | none =>
      rw [hr] at haddrs
      exact absurd rfl haddrs
    | some r =>
      rw [hr] at haddrs
      exact ⟨(p, r), List.mem_filter.2 ⟨Assoc.mem_of_get? hr, by simpa using haddrs⟩, rfl⟩

theorem nodup_peers {s : PeerStore} (hs : (Assoc.keys s.records).Nodup) (now : Nat) :
    (s.peers now).Nodup :=
  hs.sublist (List.filter_sublist.map _)

/-! ### Changes -/

/-- A change of a store. -/
inductive Change where
  | addAddrs (p : PeerId) (addrs : List Multiaddr) (ttl now : Nat)
  | setPublicKey (p : PeerId) (k : PublicKey)
  | remove (p : PeerId)

/-- The store after a change. -/
def apply (s : PeerStore) : Change → PeerStore
  | .addAddrs p addrs ttl now => s.addAddrs p addrs ttl now
  | .setPublicKey p k => (s.setPublicKey p k).1
  | .remove p => s.remove p

/-- The store after changes, of which the first one meets the empty store. -/
def run (cs : List Change) : PeerStore :=
  cs.foldl apply empty

theorem run_concat (cs : List Change) (c : Change) : run (cs ++ [c]) = (run cs).apply c := by
  simp [run]

/-- No peer has two records. -/
theorem nodup_keys_run (cs : List Change) : (Assoc.keys (run cs).records).Nodup := by
  induction cs using List.reverseRecOn with
  | nil => exact List.nodup_nil
  | append_singleton cs c ih =>
    rw [run_concat]
    cases c with
    | addAddrs q addrs ttl now => exact Assoc.nodup_keys_put ih _ _
    | setPublicKey q k =>
      rw [apply, setPublicKey]
      split_ifs
      · exact Assoc.nodup_keys_put ih _ _
      · exact ih
    | remove q => exact ih.sublist (List.filter_sublist.map _)

/-- A change leaves a peer with a record: it is about addresses of the peer or about its key. -/
def Change.Records (p : PeerId) : Change → Prop
  | .addAddrs q _ _ _ => p = q
  | .setPublicKey q k => p = q ∧ PeerId.ofPublicKey k = p
  | .remove _ => False

/-- There was a change with some property, and the peer was not removed since. -/
def Since (p : PeerId) (happened : Change → Prop) (cs : List Change) : Prop :=
  ∃ before c after, cs = before ++ c :: after ∧ happened c ∧ Change.remove p ∉ after

/-- A peer has a record. -/
def Recorded (p : PeerId) (cs : List Change) : Prop :=
  Since p (Change.Records p) cs

/-- A peer has a record with a key that belongs to its id. -/
def Learned (p : PeerId) (k : PublicKey) (cs : List Change) : Prop :=
  PeerId.ofPublicKey k = p ∧ Since p (· = .setPublicKey p k) cs

theorem not_since_nil {happened : Change → Prop} : ¬ Since p happened [] := by
  rintro ⟨before, c, after, h, -⟩
  simp at h

theorem since_concat {happened : Change → Prop} {cs : List Change} {c : Change} :
    Since p happened (cs ++ [c]) ↔ happened c ∨ Since p happened cs ∧ c ≠ .remove p := by
  constructor
  · rintro ⟨before, d, after, h, hd, hafter⟩
    rcases List.eq_nil_or_concat after with rfl | ⟨after, e, rfl⟩
    · obtain ⟨rfl, rfl⟩ : cs = before ∧ c = d := by simpa using List.append_inj' h rfl
      exact .inl hd
    · rw [List.concat_eq_append, ← List.cons_append, ← List.append_assoc] at h
      obtain ⟨rfl, hc⟩ := List.append_inj' h rfl
      obtain rfl : c = e := by simpa using hc
      refine .inr ⟨⟨before, d, after, rfl, hd, fun hmem => hafter (by simp [hmem])⟩, ?_⟩
      rintro rfl
      exact hafter (by simp)
  · rintro (hc | ⟨⟨before, d, after, rfl, hd, hafter⟩, hc⟩)
    · exact ⟨cs, c, [], rfl, hc, by simp⟩
    · refine ⟨before, d, after ++ [c], by simp, hd, ?_⟩
      simpa [hafter] using Ne.symm hc

/-! ### Learned keys -/

/-- Learned keys belong to the ids of their peers. -/
def Genuine (s : PeerStore) : Prop :=
  ∀ p r k, Assoc.get? s.records p = some r → r.publicKey? = some k → PeerId.ofPublicKey k = p

/-- What a store has for a peer is what the changes so far leave of it: a record if it is known,
with the key that was learned. -/
def Leaves (cs : List Change) (p : PeerId) : Option PeerRecord → Prop
  | none => ¬ Recorded p cs
  | some r => Recorded p cs ∧ ∀ k, r.publicKey? = some k ↔ Learned p k cs

theorem learned_concat {cs : List Change} {c : Change} : Learned p k (cs ++ [c]) ↔
    PeerId.ofPublicKey k = p ∧ c = .setPublicKey p k ∨ Learned p k cs ∧ c ≠ .remove p := by
  rw [Learned, Learned, since_concat]
  tauto

theorem recorded_of_learned {cs : List Change} (h : Learned p k cs) : Recorded p cs := by
  obtain ⟨hk, before, c, after, rfl, rfl, hafter⟩ := h
  exact ⟨before, _, after, rfl, ⟨rfl, hk⟩, hafter⟩

/-- A change that is not about a peer leaves as much of it as before. -/
theorem Leaves.concat_of_not_records {cs : List Change} {c : Change} {r? : Option PeerRecord}
    (hrecords : ¬ c.Records p) (hremove : c ≠ .remove p) (h : Leaves cs p r?) :
    Leaves (cs ++ [c]) p r? := by
  have hrecorded : Recorded p (cs ++ [c]) ↔ Recorded p cs := by
    simp [Recorded, since_concat, hrecords, hremove]
  have hlearned (k : PublicKey) : Learned p k (cs ++ [c]) ↔ Learned p k cs := by
    rw [learned_concat]
    refine ⟨?_, fun hl => .inr ⟨hl, hremove⟩⟩
    rintro (⟨hk, rfl⟩ | hl)
    · exact absurd ⟨rfl, hk⟩ hrecords
    · exact hl.1
  cases r? with
  | none => exact fun hk => h (hrecorded.1 hk)
  | some r => exact ⟨hrecorded.2 h.1, fun k => (h.2 k).trans (hlearned k).symm⟩

/-- One more change leaves of a peer what it should. -/
theorem Leaves.concat {s : PeerStore} {cs : List Change} (c : Change)
    (h : Leaves cs p (Assoc.get? s.records p)) :
    Leaves (cs ++ [c]) p (Assoc.get? (s.apply c).records p) := by
  -- Without a record nothing was learned, so that a missing record counts as one without a key.
  have hlearned (k : PublicKey) :
      ((Assoc.get? s.records p).getD .empty).publicKey? = some k ↔ Learned p k cs := by
    cases hget : Assoc.get? s.records p with
    | none =>
      rw [hget] at h
      simpa [PeerRecord.empty] using fun hl => h (recorded_of_learned hl)
    | some r =>
      rw [hget] at h
      exact h.2 k
  cases c with
  | addAddrs q addrs ttl now =>
    rw [apply, get?_addAddrs]
    by_cases hq : p = q
    · rw [if_pos hq]
      refine ⟨since_concat.2 (.inl hq), fun k => ?_⟩
      simp [publicKey?_foldl_addAddr, hlearned, learned_concat]
    · rw [if_neg hq]
      exact h.concat_of_not_records hq (by simp)
  | setPublicKey q k' =>
    rw [apply, get?_setPublicKey]
    by_cases hq : p = q ∧ PeerId.ofPublicKey k' = p
    · rw [if_pos hq]
      obtain ⟨rfl, hk'⟩ := hq
      refine ⟨since_concat.2 (.inl ⟨rfl, hk'⟩), fun k => ?_⟩
      rw [learned_concat]
      constructor
      · rintro ⟨⟩
        exact .inl ⟨hk', rfl⟩
      · rintro (⟨-, ⟨⟩⟩ | ⟨hl, -⟩)
        · rfl
        · rw [PeerId.ofPublicKey_injective (hk'.trans hl.1.symm)]
    · rw [if_neg hq]
      exact h.concat_of_not_records hq (by simp)
  | remove q =>
    rw [apply, get?_remove]
    by_cases hq : p = q
    · rw [if_pos hq]
      subst hq
      simp [Leaves, Recorded, since_concat, Change.Records]
    · rw [if_neg hq]
      refine h.concat_of_not_records id ?_
      rintro ⟨⟩
      exact hq rfl

/-- **A store has of a peer what the changes leave of it.** -/
theorem leaves_run (cs : List Change) (p : PeerId) :
    Leaves cs p (Assoc.get? (run cs).records p) := by
  induction cs using List.reverseRecOn with
  | nil => exact not_since_nil
  | append_singleton cs c ih =>
    rw [run_concat]
    exact ih.concat c

/-- **Every store is genuine.** -/
theorem genuine_run (cs : List Change) : (run cs).Genuine := by
  intro p r k hr hk
  have h := leaves_run cs p
  rw [hr] at h
  exact ((h.2 k).1 hk).1

/-! ### Resolved keys -/

/-- **Which key a store resolves for a peer**, after any changes. The peer must have a record. Then
the key whose id the peer has is resolved if it was learned, or else if the scheme accepts it. An id
that is not that of any key still resolves to a key of which its digest is a record, in a form that
is read but not written: the id of this key is another one. -/
theorem publicKey?_run (S : SignatureScheme) (cs : List Change) (p : PeerId) (k : PublicKey) :
    (run cs).publicKey? S p = some k ↔ Recorded p cs ∧
      (PeerId.ofPublicKey k = p ∧ (Learned p k cs ∨ S.isPublic k.bytes) ∨
        (∀ k', PeerId.ofPublicKey k' ≠ p) ∧ p.kind = .inline ∧
          PublicKey.ofRecord? S p.digest = some k) := by
  have hleaves := leaves_run cs p
  rw [publicKey?]
  cases hget : Assoc.get? (run cs).records p with
  | none =>
    rw [hget] at hleaves
    simp [show ¬ Recorded p cs from hleaves]
  | some r =>
    rw [hget] at hleaves
    obtain ⟨hrecorded, hlearned⟩ := hleaves
    simp only [Option.bind_eq_bind, Option.bind_some, hrecorded, true_and]
    cases hkey : r.publicKey? with
    | some k' =>
      have hk' := (hlearned k').1 hkey
      rw [Option.some_or]
      constructor
      · rintro ⟨⟩
        exact .inl ⟨hk'.1, .inl hk'⟩
      · rintro (⟨hk, -⟩ | ⟨hother, -⟩)
        · rw [PeerId.ofPublicKey_injective (hk.trans hk'.1.symm)]
        · exact absurd hk'.1 (hother k')
    | none =>
      have hnone (k : PublicKey) : ¬ Learned p k cs := fun hl => by
        have := (hlearned k).2 hl
        rw [hkey] at this
        cases this
      rw [Option.none_or]
      by_cases hown : ∃ k', PeerId.ofPublicKey k' = p
      · obtain ⟨k', rfl⟩ := hown
        simp only [PeerId.embeddedKey?_ofPublicKey, PeerId.ofPublicKey_injective.eq_iff, hnone,
          false_or]
        constructor
        · intro h
          split_ifs at h with hpublic
          obtain rfl := Option.some.inj h
          exact .inl ⟨rfl, hpublic⟩
        · rintro (⟨rfl, hpublic⟩ | ⟨hother, -⟩)
          · rw [if_pos hpublic]
          · exact absurd rfl (hother k')
      · have hother (k' : PublicKey) : PeerId.ofPublicKey k' ≠ p := fun h => hown ⟨k', h⟩
        rw [PeerId.embeddedKey?_eq_some]
        exact ⟨fun h => .inr ⟨hother, h⟩, fun h => (h.resolve_left fun h => hother k h.1).2⟩

/-! ### Records in another order -/

/-- The id whose digest is the record of a key with the octets before the kind. -/
def reversedId (k : PublicKey) : PeerId where
  kind := .inline
  digest := [18, 32] ++ k.bytes ++ [8, 1]
  length_le := by simp [k.length_bytes, DigestKind.longest, keyLength]

/-- A public key of the signature scheme in use. -/
def someKey : PublicKey where
  bytes := [0x8a, 0x88, 0xe3, 0xdd, 0x74, 0x09, 0xf1, 0x95, 0xfd, 0x52, 0xdb, 0x2d, 0x3c, 0xba,
    0x5d, 0x72, 0xca, 0x67, 0x09, 0xbf, 0x1d, 0x94, 0x12, 0x1b, 0xf3, 0x74, 0x88, 0x01, 0xb4, 0x0f,
    0x6f, 0x5c]
  length_bytes := rfl

/-- An id that is read resolves to a key with another id as soon as there are addresses. -/
theorem publicKey?_reversedId :
    PeerId.ofText? (reversedId someKey).toText = some (reversedId someKey) ∧
    (run [.addAddrs (reversedId someKey) [] 1000 0]).publicKey? Crypto.Ed25519.scheme
      (reversedId someKey) = some someKey ∧
    PeerId.ofPublicKey someKey ≠ reversedId someKey := by
  refine ⟨PeerId.ofText?_toText _, ?_, by decide +kernel⟩
  decide +kernel

end PeerStore

end KeyCustody.Peer
