import KeyCustody.Proofs.Peer.Store
import Mathlib.Data.Set.Card
/-!
# What a peer store shows after changes

An address is kept with the last instant until which any call made it good, so that a later call
with a shorter time takes nothing away. What a store shows at an instant is therefore what the
changes since the last removal of a peer say, each on its own: the addresses that some call made
good for longer, the peers that have such an address, and whether there is a key. The instants of
the changes need not be in order, and what is shown of a peer does not depend on the changes that
are about other peers.

## Main definitions

* `PeerRecord.GoodAt`, `PeerStore.GoodAt`: an address is good at an instant.
* `PeerStore.Change.Adds`: a change makes an address of a peer good at an instant.
* `PeerStore.Change.peer`: the peer that a change is about.

## Main results

* `PeerStore.goodAt_run`: which addresses are good after any changes.
* `PeerStore.get?_run_filter`: a record depends on the changes that are about its peer.
* `PeerStore.shown_after_run`: what a store shows after any changes.
-/

namespace KeyCustody.Peer

open Crypto (SignatureScheme)
open Net (Multiaddr)

namespace PeerRecord

variable {r : PeerRecord} {a b : Multiaddr} {expires t : Nat}

/-! ### Records -/

/-- An address of a record is good at instant `t`. -/
def GoodAt (r : PeerRecord) (a : Multiaddr) (t : Nat) : Prop :=
  ∃ expires, Assoc.get? r.addrs a = some expires ∧ t < expires

theorem mem_goodAddrs (hr : (Assoc.keys r.addrs).Nodup) : a ∈ r.goodAddrs t ↔ r.GoodAt a t := by
  rw [goodAddrs, Assoc.keys, List.mem_map]
  constructor
  · rintro ⟨⟨b, expires⟩, hmem, rfl⟩
    obtain ⟨hmem, hgood⟩ := List.mem_filter.1 hmem
    exact ⟨expires, Assoc.get?_of_mem hr hmem, of_decide_eq_true hgood⟩
  · rintro ⟨expires, hget, hgood⟩
    exact ⟨(a, expires),
      List.mem_filter.2 ⟨Assoc.mem_of_get? hget, decide_eq_true hgood⟩, rfl⟩

theorem nodup_goodAddrs (hr : (Assoc.keys r.addrs).Nodup) (t : Nat) : (r.goodAddrs t).Nodup :=
  hr.sublist (List.filter_sublist.map _)

/-- An address that is added is good until it was to be good anyway, or until `expires`. -/
theorem goodAt_addAddr : (r.addAddr expires a).GoodAt b t ↔ b = a ∧ t < expires ∨ r.GoodAt b t := by
  simp only [GoodAt, addAddr, Assoc.modify, Assoc.get?_put]
  by_cases hb : b = a
  · subst hb
    cases Assoc.get? r.addrs b with
    | none => simp
    | some e => simp
  · simp [hb]

theorem goodAt_foldl_addAddr (addrs : List Multiaddr) :
    (addrs.foldl (addAddr expires) r).GoodAt a t ↔ a ∈ addrs ∧ t < expires ∨ r.GoodAt a t := by
  induction addrs generalizing r with
  | nil => simp
  | cons b addrs ih =>
    rw [List.foldl_cons, ih, goodAt_addAddr, List.mem_cons]
    tauto

theorem nodup_foldl_addAddr (hr : (Assoc.keys r.addrs).Nodup) (addrs : List Multiaddr) :
    (Assoc.keys (addrs.foldl (addAddr expires) r).addrs).Nodup := by
  induction addrs generalizing r with
  | nil => exact hr
  | cons b addrs ih => exact ih (Assoc.nodup_keys_put hr _ _)

end PeerRecord

namespace PeerStore

variable {S : SignatureScheme} {s : PeerStore} {p q : PeerId} {a : Multiaddr} {t : Nat}
  {cs : List Change} {c : Change}

/-! ### Good addresses -/

/-- An address of a peer is good at instant `t`. -/
def GoodAt (s : PeerStore) (p : PeerId) (a : Multiaddr) (t : Nat) : Prop :=
  ∃ r, Assoc.get? s.records p = some r ∧ r.GoodAt a t

/-- The change makes an address of a peer good at instant `t`. -/
def Change.Adds (p : PeerId) (a : Multiaddr) (t : Nat) (c : Change) : Prop :=
  ∃ addrs ttl now, c = .addAddrs p addrs ttl now ∧ a ∈ addrs ∧ t < now + ttl

theorem goodAt_addAddrs {addrs : List Multiaddr} {ttl now : Nat} :
    (s.addAddrs q addrs ttl now).GoodAt p a t ↔
      (q = p ∧ a ∈ addrs ∧ t < now + ttl) ∨ s.GoodAt p a t := by
  rw [GoodAt, GoodAt, get?_addAddrs]
  by_cases hp : p = q
  · subst hp
    simp only [if_true, Option.some.injEq, exists_eq_left', PeerRecord.goodAt_foldl_addAddr,
      true_and]
    cases Assoc.get? s.records p with
    | none => simp [PeerRecord.empty, PeerRecord.GoodAt, Assoc.get?]
    | some r => simp
  · simp [hp, Ne.symm hp]

theorem goodAt_setPublicKey {k : PublicKey} :
    (s.setPublicKey q k).1.GoodAt p a t ↔ s.GoodAt p a t := by
  rw [GoodAt, GoodAt, get?_setPublicKey]
  split_ifs
  · cases Assoc.get? s.records p with
    | none => simp [PeerRecord.empty, PeerRecord.GoodAt, Assoc.get?]
    | some r => simp [PeerRecord.GoodAt]
  · rfl

theorem goodAt_remove : (s.remove q).GoodAt p a t ↔ q ≠ p ∧ s.GoodAt p a t := by
  rw [GoodAt, GoodAt, get?_remove]
  by_cases hp : p = q
  · simp [hp]
  · simp [hp, Ne.symm hp]

/-- **What a change does to the good addresses**: one that is about the peer adds to them, or takes
all of them away. -/
theorem goodAt_apply (s : PeerStore) (c : Change) :
    (s.apply c).GoodAt p a t ↔ c.Adds p a t ∨ s.GoodAt p a t ∧ c ≠ .remove p := by
  cases c with
  | addAddrs q addrs ttl now => simp [apply, goodAt_addAddrs, Change.Adds]
  | setPublicKey q k => simp [apply, goodAt_setPublicKey, Change.Adds]
  | remove q => simp [apply, goodAt_remove, Change.Adds, and_comm]

/-- **Which addresses are good after any changes.** -/
theorem goodAt_run (cs : List Change) : (run cs).GoodAt p a t ↔ Since p (Change.Adds p a t) cs := by
  induction cs using List.reverseRecOn with
  | nil => simp [run, GoodAt, empty, Assoc.get?, not_since_nil]
  | append_singleton cs c ih => rw [run_concat, goodAt_apply, since_concat, ih]

/-! ### Views -/

/-- No address of a peer is kept twice. -/
theorem nodup_addrs_run (cs : List Change) {p : PeerId} {r : PeerRecord}
    (hr : Assoc.get? (run cs).records p = some r) : (Assoc.keys r.addrs).Nodup := by
  have hempty : (Assoc.keys PeerRecord.empty.addrs).Nodup := List.nodup_nil
  induction cs using List.reverseRecOn generalizing r with
  | nil => cases hr
  | append_singleton cs c ih =>
    have hbefore : (Assoc.keys ((Assoc.get? (run cs).records p).getD .empty).addrs).Nodup := by
      cases hget : Assoc.get? (run cs).records p with
      | none => exact hempty
      | some r => exact ih hget
    rw [run_concat] at hr
    cases c with
    | addAddrs q addrs ttl now =>
      rw [apply, get?_addAddrs] at hr
      split_ifs at hr
      · obtain rfl := Option.some.inj hr
        exact PeerRecord.nodup_foldl_addAddr hbefore addrs
      · exact ih hr
    | setPublicKey q k =>
      rw [apply, get?_setPublicKey] at hr
      split_ifs at hr
      · obtain rfl := Option.some.inj hr
        exact hbefore
      · exact ih hr
    | remove q =>
      rw [apply, get?_remove] at hr
      split_ifs at hr
      exact ih hr

theorem mem_addrs_run (cs : List Change) :
    a ∈ (run cs).addrs p t ↔ Since p (Change.Adds p a t) cs := by
  rw [← goodAt_run, addrs, GoodAt]
  cases hr : Assoc.get? (run cs).records p with
  | none => simp
  | some r => simp [PeerRecord.mem_goodAddrs (nodup_addrs_run cs hr)]

theorem nodup_addrs (cs : List Change) (p : PeerId) (t : Nat) : ((run cs).addrs p t).Nodup := by
  rw [addrs]
  cases hr : Assoc.get? (run cs).records p with
  | none => exact List.nodup_nil
  | some r => exact PeerRecord.nodup_goodAddrs (nodup_addrs_run cs hr) t

theorem mem_peers_run (cs : List Change) :
    p ∈ (run cs).peers t ↔ ∃ a, Since p (Change.Adds p a t) cs := by
  rw [mem_peers (nodup_keys_run cs)]
  constructor
  · intro hne
    obtain ⟨a, ha⟩ := List.exists_mem_of_ne_nil _ hne
    exact ⟨a, (mem_addrs_run cs).1 ha⟩
  · rintro ⟨a, ha⟩
    exact List.ne_nil_of_mem ((mem_addrs_run cs).2 ha)

theorem size_run (cs : List Change) (t : Nat) :
    (run cs).size t = {p | ∃ a, Since p (Change.Adds p a t) cs}.ncard := by
  have hset : {p | ∃ a, Since p (Change.Adds p a t) cs} =
      (((run cs).peers t).toFinset : Set PeerId) := by
    ext p
    simp [mem_peers_run]
  rw [hset, Set.ncard_coe_finset, List.toFinset_card_of_nodup (nodup_peers (nodup_keys_run cs) t),
    size]

/-- A store resolves some key for a peer with a record, if one was learned or the id has one in
it. -/
theorem isSome_publicKey?_run (S : SignatureScheme) (cs : List Change) (p : PeerId) :
    ((run cs).publicKey? S p).isSome ↔
      Recorded p cs ∧ ((∃ k, Learned p k cs) ∨ (p.embeddedKey? S).isSome) := by
  have hleaves := leaves_run cs p
  rw [publicKey?]
  cases hget : Assoc.get? (run cs).records p with
  | none =>
    rw [hget] at hleaves
    simp [show ¬ Recorded p cs from hleaves]
  | some r =>
    rw [hget] at hleaves
    obtain ⟨hrecorded, hlearned⟩ := hleaves
    simp [hrecorded, ← hlearned, Option.isSome_iff_exists]

/-! ### One peer beside the others -/

/-- The peer that a change is about. -/
def Change.peer : Change → PeerId
  | .addAddrs p _ _ _ => p
  | .setPublicKey p _ => p
  | .remove p => p

theorem get?_apply_of_ne (s : PeerStore) {c : Change} (hc : p ≠ c.peer) :
    Assoc.get? (s.apply c).records p = Assoc.get? s.records p := by
  cases c with
  | addAddrs q addrs ttl now =>
    rw [apply, get?_addAddrs]
    exact if_neg hc
  | setPublicKey q k =>
    rw [apply, get?_setPublicKey]
    exact if_neg fun h => hc h.1
  | remove q =>
    rw [apply, get?_remove]
    exact if_neg hc

theorem get?_apply_congr {s s' : PeerStore} (c : Change)
    (h : Assoc.get? s.records p = Assoc.get? s'.records p) :
    Assoc.get? (s.apply c).records p = Assoc.get? (s'.apply c).records p := by
  cases c with
  | addAddrs q addrs ttl now => rw [apply, apply, get?_addAddrs, get?_addAddrs, h]
  | setPublicKey q k => rw [apply, apply, get?_setPublicKey, get?_setPublicKey, h]
  | remove q => rw [apply, apply, get?_remove, get?_remove, h]

/-- **A record depends on the changes that are about its peer.** -/
theorem get?_run_filter (cs : List Change) (p : PeerId) :
    Assoc.get? (run cs).records p =
      Assoc.get? (run (cs.filter fun c => c.peer = p)).records p := by
  induction cs using List.reverseRecOn with
  | nil => rfl
  | append_singleton cs c ih =>
    rw [run_concat, List.filter_append, List.filter_singleton]
    by_cases hc : c.peer = p
    · rw [decide_eq_true hc, cond_true, run_concat]
      exact get?_apply_congr c ih
    · rw [decide_eq_false hc, cond_false, List.append_nil, get?_apply_of_ne _ (Ne.symm hc), ih]

/-! ### After any changes -/

/-- **What a store shows after any changes.** At every instant it shows, without repetition, the
addresses of a peer that some call since its last removal made good for longer, and the peers that
have such an address, as many as there are. It resolves a key for a peer just if it came to have a
record since its last removal, and a key of this peer was learned since, or there is one in the id;
whether addresses are still good does not matter. All of this is as if the changes that are about
other peers had not been. -/
theorem shown_after_run (S : SignatureScheme) (cs : List Change) (t : Nat) :
    (∀ p, ((run cs).addrs p t).Nodup ∧
      ∀ a, a ∈ (run cs).addrs p t ↔ Since p (Change.Adds p a t) cs) ∧
    (((run cs).peers t).Nodup ∧
      (∀ p, p ∈ (run cs).peers t ↔ ∃ a, Since p (Change.Adds p a t) cs) ∧
      (run cs).size t = {p | ∃ a, Since p (Change.Adds p a t) cs}.ncard) ∧
    (∀ p, ((run cs).publicKey? S p).isSome ↔
      Recorded p cs ∧ ((∃ k, Learned p k cs) ∨ (p.embeddedKey? S).isSome)) ∧
    ∀ p, let own := run (cs.filter fun c => c.peer = p)
      (run cs).addrs p t = own.addrs p t ∧ (p ∈ (run cs).peers t ↔ p ∈ own.peers t) ∧
        (run cs).publicKey? S p = own.publicKey? S p := by
  refine ⟨fun p => ⟨nodup_addrs cs p t, fun a => mem_addrs_run cs⟩,
    ⟨nodup_peers (nodup_keys_run cs) t, fun p => mem_peers_run cs, size_run cs t⟩,
    isSome_publicKey?_run S cs, fun p => ?_⟩
  have hget := get?_run_filter cs p
  have haddrs : (run cs).addrs p t = (run (cs.filter fun c => c.peer = p)).addrs p t := by
    rw [addrs, addrs, hget]
  refine ⟨haddrs, ?_, by rw [publicKey?, publicKey?, hget]⟩
  rw [mem_peers (nodup_keys_run _), mem_peers (nodup_keys_run _), haddrs]

end PeerStore

end KeyCustody.Peer
