import KeyCustody.Proofs.Pending.Table
/-!
# Receiving ends that are there

As long as the receiving end of a registration is there, its slot stays, whatever is done under
other ids: nothing but the removal of its id, a new registration under it or the wait on it takes
the slot or its receiving end away.

## Main definitions

* `Table.Listens`: the receiving end of a registration is there.
* `Table.Spares`: a slot with a receiving end that is there stays.
* `Table.Live`: slots whose receiving end is there have a value, or may still get one.

## Main results

* `listens_insert`, `listens_remove` and their kin: one lemma for each operation.
* `spares_insert`, `spares_takeSender` and their kin: what an operation does to the slots under
  other ids.
* `Live.insert`, `Live.send` and their kin: no operation loses the sending end of a slot that stays.
-/

namespace KeyCustody.Pending

variable {α : Type}

namespace Table

variable {t : Table α} {id j : String} {r k : Nat} {v : α}

/-- The receiving end of a registration is there. -/
def Listens (t : Table α) (r : Nat) : Prop :=
  (t.channel? r).any Channel.hasReceiver = true

theorem listens_updateChannel {f : Channel α → Channel α} :
    (t.updateChannel k f).Listens r ↔
      if k = r then (t.channel? r).any (fun c => (f c).hasReceiver) = true else t.Listens r := by
  rw [Listens, channel?_updateChannel]
  split_ifs
  · rw [Option.any_map]
  · rfl

theorem listens_send : (t.send k v).1.Listens r ↔ t.Listens r := by
  rw [send, listens_updateChannel]
  split_ifs <;> rfl

theorem listens_dropReceiver : (t.dropReceiver k).Listens r ↔ t.Listens r ∧ r ≠ k := by
  rw [dropReceiver, listens_updateChannel]
  split_ifs with h
  · simp [h]
  · simp [Ne.symm h]

/-- A slot that stays when another goes keeps its receiving end. -/
theorem listens_remove (ht : t.Separate) (ho : (t.remove id).Owns j r) :
    (t.remove id).Listens r ↔ t.Listens r := by
  obtain ⟨ho, hj⟩ := owns_of_remove ho
  have hne : ¬ t.Owns id r := fun hid => hj (ht.unique ho hid)
  rw [Listens, channel?_remove_of_not_owns hne]
  rfl

theorem listens_insert (ht : t.Separate) (ho : (t.insert id).Owns j r)
    (hr : r < t.channels.length) : (t.insert id).Listens r ↔ t.Listens r := by
  have hkept : (t.insert id).channel? r = (t.remove id).channel? r := by
    rw [insert, channel?, List.getElem?_append_left (by simpa using hr)]
    rfl
  rw [Listens, hkept]
  exact listens_remove ht (owns_remove_of_insert ho hr)

/-- A fresh slot has its receiving end. -/
theorem listens_insert_self (t : Table α) (id : String) :
    (t.insert id).Listens t.channels.length := by
  rw [Listens, channel?, insert, ← length_remove t id, List.getElem?_concat_length]
  rfl

theorem listens_takeSender (ht : t.Separate) (ho : (t.takeSender id).1.Owns j r) :
    (t.takeSender id).1.Listens r ↔ t.Listens r := by
  cases htake : (t.takeSender id).2 with
  | some k =>
    obtain ⟨s, -, -, -, heq⟩ := takeSender_eq_some htake
    rw [heq]
    rfl
  | none =>
    rcases takeSender_eq_none htake with heq | ⟨heq, -⟩
    · rw [heq]
    · rw [heq] at ho ⊢
      exact listens_remove ht ho

theorem listens_takeReceiver : (t.takeReceiver id).1.Listens r ↔ t.Listens r := by
  cases htake : (t.takeReceiver id).2 with
  | some k =>
    obtain ⟨s, -, -, -, heq⟩ := takeReceiver_eq_some htake
    rw [heq]
    rfl
  | none => rw [table_takeReceiver_of_none htake]

/-! ### Slots that are left alone -/

/-- From one table to another, a slot with a receiving end that is there keeps its registration and
its receiving end. -/
def Spares (t t' : Table α) (id : String) : Prop :=
  ∀ s, Assoc.get? t.slots id = some s → t.Listens s.registration →
    ∃ s', Assoc.get? t'.slots id = some s' ∧ s'.registration = s.registration ∧
      s'.holdsReceiver = s.holdsReceiver ∧ t'.Listens s.registration

theorem Spares.refl (t : Table α) (id : String) : t.Spares t id :=
  fun s hs hlistens => ⟨s, hs, rfl, rfl, hlistens⟩

theorem Spares.trans {t' t'' : Table α} (h : t.Spares t' id) (h' : t'.Spares t'' id) :
    t.Spares t'' id := by
  intro s hs hlistens
  obtain ⟨s', hs', hr, hheld, hlistens'⟩ := h s hs hlistens
  rw [← hr] at hlistens'
  obtain ⟨s'', hs'', hr', hheld', hlistens''⟩ := h' s' hs' hlistens'
  exact ⟨s'', hs'', hr'.trans hr, hheld'.trans hheld, hr ▸ hlistens''⟩

/-- A slot stays as it is when the slot under another id goes. -/
theorem spares_remove (ht : t.Separate) (hj : j ≠ id) : t.Spares (t.remove id) j := by
  intro s hs hlistens
  refine ⟨s, by rw [get?_slots_remove, if_neg hj, hs], rfl, rfl, ?_⟩
  exact (listens_remove ht (owns_remove ⟨s, hs, rfl⟩ hj)).2 hlistens

theorem spares_insert (ht : t.Separate) (hj : j ≠ id) : t.Spares (t.insert id) j := by
  intro s hs hlistens
  have hstays : Assoc.get? (t.insert id).slots j = some s := by
    rw [insert, Assoc.get?_put, if_neg hj, get?_slots_remove, if_neg hj, hs]
  exact ⟨s, hstays, rfl, rfl,
    (listens_insert ht ⟨s, hstays, rfl⟩ (ht.lt ⟨s, hs, rfl⟩)).2 hlistens⟩

/-- A delivery takes no slot away of which the receiving end is there. -/
theorem spares_takeSender (ht : t.Separate) (id j : String) : t.Spares (t.takeSender id).1 j := by
  cases htake : (t.takeSender id).2 with
  | some k =>
    obtain ⟨s', hs', -, -, htable⟩ := takeSender_eq_some htake
    rw [htable]
    intro s hs hlistens
    by_cases hj : j = id
    · rw [hj, hs'] at hs
      obtain rfl := Option.some.inj hs
      exact ⟨_, (Assoc.get?_put _ _ _ _).trans (if_pos hj), rfl, rfl, hlistens⟩
    · exact ⟨s, by rw [Assoc.get?_put, if_neg hj, hs], rfl, rfl, hlistens⟩
  | none =>
    rcases takeSender_eq_none htake with htable | ⟨htable, s', hs', -, hgone⟩ <;> rw [htable]
    · exact .refl t j
    · by_cases hj : j = id
      · intro s hs hlistens
        rw [hj, hs'] at hs
        obtain rfl := Option.some.inj hs
        rw [Listens, hgone] at hlistens
        cases hlistens
      · exact spares_remove ht hj

theorem spares_send (t : Table α) (r : Nat) (v : α) (j : String) : t.Spares (t.send r v).1 j :=
  fun s hs hlistens => ⟨s, hs, rfl, rfl, listens_send.2 hlistens⟩

theorem spares_dropReceiver (hr : ¬ t.Owns j r) : t.Spares (t.dropReceiver r) j :=
  fun s hs hlistens => ⟨s, hs, rfl, rfl,
    listens_dropReceiver.2 ⟨hlistens, fun heq => hr ⟨s, hs, heq⟩⟩⟩

theorem spares_takeReceiver (hj : j ≠ id) : t.Spares (t.takeReceiver id).1 j := by
  intro s hs hlistens
  refine ⟨s, ?_, rfl, rfl, listens_takeReceiver.2 hlistens⟩
  cases htake : (t.takeReceiver id).2 with
  | some k =>
    obtain ⟨s', -, -, -, ht⟩ := takeReceiver_eq_some htake
    rw [ht, Assoc.get?_put, if_neg hj, hs]
  | none => rw [table_takeReceiver_of_none htake, hs]

/-! ### Slots that are not lost -/

/-- A slot whose receiving end is there has a value in its channel, or its sending end is there as
well, so that a value may come. -/
def Live (t : Table α) : Prop :=
  ∀ id r c, t.Owns id r → t.channel? r = some c → c.hasReceiver = true →
    c.value?.isSome = true ∨ c.hasSender = true

theorem live_empty : (empty : Table α).Live := by
  rintro id r c ⟨s, hs, -⟩
  cases hs

/-- Slots that stay with their channels stay as they are. -/
theorem Live.of_owns {t' : Table α} (h : t.Live)
    (hstays : ∀ id r, t'.Owns id r → t.Owns id r ∧ t'.channel? r = t.channel? r) : t'.Live := by
  intro id r c ho hc
  obtain ⟨ho, hsame⟩ := hstays id r ho
  exact h id r c ho (hsame.symm.trans hc)

theorem Live.remove (h : t.Live) (ht : t.Separate) (id : String) : (t.remove id).Live := by
  refine h.of_owns fun j r ho => ?_
  obtain ⟨ho, hj⟩ := owns_of_remove ho
  exact ⟨ho, channel?_remove_of_not_owns fun ho' => hj (ht.unique ho ho')⟩

theorem Live.insert (h : t.Live) (ht : t.Separate) (id : String) : (t.insert id).Live := by
  intro j r c ho hc hreceiver
  by_cases hr : r < t.channels.length
  · have hkept : (t.insert id).channel? r = (t.remove id).channel? r :=
      List.getElem?_append_left (by simpa using hr)
    exact h.remove ht id j r c (owns_remove_of_insert ho hr) (hkept.symm.trans hc) hreceiver
  · rcases owns_of_insert ho with ho | ⟨-, rfl⟩
    · exact absurd (ht.lt ho) hr
    · rw [channel?, Table.insert, ← length_remove t id, List.getElem?_concat_length] at hc
      exact .inr (by rw [← Option.some.inj hc])

theorem Live.takeSender (h : t.Live) (ht : t.Separate) (id : String) :
    (t.takeSender id).1.Live := by
  cases htake : (t.takeSender id).2 with
  | some k =>
    obtain ⟨s, -, -, -, heq⟩ := takeSender_eq_some htake
    exact h.of_owns fun j r ho => ⟨owns_of_takeSender ho, by rw [heq]; rfl⟩
  | none =>
    rcases takeSender_eq_none htake with heq | ⟨heq, -⟩ <;> rw [heq]
    · exact h
    · exact h.remove ht id

/-- What is sent while the receiving end is there is in the channel. -/
theorem Live.send (h : t.Live) (k : Nat) (v : α) : (t.send k v).1.Live := by
  intro id r c ho hc hreceiver
  rw [Table.send, channel?_updateChannel] at hc
  by_cases hk : k = r
  · subst hk
    rw [if_pos rfl] at hc
    obtain ⟨d, hd, rfl⟩ := Option.map_eq_some_iff.1 hc
    have haccepted : (t.channel? k).any Channel.hasReceiver = true := by
      rw [hd, Option.any_some]
      exact hreceiver
    exact .inl (by simp only [haccepted, if_true, Option.isSome_some])
  · rw [if_neg hk] at hc
    exact h id r c ho hc hreceiver

theorem Live.takeReceiver (h : t.Live) (id : String) : (t.takeReceiver id).1.Live := by
  cases htake : (t.takeReceiver id).2 with
  | some k =>
    obtain ⟨s, -, -, -, heq⟩ := takeReceiver_eq_some htake
    exact h.of_owns fun j r ho => ⟨owns_of_takeReceiver ho, by rw [heq]; rfl⟩
  | none =>
    rw [table_takeReceiver_of_none htake]
    exact h

theorem Live.dropReceiver (h : t.Live) (k : Nat) : (t.dropReceiver k).Live := by
  intro id r c ho hc hreceiver
  rw [Table.dropReceiver, channel?_updateChannel] at hc
  split_ifs at hc with hk
  · obtain ⟨d, -, rfl⟩ := Option.map_eq_some_iff.1 hc
    cases hreceiver
  · exact h id r c ho hc hreceiver

/-- The receiving end of a live slot does not see a closed channel. -/
theorem Live.receive_ne_closed (h : t.Live) (ho : t.Owns id r) (hr : t.Listens r) :
    t.receive r ≠ .closed := by
  obtain ⟨c, hc, hreceiver⟩ := (Option.any_eq_true _ _).1 hr
  rw [receive, hc]
  rcases h id r c ho hc hreceiver with hv | hsender
  · obtain ⟨v, hv⟩ := Option.isSome_iff_exists.1 hv
    simp [hv]
  · cases hv : c.value? <;> simp [hv, hsender]

end Table

namespace Waiter

variable {t : Table α} {id j : String} {poll timeout now : Nat}

/-- A wait that begins loses no other slot. -/
theorem live_begin (h : t.Live) : (begin t id poll timeout now).1.Live := by
  rcases table_begin t id poll timeout now with hb | ⟨k, hb⟩ <;> rw [hb]
  · exact h.takeReceiver id
  · exact (h.takeReceiver id).dropReceiver k

/-- A wait that begins leaves the slots under other ids alone. -/
theorem spares_begin (ht : t.Separate) (hj : j ≠ id) :
    t.Spares (begin t id poll timeout now).1 j := by
  cases hb : (begin t id poll timeout now).2 with
  | value w =>
    rw [(begin_eq_value hb).2.2]
    exact Table.spares_takeReceiver hj
  | failure e =>
    rw [(begin_eq_failure hb).2.2]
    exact .refl t j
  | breakdown b =>
    cases htake : (t.takeReceiver id).2 with
    | none =>
      rw [begin_of_takeReceiver_eq_none htake] at hb
      cases hb
    | some r =>
      rw [begin_eq_breakdown hb htake]
      refine (Table.spares_takeReceiver hj).trans (Table.spares_dropReceiver fun ho => hj ?_)
      exact ht.unique (Table.owns_of_takeReceiver ho) (Table.owns_of_takeReceiver_eq_some htake)

end Waiter

end KeyCustody.Pending
