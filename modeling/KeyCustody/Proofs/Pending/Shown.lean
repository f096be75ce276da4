import KeyCustody.Proofs.Pending.Table
/-!
# One slot among others

What a slot and its channel are after each operation of the call that registered the slot, and of
the delivery to it: both ends are there at first, a delivery takes the sending end and sends, a wait
takes the receiving end. Whatever is done meanwhile under other ids and for other registrations
changes neither the slot nor its channel, and brings no slot back that is gone.

## Main definitions

* `Table.Shows`: the slot under an id, and its channel.
* `Table.Elsewhere`: a change of the table that is about other slots.

## Main results

* `Table.shows_insert`, `Table.Shows.takeSender`, `Table.Shows.send`, `Table.Shows.begin`: one lemma
  for each operation on the slot.
* `Table.Shows.elsewhere`, `Table.Elsewhere.owns`: other changes.
-/

namespace KeyCustody.Pending

variable {α : Type}

namespace Table

variable {t t' : Table α} {id j : String} {r : Nat} {s : Slot} {c : Channel α} {v : α}

/-- The slot under an id, with the channel of its registration, which is that of no other slot. -/
structure Shows (t : Table α) (id : String) (s : Slot) (c : Channel α) : Prop where
  separate : t.Separate
  slot : Assoc.get? t.slots id = some s
  channel : t.channel? s.registration = some c

theorem Shows.owns (h : t.Shows id s c) : t.Owns id s.registration :=
  ⟨s, h.slot, rfl⟩

/-- A fresh slot has both ends of its channel. -/
theorem shows_insert (ht : t.Separate) (id : String) :
    (t.insert id).Shows id ⟨t.channels.length, true, true⟩ ⟨none, true, true⟩ where
  separate := ht.insert id
  slot := by simp [insert, Assoc.get?_put]
  channel := by rw [channel?, insert, ← length_remove t id, List.getElem?_concat_length]

/-! ### Delivery to the slot -/

/-- The sending end is taken if it is there, and nothing else changes. -/
theorem Shows.takeSender (h : t.Shows id s c) (hs : s.holdsSender = true)
    (hc : c.hasReceiver = true) :
    t.takeSender id = ((t.takeSender id).1, some s.registration) ∧
      (t.takeSender id).1.Shows id { s with holdsSender := false } c := by
  have htaken : (t.takeSender id).2 = some s.registration :=
    takeSender_of_isOpen ⟨s, c, h.slot, rfl, hs, h.channel, hc⟩
  obtain ⟨s', hs', -, -, ht⟩ := takeSender_eq_some htaken
  obtain rfl := Option.some.inj (h.slot.symm.trans hs')
  refine ⟨Prod.ext rfl htaken, h.separate.takeSender id, ?_, ?_⟩
  · rw [ht, Assoc.get?_put, if_pos rfl]
  · rw [ht]
    exact h.channel

/-- A delivery finds no sending end that was taken before. -/
theorem deliver_of_holdsSender_eq_false (h : Assoc.get? t.slots id = some s)
    (hs : s.holdsSender = false) (v : α) : (t.deliver id v).1 = t := by
  simp [deliver, Table.takeSender, h, hs]

/-- A delivery gives no slot. -/
theorem owns_of_deliver (h : (t.deliver id v).1.Owns j r) : t.Owns j r := by
  have htaken : (t.takeSender id).1.Owns j r := by
    unfold Table.deliver at h
    split at h <;> rename_i htake <;> rw [htake]
    · exact h
    · exact owns_of_send h
  exact owns_of_takeSender htaken

/-- What is sent is in the channel, from which the sending end is gone. -/
theorem Shows.send (h : t.Shows id s c) (hc : c.hasReceiver = true) (v : α) :
    (t.send s.registration v).1.Shows id s ⟨some v, false, true⟩ where
  separate := h.separate.send _ v
  slot := h.slot
  channel := by
    simp only [Table.send, channel?_updateChannel, if_true, h.channel, Option.any_some, hc,
      Option.map_some]

/-! ### The wait on the slot -/

/-- A wait that begins takes the receiving end, and nothing else changes. -/
theorem Shows.begin (h : t.Shows id s c) (hs : s.holdsReceiver = true) {poll now : Nat}
    (timeout : Nat) (hpoll : poll ≠ 0) (hnow : now + poll < lastInstant) :
    Waiter.begin t id poll timeout now = ((t.takeReceiver id).1,
        .value ⟨id, s.registration, poll, now + timeout, now + poll⟩) ∧
      (t.takeReceiver id).1.Shows id { s with holdsReceiver := false } c := by
  have htake : t.takeReceiver id = ({ t with
      slots := Assoc.put t.slots id { s with holdsReceiver := false } }, some s.registration) := by
    simp only [Table.takeReceiver, h.slot, hs, if_true]
  refine ⟨?_, h.separate.takeReceiver id, ?_, ?_⟩
  · rw [Waiter.begin, htake]
    simp only [if_neg (Nat.not_le.2 hnow), if_neg hpoll]
  · rw [htake, Assoc.get?_put, if_pos rfl]
  · rw [htake]
    exact h.channel

/-- The receiving end sees the value of the channel. -/
theorem Shows.receive (h : t.Shows id s c) (hc : c.value?.isNone = c.hasSender) :
    t.receive s.registration = c.value?.elim .empty .value := by
  cases hv : c.value? with
  | none =>
    rw [hv] at hc
    simp [Table.receive, h.channel, hv, ← hc]
  | some v => simp [Table.receive, h.channel, hv]

/-! ### Other slots -/

/-- A change of the table that is about another id than `id` and another registration than `r`. -/
inductive Elsewhere (id : String) (r : Nat) (t : Table α) : Table α → Prop
  | insert {j : String} (hj : j ≠ id) : Elsewhere id r t (t.insert j)
  | remove {j : String} (hj : j ≠ id) : Elsewhere id r t (t.remove j)
  | takeSender {j : String} (hj : j ≠ id) : Elsewhere id r t (t.takeSender j).1
  | send {k : Nat} (hk : k ≠ r) (v : α) : Elsewhere id r t (t.send k v).1
  | begin {j : String} (hj : j ≠ id) (poll timeout now : Nat) :
      Elsewhere id r t (Waiter.begin t j poll timeout now).1
  | dropReceiver {k : Nat} (hk : k ≠ r) : Elsewhere id r t (t.dropReceiver k)

theorem Shows.remove (h : t.Shows id s c) (hj : j ≠ id) : (t.remove j).Shows id s c where
  separate := h.separate.remove j
  slot := by rw [get?_slots_remove, if_neg hj.symm, h.slot]
  channel := by
    rw [channel?_remove_of_not_owns fun ho => hj (h.separate.unique ho h.owns), h.channel]

theorem Shows.insert (h : t.Shows id s c) (hj : j ≠ id) : (t.insert j).Shows id s c where
  separate := h.separate.insert j
  slot := by rw [Table.insert, Assoc.get?_put, if_neg hj.symm, (h.remove hj).slot]
  channel := by
    have hlt : s.registration < (t.remove j).channels.length := by
      rw [length_remove]
      exact h.separate.lt h.owns
    rw [Table.insert, channel?, List.getElem?_append_left hlt]
    exact (h.remove hj).channel

/-- Another slot that is changed in its place leaves this one. -/
theorem Shows.put (h : t.Shows id s c) (hj : j ≠ id) {s' : Slot}
    (hsep : Separate { t with slots := Assoc.put t.slots j s' }) :
    Shows { t with slots := Assoc.put t.slots j s' } id s c :=
  ⟨hsep, by rw [Assoc.get?_put, if_neg hj.symm, h.slot], h.channel⟩

theorem Shows.takeSender_of_ne (h : t.Shows id s c) (hj : j ≠ id) :
    (t.takeSender j).1.Shows id s c := by
  have hsep := h.separate.takeSender j
  cases htake : (t.takeSender j).2 with
  | some k =>
    obtain ⟨s', -, -, -, ht⟩ := takeSender_eq_some htake
    rw [ht] at hsep ⊢
    exact h.put hj hsep
  | none =>
    rcases takeSender_eq_none htake with ht | ⟨ht, -⟩ <;> rw [ht]
    · exact h
    · exact h.remove hj

theorem Shows.takeReceiver_of_ne (h : t.Shows id s c) (hj : j ≠ id) :
    (t.takeReceiver j).1.Shows id s c := by
  have hsep := h.separate.takeReceiver j
  cases htake : (t.takeReceiver j).2 with
  | some k =>
    obtain ⟨s', -, -, -, ht⟩ := takeReceiver_eq_some htake
    rw [ht] at hsep ⊢
    exact h.put hj hsep
  | none =>
    rw [table_takeReceiver_of_none htake]
    exact h

/-- A change of another channel leaves this one. -/
theorem Shows.updateChannel (h : t.Shows id s c) {k : Nat} (hk : k ≠ s.registration)
    {f : Channel α → Channel α} (hsep : (t.updateChannel k f).Separate) :
    (t.updateChannel k f).Shows id s c :=
  ⟨hsep, h.slot, by rw [channel?_updateChannel, if_neg hk, h.channel]⟩

theorem Shows.dropReceiver (h : t.Shows id s c) {k : Nat} (hk : k ≠ s.registration) :
    (t.dropReceiver k).Shows id s c :=
  h.updateChannel hk (h.separate.dropReceiver k)

theorem Shows.begin_of_ne (h : t.Shows id s c) (hj : j ≠ id) (poll timeout now : Nat) :
    (Waiter.begin t j poll timeout now).1.Shows id s c := by
  cases hb : (Waiter.begin t j poll timeout now).2 with
  | value w =>
    rw [(Waiter.begin_eq_value hb).2.2]
    exact h.takeReceiver_of_ne hj
  | failure e =>
    rw [(Waiter.begin_eq_failure hb).2.2]
    exact h
  | breakdown b =>
    cases htake : (t.takeReceiver j).2 with
    | none =>
      rw [Waiter.begin_of_takeReceiver_eq_none htake] at hb
      cases hb
    | some k =>
      have hk : k ≠ s.registration := fun heq =>
        hj (h.separate.unique (heq ▸ owns_of_takeReceiver_eq_some htake) h.owns)
      rw [Waiter.begin_eq_breakdown hb htake]
      exact (h.takeReceiver_of_ne hj).dropReceiver hk

/-- **What is done elsewhere** changes neither the slot nor its channel. -/
theorem Shows.elsewhere (h : t.Shows id s c) (he : Elsewhere id s.registration t t') :
    t'.Shows id s c := by
  cases he with
  | insert hj => exact h.insert hj
  | remove hj => exact h.remove hj
  | takeSender hj => exact h.takeSender_of_ne hj
  | send hk v => exact h.updateChannel hk (h.separate.send _ v)
  | begin hj poll timeout now => exact h.begin_of_ne hj poll timeout now
  | dropReceiver hk => exact h.dropReceiver hk

/-- What is done elsewhere gives the id no slot. -/
theorem Elsewhere.owns (he : Elsewhere id r t t') {k : Nat} (h : t'.Owns id k) : t.Owns id k := by
  cases he with
  | insert hj => exact (owns_of_insert h).resolve_right fun heq => hj heq.1.symm
  | remove hj => exact (owns_of_remove h).1
  | takeSender hj => exact owns_of_takeSender h
  | send hk v => exact owns_of_send h
  | begin hj => exact Waiter.owns_of_begin h
  | dropReceiver hk => exact owns_of_dropReceiver h

end Table

end KeyCustody.Pending
