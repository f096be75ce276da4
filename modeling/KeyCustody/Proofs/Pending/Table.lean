import KeyCustody.Pending.Wait
import Mathlib.Data.List.Basic
/-!
# What each operation does to the slots

A table is read through two relations: which registration the slot under an id belongs to, and which
value the channel of a registration carries. No operation but a registration gives a slot a
registration, and no operation but a sending gives a channel a value, so that whatever arrives at a
waiter was sent to the registration that it waits for.

## Main definitions

* `Table.Owns`: a slot and its registration.
* `Table.Carries`: a channel and its value.
* `Table.Separate`: every slot has a registration of its own.
* `Table.IsOpen`, `Table.Fills`: slots that take a value, and what a delivery does.

## Main results

* `Table.fills_deliver`: a delivery.
* `owns_of_send`, `carries_of_send` and their kin: one lemma for each operation and relation.
-/

namespace KeyCustody.Pending

variable {α : Type}

namespace Table

variable {t : Table α} {id j : String} {r k : Nat} {v w : α}

/-- The slot under an id is that of a registration. -/
def Owns (t : Table α) (id : String) (r : Nat) : Prop :=
  ∃ s, Assoc.get? t.slots id = some s ∧ s.registration = r

/-- The channel of a registration carries a value. -/
def Carries (t : Table α) (r : Nat) (v : α) : Prop :=
  ∃ c, t.channel? r = some c ∧ c.value? = some v

theorem contains_iff_owns : t.contains id = true ↔ ∃ r, t.Owns id r := by
  rw [contains, Assoc.contains, Option.isSome_iff_exists]
  exact ⟨fun ⟨s, hs⟩ => ⟨s.registration, s, hs, rfl⟩, fun ⟨_, s, hs, _⟩ => ⟨s, hs⟩⟩

/-- A table without a slot under any id is empty. -/
theorem size_eq_zero (h : ∀ id r, ¬ t.Owns id r) : t.size = 0 := by
  rw [size, List.length_eq_zero_iff]
  cases hslots : t.slots with
  | nil => rfl
  | cons p rest =>
    refine absurd ⟨p.2, ?_, rfl⟩ (h p.1 p.2.registration)
    rw [hslots]
    exact if_pos rfl

/-! ### Channels -/

@[simp] theorem slots_updateChannel (t : Table α) (r : Nat) (f : Channel α → Channel α) :
    (t.updateChannel r f).slots = t.slots := rfl

@[simp] theorem length_updateChannel (t : Table α) (r : Nat) (f : Channel α → Channel α) :
    (t.updateChannel r f).channels.length = t.channels.length := by
  simp [updateChannel]

theorem channel?_updateChannel (t : Table α) (r k : Nat) (f : Channel α → Channel α) :
    (t.updateChannel r f).channel? k =
      if r = k then (t.channel? k).map f else t.channel? k := by
  rw [channel?, updateChannel, List.getElem?_modify]
  split_ifs with h
  · rfl
  · cases hk : t.channels[k]? <;> simp [channel?, hk]

/-- A change of a channel that keeps its value carries nothing new. -/
theorem carries_of_updateChannel {f : Channel α → Channel α}
    (hf : ∀ c w, (f c).value? = some w → c.value? = some w)
    (h : (t.updateChannel r f).Carries k w) : t.Carries k w := by
  obtain ⟨c, hc, hw⟩ := h
  rw [channel?_updateChannel] at hc
  split_ifs at hc with hr
  · obtain ⟨d, hd, rfl⟩ := Option.map_eq_some_iff.1 hc
    exact ⟨d, hd, hf d w hw⟩
  · exact ⟨c, hc, hw⟩

/-! ### Registration -/

/-- A channel without the ends that a slot holds. -/
def released (s : Slot) (c : Channel α) : Channel α :=
  { c with
    hasSender := c.hasSender && !s.holdsSender
    hasReceiver := c.hasReceiver && !s.holdsReceiver }

theorem remove_of_get?_eq_none (h : Assoc.get? t.slots id = none) : t.remove id = t := by
  rw [remove, h]

theorem channel?_remove {s : Slot} (h : Assoc.get? t.slots id = some s) (r : Nat) :
    (t.remove id).channel? r = (t.updateChannel s.registration (released s)).channel? r := by
  rw [remove, h]
  rfl

theorem slots_remove (t : Table α) (id : String) :
    (t.remove id).slots = Assoc.erase t.slots id ∨
      ((t.remove id).slots = t.slots ∧ Assoc.get? t.slots id = none) := by
  unfold remove
  split
  · rename_i h
    exact .inr ⟨rfl, h⟩
  · exact .inl rfl

theorem get?_slots_remove (t : Table α) (id j : String) :
    Assoc.get? (t.remove id).slots j = if j = id then none else Assoc.get? t.slots j := by
  rcases slots_remove t id with h | ⟨h, hnone⟩
  · rw [h, Assoc.get?_erase]
  · rw [h]
    split_ifs with hj
    · rw [hj, hnone]
    · rfl

@[simp] theorem length_remove (t : Table α) (id : String) :
    (t.remove id).channels.length = t.channels.length := by
  unfold remove
  split <;> simp [updateChannel]

theorem owns_of_remove (h : (t.remove id).Owns j r) : t.Owns j r ∧ j ≠ id := by
  obtain ⟨s, hs, hr⟩ := h
  rw [get?_slots_remove] at hs
  split_ifs at hs with hj
  exact ⟨⟨s, hs, hr⟩, hj⟩

theorem carries_of_remove (h : (t.remove id).Carries r v) : t.Carries r v := by
  cases hs : Assoc.get? t.slots id with
  | none => rwa [remove_of_get?_eq_none hs] at h
  | some s =>
    rw [Carries, channel?_remove hs] at h
    exact carries_of_updateChannel (f := released s) (fun c w hw => hw) h

@[simp] theorem length_insert (t : Table α) (id : String) :
    (t.insert id).channels.length = t.channels.length + 1 := by
  simp [insert]

theorem owns_of_insert (h : (t.insert id).Owns j r) :
    t.Owns j r ∨ j = id ∧ r = t.channels.length := by
  obtain ⟨s, hs, hr⟩ := h
  simp only [insert, Assoc.get?_put] at hs
  split_ifs at hs with hj
  · obtain rfl := Option.some.inj hs
    exact .inr ⟨hj, by simpa using hr.symm⟩
  · exact .inl (owns_of_remove ⟨s, hs, hr⟩).1

theorem carries_of_insert (h : (t.insert id).Carries r v) : t.Carries r v := by
  obtain ⟨c, hc, hv⟩ := h
  rw [insert, channel?] at hc
  simp only at hc
  by_cases hr : r < (t.remove id).channels.length
  · rw [List.getElem?_append_left hr] at hc
    exact carries_of_remove ⟨c, hc, hv⟩
  · rw [List.getElem?_append_right (by omega)] at hc
    have := List.mem_of_getElem? hc
    simp only [List.mem_singleton] at this
    rw [this] at hv
    cases hv

/-! ### Delivery -/

@[simp] theorem length_takeSender (t : Table α) (id : String) :
    (t.takeSender id).1.channels.length = t.channels.length := by
  unfold takeSender
  split
  · rfl
  · split_ifs <;> simp

theorem owns_of_takeSender (h : (t.takeSender id).1.Owns j r) : t.Owns j r := by
  unfold takeSender at h
  split at h
  · exact h
  · rename_i s hs
    split_ifs at h with h1 h2
    · exact h
    · exact (owns_of_remove h).1
    · obtain ⟨s', hs', hr⟩ := h
      simp only [Assoc.get?_put] at hs'
      split_ifs at hs' with hj
      · obtain rfl := Option.some.inj hs'
        exact ⟨s, by rw [hj, hs], hr⟩
      · exact ⟨s', hs', hr⟩

/-- A sending end is taken from the slot under its id. -/
theorem owns_of_takeSender_eq_some (h : (t.takeSender id).2 = some r) : t.Owns id r := by
  unfold takeSender at h
  split at h
  · cases h
  · rename_i s hs
    split_ifs at h
    exact ⟨s, hs, Option.some.inj h⟩

/-- A sending end is taken from a slot that holds it, and nothing else changes. -/
theorem takeSender_eq_some (h : (t.takeSender id).2 = some r) :
    ∃ s, Assoc.get? t.slots id = some s ∧ s.registration = r ∧ s.holdsSender = true ∧
      (t.takeSender id).1 =
        { t with slots := Assoc.put t.slots id { s with holdsSender := false } } := by
  unfold takeSender at h ⊢
  split at h
  · cases h
  · rename_i s hs
    split_ifs at h with hsender hgone
    simp only [hsender, if_neg hgone]
    exact ⟨s, hs, Option.some.inj h, by simpa using hsender, rfl⟩

/-- A delivery that takes no sending end leaves the table as it is, or removes the slot under its
id if the receiving end was taken and is gone. -/
theorem takeSender_eq_none (h : (t.takeSender id).2 = none) :
    (t.takeSender id).1 = t ∨ (t.takeSender id).1 = t.remove id ∧
      ∃ s, Assoc.get? t.slots id = some s ∧ s.holdsReceiver = false ∧
        (t.channel? s.registration).any Channel.hasReceiver = false := by
  unfold takeSender at h ⊢
  split at h
  · exact .inl rfl
  · rename_i s hs
    split_ifs at h ⊢ with hsender hgone
    · exact .inl rfl
    · rw [Bool.and_eq_true, Bool.not_eq_true', Bool.not_eq_true'] at hgone
      exact .inr ⟨rfl, s, hs, hgone⟩

theorem carries_of_takeSender (h : (t.takeSender id).1.Carries r v) : t.Carries r v := by
  unfold takeSender at h
  split at h
  · exact h
  · split_ifs at h
    · exact h
    · exact carries_of_remove h
    · exact h

@[simp] theorem slots_send (t : Table α) (r : Nat) (v : α) : (t.send r v).1.slots = t.slots := rfl

@[simp] theorem length_send (t : Table α) (r : Nat) (v : α) :
    (t.send r v).1.channels.length = t.channels.length := by
  simp [send]

theorem owns_of_send (h : (t.send r v).1.Owns j k) : t.Owns j k := h

/-- A sent value is carried only if it was accepted. -/
theorem accepted_of_send (h : (t.send r v).1.Carries k w) :
    t.Carries k w ∨ k = r ∧ w = v ∧ (t.send r v).2 = true := by
  obtain ⟨c, hc, hw⟩ := h
  simp only [send, channel?_updateChannel] at hc
  by_cases hr : r = k
  · rw [if_pos hr] at hc
    obtain ⟨d, hd, rfl⟩ := Option.map_eq_some_iff.1 hc
    by_cases haccepted : (t.channel? r).any Channel.hasReceiver = true
    · simp only [haccepted, if_true] at hw
      exact .inr ⟨hr.symm, (Option.some.inj hw).symm, haccepted⟩
    · simp only [haccepted] at hw
      exact .inl ⟨d, hd, hw⟩
  · rw [if_neg hr] at hc
    exact .inl ⟨c, hc, hw⟩

theorem carries_of_send (h : (t.send r v).1.Carries k w) :
    t.Carries k w ∨ k = r ∧ w = v := by
  rcases accepted_of_send h with h | ⟨hr, hv, -⟩
  · exact .inl h
  · exact .inr ⟨hr, hv⟩

/-! ### The receiving end -/

@[simp] theorem length_takeReceiver (t : Table α) (id : String) :
    (t.takeReceiver id).1.channels.length = t.channels.length := by
  unfold takeReceiver
  split
  · rfl
  · split_ifs <;> rfl

theorem owns_of_takeReceiver (h : (t.takeReceiver id).1.Owns j r) : t.Owns j r := by
  unfold takeReceiver at h
  split at h
  · exact h
  · rename_i s hs
    split_ifs at h
    · obtain ⟨s', hs', hr⟩ := h
      simp only [Assoc.get?_put] at hs'
      split_ifs at hs' with hj
      · obtain rfl := Option.some.inj hs'
        exact ⟨s, by rw [hj, hs], hr⟩
      · exact ⟨s', hs', hr⟩
    · exact h

/-- A receiving end is taken from the slot under its id. -/
theorem owns_of_takeReceiver_eq_some (h : (t.takeReceiver id).2 = some r) : t.Owns id r := by
  unfold takeReceiver at h
  split at h
  · cases h
  · rename_i s hs
    split_ifs at h
    exact ⟨s, hs, Option.some.inj h⟩

/-- A receiving end is taken from a slot that holds it, and nothing else changes. -/
theorem takeReceiver_eq_some (h : (t.takeReceiver id).2 = some r) :
    ∃ s, Assoc.get? t.slots id = some s ∧ s.registration = r ∧ s.holdsReceiver = true ∧
      (t.takeReceiver id).1 =
        { t with slots := Assoc.put t.slots id { s with holdsReceiver := false } } := by
  unfold takeReceiver at h ⊢
  split at h
  · cases h
  · rename_i s hs
    split_ifs at h with hreceiver
    simp only [hreceiver, if_true]
    exact ⟨s, hs, Option.some.inj h, hreceiver, rfl⟩

/-- A receiving end is not taken only if there is no slot that holds it. -/
theorem takeReceiver_eq_none_iff :
    (t.takeReceiver id).2 = none ↔
      ∀ s, Assoc.get? t.slots id = some s → s.holdsReceiver = false := by
  unfold takeReceiver
  cases hs : Assoc.get? t.slots id with
  | none => simp
  | some s => cases hheld : s.holdsReceiver <;> simp [hheld]

/-- A receiving end that is not taken stays. -/
theorem table_takeReceiver_of_none (h : (t.takeReceiver id).2 = none) :
    (t.takeReceiver id).1 = t := by
  unfold takeReceiver at h ⊢
  split at h
  · rfl
  · split_ifs at h ⊢
    rfl

theorem carries_of_takeReceiver (h : (t.takeReceiver id).1.Carries r v) : t.Carries r v := by
  unfold takeReceiver at h
  split at h
  · exact h
  · split_ifs at h <;> exact h

/-- What a receiving end sees is what its channel carries. -/
theorem carries_of_receive (h : t.receive r = .value v) : t.Carries r v := by
  unfold receive at h
  split at h
  · cases h
  · rename_i c hc
    split at h
    · rename_i w hw
      obtain rfl := Reception.value.inj h
      exact ⟨c, hc, hw⟩
    · split_ifs at h

@[simp] theorem length_dropReceiver (t : Table α) (r : Nat) :
    (t.dropReceiver r).channels.length = t.channels.length :=
  length_updateChannel _ _ _

theorem owns_of_dropReceiver (h : (t.dropReceiver r).Owns j k) : t.Owns j k := h

theorem carries_of_dropReceiver (h : (t.dropReceiver r).Carries k w) : t.Carries k w :=
  carries_of_updateChannel (f := fun c => { c with value? := none, hasReceiver := false })
    (fun _ _ hw => by cases hw) h

/-! ### Registrations of their own -/

/-- Every slot has a registration of its own, and a channel to it. -/
structure Separate (t : Table α) : Prop where
  unique {i j : String} {r : Nat} (hi : t.Owns i r) (hj : t.Owns j r) : i = j
  lt {i : String} {r : Nat} (hi : t.Owns i r) : r < t.channels.length

/-- Nothing is registered at first. -/
theorem separate_empty : (empty : Table α).Separate := by
  constructor
  · rintro i j r ⟨s, hs, -⟩ -
    cases hs
  · rintro i r ⟨s, hs, -⟩
    cases hs

/-- Slots that are left keep registrations of their own. -/
theorem Separate.of_owns {t' : Table α} (h : t.Separate)
    (howns : ∀ {i r}, t'.Owns i r → t.Owns i r)
    (hlength : t'.channels.length = t.channels.length) : t'.Separate :=
  ⟨fun hi hj => h.unique (howns hi) (howns hj), fun hi => hlength ▸ h.lt (howns hi)⟩

theorem Separate.insert (h : t.Separate) (id : String) : (t.insert id).Separate := by
  constructor
  · intro i j r hi hj
    rcases owns_of_insert hi with hi | ⟨hi, hri⟩ <;> rcases owns_of_insert hj with hj | ⟨hj, hrj⟩
    · exact h.unique hi hj
    · have := h.lt hi
      omega
    · have := h.lt hj
      omega
    · rw [hi, hj]
  · intro i r hi
    rw [length_insert]
    rcases owns_of_insert hi with hi | ⟨-, rfl⟩
    · exact Nat.lt_succ_of_lt (h.lt hi)
    · exact Nat.lt_succ_self _

theorem Separate.remove (h : t.Separate) (id : String) : (t.remove id).Separate :=
  h.of_owns (fun hi => (owns_of_remove hi).1) (length_remove t id)

theorem Separate.takeSender (h : t.Separate) (id : String) : (t.takeSender id).1.Separate :=
  h.of_owns owns_of_takeSender (length_takeSender t id)

theorem Separate.send (h : t.Separate) (r : Nat) (v : α) : (t.send r v).1.Separate :=
  h.of_owns owns_of_send (length_send t r v)

theorem Separate.deliver (h : t.Separate) (id : String) (v : α) : (t.deliver id v).1.Separate := by
  have htaken := h.takeSender id
  unfold Table.deliver
  split
  · rename_i t' htake
    rwa [htake] at htaken
  · rename_i t' r htake
    rw [htake] at htaken
    exact htaken.send r v

theorem Separate.takeReceiver (h : t.Separate) (id : String) : (t.takeReceiver id).1.Separate :=
  h.of_owns owns_of_takeReceiver (length_takeReceiver t id)

theorem Separate.dropReceiver (h : t.Separate) (r : Nat) : (t.dropReceiver r).Separate :=
  h.of_owns owns_of_dropReceiver (length_dropReceiver t r)

/-! ### Slots that stay -/

theorem owns_remove (h : t.Owns j r) (hj : j ≠ id) : (t.remove id).Owns j r := by
  obtain ⟨s, hs, hr⟩ := h
  exact ⟨s, by rw [get?_slots_remove, if_neg hj, hs], hr⟩

theorem owns_insert (h : t.Owns j r) (hj : j ≠ id) : (t.insert id).Owns j r := by
  obtain ⟨s, hs, hr⟩ := owns_remove h hj
  exact ⟨s, by rw [insert, Assoc.get?_put, if_neg hj, hs], hr⟩

/-- A registration has a slot at first. -/
theorem owns_insert_self (t : Table α) (id : String) : (t.insert id).Owns id t.channels.length :=
  ⟨⟨t.channels.length, true, true⟩, by simp [insert, Assoc.get?_put], rfl⟩

theorem eq_of_owns_insert (h : (t.insert id).Owns id r) : r = t.channels.length := by
  obtain ⟨s, hs, rfl⟩ := h
  obtain rfl : s = ⟨t.channels.length, true, true⟩ := by
    simpa [insert, Assoc.get?_put] using hs.symm
  rfl

/-- A slot that a registration under another id leaves is no new one. -/
theorem owns_remove_of_insert (h : (t.insert id).Owns j r) (hr : r < t.channels.length) :
    (t.remove id).Owns j r := by
  obtain ⟨s, hs, rfl⟩ := h
  simp only [insert, Assoc.get?_put] at hs
  split_ifs at hs with hj
  · obtain rfl := Option.some.inj hs
    simp at hr
  · exact ⟨s, hs, rfl⟩

/-- A slot that keeps its registration stays. -/
theorem owns_put {s s' : Slot} (hs : Assoc.get? t.slots id = some s)
    (hr : s'.registration = s.registration) (h : t.Owns j r) :
    Owns { t with slots := Assoc.put t.slots id s' } j r := by
  obtain ⟨k, hk, rfl⟩ := h
  by_cases hj : j = id
  · rw [hj, hs] at hk
    obtain rfl := Option.some.inj hk
    exact ⟨s', by simp [Assoc.get?_put, hj], hr⟩
  · exact ⟨k, by simp [Assoc.get?_put, hj, hk], rfl⟩

/-- A delivery takes a slot away only if its receiving end was taken and is gone. -/
theorem owns_takeSender (h : t.Owns j r) (id : String) :
    (t.takeSender id).1.Owns j r ∨ j = id ∧ (t.takeSender id).2 = none ∧
      (t.channel? r).any Channel.hasReceiver = false := by
  cases htake : (t.takeSender id).2 with
  | some k =>
    obtain ⟨s, hs, -, -, ht⟩ := takeSender_eq_some htake
    rw [ht]
    exact .inl (owns_put hs rfl h)
  | none =>
    rcases takeSender_eq_none htake with ht | ⟨ht, s, hs, -, hgone⟩ <;> rw [ht]
    · exact .inl h
    · by_cases hj : j = id
      · obtain ⟨k, hk, rfl⟩ := h
        rw [hj, hs] at hk
        obtain rfl := Option.some.inj hk
        exact .inr ⟨hj, rfl, hgone⟩
      · exact .inl (owns_remove h hj)

theorem owns_takeReceiver (h : t.Owns j r) : (t.takeReceiver id).1.Owns j r := by
  cases htake : (t.takeReceiver id).2 with
  | some k =>
    obtain ⟨s, hs, -, -, ht⟩ := takeReceiver_eq_some htake
    rw [ht]
    exact owns_put hs rfl h
  | none => rwa [table_takeReceiver_of_none htake]

/-! ### Whole deliveries -/

/-- The slot under an id takes a value: it holds the sending end, and the receiving end is there. -/
def IsOpen (t : Table α) (id : String) (r : Nat) : Prop :=
  ∃ s c, Assoc.get? t.slots id = some s ∧ s.registration = r ∧ s.holdsSender = true ∧
    t.channel? r = some c ∧ c.hasReceiver = true

/-- What a delivery of `v` to the slot under `id` makes of a table. -/
structure Fills (id : String) (v : α) (t t' : Table α) : Prop where
  /-- The slots under other ids stay. -/
  slots {j : String} (hj : j ≠ id) : Assoc.get? t'.slots j = Assoc.get? t.slots j
  /-- The channels of all registrations stay but that of the slot. -/
  channels {r : Nat} (hr : ¬ t.Owns id r) : t'.channel? r = t.channel? r
  /-- An open slot gets the value, and its sending end is gone. -/
  filled {r : Nat} (hr : t.IsOpen id r) : t'.channel? r = some ⟨some v, false, true⟩
  /-- A slot that is not open gets nothing. -/
  shut (hshut : ∀ r, ¬ t.IsOpen id r) (r : Nat) :
    (t'.channel? r).map Channel.value? = (t.channel? r).map Channel.value?

/-- With registrations of their own, the slots under other ids stay with their channels. -/
theorem Fills.other {t' : Table α} {s : Slot} (h : Fills id v t t') (ht : t.Separate)
    (hj : j ≠ id) (hs : Assoc.get? t.slots j = some s) :
    Assoc.get? t'.slots j = some s ∧ t'.channel? s.registration = t.channel? s.registration := by
  refine ⟨by rw [h.slots hj, hs], h.channels fun howns => hj ?_⟩
  exact ht.unique ⟨s, hs, rfl⟩ howns

theorem map_value?_updateChannel {f : Channel α → Channel α} (hf : ∀ c, (f c).value? = c.value?)
    (t : Table α) (r k : Nat) :
    ((t.updateChannel r f).channel? k).map Channel.value? = (t.channel? k).map Channel.value? := by
  rw [channel?_updateChannel]
  split_ifs
  · cases t.channel? k <;> simp [hf]
  · rfl

theorem map_value?_remove (t : Table α) (id : String) (r : Nat) :
    ((t.remove id).channel? r).map Channel.value? = (t.channel? r).map Channel.value? := by
  cases hs : Assoc.get? t.slots id with
  | none => rw [remove_of_get?_eq_none hs]
  | some s => rw [channel?_remove hs, map_value?_updateChannel (f := released s) fun _ => rfl]

theorem channel?_remove_of_not_owns (hr : ¬ t.Owns id r) :
    (t.remove id).channel? r = t.channel? r := by
  cases hs : Assoc.get? t.slots id with
  | none => rw [remove_of_get?_eq_none hs]
  | some s =>
    have hne : s.registration ≠ r := fun h => hr ⟨s, hs, h⟩
    rw [channel?_remove hs, channel?_updateChannel, if_neg hne]

theorem isOpen_iff {s : Slot} (hget : Assoc.get? t.slots id = some s) :
    t.IsOpen id r ↔ s.registration = r ∧ s.holdsSender = true ∧
      ∃ c, t.channel? r = some c ∧ c.hasReceiver = true := by
  constructor
  · rintro ⟨s', c, hs', hr, hsender, hc⟩
    rw [hget] at hs'
    obtain rfl := Option.some.inj hs'
    exact ⟨hr, hsender, c, hc⟩
  · rintro ⟨hr, hsender, c, hc⟩
    exact ⟨s, c, hget, hr, hsender, hc⟩

/-- A slot that is not open may stay. -/
theorem fills_self (hshut : ∀ r, ¬ t.IsOpen id r) (v : α) : Fills id v t t :=
  ⟨fun _ => rfl, fun _ => rfl, fun hr => absurd hr (hshut _), fun _ _ => rfl⟩

/-- A slot that is not open may be taken away. -/
theorem fills_remove (hshut : ∀ r, ¬ t.IsOpen id r) (v : α) : Fills id v t (t.remove id) where
  slots hj := by rw [get?_slots_remove, if_neg hj]
  channels := channel?_remove_of_not_owns
  filled hr := absurd hr (hshut _)
  shut _ r := map_value?_remove t id r

/-- A slot that holds its sending end gives it away, and the value goes through it. -/
theorem fills_send {s : Slot} (hget : Assoc.get? t.slots id = some s)
    (hsender : s.holdsSender = true) (v : α) :
    Fills id v t (Table.send
      { t with slots := Assoc.put t.slots id { s with holdsSender := false } }
        s.registration v).1 := by
  refine ⟨fun hj => ?_, fun {r} hr => ?_, fun {r} hr => ?_, fun hshut r => ?_⟩
  · rw [slots_send, Assoc.get?_put, if_neg hj]
  · have hne : s.registration ≠ r := fun h => hr ⟨s, hget, h⟩
    rw [send, channel?_updateChannel, if_neg hne]
    rfl
  · obtain ⟨rfl, -, c, hc, hreceiver⟩ := (isOpen_iff hget).1 hr
    have hc' : Table.channel? { t with
        slots := Assoc.put t.slots id { s with holdsSender := false } } s.registration =
          some c := hc
    simp only [send, channel?_updateChannel, if_true, hc', Option.any_some, hreceiver,
      Option.map_some]
  · have hnone : (Table.channel? { t with
        slots := Assoc.put t.slots id { s with holdsSender := false } } s.registration).any
          Channel.hasReceiver = false := by
      by_contra hany
      rw [Bool.not_eq_false, Option.any_eq_true] at hany
      obtain ⟨c, hc, hreceiver⟩ := hany
      exact hshut s.registration ((isOpen_iff hget).2 ⟨rfl, hsender, c, hc, hreceiver⟩)
    rw [send, map_value?_updateChannel fun c => by rw [hnone]; rfl]
    rfl

/-- **A delivery** changes the slot under its id and no other; an open slot gets the value, and one
that is not open gets nothing. -/
theorem fills_deliver (t : Table α) (id : String) (v : α) : Fills id v t (t.deliver id v).1 := by
  cases hget : Assoc.get? t.slots id with
  | none =>
    have hsame : (t.deliver id v).1 = t := by
      simp [deliver, takeSender, hget]
    have hshut : ∀ r, ¬ t.IsOpen id r := by
      rintro r ⟨s, c, hs, -⟩
      rw [hget] at hs
      cases hs
    rw [hsame]
    exact fills_self hshut v
  | some s =>
    by_cases hsender : s.holdsSender = true
    · by_cases hgone : (!s.holdsReceiver &&
          !((t.channel? s.registration).any Channel.hasReceiver)) = true
      · have hremoved : (t.deliver id v).1 = t.remove id := by
          simp only [deliver, takeSender, hget, hsender, hgone, Bool.not_true, Bool.false_eq_true,
            if_false, if_true]
        have hshut : ∀ r, ¬ t.IsOpen id r := by
          intro r hr
          obtain ⟨rfl, -, c, hc, hreceiver⟩ := (isOpen_iff hget).1 hr
          rw [hc] at hgone
          simp [hreceiver] at hgone
        rw [hremoved]
        exact fills_remove hshut v
      · have hsent : (t.deliver id v).1 =
            (Table.send { t with slots := Assoc.put t.slots id { s with holdsSender := false } }
              s.registration v).1 := by
          simp only [deliver, takeSender, hget, hsender, hgone, Bool.not_true, Bool.false_eq_true,
            if_false]
        rw [hsent]
        exact fills_send hget hsender v
    · have hsame : (t.deliver id v).1 = t := by
        simp [deliver, takeSender, hget, hsender]
      rw [hsame]
      exact fills_self (fun r hr => hsender ((isOpen_iff hget).1 hr).2.1) v

/-- The sending end of an open slot can be taken. -/
theorem takeSender_of_isOpen (h : t.IsOpen id r) : (t.takeSender id).2 = some r := by
  obtain ⟨s, c, hs, hr, hsender, hc, hreceiver⟩ := h
  subst hr
  have hthere : (!s.holdsReceiver && !((t.channel? s.registration).any Channel.hasReceiver)) =
      false := by
    rw [hc]
    simp [hreceiver]
  simp only [takeSender, hs, hsender, hthere, Bool.not_true, Bool.false_eq_true, if_false]

/-- A delivery to an open slot is accepted. -/
theorem deliver_of_isOpen (h : t.IsOpen id r) (v : α) : (t.deliver id v).2 = true := by
  have htaken := takeSender_of_isOpen h
  obtain ⟨s, -, -, -, ht⟩ := takeSender_eq_some htaken
  obtain ⟨_, c, -, -, -, hc, hreceiver⟩ := h
  rw [deliver]
  cases htake : t.takeSender id with
  | mk t' r? =>
    rw [htake] at htaken ht
    simp only at htaken ht
    subst htaken ht
    change (t.channel? r).any Channel.hasReceiver = true
    rw [hc]
    exact hreceiver

/-- A value that is sent to an open slot, once its sending end is taken, is what the receiving end
sees. -/
theorem receive_of_isOpen (h : t.IsOpen id r) (v : α) :
    ((t.takeSender id).1.send r v).1.receive r = .value v := by
  have hfilled := (fills_deliver t id v).filled h
  have htaken := takeSender_of_isOpen h
  have hdeliver : t.deliver id v = (t.takeSender id).1.send r v := by
    rw [deliver]
    cases htake : t.takeSender id with
    | mk t' r? =>
      rw [htake] at htaken
      simp only at htaken
      subst htaken
      rfl
  rw [hdeliver] at hfilled
  rw [receive, hfilled]

end Table

/-! ### Waits -/

namespace Waiter

variable {t t' : Table α} {id j : String} {poll timeout now r : Nat} {v : α} {w : Waiter}

theorem table_begin (t : Table α) (id : String) (poll timeout now : Nat) :
    (begin t id poll timeout now).1 = (t.takeReceiver id).1 ∨
      ∃ r, (begin t id poll timeout now).1 = (t.takeReceiver id).1.dropReceiver r := by
  unfold begin
  split
  · rename_i h
    exact .inl (by rw [h])
  · rename_i t₁ registration h
    split_ifs
    · exact .inr ⟨registration, by rw [h]⟩
    · exact .inr ⟨registration, by rw [h]⟩
    · exact .inl (by rw [h])

theorem length_begin : (begin t id poll timeout now).1.channels.length = t.channels.length := by
  rcases table_begin t id poll timeout now with h | ⟨r, h⟩ <;> rw [h] <;> simp

theorem owns_of_begin (h : (begin t id poll timeout now).1.Owns j r) : t.Owns j r := by
  rcases table_begin t id poll timeout now with hb | ⟨k, hb⟩
  · rw [hb] at h
    exact Table.owns_of_takeReceiver h
  · rw [hb] at h
    exact Table.owns_of_takeReceiver (Table.owns_of_dropReceiver h)

theorem carries_of_begin (h : (begin t id poll timeout now).1.Carries r v) : t.Carries r v := by
  rcases table_begin t id poll timeout now with hb | ⟨k, hb⟩
  · rw [hb] at h
    exact Table.carries_of_takeReceiver h
  · rw [hb] at h
    exact Table.carries_of_takeReceiver (Table.carries_of_dropReceiver h)

/-- A wait that is turned away changes nothing. -/
theorem begin_eq_failure {e : WaitError} (h : (begin t id poll timeout now).2 = .failure e) :
    e = .unknown ∧ (t.takeReceiver id).2 = none ∧ (begin t id poll timeout now).1 = t := by
  unfold begin at h ⊢
  split at h
  · rename_i t₁ htake
    have ht := Table.table_takeReceiver_of_none (congrArg Prod.snd htake)
    rw [htake] at ht ⊢
    exact ⟨(Outcome.failure.inj h).symm, rfl, ht⟩
  · split_ifs at h

/-- A wait that takes no receiving end is turned away. -/
theorem begin_of_takeReceiver_eq_none (h : (t.takeReceiver id).2 = none) :
    begin t id poll timeout now = (t, .failure .unknown) := by
  have ht := Table.table_takeReceiver_of_none h
  cases htake : t.takeReceiver id with
  | mk t₁ r? =>
    rw [htake] at h ht
    simp only at h ht
    rw [begin, htake, h, ht]

/-- A wait that begins takes a receiving end and does nothing else. -/
theorem begin_eq_value (h : (begin t id poll timeout now).2 = .value w) :
    w.id = id ∧ (t.takeReceiver id).2 = some w.registration ∧
      (begin t id poll timeout now).1 = (t.takeReceiver id).1 := by
  unfold begin at h ⊢
  split at h
  · cases h
  · rename_i t₁ registration htake
    split_ifs at h with hnow hpoll
    obtain rfl := Outcome.value.inj h
    rw [htake]
    simp only [if_neg hnow, if_neg hpoll, and_self]

/-- A wait that breaks down loses the receiving end that it took. -/
theorem begin_eq_breakdown {b : Breakdown}
    (h : (begin t id poll timeout now).2 = .breakdown b) (hr : (t.takeReceiver id).2 = some r) :
    (begin t id poll timeout now).1 = (t.takeReceiver id).1.dropReceiver r := by
  unfold begin at h ⊢
  split at h
  · cases h
  · rename_i t₁ registration htake
    rw [htake] at hr ⊢
    obtain rfl := Option.some.inj hr
    split_ifs at h ⊢ <;> rfl

/-- A wait that begins takes no slot away. -/
theorem owns_begin (h : t.Owns j r) : (begin t id poll timeout now).1.Owns j r := by
  rcases table_begin t id poll timeout now with hb | ⟨k, hb⟩ <;> rw [hb] <;>
    exact Table.owns_takeReceiver h

/-- A waiter has the receiving end of the slot under its id. -/
theorem owns_of_begin_eq_value (h : (begin t id poll timeout now).2 = .value w) :
    w.id = id ∧ t.Owns id w.registration := by
  unfold begin at h
  split at h
  · cases h
  · rename_i t₁ registration htake
    split_ifs at h
    obtain rfl := Outcome.value.inj h
    exact ⟨rfl, Table.owns_of_takeReceiver_eq_some (by rw [htake])⟩

/-- A wait that goes on is for the same registration, and to the same deadline. -/
theorem same_of_choose {b : Branch} {w' : Waiter} (h : w.choose t now b = .inl w') :
    w'.id = w.id ∧ w'.registration = w.registration ∧ w'.deadline = w.deadline := by
  cases b with
  | answer =>
    simp only [choose] at h
    split at h
    · cases h
    · cases h
    · obtain rfl := Sum.inl.inj h
      exact ⟨rfl, rfl, rfl⟩
  | tick =>
    obtain rfl := Sum.inl.inj h
    exact ⟨rfl, rfl, rfl⟩
  | deadline =>
    simp only [choose] at h
    split_ifs at h
    obtain rfl := Sum.inl.inj h
    exact ⟨rfl, rfl, rfl⟩

/-- The value of a wait is what the channel of its registration carries. -/
theorem carries_of_choose {b : Branch} (h : w.choose t now b = .inr (.ok v)) :
    t.Carries w.registration v := by
  cases b with
  | answer =>
    simp only [choose] at h
    split at h
    · rename_i u hu
      obtain rfl := Except.ok.inj (Sum.inr.inj h)
      exact Table.carries_of_receive hu
    · cases h
    · cases h
  | tick => cases h
  | deadline =>
    simp only [choose] at h
    split_ifs at h
    cases h

/-- A call that registers its slot and waits has an open slot. -/
theorem begin_insert (t : Table α) (id : String) {poll now : Nat} (timeout : Nat) (hpoll : poll ≠ 0)
    (hnow : now + poll < lastInstant) :
    ∃ t', begin (t.insert id) id poll timeout now =
        (t', .value ⟨id, t.channels.length, poll, now + timeout, now + poll⟩) ∧
      t'.IsOpen id t.channels.length := by
  have hslot : Assoc.get? (t.insert id).slots id = some ⟨t.channels.length, true, true⟩ := by
    simp [Table.insert, Assoc.get?_put]
  have hchannel : (t.insert id).channels[t.channels.length]? = some ⟨none, true, true⟩ := by
    rw [Table.insert, ← Table.length_remove t id, List.getElem?_concat_length]
  have hbegin : begin (t.insert id) id poll timeout now =
      ({ (t.insert id) with
          slots := Assoc.put (t.insert id).slots id ⟨t.channels.length, true, false⟩ },
        .value ⟨id, t.channels.length, poll, now + timeout, now + poll⟩) := by
    rw [begin, Table.takeReceiver, hslot]
    simp only [if_true, if_neg (Nat.not_le.2 hnow), if_neg hpoll]
  refine ⟨_, hbegin, ⟨t.channels.length, true, false⟩, ⟨none, true, true⟩, ?_, rfl, rfl, hchannel,
    rfl⟩
  simp [Assoc.get?_put]

end Waiter

end KeyCustody.Pending
