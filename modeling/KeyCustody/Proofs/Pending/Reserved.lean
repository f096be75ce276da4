import KeyCustody.Proofs.Pending.Acceptance
/-!
# Slots that one task has to itself

A slot is reserved for the task that registered it, if no other task registers or removes its id or
waits under it. Whatever else is done on the table meanwhile, deliveries to the slot included, the
slot stays, its receiving end is in it, and whatever is delivered to it is accepted and stays in its
channel. An id under which there is no slot has none as long as nobody registers it.

## Main definitions

* `Apart`: what other tasks do leaves an id to the task that has it.
* `Stands`: a slot with its receiving end, and with whatever was delivered to it.
* `Reserved`: the slot of a registration under an id that is left to one task.
* `Table.Beside`: the slots under other ids stay as they are.

## Main results

* `Run.reserved`, `Reserved.step`: a registration is reserved, and stays so.
* `Reserved.stands`: what becomes of its slot.
-/

namespace KeyCustody.Pending

variable {α : Type} {h es es' : History α} {w w' : World α} {id : String} {r : Nat}

/-! ### Other slots -/

/-- The slots under all other ids stay as they are, with their channels. -/
def Table.Beside (id : String) (t t' : Table α) : Prop :=
  ∀ j, j ≠ id → Assoc.get? t'.slots j = Assoc.get? t.slots j ∧
    ∀ s, Assoc.get? t.slots j = some s → t'.channel? s.registration = t.channel? s.registration

namespace Table

variable {t t' t'' : Table α}

theorem Beside.refl (id : String) (t : Table α) : Beside id t t :=
  fun _ _ => ⟨rfl, fun _ _ => rfl⟩

theorem Beside.trans (h : Beside id t t') (h' : Beside id t' t'') : Beside id t t'' := by
  intro j hj
  obtain ⟨hslot, hchannel⟩ := h j hj
  obtain ⟨hslot', hchannel'⟩ := h' j hj
  exact ⟨hslot'.trans hslot, fun s hs => (hchannel' s (hslot.trans hs)).trans (hchannel s hs)⟩

theorem Separate.beside_remove (ht : t.Separate) (id : String) : Beside id t (t.remove id) := by
  refine fun j hj => ⟨by rw [get?_slots_remove, if_neg hj], fun s hs => ?_⟩
  exact channel?_remove_of_not_owns fun ho => hj (ht.unique ⟨s, hs, rfl⟩ ho)

theorem Separate.beside_insert (ht : t.Separate) (id : String) : Beside id t (t.insert id) := by
  refine (ht.beside_remove id).trans fun j hj => ⟨?_, fun s hs => ?_⟩
  · rw [Table.insert, Assoc.get?_put, if_neg hj]
  · have hlt : s.registration < (t.remove id).channels.length :=
      (ht.remove id).lt ⟨s, hs, rfl⟩
    exact List.getElem?_append_left hlt

end Table

/-! ### An id that is left to one task -/

/-- What is remembered of other tasks leaves an id to the one that has it: nobody registers the id,
removes it, or takes the receiving end of the slot under it. -/
structure Apart (id : String) (es : History α) : Prop where
  inserted (r : Nat) : .inserted id r ∉ es
  removed : .removed id ∉ es
  tookReceiver (r : Nat) : .tookReceiver id r ∉ es
  cleared (r : Nat) : .cleared id r ∉ es

/-- An id without a slot gets none from others. -/
theorem Apart.contains (ha : Apart id es) (hstep : Step w es w')
    (hw : w.table.contains id = false) : w'.table.contains id = false := by
  rw [← Bool.not_eq_true, Table.contains_iff_owns] at hw ⊢
  rintro ⟨r, ho⟩
  rcases hstep.owns ho with ho | he
  · exact hw ⟨r, ho⟩
  · exact ha.inserted r he

/-- The slot under an id is that of a registration, the receiving end is in it, and whatever was
delivered to it was accepted and is in its channel. -/
def Stands (id : String) (r : Nat) (es : History α) (t : Table α) : Prop :=
  ∃ s, Assoc.get? t.slots id = some s ∧ s.registration = r ∧ s.holdsReceiver = true ∧
    (∀ k v, .tookSender id k v ∈ es → k = r) ∧
    ∀ v b, .delivered r v b ∈ es → b = true ∧ t.receive r = .value v

/-- The slot of a registration whose id was left to one task since. -/
structure Reserved (id : String) (r : Nat) (es : History α) (w : World α) : Prop where
  exists_run : ∃ h, Run h w ∧ es ⊆ h ∧ ∀ j, .tookReceiver j r ∉ h
  owns : w.table.Owns id r
  sender {k : Nat} {v : α} (he : .tookSender id k v ∈ es) : k = r
  accepted {v : α} {b : Bool} (he : .delivered r v b ∈ es) : b = true

/-- A delivery is accepted if the receiving end of its registration is there. -/
theorem Step.accepted_of_delivered {v : α} {b : Bool} (hstep : Step w es w')
    (he : .delivered r v b ∈ es) (hlistens : w.table.Listens r) : b = true := by
  cases hstep with
  | send hw =>
    obtain ⟨rfl, rfl, rfl⟩ := Event.delivered.inj (List.mem_singleton.1 he)
    exact hlistens
  | _ => simp at he

/-- The receiving end of a slot is there as long as nobody took it. -/
theorem Run.listens_of_owns (hrun : Run h w) (ho : w.table.Owns id r)
    (hreceiver : ∀ j, .tookReceiver j r ∉ h) : w.table.Listens r := by
  refine (hrun.tenured.listens ho).2 fun e he => ?_
  obtain ⟨j, hj⟩ := hrun.counted.tookReceiver he
  exact hreceiver j hj

/-- **A new registration is reserved.** -/
theorem Run.reserved (hrun : Run h w) (id : String) :
    Reserved id w.table.channels.length [] { w with table := w.table.insert id } where
  exists_run := by
    refine ⟨_, hrun.step (.insert id), List.nil_subset _, fun j he => ?_⟩
    rcases List.mem_cons.1 he with he | he
    · cases he
    · exact Nat.lt_irrefl _ (hrun.rooted.below (hrun.rooted.receiver he))
  owns := Table.owns_insert_self _ _
  sender he := by cases he
  accepted he := by cases he

/-- **A registration stays reserved** as long as others leave its id to the task that has it. -/
theorem Reserved.step (hr : Reserved id r es w) (hstep : Step w es' w') (ha : Apart id es') :
    Reserved id r (es' ++ es) w' := by
  obtain ⟨h, hrun, hsub, hreceiver⟩ := hr.exists_run
  have hlistens := hrun.listens_of_owns hr.owns hreceiver
  have hseparate := hrun.counted.separate
  refine ⟨⟨_, hrun.step hstep, ?_, fun j he => ?_⟩, ?_, fun {k v} he => ?_, fun {v b} he => ?_⟩
  · exact List.append_subset.2 ⟨List.subset_append_left _ _,
      List.Subset.trans hsub (List.subset_append_right _ _)⟩
  · rcases List.mem_append.1 he with he | he
    · obtain rfl := hseparate.unique hr.owns (hstep.owns_of_tookReceiver he)
      exact ha.tookReceiver r he
    · exact hreceiver j he
  · by_contra ho'
    rcases hstep.takes_away hr.owns ho' with rfl | rfl | ⟨v, rfl, hgone⟩ | ⟨wt, result, -, -, rfl⟩
    · exact ha.removed (List.mem_singleton_self _)
    · exact ha.inserted _ (List.mem_singleton_self _)
    · exact hgone hlistens
    · exact ha.cleared _ (List.mem_singleton_self _)
  · rcases List.mem_append.1 he with he | he
    · obtain ⟨s, hs, hk⟩ := hstep.owns_of_tookSender he
      obtain ⟨s', hs', hr'⟩ := hr.owns
      obtain rfl := Option.some.inj (hs.symm.trans hs')
      exact hk.symm.trans hr'
    · exact hr.sender he
  · rcases List.mem_append.1 he with he | he
    · exact hstep.accepted_of_delivered he hlistens
    · exact hr.accepted he

/-- **What becomes of a reserved slot**: it stands. -/
theorem Reserved.stands (hr : Reserved id r es w) : Stands id r es w.table := by
  obtain ⟨h, hrun, hsub, hreceiver⟩ := hr.exists_run
  obtain ⟨s, hs, hregistration⟩ := hr.owns
  have hlistens := hrun.listens_of_owns hr.owns hreceiver
  refine ⟨s, hs, hregistration, ?_, fun k v he => hr.sender he, fun v b he => ?_⟩
  · refine (hrun.counted.receiver.held_iff hs).2 (Nat.eq_zero_of_not_pos fun htaken => ?_)
    obtain ⟨e, he, hk⟩ := count_pos_iff.1 htaken
    cases e with
    | tookReceiver j k =>
      obtain rfl := Option.some.inj hk
      exact hreceiver j (hregistration ▸ he)
    | _ => cases hk
  · obtain rfl := hr.accepted he
    obtain ⟨c, hc, hv⟩ := (hrun.kept.accepted (hsub he)).resolve_right fun hnot => hnot hlistens
    refine ⟨rfl, ?_⟩
    rw [Table.receive, hc]
    simp only [hv]

end KeyCustody.Pending
