import KeyCustody.Proofs.Pending.Listening
import KeyCustody.Proofs.Pending.Traffic
/-!
# How long a slot stays

A registration puts a slot under its id. The slot goes when the id is removed or registered anew,
when a delivery finds that the receiving end was taken and is gone, and when a wait under the id is
over. The wait removes what is under its id by then, which is its own slot or that of a later
registration: it looks at the id alone. As long as a slot stays and both ends of its channel are
there, a value can be delivered to it and waited for.

## Main definitions

* `Tenured`: a slot is that of the latest registration under its id, and its receiving end is there
  unless the wait that took it ended.

## Main results

* `Step.tenured`, `Run.tenured`: what holds of the slots of every run.
* `slot_stays_until`: what takes a slot away, and what can be done with it until then.
* `exists_slot_lost`: the end of a wait takes away the slot of a later registration.
-/

namespace KeyCustody.Pending

variable {α : Type} {h es : History α} {w w' : World α} {id : String} {r : Nat} {v : α}

/-- The receiving end of a slot that stays is there until the wait that took it ends. -/
theorem Step.listens (hstep : Step w es w') (ht : w.table.Separate) (ho : w.table.Owns id r)
    (ho' : w'.table.Owns id r) :
    w'.table.Listens r ↔ w.table.Listens r ∧ ∀ e, .ended r e ∉ es := by
  cases hstep with
  | insert j => simpa using Table.listens_insert ht ho' (ht.lt ho)
  | remove j => simpa using Table.listens_remove ht ho'
  | take u hr => simpa using Table.listens_takeSender ht ho'
  | refuse u hr => simpa using Table.listens_takeSender ht ho'
  | send hw => simpa using Table.listens_send
  | turnAway hb =>
    rw [(Waiter.begin_eq_failure hb).2.2]
    simp
  | sit hb =>
    rw [(Waiter.begin_eq_value hb).2.2]
    simpa using Table.listens_takeReceiver
  | breakDown hb hr =>
    rw [Waiter.begin_eq_breakdown hb hr, Table.listens_dropReceiver, Table.listens_takeReceiver]
    simp
  | stay => simp
  | choose => simp
  | clear hw => simpa using Table.listens_remove ht ho'
  | finish hw =>
    rw [Table.listens_dropReceiver]
    simp
  | cancel hw =>
    rw [Waiter.cancel, Table.listens_dropReceiver]
    simp

/-- A slot is that of the latest registration under its id, and its receiving end is there unless
the wait that took it ended. -/
structure Tenured (h : History α) (w : World α) : Prop where
  latest {id : String} {r k : Nat} (ho : w.table.Owns id r) (he : .inserted id k ∈ h) : k ≤ r
  listens {id : String} {r : Nat} (ho : w.table.Owns id r) :
    w.table.Listens r ↔ ∀ e, .ended r e ∉ h

theorem Tenured.empty : Tenured (α := α) [] ⟨.empty, []⟩ where
  latest _ he := by cases he
  listens ho := by obtain ⟨s, hs, -⟩ := ho; cases hs

theorem Step.tenured (hstep : Step w es w') (hc : Counted h w) (hr : Rooted h w)
    (ht : Tenured h w) : Tenured (es ++ h) w' where
  latest {id r k} ho he := by
    rcases List.mem_append.1 he with he | he
    · obtain ⟨rfl, -, rfl⟩ := hstep.inserted he
      exact Nat.le_of_eq (Table.eq_of_owns_insert ho).symm
    · rcases hstep.owns ho with ho | hnew
      · exact ht.latest ho he
      · obtain ⟨rfl, -⟩ := hstep.inserted hnew
        exact Nat.le_of_lt (hr.below he)
  listens {id r} ho' := by
    rcases hstep.owns ho' with ho | hnew
    · rw [hstep.listens hc.separate ho ho', ht.listens ho]
      simp only [List.mem_append, not_or]
      exact ⟨fun h e => ⟨h.2 e, h.1 e⟩, fun h => ⟨fun e => (h e).2, fun e => (h e).1⟩⟩
    · obtain ⟨rfl, rfl, rfl⟩ := hstep.inserted hnew
      refine iff_of_true (Table.listens_insert_self _ _) fun e he => ?_
      rcases List.mem_append.1 he with he | he
      · simp at he
      · obtain ⟨j, hj⟩ := hc.tookReceiver he
        exact Nat.lt_irrefl _ (hr.below (hr.receiver hj))

theorem Run.tenured (hrun : Run h w) : Tenured h w := by
  induction hrun with
  | begin => exact .empty
  | step hrun hstep ih => exact hstep.tenured hrun.counted hrun.rooted ih

/-! ### The end of a slot -/

/-- What takes the slot of registration `r` away from `id`. -/
theorem Step.takes_away (hstep : Step w es w') (ho : w.table.Owns id r)
    (ho' : ¬ w'.table.Owns id r) :
    es = [.removed id] ∨ es = [.inserted id w.table.channels.length] ∨
      (∃ v, es = [.refused id v] ∧ ¬ w.table.Listens r) ∨
      ∃ wt result, .leaving wt result ∈ w.tasks ∧ wt.id = id ∧
        es = [.cleared id wt.registration] := by
  cases hstep with
  | insert j =>
    by_cases hj : id = j
    · exact .inr (.inl (by rw [hj]))
    · exact absurd (Table.owns_insert ho hj) ho'
  | remove j =>
    by_cases hj : id = j
    · exact .inl (by rw [hj])
    · exact absurd (Table.owns_remove ho hj) ho'
  | @take j k u hr =>
    rcases Table.owns_takeSender ho j with ho | ⟨-, hnone, -⟩
    · exact absurd ho ho'
    · rw [hr] at hnone
      cases hnone
  | @refuse j u hr =>
    rcases Table.owns_takeSender ho j with ho | ⟨rfl, -, hgone⟩
    · exact absurd ho ho'
    · exact .inr (.inr (.inl ⟨u, rfl, by simp [Table.Listens, hgone]⟩))
  | send | stay | choose | finish | cancel => exact absurd ho ho'
  | turnAway | sit | breakDown => exact absurd (Waiter.owns_begin ho) ho'
  | @clear wt result before after hw =>
    by_cases hj : id = wt.id
    · exact .inr (.inr (.inr ⟨wt, result, World.mem_moved hw, hj.symm, by rw [hj]⟩))
    · exact absurd (Table.owns_remove ho hj) ho'

/-- A slot of which nobody took the sending end takes a value, unless its receiving end is gone. -/
theorem Counted.accepts (hc : Counted h w) (ho : w.table.Owns id r) (hlistens : w.table.Listens r)
    (hsender : ∀ j v, .tookSender j r v ∉ h) (v : α) : (w.table.deliver id v).2 = true := by
  obtain ⟨s, hs, rfl⟩ := ho
  have hheld : s.holdsSender = true := by
    refine (hc.sender.held_iff hs).2 (Nat.eq_zero_of_not_pos fun htaken => ?_)
    obtain ⟨e, he, hr⟩ := count_pos_iff.1 htaken
    cases e with
    | tookSender j k u =>
      obtain rfl := Option.some.inj hr
      exact hsender j u he
    | _ => cases hr
  obtain ⟨c, hchannel, hreceiver⟩ := Option.any_eq_true _ _ |>.1 hlistens
  exact Table.deliver_of_isOpen ⟨s, c, hs, rfl, hheld, hchannel, hreceiver⟩ v

/-- A slot of which nobody took the receiving end can be waited on. -/
theorem Counted.sits (hc : Counted h w) (ho : w.table.Owns id r)
    (hreceiver : ∀ j, .tookReceiver j r ∉ h) {poll now : Nat} (timeout : Nat) (hpoll : poll ≠ 0)
    (hnow : now + poll < lastInstant) :
    ∃ wt, (Waiter.begin w.table id poll timeout now).2 = .value wt ∧ wt.registration = r := by
  obtain ⟨s, hs, rfl⟩ := ho
  have hheld : s.holdsReceiver = true := by
    refine (hc.receiver.held_iff hs).2 (Nat.eq_zero_of_not_pos fun htaken => ?_)
    obtain ⟨e, he, hr⟩ := count_pos_iff.1 htaken
    cases e with
    | tookReceiver j k =>
      obtain rfl := Option.some.inj hr
      exact hreceiver j he
    | _ => cases hr
  refine ⟨⟨id, s.registration, poll, now + timeout, now + poll⟩, ?_, rfl⟩
  simp only [Waiter.begin, Table.takeReceiver, hs, hheld, if_true, if_neg (Nat.not_le.2 hnow),
    if_neg hpoll]

/-- **What takes the slot of a registration away**: the removal of its id, a later registration
under its id, a delivery that finds that the wait which took its receiving end is over, or the end
of a wait under its id. This wait took the receiving end of the slot or that of an earlier
registration, which the slot has replaced. Until then a value can be delivered to the slot if
nobody took its sending end and its wait is not over, and it can be waited on if nobody took its
receiving end. -/
theorem slot_stays_until (hrun : Run h w) (ho : w.table.Owns id r) :
    (∀ es w', Step w es w' → ¬ w'.table.Owns id r →
      es = [.removed id] ∨ (∃ k, es = [.inserted id k] ∧ r < k) ∨
        (∃ v e, es = [.refused id v] ∧ .ended r e ∈ h) ∨
        ∃ k, es = [.cleared id k] ∧ .tookReceiver id k ∈ h ∧ k ≤ r) ∧
      ((∀ j v, .tookSender j r v ∉ h) → (∀ e, .ended r e ∉ h) →
        ∀ v, (w.table.deliver id v).2 = true) ∧
      ((∀ j, .tookReceiver j r ∉ h) → ∀ poll timeout now, poll ≠ 0 → now + poll < lastInstant →
        ∃ wt, (Waiter.begin w.table id poll timeout now).2 = .value wt ∧
          wt.registration = r) := by
  have hc := hrun.counted
  have hr := hrun.rooted
  have ht := hrun.tenured
  refine ⟨fun es w' hstep ho' => ?_, fun hsender hended v => ?_,
    fun hreceiver poll timeout now hpoll hnow => hc.sits ho hreceiver timeout hpoll hnow⟩
  · rcases hstep.takes_away ho ho' with h | h | ⟨v, hes, hgone⟩ | ⟨wt, result, hwt, rfl, hes⟩
    · exact .inl h
    · exact .inr (.inl ⟨_, h, hc.separate.lt ho⟩)
    · rw [ht.listens ho, not_forall] at hgone
      obtain ⟨e, he⟩ := hgone
      exact .inr (.inr (.inl ⟨v, e, hes, not_not.1 he⟩))
    · have htook := hr.waiting hwt rfl
      exact .inr (.inr (.inr ⟨_, hes, htook, ht.latest ho (hr.receiver htook)⟩))
  · exact hc.accepts ho ((ht.listens ho).2 hended) hsender v

/-- A slot is registered anew while a wait on the one before sits, which lost its sending end. -/
def anew : World Nat :=
  ⟨⟨[("m", ⟨1, true, true⟩)], [⟨none, false, true⟩, ⟨none, true, true⟩]⟩,
    [.waiting ⟨"m", 0, 1, 5, 1⟩]⟩

theorem run_anew : Run [.inserted "m" 1, .tookReceiver "m" 0, .inserted "m" 0] anew := by
  have h₁ : @Run Nat _ _ := Run.begin.step (.insert "m")
  have h₂ := h₁.step (@Step.sit _ _ "m" 1 5 0 ⟨"m", 0, 1, 5, 1⟩ (by decide))
  exact h₂.step (.insert "m")

/-- The new slot can be delivered to and waited on, as long as the wait on the old one sits. -/
theorem anew_stays_until : ∃ h : History Nat, Run h anew ∧ anew.table.Owns "m" 1 ∧
    (∀ v, (anew.table.deliver "m" v).2 = true) ∧
    (∃ wt, (Waiter.begin anew.table "m" 1 5 0).2 = .value wt ∧ wt.registration = 1) ∧
    ∀ es w', Step anew es w' → ¬ w'.table.Owns "m" 1 →
      es = [.removed "m"] ∨ (∃ k, es = [.inserted "m" k] ∧ 1 < k) ∨
        (∃ v e, es = [.refused "m" v] ∧ .ended 1 e ∈ h) ∨
        ∃ k, es = [.cleared "m" k] ∧ .tookReceiver "m" k ∈ h ∧ k ≤ 1 := by
  have howns : anew.table.Owns "m" 1 := ⟨⟨1, true, true⟩, by decide, rfl⟩
  obtain ⟨hleaves, haccepts, hsits⟩ := slot_stays_until run_anew howns
  refine ⟨_, run_anew, howns, haccepts ?_ ?_, hsits ?_ 1 5 0 (by decide) (by decide), hleaves⟩
  · simp
  · simp
  · simp

/-- The wait on the old slot fails, and removes the slot under its id, which is the new one: nobody
removed it, registered it again or waited on it, and yet no value can be delivered to it or waited
for. -/
theorem exists_slot_lost : ∃ (h : History Nat) (w w' : World Nat), Run h w ∧
    w.table.Owns "m" 1 ∧ (∀ j, .tookReceiver j 1 ∉ h) ∧ (∀ e, .ended 1 e ∉ h) ∧
    Step w [.cleared "m" 0] w' ∧ w'.table.slots = [] ∧ (w'.table.deliver "m" 7).2 = false ∧
    (Waiter.begin w'.table "m" 1 5 0).2 = .failure .unknown := by
  have hchoose := run_anew.step
    (@Step.choose _ _ _ .answer (.error .unknown) [] [] 0 rfl (by decide) rfl)
  refine ⟨_, _, _, hchoose, ⟨⟨1, true, true⟩, by decide, rfl⟩, ?_, ?_,
    @Step.clear _ _ ⟨"m", 0, 1, 5, 1⟩ _ [] [] rfl, by decide, by decide, by decide⟩
  · simp
  · simp

end KeyCustody.Pending
