import KeyCustody.Proofs.Pending.Tenure
/-!
# What becomes of an accepted value

A delivery that is accepted puts its value into the channel of a registration, where it stays until
the receiving end is dropped. So the wait that took this end finds the value whenever it looks, and
never finds the channel closed. Yet it may end without the value: once its deadline has passed it
may choose the deadline although the answer is ready too, and a delivery is accepted as long as the
wait has not dropped its end, be its choice made or not. A wait without a period for its ticker
loses its end at the start.

## Main definitions

* `Table.Speaks`: the sending end of a registration is there.
* `Step.Alters`: what becomes of a channel in a step.
* `Kept`: whoever has an end of a channel finds it there, and accepted values stay.

## Main results

* `Step.alters`: channels in a step.
* `Step.kept`, `Run.kept`: what holds of every run.
* `accepted_until_deadline`: how a wait ends whose value was accepted.
* `exists_accepted_lost`: accepted values that no wait returns.
-/

namespace KeyCustody.Pending

variable {α : Type} {h es : History α} {w w' : World α} {id : String} {r : Nat} {v : α}

/-! ### Channels in a step -/

/-- The sending end of a registration is there. -/
def Table.Speaks (t : Table α) (r : Nat) : Prop :=
  (t.channel? r).any Channel.hasSender = true

theorem Table.speaks_iff {t : Table α} :
    t.Speaks r ↔ ∃ c, t.channel? r = some c ∧ c.hasSender = true :=
  Option.any_eq_true _ _

theorem Table.listens_iff {t : Table α} :
    t.Listens r ↔ ∃ c, t.channel? r = some c ∧ c.hasReceiver = true :=
  Option.any_eq_true _ _

/-- What becomes of a channel in a step: it stays as it is, its slot goes away with the ends that it
holds, a value is sent, or the receiving end is dropped. -/
inductive Step.Alters (w : World α) (es : History α) (w' : World α) (r : Nat) (c : Channel α) :
    Channel α → Prop
  | stays : Alters w es w' r c c
  | released {id : String} {s : Slot} (hs : Assoc.get? w.table.slots id = some s)
      (hr : s.registration = r) (hgone : ¬ w'.table.Owns id r) :
      Alters w es w' r c (Table.released s c)
  | sent {v : α} (ht : .sending r v ∈ w.tasks) (he : .delivered r v c.hasReceiver ∈ es) :
      Alters w es w' r c
        { c with value? := if c.hasReceiver then some v else c.value?, hasSender := false }
  | dropped {e : Ending α} (he : .ended r e ∈ es) :
      Alters w es w' r c { c with value? := none, hasReceiver := false }

/-- The channel of a registration keeps to its slot when a slot is removed. -/
theorem Table.channel?_remove_cases {t : Table α} {c : Channel α} (id : String)
    (hc : t.channel? r = some c) :
    (t.remove id).channel? r = some c ∨ ∃ s, Assoc.get? t.slots id = some s ∧
      s.registration = r ∧ (t.remove id).channel? r = some (released s c) := by
  by_cases ho : t.Owns id r
  · obtain ⟨s, hs, rfl⟩ := ho
    refine .inr ⟨s, hs, rfl, ?_⟩
    rw [channel?_remove hs, channel?_updateChannel, if_pos rfl, hc]
    rfl
  · exact .inl (by rw [channel?_remove_of_not_owns ho, hc])

namespace Step

variable {c c' : Channel α}

/-- A slot is removed, and its id has no slot of the same registration afterwards. -/
theorem alters_of_remove (id : String) (hc : w.table.channel? r = some c)
    (hsame : w'.table.channel? r = (w.table.remove id).channel? r)
    (hgone : ¬ w'.table.Owns id r) :
    ∃ c', w'.table.channel? r = some c' ∧ Alters w es w' r c c' := by
  rcases Table.channel?_remove_cases id hc with hkept | ⟨s, hs, hr, hreleased⟩
  · exact ⟨c, hsame.trans hkept, .stays⟩
  · exact ⟨_, hsame.trans hreleased, .released hs hr hgone⟩

/-- The receiving end of a registration is dropped. -/
theorem alters_of_drop {k : Nat} {e : Ending α} (hc : w.table.channel? r = some c)
    (hsame : w'.table.channel? r = (w.table.dropReceiver k).channel? r)
    (he : .ended k e ∈ es) : ∃ c', w'.table.channel? r = some c' ∧ Alters w es w' r c c' := by
  rw [hsame, Table.dropReceiver, Table.channel?_updateChannel, hc]
  by_cases hk : k = r
  · subst hk
    exact ⟨_, if_pos rfl, .dropped he⟩
  · exact ⟨c, if_neg hk, .stays⟩

theorem not_owns_remove (t : Table α) (id : String) : ¬ (t.remove id).Owns id r :=
  fun ho => (Table.owns_of_remove ho).2 rfl

/-- **What a step does to a channel.** -/
theorem alters (hstep : Step w es w') (hc : w.table.channel? r = some c) :
    ∃ c', w'.table.channel? r = some c' ∧ Alters w es w' r c c' := by
  have hlt : r < w.table.channels.length := (List.getElem?_eq_some_iff.1 hc).1
  cases hstep with
  | insert id =>
    refine alters_of_remove id hc ?_ fun ho => ?_
    · exact List.getElem?_append_left (by rwa [Table.length_remove])
    · exact Nat.ne_of_lt hlt (Table.eq_of_owns_insert ho)
  | remove id => exact alters_of_remove id hc rfl (not_owns_remove _ id)
  | take v hr =>
    obtain ⟨s, -, -, -, ht⟩ := Table.takeSender_eq_some hr
    refine ⟨c, ?_, .stays⟩
    rw [ht]
    exact hc
  | @refuse id v hr =>
    rcases Table.takeSender_eq_none hr with ht | ⟨ht, -⟩
    · refine ⟨c, ?_, .stays⟩
      rw [ht]
      exact hc
    · refine alters_of_remove id hc ?_ ?_ <;> rw [ht]
      exact not_owns_remove _ id
  | @send k v before after hw =>
    by_cases hk : k = r
    · subst hk
      have haccepted : (w.table.channel? k).any Channel.hasReceiver = c.hasReceiver := by
        rw [hc, Option.any_some]
      refine ⟨_, ?_, .sent (World.mem_moved hw) ?_⟩
      · rw [Table.send, haccepted, Table.channel?_updateChannel, if_pos rfl, hc, Option.map_some]
      · rw [Table.send, haccepted]
        exact List.mem_singleton_self _
    · refine ⟨c, ?_, .stays⟩
      rw [Table.send, Table.channel?_updateChannel, if_neg hk, hc]
  | turnAway hb =>
    refine ⟨c, ?_, .stays⟩
    rw [(Waiter.begin_eq_failure hb).2.2, hc]
  | sit hb =>
    obtain ⟨-, hr, ht⟩ := Waiter.begin_eq_value hb
    obtain ⟨s, -, -, -, ht'⟩ := Table.takeReceiver_eq_some hr
    refine ⟨c, ?_, .stays⟩
    rw [ht, ht']
    exact hc
  | breakDown hb hr =>
    obtain ⟨s, -, -, -, ht⟩ := Table.takeReceiver_eq_some hr
    refine alters_of_drop hc ?_ List.mem_cons_self
    rw [Waiter.begin_eq_breakdown hb hr, ht]
    rfl
  | stay | choose => exact ⟨c, hc, .stays⟩
  | @clear wt => exact alters_of_remove wt.id hc rfl (not_owns_remove _ wt.id)
  | finish | cancel => exact alters_of_drop hc rfl (List.mem_singleton_self _)

/-- No step brings the sending end of a registration back. -/
theorem Alters.hasSender (ha : Alters w es w' r c c') (h : c'.hasSender = true) :
    c.hasSender = true := by
  cases ha with
  | stays | dropped => exact h
  | released hs hr hgone => exact ((Bool.and_eq_true _ _).mp h).1
  | sent ht he => cases h

end Step

/-! ### Ends that are there -/

/-- Whoever has an end of a channel finds it there: a slot of which nobody used the sending end, a
delivery on its way, and a wait. A value that was accepted stays until the receiving end is
dropped. -/
structure Kept (h : History α) (w : World α) : Prop where
  slot {id : String} {r : Nat} (ho : w.table.Owns id r) (hsent : ∀ v b, .delivered r v b ∉ h) :
    w.table.Speaks r
  sending {r : Nat} {v : α} (ht : .sending r v ∈ w.tasks) : w.table.Speaks r
  waiting {task : Task α} {r : Nat} (ht : task ∈ w.tasks) (hr : task.receiver? = some r) :
    w.table.Listens r
  accepted {r : Nat} {v : α} (he : .delivered r v true ∈ h) :
    w.table.Carries r v ∨ ¬ w.table.Listens r

theorem Kept.empty : Kept (α := α) [] ⟨.empty, []⟩ where
  slot ho := by obtain ⟨s, hs, -⟩ := ho; cases hs
  sending ht := by cases ht
  waiting ht := by cases ht
  accepted he := by cases he

/-- A registration whose sending end was taken has a slot without it. -/
theorem Counted.holdsSender_eq_false {s : Slot} (hc : Counted h w)
    (hs : Assoc.get? w.table.slots id = some s) (ht : .sending s.registration v ∈ w.tasks) :
    s.holdsSender = false := by
  have hhand : 0 < (w.tasks.filterMap Task.sender?).count s.registration :=
    List.count_pos_iff.2 (List.mem_filterMap.2 ⟨_, ht, rfl⟩)
  have hsum := hc.sending s.registration
  by_contra hheld
  have := (hc.sender.held_iff hs).1 (eq_true_of_ne_false hheld)
  omega

theorem Counted.holdsReceiver_eq_false {s : Slot} {task : Task α} (hc : Counted h w)
    (hs : Assoc.get? w.table.slots id = some s) (ht : task ∈ w.tasks)
    (hr : task.receiver? = some s.registration) : s.holdsReceiver = false := by
  have hhand : 0 < (w.tasks.filterMap Task.receiver?).count s.registration :=
    List.count_pos_iff.2 (List.mem_filterMap.2 ⟨_, ht, hr⟩)
  have hsum := hc.waiting s.registration
  by_contra hheld
  have := (hc.receiver.held_iff hs).1 (eq_true_of_ne_false hheld)
  omega

/-- A sending end is used once. -/
theorem Counted.not_sending {b : Bool} {u : α} (hc : Counted h w) (he : .delivered r v b ∈ h) :
    .sending r u ∉ w.tasks := by
  intro ht
  have hhand : 0 < (w.tasks.filterMap Task.sender?).count r :=
    List.count_pos_iff.2 (List.mem_filterMap.2 ⟨_, ht, rfl⟩)
  have hused : 0 < (h.filterMap Event.sent?).count r := count_pos_iff.2 ⟨_, he, rfl⟩
  have hsum := hc.sending r
  have := hc.sender.once r
  omega

/-- A wait that ended has no receiving end. -/
theorem Counted.receiver_ne {e : Ending α} {task : Task α} (hc : Counted h w)
    (he : .ended r e ∈ h) (ht : task ∈ w.tasks) : task.receiver? ≠ some r := by
  intro hr
  have hhand : 0 < (w.tasks.filterMap Task.receiver?).count r :=
    List.count_pos_iff.2 (List.mem_filterMap.2 ⟨_, ht, hr⟩)
  have hended : 0 < (h.filterMap Event.ended?).count r := count_pos_iff.2 ⟨_, he, rfl⟩
  have hsum := hc.waiting r
  have := hc.receiver.once r
  omega

/-- A value that is accepted is in the channel. -/
theorem Table.carries_send {t : Table α} (h : (t.send r v).2 = true) :
    (t.send r v).1.Carries r v := by
  obtain ⟨c, hc, -⟩ := Table.listens_iff.1 h
  refine ⟨{ c with value? := some v, hasSender := false }, ?_, rfl⟩
  have haccepted : (t.channel? r).any Channel.hasReceiver = true := h
  rw [Table.send, haccepted, Table.channel?_updateChannel, if_pos rfl, hc, Option.map_some]
  rfl

/-- The wait that a task is in was there before, or has just taken its receiving end. -/
theorem Task.Comes.receiver {task : Task α} (hcomes : task.Comes w es)
    (hr : task.receiver? = some r) :
    (∃ task' ∈ w.tasks, task'.receiver? = some r) ∨ ∃ id, .tookReceiver id r ∈ es := by
  cases hcomes with
  | stays ht => exact .inl ⟨task, ht, hr⟩
  | sending he => cases hr
  | sits he =>
    obtain rfl := Option.some.inj hr
    exact .inr ⟨_, he⟩
  | waits ht hsame =>
    obtain rfl := Option.some.inj hr
    exact .inl ⟨_, ht, congrArg some hsame.2.symm⟩
  | leaves ht hv => exact .inl ⟨_, ht, hr⟩
  | finishes ht => exact .inl ⟨_, ht, hr⟩

/-- A wait that takes a receiving end leaves the slot where it is. -/
theorem Step.owns_of_tookReceiver_after (hstep : Step w es w') (he : .tookReceiver id r ∈ es) :
    w'.table.Owns id r := by
  have ho := hstep.owns_of_tookReceiver he
  cases hstep with
  | sit | breakDown => exact Waiter.owns_begin ho
  | _ => simp at he

/-- A registration of which anything is remembered has a channel. -/
theorem Rooted.exists_channel (hr : Rooted h w) (he : .inserted id r ∈ h) :
    ∃ c, w.table.channel? r = some c :=
  ⟨_, List.getElem?_eq_getElem (hr.below he)⟩

theorem Step.kept (hstep : Step w es w') (hcounted : Counted h w) (hrooted : Rooted h w)
    (htruthful : Truthful h w) (htenured : Tenured h w) (hk : Kept h w) :
    Kept (es ++ h) w' where
  slot {id r} ho' hsent := by
    rcases hstep.owns ho' with ho | hnew
    · obtain ⟨c, hc, hspeaks⟩ := Table.speaks_iff.1
        (hk.slot ho fun v b he => hsent v b (List.mem_append_right _ he))
      obtain ⟨c', hc', halters⟩ := hstep.alters hc
      refine Table.speaks_iff.2 ⟨c', hc', ?_⟩
      cases halters with
      | stays | dropped => exact hspeaks
      | released hs hr hgone =>
        obtain rfl := hcounted.separate.unique ⟨_, hs, hr⟩ ho
        exact absurd ho' hgone
      | sent ht he => exact absurd (List.mem_append_left _ he) (hsent _ _)
    · obtain ⟨rfl, -, rfl⟩ := hstep.inserted hnew
      refine Table.speaks_iff.2 ⟨⟨none, true, true⟩, ?_, rfl⟩
      rw [Table.channel?, Table.insert, ← Table.length_remove w.table id,
        List.getElem?_concat_length]
  sending {r v} ht' := by
    have hcounted' := hstep.counted hcounted
    have hsent : ∀ u b, .delivered r u b ∉ es ++ h := fun u b he => hcounted'.not_sending he ht'
    cases hstep.comes ht' with
    | stays ht =>
      obtain ⟨c, hc, hspeaks⟩ := Table.speaks_iff.1 (hk.sending ht)
      obtain ⟨c', hc', halters⟩ := hstep.alters hc
      refine Table.speaks_iff.2 ⟨c', hc', ?_⟩
      cases halters with
      | stays | dropped => exact hspeaks
      | released hs hr hgone =>
        subst hr
        simp [Table.released, hspeaks, hcounted.holdsSender_eq_false hs ht]
      | sent _ he => exact absurd (List.mem_append_left _ he) (hsent _ _)
    | sending he =>
      have hspeaks := hk.slot (hstep.owns_of_tookSender he) fun u b hu =>
        hsent u b (List.mem_append_right _ hu)
      cases hstep with
      | take u hr =>
        obtain ⟨rfl, rfl, -⟩ := Event.tookSender.inj (List.mem_singleton.1 he)
        obtain ⟨s, -, -, -, ht⟩ := Table.takeSender_eq_some hr
        rw [ht]
        exact hspeaks
      | _ => simp at he
  waiting {task r} ht' hr := by
    have hcounted' := hstep.counted hcounted
    have hended : ∀ e, .ended r e ∉ es ++ h := fun e he => hcounted'.receiver_ne he ht' hr
    rcases (hstep.comes ht').receiver hr with ⟨task', ht, hr'⟩ | ⟨id, he⟩
    · obtain ⟨c, hc, hlistens⟩ := Table.listens_iff.1 (hk.waiting ht hr')
      obtain ⟨c', hc', halters⟩ := hstep.alters hc
      refine Table.listens_iff.2 ⟨c', hc', ?_⟩
      cases halters with
      | stays | sent => exact hlistens
      | released hs hreg hgone =>
        subst hreg
        simp [Table.released, hlistens, hcounted.holdsReceiver_eq_false hs ht hr']
      | dropped he => exact absurd (List.mem_append_left _ he) (hended _)
    · exact ((hstep.tenured hcounted hrooted htenured).listens
        (hstep.owns_of_tookReceiver_after he)).2 hended
  accepted {r v} he := by
    rcases List.mem_append.1 he with hnew | hold
    · cases hstep with
      | send hw =>
        obtain ⟨rfl, rfl, haccepted⟩ := Event.delivered.inj (List.mem_singleton.1 hnew)
        exact .inl (Table.carries_send haccepted.symm)
      | _ => simp at hnew
    · obtain ⟨id, hsender⟩ := htruthful.delivered hold
      obtain ⟨c, hc⟩ := hrooted.exists_channel (hrooted.sender hsender)
      obtain ⟨c', hc', halters⟩ := hstep.alters hc
      cases halters with
      | stays =>
        simpa only [Table.Carries, Table.Listens, hc, hc'] using hk.accepted hold
      | released hs hr hgone =>
        rcases hk.accepted hold with ⟨d, hd, hv⟩ | hlistens
        · obtain rfl := Option.some.inj (hc.symm.trans hd)
          exact .inl ⟨_, hc', hv⟩
        · refine .inr fun hl => hlistens ?_
          obtain ⟨d, hd, hreceiver⟩ := Table.listens_iff.1 hl
          obtain rfl := Option.some.inj (hc'.symm.trans hd)
          exact Table.listens_iff.2 ⟨c, hc, ((Bool.and_eq_true _ _).mp hreceiver).1⟩
      | sent ht _ => exact absurd ht (hcounted.not_sending hold)
      | dropped _ =>
        refine .inr fun hl => ?_
        rw [Table.Listens, hc'] at hl
        cases hl

/-- **In every run whoever has an end of a channel finds it there, and accepted values stay.** -/
theorem Run.kept (hrun : Run h w) : Kept h w := by
  induction hrun with
  | begin => exact .empty
  | step hrun hstep ih =>
    exact hstep.kept hrun.counted hrun.rooted hrun.truthful hrun.tenured ih

/-! ### Channels that are found closed -/

/-- A wait on the registration found its channel closed. -/
inductive FoundClosed (h : History α) (w : World α) (r : Nat) : Prop
  | leaving {wt : Waiter} (ht : .leaving wt (.error .unknown) ∈ w.tasks) (hr : wt.registration = r)
  | finishing {wt : Waiter} (ht : .finishing wt (.error .unknown) ∈ w.tasks)
      (hr : wt.registration = r)
  | ended (he : .ended r (.failure .unknown) ∈ h)

/-- The wait of such a channel took its receiving end. -/
theorem FoundClosed.tookReceiver (hf : FoundClosed h w r) (hcounted : Counted h w)
    (hrooted : Rooted h w) : ∃ id, .tookReceiver id r ∈ h := by
  cases hf with
  | leaving ht hr => exact ⟨_, hr ▸ hrooted.waiting ht rfl⟩
  | finishing ht hr => exact ⟨_, hr ▸ hrooted.waiting ht rfl⟩
  | ended he => exact hcounted.tookReceiver he

/-- A wait that fails without its deadline sees a closed channel. -/
theorem Waiter.closed_of_choose {wt : Waiter} {t : Table α} {now : Nat} {b : Branch}
    (h : wt.choose t now b = .inr (.error .unknown)) : t.receive wt.registration = .closed := by
  cases b with
  | answer =>
    simp only [Waiter.choose] at h
    split at h
    · cases h
    · assumption
    · cases h
  | tick => cases h
  | deadline =>
    simp only [Waiter.choose] at h
    split_ifs at h
    cases h

/-- A channel is found closed by a wait that looks at it. -/
theorem Step.foundClosed (hstep : Step w es w') (hf : FoundClosed (es ++ h) w' r) :
    FoundClosed h w r ∨ es = [] ∧ w'.table = w.table ∧ w.table.receive r = .closed ∧
      ∃ wt, .waiting wt ∈ w.tasks ∧ wt.registration = r := by
  cases hf with
  | @leaving wt ht hr =>
    cases hstep with
    | insert | remove | refuse | turnAway | breakDown => exact .inl (.leaving ht hr)
    | take | sit =>
      exact .inl (.leaving ((List.mem_cons.1 ht).resolve_left (by simp)) hr)
    | send hw | finish hw | cancel hw => exact .inl (.leaving (World.mem_of_drop hw ht) hr)
    | stay now hw ready hc =>
      exact .inl (.leaving ((World.mem_of_replace hw ht).resolve_left (by simp)) hr)
    | choose now hw ready hc =>
      rcases World.mem_of_replace hw ht with heq | ht
      · obtain ⟨rfl, rfl⟩ := Task.leaving.inj heq
        exact .inr ⟨rfl, rfl, hr ▸ Waiter.closed_of_choose hc, wt, World.mem_moved hw, hr⟩
      · exact .inl (.leaving ht hr)
    | clear hw => exact .inl (.leaving ((World.mem_of_replace hw ht).resolve_left (by simp)) hr)
  | @finishing wt ht hr =>
    cases hstep.comes ht with
    | stays ht => exact .inl (.finishing ht hr)
    | finishes ht => exact .inl (.leaving ht hr)
  | ended he =>
    rcases List.mem_append.1 he with hnew | hold
    · cases hstep with
      | @finish wt result before after hw =>
        obtain ⟨hr, hresult⟩ := Event.ended.inj (List.mem_singleton.1 hnew)
        cases result with
        | ok u => cases hresult
        | error e =>
          obtain rfl := Ending.failure.inj hresult
          exact .inl (.finishing (World.mem_moved hw) hr.symm)
      | breakDown | cancel => simp at hnew
      | _ => simp at hnew
    · exact .inl (.ended hold)

/-- A channel that was found closed has no sending end, and nothing was accepted for it. -/
theorem Run.silent_of_foundClosed (hrun : Run h w) (hf : FoundClosed h w r) :
    ¬ w.table.Speaks r ∧ ∀ v, .delivered r v true ∉ h := by
  induction hrun with
  | begin =>
    cases hf with
    | leaving ht | finishing ht => cases ht
    | ended he => cases he
  | @step h es w w' hrun hstep ih =>
    have hkept := hrun.kept
    rcases hstep.foundClosed hf with hf | ⟨rfl, htable, hclosed, wt, ht, hr⟩
    · obtain ⟨hsilent, hnone⟩ := ih hf
      obtain ⟨id, htook⟩ := hf.tookReceiver hrun.counted hrun.rooted
      obtain ⟨c, hc⟩ := hrun.rooted.exists_channel (hrun.rooted.receiver htook)
      obtain ⟨c', hc', halters⟩ := hstep.alters hc
      refine ⟨fun hspeaks => hsilent ?_, fun v he => ?_⟩
      · obtain ⟨d, hd, hsender⟩ := Table.speaks_iff.1 hspeaks
        obtain rfl := Option.some.inj (hc'.symm.trans hd)
        exact Table.speaks_iff.2 ⟨c, hc, halters.hasSender hsender⟩
      · rcases List.mem_append.1 he with he | he
        · exact hsilent (hkept.sending (hstep.sending_of_delivered he))
        · exact hnone v he
    · have hlistens : w.table.Listens r := hkept.waiting ht (congrArg some hr)
      obtain ⟨c, hc, -⟩ := Table.listens_iff.1 hlistens
      have hempty : c.value? = none ∧ c.hasSender = false := by
        rw [Table.receive, hc] at hclosed
        cases hvalue : c.value? with
        | some u => simp [hvalue] at hclosed
        | none => simpa [hvalue] using hclosed
      rw [htable]
      refine ⟨fun hspeaks => ?_, fun v he => ?_⟩
      · rw [Table.Speaks, hc, Option.any_some, hempty.2] at hspeaks
        cases hspeaks
      · rcases hkept.accepted he with ⟨d, hd, hv⟩ | hnot
        · obtain rfl := Option.some.inj (hc.symm.trans hd)
          rw [hempty.1] at hv
          cases hv
        · exact hnot hlistens

/-! ### Waits for accepted values -/

/-- A wait whose value was accepted has it at hand. -/
theorem Kept.receive {wt : Waiter} (hk : Kept h w) (he : .delivered wt.registration v true ∈ h)
    (ht : .waiting wt ∈ w.tasks) : w.table.receive wt.registration = .value v := by
  obtain ⟨c, hc, hv⟩ := (hk.accepted he).resolve_right fun hnot => hnot (hk.waiting ht rfl)
  rw [Table.receive, hc]
  simp only [hv]

/-- At most one value is accepted for a registration. -/
theorem Counted.eq_of_accepted {u : α} (hc : Counted h w) (hv : .delivered r v true ∈ h)
    (hu : .delivered r u true ∈ h) : u = v := by
  have heq := eq_of_count_le_one (hc.accepted_le r) hv rfl hu rfl
  exact (Event.delivered.inj heq).2.1.symm

/-- **How a wait ends whose value was accepted.** As long as it waits, the answer is ready and is
the value; nothing else can end the sitting but the deadline, and that only once it has passed. So
the wait returns the value, unless it chooses its deadline, is given up, or breaks down at its
start. It never fails for want of a sender. A wait that begins with a period for its ticker, and a
first tick that the clock can show, does not break down. -/
theorem accepted_until_deadline (hrun : Run h w) (hv : .delivered r v true ∈ h) :
    (∀ wt, .waiting wt ∈ w.tasks → wt.registration = r → ∀ now,
      (wt.isReady w.table now .answer = true ∧
        wt.choose w.table now .answer = .inr (.ok v)) ∧
      ∀ b result, wt.isReady w.table now b = true → wt.choose w.table now b = .inr result →
        result = .ok v ∨ b = .deadline ∧ wt.deadline ≤ now ∧ result = .error .timeout) ∧
      (∀ e, .ended r e ∈ h →
        e = .value v ∨ e = .failure .timeout ∨ e = .cancelled ∨ e = .breakdown) ∧
      ∀ id, w.table.Owns id r → (∀ j, .tookReceiver j r ∉ h) →
        ∀ poll timeout now, poll ≠ 0 → now + poll < lastInstant →
          ∃ wt, (Waiter.begin w.table id poll timeout now).2 = .value wt ∧
            wt.registration = r := by
  have hcounted := hrun.counted
  refine ⟨fun wt ht hr now => ?_, fun e he => ?_, fun id ho hreceiver poll timeout now hpoll hnow =>
    hcounted.sits ho hreceiver timeout hpoll hnow⟩
  · subst hr
    have hreceive := hrun.kept.receive hv ht
    refine ⟨⟨by simp [Waiter.isReady, hreceive], by simp [Waiter.choose, hreceive]⟩,
      fun b result hready hchoose => ?_⟩
    cases b with
    | answer =>
      simp only [Waiter.choose, hreceive] at hchoose
      exact .inl (Sum.inr.inj hchoose).symm
    | tick => cases hchoose
    | deadline =>
      have hpassed : wt.deadline ≤ now := of_decide_eq_true hready
      rw [Waiter.choose, if_pos hpassed] at hchoose
      exact .inr ⟨rfl, hpassed, (Sum.inr.inj hchoose).symm⟩
  · cases e with
    | value u =>
      exact .inl (congrArg Ending.value (hcounted.eq_of_accepted hv (hrun.truthful.ended he)))
    | failure error =>
      cases error with
      | unknown => exact absurd hv ((hrun.silent_of_foundClosed (.ended he)).2 v)
      | timeout => exact .inr (.inl rfl)
    | cancelled => exact .inr (.inr (.inl rfl))
    | breakdown => exact .inr (.inr (.inr rfl))

/-- A slot that was delivered to before anybody waits on it. -/
def filled : World Nat :=
  ⟨⟨[("m", ⟨0, false, true⟩)], [⟨some 7, false, true⟩]⟩, []⟩

theorem run_filled : Run [.delivered 0 7 true, .tookSender "m" 0 7, .inserted "m" 0] filled := by
  have h₁ : @Run Nat _ _ := Run.begin.step (.insert "m")
  have h₂ := h₁.step (@Step.take _ _ "m" 0 7 (by decide))
  exact h₂.step (@Step.send _ _ 0 7 [] [] rfl)

/-- A wait on such a slot has the value at hand, and before its deadline nothing else can end it. -/
theorem filled_until_deadline :
    ∃ (h : History Nat) (w : World Nat) (wt : Waiter), Run h w ∧ .delivered 0 7 true ∈ h ∧
      .waiting wt ∈ w.tasks ∧ wt.deadline = 5 ∧
      wt.choose w.table 4 .answer = .inr (.ok 7) ∧
      (∀ b result, wt.isReady w.table 4 b = true → wt.choose w.table 4 b = .inr result →
        result = .ok 7) ∧
      ∃ wt', (Waiter.begin filled.table "m" 1 5 0).2 = .value wt' ∧ wt'.registration = 0 := by
  have hsat := run_filled.step (@Step.sit _ _ "m" 1 5 0 ⟨"m", 0, 1, 5, 1⟩ (by decide))
  have hv : .delivered 0 7 true ∈ [Event.tookReceiver "m" 0] ++
      [.delivered 0 7 true, .tookSender "m" 0 7, .inserted "m" 0] := by simp
  obtain ⟨hwaits, -, -⟩ := accepted_until_deadline hsat hv
  obtain ⟨⟨-, hanswer⟩, honly⟩ := hwaits _ List.mem_cons_self rfl 4
  obtain ⟨-, -, hbegins⟩ := accepted_until_deadline run_filled List.mem_cons_self
  refine ⟨_, _, _, hsat, hv, List.mem_cons_self, rfl, hanswer, fun b result hready hchoose => ?_,
    hbegins "m" ⟨⟨0, false, true⟩, by decide, rfl⟩ (by simp) 1 5 0 (by decide) (by decide)⟩
  rcases honly b result hready hchoose with hresult | ⟨-, hpassed, -⟩
  · exact hresult
  · exact absurd hpassed (by decide)

/-- Accepted values that no wait returns, though the id is registered once, never removed, and no
wait is given up: the value was there before the wait began, which then chose its deadline; the
deadline was chosen, and the value accepted before the wait dropped its end; the value was there,
and the wait broke down for want of a period. -/
theorem exists_accepted_lost :
    (∃ w : World Nat, Run [.ended 0 (.failure .timeout), .cleared "m" 0, .tookReceiver "m" 0,
      .delivered 0 7 true, .tookSender "m" 0 7, .inserted "m" 0] w) ∧
    (∃ w : World Nat, Run [.ended 0 (.failure .timeout), .cleared "m" 0, .delivered 0 7 true,
      .tookSender "m" 0 7, .tookReceiver "m" 0, .inserted "m" 0] w) ∧
    ∃ w : World Nat, Run [.ended 0 .breakdown, .tookReceiver "m" 0, .delivered 0 7 true,
      .tookSender "m" 0 7, .inserted "m" 0] w := by
  refine ⟨?_, ?_, ?_⟩
  · have hsat := run_filled.step (@Step.sit _ _ "m" 1 5 0 ⟨"m", 0, 1, 5, 1⟩ (by decide))
    have hchoose := hsat.step
      (@Step.choose _ _ _ .deadline (.error .timeout) [] [] 5 rfl (by decide) rfl)
    have hclear := hchoose.step (@Step.clear _ _ _ _ [] _ rfl)
    exact ⟨_, hclear.step (@Step.finish _ _ _ _ [] _ rfl)⟩
  · have hinsert : @Run Nat _ _ := Run.begin.step (.insert "m")
    have hsat := hinsert.step (@Step.sit _ _ "m" 1 5 0 ⟨"m", 0, 1, 5, 1⟩ (by decide))
    have hchoose := hsat.step
      (@Step.choose _ _ _ .deadline (.error .timeout) [] [] 5 rfl (by decide) rfl)
    have htake := hchoose.step (@Step.take _ _ "m" 0 7 (by decide))
    have hsend := htake.step (@Step.send _ _ 0 7 [] _ rfl)
    have hclear := hsend.step (@Step.clear _ _ _ _ [] _ rfl)
    exact ⟨_, hclear.step (@Step.finish _ _ _ _ [] _ rfl)⟩
  · exact ⟨_, run_filled.step (@Step.breakDown _ _ "m" 0 5 0 0 .zeroPeriod (by decide) (by decide))⟩

end KeyCustody.Pending
