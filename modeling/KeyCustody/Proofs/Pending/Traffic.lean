import KeyCustody.Pending.Room
import KeyCustody.Proofs.Pending.Table
import Mathlib.Data.List.Nodup
/-!
# Many tasks on one table

Any number of tasks use one table: they register slots and remove them, deliver to them and wait on
them, under any ids. A step is one access to the table, or one use of an end of a channel that was
taken from it, and the steps of all tasks come in any order and at any instants. A wait that is over
removes the slot under its id in one step and drops its receiving end in another, and a wait that
still sits may be given up.

Each end of a channel is taken at most once, and whoever took it uses it at most once. Hence a
registration has at most one delivery that is accepted and at most one wait that gets a value, and
this value is the one that was delivered.

## Main definitions

* `Task`, `Event`, `World`: what a task is in the middle of, what is remembered, and the table.
* `Step`, `Run`: a step of a task, and a run from an empty table on.
* `Tallied`, `Counted`: how often the ends of channels were taken, and by whom.
* `Rooted`, `Truthful`: where registrations and values come from.

## Main results

* `Step.counted`, `Step.rooted`, `Step.truthful`, and the same of `Run`: what holds of every run.
* `delivered_at_most_once`: what holds of every registration.
-/

namespace KeyCustody.Pending

variable {α : Type}

/-! ### Tasks and steps -/

/-- What a task is in the middle of. -/
inductive Task (α : Type) where
  /-- A delivery that took the sending end of a registration. -/
  | sending (registration : Nat) (v : α)
  | waiting (w : Waiter)
  /-- A wait that is over, before it removes the slot under its id. -/
  | leaving (w : Waiter) (result : Except WaitError α)
  /-- A wait that removed the slot under its id, before it drops its receiving end. -/
  | finishing (w : Waiter) (result : Except WaitError α)

/-- What is remembered of a run. Whatever uses an end of a channel is remembered with the
registration. -/
inductive Event (α : Type) where
  | inserted (id : String) (r : Nat)
  | removed (id : String)
  /-- A delivery took a sending end. -/
  | tookSender (id : String) (r : Nat) (v : α)
  /-- A delivery that took a sending end returned. -/
  | delivered (r : Nat) (v : α) (accepted : Bool)
  /-- A delivery found no sending end, and was not accepted. -/
  | refused (id : String) (v : α)
  /-- A wait took a receiving end. -/
  | tookReceiver (id : String) (r : Nat)
  /-- A wait found no receiving end, and failed at once. -/
  | turnedAway (id : String)
  /-- A wait that was over removed the slot under its id. -/
  | cleared (id : String) (r : Nat)
  /-- A wait that took a receiving end ended. -/
  | ended (r : Nat) (ending : Ending α)

/-- What was, the latest event first. -/
abbrev History (α : Type) := List (Event α)

/-- A table, and what tasks are in the middle of. -/
structure World (α : Type) where
  table : Table α
  tasks : List (Task α)

/-- A step of a task: what is remembered of it, and the world after it. -/
inductive Step (w : World α) : History α → World α → Prop
  | insert (id : String) :
      Step w [.inserted id w.table.channels.length] { w with table := w.table.insert id }
  | remove (id : String) : Step w [.removed id] { w with table := w.table.remove id }
  | take {id : String} {r : Nat} (v : α) (hr : (w.table.takeSender id).2 = some r) :
      Step w [.tookSender id r v] ⟨(w.table.takeSender id).1, .sending r v :: w.tasks⟩
  | refuse {id : String} (v : α) (hr : (w.table.takeSender id).2 = none) :
      Step w [.refused id v] { w with table := (w.table.takeSender id).1 }
  | send {r : Nat} {v : α} {before after : List (Task α)}
      (hw : w.tasks = before ++ .sending r v :: after) :
      Step w [.delivered r v (w.table.send r v).2] ⟨(w.table.send r v).1, before ++ after⟩
  | turnAway {id : String} {poll timeout now : Nat} {e : WaitError}
      (hb : (Waiter.begin w.table id poll timeout now).2 = .failure e) :
      Step w [.turnedAway id] { w with table := (Waiter.begin w.table id poll timeout now).1 }
  | sit {id : String} {poll timeout now : Nat} {wt : Waiter}
      (hb : (Waiter.begin w.table id poll timeout now).2 = .value wt) :
      Step w [.tookReceiver id wt.registration]
        ⟨(Waiter.begin w.table id poll timeout now).1, .waiting wt :: w.tasks⟩
  | breakDown {id : String} {poll timeout now r : Nat} {b : Breakdown}
      (hb : (Waiter.begin w.table id poll timeout now).2 = .breakdown b)
      (hr : (w.table.takeReceiver id).2 = some r) :
      Step w [.ended r .breakdown, .tookReceiver id r]
        { w with table := (Waiter.begin w.table id poll timeout now).1 }
  | stay {wt wt' : Waiter} {b : Branch} {before after : List (Task α)} (now : Nat)
      (hw : w.tasks = before ++ .waiting wt :: after) (ready : wt.isReady w.table now b = true)
      (hc : wt.choose w.table now b = .inl wt') :
      Step w [] { w with tasks := before ++ .waiting wt' :: after }
  | choose {wt : Waiter} {b : Branch} {result : Except WaitError α}
      {before after : List (Task α)} (now : Nat)
      (hw : w.tasks = before ++ .waiting wt :: after) (ready : wt.isReady w.table now b = true)
      (hc : wt.choose w.table now b = .inr result) :
      Step w [] { w with tasks := before ++ .leaving wt result :: after }
  | clear {wt : Waiter} {result : Except WaitError α} {before after : List (Task α)}
      (hw : w.tasks = before ++ .leaving wt result :: after) :
      Step w [.cleared wt.id wt.registration]
        ⟨w.table.remove wt.id, before ++ .finishing wt result :: after⟩
  | finish {wt : Waiter} {result : Except WaitError α} {before after : List (Task α)}
      (hw : w.tasks = before ++ .finishing wt result :: after) :
      Step w [.ended wt.registration (Room.ending result)]
        ⟨w.table.dropReceiver wt.registration, before ++ after⟩
  | cancel {wt : Waiter} {before after : List (Task α)}
      (hw : w.tasks = before ++ .waiting wt :: after) :
      Step w [.ended wt.registration .cancelled] ⟨wt.cancel w.table, before ++ after⟩

/-- A run from an empty table without tasks: its history, and the world it leads to. -/
inductive Run : History α → World α → Prop
  | begin : Run [] ⟨.empty, []⟩
  | step {h es : History α} {w w' : World α} (hrun : Run h w) (hstep : Step w es w') :
      Run (es ++ h) w'

/-! ### Counting -/

namespace Event

/-- The registration whose sending end a delivery takes. -/
def senderTaken? : Event α → Option Nat
  | .tookSender _ r _ => some r
  | _ => none

/-- The registration whose sending end a delivery has used. -/
def sent? : Event α → Option Nat
  | .delivered r _ _ => some r
  | _ => none

/-- The registration of a delivery that is accepted. -/
def accepted? : Event α → Option Nat
  | .delivered r _ true => some r
  | _ => none

/-- The registration whose receiving end a wait takes. -/
def receiverTaken? : Event α → Option Nat
  | .tookReceiver _ r => some r
  | _ => none

/-- The registration of a wait that ends. -/
def ended? : Event α → Option Nat
  | .ended r _ => some r
  | _ => none

/-- The registration of a wait that ends with a value. -/
def answered? : Event α → Option Nat
  | .ended r (.value _) => some r
  | _ => none

end Event

namespace Task

/-- The registration whose sending end a task has. -/
def sender? : Task α → Option Nat
  | .sending r _ => some r
  | _ => none

/-- The wait that a task is in. -/
def waiter? : Task α → Option Waiter
  | .waiting w | .leaving w _ | .finishing w _ => some w
  | .sending _ _ => none

/-- The registration whose receiving end a task has. -/
def receiver? (task : Task α) : Option Nat :=
  task.waiter?.map Waiter.registration

/-- The registration and the value of a wait that is over. -/
def value? : Task α → Option (Nat × α)
  | .leaving w (.ok v) | .finishing w (.ok v) => some (w.registration, v)
  | _ => none

end Task

/-- One end of each channel is tallied: how often it was taken, and whether a slot holds it. -/
structure Tallied (t : Table α) (held : Slot → Bool) (taken : Nat → Nat) : Prop where
  once (r : Nat) : taken r ≤ 1
  held_iff {id : String} {s : Slot} (hs : Assoc.get? t.slots id = some s) :
    held s = true ↔ taken s.registration = 0
  fresh {r : Nat} (hr : t.channels.length ≤ r) : taken r = 0

namespace Tallied

variable {t t' : Table α} {held : Slot → Bool} {taken : Nat → Nat} {id : String} {s s' : Slot}

theorem empty (held : Slot → Bool) : Tallied (.empty : Table α) held fun _ => 0 where
  once _ := Nat.zero_le 1
  held_iff hs := by cases hs
  fresh _ := rfl

/-- Slots that hold what they held keep the tally. -/
theorem of_slots (h : Tallied t held taken) (hlength : t'.channels.length = t.channels.length)
    (hslots : ∀ {id s'}, Assoc.get? t'.slots id = some s' → ∃ s, Assoc.get? t.slots id = some s ∧
      s.registration = s'.registration ∧ held s = held s') : Tallied t' held taken where
  once := h.once
  held_iff hs' := by
    obtain ⟨s, hs, hr, hheld⟩ := hslots hs'
    rw [← hheld, ← hr]
    exact h.held_iff hs
  fresh hr := h.fresh (hlength ▸ hr)

/-- So does a change of channels alone. -/
theorem of_channels (h : Tallied t held taken) (hslots : t'.slots = t.slots)
    (hlength : t'.channels.length = t.channels.length) : Tallied t' held taken :=
  h.of_slots hlength fun {_ s'} hs => ⟨s', hslots ▸ hs, rfl, rfl⟩

theorem dropReceiver (h : Tallied t held taken) (r : Nat) :
    Tallied (t.dropReceiver r) held taken :=
  h.of_channels rfl (Table.length_dropReceiver t r)

theorem remove (h : Tallied t held taken) (id : String) : Tallied (t.remove id) held taken := by
  refine h.of_slots (Table.length_remove t id) fun {j s'} hs' => ?_
  rw [Table.get?_slots_remove] at hs'
  split_ifs at hs'
  exact ⟨s', hs', rfl, rfl⟩

/-- A fresh slot holds both ends. -/
theorem insert (h : Tallied t held taken) (id : String) (hfull : ∀ r, held ⟨r, true, true⟩ = true) :
    Tallied (t.insert id) held taken where
  once := h.once
  held_iff {j s} hs := by
    rw [Table.insert, Assoc.get?_put] at hs
    split_ifs at hs
    · obtain rfl := Option.some.inj hs
      exact iff_of_true (hfull _) (h.fresh (Nat.le_of_eq (Table.length_remove t id).symm))
    · exact (h.remove id).held_iff hs
  fresh hr := h.fresh (by rw [Table.length_insert] at hr; omega)

/-- A slot may change what it holds of the other end. -/
theorem put (h : Tallied t held taken) (hs : Assoc.get? t.slots id = some s)
    (hr : s.registration = s'.registration) (hheld : held s = held s') :
    Tallied { t with slots := Assoc.put t.slots id s' } held taken := by
  refine h.of_slots rfl fun {j k} hk => ?_
  rw [Assoc.get?_put] at hk
  split_ifs at hk with hj
  · obtain rfl := Option.some.inj hk
    exact ⟨s, by rw [hj, hs], hr, hheld⟩
  · exact ⟨k, hk, rfl, rfl⟩

/-- An end that a slot holds can be taken, and was not taken before. -/
theorem take (h : Tallied t held taken) (ht : t.Separate) (hs : Assoc.get? t.slots id = some s)
    (hheld : held s = true) {s' : Slot} (hgone : held s' = false)
    (hr : s.registration = s'.registration) :
    Tallied { t with slots := Assoc.put t.slots id s' } held
      fun r => taken r + if s.registration = r then 1 else 0 where
  once r := by
    have hzero := (h.held_iff hs).1 hheld
    have := h.once r
    split_ifs with heq
    · rw [← heq]
      omega
    · omega
  held_iff {j k} hk := by
    rw [Assoc.get?_put] at hk
    split_ifs at hk with hj
    · obtain rfl := Option.some.inj hk
      rw [hgone, hr, if_pos rfl]
      simp
    · have hne : s.registration ≠ k.registration := fun heq =>
        hj (ht.unique ⟨k, hk, rfl⟩ ⟨s, hs, heq⟩)
      rw [if_neg hne]
      exact h.held_iff hk
  fresh {r} hlt := by
    have hne : s.registration ≠ r := by
      have := ht.lt ⟨s, hs, rfl⟩
      have : t.channels.length ≤ r := hlt
      omega
    rw [if_neg hne, h.fresh hlt]

end Tallied

variable {h es : History α} {w w' : World α} {id : String} {r : Nat} {v : α}

/-- Each end of a channel is in its slot, or it was taken once and is with the task that took it, or
this task has used it. -/
structure Counted (h : History α) (w : World α) : Prop where
  separate : w.table.Separate
  sender : Tallied w.table Slot.holdsSender fun r => (h.filterMap Event.senderTaken?).count r
  receiver : Tallied w.table Slot.holdsReceiver fun r => (h.filterMap Event.receiverTaken?).count r
  sending (r : Nat) : (h.filterMap Event.senderTaken?).count r =
    (h.filterMap Event.sent?).count r + (w.tasks.filterMap Task.sender?).count r
  waiting (r : Nat) : (h.filterMap Event.receiverTaken?).count r =
    (h.filterMap Event.ended?).count r + (w.tasks.filterMap Task.receiver?).count r

theorem Counted.empty : Counted (α := α) [] ⟨.empty, []⟩ where
  separate := Table.separate_empty
  sender := .empty _
  receiver := .empty _
  sending _ := rfl
  waiting _ := rfl

/-- What takes no end of a channel and uses none does not count. -/
theorem Counted.cons {e : Event α} (hc : Counted h w) (htaken : e.senderTaken? = none)
    (hsent : e.sent? = none) (htaken' : e.receiverTaken? = none) (hended : e.ended? = none) :
    Counted (e :: h) w where
  separate := hc.separate
  sender := by simpa only [List.filterMap_cons, htaken] using hc.sender
  receiver := by simpa only [List.filterMap_cons, htaken'] using hc.receiver
  sending := by simpa only [List.filterMap_cons, htaken, hsent] using hc.sending
  waiting := by simpa only [List.filterMap_cons, htaken', hended] using hc.waiting

/-- A slot may go away. -/
theorem Counted.remove (hc : Counted h w) (id : String) :
    Counted h { w with table := w.table.remove id } :=
  ⟨hc.separate.remove id, hc.sender.remove id, hc.receiver.remove id, hc.sending, hc.waiting⟩

/-- A task may go on with the ends that it has. -/
theorem Counted.replace {task task' : Task α} {before after : List (Task α)} (hc : Counted h w)
    (hw : w.tasks = before ++ task :: after) (hsender : task'.sender? = task.sender?)
    (hreceiver : task'.receiver? = task.receiver?) :
    Counted h { w with tasks := before ++ task' :: after } where
  separate := hc.separate
  sender := hc.sender
  receiver := hc.receiver
  sending k := by
    have := hc.sending k
    rwa [hw, List.filterMap_append, List.filterMap_cons, ← hsender, ← List.filterMap_cons,
      ← List.filterMap_append] at this
  waiting k := by
    have := hc.waiting k
    rwa [hw, List.filterMap_append, List.filterMap_cons, ← hreceiver, ← List.filterMap_cons,
      ← List.filterMap_append] at this

/-- A wait that takes a receiving end adds to the tally of receiving ends alone. -/
theorem Counted.takeReceiver (hc : Counted h w) (hr : (w.table.takeReceiver id).2 = some r) :
    Tallied (w.table.takeReceiver id).1 Slot.holdsSender
        (fun k => (h.filterMap Event.senderTaken?).count k) ∧
      Tallied (w.table.takeReceiver id).1 Slot.holdsReceiver
        fun k => (h.filterMap Event.receiverTaken?).count k + if r = k then 1 else 0 := by
  obtain ⟨s, hs, rfl, hheld, ht⟩ := Table.takeReceiver_eq_some hr
  have htaken : Slot.holdsReceiver { s with holdsReceiver := false } = false := rfl
  rw [ht]
  exact ⟨hc.sender.put hs rfl rfl, hc.receiver.take hc.separate hs hheld htaken rfl⟩

/-- A wait ends when its receiving end is dropped. -/
theorem Counted.dropReceiver {task : Task α} {before after : List (Task α)} (hc : Counted h w)
    (hw : w.tasks = before ++ task :: after) (hsender : task.sender? = none)
    (hreceiver : task.receiver? = some r) (e : Ending α) :
    Counted (.ended r e :: h) ⟨w.table.dropReceiver r, before ++ after⟩ := by
  refine ⟨hc.separate.dropReceiver r, hc.sender.dropReceiver r, hc.receiver.dropReceiver r,
    fun k => ?_, fun k => ?_⟩
  · have := hc.sending k
    simp only [hw, List.filterMap_append, List.filterMap_cons, hsender, List.count_append,
      Event.senderTaken?, Event.sent?] at this ⊢
    omega
  · have := hc.waiting k
    simp only [hw, List.filterMap_append, List.filterMap_cons, hreceiver, List.count_append,
      List.count_cons, Event.receiverTaken?, Event.ended?] at this ⊢
    omega

/-- **A step keeps the ends of channels counted.** -/
theorem Step.counted (hstep : Step w es w') (hc : Counted h w) : Counted (es ++ h) w' := by
  have ⟨hsep, hsender, hreceiver, hsending, hwaiting⟩ := hc
  cases hstep with
  | insert id =>
    exact ⟨hsep.insert id, hsender.insert id fun _ => rfl, hreceiver.insert id fun _ => rfl,
      hsending, hwaiting⟩
  | remove id => exact (hc.remove id).cons rfl rfl rfl rfl
  | @take id r v hr =>
    obtain ⟨s, hs, rfl, hheld, ht⟩ := Table.takeSender_eq_some hr
    have htaken : Slot.holdsSender { s with holdsSender := false } = false := rfl
    refine ⟨hsep.takeSender id, ?_, ?_, fun k => ?_, hwaiting⟩
    · rw [ht]
      simpa [Event.senderTaken?, List.count_cons] using hsender.take hsep hs hheld htaken rfl
    · rw [ht]
      exact hreceiver.put hs rfl rfl
    · have := hsending k
      simp only [List.singleton_append, List.filterMap_cons, List.count_cons, Event.senderTaken?,
        Event.sent?, Task.sender?]
      omega
  | @refuse id v hr =>
    rcases Table.takeSender_eq_none hr with ht | ⟨ht, -⟩ <;> rw [ht]
    · exact hc.cons rfl rfl rfl rfl
    · exact (hc.remove id).cons rfl rfl rfl rfl
  | @send r v before after hw =>
    have hless := Table.length_send w.table r v
    refine ⟨hsep.send r v, hsender.of_channels rfl hless, hreceiver.of_channels rfl hless,
      fun k => ?_, fun k => ?_⟩
    · have := hsending k
      simp only [hw, List.singleton_append, List.filterMap_append, List.filterMap_cons,
        List.count_append, List.count_cons, Event.senderTaken?, Event.sent?, Task.sender?] at this ⊢
      omega
    · have := hwaiting k
      simp only [hw, List.singleton_append, List.filterMap_append, List.filterMap_cons,
        List.count_append, Event.receiverTaken?, Event.ended?, Task.receiver?, Task.waiter?,
        Option.map_none] at this ⊢
      omega
  | turnAway hb =>
    rw [(Waiter.begin_eq_failure hb).2.2]
    exact hc.cons rfl rfl rfl rfl
  | @sit id poll timeout now wt hb =>
    obtain ⟨-, hr, ht⟩ := Waiter.begin_eq_value hb
    obtain ⟨hsender', hreceiver'⟩ := hc.takeReceiver hr
    rw [ht]
    refine ⟨hsep.takeReceiver id, hsender', ?_, hsending, fun k => ?_⟩
    · simpa [Event.receiverTaken?, List.count_cons] using hreceiver'
    · have := hwaiting k
      simp only [List.singleton_append, List.filterMap_cons, List.count_cons, Event.receiverTaken?,
        Event.ended?, Task.receiver?, Task.waiter?, Option.map_some]
      omega
  | @breakDown id poll timeout now r b hb hr =>
    obtain ⟨hsender', hreceiver'⟩ := hc.takeReceiver hr
    rw [Waiter.begin_eq_breakdown hb hr]
    refine ⟨(hsep.takeReceiver id).dropReceiver r, hsender'.dropReceiver r, ?_, hsending,
      fun j => ?_⟩
    · simpa [Event.receiverTaken?, List.filterMap_cons, List.count_cons] using
        hreceiver'.dropReceiver r
    · have := hwaiting j
      simp only [List.cons_append, List.nil_append, List.filterMap_cons, List.count_cons,
        Event.receiverTaken?, Event.ended?]
      omega
  | stay now hw ready hchoose =>
    obtain ⟨-, hsame, -⟩ := Waiter.same_of_choose hchoose
    exact hc.replace hw rfl (congrArg some hsame)
  | choose now hw ready hchoose =>
    exact hc.replace hw rfl rfl
  | @clear wt result before after hw =>
    have hmoved : Counted h ⟨w.table, before ++ .finishing wt result :: after⟩ :=
      hc.replace hw rfl rfl
    exact (hmoved.remove wt.id).cons rfl rfl rfl rfl
  | @finish wt result before after hw =>
    exact hc.dropReceiver hw rfl rfl (Room.ending result)
  | @cancel wt before after hw =>
    exact hc.dropReceiver hw rfl rfl .cancelled

/-- **In every run the ends of channels are counted.** -/
theorem Run.counted (hrun : Run h w) : Counted h w := by
  induction hrun with
  | begin => exact .empty
  | step _ hstep ih => exact hstep.counted ih

/-! ### What a step does -/

theorem World.mem_moved {moved : Task α} {before after : List (Task α)}
    (hw : w.tasks = before ++ moved :: after) : moved ∈ w.tasks := by
  rw [hw]
  exact List.mem_append_right _ List.mem_cons_self

namespace Step

theorem owns (hstep : Step w es w') (ho : w'.table.Owns id r) :
    w.table.Owns id r ∨ .inserted id r ∈ es := by
  cases hstep with
  | insert j =>
    rcases Table.owns_of_insert ho with ho | ⟨rfl, rfl⟩
    · exact .inl ho
    · exact .inr (List.mem_singleton_self _)
  | remove | clear => exact .inl (Table.owns_of_remove ho).1
  | take | refuse => exact .inl (Table.owns_of_takeSender ho)
  | turnAway | sit | breakDown => exact .inl (Waiter.owns_of_begin ho)
  | send | stay | choose | finish | cancel => exact .inl ho

theorem carries (hstep : Step w es w') (hv : w'.table.Carries r v) :
    w.table.Carries r v ∨ .delivered r v true ∈ es := by
  cases hstep with
  | insert => exact .inl (Table.carries_of_insert hv)
  | remove | clear => exact .inl (Table.carries_of_remove hv)
  | take | refuse => exact .inl (Table.carries_of_takeSender hv)
  | send =>
    rcases Table.accepted_of_send hv with hv | ⟨rfl, rfl, haccepted⟩
    · exact .inl hv
    · exact .inr (haccepted ▸ List.mem_singleton_self _)
  | turnAway | sit | breakDown => exact .inl (Waiter.carries_of_begin hv)
  | stay | choose => exact .inl hv
  | finish | cancel => exact .inl (Table.carries_of_dropReceiver hv)

/-- Registrations are numbered one after the other. -/
theorem length_table (hstep : Step w es w') :
    w.table.channels.length ≤ w'.table.channels.length := by
  cases hstep with
  | insert => simp
  | remove | clear | take | refuse => simp
  | turnAway | sit | breakDown => exact Nat.le_of_eq Waiter.length_begin.symm
  | send | stay | choose | finish => simp
  | cancel => simp [Waiter.cancel]

theorem inserted (hstep : Step w es w') (he : .inserted id r ∈ es) :
    r = w.table.channels.length ∧ es = [.inserted id r] ∧
      w' = { w with table := w.table.insert id } := by
  cases hstep with
  | insert j =>
    obtain ⟨rfl, rfl⟩ := Event.inserted.inj (List.mem_singleton.1 he)
    exact ⟨rfl, rfl, rfl⟩
  | _ => simp at he

theorem owns_of_tookSender (hstep : Step w es w') (he : .tookSender id r v ∈ es) :
    w.table.Owns id r := by
  cases hstep with
  | take u hr =>
    obtain ⟨rfl, rfl, -⟩ := Event.tookSender.inj (List.mem_singleton.1 he)
    exact Table.owns_of_takeSender_eq_some hr
  | _ => simp at he

theorem owns_of_tookReceiver (hstep : Step w es w') (he : .tookReceiver id r ∈ es) :
    w.table.Owns id r := by
  cases hstep with
  | sit hb =>
    obtain ⟨rfl, rfl⟩ := Event.tookReceiver.inj (List.mem_singleton.1 he)
    exact (Waiter.owns_of_begin_eq_value hb).2
  | breakDown hb hr =>
    obtain ⟨rfl, rfl⟩ : _ = _ ∧ _ = _ := by simpa using he
    exact Table.owns_of_takeReceiver_eq_some hr
  | _ => simp at he

theorem sending_of_delivered {b : Bool} (hstep : Step w es w') (he : .delivered r v b ∈ es) :
    .sending r v ∈ w.tasks := by
  cases hstep with
  | send hw =>
    obtain ⟨rfl, rfl, -⟩ := Event.delivered.inj (List.mem_singleton.1 he)
    exact World.mem_moved hw
  | _ => simp at he

theorem finishing_of_ended (hstep : Step w es w') (he : .ended r (.value v) ∈ es) :
    ∃ wt, .finishing wt (.ok v) ∈ w.tasks ∧ wt.registration = r := by
  cases hstep with
  | @finish wt result before after hw =>
    obtain ⟨rfl, hv⟩ := Event.ended.inj (List.mem_singleton.1 he)
    cases result with
    | error e => cases hv
    | ok u =>
      obtain rfl := Ending.value.inj hv
      exact ⟨wt, World.mem_moved hw, rfl⟩
  | _ => simp at he

end Step

/-- Where a task comes from. -/
inductive Task.Comes (w : World α) (es : History α) : Task α → Prop
  | stays {task : Task α} (ht : task ∈ w.tasks) : Comes w es task
  | sending {id : String} {r : Nat} {v : α} (he : .tookSender id r v ∈ es) :
      Comes w es (.sending r v)
  | sits {wt : Waiter} (he : .tookReceiver wt.id wt.registration ∈ es) : Comes w es (.waiting wt)
  | waits {wt wt' : Waiter} (ht : .waiting wt ∈ w.tasks)
      (hsame : wt'.id = wt.id ∧ wt'.registration = wt.registration) : Comes w es (.waiting wt')
  | leaves {wt : Waiter} {result : Except WaitError α} (ht : .waiting wt ∈ w.tasks)
      (hv : ∀ v, result = .ok v → w.table.Carries wt.registration v) :
      Comes w es (.leaving wt result)
  | finishes {wt : Waiter} {result : Except WaitError α} (ht : .leaving wt result ∈ w.tasks) :
      Comes w es (.finishing wt result)

/-- Of the tasks after a step all but the one that moved were there before. -/
theorem World.mem_of_replace {task moved moved' : Task α} {before after : List (Task α)}
    (hw : w.tasks = before ++ moved :: after) (ht : task ∈ before ++ moved' :: after) :
    task = moved' ∨ task ∈ w.tasks := by
  rw [hw]
  simp only [List.mem_append, List.mem_cons] at ht ⊢
  tauto

theorem World.mem_of_drop {task moved : Task α} {before after : List (Task α)}
    (hw : w.tasks = before ++ moved :: after) (ht : task ∈ before ++ after) : task ∈ w.tasks := by
  rw [hw]
  exact ((List.sublist_cons_self moved after).append_left before).mem ht

theorem Step.comes {task : Task α} (hstep : Step w es w') (ht : task ∈ w'.tasks) :
    task.Comes w es := by
  cases hstep with
  | insert | remove | refuse | turnAway | breakDown => exact .stays ht
  | take v hr =>
    rcases List.mem_cons.1 ht with rfl | ht
    · exact .sending (List.mem_singleton_self _)
    · exact .stays ht
  | send hw | finish hw | cancel hw => exact .stays (World.mem_of_drop hw ht)
  | sit hb =>
    rcases List.mem_cons.1 ht with rfl | ht
    · obtain ⟨rfl, -⟩ := Waiter.begin_eq_value hb
      exact .sits (List.mem_singleton_self _)
    · exact .stays ht
  | stay now hw ready hc =>
    rcases World.mem_of_replace hw ht with rfl | ht
    · obtain ⟨hid, hr, -⟩ := Waiter.same_of_choose hc
      exact .waits (World.mem_moved hw) ⟨hid, hr⟩
    · exact .stays ht
  | choose now hw ready hc =>
    rcases World.mem_of_replace hw ht with rfl | ht
    · refine .leaves (World.mem_moved hw) fun v hv => ?_
      rw [hv] at hc
      exact Waiter.carries_of_choose hc
    · exact .stays ht
  | clear hw =>
    rcases World.mem_of_replace hw ht with rfl | ht
    · exact .finishes (World.mem_moved hw)
    · exact .stays ht

/-! ### Registrations and their ids -/

/-- The registrations of a run, and the ids under which they were made. Whoever has an end of a
channel took it under the id of its registration. -/
structure Rooted (h : History α) (w : World α) : Prop where
  below {id : String} {r : Nat} (he : .inserted id r ∈ h) : r < w.table.channels.length
  unique {i j : String} {r : Nat} (hi : .inserted i r ∈ h) (hj : .inserted j r ∈ h) : i = j
  slot {id : String} {r : Nat} (ho : w.table.Owns id r) : .inserted id r ∈ h
  sender {id : String} {r : Nat} {v : α} (he : .tookSender id r v ∈ h) : .inserted id r ∈ h
  receiver {id : String} {r : Nat} (he : .tookReceiver id r ∈ h) : .inserted id r ∈ h
  sending {r : Nat} {v : α} (ht : .sending r v ∈ w.tasks) : ∃ id, .tookSender id r v ∈ h
  waiting {task : Task α} {wt : Waiter} (ht : task ∈ w.tasks) (hw : task.waiter? = some wt) :
    .tookReceiver wt.id wt.registration ∈ h

theorem Rooted.empty : Rooted (α := α) [] ⟨.empty, []⟩ where
  below he := by cases he
  unique hi := by cases hi
  slot ho := by obtain ⟨s, hs, -⟩ := ho; cases hs
  sender he := by cases he
  receiver he := by cases he
  sending ht := by cases ht
  waiting ht := by cases ht

theorem Step.rooted (hstep : Step w es w') (hr : Rooted h w) : Rooted (es ++ h) w' where
  below {id r} he := by
    rcases List.mem_append.1 he with he | he
    · obtain ⟨rfl, -, rfl⟩ := hstep.inserted he
      simp
    · exact Nat.lt_of_lt_of_le (hr.below he) hstep.length_table
  unique {i j r} hi hj := by
    rcases List.mem_append.1 hi with hi | hi <;> rcases List.mem_append.1 hj with hj | hj
    · obtain ⟨-, rfl, -⟩ := hstep.inserted hi
      exact (Event.inserted.inj (List.mem_singleton.1 hj)).1.symm
    · obtain ⟨rfl, -⟩ := hstep.inserted hi
      exact absurd (hr.below hj) (Nat.lt_irrefl _)
    · obtain ⟨rfl, -⟩ := hstep.inserted hj
      exact absurd (hr.below hi) (Nat.lt_irrefl _)
    · exact hr.unique hi hj
  slot {id r} ho := by
    rcases hstep.owns ho with ho | he
    · exact List.mem_append_right _ (hr.slot ho)
    · exact List.mem_append_left _ he
  sender {id r v} he := by
    rcases List.mem_append.1 he with he | he
    · exact List.mem_append_right _ (hr.slot (hstep.owns_of_tookSender he))
    · exact List.mem_append_right _ (hr.sender he)
  receiver {id r} he := by
    rcases List.mem_append.1 he with he | he
    · exact List.mem_append_right _ (hr.slot (hstep.owns_of_tookReceiver he))
    · exact List.mem_append_right _ (hr.receiver he)
  sending {r v} ht := by
    cases hstep.comes ht with
    | stays ht =>
      obtain ⟨id, he⟩ := hr.sending ht
      exact ⟨id, List.mem_append_right _ he⟩
    | sending he => exact ⟨_, List.mem_append_left _ he⟩
  waiting {task wt} htask hw := by
    cases hstep.comes htask with
    | stays ht => exact List.mem_append_right _ (hr.waiting ht hw)
    | sending he => cases hw
    | sits he =>
      obtain rfl := Option.some.inj hw
      exact List.mem_append_left _ he
    | waits ht hsame =>
      obtain rfl := Option.some.inj hw
      rw [hsame.1, hsame.2]
      exact List.mem_append_right _ (hr.waiting ht rfl)
    | leaves ht hv =>
      obtain rfl := Option.some.inj hw
      exact List.mem_append_right _ (hr.waiting ht rfl)
    | finishes ht =>
      obtain rfl := Option.some.inj hw
      exact List.mem_append_right _ (hr.waiting ht rfl)

theorem Run.rooted (hrun : Run h w) : Rooted h w := by
  induction hrun with
  | begin => exact .empty
  | step _ hstep ih => exact hstep.rooted ih

/-! ### Values and where they come from -/

/-- Every value was sent by a delivery that took the sending end. -/
structure Truthful (h : History α) (w : World α) : Prop where
  delivered {r : Nat} {v : α} {b : Bool} (he : .delivered r v b ∈ h) :
    ∃ id, .tookSender id r v ∈ h
  carried {r : Nat} {v : α} (hv : w.table.Carries r v) : .delivered r v true ∈ h
  result {task : Task α} {r : Nat} {v : α} (ht : task ∈ w.tasks)
    (hv : task.value? = some (r, v)) : .delivered r v true ∈ h
  ended {r : Nat} {v : α} (he : .ended r (.value v) ∈ h) : .delivered r v true ∈ h

theorem Truthful.empty : Truthful (α := α) [] ⟨.empty, []⟩ where
  delivered he := by cases he
  carried hv := by obtain ⟨c, hc, -⟩ := hv; cases hc
  result ht := by cases ht
  ended he := by cases he

theorem Step.truthful (hstep : Step w es w') (hr : Rooted h w) (ht : Truthful h w) :
    Truthful (es ++ h) w' where
  delivered {r v b} he := by
    rcases List.mem_append.1 he with he | he
    · obtain ⟨id, he⟩ := hr.sending (hstep.sending_of_delivered he)
      exact ⟨id, List.mem_append_right _ he⟩
    · obtain ⟨id, he⟩ := ht.delivered he
      exact ⟨id, List.mem_append_right _ he⟩
  carried {r v} hv := by
    rcases hstep.carries hv with hv | he
    · exact List.mem_append_right _ (ht.carried hv)
    · exact List.mem_append_left _ he
  result {task r v} htask hv := by
    refine List.mem_append_right _ ?_
    cases hstep.comes htask with
    | stays htask => exact ht.result htask hv
    | sending he => cases hv
    | sits he => cases hv
    | waits htask hsame => cases hv
    | @leaves wt result ht' hcarries =>
      cases result with
      | error e => cases hv
      | ok u =>
        obtain ⟨rfl, rfl⟩ := Prod.mk.inj (Option.some.inj hv)
        exact ht.carried (hcarries u rfl)
    | @finishes wt result ht' =>
      cases result with
      | error e => cases hv
      | ok u => exact ht.result ht' hv
  ended {r v} he := by
    refine List.mem_append_right _ ?_
    rcases List.mem_append.1 he with he | he
    · obtain ⟨wt, hwt, rfl⟩ := hstep.finishing_of_ended he
      exact ht.result hwt rfl
    · exact ht.ended he

theorem Run.truthful (hrun : Run h w) : Truthful h w := by
  induction hrun with
  | begin => exact .empty
  | step hrun hstep ih => exact hstep.truthful hrun.rooted ih

/-! ### One value for each registration -/

/-- What happens for a registration is an event. -/
theorem count_pos_iff {f : Event α → Option Nat} :
    0 < (h.filterMap f).count r ↔ ∃ e ∈ h, f e = some r := by
  rw [List.count_pos_iff, List.mem_filterMap]

/-- What happens at most once for a registration is one event. -/
theorem eq_of_count_le_one {f : Event α → Option Nat} {e e' : Event α}
    (hone : (h.filterMap f).count r ≤ 1) (he : e ∈ h) (hf : f e = some r) (he' : e' ∈ h)
    (hf' : f e' = some r) : e = e' := by
  induction h with
  | nil => cases he
  | cons x l ih =>
    rcases List.mem_cons.1 he with rfl | hl <;> rcases List.mem_cons.1 he' with rfl | hl'
    · rfl
    · have := count_pos_iff.2 ⟨_, hl', hf'⟩
      rw [List.filterMap_cons, hf, List.count_cons_self] at hone
      omega
    · have := count_pos_iff.2 ⟨_, hl, hf⟩
      rw [List.filterMap_cons, hf', List.count_cons_self] at hone
      omega
    · refine ih (Nat.le_trans ?_ hone) hl hl'
      exact ((List.sublist_cons_self x l).filterMap f).count_le r

/-- What happens only when something else does happens no more often. -/
theorem count_le_of_imp {f g : Event α → Option Nat}
    (hfg : ∀ e, f e = some r → g e = some r) (h : History α) :
    (h.filterMap f).count r ≤ (h.filterMap g).count r := by
  rw [List.count_filterMap, List.count_filterMap]
  refine List.countP_mono_left fun e _ he => ?_
  exact beq_iff_eq.2 (hfg e (beq_iff_eq.1 he))

theorem Counted.accepted_le (hc : Counted h w) (r : Nat) :
    (h.filterMap Event.accepted?).count r ≤ 1 := by
  have hle : (h.filterMap Event.accepted?).count r ≤ (h.filterMap Event.sent?).count r := by
    refine count_le_of_imp (fun e he => ?_) h
    cases e with
    | delivered k v b =>
      cases b
      · cases he
      · exact he
    | _ => cases he
  have := hc.sending r
  have := hc.sender.once r
  omega

theorem Counted.answered_le (hc : Counted h w) (r : Nat) :
    (h.filterMap Event.answered?).count r ≤ 1 := by
  have hle : (h.filterMap Event.answered?).count r ≤ (h.filterMap Event.ended?).count r := by
    refine count_le_of_imp (fun e he => ?_) h
    cases e with
    | ended k ending =>
      cases ending with
      | value v => exact he
      | _ => cases he
    | _ => cases he
  have := hc.waiting r
  have := hc.receiver.once r
  omega

/-- A wait that ended took the receiving end of its registration. -/
theorem Counted.tookReceiver {e : Ending α} (hc : Counted h w) (he : .ended r e ∈ h) :
    ∃ id, .tookReceiver id r ∈ h := by
  have hpos : 0 < (h.filterMap Event.ended?).count r := count_pos_iff.2 ⟨_, he, rfl⟩
  have := hc.waiting r
  have htaken : 0 < (h.filterMap Event.receiverTaken?).count r := by omega
  obtain ⟨e', he', hr⟩ := count_pos_iff.1 htaken
  cases e' with
  | tookReceiver id k =>
    obtain rfl := Option.some.inj hr
    exact ⟨id, he'⟩
  | _ => cases hr

/-- A wait finds nothing if the receiving end of the slot under its id was taken. -/
theorem Counted.begin_of_taken (hc : Counted h w) {poll timeout now : Nat}
    (htaken : ∀ r, w.table.Owns id r → ∃ j, .tookReceiver j r ∈ h) :
    Waiter.begin w.table id poll timeout now = (w.table, .failure .unknown) := by
  have hnone : (w.table.takeReceiver id).2 = none := by
    refine Table.takeReceiver_eq_none_iff.2 fun s hs => ?_
    obtain ⟨j, he⟩ := htaken s.registration ⟨s, hs, rfl⟩
    have hpos : 0 < (h.filterMap Event.receiverTaken?).count s.registration :=
      count_pos_iff.2 ⟨_, he, rfl⟩
    by_contra hheld
    have := (hc.receiver.held_iff hs).1 (eq_true_of_ne_false hheld)
    omega
  exact Waiter.begin_of_takeReceiver_eq_none hnone

/-- **At most one delivery to a registration is accepted, and at most one wait on it gets a
value.** This is the value of the one delivery that took the sending end of the registration. Both
took their ends under the id of the registration. A wait that finds the receiving end of the slot
under its id taken fails at once, and changes nothing. -/
theorem delivered_at_most_once (hrun : Run h w) :
    (h.filterMap Event.accepted?).Nodup ∧ (h.filterMap Event.answered?).Nodup ∧
      (∀ r v, .ended r (.value v) ∈ h →
        ∃ id, .inserted id r ∈ h ∧ .tookReceiver id r ∈ h ∧ .tookSender id r v ∈ h ∧
          .delivered r v true ∈ h ∧ ∀ j u, .tookSender j r u ∈ h → j = id ∧ u = v) ∧
      ∀ id poll timeout now, (∀ r, w.table.Owns id r → .tookReceiver id r ∈ h) →
        Waiter.begin w.table id poll timeout now = (w.table, .failure .unknown) := by
  have hc := hrun.counted
  have hr := hrun.rooted
  have ht := hrun.truthful
  refine ⟨List.nodup_iff_count_le_one.2 hc.accepted_le,
    List.nodup_iff_count_le_one.2 hc.answered_le, fun r v he => ?_, fun id poll timeout now h => ?_⟩
  · have hdelivered := ht.ended he
    obtain ⟨id, hsender⟩ := ht.delivered hdelivered
    obtain ⟨j, hreceiver⟩ := hc.tookReceiver he
    obtain rfl := hr.unique (hr.sender hsender) (hr.receiver hreceiver)
    refine ⟨id, hr.sender hsender, hreceiver, hsender, hdelivered, fun j u hu => ?_⟩
    obtain ⟨rfl, -, rfl⟩ := Event.tookSender.inj
      (eq_of_count_le_one (hc.sender.once r) hu rfl hsender rfl)
    exact ⟨rfl, rfl⟩
  · exact hc.begin_of_taken fun r ho => ⟨id, h r ho⟩

/-- A wait sits on a fresh slot, so that a second one is turned away, and the first gets the value
that is delivered then. -/
theorem seven_delivered_once :
    (∃ (h : History Nat) (w : World Nat), Run h w ∧ w.table.Owns "m" 0 ∧
      Waiter.begin w.table "m" 1 5 0 = (w.table, .failure .unknown)) ∧
    ∃ (h : History Nat) (w : World Nat), Run h w ∧ .ended 0 (.value 7) ∈ h ∧
      (h.filterMap Event.accepted?).Nodup ∧ (h.filterMap Event.answered?).Nodup ∧
      ∃ id, .inserted id 0 ∈ h ∧ .tookReceiver id 0 ∈ h ∧ .tookSender id 0 7 ∈ h := by
  have h₁ : @Run Nat _ _ := Run.begin.step (.insert "m")
  have h₂ := h₁.step (@Step.sit _ _ "m" 1 5 0 ⟨"m", 0, 1, 5, 1⟩ (by decide))
  have h₃ := h₂.step (@Step.take _ _ "m" 0 7 (by decide))
  have h₄ := h₃.step (@Step.send _ _ 0 7 [] _ rfl)
  have h₅ := h₄.step (@Step.choose _ _ _ .answer (.ok 7) [] [] 0 rfl (by decide) rfl)
  have h₆ := h₅.step (@Step.clear _ _ _ _ [] _ rfl)
  have h₇ := h₆.step (@Step.finish _ _ _ _ [] _ rfl)
  constructor
  · obtain ⟨-, -, -, hsecond⟩ := delivered_at_most_once h₂
    refine ⟨_, _, h₂, ⟨⟨0, true, false⟩, by decide, rfl⟩, hsecond "m" 1 5 0 ?_⟩
    rintro r ⟨s, hs, rfl⟩
    obtain rfl : s = ⟨0, true, false⟩ := Option.some.inj (hs.symm.trans (by decide))
    exact List.mem_cons_self
  · obtain ⟨haccepted, hanswered, hvalue, -⟩ := delivered_at_most_once h₇
    obtain ⟨id, hinserted, hreceiver, hsender, -⟩ := hvalue 0 7 List.mem_cons_self
    exact ⟨_, _, h₇, List.mem_cons_self, haccepted, hanswered, id, hinserted, hreceiver, hsender⟩

end KeyCustody.Pending
