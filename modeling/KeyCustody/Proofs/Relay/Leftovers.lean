import KeyCustody.Proofs.Pending.Listening
import KeyCustody.Proofs.Relay.Replies
/-!
# Slots that calls leave behind

A call registers a slot and removes it when it ends, with an answer or without. Message ids are not
used twice, so nobody else touches the slot before: what arrives under the id finds the receiving
end there. But the removal is work of the call itself. A call that is dropped, while it sends or
while it waits, leaves its slot behind, and so does one that breaks down when it begins to wait.
Then the slot stays until a delivery under its id finds that the receiving end is gone, which may
never come.

## Main definitions

* `Task.callId?`: the message id of a call that is under way.
* `Task.Keeps`: what a call has of its slot.
* `Tidy`: every slot is that of a call that did not end as it should.

## Main results

* `Turn.keeps`, `Turn.spares`, `Step.tidy`, `Run.tidy`: what holds of every run.
* `slots_of_calls`: whose slots there are.
* `pair_left_slot`: a call that is dropped leaves its slot behind.
-/

namespace KeyCustody.Relay

open Crypto (Entropy SignatureScheme)
open Custody (Storage)
open Net (TransportError)
open Node (Log)
open Peer (PeerStore)
open Pending (Table WaitError Waiter)
open Wire (GetReply)

variable {ι : Type} {S : SignatureScheme} {σ : Type} {net : Network ι S σ}
  {Arrives : History ι σ → Bytes → Prop} {h es : History ι σ} {w w' : World ι} {i j : ι}
  {names : List String} {store : PeerStore} {slots slots' : Slots} {id : String} {e : Errand}
  {r : Nat} {t : Task} {next : Option Task}

/-- Slots that fit have registrations of their own. -/
theorem SlotsFit.separate (hf : SlotsFit h i names slots) : slots.Separate where
  unique hi hj := Option.some.inj ((hf.owns hi).symm.trans (hf.owns hj))
  lt hi := by
    rw [hf.length]
    exact (List.getElem?_eq_some_iff.1 (hf.owns hi)).1

/-! ### Calls and their slots -/

/-- The message id of a call that is under way. -/
def Task.callId? : Task → Option String
  | .calling _ id _ | .relayed _ id | .leaving _ id _ _ => some id
  | .ready _ | .handling .. | .filling .. => none

/-- The slot under an id holds its receiving end. -/
def Holds (slots : Slots) (id : String) : Prop :=
  ∃ s, Assoc.get? slots.slots id = some s ∧ s.holdsReceiver = true ∧ slots.Listens s.registration

/-- A wait has the receiving end of the slot under an id. -/
def Has (slots : Slots) (id : String) (wt : Waiter) : Prop :=
  wt.id = id ∧ slots.Owns id wt.registration ∧ slots.Listens wt.registration

/-- What a call has of its slot: it is there with its receiving end until the call ends, and gone
afterwards unless the call broke down. -/
def Task.Keeps (slots : Slots) : Task → Prop
  | .calling _ id (.sending s) => s.messageId = id ∧ Holds slots id
  | .relayed _ id => Holds slots id
  | .calling _ id (.waiting wt) | .leaving _ id wt _ => Has slots id wt
  | .calling _ _ (.done (.breakdown _)) => True
  | .calling _ id (.done _) => ∀ r, ¬ slots.Owns id r
  | .ready _ | .handling .. | .filling .. => True

theorem Holds.spares (hh : Holds slots id) (hs : slots.Spares slots' id) : Holds slots' id := by
  obtain ⟨s, hslot, hheld, hlistens⟩ := hh
  obtain ⟨s', hslot', hr, hheld', hlistens'⟩ := hs s hslot hlistens
  exact ⟨s', hslot', hheld'.trans hheld, hr ▸ hlistens'⟩

theorem Has.spares {wt : Waiter} (hh : Has slots id wt) (hs : slots.Spares slots' id) :
    Has slots' id wt := by
  obtain ⟨hid, ⟨s, hslot, hr⟩, hlistens⟩ := hh
  obtain ⟨s', hslot', hr', -, hlistens'⟩ := hs s hslot (hr ▸ hlistens)
  exact ⟨hid, ⟨s', hslot', hr'.trans hr⟩, hr ▸ hlistens'⟩

/-- What leaves the slot of a call alone leaves the call what it has. -/
theorem Task.Keeps.spares (hk : t.Keeps slots)
    (hs : ∀ id, t.callId? = some id → slots.Spares slots' id)
    (ho : ∀ id r, t.callId? = some id → slots'.Owns id r → slots.Owns id r) :
    t.Keeps slots' := by
  match t, hk with
  | .calling _ id (.sending s), ⟨hid, hh⟩ => exact ⟨hid, hh.spares (hs id rfl)⟩
  | .relayed _ id, hh => exact Holds.spares hh (hs id rfl)
  | .calling _ id (.waiting wt), hh => exact Has.spares hh (hs id rfl)
  | .leaving _ id wt _, hh => exact Has.spares hh (hs id rfl)
  | .calling _ _ (.done (.breakdown _)), _ => trivial
  | .calling _ id (.done (.value _)), hgone => exact fun r ho' => hgone r (ho id r rfl ho')
  | .calling _ id (.done (.failure _)), hgone => exact fun r ho' => hgone r (ho id r rfl ho')
  | .ready _, _ => trivial
  | .handling .., _ => trivial
  | .filling .., _ => trivial

/-! ### Turns -/

theorem fst_await (settings : Settings) (id : String) (now : Nat) (slots : Slots) :
    (Call.await settings id now slots).1 =
      (Waiter.begin slots id settings.poll settings.timeout now).1 := by
  unfold Call.await
  split <;> rename_i hb <;> rw [hb]

/-- A turn gives no slot but to a request that it puts into an envelope. -/
theorem Turn.owns (ht : Turn net h i store slots t slots' next es) (ho : slots'.Owns id r) :
    slots.Owns id r ∨ ∃ e timestamp, .asked i e id timestamp ∈ es := by
  cases ht with
  | @start e id' now timestamp fresh slots' c hc =>
    rcases start_cases hc with ⟨err, -, rfl | rfl⟩ | ⟨s, -, -, rfl⟩
    · exact .inl ho
    · obtain ⟨ho, hid⟩ := Table.owns_of_remove ho
      rcases Table.owns_of_insert ho with ho | ⟨hid', -⟩
      · exact .inl ho
      · exact absurd hid' hid
    · rcases Table.owns_of_insert ho with ho | ⟨rfl, -⟩
      · exact .inl ho
      · exact .inr ⟨e, timestamp, List.mem_singleton_self _⟩
  | sent outcome hp =>
    rcases onSent_cases hp with ⟨-, rfl⟩ | ⟨s', -, -, rfl⟩ | ⟨err, -, rfl⟩
    · exact .inl ho
    · exact .inl ho
    · exact .inl (Table.owns_of_remove ho).1
  | @await e id' now slots' c hc =>
    obtain rfl : slots' = _ := (congrArg Prod.fst hc).symm.trans (fst_await _ _ _ _)
    exact .inl (Waiter.owns_of_begin ho)
  | leave => exact .inl (Table.owns_of_remove ho).1
  | @cancel e id' c => cases c <;> exact .inl ho
  | @take env slots' r? hs =>
    obtain rfl : slots' = _ := (congrArg Prod.fst hs).symm
    exact .inl (Table.owns_of_takeSender ho)
  | stay | choose | finish | serve | fill => exact .inl ho

/-- A turn leaves the slots of other calls alone. -/
theorem Turn.spares (ht : Turn net h i store slots t slots' next es) (hsep : slots.Separate)
    (hk : t.Keeps slots) (hid : t.callId? ≠ some id)
    (hnew : ∀ e timestamp, .asked i e id timestamp ∉ es) : slots.Spares slots' id := by
  have hdrop {id' : String} {wt : Waiter} {slots₁ : Slots} (hh : Has slots id' wt)
      (hne : id ≠ id') (howns : slots₁.Owns id wt.registration → slots.Owns id wt.registration) :
      slots₁.Spares (slots₁.dropReceiver wt.registration) id :=
    Table.spares_dropReceiver fun ho => hne (hsep.unique (howns ho) hh.2.1)
  cases ht with
  | @start e id' now timestamp fresh slots' c hc =>
    have hne : id ≠ id' := fun heq =>
      hnew e timestamp (by rw [heq]; exact List.mem_singleton_self _)
    have hinsert := Table.spares_insert hsep hne
    rcases start_cases hc with ⟨err, -, rfl | rfl⟩ | ⟨s, -, -, rfl⟩
    · exact .refl _ id
    · exact hinsert.trans (Table.spares_remove (hsep.insert id') hne)
    · exact hinsert
  | @sent e id' s outcome slots' p log hp =>
    have hne : id ≠ s.messageId := fun heq => hid (by rw [heq, hk.1]; rfl)
    rcases onSent_cases hp with ⟨-, rfl⟩ | ⟨s', -, -, rfl⟩ | ⟨err, -, rfl⟩
    · exact .refl _ id
    · exact .refl _ id
    · exact Table.spares_remove hsep hne
  | @await e id' now slots' c hc =>
    have hne : id ≠ id' := fun heq => hid (by rw [heq]; rfl)
    obtain rfl : slots' = _ := (congrArg Prod.fst hc).symm.trans (fst_await _ _ _ _)
    exact Waiter.spares_begin hsep hne
  | @leave e id' wt result =>
    have hne : id ≠ id' := fun heq => hid (by rw [heq]; rfl)
    have hne' : id ≠ wt.id := hk.1.symm ▸ hne
    exact (Table.spares_remove hsep hne').trans
      (hdrop hk hne fun ho => (Table.owns_of_remove ho).1)
  | @cancel e id' c =>
    have hne : id ≠ id' := fun heq => hid (by rw [heq]; rfl)
    cases c with
    | waiting wt => exact hdrop hk hne (fun ho => ho)
    | sending s => exact .refl _ id
    | done outcome => exact .refl _ id
  | @take env slots' r? hs =>
    obtain rfl : slots' = _ := (congrArg Prod.fst hs).symm
    exact Table.spares_takeSender hsep _ _
  | fill => exact Table.spares_send _ _ _ _
  | stay | choose | finish | serve => exact .refl _ id

/-- A turn takes no slot away but that of its own call, or one of which it finds the receiving end
gone. -/
theorem Turn.takes_away (ht : Turn net h i store slots t slots' next es) (hk : t.Keeps slots)
    (ho : slots.Owns id r) (ho' : ¬ slots'.Owns id r)
    (hnew : ∀ e timestamp, .asked i e id timestamp ∉ es) :
    t.callId? = some id ∨ ∃ env, t = .handling .response env ∧ env.messageId = id ∧
      (slots.takeSender id).2 = none := by
  cases ht with
  | @start e id' now timestamp fresh slots' c hc =>
    have hne : id ≠ id' := fun heq =>
      hnew e timestamp (by rw [heq]; exact List.mem_singleton_self _)
    have hinsert := Table.owns_insert ho hne
    rcases start_cases hc with ⟨err, -, rfl | rfl⟩ | ⟨s, -, -, rfl⟩
    · exact absurd ho ho'
    · exact absurd (Table.owns_remove hinsert hne) ho'
    · exact absurd hinsert ho'
  | @sent e id' s outcome slots' p log hp =>
    rcases onSent_cases hp with ⟨-, rfl⟩ | ⟨s', -, -, rfl⟩ | ⟨err, -, rfl⟩
    · exact absurd ho ho'
    · exact absurd ho ho'
    · refine .inl ?_
      by_contra hne
      exact ho' (Table.owns_remove ho fun heq => hne (by rw [heq, hk.1]; rfl))
  | @await e id' now slots' c hc =>
    obtain rfl : slots' = _ := (congrArg Prod.fst hc).symm.trans (fst_await _ _ _ _)
    exact absurd (Waiter.owns_begin ho) ho'
  | @leave e id' wt result =>
    refine .inl ?_
    by_contra hne
    exact ho' (Table.owns_remove ho fun heq => hne (by rw [heq, hk.1]; rfl))
  | @cancel e id' c => cases c <;> exact absurd ho ho'
  | @take env slots' r? hs =>
    obtain rfl : slots' = _ := (congrArg Prod.fst hs).symm
    rcases Table.owns_takeSender ho env.messageId with ho | ⟨rfl, hnone, -⟩
    · exact absurd ho ho'
    · exact .inr ⟨env, rfl, rfl, hnone⟩
  | stay | choose | finish | serve | fill => exact absurd ho ho'

/-- A slot that is registered holds its receiving end. -/
theorem holds_insert (slots : Slots) (id : String) : Holds (slots.insert id) id :=
  ⟨⟨slots.channels.length, true, true⟩, by simp [Table.insert, Assoc.get?_put], rfl,
    Table.listens_insert_self slots id⟩

/-- A call that begins to wait at a slot which holds its receiving end has it, unless it breaks
down. -/
theorem await_keeps {settings : Settings} {now : Nat} {c : Call} (hh : Holds slots id)
    (hc : Call.await settings id now slots = (slots', c)) :
    Task.Keeps slots' (.calling e id c) := by
  unfold Call.await at hc
  split at hc
  · rename_i slots₁ wt hb
    obtain ⟨rfl, rfl⟩ := Prod.mk.inj hc
    obtain ⟨hid, hr, ht⟩ := Waiter.begin_eq_value (congrArg Prod.snd hb)
    rw [hb] at ht
    simp only at ht
    subst ht
    obtain ⟨s, hs, hreg, -, -⟩ := Table.takeReceiver_eq_some hr
    obtain ⟨s', hs', -, hlistens⟩ := hh
    rw [hs] at hs'
    obtain rfl := Option.some.inj hs'
    exact ⟨hid, Table.owns_takeReceiver ⟨s, hs, hreg⟩,
      Table.listens_takeReceiver.2 (hreg ▸ hlistens)⟩
  · rename_i slots₁ err hb
    obtain ⟨s, hs, hheld, -⟩ := hh
    have hnone := (Waiter.begin_eq_failure (congrArg Prod.snd hb)).2.1
    rw [Table.takeReceiver_eq_none_iff.1 hnone s hs] at hheld
    cases hheld
  · obtain ⟨rfl, rfl⟩ := Prod.mk.inj hc
    trivial

/-- **A turn keeps what a call has of its slot.** -/
theorem Turn.keeps (ht : Turn net h i store slots t slots' next es) (hk : t.Keeps slots)
    (hnew : ∀ e id timestamp, .asked i e id timestamp ∈ es → ∀ r, ¬ slots.Owns id r) :
    ∀ t' ∈ next, t'.Keeps slots' := by
  cases ht with
  | @start e id' now timestamp fresh slots' c hc =>
    rintro t' ⟨⟩
    have hgone := hnew e id' timestamp (List.mem_singleton_self _)
    rcases start_cases hc with ⟨err, rfl, rfl | rfl⟩ | ⟨s, rfl, hs, rfl⟩
    · exact hgone
    · exact fun r ho => (Table.owns_of_remove ho).2 rfl
    · exact ⟨hs, holds_insert slots id'⟩
  | @sent e id' s outcome slots' p log hp =>
    rintro t' ⟨⟩
    rcases onSent_cases hp with ⟨rfl, rfl⟩ | ⟨s', rfl, hs', rfl⟩ | ⟨err, rfl, rfl⟩
    · exact hk.2
    · exact ⟨hs'.trans hk.1, hk.2⟩
    · exact fun r ho => (Table.owns_of_remove ho).2 hk.1.symm
  | await now hc =>
    rintro t' ⟨⟩
    exact await_keeps hk hc
  | stay now ready hw =>
    rintro t' ⟨⟩
    obtain ⟨hid', hr', -⟩ := Waiter.same_of_choose hw
    obtain ⟨hid, ho, hlistens⟩ := hk
    exact ⟨hid'.trans hid, hr' ▸ ho, hr' ▸ hlistens⟩
  | choose now ready hr =>
    rintro t' ⟨⟩
    exact hk
  | @leave e id' wt result =>
    rintro t' ⟨⟩
    have hgone : ∀ r, ¬ (wt.leave slots).Owns id' r := fun r ho =>
      (Table.owns_of_remove ho).2 hk.1.symm
    cases (Call.ofWait result).1 <;> exact hgone
  | finish | cancel | serve | fill => simp
  | take hs =>
    intro t' ht'
    obtain ⟨r, -, rfl⟩ := Option.map_eq_some_iff.1 ht'
    trivial

/-- A turn goes on with its call or ends it, unless it is the start of a call. -/
theorem Turn.callId (ht : Turn net h i store slots t slots' next es) :
    (next.toList.filterMap Task.callId?).Sublist ([t].filterMap Task.callId?) ∨
      ∃ e id timestamp, es = [.asked i e id timestamp] ∧ t.callId? = none ∧
        next.toList.filterMap Task.callId? = [id] := by
  cases ht with
  | @start e id now timestamp fresh slots' c hc =>
    exact .inr ⟨e, id, timestamp, rfl, rfl, rfl⟩
  | @sent e id s outcome slots' p log hp => cases p <;> exact .inl (List.Sublist.refl _)
  | await | stay | choose | leave => exact .inl (List.Sublist.refl _)
  | finish | cancel | serve | fill => exact .inl (List.nil_sublist _)
  | @take env slots' r? hs => cases r? <;> exact .inl (List.Sublist.refl _)

/-- A call that returns did not leave a slot, unless it broke down. -/
theorem Turn.returned {outcome : Outcome RelayError GetReply}
    (ht : Turn net h i store slots t slots' next es) (hk : t.Keeps slots)
    (he : .returned j e id outcome ∈ es) (hend : ∀ b, outcome ≠ .breakdown b) (r : Nat) :
    j = i ∧ ¬ slots'.Owns id r := by
  cases ht with
  | finish =>
    cases List.mem_singleton.1 he
    cases outcome with
    | value reply => exact ⟨rfl, hk r⟩
    | failure err => exact ⟨rfl, hk r⟩
    | breakdown b => exact absurd rfl (hend b)
  | start | serve => cases List.mem_singleton.1 he
  | _ => cases he

theorem Task.Fits.asked (hf : t.Fits h i names) (hid : t.callId? = some id) :
    ∃ e, Asked h i e id := by
  match t, hf, hid with
  | .calling e _ _, ⟨ha, _⟩, rfl => exact ⟨e, ha⟩
  | .relayed e _, ha, rfl => exact ⟨e, ha⟩
  | .leaving e _ _ _, ⟨ha, _⟩, rfl => exact ⟨e, ha⟩

/-! ### Networks -/

/-- Every slot is that of a call, and a call that returned left none unless it broke down. -/
structure Tidy (h : History ι σ) (w : World ι) : Prop where
  ids : (w.tasks.filterMap fun p => p.2.callId?).Nodup
  keeps : ∀ p ∈ w.tasks, p.2.Keeps (w.slots p.1)
  asked {i : ι} {id : String} {r : Nat} (ho : (w.slots i).Owns id r) : ∃ e, Asked h i e id
  returned {i : ι} {e : Errand} {id : String} {outcome : Outcome RelayError GetReply}
    (he : .returned i e id outcome ∈ h) (hend : ∀ b, outcome ≠ .breakdown b) (r : Nat) :
    ¬ (w.slots i).Owns id r

theorem Tidy.begin (store : ι → PeerStore) :
    Tidy ([] : History ι σ) ⟨store, fun _ => .empty, []⟩ where
  ids := List.nodup_nil
  keeps _ hp := by cases hp
  asked ho := by obtain ⟨s, hs, -⟩ := ho; cases hs
  returned he := by cases he

theorem World.mem_moved {before after : List (ι × Task)}
    (hw : w.tasks = before ++ (i, t) :: after) : (i, t) ∈ w.tasks := by
  rw [hw]
  exact List.mem_append_right _ List.mem_cons_self

/-- The tasks beside the one that moved were there before. -/
theorem World.mem_of_beside {before after : List (ι × Task)} {p : ι × Task}
    (hw : w.tasks = before ++ (i, t) :: after) (hp : p ∈ before ++ after) : p ∈ w.tasks := by
  rw [hw]
  exact ((List.sublist_cons_self _ after).append_left before).mem hp

/-- The ids of other calls are other ids. -/
theorem Tidy.ne_callId {before after : List (ι × Task)} {p : ι × Task} (hd : Tidy h w)
    (hw : w.tasks = before ++ (i, t) :: after) (hp : p ∈ before ++ after)
    (hid : p.2.callId? = some id) : t.callId? ≠ some id := by
  intro ht
  have hids := hd.ids
  rw [hw, List.filterMap_append, List.filterMap_cons, ht, List.nodup_middle, List.nodup_cons,
    ← List.filterMap_append] at hids
  exact hids.1 (List.mem_filterMap.2 ⟨p, hp, hid⟩)

theorem filterMap_callId (before after : List (ι × Task)) (ts : List Task) :
    (before ++ ts.map (i, ·) ++ after).filterMap (fun p => p.2.callId?) =
      before.filterMap (fun p => p.2.callId?) ++ ts.filterMap Task.callId? ++
        after.filterMap fun p => p.2.callId? := by
  rw [List.filterMap_append, List.filterMap_append, List.filterMap_map]
  rfl

variable [DecidableEq ι]

namespace Step

theorem fresh {timestamp : UInt64} (hstep : Step net Arrives h w es w')
    (he : .asked j e id timestamp ∈ es) (k : ι) (e' : Errand) (t' : UInt64) :
    .asked k e' id t' ∉ h := by
  cases hstep with
  | turn hw ht => exact (ht.fresh he).2 k e' t'
  | arrive => cases List.mem_singleton.1 he
  | _ => cases he

/-- What was asked before is not asked again. -/
theorem not_asked (hstep : Step net Arrives h w es w') (ha : ∃ e, Asked h j e id) (k : ι)
    (e : Errand) (timestamp : UInt64) : .asked k e id timestamp ∉ es := by
  obtain ⟨e', timestamp', ha⟩ := ha
  exact fun he => hstep.fresh he j e' timestamp' ha

theorem owns (hstep : Step net Arrives h w es w') (ho : (w'.slots i).Owns id r) :
    (w.slots i).Owns id r ∨ ∃ e timestamp, .asked i e id timestamp ∈ es := by
  cases hstep with
  | @turn j t before after slots' next es hw ht =>
    by_cases hi : i = j
    · subst hi
      simp only [Function.update_self] at ho
      exact ht.owns ho
    · simp only [Function.update_of_ne hi] at ho
      exact .inl ho
  | ask | lookUp | arrive | learn => exact .inl ho

theorem returned {outcome : Outcome RelayError GetReply} (hstep : Step net Arrives h w es w')
    (hd : Tidy h w) (he : .returned i e id outcome ∈ es) (hend : ∀ b, outcome ≠ .breakdown b)
    (r : Nat) : ¬ (w'.slots i).Owns id r := by
  cases hstep with
  | @turn j t before after slots' next es hw ht =>
    obtain ⟨rfl, hgone⟩ := ht.returned (hd.keeps _ (World.mem_moved hw)) he hend r
    simp only [Function.update_self]
    exact hgone
  | arrive => cases List.mem_singleton.1 he
  | _ => cases he

theorem takes_away (hstep : Step net Arrives h w es w') (hd : Tidy h w)
    (ho : (w.slots i).Owns id r) (ho' : ¬ (w'.slots i).Owns id r) :
    (∃ t, (i, t) ∈ w.tasks ∧ t.callId? = some id) ∨
      ∃ env, (i, .handling .response env) ∈ w.tasks ∧ env.messageId = id ∧
        ((w.slots i).takeSender id).2 = none := by
  have hnew := hstep.not_asked (hd.asked ho) i
  cases hstep with
  | @turn j t before after slots' next es hw ht =>
    have hmem := World.mem_moved hw
    by_cases hi : i = j
    · subst hi
      simp only [Function.update_self] at ho'
      rcases ht.takes_away (hd.keeps _ hmem) ho ho' hnew with hcall | ⟨env, rfl, hid, hnone⟩
      · exact .inl ⟨t, hmem, hcall⟩
      · exact .inr ⟨env, hmem, hid, hnone⟩
    · simp only [Function.update_of_ne hi] at ho'
      exact absurd ho ho'
  | ask | lookUp | arrive | learn => exact absurd ho ho'

/-- Calls have ids of their own, since no id is used twice. -/
theorem ids {names : ι → List String} (hstep : Step net Arrives h w es w')
    (hs : Sound S Arrives h w names) (hd : Tidy h w) :
    (w'.tasks.filterMap fun p => p.2.callId?).Nodup := by
  have hids := hd.ids
  cases hstep with
  | @turn i t before after slots' next es hw ht =>
    have hsplit : before ++ (i, t) :: after = before ++ [t].map (i, ·) ++ after := by simp
    rw [hw, hsplit, filterMap_callId] at hids
    rw [filterMap_callId]
    rcases ht.callId with hless | ⟨e, id, timestamp, rfl, hready, hnext⟩
    · exact hids.sublist ((hless.append_left _).append_right _)
    · rw [List.filterMap_cons, hready, List.filterMap_nil, List.append_nil] at hids
      rw [hnext, List.append_assoc, List.singleton_append, List.nodup_middle, List.nodup_cons]
      refine ⟨fun hmem => ?_, hids⟩
      rw [← List.filterMap_append] at hmem
      obtain ⟨p, hp, hid⟩ := List.mem_filterMap.1 hmem
      obtain ⟨e', timestamp', ha⟩ := (hs.tasks p (World.mem_of_beside hw hp)).asked hid
      exact (ht.fresh (List.mem_singleton_self _)).2 p.1 e' timestamp' ha
  | ask | lookUp | arrive | learn => exact hids

theorem keeps {names : ι → List String} (hstep : Step net Arrives h w es w')
    (hs : Sound S Arrives h w names) (hd : Tidy h w) :
    ∀ p ∈ w'.tasks, p.2.Keeps (w'.slots p.1) := by
  have hstep' := hstep
  cases hstep with
  | @turn i t before after slots' next es hw ht =>
    have hk := hd.keeps _ (World.mem_moved hw)
    have hother {p : ι × Task} (hp : p ∈ before ++ after) :
        p.2.Keeps (Function.update w.slots i slots' p.1) := by
      have hbeside := World.mem_of_beside hw hp
      have hkeeps := hd.keeps p hbeside
      have hasked {id : String} (hid : p.2.callId? = some id) := (hs.tasks p hbeside).asked hid
      by_cases hi : p.1 = i
      · subst hi
        rw [Function.update_self]
        refine hkeeps.spares (fun id hid => ?_) fun id r hid ho => ?_
        · exact ht.spares (hs.slots p.1).separate hk (hd.ne_callId hw hp hid) fun e' timestamp =>
            hstep'.not_asked (hasked hid) _ e' timestamp
        · rcases ht.owns ho with ho | ⟨e', timestamp, he⟩
          · exact ho
          · exact absurd he (hstep'.not_asked (hasked hid) _ _ _)
      · rw [Function.update_of_ne hi]
        exact hkeeps
    intro p hp
    simp only [List.mem_append, List.mem_map, Option.mem_toList] at hp
    rcases hp with (hp | ⟨t', ht', rfl⟩) | hp
    · exact hother (List.mem_append_left _ hp)
    · simp only [Function.update_self]
      refine ht.keeps hk (fun e id timestamp he r ho => ?_) t' ht'
      exact hstep'.not_asked (hd.asked ho) i e timestamp he
    · exact hother (List.mem_append_right _ hp)
  | ask | lookUp | arrive =>
    intro p hp
    rcases List.mem_cons.1 hp with rfl | hp
    · trivial
    · exact hd.keeps p hp
  | learn => exact hd.keeps

/-- **A step keeps a network tidy.** -/
theorem tidy {names : ι → List String} (hstep : Step net Arrives h w es w')
    (hs : Sound S Arrives h w names) (hd : Tidy h w) : Tidy (es ++ h) w' where
  ids := hstep.ids hs hd
  keeps := hstep.keeps hs hd
  asked ho := by
    rcases hstep.owns ho with ho | ⟨e, timestamp, he⟩
    · obtain ⟨e, ha⟩ := hd.asked ho
      exact ⟨e, ha.mono (List.subset_append_right _ _)⟩
    · exact ⟨e, timestamp, List.mem_append_left _ he⟩
  returned he hend r ho := by
    rcases List.mem_append.1 he with he | he
    · exact hstep.returned hd he hend r ho
    · rcases hstep.owns ho with ho | ⟨e', timestamp, hnew⟩
      · exact hd.returned he hend r ho
      · exact hstep.not_asked ⟨_, (hs.events _ he).1⟩ _ _ _ hnew

end Step

/-- **Every run is tidy.** -/
theorem Run.tidy (hrun : Run net Arrives h w) : Tidy h w := by
  induction hrun with
  | begin store => exact .begin store
  | step hrun hstep ih =>
    obtain ⟨names, hs⟩ := hrun.sound
    exact hstep.tidy hs ih

/-! ### Whose slots there are -/

/-- A call that sends or waits has a slot. -/
theorem Task.Keeps.exists_owns {c : Call} (hk : Task.Keeps slots (.calling e id c))
    (hc : ∀ outcome, c ≠ .done outcome) : ∃ r, slots.Owns id r := by
  cases c with
  | sending s =>
    obtain ⟨-, s, hs, -⟩ := hk
    exact ⟨s.registration, s, hs, rfl⟩
  | waiting wt => exact ⟨wt.registration, hk.2.1⟩
  | done outcome => exact absurd rfl (hc outcome)

/-- A call that is given up keeps its slot. -/
theorem owns_cancel {c : Call} (ho : slots.Owns id r) : (c.cancel slots).Owns id r := by
  cases c <;> exact ho

/-- **Every slot is that of a call that did not end as it should**: it is under way, or it was
dropped, or it broke down. So if all requests that a node relayed ended with an answer or a failure,
it has no slots. A call that is dropped while it sends or waits leaves its slot behind, and
nothing takes this slot away but a delivery under its id, which is not accepted. -/
theorem slots_of_calls (hrun : Run net Arrives h w) (i : ι) :
    (∀ id, (w.slots i).contains id = true → ∃ e, Asked h i e id ∧
      ∀ outcome, .returned i e id outcome ∈ h → ∃ b, outcome = .breakdown b) ∧
    ((∀ e id, Asked h i e id →
      ∃ outcome, .returned i e id outcome ∈ h ∧ ∀ b, outcome ≠ .breakdown b) →
      (w.slots i).size = 0) ∧
    (∀ before after e id c, w.tasks = before ++ (i, .calling e id c) :: after →
      (∀ outcome, c ≠ .done outcome) →
      ∃ w', Step net Arrives h w [] w' ∧ w'.tasks = before ++ after ∧
        (w'.slots i).contains id = true) ∧
    (∀ es w' id, Step net Arrives h w es w' → (w.slots i).contains id = true →
      (∀ t, (i, t) ∈ w.tasks → t.callId? ≠ some id) → (w'.slots i).contains id = false →
      ∃ env, (i, .handling .response env) ∈ w.tasks ∧ env.messageId = id ∧
        ((w.slots i).takeSender id).2 = none) := by
  have hd := hrun.tidy
  have howner {id : String} {r : Nat} (ho : (w.slots i).Owns id r) : ∃ e, Asked h i e id ∧
      ∀ outcome, .returned i e id outcome ∈ h → ∃ b, outcome = .breakdown b := by
    obtain ⟨e, ha⟩ := hd.asked ho
    refine ⟨e, ha, fun outcome he => ?_⟩
    by_contra hend
    exact hd.returned he (not_exists.1 hend) r ho
  refine ⟨fun id hid => ?_, fun hended => ?_, fun before after e id c hw hc => ?_,
    fun es w' id hstep hid hover hgone => ?_⟩
  · obtain ⟨r, ho⟩ := Table.contains_iff_owns.1 hid
    exact howner ho
  · refine Table.size_eq_zero fun id r ho => ?_
    obtain ⟨e, ha, hbreak⟩ := howner ho
    obtain ⟨outcome, he, hend⟩ := hended e id ha
    obtain ⟨b, hb⟩ := hbreak outcome he
    exact hend b hb
  · obtain ⟨r, ho⟩ := (hd.keeps _ (World.mem_moved hw)).exists_owns hc
    refine ⟨_, .turn hw .cancel, by simp, Table.contains_iff_owns.2 ⟨r, ?_⟩⟩
    simpa using owns_cancel ho
  · obtain ⟨r, ho⟩ := Table.contains_iff_owns.1 hid
    have ho' : ¬ (w'.slots i).Owns id r := fun ho' => by
      rw [Table.contains_iff_owns.2 ⟨r, ho'⟩] at hgone
      cases hgone
    rcases hstep.takes_away hd ho ho' with ⟨t, ht, hcall⟩ | hrefused
    · exact absurd hcall (hover t ht)
    · exact hrefused

/-- One of two nodes asks the other. The call has a slot, and leaves it if it is dropped. -/
theorem pair_slot_of_call : ∃ h w e c, Run pair (fun _ _ => False) h w ∧
    w.tasks = [(false, .calling e "m" c)] ∧ (w.slots false).contains "m" = true ∧
    (∃ e, Asked h false e "m" ∧
      ∀ outcome, .returned false e "m" outcome ∈ h → ∃ b, outcome = .breakdown b) ∧
    ∃ w', Step pair (fun _ _ => False) h w [] w' ∧ w'.tasks = [] ∧
      (w'.slots false).contains "m" = true := by
  have hbegin : Run pair (fun _ _ => False) [] _ := .begin pairStore
  have hrun := hbegin.step (.ask false ⟨"Filecoin", "u1", ""⟩ ⟨1, 1, 1000⟩)
  obtain ⟨w, wt, hrun, -, htasks, s, c, hs, -⟩ :=
    exists_waiting_pair hrun rfl rfl (by simp) length_pairQuestion_le.1
  have hcontains : (w.slots false).contains "m" = true :=
    Table.contains_iff_owns.2 ⟨s.registration, s, hs, rfl⟩
  obtain ⟨howner, -, hdrop, -⟩ := slots_of_calls hrun false
  exact ⟨_, w, _, _, hrun, htasks, hcontains, howner "m" hcontains,
    hdrop [] [] _ "m" (.waiting wt) htasks (by simp)⟩

/-- A call that is dropped while it sends, and one that is dropped while it waits: no task is left
afterwards, and the slot is still there. -/
theorem pair_left_slot :
    (∃ h w w' e s, Run pair (fun _ _ => False) h w ∧
      w.tasks = [(false, .calling e "m" (.sending s))] ∧
      Run pair (fun _ _ => False) h w' ∧ w'.tasks = [] ∧
      (w'.slots false).contains "m" = true) ∧
    ∃ h w w' e wt, Run pair (fun _ _ => False) h w ∧
      w.tasks = [(false, .calling e "m" (.waiting wt))] ∧
      Run pair (fun _ _ => False) h w' ∧ w'.tasks = [] ∧
      (w'.slots false).contains "m" = true := by
  have hbegin : Run pair (fun _ _ => False) [] _ := .begin pairStore
  have hrun := hbegin.step (.ask false ⟨"Filecoin", "u1", ""⟩ ⟨1, 1, 1000⟩)
  constructor
  · have hattempts : (⟨1, 1, 1000⟩ : Settings).attempts ≠ 0 := one_ne_zero
    obtain ⟨s, hs⟩ := start_eq_sending .empty candidates_pairStore hattempts
      (requestFrame_pairQuestion length_pairQuestion_le.1)
    obtain ⟨w, hrun₁, -, hslots, htasks, -⟩ :=
      hrun.exists_turn (List.nil_append _).symm (.start 0 5 (by simp) hs)
    obtain ⟨w', hrun₂, -, hslots', htasks', -⟩ :=
      hrun₁.exists_turn (htasks.trans (List.nil_append _).symm) .cancel
    refine ⟨_, w, w', _, s, hrun₁, htasks, hrun₂, htasks', ?_⟩
    rw [hslots', hslots]
    exact Table.contains_iff_owns.2 ⟨_, Table.owns_insert_self _ "m"⟩
  · obtain ⟨w, wt, hrun₁, -, htasks, s, c, hs, -⟩ :=
      exists_waiting_pair hrun rfl rfl (by simp) length_pairQuestion_le.1
    obtain ⟨w', hrun₂, -, hslots', htasks', -⟩ :=
      hrun₁.exists_turn (htasks.trans (List.nil_append _).symm) .cancel
    refine ⟨_, w, w', _, wt, hrun₁, htasks, hrun₂, htasks', ?_⟩
    rw [hslots']
    exact Table.contains_iff_owns.2 ⟨s.registration, s, hs, rfl⟩

end KeyCustody.Relay
