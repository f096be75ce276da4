import KeyCustody.Proofs.Relay.Attempts
import KeyCustody.Proofs.Relay.Leftovers
/-!
# How calls end

A call ends before its request is taken, or as its wait does. While it waits its slot stands, and
the channel of this slot has a value, or its sending end is still somewhere: the wait never finds
that its slot went away, and never finds none when it begins. So it ends with an answer that was
accepted under its message id, or at its deadline, unless the ticker of the wait cannot be started.
And as no message id is used twice, a wait that ended with a result makes its call return just that,
if the call returns at all.

## Main definitions

* `Leads`, `Waited`: from one moment of a run to another, and the result of a wait.
* `Concludes`: how a call comes to its outcome.
* `Follows`: what becomes of a call whose wait has ended.

## Main results

* `Step.comes`: where the tasks of a network come from.
* `Run.live`, `Run.known`: slots that stand, and waits that never lose theirs.
* `Run.concludes`: the outcomes of calls.
* `Waited.eq_of_returned`: what a call returns whose wait has ended.
-/

namespace KeyCustody.Relay

open Crypto (SignatureScheme)
open Custody (DispatchError)
open Net (TransportError)
open Node (Log)
open Peer (PeerId PeerStore Identity)
open Pending (Table WaitError Waiter)
open Wire (Envelope GetRequest GetReply Payload StreamProtocol)

variable {ι : Type} {S : SignatureScheme} {σ : Type} {net : Network ι S σ}
  {Arrives : History ι σ → Bytes → Prop} {h h₁ es : History ι σ} {w w₁ w' : World ι} {i j : ι}
  {store : PeerStore} {slots slots' : Slots} {id : String} {e e' : Errand} {r : Nat} {t t' : Task}
  {next : Option Task} {outcome outcome' : Outcome RelayError GetReply} {wt : Waiter}
  {result : Except WaitError (Option GetReply)}

/-! ### Turns -/

/-- A request that fails at its start was not sent and not waited for. -/
theorem start_failure {own : Identity S} {settings : Settings} {request : GetRequest} {now : Nat}
    {timestamp : UInt64} {err : RelayError}
    (hc : Call.start own store settings request id now timestamp slots =
      (slots', .done (.failure err))) : err ≠ .unusable ∧ err ≠ .timeout := by
  unfold Call.start at hc
  rcases Job.start_cases ⟨own, store, settings.attempts, .request, Payload.encode request, id, now,
    timestamp⟩ slots with ⟨err', herror, hfails, -⟩ | ⟨s, hs, -⟩
  · rw [Job.start] at herror
    split at hc
    · rename_i hs
      rw [hs] at herror
      cases herror
    · rename_i hs
      rw [hs] at herror
      obtain rfl := Except.error.inj herror
      cases hc
      constructor <;> rintro rfl <;> exact hfails
  · rw [Job.start] at hs
    rw [hs] at hc
    cases hc

/-- A wait that breaks down at its start does so over its ticker. -/
theorem begin_breakdown {poll timeout now : Nat} {b : Breakdown}
    (hb : (Waiter.begin slots id poll timeout now).2 = .breakdown b) :
    b = .zeroPeriod ∧ poll = 0 ∨ b = .instantOverflow ∧ Pending.lastInstant ≤ now + poll := by
  unfold Waiter.begin at hb
  split at hb
  · cases hb
  · split_ifs at hb with hnow hpoll
    · exact .inr ⟨(Outcome.breakdown.inj hb).symm, hnow⟩
    · exact .inl ⟨(Outcome.breakdown.inj hb).symm, hpoll⟩

/-- A wait at a slot which holds its receiving end finds it. -/
theorem Holds.begin_ne_failure (hh : Holds slots id) {poll timeout now : Nat} {err : WaitError} :
    (Waiter.begin slots id poll timeout now).2 ≠ .failure err := by
  intro hb
  obtain ⟨s, hs, hheld, -⟩ := hh
  rw [Table.takeReceiver_eq_none_iff.1 (Waiter.begin_eq_failure hb).2.1 s hs] at hheld
  cases hheld

/-- A call at such a slot that does not begin to wait breaks down over its ticker. -/
theorem Holds.await_done {settings : Settings} {now : Nat} (hh : Holds slots id)
    (hc : Call.await settings id now slots = (slots', .done outcome)) :
    ∃ b, outcome = .breakdown b ∧
      (b = .zeroPeriod ∧ settings.poll = 0 ∨ b = .instantOverflow) := by
  unfold Call.await at hc
  split at hc
  · cases hc
  · rename_i slots₁ err hb
    exact absurd (congrArg Prod.snd hb) hh.begin_ne_failure
  · rename_i slots₁ b hb
    cases hc
    exact ⟨b, rfl, (begin_breakdown (congrArg Prod.snd hb)).imp_right And.left⟩

/-- **A turn loses no slot whose receiving end is there.** -/
theorem Turn.live (ht : Turn net h i store slots t slots' next es) (hsep : slots.Separate)
    (hl : slots.Live) : slots'.Live := by
  cases ht with
  | start now timestamp fresh hc =>
    have hinsert := hl.insert hsep
    rcases start_cases hc with ⟨err, -, rfl | rfl⟩ | ⟨s, -, -, rfl⟩
    · exact hl
    · exact (hinsert _).remove (hsep.insert _) _
    · exact hinsert _
  | sent outcome hp =>
    rcases onSent_cases hp with ⟨-, rfl⟩ | ⟨s', -, -, rfl⟩ | ⟨err, -, rfl⟩
    · exact hl
    · exact hl
    · exact hl.remove hsep _
  | @await e id now slots' c hc =>
    obtain rfl : slots' = _ := (congrArg Prod.fst hc).symm.trans (fst_await _ _ _ _)
    exact Waiter.live_begin hl
  | leave => exact (hl.remove hsep _).dropReceiver _
  | @cancel e id c =>
    cases c with
    | waiting wt => exact hl.dropReceiver _
    | sending s => exact hl
    | done outcome => exact hl
  | @take env slots' r? hs =>
    obtain rfl : slots' = _ := (congrArg Prod.fst hs).symm
    exact hl.takeSender hsep _
  | fill => exact hl.send _ _
  | stay | choose | finish | serve => exact hl

/-- **A wait does not end because its slot went away.** -/
theorem Turn.known (ht : Turn net h i store slots t slots' next es) (hl : slots.Live)
    (hk : t.Keeps slots) : .leaving e id wt (.error .unknown) ∉ next := by
  intro hnext
  cases ht with
  | choose now ready hr =>
    obtain ⟨-, rfl, rfl, rfl⟩ := Task.leaving.inj (Option.some.inj hnext)
    exact hl.receive_ne_closed hk.2.1 hk.2.2 (Waiter.closed_of_choose hr)
  | @sent e id s outcome slots' p log hp => cases p <;> cases hnext
  | @take env slots' r? hs => cases r? <;> cases hnext
  | start | await | stay | leave => cases hnext
  | finish | cancel | serve | fill => cases hnext

/-- **A turn brings a call to its outcome** when the request fails before it is taken, when the wait
cannot begin, or when the wait has ended. -/
theorem Turn.done (ht : Turn net h i store slots t slots' next es) (hk : t.Keeps slots)
    (hnext : .calling e id (.done outcome) ∈ next) :
    (∃ err, outcome = .failure err ∧ err ≠ .unusable ∧ err ≠ .timeout) ∨
    (∃ b, outcome = .breakdown b ∧ (b = .zeroPeriod ∧ e.settings.poll = 0 ∨
      b = .instantOverflow)) ∨
    ∃ wt result, t = .leaving e id wt result ∧ outcome = .ofExcept (Call.ofWait result).1 := by
  cases ht with
  | start now timestamp fresh hc =>
    obtain ⟨rfl, rfl, rfl⟩ := Task.calling.inj (Option.some.inj hnext)
    rcases start_cases hc with ⟨err, hdone, -⟩ | ⟨s, hdone, -⟩
    · obtain rfl := Call.done.inj hdone
      exact .inl ⟨err, rfl, start_failure hc⟩
    · cases hdone
  | @sent e' id' s outcome' slots' p log hp =>
    rcases onSent_cases hp with ⟨rfl, -⟩ | ⟨s', rfl, -⟩ | ⟨err, rfl, -⟩
    · cases hnext
    · cases hnext
    · obtain ⟨rfl, rfl, hdone⟩ := Task.calling.inj (Option.some.inj hnext)
      obtain rfl := Call.done.inj hdone
      refine .inl ⟨err, rfl, ?_⟩
      cases outcome' with
      | ok u => cases hp
      | error e =>
        have hprogress := (Job.onSent_error s e slots).2
        rw [hp] at hprogress
        simp only at hprogress
        split_ifs at hprogress
        cases hprogress
        simp
  | await now hc =>
    obtain ⟨rfl, rfl, rfl⟩ := Task.calling.inj (Option.some.inj hnext)
    exact .inr (.inl (Holds.await_done hk hc))
  | leave =>
    obtain ⟨rfl, rfl, hdone⟩ := Task.calling.inj (Option.some.inj hnext)
    exact .inr (.inr ⟨_, _, rfl, (Call.done.inj hdone).symm⟩)
  | @take env slots' r? hs => cases r? <;> cases hnext
  | stay | choose => cases hnext
  | finish | cancel | serve | fill => cases hnext

/-- A call returns the outcome that it came to. -/
theorem Turn.of_returned (ht : Turn net h i store slots t slots' next es)
    (he : .returned j e id outcome ∈ es) :
    j = i ∧ t = .calling e id (.done outcome) ∧ es = [.returned j e id outcome] ∧ next = none := by
  cases ht with
  | finish =>
    obtain ⟨rfl, rfl, rfl, rfl⟩ := Event.returned.inj (List.mem_singleton.1 he)
    exact ⟨rfl, rfl, rfl, rfl⟩
  | start | serve => cases List.mem_singleton.1 he
  | _ => cases he

/-! ### Where tasks come from -/

/-- Where a task of a network comes from. -/
inductive Comes (net : Network ι S σ) (h : History ι σ) (w : World ι) (es : History ι σ) :
    ι × Task → Prop
  | stays {p : ι × Task} (hp : p ∈ w.tasks) : Comes net h w es p
  | turned {i : ι} {t t' : Task} {slots : Slots} {next : Option Task} (hp : (i, t) ∈ w.tasks)
      (ht : Turn net h i (w.store i) (w.slots i) t slots next es) (hnext : t' ∈ next) :
      Comes net h w es (i, t')
  | asked (i : ι) (request : GetRequest) (settings : Settings) :
      Comes net h w es (i, .ready ⟨request, settings, none⟩)
  | looked {i : ι} {request : GetRequest} {seen : σ} {n : Node.State S σ} {settings : Settings}
      {miss : DispatchError} {log : Log}
      (hn : (w.state net i seen).lookUp request = (n, .relayed settings miss, log)) :
      Comes net h w es (i, .ready ⟨request, settings, some miss⟩)
  | arrived (i : ι) (protocol : StreamProtocol) (env : Envelope) :
      Comes net h w es (i, .handling protocol env)

/-- The id of a task is that of the task whose turn it was, or a fresh one. -/
theorem Turn.callId_of_mem (ht : Turn net h i store slots t slots' next es) (hnext : t' ∈ next)
    (hid : t'.callId? = some id) :
    t.callId? = some id ∨ ∃ e timestamp, .asked i e id timestamp ∈ es := by
  have hmem : id ∈ next.toList.filterMap Task.callId? :=
    List.mem_filterMap.2 ⟨t', Option.mem_toList.2 hnext, hid⟩
  rcases ht.callId with hsub | ⟨e, id', timestamp, rfl, -, hids⟩
  · obtain ⟨t₁, ht₁, hid₁⟩ := List.mem_filterMap.1 (hsub.mem hmem)
    obtain rfl := List.mem_singleton.1 ht₁
    exact .inl hid₁
  · rw [hids, List.mem_singleton] at hmem
    subst hmem
    exact .inr ⟨e, timestamp, List.mem_singleton_self _⟩

/-- The call of a task is that of a task before, or it has just been asked. -/
theorem Comes.callId {p : ι × Task} (hcomes : Comes net h w es p) (hid : p.2.callId? = some id) :
    (∃ q ∈ w.tasks, q.2.callId? = some id) ∨ ∃ e timestamp, .asked p.1 e id timestamp ∈ es := by
  cases hcomes with
  | stays hp => exact .inl ⟨p, hp, hid⟩
  | turned hp ht hnext => exact (ht.callId_of_mem hnext hid).imp_left fun hid => ⟨_, hp, hid⟩
  | asked | looked | arrived => cases hid

variable [DecidableEq ι]

theorem Step.comes {p : ι × Task} (hstep : Step net Arrives h w es w') (hp : p ∈ w'.tasks) :
    Comes net h w es p := by
  cases hstep with
  | @turn i t before after slots next es hw ht =>
    simp only [List.mem_append, List.mem_map, Option.mem_toList] at hp
    rcases hp with (hp | ⟨t', hnext, rfl⟩) | hp
    · exact .stays (World.mem_of_beside hw (List.mem_append_left _ hp))
    · exact .turned (World.mem_moved hw) ht hnext
    · exact .stays (World.mem_of_beside hw (List.mem_append_right _ hp))
  | ask i request settings =>
    rcases List.mem_cons.1 hp with rfl | hp
    · exact .asked i request settings
    · exact .stays hp
  | lookUp hn =>
    rcases List.mem_cons.1 hp with rfl | hp
    · exact .looked hn
    · exact .stays hp
  | @arrive i protocol remote data env ha hi =>
    rcases List.mem_cons.1 hp with rfl | hp
    · exact .arrived i protocol env
    · exact .stays hp
  | learn => exact .stays hp

/-- A call returns in a turn of its task, which is gone afterwards. -/
theorem Step.of_returned (hstep : Step net Arrives h w es w')
    (he : .returned i e id outcome ∈ es) :
    es = [.returned i e id outcome] ∧ ∃ before after,
      w.tasks = before ++ (i, .calling e id (.done outcome)) :: after ∧
        w'.tasks = before ++ after := by
  cases hstep with
  | @turn j t before after slots next es hw ht =>
    obtain ⟨rfl, rfl, rfl, rfl⟩ := ht.of_returned he
    exact ⟨rfl, before, after, hw, by simp⟩
  | arrive => cases List.mem_singleton.1 he
  | _ => cases he

/-- **In every run the slots of nodes are live.** -/
theorem Run.live (hrun : Run net Arrives h w) (i : ι) : (w.slots i).Live := by
  induction hrun with
  | begin store => exact Table.live_empty
  | step hrun hstep ih =>
    obtain ⟨names, hs⟩ := hrun.sound
    cases hstep with
    | @turn j t before after slots next es hw ht =>
      by_cases hi : i = j
      · subst hi
        simp only [Function.update_self]
        exact ht.live (hs.slots i).separate ih
      · simp only [Function.update_of_ne hi]
        exact ih
    | ask | lookUp | arrive | learn => exact ih

/-- **In every run no wait ends because its slot went away.** -/
theorem Run.known (hrun : Run net Arrives h w) :
    (i, .leaving e id wt (.error .unknown)) ∉ w.tasks := by
  induction hrun with
  | begin store => exact List.not_mem_nil
  | step hrun hstep ih =>
    intro hp
    cases hstep.comes hp with
    | stays hp => exact ih hp
    | turned hp ht hnext => exact ht.known (hrun.live i) (hrun.tidy.keeps _ hp) hnext

/-! ### Outcomes and what led to them -/

/-- A moment of a run leads to another one. -/
inductive Leads (net : Network ι S σ) (Arrives : History ι σ → Bytes → Prop) (h : History ι σ)
    (w : World ι) : History ι σ → World ι → Prop
  | refl : Leads net Arrives h w h w
  | step {h' es : History ι σ} {w' w'' : World ι} (hleads : Leads net Arrives h w h' w')
      (hstep : Step net Arrives h' w' es w'') : Leads net Arrives h w (es ++ h') w''

theorem Leads.run (hleads : Leads net Arrives h₁ w₁ h w) (hrun : Run net Arrives h₁ w₁) :
    Run net Arrives h w := by
  induction hleads with
  | refl => exact hrun
  | step hleads hstep ih => exact ih.step hstep

theorem Leads.subset (hleads : Leads net Arrives h₁ w₁ h w) : h₁ ⊆ h := by
  induction hleads with
  | refl => exact List.Subset.refl _
  | step hleads hstep ih => exact List.Subset.trans ih (List.subset_append_right _ _)

/-- At some moment that led to this one, the wait of a call had ended with a result. -/
def Waited (net : Network ι S σ) (Arrives : History ι σ → Bytes → Prop) (h : History ι σ)
    (w : World ι) (i : ι) (e : Errand) (id : String)
    (result : Except WaitError (Option GetReply)) : Prop :=
  ∃ h₁ w₁ wt, Run net Arrives h₁ w₁ ∧ Leads net Arrives h₁ w₁ h w ∧
    (i, .leaving e id wt result) ∈ w₁.tasks

theorem Waited.step (hw : Waited net Arrives h w i e id result)
    (hstep : Step net Arrives h w es w') : Waited net Arrives (es ++ h) w' i e id result := by
  obtain ⟨h₁, w₁, wt, hrun, hleads, ht⟩ := hw
  exact ⟨h₁, w₁, wt, hrun, hleads.step hstep, ht⟩

/-- An answer with which a wait ended was accepted under the message id of its call. -/
theorem Waited.justified {answer : Option GetReply}
    (hw : Waited net Arrives h w i e id (.ok answer)) : Justified h i id answer := by
  obtain ⟨h₁, w₁, wt, hrun, hleads, ht⟩ := hw
  obtain ⟨names, hs⟩ := hrun.sound
  exact ((hs.tasks _ ht).2 answer rfl).mono hleads.subset

/-- No wait ended because its slot went away. -/
theorem not_waited_unknown : ¬ Waited net Arrives h w i e id (.error .unknown) := by
  rintro ⟨h₁, w₁, wt, hrun, -, ht⟩
  exact hrun.known ht

/-- How a call comes to its outcome: its request fails before a peer takes it, its wait ends, or the
ticker of the wait cannot be started. -/
inductive Concludes (net : Network ι S σ) (Arrives : History ι σ → Bytes → Prop) (h : History ι σ)
    (w : World ι) (i : ι) (e : Errand) (id : String) : Outcome RelayError GetReply → Prop
  | unsent {err : RelayError} (hanswer : err ≠ .unusable) (htime : err ≠ .timeout) :
      Concludes net Arrives h w i e id (.failure err)
  | waited {result : Except WaitError (Option GetReply)}
      (hw : Waited net Arrives h w i e id result) :
      Concludes net Arrives h w i e id (.ofExcept (Call.ofWait result).1)
  | brokeDown {b : Breakdown} (hb : b = .zeroPeriod ∧ e.settings.poll = 0 ∨ b = .instantOverflow) :
      Concludes net Arrives h w i e id (.breakdown b)

theorem Concludes.step (hc : Concludes net Arrives h w i e id outcome)
    (hstep : Step net Arrives h w es w') :
    Concludes net Arrives (es ++ h) w' i e id outcome := by
  cases hc with
  | unsent hanswer htime => exact .unsent hanswer htime
  | waited hw => exact .waited (hw.step hstep)
  | brokeDown hb => exact .brokeDown hb

/-- **In every run a call concludes** before it returns. -/
theorem Run.concludes (hrun : Run net Arrives h w) :
    (∀ {i e id outcome}, (i, .calling e id (.done outcome)) ∈ w.tasks →
      Concludes net Arrives h w i e id outcome) ∧
    ∀ {i e id outcome}, .returned i e id outcome ∈ h →
      Concludes net Arrives h w i e id outcome := by
  induction hrun with
  | begin store =>
    exact ⟨fun ht => absurd ht List.not_mem_nil, fun he => absurd he List.not_mem_nil⟩
  | @step h w w' es hrun hstep ih =>
    obtain ⟨hdone, hreturned⟩ := ih
    constructor
    · intro i e id outcome ht'
      cases hstep.comes ht' with
      | stays ht => exact (hdone ht).step hstep
      | turned ht hturn hnext =>
        rcases hturn.done (hrun.tidy.keeps _ ht) hnext with ⟨err, rfl, hanswer, htime⟩ |
          ⟨b, rfl, hb⟩ | ⟨wt, result, rfl, rfl⟩
        · exact .unsent hanswer htime
        · exact .brokeDown hb
        · exact .waited ⟨h, w, wt, hrun, .step .refl hstep, ht⟩
    · intro i e id outcome he
      rcases List.mem_append.1 he with he | he
      · obtain ⟨-, before, after, hw, -⟩ := hstep.of_returned he
        exact (hdone (World.mem_moved hw)).step hstep
      · exact (hreturned he).step hstep

/-! ### Calls return once -/

/-- **A call that returned is over**: no task is at work on it, and it returns nothing else. -/
theorem Run.over (hrun : Run net Arrives h w) (he : .returned i e id outcome ∈ h) :
    (∀ p ∈ w.tasks, p.2.callId? ≠ some id) ∧
      ∀ {j e' outcome'}, .returned j e' id outcome' ∈ h → j = i ∧ e' = e ∧ outcome' = outcome := by
  induction hrun generalizing i e outcome with
  | begin store => cases he
  | @step h w w' es hrun hstep ih =>
    -- The id was asked before the call returned, so that it is not asked again.
    have hold {i e outcome} (he : .returned i e id outcome ∈ h) :
        ∀ p ∈ w'.tasks, p.2.callId? ≠ some id := by
      intro p hp hid
      rcases (hstep.comes hp).callId hid with ⟨q, hq, hid⟩ | ⟨e', timestamp, hasked⟩
      · exact (ih he).1 q hq hid
      · obtain ⟨names, hs⟩ := hrun.sound
        exact hstep.not_asked ⟨_, (hs.events _ he).1⟩ _ _ _ hasked
    have hnew {i e outcome} (he : .returned i e id outcome ∈ es) :
        (∀ p ∈ w'.tasks, p.2.callId? ≠ some id) ∧
          ∀ {j e' outcome'}, .returned j e' id outcome' ∉ h := by
      obtain ⟨-, before, after, hw, hw'⟩ := hstep.of_returned he
      refine ⟨fun p hp hid => ?_, fun {j e' outcome'} hother => ?_⟩
      · rw [hw'] at hp
        exact hrun.tidy.ne_callId hw hp hid rfl
      · exact (ih hother).1 _ (World.mem_moved hw) rfl
    rcases List.mem_append.1 he with he | he
    · refine ⟨(hnew he).1, fun {j e' outcome'} he' => ?_⟩
      rcases List.mem_append.1 he' with he' | he'
      · rw [(hstep.of_returned he).1] at he'
        obtain ⟨rfl, rfl, -, rfl⟩ := Event.returned.inj (List.mem_singleton.1 he')
        exact ⟨rfl, rfl, rfl⟩
      · exact absurd he' (hnew he).2
    · refine ⟨hold he, fun {j e' outcome'} he' => ?_⟩
      rcases List.mem_append.1 he' with he' | he'
      · exact absurd he (hnew he').2
      · exact (ih he).2 he'

/-- What becomes of a call whose wait has ended with a result: it comes to its outcome and returns
it, or it is given up. -/
inductive Follows (h : History ι σ) (w : World ι) (i : ι) (e : Errand) (id : String)
    (result : Except WaitError (Option GetReply)) : Prop
  | leaving {wt : Waiter} (ht : (i, .leaving e id wt result) ∈ w.tasks)
  | done (ht : (i, .calling e id (.done (.ofExcept (Call.ofWait result).1))) ∈ w.tasks)
  | returned (he : .returned i e id (.ofExcept (Call.ofWait result).1) ∈ h)
  | dropped (ha : ∃ e, Asked h i e id) (ht : ∀ p ∈ w.tasks, p.2.callId? ≠ some id)
      (he : ∀ j e outcome, .returned j e id outcome ∉ h)

/-- A task stays where it is in a step, or has its turn. -/
theorem Step.stays_or_turns {p : ι × Task} (hstep : Step net Arrives h w es w')
    (hp : p ∈ w.tasks) : p ∈ w'.tasks ∨ ∃ before after slots next,
      w.tasks = before ++ p :: after ∧ w'.tasks = before ++ next.toList.map (p.1, ·) ++ after ∧
        Turn net h p.1 (w.store p.1) (w.slots p.1) p.2 slots next es := by
  cases hstep with
  | @turn j t before after slots next es hw ht =>
    rw [hw, List.mem_append, List.mem_cons] at hp
    rcases hp with hp | rfl | hp
    · exact .inl (List.mem_append_left _ (List.mem_append_left _ hp))
    · exact .inr ⟨before, after, slots, next, hw, rfl, ht⟩
    · exact .inl (List.mem_append_right _ hp)
  | ask | lookUp | arrive => exact .inl (List.mem_cons_of_mem _ hp)
  | learn => exact .inl hp

/-- **A step keeps on following a call** whose wait has ended. -/
theorem Follows.step (hf : Follows h w i e id result) (hrun : Run net Arrives h w)
    (hstep : Step net Arrives h w es w') : Follows (es ++ h) w' i e id result := by
  cases hf with
  | leaving ht =>
    rcases hstep.stays_or_turns ht with ht' | ⟨before, after, slots, next, hw, hw', hturn⟩
    · exact .leaving ht'
    · cases hturn
      refine .done ?_
      rw [hw']
      simp
  | done ht =>
    rcases hstep.stays_or_turns ht with ht' | ⟨before, after, slots, next, hw, hw', hturn⟩
    · exact .done ht'
    · cases hturn with
      | finish => exact .returned List.mem_cons_self
      | cancel =>
        obtain ⟨names, hs⟩ := hrun.sound
        refine .dropped ⟨_, (hs.tasks _ ht).1⟩ (fun p hp hid => ?_) fun j e' outcome' he => ?_
        · rw [hw', Option.toList_none, List.map_nil, List.append_nil] at hp
          exact hrun.tidy.ne_callId hw hp hid rfl
        · exact (hrun.over he).1 _ ht rfl
  | returned he => exact .returned (List.mem_append_right _ he)
  | dropped ha ht he =>
    obtain ⟨e', ha⟩ := ha
    refine .dropped ⟨e', ha.mono (List.subset_append_right _ _)⟩ (fun p hp hid => ?_)
      fun j e'' outcome' he' => ?_
    · rcases (hstep.comes hp).callId hid with ⟨q, hq, hid⟩ | ⟨e'', timestamp, hasked⟩
      · exact ht q hq hid
      · exact hstep.not_asked ⟨e', ha⟩ _ _ _ hasked
    · rcases List.mem_append.1 he' with he' | he'
      · obtain ⟨-, before, after, hw, -⟩ := hstep.of_returned he'
        exact ht _ (World.mem_moved hw) rfl
      · exact he j e'' outcome' he'

theorem Waited.follows (hw : Waited net Arrives h w i e id result) :
    Follows h w i e id result := by
  obtain ⟨h₁, w₁, wt, hrun, hleads, ht⟩ := hw
  induction hleads with
  | refl => exact .leaving ht
  | step hleads hstep ih => exact ih.step (hleads.run hrun) hstep

/-- **What a call returns whose wait has ended**: what the result of the wait is worth. -/
theorem Waited.eq_of_returned (hw : Waited net Arrives h w i e id result)
    (hrun : Run net Arrives h w) (he : .returned i e' id outcome ∈ h) :
    outcome = .ofExcept (Call.ofWait result).1 := by
  obtain ⟨hover, honce⟩ := hrun.over he
  cases hw.follows with
  | leaving ht => exact absurd rfl (hover _ ht)
  | done ht => exact absurd rfl (hover _ ht)
  | returned he' => exact (honce he').2.2.symm
  | dropped ha ht hnone => exact absurd he (hnone _ _ _)

end KeyCustody.Relay
