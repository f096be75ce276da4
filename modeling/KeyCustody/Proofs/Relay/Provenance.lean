import KeyCustody.Proofs.Relay.Gate
import KeyCustody.Proofs.Relay.Network
import KeyCustody.Proofs.Wire.Payload
/-!
# What holds of every run

Whatever a call returns came to its node in an envelope that passed the gate under the call's
message id. The proof gives every registration of a node the name under which it was opened. Slots
and waiters keep to the registrations of their names, and no channel carries a value that was not
accepted under the name of its registration. Of what was accepted, the history has the envelopes in
which nodes signed it, if nobody forges signatures.

## Main definitions

* `Justified`: an answer that was accepted under a message id.
* `SlotsFit`, `Task.Fits`, `Event.Fits`: what holds of the slots, the tasks and the past.
* `Sound`: all of it, for a whole network.

## Main results

* `Turn.fits`, `Step.sound`, `Run.sound`: what holds of every run.
* `Sound.exists_asked`, `Sound.exists_answer`: what nodes accept from each other.
-/

namespace KeyCustody.Relay

open Crypto (SignatureScheme)
open Custody (Dispatcher DispatchError)
open Net (TransportError)
open Node (Log afterRelay)
open Peer (PeerId PeerStore PublicKey Identity)
open Pending (Branch Table WaitError Waiter)
open Wire (Envelope GetRequest GetReply Payload StreamProtocol)

variable {ι : Type} {S : SignatureScheme} {σ : Type} {net : Network ι S σ}
  {Arrives : History ι σ → Bytes → Prop} {h h' : History ι σ} {w w' : World ι} {i j : ι}
  {names names' : List String} {slots slots' : Slots} {id : String} {e : Errand} {r : Nat}
  {answer : Option GetReply} {t : Task}

/-! ### What may be in a slot -/

/-- An answer was accepted under a message id. -/
def Justified (h : History ι σ) (i : ι) (id : String) (answer : Option GetReply) : Prop :=
  ∃ store remote env, .accepted i .response store remote env ∈ h ∧ env.messageId = id ∧
    (replyOf env.payload).1 = answer

/-- A request was put into an envelope. -/
def Asked (h : History ι σ) (i : ι) (e : Errand) (id : String) : Prop :=
  ∃ timestamp, .asked i e id timestamp ∈ h

theorem Justified.mono (hsub : h ⊆ h') (hj : Justified h i id answer) :
    Justified h' i id answer := by
  obtain ⟨store, remote, env, henv, hid, hanswer⟩ := hj
  exact ⟨store, remote, env, hsub henv, hid, hanswer⟩

theorem Asked.mono (hsub : h ⊆ h') (ha : Asked h i e id) : Asked h' i e id := by
  obtain ⟨timestamp, ha⟩ := ha
  exact ⟨timestamp, hsub ha⟩

theorem getElem?_of_prefix (hp : names <+: names') (hr : names[r]? = some id) :
    names'[r]? = some id := by
  obtain ⟨more, rfl⟩ := hp
  rw [List.getElem?_append_left (List.getElem?_eq_some_iff.1 hr).1, hr]

/-- The slots of a node fit the names of its registrations: a slot belongs to a registration of its
id, and a channel carries nothing but an answer that was accepted under the name. -/
structure SlotsFit (h : History ι σ) (i : ι) (names : List String) (slots : Slots) : Prop where
  length : slots.channels.length = names.length
  owns {id : String} {r : Nat} (ho : slots.Owns id r) : names[r]? = some id
  carries {r : Nat} {answer : Option GetReply} (hc : slots.Carries r answer) :
    ∃ id, names[r]? = some id ∧ Justified h i id answer

namespace SlotsFit

theorem empty : SlotsFit h i [] Table.empty := by
  refine ⟨rfl, ?_, ?_⟩
  · rintro id r ⟨s, hs, -⟩
    cases hs
  · rintro r answer ⟨c, hc, -⟩
    cases hc

theorem mono (hf : SlotsFit h i names slots) (hsub : h ⊆ h') : SlotsFit h' i names slots := by
  refine ⟨hf.length, hf.owns, fun hc => ?_⟩
  obtain ⟨id, hid, hj⟩ := hf.carries hc
  exact ⟨id, hid, hj.mono hsub⟩

/-- Slots with nothing new in them fit. -/
theorem of_less (hf : SlotsFit h i names slots)
    (hlength : slots'.channels.length = slots.channels.length)
    (howns : ∀ {id r}, slots'.Owns id r → slots.Owns id r)
    (hcarries : ∀ {r answer}, slots'.Carries r answer → slots.Carries r answer) :
    SlotsFit h i names slots' :=
  ⟨hlength.trans hf.length, fun ho => hf.owns (howns ho), fun hc => hf.carries (hcarries hc)⟩

theorem remove (hf : SlotsFit h i names slots) (id : String) :
    SlotsFit h i names (slots.remove id) :=
  hf.of_less (Table.length_remove slots id) (fun ho => (Table.owns_of_remove ho).1)
    Table.carries_of_remove

theorem dropReceiver (hf : SlotsFit h i names slots) (r : Nat) :
    SlotsFit h i names (slots.dropReceiver r) :=
  hf.of_less (Table.length_dropReceiver slots r) Table.owns_of_dropReceiver
    Table.carries_of_dropReceiver

theorem leave (hf : SlotsFit h i names slots) (w : Waiter) : SlotsFit h i names (w.leave slots) :=
  (hf.remove w.id).dropReceiver w.registration

/-- A registration has the name of its slot. -/
theorem insert (hf : SlotsFit h i names slots) (id : String) :
    SlotsFit h i (names ++ [id]) (slots.insert id) := by
  refine ⟨by simp [hf.length], fun ho => ?_, fun hc => ?_⟩
  · rcases Table.owns_of_insert ho with ho | ⟨rfl, rfl⟩
    · exact getElem?_of_prefix (List.prefix_append _ _) (hf.owns ho)
    · rw [hf.length, List.getElem?_concat_length]
  · obtain ⟨id', hid', hj⟩ := hf.carries (Table.carries_of_insert hc)
    exact ⟨id', getElem?_of_prefix (List.prefix_append _ _) hid', hj⟩

/-- An answer that was accepted may be sent. -/
theorem send (hf : SlotsFit h i names slots) (hr : names[r]? = some id)
    (hj : Justified h i id answer) : SlotsFit h i names (slots.send r answer).1 := by
  refine ⟨by simp [hf.length], fun ho => hf.owns (Table.owns_of_send ho), fun hc => ?_⟩
  rcases Table.carries_of_send hc with hc | ⟨rfl, rfl⟩
  · exact hf.carries hc
  · exact ⟨id, hr, hj⟩

/-- What a channel carries was accepted under the name of its registration. -/
theorem justified (hf : SlotsFit h i names slots) (hr : names[r]? = some id)
    (hc : slots.Carries r answer) : Justified h i id answer := by
  obtain ⟨id', hid', hj⟩ := hf.carries hc
  rw [hr] at hid'
  rwa [Option.some.inj hid']

end SlotsFit

/-! ### What holds of tasks and of the past -/

/-- A call keeps to its message id, and has nothing but what was accepted under it. -/
def Call.Fits (h : History ι σ) (i : ι) (names : List String)
    (id : String) : Call → Prop
  | .sending s => s.messageId = id
  | .waiting w => w.id = id ∧ names[w.registration]? = some id
  | .done (.value reply) => Justified h i id (some reply)
  | .done _ => True

/-- A task keeps to the message id of its envelope, and has nothing but what was accepted under
it. -/
def Task.Fits (h : History ι σ) (i : ι) (names : List String) : Task → Prop
  | .ready _ => True
  | .calling e id c => Asked h i e id ∧ c.Fits h i names id
  | .relayed e id => Asked h i e id
  | .leaving e id _ result => Asked h i e id ∧ ∀ a, result = .ok a → Justified h i id a
  | .handling protocol env => ∃ store remote, .accepted i protocol store remote env ∈ h
  | .filling r answer => ∃ id, names[r]? = some id ∧ Justified h i id answer

/-- What happened had its reasons. -/
def Event.Fits (S : SignatureScheme) (Arrives : History ι σ → Bytes → Prop) (h : History ι σ) :
    Event ι σ → Prop
  | .asked .. => True
  | .accepted _ protocol store remote env =>
    ∃ h₀ data, h₀ ⊆ h ∧ Arrives h₀ data ∧ Admitted S store protocol remote data env
  | .served i env _ _ => ∃ store remote, .accepted i .request store remote env ∈ h
  | .returned i e id outcome =>
    Asked h i e id ∧ ∀ reply, outcome = .value reply → Justified h i id (some reply)

theorem Call.Fits.mono {c : Call} (hc : c.Fits h i names id) (hsub : h ⊆ h')
    (hp : names <+: names') : c.Fits h' i names' id := by
  match c, hc with
  | .sending _, hc => exact hc
  | .waiting _, ⟨hid, hr⟩ => exact ⟨hid, getElem?_of_prefix hp hr⟩
  | .done (.value _), hc => exact Justified.mono hsub hc
  | .done (.failure _), _ => trivial
  | .done (.breakdown _), _ => trivial

theorem Task.Fits.mono (ht : t.Fits h i names) (hsub : h ⊆ h') (hp : names <+: names') :
    t.Fits h' i names' := by
  match t, ht with
  | .ready _, _ => trivial
  | .calling _ _ _, ⟨ha, hc⟩ => exact ⟨ha.mono hsub, hc.mono hsub hp⟩
  | .relayed _ _, ha => exact Asked.mono hsub ha
  | .leaving _ _ _ _, ⟨ha, hj⟩ => exact ⟨ha.mono hsub, fun a hr => (hj a hr).mono hsub⟩
  | .handling _ _, ⟨store, remote, he⟩ => exact ⟨store, remote, hsub he⟩
  | .filling _ _, ⟨id, hr, hj⟩ => exact ⟨id, getElem?_of_prefix hp hr, hj.mono hsub⟩

theorem Event.Fits.mono {event : Event ι σ} (he : event.Fits S Arrives h) (hsub : h ⊆ h') :
    event.Fits S Arrives h' := by
  match event, he with
  | .asked .., _ => trivial
  | .accepted .., ⟨h₀, data, hle, ha, hadmitted⟩ =>
    exact ⟨h₀, data, fun _ he => hsub (hle he), ha, hadmitted⟩
  | .served .., ⟨store, remote, he⟩ => exact ⟨store, remote, hsub he⟩
  | .returned .., ⟨ha, hj⟩ => exact ⟨ha.mono hsub, fun reply hr => (hj reply hr).mono hsub⟩

/-! ### Turns -/

/-- The start of a relayed request leaves the slots as they are, or registers the request and may
give it up at once. -/
theorem start_cases {own : Identity S} {store : PeerStore} {settings : Settings}
    {request : GetRequest} {now : Nat} {timestamp : UInt64} {c : Call}
    (hc : Call.start own store settings request id now timestamp slots = (slots', c)) :
    (∃ err, c = .done (.failure err) ∧ (slots' = slots ∨ slots' = (slots.insert id).remove id)) ∨
      ∃ s, c = .sending s ∧ s.messageId = id ∧ slots' = slots.insert id := by
  unfold Call.start Sending.start at hc
  split at hc
  · rename_i slots₁ s hs
    obtain ⟨rfl, rfl⟩ := Prod.mk.inj hc
    refine .inr ⟨s, rfl, ?_⟩
    split at hs
    · cases hs
    · split_ifs at hs with hempty
      · cases hs
      · split at hs
        · cases hs
        · simp only at hs
          split_ifs at hs with hleft
          · cases hs
          · obtain ⟨rfl, hsending⟩ := Prod.mk.inj hs
            obtain rfl := Except.ok.inj hsending
            exact ⟨rfl, rfl⟩
  · rename_i slots₁ err hs
    obtain ⟨rfl, rfl⟩ := Prod.mk.inj hc
    refine .inl ⟨err, rfl, ?_⟩
    split at hs
    · exact .inl (Prod.mk.inj hs).1.symm
    · split_ifs at hs with hempty
      · exact .inl (Prod.mk.inj hs).1.symm
      · split at hs
        · exact .inr (Prod.mk.inj hs).1.symm
        · simp only at hs
          split_ifs at hs with hleft
          · exact .inr (Prod.mk.inj hs).1.symm
          · cases (Prod.mk.inj hs).2

/-- An attempt leaves the slots as they are, unless it is the last one and fails. -/
theorem onSent_cases {s : Sending} {outcome : Except TransportError Unit} {p : Sending.Progress}
    {log : Log} (hp : s.onSent outcome slots = (slots', p, log)) :
    (p = .taken ∧ slots' = slots) ∨
      (∃ s', p = .again s' ∧ s'.messageId = s.messageId ∧ slots' = slots) ∨
      ∃ err, p = .failed err ∧ slots' = slots.remove s.messageId := by
  unfold Sending.onSent at hp
  cases outcome with
  | ok u =>
    simp only [Prod.mk.injEq] at hp
    exact .inl ⟨hp.2.1.symm, hp.1.symm⟩
  | error err =>
    simp only at hp
    split_ifs at hp with hleft
    · obtain ⟨hslots, hp, -⟩ := Prod.mk.inj hp |>.imp id Prod.mk.inj
      exact .inr (.inr ⟨_, hp.symm, hslots.symm⟩)
    · obtain ⟨hslots, hp, -⟩ := Prod.mk.inj hp |>.imp id Prod.mk.inj
      exact .inr (.inl ⟨_, hp.symm, rfl, hslots.symm⟩)

/-- A call that begins to wait has the receiving end of its slot. -/
theorem await_fits {settings : Settings} {now : Nat} {c : Call}
    (hf : SlotsFit h i names slots) (hc : Call.await settings id now slots = (slots', c)) :
    SlotsFit h i names slots' ∧ c.Fits h i names id := by
  have hslots : SlotsFit h i names
      (Waiter.begin slots id settings.poll settings.timeout now).1 :=
    hf.of_less Waiter.length_begin Waiter.owns_of_begin Waiter.carries_of_begin
  unfold Call.await at hc
  split at hc
  · rename_i slots₁ w hb
    obtain ⟨rfl, rfl⟩ := Prod.mk.inj hc
    obtain ⟨hid, ho⟩ := Waiter.owns_of_begin_eq_value (congrArg Prod.snd hb)
    rw [hb] at hslots
    exact ⟨hslots, hid, hf.owns ho⟩
  · rename_i slots₁ err hb
    obtain ⟨rfl, rfl⟩ := Prod.mk.inj hc
    rw [hb] at hslots
    exact ⟨hslots, trivial⟩
  · rename_i slots₁ b hb
    obtain ⟨rfl, rfl⟩ := Prod.mk.inj hc
    rw [hb] at hslots
    exact ⟨hslots, trivial⟩

/-- The reply of a call is the answer of its wait. -/
theorem ofWait_fits {result : Except WaitError (Option GetReply)}
    (hj : ∀ a, result = .ok a → Justified h i id a) :
    (Call.done (.ofExcept (Call.ofWait result).1)).Fits h i names id := by
  match result, hj with
  | .ok (some reply), hj => exact hj (some reply) rfl
  | .ok none, _ => trivial
  | .error .unknown, _ => trivial
  | .error .timeout, _ => trivial

/-- **A turn keeps slots and tasks fitting**, with names for the registrations that it makes. -/
theorem Turn.fits {store : PeerStore} {next : Option Task} {es : List (Event ι σ)}
    (ht : Turn net h i store slots t slots' next es) (hf : SlotsFit h i names slots)
    (hfit : t.Fits h i names) :
    ∃ names', names <+: names' ∧ SlotsFit (es ++ h) i names' slots' ∧
      (∀ t' ∈ next, t'.Fits (es ++ h) i names') ∧ ∀ event ∈ es, event.Fits S Arrives (es ++ h) := by
  have hkeep : ∀ event : Event ι σ, h ⊆ [event] ++ h := fun event => List.subset_append_right _ _
  cases ht with
  | @start e id now timestamp fresh slots' c hc =>
    have hsub := hkeep (.asked i e id timestamp)
    have hasked : Asked ([.asked i e id timestamp] ++ h) i e id :=
      ⟨timestamp, List.mem_cons_self⟩
    have hevents : ∀ event ∈ [Event.asked i e id timestamp],
        event.Fits S Arrives ([.asked i e id timestamp] ++ h) := by
      simp [Event.Fits]
    rcases start_cases hc with ⟨err, rfl, rfl | rfl⟩ | ⟨s, rfl, hs, rfl⟩
    · exact ⟨names, List.prefix_rfl, hf.mono hsub, by simpa [Task.Fits, Call.Fits] using hasked,
        hevents⟩
    · exact ⟨names ++ [id], List.prefix_append _ _, ((hf.insert id).remove id).mono hsub,
        by simpa [Task.Fits, Call.Fits] using hasked, hevents⟩
    · exact ⟨names ++ [id], List.prefix_append _ _, (hf.insert id).mono hsub,
        by simpa [Task.Fits, Call.Fits, hs] using hasked, hevents⟩
  | @sent e id s outcome slots' p log hp =>
    obtain ⟨ha, hs⟩ := hfit
    rcases onSent_cases hp with ⟨rfl, rfl⟩ | ⟨s', rfl, hs', rfl⟩ | ⟨err, rfl, rfl⟩
    · exact ⟨names, List.prefix_rfl, hf, by simpa [Task.ofProgress, Task.Fits] using ha, by simp⟩
    · refine ⟨names, List.prefix_rfl, hf, ?_, by simp⟩
      simpa [Task.ofProgress, Task.Fits, Call.Fits] using ⟨ha, hs'.trans hs⟩
    · exact ⟨names, List.prefix_rfl, hf.remove _,
        by simpa [Task.ofProgress, Task.Fits, Call.Fits] using ha, by simp⟩
  | await now hc =>
    obtain ⟨hslots, hfits⟩ := await_fits hf hc
    exact ⟨names, List.prefix_rfl, hslots, by simpa [Task.Fits] using ⟨hfit, hfits⟩, by simp⟩
  | stay now ready hw =>
    obtain ⟨ha, hid, hr⟩ := hfit
    obtain ⟨hid', hr', -⟩ := Waiter.same_of_choose hw
    refine ⟨names, List.prefix_rfl, hf, ?_, by simp⟩
    simpa [Task.Fits, Call.Fits, hid', hr'] using ⟨ha, hid, hr⟩
  | choose now ready hr =>
    obtain ⟨ha, hid, hreg⟩ := hfit
    refine ⟨names, List.prefix_rfl, hf, ?_, by simp⟩
    rintro t' ⟨⟩
    refine ⟨ha, fun a hresult => ?_⟩
    subst hresult
    exact hf.justified hreg (Waiter.carries_of_choose hr)
  | leave =>
    obtain ⟨ha, hj⟩ := hfit
    refine ⟨names, List.prefix_rfl, hf.leave _, ?_, by simp⟩
    rintro t' ⟨⟩
    exact ⟨ha, ofWait_fits hj⟩
  | @finish e id outcome =>
    obtain ⟨ha, hj⟩ := hfit
    have hsub := hkeep (.returned i e id outcome)
    refine ⟨names, List.prefix_rfl, hf.mono hsub, by simp, ?_⟩
    rintro event hevent
    obtain rfl := List.mem_singleton.1 hevent
    refine ⟨ha.mono hsub, fun reply hr => ?_⟩
    subst hr
    exact Justified.mono hsub hj
  | @cancel e id c =>
    refine ⟨names, List.prefix_rfl, ?_, by simp, by simp⟩
    cases c with
    | waiting w => exact hf.dropReceiver w.registration
    | sending s => exact hf
    | done outcome => exact hf
  | @serve env timestamp seen =>
    have hsub := hkeep (.served i env timestamp seen)
    obtain ⟨store', remote, he⟩ := hfit
    refine ⟨names, List.prefix_rfl, hf.mono hsub, by simp, ?_⟩
    rintro event hevent
    obtain rfl := List.mem_singleton.1 hevent
    exact ⟨store', remote, hsub he⟩
  | @take env slots' r? hs =>
    obtain ⟨store', remote, he⟩ := hfit
    have hslots : SlotsFit h i names (slots.takeSender env.messageId).1 :=
      hf.of_less (Table.length_takeSender _ _) Table.owns_of_takeSender Table.carries_of_takeSender
    refine ⟨names, List.prefix_rfl, by rwa [hs] at hslots, ?_, by simp⟩
    intro t' ht'
    obtain ⟨r, rfl, rfl⟩ := Option.map_eq_some_iff.1 ht'
    have howns := hf.owns (Table.owns_of_takeSender_eq_some (congrArg Prod.snd hs))
    exact ⟨env.messageId, howns, store', remote, env, he, rfl, rfl⟩
  | fill =>
    obtain ⟨id, hr, hj⟩ := hfit
    exact ⟨names, List.prefix_rfl, hf.send hr hj, by simp, by simp⟩

/-- A turn that puts a request into an envelope does nothing else, and uses a fresh message id. -/
theorem Turn.fresh {store : PeerStore} {next : Option Task} {es : List (Event ι σ)}
    {timestamp : UInt64} (ht : Turn net h i store slots t slots' next es)
    (ha : .asked j e id timestamp ∈ es) :
    es = [.asked j e id timestamp] ∧ ∀ k e' t', .asked k e' id t' ∉ h := by
  cases ht with
  | start now timestamp' fresh hc =>
    have := List.mem_singleton.1 ha
    cases this
    exact ⟨rfl, fresh⟩
  | finish => cases List.mem_singleton.1 ha
  | serve => cases List.mem_singleton.1 ha
  | _ => cases ha

/-! ### Networks -/

/-- No message id was used twice. -/
def IdsUnique (h : History ι σ) : Prop :=
  ∀ i e id t j e' t', .asked i e id t ∈ h → .asked j e' id t' ∈ h → i = j ∧ e = e' ∧ t = t'

/-- What holds of a network: its slots and its tasks fit, and what happened had its reasons. -/
structure Sound (S : SignatureScheme) (Arrives : History ι σ → Bytes → Prop) (h : History ι σ)
    (w : World ι) (names : ι → List String) : Prop where
  slots (i : ι) : SlotsFit h i (names i) (w.slots i)
  tasks : ∀ p ∈ w.tasks, p.2.Fits h p.1 (names p.1)
  events : ∀ event ∈ h, event.Fits S Arrives h
  ids : IdsUnique h

theorem IdsUnique.append {es : List (Event ι σ)} (hu : IdsUnique h)
    (hes : ∀ i e id t, .asked i e id t ∈ es →
      es = [.asked i e id t] ∧ ∀ k e' t', .asked k e' id t' ∉ h) : IdsUnique (es ++ h) := by
  intro i e id t j e' t' hi hj
  rcases List.mem_append.1 hi with hi | hi <;> rcases List.mem_append.1 hj with hj | hj
  · obtain ⟨rfl, -⟩ := hes i e id t hi
    cases List.mem_singleton.1 hj
    exact ⟨rfl, rfl, rfl⟩
  · exact absurd hj ((hes i e id t hi).2 j e' t')
  · exact absurd hi ((hes j e' id t' hj).2 i e t)
  · exact hu i e id t j e' t' hi hj

theorem Justified.exists_accepted {reply : GetReply} (hj : Justified h i id (some reply)) :
    ∃ store remote env, .accepted i .response store remote env ∈ h ∧ env.messageId = id ∧
      Payload.decode env.payload = .ok reply := by
  obtain ⟨store, remote, env, he, hid, hreply⟩ := hj
  exact ⟨store, remote, env, he, hid, replyOf_eq_some.1 hreply⟩

/-- What was accepted met the conditions of the gate. -/
theorem Sound.exists_admitted {names : ι → List String} {protocol : StreamProtocol}
    {store : PeerStore} {remote : PeerId} {env : Envelope} (hs : Sound S Arrives h w names)
    (he : .accepted i protocol store remote env ∈ h) :
    ∃ h₀ data, h₀ ⊆ h ∧ Arrives h₀ data ∧ Admitted S store protocol remote data env :=
  hs.events _ he

/-! ### Signatures -/

theorem Signed.mono {env : Envelope} (hs : Signed net h j env) (hsub : h ⊆ h') :
    Signed net h' j env := by
  cases hs with
  | request he => exact .request (hsub he)
  | answer he ha => exact .answer (hsub he) ha

/-- What a node signed names the node. -/
theorem Signed.nodeId_eq {env : Envelope} (hs : Signed net h j env) :
    env.nodeId = (net.identity j).peerId.toText := by
  cases hs with
  | request he => rfl
  | answer he ha =>
    obtain ⟨request, reply, -, -, -, -, rfl⟩ := ha
    rfl

/-- **An envelope that was accepted was signed by the node that it names**, if nobody forges
signatures. -/
theorem Sound.exists_signed {names : ι → List String} {protocol : StreamProtocol}
    {store : PeerStore} {remote : PeerId} {env : Envelope}
    (hs : Sound S (Unforged net) h w names) (he : .accepted i protocol store remote env ∈ h) :
    ∃ j env', Signed net h j env' ∧ env'.cleared = env.cleared ∧
      (net.identity j).peerId = remote := by
  obtain ⟨h₀, data, hsub, hunforged, hadmitted⟩ := hs.exists_admitted he
  obtain ⟨record, key, hrecord, hsigned⟩ := hadmitted.signed
  obtain ⟨j, env', hkey, henv', hbytes⟩ := hunforged env key hadmitted.decodes
    (verify_eq_true.2 ⟨hsigned.signature_ne_nil, hsigned.verifies⟩)
  have hcleared := Envelope.eq_of_signingBytes hadmitted.decodes hbytes.symm
  refine ⟨j, env', henv'.mono hsub, hcleared.symm, ?_⟩
  have hname : env.nodeId = (net.identity j).peerId.toText := by
    rw [← henv'.nodeId_eq, ← Envelope.nodeId_cleared, hcleared, Envelope.nodeId_cleared]
  have hremote := hadmitted.sender
  rw [hname, PeerId.ofText?_toText] at hremote
  exact Option.some.inj hremote

/-- A request that was accepted is one that a node asked. -/
theorem Sound.exists_asked {names : ι → List String} {store : PeerStore} {remote : PeerId}
    {env : Envelope} (hs : Sound S (Unforged net) h w names)
    (he : .accepted i .request store remote env ∈ h) :
    ∃ j e timestamp, .asked j e env.messageId timestamp ∈ h ∧
      env.payload = Payload.encode e.request := by
  obtain ⟨h₀, data, -, -, hadmitted⟩ := hs.exists_admitted he
  obtain ⟨j, env', hsigned, hcleared, -⟩ := hs.exists_signed he
  have hkind := congrArg Envelope.kind hcleared
  have hid := congrArg Envelope.messageId hcleared
  have hpayload := congrArg Envelope.payload hcleared
  simp only [Envelope.kind_cleared, Envelope.messageId_cleared, Envelope.payload_cleared] at *
  cases hsigned with
  | @request e id timestamp hasked =>
    refine ⟨j, e, timestamp, ?_, hpayload.symm⟩
    rw [← hid]
    exact hasked
  | answer hserved ha =>
    obtain ⟨request, reply, -, -, -, -, rfl⟩ := ha
    have := hadmitted.kind
    rw [← hkind] at this
    rcases this with this | this <;> cases this

/-- An answer that was accepted is one that a node gave. -/
theorem Sound.exists_answer {names : ι → List String} {store : PeerStore} {remote : PeerId}
    {answer : Envelope} (hs : Sound S (Unforged net) h w names)
    (he : .accepted i .response store remote answer ∈ h) :
    ∃ j env timestamp seen answer', .served j env timestamp seen ∈ h ∧
      Answers net j env timestamp seen answer' ∧ answer'.cleared = answer.cleared ∧
      (net.identity j).peerId = remote := by
  obtain ⟨h₀, data, -, -, hadmitted⟩ := hs.exists_admitted he
  obtain ⟨j, answer', hsigned, hcleared, hremote⟩ := hs.exists_signed he
  have hkind := congrArg Envelope.kind hcleared
  simp only [Envelope.kind_cleared] at hkind
  cases hsigned with
  | request hasked =>
    have := hadmitted.kind
    rw [← hkind] at this
    cases this
  | @answer env _ timestamp seen hserved ha =>
    exact ⟨j, env, timestamp, seen, answer', hserved, ha, hcleared, hremote⟩

/-! ### Whole runs -/

variable [DecidableEq ι]

/-- **A step keeps a network sound.** -/
theorem Step.sound {names : ι → List String} {es : List (Event ι σ)}
    (hstep : Step net Arrives h w es w') (hs : Sound S Arrives h w names) :
    ∃ names', Sound S Arrives (es ++ h) w' names' := by
  have hsub : h ⊆ es ++ h := List.subset_append_right _ _
  have hold : ∀ event ∈ h, event.Fits S Arrives (es ++ h) := fun event he =>
    (hs.events event he).mono hsub
  -- A new task at the front is all that most steps add.
  have hfront : ∀ {i : ι} {t : Task}, t.Fits (es ++ h) i (names i) →
      ∀ p ∈ (i, t) :: w.tasks, p.2.Fits (es ++ h) p.1 (names p.1) := by
    intro i t ht p hp
    rcases List.mem_cons.1 hp with rfl | hp
    · exact ht
    · exact (hs.tasks p hp).mono hsub List.prefix_rfl
  cases hstep with
  | @turn i t before after slots' next es hw ht =>
    have hfit := hs.tasks (i, t) (by rw [hw]; simp)
    obtain ⟨names', hp, hslots, hnext, hevents⟩ := ht.fits (hs.slots i) hfit
    have hnames : ∀ j, names j <+: Function.update names i names' j := by
      intro j
      by_cases hj : j = i
      · subst hj
        simpa using hp
      · simp [Function.update_of_ne hj]
    refine ⟨Function.update names i names', fun j => ?_, fun p hp => ?_, fun event he => ?_,
      hs.ids.append fun j e id t' he => ht.fresh he⟩
    · by_cases hj : j = i
      · subst hj
        simpa using hslots
      · simpa [Function.update_of_ne hj] using (hs.slots j).mono hsub
    · have hother : p ∈ w.tasks → p.2.Fits (es ++ h) p.1 (Function.update names i names' p.1) :=
        fun hp => (hs.tasks p hp).mono hsub (hnames p.1)
      simp only [List.mem_append, List.mem_map] at hp
      rcases hp with (hp | ⟨t', ht', rfl⟩) | hp
      · exact hother (by rw [hw]; simp [hp])
      · simpa using hnext t' (by simpa using ht')
      · exact hother (by rw [hw]; simp [hp])
    · rcases List.mem_append.1 he with he | he
      · exact hevents event he
      · exact hold event he
  | ask i request settings =>
    exact ⟨names, fun j => (hs.slots j).mono hsub, hfront trivial, hold, hs.ids⟩
  | lookUp hn =>
    exact ⟨names, fun j => (hs.slots j).mono hsub, hfront trivial, hold, hs.ids⟩
  | @arrive i protocol remote data env ha hi =>
    refine ⟨names, fun j => (hs.slots j).mono hsub,
      hfront ⟨w.store i, remote, List.mem_cons_self⟩, fun event he => ?_,
      hs.ids.append fun j e id t he => ?_⟩
    · rcases List.mem_append.1 he with he | he
      · obtain rfl := List.mem_singleton.1 he
        exact ⟨h, data, hsub, ha, inspect_eq_ok.1 hi⟩
      · exact hold event he
    · cases List.mem_singleton.1 he
  | learn i store =>
    exact ⟨names, fun j => (hs.slots j).mono hsub,
      fun p hp => (hs.tasks p hp).mono hsub List.prefix_rfl, hold, hs.ids⟩

/-- **Every run is sound.** -/
theorem Run.sound (hrun : Run net Arrives h w) : ∃ names, Sound S Arrives h w names := by
  induction hrun with
  | begin store =>
    refine ⟨fun _ => [], fun i => SlotsFit.empty, ?_, ?_, ?_⟩
    · simp
    · simp
    · intro i e id t j e' t' hi
      cases hi
  | step hrun hstep ih =>
    obtain ⟨names, hs⟩ := ih
    exact hstep.sound hs

end KeyCustody.Relay
