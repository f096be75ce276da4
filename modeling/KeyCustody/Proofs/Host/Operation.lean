import KeyCustody.Proofs.Host.Flight
import KeyCustody.Proofs.Host.Frames
/-!
# A host in operation

Commands and events come to a host in any order. The swarm below keeps what it promises: it knows
which peers are connected, it says that a dial is under way just if the peer is connected or being
dialed, and a dial that it started ends with a connection or with a failure. Every frame that goes
out has a number of its own among those of its protocol, and ends with an answer or without one.

What a host keeps then fits what it did: its waiters are those of commands that came, and its frames
are in flight.

## Main definitions

* `Deed`: what a host did on a command or on an event.
* `Deeds.given`, `Deeds.sent`, `Deeds.replies`, `Deeds.dropped`: what came in and what went out.
* `Deeds.inFlight`: the frames in flight.
* `Operation`, `Operation.Step`, `Operation.Run`: a host with what the swarm is at work on.
* `Operation.Sound`: what holds of a host and of what it did.

## Main results

* `Operation.Step.host_cases`: what a host does in a step.
* `Operation.Sound.step`, `Operation.Run.sound`: one step keeps it, and so does a run.
* `Operation.Run.exists_step`: a deed of a run is a step of it.
-/

namespace KeyCustody.Host

open Net (Multiaddr TransportError)
open Peer (PeerId PeerStore)
open Wire (StreamProtocol acknowledgement)

variable {ρ : Type}

/-! ### Operation -/

/-- What a host did on a command or on an event. -/
structure Deed (ρ : Type) where
  cause : Command ρ ⊕ Event
  /-- The frames that it sent, with their handles. -/
  sent : List (Sent ρ)
  effects : List (Effect ρ)

/-- The number of the frame that ended. -/
def Deed.ended? (d : Deed ρ) : Option (StreamProtocol × Nat) :=
  d.cause.getRight?.bind Event.ended?

/-- The replies. -/
def Deed.replies (d : Deed ρ) : List (ρ × Except TransportError Unit) :=
  Host.replies d.effects

/-- The handles that were thrown away. -/
def Deed.dropped (d : Deed ρ) : List ρ :=
  Host.dropped d.effects

/-- What a host did, the oldest deed first. -/
abbrev Deeds (ρ : Type) := List (Deed ρ)

/-- The commands that came. -/
def Deeds.given (ds : Deeds ρ) : List (Command ρ) :=
  ds.filterMap fun d => d.cause.getLeft?

/-- The frames that went out. -/
def Deeds.sent (ds : Deeds ρ) : List (Sent ρ) :=
  ds.flatMap Deed.sent

/-- The replies. -/
def Deeds.replies (ds : Deeds ρ) : List (ρ × Except TransportError Unit) :=
  ds.flatMap Deed.replies

/-- The handles that were thrown away. -/
def Deeds.dropped (ds : Deeds ρ) : List ρ :=
  ds.flatMap Deed.dropped

/-- The frames in flight: they went out and have not ended. -/
def Deeds.inFlight (ds : Deeds ρ) : Set (Sent ρ) :=
  {x | x ∈ ds.sent ∧ ∀ d ∈ ds, d.ended? ≠ some x.number}

/-- A host in operation, with what the swarm below it is at work on. -/
structure Operation (ρ : Type) where
  host : Machine ρ
  /-- How many connections to each peer are open. -/
  links : PeerId → Nat
  /-- The peers that are being dialed. -/
  dialing : Set PeerId

namespace Operation

/-- A host at its start. -/
def start (rendezvous : String) (low high grace room : Nat) (hasHandler : Bool) : Operation ρ where
  host := Machine.start rendezvous low high grace room hasHandler
  links _ := 0
  dialing := ∅

/-- The host handles a command or an event after what it did so far, while the swarm keeps what it
promises: only frames in flight end. What the peer store has is left open. -/
inductive Step (ds : Deeds ρ) (w : Operation ρ) : Deed ρ → Operation ρ → Prop
  | command (c : Command ρ) (dial : PeerId → List Multiaddr → DialAnswer) (store : PeerStore)
      (now : Nat) (hdial : KeepsWatch dial w.links w.dialing) {r : Machine ρ × List (Effect ρ)}
      (hr : r = w.host.onCommand (swarmOf w.links dial) store now c) :
      Step ds w ⟨.inl c, w.host.issued (swarmOf w.links dial) (.inl c), r.2⟩
        { w with host := r.1, dialing := w.dialing ∪ dialedBy r.2 }
  | event (e : Event) (dial : PeerId → List Multiaddr → DialAnswer) (store : PeerStore) (now : Nat)
      (hfits : e.Fits w.links) {dialing : Set PeerId} (hdialing : e.Dials w.dialing dialing)
      (hended : ∀ n, e.ended? = some n → ∃ x ∈ ds.inFlight, x.number = n)
      {r : Machine ρ × List (Effect ρ)}
      (hr : r = ((w.host.onEvent (swarmOf (e.links w.links) dial) store now e).1,
        (w.host.onEvent (swarmOf (e.links w.links) dial) store now e).2.2.2)) :
      Step ds w ⟨.inr e, w.host.issued (swarmOf (e.links w.links) dial) (.inr e), r.2⟩
        { host := r.1, links := e.links w.links, dialing }

/-- What a host did from its start. -/
inductive Run : Deeds ρ → Operation ρ → Prop
  | start (rendezvous : String) (low high grace room : Nat) (hasHandler : Bool) :
      Run [] (.start rendezvous low high grace room hasHandler)
  | step {ds : Deeds ρ} {w w' : Operation ρ} {d : Deed ρ} (hrun : Run ds w)
      (hstep : Step ds w d w') : Run (ds ++ [d]) w'

/-! ### What holds in operation -/

variable {ds : Deeds ρ} {d : Deed ρ} {w w' : Operation ρ} {c : Command ρ} {e : Event}
  {r : Machine ρ × List (Effect ρ)}

/-- What holds of a host in operation and of what it did. -/
structure Sound (ds : Deeds ρ) (w : Operation ρ) : Prop where
  tidy : w.host.Tidy
  perm : (ds.given.map Command.handle).Perm
    (ds.replies.map Prod.fst ++ ds.dropped ++ (w.host.parked ++ w.host.awaited))
  serves : w.host.Serves (fun p x => ∃ c ∈ ds.given, c.peer = p ∧ c.waiter = x) fun _ => True
  dialed : w.host.Dialed w.links w.dialing
  ordered (p : PeerId) : (sentTo p ds.sent ++ w.host.waitingFor p).Sublist
    (ds.given.filter (Command.isSendTo p))
  ledger : w.host.Ledger ds.sent ds.inFlight ds.dropped
  ended : ∀ d ∈ ds, ∀ n, d.ended? = some n → n ∈ ds.sent.map Sent.number

theorem given_append (ds : Deeds ρ) (d : Deed ρ) :
    Deeds.given (ds ++ [d]) = ds.given ++ d.cause.getLeft?.toList := by
  cases hd : d.cause <;> simp [Deeds.given, hd]

theorem sent_append (ds : Deeds ρ) (d : Deed ρ) : Deeds.sent (ds ++ [d]) = ds.sent ++ d.sent := by
  simp [Deeds.sent]

theorem replies_append (ds : Deeds ρ) (d : Deed ρ) :
    Deeds.replies (ds ++ [d]) = ds.replies ++ d.replies := by
  simp [Deeds.replies]

theorem dropped_append (ds : Deeds ρ) (d : Deed ρ) :
    Deeds.dropped (ds ++ [d]) = ds.dropped ++ d.dropped := by
  simp [Deeds.dropped]

/-- Of the frames in flight one may end, and others go out. -/
theorem inFlight_append (hended : ∀ d' ∈ ds ++ [d], ∀ n, d'.ended? = some n →
      n ∈ ds.sent.map Sent.number) (hnew : ∀ x ∈ d.sent, x.number ∉ ds.sent.map Sent.number) :
    Deeds.inFlight (ds ++ [d]) =
      {x ∈ ds.inFlight | d.ended? ≠ some x.number} ∪ {x | x ∈ d.sent} := by
  ext x
  simp only [Deeds.inFlight, sent_append, Set.mem_union, Set.mem_ofPred_eq, List.mem_append]
  constructor
  · rintro ⟨hx | hx, hall⟩
    · exact .inl ⟨⟨hx, fun d' hd' => hall d' (.inl hd')⟩, hall d (.inr List.mem_cons_self)⟩
    · exact .inr hx
  · rintro (⟨⟨hx, hall⟩, hd⟩ | hx)
    · refine ⟨.inl hx, fun d' hd' => hd'.elim (hall d') fun hd' => ?_⟩
      exact List.mem_singleton.1 hd' ▸ hd
    · refine ⟨.inr hx, fun d' hd' heq => hnew x hx (hended d' ?_ _ heq)⟩
      exact List.mem_append.2 hd'

/-- What comes in is replied to, thrown away or kept beside what was kept. -/
theorem Sound.perm_step (hs : Sound ds w)
    (hkeeps : Machine.Keeps (d.cause.getLeft?.toList.map Command.handle) w.host
      (w'.host, d.effects)) :
    ((Deeds.given (ds ++ [d])).map Command.handle).Perm
      ((Deeds.replies (ds ++ [d])).map Prod.fst ++ Deeds.dropped (ds ++ [d]) ++
        (w'.host.parked ++ w'.host.awaited)) := by
  classical
  refine List.perm_iff_count.2 fun a => ?_
  have hbefore := hs.perm.count_eq a
  have hnew := hkeeps.perm.count_eq a
  simp only [given_append, replies_append, dropped_append, List.map_append, List.count_append,
    Deed.replies, Deed.dropped] at hbefore hnew ⊢
  omega

/-- The frames that go out follow the earlier ones, and those that wait follow them. -/
theorem Sound.ordered_step (hs : Sound ds w) (p : PeerId)
    (hordered : (sentTo p d.sent ++ w'.host.waitingFor p).Sublist
      (w.host.waitingFor p ++ d.cause.getLeft?.toList.filter (Command.isSendTo p))) :
    (sentTo p (Deeds.sent (ds ++ [d])) ++ w'.host.waitingFor p).Sublist
      ((Deeds.given (ds ++ [d])).filter (Command.isSendTo p)) := by
  rw [sent_append, sentTo_append, List.append_assoc, given_append, List.filter_append]
  refine (hordered.append_left _).trans ?_
  rw [← List.append_assoc]
  exact (hs.ordered p).append_right _

/-- **What a host does in a step**: what it does on a command or on an event. -/
theorem Step.host_cases (hstep : Step ds w d w') :
    (∃ swarm c, d.cause = .inl c ∧
      w.host.CommandCase swarm c d.sent (w'.host, d.effects)) ∨
      ∃ swarm e, d.cause = .inr e ∧ w.host.EventCase swarm e d.sent (w'.host, d.effects) := by
  cases hstep with
  | @command c dial store now hdial r hr =>
    have hcase := w.host.onCommand_cases (swarmOf w.links dial) store now c
    rw [← hr] at hcase
    exact .inl ⟨_, c, rfl, hcase⟩
  | @event e dial store now hfits dialing hdialing hended r hr =>
    have hcase := w.host.onEvent_cases (swarmOf (e.links w.links) dial) store now e
    rw [← hr] at hcase
    exact .inr ⟨_, e, rfl, hcase⟩

/-- Only frames in flight end. -/
theorem Step.ended (hstep : Step ds w d w') :
    ∀ n, d.ended? = some n → ∃ x ∈ ds.inFlight, x.number = n := by
  cases hstep with
  | command c dial store now hdial hr => exact nofun
  | event e dial store now hfits hdialing hended hr => exact hended

/-- Frames that end have gone out before. -/
theorem Sound.ended_step (hs : Sound ds w)
    (hended : ∀ n, d.ended? = some n → ∃ x ∈ ds.inFlight, x.number = n) :
    ∀ d' ∈ ds ++ [d], ∀ n, d'.ended? = some n → n ∈ ds.sent.map Sent.number := by
  intro d' hd' n hn
  rcases List.mem_append.1 hd' with hd' | hd'
  · exact hs.ended d' hd' n hn
  · obtain rfl := List.mem_singleton.1 hd'
    obtain ⟨x, hx, rfl⟩ := hended n hn
    exact List.mem_map_of_mem hx.1

theorem Sound.ledger_step (hs : Sound ds w)
    (hended : ∀ n, d.ended? = some n → ∃ x ∈ ds.inFlight, x.number = n)
    (hledger : w'.host.Ledger (ds.sent ++ d.sent)
      ({x ∈ ds.inFlight | d.ended? ≠ some x.number} ∪ {x | x ∈ d.sent})
      (ds.dropped ++ Host.dropped d.effects)) :
    w'.host.Ledger (Deeds.sent (ds ++ [d])) (Deeds.inFlight (ds ++ [d]))
      (Deeds.dropped (ds ++ [d])) := by
  have hdistinct := hledger.distinct
  rw [List.map_append, List.nodup_append'] at hdistinct
  rw [inFlight_append (hs.ended_step hended) fun x hx hmem =>
    hdistinct.2.2 hmem (List.mem_map_of_mem hx), sent_append, dropped_append]
  exact hledger

/-- A peer that is connected has no commands that wait. -/
theorem Sound.waitingFor_eq_nil (hs : Sound ds w) {dial : PeerId → List Multiaddr → DialAnswer}
    {p : PeerId} (hp : (swarmOf w.links dial).isConnected p = true) :
    w.host.waitingFor p = [] := by
  have hlinks : 0 < w.links p := by simpa [swarmOf] using hp
  by_cases hqueue : w.host.queue p = []
  · rw [Machine.waitingFor, hqueue, List.filterMap_nil]
  · have hzero := (hs.dialed p hqueue).2
    omega

theorem Sound.start (rendezvous : String) (low high grace room : Nat) (hasHandler : Bool) :
    Sound [] (.start rendezvous low high grace room hasHandler : Operation ρ) where
  tidy := ⟨List.nodup_nil, List.nodup_nil⟩
  perm := .refl _
  serves := {
    waiters := fun _ _ hws => nomatch hws
    outbound := fun _ _ _ => trivial }
  dialed _ hp := absurd rfl hp
  ordered _ := .refl _
  ledger := {
    distinct := List.nodup_nil
    below := nofun
    departed := fun _ hx => hx.1
    recorded := nofun
    kept := fun _ hx => absurd hx.1 List.not_mem_nil
    crowded := fun _ hx => absurd hx.1 List.not_mem_nil }
  ended := nofun

/-- What holds of the waiters and of the handles is a matter of the commands that came. -/
theorem Sound.serves_append (hs : Sound ds w) (d : Deed ρ) :
    w.host.Serves (fun p x => ∃ c ∈ Deeds.given (ds ++ [d]), c.peer = p ∧ c.waiter = x)
      fun _ => True := by
  refine hs.serves.mono fun p x ⟨c, hc, hx⟩ => ⟨c, ?_, hx⟩
  rw [given_append]
  exact List.mem_append_left _ hc

/-- **A step keeps what holds in operation.** -/
theorem Sound.step (hs : Sound ds w) (hstep : Step ds w d w') : Sound (ds ++ [d]) w' := by
  have hends := hstep.ended
  have hended : ∀ d' ∈ ds ++ [d], ∀ n, d'.ended? = some n →
      n ∈ (Deeds.sent (ds ++ [d])).map Sent.number := by
    intro d' hd' n hn
    rw [sent_append, List.map_append]
    exact List.mem_append_left _ (hs.ended_step hends d' hd' n hn)
  cases hstep with
  | @command c dial store now hdial r hr =>
    have hcase := w.host.onCommand_cases (swarmOf w.links dial) store now c
    rw [← hr] at hcase
    have hkeeps := hcase.keeps hs.tidy
    exact {
      tidy := hkeeps.tidy
      perm := hs.perm_step hkeeps
      serves := by
        rw [hr]
        refine (hs.serves_append _).onCommand (fun _ _ _ _ _ => trivial) ⟨c, ?_, rfl, rfl⟩ _ _ _
        rw [given_append]
        exact List.mem_append_right _ List.mem_cons_self
      dialed := hcase.dialed hdial hs.dialed
      ordered := fun p => hs.ordered_step p (hcase.ordered hs.waitingFor_eq_nil p)
      ledger := hs.ledger_step hends (by simpa [Deed.ended?] using hcase.ledger hs.ledger)
      ended := hended }
  | @event e dial store now hfits dialing hdialing _ r hr =>
    have hcase := w.host.onEvent_cases (swarmOf (e.links w.links) dial) store now e
    rw [← hr] at hcase
    have hkeeps := hcase.keeps hs.tidy
    exact {
      tidy := hkeeps.tidy
      perm := hs.perm_step hkeeps
      serves := by
        rw [hr]
        exact (hs.serves_append _).onEvent (fun _ _ _ _ _ => trivial) _ _ _ _
      dialed := hcase.dialed hfits hdialing hs.dialed
      ordered := fun p => hs.ordered_step p (by simpa using hcase.ordered p)
      ledger := hs.ledger_step hends (hcase.ledger hs.ledger hends)
      ended := hended }

/-- **A host in operation is sound.** -/
theorem Run.sound (hrun : Run ds w) : Sound ds w := by
  induction hrun with
  | start => exact .start ..
  | step hrun hstep ih => exact ih.step hstep

/-- A deed of a run is a step of it. -/
theorem Run.exists_step (hrun : Run ds w) {before after : Deeds ρ}
    (hds : ds = before ++ d :: after) : ∃ u u', Run before u ∧ Step before u d u' := by
  induction hrun generalizing after with
  | start => simp at hds
  | @step ds u u' d' hrun hstep ih =>
    rcases List.eq_nil_or_concat' after with rfl | ⟨after, d'', rfl⟩
    · obtain ⟨rfl, hd⟩ := List.append_inj' hds rfl
      obtain rfl := List.singleton_inj.1 hd
      exact ⟨u, u', hrun, hstep⟩
    · rw [← List.cons_append, ← List.append_assoc] at hds
      exact ih (List.append_inj' hds rfl).1

end Operation

end KeyCustody.Host
