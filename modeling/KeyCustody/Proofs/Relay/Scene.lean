import KeyCustody.Proofs.Peer.Store
import KeyCustody.Proofs.Pending.Shown
import KeyCustody.Proofs.Relay.Provenance
/-!
# A call and the answer to it

A call sends its request, waits, looks at its slot and leaves it. The answer passes the gate, takes
the sending end out of the slot and sends, in three accesses of its own. They come in any order, so
that the answer may be there before the call even waits, and all the time the node is at work on
other things.

The call and the answer each have their part of the slot: the call has the receiving end of the
channel, and the answer has the sending one. So the slot is at every moment what the stage of the
one and the progress of the other make it, whichever of them is ahead. From this it follows how a
call can end, and that it can.

## Main definitions

* `Expectation`: a call and the answer to it.
* `Scene`, `Scene.Turn`, `Scene.Aside`, `Scene.Step`, `Scene.Run`: what happens at the node.
* `Scene.Standing`, `Scene.Fits`: what holds of the slot, and of the call.

## Main results

* `Scene.Aside.standing`, `Scene.Aside.fits`, `Scene.Turn.fits`: what one step keeps.
* `Scene.Run.fits`: what holds of every run.
* `Scene.Standing.run_onResponse`: the frame with the answer is handled in steps of the scene.
* `Scene.Fits.canReach`: a call whose request was taken can go on to the reply.
-/

namespace KeyCustody.Relay

open Crypto (SignatureScheme)
open Net (TransportError)
open Node (Log)
open Peer (PeerId PeerStore)
open Pending (Branch Table WaitError Waiter lastInstant)
open Wire (Envelope GetReply)

/-! ### Calls and answers -/

/-- A call and the answer to it: how the node relays, the message id and the registration of the
call, and the frame that comes from a peer. -/
structure Expectation where
  settings : Settings
  id : String
  registration : Nat
  remote : PeerId
  data : Bytes

/-- How far a call is. -/
inductive Stage where
  | calling (c : Call)
  /-- Its request was taken, and it does not wait yet. -/
  | relayed
  /-- Its wait is over, and its slot is still there. -/
  | leaving (w : Waiter) (result : Except WaitError (Option GetReply))

/-- The stage after an attempt to send the request. -/
def Stage.ofProgress : Sending.Progress → Stage
  | .taken => .relayed
  | .again s => .calling (.sending s)
  | .failed e => .calling (.done (.failure e))

/-- How far an answer is. -/
inductive Delivery where
  | away
  /-- It passed the gate. -/
  | admitted (env : Envelope)
  /-- It has the sending end of a registration. -/
  | held (registration : Nat) (answer : Option GetReply)
  | made
  | lost

/-- The progress of a frame that arrives. -/
def Delivery.ofGate : Except Rejection Envelope → Delivery
  | .ok env => .admitted env
  | .error _ => .lost

/-- The progress of an answer that asks for the sending end. -/
def Delivery.ofTaken (answer : Option GetReply) : Option Nat → Delivery
  | some registration => .held registration answer
  | none => .lost

/-- Whether the sending end is left in the slot. -/
def Delivery.leavesSender : Delivery → Bool
  | .away | .admitted _ => true
  | _ => false

/-- Whether the answer was sent. -/
def Delivery.isMade : Delivery → Bool
  | .made => true
  | _ => false

/-- A node with a call that is under way and an answer that comes. -/
structure Scene where
  store : PeerStore
  slots : Slots
  stage : Stage
  delivery : Delivery

/-- What happens at the node, as far as the end of the call depends on it. -/
inductive Move where
  /-- An attempt to send the request to a peer ended. -/
  | attempt (peer : PeerId) (outcome : Except TransportError Unit)
  /-- The wait began. -/
  | await (now : Nat)
  /-- The wait looked and found a branch ready. -/
  | look (branch : Branch) (now : Nat)
  | other

namespace Scene

/-- A turn of the call, with the slots and the stage after it. -/
inductive Turn (x : Expectation) (a : Scene) : Move → Slots → Stage → Prop
  | attempt {s : Sending} (hstage : a.stage = .calling (.sending s)) (choice : Nat)
      (outcome : Except TransportError Unit) {slots : Slots} {p : Sending.Progress} {log : Log}
      (hp : s.onSent outcome a.slots = (slots, p, log)) :
      Turn x a (.attempt (s.choose choice) outcome) slots (.ofProgress p)
  | await (hstage : a.stage = .relayed) (now : Nat) {slots : Slots} {c : Call}
      (hc : Call.await x.settings x.id now a.slots = (slots, c)) :
      Turn x a (.await now) slots (.calling c)
  | stay {w w' : Waiter} (hstage : a.stage = .calling (.waiting w)) {branch : Branch} {now : Nat}
      (hready : w.isReady a.slots now branch = true)
      (hw : w.choose a.slots now branch = .inl w') :
      Turn x a (.look branch now) a.slots (.calling (.waiting w'))
  | choose {w : Waiter} (hstage : a.stage = .calling (.waiting w)) {branch : Branch} {now : Nat}
      (hready : w.isReady a.slots now branch = true)
      {result : Except WaitError (Option GetReply)}
      (hw : w.choose a.slots now branch = .inr result) :
      Turn x a (.look branch now) a.slots (.leaving w result)
  | leave {w : Waiter} {result : Except WaitError (Option GetReply)}
      (hstage : a.stage = .leaving w result) :
      Turn x a .other (w.leave a.slots) (.calling (.done (.ofExcept (Call.ofWait result).1)))

/-- What happens beside the call, with the store, the slots and the answer after it. Message ids are
not used twice, so whatever else the node is at work on is about other slots. Further answers to
the call come after the one that is expected. -/
inductive Aside (S : SignatureScheme) (x : Expectation) (a : Scene) :
    PeerStore → Slots → Delivery → Prop
  | arrive (hd : a.delivery = .away) :
      Aside S x a a.store a.slots (.ofGate (inspect S a.store .response x.remote x.data))
  | take {env : Envelope} (hd : a.delivery = .admitted env) {slots : Slots} {r? : Option Nat}
      (ht : a.slots.takeSender env.messageId = (slots, r?)) :
      Aside S x a a.store slots (.ofTaken (replyOf env.payload).1 r?)
  | send {r : Nat} {answer : Option GetReply} (hd : a.delivery = .held r answer) :
      Aside S x a a.store (a.slots.send r answer).1 .made
  /-- Another answer under the id comes later. -/
  | again (hd : a.delivery.leavesSender = false) (answer : Option GetReply) :
      Aside S x a a.store (a.slots.deliver x.id answer).1 a.delivery
  | elsewhere {slots : Slots} (he : Table.Elsewhere x.id x.registration a.slots slots) :
      Aside S x a a.store slots a.delivery
  /-- The node learns of peers, and forgets none that is to answer. -/
  | learn (store : PeerStore)
      (hstore : a.delivery = .away → store.Genuine ∧ store.Knows x.remote) :
      Aside S x a store a.slots a.delivery

/-- A step of the node. -/
inductive Step (S : SignatureScheme) (x : Expectation) (a : Scene) : Move → Scene → Prop
  | turn {m : Move} {slots : Slots} {stage : Stage} (ht : a.Turn x m slots stage) :
      Step S x a m { a with slots, stage }
  | aside {store : PeerStore} {slots : Slots} {delivery : Delivery}
      (ha : a.Aside S x store slots delivery) : Step S x a .other ⟨store, slots, a.stage, delivery⟩

/-- A run of the node, with its moves, the latest first. -/
inductive Run (S : SignatureScheme) (x : Expectation) (a : Scene) : List Move → Scene → Prop
  | refl : Run S x a [] a
  | step {ms : List Move} {m : Move} {b c : Scene} (hrun : Run S x a ms b)
      (hstep : Step S x b m c) : Run S x a (m :: ms) c

end Scene

variable {S : SignatureScheme} {x : Expectation} {reply : GetReply} {ms : List Move}
  {m : Move} {a b c : Scene} {w : Waiter} {receiver : Bool}

/-! ### What holds of the slot -/

/-- The frame is worth a reply under the message id of the call to whoever knows the peer. -/
def Expectation.IsWorth (S : SignatureScheme) (x : Expectation) (reply : GetReply) : Prop :=
  ∀ store : PeerStore, store.Genuine → store.Knows x.remote →
    ∃ env, inspect S store .response x.remote x.data = .ok env ∧ env.messageId = x.id ∧
      (replyOf env.payload).1 = some reply

/-- The answer is on its way into the slot of the call, with the reply. -/
def Delivery.IsOf (x : Expectation) (reply : GetReply) : Delivery → Prop
  | .away | .made => True
  | .admitted env => env.messageId = x.id ∧ (replyOf env.payload).1 = some reply
  | .held r answer => r = x.registration ∧ answer = some reply
  | .lost => False

namespace Scene

/-- The slot of the call is there, and shows how far the answer is. Whether it holds the receiving
end depends on the call. -/
structure Standing (x : Expectation) (reply : GetReply) (receiver : Bool) (a : Scene) : Prop where
  shows : a.slots.Shows x.id ⟨x.registration, a.delivery.leavesSender, receiver⟩
    ⟨if a.delivery.isMade then some (some reply) else none, !a.delivery.isMade, true⟩
  answer : a.delivery.IsOf x reply
  known : a.delivery = .away → a.store.Genuine ∧ a.store.Knows x.remote

theorem Standing.turn (h : a.Standing x reply receiver) (stage : Stage) :
    Standing x reply receiver { a with stage } :=
  ⟨h.shows, h.answer, h.known⟩

/-- What happens beside the call leaves its slot standing. -/
theorem Aside.standing {store : PeerStore} {slots : Slots} {delivery : Delivery}
    (ha : a.Aside S x store slots delivery) (hx : x.IsWorth S reply)
    (h : a.Standing x reply receiver) :
    Standing x reply receiver ⟨store, slots, a.stage, delivery⟩ := by
  obtain ⟨hshows, hanswer, hknown⟩ := h
  cases ha with
  | arrive hd =>
    obtain ⟨env, hinspect, hid, hreply⟩ := hx _ (hknown hd).1 (hknown hd).2
    rw [hinspect]
    rw [hd] at hshows
    exact ⟨hshows, ⟨hid, hreply⟩, nofun⟩
  | @take env hd slots r? ht =>
    rw [hd] at hshows hanswer
    obtain ⟨hid, hreply⟩ := hanswer
    obtain ⟨htake, hshows'⟩ := hshows.takeSender rfl rfl
    rw [hid, htake] at ht
    obtain ⟨rfl, rfl⟩ := Prod.mk.inj ht
    exact ⟨hshows', ⟨rfl, hreply⟩, nofun⟩
  | send hd =>
    rw [hd] at hshows hanswer
    obtain ⟨rfl, rfl⟩ := hanswer
    exact ⟨hshows.send rfl _, trivial, nofun⟩
  | again hd answer =>
    rw [Table.deliver_of_holdsSender_eq_false hshows.slot hd]
    exact ⟨hshows, hanswer, hknown⟩
  | elsewhere he => exact ⟨hshows.elsewhere he, hanswer, hknown⟩
  | learn store hstore => exact ⟨hshows, hanswer, hstore⟩

/-- What happens beside the call gives its id no slot. -/
theorem Aside.owns {store : PeerStore} {slots : Slots} {delivery : Delivery} {r : Nat}
    (ha : a.Aside S x store slots delivery) (ho : slots.Owns x.id r) : a.slots.Owns x.id r := by
  cases ha with
  | take hd ht =>
    obtain rfl : slots = _ := (congrArg Prod.fst ht).symm
    exact Table.owns_of_takeSender ho
  | again => exact Table.owns_of_deliver ho
  | elsewhere he => exact he.owns ho
  | arrive | send | learn => exact ho

end Scene

/-! ### What holds of the call -/

/-- A wait is the call's, and its deadline comes from when it began. -/
def Expectation.Waits (x : Expectation) (ms : List Move) (w : Waiter) : Prop :=
  w.id = x.id ∧ w.registration = x.registration ∧
    ∃ began, .await began ∈ ms ∧ w.deadline = began + x.settings.timeout

/-- The wait chose its deadline at an instant at or after it. -/
def Expectation.ChoseDeadline (x : Expectation) (ms : List Move) : Prop :=
  ∃ began now, .await began ∈ ms ∧ .look .deadline now ∈ ms ∧ began + x.settings.timeout ≤ now

/-- No peer took the request. -/
def Untaken (ms : List Move) : Prop :=
  ∀ peer, .attempt peer (.ok ()) ∉ ms

theorem Expectation.Waits.cons (h : x.Waits ms w) : x.Waits (m :: ms) w := by
  obtain ⟨hid, hr, began, hbegan, hdeadline⟩ := h
  exact ⟨hid, hr, began, .tail _ hbegan, hdeadline⟩

theorem Expectation.ChoseDeadline.cons (h : x.ChoseDeadline ms) : x.ChoseDeadline (m :: ms) := by
  obtain ⟨began, now, hbegan, hlook, hle⟩ := h
  exact ⟨began, now, .tail _ hbegan, .tail _ hlook, hle⟩

theorem Untaken.cons (h : Untaken ms) (hm : ∀ peer, m ≠ .attempt peer (.ok ())) :
    Untaken (m :: ms) := by
  intro peer hmem
  rcases List.mem_cons.1 hmem with heq | hmem
  · exact hm peer heq.symm
  · exact h peer hmem

/-- What holds of a call after some moves: its slot stands until it ends, with the receiving end
until it waits; then it has the reply, or its wait chose the deadline, or no peer took the
request. -/
def Scene.Fits (x : Expectation) (reply : GetReply) (ms : List Move) (a : Scene) : Prop :=
  match a.stage with
  | .calling (.sending s) => s.messageId = x.id ∧ Untaken ms ∧ a.Standing x reply true
  | .relayed => a.Standing x reply true
  | .calling (.waiting w) => x.Waits ms w ∧ a.Standing x reply false
  | .leaving w result => x.Waits ms w ∧ a.Standing x reply false ∧
    (result = .ok (some reply) ∨ result = .error .timeout ∧ x.ChoseDeadline ms)
  | .calling (.done outcome) => (∀ r, ¬ a.slots.Owns x.id r) ∧
    (outcome = .value reply ∨ outcome = .failure .timeout ∧ x.ChoseDeadline ms ∨
      (∃ e, outcome = .failure e) ∧ Untaken ms)

namespace Scene

/-- What happens beside the call keeps it fitting. -/
theorem Aside.fits {store : PeerStore} {slots : Slots} {delivery : Delivery}
    (ha : a.Aside S x store slots delivery) (hx : x.IsWorth S reply) (hf : a.Fits x reply ms) :
    Fits x reply (.other :: ms) ⟨store, slots, a.stage, delivery⟩ := by
  obtain ⟨store₀, slots₀, stage, delivery₀⟩ := a
  match stage, hf with
  | .calling (.sending s), ⟨hid, hun, hs⟩ => exact ⟨hid, hun.cons nofun, ha.standing hx hs⟩
  | .relayed, hs => exact ha.standing hx hs
  | .calling (.waiting w), ⟨hw, hs⟩ => exact ⟨hw.cons, ha.standing hx hs⟩
  | .leaving w result, ⟨hw, hs, hresult⟩ =>
    exact ⟨hw.cons, ha.standing hx hs, hresult.imp_right (.imp_right .cons)⟩
  | .calling (.done outcome), ⟨hgone, houtcome⟩ =>
    exact ⟨fun r ho => hgone r (ha.owns ho), houtcome.imp_right
      (.imp (.imp_right .cons) (.imp_right (Untaken.cons · nofun)))⟩

/-- The wait of the call begins, and has the receiving end of the slot. -/
theorem Standing.await (h : a.Standing x reply true) (hpoll : x.settings.poll ≠ 0) {now : Nat}
    (hnow : now + x.settings.poll < lastInstant) :
    Call.await x.settings x.id now a.slots = ((a.slots.takeReceiver x.id).1,
        .waiting ⟨x.id, x.registration, x.settings.poll, now + x.settings.timeout,
          now + x.settings.poll⟩) ∧
      Standing x reply false { a with slots := (a.slots.takeReceiver x.id).1 } := by
  obtain ⟨hbegin, hshows⟩ := h.shows.begin rfl x.settings.timeout hpoll hnow
  refine ⟨?_, hshows, h.answer, h.known⟩
  rw [Call.await, hbegin]

/-- A wait with a period of zero, or with one beyond the clock, breaks down and leaves the slot. -/
theorem Standing.await_breakdown (h : a.Standing x reply true) (now : Nat)
    (hpoll : x.settings.poll = 0 ∨ lastInstant ≤ now + x.settings.poll) :
    ∃ slots b, Call.await x.settings x.id now a.slots = (slots, .done (.breakdown b)) ∧
      slots.contains x.id = true := by
  have htake : a.slots.takeReceiver x.id =
      ((a.slots.takeReceiver x.id).1, some x.registration) := by
    simp only [Table.takeReceiver, h.shows.slot, if_true]
  have hbreak : ∃ b, (Waiter.begin a.slots x.id x.settings.poll x.settings.timeout now).2 =
      .breakdown b := by
    rw [Waiter.begin, htake]
    by_cases hlast : lastInstant ≤ now + x.settings.poll
    · simp only [if_pos hlast]
      exact ⟨_, rfl⟩
    · simp only [if_neg hlast, if_pos (hpoll.resolve_right hlast)]
      exact ⟨_, rfl⟩
  obtain ⟨b, hb⟩ := hbreak
  have hbegin : Waiter.begin a.slots x.id x.settings.poll x.settings.timeout now =
      ((Waiter.begin a.slots x.id x.settings.poll x.settings.timeout now).1, .breakdown b) :=
    Prod.ext rfl hb
  refine ⟨(Waiter.begin a.slots x.id x.settings.poll x.settings.timeout now).1, b, ?_,
    Table.contains_iff_owns.2 ⟨_, Waiter.owns_begin h.shows.owns⟩⟩
  rw [Call.await, hbegin]

/-- What the receiving end of the slot sees. -/
theorem Standing.receive (h : a.Standing x reply receiver) :
    a.slots.receive x.registration =
      if a.delivery.isMade then .value (some reply) else .empty := by
  have hreceive := h.shows.receive (by cases a.delivery.isMade <;> rfl)
  rw [hreceive]
  cases a.delivery.isMade <;> rfl

end Scene

/-- A failed attempt does not take the request. -/
theorem onSent_error_cases {s : Sending} {err : TransportError} {slots slots' : Slots}
    {p : Sending.Progress} {log : Log} (hp : s.onSent (.error err) slots = (slots', p, log)) :
    (∃ s', p = .again s' ∧ s'.messageId = s.messageId ∧ slots' = slots) ∨
      ∃ e, p = .failed e ∧ slots' = slots.remove s.messageId := by
  refine (onSent_cases hp).resolve_left ?_
  rintro ⟨rfl, -⟩
  simp only [Sending.onSent] at hp
  split_ifs at hp <;> cases hp

namespace Scene

/-- **A turn of the call keeps it fitting**, if its wait can begin at all. -/
theorem Turn.fits {slots : Slots} {stage : Stage} (ht : a.Turn x m slots stage)
    (hpoll : x.settings.poll ≠ 0)
    (hnow : ∀ now, m = .await now → now + x.settings.poll < lastInstant)
    (hf : a.Fits x reply ms) : Fits x reply (m :: ms) { a with slots, stage } := by
  unfold Fits at hf
  cases ht with
  | @attempt s hstage choice outcome slots p log hp =>
    rw [hstage] at hf
    obtain ⟨hid, hun, hs⟩ := hf
    cases outcome with
    | ok u =>
      cases hp
      exact hs.turn _
    | error err =>
      rcases onSent_error_cases hp with ⟨s', rfl, hid', rfl⟩ | ⟨e, rfl, rfl⟩
      · exact ⟨hid'.trans hid, hun.cons (by simp), hs.turn _⟩
      · refine ⟨fun r ho => ?_, .inr (.inr ⟨⟨e, rfl⟩, hun.cons (by simp)⟩)⟩
        exact (Table.owns_of_remove ho).2 hid.symm
  | @await hstage now slots c hc =>
    rw [hstage] at hf
    obtain ⟨hawait, hs⟩ := hf.await hpoll (hnow now rfl)
    rw [hawait] at hc
    cases hc
    exact ⟨⟨rfl, rfl, now, .head _, rfl⟩, hs.turn _⟩
  | @stay w w' hstage branch now hready hw =>
    rw [hstage] at hf
    obtain ⟨⟨hid, hr, began, hbegan, hdeadline⟩, hs⟩ := hf
    obtain ⟨hid', hr', hdeadline'⟩ := Waiter.same_of_choose hw
    exact ⟨⟨hid'.trans hid, hr'.trans hr, began, .tail _ hbegan,
      hdeadline'.trans hdeadline⟩, hs.turn _⟩
  | @choose w hstage branch now hready result hw =>
    rw [hstage] at hf
    obtain ⟨hwaits, hs⟩ := hf
    refine ⟨hwaits.cons, hs.turn _, ?_⟩
    obtain ⟨-, hr, began, hbegan, hdeadline⟩ := hwaits
    cases branch with
    | answer =>
      simp only [Waiter.choose, hr, hs.receive] at hw
      cases hmade : a.delivery.isMade with
      | true =>
        rw [hmade] at hw
        cases hw
        exact .inl rfl
      | false =>
        rw [hmade] at hw
        cases hw
    | tick => cases hw
    | deadline =>
      simp only [Waiter.choose] at hw
      split_ifs at hw with hle
      cases hw
      exact .inr ⟨rfl, began, now, .tail _ hbegan, .head _, hdeadline ▸ hle⟩
  | @leave w result hstage =>
    rw [hstage] at hf
    obtain ⟨⟨hid, -⟩, -, hresult⟩ := hf
    refine ⟨fun r ho => ?_, ?_⟩
    · exact (Table.owns_of_remove (Table.owns_of_dropReceiver ho)).2 hid.symm
    · rcases hresult with rfl | ⟨rfl, hchose⟩
      · exact .inl rfl
      · exact .inr (.inl ⟨rfl, hchose.cons⟩)

/-- **What holds of every run.** -/
theorem Run.fits (hrun : Run S x a ms b) (hx : x.IsWorth S reply) (hpoll : x.settings.poll ≠ 0)
    (hnow : ∀ now, .await now ∈ ms → now + x.settings.poll < lastInstant)
    (hf : a.Fits x reply []) : b.Fits x reply ms := by
  induction hrun with
  | refl => exact hf
  | step hrun hstep ih =>
    have hb := ih fun now hmem => hnow now (.tail _ hmem)
    cases hstep with
    | turn ht =>
      exact ht.fits hpoll (fun now hm => hnow now (by rw [hm]; exact .head _)) hb
    | aside ha => exact ha.fits hx hb

end Scene

/-! ### Calls that go on -/

/-- A move that begins no wait too late for its clock and does not choose the deadline. -/
def Expectation.Timely (x : Expectation) : Move → Prop
  | .await now => now + x.settings.poll < lastInstant
  | .look .deadline _ => False
  | _ => True

namespace Scene

/-- A run of timely moves leads from a scene to one with some property. -/
def CanReach (S : SignatureScheme) (x : Expectation) (a : Scene) (goal : Scene → Prop) : Prop :=
  ∃ ms c, Run S x a ms c ∧ (∀ m ∈ ms, x.Timely m) ∧ goal c

variable {goal goal' : Scene → Prop}

theorem Run.trans {ms' : List Move} (h : Run S x a ms b) (h' : Run S x b ms' c) :
    Run S x a (ms' ++ ms) c := by
  induction h' with
  | refl => exact h
  | step _ hstep ih => exact .step ih hstep

theorem CanReach.refl (h : goal a) : CanReach S x a goal :=
  ⟨[], a, .refl, by simp, h⟩

theorem CanReach.trans (h : CanReach S x a goal)
    (h' : ∀ b, goal b → CanReach S x b goal') : CanReach S x a goal' := by
  obtain ⟨ms, b, hrun, hms, hb⟩ := h
  obtain ⟨ms', c, hrun', hms', hc⟩ := h' b hb
  exact ⟨_, c, hrun.trans hrun', List.forall_mem_append.2 ⟨hms', hms⟩, hc⟩

theorem CanReach.of_step (hstep : Step S x a m b) (hm : x.Timely m)
    (h : CanReach S x b goal) : CanReach S x a goal := by
  have hreach : CanReach S x a (· = b) :=
    ⟨[m], b, Run.refl.step hstep, List.forall_mem_singleton.2 hm, rfl⟩
  refine hreach.trans ?_
  rintro _ rfl
  exact h

/-- The answer is in the slot, and the call is where it was. -/
def Filled (x : Expectation) (reply : GetReply) (receiver : Bool) (stage : Stage) (c : Scene) :
    Prop :=
  c.stage = stage ∧ c.delivery = .made ∧ c.Standing x reply receiver

/-- **The answer gets into a slot that stands**, wherever the call is. -/
theorem Standing.canReach_filled (hx : x.IsWorth S reply) (hs : a.Standing x reply receiver) :
    CanReach S x a (Filled x reply receiver a.stage) := by
  have hnext {a : Scene} {store : PeerStore} {slots : Slots} {delivery : Delivery}
      (hs : a.Standing x reply receiver) (ha : a.Aside S x store slots delivery)
      (h : Standing x reply receiver ⟨store, slots, a.stage, delivery⟩ →
        CanReach S x ⟨store, slots, a.stage, delivery⟩ (Filled x reply receiver a.stage)) :
      CanReach S x a (Filled x reply receiver a.stage) :=
    .of_step (.aside ha) trivial (h (ha.standing hx hs))
  have hheld {a : Scene} {r : Nat} {answer : Option GetReply} (hs : a.Standing x reply receiver)
      (hd : a.delivery = .held r answer) : CanReach S x a (Filled x reply receiver a.stage) :=
    hnext hs (.send hd) fun hs => .refl ⟨rfl, rfl, hs⟩
  have hadmitted {a : Scene} {env : Envelope} (hs : a.Standing x reply receiver)
      (hd : a.delivery = .admitted env) :
      CanReach S x a (Filled x reply receiver a.stage) := by
    have hshows := hs.shows
    have hanswer := hs.answer
    rw [hd] at hshows hanswer
    have htake := (hshows.takeSender rfl rfl).1
    rw [← hanswer.1] at htake
    exact hnext hs (.take hd htake) fun hs => hheld hs rfl
  cases hd : a.delivery with
  | made => exact .refl ⟨rfl, hd, hs⟩
  | held r answer => exact hheld hs hd
  | admitted env => exact hadmitted hs hd
  | away =>
    obtain ⟨env, hinspect, -⟩ := hx _ (hs.known hd).1 (hs.known hd).2
    have harrive : a.Aside S x _ _ _ := .arrive hd
    rw [hinspect] at harrive
    exact hnext hs harrive fun hs => hadmitted hs rfl
  | lost =>
    have hanswer := hs.answer
    rw [hd] at hanswer
    exact hanswer.elim

/-- A frame that is handled at one go is the three steps of its answer. -/
theorem Standing.run_onResponse {store : PeerStore} {slots : Slots} {stage : Stage}
    (hx : x.IsWorth S reply) (hs : Standing x reply receiver ⟨store, slots, stage, .away⟩) :
    Run S x ⟨store, slots, stage, .away⟩ [.other, .other, .other]
      ⟨store, (onResponse S store x.remote x.data slots).1, stage, .made⟩ := by
  obtain ⟨env, hinspect, hid, hreply⟩ := hx store (hs.known rfl).1 (hs.known rfl).2
  have htake : slots.takeSender x.id = ((slots.takeSender x.id).1, some x.registration) :=
    (hs.shows.takeSender rfl rfl).1
  rw [← hid] at htake
  have hslots : (onResponse S store x.remote x.data slots).1 =
      ((slots.takeSender env.messageId).1.send x.registration (some reply)).1 := by
    simp only [onResponse, hinspect, hreply, Table.deliver]
    rw [htake]
  have harrive : Aside S x ⟨store, slots, stage, .away⟩ _ _ _ := .arrive rfl
  rw [hinspect] at harrive
  have htaken : Aside S x ⟨store, slots, stage, .admitted env⟩ _ _ _ := .take rfl htake
  rw [hreply] at htaken
  have hsent : Aside S x ⟨store, (slots.takeSender env.messageId).1, stage,
      .held x.registration (some reply)⟩ _ _ _ := .send rfl
  rw [hslots]
  exact ((Run.refl.step (.aside harrive)).step (.aside htaken)).step (.aside hsent)

/-- The call ended with a reply. -/
def Returned (reply : GetReply) (a : Scene) : Prop :=
  a.stage = .calling (.done (.value reply))

theorem canReach_of_leaving (hstage : a.stage = .leaving w (.ok (some reply))) :
    CanReach S x a (Returned reply) :=
  .of_step (.turn (.leave hstage)) trivial (.refl rfl)

/-- A wait finds an answer that is in the slot. -/
theorem Filled.canReach (hr : w.registration = x.registration)
    (h : a.Filled x reply false (.calling (.waiting w))) : CanReach S x a (Returned reply) := by
  obtain ⟨hstage, hd, hs⟩ := h
  have hreceive : a.slots.receive w.registration = .value (some reply) := by
    rw [hr, hs.receive, hd]
    rfl
  have hready : w.isReady a.slots 0 .answer = true := by
    simp only [Waiter.isReady, hreceive]
  have hchoose : w.choose a.slots 0 .answer = .inr (.ok (some reply)) := by
    simp only [Waiter.choose, hreceive]
  exact .of_step (.turn (.choose hstage hready hchoose)) trivial (canReach_of_leaving rfl)

/-- A wait can go on to the reply, however far the answer is. -/
theorem Standing.canReach_of_waiting (hx : x.IsWorth S reply) (hs : a.Standing x reply false)
    (hstage : a.stage = .calling (.waiting w)) (hr : w.registration = x.registration) :
    CanReach S x a (Returned reply) := by
  have hfilled := hs.canReach_filled hx
  rw [hstage] at hfilled
  exact hfilled.trans fun b => Filled.canReach hr

/-- **A call whose request was taken can go on to the reply**, as long as its wait did not choose
its deadline. -/
theorem Fits.canReach (hf : a.Fits x reply ms) (hx : x.IsWorth S reply)
    (hpoll : x.settings.poll ≠ 0) (hlast : x.settings.poll < lastInstant) (htaken : ¬ Untaken ms)
    (hlook : ∀ now, .look .deadline now ∉ ms) : CanReach S x a (Returned reply) := by
  have hchose : ¬ x.ChoseDeadline ms := fun ⟨_, now, _, hmem, _⟩ => hlook now hmem
  unfold Fits at hf
  split at hf
  · exact absurd hf.2.1 htaken
  · rename_i hstage
    have hnow : 0 + x.settings.poll < lastInstant := by rwa [Nat.zero_add]
    obtain ⟨hawait, hs⟩ := hf.await hpoll hnow
    exact .of_step (.turn (.await hstage 0 hawait)) hnow
      ((hs.turn _).canReach_of_waiting hx rfl rfl)
  · rename_i hstage
    exact hf.2.canReach_of_waiting hx hstage hf.1.2.1
  · rename_i hstage
    rcases hf.2.2 with rfl | ⟨-, hc⟩
    · exact canReach_of_leaving hstage
    · exact absurd hc hchose
  · rename_i outcome hstage
    rcases hf.2 with rfl | ⟨-, hc⟩ | ⟨-, hun⟩
    · exact .refl hstage
    · exact absurd hc hchose
    · exact absurd hun htaken

end Scene

end KeyCustody.Relay
