import KeyCustody.Proofs.Assoc
import KeyCustody.Proofs.Host.Machine
import Mathlib.Data.List.Perm.Basic
/-!
# Where the handles of commands are

A command brings a handle for its reply. The host replies at once, or keeps the handle: among those
who wait for a dial to the peer, or with the number of the frame that it sent. What it keeps goes
from the first place to the second, or it replies. A frame that is sent may take the place of
another one with its number, whose handle is thrown away then; no handle is lost or doubled but for
that.

A host does few things with what it keeps. A command for a connected peer goes on; another one waits
or is refused. On a new connection those who wait go on, on a dial that fails all of them are told
so, and on the end of a frame the one who is kept under its number is told. Nothing else matters.

## Main definitions

* `Machine.parked`, `Machine.awaited`: the handles that a host keeps.
* `Sent`, `Machine.issued`: the frames that a host sends.
* `requests`, `replies`, `dropped`: what it wants to be sent, its replies, the handles that it
  throws away.
* `Machine.Keeps`: what becomes of each handle.
* `Machine.CommandCase`, `Machine.EventCase`: what a host does on a command and on an event.

## Main results

* `Machine.onCommand_cases`, `Machine.onEvent_cases`: it does nothing else.
* `Machine.CommandCase.requests`, `Machine.EventCase.requests`: it sends the frames that it should.
* `Machine.CommandCase.keeps`, `Machine.EventCase.keeps`: it keeps the handles.
-/

namespace KeyCustody.Host

open Net (Multiaddr TransportError)
open Node (Discovered)
open Peer (PeerId PeerStore)
open Wire (StreamProtocol acknowledgement)

variable {ρ : Type}

/-- The number of the frame whose end an event is, with the protocol whose numbers are meant. -/
def Event.ended? : Event → Option (StreamProtocol × Nat)
  | .answered protocol id _ => some (protocol, id)
  | .unanswered protocol id _ => some (protocol, id)
  | _ => none

/-! ### Frames and replies -/

/-- The handle of a command. -/
def Command.handle (c : Command ρ) : ρ :=
  c.waiter.handle

/-- A frame that was sent under a number, with the handle under which its end is awaited. -/
structure Sent (ρ : Type) where
  id : Nat
  peer : PeerId
  protocol : StreamProtocol
  data : Bytes
  reply : ρ

/-- The number of a frame among those of its protocol. -/
def Sent.number (x : Sent ρ) : StreamProtocol × Nat :=
  (x.protocol, x.id)

/-- What a host keeps of a frame that it sent. -/
def Sent.outbound (x : Sent ρ) : Outbound ρ :=
  ⟨x.peer, x.protocol, x.reply⟩

/-- The command of a frame. -/
def Sent.command (x : Sent ρ) : Command ρ :=
  .send x.peer x.protocol x.data x.reply

/-- What the swarm is told of a frame. -/
def Sent.request (x : Sent ρ) : Nat × PeerId × StreamProtocol × Bytes :=
  (x.id, x.peer, x.protocol, x.data)

/-- A reply among the effects. -/
def Effect.reply? : Effect ρ → Option (ρ × Except TransportError Unit)
  | .reply a result => some (a, result)
  | _ => none

/-- A handle that an effect throws away. -/
def Effect.dropped? : Effect ρ → Option ρ
  | .drop a => some a
  | _ => none

/-- What the swarm is told of a frame by an effect. -/
def Effect.request? : Effect ρ → Option (Nat × PeerId × StreamProtocol × Bytes)
  | .request id peer protocol data => some (id, peer, protocol, data)
  | _ => none

/-- The replies among effects. -/
def replies (effects : List (Effect ρ)) : List (ρ × Except TransportError Unit) :=
  effects.filterMap Effect.reply?

/-- The handles that are thrown away. -/
def dropped (effects : List (Effect ρ)) : List ρ :=
  effects.filterMap Effect.dropped?

/-- What the swarm is told of frames. -/
def requests (effects : List (Effect ρ)) : List (Nat × PeerId × StreamProtocol × Bytes) :=
  effects.filterMap Effect.request?

/-- What is told to a command that goes on, if it is carried out. -/
def Waiter.told? : Waiter ρ → Option (ρ × Except TransportError Unit)
  | .dial reply => some (reply, .ok ())
  | .send .. => none

/-- Effects in which the host neither replies nor throws a handle away, sends no frame and does not
dial. -/
def Quiet (effects : List (Effect ρ)) : Prop :=
  ∀ f ∈ effects, f.reply? = none ∧ f.dropped? = none ∧ f.request? = none ∧
    ∀ peer addrs, f ≠ .dial peer addrs

theorem Quiet.replies {effects : List (Effect ρ)} (hq : Quiet effects) :
    Host.replies effects = [] :=
  List.filterMap_eq_nil_iff.2 fun f hf => (hq f hf).1

theorem Quiet.dropped {effects : List (Effect ρ)} (hq : Quiet effects) :
    Host.dropped effects = [] :=
  List.filterMap_eq_nil_iff.2 fun f hf => (hq f hf).2.1

theorem Quiet.requests {effects : List (Effect ρ)} (hq : Quiet effects) :
    Host.requests effects = [] :=
  List.filterMap_eq_nil_iff.2 fun f hf => (hq f hf).2.2.1

theorem replies_append (fs gs : List (Effect ρ)) : replies (fs ++ gs) = replies fs ++ replies gs :=
  List.filterMap_append

theorem dropped_append (fs gs : List (Effect ρ)) : dropped (fs ++ gs) = dropped fs ++ dropped gs :=
  List.filterMap_append

theorem requests_append (fs gs : List (Effect ρ)) :
    requests (fs ++ gs) = requests fs ++ requests gs :=
  List.filterMap_append

namespace Machine

variable {h h' : Machine ρ} {p : PeerId}

/-! ### What a host keeps -/

/-- The commands that wait for a dial to a peer, the oldest first. -/
def queue (h : Machine ρ) (p : PeerId) : List (Waiter ρ) :=
  (Assoc.get? h.waiters p).getD []

/-- The handles of the commands that wait for a dial. -/
def parked (h : Machine ρ) : List ρ :=
  h.waiters.flatMap fun q => q.2.map Waiter.handle

/-- The handles of the frames whose end is awaited. -/
def awaited (h : Machine ρ) : List ρ :=
  h.outbound.map fun q => q.2.reply

/-- The peers and the numbers in what a host keeps are distinct. -/
structure Tidy (h : Machine ρ) : Prop where
  waiters : (Assoc.keys h.waiters).Nodup
  outbound : (Assoc.keys h.outbound).Nodup

/-- Two hosts keep the same. -/
structure Like (h h' : Machine ρ) : Prop where
  waiters : h.waiters = h'.waiters
  outbound : h.outbound = h'.outbound
  nextRequest : h.nextRequest = h'.nextRequest

/-- What a host keeps afterwards, with its replies and the handles that it throws away, is what it
kept before and what came in. -/
structure Keeps (owed : List ρ) (h : Machine ρ) (r : Machine ρ × List (Effect ρ)) : Prop where
  tidy : r.1.Tidy
  perm : (owed ++ (h.parked ++ h.awaited)).Perm
    ((replies r.2).map Prod.fst ++ dropped r.2 ++ (r.1.parked ++ r.1.awaited))

theorem Like.tidy (hl : Like h h') (ht : h'.Tidy) : h.Tidy :=
  ⟨hl.waiters ▸ ht.waiters, hl.outbound ▸ ht.outbound⟩

theorem Like.parked (hl : Like h h') : h.parked = h'.parked := by
  rw [Machine.parked, hl.waiters, Machine.parked]

theorem Like.awaited (hl : Like h h') : h.awaited = h'.awaited := by
  rw [Machine.awaited, hl.outbound, Machine.awaited]

theorem Like.queue (hl : Like h h') (p : PeerId) : h.queue p = h'.queue p := by
  rw [Machine.queue, hl.waiters, Machine.queue]

theorem Keeps.append {owed owed' : List ρ} {r r' : Machine ρ × List (Effect ρ)}
    (hr : Keeps owed h r) (hr' : Keeps owed' r.1 r') :
    Keeps (owed ++ owed') h (r'.1, r.2 ++ r'.2) := by
  classical
  refine ⟨hr'.tidy, List.perm_iff_count.2 fun a => ?_⟩
  have hfirst := hr.perm.count_eq a
  have hsecond := hr'.perm.count_eq a
  simp only [replies_append, dropped_append, List.map_append, List.count_append] at hfirst hsecond ⊢
  omega

/-- The handles that wait for a dial, those for one peer first. -/
theorem Tidy.parked_perm (ht : h.Tidy) (p : PeerId) : h.parked.Perm
    ((h.queue p).map Waiter.handle ++
      (Assoc.erase h.waiters p).flatMap fun q => q.2.map Waiter.handle) := by
  rw [queue]
  cases hget : Assoc.get? h.waiters p with
  | none =>
    rw [Assoc.erase_of_notMem (Assoc.get?_eq_none_iff.1 hget)]
    exact .refl _
  | some ws => exact (Assoc.perm_of_get? ht.waiters hget).flatMap_right _

theorem exists_of_mem_queue {x : Waiter ρ} (hx : x ∈ h.queue p) :
    ∃ ws, Assoc.get? h.waiters p = some ws ∧ x ∈ ws := by
  rw [queue] at hx
  cases hget : Assoc.get? h.waiters p with
  | none =>
    rw [hget] at hx
    cases hx
  | some ws =>
    rw [hget] at hx
    exact ⟨ws, rfl, hx⟩

theorem mem_parked {a : ρ} (ha : a ∈ h.parked) : ∃ p ws x, (p, ws) ∈ h.waiters ∧ x ∈ ws ∧
    x.handle = a := by
  obtain ⟨⟨p, ws⟩, hp, ha⟩ := List.mem_flatMap.1 ha
  obtain ⟨x, hx, rfl⟩ := List.mem_map.1 ha
  exact ⟨p, ws, x, hp, hx, rfl⟩

theorem mem_awaited {a : ρ} (ha : a ∈ h.awaited) : ∃ id o, (id, o) ∈ h.outbound ∧ o.reply = a := by
  obtain ⟨⟨id, o⟩, ho, rfl⟩ := List.mem_map.1 ha
  exact ⟨id, o, ho, rfl⟩

/-! ### Commands that go on -/

/-- The frames of commands that go on, with the next numbers of each protocol. -/
def frames (p : PeerId) : (next : StreamProtocol → Nat) → List (Waiter ρ) → List (Sent ρ)
  | _, [] => []
  | next, .dial _ :: ws => frames p next ws
  | next, .send protocol data reply :: ws =>
    ⟨next protocol, p, protocol, data, reply⟩ :: frames p (advance next protocol) ws

/-- The frames that a host sends on a command or on an event. -/
def issued (h : Machine ρ) (swarm : Swarm) : Command ρ ⊕ Event → List (Sent ρ)
  | .inl c => if swarm.isConnected c.peer then frames c.peer h.nextRequest [c.waiter] else []
  | .inr (.connected p) => frames p h.nextRequest (h.queue p)
  | .inr _ => []

theorem peer_of_mem_frames {next : StreamProtocol → Nat} {ws : List (Waiter ρ)} {x : Sent ρ}
    (hx : x ∈ frames p next ws) : x.peer = p := by
  induction ws generalizing next with
  | nil => cases hx
  | cons y ws ih =>
    cases y with
    | dial reply => exact ih hx
    | send protocol data reply =>
      rcases List.mem_cons.1 hx with rfl | hx
      · rfl
      · exact ih hx

theorem waiters_goOn (p : PeerId) (ws : List (Waiter ρ)) (h : Machine ρ) :
    (goOn p ws h).1.waiters = h.waiters := by
  induction ws generalizing h with
  | nil => rfl
  | cons x ws ih =>
    cases x with
    | dial reply => exact ih h
    | send protocol data reply => exact ih _

/-- A frame that is sent has nobody replied to. -/
theorem replies_sendRequest (h : Machine ρ) (p : PeerId) (protocol : StreamProtocol) (data : Bytes)
    (a : ρ) : replies (h.sendRequest p protocol data a).2 = [] := by
  simp [replies, sendRequest, displace, Effect.reply?]

theorem requests_sendRequest (h : Machine ρ) (p : PeerId) (protocol : StreamProtocol)
    (data : Bytes) (a : ρ) :
    requests (h.sendRequest p protocol data a).2 =
      [(h.nextRequest protocol, p, protocol, data)] := by
  simp [requests, sendRequest, displace, Effect.request?]

theorem dropped_sendRequest (h : Machine ρ) (p : PeerId) (protocol : StreamProtocol) (data : Bytes)
    (a : ρ) : dropped (h.sendRequest p protocol data a).2 =
      (Assoc.get? h.outbound (h.nextRequest protocol)).toList.map fun o => o.reply := by
  cases hget : Assoc.get? h.outbound (h.nextRequest protocol) <;>
    simp [dropped, sendRequest, displace, List.filterMap_cons, Effect.dropped?, hget]

theorem replies_goOn (p : PeerId) (ws : List (Waiter ρ)) (h : Machine ρ) :
    replies (goOn p ws h).2 = ws.filterMap Waiter.told? := by
  induction ws generalizing h with
  | nil => rfl
  | cons x ws ih =>
    cases x with
    | dial reply => exact congrArg (List.cons (reply, .ok ())) (ih h)
    | send protocol data reply =>
      rw [goOn, replies_append, replies_sendRequest]
      exact ih _

/-- Commands that go on send their frames. -/
theorem requests_goOn (p : PeerId) (ws : List (Waiter ρ)) (h : Machine ρ) :
    requests (goOn p ws h).2 = (frames p h.nextRequest ws).map Sent.request := by
  induction ws generalizing h with
  | nil => rfl
  | cons x ws ih =>
    cases x with
    | dial reply => exact ih h
    | send protocol data reply =>
      rw [goOn, requests_append, requests_sendRequest]
      exact congrArg (List.cons _) (ih _)

/-- The handle of a frame is kept, and that of a frame with its number is thrown away. -/
theorem Tidy.keeps_sendRequest (ht : h.Tidy) (p : PeerId) (protocol : StreamProtocol)
    (data : Bytes) (a : ρ) : Keeps [a] h (h.sendRequest p protocol data a) := by
  classical
  refine ⟨⟨ht.waiters, Assoc.nodup_keys_put ht.outbound _ _⟩, List.perm_iff_count.2 fun b => ?_⟩
  -- The frames under other numbers are the same before and after, in some order.
  have hbefore := Assoc.perm_get? ht.outbound (h.nextRequest protocol)
  have hafter := Assoc.perm_put ht.outbound (h.nextRequest protocol) ⟨p, protocol, a⟩
  have hbefore := (hbefore.map fun q => q.2.reply).count_eq b
  have hafter := (hafter.map fun q => q.2.reply).count_eq b
  have hparked : (h.sendRequest p protocol data a).1.parked = h.parked := rfl
  rw [replies_sendRequest, dropped_sendRequest, hparked]
  simp only [List.map_append, List.map_map, List.map_cons, List.map_nil, List.count_append,
    List.count_cons, List.count_nil, Function.comp_def, awaited, sendRequest] at hbefore hafter ⊢
  omega

theorem Tidy.keeps_goOn (ht : h.Tidy) (p : PeerId) (ws : List (Waiter ρ)) :
    Keeps (ws.map Waiter.handle) h (goOn p ws h) := by
  induction ws generalizing h with
  | nil => exact ⟨ht, .refl _⟩
  | cons x ws ih =>
    cases x with
    | dial reply =>
      have hfirst : Keeps [reply] h (h, [.reply reply (.ok ())]) := ⟨ht, .refl _⟩
      exact hfirst.append (ih ht)
    | send protocol data reply =>
      have hfirst := ht.keeps_sendRequest p protocol data reply
      exact hfirst.append (ih hfirst.tidy)

/-! ### What a host does on a command -/

/-- What a host does on a command: the frames that it sends, what it keeps, and the effects. -/
inductive CommandCase (h : Machine ρ) (swarm : Swarm) (c : Command ρ) :
    List (Sent ρ) → Machine ρ × List (Effect ρ) → Prop
  | goesOn (hc : swarm.isConnected c.peer = true) :
      CommandCase h swarm c (frames c.peer h.nextRequest [c.waiter])
        (Machine.goOn c.peer [c.waiter] h)
  | refused (hc : swarm.isConnected c.peer = false) (e : TransportError) :
      CommandCase h swarm c [] (h, [.reply c.handle (.error e)])
  | dials (hc : swarm.isConnected c.peer = false) {addrs : List Multiaddr}
      (hd : swarm.dial c.peer addrs = .started) :
      CommandCase h swarm c [] (h.park c.peer c.waiter, [.dial c.peer addrs])
  | joins (hc : swarm.isConnected c.peer = false) {addrs : List Multiaddr}
      (hd : swarm.dial c.peer addrs = .underWay) :
      CommandCase h swarm c [] (h.park c.peer c.waiter, [])

theorem startDial_cases (h : Machine ρ) {swarm : Swarm} (c : Command ρ) (addrs : List Multiaddr)
    (hc : swarm.isConnected c.peer = false) :
    CommandCase h swarm c [] (h.startDial swarm c.peer addrs c.waiter) := by
  unfold startDial
  split_ifs
  · exact .refused hc _
  · split
    · exact .dials hc ‹_›
    · exact .joins hc ‹_›
    · exact .refused hc _

/-- A command for a connected peer goes on. -/
theorem onCommand_of_isConnected (h : Machine ρ) {swarm : Swarm} (store : PeerStore) (now : Nat)
    {c : Command ρ} (hc : swarm.isConnected c.peer = true) :
    h.onCommand swarm store now c = goOn c.peer [c.waiter] h := by
  cases c with
  | send peer protocol data reply =>
    exact (if_pos hc).trans (Prod.ext rfl (List.append_nil _).symm)
  | dial peer addrs reply => exact if_pos hc

/-- **A host does nothing else on a command.** -/
theorem onCommand_cases (h : Machine ρ) (swarm : Swarm) (store : PeerStore) (now : Nat)
    (c : Command ρ) :
    CommandCase h swarm c (h.issued swarm (.inl c)) (h.onCommand swarm store now c) := by
  rw [issued]
  cases hc : swarm.isConnected c.peer with
  | false =>
    have hstart addrs := startDial_cases h c addrs hc
    cases c <;> simp only [Command.peer, Command.waiter] at hc hstart <;>
      simp only [onCommand, hc, Bool.false_eq_true, if_false] <;> exact hstart _
  | true =>
    rw [if_pos rfl, onCommand_of_isConnected h store now hc]
    exact .goesOn hc

variable {swarm : Swarm} {c : Command ρ} {sent : List (Sent ρ)} {r : Machine ρ × List (Effect ρ)}

theorem queue_park (h : Machine ρ) (p q : PeerId) (x : Waiter ρ) :
    (h.park p x).queue q = if q = p then h.queue p ++ [x] else h.queue q := by
  simp only [queue, park, Assoc.modify, Assoc.get?_put]
  split_ifs <;> rfl

theorem Tidy.park (ht : h.Tidy) (p : PeerId) (x : Waiter ρ) : (h.park p x).Tidy :=
  ⟨Assoc.nodup_keys_put ht.waiters _ _, ht.outbound⟩

/-- A command that waits for a dial is kept. -/
theorem Tidy.keeps_park (ht : h.Tidy) (p : PeerId) (x : Waiter ρ) {effects : List (Effect ρ)}
    (hr : replies effects = []) (hd : dropped effects = []) :
    Keeps [x.handle] h (h.park p x, effects) := by
  classical
  refine ⟨ht.park p x, List.perm_iff_count.2 fun a => ?_⟩
  -- The waiters for other peers are the same before and after, in some order.
  have hbefore := (ht.parked_perm p).count_eq a
  have hafter := ((ht.park p x).parked_perm p).count_eq a
  have hrest : Assoc.erase (h.park p x).waiters p = Assoc.erase h.waiters p :=
    Assoc.erase_put ..
  rw [queue_park, if_pos rfl, hrest] at hafter
  have hawaited : (h.park p x).awaited = h.awaited := rfl
  simp only [hr, hd, hawaited, List.map_nil, List.nil_append, List.map_append, List.map_cons,
    List.count_append] at hbefore hafter ⊢
  omega

/-- **A host sends the frames that it should on a command.** -/
theorem CommandCase.requests (hr : CommandCase h swarm c sent r) :
    requests r.2 = sent.map Sent.request := by
  cases hr with
  | goesOn => exact requests_goOn ..
  | _ => rfl

/-- **Each handle is replied to, kept or thrown away on a command**, and none is doubled. -/
theorem CommandCase.keeps (hr : CommandCase h swarm c sent r) (ht : h.Tidy) :
    Keeps [c.handle] h r := by
  cases hr with
  | goesOn => exact ht.keeps_goOn c.peer [c.waiter]
  | refused => exact ⟨ht, .refl _⟩
  | dials => exact ht.keeps_park c.peer c.waiter rfl rfl
  | joins => exact ht.keeps_park c.peer c.waiter rfl rfl

/-! ### What a host does on an event -/

/-- The host without those who wait for a dial to a peer. -/
def released (h : Machine ρ) (p : PeerId) : Machine ρ :=
  { h with waiters := Assoc.erase h.waiters p }

/-- The host without the frame that it has under a number. -/
def relieved (h : Machine ρ) (id : Nat) : Machine ρ :=
  { h with outbound := Assoc.erase h.outbound id }

/-- What those who wait for a dial are told if it fails. -/
def failAll (p : PeerId) (reason : String) (ws : List (Waiter ρ)) : List (Effect ρ) :=
  ws.map fun x => .reply x.handle (.error (.dial p reason))

/-- What a host does on an event: the frames that it sends, what it keeps, and the effects. -/
inductive EventCase (h : Machine ρ) (swarm : Swarm) (e : Event) :
    List (Sent ρ) → Machine ρ × List (Effect ρ) → Prop
  | connected {p : PeerId} (he : e = .connected p) {h₁ h' : Machine ρ} {effects : List (Effect ρ)}
      (h₁like : h₁.Like (h.released p)) (hlike : h'.Like (Machine.goOn p (h.queue p) h₁).1)
      (hquiet : Quiet effects) :
      EventCase h swarm e (frames p h.nextRequest (h.queue p))
        (h', (Machine.goOn p (h.queue p) h₁).2 ++ effects)
  | dialFailed {p : PeerId} {reason : String} (he : e = .dialFailed p reason)
      (hc : swarm.isConnected p = false) :
      EventCase h swarm e [] (h.released p, failAll p reason (h.queue p))
  | ended {protocol : StreamProtocol} {id : Nat} {o : Outbound ρ}
      {result : Except TransportError Unit} (he : e.ended? = some (protocol, id))
      (ho : Assoc.get? h.outbound id = some o)
      (hok : result = .ok () → e = .answered protocol id acknowledgement) :
      EventCase h swarm e [] (h.relieved id, [.reply o.reply result])
  | idle {h' : Machine ρ} {effects : List (Effect ρ)} (hlike : h'.Like h) (hquiet : Quiet effects)
      (hconnected : ∀ p, e ≠ .connected p)
      (hfailed : ∀ p reason, e = .dialFailed p reason → swarm.isConnected p = true)
      (hended : ∀ n, e.ended? = some n → Assoc.get? h.outbound n.2 = none) :
      EventCase h swarm e [] (h', effects)

theorem like_trim (h : Machine ρ) (now : Nat) : (h.trim now).1.Like h := by
  unfold trim
  split <;> exact ⟨rfl, rfl, rfl⟩

theorem quiet_trim (h : Machine ρ) (now : Nat) : Quiet (h.trim now).2 := by
  unfold trim
  split <;> simp [Quiet, Effect.reply?, Effect.dropped?, Effect.request?]

theorem like_discoverAll (ds : List Discovered) (h : Machine ρ) :
    (discoverAll ds h).1.Like h := by
  induction ds generalizing h with
  | nil => exact ⟨rfl, rfl, rfl⟩
  | cons d ds ih =>
    have hdiscover : (h.discover d).1.Like h := by
      rw [discover]
      split_ifs <;> exact ⟨rfl, rfl, rfl⟩
    obtain ⟨hw, ho, hn⟩ := ih (h.discover d).1
    exact ⟨hw.trans hdiscover.waiters, ho.trans hdiscover.outbound, hn.trans hdiscover.nextRequest⟩

theorem settleRequest_cases (h : Machine ρ) (swarm : Swarm) {e : Event} {protocol : StreamProtocol}
    {id : Nat} {result : Outbound ρ → Except TransportError Unit}
    (he : e.ended? = some (protocol, id))
    (hother : (∀ p, e ≠ .connected p) ∧ ∀ p reason, e ≠ .dialFailed p reason)
    (hok : ∀ o, result o = .ok () → e = .answered protocol id acknowledgement) :
    EventCase h swarm e [] (h.settleRequest id result) := by
  unfold settleRequest
  split
  · exact .ended he ‹_› (hok _)
  · rename_i hnone
    refine .idle ⟨rfl, rfl, rfl⟩ (by simp [Quiet]) hother.1
      (fun p reason heq => absurd heq (hother.2 p reason)) fun n hn => ?_
    obtain rfl := Option.some.inj (he.symm.trans hn)
    exact hnone

/-- **A host does nothing else on an event.** -/
theorem onEvent_cases (h : Machine ρ) (swarm : Swarm) (store : PeerStore) (now : Nat) (e : Event) :
    EventCase h swarm e (h.issued swarm (.inr e))
      ((h.onEvent swarm store now e).1, (h.onEvent swarm store now e).2.2.2) := by
  have hidle {e : Event} {h' : Machine ρ} {effects : List (Effect ρ)} (hlike : h'.Like h)
      (hquiet : Quiet effects)
      (hother : (∀ p, e ≠ .connected p) ∧ (∀ p reason, e ≠ .dialFailed p reason) ∧
        e.ended? = none) : EventCase h swarm e [] (h', effects) :=
    .idle hlike hquiet hother.1 (fun p reason heq => absurd heq (hother.2.1 p reason))
      fun n hn => by
        rw [hother.2.2] at hn
        cases hn
  have hnil : Quiet ([] : List (Effect ρ)) := fun f hf => absurd hf List.not_mem_nil
  cases e with
  | connected p =>
    exact .connected rfl ⟨rfl, rfl, rfl⟩ (like_trim _ now) (quiet_trim _ now)
  | closed p left => exact hidle ⟨rfl, rfl, rfl⟩ hnil (by simp [Event.ended?])
  | dialFailed p reason =>
    cases hc : swarm.isConnected p with
    | true =>
      simp only [onEvent, hc, if_true]
      refine .idle ⟨rfl, rfl, rfl⟩ hnil (by simp) (fun q reason' heq => ?_) (by simp [Event.ended?])
      obtain ⟨rfl, -⟩ := Event.dialFailed.inj heq
      exact hc
    | false =>
      simp only [onEvent, hc, Bool.false_eq_true, if_false]
      exact .dialFailed rfl hc
  | frame p protocol data =>
    unfold onEvent
    split_ifs <;> refine hidle ⟨rfl, rfl, rfl⟩ ?_ (by simp [Event.ended?]) <;>
      simp [Quiet, Effect.reply?, Effect.dropped?, Effect.request?]
  | answered protocol id answer =>
    refine settleRequest_cases h swarm rfl (by simp) fun o hok => ?_
    unfold ofAnswer at hok
    split_ifs at hok with hack
    rw [hack]
  | unanswered protocol id reason => exact settleRequest_cases h swarm rfl (by simp) (by simp)
  | identified p version key addrs =>
    refine hidle ⟨rfl, rfl, rfl⟩ ?_ (by simp [Event.ended?])
    simp only [onEvent, onIdentified]
    split_ifs <;> simp [Quiet, Effect.reply?, Effect.dropped?, Effect.request?]
  | discovered found => exact hidle (like_discoverAll _ h) hnil (by simp [Event.ended?])
  | expired found => exact hidle ⟨rfl, rfl, rfl⟩ hnil (by simp [Event.ended?])
  | tick => exact hidle (like_trim h now) (quiet_trim h now) (by simp [Event.ended?])

variable {e : Event}

theorem queue_released (h : Machine ρ) (p q : PeerId) :
    (h.released p).queue q = if q = p then [] else h.queue q := by
  simp only [queue, released, Assoc.get?_erase]
  split_ifs <;> rfl

theorem Tidy.released (ht : h.Tidy) (p : PeerId) : (h.released p).Tidy :=
  ⟨Assoc.nodup_keys_erase ht.waiters p, ht.outbound⟩

/-- Those who wait for a dial to a peer, and everybody else. -/
theorem Tidy.perm_released (ht : h.Tidy) (p : PeerId) : (h.parked ++ h.awaited).Perm
    ((h.queue p).map Waiter.handle ++ ((h.released p).parked ++ (h.released p).awaited)) := by
  rw [← List.append_assoc]
  exact (ht.parked_perm p).append_right _

theorem replies_failAll (p : PeerId) (reason : String) (ws : List (Waiter ρ)) :
    replies (failAll p reason ws) = ws.map fun x => (x.handle, .error (.dial p reason)) := by
  simp [replies, failAll, List.filterMap_map, Function.comp_def, Effect.reply?]

theorem dropped_failAll (p : PeerId) (reason : String) (ws : List (Waiter ρ)) :
    dropped (failAll p reason ws) = [] := by
  simp [dropped, failAll, List.filterMap_map, Function.comp_def, Effect.dropped?]

theorem requests_failAll (p : PeerId) (reason : String) (ws : List (Waiter ρ)) :
    requests (failAll p reason ws) = [] := by
  simp [requests, failAll, List.filterMap_map, Function.comp_def, Effect.request?]

/-- **A host sends the frames that it should on an event.** -/
theorem EventCase.requests (hr : EventCase h swarm e sent r) :
    requests r.2 = sent.map Sent.request := by
  cases hr with
  | connected he h₁like hlike hquiet =>
    rw [requests_append, hquiet.requests, List.append_nil, requests_goOn, h₁like.nextRequest]
    rfl
  | dialFailed => exact requests_failAll ..
  | ended => rfl
  | idle hlike hquiet => exact hquiet.requests

/-- **Each handle is replied to, kept or thrown away on an event**, and none is doubled. -/
theorem EventCase.keeps (hr : EventCase h swarm e sent r) (ht : h.Tidy) : Keeps [] h r := by
  cases hr with
  | @connected p he h₁ h' effects h₁like hlike hquiet =>
    have hgoes := (h₁like.tidy (ht.released p)).keeps_goOn p (h.queue p)
    refine ⟨hlike.tidy hgoes.tidy, ?_⟩
    rw [replies_append, hquiet.replies, List.append_nil, dropped_append, hquiet.dropped,
      List.append_nil, hlike.parked, hlike.awaited]
    refine ((ht.perm_released p).trans ?_).trans hgoes.perm
    rw [h₁like.parked, h₁like.awaited]
  | @dialFailed p reason he hc =>
    refine ⟨ht.released p, ?_⟩
    rw [replies_failAll, dropped_failAll, List.map_map, List.append_nil]
    exact ht.perm_released p
  | @ended protocol id o result he ho hok =>
    have herase := Assoc.perm_of_get? ht.outbound ho
    exact ⟨⟨ht.waiters, Assoc.nodup_keys_erase ht.outbound id⟩,
      ((herase.map _).append_left _).trans List.perm_middle⟩
  | idle hlike hquiet =>
    refine ⟨hlike.tidy ht, ?_⟩
    rw [hquiet.replies, hquiet.dropped, hlike.parked, hlike.awaited]
    exact .refl _

end Machine

end KeyCustody.Host
