import KeyCustody.Proofs.Host.Conservation
import KeyCustody.Proofs.Host.Interleaving
import Mathlib.Data.Set.Insert
/-!
# The frames and dials of a host

The frames that a host sends to one peer go out in the order of their commands: none waits while the
peer is connected, and when it gets connected all that wait go out before any other. For the same
reason commands wait only for dials that are under way, provided that the swarm says so of no other.
A client is told that all went well if it wanted a peer dialed, or on the acknowledgement of a frame
with the number of its own.

## Main definitions

* `sentTo`, `Machine.waitingFor`: the frames for a peer, sent and waiting.
* `Machine.Dialed`: commands wait for dials that are under way.
* `KeepsWatch`, `Event.Dials`: what the swarm says of dials, and what becomes of them.

## Main results

* `Machine.CommandCase.ordered`, `Machine.EventCase.ordered`: the order of frames.
* `Machine.CommandCase.ok`, `Machine.EventCase.ok`: who is told that all went well.
* `Machine.CommandCase.dialed`, `Machine.EventCase.dialed`: who waits for a dial.
-/

namespace KeyCustody.Host

open Net (Multiaddr TransportError)
open Peer (PeerId PeerStore)
open Wire (StreamProtocol acknowledgement)

variable {ρ : Type}

/-! ### Frames for a peer -/

/-- A command is to send a frame to a peer. -/
def Command.isSendTo (p : PeerId) : Command ρ → Bool
  | .send q .. => q = p
  | .dial .. => false

/-- The command of a frame that waits for a dial to a peer. -/
def Waiter.send? (p : PeerId) : Waiter ρ → Option (Command ρ)
  | .send protocol data reply => some (.send p protocol data reply)
  | .dial _ => none

/-- The commands of the frames that were sent to a peer. -/
def sentTo (p : PeerId) (xs : List (Sent ρ)) : List (Command ρ) :=
  (xs.filter fun x => x.peer = p).map Sent.command

/-- The commands of the frames that wait for a dial to a peer. -/
def Machine.waitingFor (h : Machine ρ) (p : PeerId) : List (Command ρ) :=
  (h.queue p).filterMap (Waiter.send? p)

theorem filter_isSendTo (c : Command ρ) (p : PeerId) :
    [c].filter (Command.isSendTo p) = if p = c.peer then [c.waiter].filterMap (Waiter.send? p)
      else [] := by
  cases c with
  | send q protocol data reply =>
    by_cases hp : p = q
    · simp [Command.isSendTo, Command.peer, Command.waiter, Waiter.send?, hp]
    · simp [Command.isSendTo, Command.peer, hp, Ne.symm hp]
  | dial q addrs reply => simp [Command.isSendTo, Command.waiter, Waiter.send?]

theorem Waiter.eq_dial_of_told {x : Waiter ρ} {a : ρ} {result : Except TransportError Unit}
    (hx : x.told? = some (a, result)) : x = .dial a := by
  cases x with
  | dial reply =>
    obtain ⟨rfl, -⟩ := Prod.mk.inj (Option.some.inj hx)
    rfl
  | send protocol data reply => cases hx

/-- A command that waits as a dial is one to dial. -/
theorem Command.eq_dial_of_waiter {c : Command ρ} {a : ρ} (hc : c.waiter = .dial a) :
    ∃ p addrs, c = .dial p addrs a := by
  cases c with
  | send p protocol data reply => cases hc
  | dial p addrs reply =>
    obtain rfl := Waiter.dial.inj hc
    exact ⟨p, addrs, rfl⟩

theorem sentTo_append (p : PeerId) (xs ys : List (Sent ρ)) :
    sentTo p (xs ++ ys) = sentTo p xs ++ sentTo p ys := by
  rw [sentTo, List.filter_append, List.map_append, sentTo, sentTo]

theorem command_mem_sentTo {x : Sent ρ} {xs : List (Sent ρ)} (hx : x ∈ xs) :
    x.command ∈ sentTo x.peer xs :=
  List.mem_map_of_mem (List.mem_filter.2 ⟨hx, decide_eq_true rfl⟩)

namespace Machine

variable {h h' : Machine ρ} {p q : PeerId} {swarm : Swarm} {c : Command ρ} {e : Event}
  {sent : List (Sent ρ)} {r : Machine ρ × List (Effect ρ)}

theorem command_frames (p : PeerId) (next : StreamProtocol → Nat) (ws : List (Waiter ρ)) :
    (frames p next ws).map Sent.command = ws.filterMap (Waiter.send? p) := by
  induction ws generalizing next with
  | nil => rfl
  | cons x ws ih =>
    cases x with
    | dial reply => exact ih next
    | send protocol data reply => exact congrArg (List.cons _) (ih _)

theorem sentTo_frames (p q : PeerId) (next : StreamProtocol → Nat) (ws : List (Waiter ρ)) :
    sentTo q (frames p next ws) = if q = p then ws.filterMap (Waiter.send? p) else [] := by
  split_ifs with hq
  · have hall : (frames p next ws).filter (fun x => x.peer = q) = frames p next ws :=
      List.filter_eq_self.2 fun x hx => decide_eq_true ((peer_of_mem_frames hx).trans hq.symm)
    rw [sentTo, hall, command_frames]
  · have hnone : (frames p next ws).filter (fun x => x.peer = q) = [] := by
      refine List.filter_eq_nil_iff.2 fun x hx => ?_
      rw [decide_eq_true_eq, peer_of_mem_frames hx]
      exact Ne.symm hq
    rw [sentTo, hnone, List.map_nil]

theorem waitingFor_park (h : Machine ρ) (p q : PeerId) (x : Waiter ρ) :
    (h.park p x).waitingFor q =
      h.waitingFor q ++ if q = p then [x].filterMap (Waiter.send? q) else [] := by
  rw [waitingFor, queue_park, waitingFor]
  split_ifs with hq
  · rw [hq, List.filterMap_append]
  · rw [List.append_nil]

theorem waitingFor_released (h : Machine ρ) (p q : PeerId) :
    (h.released p).waitingFor q = if q = p then [] else h.waitingFor q := by
  rw [waitingFor, queue_released]
  split_ifs <;> rfl

theorem Like.waitingFor (hl : Like h h') (p : PeerId) : h.waitingFor p = h'.waitingFor p := by
  rw [Machine.waitingFor, hl.queue, Machine.waitingFor]

theorem queue_goOn (p : PeerId) (ws : List (Waiter ρ)) (h : Machine ρ) (q : PeerId) :
    (goOn p ws h).1.queue q = h.queue q := by
  rw [queue, waiters_goOn, queue]

theorem waitingFor_goOn (p : PeerId) (ws : List (Waiter ρ)) (h : Machine ρ) (q : PeerId) :
    (goOn p ws h).1.waitingFor q = h.waitingFor q := by
  rw [waitingFor, queue_goOn, waitingFor]

/-! ### The order of frames -/

/-- **Frames for a peer go out in the order of their commands**, if none waits while the peer is
connected. -/
theorem CommandCase.ordered (hr : CommandCase h swarm c sent r)
    (hempty : swarm.isConnected c.peer = true → h.waitingFor c.peer = []) (p : PeerId) :
    (sentTo p sent ++ r.1.waitingFor p).Sublist
      (h.waitingFor p ++ [c].filter (Command.isSendTo p)) := by
  rw [filter_isSendTo]
  cases hr with
  | goesOn hc =>
    -- Nothing waits for a connected peer, so that the new frame is the next one.
    rw [sentTo_frames, waitingFor_goOn]
    split_ifs with hp
    · rw [hp, hempty hc, List.append_nil, List.nil_append]
    · rw [List.append_nil, List.nil_append]
  | refused => exact List.sublist_append_left _ _
  | dials =>
    rw [waitingFor_park]
    split_ifs with hp
    · rw [hp]
      exact .refl _
    · exact .refl _
  | joins =>
    rw [waitingFor_park]
    split_ifs with hp
    · rw [hp]
      exact .refl _
    · exact .refl _

theorem EventCase.ordered (hr : EventCase h swarm e sent r) (p : PeerId) :
    (sentTo p sent ++ r.1.waitingFor p).Sublist (h.waitingFor p) := by
  cases hr with
  | @connected q he h₁ h' effects h₁like hlike hquiet =>
    rw [sentTo_frames, hlike.waitingFor, waitingFor_goOn, h₁like.waitingFor, waitingFor_released,
      ← waitingFor]
    split_ifs with hp
    · rw [hp, List.append_nil]
    · exact .refl _
  | @dialFailed q reason he hc =>
    rw [waitingFor_released]
    split_ifs
    · exact List.nil_sublist _
    · exact .refl _
  | ended => exact .refl _
  | idle hlike hquiet =>
    rw [hlike.waitingFor]
    exact .refl _

/-! ### Replies that all went well -/

theorem CommandCase.ok (hr : CommandCase h swarm c sent r) {a : ρ}
    (hok : (a, .ok ()) ∈ replies r.2) : c.waiter = .dial a := by
  cases hr with
  | goesOn =>
    rw [replies_goOn] at hok
    obtain ⟨x, hx, htold⟩ := List.mem_filterMap.1 hok
    obtain rfl := List.mem_singleton.1 hx
    exact Waiter.eq_dial_of_told htold
  | refused => simp [replies, Effect.reply?] at hok
  | dials => cases hok
  | joins => cases hok

theorem EventCase.ok (hr : EventCase h swarm e sent r) {a : ρ} (hok : (a, .ok ()) ∈ replies r.2) :
    (∃ p, .dial a ∈ h.queue p) ∨ ∃ protocol id o, e = .answered protocol id acknowledgement ∧
      Assoc.get? h.outbound id = some o ∧ o.reply = a := by
  cases hr with
  | @connected p he h₁ h' effects h₁like hlike hquiet =>
    rw [replies_append, hquiet.replies, List.append_nil, replies_goOn] at hok
    obtain ⟨x, hx, htold⟩ := List.mem_filterMap.1 hok
    exact .inl ⟨p, Waiter.eq_dial_of_told htold ▸ hx⟩
  | dialFailed =>
    rw [replies_failAll] at hok
    simp at hok
  | @ended protocol id o result he ho hwell =>
    obtain ⟨rfl, rfl⟩ := Prod.mk.inj (List.mem_singleton.1 hok)
    obtain rfl := hwell rfl
    exact .inr ⟨protocol, id, o, rfl, ho, rfl⟩
  | idle hlike hquiet =>
    rw [hquiet.replies] at hok
    cases hok

/-! ### Dials under way -/

/-- Commands wait only for dials that are under way, to peers that are not connected. -/
def Dialed (h : Machine ρ) (links : PeerId → Nat) (dialing : Set PeerId) : Prop :=
  ∀ p, h.queue p ≠ [] → p ∈ dialing ∧ links p = 0

end Machine

/-- The dials that a host starts. -/
def dialedBy (effects : List (Effect ρ)) : Set PeerId :=
  {p | ∃ addrs, .dial p addrs ∈ effects}

/-- What may become of the dials under way on an event: a connection may be the end of the dial to
its peer, and a failure is. -/
def Event.Dials (e : Event) (dialing dialing' : Set PeerId) : Prop :=
  match e with
  | .connected p => dialing' = dialing ∨ dialing' = dialing \ {p}
  | .dialFailed p _ => dialing' = dialing \ {p}
  | _ => dialing' = dialing

/-- The swarm says that a dial is under way just if the peer is connected or being dialed. -/
def KeepsWatch (dial : PeerId → List Multiaddr → DialAnswer) (links : PeerId → Nat)
    (dialing : Set PeerId) : Prop :=
  ∀ p addrs, dial p addrs = .underWay ↔ 0 < links p ∨ p ∈ dialing

theorem Event.Dials.mem {e : Event} {dialing dialing' : Set PeerId} {p : PeerId}
    (hd : e.Dials dialing dialing') (hp : p ∈ dialing) :
    p ∈ dialing' ∨ e = .connected p ∨ ∃ reason, e = .dialFailed p reason := by
  cases e with
  | connected q =>
    rcases hd with rfl | rfl
    · exact .inl hp
    · by_cases hq : p = q
      · exact .inr (.inl (by rw [hq]))
      · exact .inl ⟨hp, hq⟩
  | dialFailed q reason =>
    obtain rfl := hd
    by_cases hq : p = q
    · exact .inr (.inr ⟨reason, by rw [hq]⟩)
    · exact .inl ⟨hp, hq⟩
  | _ =>
    obtain rfl := hd
    exact .inl hp

/-- A peer without connections is still without after an event, unless it is a connection. -/
theorem Event.links_eq_zero {e : Event} {links : PeerId → Nat} {p : PeerId}
    (hfits : e.Fits links) (hp : links p = 0) (he : e ≠ .connected p) : e.links links p = 0 := by
  cases e with
  | connected q =>
    have hq : p ≠ q := fun hq => he (by rw [hq])
    rw [Event.links, Function.update_of_ne hq, hp]
  | closed q left =>
    have hq : p ≠ q := by
      rintro rfl
      have hleft : links p = left + 1 := hfits
      omega
    rw [Event.links, Function.update_of_ne hq, hp]
  | _ => exact hp

namespace Machine

variable {h : Machine ρ} {c : Command ρ} {e : Event} {sent : List (Sent ρ)}
  {r : Machine ρ × List (Effect ρ)} {links : PeerId → Nat} {dialing dialing' : Set PeerId}
  {dial : PeerId → List Multiaddr → DialAnswer}

theorem CommandCase.dialed (hr : CommandCase h (swarmOf links dial) c sent r)
    (hdial : KeepsWatch dial links dialing) (hh : h.Dialed links dialing) :
    r.1.Dialed links (dialing ∪ dialedBy r.2) := by
  have hkept {p : PeerId} (hp : h.queue p ≠ []) {ds : Set PeerId} :
      p ∈ dialing ∪ ds ∧ links p = 0 := (hh p hp).imp_left Or.inl
  intro p hp
  cases hr with
  | goesOn =>
    rw [queue_goOn] at hp
    exact hkept hp
  | refused => exact hkept hp
  | @dials hc addrs hd =>
    rw [queue_park] at hp
    split_ifs at hp with hq
    · exact ⟨.inr ⟨addrs, by simp [hq]⟩, by simpa [swarmOf, hq] using hc⟩
    · exact hkept hp
  | @joins hc addrs hd =>
    rw [queue_park] at hp
    split_ifs at hp with hq
    · have hc : links c.peer = 0 := by simpa [swarmOf] using hc
      rw [hq]
      exact ⟨.inl (((hdial c.peer addrs).1 hd).resolve_left (by omega)), hc⟩
    · exact hkept hp

theorem EventCase.dialed (hr : EventCase h (swarmOf (e.links links) dial) e sent r)
    (hfits : e.Fits links) (hd : e.Dials dialing dialing') (hh : h.Dialed links dialing) :
    r.1.Dialed (e.links links) dialing' := by
  -- Those who wait for a dial that is over are not kept.
  have hkept {p : PeerId} (hp : h.queue p ≠ []) (hconnected : e ≠ .connected p)
      (hfailed : ∀ reason, e ≠ .dialFailed p reason) : p ∈ dialing' ∧ e.links links p = 0 := by
    obtain ⟨hdialing, hlinks⟩ := hh p hp
    refine ⟨?_, Event.links_eq_zero hfits hlinks hconnected⟩
    rcases hd.mem hdialing with hmem | heq | ⟨reason, heq⟩
    · exact hmem
    · exact absurd heq hconnected
    · exact absurd heq (hfailed reason)
  intro p hp
  cases hr with
  | @connected q he h₁ h' effects h₁like hlike hquiet =>
    rw [hlike.queue, queue_goOn, h₁like.queue, queue_released] at hp
    split_ifs at hp with hq
    · exact absurd rfl hp
    · subst he
      exact hkept hp (fun heq => hq (Event.connected.inj heq).symm) (by simp)
  | @dialFailed q reason he hc =>
    rw [queue_released] at hp
    split_ifs at hp with hq
    · exact absurd rfl hp
    · subst he
      exact hkept hp (by simp) fun reason' heq => hq (Event.dialFailed.inj heq).1.symm
  | @ended protocol id o result he =>
    refine hkept hp ?_ ?_
    · rintro rfl
      cases he
    · rintro reason rfl
      cases he
  | idle hlike hquiet hconnected hfailed =>
    rw [hlike.queue] at hp
    refine hkept hp (hconnected p) fun reason heq => ?_
    have hlinks := hfailed p reason heq
    rw [heq] at hlinks
    have hzero := (hh p hp).2
    simp [swarmOf, Event.links, hzero] at hlinks

end Machine

end KeyCustody.Host
