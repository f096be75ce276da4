import KeyCustody.Host.Machine
import Mathlib.Tactic.SplitIfs
/-!
# What a host tells its clients

A client whose command cannot be carried out at once waits for a dial, and one whose frame was sent
waits for the answer. A host has no other waiters than those of its commands. Of an event it tells
that all went well to those who wait for a dial to a peer with a new connection, and of a command to
a client that wants a peer dialed that is connected.

## Main definitions

* `Machine.Serves`: the waiters of a host are of some kind.

## Main results

* `Machine.Serves.onEvent`, `Machine.Serves.onCommand`: steps of a host keep the kind of its
  waiters.
* `Machine.ok_of_mem_onEvent`, `Machine.ok_of_mem_onCommand`: to whom a host says that all went
  well, and when.
-/

namespace KeyCustody.Host

open Net (Multiaddr TransportError)
open Node (Discovered)
open Peer (PeerId PeerStore)
open Wire (StreamProtocol)

/-! ### Waiters of a host -/

/-- The peer that a command is for. -/
def Command.peer {ρ : Type} : Command ρ → PeerId
  | .send peer _ _ _ => peer
  | .dial peer _ _ => peer

/-- What waits for a dial if a command cannot be carried out at once. -/
def Command.waiter {ρ : Type} : Command ρ → Waiter ρ
  | .send _ protocol data reply => .send protocol data reply
  | .dial _ _ reply => .dial reply

namespace Machine

variable {ρ : Type} {P : PeerId → Waiter ρ → Prop} {Q : ρ → Prop} {h : Machine ρ} {a : ρ}

/-- The waiters of a host are of some kind that depends on the peer, and so are those who wait for
the answer to a frame. -/
structure Serves (P : PeerId → Waiter ρ → Prop) (Q : ρ → Prop) (h : Machine ρ) : Prop where
  waiters : ∀ p ws, Assoc.get? h.waiters p = some ws → ∀ x ∈ ws, P p x
  outbound : ∀ id o, Assoc.get? h.outbound id = some o → Q o.reply

theorem Serves.mono {P' : PeerId → Waiter ρ → Prop} (hs : h.Serves P Q)
    (hP : ∀ p x, P p x → P' p x) : h.Serves P' Q :=
  ⟨fun p ws hws x hx => hP p x (hs.waiters p ws hws x hx), hs.outbound⟩

theorem Serves.sendRequest (hs : h.Serves P Q) (peer : PeerId) (protocol : StreamProtocol)
    (data : Bytes) (ha : Q a) : (h.sendRequest peer protocol data a).1.Serves P Q where
  waiters := hs.waiters
  outbound id o ho := by
    simp only [Machine.sendRequest, Assoc.get?_put] at ho
    split_ifs at ho
    · obtain rfl := Option.some.inj ho
      exact ha
    · exact hs.outbound id o ho

theorem Serves.startDial (hs : h.Serves P Q) (swarm : Swarm) {peer : PeerId}
    (addrs : List Multiaddr) {x : Waiter ρ} (hx : P peer x) :
    (h.startDial swarm peer addrs x).1.Serves P Q := by
  have hpark : (h.park peer x).Serves P Q := by
    refine ⟨fun p ws hws y hy => ?_, hs.outbound⟩
    simp only [park, Assoc.modify, Assoc.get?_put] at hws
    split_ifs at hws with hp
    · subst hp
      obtain rfl := Option.some.inj hws
      rcases List.mem_append.1 hy with hy | hy
      · cases hold : Assoc.get? h.waiters p with
        | none => simp [hold] at hy
        | some old =>
          rw [hold] at hy
          exact hs.waiters p old hold y hy
      · obtain rfl := List.mem_singleton.1 hy
        exact hx
    · exact hs.waiters p ws hws y hy
  unfold Machine.startDial
  split_ifs
  · exact hs
  · split
    · exact hpark
    · exact hpark
    · exact hs

theorem Serves.onCommand (hs : h.Serves P Q)
    (hsend : ∀ p protocol data a, P p (.send protocol data a) → Q a) {c : Command ρ}
    (hc : P c.peer c.waiter) (swarm : Swarm) (store : PeerStore) (now : Nat) :
    (h.onCommand swarm store now c).1.Serves P Q := by
  cases c with
  | send peer protocol data reply =>
    simp only [Machine.onCommand]
    split_ifs
    · exact hs.sendRequest peer protocol data (hsend _ _ _ _ hc)
    · exact hs.startDial swarm _ hc
  | dial peer addrs reply =>
    simp only [Machine.onCommand]
    split_ifs
    · exact hs
    · exact hs.startDial swarm _ hc

theorem Serves.goOn (hs : h.Serves P Q)
    (hsend : ∀ p protocol data a, P p (.send protocol data a) → Q a) {peer : PeerId}
    {ws : List (Waiter ρ)} (hws : ∀ x ∈ ws, P peer x) : (goOn peer ws h).1.Serves P Q := by
  induction ws generalizing h with
  | nil => exact hs
  | cons x ws ih =>
    obtain ⟨hx, hrest⟩ := List.forall_mem_cons.1 hws
    cases x with
    | dial reply => exact ih hs hrest
    | send protocol data reply =>
      exact ih (hs.sendRequest peer protocol data (hsend _ _ _ _ hx)) hrest

theorem Serves.settleDial (hs : h.Serves P Q)
    (hsend : ∀ p protocol data a, P p (.send protocol data a) → Q a) (peer : PeerId)
    (failure? : Option String) : (h.settleDial peer failure?).1.Serves P Q := by
  have herase : ({ h with waiters := Assoc.erase h.waiters peer } : Machine ρ).Serves P Q := by
    refine ⟨fun p ws hws => ?_, hs.outbound⟩
    rw [Assoc.get?_erase] at hws
    split_ifs at hws
    exact hs.waiters p ws hws
  cases failure? with
  | some reason => exact herase
  | none =>
    refine herase.goOn hsend fun x hx => ?_
    cases hget : Assoc.get? h.waiters peer with
    | none => simp [hget] at hx
    | some ws =>
      rw [hget] at hx
      exact hs.waiters peer ws hget x hx

theorem Serves.settleRequest (hs : h.Serves P Q) (id : Nat)
    (result : Outbound ρ → Except TransportError Unit) :
    (h.settleRequest id result).1.Serves P Q := by
  unfold Machine.settleRequest
  split
  · refine ⟨hs.waiters, fun j o ho => ?_⟩
    rw [Assoc.get?_erase] at ho
    split_ifs at ho
    exact hs.outbound j o ho
  · exact hs

theorem Serves.trim (hs : h.Serves P Q) (now : Nat) : (h.trim now).1.Serves P Q := by
  unfold Machine.trim
  split <;> exact ⟨hs.waiters, hs.outbound⟩

theorem Serves.discoverAll (hs : h.Serves P Q) (ds : List Discovered) :
    (discoverAll ds h).1.Serves P Q := by
  induction ds generalizing h with
  | nil => exact hs
  | cons d ds ih =>
    have hdiscover : (h.discover d).1.Serves P Q := by
      rw [discover]
      split_ifs <;> exact ⟨hs.waiters, hs.outbound⟩
    exact ih hdiscover

/-- A host serves no others after an event. -/
theorem Serves.onEvent (hs : h.Serves P Q)
    (hsend : ∀ p protocol data a, P p (.send protocol data a) → Q a) (swarm : Swarm)
    (store : PeerStore) (now : Nat) (e : Event) : (h.onEvent swarm store now e).1.Serves P Q := by
  cases e with
  | connected peer =>
    have hnoted : ({ h with connections := h.connections.connected peer now } :
        Machine ρ).Serves P Q := ⟨hs.waiters, hs.outbound⟩
    exact (hnoted.settleDial hsend peer none).trim now
  | closed peer left => exact ⟨hs.waiters, hs.outbound⟩
  | dialFailed peer reason =>
    unfold Machine.onEvent
    simp only
    split_ifs
    · exact hs
    · exact hs.settleDial hsend peer _
  | frame peer protocol data =>
    unfold Machine.onEvent
    split_ifs <;> exact hs
  | answered protocol id answer => exact hs.settleRequest id _
  | unanswered protocol id reason => exact hs.settleRequest id _
  | identified peer version key addrs => exact hs
  | discovered found => exact hs.discoverAll _
  | expired found => exact hs
  | tick => exact hs.trim now

/-! ### Replies of a host -/

theorem mem_goOn {peer : PeerId} {ws : List (Waiter ρ)} {result : Except TransportError Unit}
    (hmem : .reply a result ∈ (goOn peer ws h).2) : .dial a ∈ ws := by
  induction ws generalizing h with
  | nil => cases hmem
  | cons x ws ih =>
    cases x with
    | dial reply =>
      rcases List.mem_cons.1 hmem with heq | hmem
      · cases heq
        exact List.mem_cons_self
      · exact List.mem_cons_of_mem _ (ih hmem)
    | send protocol data reply =>
      rcases List.mem_append.1 hmem with heq | hmem
      · simp [displace] at heq
      · exact List.mem_cons_of_mem _ (ih hmem)

theorem reply_notMem_trim (h : Machine ρ) (now : Nat) (a : ρ)
    (result : Except TransportError Unit) : .reply a result ∉ (h.trim now).2 := by
  unfold trim
  split <;> simp

theorem mem_settleRequest {id : Nat} {result : Outbound ρ → Except TransportError Unit}
    {r : Except TransportError Unit} (hmem : .reply a r ∈ (h.settleRequest id result).2) :
    ∃ o, Assoc.get? h.outbound id = some o ∧ o.reply = a := by
  unfold settleRequest at hmem
  split at hmem
  · rename_i o ho
    obtain ⟨rfl, -⟩ : a = o.reply ∧ r = result o := by simpa using hmem
    exact ⟨o, ho, rfl⟩
  · cases hmem

/-- **A host tells on an event that all went well** either those who wait for a dial to a peer with
a new connection, or one who waits for the answer to a frame. -/
theorem ok_of_mem_onEvent (hs : h.Serves P Q) {swarm : Swarm} {store : PeerStore} {now : Nat}
    {e : Event} (hmem : .reply a (.ok ()) ∈ (h.onEvent swarm store now e).2.2.2) :
    (∃ p, e = .connected p ∧ P p (.dial a)) ∨ Q a := by
  cases e with
  | connected peer =>
    rcases List.mem_append.1 hmem with hmem | hmem
    · refine .inl ⟨peer, rfl, ?_⟩
      have hdial := mem_goOn hmem
      cases hget : Assoc.get? h.waiters peer with
      | none => simp [hget] at hdial
      | some ws =>
        rw [hget] at hdial
        exact hs.waiters peer ws hget _ hdial
    · exact absurd hmem (reply_notMem_trim _ now a _)
  | closed peer left => cases hmem
  | dialFailed peer reason =>
    unfold onEvent at hmem
    simp only at hmem
    split_ifs at hmem
    · cases hmem
    · simp [settleDial] at hmem
  | frame peer protocol data =>
    unfold onEvent at hmem
    split_ifs at hmem <;> simp at hmem
  | answered protocol id answer =>
    obtain ⟨o, ho, rfl⟩ := mem_settleRequest hmem
    exact .inr (hs.outbound id o ho)
  | unanswered protocol id reason =>
    obtain ⟨o, ho, rfl⟩ := mem_settleRequest hmem
    exact .inr (hs.outbound id o ho)
  | identified peer version key addrs =>
    unfold onEvent onIdentified at hmem
    simp only at hmem
    split_ifs at hmem <;> simp at hmem
  | discovered found => cases hmem
  | expired found => cases hmem
  | tick => exact absurd hmem (reply_notMem_trim _ now a _)

/-- **A host tells on a command that all went well** just for a dial to a peer that is connected. -/
theorem ok_of_mem_onCommand {swarm : Swarm} {store : PeerStore} {now : Nat} {c : Command ρ}
    (hmem : .reply a (.ok ()) ∈ (h.onCommand swarm store now c).2) :
    c.waiter = .dial a ∧ swarm.isConnected c.peer = true := by
  have hstart (peer : PeerId) (addrs : List Multiaddr) (x : Waiter ρ) :
      .reply a (.ok ()) ∉ (h.startDial swarm peer addrs x).2 := by
    unfold startDial
    split_ifs
    · simp
    · split <;> simp
  cases c with
  | send peer protocol data reply =>
    simp only [onCommand] at hmem
    split_ifs at hmem
    · simp [sendRequest, displace] at hmem
    · exact absurd hmem (hstart _ _ _)
  | dial peer addrs reply =>
    simp only [onCommand] at hmem
    split_ifs at hmem with hconnected
    · obtain rfl : a = reply := by simpa using hmem
      exact ⟨rfl, hconnected⟩
    · exact absurd hmem (hstart _ _ _)

/-! ### What a host does not change -/

theorem version_goOn (peer : PeerId) (ws : List (Waiter ρ)) (h : Machine ρ) :
    (goOn peer ws h).1.version = h.version := by
  induction ws generalizing h with
  | nil => rfl
  | cons x ws ih =>
    cases x with
    | dial reply => exact ih h
    | send protocol data reply => exact ih _

theorem version_settleDial (h : Machine ρ) (peer : PeerId) (failure? : Option String) :
    (h.settleDial peer failure?).1.version = h.version := by
  cases failure? with
  | none => exact version_goOn peer _ _
  | some reason => rfl

theorem version_trim (h : Machine ρ) (now : Nat) : (h.trim now).1.version = h.version := by
  unfold trim
  split <;> rfl

theorem version_discoverAll (ds : List Discovered) (h : Machine ρ) :
    (discoverAll ds h).1.version = h.version := by
  induction ds generalizing h with
  | nil => rfl
  | cons d ds ih =>
    have hdiscover : (h.discover d).1.version = h.version := by
      rw [discover]
      split_ifs <;> rfl
    exact (ih _).trans hdiscover

/-- A host keeps the version that it expects. -/
theorem version_onEvent (h : Machine ρ) (swarm : Swarm) (store : PeerStore) (now : Nat)
    (e : Event) : (h.onEvent swarm store now e).1.version = h.version := by
  cases e with
  | connected peer => exact (version_trim _ now).trans (version_settleDial _ peer none)
  | closed peer left => rfl
  | dialFailed peer reason =>
    unfold onEvent
    simp only
    split_ifs
    · rfl
    · exact version_settleDial h peer _
  | frame peer protocol data =>
    unfold onEvent
    split_ifs <;> rfl
  | answered protocol id answer =>
    simp only [onEvent, settleRequest]
    split <;> rfl
  | unanswered protocol id reason =>
    simp only [onEvent, settleRequest]
    split <;> rfl
  | identified peer version key addrs => rfl
  | discovered found => exact version_discoverAll _ h
  | expired found => rfl
  | tick => exact version_trim h now

theorem version_onCommand (h : Machine ρ) (swarm : Swarm) (store : PeerStore) (now : Nat)
    (c : Command ρ) : (h.onCommand swarm store now c).1.version = h.version := by
  have hstart (peer : PeerId) (addrs : List Multiaddr) (x : Waiter ρ) :
      (h.startDial swarm peer addrs x).1.version = h.version := by
    unfold startDial
    split_ifs
    · rfl
    · split <;> rfl
  cases c with
  | send peer protocol data reply =>
    simp only [onCommand]
    split_ifs
    · rfl
    · exact hstart _ _ _
  | dial peer addrs reply =>
    simp only [onCommand]
    split_ifs
    · rfl
    · exact hstart _ _ _

/-- The store is a matter of what peers tell of themselves. -/
theorem store_onEvent (h : Machine ρ) (swarm : Swarm) (store : PeerStore) (now : Nat) (e : Event) :
    (h.onEvent swarm store now e).2.1 =
      match e with
      | .identified peer version key addrs =>
        (h.onIdentified store now peer version key addrs).1
      | _ => store := by
  cases e with
  | frame peer protocol data =>
    unfold onEvent
    split_ifs <;> rfl
  | _ => rfl

end Machine

end KeyCustody.Host
