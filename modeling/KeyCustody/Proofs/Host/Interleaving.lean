import KeyCustody.Proofs.Host.Machine
import Mathlib.Logic.Function.Basic
/-!
# The host beside the recovery loop

The host and the recovery loop share the peer store, and their steps come in any order. The host
handles events and commands one at a time. The loop takes one discovery after the other: it asks the
host whether the peer is connected, or has it dialed, and goes on with the answer in a step of its
own, so that anything may happen in between. Commands of other clients are among those that the host
handles. What the swarm says about connections follows from the events; what it says to a dial is
left open.

A dial is a command whose reply may come late, when the loop has given it up and is at work on
another peer. Every dial of the loop has a number, and a reply is heard only under the number of the
present one.

## Main definitions

* `Loop`, `World`: how far the loop is, and the state of both with what is between them.
* `Happening`, `World.Step`, `World.Run`: what may happen, and runs.
* `World.Told`: the loop has an answer by which it is about to record a peer.
* `World.Tracked`: the commands and waiters of a host belong to the dials that they are for.

## Main results

* `World.Step.tracked`, `World.Run.tracked`: steps keep track of the dials, and so do runs.
* `World.Step.told`: the loop is told that a peer is connected only while it is.
-/

namespace KeyCustody.Host

open Net (Multiaddr TransportError)
open Node (DialOutcome Discovered Recovery)
open Peer (PeerId PeerStore)
open Wire (StreamProtocol)

/-! ### Connections -/

/-- How many connections to each peer are open after an event. -/
def Event.links (links : PeerId → Nat) : Event → PeerId → Nat
  | .connected peer => Function.update links peer (links peer + 1)
  | .closed peer left => Function.update links peer left
  | _ => links

/-- A connection that is closed is one of those that were open. -/
def Event.Fits (links : PeerId → Nat) : Event → Prop
  | .closed peer left => links peer = left + 1
  | _ => True

/-- The swarm knows which peers have an open connection. -/
def swarmOf (links : PeerId → Nat) (dial : PeerId → List Multiaddr → DialAnswer) : Swarm :=
  ⟨fun p => 0 < links p, dial⟩

/-! ### The loop -/

/-- Who waits for the reply to a command: the recovery loop with one of its dials, or another
client. -/
inductive Asker where
  | loop (dial : Nat)
  | client (n : Nat)
  deriving DecidableEq

/-- How far the recovery loop is. -/
inductive Loop where
  /-- It waits for a discovery. -/
  | idle
  /-- It waits for an answer. -/
  | waiting (r : Recovery)
  /-- It was told whether a peer is connected. -/
  | asked (d : Discovered) (isConnected : Bool)
  /-- It was told how its dial ended, or gave it up. -/
  | dialed (d : Discovered) (outcome : DialOutcome)

/-- The peer that the loop has dialed. -/
def Loop.target? : Loop → Option PeerId
  | .waiting (.dialing d) => some d.peer
  | _ => none

/-- The reply that an effect is for somebody. -/
def Effect.replyTo? (a : Asker) : Effect Asker → Option (Except TransportError Unit)
  | .reply b result => if b = a then some result else none
  | .drop b => if b = a then some (.error .hostClosed) else none
  | _ => none

/-- How a dial ended whose reply this is. -/
def outcomeOf : Except TransportError Unit → DialOutcome
  | .ok () => .connected
  | .error e => .failed e

/-- The loop after effects of the host, of which it hears the reply to its dial. -/
def Loop.hear (dials : Nat) (effects : List (Effect Asker)) : Loop → Loop
  | .waiting (.dialing d) =>
    match effects.findSome? (Effect.replyTo? (.loop dials)) with
    | some result => .dialed d (outcomeOf result)
    | none => .waiting (.dialing d)
  | l => l

/-! ### The system -/

/-- The state of a host and of the recovery loop beside it. -/
structure World where
  host : Machine Asker
  /-- How many connections to each peer are open. -/
  links : PeerId → Nat
  /-- The commands that the host has not handled, the oldest first. -/
  commands : List (Command Asker)
  store : PeerStore
  loop : Loop
  /-- How many dials the loop has started. -/
  dials : Nat

/-- What may happen. -/
inductive Happening where
  /-- The host handles an event. -/
  | event (e : Event)
  /-- The host handles a command. -/
  | command
  /-- A client gives the host a command. -/
  | client
  /-- The loop takes a discovery. -/
  | notice
  /-- The host tells the loop whether a peer is connected. -/
  | answer
  /-- The loop goes on with an answer. -/
  | act
  /-- The loop gives up a dial. -/
  | giveUp

namespace World

/-- The world after the host handled an event. -/
def onEvent (w : World) (e : Event) (dial : PeerId → List Multiaddr → DialAnswer) (now : Nat) :
    World :=
  let links := e.links w.links
  let (host, store, _, effects) := w.host.onEvent (swarmOf links dial) w.store now e
  { w with host, links, store, loop := w.loop.hear w.dials effects }

/-- The world after the host handled a command, with the commands after it. -/
def onCommand (w : World) (c : Command Asker) (commands : List (Command Asker))
    (dial : PeerId → List Multiaddr → DialAnswer) (now : Nat) : World :=
  let (host, effects) := w.host.onCommand (swarmOf w.links dial) w.store now c
  { w with host, commands, loop := w.loop.hear w.dials effects }

/-- The world after the loop went on with the answer whether a peer is connected: if it is not, the
next dial is a command to the host. -/
def onAsked (w : World) (d : Discovered) (isConnected : Bool) (now : Nat) : World :=
  match Recovery.onConnected d isConnected w.store now with
  | (store, none, _) => { w with store, loop := .idle }
  | (store, some r, _) =>
    { w with
      store
      loop := .waiting r
      commands := w.commands ++ [.dial d.peer d.addrs (.loop (w.dials + 1))]
      dials := w.dials + 1 }

/-- The world after the loop went on with the end of a dial. -/
def onDialed (w : World) (d : Discovered) (outcome : DialOutcome) (now : Nat) : World :=
  { w with store := (Recovery.onDial d outcome w.store now).1, loop := .idle }

/-- One step of the host, of the loop or of a client of the host. -/
inductive Step (own : PeerId) : World → Happening → World → Prop
  | event {w : World} (e : Event) (dial : PeerId → List Multiaddr → DialAnswer) (now : Nat)
      (hfits : e.Fits w.links) : Step own w (.event e) (w.onEvent e dial now)
  | command {w : World} {c : Command Asker} {rest : List (Command Asker)}
      (dial : PeerId → List Multiaddr → DialAnswer) (now : Nat)
      (hcommands : w.commands = c :: rest) : Step own w .command (w.onCommand c rest dial now)
  | send {w : World} (peer : PeerId) (protocol : StreamProtocol) (data : Bytes) (n : Nat) :
      Step own w .client
        { w with commands := w.commands ++ [.send peer protocol data (.client n)] }
  | dial {w : World} (peer : PeerId) (addrs : List Multiaddr) (n : Nat) :
      Step own w .client { w with commands := w.commands ++ [.dial peer addrs (.client n)] }
  | notice {w : World} {d : Discovered} {ds : List Discovered} (hloop : w.loop = .idle)
      (hdiscoveries : w.host.discoveries = d :: ds) :
      Step own w .notice { w with
        host := { w.host with discoveries := ds }
        loop := ((Recovery.begin own d).map Loop.waiting).getD .idle }
  | answer {w : World} {d : Discovered} (hloop : w.loop = .waiting (.asking d)) :
      Step own w .answer { w with loop := .asked d (0 < w.links d.peer) }
  | actAsked {w : World} {d : Discovered} {isConnected : Bool} (now : Nat)
      (hloop : w.loop = .asked d isConnected) : Step own w .act (w.onAsked d isConnected now)
  | actDialed {w : World} {d : Discovered} {outcome : DialOutcome} (now : Nat)
      (hloop : w.loop = .dialed d outcome) : Step own w .act (w.onDialed d outcome now)
  | giveUp {w : World} {d : Discovered} (hloop : w.loop = .waiting (.dialing d)) :
      Step own w .giveUp { w with loop := .dialed d .timedOut }

/-- Steps one after another, with what happened in them. -/
inductive Run (own : PeerId) : World → List Happening → World → Prop
  | refl (w : World) : Run own w [] w
  | tail {w w' w'' : World} {hs : List Happening} {h : Happening} (hrun : Run own w hs w')
      (hstep : Step own w' h w'') : Run own w (hs ++ [h]) w''

/-- Host and loop at their start. -/
def start (rendezvous : String) (low high grace room : Nat) (hasHandler : Bool) : World where
  host := Machine.start rendezvous low high grace room hasHandler
  links _ := 0
  commands := []
  store := .empty
  loop := .idle
  dials := 0

/-- The loop has an answer by which it is about to record a peer. -/
def Told (w : World) (p : PeerId) : Prop :=
  ∃ d : Discovered, d.peer = p ∧ (w.loop = .asked d true ∨ w.loop = .dialed d .connected)

/-! ### Dials belong to their peers -/

/-- A waiter belongs to a peer: if it is the loop with a dial, the dial is an earlier one or one to
this peer, and frames are sent by other clients. -/
def Belongs (dials : Nat) (target? : Option PeerId) (p : PeerId) : Waiter Asker → Prop
  | .dial (.loop n) => n ≤ dials ∧ (n = dials → ∀ q ∈ target?, q = p)
  | .dial (.client _) => True
  | .send _ _ a => ∃ n, a = .client n

/-- Every waiter of the host and every command belongs to its peer. -/
structure Tracked (w : World) : Prop where
  serves : w.host.Serves (Belongs w.dials w.loop.target?) fun a => ∃ n, a = .client n
  commands : ∀ c ∈ w.commands, Belongs w.dials w.loop.target? c.peer c.waiter

theorem Belongs.mono {dials : Nat} {target? target'? : Option PeerId} {p : PeerId}
    {x : Waiter Asker} (h : Belongs dials target? p x) (htarget : ∀ q ∈ target'?, q ∈ target?) :
    Belongs dials target'? p x := by
  cases x with
  | send protocol data a => exact h
  | dial a =>
    cases a with
    | client n => trivial
    | loop n => exact ⟨h.1, fun hn q hq => h.2 hn q (htarget q hq)⟩

/-- What belongs to a peer still does when the loop dials another one. -/
theorem Belongs.next {dials : Nat} {target? target'? : Option PeerId} {p : PeerId}
    {x : Waiter Asker} (h : Belongs dials target? p x) : Belongs (dials + 1) target'? p x := by
  cases x with
  | send protocol data a => exact h
  | dial a =>
    cases a with
    | client n => trivial
    | loop n => exact ⟨Nat.le_succ_of_le h.1, fun hn => absurd h.1 (by omega)⟩

/-- Who belongs to a peer and waits for the present dial waits for one to the peer of the loop. -/
theorem Belongs.eq_of_dial {dials : Nat} {p q : PeerId}
    (h : Belongs dials (some q) p (.dial (.loop dials))) : q = p :=
  h.2 rfl q rfl

theorem Tracked.start (rendezvous : String) (low high grace room : Nat) (hasHandler : Bool) :
    (start rendezvous low high grace room hasHandler).Tracked where
  serves := ⟨nofun, nofun⟩
  commands := nofun

end World

/-- The loop has dialed no other peer after it heard something. -/
theorem Loop.mem_target?_hear {dials : Nat} {effects : List (Effect Asker)} {l : Loop} {q : PeerId}
    (hq : q ∈ (l.hear dials effects).target?) : q ∈ l.target? := by
  unfold hear at hq
  split at hq
  · split at hq
    · cases hq
    · exact hq
  · exact hq

/-- The loop has an answer that it had before, or the reply that its dial succeeded. -/
theorem Loop.eq_or_mem_of_hear {dials : Nat} {effects : List (Effect Asker)} {l : Loop}
    {d : Discovered}
    (h : l.hear dials effects = .asked d true ∨ l.hear dials effects = .dialed d .connected) :
    (l = .asked d true ∨ l = .dialed d .connected) ∨
      l = .waiting (.dialing d) ∧ .reply (.loop dials) (.ok ()) ∈ effects := by
  unfold hear at h
  split at h
  · rename_i d'
    split at h
    · rename_i result hresult
      obtain ⟨effect, hmem, heffect⟩ := List.exists_of_findSome?_eq_some hresult
      obtain ⟨rfl, hconnected⟩ : d' = d ∧ outcomeOf result = .connected := by simpa using h
      cases effect with
      | reply b r =>
        simp only [Effect.replyTo?] at heffect
        split_ifs at heffect with hb
        obtain rfl := Option.some.inj heffect
        cases r with
        | ok u => exact .inr ⟨rfl, hb ▸ hmem⟩
        | error e => cases hconnected
      | drop b =>
        simp only [Effect.replyTo?] at heffect
        split_ifs at heffect
        obtain rfl := Option.some.inj heffect
        cases hconnected
      | _ => cases heffect
    · rcases h with h | h <;> cases h
  · exact .inl h

namespace World

variable {own p : PeerId} {w w' : World} {h : Happening}

/-- **Steps keep track of the dials.** -/
theorem Step.tracked (hstep : Step own w h w') (hw : w.Tracked) : w'.Tracked := by
  have hsend (dials : Nat) (target? : Option PeerId) (p : PeerId) (protocol : StreamProtocol)
      (data : Bytes) (a : Asker) (ha : Belongs dials target? p (.send protocol data a)) :
      ∃ n, a = .client n := ha
  cases hstep with
  | event e dial now hfits =>
    refine ⟨?_, fun c hc => (hw.commands c hc).mono fun q => Loop.mem_target?_hear⟩
    exact (hw.serves.onEvent (hsend _ _) _ _ _ e).mono
      fun p x hx => hx.mono fun q => Loop.mem_target?_hear
  | @command c rest dial now hcommands =>
    have hc : c ∈ w.commands := by simp [hcommands]
    refine ⟨?_, fun c' hc' => ?_⟩
    · exact (hw.serves.onCommand (hsend _ _) (hw.commands c hc) _ _ _).mono
        fun p x hx => hx.mono fun q => Loop.mem_target?_hear
    · exact (hw.commands c' (by simp [hcommands, show c' ∈ rest from hc'])).mono
        fun q => Loop.mem_target?_hear
  | send peer protocol data n =>
    refine ⟨hw.serves, fun c hc => ?_⟩
    rcases List.mem_append.1 hc with hc | hc
    · exact hw.commands c hc
    · obtain rfl := List.mem_singleton.1 hc
      exact ⟨n, rfl⟩
  | dial peer addrs n =>
    refine ⟨hw.serves, fun c hc => ?_⟩
    rcases List.mem_append.1 hc with hc | hc
    · exact hw.commands c hc
    · obtain rfl := List.mem_singleton.1 hc
      trivial
  | @notice d ds hloop hdiscoveries =>
    have hnone : ∀ q ∈ (((Recovery.begin own d).map Loop.waiting).getD .idle).target?,
        q ∈ w.loop.target? := by
      unfold Recovery.begin
      split_ifs <;> exact nofun
    exact ⟨⟨fun p ws hws x hx => (hw.serves.waiters p ws hws x hx).mono hnone,
      hw.serves.outbound⟩, fun c hc => (hw.commands c hc).mono hnone⟩
  | answer hloop =>
    exact ⟨hw.serves.mono fun p x hx => hx.mono nofun,
      fun c hc => (hw.commands c hc).mono nofun⟩
  | @actAsked d isConnected now hloop =>
    cases isConnected with
    | true =>
      exact ⟨hw.serves.mono fun p x hx => hx.mono nofun,
        fun c hc => (hw.commands c hc).mono nofun⟩
    | false =>
      refine ⟨hw.serves.mono fun p x hx => hx.next, fun c hc => ?_⟩
      rcases List.mem_append.1 hc with hc | hc
      · exact (hw.commands c hc).next
      · obtain rfl := List.mem_singleton.1 hc
        refine ⟨Nat.le_refl _, fun _ q hq => ?_⟩
        exact (Option.some.inj hq).symm
  | actDialed now hloop =>
    exact ⟨hw.serves.mono fun p x hx => hx.mono nofun,
      fun c hc => (hw.commands c hc).mono nofun⟩
  | giveUp hloop =>
    exact ⟨hw.serves.mono fun p x hx => hx.mono nofun,
      fun c hc => (hw.commands c hc).mono nofun⟩

theorem Run.tracked {hs : List Happening} (hrun : Run own w hs w') (hw : w.Tracked) :
    w'.Tracked := by
  induction hrun with
  | refl => exact hw
  | tail hrun hstep ih => exact hstep.tracked ih

/-! ### Connections and answers -/

/-- A peer has an open connection only if it had one, or has a new one. -/
theorem Step.links (hstep : Step own w h w') (hlinks : 0 < w'.links p) :
    0 < w.links p ∨ h = .event (.connected p) := by
  cases hstep with
  | event e dial now hfits =>
    cases e with
    | connected peer =>
      by_cases hp : p = peer
      · exact .inr (by rw [hp])
      · refine .inl ?_
        simpa [onEvent, Event.links, Function.update_of_ne hp] using hlinks
    | closed peer left =>
      by_cases hp : p = peer
      · subst hp
        have hfits' : w.links p = left + 1 := hfits
        exact .inl (by omega)
      · refine .inl ?_
        simpa [onEvent, Event.links, Function.update_of_ne hp] using hlinks
    | _ => exact .inl hlinks
  | @actAsked d isConnected now hloop => cases isConnected <;> exact .inl hlinks
  | _ => exact .inl hlinks

/-- **The loop is told that a peer is connected only while it is**, or because it is now. -/
theorem Step.told (hstep : Step own w h w') (hw : w.Tracked) (htold : w'.Told p) :
    w.Told p ∨ 0 < w.links p ∨ h = .event (.connected p) := by
  obtain ⟨d, rfl, hloop'⟩ := htold
  cases hstep with
  | event e dial now hfits =>
    rcases Loop.eq_or_mem_of_hear hloop' with hsame | ⟨hdialing, hmem⟩
    · exact .inl ⟨d, rfl, hsame⟩
    · rcases Machine.ok_of_mem_onEvent hw.serves hmem with ⟨q, rfl, hq⟩ | ⟨n, hn⟩
      · rw [hdialing] at hq
        exact .inr (.inr (by rw [hq.eq_of_dial]))
      · cases hn
  | @command c rest dial now hcommands =>
    rcases Loop.eq_or_mem_of_hear hloop' with hsame | ⟨hdialing, hmem⟩
    · exact .inl ⟨d, rfl, hsame⟩
    · obtain ⟨hwaiter, hconnected⟩ := Machine.ok_of_mem_onCommand hmem
      have hc := hw.commands c (by simp [hcommands])
      rw [hwaiter, hdialing] at hc
      refine .inr (.inl ?_)
      rw [hc.eq_of_dial]
      simpa [swarmOf] using hconnected
  | send peer protocol data n => exact .inl ⟨d, rfl, hloop'⟩
  | dial peer addrs n => exact .inl ⟨d, rfl, hloop'⟩
  | @notice d' ds hloop hdiscoveries =>
    unfold Recovery.begin at hloop'
    split_ifs at hloop' <;> rcases hloop' with h | h <;> cases h
  | @answer d' hloop =>
    rcases hloop' with h | h
    · obtain ⟨rfl, hlinks⟩ : d' = d ∧ 0 < w.links d'.peer := by simpa using h
      exact .inr (.inl hlinks)
    · cases h
  | @actAsked d' isConnected now hloop =>
    cases isConnected <;> rcases hloop' with h | h <;> cases h
  | actDialed now hloop => rcases hloop' with h | h <;> cases h
  | giveUp hloop => rcases hloop' with h | h <;> cases h

end World

end KeyCustody.Host
