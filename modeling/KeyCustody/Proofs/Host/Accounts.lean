import KeyCustody.Proofs.Host.Operation
/-!
# What becomes of commands

While the swarm keeps what it promises, every handle that a command brought is in one place: the
host has replied, or it keeps the handle, or it has thrown it away. It throws away just the handles
of frames that are overtaken: a frame of the other protocol goes out under the same number before
they have ended. Commands wait only for dials that are under way, to peers that are not connected.
The frames for a peer go out in the order in which their commands came, whether these had to wait or
not. And a client is told that its frame was taken on the acknowledgement of the number under which
the frame went out: of its own protocol, unless the frame has overtaken another one.

A relay and an answer to a peer are enough for this: the first ones of a host share a number.

## Main definitions

* `Command.Place`: where the handle of a command is.
* `Accounts`: the fate of commands.

## Main results

* `commands_accounted`: the fate of commands in every run.
* `relay_overtaken_by_answer`: a relay that is lost, and an answer that is taken for delivered.
-/

namespace KeyCustody.Host

open Net (Multiaddr TransportError)
open Peer (PeerId PeerStore)
open Wire (StreamProtocol acknowledgement)

variable {ρ : Type}

namespace Operation

variable {ds : Deeds ρ} {d : Deed ρ} {w w' : Operation ρ} {c : Command ρ}

/-! ### The fate of commands -/

/-- The commands of frames that went out have come. -/
theorem Sound.command_mem (hs : Sound ds w) {x : Sent ρ} (hx : x ∈ ds.sent) :
    x.command ∈ ds.given := by
  have hmem := (hs.ordered x.peer).subset (List.mem_append_left _ (command_mem_sentTo hx))
  exact List.mem_of_mem_filter hmem

/-- **Just the handles of frames that are overtaken are thrown away.** -/
theorem Sound.mem_dropped (hs : Sound ds w) (hstep : Step ds w d w') (a : ρ) :
    a ∈ d.dropped ↔ ∃ x, Overtaken ds.inFlight d.sent x ∧ x.reply = a := by
  rcases hstep.host_cases with ⟨swarm, c, -, hcase⟩ | ⟨swarm, e, -, hcase⟩
  · exact hcase.mem_dropped hs.ledger a
  · exact hcase.mem_dropped hs.ledger a

/-- The swarm is told of the frames that go out. -/
theorem Step.requests (hstep : Step ds w d w') : requests d.effects = d.sent.map Sent.request := by
  rcases hstep.host_cases with ⟨swarm, c, -, hcase⟩ | ⟨swarm, e, -, hcase⟩
  · exact hcase.requests
  · exact hcase.requests

/-- A client is told that all went well if it wanted a peer dialed, or on the acknowledgement of the
number of its frame: of its protocol, or of the other one if the handle of that frame is lost. -/
theorem Sound.ok (hs : Sound ds w) (hstep : Step ds w d w') {a : ρ}
    (hok : (a, .ok ()) ∈ d.replies) :
    (∃ p addrs, .dial p addrs a ∈ Deeds.given (ds ++ [d])) ∨
      ∃ x ∈ ds.inFlight, x.reply = a ∧ ∃ protocol,
        d.cause = .inr (.answered protocol x.id acknowledgement) ∧ (protocol = x.protocol ∨
          ∃ y ∈ ds.inFlight, y.number = (protocol, x.id) ∧ y.reply ∈ ds.dropped) := by
  rw [given_append]
  rcases hstep.host_cases with ⟨swarm, c, hcause, hcase⟩ | ⟨swarm, e, hcause, hcase⟩
  · obtain ⟨p, addrs, rfl⟩ := Command.eq_dial_of_waiter (hcase.ok hok)
    exact .inl ⟨p, addrs, List.mem_append_right _ (by simp [hcause])⟩
  · rcases hcase.ok hok with ⟨p, hmem⟩ | ⟨protocol, id, o, rfl, ho, rfl⟩
    · obtain ⟨ws, hws, hmem⟩ := Machine.exists_of_mem_queue hmem
      obtain ⟨c, hc, -, hwaiter⟩ := hs.serves.waiters p ws hws _ hmem
      obtain ⟨q, addrs, rfl⟩ := Command.eq_dial_of_waiter hwaiter
      exact .inl ⟨q, addrs, List.mem_append_left _ hc⟩
    · obtain ⟨x, hx, rfl, rfl⟩ := hs.ledger.recorded id o ho
      refine .inr ⟨x, hx, rfl, protocol, hcause, or_iff_not_imp_left.2 fun hne => ?_⟩
      -- Another frame has ended than the one that the host has under the number.
      obtain ⟨y, hy, hnumber⟩ := hstep.ended (protocol, x.id) (by rw [Deed.ended?, hcause]; rfl)
      have hyx : y ≠ x := by rintro rfl; exact hne (congrArg Prod.fst hnumber).symm
      exact ⟨y, hy, hnumber, hs.ledger.crowded x hx y hy (congrArg Prod.snd hnumber) hyx ho⟩

/-- Nobody waits once no dial is under way and no frame is in flight. -/
theorem Sound.held_eq_nil (hs : Sound ds w) (hdialing : w.dialing = ∅)
    (hinFlight : ds.inFlight = ∅) : w.host.parked ++ w.host.awaited = [] := by
  refine List.append_eq_nil_iff.2 ⟨List.eq_nil_iff_forall_not_mem.2 fun a ha => ?_,
    List.eq_nil_iff_forall_not_mem.2 fun a ha => ?_⟩
  · obtain ⟨p, ws, x, hp, hx, -⟩ := Machine.mem_parked ha
    have hqueue : w.host.queue p = ws := by
      rw [Machine.queue, Assoc.get?_of_mem hs.tidy.waiters hp, Option.getD_some]
    have hmem := (hs.dialed p (hqueue ▸ List.ne_nil_of_mem hx)).1
    rw [hdialing] at hmem
    exact hmem
  · obtain ⟨id, o, ho, -⟩ := Machine.mem_awaited ha
    obtain ⟨x, hx, -⟩ := hs.ledger.recorded id o (Assoc.get?_of_mem hs.tidy.outbound ho)
    rw [hinFlight] at hx
    exact hx

end Operation

/-- Where the handle of a command is: the host has replied, or the command waits for a dial to its
peer, or its frame is in flight and the host has it under its number, or its frame went out and the
handle is thrown away, since the frame of the other protocol went out under the same number. -/
inductive Command.Place (ds : Deeds ρ) (w : Operation ρ) (c : Command ρ) : Prop
  | answered {result : Except TransportError Unit} (hanswered : (c.handle, result) ∈ ds.replies)
      (hdropped : c.handle ∉ ds.dropped) (hparked : c.handle ∉ w.host.parked)
      (hawaited : c.handle ∉ w.host.awaited)
  | parked (hparked : c.waiter ∈ w.host.queue c.peer)
      (hanswered : ∀ result, (c.handle, result) ∉ ds.replies) (hdropped : c.handle ∉ ds.dropped)
      (hawaited : c.handle ∉ w.host.awaited)
  | sent {x : Sent ρ} (hx : x ∈ ds.inFlight) (hc : x.command = c)
      (hawaited : Assoc.get? w.host.outbound x.id = some x.outbound)
      (honly : ∀ id o, Assoc.get? w.host.outbound id = some o → o.reply = c.handle → id = x.id)
      (hanswered : ∀ result, (c.handle, result) ∉ ds.replies) (hdropped : c.handle ∉ ds.dropped)
      (hparked : c.handle ∉ w.host.parked)
  | overtaken {x y : Sent ρ} (hx : x ∈ ds.sent) (hc : x.command = c) (hy : y ∈ ds.sent)
      (hid : y.id = x.id) (hprotocol : y.protocol ≠ x.protocol) (hdropped : c.handle ∈ ds.dropped)
      (hanswered : ∀ result, (c.handle, result) ∉ ds.replies)
      (hparked : c.handle ∉ w.host.parked) (hawaited : c.handle ∉ w.host.awaited)

namespace Operation

variable {ds : Deeds ρ} {d : Deed ρ} {w : Operation ρ} {c : Command ρ}

/-- A handle that is thrown away is that of a frame, and the one of the other protocol has the same
number. -/
theorem Run.exists_overtaken (hrun : Run ds w) {a : ρ} (ha : a ∈ ds.dropped) :
    ∃ x ∈ ds.sent, ∃ y ∈ ds.sent, x.reply = a ∧ y.id = x.id ∧ y.protocol ≠ x.protocol := by
  obtain ⟨d, hd, ha⟩ := List.mem_flatMap.1 ha
  obtain ⟨before, after, hds⟩ := List.append_of_mem hd
  obtain ⟨u, u', hbefore, hstep⟩ := hrun.exists_step hds
  obtain ⟨x, ⟨earlier, y, later, hsent, hid, hx⟩, rfl⟩ := (hbefore.sound.mem_dropped hstep a).1 ha
  have hall : ds.sent = (Deeds.sent before ++ earlier) ++ y :: (later ++ Deeds.sent after) := by
    rw [hds, Deeds.sent, List.flatMap_append, List.flatMap_cons, hsent]
    simp [Deeds.sent]
  have hx : x ∈ Deeds.sent before ++ earlier :=
    List.mem_append.2 (hx.imp_left And.left)
  have hdistinct := hrun.sound.ledger.distinct
  rw [hall, List.map_append, List.nodup_append'] at hdistinct
  refine ⟨x, ?_, y, ?_, rfl, hid, fun hprotocol => ?_⟩
  · rw [hall]
    exact List.mem_append_left _ hx
  · rw [hall]
    exact List.mem_append_right _ List.mem_cons_self
  · have hnumber : y.number = x.number := Prod.ext hprotocol hid
    exact hdistinct.2.2 (List.mem_map_of_mem hx) (hnumber ▸ List.mem_cons_self)

/-- **Every command has its place**, if no two commands share a handle. -/
theorem Run.place (hrun : Run ds w) (hhandles : (ds.given.map Command.handle).Nodup)
    (hc : c ∈ ds.given) : c.Place ds w := by
  have hs := hrun.sound
  have hnodup := hs.perm.nodup_iff.1 hhandles
  obtain ⟨hgone, hheld, hapart⟩ := List.nodup_append'.1 hnodup
  obtain ⟨-, -, hreplied⟩ := List.nodup_append'.1 hgone
  obtain ⟨-, hawaited, hparked⟩ := List.nodup_append'.1 hheld
  have hunique {c' : Command ρ} (hc' : c' ∈ ds.given) (heq : c'.handle = c.handle) : c' = c :=
    List.inj_on_of_nodup_map hhandles hc' hc heq
  have hunanswered (hmem : c.handle ∉ ds.replies.map Prod.fst) (result) :
      (c.handle, result) ∉ ds.replies := fun hr => hmem (List.mem_map_of_mem hr)
  -- The handle is among the replies, thrown away or kept; it belongs to a command that came, which
  -- is this one, since no other command has the handle.
  have hplace : c.handle ∈ ds.replies.map Prod.fst ++ ds.dropped ++
      (w.host.parked ++ w.host.awaited) := hs.perm.subset (List.mem_map_of_mem hc)
  rcases List.mem_append.1 hplace with hmem | hmem
  · have hnot := fun hheld => hapart hmem hheld
    rcases List.mem_append.1 hmem with hmem | hmem
    · obtain ⟨⟨a, result⟩, hr, ha⟩ := List.mem_map.1 hmem
      obtain rfl : a = c.handle := ha
      exact .answered hr (hreplied hmem) (fun hp => hnot (List.mem_append_left _ hp)) fun ha =>
        hnot (List.mem_append_right _ ha)
    · obtain ⟨x, hx, y, hy, hreply, hid, hprotocol⟩ := hrun.exists_overtaken hmem
      exact .overtaken hx (hunique (hs.command_mem hx) hreply) hy hid hprotocol hmem
        (hunanswered fun hr => hreplied hr hmem) (fun hp => hnot (List.mem_append_left _ hp))
        fun ha => hnot (List.mem_append_right _ ha)
  · have hnot := fun hgone => hapart hgone hmem
    have hdropped : c.handle ∉ ds.dropped := fun hd => hnot (List.mem_append_right _ hd)
    have hanswered := hunanswered fun hr => hnot (List.mem_append_left _ hr)
    rcases List.mem_append.1 hmem with hmem | hmem
    · obtain ⟨p, ws, x, hp, hx, heq⟩ := Machine.mem_parked hmem
      have hws := Assoc.get?_of_mem hs.tidy.waiters hp
      obtain ⟨c', hc', rfl, rfl⟩ := hs.serves.waiters p ws hws x hx
      obtain rfl := hunique hc' heq
      refine .parked ?_ hanswered hdropped (hparked hmem)
      rwa [Machine.queue, hws]
    · obtain ⟨id, o, ho, heq⟩ := Machine.mem_awaited hmem
      have hget := Assoc.get?_of_mem hs.tidy.outbound ho
      obtain ⟨x, hx, rfl, rfl⟩ := hs.ledger.recorded id o hget
      refine .sent hx (hunique (hs.command_mem hx.1) heq) hget (fun j o hj hreply => ?_) hanswered
        hdropped fun hp => hparked hp hmem
      -- The handles of frames that are awaited are distinct, so that this is the same one.
      have hsame :=
        List.inj_on_of_nodup_map hawaited (Assoc.mem_of_get? hj) ho (hreply.trans heq.symm)
      exact congrArg Prod.fst hsame

end Operation

/-- The fate of commands in what a host did. -/
structure Accounts (ds : Deeds ρ) (w : Operation ρ) : Prop where
  /-- The swarm is told of the frames that go out. -/
  told : ∀ d ∈ ds, requests d.effects = d.sent.map Sent.request
  /-- A frame has a number of its own among those of its protocol. -/
  distinct : (ds.sent.map Sent.number).Nodup
  /-- The handles that came are those of the replies, those that are thrown away, and those that the
  host keeps, each as often as it came. -/
  perm : (ds.given.map Command.handle).Perm
    (ds.replies.map Prod.fst ++ ds.dropped ++ (w.host.parked ++ w.host.awaited))
  /-- If no two commands share a handle, nobody is replied to twice, and none is in two places. -/
  once : (ds.given.map Command.handle).Nodup →
    (ds.replies.map Prod.fst ++ ds.dropped ++ (w.host.parked ++ w.host.awaited)).Nodup
  /-- If no two commands share a handle, every command has its place. -/
  place : (ds.given.map Command.handle).Nodup → ∀ c ∈ ds.given, c.Place ds w
  /-- The handles that are thrown away are those of the frames that are overtaken. -/
  dropped : ∀ (before : Deeds ρ) (d : Deed ρ) (after : Deeds ρ), ds = before ++ d :: after → ∀ a,
    a ∈ d.dropped ↔ ∃ x, Overtaken before.inFlight d.sent x ∧ x.reply = a
  /-- Commands wait only for dials that are under way, to peers that are not connected. -/
  dialed : ∀ p, w.host.queue p ≠ [] → p ∈ w.dialing ∧ w.links p = 0
  /-- The host has only frames in flight. -/
  awaited : ∀ id o, Assoc.get? w.host.outbound id = some o →
    ∃ x ∈ ds.inFlight, x.id = id ∧ x.outbound = o
  /-- When no dial is under way and no frame is in flight, the host keeps no handle. -/
  settled : w.dialing = ∅ → ds.inFlight = ∅ →
    (ds.given.map Command.handle).Perm (ds.replies.map Prod.fst ++ ds.dropped)
  /-- The frames for a peer go out in the order of their commands, with those that wait after those
  that went out. -/
  ordered : ∀ p, (sentTo p ds.sent ++ w.host.waitingFor p).Sublist
    (ds.given.filter (Command.isSendTo p))
  /-- A client is told that all went well if it wanted a peer dialed, or on the acknowledgement of
  the number under which its frame went out: among those of its protocol, or of the other one if the
  handle of that frame was thrown away. -/
  ok : ∀ (before : Deeds ρ) (d : Deed ρ) (after : Deeds ρ) (a : ρ), ds = before ++ d :: after →
    (a, .ok ()) ∈ d.replies → (∃ p addrs, .dial p addrs a ∈ ds.given) ∨
    ∃ x ∈ before.inFlight, x.reply = a ∧ x.command ∈ ds.given ∧ ∃ protocol,
      d.cause = .inr (.answered protocol x.id acknowledgement) ∧ (protocol = x.protocol ∨
        ∃ y ∈ before.inFlight, y.number = (protocol, x.id) ∧ y.reply ∈ before.dropped)
  /-- As long as no handle is thrown away, the host has every frame in flight under its number, and
  a client is told that its frame was taken only on the acknowledgement of this frame. -/
  undisturbed : ds.dropped = [] →
    (∀ x ∈ ds.inFlight, Assoc.get? w.host.outbound x.id = some x.outbound) ∧
    ∀ (before : Deeds ρ) (d : Deed ρ) (after : Deeds ρ) (a : ρ), ds = before ++ d :: after →
      (a, .ok ()) ∈ d.replies → (∃ p addrs, .dial p addrs a ∈ ds.given) ∨
      ∃ x ∈ before.inFlight, x.reply = a ∧ x.command ∈ ds.given ∧
        d.cause = .inr (.answered x.protocol x.id acknowledgement)

namespace Operation

variable {ds : Deeds ρ} {w : Operation ρ}

theorem Run.ok (hrun : Run ds w) {before after : Deeds ρ} {d : Deed ρ} {a : ρ}
    (hds : ds = before ++ d :: after) (hok : (a, .ok ()) ∈ d.replies) :
    (∃ p addrs, .dial p addrs a ∈ ds.given) ∨
    ∃ x ∈ before.inFlight, x.reply = a ∧ x.command ∈ ds.given ∧ ∃ protocol,
      d.cause = .inr (.answered protocol x.id acknowledgement) ∧ (protocol = x.protocol ∨
        ∃ y ∈ before.inFlight, y.number = (protocol, x.id) ∧ y.reply ∈ before.dropped) := by
  obtain ⟨u, u', hbefore, hstep⟩ := hrun.exists_step hds
  rcases hbefore.sound.ok hstep hok with ⟨p, addrs, hdial⟩ | ⟨x, hx, hreply, hcause⟩
  · refine .inl ⟨p, addrs, ?_⟩
    rw [hds, List.append_cons, Deeds.given, List.filterMap_append]
    exact List.mem_append_left _ hdial
  · have hsent : x ∈ ds.sent := by
      rw [hds, Deeds.sent, List.flatMap_append]
      exact List.mem_append_left _ hx.1
    exact .inr ⟨x, hx, hreply, hrun.sound.command_mem hsent, hcause⟩

theorem Run.undisturbed (hrun : Run ds w) (hnone : ds.dropped = []) {before after : Deeds ρ}
    {d : Deed ρ} {a : ρ} (hds : ds = before ++ d :: after) (hok : (a, .ok ()) ∈ d.replies) :
    (∃ p addrs, .dial p addrs a ∈ ds.given) ∨
    ∃ x ∈ before.inFlight, x.reply = a ∧ x.command ∈ ds.given ∧
      d.cause = .inr (.answered x.protocol x.id acknowledgement) := by
  rcases hrun.ok hds hok with hdial | ⟨x, hx, hreply, hgiven, protocol, hcause, hown⟩
  · exact .inl hdial
  · rcases hown with rfl | ⟨y, -, -, hlost⟩
    · exact .inr ⟨x, hx, hreply, hgiven, hcause⟩
    · have hmem : y.reply ∈ ds.dropped := by
        rw [hds, Deeds.dropped, List.flatMap_append]
        exact List.mem_append_left _ hlost
      rw [hnone] at hmem
      cases hmem

end Operation

/-- **The fate of commands.** While the swarm keeps what it promises, the handles that commands
brought are those of the replies, those that the host keeps, and those of frames that were overtaken
by the frame of the other protocol with their number, which it throws away. -/
theorem commands_accounted {ds : Deeds ρ} {w : Operation ρ} (hrun : Operation.Run ds w) :
    Accounts ds w := by
  have hs := hrun.sound
  constructor
  case told =>
    intro d hd
    obtain ⟨before, after, hds⟩ := List.append_of_mem hd
    obtain ⟨u, u', -, hstep⟩ := hrun.exists_step hds
    exact hstep.requests
  case distinct => exact hs.ledger.distinct
  case perm => exact hs.perm
  case once => exact hs.perm.nodup_iff.1
  case place => exact fun hhandles c hc => hrun.place hhandles hc
  case dropped =>
    intro before d after hds a
    obtain ⟨u, u', hbefore, hstep⟩ := hrun.exists_step hds
    exact hbefore.sound.mem_dropped hstep a
  case dialed => exact hs.dialed
  case awaited => exact hs.ledger.recorded
  case settled =>
    intro hdialing hinFlight
    have hperm := hs.perm
    rwa [hs.held_eq_nil hdialing hinFlight, List.append_nil] at hperm
  case ordered => exact hs.ordered
  case ok => exact fun before d after a hds hok => hrun.ok hds hok
  case undisturbed =>
    refine fun hnone => ⟨fun x hx => ?_, fun before d after a => hrun.undisturbed hnone⟩
    have hkept := hs.ledger.kept x hx
    rw [hnone] at hkept
    exact hkept.resolve_right fun ⟨_, _, _, _, hlost⟩ =>
      hlost.elim List.not_mem_nil List.not_mem_nil

/-! ### A dial and a frame -/

/-- A peer with an address. -/
def remote : PeerId := ⟨.inline, [], Nat.zero_le _⟩

/-- The store that has the address. -/
def remoteStore : PeerStore := ⟨[(remote, ⟨[([], 1)], none⟩)]⟩

/-- A client wants a peer dialed, and another one has a frame for it. Both wait, and go on when the
peer is connected. The frame is acknowledged. -/
def remoteDeeds : Deeds Nat :=
  [⟨.inl (.dial remote [[]] 0), [], [.dial remote [[]]]⟩,
    ⟨.inl (.send remote .request [1] 1), [], []⟩,
    ⟨.inr (.connected remote), [⟨1, remote, .request, [1], 1⟩],
      [.reply 0 (.ok ()), .request 1 remote .request [1]]⟩,
    ⟨.inr (.answered .request 1 acknowledgement), [], [.reply 1 (.ok ())]⟩]

theorem exists_run_remoteDeeds : ∃ w, Operation.Run remoteDeeds w := by
  have hrun : Operation.Run ([] : Deeds Nat) _ := .start "home" 1 2 0 1 true
  have hdialed := hrun.step (.command (.dial remote [[]] 0) (fun _ _ => .started) .empty 0
    (fun p addrs => by simp [Operation.start]) rfl)
  have hwatch : KeepsWatch (fun p _ => if p = remote then .underWay else .started) (fun _ => 0)
      (∅ ∪ dialedBy [(.dial remote [[]] : Effect Nat)]) := by
    intro p addrs
    by_cases hp : p = remote <;> simp [dialedBy, hp]
  have hparked := hdialed.step
    (.command (.send remote .request [1] 1) _ remoteStore 0 hwatch rfl)
  have hconnected := hparked.step
    (.event (.connected remote) (fun _ _ => .started) .empty 0 trivial (.inr rfl) nofun rfl)
  have hended : ∀ n, Event.ended? (.answered .request 1 acknowledgement) = some n →
      ∃ x ∈ Deeds.inFlight (remoteDeeds.take 3), x.number = n := by
    rintro n hn
    obtain rfl := Option.some.inj hn
    exact ⟨⟨1, remote, .request, [1], 1⟩, ⟨List.mem_cons_self, by decide⟩, rfl⟩
  exact ⟨_, hconnected.step
    (.event (.answered .request 1 acknowledgement) (fun _ _ => .started) .empty 0 trivial rfl hended
      rfl)⟩

/-- Each of the two clients has been told that all went well, and nobody waits. -/
theorem remote_commands_accounted : ∃ w, Operation.Run remoteDeeds w ∧
    [0, 1].Perm ([0, 1] ++ [] ++ (w.host.parked ++ w.host.awaited)) ∧
    (∀ c ∈ remoteDeeds.given, c.Place remoteDeeds w) ∧
    ∃ x ∈ Deeds.inFlight (remoteDeeds.take 3), x.reply = 1 ∧ x.number = (.request, 1) := by
  obtain ⟨w, hrun⟩ := exists_run_remoteDeeds
  have haccounts := commands_accounted hrun
  refine ⟨w, hrun, haccounts.perm, haccounts.place (by decide), ?_⟩
  obtain ⟨-, hok⟩ := haccounts.undisturbed rfl
  rcases hok (remoteDeeds.take 3) _ [] 1 rfl List.mem_cons_self with hdial | ⟨x, hx, hreply, -, hc⟩
  · simp [remoteDeeds, Deeds.given] at hdial
  · obtain ⟨hprotocol, hid, -⟩ := Event.answered.inj (Sum.inr.inj hc)
    exact ⟨x, hx, hreply, Prod.ext hprotocol.symm hid.symm⟩

/-! ### A relay and an answer under one number -/

/-- A host relays a request to a peer that is connected, and sends an answer before the request has
ended. The request is acknowledged, and the answer is not. -/
def clashDeeds : Deeds Nat :=
  [⟨.inr (.connected remote), [], []⟩,
    ⟨.inl (.send remote .request [1] 0), [⟨1, remote, .request, [1], 0⟩],
      [.request 1 remote .request [1]]⟩,
    ⟨.inl (.send remote .response [2] 1), [⟨1, remote, .response, [2], 1⟩],
      [.request 1 remote .response [2], .drop 0]⟩,
    ⟨.inr (.answered .request 1 acknowledgement), [], [.reply 1 (.ok ())]⟩,
    ⟨.inr (.unanswered .response 1 "stream reset"), [], []⟩]

theorem exists_run_clashDeeds : ∃ w, Operation.Run clashDeeds w := by
  have hrun : Operation.Run ([] : Deeds Nat) _ := .start "home" 1 2 0 1 true
  have hconnected := hrun.step
    (.event (.connected remote) (fun _ _ => .started) .empty 0 trivial (.inl rfl) nofun rfl)
  have hwatch : KeepsWatch (fun p _ => if p = remote then .underWay else .started)
      (Function.update (fun _ => 0) remote 1) ∅ := by
    intro p addrs
    by_cases hp : p = remote <;> simp [hp]
  have hwatch' : KeepsWatch (fun p _ => if p = remote then .underWay else .started)
      (Function.update (fun _ => 0) remote 1)
      (∅ ∪ dialedBy [(.request 1 remote .request [1] : Effect Nat)]) := by
    simpa [dialedBy] using hwatch
  have hrelayed := hconnected.step
    (.command (.send remote .request [1] 0) _ remoteStore 0 hwatch rfl)
  have hsent := hrelayed.step (.command (.send remote .response [2] 1) _ remoteStore 0 hwatch' rfl)
  have hanswered : ∀ n, Event.ended? (.answered .request 1 acknowledgement) = some n →
      ∃ x ∈ Deeds.inFlight (clashDeeds.take 3), x.number = n := by
    rintro n hn
    obtain rfl := Option.some.inj hn
    exact ⟨⟨1, remote, .request, [1], 0⟩, ⟨List.mem_cons_self, by decide⟩, rfl⟩
  have hunanswered : ∀ n, Event.ended? (.unanswered .response 1 "stream reset") = some n →
      ∃ x ∈ Deeds.inFlight (clashDeeds.take 4), x.number = n := by
    rintro n hn
    obtain rfl := Option.some.inj hn
    exact ⟨⟨1, remote, .response, [2], 1⟩, ⟨List.mem_cons_of_mem _ List.mem_cons_self, by decide⟩,
      rfl⟩
  have hacknowledged := hsent.step (.event (.answered .request 1 acknowledgement)
    (fun _ _ => .started) .empty 0 trivial rfl hanswered rfl)
  exact ⟨_, hacknowledged.step (.event (.unanswered .response 1 "stream reset")
    (fun _ _ => .started) .empty 0 trivial rfl hunanswered rfl)⟩

/-- The relay is acknowledged, but its client is not told so, and the host does not keep its handle.
The client of the answer is told that all went well, although the answer is not acknowledged. -/
theorem relay_overtaken_by_answer : ∃ w, Operation.Run clashDeeds w ∧
    clashDeeds.given = [.send remote .request [1] 0, .send remote .response [2] 1] ∧
    (∀ result, (0, result) ∉ clashDeeds.replies) ∧ 0 ∉ w.host.parked ∧ 0 ∉ w.host.awaited ∧
    clashDeeds.sent = [⟨1, remote, .request, [1], 0⟩, ⟨1, remote, .response, [2], 1⟩] ∧
    (1, .ok ()) ∈ clashDeeds.replies ∧
    ∀ d ∈ clashDeeds, d.cause ≠ .inr (.answered .response 1 acknowledgement) := by
  obtain ⟨w, hrun⟩ := exists_run_clashDeeds
  have hnone : w.host.parked ++ w.host.awaited = [] := by
    have hperm : [0, 1].Perm ([1] ++ [0] ++ (w.host.parked ++ w.host.awaited)) := hrun.sound.perm
    have hlength := hperm.length_eq
    rw [List.length_append] at hlength
    exact List.eq_nil_of_length_eq_zero (by simpa using hlength)
  obtain ⟨hparked, hawaited⟩ := List.append_eq_nil_iff.1 hnone
  have hreplies : clashDeeds.replies = [(1, .ok ())] := rfl
  refine ⟨w, hrun, rfl, fun result hmem => ?_, ?_, ?_, rfl, ?_, ?_⟩
  · simp [hreplies] at hmem
  · simp [hparked]
  · simp [hawaited]
  · simp [hreplies]
  · simp [clashDeeds]

end KeyCustody.Host
