import KeyCustody.Proofs.Host.Conservation
import Mathlib.Data.Set.Insert
/-!
# Frames in flight

The frames of each protocol have numbers of their own, but the host keeps the frames of both in one
map, under the bare number. So it has at most one frame for a number, although two may be in flight
under it, one of each protocol. The one that goes out later overtakes the other: it takes its place,
and the handle of the other one is thrown away. From then on whatever ends first under the number is
taken for the end of the later frame. As long as no frame overtakes another one, the host has every
frame in flight under its number.

## Main definitions

* `Machine.Ledger`: what a host has of the frames that went out.
* `Overtaken`: a frame goes out while an earlier one with its number is in flight.

## Main results

* `Machine.CommandCase.ledger`, `Machine.EventCase.ledger`: what a host has afterwards.
* `Machine.CommandCase.mem_dropped`, `Machine.EventCase.mem_dropped`: just the handles of frames
  that are overtaken are thrown away.
-/

namespace KeyCustody.Host

open Net (TransportError)
open Peer (PeerId)
open Wire (StreamProtocol)

variable {ρ : Type}

/-- A frame is overtaken: one of those that go out has its number while it is in flight itself,
since it went out before, or just before the other one. -/
def Overtaken (inFlight : Set (Sent ρ)) (sent : List (Sent ρ)) (x : Sent ρ) : Prop :=
  ∃ before y after, sent = before ++ y :: after ∧ y.id = x.id ∧ (x ∈ inFlight ∨ x ∈ before)

/-- The frames that are in flight after an event. -/
def Event.remaining (e : Event) (inFlight : Set (Sent ρ)) : Set (Sent ρ) :=
  {x ∈ inFlight | e.ended? ≠ some x.number}

/-- There are two protocols. -/
theorem protocol_eq_of_ne {p q r : StreamProtocol} (hp : p ≠ r) (hq : q ≠ r) : p = q := by
  cases p <;> cases q <;> cases r <;> simp_all

theorem not_overtaken_nil {inFlight : Set (Sent ρ)} {x : Sent ρ} : ¬ Overtaken inFlight [] x := by
  rintro ⟨before, y, after, heq, -⟩
  cases before <;> cases heq

/-- The first one of the frames that go out overtakes those in flight, the others overtake these and
the first one. -/
theorem overtaken_cons {inFlight : Set (Sent ρ)} {y : Sent ρ} {ys : List (Sent ρ)} {x : Sent ρ} :
    Overtaken inFlight (y :: ys) x ↔
      y.id = x.id ∧ x ∈ inFlight ∨ Overtaken (insert y inFlight) ys x := by
  constructor
  · rintro ⟨before, z, after, heq, hid, hx⟩
    cases before with
    | nil =>
      obtain ⟨rfl, rfl⟩ := List.cons.inj heq
      exact .inl ⟨hid, hx.resolve_right List.not_mem_nil⟩
    | cons y' before =>
      obtain ⟨rfl, rfl⟩ := List.cons.inj heq
      refine .inr ⟨before, z, after, rfl, hid, ?_⟩
      rcases hx with hx | hx
      · exact .inl (.inr hx)
      · exact (List.mem_cons.1 hx).imp_left .inl
  · rintro (⟨hid, hx⟩ | ⟨before, z, after, rfl, hid, hx⟩)
    · exact ⟨[], y, ys, rfl, hid, .inl hx⟩
    · refine ⟨y :: before, z, after, rfl, hid, ?_⟩
      rcases hx with (rfl | hx) | hx
      · exact .inr List.mem_cons_self
      · exact .inl hx
      · exact .inr (List.mem_cons_of_mem _ hx)

theorem insert_union_frames (inFlight : Set (Sent ρ)) (y : Sent ρ) (ys : List (Sent ρ)) :
    insert y inFlight ∪ {x | x ∈ ys} = inFlight ∪ {x | x ∈ y :: ys} := by
  ext x
  simp only [Set.mem_union, Set.mem_insert_iff, Set.mem_ofPred_eq, List.mem_cons]
  tauto

namespace Machine

variable {h h' : Machine ρ} {sent issued : List (Sent ρ)} {inFlight : Set (Sent ρ)} {lost : List ρ}
  {x y : Sent ρ} {p : PeerId} {swarm : Swarm} {c : Command ρ} {e : Event}
  {r : Machine ρ × List (Effect ρ)}

/-! ### The ledger -/

/-- What a host has of the frames that went out: each has a number of its own among those of its
protocol; under a number the host has a frame in flight, and if the other one with the number is in
flight as well, the handle of that one is lost; and it has a frame in flight under its number unless
the handle of this or of the other one with the number is lost. -/
structure Ledger (h : Machine ρ) (sent : List (Sent ρ)) (inFlight : Set (Sent ρ))
    (lost : List ρ) : Prop where
  distinct : (sent.map Sent.number).Nodup
  below : ∀ x ∈ sent, x.id < h.nextRequest x.protocol
  departed : ∀ x ∈ inFlight, x ∈ sent
  recorded : ∀ id o, Assoc.get? h.outbound id = some o →
    ∃ x ∈ inFlight, x.id = id ∧ x.outbound = o
  kept : ∀ x ∈ inFlight, Assoc.get? h.outbound x.id = some x.outbound ∨
    ∃ y ∈ sent, y.id = x.id ∧ y ≠ x ∧ (x.reply ∈ lost ∨ y.reply ∈ lost)
  crowded : ∀ x ∈ inFlight, ∀ y ∈ inFlight, y.id = x.id → y ≠ x →
    Assoc.get? h.outbound x.id = some x.outbound → y.reply ∈ lost

theorem Ledger.eq_of_number (hl : h.Ledger sent inFlight lost) (hx : x ∈ sent) (hy : y ∈ sent)
    (hnumber : y.number = x.number) : y = x :=
  List.inj_on_of_nodup_map hl.distinct hy hx hnumber

/-- What a host has of its frames is a matter of what it keeps of them, and of the numbers. -/
theorem Ledger.congr (hl : h.Ledger sent inFlight lost) (hout : h'.outbound = h.outbound)
    (hnext : h'.nextRequest = h.nextRequest) : h'.Ledger sent inFlight lost :=
  ⟨hl.distinct, hnext ▸ hl.below, hl.departed, hout ▸ hl.recorded, hout ▸ hl.kept,
    hout ▸ hl.crowded⟩

/-- A number that comes next was not used by its protocol. -/
theorem Ledger.protocol_ne (hl : h.Ledger sent inFlight lost) (hx : x ∈ sent)
    {protocol : StreamProtocol} (hid : x.id = h.nextRequest protocol) : x.protocol ≠ protocol := by
  rintro rfl
  exact absurd (hl.below x hx) (by omega)

/-- The host has a frame in flight under the number that comes next, if there is one. -/
theorem Ledger.get?_next (hl : h.Ledger sent inFlight lost) (hx : x ∈ inFlight)
    {protocol : StreamProtocol} (hid : x.id = h.nextRequest protocol) :
    Assoc.get? h.outbound x.id = some x.outbound := by
  refine (hl.kept x hx).resolve_right fun ⟨y, hy, hyx, hne, _⟩ => hne ?_
  refine hl.eq_of_number (hl.departed x hx) hy (Prod.ext ?_ hyx)
  exact protocol_eq_of_ne (hl.protocol_ne hy (hyx.trans hid))
    (hl.protocol_ne (hl.departed x hx) hid)

/-- A frame that is sent throws away the handles of those in flight with its number. -/
theorem Ledger.mem_dropped_sendRequest (hl : h.Ledger sent inFlight lost) (p : PeerId)
    (protocol : StreamProtocol) (data : Bytes) (a b : ρ) :
    b ∈ dropped (h.sendRequest p protocol data a).2 ↔
      ∃ x ∈ inFlight, h.nextRequest protocol = x.id ∧ x.reply = b := by
  simp only [dropped_sendRequest, List.mem_map, Option.mem_toList]
  constructor
  · rintro ⟨o, ho, rfl⟩
    obtain ⟨x, hx, hid, rfl⟩ := hl.recorded _ _ ho
    exact ⟨x, hx, hid.symm, rfl⟩
  · rintro ⟨x, hx, hid, rfl⟩
    exact ⟨x.outbound, hid ▸ hl.get?_next hx hid.symm, rfl⟩

/-- What a host has after it sent a frame. -/
theorem Ledger.sendRequest (hl : h.Ledger sent inFlight lost) (p : PeerId)
    (protocol : StreamProtocol) (data : Bytes) (a : ρ) :
    (h.sendRequest p protocol data a).1.Ledger
      (sent ++ [⟨h.nextRequest protocol, p, protocol, data, a⟩])
      (insert ⟨h.nextRequest protocol, p, protocol, data, a⟩ inFlight)
      (lost ++ dropped (h.sendRequest p protocol data a).2) := by
  obtain ⟨x, hx⟩ : ∃ x : Sent ρ, x = ⟨h.nextRequest protocol, p, protocol, data, a⟩ := ⟨_, rfl⟩
  have hget (id : Nat) : Assoc.get? (h.sendRequest p protocol data a).1.outbound id =
      if id = x.id then some x.outbound else Assoc.get? h.outbound id := by
    rw [hx]
    exact Assoc.get?_put ..
  have hnew : ∀ y ∈ sent, y.id = x.id → y.protocol ≠ x.protocol := by
    rw [hx]
    exact fun y hy hid => hl.protocol_ne hy hid
  have hne : ∀ y ∈ sent, y ≠ x := fun y hy heq => hnew y hy (heq ▸ rfl) (heq ▸ rfl)
  rw [← hx]
  constructor
  case distinct =>
    rw [List.map_append, List.nodup_append']
    refine ⟨hl.distinct, List.nodup_singleton _, fun n hn hn' => ?_⟩
    obtain ⟨y, hy, rfl⟩ := List.mem_map.1 hn
    obtain ⟨hprotocol, hid⟩ := Prod.mk.inj (List.mem_singleton.1 hn')
    exact hnew y hy hid hprotocol
  case below =>
    intro y hy
    simp only [Machine.sendRequest, advance]
    rcases List.mem_append.1 hy with hy | hy
    · have hbelow := hl.below y hy
      split_ifs <;> omega
    · obtain rfl := List.mem_singleton.1 hy
      rw [hx, if_pos rfl]
      exact Nat.lt_succ_self _
  case departed =>
    rintro y (rfl | hy)
    · exact List.mem_append_right _ List.mem_cons_self
    · exact List.mem_append_left _ (hl.departed y hy)
  case recorded =>
    intro id o ho
    rw [hget] at ho
    split_ifs at ho with hid
    · exact ⟨x, .inl rfl, hid.symm, Option.some.inj ho⟩
    · obtain ⟨y, hy, hyid, hyo⟩ := hl.recorded id o ho
      exact ⟨y, .inr hy, hyid, hyo⟩
  case kept =>
    rintro y (rfl | hy)
    · exact .inl ((hget _).trans (if_pos rfl))
    · rcases hl.kept y hy with hkept | ⟨z, hz, hid, hzy, hlost⟩
      · by_cases hid : y.id = x.id
        · have hdropped : y.reply ∈ dropped (h.sendRequest p protocol data a).2 :=
            (hl.mem_dropped_sendRequest ..).2 ⟨y, hy, by rw [hid, hx], rfl⟩
          exact .inr ⟨x, List.mem_append_right _ List.mem_cons_self, hid.symm,
            (hne y (hl.departed y hy)).symm, .inl (List.mem_append_right _ hdropped)⟩
        · exact .inl ((hget _).trans ((if_neg hid).trans hkept))
      · exact .inr ⟨z, List.mem_append_left _ hz, hid, hzy,
          hlost.imp (List.mem_append_left _) (List.mem_append_left _)⟩
  case crowded =>
    intro y hy z hz hid hzy hout
    rw [hget] at hout
    split_ifs at hout with hyx
    · -- The host has the new frame under the number, so that it has overtaken the other one.
      have hyx' : y = x := by
        rcases hy with rfl | hy
        · rfl
        · have hprotocol := congrArg Outbound.protocol (Option.some.inj hout)
          exact absurd hprotocol.symm (hnew y (hl.departed y hy) hyx)
      subst hyx'
      have hold : z ∈ inFlight := hz.resolve_left hzy
      refine List.mem_append_right _ ((hl.mem_dropped_sendRequest ..).2 ⟨z, hold, ?_, rfl⟩)
      rw [hid, hx]
    · have hzx : z ≠ x := by rintro rfl; exact hyx hid.symm
      have hyx' : y ≠ x := by rintro rfl; exact hyx rfl
      exact List.mem_append_left _
        (hl.crowded y (hy.resolve_left hyx') z (hz.resolve_left hzx) hid hzy hout)

/-! ### Frames that go out and frames that end -/

/-- What a host has after commands went on. -/
theorem Ledger.goOn (hl : h.Ledger sent inFlight lost) (p : PeerId) (ws : List (Waiter ρ)) :
    (goOn p ws h).1.Ledger (sent ++ frames p h.nextRequest ws)
      (inFlight ∪ {x | x ∈ frames p h.nextRequest ws}) (lost ++ dropped (goOn p ws h).2) := by
  induction ws generalizing h sent inFlight lost with
  | nil => simpa [Machine.goOn, frames, dropped] using hl
  | cons x ws ih =>
    cases x with
    | dial reply => exact ih hl
    | send protocol data reply =>
      have hgoes := ih (hl.sendRequest p protocol data reply)
      rwa [List.append_assoc, List.append_assoc, ← dropped_append, insert_union_frames] at hgoes

/-- Commands that go on throw away the handles of the frames that theirs overtake. -/
theorem Ledger.mem_dropped_goOn (hl : h.Ledger sent inFlight lost) (p : PeerId)
    (ws : List (Waiter ρ)) (a : ρ) : a ∈ dropped (Machine.goOn p ws h).2 ↔
      ∃ x, Overtaken inFlight (frames p h.nextRequest ws) x ∧ x.reply = a := by
  induction ws generalizing h sent inFlight lost with
  | nil => exact iff_of_false List.not_mem_nil fun ⟨x, hx, _⟩ => not_overtaken_nil hx
  | cons x ws ih =>
    cases x with
    | dial reply => exact ih hl
    | send protocol data reply =>
      rw [Machine.goOn, dropped_append, List.mem_append, hl.mem_dropped_sendRequest,
        ih (hl.sendRequest p protocol data reply)]
      simp only [frames, overtaken_cons]
      constructor
      · rintro (⟨y, hy, hid, rfl⟩ | ⟨y, hy, rfl⟩)
        · exact ⟨y, .inl ⟨hid, hy⟩, rfl⟩
        · exact ⟨y, .inr hy, rfl⟩
      · rintro ⟨y, ⟨hid, hy⟩ | hy, rfl⟩
        · exact .inl ⟨y, hy, hid, rfl⟩
        · exact .inr ⟨y, hy, rfl⟩

/-- What a host has after a frame has ended: nothing under its number. -/
theorem Ledger.relieved (hl : h.Ledger sent inFlight lost) (hx : x ∈ inFlight) :
    (h.relieved x.id).Ledger sent {y ∈ inFlight | y.number ≠ x.number} lost where
  distinct := hl.distinct
  below := hl.below
  departed y hy := hl.departed y hy.1
  recorded id o ho := by
    simp only [Machine.relieved, Assoc.get?_erase] at ho
    split_ifs at ho with hid
    obtain ⟨y, hy, rfl, hyo⟩ := hl.recorded id o ho
    exact ⟨y, ⟨hy, fun hnumber => hid (congrArg Prod.snd hnumber)⟩, rfl, hyo⟩
  kept y hy := by
    rcases hl.kept y hy.1 with hkept | hlost
    · by_cases hid : x.id = y.id
      · have hne : x ≠ y := by rintro rfl; exact hy.2 rfl
        exact .inr ⟨x, hl.departed x hx, hid, hne, .inr (hl.crowded y hy.1 x hx hid hne hkept)⟩
      · refine .inl ?_
        rwa [Machine.relieved, Assoc.get?_erase, if_neg (Ne.symm hid)]
    · exact .inr hlost
  crowded y hy z hz hid hne hout := by
    simp only [Machine.relieved, Assoc.get?_erase] at hout
    split_ifs at hout
    exact hl.crowded y hy.1 z hz.1 hid hne hout

/-- What a host has that sends nothing. -/
theorem Ledger.silent (hl : h.Ledger sent inFlight lost) (r : Machine ρ × List (Effect ρ))
    (hout : r.1.outbound = h.outbound) (hnext : r.1.nextRequest = h.nextRequest)
    (hd : dropped r.2 = []) :
    r.1.Ledger (sent ++ []) (inFlight ∪ {x | x ∈ ([] : List (Sent ρ))}) (lost ++ dropped r.2) := by
  have hnone : {x : Sent ρ | x ∈ ([] : List (Sent ρ))} = ∅ :=
    Set.eq_empty_of_forall_notMem fun x => List.not_mem_nil
  rw [hd, List.append_nil, List.append_nil, hnone, Set.union_empty]
  exact hl.congr hout hnext

/-- **What a host has of its frames after a command.** -/
theorem CommandCase.ledger (hr : CommandCase h swarm c issued r)
    (hl : h.Ledger sent inFlight lost) :
    r.1.Ledger (sent ++ issued) (inFlight ∪ {x | x ∈ issued}) (lost ++ dropped r.2) := by
  cases hr with
  | goesOn => exact hl.goOn c.peer [c.waiter]
  | _ => exact hl.silent (_, _) rfl rfl rfl

theorem remaining_of_not_ended (he : e.ended? = none) (inFlight : Set (Sent ρ)) :
    e.remaining inFlight = inFlight :=
  Set.sep_eq_self_iff_mem_true.2 fun x _ => by simp [he]

/-- **What a host has of its frames after an event**, if only frames in flight end. -/
theorem EventCase.ledger (hr : EventCase h swarm e issued r) (hl : h.Ledger sent inFlight lost)
    (hended : ∀ n, e.ended? = some n → ∃ x ∈ inFlight, x.number = n) :
    r.1.Ledger (sent ++ issued) (e.remaining inFlight ∪ {x | x ∈ issued})
      (lost ++ dropped r.2) := by
  cases hr with
  | @connected p he h₁ h' effects h₁like hlike hquiet =>
    have hgoes := (hl.congr h₁like.outbound h₁like.nextRequest).goOn p (h.queue p)
    rw [dropped_append, hquiet.dropped, List.append_nil, remaining_of_not_ended (he ▸ rfl)]
    rw [h₁like.nextRequest] at hgoes
    exact hgoes.congr hlike.outbound hlike.nextRequest
  | dialFailed he =>
    rw [remaining_of_not_ended (he ▸ rfl)]
    exact hl.silent (_, _) rfl rfl (dropped_failAll ..)
  | @ended protocol id o result he ho hok =>
    obtain ⟨x, hx, hnumber⟩ := hended _ he
    obtain rfl : x.id = id := congrArg Prod.snd hnumber
    have hremaining : e.remaining inFlight = {y ∈ inFlight | y.number ≠ x.number} := by
      simp only [Event.remaining, he, ← hnumber, ne_eq, Option.some.injEq, eq_comm]
    rw [hremaining]
    exact (hl.relieved hx).silent (_, _) rfl rfl rfl
  | idle hlike hquiet hconnected hfailed hnothing =>
    cases he : e.ended? with
    | none =>
      rw [remaining_of_not_ended he]
      exact hl.silent (_, _) hlike.outbound hlike.nextRequest hquiet.dropped
    | some n =>
      obtain ⟨x, hx, rfl⟩ := hended n he
      have hremaining : e.remaining inFlight = {y ∈ inFlight | y.number ≠ x.number} := by
        simp only [Event.remaining, he, ne_eq, Option.some.injEq, eq_comm]
      rw [hremaining]
      refine (hl.relieved hx).silent (_, _) (hlike.outbound.trans ?_) hlike.nextRequest
        hquiet.dropped
      exact (Assoc.erase_of_notMem (Assoc.get?_eq_none_iff.1 (hnothing _ he))).symm

/-- Where nothing is sent no frame is overtaken. -/
theorem mem_dropped_silent {effects : List (Effect ρ)} (hd : dropped effects = []) {a : ρ} :
    a ∈ dropped effects ↔ ∃ x, Overtaken inFlight [] x ∧ x.reply = a :=
  iff_of_false (by simp [hd]) fun ⟨_, hx, _⟩ => not_overtaken_nil hx

/-- **Just the handles of frames that are overtaken are thrown away on a command.** -/
theorem CommandCase.mem_dropped (hr : CommandCase h swarm c issued r)
    (hl : h.Ledger sent inFlight lost) (a : ρ) :
    a ∈ dropped r.2 ↔ ∃ x, Overtaken inFlight issued x ∧ x.reply = a := by
  cases hr with
  | goesOn => exact hl.mem_dropped_goOn ..
  | _ => exact mem_dropped_silent rfl

/-- **Just the handles of frames that are overtaken are thrown away on an event.** -/
theorem EventCase.mem_dropped (hr : EventCase h swarm e issued r)
    (hl : h.Ledger sent inFlight lost) (a : ρ) :
    a ∈ dropped r.2 ↔ ∃ x, Overtaken inFlight issued x ∧ x.reply = a := by
  cases hr with
  | @connected p he h₁ h' effects h₁like hlike hquiet =>
    rw [dropped_append, hquiet.dropped, List.append_nil,
      (hl.congr h₁like.outbound h₁like.nextRequest).mem_dropped_goOn, h₁like.nextRequest]
    rfl
  | dialFailed => exact mem_dropped_silent (dropped_failAll ..)
  | ended => exact mem_dropped_silent rfl
  | idle hlike hquiet => exact mem_dropped_silent hquiet.dropped

end Machine

end KeyCustody.Host
