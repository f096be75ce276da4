import KeyCustody.Node.Connections
import KeyCustody.Proofs.Assoc
import Mathlib.Data.List.Induction
import Mathlib.Data.List.Perm.Subperm
/-!
# Connections between the watermarks

What is noted of a peer depends on the events since the last one that ended its connection: of the
connections among them the first one counts. With more peers than the high watermark allows, the
oldest of those that are past their grace are chosen, as many as there are above the low watermark
or as many as are past their grace. They are forgotten at once, so that an event that chooses
connections ends those that it chooses.

## Main definitions

* `Connections.Event`, `Connections.run`: events, and what is noted after them.
* `Connections.Event.Ends`: events that end the connection of a peer.
* `Connections.Selects`: which peers are to be chosen.

## Main results

* `Connections.since_run`: since when each peer is connected.
* `Connections.trim_eq`, `Connections.selects_victims`: the peers that are chosen.
* `Connections.trim_after_run`: what is noted and what is chosen after any events.
-/

namespace KeyCustody.Node.Connections

variable {π : Type} {c : Connections π} {now : Nat}

/-! ### Peers that are chosen -/

/-- A peer is connected for the period of grace at least. -/
def isPastGrace (c : Connections π) (now : Nat) (entry : π × Nat) : Bool :=
  c.grace ≤ now - entry.2

/-- The number of the peers that are connected for the period of grace at least. -/
def pastGrace (c : Connections π) (now : Nat) : Nat :=
  c.since.countP (c.isPastGrace now)

/-- The entries of the peers past their grace, the oldest first. -/
def oldest (c : Connections π) (now : Nat) : Assoc π Nat :=
  (c.since.filter (c.isPastGrace now)).mergeSort fun p q => p.2 ≤ q.2

theorem candidates_eq (c : Connections π) (now : Nat) :
    c.candidates now = (c.oldest now).map Prod.fst := rfl

theorem oldest_perm (c : Connections π) (now : Nat) :
    (c.oldest now).Perm (c.since.filter (c.isPastGrace now)) :=
  List.mergeSort_perm ..

theorem mem_oldest {entry : π × Nat} :
    entry ∈ c.oldest now ↔ entry ∈ c.since ∧ c.grace ≤ now - entry.2 := by
  rw [(c.oldest_perm now).mem_iff, List.mem_filter, isPastGrace, decide_eq_true_eq]

theorem length_oldest (c : Connections π) (now : Nat) :
    (c.oldest now).length = c.pastGrace now := by
  rw [(c.oldest_perm now).length_eq, ← List.countP_eq_length_filter, pastGrace]

theorem pairwise_oldest (c : Connections π) (now : Nat) :
    (c.oldest now).Pairwise fun x y => x.2 ≤ y.2 := by
  have htrans : ∀ x y z : π × Nat, decide (x.2 ≤ y.2) = true → decide (y.2 ≤ z.2) = true →
      decide (x.2 ≤ z.2) = true := by
    intro x y z hxy hyz
    rw [decide_eq_true_eq] at hxy hyz ⊢
    exact Nat.le_trans hxy hyz
  have htotal : ∀ x y : π × Nat, (decide (x.2 ≤ y.2) || decide (y.2 ≤ x.2)) = true := by
    intro x y
    rw [Bool.or_eq_true, decide_eq_true_eq, decide_eq_true_eq]
    exact Nat.le_total _ _
  have hsorted := List.pairwise_mergeSort htrans htotal (c.since.filter (c.isPastGrace now))
  simpa only [decide_eq_true_eq, oldest] using hsorted

theorem pastGrace_le (c : Connections π) (now : Nat) : c.pastGrace now ≤ c.size :=
  List.countP_le_length

theorem nodup_keys_oldest (hc : (Assoc.keys c.since).Nodup) (now : Nat) :
    (Assoc.keys (c.oldest now)).Nodup :=
  ((c.oldest_perm now).map _).nodup_iff.2 (hc.sublist (List.filter_sublist.map _))

variable [DecidableEq π]

/-- The peers that are chosen at an instant, if the watermarks are in order. -/
def victims (c : Connections π) (now : Nat) : List π :=
  if c.size ≤ c.high then [] else (c.candidates now).take (c.size - c.low)

/-- What is noted without the peers in a list. -/
def without (c : Connections π) (ps : List π) : Connections π :=
  { c with since := c.since.filter fun entry => !ps.contains entry.1 }

@[simp] theorem without_nil (c : Connections π) : c.without [] = c := by
  simp [without]

/-- **The choice never breaks down** if the watermarks are in order: the peers that are chosen are
forgotten. -/
theorem trim_eq (h : c.low ≤ c.high) (now : Nat) :
    c.trim now = (c.without (c.victims now), .value (c.victims now)) := by
  rw [trim, victims]
  split_ifs with hhigh hlow
  · rw [without_nil]
  · omega
  · rfl

theorem exists_trim_eq_value (h : c.low ≤ c.high) (now : Nat) :
    ∃ victims, (c.trim now).2 = .value victims :=
  ⟨_, congrArg Prod.snd (trim_eq h now)⟩

/-! ### Which peers are chosen -/

/-- Which peers are to be chosen above the high watermark: distinct ones past their grace, the
oldest first, of which none is younger than a peer past its grace that is left behind, down to the
low watermark as far as there are such peers. -/
structure Selects (c : Connections π) (now : Nat) (chosen : List π) : Prop where
  nodup : chosen.Nodup
  pastGrace : ∀ p ∈ chosen, ∃ t, Assoc.get? c.since p = some t ∧ c.grace ≤ now - t
  oldestFirst : chosen.Pairwise fun p q =>
    ∀ s t, Assoc.get? c.since p = some s → Assoc.get? c.since q = some t → s ≤ t
  noneOlder : ∀ p ∈ chosen, ∀ q ∉ chosen, ∀ s t, Assoc.get? c.since p = some s →
    Assoc.get? c.since q = some t → c.grace ≤ now - t → s ≤ t
  length_eq : chosen.length = min (c.size - c.low) (c.pastGrace now)

/-- **The first of the oldest peers are the ones to be chosen.** -/
theorem selects_take (hc : (Assoc.keys c.since).Nodup) (now : Nat) :
    Selects c now ((c.candidates now).take (c.size - c.low)) := by
  have hget : ∀ {x : π × Nat} {t}, x ∈ c.oldest now → Assoc.get? c.since x.1 = some t →
      x.2 = t := by
    intro x t hx ht
    have hx := Assoc.get?_of_mem hc (mem_oldest.1 hx).1
    exact Option.some.inj (hx.symm.trans ht)
  have hsplit := List.take_append_drop (c.size - c.low) (c.oldest now)
  have hsorted := c.pairwise_oldest now
  rw [← hsplit, List.pairwise_append] at hsorted
  obtain ⟨hfirst, -, hbetween⟩ := hsorted
  rw [candidates_eq, ← List.map_take]
  constructor
  · exact (nodup_keys_oldest hc now).sublist ((List.take_sublist _ _).map _)
  · rintro p hp
    obtain ⟨x, hx, rfl⟩ := List.mem_map.1 hp
    obtain ⟨hmem, hgrace⟩ := mem_oldest.1 (List.mem_of_mem_take hx)
    exact ⟨x.2, Assoc.get?_of_mem hc hmem, hgrace⟩
  · rw [List.pairwise_map]
    refine hfirst.imp_of_mem fun {x y} hx hy hxy s t hs ht => ?_
    rw [← hget (List.mem_of_mem_take hx) hs, ← hget (List.mem_of_mem_take hy) ht]
    exact hxy
  · intro p hp q hq s t hs ht hgrace
    obtain ⟨x, hx, rfl⟩ := List.mem_map.1 hp
    have hmem : (q, t) ∈ c.oldest now := mem_oldest.2 ⟨Assoc.mem_of_get? ht, hgrace⟩
    have hlate : (q, t) ∈ (c.oldest now).drop (c.size - c.low) := by
      rw [← hsplit, List.mem_append] at hmem
      exact hmem.resolve_left fun h => hq (List.mem_map_of_mem h)
    rw [← hget (List.mem_of_mem_take hx) hs]
    exact hbetween x hx _ hlate
  · rw [List.length_map, List.length_take, length_oldest]

/-- The peers that are chosen are noted, so that as many less are noted without them. -/
theorem size_without (hc : (Assoc.keys c.since).Nodup) {ps : List π} (hps : ps.Nodup)
    (hsub : ∀ p ∈ ps, p ∈ Assoc.keys c.since) : (c.without ps).size + ps.length = c.size := by
  have hparts := (List.filter_append_perm (fun x : π × Nat => ps.contains x.1) c.since).length_eq
  have hchosen : (Assoc.keys (c.since.filter fun x => ps.contains x.1)).Perm ps := by
    refine (List.perm_ext_iff_of_nodup (hc.sublist (List.filter_sublist.map _)) hps).2 fun p => ?_
    constructor
    · intro hp
      obtain ⟨x, hx, rfl⟩ := List.mem_map.1 hp
      exact List.contains_iff_mem.1 (List.mem_filter.1 hx).2
    · intro hp
      obtain ⟨x, hx, rfl⟩ := List.mem_map.1 (hsub p hp)
      exact List.mem_map_of_mem (List.mem_filter.2 ⟨hx, List.contains_iff_mem.2 hp⟩)
  have hlength := hchosen.length_eq
  rw [Assoc.keys, List.length_map] at hlength
  rw [List.length_append, hlength] at hparts
  simp only [size, without]
  omega

/-- What is noted of the other peers stays as it is. -/
theorem get?_without (c : Connections π) (ps : List π) (p : π) :
    Assoc.get? (c.without ps).since p = if p ∈ ps then none else Assoc.get? c.since p := by
  rw [without, Assoc.get?_filter c.since fun q => !ps.contains q]
  by_cases hp : p ∈ ps <;> simp [hp]

/-! ### Events -/

/-- What happens to the connections of a node. -/
inductive Event (π : Type) where
  | connected (p : π) (now : Nat)
  | disconnected (p : π)
  | trim (now : Nat)
  deriving DecidableEq, Repr

/-- What is noted after an event. -/
def apply (c : Connections π) : Event π → Connections π
  | .connected p now => c.connected p now
  | .disconnected p => c.disconnected p
  | .trim now => (c.trim now).1

/-- What is noted before any event. -/
def empty (low high grace : Nat) : Connections π := ⟨low, high, grace, []⟩

/-- What is noted after events, one after another. -/
def run (c : Connections π) (events : List (Event π)) : Connections π :=
  events.foldl apply c

theorem run_concat (c : Connections π) (events : List (Event π)) (e : Event π) :
    c.run (events ++ [e]) = (c.run events).apply e := by
  simp [run]

namespace Event

/-- The event ends the connection of a peer: its last connection is gone, or it is chosen. -/
def Ends (c : Connections π) (p : π) : Event π → Prop
  | .connected _ _ => False
  | .disconnected q => q = p
  | .trim now => ∃ chosen, (c.trim now).2 = .value chosen ∧ p ∈ chosen

/-- The instant at which the event connects a peer. -/
def connects? (p : π) : Event π → Option Nat
  | .connected q now => if q = p then some now else none
  | .disconnected _ => none
  | .trim _ => none

end Event

/-- A choice leaves the numbers as they are, and forgets the peers that it chooses. -/
theorem trim_cases (c : Connections π) (now : Nat) :
    ∃ chosen, (c.trim now).1 = c.without chosen ∧
      ∀ p, p ∈ chosen ↔ (Event.trim now).Ends c p := by
  simp only [Event.Ends, trim]
  split_ifs
  · exact ⟨[], by simp, by simp⟩
  · exact ⟨[], by simp, by simp⟩
  · exact ⟨_, rfl, by simp⟩

/-- Of the connections of a peer the first one counts. -/
theorem get?_connected (c : Connections π) (q : π) (now : Nat) (p : π) :
    Assoc.get? (c.connected q now).since p =
      (Assoc.get? c.since p).or (if q = p then some now else none) := by
  rw [connected, Assoc.contains]
  rcases h : Assoc.get? c.since q with _ | t
  · rw [if_neg (by simp), Assoc.get?_put]
    by_cases hq : q = p
    · subst hq
      rw [if_pos rfl, if_pos rfl, h, Option.none_or]
    · rw [if_neg (Ne.symm hq), if_neg hq, Option.or_none]
  · rw [if_pos (by simp)]
    by_cases hq : q = p
    · subst hq
      rw [h, Option.some_or]
    · rw [if_neg hq, Option.or_none]

/-- **What an event leaves of a peer**: nothing if it ends its connection; otherwise what was noted,
and the instant of a connection if nothing was. -/
theorem get?_apply (c : Connections π) (e : Event π) (p : π) :
    (e.Ends c p → Assoc.get? (c.apply e).since p = none) ∧
      (¬ e.Ends c p → Assoc.get? (c.apply e).since p =
        (Assoc.get? c.since p).or (e.connects? p)) := by
  rcases e with ⟨q, now⟩ | q | now
  · exact ⟨False.elim, fun _ => c.get?_connected q now p⟩
  · simp only [apply, disconnected, Event.Ends, Event.connects?, Assoc.get?_erase]
    exact ⟨fun h => if_pos h.symm, fun h => by rw [if_neg (Ne.symm h), Option.or_none]⟩
  · obtain ⟨chosen, htrim, hchosen⟩ := c.trim_cases now
    simp only [apply, htrim, get?_without, ← hchosen, Event.connects?]
    exact ⟨fun h => if_pos h, fun h => by rw [if_neg h, Option.or_none]⟩

/-- An event leaves the numbers as they are, and no peer is noted twice. -/
theorem apply_keeps (c : Connections π) (e : Event π) :
    (c.apply e).low = c.low ∧ (c.apply e).high = c.high ∧ (c.apply e).grace = c.grace ∧
      ((Assoc.keys c.since).Nodup → (Assoc.keys (c.apply e).since).Nodup) := by
  rcases e with ⟨q, now⟩ | q | now
  · simp only [apply, connected]
    split_ifs
    · exact ⟨rfl, rfl, rfl, id⟩
    · exact ⟨rfl, rfl, rfl, fun h => Assoc.nodup_keys_put h _ _⟩
  · exact ⟨rfl, rfl, rfl, fun h => Assoc.nodup_keys_erase h q⟩
  · obtain ⟨chosen, htrim, -⟩ := c.trim_cases now
    rw [apply, htrim]
    exact ⟨rfl, rfl, rfl, fun h => h.sublist (List.filter_sublist.map _)⟩

theorem run_keeps (c : Connections π) (hc : (Assoc.keys c.since).Nodup) (events : List (Event π)) :
    (c.run events).low = c.low ∧ (c.run events).high = c.high ∧
      (c.run events).grace = c.grace ∧ (Assoc.keys (c.run events).since).Nodup := by
  induction events using List.reverseRecOn with
  | nil => exact ⟨rfl, rfl, rfl, hc⟩
  | append_singleton events e ih =>
    obtain ⟨hlow, hhigh, hgrace, hnodup⟩ := ih
    obtain ⟨hlow', hhigh', hgrace', hnodup'⟩ := (c.run events).apply_keeps e
    rw [run_concat]
    exact ⟨hlow'.trans hlow, hhigh'.trans hhigh, hgrace'.trans hgrace, hnodup' hnodup⟩

/-! ### Since when a peer is connected -/

/-- The events are none yet, or the last of them ended the connection of a peer. -/
def JustEnded (c : Connections π) (p : π) (events : List (Event π)) : Prop :=
  events = [] ∨ ∃ before e, events = before ++ [e] ∧ e.Ends (c.run before) p

/-- None of the later events ended the connection of a peer. -/
def StaysUp (c : Connections π) (p : π) (events later : List (Event π)) : Prop :=
  ∀ before e after, later = before ++ e :: after → ¬ e.Ends (c.run (events ++ before)) p

theorem staysUp_nil (c : Connections π) (p : π) (events : List (Event π)) :
    StaysUp c p events [] := by
  intro before e after h
  simp at h

theorem StaysUp.concat {events later : List (Event π)} {e : Event π}
    (h : StaysUp c p events later) (he : ¬ e.Ends (c.run (events ++ later)) p) :
    StaysUp c p events (later ++ [e]) := by
  intro before d after hsplit
  rcases List.eq_nil_or_concat after with rfl | ⟨after, e', rfl⟩
  · obtain ⟨rfl, hd⟩ := List.append_inj' hsplit rfl
    obtain rfl : e = d := by simpa using hd
    exact he
  · rw [List.concat_eq_append, ← List.cons_append, ← List.append_assoc] at hsplit
    exact h before d after (List.append_inj' hsplit rfl).1

/-- **Since when a peer is connected.** The events fall into those up to the last one that ended the
connection of the peer and those since; the first connection among the latter is noted, if there is
one. -/
theorem since_run (hc : c.since = []) (p : π) (events : List (Event π)) :
    ∃ old recent, events = old ++ recent ∧ JustEnded c p old ∧ StaysUp c p old recent ∧
      Assoc.get? (c.run events).since p = recent.findSome? (Event.connects? p) := by
  induction events using List.reverseRecOn with
  | nil =>
    refine ⟨[], [], rfl, .inl rfl, staysUp_nil c p [], ?_⟩
    rw [run, List.foldl_nil, hc]
    rfl
  | append_singleton events e ih =>
    obtain ⟨old, recent, rfl, hold, hrecent, hget⟩ := ih
    obtain ⟨hended, hstays⟩ := (c.run (old ++ recent)).get?_apply e p
    rw [run_concat]
    by_cases he : e.Ends (c.run (old ++ recent)) p
    · exact ⟨old ++ recent ++ [e], [], by simp, .inr ⟨_, e, rfl, he⟩, staysUp_nil c p _,
        hended he⟩
    · refine ⟨old, recent ++ [e], by simp, hold, hrecent.concat he, ?_⟩
      rw [hstays he, hget, List.findSome?_append, List.findSome?_singleton]

/-! ### After any events -/

/-- **What is noted and what is chosen after any events**, for watermarks in order. Of each peer the
instant is noted of its first connection since the last event that ended its connection, if there
was one since. A choice never breaks down. With no more peers than the high watermark it chooses
none and changes nothing. With more it chooses the oldest of the peers past their grace and forgets
them and no others, and as many peers are left as the low watermark, or as there are within their
grace if those are more. -/
theorem trim_after_run {low high grace : Nat} (hwater : low ≤ high) (events : List (Event π))
    {c : Connections π} (hc : c = (empty low high grace).run events) :
    (c.low = low ∧ c.high = high ∧ c.grace = grace) ∧
    (∀ p, ∃ old recent, events = old ++ recent ∧ JustEnded (empty low high grace) p old ∧
      StaysUp (empty low high grace) p old recent ∧
      Assoc.get? c.since p = recent.findSome? (Event.connects? p)) ∧
    ∀ now, ∃ chosen, (c.trim now).2 = .value chosen ∧
      (c.size ≤ high → chosen = [] ∧ (c.trim now).1 = c) ∧
      (high < c.size → Selects c now chosen ∧
        (c.trim now).1.size = max low (c.size - c.pastGrace now)) ∧
      ∀ p, Assoc.get? (c.trim now).1.since p =
        if p ∈ chosen then none else Assoc.get? c.since p := by
  obtain ⟨hlow, hhigh, hgrace, hnodup⟩ :=
    run_keeps (empty low high grace : Connections π) List.nodup_nil events
  rw [← hc] at hlow hhigh hgrace hnodup
  refine ⟨⟨hlow, hhigh, hgrace⟩, fun p => hc ▸ since_run rfl p events, fun now => ?_⟩
  replace hlow : c.low = low := hlow
  replace hhigh : c.high = high := hhigh
  have hselects := selects_take hnodup now
  rw [trim_eq (by omega) now]
  refine ⟨c.victims now, rfl, fun hsize => ?_, fun hsize => ?_, fun p => get?_without c _ p⟩
  · rw [victims, if_pos (by omega)]
    exact ⟨rfl, without_nil c⟩
  · rw [victims, if_neg (by omega)]
    have hlength := hselects.length_eq
    have hleft := size_without hnodup hselects.nodup fun p hp => by
      obtain ⟨t, ht, -⟩ := hselects.pastGrace p hp
      exact List.mem_map_of_mem (Assoc.mem_of_get? ht)
    have hle := c.pastGrace_le now
    refine ⟨hselects, ?_⟩
    show (c.without _).size = _
    omega

/-- Of three peers two are past their grace. One of them connected again after it was gone, and the
other one while it was connected, which does not count; the oldest is chosen first, and one peer is
left. -/
theorem trim_after_reconnects : ∃ c : Connections Nat,
    c = (empty 1 2 10).run [.connected 1 0, .connected 2 5, .disconnected 1, .connected 1 20,
      .connected 2 30, .connected 3 40] ∧
    c.since = [(2, 5), (1, 20), (3, 40)] ∧
    ∃ chosen, (c.trim 35).2 = .value chosen ∧ chosen = [2, 1] ∧ Selects c 35 chosen ∧
      (c.trim 35).1.size = 1 := by
  have hwater : 1 ≤ 2 := by decide
  obtain ⟨-, -, htrim⟩ := trim_after_run hwater _ (rfl : (empty 1 2 10 : Connections Nat).run
    [.connected 1 0, .connected 2 5, .disconnected 1, .connected 1 20, .connected 2 30,
      .connected 3 40] = _)
  obtain ⟨chosen, hchosen, -, hover, -⟩ := htrim 35
  obtain ⟨hselects, hsize⟩ := hover (by decide)
  have hsorted : [(2, 5), (1, 20)].Pairwise fun x y : Nat × Nat => decide (x.2 ≤ y.2) := by decide
  have hvictims : chosen = ((([(2, 5), (1, 20)] : List (Nat × Nat)).mergeSort
      fun x y => decide (x.2 ≤ y.2)).map Prod.fst).take 2 := (Outcome.value.inj hchosen).symm
  rw [List.mergeSort_of_pairwise hsorted] at hvictims
  exact ⟨_, rfl, by decide, chosen, hchosen, hvictims, hselects, hsize.trans (by decide)⟩

end KeyCustody.Node.Connections
