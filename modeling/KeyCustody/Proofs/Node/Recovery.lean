import KeyCustody.Node.Recovery
import KeyCustody.Proofs.Peer.Store
/-!
# What comes of announcements

The recovery loop is told one thing after the other: that a peer was announced, then whether it is
connected if its id is greater than the own one, then how the dial ended if it is not, and at last
that there are no more announcements. Whatever it is told, it dials just the greater peers that are
not connected, each announcement once and in the order of the announcements, and it records just
the greater peers that are connected or whose dial succeeded. What comes of one announcement does
not depend on the others. Since of two ids exactly one is the smaller, one of two peers dials the
other, and the other one does not.

## Main definitions

* `Encounter.Greater`, `Encounter.Dialed`, `Encounter.change?`: what comes of an announcement.
* `Notice`, `Encounter.notices`: what the loop is told, at all and about one announcement.
* `Loop`, `Loop.hear`, `Loop.run`: the loop, told one thing after the other.
* `Loop.Heard`: what the loop was told until it came to be where it is.

## Main results

* `dialed_recoverAll`, `store_recoverAll`: the dials, and the changes of the store.
* `Loop.Heard.hear`, `Loop.run_eq_some_iff`: what the loop can have been told.
* `xor_dials`: which of two peers dials the other.
* `recovery_of_announcements`: all that the loop does.
-/

namespace KeyCustody.Node

open Peer (PeerId PeerStore)

/-! ### Steps -/

/-- A peer whose octets are greater than the own ones is asked about, since it is another one. -/
theorem Recovery.begin_of_lt {own : PeerId} {d : Discovered}
    (h : own.toBytes < d.peer.toBytes) : begin own d = some (.asking d) := by
  have hother : d.peer ≠ own := by
    intro heq
    rw [heq] at h
    exact List.lt_irrefl _ h
  rw [begin, if_neg]
  simp [shouldDial, PeerId.lt_iff.2 h, hother]

theorem Recovery.begin_of_not_lt {own : PeerId} {d : Discovered}
    (h : ¬ own.toBytes < d.peer.toBytes) : begin own d = none := by
  rw [begin, if_pos]
  exact .inr (by simpa [shouldDial, ← PeerId.lt_iff] using h)

namespace Encounter

/-- The announced peer is one that is dialed from here. -/
def Greater (own : PeerId) (e : Encounter) : Prop :=
  own.toBytes < e.announced.peer.toBytes

/-- The announced peer is dialed. -/
def Dialed (own : PeerId) (e : Encounter) : Prop :=
  e.Greater own ∧ e.isConnected = false

instance (own : PeerId) (e : Encounter) : Decidable (e.Greater own) :=
  inferInstanceAs (Decidable (own.toBytes < e.announced.peer.toBytes))

instance (own : PeerId) (e : Encounter) : Decidable (e.Dialed own) :=
  inferInstanceAs (Decidable (_ ∧ _))

/-- The change of the store that comes of an announcement: the announced addresses are good for
twelve hours from the instant at which the peer was found connected, or was dialed with success. -/
def change? (own : PeerId) (e : Encounter) : Option PeerStore.Change :=
  if e.Greater own then
    if e.isConnected then
      some (.addAddrs e.announced.peer e.announced.addrs recoveredTtl e.answered)
    else if e.outcome = .connected then
      some (.addAddrs e.announced.peer e.announced.addrs recoveredTtl e.ended)
    else none
  else none

end Encounter

/-- A greater peer is connected, or it is dialed. -/
theorem Encounter.connected_or_dialed {own : PeerId} {e : Encounter} (h : e.Greater own) :
    e.isConnected = true ∨ e.Dialed own := by
  cases hconnected : e.isConnected with
  | true => exact .inl rfl
  | false => exact .inr ⟨h, hconnected⟩

section

variable {own : PeerId} {r : Recovered} {e : Encounter}

theorem recoverOne_of_not_greater (h : ¬ e.Greater own) : recoverOne own r e = r := by
  rw [recoverOne, Recovery.begin_of_not_lt h]

theorem recoverOne_of_connected (h : e.Greater own) (hconnected : e.isConnected = true) :
    recoverOne own r e = { r with store := Recovery.record r.store e.announced e.answered } := by
  rw [recoverOne, Recovery.begin_of_lt h, hconnected]
  simp [Recovery.onConnected]

theorem recoverOne_of_dialed (h : e.Dialed own) :
    recoverOne own r e =
      { store := (Recovery.onDial e.announced e.outcome r.store e.ended).1
        dialed := r.dialed ++ [e.announced]
        log := r.log ++ info "Dialing discovered peer" ++
          (Recovery.onDial e.announced e.outcome r.store e.ended).2
        waited := if e.outcome = .timedOut then r.waited + dialTimeout else r.waited } := by
  rw [recoverOne, Recovery.begin_of_lt h.1, h.2]
  rfl

/-- **The dials of one announcement.** -/
theorem dialed_recoverOne : (recoverOne own r e).dialed =
    r.dialed ++ if e.Dialed own then [e.announced] else [] := by
  by_cases h : e.Greater own
  · rcases Encounter.connected_or_dialed h with hconnected | hdialed
    · have hnot : ¬ e.Dialed own := fun hd => Bool.false_ne_true (hd.2.symm.trans hconnected)
      rw [recoverOne_of_connected h hconnected, if_neg hnot, List.append_nil]
    · rw [recoverOne_of_dialed hdialed, if_pos hdialed]
  · rw [recoverOne_of_not_greater h, if_neg fun hd => h hd.1, List.append_nil]

/-- **The change of the store by one announcement.** -/
theorem store_recoverOne : (recoverOne own r e).store =
    (e.change? own).toList.foldl PeerStore.apply r.store := by
  rw [Encounter.change?]
  by_cases h : e.Greater own
  · rcases Encounter.connected_or_dialed h with hconnected | hdialed
    · rw [recoverOne_of_connected h hconnected, if_pos h, if_pos hconnected]
      rfl
    · rw [recoverOne_of_dialed hdialed, if_pos h, hdialed.2]
      cases e.outcome <;> rfl
  · rw [recoverOne_of_not_greater h, if_neg h]
    rfl

end

section

variable (own : PeerId) (s : PeerStore) (es : List Encounter)

/-! ### Announcements one after another -/

/-- **The dials** are the announcements of greater peers that are not connected. -/
theorem dialed_recoverAll :
    (recoverAll own s es).dialed = (es.filter (Encounter.Dialed own ·)).map (·.announced) := by
  induction es using List.reverseRecOn with
  | nil => rfl
  | append_singleton es e ih =>
    rw [recoverAll, List.foldl_concat, ← recoverAll, dialed_recoverOne, ih, List.filter_append,
      List.map_append, List.filter_singleton]
    by_cases he : e.Dialed own <;> simp [he]

/-- **The changes of the store** are those of the announcements, each on its own. -/
theorem store_recoverAll :
    (recoverAll own s es).store =
      (es.filterMap (Encounter.change? own)).foldl PeerStore.apply s := by
  induction es using List.reverseRecOn with
  | nil => rfl
  | append_singleton es e ih =>
    rw [recoverAll, List.foldl_concat, ← recoverAll, store_recoverOne, ih, List.filterMap_append,
      List.foldl_append]
    cases h : e.change? own <;> simp [h]

end

section

variable {own other : PeerId} {s : PeerStore} {e : Encounter} {es before after : List Encounter}

/-- A dial that fails changes nothing but that it was made. -/
theorem recoverAll_of_failed (hdialed : e.Dialed own) (hfailed : e.outcome ≠ .connected) :
    (recoverAll own s (before ++ e :: after)).store = (recoverAll own s (before ++ after)).store ∧
    (recoverAll own s (before ++ e :: after)).dialed =
      (recoverAll own s before).dialed ++ e.announced :: (recoverAll own s after).dialed ∧
    (recoverAll own s (before ++ after)).dialed =
      (recoverAll own s before).dialed ++ (recoverAll own s after).dialed := by
  have hchange : e.change? own = none := by
    rw [Encounter.change?, if_pos hdialed.1, hdialed.2, if_neg Bool.false_ne_true, if_neg hfailed]
  refine ⟨?_, ?_, ?_⟩
  · rw [store_recoverAll, store_recoverAll, List.filterMap_append, List.filterMap_append,
      List.filterMap_cons_none hchange]
  · simp [dialed_recoverAll, hdialed]
  · simp [dialed_recoverAll]

/-- The dials of one peer, by a peer with a smaller id. -/
theorem dialed_filter_of_lt (h : own.toBytes < other.toBytes) :
    ((recoverAll own s es).dialed.filter fun d => d.peer = other) =
      (es.filter fun e => e.announced.peer = other ∧ e.isConnected = false).map (·.announced) := by
  rw [dialed_recoverAll, List.filter_map, List.filter_filter]
  congr 1
  refine List.filter_congr fun e he => ?_
  by_cases hpeer : e.announced.peer = other
  · simp [Encounter.Dialed, Encounter.Greater, hpeer, h]
  · simp [hpeer]

end

/-! ### The loop -/

/-- What the loop is told. -/
inductive Notice where
  /-- A peer was announced. -/
  | announced (d : Discovered)
  /-- Whether the peer is connected. -/
  | connection (isConnected : Bool) (now : Nat)
  /-- How the dial ended. -/
  | dialEnd (outcome : DialOutcome) (now : Nat)
  /-- There are no more announcements. -/
  | closed

/-- What the loop is told about one announcement. -/
def Encounter.notices (own : PeerId) (e : Encounter) : List Notice :=
  if e.Greater own then
    if e.isConnected then [.announced e.announced, .connection true e.answered]
    else [.announced e.announced, .connection false e.answered, .dialEnd e.outcome e.ended]
  else [.announced e.announced]

/-- What the loop waits for. -/
inductive Stage where
  /-- An announcement, or that there are no more of them. -/
  | listening
  /-- An answer about a peer. -/
  | awaiting (r : Recovery)
  /-- The loop has ended. -/
  | finished

/-- The loop, with what it has done. -/
structure Loop where
  stage : Stage
  done : Recovered

namespace Loop

/-- The loop at its start. -/
def start (s : PeerStore) : Loop := ⟨.listening, ⟨s, [], [], 0⟩⟩

/-- The loop after it was told something, which must be something that it waits for. -/
def hear (own : PeerId) : Loop → Notice → Option Loop
  | ⟨.listening, r⟩, .announced d =>
    match Recovery.begin own d with
    | none => some ⟨.listening, r⟩
    | some asking => some ⟨.awaiting asking, r⟩
  | ⟨.listening, r⟩, .closed => some ⟨.finished, r⟩
  | ⟨.awaiting (.asking d), r⟩, .connection isConnected now =>
    match Recovery.onConnected d isConnected r.store now with
    | (store, none, log) => some ⟨.listening, { r with store, log := r.log ++ log }⟩
    | (store, some dialing, log) =>
      some ⟨.awaiting dialing,
        { r with store, dialed := r.dialed ++ [d], log := r.log ++ log }⟩
  | ⟨.awaiting (.dialing d), r⟩, .dialEnd outcome now =>
    let (store, log) := Recovery.onDial d outcome r.store now
    some ⟨.listening,
      { r with
        store
        log := r.log ++ log
        waited := if outcome = .timedOut then r.waited + dialTimeout else r.waited }⟩
  | _, _ => none

/-- The loop after it was told several things. -/
def run (own : PeerId) (l : Loop) (ns : List Notice) : Option Loop :=
  ns.foldlM (hear own) l

variable {own : PeerId} {s : PeerStore} {ns : List Notice} {n : Notice} {l l' : Loop}

theorem run_append (l : Loop) (ns ns' : List Notice) :
    run own l (ns ++ ns') = (run own l ns).bind (run own · ns') :=
  List.foldlM_append

theorem run_cons_of_hear (h : l.hear own n = some l') : run own l (n :: ns) = run own l' ns := by
  rw [run, List.foldlM_cons, h]
  rfl

theorem run_singleton (l : Loop) (n : Notice) : run own l [n] = l.hear own n := by
  simp [run]

/-! ### What the loop can have been told -/

/-- A peer that is about to be dialed was found not to be connected. -/
def dialing (r : Recovered) (d : Discovered) : Loop :=
  ⟨.awaiting (.dialing d),
    { r with dialed := r.dialed ++ [d], log := r.log ++ info "Dialing discovered peer" }⟩

theorem hear_announced_of_lt {r : Recovered} {d : Discovered}
    (h : own.toBytes < d.peer.toBytes) :
    hear own ⟨.listening, r⟩ (.announced d) = some ⟨.awaiting (.asking d), r⟩ := by
  rw [hear, Recovery.begin_of_lt h]

theorem hear_announced_of_not_lt {r : Recovered} {d : Discovered}
    (h : ¬ own.toBytes < d.peer.toBytes) :
    hear own ⟨.listening, r⟩ (.announced d) = some ⟨.listening, r⟩ := by
  rw [hear, Recovery.begin_of_not_lt h]

theorem hear_connected (r : Recovered) (d : Discovered) (now : Nat) :
    hear own ⟨.awaiting (.asking d), r⟩ (.connection true now) =
      some ⟨.listening, { r with store := Recovery.record r.store d now }⟩ := by
  simp [hear, Recovery.onConnected]

theorem hear_unconnected (r : Recovered) (d : Discovered) (now : Nat) :
    hear own ⟨.awaiting (.asking d), r⟩ (.connection false now) = some (dialing r d) := rfl

/-- Told all about one announcement, the loop has done what is to be done about it. -/
theorem run_notices (r : Recovered) (e : Encounter) :
    run own ⟨.listening, r⟩ (e.notices own) = some ⟨.listening, recoverOne own r e⟩ := by
  rw [Encounter.notices]
  by_cases h : e.Greater own
  · rcases Encounter.connected_or_dialed h with hconnected | hdialed
    · rw [if_pos h, if_pos hconnected, recoverOne_of_connected h hconnected]
      exact (run_cons_of_hear (hear_announced_of_lt h)).trans
        (run_cons_of_hear (hear_connected _ _ _))
    · rw [if_pos h, hdialed.2, recoverOne_of_dialed hdialed]
      exact (run_cons_of_hear (hear_announced_of_lt h)).trans
        ((run_cons_of_hear (hear_unconnected _ _ _)).trans (run_cons_of_hear rfl))
  · rw [if_neg h, recoverOne_of_not_greater h]
    exact run_cons_of_hear (hear_announced_of_not_lt h)

theorem run_flatMap_notices (s : PeerStore) (es : List Encounter) :
    run own (start s) (es.flatMap (Encounter.notices own)) =
      some ⟨.listening, recoverAll own s es⟩ := by
  induction es using List.reverseRecOn with
  | nil => rfl
  | append_singleton es e ih =>
    rw [List.flatMap_append, run_append, ih, List.flatMap_singleton, Option.bind_some, run_notices,
      recoverAll, recoverAll, List.foldl_concat]

/-- What the loop was told until it came to be where it is: all about some announcements, and what
it has heard of the one that it is at. -/
inductive Heard (own : PeerId) (s : PeerStore) : List Notice → Loop → Prop
  | listening (es : List Encounter) :
      Heard own s (es.flatMap (Encounter.notices own)) ⟨.listening, recoverAll own s es⟩
  | asking (es : List Encounter) {d : Discovered} (hlt : own.toBytes < d.peer.toBytes) :
      Heard own s (es.flatMap (Encounter.notices own) ++ [.announced d])
        ⟨.awaiting (.asking d), recoverAll own s es⟩
  | dialing (es : List Encounter) {d : Discovered} (hlt : own.toBytes < d.peer.toBytes)
      (now : Nat) :
      Heard own s (es.flatMap (Encounter.notices own) ++ [.announced d, .connection false now])
        (dialing (recoverAll own s es) d)
  | finished (es : List Encounter) :
      Heard own s (es.flatMap (Encounter.notices own) ++ [.closed])
        ⟨.finished, recoverAll own s es⟩

/-- The loop has dealt with one more announcement when it was told all about it. -/
theorem Heard.listening_concat (es : List Encounter) (e : Encounter) {r : Recovered}
    (hns : ns = es.flatMap (Encounter.notices own) ++ e.notices own)
    (hr : r = recoverOne own (recoverAll own s es) e) : Heard own s ns ⟨.listening, r⟩ := by
  have h : Heard own s _ _ := .listening (es ++ [e])
  rw [List.flatMap_append, List.flatMap_singleton, recoverAll, List.foldl_concat,
    ← recoverAll] at h
  rwa [hns, hr]

/-- **What the loop is told next** is about the announcement that it is at, or the next one. -/
theorem Heard.hear (h : Heard own s ns l) (hstep : l.hear own n = some l') :
    Heard own s (ns ++ [n]) l' := by
  cases h with
  | listening es =>
    cases n with
    | announced d =>
      by_cases hlt : own.toBytes < d.peer.toBytes
      · rw [hear_announced_of_lt hlt] at hstep
        obtain rfl := Option.some.inj hstep
        exact .asking es hlt
      · rw [hear_announced_of_not_lt hlt] at hstep
        obtain rfl := Option.some.inj hstep
        -- The peer is passed over, so that any answers about it will do.
        let e : Encounter := ⟨d, false, 0, .timedOut, 0⟩
        have hgreater : ¬ e.Greater own := hlt
        refine .listening_concat es e ?_ (recoverOne_of_not_greater hgreater).symm
        rw [Encounter.notices, if_neg hgreater]
    | closed =>
      obtain rfl := Option.some.inj hstep
      exact .finished es
    | _ => cases hstep
  | @asking es d hlt =>
    cases n with
    | connection isConnected now =>
      cases isConnected with
      | false =>
        rw [hear_unconnected] at hstep
        obtain rfl := Option.some.inj hstep
        rw [List.append_assoc]
        exact .dialing es hlt now
      | true =>
        rw [hear_connected] at hstep
        obtain rfl := Option.some.inj hstep
        let e : Encounter := ⟨d, true, now, .timedOut, 0⟩
        have hgreater : e.Greater own := hlt
        refine .listening_concat es e ?_ (recoverOne_of_connected hgreater rfl).symm
        rw [Encounter.notices, if_pos hgreater, List.append_assoc]
        rfl
    | _ => cases hstep
  | @dialing es d hlt asked =>
    cases n with
    | dialEnd outcome now =>
      obtain rfl := Option.some.inj hstep
      let e : Encounter := ⟨d, false, asked, outcome, now⟩
      have hdialed : e.Dialed own := ⟨hlt, rfl⟩
      have hrecovers := recoverOne_of_dialed (r := recoverAll own s es) hdialed
      refine .listening_concat es e ?_ hrecovers.symm
      rw [Encounter.notices, if_pos hdialed.1, List.append_assoc]
      rfl
    | _ => cases hstep
  | finished es => cases hstep

theorem Heard.run (h : Heard own s ns l) : run own (start s) ns = some l := by
  cases h with
  | listening es => exact run_flatMap_notices s es
  | @asking es d hlt =>
    rw [run_append, run_flatMap_notices, Option.bind_some, run_singleton,
      hear_announced_of_lt hlt]
  | @dialing es d hlt now =>
    rw [run_append, run_flatMap_notices, Option.bind_some,
      run_cons_of_hear (hear_announced_of_lt hlt), run_singleton, hear_unconnected]
  | finished es =>
    rw [run_append, run_flatMap_notices, Option.bind_some, run_singleton]
    rfl

/-- **What the loop can have been told**, and where it is then. -/
theorem run_eq_some_iff : run own (start s) ns = some l ↔ Heard own s ns l := by
  refine ⟨fun h => ?_, Heard.run⟩
  induction ns using List.reverseRecOn generalizing l with
  | nil =>
    obtain rfl := Option.some.inj h
    exact .listening []
  | append_singleton ns n ih =>
    rw [run_append] at h
    obtain ⟨l', hrun, hlast⟩ := Option.bind_eq_some_iff.1 h
    rw [run_singleton] at hlast
    exact (ih hrun).hear hlast

/-- Wherever the loop is, it has dialed greater peers only. -/
theorem lt_of_mem_dialed {d : Discovered} (hrun : run own (start s) ns = some l)
    (hd : d ∈ l.done.dialed) : own.toBytes < d.peer.toBytes := by
  have hall (es : List Encounter) (hd : d ∈ (recoverAll own s es).dialed) :
      own.toBytes < d.peer.toBytes := by
    rw [dialed_recoverAll] at hd
    obtain ⟨e, he, rfl⟩ := List.mem_map.1 hd
    exact (of_decide_eq_true (List.mem_filter.1 he).2).1
  cases run_eq_some_iff.1 hrun with
  | listening es => exact hall es hd
  | asking es hlt => exact hall es hd
  | dialing es hlt now =>
    rcases List.mem_append.1 hd with hd | hd
    · exact hall es hd
    · rwa [List.mem_singleton.1 hd]
  | finished es => exact hall es hd

/-- The loop has ended when it was told all about some announcements and that there are no more of
them, and at no other time. -/
theorem run_eq_finished_iff {r : Recovered} : run own (start s) ns = some ⟨.finished, r⟩ ↔
    ∃ es : List Encounter, ns = es.flatMap (Encounter.notices own) ++ [.closed] ∧
      r = recoverAll own s es := by
  rw [run_eq_some_iff]
  constructor
  · intro h
    cases h with
    | finished es => exact ⟨es, rfl, rfl⟩
  · rintro ⟨es, rfl, rfl⟩
    exact .finished es

end Loop

/-! ### Two peers -/

/-- **Of two peers one dials the other**: the one with the smaller id does so whenever the other is
announced to it and is not connected, and the other one never does, whatever either is told. -/
theorem xor_dials {p q : PeerId} (hne : p ≠ q) :
    Xor (p.toBytes < q.toBytes) (q.toBytes < p.toBytes) ∧
    (p.toBytes < q.toBytes → ∀ s s' : PeerStore,
      (∀ ns l, Loop.run q (.start s') ns = some l → ∀ d ∈ l.done.dialed, d.peer ≠ p) ∧
      ∀ es, ((recoverAll p s es).dialed.filter fun d => d.peer = q) =
        (es.filter fun e => e.announced.peer = q ∧ e.isConnected = false).map (·.announced)) := by
  refine ⟨Bytes.xor_lt_of_ne fun h => hne (PeerId.toBytes_injective h), fun hlt s s' =>
    ⟨fun ns l hrun d hd hpeer => ?_, fun es => dialed_filter_of_lt hlt⟩⟩
  have hgt := Loop.lt_of_mem_dialed hrun hd
  rw [hpeer] at hgt
  exact List.lt_asymm hlt hgt

/-! ### All announcements -/

/-- **What comes of announcements.** The loop has ended when it was told all about some
announcements and that there are no more of them, and at no other time. It has then dialed the
greater peers that were not connected, each announcement once and in their order, and the store has
the changes that come of the announcements, each on its own. A dial that fails changes nothing but
that it was made. The loop never dials its own peer, and of two peers one dials the other: the one
with the smaller id, whenever the other is announced to it and is not connected. -/
theorem recovery_of_announcements (own : PeerId) (s : PeerStore) :
    (∀ ns r, Loop.run own (.start s) ns = some ⟨.finished, r⟩ ↔
      ∃ es : List Encounter, ns = es.flatMap (Encounter.notices own) ++ [.closed] ∧
        r = recoverAll own s es) ∧
    (∀ es : List Encounter,
      (recoverAll own s es).dialed = (es.filter (Encounter.Dialed own ·)).map (·.announced) ∧
      (recoverAll own s es).store =
        (es.filterMap (Encounter.change? own)).foldl PeerStore.apply s) ∧
    (∀ (before after : List Encounter) (e : Encounter), e.Dialed own → e.outcome ≠ .connected →
      (recoverAll own s (before ++ e :: after)).store =
        (recoverAll own s (before ++ after)).store ∧
      (recoverAll own s (before ++ e :: after)).dialed =
        (recoverAll own s before).dialed ++ e.announced :: (recoverAll own s after).dialed ∧
      (recoverAll own s (before ++ after)).dialed =
        (recoverAll own s before).dialed ++ (recoverAll own s after).dialed) ∧
    (∀ ns l, Loop.run own (.start s) ns = some l → ∀ d ∈ l.done.dialed, d.peer ≠ own) ∧
    ∀ other, own ≠ other →
      Xor (own.toBytes < other.toBytes) (other.toBytes < own.toBytes) ∧
      (own.toBytes < other.toBytes → ∀ s' : PeerStore,
        (∀ ns l, Loop.run other (.start s') ns = some l → ∀ d ∈ l.done.dialed, d.peer ≠ own) ∧
        ∀ es, ((recoverAll own s es).dialed.filter fun d => d.peer = other) =
          (es.filter fun e => e.announced.peer = other ∧ e.isConnected = false).map
            (·.announced)) := by
  refine ⟨fun ns r => Loop.run_eq_finished_iff,
    fun es => ⟨dialed_recoverAll own s es, store_recoverAll own s es⟩,
    fun before after e hdialed hfailed => recoverAll_of_failed hdialed hfailed,
    fun ns l hrun d hd hpeer => ?_, fun other hne => ?_⟩
  · have hlt := Loop.lt_of_mem_dialed hrun hd
    rw [hpeer] at hlt
    exact List.lt_irrefl _ hlt
  · obtain ⟨hxor, hdials⟩ := xor_dials hne
    exact ⟨hxor, fun hlt s' => hdials hlt s s'⟩

/-- A peer with a short id. -/
def lowPeer : PeerId := ⟨.inline, [7], by decide⟩

/-- A peer with a longer id, which is the greater one. -/
def highPeer : PeerId := ⟨.inline, [3, 5], by decide⟩

/-- An announcement of a peer that is not connected and cannot be dialed. -/
def unreachable (peer : PeerId) : Encounter := ⟨⟨peer, []⟩, false, 0, .timedOut, 0⟩

/-- Announced to each other twice, the first peer dials the second one twice although no dial
succeeds, and the second one never dials. -/
theorem low_dials_high :
    (recoverAll lowPeer .empty [unreachable highPeer, unreachable highPeer]).dialed =
      [⟨highPeer, []⟩, ⟨highPeer, []⟩] ∧
    (recoverAll lowPeer .empty [unreachable highPeer, unreachable highPeer]).store = .empty ∧
    ∀ ns l, Loop.run highPeer (.start .empty) ns = some l →
      ∀ d ∈ l.done.dialed, d.peer ≠ lowPeer := by
  have hne : lowPeer ≠ highPeer := by decide
  have hlt : lowPeer.toBytes < highPeer.toBytes := by decide +kernel
  have hdialed : (unreachable highPeer).Dialed lowPeer := ⟨hlt, rfl⟩
  obtain ⟨-, -, hfailed, -, htwo⟩ := recovery_of_announcements lowPeer .empty
  obtain ⟨hfirst, hdials, -⟩ := hfailed [] [unreachable highPeer] _ hdialed (by decide)
  obtain ⟨hsecond, hdial, -⟩ := hfailed [] [] _ hdialed (by decide)
  refine ⟨?_, hfirst.trans hsecond, ((htwo highPeer hne).2 hlt .empty).1⟩
  rw [List.nil_append] at hdials hdial
  rw [hdials, hdial]
  rfl

end KeyCustody.Node
