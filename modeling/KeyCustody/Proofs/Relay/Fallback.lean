import KeyCustody.Proofs.Relay.Endings
import KeyCustody.Simulation.World
/-!
# What a client gets for a request of keys

A node looks a request up in itself first. Whatever this comes to is what the client gets, unless it
is that nothing is held here and the node relays. Then it is the answer of a peer, or the very
failure of the lookup if the wait for an answer timed out, or what else went wrong on the way. That
an answer is of no use is said only if one came that cannot be read: a call never loses the slot in
which it waits.

## Main definitions

* `AnsweredHere`: a request that is answered by the node itself, without any frame.
* `Errand.IsOf`: a request that is relayed because a lookup found nothing.
* `GetsFrom`: what a client gets, by how the wait of its call ended.

## Main results

* `answeredHere_of_ok`, `answeredHere_of_error`: requests that are answered by the node itself.
* `Run.isOf`: what a client's request came to before it was relayed.
* `Run.returned_ofWait_iff`: what a call returns, by how its wait ended.
* `Waited.delivered`: where an answer with which a wait ended came from.
* `falls_back`: what clients get.
-/

namespace KeyCustody.Relay

open Crypto (Entropy SignatureScheme)
open Custody (DispatchError Storage)
open Node (ServiceError afterRelay)
open Peer (PeerId PeerStore)
open Pending (WaitError Waiter)
open Wire (Envelope GetRequest GetReply Payload)

variable {ι : Type} {S : SignatureScheme} {σ : Type}

/-! ### In the node itself -/

theorem isKeyMiss_iff {e : DispatchError} :
    e.isKeyMiss = true ↔ ∃ chain uuid, e = .adaptor (.keyNotFound chain uuid) := by
  cases e with
  | brokeDown method chain words => simp [DispatchError.isKeyMiss]
  | adaptor e => cases e <;> simp [DispatchError.isKeyMiss]

/-- A request is answered by the node itself: only the storage of its adaptors may change, and
wherever the node runs, nothing happens there but this and what is reported. -/
def AnsweredHere (n : Node.State S σ) (request : GetRequest)
    (result : Except ServiceError GetReply) : Prop :=
  ∃ storage log, n.lookUp request = ({ n with storage }, .answered result, log) ∧
    ∀ (ω : Type) [Simulation.World ω S σ] (v : ω) (name : String),
      Simulation.World.node? v name = some n →
        Simulation.getKeys v name request =
          (Simulation.World.report (Simulation.World.setNode v name { n with storage }) log,
            .ofExcept result)

theorem answeredHere_of_lookUp {n : Node.State S σ} {request : GetRequest} (storage : σ)
    (log : Node.Log) {result : Except ServiceError GetReply}
    (h : n.lookUp request = ({ n with storage }, .answered result, log)) :
    AnsweredHere n request result := by
  refine ⟨storage, log, h, fun ω inst v name hn => ?_⟩
  rw [Simulation.getKeys, hn]
  simp only [h]

/-- **A reply of the node's own adaptors** is the answer. -/
theorem answeredHere_of_ok {n : Node.State S σ} {request : GetRequest} {reply : GetReply}
    (h : (n.dispatcher.get request n.storage).1 = .ok reply) :
    AnsweredHere n request (.ok reply) := by
  rcases hget : n.dispatcher.get request n.storage with ⟨result, log, storage⟩
  rw [hget] at h
  simp only at h
  subst h
  refine answeredHere_of_lookUp storage log ?_
  rw [Node.State.lookUp, hget]
  rfl

/-- **A failure of the node's own adaptors** is the answer, unless it is that nothing is held here
and the node relays. -/
theorem answeredHere_of_error {n : Node.State S σ} {request : GetRequest} {e : DispatchError}
    (h : (n.dispatcher.get request n.storage).1 = .error e)
    (hstays : e.isKeyMiss = false ∨ n.relay? = none) :
    AnsweredHere n request (.error (.dispatch e)) := by
  rcases hget : n.dispatcher.get request n.storage with ⟨result, log, storage⟩
  rw [hget] at h
  simp only at h
  subst h
  refine answeredHere_of_lookUp storage log ?_
  rw [Node.State.lookUp, hget]
  cases hrelay : n.relay? with
  | none => simp only [Node.ofDispatch]
  | some settings =>
    rw [hrelay] at hstays
    obtain hmiss := hstays.resolve_right (by simp)
    simp only [hmiss, Bool.false_eq_true, if_false]

/-! ### Requests that are relayed -/

/-- A client's request is relayed because a lookup in the node found nothing, as the node relays. -/
def Errand.IsOf (net : Network ι S σ) (i : ι) (e : Errand) : Prop :=
  ∀ miss, e.miss? = some miss → net.relay? i = some e.settings ∧ miss.isKeyMiss = true ∧
    ∃ seen, ((net.dispatcher i).get e.request seen).1 = .error miss

/-- The request that a task is about. -/
def Task.errand? : Task → Option Errand
  | .ready e | .calling e _ _ | .relayed e _ | .leaving e _ _ _ => some e
  | .handling .. | .filling .. => none

section Runs

variable {net : Network ι S σ} {Arrives : History ι σ → Bytes → Prop} {h es : History ι σ}
  {w w' : World ι} {i : ι} {id : String} {e : Errand} {t t' : Task} {store : PeerStore}
  {slots slots' : Slots} {next : Option Task} {outcome : Outcome RelayError GetReply}

/-- A turn goes on with the request of its task. -/
theorem Turn.errand (ht : Turn net h i store slots t slots' next es) (hnext : t' ∈ next)
    (he : t'.errand? = some e) : t.errand? = some e := by
  cases ht with
  | start | await | stay | choose | leave =>
    obtain rfl := Option.some.inj hnext
    exact he
  | @sent e' id s outcome slots' p log hp =>
    obtain rfl := Option.some.inj hnext
    cases p <;> exact he
  | @take env slots' r? hs =>
    obtain ⟨r, -, rfl⟩ := Option.map_eq_some_iff.1 hnext
    cases he
  | finish | cancel | serve | fill => cases hnext

/-- A lookup that leads to a relay found nothing. -/
theorem of_lookUp_eq_relayed {n n' : Node.State S σ} {request : GetRequest} {settings : Settings}
    {miss : DispatchError} {log : Node.Log}
    (hn : n.lookUp request = (n', .relayed settings miss, log)) :
    n.relay? = some settings ∧ miss.isKeyMiss = true ∧
      (n.dispatcher.get request n.storage).1 = .error miss := by
  rcases hget : n.dispatcher.get request n.storage with ⟨result, log', storage⟩
  rw [Node.State.lookUp, hget] at hn
  cases result with
  | ok reply => cases hn
  | error e =>
    cases hrelay : n.relay? with
    | none =>
      simp only [hrelay] at hn
      cases hn
    | some settings' =>
      simp only [hrelay] at hn
      by_cases hmiss : e.isKeyMiss = true
      · rw [if_pos hmiss] at hn
        cases hn
        exact ⟨rfl, hmiss, rfl⟩
      · rw [if_neg hmiss] at hn
        cases hn

/-- **What a client's request came to** before it was relayed. -/
theorem Run.isOf [DecidableEq ι] (hrun : Run net Arrives h w) :
    (∀ p ∈ w.tasks, ∀ e, p.2.errand? = some e → e.IsOf net p.1) ∧
      ∀ {i e id outcome}, .returned i e id outcome ∈ h → e.IsOf net i := by
  induction hrun with
  | begin store =>
    exact ⟨fun p hp => absurd hp List.not_mem_nil, fun he => absurd he List.not_mem_nil⟩
  | step hrun hstep ih =>
    refine ⟨fun p hp e he => ?_, fun {i e id outcome} he => ?_⟩
    · cases hstep.comes hp with
      | stays hstays => exact ih.1 p hstays e he
      | turned hmoved ht hnext => exact ih.1 _ hmoved e (ht.errand hnext he)
      | asked i request settings =>
        obtain rfl := Option.some.inj he
        rintro miss ⟨⟩
      | looked hn =>
        obtain rfl := Option.some.inj he
        rintro miss ⟨⟩
        obtain ⟨hrelay, hmiss, hget⟩ := of_lookUp_eq_relayed hn
        exact ⟨hrelay, hmiss, _, hget⟩
      | arrived => cases he
    · rcases List.mem_append.1 he with he | he
      · obtain ⟨-, before, after, hw, -⟩ := hstep.of_returned he
        exact ih.1 _ (World.mem_moved hw) e rfl
      · exact ih.2 he

end Runs

/-! ### What clients get -/

theorem afterRelay_eq_value {miss : DispatchError} {outcome : Outcome RelayError GetReply}
    {reply : GetReply} : afterRelay miss outcome = .value reply ↔ outcome = .value reply := by
  cases outcome with
  | value reply' => simp [afterRelay]
  | failure e => cases e <;> simp [afterRelay]
  | breakdown b => simp [afterRelay]

theorem afterRelay_eq_dispatch {miss e : DispatchError} {outcome : Outcome RelayError GetReply} :
    afterRelay miss outcome = .failure (.dispatch e) ↔ e = miss ∧ outcome = .failure .timeout := by
  cases outcome with
  | value reply => simp [afterRelay]
  | failure err => cases err <;> simp [afterRelay, eq_comm]
  | breakdown b => simp [afterRelay]

theorem afterRelay_eq_relay {miss : DispatchError} {e : RelayError}
    {outcome : Outcome RelayError GetReply} :
    afterRelay miss outcome = .failure (.relay e) ↔ outcome = .failure e ∧ e ≠ .timeout := by
  cases outcome with
  | value reply => simp [afterRelay]
  | failure err => cases err <;> simp [afterRelay] <;> rintro rfl <;> simp
  | breakdown b => simp [afterRelay]

theorem afterRelay_eq_breakdown {miss : DispatchError} {b : Breakdown}
    {outcome : Outcome RelayError GetReply} :
    afterRelay miss outcome = .breakdown b ↔ outcome = .breakdown b := by
  cases outcome with
  | value reply => simp [afterRelay]
  | failure err => cases err <;> simp [afterRelay]
  | breakdown b => simp [afterRelay]

/-- What the result of a wait is worth tells which one it was, unless the slot went away. -/
theorem ofWait_injective {result result' : Except WaitError (Option GetReply)}
    (hknown : result ≠ .error .unknown) (hknown' : result' ≠ .error .unknown)
    (hworth : (Call.ofWait result).1 = (Call.ofWait result').1) : result = result' := by
  match result, result' with
  | .error .unknown, _ => exact absurd rfl hknown
  | _, .error .unknown => exact absurd rfl hknown'
  | .ok (some reply), .ok (some reply') => cases hworth; rfl
  | .ok none, .ok none => rfl
  | .error .timeout, .error .timeout => rfl
  | .ok (some reply), .ok none => cases hworth
  | .ok (some reply), .error .timeout => cases hworth
  | .ok none, .ok (some reply) => cases hworth
  | .ok none, .error .timeout => cases hworth
  | .error .timeout, .ok (some reply) => cases hworth
  | .error .timeout, .ok none => cases hworth

/-- A failure that the result of a wait is worth is about the answer or the time. -/
theorem ofWait_eq_error {result : Except WaitError (Option GetReply)} {err : RelayError}
    (hworth : (Call.ofWait result).1 = .error err) : err = .unusable ∨ err = .timeout := by
  match result, hworth with
  | .ok none, rfl => exact .inl rfl
  | .error .timeout, rfl => exact .inr rfl
  | .error .unknown, rfl => exact .inl rfl

/-- What a client gets whose request was relayed after a failure of the lookup, by how the wait of
its call ended. -/
structure GetsFrom [DecidableEq ι] (net : Network ι S σ) (Arrives : History ι σ → Bytes → Prop)
    (h : History ι σ) (w : World ι) (i : ι) (e : Errand) (id : String) (miss : DispatchError)
    (got : Outcome ServiceError GetReply) : Prop where
  reply (reply : GetReply) :
    got = .value reply ↔ Waited net Arrives h w i e id (.ok (some reply))
  miss (err : DispatchError) :
    got = .failure (.dispatch err) ↔
      err = miss ∧ Waited net Arrives h w i e id (.error .timeout)
  unusable :
    got = .failure (.relay .unusable) ↔ Waited net Arrives h w i e id (.ok none)
  ticker (b : Breakdown) :
    got = .breakdown b → b = .zeroPeriod ∧ e.settings.poll = 0 ∨ b = .instantOverflow

section Outcomes

variable [DecidableEq ι] {net : Network ι S σ} {Arrives : History ι σ → Bytes → Prop}
  {h : History ι σ} {w : World ι} {i : ι} {id : String} {e : Errand} {miss : DispatchError}
  {outcome : Outcome RelayError GetReply}

/-- **A call returns what a result of a wait is worth** exactly if its wait ended with it. -/
theorem Run.returned_ofWait_iff (hrun : Run net Arrives h w) (he : .returned i e id outcome ∈ h)
    (result : Except WaitError (Option GetReply)) (hknown : result ≠ .error .unknown) :
    outcome = .ofExcept (Call.ofWait result).1 ↔ Waited net Arrives h w i e id result := by
  refine ⟨fun houtcome => ?_, fun hw => hw.eq_of_returned hrun he⟩
  cases hrun.concludes.2 he with
  | @unsent err hanswer htime =>
    cases hworth : (Call.ofWait result).1 with
    | ok reply =>
      rw [hworth] at houtcome
      cases houtcome
    | error err' =>
      rw [hworth] at houtcome
      cases houtcome
      exact ((ofWait_eq_error hworth).elim hanswer htime).elim
  | @waited result' hw =>
    have hknown' : result' ≠ .error .unknown := by
      rintro rfl
      exact not_waited_unknown hw
    have hworth : (Call.ofWait result').1 = (Call.ofWait result).1 := by
      generalize (Call.ofWait result').1 = r', (Call.ofWait result).1 = r at houtcome
      cases r' <;> cases r <;> cases houtcome <;> rfl
    exact ofWait_injective hknown' hknown hworth ▸ hw
  | brokeDown =>
    generalize (Call.ofWait result).1 = r at houtcome
    cases r <;> cases houtcome

/-- **An answer with which a wait ended was delivered** under the message id of its call: in an
answer envelope that was in an arrived frame and passed the gate. -/
theorem Waited.delivered {answer : Option GetReply}
    (hw : Waited net Arrives h w i e id (.ok answer)) (hrun : Run net Arrives h w) :
    ∃ store remote data env, .accepted i .response store remote env ∈ h ∧
      Admitted S store .response remote data env ∧ env.kind = .keyResponse ∧
      env.messageId = id ∧ (replyOf env.payload).1 = answer := by
  obtain ⟨store, remote, env, he, hid, hanswer⟩ := hw.justified
  obtain ⟨names, hs⟩ := hrun.sound
  obtain ⟨h₀, data, -, -, hadmitted⟩ := hs.exists_admitted he
  exact ⟨store, remote, data, env, he, hadmitted, hadmitted.kind, hid, hanswer⟩

/-- **What a client gets for a relayed request** is told by how the wait of its call ended. -/
theorem Run.getsFrom (hrun : Run net Arrives h w) (he : .returned i e id outcome ∈ h) :
    GetsFrom net Arrives h w i e id miss (afterRelay miss outcome) where
  reply reply := afterRelay_eq_value.trans
    (hrun.returned_ofWait_iff he (.ok (some reply)) (by simp))
  miss err := afterRelay_eq_dispatch.trans
    (and_congr_right' (hrun.returned_ofWait_iff he (.error .timeout) (by simp)))
  unusable := by
    rw [afterRelay_eq_relay, and_iff_left (by simp)]
    exact hrun.returned_ofWait_iff he (.ok none) (by simp)
  ticker b hb := by
    rw [afterRelay_eq_breakdown] at hb
    subst hb
    generalize houtcome : (Outcome.breakdown b : Outcome RelayError GetReply) = outcome at he
    cases hrun.concludes.2 he with
    | unsent => cases houtcome
    | @waited result hw =>
      generalize (Call.ofWait result).1 = r at houtcome
      cases r <;> cases houtcome
    | brokeDown hb => exact Outcome.breakdown.inj houtcome ▸ hb

end Outcomes

/-- **What clients get.** A reply of the node's own adaptors is the answer, whatever its code is,
and so is a failure of theirs, unless it is that nothing is held and the node relays: then nothing
is sent, and no slot is made. Otherwise the request is relayed. In every run of a network in which
no message id is used twice, what comes of this is the reply with which the wait of the call ended,
the very failure of the lookup exactly if the wait timed out, and every other failure of the call as
it is. The wait never finds that its slot went away, neither when it begins nor later, so that an
answer is said to be of no use exactly if the wait ended with one that cannot be read. Whatever
answer a wait ended with came in an answer envelope that passed the gate under the message id of
its call. -/
theorem falls_back [DecidableEq ι] :
    (∀ (n : Node.State S σ) (request : GetRequest),
      (∀ reply, (n.dispatcher.get request n.storage).1 = .ok reply →
        AnsweredHere n request (.ok reply)) ∧
      (∀ e, (n.dispatcher.get request n.storage).1 = .error e →
        (¬ ∃ chain uuid, e = .adaptor (.keyNotFound chain uuid)) ∨ n.relay? = none →
        AnsweredHere n request (.error (.dispatch e))) ∧
      (∀ chain uuid settings,
        (n.dispatcher.get request n.storage).1 = .error (.adaptor (.keyNotFound chain uuid)) →
        n.relay? = some settings → ∃ storage log, n.lookUp request =
          ({ n with storage }, .relayed settings (.adaptor (.keyNotFound chain uuid)), log))) ∧
    ∀ (net : Network ι S σ) (Arrives : History ι σ → Bytes → Prop) (h : History ι σ) (w : World ι),
      Run net Arrives h w →
      (∀ i e id wt, (i, .leaving e id wt (.error .unknown)) ∉ w.tasks) ∧
      (∀ i e id poll timeout now err, (i, .relayed e id) ∈ w.tasks →
        (Waiter.begin (w.slots i) id poll timeout now).2 ≠ .failure err) ∧
      (∀ i e id answer, Waited net Arrives h w i e id (.ok answer) →
        ∃ store remote data env, .accepted i .response store remote env ∈ h ∧
          Admitted S store .response remote data env ∧ env.kind = .keyResponse ∧
          env.messageId = id ∧ (replyOf env.payload).1 = answer) ∧
      ∀ i e id outcome miss, .returned i e id outcome ∈ h → e.miss? = some miss →
        net.relay? i = some e.settings ∧
        (∃ chain uuid seen, miss = .adaptor (.keyNotFound chain uuid) ∧
          ((net.dispatcher i).get e.request seen).1 = .error miss) ∧
        GetsFrom net Arrives h w i e id miss (afterRelay miss outcome) ∧
        ∀ err, afterRelay miss outcome = .failure (.relay err) ↔
          outcome = .failure err ∧ err ≠ .timeout := by
  refine ⟨fun n request => ⟨fun reply => answeredHere_of_ok, fun e he hstays => ?_,
    fun chain uuid settings he hrelay => lookUp_eq_relayed hrelay he rfl⟩,
    fun net Arrives h w hrun => ⟨fun i e id wt => hrun.known, ?_,
      fun i e id answer hw => hw.delivered hrun, fun i e id outcome miss he hmiss => ?_⟩⟩
  · refine answeredHere_of_error he (hstays.imp_left fun hother => ?_)
    rw [← Bool.not_eq_true, isKeyMiss_iff]
    exact hother
  · intro i e id poll timeout now err ht
    have hholds : Holds (w.slots i) id := hrun.tidy.keeps _ ht
    exact hholds.begin_ne_failure
  · obtain ⟨hrelay, hkey, seen, hlooked⟩ := hrun.isOf.2 he miss hmiss
    obtain ⟨chain, uuid, rfl⟩ := isKeyMiss_iff.1 hkey
    exact ⟨hrelay, ⟨chain, uuid, seen, rfl, hlooked⟩, hrun.getsFrom he,
      fun err => afterRelay_eq_relay⟩

/-- One of two nodes, which holds nothing yet. -/
def pairNode : Node.State plainScheme (Storage × Entropy) :=
  World.state ⟨pairStore, fun _ => .empty, []⟩ pair false (Storage.empty, Entropy.ofSeed 0)

theorem get_pairNode :
    (pairNode.dispatcher.get ⟨"Bitcoin", "u1", ""⟩ pairNode.storage).1 = .ok .unsupported ∧
    (pairNode.dispatcher.get ⟨"Ethereum", "u1", ""⟩ pairNode.storage).1 =
      .error (.adaptor (.keyNotFound "Ethereum" "u1")) :=
  ⟨by cbv, by cbv⟩

/-- A client's request of which one of two nodes has nothing is not answered in time. -/
theorem exists_returned_timeout :
    ∃ h w, Run pair (fun _ _ => True) h w ∧
      .returned false ⟨⟨"Ethereum", "u1", ""⟩, ⟨1, 1, 1000⟩,
        some (.adaptor (.keyNotFound "Ethereum" "u1"))⟩ "m" (.failure .timeout) ∈ h := by
  have hbegin : Run pair (fun _ _ => True) [] _ := .begin pairStore
  obtain ⟨storage, log, hlookUp⟩ := lookUp_eq_relayed (n := pairNode) rfl get_pairNode.2 rfl
  have hrun := hbegin.step (.lookUp hlookUp)
  obtain ⟨w₁, wt, hrun₁, -, htasks₁, -⟩ :=
    exists_waiting_pair hrun rfl rfl (by simp) length_pairQuestion_le.2
  have hready : wt.isReady (w₁.slots false) wt.deadline .deadline = true := by
    simp [Waiter.isReady]
  have hchoose : wt.choose (w₁.slots false) wt.deadline .deadline = .inr (.error .timeout) :=
    if_pos le_rfl
  obtain ⟨w₂, hrun₂, -, -, htasks₂, -⟩ :=
    hrun₁.exists_turn (htasks₁.trans (List.nil_append _).symm) (.choose _ hready hchoose)
  rw [Option.toList_some, List.map_singleton, List.append_assoc] at htasks₂
  obtain ⟨w₃, hrun₃, -, -, htasks₃, -⟩ := hrun₂.exists_turn htasks₂ .leave
  rw [Option.toList_some, List.map_singleton, List.append_assoc] at htasks₃
  obtain ⟨w₄, hrun₄, -⟩ := hrun₃.exists_turn htasks₃ .finish
  exact ⟨_, w₄, hrun₄, List.mem_cons_self⟩

/-- What one of two nodes says itself: that it does not serve a chain, and, if it does not relay,
that it holds nothing. If it relays, a peer that does not answer leaves it at that, and a peer that
does not serve the chain either makes it say so. -/
theorem pair_falls_back :
    AnsweredHere pairNode ⟨"Bitcoin", "u1", ""⟩ (.ok .unsupported) ∧
    AnsweredHere { pairNode with relay? := none } ⟨"Ethereum", "u1", ""⟩
      (.error (.dispatch (.adaptor (.keyNotFound "Ethereum" "u1")))) ∧
    (∃ storage log, pairNode.lookUp ⟨"Ethereum", "u1", ""⟩ = ({ pairNode with storage },
      .relayed ⟨1, 1, 1000⟩ (.adaptor (.keyNotFound "Ethereum" "u1")), log)) ∧
    (∃ h w, Run pair (fun _ _ => True) h w ∧ GetsFrom pair (fun _ _ => True) h w false
      ⟨⟨"Ethereum", "u1", ""⟩, ⟨1, 1, 1000⟩, some (.adaptor (.keyNotFound "Ethereum" "u1"))⟩ "m"
      (.adaptor (.keyNotFound "Ethereum" "u1"))
      (.failure (.dispatch (.adaptor (.keyNotFound "Ethereum" "u1"))))) ∧
    ∃ h w, Run pair (fun _ data => data = (pairAnswer .unsupported).octets) h w ∧
      GetsFrom pair (fun _ data => data = (pairAnswer .unsupported).octets) h w false
        ⟨⟨"Ethereum", "u1", ""⟩, ⟨1, 1, 1000⟩, some (.adaptor (.keyNotFound "Ethereum" "u1"))⟩ "m"
        (.adaptor (.keyNotFound "Ethereum" "u1")) (.value .unsupported) ∧
      ∃ store remote data env, .accepted false .response store remote env ∈ h ∧
        Admitted plainScheme store .response remote data env ∧ env.kind = .keyResponse ∧
        env.messageId = "m" ∧ (replyOf env.payload).1 = some .unsupported := by
  have hfalls := falls_back (ι := Bool) (S := plainScheme) (σ := Storage × Entropy)
  refine ⟨(hfalls.1 _ _).1 _ get_pairNode.1, (hfalls.1 _ _).2.1 _ get_pairNode.2 (.inr rfl),
    (hfalls.1 _ _).2.2 _ _ _ get_pairNode.2 rfl, ?_, ?_⟩
  · obtain ⟨h, w, hrun, hreturned⟩ := exists_returned_timeout
    obtain ⟨-, -, hgets, -⟩ := (hfalls.2 _ _ h w hrun).2.2.2 _ _ _ _ _ hreturned rfl
    exact ⟨h, w, hrun, hgets⟩
  · obtain ⟨h, w, hrun, hreturned⟩ := exists_returned_unsupported
    obtain ⟨-, -, hdelivered, hends⟩ := hfalls.2 _ _ h w hrun
    obtain ⟨-, -, hgets, -⟩ := hends _ _ _ _ _ hreturned rfl
    exact ⟨h, w, hrun, hgets, hdelivered _ _ _ _ ((hgets.reply _).1 rfl)⟩

end KeyCustody.Relay
