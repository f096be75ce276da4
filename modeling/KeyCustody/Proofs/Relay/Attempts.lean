import KeyCustody.Proofs.Pending.Reserved
import KeyCustody.Proofs.Relay.Answered
/-!
# The attempts to relay a request

A node that relays a request registers a slot for the answer, puts the request into one frame, and
sends this frame to one of the peers that it knows after another, until one takes it or the attempts
are used up. The choices, the outcomes of the sends, and what all other tasks do on the slots
between any two of them are arbitrary, but for the message id, which is left to this request.

Every send but the last one failed. So the number of sends is that of the first one that succeeds,
or the smaller one of the number of attempts and that of the peers. The slot stands from before the
first send on, and is gone if the request fails, whatever the failure is.

## Main definitions

* `Job`: a request that is to be relayed, and by whom.
* `Effort`, `Attempt`, `Job.Run`: how far the attempts are, a send, and a run with all others.
* `Job.Fails`: the failures, with the sends before each of them.

## Main results

* `Job.start_cases`, `Job.onSent_error`: what the request itself does to the slots.
* `Job.Run.fits`: what holds of every run.
* `relays_within_budget`: the sends, the slot, and the other slots.
-/

namespace KeyCustody.Relay

open Crypto (SignatureScheme)
open Net (TransportError)
open Peer (PeerId PeerStore Identity)
open Pending (Apart Reserved Stands Table)
open Wire (Envelope EnvelopeError GetReply Payload StreamProtocol)

variable {S : SignatureScheme}

/-! ### Requests and their attempts -/

/-- A request that is to be relayed, with the node that relays it and the time at which it does. -/
structure Job (S : SignatureScheme) where
  own : Identity S
  store : PeerStore
  /-- The most attempts to send the request. -/
  attempts : Nat
  protocol : StreamProtocol
  payload : Bytes
  messageId : String
  /-- Milliseconds on the clock of the store. -/
  now : Nat
  timestamp : UInt64

/-- A send of a frame to a peer. -/
structure Attempt where
  peer : PeerId
  protocol : StreamProtocol
  frame : Bytes
  outcome : Except TransportError Unit

/-- How far the attempts of a request are. -/
inductive Effort where
  | sending (s : Sending)
  /-- The message id if a peer took the request, else why none did. -/
  | over (result : Except RelayError String)

/-- The attempts after the start of a request. -/
def Effort.ofStart : Except RelayError Sending → Effort
  | .ok s => .sending s
  | .error e => .over (.error e)

/-- The attempts after a send of a request with a message id. -/
def Effort.ofProgress (messageId : String) : Sending.Progress → Effort
  | .taken => .over (.ok messageId)
  | .again s => .sending s
  | .failed e => .over (.error e)

namespace Job

/-- The peers that can be asked. -/
def peers (x : Job S) : List PeerId :=
  candidates x.store x.own.peerId x.now

/-- The frame of the request, if it has one. -/
def frame? (x : Job S) : Except EnvelopeError Bytes :=
  requestFrame x.own x.timestamp x.messageId x.payload

/-- The most sends. -/
def budget (x : Job S) : Nat :=
  min x.attempts x.peers.length

/-- The slots and the request after its start. -/
def start (x : Job S) (slots : Slots) : Slots × Except RelayError Sending :=
  Sending.start x.own x.store x.attempts x.protocol x.payload x.messageId x.now x.timestamp slots

/-- A run of a request that meets the world `w₀`: how far it is, its sends so far in their order,
what is remembered of all other tasks since the start, and the world. -/
inductive Run (x : Job S) (w₀ : Pending.World (Option GetReply)) : Effort → List Attempt →
    Pending.History (Option GetReply) → Pending.World (Option GetReply) → Prop
  | begin : Run x w₀ (.ofStart (x.start w₀.table).2) [] [] { w₀ with table := (x.start w₀.table).1 }
  /-- A peer is chosen, and the send to it has an outcome. -/
  | attempt {s : Sending} {sent : List Attempt} {es : Pending.History (Option GetReply)}
      {w : Pending.World (Option GetReply)} (hrun : Run x w₀ (.sending s) sent es w) (choice : Nat)
      (outcome : Except TransportError Unit) :
      Run x w₀ (.ofProgress s.messageId (s.onSent outcome w.table).2.1)
        (sent ++ [⟨s.choose choice, s.protocol, s.frame, outcome⟩]) es
        { w with table := (s.onSent outcome w.table).1 }
  /-- Another task does something, and leaves the message id alone. -/
  | other {f : Effort} {sent : List Attempt} {es es' : Pending.History (Option GetReply)}
      {w w' : Pending.World (Option GetReply)} (hrun : Run x w₀ f sent es w)
      (hstep : Pending.Step w es' w') (hapart : Apart x.messageId es') :
      Run x w₀ f sent (es' ++ es) w'

/-- The failures of a request, each with its cause and the sends before it. -/
def Fails (x : Job S) (sent : List Attempt) : RelayError → Prop
  | .noPeers => x.peers = [] ∧ sent = []
  | .emptyRequest => x.peers ≠ [] ∧ x.payload = [] ∧ sent = []
  | .envelope e => x.peers ≠ [] ∧ x.payload ≠ [] ∧ x.frame? = .error e ∧ sent = []
  | .noHost => x.peers ≠ [] ∧ x.payload ≠ [] ∧ (∃ frame, x.frame? = .ok frame) ∧
      sent.length = x.budget ∧ ∀ a ∈ sent, a.outcome ≠ .ok ()
  | .unusable | .timeout => False

/-! ### What the request itself does -/

variable {x : Job S} {slots : Slots} {w₀ w : Pending.World (Option GetReply)} {s : Sending}
  {sent : List Attempt} {es : Pending.History (Option GetReply)} {f : Effort}

/-- The start of a request: it fails at once and leaves no slot, or a slot is registered and there
are attempts. -/
theorem start_cases (x : Job S) (slots : Slots) :
    (∃ e, (x.start slots).2 = .error e ∧ x.Fails [] e ∧ ((x.start slots).1 = slots ∨
      (x.start slots).1 = (slots.insert x.messageId).remove x.messageId)) ∨
    ∃ s, x.start slots = (slots.insert x.messageId, .ok s) ∧ s.messageId = x.messageId ∧
      s.protocol = x.protocol ∧ x.frame? = .ok s.frame ∧ s.peers = x.peers ∧
      x.payload ≠ [] ∧ s.left = x.budget ∧ 0 < s.left := by
  unfold start Sending.start
  cases hpeers : x.peers with
  | nil =>
    left
    rw [peers] at hpeers
    rw [hpeers]
    exact ⟨_, rfl, ⟨hpeers, rfl⟩, .inl rfl⟩
  | cons first others =>
    have hne : x.peers ≠ [] := hpeers ▸ List.cons_ne_nil _ _
    have hbudget : x.budget = min x.attempts (others.length + 1) := by
      rw [budget, hpeers, List.length_cons]
    rw [peers] at hpeers
    simp only [hpeers]
    by_cases hpayload : x.payload = []
    · left
      rw [if_pos (List.isEmpty_iff.2 hpayload)]
      exact ⟨_, rfl, ⟨hne, hpayload, rfl⟩, .inl rfl⟩
    · rw [if_neg (mt List.isEmpty_iff.1 hpayload)]
      cases hframe : requestFrame x.own x.timestamp x.messageId x.payload with
      | error e => exact .inl ⟨_, rfl, ⟨hne, hpayload, hframe, rfl⟩, .inr rfl⟩
      | ok frame =>
        simp only
        by_cases hleft : min x.attempts (others.length + 1) = 0
        · left
          rw [if_pos hleft]
          refine ⟨_, rfl, ⟨hne, hpayload, ⟨frame, hframe⟩, ?_, List.forall_mem_nil _⟩, .inr rfl⟩
          rw [hbudget, hleft, List.length_nil]
        · right
          rw [if_neg hleft]
          exact ⟨_, rfl, rfl, rfl, hframe, rfl, hpayload, hbudget.symm, Nat.pos_of_ne_zero hleft⟩

/-- A send that fails is the last one, or leaves one attempt less. -/
theorem onSent_error (s : Sending) (e : TransportError) (slots : Slots) :
    (s.onSent (.error e) slots).1 = (if s.left ≤ 1 then slots.remove s.messageId else slots) ∧
      (s.onSent (.error e) slots).2.1 =
        if s.left ≤ 1 then .failed .noHost else .again { s with left := s.left - 1 } := by
  unfold Sending.onSent
  simp only
  split_ifs <;> exact ⟨rfl, rfl⟩

/-- The request touches no slot but its own. -/
theorem beside_start (x : Job S) (hslots : slots.Separate) :
    Table.Beside x.messageId slots (x.start slots).1 := by
  rcases x.start_cases slots with ⟨e, -, -, h | h⟩ | ⟨s, h, -⟩ <;> rw [h]
  · exact .refl _ _
  · exact (hslots.beside_insert _).trans ((hslots.insert _).beside_remove _)
  · exact hslots.beside_insert _

theorem beside_onSent (s : Sending) (outcome : Except TransportError Unit)
    (hslots : slots.Separate) : Table.Beside s.messageId slots (s.onSent outcome slots).1 := by
  cases outcome with
  | ok u => exact .refl _ _
  | error e =>
    rw [(onSent_error s e slots).1]
    split_ifs
    · exact hslots.beside_remove _
    · exact .refl _ _

/-! ### What holds of every run -/

/-- A send of a request: to a peer that can be asked, and of the frame. -/
def Sends (x : Job S) (a : Attempt) : Prop :=
  a.peer ∈ x.peers ∧ a.protocol = x.protocol ∧ x.frame? = .ok a.frame

/-- What holds while a request is sent, with its slot of registration `r`, once a peer has taken it,
and after it has failed. -/
def Fits (x : Job S) (r : Nat) (sent : List Attempt) (es : Pending.History (Option GetReply))
    (w : Pending.World (Option GetReply)) : Effort → Prop
  | .sending s => (s.messageId = x.messageId ∧ s.protocol = x.protocol ∧ x.frame? = .ok s.frame ∧
      s.peers = x.peers ∧ x.payload ≠ []) ∧ sent.length + s.left = x.budget ∧ 0 < s.left ∧
      (∀ a ∈ sent, a.outcome ≠ .ok ()) ∧ Reserved x.messageId r es w
  | .over (.ok id) => id = x.messageId ∧ (∃ failed last, sent = failed ++ [last] ∧
      last.outcome = .ok () ∧ ∀ a ∈ failed, a.outcome ≠ .ok ()) ∧ sent.length ≤ x.budget ∧
      Reserved x.messageId r es w
  | .over (.error e) => x.Fails sent e ∧ w.table.contains x.messageId = false

/-- A request whose slot others leave alone goes on to fit. -/
theorem Fits.other {r : Nat} {es' : Pending.History (Option GetReply)}
    {w' : Pending.World (Option GetReply)} (hf : x.Fits r sent es w f)
    (hstep : Pending.Step w es' w') (hapart : Apart x.messageId es') :
    x.Fits r sent (es' ++ es) w' f := by
  match f, hf with
  | .sending s, ⟨hs, hleft, hpos, hfailed, hr⟩ =>
    exact ⟨hs, hleft, hpos, hfailed, hr.step hstep hapart⟩
  | .over (.ok id), ⟨hid, hsent, hlength, hr⟩ =>
    exact ⟨hid, hsent, hlength, hr.step hstep hapart⟩
  | .over (.error e), ⟨hfails, hgone⟩ => exact ⟨hfails, hapart.contains hstep hgone⟩

theorem contains_remove (slots : Slots) (id : String) : (slots.remove id).contains id = false := by
  rw [← Bool.not_eq_true, Table.contains_iff_owns]
  rintro ⟨r, ho⟩
  exact (Table.owns_of_remove ho).2 rfl

/-- A request fits at its start. -/
theorem fits_start {h₀ : Pending.History (Option GetReply)} (hrun : Pending.Run h₀ w₀)
    (hfresh : w₀.table.contains x.messageId = false) :
    x.Fits w₀.table.channels.length [] [] { w₀ with table := (x.start w₀.table).1 }
      (.ofStart (x.start w₀.table).2) := by
  rcases x.start_cases w₀.table with ⟨e, herror, hfails, htable⟩ |
    ⟨s, hstart, hid, hprotocol, hframe, hpeers, hpayload, hleft, hpos⟩
  · rw [herror]
    refine ⟨hfails, ?_⟩
    rcases htable with htable | htable <;> simp only [htable]
    · exact hfresh
    · exact contains_remove _ _
  · rw [hstart]
    exact ⟨⟨hid, hprotocol, hframe, hpeers, hpayload⟩, by rw [List.length_nil, Nat.zero_add, hleft],
      hpos, List.forall_mem_nil _, hrun.reserved _⟩

/-- A request fits after a send. -/
theorem Fits.attempt {r : Nat} (hf : x.Fits r sent es w (.sending s)) (choice : Nat)
    (outcome : Except TransportError Unit) :
    x.Fits r (sent ++ [⟨s.choose choice, s.protocol, s.frame, outcome⟩]) es
      { w with table := (s.onSent outcome w.table).1 }
      (.ofProgress s.messageId (s.onSent outcome w.table).2.1) := by
  obtain ⟨hs, hleft, hpos, hfailed, hr⟩ := hf
  have hlength (a : Attempt) : (sent ++ [a]).length = sent.length + 1 := by simp
  cases outcome with
  | ok u =>
    refine ⟨hs.1, ⟨sent, _, rfl, rfl, hfailed⟩, ?_, hr⟩
    rw [hlength]
    omega
  | error e =>
    obtain ⟨htable, hprogress⟩ := onSent_error s e w.table
    have hfailed' : ∀ a ∈ sent ++ [⟨s.choose choice, s.protocol, s.frame, .error e⟩],
        a.outcome ≠ .ok () := by
      refine List.forall_mem_append.2 ⟨hfailed, List.forall_mem_singleton.2 ?_⟩
      simp
    rw [htable, hprogress]
    by_cases hlast : s.left ≤ 1
    · rw [if_pos hlast, if_pos hlast, hs.1]
      have hpeers : x.peers ≠ [] := hs.2.2.2.1 ▸ List.cons_ne_nil _ _
      refine ⟨⟨hpeers, hs.2.2.2.2, ⟨_, hs.2.2.1⟩, ?_, hfailed'⟩, contains_remove _ _⟩
      rw [hlength]
      omega
    · rw [if_neg hlast, if_neg hlast]
      refine ⟨hs, ?_, ?_, hfailed', hr⟩
      · rw [hlength]
        change sent.length + 1 + (s.left - 1) = x.budget
        omega
      · change 0 < s.left - 1
        omega

theorem choose_mem (s : Sending) (choice : Nat) : s.choose choice ∈ s.peers :=
  List.get_mem _ _

/-- **What holds of every run**: it fits, and its sends are sends of the request. -/
theorem Run.fits {h₀ : Pending.History (Option GetReply)} (hrun : x.Run w₀ f sent es w)
    (hbefore : Pending.Run h₀ w₀) (hfresh : w₀.table.contains x.messageId = false) :
    x.Fits w₀.table.channels.length sent es w f ∧ ∀ a ∈ sent, x.Sends a := by
  induction hrun with
  | begin => exact ⟨fits_start hbefore hfresh, List.forall_mem_nil _⟩
  | @attempt s sent es w hrun choice outcome ih =>
    obtain ⟨hf, hsends⟩ := ih
    refine ⟨hf.attempt choice outcome, List.forall_mem_append.2 ⟨hsends,
      List.forall_mem_singleton.2 ?_⟩⟩
    obtain ⟨⟨-, hprotocol, hframe, hpeers, -⟩, -⟩ := hf
    exact ⟨hpeers ▸ choose_mem s choice, hprotocol, hframe⟩
  | other hrun hstep hapart ih => exact ⟨ih.1.other hstep hapart, ih.2⟩

/-- Whatever the outcomes of its sends are, a request comes to its end. -/
theorem Run.exists_over (hrun : x.Run w₀ (.sending s) sent es w) (choice : Nat → Nat)
    (outcome : Nat → Except TransportError Unit) :
    ∃ result sent' w', x.Run w₀ (.over result) (sent ++ sent') es w' ∧
      ∀ i a, sent'[i]? = some a → a.outcome = outcome i := by
  induction hleft : s.left using Nat.strong_induction_on generalizing s sent w choice outcome with
  | h k ih =>
  have hnext := hrun.attempt (choice 0) (outcome 0)
  have hone (i : Nat) (a : Attempt)
      (ha : [⟨s.choose (choice 0), s.protocol, s.frame, outcome 0⟩][i]? = some a) :
      a.outcome = outcome i := by
    cases i with
    | zero => exact (Option.some.inj ha) ▸ rfl
    | succ i => cases ha
  cases houtcome : outcome 0 with
  | ok u =>
    rw [houtcome] at hnext hone
    exact ⟨_, _, _, hnext, hone⟩
  | error e =>
    rw [houtcome] at hnext hone
    rw [(onSent_error s e w.table).2] at hnext
    by_cases hlast : s.left ≤ 1
    · rw [if_pos hlast] at hnext
      exact ⟨_, _, _, hnext, hone⟩
    · rw [if_neg hlast] at hnext
      obtain ⟨result, sent', w', hrun', houtcomes⟩ := ih (s.left - 1) (by omega) hnext
        (fun i => choice (i + 1)) (fun i => outcome (i + 1)) rfl
      refine ⟨result, _ :: sent', w', by rwa [List.append_assoc] at hrun', fun i a ha => ?_⟩
      cases i with
      | zero => exact hone 0 a ha
      | succ i => exact houtcomes i a ha

end Job

/-! ### Sends, slot, and other slots -/

/-- **The attempts to relay a request.** A request meets a world in which its message id has no
slot. Whatever peers are chosen, whatever the outcomes of the sends are, and whatever other tasks do
on the slots, all sends are of one frame to peers that can be asked, and what is read of this frame
is the request with its message id and payload, signed by the node. While the request is sent, all
sends have failed, as many more may follow as the attempts and the peers allow, and the slot stands;
the request can come to its end. If a peer takes the request, the last send succeeded and all others
failed, the message id is the result, and the slot stands with whatever was delivered to it. If the
request fails, there was no send, or as many as the attempts and the peers allow, and there is no
slot. Never does the request touch any other slot. -/
theorem relays_within_budget {x : Job S} {h₀ : Pending.History (Option GetReply)}
    {w₀ : Pending.World (Option GetReply)} (hbefore : Pending.Run h₀ w₀)
    (hfresh : w₀.table.contains x.messageId = false) :
    ((Assoc.keys x.store.records).Nodup → x.peers.Nodup ∧
      ∀ p, p ∈ x.peers ↔ p ≠ x.own.peerId ∧ x.store.addrs p x.now ≠ []) ∧
    Table.Beside x.messageId w₀.table (x.start w₀.table).1 ∧
    ∀ f sent es w, x.Run w₀ f sent es w →
      (∀ a ∈ sent, a.peer ∈ x.peers ∧ a.protocol = x.protocol ∧ x.frame? = .ok a.frame ∧
        ∃ env, Envelope.decode a.frame = .ok env ∧ env.kind = .relayRequest ∧
          env.messageId = x.messageId ∧ env.payload = x.payload ∧
          (S.Lawful → env.verify S x.own.publicKey = true)) ∧
      (∀ s, f = .sending s → sent.length + s.left = min x.attempts x.peers.length ∧ 0 < s.left ∧
        (∀ a ∈ sent, a.outcome ≠ .ok ()) ∧
        Stands x.messageId w₀.table.channels.length es w.table ∧
        (∀ outcome, Table.Beside x.messageId w.table (s.onSent outcome w.table).1) ∧
        ∀ outcome : Nat → Except TransportError Unit, ∃ result sent' w',
          x.Run w₀ (.over result) (sent ++ sent') es w' ∧
            ∀ i a, sent'[i]? = some a → a.outcome = outcome i) ∧
      (∀ id, f = .over (.ok id) → id = x.messageId ∧
        (∃ failed last, sent = failed ++ [last] ∧ last.outcome = .ok () ∧
          ∀ a ∈ failed, a.outcome ≠ .ok ()) ∧
        sent.length ≤ min x.attempts x.peers.length ∧
        Stands x.messageId w₀.table.channels.length es w.table) ∧
      ∀ e, f = .over (.error e) → x.Fails sent e ∧ w.table.contains x.messageId = false := by
  refine ⟨fun hstore => ⟨(PeerStore.nodup_peers hstore _).filter _, fun p => ?_⟩,
    x.beside_start hbefore.counted.separate, fun f sent es w hrun => ?_⟩
  · rw [Job.peers, candidates, List.mem_filter, PeerStore.mem_peers hstore, decide_eq_true_iff]
    exact and_comm
  · obtain ⟨hf, hsends⟩ := hrun.fits hbefore hfresh
    refine ⟨fun a ha => ?_, ?_, ?_, ?_⟩
    · obtain ⟨hpeer, hprotocol, hframe⟩ := hsends a ha
      obtain ⟨hdecode, hverify⟩ := decode_frame hframe
      exact ⟨hpeer, hprotocol, hframe, _, hdecode, rfl, rfl, rfl, hverify⟩
    · rintro s rfl
      obtain ⟨⟨hid, -⟩, hleft, hpos, hfailed, hr⟩ := hf
      obtain ⟨h, hw, -⟩ := hr.exists_run
      refine ⟨hleft, hpos, hfailed, hr.stands, fun outcome => ?_, hrun.exists_over fun _ => 0⟩
      rw [← hid]
      exact Job.beside_onSent s outcome hw.counted.separate
    · rintro id rfl
      obtain ⟨hid, hsent, hlength, hr⟩ := hf
      exact ⟨hid, hsent, hlength, hr.stands⟩
    · rintro e rfl
      exact hf

/-- The request of a node that knows one peer. -/
def askingJob : Job plainScheme where
  own := (asking ⟨1, 1, 1000⟩).identity
  store := (asking ⟨1, 1, 1000⟩).store
  attempts := 1
  protocol := .request
  payload := Payload.encode missing
  messageId := "m"
  now := 0
  timestamp := 5

theorem start_askingJob : ∃ s, askingJob.start .empty = (Table.empty.insert "m", .ok s) ∧
    s.messageId = "m" := by
  rcases askingJob.start_cases .empty with ⟨e, -, hfails, -⟩ | ⟨s, hstart, hid, -⟩
  · have hpeer := holding_mem_candidates ⟨1, 1, 1000⟩
    cases e with
    | noPeers => exact absurd hfails.1 (List.ne_nil_of_mem hpeer)
    | emptyRequest => exact absurd hfails.2.1 (by decide)
    | envelope e => cases (requestFrame_asking ⟨1, 1, 1000⟩).symm.trans hfails.2.2.1
    | noHost =>
      have hbudget : min 1 askingJob.peers.length = 0 := hfails.2.2.2.1.symm
      have hlength : 0 < askingJob.peers.length := List.length_pos_of_mem hpeer
      omega
    | unusable | timeout => exact hfails.elim
  · exact ⟨s, hstart, hid⟩

/-- The answer to this request arrives before its only send is known to have succeeded, and is in
the slot afterwards. -/
theorem asking_relays : ∃ sent es w, askingJob.Run ⟨.empty, []⟩ (.over (.ok "m")) sent es w ∧
    sent.length = 1 ∧ .delivered 0 (some heldReply) true ∈ es ∧
    w.table.receive 0 = .value (some heldReply) ∧
    ∀ a ∈ sent, a.peer ∈ askingJob.peers ∧ a.outcome = .ok () := by
  obtain ⟨s, hstart, hid⟩ := start_askingJob
  have hbegin : askingJob.Run ⟨.empty, []⟩ _ [] [] _ := .begin
  simp only [hstart, Effort.ofStart] at hbegin
  have htake : (((.empty : Slots).insert "m").takeSender "m").2 = some 0 := rfl
  have htaken := hbegin.other (.take (some heldReply) htake) ⟨by simp, by simp, by simp, by simp⟩
  have hsend : [Pending.Task.sending 0 (some heldReply)] =
      [] ++ Pending.Task.sending 0 (some heldReply) :: [] := rfl
  have hdelivered := htaken.other (.send hsend) ⟨by simp, by simp, by simp, by simp⟩
  have hrun := hdelivered.attempt 0 (.ok ())
  obtain ⟨-, -, hall⟩ := relays_within_budget (x := askingJob) .begin rfl
  obtain ⟨hsends, -, hover, -⟩ := hall _ _ _ _ hrun
  obtain ⟨-, -, -, s', -, -, -, -, hvalue⟩ := hover _ rfl
  refine ⟨_, _, _, hid ▸ hrun, rfl, List.mem_cons_self, (hvalue _ _ List.mem_cons_self).2,
    fun a ha => ⟨(hsends a ha).1, ?_⟩⟩
  rw [List.mem_singleton.1 ha]

end KeyCustody.Relay
