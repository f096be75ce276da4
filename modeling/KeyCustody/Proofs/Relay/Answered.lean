import KeyCustody.Proofs.Relay.Exchange
import KeyCustody.Proofs.Relay.Replies
import KeyCustody.Proofs.Relay.Scene
/-!
# Answers that reach the client

A client asks a node for keys that the node does not hold. The node asks its peers, and a peer that
holds them answers. The call returns the reply of the peer, whether the answer is there before it
waits or comes later, unless a look at or after the deadline of its wait chooses the deadline.
Either way the slot is gone. But a wait that cannot begin breaks down, and leaves the slot.

## Main results

* `reply_reaches_client`: what a client gets.
* `pair_answer_missed`: answers that get into the slot and not to the client.
-/

namespace KeyCustody.Relay

open Crypto (Entropy SignatureScheme)
open Custody (Adaptor DispatchError Storage)
open Node (afterRelay)
open Peer (Identity PeerId PeerStore)
open Pending (Table Waiter lastInstant)
open Wire (Envelope GetRequest GetReply Payload)

variable {S : SignatureScheme} {σ τ : Type} {reply : GetReply}

/-! ### Clients -/

/-- A request that is about to be sent is in a frame, for the peers that the node can ask. -/
theorem of_start_eq_sending {own : Identity S} {store : PeerStore} {settings : Settings}
    {request : GetRequest} {id : String} {now : Nat} {timestamp : UInt64} {slots slots' : Slots}
    {s : Sending} (h : Call.start own store settings request id now timestamp slots =
      (slots', .sending s)) :
    s.messageId = id ∧ requestFrame own timestamp id (Payload.encode request) = .ok s.frame ∧
      s.peers = candidates store own.peerId now := by
  unfold Call.start Sending.start at h
  cases hpeers : candidates store own.peerId now with
  | nil =>
    rw [hpeers] at h
    cases h
  | cons first others =>
    rw [hpeers] at h
    cases hframe : requestFrame own timestamp id (Payload.encode request) with
    | error e =>
      rw [hframe] at h
      simp only at h
      split_ifs at h <;> cases h
    | ok frame =>
      rw [hframe] at h
      simp only at h
      split_ifs at h <;> cases h
      exact ⟨rfl, rfl, rfl⟩

section Client

variable {n : Node.State S σ} {request : GetRequest} {settings : Settings} {miss : DispatchError}
  {id : String} {frame : Bytes} {peer : PeerId}

/-- A node that does not hold the keys of an identity is about to send a request for them. -/
theorem exists_sending (now : Node.Instant) (hrelay : n.relay? = some settings)
    (hmiss : (n.dispatcher.get request n.storage).1 = .error miss) (hkey : miss.isKeyMiss = true)
    (hpeer : peer ∈ candidates n.store n.peerId now.millis) (hattempts : settings.attempts ≠ 0)
    (hframe : requestFrame n.identity now.seconds id (Payload.encode request) = .ok frame) :
    ∃ storage log s, n.lookUp request = ({ n with storage }, .relayed settings miss, log) ∧
      ({ n with storage } : Node.State S σ).startRelay settings request id now =
        ({ n with storage, slots := n.slots.insert id }, .sending s) ∧
      s.messageId = id ∧ s.frame = frame ∧ peer ∈ s.peers := by
  obtain ⟨storage, log, hlookUp⟩ := lookUp_eq_relayed hrelay hmiss hkey
  obtain ⟨s, hs⟩ := start_eq_sending n.slots
    (List.isEmpty_eq_false_iff.2 (List.ne_nil_of_mem hpeer)) hattempts hframe
  obtain ⟨hid, hframe', hpeers⟩ := of_start_eq_sending hs
  refine ⟨storage, log, s, hlookUp, ?_, hid, ?_, hpeers ▸ hpeer⟩
  · simp only [Node.State.startRelay, hs]
  · exact Except.ok.inj (hframe'.symm.trans hframe)

/-- The node whose call is about to send its request. -/
def Scene.ofSending (n : Node.State S σ) (s : Sending) : Scene :=
  ⟨n.store, n.slots, .calling (.sending s), .away⟩

/-- A call that is about to send its request fits. -/
theorem Scene.fits_ofSending {s : Sending} {storage : σ} {data : Bytes} (hid : s.messageId = id)
    (hslots : n.slots.Separate) (hgenuine : n.store.Genuine) (hknows : n.store.Knows peer) :
    Scene.Fits ⟨settings, id, n.slots.channels.length, peer, data⟩ reply []
      (.ofSending { n with storage, slots := n.slots.insert id } s) :=
  ⟨hid, fun _ => List.not_mem_nil, Table.shows_insert hslots id, trivial,
    fun _ => ⟨hgenuine, hknows⟩⟩

end Client

/-- **A reply that reaches the client.** A node `a` finds that it does not hold the keys of an
identity, and puts the request into a frame. A peer `b` that it knows holds them, knows `a`, and
answers the frame with one of its own. Whatever peers are tried and with what outcome until `b`
takes the request, whenever its answer arrives, before any other one under the message id, and
whatever else `a` is at work on: when the call is over, its slot is gone, and the client has the
reply of `b`, every field of it, or the failure of the lookup in `a` if the wait looked at or after
its deadline and chose it. Unless it did, the call can go on to the end with the reply. -/
theorem reply_reaches_client (hS : S.Lawful) {a : Node.State S σ} {b : Node.State S τ}
    {request : GetRequest} {reply : GetReply} {settings : Settings} {miss : DispatchError}
    {id : String} (now nowB : Node.Instant) {frame data : Bytes}
    (hrelay : a.relay? = some settings)
    (hmiss : (a.dispatcher.get request a.storage).1 = .error miss) (hkey : miss.isKeyMiss = true)
    (hpeer : b.peerId ∈ candidates a.store a.peerId now.millis)
    (hattempts : settings.attempts ≠ 0) (hpoll : settings.poll ≠ 0)
    (hlast : settings.poll < lastInstant)
    (hframe : requestFrame a.identity now.seconds id (Payload.encode request) = .ok frame)
    (hslots : a.slots.Separate) (hstore : a.store.Genuine)
    (hstoreB : b.store.Genuine) (hknows : b.store.Knows a.peerId)
    (hserved : b.dispatcher.isSupported request.chain = true)
    (hget : (b.dispatcher.get request b.storage).1 = .ok reply) (hcode : reply.code = .success)
    (hdata : answerFrame b.identity nowB.seconds id reply = .ok data) :
    (b.onFrame a.peerId .request frame nowB).2.2 = some data ∧
    ∃ storage log s, a.lookUp request = ({ a with storage }, .relayed settings miss, log) ∧
      ({ a with storage } : Node.State S σ).startRelay settings request id now =
        ({ a with storage, slots := a.slots.insert id }, .sending s) ∧
      s.messageId = id ∧ s.frame = frame ∧ b.peerId ∈ s.peers ∧
      ∀ ms c, Scene.Run S ⟨settings, id, a.slots.channels.length, b.peerId, data⟩
          (.ofSending { a with storage, slots := a.slots.insert id } s) ms c →
        .attempt b.peerId (.ok ()) ∈ ms →
        (∀ began, .await began ∈ ms → began + settings.poll < lastInstant) →
        (∀ outcome, c.stage = .calling (.done outcome) → c.slots.contains id = false ∧
          (afterRelay miss outcome = .value reply ∨
            afterRelay miss outcome = .failure (.dispatch miss) ∧
              ∃ began late, .await began ∈ ms ∧ .look .deadline late ∈ ms ∧
                began + settings.timeout ≤ late)) ∧
        ((∀ late, .look .deadline late ∉ ms) →
          c.CanReach S ⟨settings, id, a.slots.channels.length, b.peerId, data⟩
            (Scene.Returned reply)) := by
  refine ⟨onFrame_question hS hstoreB hknows hframe hserved hget hcode hdata, ?_⟩
  obtain ⟨storage, log, s, hlookUp, hstart, hid, hsframe, hpeer'⟩ :=
    exists_sending now hrelay hmiss hkey hpeer hattempts hframe
  refine ⟨storage, log, s, hlookUp, hstart, hid, hsframe, hpeer',
    fun ms c hrun htaken hbegan => ?_⟩
  have hworth : Expectation.IsWorth S
      ⟨settings, id, a.slots.channels.length, b.peerId, data⟩ reply :=
    fun _ hgenuine hknows => inspect_answer hS hgenuine hknows hdata
  have hknown : a.store.Knows b.peerId := .of_mem_peers (List.mem_of_mem_filter hpeer)
  have hf := hrun.fits hworth hpoll hbegan (Scene.fits_ofSending hid hslots hstore hknown)
  have htaken : ¬ Untaken ms := fun hun => hun _ htaken
  refine ⟨fun outcome hstage => ?_, fun hlook => hf.canReach hworth hpoll hlast htaken hlook⟩
  unfold Scene.Fits at hf
  rw [hstage] at hf
  obtain ⟨hgone, houtcome⟩ := hf
  refine ⟨?_, ?_⟩
  · rw [← Bool.not_eq_true, Table.contains_iff_owns]
    rintro ⟨r, ho⟩
    exact hgone r ho
  · rcases houtcome with rfl | ⟨rfl, hlate⟩ | ⟨-, hun⟩
    · exact .inl rfl
    · exact .inr ⟨rfl, hlate⟩
    · exact absurd hun htaken

/-! ### Two nodes -/

theorem plainScheme_lawful : plainScheme.Lawful :=
  ⟨plainScheme_acceptsOwn, fun _ => rfl, plainScheme_sign_ne_nil⟩

theorem genuine_pairStore (b : Bool) : (pairStore b).Genuine := by
  intro p r k hr hk
  simp only [pairStore, Assoc.get?] at hr
  split_ifs at hr with hp
  cases hr
  cases hk
  exact hp

/-- The reply of a node that holds a key. -/
def heldReply : GetReply := ⟨.success, "ok", [⟨"1", "k"⟩]⟩

/-- What serves Ethereum in this node. -/
def heldAdaptor : Adaptor Unit :=
  { Adaptor.idle "Ethereum" with get := fun _ s => (.value heldReply, s) }

/-- The other one of two nodes, which holds a key. -/
def holding : Node.State plainScheme Unit where
  identity := pair.identity true
  dispatcher := .ofAdaptors [heldAdaptor]
  relay? := none
  store := pairStore true
  storage := ()
  slots := .empty

/-- One of two nodes, which holds nothing. -/
def asking (settings : Settings) : Node.State plainScheme (Storage × Entropy) where
  identity := pair.identity false
  dispatcher := pair.dispatcher false
  relay? := some settings
  store := pairStore false
  storage := (Storage.empty, Entropy.ofSeed 0)
  slots := .empty

/-- What this one is asked for. -/
def missing : GetRequest := ⟨"Ethereum", "u1", ""⟩

/-- What its own lookup comes to. -/
def missed : DispatchError := .adaptor (.keyNotFound "Ethereum" "u1")

theorem get_asking (settings : Settings) :
    ((asking settings).dispatcher.get missing (asking settings).storage).1 = .error missed := by
  cbv

theorem holding_mem_candidates (settings : Settings) :
    holding.peerId ∈ candidates (asking settings).store (asking settings).peerId 0 := by
  have hne : (pair.identity true).peerId ≠ (pair.identity false).peerId := by decide +kernel
  exact List.mem_filter.2 ⟨.head _, decide_eq_true hne⟩

theorem requestFrame_asking (settings : Settings) :
    requestFrame (asking settings).identity 5 "m" (Payload.encode missing) =
      .ok (pairQuestion "Ethereum").octets :=
  requestFrame_pairQuestion length_pairQuestion_le.2

theorem answerFrame_holding :
    answerFrame holding.identity 6 "m" heldReply = .ok (pairAnswer heldReply).octets :=
  Envelope.encode?_eq_ok.2 ⟨by cbv, rfl⟩

theorem exists_choose {s : Sending} {p : PeerId} (h : p ∈ s.peers) :
    ∃ choice, s.choose choice = p := by
  obtain ⟨i, hi⟩ := List.get_of_mem h
  refine ⟨i, ?_⟩
  simp only [Sending.choose, Nat.mod_eq_of_lt i.2]
  exact hi

/-- What this one expects. -/
def awaited (settings : Settings) : Expectation :=
  ⟨settings, "m", 0, holding.peerId, (pairAnswer heldReply).octets⟩

theorem isWorth_awaited (settings : Settings) :
    (awaited settings).IsWorth plainScheme heldReply := fun _ hgenuine hknows =>
  inspect_answer plainScheme_lawful hgenuine hknows answerFrame_holding

/-- The other one takes the request, and the slot of the call stands. -/
theorem exists_relayed_pair (settings : Settings) (storage : Storage × Entropy) {s : Sending}
    (hid : s.messageId = "m") (hpeer : holding.peerId ∈ s.peers) :
    ∃ c, Scene.Run plainScheme (awaited settings)
        (.ofSending { asking settings with storage, slots := Table.empty.insert "m" } s)
        [.attempt holding.peerId (.ok ())] c ∧
      c.stage = .relayed ∧ c.delivery = .away ∧ c.Standing (awaited settings) heldReply true := by
  obtain ⟨choice, hchoice⟩ := exists_choose hpeer
  have hfits : Scene.Fits (awaited settings) heldReply [] (.ofSending
      { asking settings with storage, slots := Table.empty.insert "m" } s) :=
    Scene.fits_ofSending (n := asking settings) hid Table.separate_empty
      (genuine_pairStore false) ⟨_, get?_pairStore false⟩
  rw [← hchoice]
  exact ⟨_, Scene.Run.refl.step (.turn (.attempt rfl choice (.ok ()) rfl)), rfl, rfl,
    hfits.2.2.turn _⟩

/-- The reply of the one gets to the client of the other, whether it is there before the wait or
not. -/
theorem pair_reply_reaches_client : ∃ storage log s,
    (asking ⟨1, 1, 1000⟩).lookUp missing =
      ({ asking ⟨1, 1, 1000⟩ with storage }, .relayed ⟨1, 1, 1000⟩ missed, log) ∧
    (holding.onFrame (asking ⟨1, 1, 1000⟩).peerId .request s.frame ⟨0, 6⟩).2.2 =
      some (pairAnswer heldReply).octets ∧
    ∀ early : Bool, ∃ ms ms' c d, Scene.Run plainScheme (awaited ⟨1, 1, 1000⟩)
        (.ofSending { asking ⟨1, 1, 1000⟩ with storage, slots := Table.empty.insert "m" } s) ms c ∧
      c.stage = .relayed ∧ c.delivery.isMade = early ∧
      Scene.Run plainScheme (awaited ⟨1, 1, 1000⟩) c ms' d ∧
      d.stage = .calling (.done (.value heldReply)) ∧ d.slots.contains "m" = false := by
  obtain ⟨hanswer, storage, log, s, hlookUp, -, hid, hframe, hpeer, hall⟩ :=
    reply_reaches_client plainScheme_lawful (a := asking ⟨1, 1, 1000⟩) (b := holding)
      ⟨0, 5⟩ ⟨0, 6⟩ rfl (get_asking _) rfl (holding_mem_candidates _) one_ne_zero one_ne_zero
      (by decide) (requestFrame_asking _) Table.separate_empty (genuine_pairStore false)
      (genuine_pairStore true) ⟨_, get?_pairStore true⟩ rfl rfl rfl answerFrame_holding
  refine ⟨storage, log, s, hlookUp, hframe ▸ hanswer, fun early => ?_⟩
  obtain ⟨b, hrun, hstage, haway, hs⟩ := exists_relayed_pair ⟨1, 1, 1000⟩ storage hid hpeer
  have hreach : Scene.CanReach plainScheme (awaited ⟨1, 1, 1000⟩) b
      fun c => c.stage = .relayed ∧ c.delivery.isMade = early := by
    cases early with
    | false => exact .refl ⟨hstage, by rw [haway]; rfl⟩
    | true =>
      refine (hs.canReach_filled (isWorth_awaited _)).trans fun c hc => .refl ?_
      exact ⟨hc.1.trans hstage, by rw [hc.2.1]; rfl⟩
  obtain ⟨ms, c, hrun', htimely, hc⟩ := hreach
  have hrun₁ := hrun.trans hrun'
  have htaken : .attempt holding.peerId (.ok ()) ∈ ms ++ [.attempt holding.peerId (.ok ())] :=
    List.mem_append_right _ (.head _)
  have htimely₁ : ∀ m ∈ ms ++ [.attempt holding.peerId (.ok ())],
      (awaited ⟨1, 1, 1000⟩).Timely m :=
    List.forall_mem_append.2 ⟨htimely, List.forall_mem_singleton.2 trivial⟩
  obtain ⟨ms', d, hrun₂, htimely₂, hd⟩ := (hall _ c hrun₁ htaken fun _ hm => htimely₁ _ hm).2
    fun _ hm => htimely₁ _ hm
  have htimely₃ := List.forall_mem_append.2 ⟨htimely₂, htimely₁⟩
  refine ⟨_, ms', c, d, hrun₁, hc.1, hc.2, hrun₂, hd, ?_⟩
  exact ((hall _ d (hrun₁.trans hrun₂) (List.mem_append_right _ htaken)
    fun _ hm => htimely₃ _ hm).1 _ hd).1

/-- An answer that does not get to the client, although it is in the slot in time. The wait may
choose its deadline once it has passed, whatever is ready. With a period of zero for its ticker, or
one beyond the clock, it breaks down at once, and the slot stays. -/
theorem pair_answer_missed :
    (∃ storage log s, (asking ⟨1, 1, 1000⟩).lookUp missing =
        ({ asking ⟨1, 1, 1000⟩ with storage }, .relayed ⟨1, 1, 1000⟩ missed, log) ∧
      (holding.onFrame (asking ⟨1, 1, 1000⟩).peerId .request s.frame ⟨0, 6⟩).2.2 =
        some (pairAnswer heldReply).octets ∧
      ∃ ms c ms' d, Scene.Run plainScheme (awaited ⟨1, 1, 1000⟩)
          (.ofSending { asking ⟨1, 1, 1000⟩ with storage, slots := Table.empty.insert "m" } s) ms
            c ∧
        .attempt holding.peerId (.ok ()) ∈ ms ∧
        c.stage = .calling (.waiting ⟨"m", 0, 1, 1000, 1⟩) ∧
        c.slots.receive 0 = .value (some heldReply) ∧
        Scene.Run plainScheme (awaited ⟨1, 1, 1000⟩) c ms' d ∧
        d.stage = .calling (.done (.failure .timeout)) ∧
        afterRelay missed (.failure .timeout) = .failure (.dispatch missed)) ∧
    ∀ poll, poll = 0 ∨ lastInstant ≤ poll →
      ∃ storage log s, (asking ⟨1, poll, 1000⟩).lookUp missing =
          ({ asking ⟨1, poll, 1000⟩ with storage }, .relayed ⟨1, poll, 1000⟩ missed, log) ∧
        (holding.onFrame (asking ⟨1, poll, 1000⟩).peerId .request s.frame ⟨0, 6⟩).2.2 =
          some (pairAnswer heldReply).octets ∧
        ∃ ms c b, Scene.Run plainScheme (awaited ⟨1, poll, 1000⟩)
            (.ofSending { asking ⟨1, poll, 1000⟩ with storage, slots := Table.empty.insert "m" }
              s) ms c ∧
          .attempt holding.peerId (.ok ()) ∈ ms ∧ c.delivery = .made ∧
          c.stage = .calling (.done (.breakdown b)) ∧ c.slots.contains "m" = true := by
  have hstart (settings : Settings) (hattempts : settings.attempts ≠ 0) :=
    exists_sending (n := asking settings) ⟨0, 5⟩ rfl (get_asking settings) rfl
      (holding_mem_candidates settings) hattempts (requestFrame_asking settings)
  have hanswer (settings : Settings) :
      (holding.onFrame (asking settings).peerId .request (pairQuestion "Ethereum").octets
        ⟨0, 6⟩).2.2 = some (pairAnswer heldReply).octets :=
    onFrame_question plainScheme_lawful (genuine_pairStore true) ⟨_, get?_pairStore true⟩
      (requestFrame_asking settings) rfl rfl rfl answerFrame_holding
  constructor
  · obtain ⟨storage, log, s, hlookUp, -, hid, hframe, hpeer⟩ := hstart ⟨1, 1, 1000⟩ one_ne_zero
    refine ⟨storage, log, s, hlookUp, hframe ▸ hanswer _, ?_⟩
    obtain ⟨b, hrun, hstage, -, hs⟩ :=
      exists_relayed_pair ⟨1, 1, 1000⟩ storage hid hpeer
    have hnow : 0 + (awaited ⟨1, 1, 1000⟩).settings.poll < lastInstant := by decide
    obtain ⟨hawait, hs'⟩ := hs.await one_ne_zero hnow
    have hrun₁ := hrun.step (.turn (.await hstage 0 hawait))
    obtain ⟨ms, c, hrun₂, -, hstage₂, hmade, hs₂⟩ :=
      (hs'.turn _).canReach_filled (isWorth_awaited _)
    have hchoose : Waiter.choose ⟨"m", 0, 1, 1000, 1⟩ c.slots 1000 .deadline =
        .inr (.error .timeout) := rfl
    have hlook := Scene.Run.refl.step (S := plainScheme) (x := awaited ⟨1, 1, 1000⟩)
      (.turn (.choose hstage₂ rfl hchoose))
    have hreceive := hs₂.receive
    rw [hmade] at hreceive
    exact ⟨_, c, _, _, hrun₁.trans hrun₂, List.mem_append_right _ (.tail _ (.head _)), hstage₂,
      hreceive, hlook.step (.turn (.leave rfl)), rfl, rfl⟩
  · intro poll hpoll
    obtain ⟨storage, log, s, hlookUp, -, hid, hframe, hpeer⟩ :=
      hstart ⟨1, poll, 1000⟩ one_ne_zero
    refine ⟨storage, log, s, hlookUp, hframe ▸ hanswer _, ?_⟩
    obtain ⟨b, hrun, hstage, -, hs⟩ :=
      exists_relayed_pair ⟨1, poll, 1000⟩ storage hid hpeer
    obtain ⟨ms, c, hrun₁, -, hstage₁, hmade, hs₁⟩ := hs.canReach_filled (isWorth_awaited _)
    obtain ⟨slots, b, hawait, hcontains⟩ :=
      hs₁.await_breakdown 0 (by simpa [awaited] using hpoll)
    exact ⟨_, _, b, (hrun.trans hrun₁).step (.turn (.await (hstage₁.trans hstage) 0 hawait)),
      .tail _ (List.mem_append_right _ (.head _)), hmade, rfl, hcontains⟩

end KeyCustody.Relay
