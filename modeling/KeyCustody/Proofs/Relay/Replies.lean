import KeyCustody.Custody.Chain
import KeyCustody.Proofs.Relay.Provenance
/-!
# Where replies come from

If nobody forges signatures and no message id is used twice, a reply that a call returns is what the
adaptors of a node gave for this very request. Whatever peers sign, it is what some known peer
signed as an answer to this very call; and conversely, what a known peer signs as an answer is
returned if it comes in time, whatever its code is.

## Main results

* `returned_reply_was_served`: the reply of a call is that of a node that was asked.
* `Run.exists_waiting`, `Run.exists_returned`: a call that waits, and one that is answered.
* `returned_code_was_signed`: the code of a reply to a client is one that a known peer signed.
-/

namespace KeyCustody.Relay

open Crypto (Entropy SignatureScheme)
open Custody (Custodian Dispatcher DispatchError Storage)
open Net (TransportError)
open Node (Log afterRelay)
open Peer (PeerId PeerStore PublicKey Identity)
open Pending (Branch Table WaitError Waiter)
open Wire (Envelope GetRequest GetReply Payload StreamProtocol)

variable {ι : Type} {S : SignatureScheme} {σ : Type} {net : Network ι S σ}
  {Arrives : History ι σ → Bytes → Prop} {h : History ι σ} {w : World ι} {i : ι} {id : String}
  {e : Errand}

/-! ### Calls that are answered -/

section Answered

variable [DecidableEq ι]

/-- A run goes on with a turn of any task. -/
theorem Run.exists_turn {t : Task} {before after : List (ι × Task)} {slots : Slots}
    {next : Option Task} {es : List (Event ι σ)} (hrun : Run net Arrives h w)
    (htasks : w.tasks = before ++ (i, t) :: after)
    (ht : Turn net h i (w.store i) (w.slots i) t slots next es) :
    ∃ w', Run net Arrives (es ++ h) w' ∧ w'.store = w.store ∧ w'.slots i = slots ∧
      w'.tasks = before ++ next.toList.map (i, ·) ++ after ∧
      ∀ j, j ≠ i → w'.slots j = w.slots j :=
  ⟨_, hrun.step (.turn htasks ht), rfl, by simp, rfl, fun j hj => Function.update_of_ne hj _ _⟩

theorem start_eq_sending {own : Identity S} {store : PeerStore} {settings : Settings}
    {request : GetRequest} {now : Nat} {timestamp : UInt64} {frame : Bytes} (slots : Slots)
    (hpeers : (candidates store own.peerId now).isEmpty = false) (hattempts : settings.attempts ≠ 0)
    (hframe : requestFrame own timestamp id (Payload.encode request) = .ok frame) :
    ∃ s, Call.start own store settings request id now timestamp slots =
      (slots.insert id, .sending s) := by
  obtain ⟨first, others, hpeers⟩ := List.exists_cons_of_ne_nil (List.isEmpty_eq_false_iff.1 hpeers)
  have hpayload : (Payload.encode request).isEmpty = false := by
    have := (Payload.toValue request).length_encode_pos
    rw [List.isEmpty_eq_false_iff, ← List.length_pos_iff_ne_nil]
    exact this
  have hleft : min settings.attempts (others.length + 1) ≠ 0 := by
    omega
  simp only [Call.start, Sending.start, hpeers, hpayload, Bool.false_eq_true, if_false, hframe,
    if_neg hleft]
  exact ⟨_, rfl⟩

/-- A client's request of which nothing is in the node itself is to be relayed. -/
theorem lookUp_eq_relayed {n : Node.State S σ} {request : GetRequest} {settings : Settings}
    {miss : DispatchError} (hrelay : n.relay? = some settings)
    (hget : (n.dispatcher.get request n.storage).1 = .error miss) (hmiss : miss.isKeyMiss = true) :
    ∃ storage log, n.lookUp request = ({ n with storage }, .relayed settings miss, log) := by
  cases hresult : n.dispatcher.get request n.storage with
  | mk result rest =>
    rw [hresult] at hget
    simp only at hget
    subst hget
    simp only [Node.State.lookUp, hresult, hrelay, hmiss, if_true]
    exact ⟨_, _, rfl⟩

/-- A request that can be sent is sent, and its call waits at an open slot. -/
theorem Run.exists_waiting {before after : List (ι × Task)} (now : Nat) {timestamp : UInt64}
    {frame : Bytes} (hrun : Run net Arrives h w)
    (htasks : w.tasks = before ++ (i, .ready e) :: after)
    (fresh : ∀ j e' t, .asked j e' id t ∉ h)
    (hpeers : (candidates (w.store i) (net.identity i).peerId now).isEmpty = false)
    (hattempts : e.settings.attempts ≠ 0)
    (hframe : requestFrame (net.identity i) timestamp id (Payload.encode e.request) = .ok frame)
    (hpoll : e.settings.poll ≠ 0) (hnow : now + e.settings.poll < Pending.lastInstant) :
    ∃ w' wt, Run net Arrives (.asked i e id timestamp :: h) w' ∧ w'.store = w.store ∧
      w'.tasks = before ++ (i, .calling e id (.waiting wt)) :: after ∧
      (w'.slots i).IsOpen id wt.registration := by
  obtain ⟨s, hs⟩ := start_eq_sending (w.slots i) hpeers hattempts hframe
  obtain ⟨w₁, hrun₁, hstore₁, hslots₁, htasks₁, -⟩ :=
    hrun.exists_turn htasks (.start now timestamp fresh hs)
  rw [Option.toList_some, List.map_singleton, List.append_assoc] at htasks₁
  obtain ⟨w₂, hrun₂, hstore₂, hslots₂, htasks₂, -⟩ :=
    hrun₁.exists_turn htasks₁ (.sent (.ok ()) rfl)
  rw [Option.toList_some, List.map_singleton, List.append_assoc] at htasks₂
  obtain ⟨slots, hbegin, hopen⟩ :=
    Waiter.begin_insert (w.slots i) id e.settings.timeout hpoll hnow
  have hawait : Call.await e.settings id now (w₂.slots i) = (slots, .waiting ⟨id,
      (w.slots i).channels.length, e.settings.poll, now + e.settings.timeout,
      now + e.settings.poll⟩) := by
    rw [hslots₂, hslots₁, Call.await, hbegin]
  obtain ⟨w₃, hrun₃, hstore₃, hslots₃, htasks₃, -⟩ := hrun₂.exists_turn htasks₂ (.await now hawait)
  rw [Option.toList_some, List.map_singleton, List.append_assoc] at htasks₃
  refine ⟨w₃, _, hrun₃, by rw [hstore₃, hstore₂, hstore₁], htasks₃, ?_⟩
  rw [hslots₃]
  exact hopen

/-- **A call that waits is answered** by whatever passes the gate under its message id. -/
theorem Run.exists_returned {before after : List (ι × Task)} {wt : Waiter} {remote : PeerId}
    {data : Bytes} {env : Envelope} {reply : GetReply} (hrun : Run net Arrives h w)
    (htasks : w.tasks = before ++ (i, .calling e id (.waiting wt)) :: after)
    (hopen : (w.slots i).IsOpen id wt.registration) (ha : Arrives h data)
    (hadmitted : Admitted S (w.store i) .response remote data env) (hid : env.messageId = id)
    (hreply : Payload.decode env.payload = .ok reply) :
    ∃ h' w', Run net Arrives h' w' ∧ .returned i e id (.value reply) ∈ h' := by
  subst hid
  have hrun₁ := hrun.step (.arrive ha (inspect_eq_ok.2 hadmitted))
  have htake : (w.slots i).takeSender env.messageId =
      (((w.slots i).takeSender env.messageId).1, some wt.registration) := by
    rw [← Table.takeSender_of_isOpen hopen]
  obtain ⟨w₂, hrun₂, -, hslots₂, htasks₂, -⟩ :=
    hrun₁.exists_turn (List.nil_append _).symm (.take htake)
  rw [List.nil_append] at htasks₂
  obtain ⟨w₃, hrun₃, -, hslots₃, htasks₃, -⟩ :=
    hrun₂.exists_turn (htasks₂.trans (List.nil_append _).symm) .fill
  have hreceive : (w₃.slots i).receive wt.registration = .value (some reply) := by
    rw [hslots₃, hslots₂, replyOf_eq_some.2 hreply]
    exact Table.receive_of_isOpen hopen _
  have hready : wt.isReady (w₃.slots i) 0 .answer = true := by
    simp only [Waiter.isReady, hreceive]
  have hchoose : wt.choose (w₃.slots i) 0 .answer = .inr (.ok (some reply)) := by
    simp only [Waiter.choose, hreceive]
  rw [Option.toList_none, List.map_nil, List.nil_append, List.nil_append, htasks] at htasks₃
  obtain ⟨w₄, hrun₄, -, -, htasks₄, -⟩ := hrun₃.exists_turn htasks₃ (.choose 0 hready hchoose)
  rw [Option.toList_some, List.map_singleton, List.append_assoc] at htasks₄
  obtain ⟨w₅, hrun₅, -, -, htasks₅, -⟩ := hrun₄.exists_turn htasks₄ .leave
  rw [Option.toList_some, List.map_singleton, List.append_assoc] at htasks₅
  obtain ⟨w₆, hrun₆, -⟩ := hrun₅.exists_turn htasks₅ .finish
  exact ⟨_, w₆, hrun₆, List.mem_cons_self⟩

end Answered

/-! ### Honest peers -/

/-- **The reply of a call is that of a node that was asked.** If nobody forges signatures and no
message id is used twice, whatever a call returns was accepted from a peer in the store, and this
peer is a node that served a request under the message id of this very call. The request is the
call's request, and the reply is what the node's own adaptors gave for it, as a success. -/
theorem returned_reply_was_served [DecidableEq ι] {reply : GetReply}
    (hrun : Run net (Unforged net) h w)
    (hr : .returned i e id (.value reply) ∈ h) :
    ∃ store remote answer, .accepted i .response store remote answer ∈ h ∧
      answer.messageId = id ∧ (Assoc.get? store.records remote).isSome ∧
      ∃ j env timestamp seen, (net.identity j).peerId = remote ∧
        .served j env timestamp seen ∈ h ∧ env.messageId = id ∧
        (∃ t, .asked i e id t ∈ h) ∧ (∀ k e' t, .asked k e' id t ∈ h → k = i ∧ e' = e) ∧
        Payload.decode env.payload = .ok e.request ∧
        ((net.dispatcher j).get e.request seen).1 = .ok reply ∧ reply.code = .success := by
  obtain ⟨names, hs⟩ := hrun.sound
  obtain ⟨⟨t, hasked⟩, hjustified⟩ := hs.events _ hr
  obtain ⟨store, remote, answer, haccepted, hid, hreply⟩ :=
    (hjustified reply rfl).exists_accepted
  obtain ⟨h₀, data, -, -, hadmitted⟩ := hs.exists_admitted haccepted
  obtain ⟨record, key, hrecord, -⟩ := hadmitted.signed
  obtain ⟨j, env, timestamp, seen, answer', hserved, hanswers, hcleared, hremote⟩ :=
    hs.exists_answer haccepted
  obtain ⟨request, reply', hrequest, -, hlooked, hsuccess, rfl⟩ := hanswers
  -- The answer is the one that the node signed, so it has the reply of the lookup in it.
  have hid' : env.messageId = id := by
    have := congrArg Envelope.messageId hcleared
    simp only [Envelope.messageId_cleared] at this
    exact this.trans hid
  have hpayload : Payload.encode reply' = answer.payload := by
    have := congrArg Envelope.payload hcleared
    simp only [Envelope.payload_cleared] at this
    exact this
  have hshort := (Envelope.countable_of_decode hadmitted.decodes).payload
  rw [← hpayload] at hreply hshort
  obtain rfl := Payload.eq_of_decode_encode hshort hreply
  -- The request is the one that was asked under the id, so it is the call's.
  obtain ⟨storeB, remoteB, hacceptedB⟩ := hs.events _ hserved
  obtain ⟨h₁, dataB, -, -, hadmittedB⟩ := hs.exists_admitted hacceptedB
  obtain ⟨k, e', t', hasked', hpayload'⟩ := hs.exists_asked hacceptedB
  rw [hid'] at hasked'
  obtain ⟨-, rfl, -⟩ := hs.ids _ _ _ _ _ _ _ hasked hasked'
  have hshort' := (Envelope.countable_of_decode hadmittedB.decodes).payload
  rw [hpayload'] at hrequest hshort'
  obtain rfl := Payload.eq_of_decode_encode hshort' hrequest
  refine ⟨store, remote, answer, haccepted, hid, by simp [hrecord], j, env, timestamp, seen,
    hremote, hserved, hid', ⟨t, hasked⟩, fun k e'' t'' hk => ?_, ?_, hlooked, hsuccess⟩
  · obtain ⟨rfl, rfl, -⟩ := hs.ids _ _ _ _ _ _ _ hasked hk
    exact ⟨rfl, rfl⟩
  · rw [hpayload']
    exact hrequest

/-! ### Peers of any kind -/

/-- **The code of a reply to a client is one that a known peer signed.** Whatever frames arrive, a
reply that a client gets after a miss in the node itself was accepted as an answer to this very
call: it is in an envelope with the call's message id that a peer in the store signed. So its code
is that of a success exactly if this peer signed a success. And whatever such a peer signs as an
answer while the call waits at an open slot can become the reply. -/
theorem returned_code_was_signed [DecidableEq ι] {request : GetRequest} {settings : Settings}
    {miss : DispatchError} (hrun : Run net Arrives h w) :
    (∀ (outcome : Outcome RelayError GetReply) (reply : GetReply),
      .returned i ⟨request, settings, some miss⟩ id outcome ∈ h →
      afterRelay miss outcome = .value reply →
      ∃ store remote data env, .accepted i .response store remote env ∈ h ∧
        Admitted S store .response remote data env ∧ env.messageId = id ∧
        Payload.decode env.payload = .ok reply ∧
        (reply.code = .success ↔ ∃ signed : GetReply, Payload.decode env.payload = .ok signed ∧
          signed.code = .success)) ∧
    (∀ (before after : List (ι × Task)) (wt : Waiter) (remote : PeerId) (data : Bytes)
      (env : Envelope) (reply : GetReply),
      w.tasks = before ++
        (i, .calling ⟨request, settings, some miss⟩ id (.waiting wt)) :: after →
      (w.slots i).IsOpen id wt.registration → Arrives h data →
      Admitted S (w.store i) .response remote data env → env.messageId = id →
      Payload.decode env.payload = .ok reply →
      ∃ h' w' outcome, Run net Arrives h' w' ∧
        .returned i ⟨request, settings, some miss⟩ id outcome ∈ h' ∧
        afterRelay miss outcome = .value reply) := by
  refine ⟨fun outcome reply hr hreply => ?_,
    fun before after wt remote data env reply htasks hopen ha hadmitted hid hdecode => ?_⟩
  · obtain ⟨names, hs⟩ := hrun.sound
    have houtcome : outcome = .value reply := by
      cases outcome with
      | value reply' => rw [Outcome.value.inj hreply]
      | failure err => cases err <;> cases hreply
      | breakdown b => cases hreply
    subst houtcome
    obtain ⟨store, remote, env, haccepted, hid, hdecode⟩ :=
      ((hs.events _ hr).2 reply rfl).exists_accepted
    obtain ⟨-, data, -, -, hadmitted⟩ := hs.exists_admitted haccepted
    refine ⟨store, remote, data, env, haccepted, hadmitted, hid, hdecode,
      fun hcode => ⟨reply, hdecode, hcode⟩, ?_⟩
    rintro ⟨signed, hsigned, hcode⟩
    rw [hdecode] at hsigned
    rwa [Except.ok.inj hsigned]
  · obtain ⟨h', w', hrun', hreturned⟩ :=
      hrun.exists_returned htasks hopen ha hadmitted hid hdecode
    exact ⟨h', w', _, hrun', hreturned, rfl⟩

/-! ### Two nodes -/

/-- Under the plain scheme a signature is good under the key of its maker alone. -/
theorem eq_of_verify_plain {env : Envelope} {own : Identity plainScheme} {key : PublicKey}
    (hsignature : env.signature = own.sign env.signingBytes)
    (hv : env.verify plainScheme key = true) : key = own.publicKey := by
  have hgood := (verify_eq_true.1 hv).2
  have hsame : own.publicKey.bytes ++ env.signingBytes = key.bytes ++ env.signingBytes := by
    rw [own.publicKey_bytes]
    simpa [plainScheme, hsignature, Identity.sign, Envelope.signingBytes_eq,
      Envelope.cleared] using hgood
  have hbytes := List.append_cancel_right hsame
  cases key
  cases hown : own.publicKey
  simp_all

/-- Under the plain scheme what a node signed may arrive. -/
theorem unforged_octets {net : Network ι plainScheme σ} {j : ι} {env : Envelope}
    (hs : Signed net h j env) (hsize : env.octets.length ≤ Wire.largestEnvelope) :
    Unforged net h env.octets := by
  have hbuilt : env.version = Wire.protocolVersion ∧
      env.signature = (net.identity j).sign env.signingBytes := by
    cases hs with
    | request he => exact ⟨rfl, rfl⟩
    | answer he ha =>
      obtain ⟨request, reply, -, -, -, -, rfl⟩ := ha
      exact ⟨rfl, rfl⟩
  intro env' key hdecode hv
  rw [Envelope.decode_octets hbuilt.1 hsize] at hdecode
  obtain rfl := Except.ok.inj hdecode
  exact ⟨j, env, (eq_of_verify_plain hbuilt.2 hv).symm, hs, rfl⟩

/-- What the adaptors of two nodes have in common. -/
def pairCustodian : Custodian := ⟨⟨List.replicate 32 0, .inr List.length_replicate⟩, 512, none⟩

/-- The chain that each of two nodes serves. -/
def pairChain (b : Bool) : String :=
  if b then "Filecoin" else "Ethereum"

/-- Two nodes that serve different chains and relay what they do not hold. -/
def pair : Network Bool plainScheme (Storage × Entropy) where
  identity b := plainIdentity (if b then 8 else 7)
  dispatcher b := (pairCustodian.dispatcher [pairChain b]).1
  relay? _ := some ⟨1, 1, 1000⟩

/-- Each of two nodes knows the other. -/
def pairStore (b : Bool) : PeerStore :=
  ⟨[((pair.identity !b).peerId, ⟨[([], 1)], some (pair.identity !b).publicKey⟩)]⟩

theorem get?_pairStore (b : Bool) :
    Assoc.get? (pairStore b).records (pair.identity !b).peerId =
      some ⟨[([], 1)], some (pair.identity !b).publicKey⟩ :=
  if_pos rfl

/-- What one of two nodes sends to ask for the keys of an identity. -/
def pairQuestion (chain : String) : Envelope :=
  .build .relayRequest "m" (Payload.encode (⟨chain, "u1", ""⟩ : GetRequest)) 5 (pair.identity false)

/-- What the other one may sign as an answer. -/
def pairAnswer (reply : GetReply) : Envelope :=
  .build .keyResponse "m" (Payload.encode reply) 6 (pair.identity true)

/-- What an identity gets from a node that serves Filecoin. -/
def pairReply : GetReply := ⟨.success, "get filecoin social key success", []⟩

theorem signed_pairQuestion {h : History Bool (Storage × Entropy)} {chain : String}
    {miss? : Option DispatchError}
    (he : .asked false ⟨⟨chain, "u1", ""⟩, ⟨1, 1, 1000⟩, miss?⟩ "m" 5 ∈ h) :
    Signed pair h false (pairQuestion chain) := by
  have hsigned : Signed pair h false _ := .request he
  rwa [pairQuestion]

theorem admitted_pairQuestion {chain : String}
    (hsize : (pairQuestion chain).octets.length ≤ Wire.largestEnvelope) :
    Admitted plainScheme (pairStore true) .request (pair.identity false).peerId
      (pairQuestion chain).octets (pairQuestion chain) :=
  admitted_build plainScheme_acceptsOwn (get?_pairStore true) rfl rfl
    (plainScheme_sign_ne_nil _ _) hsize rfl

theorem admitted_pairAnswer {reply : GetReply}
    (hsize : (pairAnswer reply).octets.length ≤ Wire.largestEnvelope) :
    Admitted plainScheme (pairStore false) .response (pair.identity true).peerId
      (pairAnswer reply).octets (pairAnswer reply) :=
  admitted_build plainScheme_acceptsOwn (get?_pairStore false) rfl rfl
    (plainScheme_sign_ne_nil _ _) hsize rfl

set_option maxRecDepth 10000 in
theorem length_pairQuestion_le : (pairQuestion "Filecoin").octets.length ≤ Wire.largestEnvelope ∧
    (pairQuestion "Ethereum").octets.length ≤ Wire.largestEnvelope := by
  cbv

set_option maxRecDepth 10000 in
theorem length_pairAnswer_le : (pairAnswer pairReply).octets.length ≤ Wire.largestEnvelope ∧
    (pairAnswer .unsupported).octets.length ≤ Wire.largestEnvelope := by
  cbv

theorem candidates_pairStore :
    (candidates (pairStore false) (pair.identity false).peerId 0).isEmpty = false := by
  cbv

theorem requestFrame_pairQuestion {chain : String}
    (hsize : (pairQuestion chain).octets.length ≤ Wire.largestEnvelope) :
    requestFrame (pair.identity false) 5 "m" (Payload.encode (⟨chain, "u1", ""⟩ : GetRequest)) =
      .ok (pairQuestion chain).octets := by
  rw [requestFrame, ← pairQuestion, Envelope.encode?, Envelope.checkSize_eq_ok.2 hsize, ok_bind]
  rfl

/-- One of two nodes asks the other, and waits. -/
theorem exists_waiting_pair {Arrives : History Bool (Storage × Entropy) → Bytes → Prop}
    {h : History Bool (Storage × Entropy)} {w : World Bool} {chain : String}
    {miss? : Option DispatchError} (hrun : Run pair Arrives h w) (hstore : w.store = pairStore)
    (htasks : w.tasks = [(false, .ready ⟨⟨chain, "u1", ""⟩, ⟨1, 1, 1000⟩, miss?⟩)])
    (fresh : ∀ j e' t, .asked j e' "m" t ∉ h)
    (hsize : (pairQuestion chain).octets.length ≤ Wire.largestEnvelope) :
    ∃ w' wt, Run pair Arrives
        (.asked false ⟨⟨chain, "u1", ""⟩, ⟨1, 1, 1000⟩, miss?⟩ "m" 5 :: h) w' ∧
      w'.store = pairStore ∧
      w'.tasks = [(false, .calling ⟨⟨chain, "u1", ""⟩, ⟨1, 1, 1000⟩, miss?⟩ "m" (.waiting wt))] ∧
      (w'.slots false).IsOpen "m" wt.registration := by
  obtain ⟨w', wt, hrun', hstore', htasks', hopen⟩ :=
    Run.exists_waiting 0 hrun (htasks.trans (List.nil_append _).symm) fresh
      (by rw [hstore]; exact candidates_pairStore) one_ne_zero (requestFrame_pairQuestion hsize)
      one_ne_zero (by simp [Pending.lastInstant])
  exact ⟨w', wt, hrun', hstore'.trans hstore, htasks', hopen⟩

theorem pair_answers : Answers pair true (pairQuestion "Filecoin") 6
    (Storage.empty, Entropy.ofSeed 0) (pairAnswer pairReply) :=
  ⟨⟨"Filecoin", "u1", ""⟩, pairReply, by cbv, by cbv, by cbv, rfl, rfl⟩

theorem decode_pairAnswer : Payload.decode (pairAnswer pairReply).payload = .ok pairReply ∧
    Payload.decode (pairAnswer .unsupported).payload = .ok GetReply.unsupported :=
  ⟨by cbv, by cbv⟩

/-- The reply that one of two nodes returns is that of the other. -/
theorem pair_reply_was_served : ∃ h w, Run pair (Unforged pair) h w ∧
    .returned false ⟨⟨"Filecoin", "u1", ""⟩, ⟨1, 1, 1000⟩, none⟩ "m" (.value pairReply) ∈ h ∧
      ∃ j env timestamp seen, .served j env timestamp seen ∈ h ∧ env.messageId = "m" ∧
        ((pair.dispatcher j).get ⟨"Filecoin", "u1", ""⟩ seen).1 = .ok pairReply := by
  have hbegin : Run pair (Unforged pair) [] _ := .begin pairStore
  have hrun := hbegin.step (.ask false ⟨"Filecoin", "u1", ""⟩ ⟨1, 1, 1000⟩)
  obtain ⟨w₁, wt, hrun₁, hstore₁, htasks₁, hopen₁⟩ :=
    exists_waiting_pair hrun rfl rfl (by simp) length_pairQuestion_le.1
  -- The other node gets the request, and answers it.
  have hadmitted := admitted_pairQuestion length_pairQuestion_le.1
  rw [← hstore₁] at hadmitted
  have hrun₂ := hrun₁.step (.arrive (unforged_octets
    (signed_pairQuestion List.mem_cons_self) length_pairQuestion_le.1) (inspect_eq_ok.2 hadmitted))
  obtain ⟨w₃, hrun₃, hstore₃, -, htasks₃, hother₃⟩ :=
    hrun₂.exists_turn (List.nil_append _).symm (.serve 6 (Storage.empty, Entropy.ofSeed 0))
  rw [Option.toList_none, List.map_nil, List.nil_append, List.nil_append, htasks₁] at htasks₃
  -- The answer comes back.
  have hadmitted' := admitted_pairAnswer length_pairAnswer_le.1
  rw [← hstore₁] at hadmitted'
  obtain ⟨h', w', hrun', hreturned⟩ :=
    hrun₃.exists_returned (htasks₃.trans (List.nil_append _).symm)
      (by rw [hother₃ false (by decide)]; exact hopen₁)
      (unforged_octets (.answer List.mem_cons_self pair_answers) length_pairAnswer_le.1)
      (by rw [hstore₃]; exact hadmitted') rfl decode_pairAnswer.1
  obtain ⟨-, -, -, -, -, -, j, env, timestamp, seen, -, hserved, hid, -, -, -, hlooked, -⟩ :=
    returned_reply_was_served hrun' hreturned
  exact ⟨h', w', hrun', hreturned, j, env, timestamp, seen, hserved, hid, hlooked⟩

/-- A client's request of which one of two nodes has nothing is answered by what the other one
signs, and no other frame arrives. -/
theorem exists_returned_unsupported :
    ∃ h w, Run pair (fun _ data => data = (pairAnswer .unsupported).octets) h w ∧
      .returned false ⟨⟨"Ethereum", "u1", ""⟩, ⟨1, 1, 1000⟩,
        some (.adaptor (.keyNotFound "Ethereum" "u1"))⟩ "m" (.value .unsupported) ∈ h := by
  have hbegin : Run pair (fun _ data => data = (pairAnswer .unsupported).octets) [] _ :=
    .begin pairStore
  have hmiss : ((pair.dispatcher false).get ⟨"Ethereum", "u1", ""⟩
      (Storage.empty, Entropy.ofSeed 0)).1 = .error (.adaptor (.keyNotFound "Ethereum" "u1")) := by
    cbv
  obtain ⟨storage, log, hlookUp⟩ := lookUp_eq_relayed
    (n := World.state ⟨pairStore, fun _ => .empty, []⟩ pair false _) rfl hmiss rfl
  have hrun := hbegin.step (.lookUp hlookUp)
  obtain ⟨w₁, wt, hrun₁, hstore₁, htasks₁, hopen₁⟩ :=
    exists_waiting_pair hrun rfl rfl (by simp) length_pairQuestion_le.2
  have hadmitted := admitted_pairAnswer length_pairAnswer_le.2
  rw [← hstore₁] at hadmitted
  obtain ⟨h', w', hrun', hreturned⟩ :=
    hrun₁.exists_returned (htasks₁.trans (List.nil_append _).symm) hopen₁ rfl hadmitted rfl
      decode_pairAnswer.2
  exact ⟨h', w', hrun', hreturned⟩

/-- A known peer turns a miss into an answer that the chain is not served. -/
theorem pair_returned_unsupported :
    ∃ h w, Run pair (fun _ data => data = (pairAnswer .unsupported).octets) h w ∧
      .returned false ⟨⟨"Ethereum", "u1", ""⟩, ⟨1, 1, 1000⟩,
        some (.adaptor (.keyNotFound "Ethereum" "u1"))⟩ "m" (.value .unsupported) ∈ h ∧
      afterRelay (.adaptor (.keyNotFound "Ethereum" "u1")) (.value .unsupported) =
        .value GetReply.unsupported ∧
      GetReply.unsupported.code ≠ .success := by
  obtain ⟨h, w, hrun, hreturned⟩ := exists_returned_unsupported
  exact ⟨h, w, hrun, hreturned, rfl, by decide⟩

/-- That the chain is not served is in an envelope that the peer signed. -/
theorem pair_unsupported_was_signed :
    ∃ h w store remote data env, Run pair (fun _ data => data = (pairAnswer .unsupported).octets)
        h w ∧ .accepted false .response store remote env ∈ h ∧
      Admitted plainScheme store .response remote data env ∧ env.messageId = "m" ∧
      Payload.decode env.payload = .ok GetReply.unsupported := by
  obtain ⟨h, w, hrun, hreturned⟩ := exists_returned_unsupported
  obtain ⟨store, remote, data, env, haccepted, hadmitted, hid, hdecode, -⟩ :=
    (returned_code_was_signed hrun).1 _ _ hreturned rfl
  exact ⟨h, w, store, remote, data, env, hrun, haccepted, hadmitted, hid, hdecode⟩

end KeyCustody.Relay
