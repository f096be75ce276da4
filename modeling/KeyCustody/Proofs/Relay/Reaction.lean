import KeyCustody.Proofs.Relay.Answered
import KeyCustody.Simulation.Cluster
import KeyCustody.Simulation.Wire
/-!
# The reaction to a request

A frame on the request protocol earns a reply if it passes the gate as a request, its payload is a
request on a chain that is served, and the lookup in the node itself is a success. A node sends one
frame for it, or none if the reply makes the frame too large; for any other frame it sends none.
What it sends goes back to the peer that asked, on the response protocol, and is an answer: nothing
that a node hears makes it relay anything. Of the node itself only the storage of its adaptors may
change.

## Main definitions

* `Earns`: the conditions under which a frame earns a reply.

## Main results

* `onRequest_frame?`: the frames that are answered.
* `decode_answerFrame`: what is in an answer.
* `answers_what_earns`: the reaction to a frame on the request protocol, and where it goes.
-/

namespace KeyCustody.Relay

open Crypto (Entropy SignatureScheme)
open Peer (PeerId Identity)
open Simulation (Cluster Hosted Member)
open Wire (Envelope GetRequest GetReply Payload StreamProtocol)

variable {S : SignatureScheme} {σ : Type} {n : Node.State S σ} {remote : PeerId} {data : Bytes}
  {env : Envelope} {request : GetRequest} {reply : GetReply}

/-! ### Frames that are answered -/

/-- The conditions under which a frame from a peer earns a reply of a node. -/
structure Earns (n : Node.State S σ) (remote : PeerId) (data : Bytes) (env : Envelope)
    (request : GetRequest) (reply : GetReply) : Prop where
  admitted : Admitted S n.store .request remote data env
  asks : Payload.decode env.payload = .ok request
  served : n.dispatcher.isSupported request.chain = true
  looked : (n.dispatcher.get request n.storage).1 = .ok reply
  success : reply.code = .success

theorem answerFrame_eq_ok {own : Identity S} {timestamp : UInt64} {id : String} {frame : Bytes} :
    answerFrame own timestamp id reply = .ok frame ↔
      (Envelope.build .keyResponse id (Payload.encode reply) timestamp own).octets.length ≤ 65536 ∧
        (Envelope.build .keyResponse id (Payload.encode reply) timestamp own).octets = frame :=
  Envelope.encode?_eq_ok

/-- **The frames that are answered**, and the frames that answer them. -/
theorem onRequest_frame? {timestamp : UInt64} {frame : Bytes} :
    (onRequest n.identity n.store n.dispatcher timestamp remote data n.storage).frame? =
      some frame ↔ ∃ env request reply, Earns n remote data env request reply ∧
        answerFrame n.identity timestamp env.messageId reply = .ok frame := by
  constructor
  · intro h
    unfold onRequest at h
    split at h
    · cases h
    · rename_i env hinspect
      obtain ⟨request, hasks, hserved, hreact⟩ := serve_frame?.1 h
      obtain ⟨reply, hlooked, hcode, hanswer⟩ := react_frame?.1 hreact
      exact ⟨env, request, reply, ⟨inspect_eq_ok.1 hinspect, hasks, hserved, hlooked, hcode⟩,
        hanswer⟩
  · rintro ⟨env, request, reply, hearns, hanswer⟩
    rw [onRequest, inspect_eq_ok.2 hearns.admitted]
    exact serve_frame?.2 ⟨request, hearns.asks, hearns.served,
      react_frame?.2 ⟨reply, hearns.looked, hearns.success, hanswer⟩⟩

/-- What earns a reply earns no other one. -/
theorem Earns.eq {env' : Envelope} {request' : GetRequest} {reply' : GetReply}
    (h : Earns n remote data env request reply) (h' : Earns n remote data env' request' reply') :
    env' = env ∧ request' = request ∧ reply' = reply := by
  obtain rfl : env' = env :=
    Except.ok.inj (h'.admitted.decodes.symm.trans h.admitted.decodes)
  obtain rfl : request' = request := Except.ok.inj (h'.asks.symm.trans h.asks)
  exact ⟨rfl, rfl, Except.ok.inj (h'.looked.symm.trans h.looked)⟩

/-- **What is in an answer**: a signed envelope with the message id of the request and exactly the
reply. -/
theorem decode_answerFrame {own : Identity S} {timestamp : UInt64} {id : String} {frame : Bytes}
    (h : answerFrame own timestamp id reply = .ok frame) :
    ∃ answer, Envelope.decode frame = .ok answer ∧ answer.kind = .keyResponse ∧
      answer.messageId = id ∧ answer.nodeId = own.peerId.toText ∧
      Payload.decode answer.payload = .ok reply ∧
      (S.Lawful → answer.verify S own.publicKey = true) := by
  obtain ⟨hdecode, hverify⟩ := decode_frame h
  exact ⟨_, hdecode, rfl, rfl, rfl, decode_payload h, hverify⟩

/-! ### Where answers go -/

section Wire

variable {w : Simulation.Network S σ} {name : String} {m : Member S σ}

theorem get?_update (w : Simulation.Network S σ) (name other : String)
    (f : Member S σ → Member S σ) :
    Assoc.get? (w.update name f).members other =
      if other = name then (Assoc.get? w.members name).map f else Assoc.get? w.members other := by
  unfold Simulation.Network.update
  cases hm : Assoc.get? w.members name with
  | none =>
    by_cases hother : other = name
    · subst hother
      rw [if_pos rfl, Option.map_none, hm]
    · rw [if_neg hother]
  | some m => rw [Assoc.get?_put, Option.map_some]

/-- What a member sends is in its records, whatever the wire makes of it. -/
theorem get?_transmit (hm : Assoc.get? w.members name = some m) (choices : Nat)
    (receiver : PeerId) (protocol : StreamProtocol) (data : Bytes) (other : String) :
    Assoc.get? (w.transmit name choices receiver protocol data).1.members other =
      if other = name then some { m with
        script := m.script.tail
        sent := m.sent ++ [⟨receiver, choices, protocol, m.script.headD m.usual, data⟩] }
      else Assoc.get? w.members other := by
  have hupdate := get?_update w name other fun m' => { m' with
    script := m'.script.tail
    sent := m.sent ++ [⟨receiver, choices, protocol, m.script.headD m.usual, data⟩] }
  rw [hm, Option.map_some] at hupdate
  unfold Simulation.Network.transmit
  simp only [hm]
  split
  · exact hupdate
  · exact hupdate
  · split <;> exact hupdate

/-- The member after a frame has arrived, with what it sends back in its records. -/
theorem get?_arrive (hm : Assoc.get? w.members name = some m) (remote : PeerId)
    (protocol : StreamProtocol) (data : Bytes) (other : String) :
    Assoc.get? (w.arrive name remote protocol data).members other =
      if other = name then some { m with
        state := (m.state.onFrame remote protocol data w.clock).1
        script := match (m.state.onFrame remote protocol data w.clock).2.2 with
          | some _ => m.script.tail
          | none => m.script
        sent := m.sent ++ (m.state.onFrame remote protocol data w.clock).2.2.toList.map fun frame =>
          ⟨remote, 1, .response, m.script.headD m.usual, frame⟩ }
      else Assoc.get? w.members other := by
  unfold Simulation.Network.arrive
  simp only [hm]
  obtain ⟨state, log, frame?⟩ := m.state.onFrame remote protocol data w.clock
  have hupdate (j : String) := get?_update w name j fun m' => { m' with state }
  simp only [hm, Option.map_some] at hupdate
  cases frame? with
  | none =>
    simp only [hupdate, Option.toList_none, List.map_nil, List.append_nil]
  | some frame =>
    simp only
    generalize hw : { w.update name fun m' => { m' with state } with
      log := (w.update name fun m' => { m' with state }).log ++ log } = w'
    have hw' (j : String) : Assoc.get? w'.members j =
        if j = name then some { m with state } else Assoc.get? w.members j := by
      rw [← hw]
      exact hupdate j
    have htransmit := get?_transmit ((hw' name).trans (if_pos rfl)) 1 remote .response frame other
    rw [hw' other] at htransmit
    -- the outcome of the send changes the log only
    generalize w'.transmit name 1 remote .response frame = r at htransmit ⊢
    obtain ⟨w'', outcome⟩ := r
    cases outcome <;> by_cases hother : other = name <;> simpa [hother] using htransmit

end Wire

section Host

variable {w : Cluster S σ} {name : String} {h : Hosted S σ}

theorem hosted?_occupy (hh : w.hosted? name = some h) (h' : Hosted S σ) :
    (w.occupy name (.hosted h')).hosted? name = some h' := by
  unfold Cluster.hosted? at hh
  split at hh
  · rename_i identity version listen occupant hstation
    rw [Cluster.occupy, hstation, Cluster.hosted?]
    simp only [Assoc.get?_put, if_true]
  · cases hh

theorem queue_occupy (w : Cluster S σ) (name : String) (occupant : Simulation.Occupant S σ) :
    (w.occupy name occupant).queue = w.queue := by
  unfold Cluster.occupy
  split <;> rfl

/-- A node that handles a frame tells its host to send back what it answers, and nothing else. -/
theorem handle_eq (hh : w.hosted? name = some h) (remote : PeerId) (protocol : StreamProtocol)
    (data : Bytes) :
    (w.handle name remote protocol data).hosted? name =
        some { h with state := (h.state.onFrame remote protocol data w.clock).1 } ∧
      (w.handle name remote protocol data).queue = w.queue ++
        (h.state.onFrame remote protocol data w.clock).2.2.toList.map fun frame =>
          (name, .command (.send remote .response frame .nobody)) := by
  unfold Cluster.handle
  simp only [hh]
  obtain ⟨state, log, frame?⟩ := h.state.onFrame remote protocol data w.clock
  have hstate := hosted?_occupy hh { h with state }
  have hqueue := queue_occupy w name (.hosted { h with state })
  cases frame? with
  | none => exact ⟨hstate, hqueue.trans (List.append_nil _).symm⟩
  | some frame => exact ⟨hstate, congrArg (· ++ _) hqueue⟩

end Host

/-! ### The reaction -/

/-- **The reaction to a request**, whatever the adaptors of the node, its store, the peer and the
octets are. The node stays as it is but for the storage of its adaptors, its slots included. It
sends a frame exactly if what it got earns a reply that is in an envelope of at most 65536 octets.
What is read of this frame is an answer with the message id of the request, the id of the node as
its sender, and exactly the reply, and its signature is good under the node's key. On a wire, all
that the node sends is this frame, to the peer that asked and on the response protocol; with a host,
all that happens next is that the host is told to send it so. -/
theorem answers_what_earns (n : Node.State S σ) (remote : PeerId) (data : Bytes)
    (now : Node.Instant) :
    (∃ storage, (n.onFrame remote .request data now).1 = { n with storage }) ∧
    (∀ frame, (n.onFrame remote .request data now).2.2 = some frame ↔ ∃ env request reply,
      Earns n remote data env request reply ∧
        (Envelope.build .keyResponse env.messageId (Payload.encode reply) now.seconds
          n.identity).octets.length ≤ 65536 ∧
        (Envelope.build .keyResponse env.messageId (Payload.encode reply) now.seconds
          n.identity).octets = frame) ∧
    (∀ frame env request reply, (n.onFrame remote .request data now).2.2 = some frame →
      Earns n remote data env request reply →
        ∃ answer, Envelope.decode frame = .ok answer ∧ answer.kind = .keyResponse ∧
          answer.messageId = env.messageId ∧ answer.nodeId = n.peerId.toText ∧
          Payload.decode answer.payload = .ok reply ∧
          (S.Lawful → answer.verify S n.identity.publicKey = true)) ∧
    (∀ (w : Simulation.Network S σ) (name : String) (m : Member S σ), m.state = n →
      w.clock = now → Assoc.get? w.members name = some m →
        (∃ m', Assoc.get? (w.arrive name remote .request data).members name = some m' ∧
          m'.state = (n.onFrame remote .request data now).1 ∧
          m'.sent = m.sent ++ (n.onFrame remote .request data now).2.2.toList.map fun frame =>
            ⟨remote, 1, .response, m.script.headD m.usual, frame⟩) ∧
        ∀ other, other ≠ name → Assoc.get? (w.arrive name remote .request data).members other =
          Assoc.get? w.members other) ∧
    (∀ (w : Cluster S σ) (name : String) (h : Hosted S σ), h.state = n → w.clock = now →
      w.hosted? name = some h →
        (w.handle name remote .request data).hosted? name =
          some { h with state := (n.onFrame remote .request data now).1 } ∧
        (w.handle name remote .request data).queue = w.queue ++
          (n.onFrame remote .request data now).2.2.toList.map fun frame =>
            (name, .command (.send remote .response frame .nobody))) := by
  have hframe (frame : Bytes) : (n.onFrame remote .request data now).2.2 = some frame ↔
      ∃ env request reply, Earns n remote data env request reply ∧
        answerFrame n.identity now.seconds env.messageId reply = .ok frame :=
    onRequest_frame?
  refine ⟨⟨_, rfl⟩, fun frame => ?_, fun frame env request reply hsent hearns => ?_,
    fun w name m hstate hclock hm => ⟨?_, fun other hother => ?_⟩,
    fun w name h hstate hclock hh => ?_⟩
  · simpa only [answerFrame_eq_ok] using hframe frame
  · obtain ⟨env', request', reply', hearns', hanswer⟩ := (hframe frame).1 hsent
    obtain ⟨rfl, rfl, rfl⟩ := hearns.eq hearns'
    exact decode_answerFrame hanswer
  · subst hstate hclock
    exact ⟨_, (get?_arrive hm remote .request data name).trans (if_pos rfl), rfl, rfl⟩
  · exact (get?_arrive hm remote .request data other).trans (if_neg hother)
  · subst hstate hclock
    exact handle_eq hh remote .request data

/-- A wire that delivers, with a node on it that holds a key. -/
def heldWire : Simulation.Network plainScheme Unit :=
  .start [("b", ⟨holding, [], .deliver, []⟩)] 6 (Entropy.ofSeed 0)

/-- The node with a host, which has no links. -/
def heldHost : Hosted plainScheme Unit :=
  ⟨holding, .start "" 1 2 3 4 true, true, true, false⟩

/-- The station of this host. -/
def heldCluster : Cluster plainScheme Unit :=
  .start [("b", ⟨holding.identity, "", [], .hosted heldHost⟩)] true 6 (Entropy.ofSeed 0)

/-- A node that holds a key sends it to one that it knows and that asks for it, on a wire as well as
with a host. -/
theorem holding_answers_asking :
    (∃ answer, Envelope.decode (pairAnswer heldReply).octets = .ok answer ∧
      answer.messageId = "m" ∧ Payload.decode answer.payload = .ok heldReply ∧
      answer.verify plainScheme holding.identity.publicKey = true) ∧
    (∃ m, Assoc.get? (heldWire.arrive "b" (asking ⟨1, 1, 1000⟩).peerId .request
        (pairQuestion "Ethereum").octets).members "b" = some m ∧
      m.sent = [⟨(asking ⟨1, 1, 1000⟩).peerId, 1, .response, .deliver,
        (pairAnswer heldReply).octets⟩]) ∧
    (heldCluster.handle "b" (asking ⟨1, 1, 1000⟩).peerId .request
      (pairQuestion "Ethereum").octets).queue =
        [("b", .command (.send (asking ⟨1, 1, 1000⟩).peerId .response
          (pairAnswer heldReply).octets .nobody))] := by
  have hframe := requestFrame_asking ⟨1, 1, 1000⟩
  have hearns : Earns holding (asking ⟨1, 1, 1000⟩).peerId (pairQuestion "Ethereum").octets
      (pairQuestion "Ethereum") missing heldReply :=
    ⟨admitted_of_knows plainScheme_lawful (genuine_pairStore true) ⟨_, get?_pairStore true⟩ hframe
      rfl, decode_payload hframe, rfl, rfl, rfl⟩
  obtain ⟨-, hsends, hreads, hwire, hhost⟩ := answers_what_earns holding
    (asking ⟨1, 1, 1000⟩).peerId (pairQuestion "Ethereum").octets ⟨0, 6⟩
  obtain ⟨hsize, hoctets⟩ := answerFrame_eq_ok.1 answerFrame_holding
  have hsent := (hsends (pairAnswer heldReply).octets).2 ⟨_, _, _, hearns, hsize, hoctets⟩
  rw [hsent] at hwire hhost
  refine ⟨?_, ?_, ?_⟩
  · obtain ⟨answer, hdecode, -, hid, -, hpayload, hverify⟩ := hreads _ _ _ _ hsent hearns
    exact ⟨answer, hdecode, hid, hpayload, hverify plainScheme_lawful⟩
  · obtain ⟨⟨m, hm, -, hrecords⟩, -⟩ := hwire heldWire "b" _ rfl rfl rfl
    exact ⟨m, hm, hrecords⟩
  · exact (hhost heldCluster "b" heldHost rfl rfl rfl).2

end KeyCustody.Relay
