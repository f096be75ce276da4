import KeyCustody.Proofs.Custody.Routing
import KeyCustody.Proofs.Relay.Fallback
import KeyCustody.Simulation.Backends
/-!
# What a node makes of what its adaptors say

Whatever happens at a node, its adaptors stay the same. A client's request goes to the adaptor of
its chain, if there is one, and what this says is the answer, except that a lookup which finds
nothing may lead to a relay. A breakdown is no such lookup: it is answered as the failure that it
is, and all requests after it are routed as before.

## Main definitions

* `Answer`, `State.ask`: what a client gets for a request of any method.
* `State.PassesOn`: what comes of a request is what an adaptor says.
* `Occurrence`, `State.after`, `State.afterAll`: what happens at a node, and the node after it.

## Main results

* `State.dispatcher_after`, `State.dispatcher_afterAll`: the adaptors stay the same.
* `State.ask_eq`, `State.passesOn`: what becomes of the node, and what its client gets.
* `routed_and_isolated`: which chains are served, and what comes of a request after any past.
-/

namespace KeyCustody.Node

open Crypto (Entropy SignatureScheme)
open Custody (Adaptor AdaptorError Chain Custodian DispatchError Dispatcher Reply Request Storage)
open Peer (PeerId)
open Relay (Settings)
open Wire (GetRequest StreamProtocol)

/-! ### Clients -/

/-- What a client gets for a request, or that peers are asked. -/
inductive Answer where
  | result (r : Except ServiceError Reply)
  | relayed (settings : Settings) (miss : DispatchError)

/-- What a client gets for a request, by the result of the dispatcher. -/
def Answer.of (q : Request) (relay? : Option Settings) : Except DispatchError Reply → Answer
  | .ok reply => .result (.ok reply)
  | .error e =>
    match q, relay? with
    | .get _, some settings =>
      if e.isKeyMiss then .relayed settings e else .result (.error (.dispatch e))
    | _, _ => .result (.error (.dispatch e))

namespace State

variable {S : SignatureScheme} {σ : Type} {n : State S σ} {q : Request}

/-- The node after a request of a client, and what the client gets. -/
def ask (n : State S σ) : Request → State S σ × Answer
  | .support r => (n, .result ((n.support r).1.map .support))
  | .get r =>
    match n.lookUp r with
    | (n, .answered result, _) => (n, .result (result.map .get))
    | (n, .relayed settings miss, _) => (n, .relayed settings miss)
  | .set r => ((n.set r).1, .result ((n.set r).2.1.map .set))

/-- **What comes of a request** at a node is what comes of it at its dispatcher. -/
theorem ask_eq (n : State S σ) (q : Request) : n.ask q =
    ({ n with storage := (n.dispatcher.handle q n.storage).2.2 },
      .of q n.relay? (n.dispatcher.handle q n.storage).1) := by
  cases q with
  | support r =>
    rw [ask, support, Dispatcher.handle]
    rcases n.dispatcher.support r with ⟨result, log⟩
    cases result <;> rfl
  | get r =>
    rw [ask, lookUp, Dispatcher.handle]
    rcases n.dispatcher.get r n.storage with ⟨result, log, storage⟩
    cases result with
    | ok reply => rfl
    | error e =>
      cases hrelay : n.relay? with
      | none => simp [Answer.of, Except.map, ofDispatch]
      | some settings =>
        by_cases hmiss : e.isKeyMiss = true <;> simp [hmiss, Answer.of, Except.map]
  | set r =>
    rw [ask, set, Dispatcher.handle]
    rcases n.dispatcher.set r n.storage with ⟨result, log, storage⟩
    cases result <;> rfl

/-- **The answer to a client** is the result of the dispatcher, or a lookup found nothing and peers
are asked. -/
theorem answer_cases (n : State S σ) (q : Request) :
    (n.ask q).2 = .result (ofDispatch (n.dispatcher.handle q n.storage).1) ∨
    ∃ r chain uuid settings, q = .get r ∧ n.relay? = some settings ∧
      (n.dispatcher.handle q n.storage).1 = .error (.adaptor (.keyNotFound chain uuid)) ∧
      (n.ask q).2 = .relayed settings (.adaptor (.keyNotFound chain uuid)) := by
  rw [ask_eq]
  cases hresult : (n.dispatcher.handle q n.storage).1 with
  | ok reply => exact .inl rfl
  | error e =>
    cases q with
    | get r =>
      cases hrelay : n.relay? with
      | none => exact .inl rfl
      | some settings =>
        by_cases hmiss : e.isKeyMiss = true
        · obtain ⟨chain, uuid, rfl⟩ := Relay.isKeyMiss_iff.1 hmiss
          exact .inr ⟨r, chain, uuid, settings, rfl, rfl, rfl, rfl⟩
        · exact .inl (if_neg hmiss)
    | _ => exact .inl rfl

/-- What comes of a request depends on the adaptor of its own chain alone. -/
theorem ask_congr {d' : Dispatcher σ}
    (h : Assoc.get? d'.registry q.chain = Assoc.get? n.dispatcher.registry q.chain) :
    ({ n with dispatcher := d' }.ask q).2 = (n.ask q).2 ∧
    ({ n with dispatcher := d' }.ask q).1.storage = (n.ask q).1.storage := by
  rw [ask_eq, ask_eq, Dispatcher.handle_congr h]
  exact ⟨rfl, rfl⟩

/-- On a chain without an adaptor the answer is that it is not served. -/
theorem ask_of_none (h : Assoc.get? n.dispatcher.registry q.chain = none) :
    n.ask q = (n, .result (.ok q.unsupported)) := by
  obtain ⟨hreply, hstorage⟩ := Dispatcher.handle_of_none (s := n.storage) h
  rw [ask_eq, hreply, hstorage]
  rfl

/-- What an adaptor says to a request is what comes of the request: a reply is the answer, a failure
is the answer unless a lookup found nothing and is relayed, and a breakdown is answered as the
failure that names the method, the chain and the words, which is not that nothing was found. -/
structure PassesOn (n : State S σ) (q : Request) (a : Adaptor σ) : Prop where
  state : (n.ask q).1 = { n with storage := (a.call q n.storage).2 }
  value (reply : Reply) :
    (a.call q n.storage).1 = .value reply → (n.ask q).2 = .result (.ok reply)
  failure (e : AdaptorError) : (a.call q n.storage).1 = .failure e →
    (n.dispatcher.handle q n.storage).1 = .error (.adaptor e) ∧
    ((n.ask q).2 = .result (.error (.dispatch (.adaptor e))) ∨
      ∃ r chain uuid settings, q = .get r ∧ e = .keyNotFound chain uuid ∧
        n.relay? = some settings ∧ (n.ask q).2 = .relayed settings (.adaptor e))
  breakdown (b : Breakdown) : (a.call q n.storage).1 = .breakdown b →
    let e := DispatchError.brokeDown q.method q.chain b.message
    (n.dispatcher.handle q n.storage).1 = .error e ∧ e.isKeyMiss = false ∧
    (n.ask q).2 = .result (.error (.dispatch e))

/-- **What the adaptor of its chain says** is what comes of a request. -/
theorem passesOn {a : Adaptor σ} (h : Assoc.get? n.dispatcher.registry q.chain = some a) :
    n.PassesOn q a := by
  obtain ⟨hstorage, hvalue, hfailure, hbreakdown⟩ := Dispatcher.handle_of_some (s := n.storage) h
  refine ⟨by rw [ask_eq, hstorage], fun reply ho => ?_, fun e ho => ⟨hfailure e ho, ?_⟩,
    fun b ho => ⟨hbreakdown b ho, rfl, ?_⟩⟩
  · rw [ask_eq, hvalue reply ho]
    rfl
  · rcases n.answer_cases q with hanswer | hrelayed
    · rw [hfailure e ho] at hanswer
      exact .inl hanswer
    · obtain ⟨r, chain, uuid, settings, hq, hrelay, herror, hanswer⟩ := hrelayed
      rw [hfailure e ho] at herror
      obtain rfl := DispatchError.adaptor.inj (Except.error.inj herror)
      exact .inr ⟨r, chain, uuid, settings, hq, rfl, hrelay, hanswer⟩
  · rcases n.answer_cases q with hanswer | hrelayed
    · rw [hbreakdown b ho] at hanswer
      exact hanswer
    · obtain ⟨r, chain, uuid, settings, -, -, herror, -⟩ := hrelayed
      rw [hbreakdown b ho] at herror
      cases herror

end State

/-! ### Whatever happens -/

/-- What happens at a node. -/
inductive Occurrence where
  /-- A client has a request. -/
  | request (q : Request)
  /-- A frame comes from a peer. -/
  | frame (remote : PeerId) (protocol : StreamProtocol) (data : Bytes) (now : Instant)
  /-- A request is relayed. -/
  | relay (settings : Settings) (request : GetRequest) (messageId : String) (now : Instant)

namespace State

variable {S : SignatureScheme} {σ : Type}

/-- The node after an occurrence. -/
def after (n : State S σ) : Occurrence → State S σ
  | .request q => (n.ask q).1
  | .frame remote protocol data now => (n.onFrame remote protocol data now).1
  | .relay settings request messageId now => (n.startRelay settings request messageId now).1

/-- The node after occurrences. -/
def afterAll (n : State S σ) (past : List Occurrence) : State S σ :=
  past.foldl after n

/-- The adaptors stay the same. -/
theorem dispatcher_after (n : State S σ) (o : Occurrence) :
    (n.after o).dispatcher = n.dispatcher := by
  cases o with
  | request q => rw [after, ask_eq]
  | frame remote protocol data now => cases protocol <;> rfl
  | relay settings request messageId now => rfl

/-- **The adaptors stay the same** whatever happens. -/
theorem dispatcher_afterAll (n : State S σ) (past : List Occurrence) :
    (n.afterAll past).dispatcher = n.dispatcher := by
  induction past generalizing n with
  | nil => rfl
  | cons o past ih => exact (ih (n.after o)).trans (n.dispatcher_after o)

end State

/-! ### Requests and adaptors -/

/-- **Which chains are served, and what comes of a request.** At a node with the chains of a list of
names, a chain is named and there is an adaptor for it, if and only if it counts as supported, its
support is reported, no reply to a lookup says that it is not served, and none to a key to be stored
does; about every other chain each reply says so, and it is the same whatever adaptors there are for
other chains. After any past a node has the adaptors that it had. A request goes to the adaptor of
its chain alone, and what comes of it is what this one says: a reply and a failure as they are,
unless a lookup found nothing and is relayed, and a breakdown as the failure that names the method,
the chain and the words, which never leads to a relay. -/
theorem routed_and_isolated :
    (∀ (c : Custodian) (names : List String) (chain : String),
      let d := (c.dispatcher names).1
      [chain ∈ names ∧ ∃ k : Chain, k.name = chain,
        d.isSupported chain = true,
        ∃ reply, (d.support ⟨chain⟩).1 = .ok reply ∧ reply.support = true,
        ∀ r s reply, r.chain = chain → (d.get r s).1 = .ok reply → reply.code ≠ .unsupported,
        ∀ r s reply, r.chain = chain → (d.set r s).1 = .ok reply →
          reply.code ≠ .unsupported].TFAE ∧
      (¬ (chain ∈ names ∧ ∃ k : Chain, k.name = chain) → ∀ q s, q.chain = chain →
        (d.handle q s).1 = .ok q.unsupported ∧ q.unsupported.code = .unsupported ∧
        (d.handle q s).2.2 = s ∧
        ∀ d' : Dispatcher (Storage × Entropy), d'.isSupported chain = false →
          d'.handle q s = d.handle q s)) ∧
    ∀ (S : SignatureScheme) (σ : Type) (n : State S σ) (past : List Occurrence),
      let m := n.afterAll past
      m.dispatcher = n.dispatcher ∧
      ∀ q : Request,
        (∀ d' : Dispatcher σ,
          Assoc.get? d'.registry q.chain = Assoc.get? n.dispatcher.registry q.chain →
          ({ m with dispatcher := d' }.ask q).2 = (m.ask q).2 ∧
          ({ m with dispatcher := d' }.ask q).1.storage = (m.ask q).1.storage) ∧
        (Assoc.get? n.dispatcher.registry q.chain = none →
          m.ask q = (m, .result (.ok q.unsupported))) ∧
        ∀ a, Assoc.get? n.dispatcher.registry q.chain = some a → m.PassesOn q a := by
  refine ⟨fun c names chain => ⟨c.served_tfae names chain, ?_⟩, fun S σ n past => ?_⟩
  · rintro hnot q s rfl
    obtain ⟨hreply, hstorage, hsame⟩ := c.handle_of_not_named hnot s
    exact ⟨hreply, q.code_unsupported, hstorage, hsame⟩
  · have hdispatcher := n.dispatcher_afterAll past
    refine ⟨hdispatcher, fun q => ?_⟩
    rw [← hdispatcher]
    exact ⟨fun d' => State.ask_congr, State.ask_of_none, fun a => State.passesOn⟩

/-- A node that relays, with one adaptor, which breaks down at every call. -/
def brokenNode : State Relay.plainScheme Unit where
  identity := Relay.plainIdentity 1
  dispatcher := .ofAdaptors [Simulation.brokenAdaptor "Ethereum"]
  relay? := some ⟨1, 1, 1000⟩
  store := .empty
  storage := ()
  slots := .empty

/-- A lookup on a chain whose adaptor breaks down. -/
def brokenLookUp : Request := .get ⟨"Ethereum", "u1", ""⟩

/-- A chain that no adaptor knows is not served although it is named, twice at that, and a lookup
that breaks down is answered as such, however often lookups broke down before. -/
theorem broken_lookUp_is_answered :
    (((Relay.pairCustodian.dispatcher ["Bitcoin", "Ethereum", "Bitcoin"]).1.handle
      (.get ⟨"Bitcoin", "u1", ""⟩) (.empty, .ofSeed 0)).1 = .ok (.get .unsupported)) ∧
    ((brokenNode.afterAll [.request brokenLookUp, .request brokenLookUp]).ask brokenLookUp).2 =
      .result (.error (.dispatch (.brokeDown "GetSocialKey" "Ethereum" "no backend for u1"))) := by
  obtain ⟨hserved, hisolated⟩ := routed_and_isolated
  have hunknown : ¬ ("Bitcoin" ∈ ["Bitcoin", "Ethereum", "Bitcoin"] ∧
      ∃ k : Chain, k.name = "Bitcoin") := by
    rintro ⟨-, k, hk⟩
    cases k <;> revert hk <;> decide
  obtain ⟨-, hrouted⟩ :=
    hisolated _ _ brokenNode [.request brokenLookUp, .request brokenLookUp]
  refine ⟨((hserved _ _ _).2 hunknown _ _ rfl).1, ?_⟩
  exact (((hrouted brokenLookUp).2.2 _ rfl).breakdown (.words "no backend for u1") rfl).2.2

end KeyCustody.Node
