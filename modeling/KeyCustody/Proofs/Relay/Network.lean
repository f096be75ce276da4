import KeyCustody.Node.State
import Mathlib.Logic.Function.Basic
/-!
# Networks of nodes

Any number of nodes work at once. A node is at work on tasks: requests that it relays, and frames
that passed its gate. A task goes on in turns, each of which is one access to the slots, one choice
or one return; turns of all tasks of all nodes come in any order, and a call that waits for somebody
may be given up. Meanwhile the stores of peers change in any way, and a lookup sees whatever storage
its node may have by then, so that nothing is said about the other work of the adaptors.

A frame may arrive at any time, as coming from any peer. Which frames do is a parameter: a network
that loses, repeats, delays, reorders or alters frames is one of those in which all do. What matters
of the past is kept in a history.

## Main definitions

* `Network`, `World`: nodes with their keys and adaptors, and what changes about them.
* `Task`, `Event`: what a node is at work on, and what is remembered.
* `Turn`, `Step`, `Run`: a turn of a task, a step of the network, and a run.
* `Answers`, `Signed`: the answer to a request, and the envelopes that nodes signed.
* `Unforged`: frames of which every good signature was made by a node.

## Main results

* `serve_frame?_iff_answers`: the frame that a node sends about a request is that of its answer.
-/

namespace KeyCustody.Relay

open Crypto (SignatureScheme)
open Custody (Dispatcher DispatchError)
open Net (TransportError)
open Node (Log)
open Peer (PeerId PeerStore PublicKey Identity)
open Pending (Branch Table WaitError Waiter)
open Wire (Envelope GetRequest GetReply Payload StreamProtocol)

/-! ### Nodes and tasks -/

/-- The nodes of a network, as far as they stay the same. -/
structure Network (ι : Type) (S : SignatureScheme) (σ : Type) where
  identity : ι → Identity S
  dispatcher : ι → Dispatcher σ
  /-- How the nodes relay what their clients ask for, if they do. -/
  relay? : ι → Option Settings

/-- A request to relay. -/
structure Errand where
  request : GetRequest
  settings : Settings
  /-- The failure of the lookup in the node itself, if a client's request came to this. -/
  miss? : Option DispatchError

/-- What a node is at work on. -/
inductive Task where
  /-- A request that is about to be relayed. -/
  | ready (e : Errand)
  /-- A call under a message id. -/
  | calling (e : Errand) (id : String) (c : Call)
  /-- A call whose request was taken, before it waits. -/
  | relayed (e : Errand) (id : String)
  /-- A call whose wait is over, before its slot is removed. -/
  | leaving (e : Errand) (id : String) (w : Waiter) (result : Except WaitError (Option GetReply))
  /-- An envelope that passed the gate. -/
  | handling (protocol : StreamProtocol) (env : Envelope)
  /-- An answer that is about to be sent to a registration. -/
  | filling (registration : Nat) (answer : Option GetReply)

/-- What is remembered of a run. -/
inductive Event (ι σ : Type) where
  /-- A request was put into an envelope under a message id. -/
  | asked (i : ι) (e : Errand) (id : String) (timestamp : UInt64)
  /-- An envelope passed the gate, with what the store was then. -/
  | accepted (i : ι) (protocol : StreamProtocol) (store : PeerStore) (remote : PeerId)
      (env : Envelope)
  /-- A request was served from what the storage was then. -/
  | served (i : ι) (env : Envelope) (timestamp : UInt64) (seen : σ)
  /-- A call came to its end. -/
  | returned (i : ι) (e : Errand) (id : String) (outcome : Outcome RelayError GetReply)

/-- What was, the latest event first. -/
abbrev History (ι σ : Type) := List (Event ι σ)

/-- What changes about the nodes of a network. -/
structure World (ι : Type) where
  store : ι → PeerStore
  slots : ι → Slots
  tasks : List (ι × Task)

variable {ι : Type} {S : SignatureScheme} {σ : Type}

/-- The state of a node with a storage. -/
def World.state (w : World ι) (net : Network ι S σ) (i : ι) (storage : σ) : Node.State S σ where
  identity := net.identity i
  dispatcher := net.dispatcher i
  relay? := net.relay? i
  store := w.store i
  storage
  slots := w.slots i

/-! ### Signatures -/

/-- A node answers a request from a storage: the request can be read, the chain is served, and the
lookup is a success. -/
def Answers (net : Network ι S σ) (j : ι) (env : Envelope) (timestamp : UInt64) (seen : σ)
    (answer : Envelope) : Prop :=
  ∃ (request : GetRequest) (reply : GetReply), Payload.decode env.payload = .ok request ∧
    (net.dispatcher j).isSupported request.chain = true ∧
    ((net.dispatcher j).get request seen).1 = .ok reply ∧ reply.code = .success ∧
    answer = .build .keyResponse env.messageId (Payload.encode reply) timestamp (net.identity j)

theorem react_frame? {own : Identity S} {timestamp : UInt64} {id : String} {frame : Bytes}
    {looked : Except DispatchError GetReply × Log × σ} :
    (react own timestamp id looked).frame? = some frame ↔ ∃ reply, looked.1 = .ok reply ∧
      reply.code = .success ∧ answerFrame own timestamp id reply = .ok frame := by
  obtain ⟨result, log, storage⟩ := looked
  cases result with
  | error e => simp [react]
  | ok reply =>
    by_cases hcode : reply.code = .success
    · cases hanswer : answerFrame own timestamp id reply <;> simp [react, hcode, hanswer]
    · simp [react, hcode]

theorem serve_frame? {own : Identity S} {dispatcher : Dispatcher σ} {timestamp : UInt64}
    {env : Envelope} {storage : σ} {frame : Bytes} :
    (serve own dispatcher timestamp env storage).frame? = some frame ↔ ∃ request : GetRequest,
      Payload.decode env.payload = .ok request ∧ dispatcher.isSupported request.chain = true ∧
        (react own timestamp env.messageId (dispatcher.get request storage)).frame? =
          some frame := by
  cases hdecode : (Payload.decode env.payload : Except _ GetRequest) with
  | error e => simp [serve, hdecode]
  | ok request =>
    by_cases hserved : dispatcher.isSupported request.chain = true
    · simp [serve, hdecode, hserved]
    · simp [serve, hdecode, hserved]

/-- **A node of a network sends what it answers**: the frame of its reaction to a request is that of
its answer. -/
theorem serve_frame?_iff_answers {net : Network ι S σ} {j : ι} {env : Envelope}
    {timestamp : UInt64} {seen : σ} {frame : Bytes} :
    (serve (net.identity j) (net.dispatcher j) timestamp env seen).frame? = some frame ↔
      ∃ answer, Answers net j env timestamp seen answer ∧ answer.encode? = .ok frame := by
  constructor
  · intro h
    obtain ⟨request, hasks, hserved, hreact⟩ := serve_frame?.1 h
    obtain ⟨reply, hlooked, hcode, hanswer⟩ := react_frame?.1 hreact
    exact ⟨_, ⟨request, reply, hasks, hserved, hlooked, hcode, rfl⟩, hanswer⟩
  · rintro ⟨_, ⟨request, reply, hasks, hserved, hlooked, hcode, rfl⟩, hanswer⟩
    exact serve_frame?.2 ⟨request, hasks, hserved,
      react_frame?.2 ⟨reply, hlooked, hcode, hanswer⟩⟩

/-- A node signed an envelope: to ask for the keys of an identity, or to answer. -/
inductive Signed (net : Network ι S σ) (h : History ι σ) (j : ι) : Envelope → Prop
  | request {e : Errand} {id : String} {timestamp : UInt64} (he : .asked j e id timestamp ∈ h) :
      Signed net h j
        (.build .relayRequest id (Payload.encode e.request) timestamp (net.identity j))
  | answer {env answer : Envelope} {timestamp : UInt64} {seen : σ}
      (he : .served j env timestamp seen ∈ h) (ha : Answers net j env timestamp seen answer) :
      Signed net h j answer

/-- What a node sends about a request that it served is an envelope that it signed. -/
theorem exists_signed_of_serve {net : Network ι S σ} {h : History ι σ} {j : ι} {env : Envelope}
    {timestamp : UInt64} {seen : σ} {frame : Bytes} (he : .served j env timestamp seen ∈ h)
    (hframe : (serve (net.identity j) (net.dispatcher j) timestamp env seen).frame? = some frame) :
    ∃ answer, Signed net h j answer ∧ answer.encode? = .ok frame := by
  obtain ⟨answer, hanswers, hencode⟩ := serve_frame?_iff_answers.1 hframe
  exact ⟨answer, .answer he hanswers, hencode⟩

/-- Whatever is in a frame with a good signature under a key was signed by a holder of the key. -/
def Unforged (net : Network ι S σ) (h : History ι σ) (data : Bytes) : Prop :=
  ∀ (env : Envelope) (key : PublicKey), Envelope.decode data = .ok env →
    env.verify S key = true → ∃ j env', (net.identity j).publicKey = key ∧ Signed net h j env' ∧
      env'.signingBytes = env.signingBytes

/-! ### Steps -/

/-- The task of a call after an attempt to send its request. -/
def Task.ofProgress (e : Errand) (id : String) : Sending.Progress → Task
  | .taken => .relayed e id
  | .again s => .calling e id (.sending s)
  | .failed err => .calling e id (.done (.failure err))

/-- A turn of a task of node `i`: what becomes of the slots and of the task, and what is
remembered. -/
inductive Turn (net : Network ι S σ) (h : History ι σ) (i : ι) (store : PeerStore)
    (slots : Slots) : Task → Slots → Option Task → List (Event ι σ) → Prop
  | start {e : Errand} {id : String} (now : Nat) (timestamp : UInt64)
      (fresh : ∀ j e' t, .asked j e' id t ∉ h) {slots' : Slots} {c : Call}
      (hc : Call.start (net.identity i) store e.settings e.request id now timestamp slots =
        (slots', c)) :
      Turn net h i store slots (.ready e) slots' (some (.calling e id c))
        [.asked i e id timestamp]
  | sent {e : Errand} {id : String} {s : Sending} (outcome : Except TransportError Unit)
      {slots' : Slots} {p : Sending.Progress} {log : Log}
      (hp : s.onSent outcome slots = (slots', p, log)) :
      Turn net h i store slots (.calling e id (.sending s)) slots'
        (some (.ofProgress e id p)) []
  | await {e : Errand} {id : String} (now : Nat) {slots' : Slots} {c : Call}
      (hc : Call.await e.settings id now slots = (slots', c)) :
      Turn net h i store slots (.relayed e id) slots' (some (.calling e id c)) []
  | stay {e : Errand} {id : String} {w w' : Waiter} {b : Branch} (now : Nat)
      (ready : w.isReady slots now b = true) (hw : w.choose slots now b = .inl w') :
      Turn net h i store slots (.calling e id (.waiting w)) slots
        (some (.calling e id (.waiting w'))) []
  | choose {e : Errand} {id : String} {w : Waiter} {b : Branch} (now : Nat)
      (ready : w.isReady slots now b = true) {result : Except WaitError (Option GetReply)}
      (hr : w.choose slots now b = .inr result) :
      Turn net h i store slots (.calling e id (.waiting w)) slots
        (some (.leaving e id w result)) []
  | leave {e : Errand} {id : String} {w : Waiter} {result : Except WaitError (Option GetReply)} :
      Turn net h i store slots (.leaving e id w result) (w.leave slots)
        (some (.calling e id (.done (.ofExcept (Call.ofWait result).1)))) []
  | finish {e : Errand} {id : String} {outcome : Outcome RelayError GetReply} :
      Turn net h i store slots (.calling e id (.done outcome)) slots none
        [.returned i e id outcome]
  | cancel {e : Errand} {id : String} {c : Call} :
      Turn net h i store slots (.calling e id c) (c.cancel slots) none []
  | serve {env : Envelope} (timestamp : UInt64) (seen : σ) :
      Turn net h i store slots (.handling .request env) slots none
        [.served i env timestamp seen]
  | take {env : Envelope} {slots' : Slots} {r? : Option Nat}
      (ht : slots.takeSender env.messageId = (slots', r?)) :
      Turn net h i store slots (.handling .response env) slots'
        (r?.map fun r => .filling r (replyOf env.payload).1) []
  | fill {r : Nat} {answer : Option GetReply} :
      Turn net h i store slots (.filling r answer) (slots.send r answer).1 none []

variable [DecidableEq ι]

/-- A step of a network in which frames arrive if they may: what is remembered of it, and the world
after it. -/
inductive Step (net : Network ι S σ) (Arrives : History ι σ → Bytes → Prop) (h : History ι σ)
    (w : World ι) : List (Event ι σ) → World ι → Prop
  /-- A task has a turn. -/
  | turn {i : ι} {t : Task} {before after : List (ι × Task)} {slots : Slots} {next : Option Task}
      {es : List (Event ι σ)} (hw : w.tasks = before ++ (i, t) :: after)
      (ht : Turn net h i (w.store i) (w.slots i) t slots next es) :
      Step net Arrives h w es
        { w with
          slots := Function.update w.slots i slots
          tasks := before ++ next.toList.map (i, ·) ++ after }
  /-- A relay is asked for as such. -/
  | ask (i : ι) (request : GetRequest) (settings : Settings) :
      Step net Arrives h w [] { w with tasks := (i, .ready ⟨request, settings, none⟩) :: w.tasks }
  /-- A client's request finds nothing in the node itself, and the node relays. -/
  | lookUp {i : ι} {request : GetRequest} {seen : σ} {n : Node.State S σ} {settings : Settings}
      {miss : DispatchError} {log : Log}
      (hn : (w.state net i seen).lookUp request = (n, .relayed settings miss, log)) :
      Step net Arrives h w []
        { w with tasks := (i, .ready ⟨request, settings, some miss⟩) :: w.tasks }
  /-- A frame arrives and passes the gate. -/
  | arrive {i : ι} {protocol : StreamProtocol} {remote : PeerId} {data : Bytes} {env : Envelope}
      (ha : Arrives h data) (hi : inspect S (w.store i) protocol remote data = .ok env) :
      Step net Arrives h w [.accepted i protocol (w.store i) remote env]
        { w with tasks := (i, .handling protocol env) :: w.tasks }
  /-- A node learns of peers, or forgets them. -/
  | learn (i : ι) (store : PeerStore) :
      Step net Arrives h w [] { w with store := Function.update w.store i store }

/-- A run from nodes without slots and tasks: its history, and the world it leads to. -/
inductive Run (net : Network ι S σ) (Arrives : History ι σ → Bytes → Prop) :
    History ι σ → World ι → Prop
  | begin (store : ι → PeerStore) : Run net Arrives [] ⟨store, fun _ => .empty, []⟩
  | step {h : History ι σ} {w w' : World ι} {es : List (Event ι σ)} (hrun : Run net Arrives h w)
      (hstep : Step net Arrives h w es w') : Run net Arrives (es ++ h) w'

end KeyCustody.Relay
