import KeyCustody.Custody.Chain
import KeyCustody.Proofs.Custody.Keeper
import Mathlib.Tactic.TFAE
/-!
# Which adaptor a request reaches

A dispatcher of a list of names has the adaptors of the chains that are named in it, in whatever
order and however often, and of nothing else. Its adaptors never say that a chain is not served, so
that a chain is named exactly if it counts as supported, if its support is reported, and if no reply
about it says otherwise. On every other chain the reply is that it is not served, and no adaptor is
asked.

The three methods of a dispatcher differ in their requests and replies alone. A request goes to the
adaptor of its chain, if there is one; what this says is passed on, and if it breaks down, this is a
failure that is not that nothing is stored.

## Main definitions

* `Request`, `Reply`: requests and replies of any method.
* `Adaptor.call`, `Dispatcher.called`, `Dispatcher.handle`: the call of an adaptor, the one that a
  request comes to, and what its caller gets.
* `Adaptor.Serves`: an adaptor never says that its chain is not served.

## Main results

* `Custodian.get?_dispatcher`: the adaptors of a dispatcher.
* `Keeper.serves_toAdaptor`, `Custodian.serves_adaptor`: the adaptors serve their chains.
* `Dispatcher.handle_eq`: what the caller of a request gets.
* `Custodian.served_tfae`, `Custodian.handle_of_not_named`: which chains are served, and what comes
  of requests on others.
-/

namespace KeyCustody.Custody

open Keeper (SetStage GetStage SetMove)
open Node (Log)
open Wire (SupportRequest SupportReply GetRequest GetReply SetRequest SetReply ReturnCode)

/-! ### Requests of any method -/

/-- A request of any method. -/
inductive Request where
  | support (r : SupportRequest)
  | get (r : GetRequest)
  | set (r : SetRequest)

/-- The reply to a request. -/
inductive Reply where
  | support (r : SupportReply)
  | get (r : GetReply)
  | set (r : SetReply)

namespace Request

/-- The chain that a request is about. -/
def chain : Request → String
  | .support r => r.chain
  | .get r => r.chain
  | .set r => r.chain

/-- The name of the method. -/
def method : Request → String
  | .support _ => "GetSupportChain"
  | .get _ => "GetSocialKey"
  | .set _ => "SetSocialKey"

/-- The reply that the chain is not served. -/
def unsupported : Request → Reply
  | .support _ => .support .unsupported
  | .get _ => .get .unsupported
  | .set _ => .set .unsupported

end Request

/-- The return code of a reply. -/
def Reply.code : Reply → ReturnCode
  | .support r => r.code
  | .get r => r.code
  | .set r => r.code

theorem Request.code_unsupported (q : Request) : q.unsupported.code = .unsupported := by
  cases q <;> rfl

section

variable {σ : Type}

/-- The call of an adaptor for a request. -/
def Adaptor.call (a : Adaptor σ) : Request → σ → Outcome AdaptorError Reply × σ
  | .support r, s => ((a.support r).bind fun reply => .value (.support reply), s)
  | .get r, s => ((a.get r s).1.bind fun reply => .value (.get reply), (a.get r s).2)
  | .set r, s => ((a.set r s).1.bind fun reply => .value (.set reply), (a.set r s).2)

namespace Dispatcher

/-- What a request comes to: the call of the adaptor of its chain, if there is one. -/
def called (d : Dispatcher σ) (q : Request) (s : σ) : Outcome AdaptorError Reply × σ :=
  match Assoc.get? d.registry q.chain with
  | some a => a.call q s
  | none => (.value q.unsupported, s)

/-- What the caller of a request gets, by the method of the request. -/
def handle (d : Dispatcher σ) : Request → σ → Except DispatchError Reply × Log × σ
  | .support r, s => ((d.support r).1.map .support, (d.support r).2, s)
  | .get r, s => ((d.get r s).1.map .get, (d.get r s).2)
  | .set r, s => ((d.set r s).1.map .set, (d.set r s).2)

variable {d d' : Dispatcher σ} {q : Request} {s : σ} {a : Adaptor σ}

theorem intercept_bind {α β : Type} (method chain : String) (x : Outcome AdaptorError α)
    (f : α → β) : intercept method chain (x.bind fun a => .value (f a)) =
      ((intercept method chain x).1.map f, (intercept method chain x).2) := by
  cases x <;> rfl

/-- **What the caller of a request gets** is what the call came to, with a breakdown as a
failure. -/
theorem handle_eq (d : Dispatcher σ) (q : Request) (s : σ) : d.handle q s =
    ((intercept q.method q.chain (d.called q s).1).1,
      (intercept q.method q.chain (d.called q s).1).2, (d.called q s).2) := by
  cases q with
  | support r =>
    rw [handle, support, called, Request.chain]
    cases Assoc.get? d.registry r.chain with
    | none => rfl
    | some a => simp only [Adaptor.call, intercept_bind, Request.method]
  | get r =>
    rw [handle, get, called, Request.chain]
    cases Assoc.get? d.registry r.chain with
    | none => rfl
    | some a => simp only [Adaptor.call, intercept_bind, Request.method]
  | set r =>
    rw [handle, set, called, Request.chain]
    cases Assoc.get? d.registry r.chain with
    | none => rfl
    | some a => simp only [Adaptor.call, intercept_bind, Request.method]

/-- What comes of a request depends on the adaptor of its own chain alone. -/
theorem handle_congr (h : Assoc.get? d'.registry q.chain = Assoc.get? d.registry q.chain) :
    d'.handle q s = d.handle q s := by
  rw [handle_eq, handle_eq, called, called, h]

theorem called_of_some (h : Assoc.get? d.registry q.chain = some a) :
    d.called q s = a.call q s := by
  rw [called, h]

/-- **What an adaptor says reaches the caller**: a reply and a failure as they are, and a breakdown
as the failure that names the method, the chain and the words. -/
theorem handle_of_some (h : Assoc.get? d.registry q.chain = some a) :
    (d.handle q s).2.2 = (a.call q s).2 ∧
    (∀ reply, (a.call q s).1 = .value reply → (d.handle q s).1 = .ok reply) ∧
    (∀ e, (a.call q s).1 = .failure e → (d.handle q s).1 = .error (.adaptor e)) ∧
    ∀ b, (a.call q s).1 = .breakdown b →
      (d.handle q s).1 = .error (.brokeDown q.method q.chain b.message) := by
  rw [handle_eq, called_of_some h]
  refine ⟨rfl, fun reply ho => ?_, fun e ho => ?_, fun b ho => ?_⟩ <;> rw [ho] <;> rfl

/-- On a chain without an adaptor the reply is that it is not served. -/
theorem handle_of_none (h : Assoc.get? d.registry q.chain = none) :
    (d.handle q s).1 = .ok q.unsupported ∧ (d.handle q s).2.2 = s := by
  have hcalled : d.called q s = (.value q.unsupported, s) := by
    rw [called, h]
  rw [handle_eq, hcalled]
  exact ⟨rfl, rfl⟩

theorem isSupported_iff {chain : String} :
    d.isSupported chain = true ↔ ∃ a, Assoc.get? d.registry chain = some a :=
  Option.isSome_iff_exists

theorem get?_eq_none {chain : String} (h : d.isSupported chain = false) :
    Assoc.get? d.registry chain = none :=
  Option.isNone_iff_eq_none.1 (Option.isSome_eq_false_iff.1 h)

end Dispatcher

end

/-! ### Adaptors that serve their chains -/

/-- An adaptor says that its chain is served, and its replies are successes. -/
structure Adaptor.Serves {σ : Type} (a : Adaptor σ) : Prop where
  support (r : SupportRequest) : a.support r = .value supported
  get (r : GetRequest) (s : σ) (reply : GetReply) :
    (a.get r s).1 = .value reply → reply.code = .success
  set (r : SetRequest) (s : σ) (reply : SetReply) :
    (a.set r s).1 = .value reply → reply.code = .success

theorem Adaptor.Serves.call {σ : Type} {a : Adaptor σ} (h : a.Serves) {q : Request} {s : σ}
    {reply : Reply} (hreply : (a.call q s).1 = .value reply) : reply.code = .success := by
  cases q with
  | support r =>
    rw [Adaptor.call, h.support] at hreply
    obtain rfl := Outcome.value.inj hreply
    rfl
  | get r =>
    obtain ⟨get, hget, hvalue⟩ := Outcome.bind_eq_value.1 hreply
    obtain rfl := Outcome.value.inj hvalue
    exact h.get r s get hget
  | set r =>
    obtain ⟨set, hset, hvalue⟩ := Outcome.bind_eq_value.1 hreply
    obtain rfl := Outcome.value.inj hvalue
    exact h.set r s set hset

theorem Adaptor.serves_idle {σ : Type} (chain : String) : (idle chain : Adaptor σ).Serves where
  support _ := rfl
  get _ _ reply h := by
    obtain rfl := Outcome.value.inj h
    rfl
  set _ _ reply h := by
    obtain rfl := Outcome.value.inj h
    rfl

namespace Keeper

variable {k : Keeper} {s s' : Storage} {r : Crypto.Entropy}

/-- If a call that stores a key has a reply, it is a success. -/
def SetStage.Succeeds : SetStage → Prop
  | .done (.value reply) => reply.code = .success
  | _ => True

/-- If a call that looks keys up has a reply, it is a success. -/
def GetStage.Succeeds : GetStage → Prop
  | .done (.value reply) => reply.code = .success
  | _ => True

theorem SetMove.succeeds {req : SetRequest} {stage stage' : SetStage}
    (h : SetMove k req s r stage stage' s') (hstage : stage.Succeeds) : stage'.Succeeds := by
  cases h with
  | @stop stage outcome hearly hvalue =>
    cases outcome with
    | value reply => exact absurd rfl (hvalue reply)
    | _ => trivial
  | noted => rfl
  | idle => exact hstage
  | _ => trivial

theorem succeeds_getStep {req : GetRequest} {stage : GetStage} (hstage : stage.Succeeds) :
    (k.getStep req stage s).Succeeds := by
  cases stage with
  | find =>
    simp only [getStep]
    split_ifs
    · trivial
    · split <;> trivial
  | unlock cs =>
    simp only [getStep]
    split
    · trivial
    · rename_i pair hpair
      cases pair.codec req.uuid k.aes with
      | value codec =>
        rw [Outcome.value_bind]
        cases decryptAll req.uuid codec cs with
        | value plain => rfl
        | _ => trivial
      | _ => trivial
  | done outcome => exact hstage

theorem succeeds_runSet {req : SetRequest} {reply : SetReply} (fuel : Nat) {stage : SetStage}
    (hstage : stage.Succeeds) (h : (k.runSet req fuel stage s r).1 = .value reply) :
    reply.code = .success := by
  induction fuel generalizing stage s r with
  | zero =>
    cases stage with
    | done outcome =>
      rw [runSet_done] at h
      rw [show outcome = .value reply from h] at hstage
      exact hstage
    | _ => cases h
  | succ fuel ih =>
    rw [runSet_succ] at h
    exact ih ((setMove_of_setStep rfl).succeeds hstage) h

theorem succeeds_runGet {req : GetRequest} {reply : GetReply} (fuel : Nat) {stage : GetStage}
    (hstage : stage.Succeeds) (h : k.runGet req fuel stage s = .value reply) :
    reply.code = .success := by
  induction fuel generalizing stage with
  | zero =>
    cases stage with
    | done outcome =>
      rw [runGet_done] at h
      rw [h] at hstage
      exact hstage
    | _ => cases h
  | succ fuel ih =>
    rw [runGet_succ] at h
    exact ih (succeeds_getStep hstage) h

/-- **A keeper serves its chain**: whatever it replies is a success. -/
theorem serves_toAdaptor (k : Keeper) : k.toAdaptor.Serves where
  support _ := rfl
  get _ _ _ h := succeeds_runGet mostSteps (show GetStage.Succeeds .find from trivial) h
  set _ _ _ h := succeeds_runSet mostSteps (show SetStage.Succeeds .lookUp from trivial) h

end Keeper

/-! ### The dispatcher of a list of names -/

namespace Chain

theorem ofName?_eq_some {name : String} {chain : Chain} :
    ofName? name = some chain ↔ chain.name = name := by
  constructor
  · intro h
    simpa using List.find?_some h
  · rintro rfl
    exact ofName?_name chain

theorem ofName?_isSome_iff {name : String} :
    (ofName? name).isSome ↔ ∃ chain : Chain, chain.name = name := by
  simp only [Option.isSome_iff_exists, ofName?_eq_some]

end Chain

namespace Custodian

variable (c : Custodian)

theorem chain_adaptor (chain : Chain) : (c.adaptor chain).1.chain = chain.name := by
  cases chain <;> rfl

/-- **The adaptors serve their chains.** -/
theorem serves_adaptor (chain : Chain) : (c.adaptor chain).1.Serves := by
  cases chain with
  | ethereum => exact Keeper.serves_toAdaptor _
  | moonbeam => exact Keeper.serves_toAdaptor _
  | ipfs => exact Keeper.serves_toAdaptor _
  | filecoin => exact Adaptor.serves_idle _

theorem get?_foldl_adaptors (names : List String)
    (m : Assoc String (Adaptor (Storage × Crypto.Entropy))) (chain : String) :
    Assoc.get? ((c.adaptors names).1.foldl (fun m a => Assoc.put m a.chain a) m) chain =
      ((if chain ∈ names then Chain.ofName? chain else none).map fun k => (c.adaptor k).1).or
        (Assoc.get? m chain) := by
  -- A name that comes again puts the same adaptor in its place, so any map to start from will do.
  induction names generalizing m with
  | nil => simp [adaptors]
  | cons name names ih =>
    rw [adaptors]
    cases hname : Chain.ofName? name with
    | none =>
      simp only [ih, List.mem_cons]
      by_cases hchain : chain = name
      · subst hchain
        simp [hname]
      · simp [hchain]
    | some k =>
      obtain rfl := Chain.ofName?_eq_some.1 hname
      simp only [List.foldl_cons, ih, List.mem_cons, Assoc.get?_put, chain_adaptor]
      by_cases hchain : chain = k.name
      · subst hchain
        simp only [true_or, if_true, Chain.ofName?_name, Option.map_some, Option.some_or]
        split_ifs <;> rfl
      · simp [hchain]

/-- **The adaptors of a dispatcher** are those of the chains among the names. -/
theorem get?_dispatcher (names : List String) (chain : String) :
    Assoc.get? (c.dispatcher names).1.registry chain =
      (if chain ∈ names then Chain.ofName? chain else none).map fun k => (c.adaptor k).1 := by
  have hget := c.get?_foldl_adaptors names [] chain
  rwa [Assoc.get?, Option.or_none] at hget

theorem isSupported_dispatcher_iff (names : List String) (chain : String) :
    (c.dispatcher names).1.isSupported chain = true ↔
      chain ∈ names ∧ ∃ k : Chain, k.name = chain := by
  rw [Dispatcher.isSupported, Assoc.contains, get?_dispatcher, Option.isSome_map,
    ← Chain.ofName?_isSome_iff]
  split_ifs with h <;> simp [h]

/-- The adaptor of a supported chain serves it. -/
theorem exists_serves {names : List String} {chain : String}
    (h : (c.dispatcher names).1.isSupported chain = true) :
    ∃ a, Assoc.get? (c.dispatcher names).1.registry chain = some a ∧ a.Serves := by
  obtain ⟨a, ha⟩ := Dispatcher.isSupported_iff.1 h
  rw [get?_dispatcher] at ha
  obtain ⟨k, -, rfl⟩ := Option.map_eq_some_iff.1 ha
  exact ⟨_, by rw [get?_dispatcher, ha], c.serves_adaptor k⟩

/-- **On every other chain** the reply is that it is not served, whatever adaptors there are. -/
theorem handle_of_not_named {names : List String} {q : Request}
    (hnot : ¬ (q.chain ∈ names ∧ ∃ k : Chain, k.name = q.chain)) (s : Storage × Crypto.Entropy) :
    ((c.dispatcher names).1.handle q s).1 = .ok q.unsupported ∧
    ((c.dispatcher names).1.handle q s).2.2 = s ∧
    ∀ d' : Dispatcher (Storage × Crypto.Entropy), d'.isSupported q.chain = false →
      d'.handle q s = (c.dispatcher names).1.handle q s := by
  rw [← c.isSupported_dispatcher_iff, Bool.not_eq_true] at hnot
  have hnone := Dispatcher.get?_eq_none hnot
  obtain ⟨hreply, hstorage⟩ := Dispatcher.handle_of_none (s := s) hnone
  refine ⟨hreply, hstorage, fun d' hd' => Dispatcher.handle_congr ?_⟩
  rw [hnone, Dispatcher.get?_eq_none hd']

/-- Every reply about a supported chain is a success. -/
theorem code_of_isSupported {names : List String} {q : Request} {s : Storage × Crypto.Entropy}
    {reply : Reply} (h : (c.dispatcher names).1.isSupported q.chain = true)
    (hreply : ((c.dispatcher names).1.handle q s).1 = .ok reply) : reply.code = .success := by
  obtain ⟨a, ha, hserves⟩ := c.exists_serves h
  obtain ⟨-, hvalue, hfailure, hbreakdown⟩ := Dispatcher.handle_of_some (s := s) ha
  cases houtcome : (a.call q s).1 with
  | value reply' =>
    rw [hvalue _ houtcome] at hreply
    exact Except.ok.inj hreply ▸ hserves.call houtcome
  | failure e => rw [hfailure e houtcome] at hreply; cases hreply
  | breakdown b => rw [hbreakdown b houtcome] at hreply; cases hreply

/-- **Which chains are served**: those that are named and that there is an adaptor for count as
supported, their support is reported, and no reply about them is that they are not served. -/
theorem served_tfae (names : List String) (chain : String) :
    let d := (c.dispatcher names).1
    [chain ∈ names ∧ ∃ k : Chain, k.name = chain,
      d.isSupported chain = true,
      ∃ reply, (d.support ⟨chain⟩).1 = .ok reply ∧ reply.support = true,
      ∀ r s reply, r.chain = chain → (d.get r s).1 = .ok reply → reply.code ≠ .unsupported,
      ∀ r s reply, r.chain = chain → (d.set r s).1 = .ok reply →
        reply.code ≠ .unsupported].TFAE := by
  intro d
  have hnone (hnot : ¬ d.isSupported chain = true) : Assoc.get? d.registry chain = none :=
    Dispatcher.get?_eq_none (Bool.eq_false_iff.2 hnot)
  tfae_have 1 ↔ 2 := (c.isSupported_dispatcher_iff names chain).symm
  tfae_have 2 → 3 := by
    intro h
    obtain ⟨a, ha, hserves⟩ := c.exists_serves h
    refine ⟨supported, ?_, rfl⟩
    simp only [Dispatcher.support, d, ha, hserves.support, Dispatcher.intercept]
  tfae_have 3 → 2 := by
    rintro ⟨reply, hreply, hsupport⟩
    by_contra hnot
    simp only [Dispatcher.support, hnone hnot, Dispatcher.intercept] at hreply
    obtain rfl := Except.ok.inj hreply
    cases hsupport
  tfae_have 2 → 4 := by
    rintro h r s reply rfl hreply hcode
    have hhandle : (d.handle (.get r) s).1 = .ok (.get reply) := by
      rw [Dispatcher.handle, hreply]
      rfl
    have hsuccess := c.code_of_isSupported (q := .get r) h hhandle
    rw [Reply.code, hcode] at hsuccess
    cases hsuccess
  tfae_have 4 → 2 := by
    intro h
    by_contra hnot
    refine h ⟨chain, "", ""⟩ (.empty, .ofSeed 0) .unsupported rfl ?_ rfl
    simp only [Dispatcher.get, hnone hnot, Dispatcher.intercept]
  tfae_have 2 → 5 := by
    rintro h r s reply rfl hreply hcode
    have hhandle : (d.handle (.set r) s).1 = .ok (.set reply) := by
      rw [Dispatcher.handle, hreply]
      rfl
    have hsuccess := c.code_of_isSupported (q := .set r) h hhandle
    rw [Reply.code, hcode] at hsuccess
    cases hsuccess
  tfae_have 5 → 2 := by
    intro h
    by_contra hnot
    refine h ⟨chain, "", "", "", ""⟩ (.empty, .ofSeed 0) .unsupported rfl ?_ rfl
    simp only [Dispatcher.set, hnone hnot, Dispatcher.intercept]
  tfae_finish

end Custodian

end KeyCustody.Custody
