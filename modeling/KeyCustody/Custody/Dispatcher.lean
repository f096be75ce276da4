import KeyCustody.Assoc
import KeyCustody.Custody.Adaptor
import KeyCustody.Node.Log
/-!
# Dispatching

A request is routed by the name of its chain to the adaptor that serves it; on other chains it is
answered that the chain is not served. Failures of adaptors pass through unchanged, and a breakdown
becomes a failure of its own, so that no request can bring the node down.

## Main definitions

* `Dispatcher`: the adaptors by chain.
* `Dispatcher.isSupported`, `Dispatcher.chains`: views.
* `Dispatcher.support`, `Dispatcher.get`, `Dispatcher.set`: requests.
-/

namespace KeyCustody.Custody

open Node (Log)
open Wire (SupportRequest SupportReply GetRequest GetReply SetRequest SetReply)

/-- The adaptors of a node by chain. -/
structure Dispatcher (σ : Type) where
  registry : Assoc String (Adaptor σ)

namespace Dispatcher

variable {σ : Type}

/-- The dispatcher of adaptors; of several for one chain the last one serves it. -/
def ofAdaptors (adaptors : List (Adaptor σ)) : Dispatcher σ :=
  ⟨adaptors.foldl (fun m a => Assoc.put m a.chain a) []⟩

/-- Whether a chain is served. -/
def isSupported (d : Dispatcher σ) (chain : String) : Bool :=
  Assoc.contains d.registry chain

/-- The chains that are served. -/
def chains (d : Dispatcher σ) : List String :=
  Assoc.keys d.registry

/-- The result of a call with its log: a breakdown is reported, and becomes a failure that names the
method, the chain and the words. -/
def intercept {α : Type} (method chain : String) (outcome : Outcome AdaptorError α) :
    Except DispatchError α × Log :=
  match outcome with
  | .value a => (.ok a, Node.info "Dispatching")
  | .failure e => (.error (.adaptor e), Node.info "Dispatching")
  | .breakdown b =>
    (.error (.brokeDown method chain b.message),
      Node.info "Dispatching" ++ Node.error "Adaptor panicked")

/-- The answer whether a chain is served. -/
def support (d : Dispatcher σ) (req : SupportRequest) : Except DispatchError SupportReply × Log :=
  intercept "GetSupportChain" req.chain
    (match Assoc.get? d.registry req.chain with
      | some a => a.support req
      | none => .value .unsupported)

/-- The keys of an identity. -/
def get (d : Dispatcher σ) (req : GetRequest) (s : σ) : Except DispatchError GetReply × Log × σ :=
  let (outcome, s) := match Assoc.get? d.registry req.chain with
    | some a => a.get req s
    | none => (.value .unsupported, s)
  let (result, log) := intercept "GetSocialKey" req.chain outcome
  (result, log, s)

/-- One more key of an identity. -/
def set (d : Dispatcher σ) (req : SetRequest) (s : σ) : Except DispatchError SetReply × Log × σ :=
  let (outcome, s) := match Assoc.get? d.registry req.chain with
    | some a => a.set req s
    | none => (.value .unsupported, s)
  let (result, log) := intercept "SetSocialKey" req.chain outcome
  (result, log, s)

end Dispatcher

end KeyCustody.Custody
