import KeyCustody.Custody.Dispatcher
import KeyCustody.Custody.Keeper
/-!
# Chains

The chains that a node can serve, each with its adaptor, and the dispatcher for the chains of a
configuration. A chain that no adaptor serves is reported and left out.

## Main definitions

* `Chain`: the chains and their names.
* `Custodian`: what the adaptors of a node have in common.
* `Chain.adaptor`, `Custodian.dispatcher`: adaptors, and the dispatcher of a list of names.
-/

namespace KeyCustody.Custody

open Crypto (SymmetricKey Entropy)
open Node (Log)

/-- The chains that a node can serve. -/
inductive Chain where
  | ethereum
  | moonbeam
  | ipfs
  | filecoin
  deriving DecidableEq, Repr

namespace Chain

/-- All chains. -/
def all : List Chain := [.ethereum, .moonbeam, .ipfs, .filecoin]

/-- The name of a chain. -/
def name : Chain → String
  | .ethereum => "Ethereum"
  | .moonbeam => "Moonbeam"
  | .ipfs => "Ipfs"
  | .filecoin => "Filecoin"

/-- The chain with a name. -/
def ofName? (s : String) : Option Chain :=
  all.find? fun c => c.name == s

theorem ofName?_name (c : Chain) : ofName? c.name = some c := by
  cases c <;> decide

end Chain

/-- What the adaptors of a node have in common. -/
structure Custodian where
  /-- The key under which private keys are kept. -/
  aes : SymmetricKey
  /-- The bits of fresh key pairs. -/
  rsaBits : Nat
  /-- The contract of the ledgers, if there is one. -/
  contract? : Option String

namespace Custodian

/-- The keeper of a chain. -/
def keeper (c : Custodian) (chain : String) (shelf : Shelf) : Keeper :=
  ⟨chain, shelf, c.aes, c.rsaBits⟩

/-- The keeper of a ledger, and its log. -/
def ledgerKeeper (c : Custodian) (chain : String) : Keeper × Log :=
  (c.keeper chain .ledger, Node.info
    (if c.contract?.isSome then "Contract adaptor ready"
      else "Contract adaptor ready (in-memory ledger)"))

/-- The keeper of a content store, and its log. -/
def contentKeeper (c : Custodian) (chain : String) : Keeper × Log :=
  (c.keeper chain .content, Node.info "Content store adaptor ready")

/-- The adaptor of a chain, and the log of setting it up. -/
def adaptor (c : Custodian) (chain : Chain) : Adaptor (Storage × Entropy) × Log :=
  match chain with
  | .ethereum | .moonbeam =>
    let (k, log) := c.ledgerKeeper chain.name
    (k.toAdaptor, log)
  | .ipfs =>
    let (k, log) := c.contentKeeper chain.name
    (k.toAdaptor, log)
  | .filecoin => (.idle chain.name, [])

/-- The adaptors of the chains among the names, and the log of setting them up. -/
def adaptors (c : Custodian) : List String → List (Adaptor (Storage × Entropy)) × Log
  | [] => ([], [])
  | name :: names =>
    let (rest, restLog) := c.adaptors names
    match Chain.ofName? name with
    | some chain =>
      let (a, log) := c.adaptor chain
      (a :: rest, log ++ restLog)
    | none => (rest, Node.error "Unsupported chain" ++ restLog)

/-- The dispatcher of the chains among the names. -/
def dispatcher (c : Custodian) (names : List String) : Dispatcher (Storage × Entropy) × Log :=
  let (adaptors, log) := c.adaptors names
  (.ofAdaptors adaptors, log ++ Node.info "Dispatcher ready")

end Custodian

end KeyCustody.Custody
