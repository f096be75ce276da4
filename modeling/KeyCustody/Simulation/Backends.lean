import KeyCustody.Custody.Chain
/-!
# Adaptors for simulations

The adaptors of a simulated node, given one by one: the usual ones, the same ones on storage out of
reach, and adaptors that misbehave.

## Main definitions

* `Backend`, `Backend.ofName?`: a kind of adaptor with its chain, by its name.
* `Backend.build`, `buildAll`: the adaptors, and the storage that they need.
* `equip`: the adaptors of a node with their storage.
-/

namespace KeyCustody.Simulation

open Crypto (Entropy)
open Custody (Adaptor Chain Custodian ContentStore Dispatcher Ledger Storage)
open Node (Log)

/-- A kind of adaptor with its chain, if it can serve several. -/
inductive Backend where
  | contract (chain : String) (isOffline : Bool)
  | content (isOffline : Bool)
  | idle
  /-- It breaks down at every call. -/
  | panicking (chain : String)
  /-- It says no to every request. -/
  | refusing (chain : String)
  deriving DecidableEq, Repr

/-- The kind of adaptor with a name, for a chain. -/
def Backend.ofName? (name chain : String) : Option Backend :=
  match name with
  | "contract" => some (.contract chain false)
  | "offline_contract" => some (.contract chain true)
  | "content" => some (.content false)
  | "offline_content" => some (.content true)
  | "stub" => some .idle
  | "panicking" => some (.panicking chain)
  | "refusing" => some (.refusing chain)
  | _ => none

/-- The adaptor that breaks down at every call. -/
def brokenAdaptor {σ : Type} (chain : String) : Adaptor σ where
  chain
  support _ := .breakdown (.words "support table corrupted")
  get r s := (.breakdown (.words ("no backend for " ++ r.uuid)), s)
  set _ s := (.breakdown .wordless, s)

/-- The adaptor that says no to every request. -/
def refusingAdaptor {σ : Type} (chain : String) : Adaptor σ where
  chain
  support r := .value ⟨.error, "refused " ++ r.chain, false⟩
  get r s := (.value ⟨.error, "refused " ++ r.uuid, []⟩, s)
  set r s := (.value ⟨.error, "refused " ++ r.uuid, "", "", ""⟩, s)

/-- The words with which something out of reach fails. -/
def offlineWords (isOffline : Bool) (what : String) : Option String :=
  if isOffline then some (what ++ " offline") else none

/-- An adaptor, the storage with what it needs, and the log of setting it up. -/
def Backend.build (c : Custodian) (s : Storage) :
    Backend → Adaptor (Storage × Entropy) × Storage × Log
  | .contract chain isOffline =>
    let (k, log) := c.ledgerKeeper chain
    let ledger : Ledger := ⟨[], offlineWords isOffline "ledger"⟩
    (k.toAdaptor, { s with ledgers := Assoc.put s.ledgers chain ledger }, log)
  | .content isOffline =>
    let (k, log) := c.contentKeeper Chain.ipfs.name
    let store : ContentStore := ⟨[], offlineWords isOffline "store"⟩
    (k.toAdaptor, { s with stores := Assoc.put s.stores k.chain store }, log)
  | .idle => (.idle Chain.filecoin.name, s, [])
  | .panicking chain => (brokenAdaptor chain, s, [])
  | .refusing chain => (refusingAdaptor chain, s, [])

/-- The adaptors of a node in their order, its storage, and the log of setting them up. -/
def buildAll (c : Custodian) (backends : List Backend) :
    List (Adaptor (Storage × Entropy)) × Storage × Log :=
  backends.foldl
    (fun (adaptors, s, log) b =>
      let (a, s, more) := b.build c s
      (adaptors ++ [a], s, log ++ more))
    ([], .empty, [])

/-- What a node works with: the adaptors that are given one by one, or else those of the chains
among the names. -/
def equip (c : Custodian) (backends? : Option (List Backend)) (chains : List String) :
    Dispatcher (Storage × Entropy) × Storage × Log :=
  match backends? with
  | some backends =>
    let (adaptors, storage, log) := buildAll c backends
    (.ofAdaptors adaptors, storage, log)
  | none =>
    let (d, log) := c.dispatcher chains
    (d, .empty, log)

end KeyCustody.Simulation
