import KeyCustody.Custody.Chain
import KeyCustody.Proofs.Custody.Keeper
/-!
# Calls side by side

Any number of calls that store keys and look keys up are under way on the keepers of a node, on any
chains and on shelves of either kind, which share the vault. The steps of all calls come in any
order, each with randomness of its own; each of them looks at the storage or changes it once. A call
that is over stays in the list of calls.

What was put on a shelf is remembered in the order in which it was put there, and so are the keys
that were generated. A call that looks keys up remembers what was on the shelves when it looked.

## Main definitions

* `Deposit`, `ledgerKeys`: what was put on a shelf, and the keys of an identity among it.
* `Call`, `World`: the calls, and everything that they change.
* `Step`, `Run`: a step of a call, and steps from an empty storage on.

## Main results

* `Run.exists_toAdaptor_set`, `Run.exists_toAdaptor_get`: a call that is not interrupted is a run of
  its steps.
-/

namespace KeyCustody.Custody

open Crypto (Entropy)
open Crypto.Rsa (PrivateKey)
open Keeper (SetStage GetStage)
open Wire (GetRequest GetReply SetRequest SetReply)

/-- A key that was put on a shelf. -/
structure Deposit where
  chain : String
  shelf : Shelf
  uuid : String
  key : String
  deriving DecidableEq, Repr

/-- The keys of an identity that were put on the ledger of a chain, the first one first. -/
def ledgerKeys (deposits : List Deposit) (chain uuid : String) : List String :=
  (deposits.filter fun d => d.shelf = .ledger ∧ d.chain = chain ∧ d.uuid = uuid).map Deposit.key

/-- A call on the keeper of a chain. -/
inductive Call where
  | setting (chain : String) (shelf : Shelf) (req : SetRequest) (stage : SetStage)
  /-- A call that is about to look what is on its shelf. -/
  | finding (chain : String) (shelf : Shelf) (req : GetRequest)
  /-- A call that looked, with all that was on the shelves then. -/
  | getting (chain : String) (shelf : Shelf) (req : GetRequest) (seen : List Deposit)
      (stage : GetStage)

/-- The identity that a call is about. -/
def Call.uuid : Call → String
  | .setting _ _ req _ => req.uuid
  | .finding _ _ req => req.uuid
  | .getting _ _ req _ _ => req.uuid

/-- What a call put on its shelf, if it came so far. -/
def Call.deposit? : Call → Option Deposit
  | .setting chain shelf req (.note _ _) => some ⟨chain, shelf, req.uuid, req.key⟩
  | .setting chain shelf req (.done (.value _)) => some ⟨chain, shelf, req.uuid, req.key⟩
  | _ => none

/-- Everything that calls change, and what is remembered. -/
structure World where
  storage : Storage
  calls : List Call
  /-- What was put on the shelves, the first deposit first. -/
  deposits : List Deposit
  /-- The keys that were generated. -/
  made : List PrivateKey

/-- Nothing is stored, and there are no calls. -/
def World.empty : World := ⟨.empty, [], [], []⟩

/-- What the step from a stage to a stage puts on the shelf. -/
def deposited (chain : String) (shelf : Shelf) (req : SetRequest) : SetStage → SetStage →
    Option Deposit
  | .shelve _ _, .note _ _ => some ⟨chain, shelf, req.uuid, req.key⟩
  | _, _ => none

/-- The key that the step at a stage generates from randomness. -/
def generated (bits : Nat) (r : Entropy) : SetStage → Option PrivateKey
  | .generate => (Crypto.Rsa.generate bits r).1.toOption
  | _ => none

/-- A key is generated at one stage only. -/
theorem generated_eq_some {bits : Nat} {r : Entropy} {stage : SetStage} {key : PrivateKey} :
    generated bits r stage = some key ↔
      stage = .generate ∧ ∃ r', Crypto.Rsa.generate bits r = (.ok key, r') := by
  cases stage with
  | generate =>
    rcases hgenerate : Crypto.Rsa.generate bits r with ⟨_ | key', r'⟩ <;>
      simp [generated, hgenerate, Except.toOption]
  | _ => simp [generated]

/-- A step of a call, or a new call. -/
inductive Step (c : Custodian) (w : World) : World → Prop
  | set {chain : String} {shelf : Shelf} {req : SetRequest} {stage stage' : SetStage}
      {before after : List Call} {s' : Storage} {r r' : Entropy}
      (hw : w.calls = before ++ .setting chain shelf req stage :: after)
      (h : (c.keeper chain shelf).setStep req stage w.storage r = (stage', s', r')) :
      Step c w
        { storage := s'
          calls := before ++ .setting chain shelf req stage' :: after
          deposits := w.deposits ++ (deposited chain shelf req stage stage').toList
          made := w.made ++ (generated c.rsaBits r stage).toList }
  | find {chain : String} {shelf : Shelf} {req : GetRequest} {before after : List Call}
      (hw : w.calls = before ++ .finding chain shelf req :: after) :
      Step c w
        { w with
          calls := before ++ .getting chain shelf req w.deposits
            ((c.keeper chain shelf).getStep req .find w.storage) :: after }
  | get {chain : String} {shelf : Shelf} {req : GetRequest} {seen : List Deposit}
      {stage : GetStage} {before after : List Call}
      (hw : w.calls = before ++ .getting chain shelf req seen stage :: after) :
      Step c w
        { w with
          calls := before ++ .getting chain shelf req seen
            ((c.keeper chain shelf).getStep req stage w.storage) :: after }
  | startSet (chain : String) (shelf : Shelf) (req : SetRequest) :
      Step c w { w with calls := .setting chain shelf req .lookUp :: w.calls }
  | startGet (chain : String) (shelf : Shelf) (req : GetRequest) :
      Step c w { w with calls := .finding chain shelf req :: w.calls }

/-- A run from an empty storage without calls. -/
inductive Run (c : Custodian) : World → Prop
  | begin : Run c .empty
  | step {w w' : World} (hrun : Run c w) (hstep : Step c w w') : Run c w'

variable {c : Custodian} {w w' : World}

/-! ### Calls that are not interrupted -/

section Alone

variable {chain : String} {shelf : Shelf} {before after : List Call}

/-- A run goes on with a step of a call that stores a key. -/
theorem Run.exists_set {req : SetRequest} {stage stage' : SetStage} {s' : Storage}
    {r r' : Entropy} (hrun : Run c w)
    (hw : w.calls = before ++ .setting chain shelf req stage :: after)
    (h : (c.keeper chain shelf).setStep req stage w.storage r = (stage', s', r')) :
    ∃ w', Run c w' ∧ w'.storage = s' ∧
      w'.calls = before ++ .setting chain shelf req stage' :: after ∧
      w'.deposits = w.deposits ++ (deposited chain shelf req stage stage').toList ∧
      w'.made = w.made ++ (generated c.rsaBits r stage).toList :=
  ⟨_, hrun.step (.set hw h), rfl, rfl, rfl, rfl⟩

/-- All the steps that are left of a call that stores a key. -/
theorem Run.exists_runSet {req : SetRequest} {stage : SetStage} {fuel : Nat} (hrun : Run c w)
    (hw : w.calls = before ++ .setting chain shelf req stage :: after)
    (hfuel : stage.stepsLeft ≤ fuel) (r : Entropy) :
    ∃ w', Run c w' ∧
      w'.storage = ((c.keeper chain shelf).runSet req fuel stage w.storage r).2.1 ∧
      w'.calls = before ++ .setting chain shelf req
        (.done ((c.keeper chain shelf).runSet req fuel stage w.storage r).1) :: after := by
  induction fuel generalizing w stage r with
  | zero =>
    cases stage with
    | done outcome => exact ⟨w, hrun, rfl, hw⟩
    | _ => exact absurd hfuel (by simp [SetStage.stepsLeft, Keeper.mostSteps])
  | succ fuel ih =>
    rcases hstep : (c.keeper chain shelf).setStep req stage w.storage r with ⟨stage', s', r'⟩
    have hle := (Keeper.setMove_of_setStep hstep).stepsLeft_le
    obtain ⟨w₁, hrun₁, rfl, hw₁, -⟩ := hrun.exists_set hw hstep
    obtain ⟨w₂, hrun₂, hs₂, hw₂⟩ := ih hrun₁ hw₁ (by omega) r'
    rw [Keeper.runSet_succ, hstep]
    exact ⟨w₂, hrun₂, hs₂, hw₂⟩

/-- All the steps that are left of a call that looks keys up. -/
theorem Run.exists_runGet {req : GetRequest} {seen : List Deposit} {stage : GetStage} {fuel : Nat}
    (hrun : Run c w) (hw : w.calls = before ++ .getting chain shelf req seen stage :: after)
    (hfuel : stage.stepsLeft ≤ fuel) :
    ∃ w', Run c w' ∧ w'.storage = w.storage ∧
      w'.calls = before ++ .getting chain shelf req seen
        (.done ((c.keeper chain shelf).runGet req fuel stage w.storage)) :: after := by
  induction fuel generalizing w stage with
  | zero =>
    cases stage with
    | done outcome => exact ⟨w, hrun, rfl, hw⟩
    | _ => exact absurd hfuel (by simp [GetStage.stepsLeft])
  | succ fuel ih =>
    have hle := Keeper.stepsLeft_getStep_le (c.keeper chain shelf) req w.storage stage
    obtain ⟨w', hrun', hs', hw'⟩ := ih (hrun.step (.get hw)) rfl (by omega)
    rw [Keeper.runGet_succ]
    exact ⟨w', hrun', hs', hw'⟩

/-- **A call that stores a key and is not interrupted** is a run of its steps. -/
theorem Run.exists_toAdaptor_set (hrun : Run c w) (chain : String) (shelf : Shelf)
    (req : SetRequest) (r : Entropy) :
    ∃ w', Run c w' ∧
      w'.storage = ((c.keeper chain shelf).toAdaptor.set req (w.storage, r)).2.1 ∧
      w'.calls = .setting chain shelf req
        (.done ((c.keeper chain shelf).toAdaptor.set req (w.storage, r)).1) :: w.calls := by
  obtain ⟨w', hrun', hs', hw'⟩ := (hrun.step (.startSet chain shelf req)).exists_runSet
    (List.nil_append _).symm (Nat.le_refl _) r
  exact ⟨w', hrun', hs', hw'⟩

/-- **A call that looks keys up and is not interrupted** is a run of its steps. -/
theorem Run.exists_toAdaptor_get (hrun : Run c w) (chain : String) (shelf : Shelf)
    (req : GetRequest) (r : Entropy) :
    ∃ w', Run c w' ∧ w'.storage = w.storage ∧
      w'.calls = .getting chain shelf req w.deposits
        (.done ((c.keeper chain shelf).toAdaptor.get req (w.storage, r)).1) :: w.calls := by
  have hrun₁ := (hrun.step (.startGet chain shelf req)).step (.find (List.nil_append _).symm)
  have hle : ((c.keeper chain shelf).getStep req .find w.storage).stepsLeft ≤ 5 :=
    (Keeper.stepsLeft_getStep_le (c.keeper chain shelf) req w.storage .find).trans (by decide)
  obtain ⟨w', hrun', hs', hw'⟩ := hrun₁.exists_runGet (List.nil_append _).symm hle
  exact ⟨w', hrun', hs', hw'⟩

end Alone

/-! ### Regular runs -/

/-- The keys that were generated are usable, every call names an identity, and ledgers tell the
identities apart. -/
structure World.Regular (w : World) : Prop where
  usable : ∀ key ∈ w.made, Usable key
  uuid_ne : ∀ call ∈ w.calls, call.uuid ≠ ""
  ledgerKey_inj : ∀ call ∈ w.calls, ∀ call' ∈ w.calls,
    ledgerKey call.uuid = ledgerKey call'.uuid → call.uuid = call'.uuid

/-- Nothing that is remembered is forgotten, and every call goes on. -/
theorem Step.grows (h : Step c w w') : (∀ key ∈ w.made, key ∈ w'.made) ∧
    w.deposits <+: w'.deposits ∧ ∀ call ∈ w.calls, ∃ call' ∈ w'.calls, call'.uuid = call.uuid := by
  have hreplace : ∀ {before after : List Call} {old new : Call}, new.uuid = old.uuid →
      ∀ call ∈ before ++ old :: after,
        ∃ call' ∈ before ++ new :: after, call'.uuid = call.uuid := by
    intro before after old new hsame call hcall
    rw [List.mem_append, List.mem_cons] at hcall
    rcases hcall with hcall | rfl | hcall
    · exact ⟨call, by simp [hcall], rfl⟩
    · exact ⟨new, by simp, hsame⟩
    · exact ⟨call, by simp [hcall], rfl⟩
  cases h with
  | set hw h =>
    refine ⟨fun key hkey => List.mem_append_left _ hkey, List.prefix_append _ _, ?_⟩
    rw [hw]
    exact hreplace rfl
  | find hw =>
    refine ⟨fun key hkey => hkey, List.prefix_refl _, ?_⟩
    rw [hw]
    exact hreplace rfl
  | get hw =>
    refine ⟨fun key hkey => hkey, List.prefix_refl _, ?_⟩
    rw [hw]
    exact hreplace rfl
  | startSet chain shelf req =>
    exact ⟨fun key hkey => hkey, List.prefix_refl _,
      fun call hcall => ⟨call, List.mem_cons_of_mem _ hcall, rfl⟩⟩
  | startGet chain shelf req =>
    exact ⟨fun key hkey => hkey, List.prefix_refl _,
      fun call hcall => ⟨call, List.mem_cons_of_mem _ hcall, rfl⟩⟩

/-- What a regular world comes from is regular. -/
theorem Step.regular (h : Step c w w') (hw : w'.Regular) : w.Regular := by
  obtain ⟨hmade, -, hcalls⟩ := h.grows
  refine ⟨fun key hkey => hw.usable key (hmade key hkey), fun call hcall => ?_,
    fun call₁ h₁ call₂ h₂ hsame => ?_⟩
  · obtain ⟨call', hcall', hsame⟩ := hcalls call hcall
    rw [← hsame]
    exact hw.uuid_ne call' hcall'
  · obtain ⟨call₁', h₁', hsame₁⟩ := hcalls call₁ h₁
    obtain ⟨call₂', h₂', hsame₂⟩ := hcalls call₂ h₂
    rw [← hsame₁, ← hsame₂] at hsame ⊢
    exact hw.ledgerKey_inj call₁' h₁' call₂' h₂' hsame

end KeyCustody.Custody
