import KeyCustody.Custody.Chain
import KeyCustody.Proofs.Custody.Deposits
import Mathlib.Logic.Function.Basic
/-!
# Identities that do not meet

A history of calls is a list of turns, in each of which one call takes a step, with randomness of
its own. Two histories that differ in the turns of calls which store keys of one identity give the
same keys of every other identity on every ledger, and the same failures, unless both identities
have the same name in the ledger: a name has the first thirty-two octets of an identity. Then what
one of them stores is found by the other, who cannot read it.

## Main definitions

* `Orders`, `Turn`, `Progress`: the calls of a history, and how far they are.
* `Agree`: storages that look alike to all identities but one.

## Main results

* `Agree.setStep`, `Agree.getStep`: calls do the same on storages that look alike.
* `Keeper.SetMove.agree`: what a call that stores a key leaves as it was.
* `Progress.Reaches.runSet`, `Progress.run_replicate_get`: calls that are not interrupted are
  histories.
* `get_ignores_other`: what an identity finds does not depend on what another one stores.
* `twin_sees_other`: identities with the same name in a ledger meet there.
-/

namespace KeyCustody.Custody

open Crypto (Entropy)
open Crypto.Rsa (Codec PrivateKey)
open Keeper (SetStage GetStage SetMove)
open Wire (GetRequest GetReply SetRequest SetReply)

/-! ### Histories -/

/-- A call that stores a key on the keeper of a chain. -/
structure SetOrder where
  chain : String
  shelf : Shelf
  request : SetRequest

/-- A call that looks keys up on the keeper of a chain. -/
structure GetOrder where
  chain : String
  shelf : Shelf
  request : GetRequest

/-- The calls of a history by their names. -/
structure Orders (ι κ : Type) where
  set : ι → SetOrder
  get : κ → GetOrder

/-- A step of a call. -/
inductive Turn (ι κ : Type) where
  | set (i : ι) (r : Entropy)
  | get (k : κ)

/-- What is stored, and how far the calls are. -/
structure Progress (ι κ : Type) where
  storage : Storage
  setStage : ι → SetStage
  getStage : κ → GetStage

variable {ι κ : Type}

/-- A call that stores a key of an identity has the turn. -/
def Turn.setsFor (o : Orders ι κ) (u : String) : Turn ι κ → Bool
  | .set i _ => (o.set i).request.uuid = u
  | .get _ => false

/-- All turns of a call that stores a key are turns for its identity. -/
theorem Turn.filter_map_set {o : Orders ι κ} {i : ι} {u : String}
    (hu : (o.set i).request.uuid = u) (rs : List Entropy) :
    (rs.map (Turn.set i)).filter (fun t : Turn ι κ => !t.setsFor o u) = [] := by
  simp [List.filter_eq_nil_iff, Turn.setsFor, hu]

/-- A call that puts a key of an identity on the ledger of a chain has the turn. -/
def Turn.writesFor (o : Orders ι κ) (u chain : String) : Turn ι κ → Bool
  | .set i _ => (o.set i).request.uuid = u ∧ (o.set i).shelf = .ledger ∧ (o.set i).chain = chain
  | .get _ => false

namespace Progress

/-- No call has begun. -/
def start (s : Storage) : Progress ι κ := ⟨s, fun _ => .lookUp, fun _ => .find⟩

variable [DecidableEq ι] [DecidableEq κ]

/-- The progress after a turn. -/
def next (c : Custodian) (o : Orders ι κ) (p : Progress ι κ) : Turn ι κ → Progress ι κ
  | .set i r =>
    let (stage, storage, _) := (c.keeper (o.set i).chain (o.set i).shelf).setStep
      (o.set i).request (p.setStage i) p.storage r
    { p with storage, setStage := Function.update p.setStage i stage }
  | .get k =>
    { p with
      getStage := Function.update p.getStage k
        ((c.keeper (o.get k).chain (o.get k).shelf).getStep (o.get k).request (p.getStage k)
          p.storage) }

/-- The progress after turns. -/
def run (c : Custodian) (o : Orders ι κ) (p : Progress ι κ) (ts : List (Turn ι κ)) :
    Progress ι κ :=
  ts.foldl (next c o) p

theorem run_cons (c : Custodian) (o : Orders ι κ) (p : Progress ι κ) (t : Turn ι κ)
    (ts : List (Turn ι κ)) : p.run c o (t :: ts) = (p.next c o t).run c o ts := rfl

theorem run_append (c : Custodian) (o : Orders ι κ) (p : Progress ι κ) (ts ts' : List (Turn ι κ)) :
    p.run c o (ts ++ ts') = (p.run c o ts).run c o ts' :=
  List.foldl_append

theorem getStage_run_get (c : Custodian) (o : Orders ι κ) (p : Progress ι κ) (k : κ) :
    (p.run c o [.get k, .get k]).getStage k =
      (c.keeper (o.get k).chain (o.get k).shelf).getStep (o.get k).request
        ((c.keeper (o.get k).chain (o.get k).shelf).getStep (o.get k).request (p.getStage k)
          p.storage) p.storage := by
  simp [run, next]

end Progress

/-! ### Storages that look alike -/

/-- Two storages look alike to all identities but `u`, as far as the ledger of a chain is concerned
under one name. -/
structure Agree (u chain : String) (name : Bytes) (s s' : Storage) : Prop where
  secrets {x : String} (hx : x ≠ u) : s.vault.secret? x = s'.vault.secret? x
  entries : s.entries chain name = s'.entries chain name
  ledgers (c : String) : (s.ledger c).offline? = (s'.ledger c).offline?
  stores (c : String) : (s.store c).offline? = (s'.store c).offline?

namespace Storage

variable {s s' : Storage} {chain : String} {data : Bytes} {cid : String}

theorem queryLedger_eq (s : Storage) (chain : String) (name : Bytes) :
    s.queryLedger chain name = (do
      reach (s.ledger chain).offline?
      pure (s.entries chain name)) := rfl

theorem appendLedger_eq_error {words : String} {name : Bytes} {es : List Bytes}
    (h : (s.ledger chain).offline? = some words) :
    s.appendLedger chain name es = .error (.backend words) := by
  rw [appendLedger, h]
  rfl

theorem addContent_eq_error {words : String} (h : (s.store chain).offline? = some words) :
    s.addContent chain data = .error (.backend words) := by
  rw [addContent, h]
  rfl

theorem exists_addContent (h : (s.store chain).offline? = none) (data : Bytes) :
    ∃ s', s.addContent chain data = .ok (s', contentId data) := by
  rw [addContent, h]
  exact ⟨_, rfl⟩

/-- No content puts a store out of reach. -/
theorem offline?_of_addContent (h : s.addContent chain data = .ok (s', cid)) (c : String) :
    (s'.store c).offline? = (s.store c).offline? := by
  obtain ⟨-, -, h⟩ := bind_eq_ok.1 h
  obtain rfl := congrArg Prod.fst (Except.ok.inj h)
  simp only [store, Assoc.get?_put]
  split_ifs with hc
  · rw [hc]
    rfl
  · rfl

end Storage

section Alike

variable {u chain : String} {name : Bytes} {s s' s₁ s₁' : Storage} {k : Keeper} {req : SetRequest}
  {stage stage' : SetStage} {r : Entropy}

theorem Agree.refl (u chain : String) (name : Bytes) (s : Storage) : Agree u chain name s s :=
  ⟨fun _ => rfl, rfl, fun _ => rfl, fun _ => rfl⟩

theorem Agree.trans {s'' : Storage} (h : Agree u chain name s s')
    (h' : Agree u chain name s' s'') : Agree u chain name s s'' :=
  ⟨fun hx => (h.secrets hx).trans (h'.secrets hx), h.entries.trans h'.entries,
    fun c => (h.ledgers c).trans (h'.ledgers c), fun c => (h.stores c).trans (h'.stores c)⟩

/-- **What a call that stores a key leaves as it was**: the key pairs of other identities, and the
ledger under names other than that of its identity. -/
theorem Keeper.SetMove.agree (h : SetMove k req s r stage stage' s')
    (happart : k.shelf = .ledger → k.chain = chain → ledgerKey req.uuid ≠ name) :
    Agree req.uuid chain name s' s := by
  cases h with
  | inserted =>
    exact ⟨Vault.secret?_insertSecret_of_ne, rfl, fun _ => rfl, fun _ => rfl⟩
  | appended hshelf h =>
    obtain ⟨hvault, hstores, hoffline, hentries⟩ := Storage.entries_of_appendLedger h
    refine ⟨fun _ => by rw [hvault], ?_, hoffline, fun c => by rw [Storage.store, hstores]; rfl⟩
    rw [hentries, if_neg]
    rintro ⟨hchain, hname⟩
    exact happart hshelf hchain.symm hname.symm
  | added hshelf h =>
    obtain ⟨hvault, hledgers⟩ := Storage.ledgers_of_addContent h
    exact ⟨fun _ => by rw [hvault], by rw [Storage.entries, Storage.ledger, hledgers]; rfl,
      fun c => by rw [Storage.ledger, hledgers]; rfl, Storage.offline?_of_addContent h⟩
  | noted => exact ⟨fun _ => rfl, rfl, fun _ => rfl, fun _ => rfl⟩
  | _ => exact .refl _ _ _ _

/-- A key that goes to a ledger goes there from storages that look alike. -/
theorem Agree.appendLedger (h : Agree u chain name s s') (c : String) (name' : Bytes)
    (es : List Bytes) :
    (∃ e, s.appendLedger c name' es = .error e ∧ s'.appendLedger c name' es = .error e) ∨
      ∃ s₁ s₁', s.appendLedger c name' es = .ok s₁ ∧ s'.appendLedger c name' es = .ok s₁' ∧
        Agree u chain name s₁ s₁' := by
  have hreach := h.ledgers c
  cases hoffline : (s.ledger c).offline? with
  | some words =>
    rw [hoffline] at hreach
    exact .inl ⟨_, Storage.appendLedger_eq_error hoffline,
      Storage.appendLedger_eq_error hreach.symm⟩
  | none =>
    rw [hoffline] at hreach
    obtain ⟨s₁, hs₁⟩ := Storage.exists_appendLedger hoffline name' es
    obtain ⟨s₁', hs₁'⟩ := Storage.exists_appendLedger hreach.symm name' es
    obtain ⟨hvault, hstores, hledgers, hentries⟩ := Storage.entries_of_appendLedger hs₁
    obtain ⟨hvault', hstores', hledgers', hentries'⟩ := Storage.entries_of_appendLedger hs₁'
    refine .inr ⟨s₁, s₁', hs₁, hs₁', fun hx => ?_, ?_, fun c => ?_, fun c => ?_⟩
    · rw [hvault, hvault', h.secrets hx]
    · rw [hentries, hentries', h.entries]
    · rw [hledgers, hledgers', h.ledgers]
    · rw [Storage.store, Storage.store, hstores, hstores']
      exact h.stores c

theorem Agree.addContent (h : Agree u chain name s s') (c : String) (data : Bytes) :
    (∃ e, s.addContent c data = .error e ∧ s'.addContent c data = .error e) ∨
      ∃ s₁ s₁' cid, s.addContent c data = .ok (s₁, cid) ∧ s'.addContent c data = .ok (s₁', cid) ∧
        Agree u chain name s₁ s₁' := by
  have hreach := h.stores c
  cases hoffline : (s.store c).offline? with
  | some words =>
    rw [hoffline] at hreach
    exact .inl ⟨_, Storage.addContent_eq_error hoffline, Storage.addContent_eq_error hreach.symm⟩
  | none =>
    rw [hoffline] at hreach
    obtain ⟨s₁, hs₁⟩ := Storage.exists_addContent hoffline data
    obtain ⟨s₁', hs₁'⟩ := Storage.exists_addContent hreach.symm data
    obtain ⟨hvault, hledgers⟩ := Storage.ledgers_of_addContent hs₁
    obtain ⟨hvault', hledgers'⟩ := Storage.ledgers_of_addContent hs₁'
    refine .inr ⟨s₁, s₁', _, hs₁, hs₁', fun hx => ?_, ?_, fun c => ?_, fun c => ?_⟩
    · rw [hvault, hvault', h.secrets hx]
    · rw [Storage.entries, Storage.entries, Storage.ledger, Storage.ledger, hledgers, hledgers']
      exact h.entries
    · rw [Storage.ledger, Storage.ledger, hledgers, hledgers']
      exact h.ledgers c
    · rw [Storage.offline?_of_addContent hs₁, Storage.offline?_of_addContent hs₁', h.stores]

/-- Storages that look alike do so after a key pair was put into both. -/
theorem Agree.insertSecret (h : Agree u chain name s s') {x : String} (hx : x ≠ u)
    (fresh : SecretRecord) :
    (s.vault.insertSecret x fresh).2 = (s'.vault.insertSecret x fresh).2 ∧
      Agree u chain name { s with vault := (s.vault.insertSecret x fresh).1 }
        { s' with vault := (s'.vault.insertSecret x fresh).1 } := by
  have hsame := h.secrets hx
  cases hold : s.vault.secret? x with
  | some old =>
    rw [hold] at hsame
    rw [Vault.insertSecret_of_eq_some hold, Vault.insertSecret_of_eq_some hsame.symm]
    exact ⟨rfl, h.secrets, h.entries, h.ledgers, h.stores⟩
  | none =>
    rw [hold] at hsame
    have hnew := fun y => Vault.secret?_insertSecret_of_eq_none fresh y hold
    have hnew' := fun y => Vault.secret?_insertSecret_of_eq_none fresh y hsame.symm
    refine ⟨by rw [(hnew x).1, (hnew' x).1], fun {y} hy => ?_, h.entries, h.ledgers, h.stores⟩
    rw [(hnew y).2, (hnew' y).2, h.secrets hy]

/-- **A call that stores a key of another identity does the same** on storages that look alike. -/
theorem Agree.setStep (h : Agree u chain name s s') (hu : req.uuid ≠ u) (k : Keeper)
    (stage : SetStage) (r : Entropy) : (k.setStep req stage s r).1 = (k.setStep req stage s' r).1 ∧
      Agree u chain name (k.setStep req stage s r).2.1 (k.setStep req stage s' r).2.1 := by
  cases stage with
  | lookUp =>
    simp only [Keeper.setStep, h.secrets hu]
    split_ifs
    · exact ⟨rfl, h⟩
    · split <;> exact ⟨rfl, h⟩
  | generate =>
    simp only [Keeper.setStep]
    split <;> exact ⟨rfl, h⟩
  | insert fresh =>
    obtain ⟨hsame, hagree⟩ := h.insertSecret hu fresh
    exact ⟨congrArg SetStage.encrypt hsame, hagree⟩
  | encrypt pair =>
    simp only [Keeper.setStep]
    split
    · exact ⟨rfl, h⟩
    · exact ⟨rfl, h⟩
    · split <;> exact ⟨rfl, h⟩
  | shelve pair cipher =>
    simp only [Keeper.setStep]
    split
    · rcases h.appendLedger k.chain (ledgerKey req.uuid) [cipher] with
        ⟨e, he, he'⟩ | ⟨s₁, s₁', hs, hs', hagree⟩
      · rw [he, he']
        exact ⟨rfl, h⟩
      · rw [hs, hs']
        exact ⟨rfl, hagree⟩
    · rcases h.addContent k.chain cipher with ⟨e, he, he'⟩ | ⟨s₁, s₁', cid, hs, hs', hagree⟩
      · rw [he, he']
        exact ⟨rfl, h⟩
      · rw [hs, hs']
        exact ⟨rfl, hagree⟩
  | note pair cid? => exact ⟨rfl, h.secrets, h.entries, h.ledgers, h.stores⟩
  | done outcome => exact ⟨rfl, h⟩

/-- **A call that looks up the keys of another identity on a ledger sees the same** on storages that
look alike under its name there. -/
theorem Agree.getStep {getReq : GetRequest} {getStage : GetStage}
    (h : Agree u k.chain (ledgerKey getReq.uuid) s s') (hshelf : k.shelf = .ledger)
    (hu : getReq.uuid ≠ u) : k.getStep getReq getStage s = k.getStep getReq getStage s' := by
  have hciphers : k.ciphers getReq s = k.ciphers getReq s' := by
    rw [Keeper.ciphers, Keeper.ciphers, hshelf]
    simp only [Storage.queryLedger_eq, h.ledgers, h.entries]
  cases getStage with
  | find => simp only [Keeper.getStep, hciphers]
  | unlock cs => simp only [Keeper.getStep, h.secrets hu]
  | done outcome => rfl

end Alike

/-! ### Calls that are not interrupted -/

namespace Progress

variable [DecidableEq ι] [DecidableEq κ] {c : Custodian} {o : Orders ι κ} {p : Progress ι κ} {i : ι}
  {k : κ}

/-- Turns of one call that stores a key lead to a storage and to a stage of the call. -/
def Reaches (c : Custodian) (o : Orders ι κ) (p : Progress ι κ) (i : ι) (s : Storage)
    (stage : SetStage) : Prop :=
  ∃ rs : List Entropy, p.run c o (rs.map (.set i)) =
    { p with storage := s, setStage := Function.update p.setStage i stage }

theorem Reaches.refl : p.Reaches c o i p.storage (p.setStage i) :=
  ⟨[], by rw [Function.update_eq_self]; rfl⟩

theorem Reaches.step {s s' : Storage} {stage stage' : SetStage} {r r' : Entropy}
    (h : p.Reaches c o i s stage)
    (hstep : (c.keeper (o.set i).chain (o.set i).shelf).setStep (o.set i).request stage s r =
      (stage', s', r')) : p.Reaches c o i s' stage' := by
  obtain ⟨rs, hrs⟩ := h
  refine ⟨rs ++ [r], ?_⟩
  rw [List.map_append, run_append, hrs, List.map_singleton, run_cons]
  simp [run, next, hstep]

/-- **A call that stores a key and is not interrupted** is a history of its turns. -/
theorem Reaches.runSet {s : Storage} {stage : SetStage} {fuel : Nat}
    (h : p.Reaches c o i s stage) (hfuel : stage.stepsLeft ≤ fuel) (r : Entropy) :
    p.Reaches c o i
      ((c.keeper (o.set i).chain (o.set i).shelf).runSet (o.set i).request fuel stage s r).2.1
      (.done ((c.keeper (o.set i).chain (o.set i).shelf).runSet (o.set i).request fuel stage s
        r).1) := by
  induction fuel generalizing s stage r with
  | zero =>
    cases stage with
    | done outcome => exact h
    | _ => exact absurd hfuel (by simp [SetStage.stepsLeft, Keeper.mostSteps])
  | succ fuel ih =>
    rcases hstep : (c.keeper (o.set i).chain (o.set i).shelf).setStep (o.set i).request stage s r
      with ⟨stage', s', r'⟩
    have hle := (Keeper.setMove_of_setStep hstep).stepsLeft_le
    rw [Keeper.runSet_succ, hstep]
    exact ih (h.step hstep) (by omega) r'

/-- A call that looks keys up and is not interrupted is a history of its turns. -/
theorem run_replicate_get (fuel : Nat) (hfuel : (p.getStage k).stepsLeft ≤ fuel) :
    p.run c o (List.replicate fuel (.get k)) =
      { p with getStage := Function.update p.getStage k (.done
          ((c.keeper (o.get k).chain (o.get k).shelf).runGet (o.get k).request fuel (p.getStage k)
            p.storage)) } := by
  induction fuel generalizing p with
  | zero =>
    cases hstage : p.getStage k with
    | done outcome =>
      rw [Keeper.runGet_done, ← hstage, Function.update_eq_self]
      rfl
    | _ =>
      rw [hstage] at hfuel
      exact absurd hfuel (by simp [GetStage.stepsLeft])
  | succ fuel ih =>
    have hle := Keeper.stepsLeft_getStep_le (c.keeper (o.get k).chain (o.get k).shelf)
      (o.get k).request p.storage (p.getStage k)
    rw [List.replicate_succ, run_cons, ih]
    · simp [next, Keeper.runGet_succ]
    · simp only [next, Function.update_self]
      omega

/-- A call that stores the first key of an identity comes to its shelf, if a usable key pair is
generated. -/
theorem exists_shelving {key : PrivateKey} {r r' : Entropy} (hstage : p.setStage i = .lookUp)
    (huuid : (o.set i).request.uuid ≠ "")
    (hnone : p.storage.vault.secret? (o.set i).request.uuid = none)
    (hgenerate : Crypto.Rsa.generate c.rsaBits r = (.ok key, r')) (hkey : Usable key) :
    ∃ fresh cipher, p.Reaches c o i
      { p.storage with
        vault := (p.storage.vault.insertSecret (o.set i).request.uuid fresh).1 }
      (.shelve fresh cipher) := by
  have hlookUp : p.Reaches c o i p.storage .lookUp := hstage ▸ Reaches.refl
  obtain ⟨fresh, r₂, hgenerates, hencrypts⟩ :=
    Keeper.exists_fresh (k := c.keeper (o.set i).chain (o.set i).shelf) hgenerate hkey
      (o.set i).request
  obtain ⟨cipher, r₄, hencrypt⟩ := hencrypts r
  have hgenerating := hlookUp.step (Keeper.setStep_lookUp (r := r) huuid hnone)
  have hinserting := hgenerating.step (hgenerates _)
  have hencrypting := hinserting.step (Keeper.setStep_insert_of_eq_none (r := r) fresh hnone)
  exact ⟨fresh, cipher, hencrypting.step (hencrypt _)⟩

/-- A key that is put into a content store is in no ledger. -/
theorem Reaches.exists_added {pair : SecretRecord} {cipher : Bytes} {s : Storage}
    (h : p.Reaches c o i s (.shelve pair cipher)) (hshelf : (o.set i).shelf = .content)
    (hreach : (s.store (o.set i).chain).offline? = none) :
    ∃ s' reply, p.Reaches c o i s' (.done (.value reply)) ∧
      (∀ u, s'.vault.secret? u = s.vault.secret? u) ∧ s'.ledgers = s.ledgers := by
  obtain ⟨s', hs'⟩ := Storage.exists_addContent hreach cipher
  obtain ⟨hvault, hledgers⟩ := Storage.ledgers_of_addContent hs'
  have hnoting := h.step (Keeper.setStep_shelve_content (r := .ofOctets []) hshelf hs')
  refine ⟨_, _, hnoting.step (r := .ofOctets []) rfl, fun u => ?_, hledgers⟩
  rw [← hvault]
  rfl

/-- A key that is put on a ledger is there under the name of its identity. -/
theorem Reaches.exists_appended {pair : SecretRecord} {cipher : Bytes} {s : Storage}
    (h : p.Reaches c o i s (.shelve pair cipher)) (hshelf : (o.set i).shelf = .ledger)
    (hreach : (s.ledger (o.set i).chain).offline? = none) :
    ∃ s' reply, p.Reaches c o i s' (.done (.value reply)) ∧
      (∀ u, s'.vault.secret? u = s.vault.secret? u) ∧
      (∀ c, (s'.ledger c).offline? = (s.ledger c).offline?) ∧
      s'.entries (o.set i).chain (ledgerKey (o.set i).request.uuid) =
        s.entries (o.set i).chain (ledgerKey (o.set i).request.uuid) ++ [cipher] := by
  obtain ⟨s', hs'⟩ :=
    Storage.exists_appendLedger hreach (ledgerKey (o.set i).request.uuid) [cipher]
  obtain ⟨hvault, -, hledgers, hentries⟩ := Storage.entries_of_appendLedger hs'
  have hnoting := h.step (Keeper.setStep_shelve (r := .ofOctets []) hshelf hs')
  refine ⟨_, _, hnoting.step (r := .ofOctets []) rfl, fun u => ?_, hledgers, ?_⟩
  · rw [← hvault]
    rfl
  · exact (hentries _ _).trans (if_pos ⟨rfl, rfl⟩)

end Progress

/-- The adaptors of Ethereum and Moonbeam keep keys on ledgers, and that of Ipfs in a store. -/
theorem Custodian.adaptor_eq (c : Custodian) :
    (c.adaptor .ethereum).1 = (c.keeper Chain.ethereum.name .ledger).toAdaptor ∧
      (c.adaptor .moonbeam).1 = (c.keeper Chain.moonbeam.name .ledger).toAdaptor ∧
      (c.adaptor .ipfs).1 = (c.keeper Chain.ipfs.name .content).toAdaptor :=
  ⟨rfl, rfl, rfl⟩

/-! ### Histories that look alike -/

namespace Progress

variable {c : Custodian} {o : Orders ι κ} {p p' : Progress ι κ} {u : String} {k : κ}

/-- Two histories look alike to a call on a ledger and to all calls that store keys of identities
other than `u`. -/
structure Alike (o : Orders ι κ) (u : String) (k : κ) (p p' : Progress ι κ) : Prop where
  storage : Agree u (o.get k).chain (ledgerKey (o.get k).request.uuid) p.storage p'.storage
  setting {i : ι} (hi : (o.set i).request.uuid ≠ u) : p.setStage i = p'.setStage i
  getting : p.getStage k = p'.getStage k

variable [DecidableEq ι] [DecidableEq κ]

/-- A turn that is no turn of `u` keeps histories alike. -/
theorem Alike.next {t : Turn ι κ} (h : Alike o u k p p') (hshelf : (o.get k).shelf = .ledger)
    (hk : (o.get k).request.uuid ≠ u) (ht : t.setsFor o u = false) :
    Alike o u k (p.next c o t) (p'.next c o t) := by
  cases t with
  | set i r =>
    have hi : (o.set i).request.uuid ≠ u := of_decide_eq_false ht
    obtain ⟨hstage, hstorage⟩ :=
      h.storage.setStep hi (c.keeper (o.set i).chain (o.set i).shelf) (p.setStage i) r
    have hsame := h.setting hi
    refine ⟨?_, fun {j} hj => ?_, h.getting⟩
    · simp only [Progress.next, ← hsame]
      exact hstorage
    · by_cases hij : j = i
      · subst hij
        simp only [Progress.next, Function.update_self, ← hsame]
        exact hstage
      · simp only [Progress.next, Function.update_of_ne hij]
        exact h.setting hj
  | get j =>
    refine ⟨h.storage, h.setting, ?_⟩
    by_cases hj : k = j
    · subst hj
      simp only [Progress.next, Function.update_self, h.getting]
      exact h.storage.getStep hshelf hk
    · simp only [Progress.next, Function.update_of_ne hj]
      exact h.getting

/-- A turn of `u` goes unnoticed, unless it writes to the ledger under the name of the identity that
looks its keys up. -/
theorem Alike.next_left {t : Turn ι κ} (h : Alike o u k p p') (ht : t.setsFor o u = true)
    (happart : ledgerKey u ≠ ledgerKey (o.get k).request.uuid ∨
      t.writesFor o u (o.get k).chain = false) : Alike o u k (p.next c o t) p' := by
  cases t with
  | get j => cases ht
  | set i r =>
    obtain rfl : (o.set i).request.uuid = u := of_decide_eq_true ht
    have hmove := Keeper.setMove_of_setStep (Prod.ext rfl (Prod.ext rfl rfl) :
      (c.keeper (o.set i).chain (o.set i).shelf).setStep (o.set i).request (p.setStage i)
        p.storage r = (_, _, _))
    refine ⟨(hmove.agree fun hshelf hchain => ?_).trans h.storage, fun {j} hj => ?_, h.getting⟩
    · refine happart.resolve_right fun hwrites => ?_
      exact of_decide_eq_false hwrites ⟨rfl, hshelf, hchain⟩
    · have hij : j ≠ i := fun heq => hj (by rw [heq])
      simp only [Progress.next, Function.update_of_ne hij]
      exact h.setting hj

/-- **A history looks like itself without the turns of `u`.** -/
theorem Alike.run_filter {ts : List (Turn ι κ)} (h : Alike o u k p p')
    (hshelf : (o.get k).shelf = .ledger) (hk : (o.get k).request.uuid ≠ u)
    (happart : ledgerKey u ≠ ledgerKey (o.get k).request.uuid ∨
      ∀ t ∈ ts, t.writesFor o u (o.get k).chain = false) :
    Alike o u k (p.run c o ts) (p'.run c o (ts.filter fun t => !t.setsFor o u)) := by
  induction ts generalizing p p' with
  | nil => exact h
  | cons t ts ih =>
    have hrest : ledgerKey u ≠ ledgerKey (o.get k).request.uuid ∨
        ∀ t ∈ ts, t.writesFor o u (o.get k).chain = false :=
      happart.imp_right fun h t ht => h t (List.mem_cons_of_mem _ ht)
    cases ht : t.setsFor o u with
    | true =>
      rw [List.filter_cons_of_neg (by simp [ht])]
      exact ih (h.next_left ht (happart.imp_right fun h => h t List.mem_cons_self)) hrest
    | false =>
      rw [List.filter_cons_of_pos (by simp [ht])]
      exact ih (h.next hshelf hk ht) hrest

end Progress

/-- **What an identity finds on a ledger does not depend on what another one stores.** Two histories
of calls that are the same but for the turns of calls which store keys of `u` lead every call that
looks up the keys of another identity on a ledger to the same stage, hence to the same keys or the
same failure: if the two identities have different names in ledgers, or if none of the histories
has a turn in which a key of `u` may be put on this very ledger. -/
theorem get_ignores_other [DecidableEq ι] [DecidableEq κ] (c : Custodian) (o : Orders ι κ)
    (s : Storage) {ts ts' : List (Turn ι κ)} {u : String} {k : κ}
    (hshelf : (o.get k).shelf = .ledger) (hk : (o.get k).request.uuid ≠ u)
    (happart : ledgerKey u ≠ ledgerKey (o.get k).request.uuid ∨
      ∀ t ∈ ts ++ ts', t.writesFor o u (o.get k).chain = false)
    (hsame : ts.filter (fun t => !t.setsFor o u) = ts'.filter fun t => !t.setsFor o u) :
    ((Progress.start s).run c o ts).getStage k = ((Progress.start s).run c o ts').getStage k := by
  have hrefl : Progress.Alike o u k (Progress.start s) (Progress.start s) :=
    ⟨.refl _ _ _ _, fun _ => rfl, rfl⟩
  have hleft := hrefl.run_filter (c := c) hshelf hk
    (happart.imp_right fun h t ht => h t (List.mem_append_left _ ht))
  have hright := hrefl.run_filter (c := c) hshelf hk
    (happart.imp_right fun h t ht => h t (List.mem_append_right _ ht))
  rw [hleft.getting, hsame, hright.getting]

/-- The calls of two strangers: one of them stores a key, and the other one looks its keys up. -/
def strangers : Orders Unit Unit where
  set _ := ⟨"Ethereum", .ledger, ⟨"Ethereum", "u1", "k1", "", ""⟩⟩
  get _ := ⟨"Ethereum", .ledger, ⟨"Ethereum", "u2", ""⟩⟩

/-- An identity that has stored nothing is told so, although a stranger has stored a key on the same
ledger before. -/
theorem stranger_ignores_other : ∃ ts : List (Turn Unit Unit),
    (∃ reply, ((Progress.start .empty).run shortCustodian strangers ts).setStage () =
      .done (.value reply)) ∧
    ((Progress.start .empty).run shortCustodian strangers ts).storage.entries "Ethereum"
      (ledgerKey "u1") ≠ [] ∧
    ((Progress.start .empty).run shortCustodian strangers (ts ++ [.get (), .get ()])).getStage () =
      .done (.failure (.keyNotFound "Ethereum" "u2")) := by
  obtain ⟨r, r', hgenerate⟩ := exists_generate_shortKey
  obtain ⟨pair, cipher, hshelving⟩ := Progress.exists_shelving (c := shortCustodian)
    (o := strangers) (p := .start .empty) (i := ()) rfl (by decide) rfl hgenerate usable_shortKey
  obtain ⟨s, reply, ⟨rs, hrs⟩, -, -, hentries⟩ := hshelving.exists_appended rfl rfl
  have hsame : ((Progress.start .empty).run shortCustodian strangers
      (rs.map (.set ()) ++ [.get (), .get ()])).getStage () =
        ((Progress.start .empty).run shortCustodian strangers [.get (), .get ()]).getStage () :=
    get_ignores_other _ _ _ (u := "u1") rfl (by decide) (.inl (by decide +kernel))
      ((List.filter_append _ _).trans (congrArg (· ++ _) (Turn.filter_map_set rfl rs)))
  refine ⟨rs.map (.set ()), ⟨reply, by rw [hrs]; rfl⟩, ?_, hsame.trans rfl⟩
  rw [hrs]
  exact hentries.symm ▸ List.append_ne_nil_of_right_ne_nil _ (List.cons_ne_nil _ _)

/-! ### Identities with one name -/

/-- The outcome is not that nothing is stored. -/
def NoMiss {α : Type} (x : Outcome AdaptorError α) : Prop :=
  ∀ chain uuid, x ≠ .failure (.keyNotFound chain uuid)

section NoMiss

variable {α β : Type}

theorem noMiss_value (a : α) : NoMiss (.value a) := fun _ _ => by simp

theorem noMiss_mapFailure (x : Outcome Crypto.CryptoError α) (uuid : String) :
    NoMiss (x.mapFailure (.codec uuid)) := by
  cases x <;> simp [NoMiss, Outcome.mapFailure]

theorem NoMiss.bind {x : Outcome AdaptorError α} {f : α → Outcome AdaptorError β} (hx : NoMiss x)
    (hf : ∀ a, NoMiss (f a)) : NoMiss (x >>= f) := by
  cases x with
  | value a => exact hf a
  | failure e =>
    intro chain uuid h
    exact hx chain uuid (congrArg _ (Outcome.failure.inj h))
  | breakdown b => simp [NoMiss]

theorem noMiss_codec (pair : SecretRecord) (uuid : String) (aes : Crypto.SymmetricKey) :
    NoMiss (pair.codec uuid aes) := by
  refine (noMiss_mapFailure _ uuid).bind fun octets => ?_
  split
  · simp [NoMiss]
  · exact noMiss_mapFailure _ uuid

theorem noMiss_decryptAll (uuid : String) (codec : Codec) (cs : List Bytes) :
    NoMiss (Keeper.decryptAll uuid codec cs) := by
  induction cs with
  | nil => exact noMiss_value []
  | cons c cs ih =>
    exact (noMiss_mapFailure _ uuid).bind fun p => ih.bind fun ps => noMiss_value _

/-- An identity with a key pair for which something is on the shelf is not told that nothing is. -/
theorem Keeper.exists_getStep_unlock {k : Keeper} {req : GetRequest} {s : Storage}
    {pair : SecretRecord} (hpair : s.vault.secret? req.uuid = some pair) (cs : List Bytes) :
    ∃ outcome, k.getStep req (.unlock cs) s = .done outcome ∧ NoMiss outcome := by
  simp only [Keeper.getStep, hpair]
  refine ⟨_, rfl, ?_⟩
  exact (noMiss_codec pair _ _).bind fun codec =>
    (noMiss_decryptAll _ codec cs).bind fun plain => noMiss_value _

end NoMiss

/-- Two identities with the same name in ledgers. -/
def twin (b : Bool) : String :=
  if b then "00000000-0000-0000-0000-000000000001" else "00000000-0000-0000-0000-000000000002"

/-- One of them stores a key on Ethereum. The other one stores a key on Ipfs, and looks its keys up
on Ethereum. -/
def twins : Orders Bool Unit where
  set b :=
    if b then ⟨"Ethereum", .ledger, ⟨"Ethereum", twin true, "k2", "", ""⟩⟩
    else ⟨"Ipfs", .content, ⟨"Ipfs", twin false, "k1", "", ""⟩⟩
  get _ := ⟨"Ethereum", .ledger, ⟨"Ethereum", twin false, ""⟩⟩

theorem ledgerKey_twin : ledgerKey (twin true) = ledgerKey (twin false) := by
  decide +kernel

/-- The key on Ipfs is stored. Its identity has a key pair then, and there is nothing on
Ethereum. -/
theorem exists_reaches_added : ∃ s reply pair,
    (Progress.start .empty).Reaches shortCustodian twins false s (.done (.value reply)) ∧
      (∀ u, s.vault.secret? u = if u = twin false then some pair else none) ∧
      s.ledger "Ethereum" = .empty := by
  obtain ⟨r, r', hgenerate⟩ := exists_generate_shortKey
  obtain ⟨pair, cipher, hshelving⟩ := Progress.exists_shelving (c := shortCustodian) (o := twins)
    (p := .start .empty) (i := false) rfl (by decide) rfl hgenerate usable_shortKey
  obtain ⟨s, reply, hstored, hsecrets, hledgers⟩ := hshelving.exists_added rfl rfl
  refine ⟨s, reply, pair, hstored, fun u => ?_, by rw [Storage.ledger, hledgers]; rfl⟩
  exact (hsecrets u).trans (Vault.secret?_insertSecret_of_eq_none pair u rfl).2

/-- Then the key on Ethereum is stored. It is there under the name of both. -/
theorem exists_reaches_appended {p : Progress Bool Unit} {pair : SecretRecord}
    (hstage : p.setStage true = .lookUp)
    (hsecret : ∀ u, p.storage.vault.secret? u = if u = twin false then some pair else none)
    (hledger : p.storage.ledger "Ethereum" = .empty) : ∃ s reply,
    p.Reaches shortCustodian twins true s (.done (.value reply)) ∧
      s.vault.secret? (twin false) = some pair ∧ (s.ledger "Ethereum").offline? = none ∧
      s.entries "Ethereum" (ledgerKey (twin false)) ≠ [] := by
  obtain ⟨r, r', hgenerate⟩ := exists_generate_shortKey
  have hnone : p.storage.vault.secret? (twin true) = none := (hsecret _).trans (if_neg (by decide))
  have hoffline : (p.storage.ledger "Ethereum").offline? = none := by rw [hledger]; rfl
  obtain ⟨pair', cipher, hshelving⟩ := Progress.exists_shelving (c := shortCustodian) (o := twins)
    (p := p) (i := true) hstage (by decide) hnone hgenerate usable_shortKey
  obtain ⟨s, reply, hstored, hsecrets, hoffline', hentries⟩ :=
    hshelving.exists_appended rfl hoffline
  refine ⟨s, reply, hstored, ?_, (hoffline' _).trans hoffline, ?_⟩
  · rw [hsecrets]
    exact Vault.secret?_insertSecret_of_eq_some ((hsecret _).trans (if_pos rfl))
  · rw [← ledgerKey_twin]
    exact hentries.symm ▸ List.append_ne_nil_of_right_ne_nil _ (List.cons_ne_nil _ _)

/-- An identity that has stored nothing on Ethereum is told so, but not if another identity with the
same name in the ledger has stored something: what is found then cannot be its keys. -/
theorem twin_sees_other : ∃ ts ts' : List (Turn Bool Unit),
    twin true ≠ twin false ∧
    ts.filter (fun t => !t.setsFor twins (twin true)) =
      ts'.filter (fun t => !t.setsFor twins (twin true)) ∧
    ((Progress.start .empty).run shortCustodian twins ts).getStage () =
      .done (.failure (.keyNotFound "Ethereum" (twin false))) ∧
    ∃ outcome, ((Progress.start .empty).run shortCustodian twins ts').getStage () =
      .done outcome ∧ NoMiss outcome := by
  obtain ⟨s, reply, pair, ⟨rs, hrs⟩, hsecret, hledger⟩ := exists_reaches_added
  obtain ⟨s', reply', ⟨rs', hrs'⟩, hpair, hoffline, hentries⟩ := exists_reaches_appended
    (p := (Progress.start .empty).run shortCustodian twins (rs.map (.set false)))
    (by rw [hrs]; rfl) (by rw [hrs]; exact hsecret) (by rw [hrs]; exact hledger)
  rw [hrs] at hrs'
  have hothers : (rs'.map (Turn.set true)).filter
      (fun t : Turn Bool Unit => !t.setsFor twins (twin true)) = [] :=
    Turn.filter_map_set (o := twins) (i := true) rfl rs'
  refine ⟨rs.map (.set false) ++ [.get (), .get ()],
    rs.map (.set false) ++ (rs'.map (.set true) ++ [.get (), .get ()]), by decide, ?_, ?_, ?_⟩
  · simp only [List.filter_append, hothers, List.nil_append]
  · have hfind : (shortCustodian.keeper "Ethereum" .ledger).getStep
        ⟨"Ethereum", twin false, ""⟩ .find s =
          .done (.failure (.keyNotFound "Ethereum" (twin false))) :=
      (getStep_find_ledger (by decide) (by rw [hledger]; rfl)).trans
        (if_pos (by rw [Storage.entries, hledger]; rfl))
    rw [Progress.run_append, hrs, Progress.getStage_run_get]
    exact congrArg (fun stage => Keeper.getStep _ _ stage s) hfind
  · have hfind : (shortCustodian.keeper "Ethereum" .ledger).getStep
        ⟨"Ethereum", twin false, ""⟩ .find s' =
          .unlock (s'.entries "Ethereum" (ledgerKey (twin false))) :=
      (getStep_find_ledger (by decide) hoffline).trans (if_neg hentries)
    obtain ⟨outcome, hunlock, hnoMiss⟩ : ∃ outcome,
        (shortCustodian.keeper "Ethereum" .ledger).getStep ⟨"Ethereum", twin false, ""⟩
          (.unlock (s'.entries "Ethereum" (ledgerKey (twin false)))) s' = .done outcome ∧
            NoMiss outcome := Keeper.exists_getStep_unlock hpair _
    refine ⟨outcome, ?_, hnoMiss⟩
    rw [Progress.run_append, hrs, Progress.run_append, hrs', Progress.getStage_run_get]
    exact (congrArg (fun stage => Keeper.getStep _ _ stage s') hfind).trans hunlock

end KeyCustody.Custody
