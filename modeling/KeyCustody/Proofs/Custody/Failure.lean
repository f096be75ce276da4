import KeyCustody.Proofs.Custody.Deposits
/-!
# What a failed call leaves behind

A call that stores a key changes three things one after another: the vault gets a key pair if its
identity has none, the shelf gets the ciphertext, and the vault gets a note. Whatever stops the call
stops it before the shelf has taken the ciphertext, since nothing can fail afterwards. So a call
that does not return a reply leaves at most a key pair behind, and changes a shelf only if the shelf
itself stopped it.

The shelves of a keeper do nothing when they are out of reach. Others may do something and fail all
the same, so the steps of a call are told for a shelf of any kind first; a keeper with its own
shelves is one case of it. The same holds for every single turn of a call between whose turns other
calls change what they like.

## Main definitions

* `Putting`, `Keeper.setStepOn`, `Keeper.setOn`: calls that store a key on a shelf of any kind.
* `Keeper.stageAfter`: such a call, between whose turns others act.
* `Keeper.put`: the shelves of a keeper.
* `AtMostKeyed`, `ShelfKept`: what a call that stores nothing leaves behind.

## Main results

* `Keeper.setStep_eq`, `Keeper.set_toAdaptor_eq`: a keeper acts on its own shelves.
* `Keeper.quiet_of_setStepOn`: what a step leaves behind, unless it leads to a reply.
* `Keeper.quiet_of_runSetOn`, `Keeper.quiet_of_turn`: what a whole call, and each turn of a call
  between whose turns others act, leave behind if there is no reply.
* `failed_set_leaves_at_most_a_pair`: what a call that returns no reply leaves behind.
-/

namespace KeyCustody.Custody

open Crypto (Entropy SymmetricKey)
open Crypto.Rsa (PrivateKey)
open Keeper (SetStage SetMove)
open Wire (SetRequest SetReply)

/-! ### Shelves of any kind -/

/-- How a shelf takes a ciphertext for an identity: it changes what is on it, and may name the
content, or it fails or breaks down. -/
abbrev Putting (σ : Type) :=
  (uuid : String) → (cipher : Bytes) → σ → Outcome AdaptorError (Option String) × σ

/-- An outcome fails or breaks down, and another one does the same. -/
def StopsAs {α β : Type} : Outcome AdaptorError α → Outcome AdaptorError β → Prop
  | .failure e, .failure e' => e' = e
  | .breakdown b, .breakdown b' => b' = b
  | _, _ => False

theorem not_stopsAs_value {α β : Type} (a : α) (outcome : Outcome AdaptorError β) :
    ¬StopsAs (.value a) outcome := by
  cases outcome <;> exact id

/-! ### Storages without their vaults -/

namespace Storage

/-- A ledger takes entries whatever is in the vault. -/
theorem appendLedger_eq (s : Storage) (chain : String) (name : Bytes) (es : List Bytes) :
    s.appendLedger chain name es =
      ((⟨.empty, s.ledgers, s.stores⟩ : Storage).appendLedger chain name es).map
        fun s' => { s' with vault := s.vault } := by
  have hledger : (⟨.empty, s.ledgers, s.stores⟩ : Storage).ledger chain = s.ledger chain := rfl
  simp only [appendLedger, hledger]
  cases (s.ledger chain).offline? <;> rfl

/-- A content store takes a content whatever is in the vault. -/
theorem addContent_eq (s : Storage) (chain : String) (data : Bytes) :
    s.addContent chain data =
      ((⟨.empty, s.ledgers, s.stores⟩ : Storage).addContent chain data).map
        fun p => ({ p.1 with vault := s.vault }, p.2) := by
  have hstore : (⟨.empty, s.ledgers, s.stores⟩ : Storage).store chain = s.store chain := rfl
  simp only [addContent, hstore]
  cases (s.store chain).offline? <;> rfl

end Storage

namespace Keeper

variable {σ : Type}

/-- The next stage of a call that stores a key on a shelf of any kind. -/
def setStepOn (k : Keeper) (put : Putting σ) (req : SetRequest) (stage : SetStage) (v : Vault)
    (x : σ) (r : Entropy) : SetStage × Vault × σ × Entropy :=
  match stage with
  | .shelve pair cipher =>
    match put req.uuid cipher x with
    | (.value cid?, x) => (.note pair cid?, v, x, r)
    | (.failure e, x) => (.done (.failure e), v, x, r)
    | (.breakdown b, x) => (.done (.breakdown b), v, x, r)
  | stage =>
    -- no other step looks at what is on the shelves
    let (stage, s, r) := k.setStep req stage ⟨v, [], []⟩ r
    (stage, s.vault, x, r)

/-- How a call that stores a key on a shelf of any kind ends after at most `fuel` more steps without
interruption. -/
def runSetOn (k : Keeper) (put : Putting σ) (req : SetRequest) : (fuel : Nat) → SetStage → Vault →
    σ → Entropy → Outcome AdaptorError SetReply × Vault × σ × Entropy
  | _, .done outcome, v, x, r => (outcome, v, x, r)
  | 0, _, v, x, r => (.failure (.backend ""), v, x, r)
  | fuel + 1, stage, v, x, r =>
    let (stage, v, x, r) := k.setStepOn put req stage v x r
    runSetOn k put req fuel stage v x r

/-- A call that stores a key on a shelf of any kind and is not interrupted. -/
def setOn (k : Keeper) (put : Putting σ) (req : SetRequest) (v : Vault) (x : σ) (r : Entropy) :
    Outcome AdaptorError SetReply × Vault × σ × Entropy :=
  k.runSetOn put req mostSteps .lookUp v x r

/-- The stage of a call whose turns find the vault, the shelf and the random octets as others left
them. -/
def stageAfter (k : Keeper) (put : Putting σ) (req : SetRequest) : SetStage →
    List (Vault × σ × Entropy) → SetStage
  | stage, [] => stage
  | stage, (v, x, r) :: rest => stageAfter k put req (k.setStepOn put req stage v x r).1 rest

/-- The shelves of a keeper: the ledgers and the content stores of a node. -/
def put (k : Keeper) : Putting (Assoc String Ledger × Assoc String ContentStore) :=
  fun uuid cipher x =>
    let s : Storage := ⟨.empty, x.1, x.2⟩
    match k.shelf with
    | .ledger =>
      match s.appendLedger k.chain (ledgerKey uuid) [cipher] with
      | .ok s => (.value none, s.ledgers, s.stores)
      | .error e => (.failure e, x)
    | .content =>
      match s.addContent k.chain cipher with
      | .ok (s, cid) => (.value (some cid), s.ledgers, s.stores)
      | .error e => (.failure e, x)

/-! ### The shelves of a keeper -/

/-- What comes of a step or of a call, with the vault and the shelves as one storage. -/
def stored {α : Type} : α × Vault × (Assoc String Ledger × Assoc String ContentStore) × Entropy →
    α × Storage × Entropy
  | (a, v, (ledgers, stores), r) => (a, ⟨v, ledgers, stores⟩, r)

/-- **A step of a keeper** is one on its own shelves. -/
theorem setStep_eq (k : Keeper) (req : SetRequest) (stage : SetStage) (s : Storage) (r : Entropy) :
    k.setStep req stage s r =
      stored (k.setStepOn k.put req stage s.vault (s.ledgers, s.stores) r) := by
  cases stage with
  | shelve pair cipher =>
    simp only [setStep, setStepOn, put]
    cases k.shelf with
    | ledger =>
      simp only [s.appendLedger_eq]
      cases (⟨.empty, s.ledgers, s.stores⟩ : Storage).appendLedger k.chain (ledgerKey req.uuid)
        [cipher] <;> rfl
    | content =>
      simp only [s.addContent_eq]
      cases (⟨.empty, s.ledgers, s.stores⟩ : Storage).addContent k.chain cipher <;> rfl
  | lookUp =>
    simp only [setStep, setStepOn]
    split_ifs
    · rfl
    · cases s.vault.secret? req.uuid <;> rfl
  | generate =>
    simp only [setStep, setStepOn]
    rcases SecretRecord.generate req.uuid k.aes k.rsaBits r with ⟨_ | _, _⟩ <;> rfl
  | encrypt pair =>
    simp only [setStep, setStepOn]
    cases pair.codec req.uuid k.aes with
    | value codec =>
      dsimp only
      rcases codec.encrypt (Bytes.ofText req.key) r with ⟨_ | _ | _, _⟩ <;> rfl
    | _ => rfl
  | insert fresh => rfl
  | note pair cid? => rfl
  | done outcome => rfl

/-- A call on the shelves of a keeper, step by step. -/
theorem runSet_eq (k : Keeper) (req : SetRequest) (fuel : Nat) (stage : SetStage) (s : Storage)
    (r : Entropy) : k.runSet req fuel stage s r =
      stored (k.runSetOn k.put req fuel stage s.vault (s.ledgers, s.stores) r) := by
  induction fuel generalizing stage s r with
  | zero => cases stage <;> rfl
  | succ fuel ih =>
    cases stage with
    | done outcome => rfl
    | _ => rw [runSet_succ, setStep_eq, ih]; rfl

/-- **A call on an adaptor** is one on the shelves of its keeper. -/
theorem set_toAdaptor_eq (k : Keeper) (req : SetRequest) (s : Storage) (r : Entropy) :
    k.toAdaptor.set req (s, r) =
      stored (k.setOn k.put req s.vault (s.ledgers, s.stores) r) := by
  rw [setOn, ← runSet_eq]
  rfl

/-- A shelf of a keeper that does not take a ciphertext stays as it is. -/
theorem put_of_stopsAs {k : Keeper} {uuid : String} {cipher : Bytes}
    {x : Assoc String Ledger × Assoc String ContentStore} {outcome : Outcome AdaptorError SetReply}
    (h : StopsAs (k.put uuid cipher x).1 outcome) : (k.put uuid cipher x).2 = x := by
  cases hshelf : k.shelf with
  | ledger =>
    cases happend : (⟨.empty, x.1, x.2⟩ : Storage).appendLedger k.chain (ledgerKey uuid)
      [cipher] with
    | ok s =>
      simp only [put, hshelf, happend] at h
      exact absurd h (not_stopsAs_value none outcome)
    | error e => simp only [put, hshelf, happend]
  | content =>
    cases hadd : (⟨.empty, x.1, x.2⟩ : Storage).addContent k.chain cipher with
    | ok p =>
      simp only [put, hshelf, hadd] at h
      exact absurd h (not_stopsAs_value (some p.2) outcome)
    | error e => simp only [put, hshelf, hadd]

end Keeper

/-! ### What a step leaves behind -/

/-- The vault is as it was, or it has a fresh key pair of an identity that had none, and nothing
else. -/
def AtMostKeyed (k : Keeper) (uuid : String) (v v' : Vault) : Prop :=
  v' = v ∨ v.secret? uuid = none ∧ ∃ fresh r r',
    SecretRecord.generate uuid k.aes k.rsaBits r = (.ok fresh, r') ∧
      v' = { v with secrets := Assoc.put v.secrets uuid fresh }

/-- The shelf is as it was, or it did itself what stopped the call. -/
def ShelfKept {σ : Type} (put : Putting σ) (uuid : String) (x x' : σ)
    (outcome : Outcome AdaptorError SetReply) : Prop :=
  x' = x ∨ ∃ cipher, StopsAs (put uuid cipher x).1 outcome ∧ x' = (put uuid cipher x).2

/-- A key pair stays, so only one can have been added. -/
theorem AtMostKeyed.trans {k : Keeper} {uuid : String} {v v' v'' : Vault}
    (h : AtMostKeyed k uuid v v') (h' : AtMostKeyed k uuid v' v'') : AtMostKeyed k uuid v v'' := by
  rcases h with rfl | ⟨hnone, fresh, r, r', hfresh, rfl⟩
  · exact h'
  · rcases h' with rfl | ⟨hnone', -⟩
    · exact .inr ⟨hnone, fresh, r, r', hfresh, rfl⟩
    · rw [Vault.secret?, Assoc.get?_put, if_pos rfl] at hnone'
      cases hnone'

namespace Keeper

variable {σ : Type} {k : Keeper} {put : Putting σ} {req : SetRequest} {stage stage' : SetStage}
  {v v' : Vault} {x x' : σ} {r r' : Entropy} {outcome : Outcome AdaptorError SetReply}

/-- A record that is about to be put into the vault is a fresh one of the identity. -/
def SetStage.Fresh (k : Keeper) (uuid : String) : SetStage → Prop
  | .insert fresh => ∃ r r', SecretRecord.generate uuid k.aes k.rsaBits r = (.ok fresh, r')
  | _ => True

/-- The shelf has taken the ciphertext, so that nothing can stop the call. -/
def SetStage.IsLate : SetStage → Prop
  | .note _ _ | .done (.value _) => True
  | _ => False

/-- A step other than that on the shelf is one without shelves. -/
theorem setStepOn_of_setStep {s' : Storage} (hshelve : ∀ pair cipher, stage ≠ .shelve pair cipher)
    (h : k.setStep req stage ⟨v, [], []⟩ r = (stage', s', r')) :
    k.setStepOn put req stage v x r = (stage', s'.vault, x, r') := by
  cases stage with
  | shelve pair cipher => exact absurd rfl (hshelve pair cipher)
  | _ => simp only [setStepOn, h]

theorem setMove_of_setStepOn (hshelve : ∀ pair cipher, stage ≠ .shelve pair cipher)
    (h : k.setStepOn put req stage v x r = (stage', v', x', r')) :
    x' = x ∧ ∃ s', SetMove k req ⟨v, [], []⟩ r stage stage' s' ∧ s'.vault = v' := by
  rcases hstep : k.setStep req stage ⟨v, [], []⟩ r with ⟨stage₁, s₁, r₁⟩
  obtain ⟨rfl, rfl, rfl, rfl⟩ : stage₁ = stage' ∧ s₁.vault = v' ∧ x = x' ∧ r₁ = r' := by
    simpa using (setStepOn_of_setStep hshelve hstep).symm.trans h
  exact ⟨rfl, s₁, setMove_of_setStep hstep, rfl⟩

/-- Once the shelf has taken the ciphertext the call returns a reply. -/
theorem isLate_setStepOn (hlate : stage.IsLate)
    (h : k.setStepOn put req stage v x r = (stage', v', x', r')) : stage'.IsLate := by
  cases stage with
  | note pair cid? =>
    obtain rfl := congrArg Prod.fst h
    trivial
  | done outcome =>
    obtain rfl := congrArg Prod.fst h
    exact hlate
  | _ => exact absurd hlate id

theorem SetMove.fresh {s s' : Storage} (h : SetMove k req s r stage stage' s') :
    stage'.Fresh k req.uuid := by
  cases h with
  | generated hfresh => exact ⟨_, _, hfresh⟩
  | _ => trivial

/-- A call has just generated the record that it is about to put into the vault. -/
theorem fresh_setStepOn (h : k.setStepOn put req stage v x r = (stage', v', x', r')) :
    stage'.Fresh k req.uuid := by
  cases stage with
  | shelve pair cipher =>
    rcases hput : put req.uuid cipher x with ⟨_ | _ | _, x₁⟩ <;>
      · simp only [setStepOn, hput] at h
        obtain rfl := congrArg Prod.fst h
        trivial
  | _ =>
    obtain ⟨-, s', hmove, -⟩ := setMove_of_setStepOn (fun _ _ h => by cases h) h
    exact hmove.fresh

/-- Until the shelf has taken the ciphertext, a step adds at most a fresh key pair. -/
theorem SetMove.atMostKeyed {s s' : Storage} (h : SetMove k req s r stage stage' s')
    (hfresh : stage.Fresh k req.uuid) (hlate : ¬stage.IsLate) :
    AtMostKeyed k req.uuid s.vault s'.vault := by
  cases h with
  | @inserted fresh =>
    cases hnone : s.vault.secret? req.uuid with
    | some old => exact .inl (by rw [Vault.insertSecret_of_eq_some hnone])
    | none =>
      obtain ⟨r₀, r₁, hgenerate⟩ := hfresh
      exact .inr ⟨hnone, fresh, r₀, r₁, hgenerate, by rw [Vault.insertSecret, hnone]⟩
  | appended hshelf h => exact .inl (Storage.entries_of_appendLedger h).1
  | added hshelf h => exact .inl (Storage.ledgers_of_addContent h).1
  | noted => exact absurd trivial hlate
  | _ => exact .inl rfl

/-- **What a step leaves behind**, unless the shelf has taken the ciphertext. -/
theorem quiet_of_setStepOn (hfresh : stage.Fresh k req.uuid) (hlate : ¬stage'.IsLate)
    (h : k.setStepOn put req stage v x r = (stage', v', x', r')) :
    AtMostKeyed k req.uuid v v' ∧ (x' = x ∨ ∃ cipher outcome, stage' = .done outcome ∧
      StopsAs (put req.uuid cipher x).1 outcome ∧ x' = (put req.uuid cipher x).2) := by
  cases stage with
  | shelve pair cipher =>
    cases hput : put req.uuid cipher x with
    | mk result x₁ =>
      simp only [setStepOn, hput] at h
      cases result with
      | value cid? =>
        obtain rfl := congrArg Prod.fst h
        exact absurd trivial hlate
      | failure e =>
        obtain ⟨rfl, rfl, rfl, -⟩ := by simpa using h
        exact ⟨.inl rfl, .inr ⟨cipher, _, rfl, by rw [hput]; rfl, by rw [hput]⟩⟩
      | breakdown b =>
        obtain ⟨rfl, rfl, rfl, -⟩ := by simpa using h
        exact ⟨.inl rfl, .inr ⟨cipher, _, rfl, by rw [hput]; rfl, by rw [hput]⟩⟩
  | _ =>
    have hearly := mt (isLate_setStepOn · h) hlate
    obtain ⟨hx, s', hmove, rfl⟩ := setMove_of_setStepOn (fun _ _ h => by cases h) h
    exact ⟨hmove.atMostKeyed hfresh hearly, .inl hx⟩

/-! ### Whole calls -/

theorem runSetOn_done (fuel : Nat) (outcome : Outcome AdaptorError SetReply) :
    k.runSetOn put req fuel (.done outcome) v x r = (outcome, v, x, r) := by
  cases fuel <;> rfl

/-- A call that is over stays so, hence every stage goes on with a step. -/
theorem runSetOn_succ (fuel : Nat) (stage : SetStage) :
    k.runSetOn put req (fuel + 1) stage v x r =
      k.runSetOn put req fuel (k.setStepOn put req stage v x r).1
        (k.setStepOn put req stage v x r).2.1 (k.setStepOn put req stage v x r).2.2.1
        (k.setStepOn put req stage v x r).2.2.2 := by
  cases stage with
  | done outcome =>
    have hstep : k.setStepOn put req (.done outcome) v x r = (.done outcome, v, x, r) := rfl
    rw [hstep, runSetOn_done, runSetOn_done]
  | _ => rfl

/-- With every step there is one less to take. -/
theorem stepsLeft_setStepOn_le (h : k.setStepOn put req stage v x r = (stage', v', x', r')) :
    stage'.stepsLeft ≤ stage.stepsLeft - 1 := by
  cases stage with
  | shelve pair cipher =>
    rcases hput : put req.uuid cipher x with ⟨_ | _ | _, x₁⟩ <;>
      · simp only [setStepOn, hput] at h
        obtain rfl := congrArg Prod.fst h
        simp [SetStage.stepsLeft]
  | _ =>
    obtain ⟨-, s', hmove, -⟩ := setMove_of_setStepOn (fun _ _ h => by cases h) h
    exact hmove.stepsLeft_le

/-- A call whose shelf has taken the ciphertext returns a reply. -/
theorem exists_reply_of_isLate {fuel : Nat} (hlate : stage.IsLate) (hfuel : stage.stepsLeft ≤ fuel)
    (h : k.runSetOn put req fuel stage v x r = (outcome, v', x', r')) :
    ∃ reply, outcome = .value reply := by
  induction fuel generalizing stage v x r with
  | zero =>
    cases stage with
    | done outcome' =>
      cases outcome' with
      | value reply =>
        rw [runSetOn_done] at h
        exact ⟨reply, (congrArg Prod.fst h).symm⟩
      | _ => exact absurd hlate id
    | note pair cid? => exact absurd hfuel (by simp [SetStage.stepsLeft])
    | _ => exact absurd hlate id
  | succ fuel ih =>
    rcases hstep : k.setStepOn put req stage v x r with ⟨stage₁, v₁, x₁, r₁⟩
    have hle := stepsLeft_setStepOn_le hstep
    rw [runSetOn_succ, hstep] at h
    exact ih (isLate_setStepOn hlate hstep) (by omega) h

/-- **What a call leaves behind** that goes on from a stage and returns no reply. -/
theorem quiet_of_runSetOn {fuel : Nat} (hfresh : stage.Fresh k req.uuid)
    (hfuel : stage.stepsLeft ≤ fuel)
    (h : k.runSetOn put req fuel stage v x r = (outcome, v', x', r'))
    (hfail : ∀ reply, outcome ≠ .value reply) :
    AtMostKeyed k req.uuid v v' ∧ ShelfKept put req.uuid x x' outcome := by
  induction fuel generalizing stage v x r with
  | zero =>
    cases stage with
    | done outcome' =>
      obtain ⟨-, rfl, rfl, -⟩ := by simpa [runSetOn_done] using h
      exact ⟨.inl rfl, .inl rfl⟩
    | _ => exact absurd hfuel (by simp [SetStage.stepsLeft, mostSteps])
  | succ fuel ih =>
    rcases hstep : k.setStepOn put req stage v x r with ⟨stage₁, v₁, x₁, r₁⟩
    have hle := stepsLeft_setStepOn_le hstep
    rw [runSetOn_succ, hstep] at h
    have hlate : ¬stage₁.IsLate := by
      intro hlate
      obtain ⟨reply, hreply⟩ := exists_reply_of_isLate hlate (by omega) h
      exact hfail reply hreply
    obtain ⟨hkeyed, rfl | ⟨cipher, outcome₁, rfl, hstops, rfl⟩⟩ :=
      quiet_of_setStepOn hfresh hlate hstep
    · obtain ⟨hkeyed', hkept⟩ := ih (fresh_setStepOn hstep) (by omega) h
      exact ⟨hkeyed.trans hkeyed', hkept⟩
    · rw [runSetOn_done] at h
      obtain ⟨rfl, rfl, rfl, -⟩ := by simpa using h
      exact ⟨hkeyed, .inr ⟨cipher, hstops, rfl⟩⟩

/-- A call whose shelf refuses the first ciphertext of an identity leaves a key pair behind, if a
usable one is generated. -/
theorem exists_setOn_of_refused {key : PrivateKey} {e : AdaptorError} (huuid : req.uuid ≠ "")
    (hnone : v.secret? req.uuid = none)
    (hgenerate : Crypto.Rsa.generate k.rsaBits r = (.ok key, r')) (hkey : Usable key)
    (hput : ∀ cipher, put req.uuid cipher x = (.failure e, x')) :
    ∃ fresh r₂,
      k.setOn put req v x r = (.failure e, (v.insertSecret req.uuid fresh).1, x', r₂) := by
  obtain ⟨fresh, r₁, hgenerates, hencrypts⟩ := exists_fresh hgenerate hkey req
  obtain ⟨cipher, r₂, hencrypt⟩ := hencrypts r₁
  have hlookUp : k.setStepOn put req .lookUp v x r = (.generate, v, x, r) :=
    setStepOn_of_setStep (fun _ _ h => by cases h) (setStep_lookUp huuid hnone)
  have hgenerated : k.setStepOn put req .generate v x r = (.insert fresh, v, x, r₁) :=
    setStepOn_of_setStep (fun _ _ h => by cases h) (hgenerates _)
  have hinserted : k.setStepOn put req (.insert fresh) v x r₁ =
      (.encrypt fresh, (v.insertSecret req.uuid fresh).1, x, r₁) :=
    setStepOn_of_setStep (fun _ _ h => by cases h) (setStep_insert_of_eq_none fresh hnone)
  have hencrypted : k.setStepOn put req (.encrypt fresh) (v.insertSecret req.uuid fresh).1 x r₁ =
      (.shelve fresh cipher, (v.insertSecret req.uuid fresh).1, x, r₂) :=
    setStepOn_of_setStep (fun _ _ h => by cases h) (hencrypt _)
  have hrefused : k.setStepOn put req (.shelve fresh cipher) (v.insertSecret req.uuid fresh).1 x
      r₂ = (.done (.failure e), (v.insertSecret req.uuid fresh).1, x', r₂) := by
    simp only [setStepOn, hput]
  refine ⟨fresh, r₂, ?_⟩
  calc k.runSetOn put req mostSteps .lookUp v x r
      = k.runSetOn put req 5 .generate v x r := by rw [mostSteps, runSetOn_succ, hlookUp]
    _ = k.runSetOn put req 4 (.insert fresh) v x r₁ := by rw [runSetOn_succ, hgenerated]
    _ = k.runSetOn put req 3 (.encrypt fresh) (v.insertSecret req.uuid fresh).1 x r₁ := by
      rw [runSetOn_succ, hinserted]
    _ = k.runSetOn put req 2 (.shelve fresh cipher) (v.insertSecret req.uuid fresh).1 x r₂ := by
      rw [runSetOn_succ, hencrypted]
    _ = k.runSetOn put req 1 (.done (.failure e)) (v.insertSecret req.uuid fresh).1 x' r₂ := by
      rw [runSetOn_succ, hrefused]
    _ = (.failure e, (v.insertSecret req.uuid fresh).1, x', r₂) := runSetOn_done _ _

/-! ### Calls between whose turns others act -/

theorem stageAfter_append (stage : SetStage) (before after : List (Vault × σ × Entropy)) :
    k.stageAfter put req stage (before ++ after) =
      k.stageAfter put req (k.stageAfter put req stage before) after := by
  induction before generalizing stage with
  | nil => rfl
  | cons turn before ih => exact ih _

/-- What every step preserves holds after any turns, whatever others do between them. -/
theorem stageAfter_of_step {P : SetStage → Prop}
    (hstep : ∀ {stage v x r stage' v' x' r'}, P stage →
      k.setStepOn put req stage v x r = (stage', v', x', r') → P stage')
    (turns : List (Vault × σ × Entropy)) (h : P stage) : P (k.stageAfter put req stage turns) := by
  induction turns generalizing stage with
  | nil => exact h
  | cons turn turns ih =>
    obtain ⟨v, x, r⟩ := turn
    rcases hturn : k.setStepOn put req stage v x r with ⟨stage', v', x', r'⟩
    rw [stageAfter, hturn]
    exact ih (hstep h hturn)

theorem stageAfter_done (outcome : Outcome AdaptorError SetReply)
    (turns : List (Vault × σ × Entropy)) :
    k.stageAfter put req (.done outcome) turns = .done outcome :=
  stageAfter_of_step (P := (· = .done outcome))
    (fun hdone h => by subst hdone; exact (congrArg Prod.fst h).symm) turns rfl

/-- What a turn of a call leaves behind, unless the call ends with a reply. -/
theorem quiet_of_turn {before after : List (Vault × σ × Entropy)}
    (h : k.stageAfter put req .lookUp (before ++ (v, x, r) :: after) = .done outcome)
    (hfail : ∀ reply, outcome ≠ .value reply)
    (hstep : k.setStepOn put req (k.stageAfter put req .lookUp before) v x r =
      (stage', v', x', r')) :
    AtMostKeyed k req.uuid v v' ∧ ShelfKept put req.uuid x x' outcome := by
  have hfresh : (k.stageAfter put req .lookUp before).Fresh k req.uuid :=
    stageAfter_of_step (P := SetStage.Fresh k req.uuid) (fun _ h => fresh_setStepOn h) before
      trivial
  rw [stageAfter_append, stageAfter, hstep] at h
  have hlate : ¬stage'.IsLate := by
    intro hlate
    have hdone : (k.stageAfter put req stage' after).IsLate :=
      stageAfter_of_step isLate_setStepOn after hlate
    rw [h] at hdone
    cases outcome with
    | value reply => exact hfail reply rfl
    | _ => exact hdone
  obtain ⟨hkeyed, hx | ⟨cipher, outcome₁, rfl, hstops, rfl⟩⟩ :=
    quiet_of_setStepOn hfresh hlate hstep
  · exact ⟨hkeyed, .inl hx⟩
  · rw [stageAfter_done] at h
    obtain rfl := SetStage.done.inj h
    exact ⟨hkeyed, .inr ⟨cipher, hstops, rfl⟩⟩

end Keeper

/-- **What a call that returns no reply leaves behind.** Take a call that stores a key, and ends
otherwise than with a reply: it fails or breaks down, at whatever point.

On the adaptor of a keeper the ledgers and the content stores stay as they were, and so does the
vault, except that it may have a fresh key pair of the identity if it had none.

The same holds on a shelf of any kind, except that the shelf itself may have changed what is on it
if it stopped the call. And it holds for each single turn of a call, whatever others have done to
the vault and to the shelf between its turns, and do afterwards. -/
theorem failed_set_leaves_at_most_a_pair (k : Keeper) (req : SetRequest) :
    (∀ (s s' : Storage) (r r' : Entropy) (outcome : Outcome AdaptorError SetReply),
      k.toAdaptor.set req (s, r) = (outcome, s', r') → (∀ reply, outcome ≠ .value reply) →
      AtMostKeyed k req.uuid s.vault s'.vault ∧ s'.ledgers = s.ledgers ∧ s'.stores = s.stores) ∧
    ∀ {σ : Type} (put : Putting σ),
      (∀ (v v' : Vault) (x x' : σ) (r r' : Entropy) (outcome : Outcome AdaptorError SetReply),
        k.setOn put req v x r = (outcome, v', x', r') → (∀ reply, outcome ≠ .value reply) →
        AtMostKeyed k req.uuid v v' ∧ ShelfKept put req.uuid x x' outcome) ∧
      ∀ (before after : List (Vault × σ × Entropy)) (v : Vault) (x : σ) (r : Entropy)
        (outcome : Outcome AdaptorError SetReply),
        k.stageAfter put req .lookUp (before ++ (v, x, r) :: after) = .done outcome →
        (∀ reply, outcome ≠ .value reply) →
        ∀ stage' v' x' r', k.setStepOn put req (k.stageAfter put req .lookUp before) v x r =
            (stage', v', x', r') →
          AtMostKeyed k req.uuid v v' ∧ ShelfKept put req.uuid x x' outcome := by
  have hbegin : Keeper.SetStage.Fresh k req.uuid .lookUp := trivial
  refine ⟨fun s s' r r' outcome h hfail => ?_, fun put => ⟨fun v v' x x' r r' outcome h hfail => ?_,
    fun before after v x r outcome h hfail stage' v' x' r' hstep => ?_⟩⟩
  · rcases hset : k.setOn k.put req s.vault (s.ledgers, s.stores) r with
      ⟨outcome₁, v₁, ⟨ledgers, stores⟩, r₁⟩
    rw [Keeper.set_toAdaptor_eq, hset] at h
    obtain ⟨rfl, rfl, -⟩ : outcome₁ = outcome ∧ ⟨v₁, ledgers, stores⟩ = s' ∧ r₁ = r' := by
      simpa [Keeper.stored] using h
    obtain ⟨hkeyed, hkept | ⟨cipher, hstops, hkept⟩⟩ :=
      Keeper.quiet_of_runSetOn hbegin le_rfl hset hfail
    · exact ⟨hkeyed, congrArg Prod.fst hkept, congrArg Prod.snd hkept⟩
    · rw [Keeper.put_of_stopsAs hstops] at hkept
      exact ⟨hkeyed, congrArg Prod.fst hkept, congrArg Prod.snd hkept⟩
  · exact Keeper.quiet_of_runSetOn hbegin le_rfl h hfail
  · exact Keeper.quiet_of_turn h hfail hstep

/-- A shelf that counts the ciphertexts which it refuses. -/
def refusing : Putting Nat := fun _ _ n => (.failure (.backend "out of space"), n + 1)

/-- A call that is refused by its shelf leaves the first key pair of its identity behind, and the
count of the shelf. -/
theorem refused_set_leaves_a_pair : ∃ r r' v',
    (shortCustodian.keeper "Ethereum" .ledger).setOn refusing ⟨"Ethereum", "u1", "k1", "", ""⟩
      .empty 0 r = (.failure (.backend "out of space"), v', 1, r') ∧
    (v'.secret? "u1").isSome ∧
    AtMostKeyed (shortCustodian.keeper "Ethereum" .ledger) "u1" .empty v' ∧
    ShelfKept refusing "u1" 0 1 (.failure (.backend "out of space")) := by
  obtain ⟨r, r', hgenerate⟩ := exists_generate_shortKey
  obtain ⟨fresh, r₂, hset⟩ : ∃ fresh r₂, (shortCustodian.keeper "Ethereum" .ledger).setOn refusing
      ⟨"Ethereum", "u1", "k1", "", ""⟩ .empty 0 r =
        (.failure (.backend "out of space"), (Vault.empty.insertSecret "u1" fresh).1, 1, r₂) :=
    Keeper.exists_setOn_of_refused (by decide) rfl hgenerate usable_shortKey fun _ => rfl
  obtain ⟨hkeyed, hkept⟩ := ((failed_set_leaves_at_most_a_pair
    (shortCustodian.keeper "Ethereum" .ledger) ⟨"Ethereum", "u1", "k1", "", ""⟩).2 refusing).1
      _ _ _ _ _ _ _ hset (fun reply h => by cases h)
  exact ⟨r, r₂, _, hset, rfl, hkeyed, hkept⟩

end KeyCustody.Custody
