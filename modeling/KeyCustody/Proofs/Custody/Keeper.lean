import KeyCustody.Custody.Keeper
import KeyCustody.Proofs.Custody.Vault
/-!
# What the steps of a keeper do

Everything that a step of a call which stores a key can do is listed once; whatever the steps
preserve is then a case for each entry of the list. A step of a call which looks keys up changes
nothing, and its end is what the ciphertexts that it saw decrypt to.

## Main definitions

* `Storage.entries`: what is in the ledger of a chain.
* `Keeper.SetMove`: what a step of a call that stores a key can do.
* `Keeper.setUnder`: the call with the codec that the vault gave.

## Main results

* `Storage.entries_of_appendLedger`: one entry of one ledger grows.
* `Keeper.setMove_of_setStep`: the steps do no more than what is listed.
* `Keeper.SetMove.secret?_eq_some`: no step takes a key pair away.
* `Keeper.set_toAdaptor_eq_codecFor`, `Keeper.getStep_unlock_eq_codecOf`: the stages of calls come
  to the codec that the vault gives.
* `Keeper.getStep_unlock`: how a call that looks keys up ends.
-/

namespace KeyCustody.Custody

open Crypto (SymmetricKey Entropy)
open Crypto.Rsa (Codec PrivateKey)
open Wire (GetRequest GetReply SetRequest SetReply SocialKey)

/-! ### Ledgers -/

namespace Storage

variable {s s' : Storage} {chain c : String} {name name' : Bytes} {es : List Bytes}

/-- What is in the ledger of a chain under the name of an identity. -/
def entries (s : Storage) (chain : String) (name : Bytes) : List Bytes :=
  (Assoc.get? (s.ledger chain).entries name).getD []

theorem queryLedger_eq_ok (h : (s.ledger chain).offline? = none) :
    s.queryLedger chain name = .ok (s.entries chain name) := by
  rw [queryLedger, h]
  rfl

theorem ledger_put (l : Ledger) :
    ({ s with ledgers := Assoc.put s.ledgers chain l } : Storage).ledger c =
    if c = chain then l else s.ledger c := by
  simp only [ledger, Assoc.get?_put]
  split_ifs <;> rfl

/-- A ledger that grows was in reach, and grows at one place. -/
theorem entries_of_appendLedger (h : s.appendLedger chain name es = .ok s') :
    s'.vault = s.vault ∧ s'.stores = s.stores ∧
      (∀ c, (s'.ledger c).offline? = (s.ledger c).offline?) ∧
      ∀ c name', s'.entries c name' =
        if c = chain ∧ name' = name then s.entries c name' ++ es else s.entries c name' := by
  obtain ⟨-, -, h⟩ := bind_eq_ok.1 h
  obtain rfl := Except.ok.inj h
  refine ⟨rfl, rfl, fun c => ?_, fun c name' => ?_⟩
  · rw [ledger_put]
    split_ifs with hc
    · rw [hc]
    · rfl
  · rw [entries, ledger_put]
    by_cases hc : c = chain
    · subst hc
      rw [if_pos rfl, Assoc.modify, Assoc.get?_put]
      by_cases hname : name' = name
      · subst hname
        rw [if_pos rfl, if_pos ⟨rfl, rfl⟩]
        rfl
      · rw [if_neg hname, if_neg (fun h => hname h.2)]
        rfl
    · rw [if_neg hc, if_neg (fun h => hc h.1)]
      rfl

theorem exists_appendLedger (h : (s.ledger chain).offline? = none) (name : Bytes)
    (es : List Bytes) :
    ∃ s', s.appendLedger chain name es = .ok s' := by
  rw [appendLedger, h]
  exact ⟨_, rfl⟩

theorem ledgers_of_addContent {data : Bytes} {cid : String}
    (h : s.addContent chain data = .ok (s', cid)) :
    s'.vault = s.vault ∧ s'.ledgers = s.ledgers := by
  obtain ⟨-, -, h⟩ := bind_eq_ok.1 h
  obtain rfl := congrArg Prod.fst (Except.ok.inj h)
  exact ⟨rfl, rfl⟩

end Storage

namespace Keeper

variable {k : Keeper} {req : SetRequest} {s s' : Storage} {r r' : Entropy} {stage stage' : SetStage}

/-! ### Storing a key -/

/-- Nothing is on the shelf yet. -/
def SetStage.IsEarly : SetStage → Prop
  | .note _ _ | .done _ => False
  | _ => True

/-- A call for an identity without a key pair is to generate one. -/
theorem setStep_lookUp (huuid : req.uuid ≠ "") (h : s.vault.secret? req.uuid = none) :
    k.setStep req .lookUp s r = (.generate, s, r) := by
  simp [setStep, huuid, h]

/-- What a step of a call that stores a key can do, from randomness `r`. -/
inductive SetMove (k : Keeper) (req : SetRequest) (s : Storage) (r : Entropy) :
    SetStage → SetStage → Storage → Prop
  /-- The call fails, or breaks down. -/
  | stop {stage : SetStage} {outcome : Outcome AdaptorError SetReply} (hearly : stage.IsEarly)
      (h : ∀ reply, outcome ≠ .value reply) : SetMove k req s r stage (.done outcome) s
  | found {pair : SecretRecord} (h : s.vault.secret? req.uuid = some pair) :
      SetMove k req s r .lookUp (.encrypt pair) s
  | missing : SetMove k req s r .lookUp .generate s
  | generated {fresh : SecretRecord} {r' : Entropy}
      (h : SecretRecord.generate req.uuid k.aes k.rsaBits r = (.ok fresh, r')) :
      SetMove k req s r .generate (.insert fresh) s
  | inserted {fresh : SecretRecord} :
      SetMove k req s r (.insert fresh) (.encrypt (s.vault.insertSecret req.uuid fresh).2)
        { s with vault := (s.vault.insertSecret req.uuid fresh).1 }
  | encrypted {pair : SecretRecord} {codec : Codec} {cipher : Bytes} {r' : Entropy}
      (hcodec : pair.codec req.uuid k.aes = .value codec)
      (hcipher : codec.encrypt (Bytes.ofText req.key) r = (.value cipher, r')) :
      SetMove k req s r (.encrypt pair) (.shelve pair cipher) s
  | appended {pair : SecretRecord} {cipher : Bytes} {s' : Storage} (hshelf : k.shelf = .ledger)
      (h : s.appendLedger k.chain (ledgerKey req.uuid) [cipher] = .ok s') :
      SetMove k req s r (.shelve pair cipher) (.note pair none) s'
  | added {pair : SecretRecord} {cipher : Bytes} {s' : Storage} {cid : String}
      (hshelf : k.shelf = .content) (h : s.addContent k.chain cipher = .ok (s', cid)) :
      SetMove k req s r (.shelve pair cipher) (.note pair (some cid)) s'
  | noted {pair : SecretRecord} {cid? : Option String} :
      SetMove k req s r (.note pair cid?) (.done (.value (k.setReply pair cid?)))
        { s with vault := s.vault.addNote req.uuid ⟨req.password, cid?⟩ }
  /-- The call is over. -/
  | idle {outcome : Outcome AdaptorError SetReply} :
      SetMove k req s r (.done outcome) (.done outcome) s

/-- **The steps of a call that stores a key** do no more than what is listed. -/
theorem setMove_of_setStep (h : k.setStep req stage s r = (stage', s', r')) :
    SetMove k req s r stage stage' s' := by
  cases stage with
  | lookUp =>
    simp only [setStep] at h
    split_ifs at h
    · cases h
      exact .stop trivial fun reply h => by cases h
    · split at h
      · rename_i pair hpair
        cases h
        exact .found hpair
      · cases h
        exact .missing
  | generate =>
    simp only [setStep] at h
    split at h
    · rename_i fresh r₁ hgenerate
      cases h
      exact .generated hgenerate
    · cases h
      exact .stop trivial fun reply h => by cases h
  | insert fresh =>
    cases h
    exact .inserted
  | encrypt pair =>
    simp only [setStep] at h
    split at h
    · cases h
      exact .stop trivial fun reply h => by cases h
    · cases h
      exact .stop trivial fun reply h => by cases h
    · rename_i codec hcodec
      split at h
      · rename_i cipher r₁ hcipher
        cases h
        exact .encrypted hcodec hcipher
      · cases h
        exact .stop trivial fun reply h => by cases h
      · cases h
        exact .stop trivial fun reply h => by cases h
  | shelve pair cipher =>
    simp only [setStep] at h
    split at h
    · rename_i hshelf
      split at h
      · rename_i s₁ happend
        cases h
        exact .appended hshelf happend
      · cases h
        exact .stop trivial fun reply h => by cases h
    · rename_i hshelf
      split at h
      · rename_i s₁ cid hadd
        cases h
        exact .added hshelf hadd
      · cases h
        exact .stop trivial fun reply h => by cases h
  | note pair cid? =>
    cases h
    exact .noted
  | done outcome =>
    cases h
    exact .idle

/-- How many more steps a call that stores a key takes at most. -/
def SetStage.stepsLeft : SetStage → Nat
  | .lookUp => mostSteps
  | .generate => 5
  | .insert _ => 4
  | .encrypt _ => 3
  | .shelve _ _ => 2
  | .note _ _ => 1
  | .done _ => 0

theorem setStep_generate {fresh : SecretRecord}
    (h : SecretRecord.generate req.uuid k.aes k.rsaBits r = (.ok fresh, r')) :
    k.setStep req .generate s r = (.insert fresh, s, r') := by
  simp only [setStep, h]

theorem setStep_insert (fresh : SecretRecord) : k.setStep req (.insert fresh) s r =
    (.encrypt (s.vault.insertSecret req.uuid fresh).2,
      { s with vault := (s.vault.insertSecret req.uuid fresh).1 }, r) := rfl

/-- The first key pair that is put into the vault for an identity is the one that is kept. -/
theorem setStep_insert_of_eq_none (fresh : SecretRecord) (h : s.vault.secret? req.uuid = none) :
    k.setStep req (.insert fresh) s r = (.encrypt fresh,
      { s with vault := (s.vault.insertSecret req.uuid fresh).1 }, r) := by
  rw [setStep_insert, (Vault.secret?_insertSecret_of_eq_none fresh req.uuid h).1]

theorem setStep_encrypt {pair : SecretRecord} {codec : Codec} {cipher : Bytes}
    (hcodec : pair.codec req.uuid k.aes = .value codec)
    (h : codec.encrypt (Bytes.ofText req.key) r = (.value cipher, r')) :
    k.setStep req (.encrypt pair) s r = (.shelve pair cipher, s, r') := by
  simp only [setStep, hcodec, h]

/-- A usable key that is generated makes a fresh record, under which the key of a request can be
encrypted. -/
theorem exists_fresh {key : PrivateKey}
    (hgenerate : Crypto.Rsa.generate k.rsaBits r = (.ok key, r')) (hkey : Usable key)
    (req : SetRequest) :
    ∃ fresh r₁, (∀ s, k.setStep req .generate s r = (.insert fresh, s, r₁)) ∧
      ∀ r, ∃ cipher r₂, ∀ s,
        k.setStep req (.encrypt fresh) s r = (.shelve fresh cipher, s, r₂) := by
  obtain ⟨fresh, r₁, hfresh, hseals⟩ := SecretRecord.exists_generate hgenerate req.uuid k.aes
  refine ⟨fresh, r₁, fun s => setStep_generate hfresh, fun r => ?_⟩
  have hfit := Crypto.Rsa.fit_of_generate hgenerate hkey.prime1 hkey.prime2
  obtain ⟨cipher, r₂, hcipher, -⟩ :=
    Codec.decrypt_encrypt hfit hkey.size (Bytes.ofText req.key) r
  exact ⟨cipher, r₂, fun s => setStep_encrypt (hseals.codec_of_usable hkey req.uuid) hcipher⟩

theorem setStep_shelve {pair : SecretRecord} {cipher : Bytes} (hshelf : k.shelf = .ledger)
    (h : s.appendLedger k.chain (ledgerKey req.uuid) [cipher] = .ok s') :
    k.setStep req (.shelve pair cipher) s r = (.note pair none, s', r) := by
  simp only [setStep, hshelf, h]

theorem setStep_shelve_content {pair : SecretRecord} {cipher : Bytes} {cid : String}
    (hshelf : k.shelf = .content) (h : s.addContent k.chain cipher = .ok (s', cid)) :
    k.setStep req (.shelve pair cipher) s r = (.note pair (some cid), s', r) := by
  simp only [setStep, hshelf, h]

theorem runSet_done (fuel : Nat) (outcome : Outcome AdaptorError SetReply) :
    k.runSet req fuel (.done outcome) s r = (outcome, s, r) := by
  cases fuel <;> rfl

/-- A call that is over stays so, hence every stage goes on with a step. -/
theorem runSet_succ (fuel : Nat) (stage : SetStage) : k.runSet req (fuel + 1) stage s r =
    k.runSet req fuel (k.setStep req stage s r).1 (k.setStep req stage s r).2.1
      (k.setStep req stage s r).2.2 := by
  cases stage with
  | done outcome => rw [setStep, runSet_done, runSet_done]
  | _ => rfl

namespace SetMove

/-- No step takes a key pair away. -/
theorem secret?_eq_some {u : String} {pair : SecretRecord}
    (h : SetMove k req s r stage stage' s') (hu : s.vault.secret? u = some pair) :
    s'.vault.secret? u = some pair := by
  cases h with
  | inserted => exact Vault.secret?_insertSecret_of_eq_some hu
  | appended hshelf h => rw [(Storage.entries_of_appendLedger h).1, hu]
  | added hshelf h => rw [(Storage.ledgers_of_addContent h).1, hu]
  | _ => exact hu

/-- A key pair was there before, or it is the fresh one that the step is about. -/
theorem secret?_cases {u : String} {pair : SecretRecord} (h : SetMove k req s r stage stage' s')
    (hu : s'.vault.secret? u = some pair) :
    s.vault.secret? u = some pair ∨ stage = .insert pair := by
  cases h with
  | inserted =>
    rcases Vault.secret?_insertSecret_cases hu with hu | rfl
    · exact .inl hu
    · exact .inr rfl
  | appended hshelf h =>
    rw [(Storage.entries_of_appendLedger h).1] at hu
    exact .inl hu
  | added hshelf h =>
    rw [(Storage.ledgers_of_addContent h).1] at hu
    exact .inl hu
  | _ => exact .inl hu

/-- With every step there is one less to take. -/
theorem stepsLeft_le (h : SetMove k req s r stage stage' s') :
    stage'.stepsLeft ≤ stage.stepsLeft - 1 := by
  cases h <;> simp [SetStage.stepsLeft, mostSteps]

/-- No step puts a ledger out of reach. -/
theorem offline?_eq (h : SetMove k req s r stage stage' s') (c : String) :
    (s'.ledger c).offline? = (s.ledger c).offline? := by
  cases h with
  | appended hshelf h => exact (Storage.entries_of_appendLedger h).2.2.1 c
  | added hshelf h => simp only [Storage.ledger, (Storage.ledgers_of_addContent h).2]
  | _ => rfl

end SetMove

/-! ### The codec of a call that stores a key -/

/-- A call that has steps enough ends as it does with more of them. -/
theorem runSet_succ_of_le {fuel : Nat} (h : stage.stepsLeft ≤ fuel) :
    k.runSet req (fuel + 1) stage s r = k.runSet req fuel stage s r := by
  induction fuel generalizing stage s r with
  | zero =>
    cases stage with
    | done outcome => rfl
    | _ => exact absurd h (by simp [SetStage.stepsLeft, mostSteps])
  | succ fuel ih =>
    rcases hstep : k.setStep req stage s r with ⟨stage', s', r'⟩
    have hle := (setMove_of_setStep hstep).stepsLeft_le
    have hrest : k.runSet req (fuel + 1) stage' s' r' = k.runSet req fuel stage' s' r' :=
      ih (by omega)
    rw [runSet_succ (fuel + 1), hstep, hrest, runSet_succ fuel, hstep]

/-- How a call that stores a key ends with what the vault has to say about its codec. -/
def setUnder (k : Keeper) (req : SetRequest) (s : Storage) :
    Outcome AdaptorError (Codec × SecretRecord) × Vault × Entropy →
      Outcome AdaptorError SetReply × Storage × Entropy
  | (.failure e, vault, r) => (.failure e, { s with vault }, r)
  | (.breakdown b, vault, r) => (.breakdown b, { s with vault }, r)
  | (.value (codec, pair), vault, r) =>
    match codec.encrypt (Bytes.ofText req.key) r with
    | (.value cipher, r) => k.runSet req 2 (.shelve pair cipher) { s with vault } r
    | (.failure e, r) => (.failure (.codec req.uuid e), { s with vault }, r)
    | (.breakdown b, r) => (.breakdown b, { s with vault }, r)

theorem runSet_encrypt (pair : SecretRecord) (vault : Vault) :
    k.runSet req 3 (.encrypt pair) { s with vault } r =
      k.setUnder req s ((do pure (← pair.codec req.uuid k.aes, pair)), vault, r) := by
  rw [runSet_succ, setStep]
  cases pair.codec req.uuid k.aes with
  | value codec =>
    rw [Outcome.value_bind]
    simp only [setUnder, pure]
    rcases codec.encrypt (Bytes.ofText req.key) r with ⟨_ | _ | _, r'⟩
    · rfl
    · exact runSet_done _ _
    · exact runSet_done _ _
  | failure e => exact runSet_done _ _
  | breakdown b => exact runSet_done _ _

/-- **A call that stores a key and is not interrupted** asks the vault for the codec of its
identity, for which the vault makes a key pair if it has none. -/
theorem set_toAdaptor_eq_codecFor (huuid : req.uuid ≠ "") : k.toAdaptor.set req (s, r) =
    k.setUnder req s (s.vault.codecFor req.uuid k.aes k.rsaBits r) := by
  have hbegin : k.toAdaptor.set req (s, r) = k.runSet req 6 .lookUp s r := rfl
  rw [hbegin, Vault.codecFor, runSet_succ]
  cases hpair : s.vault.secret? req.uuid with
  | some pair =>
    have hlookUp : k.setStep req .lookUp s r = (.encrypt pair, s, r) := by
      simp [setStep, huuid, hpair]
    have hle : (SetStage.encrypt pair).stepsLeft ≤ 3 := le_rfl
    rw [hlookUp, runSet_succ_of_le (hle.trans (by decide)), runSet_succ_of_le hle]
    exact runSet_encrypt pair s.vault
  | none =>
    rw [setStep_lookUp huuid hpair, runSet_succ]
    rcases hgenerate : SecretRecord.generate req.uuid k.aes k.rsaBits r with ⟨e | fresh, r'⟩
    · simp only [setStep, hgenerate]
      exact runSet_done _ _
    · rw [setStep_generate hgenerate, runSet_succ, setStep_insert]
      exact runSet_encrypt _ _

/-! ### Looking keys up -/

variable {getReq : GetRequest} {codec : Codec} {pair : SecretRecord} {cs plain : List Bytes}

/-- How many more steps a call that looks keys up takes at most. -/
def GetStage.stepsLeft : GetStage → Nat
  | .find => 2
  | .unlock _ => 1
  | .done _ => 0

/-- With every step there is one less to take. -/
theorem stepsLeft_getStep_le (k : Keeper) (getReq : GetRequest) (s : Storage)
    (getStage : GetStage) :
    (k.getStep getReq getStage s).stepsLeft ≤ getStage.stepsLeft - 1 := by
  cases getStage with
  | find =>
    simp only [getStep]
    split_ifs
    · exact Nat.zero_le _
    · split <;> simp [GetStage.stepsLeft]
  | unlock cs =>
    simp only [getStep]
    split <;> simp [GetStage.stepsLeft]
  | done outcome => exact Nat.zero_le _

theorem runGet_done (fuel : Nat) (outcome : Outcome AdaptorError GetReply) :
    k.runGet getReq fuel (.done outcome) s = outcome := by
  cases fuel <;> rfl

theorem runGet_succ (fuel : Nat) (getStage : GetStage) :
    k.runGet getReq (fuel + 1) getStage s =
      k.runGet getReq fuel (k.getStep getReq getStage s) s := by
  cases getStage with
  | done outcome => rw [getStep, runGet_done, runGet_done]
  | _ => rfl

theorem decryptAll_eq_value {uuid : String}
    (h : List.Forall₂ (fun c p => codec.decrypt c = .ok p) cs plain) :
    decryptAll uuid codec cs = .value plain := by
  induction h with
  | nil => rfl
  | cons hhead _ ih =>
    rw [decryptAll, hhead, Outcome.ofExcept_ok, Outcome.mapFailure_value, Outcome.value_bind, ih,
      Outcome.value_bind]
    rfl

/-- A call that saw nothing in the ledger ends with a miss, and one that saw something goes on. -/
theorem getStep_find (hshelf : k.shelf = .ledger) (huuid : getReq.uuid ≠ "")
    (hreach : (s.ledger k.chain).offline? = none) :
    k.getStep getReq .find s =
      if s.entries k.chain (ledgerKey getReq.uuid) = [] then .done (.failure (k.miss getReq))
      else .unlock (s.entries k.chain (ledgerKey getReq.uuid)) := by
  have hisEmpty : getReq.uuid.isEmpty = false := by
    simpa using huuid
  have hciphers : k.ciphers getReq s = .ok (s.entries k.chain (ledgerKey getReq.uuid)) := by
    rw [ciphers, hshelf]
    exact Storage.queryLedger_eq_ok hreach
  simp only [getStep, hisEmpty, Bool.false_eq_true, if_false, hciphers]
  split
  · rename_i h
    cases h
  · rename_i h
    rw [if_pos (Except.ok.inj h)]
  · rename_i cs hne h
    obtain rfl := Except.ok.inj h
    rw [if_neg]
    exact fun hnil => hne (by rw [hnil])

/-- A call that saw something asks the vault for the codec of its identity. -/
theorem getStep_unlock_eq_codecOf : k.getStep getReq (.unlock cs) s = .done (do
    let codec ← s.vault.codecOf k.chain getReq.uuid k.aes
    let plain ← decryptAll getReq.uuid codec cs
    pure (k.getReply getReq plain)) := by
  simp only [getStep, Vault.codecOf]
  cases s.vault.secret? getReq.uuid <;> rfl

/-- **How a call that looks keys up ends**: with what the ciphertexts that it saw decrypt to. -/
theorem getStep_unlock (hpair : s.vault.secret? getReq.uuid = some pair)
    (hcodec : pair.codec getReq.uuid k.aes = .value codec)
    (h : List.Forall₂ (fun c p => codec.decrypt c = .ok p) cs plain) :
    k.getStep getReq (.unlock cs) s = .done (.value (k.getReply getReq plain)) := by
  have hcodecOf : s.vault.codecOf k.chain getReq.uuid k.aes = .value codec := by
    rw [Vault.codecOf, hpair]
    exact hcodec
  rw [getStep_unlock_eq_codecOf, hcodecOf, Outcome.value_bind, decryptAll_eq_value h]
  rfl

end Keeper

end KeyCustody.Custody
