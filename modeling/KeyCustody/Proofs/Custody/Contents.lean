import KeyCustody.Proofs.Custody.Isolation
import KeyCustody.Proofs.Text.Hex
/-!
# What is kept in content stores

A content store names what is in it by its hash. All identities share it, so what it needs to give
the keys of an identity back is that every blob in it was encrypted under the key pair of the
identity that put it there, and that this pair never changes. Then a call that asks for the name
which an earlier call for the same identity was given ends with the key that was stored, whatever
other calls do before, between and after. Only two blobs with the same hash could get in the way.

## Main definitions

* `Progress.yields`: what the turns of a history yield, one after another.
* `Progress.made`, `Progress.blobs`: the keys that a history generates, and what it puts into the
  content store of a chain.
* `Indexed`: what has gone into a content store.
* `Progress.Stocked`: the invariant of histories.

## Main results

* `Indexed.find_of_mem`, `Indexed.find_of_forall_ne`: what was stored is found under its name, and
  nothing else is.
* `Progress.Stocked.next`, `Progress.Stocked.run`: turns preserve the invariant.
* `key_under_content_id`: what a call that looks up a key in a content store ends with.
-/

namespace KeyCustody.Custody

open Crypto (Entropy SymmetricKey)
open Crypto.Rsa (Codec PrivateKey)
open Keeper (SetStage GetStage SetMove)
open Wire (GetRequest GetReply SetRequest SetReply)

/-! ### Content stores -/

/-- Different names are those of different hashes. -/
theorem digest_eq_of_contentId_eq {data data' : Bytes} (h : contentId data = contentId data') :
    Crypto.Sha256.digest data = Crypto.Sha256.digest data' :=
  Text.Hex.encode_injective h

theorem contentId_ne_empty (data : Bytes) : contentId data ≠ "" := by
  refine Text.Hex.encode_ne_empty fun h => ?_
  have hlength := Crypto.Sha256.length_digest data
  rw [h] at hlength
  cases hlength

namespace Storage

variable {s s' : Storage} {chain cid : String} {data : Bytes}

/-- What the content store of a chain has under a name. -/
def content? (s : Storage) (chain cid : String) : Option Bytes :=
  Assoc.get? (s.store chain).contents cid

theorem getContent_eq_ok (h : (s.store chain).offline? = none) (cid : String) :
    s.getContent chain cid = .ok (s.content? chain cid) := by
  rw [getContent, h]
  rfl

/-- A store that takes a content has it under its name, and all others as before. -/
theorem content?_of_addContent (h : s.addContent chain data = .ok (s', cid)) :
    cid = contentId data ∧ ∀ c name, s'.content? c name =
      if c = chain ∧ name = contentId data then some data else s.content? c name := by
  obtain ⟨-, -, h⟩ := bind_eq_ok.1 h
  obtain ⟨rfl, rfl⟩ := Prod.mk.inj (Except.ok.inj h)
  refine ⟨rfl, fun c name => ?_⟩
  rw [content?, store, Assoc.get?_put]
  by_cases hc : c = chain
  · subst hc
    rw [if_pos rfl, Option.getD_some, Assoc.get?_put]
    by_cases hname : name = contentId data
    · rw [if_pos hname, if_pos ⟨rfl, hname⟩]
    · rw [if_neg hname, if_neg (fun h => hname h.2)]
      rfl
  · rw [if_neg hc, if_neg (fun h => hc h.1)]
    rfl

theorem store_of_appendLedger {name : Bytes} {es : List Bytes}
    (h : s.appendLedger chain name es = .ok s') (c : String) : s'.store c = s.store c := by
  rw [store, (entries_of_appendLedger h).2.1]
  rfl

end Storage

/-! ### Steps of calls that store keys -/

/-- What the step of a call from a stage to a stage puts into the content store of a chain. -/
def shelvedAt (order : SetOrder) (chain : String) : SetStage → SetStage → Option Bytes
  | .shelve _ cipher, .note _ _ =>
    if order.shelf = .content ∧ order.chain = chain then some cipher else none
  | _, _ => none

section Storing

variable {c : Custodian} {order : SetOrder} {s s' : Storage} {r : Entropy} {stage stage' : SetStage}

/-- No step puts a content store out of reach. -/
theorem Keeper.SetMove.store_offline?_eq {k : Keeper} {req : SetRequest}
    (h : SetMove k req s r stage stage' s') (chain : String) :
    (s'.store chain).offline? = (s.store chain).offline? := by
  cases h with
  | appended hshelf h => rw [Storage.store_of_appendLedger h]
  | added hshelf h => exact Storage.offline?_of_addContent h chain
  | _ => rfl

/-- A step puts a blob into the content store of a chain under the name of the blob, or leaves the
store alone. -/
theorem content?_of_setMove
    (h : SetMove (c.keeper order.chain order.shelf) order.request s r stage stage' s')
    (chain : String) :
    (∃ cipher, shelvedAt order chain stage stage' = some cipher ∧ ∀ cid, s'.content? chain cid =
      if cid = contentId cipher then some cipher else s.content? chain cid) ∨
    (shelvedAt order chain stage stage' = none ∧
      ∀ cid, s'.content? chain cid = s.content? chain cid) := by
  cases h with
  | @added pair cipher s' cid hshelf hadd =>
    obtain ⟨rfl, hcontent⟩ := Storage.content?_of_addContent hadd
    by_cases hchain : order.chain = chain
    · refine .inl ⟨cipher, if_pos ⟨hshelf, hchain⟩, fun cid => ?_⟩
      rw [hcontent]
      simp only [Custodian.keeper, hchain, true_and]
    · refine .inr ⟨if_neg fun h => hchain h.2, fun cid => ?_⟩
      rw [hcontent, if_neg fun h => hchain h.1.symm]
  | @appended pair cipher s' hshelf happend =>
    have hledger : order.shelf ≠ .content := fun h => by
      rw [Custodian.keeper, h] at hshelf
      cases hshelf
    refine .inr ⟨if_neg fun h => hledger h.1, fun cid => ?_⟩
    rw [Storage.content?, Storage.store_of_appendLedger happend]
    rfl
  | @stop stage outcome hearly hfail => exact .inr ⟨by cases stage <;> rfl, fun _ => rfl⟩
  | _ => exact .inr ⟨rfl, fun _ => rfl⟩

/-- Blobs have gone into the content store of a chain: it is in reach, what is in it is a blob under
its own name, and every blob has a name under which there is something. -/
structure Indexed (chain : String) (bs : List Bytes) (s : Storage) : Prop where
  reach : (s.store chain).offline? = none
  blob {cid : String} {data : Bytes} (h : s.content? chain cid = some data) :
    data ∈ bs ∧ cid = contentId data
  named {data : Bytes} (h : data ∈ bs) : s.content? chain (contentId data) ≠ none

namespace Indexed

variable {chain : String} {bs : List Bytes}

theorem empty (chain : String) : Indexed chain [] .empty where
  reach := rfl
  blob h := by cases h
  named h := by cases h

/-- What has gone into a store is what was there before, and what a step puts there. -/
theorem of_setMove (h : Indexed chain bs s)
    (hmove : SetMove (c.keeper order.chain order.shelf) order.request s r stage stage' s') :
    Indexed chain (bs ++ (shelvedAt order chain stage stage').toList) s' := by
  have hreach := (hmove.store_offline?_eq chain).trans h.reach
  rcases content?_of_setMove hmove chain with ⟨cipher, hshelved, hcontent⟩ | ⟨hnone, hcontent⟩
  · rw [hshelved, Option.toList_some]
    refine ⟨hreach, fun {cid data} hdata => ?_, fun {data} hdata => ?_⟩
    · rw [hcontent] at hdata
      split_ifs at hdata with hcid
      · obtain rfl := Option.some.inj hdata
        exact ⟨List.mem_append_right _ List.mem_cons_self, hcid⟩
      · obtain ⟨hmem, hname⟩ := h.blob hdata
        exact ⟨List.mem_append_left _ hmem, hname⟩
    · rw [hcontent]
      split_ifs with hcid
      · exact Option.some_ne_none cipher
      · rcases List.mem_append.1 hdata with hmem | hmem
        · exact h.named hmem
        · exact absurd (congrArg contentId (List.mem_singleton.1 hmem)) hcid
  · rw [hnone, Option.toList_none, List.append_nil]
    exact ⟨hreach, fun {cid data} hdata => h.blob ((hcontent cid).symm.trans hdata),
      fun {data} hdata => by rw [hcontent]; exact h.named hdata⟩

/-- What was stored is found under its name, if no two blobs have the same hash. -/
theorem find_of_mem (h : Indexed chain bs s)
    (hhash : ∀ data ∈ bs, ∀ data' ∈ bs,
      Crypto.Sha256.digest data = Crypto.Sha256.digest data' → data = data')
    {data : Bytes} (hdata : data ∈ bs) : s.content? chain (contentId data) = some data := by
  obtain ⟨data', hfound⟩ := Option.ne_none_iff_exists'.1 (h.named hdata)
  obtain ⟨hmem, hname⟩ := h.blob hfound
  rw [hfound, hhash data hdata data' hmem (digest_eq_of_contentId_eq hname)]

/-- What was not stored is not found. -/
theorem find_of_forall_ne (h : Indexed chain bs s) {cid : String}
    (hcid : ∀ data ∈ bs, contentId data ≠ cid) : s.content? chain cid = none := by
  cases hfound : s.content? chain cid with
  | none => rfl
  | some data =>
    obtain ⟨hmem, hname⟩ := h.blob hfound
    exact absurd hname.symm (hcid data hmem)

end Indexed

end Storing

/-! ### Steps of calls that look keys up -/

namespace Keeper

variable {k : Keeper} {req : GetRequest} {s : Storage}

/-- A call that asks a content store looks for the name that it was given. -/
theorem getStep_find_content (hshelf : k.shelf = .content) (huuid : req.uuid ≠ "")
    (hreach : (s.store k.chain).offline? = none) :
    (s.content? k.chain req.fileCid = none →
      k.getStep req .find s = .done (.failure (k.miss req))) ∧
    ∀ data, s.content? k.chain req.fileCid = some data → req.fileCid ≠ "" →
      k.getStep req .find s = .unlock [data] := by
  have hisEmpty : req.uuid.isEmpty = false := by
    simpa using huuid
  have hciphers : k.ciphers req s =
      .ok (if req.fileCid.isEmpty then [] else (s.content? k.chain req.fileCid).toList) := by
    simp only [ciphers, hshelf, Storage.getContent_eq_ok hreach]
    split_ifs <;> rfl
  refine ⟨fun hnone => ?_, fun data hsome hcid => ?_⟩
  · have hnil : k.ciphers req s = .ok [] := by
      rw [hciphers, hnone, Option.toList_none, ite_self]
    simp only [getStep, hisEmpty, Bool.false_eq_true, if_false, hnil]
  · have hone : k.ciphers req s = .ok [data] := by
      rw [hciphers, hsome, if_neg (by simpa using hcid), Option.toList_some]
    simp only [getStep, hisEmpty, Bool.false_eq_true, if_false, hone]

end Keeper

/-! ### The invariant -/

section Sound

variable {c : Custodian} {chain : String} {bs : List Bytes}

/-- The primes of a key are prime numbers, and its modulus has at least twelve octets. -/
def Roomy (key : PrivateKey) : Prop :=
  key.prime1.Prime ∧ key.prime2.Prime ∧ 12 ≤ key.size

/-- A record seals a usable key whose numbers belong together. -/
def Keyed (aes : SymmetricKey) (record : SecretRecord) : Prop :=
  ∃ key : PrivateKey, key.Fit ∧ Usable key ∧ record.Seals aes key

/-- A name is that of a blob which is locked for the key of a request. -/
def Backed (aes : SymmetricKey) (v : Vault) (bs : List Bytes) (req : SetRequest) (cid : String) :
    Prop :=
  ∃ cipher ∈ bs, cid = contentId cipher ∧ Locked aes v req.uuid req.key cipher

/-- The record of a call seals a usable key, is that of the vault, or has locked the key that is to
be stored; and a call that came so far has the name of a blob with its key. -/
def StageSound (c : Custodian) (chain : String) (v : Vault) (bs : List Bytes) (order : SetOrder) :
    SetStage → Prop
  | .insert fresh => Keyed c.aes fresh
  | .encrypt pair => v.secret? order.request.uuid = some pair
  | .shelve _ cipher => Locked c.aes v order.request.uuid order.request.key cipher
  | .note _ cid? => order.shelf = .content → order.chain = chain →
      Backed c.aes v bs order.request (cid?.getD "")
  | .done (.value reply) => order.shelf = .content → order.chain = chain →
      Backed c.aes v bs order.request reply.fileCid
  | _ => True

theorem Backed.mono {aes : SymmetricKey} {v v' : Vault} {bs' : List Bytes} {req : SetRequest}
    {cid : String} (hv : v.Keeps v') (hbs : bs ⊆ bs') (h : Backed aes v bs req cid) :
    Backed aes v' bs' req cid := by
  obtain ⟨cipher, hcipher, hcid, hlocked⟩ := h
  exact ⟨cipher, hbs hcipher, hcid, hlocked.mono hv⟩

/-- What is sound about a call stays so while nothing is forgotten. -/
theorem StageSound.mono {v v' : Vault} {bs' : List Bytes} {order : SetOrder} {stage : SetStage}
    (hv : v.Keeps v') (hbs : bs ⊆ bs') (h : StageSound c chain v bs order stage) :
    StageSound c chain v' bs' order stage := by
  cases stage with
  | encrypt pair => exact hv _ _ h
  | shelve pair cipher => exact Locked.mono hv h
  | note pair cid? => exact fun hshelf hchain => (h hshelf hchain).mono hv hbs
  | done outcome =>
    cases outcome with
    | value reply => exact fun hshelf hchain => (h hshelf hchain).mono hv hbs
    | _ => trivial
  | _ => exact h

/-- A fresh record seals the key that the step generates. -/
theorem keyed_of_generate {uuid : String} {bits : Nat} {aes : SymmetricKey} {fresh : SecretRecord}
    {r r' : Entropy} (hfresh : SecretRecord.generate uuid aes bits r = (.ok fresh, r'))
    (hkey : ∀ key ∈ generated bits r .generate, Roomy key) : Keyed aes fresh := by
  obtain ⟨key, r₁, hgenerate, hseals⟩ := SecretRecord.seals_of_generate hfresh
  obtain ⟨h₁, h₂, hsize⟩ := hkey key (generated_eq_some.2 ⟨rfl, r₁, hgenerate⟩)
  exact ⟨key, Crypto.Rsa.fit_of_generate hgenerate h₁ h₂, .of_generate hgenerate h₁ h₂ hsize,
    hseals⟩

end Sound

/-! ### Calls for one name -/

/-- How a call ends that found a key in a content store. -/
def foundContent (cid key : String) : Outcome AdaptorError GetReply :=
  .value ⟨.success, "get ipfs social key success", [⟨cid, key⟩]⟩

/-- How far a call came that is to end with an outcome, after it saw one ciphertext. -/
def Opens (cipher : Bytes) (outcome : Outcome AdaptorError GetReply) : GetStage → Prop
  | .find => True
  | .unlock ciphers => ciphers = [cipher]
  | .done outcome' => outcome' = outcome

/-- A call without steps left has ended. -/
theorem Opens.eq_done {cipher : Bytes} {outcome : Outcome AdaptorError GetReply} {stage : GetStage}
    (h : Opens cipher outcome stage) (hsteps : stage.stepsLeft = 0) : stage = .done outcome := by
  cases stage with
  | find => cases hsteps
  | unlock ciphers => cases hsteps
  | done outcome' => exact congrArg GetStage.done h

/-- A call that asks for a blob which is locked for its identity comes to its end with the key. -/
theorem Indexed.opens_getStep {c : Custodian} {order : GetOrder} {bs : List Bytes} {s : Storage}
    (h : Indexed order.chain bs s)
    (hhash : ∀ data ∈ bs, ∀ data' ∈ bs,
      Crypto.Sha256.digest data = Crypto.Sha256.digest data' → data = data')
    (hshelf : order.shelf = .content) (huuid : order.request.uuid ≠ "") {cipher : Bytes}
    {key : String} (hmem : cipher ∈ bs) (hcid : order.request.fileCid = contentId cipher)
    (hlocked : Locked c.aes s.vault order.request.uuid key cipher) {stage : GetStage}
    (hstage : Opens cipher (foundContent (contentId cipher) key) stage) :
    Opens cipher (foundContent (contentId cipher) key)
      ((c.keeper order.chain order.shelf).getStep order.request stage s) := by
  cases stage with
  | find =>
    have hfound : s.content? order.chain order.request.fileCid = some cipher := by
      rw [hcid]
      exact h.find_of_mem hhash hmem
    have hne : order.request.fileCid ≠ "" := by
      rw [hcid]
      exact contentId_ne_empty cipher
    have hstep : (c.keeper order.chain order.shelf).getStep order.request .find s =
        .unlock [cipher] :=
      (Keeper.getStep_find_content hshelf huuid h.reach).2 cipher hfound hne
    rw [hstep]
    rfl
  | unlock ciphers =>
    obtain rfl : ciphers = [cipher] := hstage
    obtain ⟨pair, codec, hpair, hcodec, hdecrypt⟩ := hlocked
    have hcodec' : pair.codec order.request.uuid (c.keeper order.chain order.shelf).aes =
        .value codec := hcodec
    rw [Keeper.getStep_unlock hpair hcodec' (.cons hdecrypt .nil)]
    simp [Opens, foundContent, Keeper.getReply, Custodian.keeper, hshelf, hcid, Shelf.word]
  | done outcome => exact hstage

/-- A call that looks keys up has the turn. -/
def Turn.gets {ι κ : Type} [DecidableEq κ] (k : κ) : Turn ι κ → Bool
  | .set _ _ => false
  | .get j => j = k

namespace Progress

variable {ι κ : Type} {c : Custodian} {o : Orders ι κ} {p : Progress ι κ} {chain : String}
  {bs : List Bytes}

/-- The invariant of histories that have put the blobs into the content store of a chain, and whose
keys are fit for use. -/
structure Stocked (c : Custodian) (o : Orders ι κ) (chain : String) (bs : List Bytes)
    (p : Progress ι κ) : Prop extends Indexed chain bs p.storage where
  secrets {uuid : String} {pair : SecretRecord} (h : p.storage.vault.secret? uuid = some pair) :
    Keyed c.aes pair
  calls (i : ι) : StageSound c chain p.storage.vault bs (o.set i) (p.setStage i)

theorem stocked_start (c : Custodian) (o : Orders ι κ) (chain : String) :
    Stocked c o chain [] (.start .empty) where
  toIndexed := .empty chain
  secrets h := by cases h
  calls _ := trivial

/-- The call that takes a step stays sound. -/
theorem Stocked.stageSound_of_setMove {i : ι} {r : Entropy} {stage' : SetStage} {s' : Storage}
    (h : Stocked c o chain bs p)
    (hmove : SetMove (c.keeper (o.set i).chain (o.set i).shelf) (o.set i).request p.storage r
      (p.setStage i) stage' s')
    (hkey : ∀ key ∈ generated c.rsaBits r (p.setStage i), Roomy key) :
    StageSound c chain s'.vault (bs ++ (shelvedAt (o.set i) chain (p.setStage i) stage').toList)
      (o.set i) stage' := by
  have hkeeps : p.storage.vault.Keeps s'.vault := fun _ _ => hmove.secret?_eq_some
  have hcall := (h.calls i).mono hkeeps
    (List.subset_append_left bs (shelvedAt (o.set i) chain (p.setStage i) stage').toList)
  generalize p.setStage i = stage at hmove hkey hcall ⊢
  cases hmove with
  | @stop stage outcome hearly hfail =>
    cases outcome with
    | value reply => exact absurd rfl (hfail reply)
    | _ => trivial
  | found hpair => exact hpair
  | missing => trivial
  | generated hfresh => exact keyed_of_generate hfresh hkey
  | inserted => exact Vault.secret?_insertSecret_self
  | encrypted hcodec hcipher =>
    obtain ⟨key, hfit, husable, hseals⟩ := h.secrets hcall
    exact .of_encrypt hcall hseals husable hfit hcodec hcipher
  | appended hshelf happend =>
    exact fun hcontent => absurd (Eq.trans (Eq.symm hshelf) hcontent) (by decide)
  | @added pair cipher s' cid hshelf hadd =>
    obtain rfl := (Storage.content?_of_addContent hadd).1
    intro hcontent hchain
    refine ⟨cipher, List.mem_append_right _ ?_, rfl, hcall⟩
    rw [shelvedAt, if_pos ⟨hcontent, hchain⟩]
    exact List.mem_cons_self
  | noted => exact hcall
  | idle => exact hcall

/-! ### Histories -/

variable [DecidableEq ι] [DecidableEq κ]

/-- What the turns of a history yield, one after another, if `f` says what one turn yields. -/
def yields {α : Type} (c : Custodian) (o : Orders ι κ) (f : Progress ι κ → Turn ι κ → Option α)
    (p : Progress ι κ) : List (Turn ι κ) → List α
  | [] => []
  | t :: ts => (f p t).toList ++ yields c o f (p.next c o t) ts

theorem yields_append {α : Type} (f : Progress ι κ → Turn ι κ → Option α) (p : Progress ι κ)
    (ts ts' : List (Turn ι κ)) :
    p.yields c o f (ts ++ ts') = p.yields c o f ts ++ (p.run c o ts).yields c o f ts' := by
  induction ts generalizing p with
  | nil => rfl
  | cons t ts ih => rw [List.cons_append, yields, yields, ih, run_cons, List.append_assoc]

/-- The key that a turn generates. -/
def keyMade (c : Custodian) (p : Progress ι κ) : Turn ι κ → Option PrivateKey
  | .set i r => generated c.rsaBits r (p.setStage i)
  | .get _ => none

/-- What a turn puts into the content store of a chain. -/
def blobStored (c : Custodian) (o : Orders ι κ) (chain : String) (p : Progress ι κ) :
    Turn ι κ → Option Bytes
  | .set i r => shelvedAt (o.set i) chain (p.setStage i) ((p.next c o (.set i r)).setStage i)
  | .get _ => none

/-- The keys that a history generates. -/
def made (c : Custodian) (o : Orders ι κ) (p : Progress ι κ) (ts : List (Turn ι κ)) :
    List PrivateKey :=
  p.yields c o (keyMade c) ts

/-- What a history puts into the content store of a chain, the first blob first. -/
def blobs (c : Custodian) (o : Orders ι κ) (chain : String) (p : Progress ι κ)
    (ts : List (Turn ι κ)) : List Bytes :=
  p.yields c o (blobStored c o chain) ts

/-- A turn of a call that stores a key is a step of it. -/
theorem next_set {i : ι} {r r' : Entropy} {stage' : SetStage} {s' : Storage}
    (h : (c.keeper (o.set i).chain (o.set i).shelf).setStep (o.set i).request (p.setStage i)
      p.storage r = (stage', s', r')) :
    p.next c o (.set i r) =
      { p with storage := s', setStage := Function.update p.setStage i stage' } := by
  simp only [next, h]

theorem keeps_next (p : Progress ι κ) (t : Turn ι κ) :
    p.storage.vault.Keeps (p.next c o t).storage.vault := by
  cases t with
  | get k => exact fun _ _ h => h
  | set i r =>
    rcases hstep : (c.keeper (o.set i).chain (o.set i).shelf).setStep (o.set i).request
      (p.setStage i) p.storage r with ⟨stage', s', r'⟩
    rw [next_set hstep]
    exact fun _ _ => (Keeper.setMove_of_setStep hstep).secret?_eq_some

/-- What has gone into a store is what was there before, and what a turn puts there. -/
theorem indexed_next (h : Indexed chain bs p.storage) (t : Turn ι κ) :
    Indexed chain (bs ++ (blobStored c o chain p t).toList) (p.next c o t).storage := by
  cases t with
  | get k =>
    have hbs : bs ++ (blobStored c o chain p (.get k)).toList = bs := List.append_nil bs
    rw [hbs]
    exact h
  | set i r =>
    rcases hstep : (c.keeper (o.set i).chain (o.set i).shelf).setStep (o.set i).request
      (p.setStage i) p.storage r with ⟨stage', s', r'⟩
    simp only [blobStored, next_set hstep, Function.update_self]
    exact h.of_setMove (Keeper.setMove_of_setStep hstep)

/-- **What has gone into a store** is what a history puts there. -/
theorem indexed_run (h : Indexed chain bs p.storage) (ts : List (Turn ι κ)) :
    Indexed chain (bs ++ p.blobs c o chain ts) (p.run c o ts).storage := by
  induction ts generalizing bs p with
  | nil =>
    rw [blobs, yields, List.append_nil]
    exact h
  | cons t ts ih =>
    rw [blobs, yields, ← List.append_assoc, run_cons]
    exact ih (indexed_next h t)

/-- **A turn preserves the invariant**, if the key that it generates is fit for use. -/
theorem Stocked.next (h : Stocked c o chain bs p) (t : Turn ι κ)
    (hkey : ∀ key ∈ keyMade c p t, Roomy key) :
    Stocked c o chain (bs ++ (blobStored c o chain p t).toList) (p.next c o t) := by
  cases t with
  | get k =>
    have hbs : bs ++ (blobStored c o chain p (.get k)).toList = bs := List.append_nil bs
    refine ⟨indexed_next h.toIndexed (.get k), h.secrets, ?_⟩
    rw [hbs]
    exact h.calls
  | set i r =>
    rcases hstep : (c.keeper (o.set i).chain (o.set i).shelf).setStep (o.set i).request
      (p.setStage i) p.storage r with ⟨stage', s', r'⟩
    have hmove := Keeper.setMove_of_setStep hstep
    refine ⟨indexed_next h.toIndexed (.set i r), fun {uuid pair} hpair => ?_, fun j => ?_⟩
    · rw [next_set hstep] at hpair
      rcases hmove.secret?_cases hpair with hpair | hinsert
      · exact h.secrets hpair
      · have hcall := h.calls i
        rw [hinsert] at hcall
        exact hcall
    · simp only [blobStored, next_set hstep, Function.update_self]
      by_cases hj : j = i
      · subst hj
        simp only [Function.update_self]
        exact h.stageSound_of_setMove hmove hkey
      · simp only [Function.update_of_ne hj]
        exact (h.calls j).mono (fun _ _ => hmove.secret?_eq_some) (List.subset_append_left _ _)

/-- **Histories preserve the invariant.** -/
theorem Stocked.run (h : Stocked c o chain bs p) {ts : List (Turn ι κ)}
    (hkeys : ∀ key ∈ p.made c o ts, Roomy key) :
    Stocked c o chain (bs ++ p.blobs c o chain ts) (p.run c o ts) := by
  induction ts generalizing bs p with
  | nil =>
    rw [blobs, yields, List.append_nil]
    exact h
  | cons t ts ih =>
    rw [made, yields, List.forall_mem_append] at hkeys
    rw [blobs, yields, ← List.append_assoc, run_cons]
    exact ih (h.next t fun key hkey => hkeys.1 key (Option.mem_toList.2 hkey)) hkeys.2

/-! ### Calls that look keys up -/

variable {k : κ}

/-- Only its own turns are steps of a call that looks keys up. -/
theorem getStage_next (c : Custodian) (o : Orders ι κ) (p : Progress ι κ) (k : κ) (t : Turn ι κ) :
    (p.next c o t).getStage k =
      if t.gets k then (c.keeper (o.get k).chain (o.get k).shelf).getStep (o.get k).request
        (p.getStage k) p.storage
      else p.getStage k := by
  cases t with
  | set i r => rfl
  | get j =>
    simp only [next, Turn.gets, decide_eq_true_eq]
    split_ifs with hj
    · subst hj
      exact Function.update_self ..
    · exact Function.update_of_ne (Ne.symm hj) ..

/-- With every turn of its own a call that looks keys up has one less to take. -/
theorem stepsLeft_run_le (c : Custodian) (o : Orders ι κ) (p : Progress ι κ) (k : κ)
    (ts : List (Turn ι κ)) : ((p.run c o ts).getStage k).stepsLeft ≤
      (p.getStage k).stepsLeft - ts.countP (Turn.gets k) := by
  induction ts generalizing p with
  | nil => exact Nat.le_refl _
  | cons t ts ih =>
    have hrest := ih (p.next c o t)
    rw [getStage_next] at hrest
    rw [run_cons, List.countP_cons]
    split_ifs at hrest ⊢
    · have hstep := Keeper.stepsLeft_getStep_le (c.keeper (o.get k).chain (o.get k).shelf)
        (o.get k).request p.storage (p.getStage k)
      omega
    · exact hrest

/-- A call that looked keys up stays over. -/
theorem getStage_run_of_done {outcome : Outcome AdaptorError GetReply}
    (h : p.getStage k = .done outcome) (ts : List (Turn ι κ)) :
    (p.run c o ts).getStage k = .done outcome := by
  induction ts generalizing p with
  | nil => exact h
  | cons t ts ih =>
    refine ih ?_
    rw [getStage_next]
    split_ifs
    · rw [h]
      rfl
    · exact h

/-- A call that asks for a blob which is locked for its identity comes to its end with the key,
whatever turns others have. -/
theorem Stocked.opens_run (h : Stocked c o (o.get k).chain bs p) {ts : List (Turn ι κ)}
    (hkeys : ∀ key ∈ p.made c o ts, Roomy key)
    (hhash : ∀ data ∈ bs ++ p.blobs c o (o.get k).chain ts,
      ∀ data' ∈ bs ++ p.blobs c o (o.get k).chain ts,
        Crypto.Sha256.digest data = Crypto.Sha256.digest data' → data = data')
    (hshelf : (o.get k).shelf = .content) (huuid : (o.get k).request.uuid ≠ "") {cipher : Bytes}
    {key : String} (hmem : cipher ∈ bs) (hcid : (o.get k).request.fileCid = contentId cipher)
    (hlocked : Locked c.aes p.storage.vault (o.get k).request.uuid key cipher)
    (hstage : Opens cipher (foundContent (contentId cipher) key) (p.getStage k)) :
    Opens cipher (foundContent (contentId cipher) key) ((p.run c o ts).getStage k) := by
  induction ts generalizing bs p with
  | nil => exact hstage
  | cons t ts ih =>
    rw [made, yields, List.forall_mem_append] at hkeys
    rw [blobs, yields, ← List.append_assoc] at hhash
    have hbs : bs ⊆ bs ++ (blobStored c o (o.get k).chain p t).toList ++
        (p.next c o t).yields c o (blobStored c o (o.get k).chain) ts :=
      fun data hdata => List.mem_append_left _ (List.mem_append_left _ hdata)
    refine ih (h.next t fun key hkey => hkeys.1 key (Option.mem_toList.2 hkey)) hkeys.2 hhash
      (List.mem_append_left _ hmem) (hlocked.mono (p.keeps_next t)) ?_
    rw [getStage_next]
    split_ifs
    · exact h.toIndexed.opens_getStep
        (fun data hdata data' hdata' => hhash data (hbs hdata) data' (hbs hdata')) hshelf huuid hmem
        hcid hlocked hstage
    · exact hstage

end Progress

/-- **What a call that looks up a key in a content store ends with.** Take a history of calls on the
keepers of a node, of any chains and on shelves of either kind, from an empty storage on, and a call
of it for an identity that asks a content store for a name, and has not begun after some turns.

Suppose a call that stored a key of the identity there has returned after these turns, and was given
the name that is asked for. If the keys that the history generates have prime numbers as primes and
moduli of at least twelve octets, and no two different blobs in the store have the same hash, then
the call ends with its second turn: as a success with exactly that key under that name.

If the name is that of no blob that was stored in these turns, the call ends with its first turn,
since nothing is found. In both cases the turns of all other calls may come in any order, before,
between and after. -/
theorem key_under_content_id {ι κ : Type} [DecidableEq ι] [DecidableEq κ] (c : Custodian)
    (o : Orders ι κ) (chain : String) (ts ts' : List (Turn ι κ)) (k : κ)
    (hshelf : (o.get k).shelf = .content) (hchain : (o.get k).chain = chain)
    (huuid : (o.get k).request.uuid ≠ "")
    (hfind : ((Progress.start .empty).run c o ts).getStage k = .find) :
    (∀ i reply, (o.set i).shelf = .content → (o.set i).chain = chain →
      (o.set i).request.uuid = (o.get k).request.uuid →
      ((Progress.start .empty).run c o ts).setStage i = .done (.value reply) →
      (o.get k).request.fileCid = reply.fileCid →
      (∀ key ∈ (Progress.start .empty).made c o (ts ++ ts'),
        key.prime1.Prime ∧ key.prime2.Prime ∧ 12 ≤ key.size) →
      (∀ data ∈ (Progress.start .empty).blobs c o chain (ts ++ ts'),
        ∀ data' ∈ (Progress.start .empty).blobs c o chain (ts ++ ts'),
          Crypto.Sha256.digest data = Crypto.Sha256.digest data' → data = data') →
      2 ≤ ts'.countP (Turn.gets k) →
      ((Progress.start .empty).run c o (ts ++ ts')).getStage k = .done (.value
        ⟨.success, "get ipfs social key success", [⟨reply.fileCid, (o.set i).request.key⟩]⟩)) ∧
    ((∀ data ∈ (Progress.start .empty).blobs c o chain ts,
        contentId data ≠ (o.get k).request.fileCid) →
      ((Progress.start .empty).run c o (ts ++ .get k :: ts')).getStage k =
        .done (.failure (.keyNotFound chain (o.get k).request.uuid))) := by
  subst hchain
  refine ⟨fun i reply hset hat hsame hdone hcid hkeys hhash hturns => ?_, fun hnone => ?_⟩
  · rw [Progress.made, Progress.yields_append, List.forall_mem_append] at hkeys
    rw [Progress.blobs, Progress.yields_append] at hhash
    have hstocked := (Progress.stocked_start c o (o.get k).chain).run hkeys.1
    have hcall := hstocked.calls i
    rw [hdone] at hcall
    obtain ⟨cipher, hmem, hname, hlocked⟩ := hcall hset hat
    rw [hsame] at hlocked
    have hopens := hstocked.opens_run hkeys.2 hhash hshelf huuid hmem (hcid.trans hname) hlocked
      (by rw [hfind]; trivial)
    have hsteps := ((Progress.start .empty).run c o ts).stepsLeft_run_le c o k ts'
    have htwo : GetStage.stepsLeft .find = 2 := rfl
    rw [hfind, htwo] at hsteps
    rw [Progress.run_append, hname]
    exact hopens.eq_done (by omega)
  · have hindexed := Progress.indexed_run (c := c) (o := o) (p := .start .empty)
      (Indexed.empty (o.get k).chain) ts
    have hturn : Turn.gets k (.get k : Turn ι κ) = true := decide_eq_true rfl
    rw [Progress.run_append, Progress.run_cons]
    refine Progress.getStage_run_of_done ?_ ts'
    rw [Progress.getStage_next, if_pos hturn, hfind]
    exact (Keeper.getStep_find_content hshelf huuid hindexed.reach).1
      (hindexed.find_of_forall_ne hnone)

/-! ### One key under its name -/

namespace Progress

variable {ι κ : Type} {c : Custodian} {o : Orders ι κ} {chain : String} {i : ι} {r r' : Entropy}
  {stage stage' : SetStage} {s s' : Storage}

variable [DecidableEq ι]

/-- The progress when one call that stores a key is at a stage, and something is stored. -/
def after (p : Progress ι κ) (i : ι) (stage : SetStage) (s : Storage) : Progress ι κ :=
  { p with storage := s, setStage := Function.update p.setStage i stage }

theorem setStage_after (p : Progress ι κ) : (p.after i stage s).setStage i = stage :=
  Function.update_self ..

theorem after_self (p : Progress ι κ) : p.after i (p.setStage i) p.storage = p := by
  rw [after, Function.update_eq_self]

variable [DecidableEq κ]

/-- Turns lead from one progress to another, generate keys, and put blobs into the content store of
a chain. -/
structure Leads (c : Custodian) (o : Orders ι κ) (chain : String) (p : Progress ι κ)
    (ts : List (Turn ι κ)) (p' : Progress ι κ) (keys : List PrivateKey) (bs : List Bytes) :
    Prop where
  run : p.run c o ts = p'
  made : p.made c o ts = keys
  blobs : p.blobs c o chain ts = bs

theorem Leads.trans {p p' p'' : Progress ι κ} {ts ts' : List (Turn ι κ)}
    {keys keys' : List PrivateKey} {bs bs' : List Bytes} (h : p.Leads c o chain ts p' keys bs)
    (h' : p'.Leads c o chain ts' p'' keys' bs') :
    p.Leads c o chain (ts ++ ts') p'' (keys ++ keys') (bs ++ bs') := by
  obtain ⟨rfl, rfl, rfl⟩ := h
  obtain ⟨rfl, rfl, rfl⟩ := h'
  exact ⟨run_append .., yields_append .., yields_append ..⟩

/-- What a step of a call leads to. -/
theorem leads_set (c : Custodian) (o : Orders ι κ) (chain : String) (i : ι) (p : Progress ι κ)
    (h : (c.keeper (o.set i).chain (o.set i).shelf).setStep (o.set i).request stage s r =
      (stage', s', r')) :
    (p.after i stage s).Leads c o chain [.set i r] (p.after i stage' s')
      (generated c.rsaBits r stage).toList (shelvedAt (o.set i) chain stage stage').toList := by
  have hnext : (p.after i stage s).next c o (.set i r) = p.after i stage' s' := by
    simp [after, next, h]
  refine ⟨hnext, ?_, ?_⟩
  · rw [Progress.made, yields, yields, List.append_nil, keyMade, setStage_after]
  · rw [Progress.blobs, yields, yields, List.append_nil, blobStored, hnext, setStage_after,
      setStage_after]

/-- A call that stores the first key of an identity in a content store, and is not interrupted,
generates one key and puts one blob into the store. -/
theorem exists_kept {p : Progress ι κ} {key : PrivateKey} (hstage : p.setStage i = .lookUp)
    (huuid : (o.set i).request.uuid ≠ "")
    (hnone : p.storage.vault.secret? (o.set i).request.uuid = none)
    (hgenerate : Crypto.Rsa.generate c.rsaBits r = (.ok key, r')) (hkey : Usable key)
    (hshelf : (o.set i).shelf = .content)
    (hreach : (p.storage.store (o.set i).chain).offline? = none) :
    ∃ cipher reply s', p.Leads c o (o.set i).chain (List.replicate 6 (.set i r))
      (p.after i (.done (.value reply)) s') [key] [cipher] := by
  obtain ⟨fresh, r₂, hgenerates, hencrypts⟩ :=
    Keeper.exists_fresh (k := c.keeper (o.set i).chain (o.set i).shelf) hgenerate hkey
      (o.set i).request
  obtain ⟨cipher, r₄, hencrypt⟩ := hencrypts r
  have hlookUp := p.leads_set c o (o.set i).chain i (Keeper.setStep_lookUp (r := r) huuid hnone)
  have hgenerated := p.leads_set c o (o.set i).chain i (hgenerates p.storage)
  have hinserted := p.leads_set c o (o.set i).chain i
    (Keeper.setStep_insert_of_eq_none (r := r) fresh hnone)
  generalize hs₁ : ({ p.storage with vault :=
    (p.storage.vault.insertSecret (o.set i).request.uuid fresh).1 } : Storage) = s₁ at hinserted
  have hencrypted := p.leads_set c o (o.set i).chain i (hencrypt s₁)
  have hreach₁ : (s₁.store (o.set i).chain).offline? = none := by
    rw [← hs₁]
    exact hreach
  obtain ⟨s', hadd⟩ := Storage.exists_addContent hreach₁ cipher
  have hshelve : (c.keeper (o.set i).chain (o.set i).shelf).setStep (o.set i).request
      (.shelve fresh cipher) s₁ r = (.note fresh (some (contentId cipher)), s', r) :=
    Keeper.setStep_shelve_content hshelf hadd
  have hshelved := p.leads_set c o (o.set i).chain i hshelve
  have hnote : (c.keeper (o.set i).chain (o.set i).shelf).setStep (o.set i).request
      (.note fresh (some (contentId cipher))) s' r = (_, _, r) := rfl
  have hnoted := p.leads_set c o (o.set i).chain i hnote
  have hall := hlookUp.trans (hgenerated.trans (hinserted.trans (hencrypted.trans
    (hshelved.trans hnoted))))
  have hself : p.after i .lookUp p.storage = p := by
    rw [← hstage, after_self]
  have hblob : shelvedAt (o.set i) (o.set i).chain (.shelve fresh cipher)
      (.note fresh (some (contentId cipher))) = some cipher := if_pos ⟨hshelf, rfl⟩
  rw [generated_eq_some.2 ⟨rfl, r', hgenerate⟩, hblob, hself] at hall
  exact ⟨cipher, _, _, hall⟩

end Progress

/-- One call stores a key on Ipfs, and every name there is asked for. -/
def oneContent : Orders Unit String where
  set _ := ⟨"Ipfs", .content, ⟨"Ipfs", "u1", "k1", "", ""⟩⟩
  get cid := ⟨"Ipfs", .content, ⟨"Ipfs", "u1", cid⟩⟩

/-- The key is found under the name that the call which stored it was given, and nothing is found
before. -/
theorem key_under_its_name : ∃ (ts : List (Turn Unit String)) (reply : SetReply),
    ((Progress.start .empty).run shortCustodian oneContent ts).setStage () =
      .done (.value reply) ∧
    ((Progress.start .empty).run shortCustodian oneContent
      (ts ++ [.get reply.fileCid, .get reply.fileCid])).getStage reply.fileCid = .done (.value
        ⟨.success, "get ipfs social key success", [⟨reply.fileCid, "k1"⟩]⟩) ∧
    ((Progress.start .empty).run shortCustodian oneContent
      ([] ++ .get reply.fileCid :: ts)).getStage reply.fileCid =
        .done (.failure (.keyNotFound "Ipfs" "u1")) := by
  obtain ⟨r, r', hgenerate⟩ := exists_generate_shortKey
  obtain ⟨cipher, reply, s', hleads⟩ := Progress.exists_kept (p := .start .empty)
    (c := shortCustodian) (o := oneContent) (i := ()) rfl (by decide) rfl hgenerate usable_shortKey
    rfl rfl
  have hdone : ((Progress.start .empty).run shortCustodian oneContent
      (List.replicate 6 (.set () r))).setStage () = .done (.value reply) := by
    rw [hleads.run, Progress.setStage_after]
  have hfind : ((Progress.start .empty).run shortCustodian oneContent
      (List.replicate 6 (.set () r))).getStage reply.fileCid = .find := by
    rw [hleads.run]
    rfl
  have huuid : "u1" ≠ "" := by decide
  obtain ⟨hfound, -⟩ := key_under_content_id shortCustodian oneContent "Ipfs"
    (List.replicate 6 (.set () r)) [.get reply.fileCid, .get reply.fileCid] reply.fileCid rfl rfl
    huuid hfind
  obtain ⟨-, hnothing⟩ := key_under_content_id shortCustodian oneContent "Ipfs" []
    (List.replicate 6 (.set () r)) reply.fileCid rfl rfl huuid rfl
  refine ⟨_, reply, hdone, hfound () reply rfl rfl rfl hdone rfl ?_ ?_ ?_,
    hnothing fun data hdata => by cases hdata⟩
  · rw [Progress.made, Progress.yields_append, ← Progress.made, hleads.made]
    intro key hkey
    obtain rfl := List.mem_singleton.1 hkey
    exact ⟨usable_shortKey.prime1, usable_shortKey.prime2, usable_shortKey.size⟩
  · have hblobs : (Progress.start .empty).blobs shortCustodian oneContent "Ipfs"
        (List.replicate 6 (.set () r) ++ [.get reply.fileCid, .get reply.fileCid]) = [cipher] := by
      rw [Progress.blobs, Progress.yields_append, ← Progress.blobs]
      exact congrArg (· ++ []) hleads.blobs
    rw [hblobs]
    intro data hdata data' hdata' _
    rw [List.mem_singleton.1 hdata, List.mem_singleton.1 hdata']
  · simp [Turn.gets]

end KeyCustody.Custody
