import KeyCustody.Proofs.Custody.Calls
import Mathlib.Data.List.Forall2
import Mathlib.NumberTheory.LucasPrimality
import Mathlib.Tactic.NormNum.Prime
import Mathlib.Tactic.ReduceModChar
/-!
# What was stored is what is found

Calls that store the first key of an identity side by side each generate a key pair, but the vault
keeps the first one and all of them encrypt under it. So every entry of a ledger is locked by the
one key pair of its identity, and the ledger has the entries of an identity in the order of its
deposits. A call that looks keys up finds the deposits that were there when it looked.

## Main definitions

* `Locked`: what a ciphertext decrypts to under the key pair of an identity.
* `World.Sound`: the invariant of regular runs.

## Main results

* `Step.sound`, `Run.sound`: steps preserve the invariant, and runs have it.
* `keys_of_run`: what a call that looks keys up returns.
-/

namespace KeyCustody.Custody

open Crypto (SymmetricKey Entropy)
open Crypto.Rsa (Codec PrivateKey)
open Keeper (SetStage GetStage SetMove)
open Wire (GetRequest GetReply SetRequest SetReply)

variable {c : Custodian} {w w' : World} {aes : SymmetricKey} {v v' : Vault}

/-! ### The invariant -/

/-- A ciphertext decrypts to a key under the key pair that the vault has for an identity. -/
def Locked (aes : SymmetricKey) (v : Vault) (uuid key : String) (cipher : Bytes) : Prop :=
  ∃ pair codec, v.secret? uuid = some pair ∧ pair.codec uuid aes = .value codec ∧
    codec.decrypt cipher = .ok (Bytes.ofText key)

/-- The deposits on the ledger of a chain under the name of an identity. -/
def atLedger (deposits : List Deposit) (chain : String) (name : Bytes) : List Deposit :=
  deposits.filter fun d => d.shelf = .ledger ∧ d.chain = chain ∧ ledgerKey d.uuid = name

/-- Entries are locked deposits, one by one. -/
def AreLocked (aes : SymmetricKey) (v : Vault) : List Bytes → List Deposit → Prop :=
  List.Forall₂ fun cipher d => Locked aes v d.uuid d.key cipher

/-- How a call ends that found keys, or nothing. -/
def foundOutcome (chain uuid : String) : List String → Outcome AdaptorError GetReply
  | [] => .failure (.keyNotFound chain uuid)
  | keys => .value ⟨.success, "get social key success", keys.map (⟨"", ·⟩)⟩

/-- How far a call came that saw deposits on the ledger of a chain. -/
def Reads (aes : SymmetricKey) (v : Vault) (chain : String) (req : GetRequest)
    (seen : List Deposit) : GetStage → Prop
  | .find => False
  | .unlock ciphers => ciphers ≠ [] ∧
      AreLocked aes v ciphers (atLedger seen chain (ledgerKey req.uuid))
  | .done outcome => outcome = foundOutcome chain req.uuid (ledgerKeys seen chain req.uuid)

/-- The record of a call is one of a key that was generated, is that of the vault, or has locked the
key that is to be stored; and a call that looks keys up found what it saw. -/
def Call.Sound (c : Custodian) (w : World) : Call → Prop
  | .setting _ _ _ (.insert fresh) => ∃ key ∈ w.made, fresh.Seals c.aes key
  | .setting _ _ req (.encrypt pair) => w.storage.vault.secret? req.uuid = some pair
  | .setting _ _ req (.shelve _ cipher) => Locked c.aes w.storage.vault req.uuid req.key cipher
  | .getting chain .ledger req seen stage =>
      seen <+: w.deposits ∧ Reads c.aes w.storage.vault chain req seen stage
  | _ => True

/-- The invariant of regular runs. -/
structure World.Sound (c : Custodian) (w : World) : Prop where
  made : ∀ key ∈ w.made, ∃ r r', Crypto.Rsa.generate c.rsaBits r = (.ok key, r')
  /-- The key pairs in the vault are among those that were generated. -/
  secrets : ∀ uuid pair, w.storage.vault.secret? uuid = some pair →
    ∃ key ∈ w.made, pair.Seals c.aes key
  reach : ∀ chain, (w.storage.ledger chain).offline? = none
  /-- Ledgers have the deposits, locked. -/
  entries : ∀ chain name, AreLocked c.aes w.storage.vault (w.storage.entries chain name)
    (atLedger w.deposits chain name)
  calls : ∀ call ∈ w.calls, call.Sound c w
  /-- The deposits are those of the calls that came so far, each once. -/
  deposits : w.deposits.Perm (w.calls.filterMap Call.deposit?)

/-! ### What lasts -/

/-- Every key pair of a vault is in the other one. -/
def Vault.Keeps (v v' : Vault) : Prop :=
  ∀ uuid pair, v.secret? uuid = some pair → v'.secret? uuid = some pair

theorem Locked.mono {uuid key : String} {cipher : Bytes} (hv : v.Keeps v')
    (h : Locked aes v uuid key cipher) : Locked aes v' uuid key cipher := by
  obtain ⟨pair, codec, hpair, hrest⟩ := h
  exact ⟨pair, codec, hv _ _ hpair, hrest⟩

theorem AreLocked.mono {ciphers : List Bytes} {ds : List Deposit} (hv : v.Keeps v')
    (h : AreLocked aes v ciphers ds) : AreLocked aes v' ciphers ds :=
  h.imp fun _ _ => Locked.mono hv

/-- What is sound about a call stays so while nothing is forgotten. -/
theorem Call.Sound.mono {call : Call} (hv : w.storage.vault.Keeps w'.storage.vault)
    (hmade : ∀ key ∈ w.made, key ∈ w'.made) (hdeposits : w.deposits <+: w'.deposits)
    (h : call.Sound c w) : call.Sound c w' := by
  cases call with
  | setting chain shelf req stage =>
    cases stage with
    | insert fresh =>
      obtain ⟨key, hkey, hseals⟩ := h
      exact ⟨key, hmade key hkey, hseals⟩
    | encrypt pair => exact hv _ _ h
    | shelve pair cipher => exact Locked.mono hv h
    | _ => trivial
  | finding chain shelf req => trivial
  | getting chain shelf req seen stage =>
    cases shelf with
    | content => trivial
    | ledger =>
      obtain ⟨hseen, hreads⟩ := h
      refine ⟨hseen.trans hdeposits, ?_⟩
      cases stage with
      | find => exact hreads
      | unlock ciphers => exact ⟨hreads.1, hreads.2.mono hv⟩
      | done outcome => exact hreads

/-! ### Deposits of calls -/

theorem filterMap_cons_eq {α β : Type} (f : α → Option β) (a : α) (as : List α) :
    (a :: as).filterMap f = (f a).toList ++ as.filterMap f := by
  rw [List.filterMap_cons]
  cases f a <;> rfl

/-- A step of a call adds to its deposits what it puts on the shelf. -/
theorem deposit?_of_setMove {k : Keeper} {req : SetRequest} {s s' : Storage} {r : Entropy}
    {stage stage' : SetStage} (chain : String) (shelf : Shelf)
    (h : SetMove k req s r stage stage' s') :
    (Call.setting chain shelf req stage').deposit?.toList =
      (Call.setting chain shelf req stage).deposit?.toList ++
        (deposited chain shelf req stage stage').toList := by
  cases h with
  | @stop stage outcome hearly hfail =>
    have hnone : (Call.setting chain shelf req (.done outcome)).deposit? = none := by
      cases outcome with
      | value reply => exact absurd rfl (hfail reply)
      | _ => rfl
    rw [hnone]
    cases stage with
    | note pair cid? => exact absurd hearly id
    | done outcome => exact absurd hearly id
    | _ => rfl
  | @idle outcome => cases outcome <;> rfl
  | _ => rfl

/-- A deposit is about the identity of a call. -/
theorem World.Sound.exists_call (hs : w.Sound c) {d : Deposit} (hd : d ∈ w.deposits) :
    ∃ call ∈ w.calls, call.uuid = d.uuid := by
  obtain ⟨call, hcall, hdeposit⟩ := List.mem_filterMap.1 (hs.deposits.mem_iff.1 hd)
  refine ⟨call, hcall, ?_⟩
  cases call with
  | setting chain shelf req stage =>
    cases stage with
    | note pair cid? =>
      obtain rfl := Option.some.inj hdeposit
      rfl
    | done outcome =>
      cases outcome with
      | value reply =>
        obtain rfl := Option.some.inj hdeposit
        rfl
      | _ => cases hdeposit
    | _ => cases hdeposit
  | finding chain shelf req => cases hdeposit
  | getting chain shelf req seen stage => cases hdeposit

/-- Ledgers tell the identities of calls apart, so the deposits under a name are those of the one
identity with this name. -/
theorem World.Sound.atLedger_eq (hs : w.Sound c) (hr : w.Regular) {call : Call}
    (hcall : call ∈ w.calls) {seen : List Deposit} (hseen : seen <+: w.deposits) (chain : String) :
    (∀ d ∈ atLedger seen chain (ledgerKey call.uuid), d.uuid = call.uuid) ∧
      (atLedger seen chain (ledgerKey call.uuid)).map Deposit.key =
        ledgerKeys seen chain call.uuid := by
  have hsame : ∀ d ∈ seen, ledgerKey d.uuid = ledgerKey call.uuid ↔ d.uuid = call.uuid := by
    intro d hd
    obtain ⟨call', hcall', huuid⟩ := hs.exists_call (hseen.subset hd)
    rw [← huuid]
    exact ⟨hr.ledgerKey_inj call' hcall' call hcall, fun h => by rw [h]⟩
  refine ⟨fun d hd => ?_, ?_⟩
  · obtain ⟨hmem, hfilter⟩ := List.mem_filter.1 hd
    exact (hsame d hmem).1 (of_decide_eq_true hfilter).2.2
  · rw [atLedger, ledgerKeys]
    congr 1
    refine List.filter_congr fun d hd => ?_
    simp only [hsame d hd]

/-! ### Steps of calls that store keys -/

section Storing

variable {chain : String} {shelf : Shelf} {req : SetRequest} {stage stage' : SetStage}
  {s' : Storage} {r : Entropy}

/-- A step puts one entry on one ledger, or leaves all ledgers alone and deposits on none. -/
theorem entries_of_setMove (h : SetMove (c.keeper chain shelf) req w.storage r stage stage' s') :
    (∃ pair cipher, stage = .shelve pair cipher ∧
      deposited chain shelf req stage stage' = some ⟨chain, .ledger, req.uuid, req.key⟩ ∧
      ∀ chain' name, s'.entries chain' name =
        if chain' = chain ∧ name = ledgerKey req.uuid then w.storage.entries chain' name ++ [cipher]
        else w.storage.entries chain' name) ∨
    ((∀ chain' name, s'.entries chain' name = w.storage.entries chain' name) ∧
      ∀ d ∈ deposited chain shelf req stage stage', d.shelf ≠ .ledger) := by
  cases h with
  | @appended pair cipher s' hshelf happend =>
    obtain rfl : shelf = .ledger := hshelf
    exact .inl ⟨pair, cipher, rfl, rfl, (Storage.entries_of_appendLedger happend).2.2.2⟩
  | added hshelf hadd =>
    obtain rfl : shelf = .content := hshelf
    refine .inr ⟨fun chain' name => ?_, fun d hd => ?_⟩
    · simp only [Storage.entries, Storage.ledger, (Storage.ledgers_of_addContent hadd).2]
    · obtain rfl := Option.some.inj hd
      exact fun h => by cases h
  | @stop stage outcome hearly hfail =>
    refine .inr ⟨fun _ _ => rfl, fun d hd => ?_⟩
    cases stage <;> cases hd
  | _ => exact .inr ⟨fun _ _ => rfl, fun d hd => by cases hd⟩

theorem atLedger_append (ds ds' : List Deposit) (chain : String) (name : Bytes) :
    atLedger (ds ++ ds') chain name = atLedger ds chain name ++ atLedger ds' chain name :=
  List.filter_append ds ds'

/-- The entries of ledgers stay the deposits, locked. -/
theorem World.Sound.areLocked_of_setMove (hs : w.Sound c)
    (hcall : (Call.setting chain shelf req stage).Sound c w)
    (h : SetMove (c.keeper chain shelf) req w.storage r stage stage' s') (chain' : String)
    (name : Bytes) : AreLocked c.aes s'.vault (s'.entries chain' name)
      (atLedger (w.deposits ++ (deposited chain shelf req stage stage').toList) chain' name) := by
  have hkeeps : w.storage.vault.Keeps s'.vault := fun _ _ => h.secret?_eq_some
  have hold := (hs.entries chain' name).mono hkeeps
  rw [atLedger_append]
  rcases entries_of_setMove h with ⟨pair, cipher, rfl, hdeposit, hentries⟩ | ⟨hentries, hnone⟩
  · rw [hentries, hdeposit]
    split_ifs with hplace
    · obtain ⟨rfl, rfl⟩ := hplace
      have hone : atLedger (some (⟨chain', .ledger, req.uuid, req.key⟩ : Deposit)).toList chain'
          (ledgerKey req.uuid) = [⟨chain', .ledger, req.uuid, req.key⟩] := by
        simp [atLedger]
      rw [hone]
      exact List.rel_append hold (.cons (Locked.mono hkeeps hcall) .nil)
    · have hother : atLedger (some (⟨chain, .ledger, req.uuid, req.key⟩ : Deposit)).toList chain'
          name = [] := by
        simp only [atLedger, Option.toList_some, List.filter_eq_nil_iff, List.mem_singleton,
          decide_eq_true_eq, forall_eq]
        rintro ⟨-, rfl, rfl⟩
        exact hplace ⟨rfl, rfl⟩
      rwa [hother, List.append_nil]
  · have hother : atLedger (deposited chain shelf req stage stage').toList chain' name = [] := by
      simp only [atLedger, List.filter_eq_nil_iff, Option.mem_toList, decide_eq_true_eq]
      exact fun d hd hplace => hnone d hd hplace.1
    rwa [hentries, hother, List.append_nil]

/-- Whoever encrypts under the key pair of an identity, which seals a usable key, has locked the
key that is to be stored. -/
theorem Locked.of_encrypt {uuid key : String} {pair : SecretRecord} {rsaKey : PrivateKey}
    {codec : Codec} {cipher : Bytes} {r r' : Entropy} (hpair : v.secret? uuid = some pair)
    (hseals : pair.Seals aes rsaKey) (hkey : Usable rsaKey) (hfit : rsaKey.Fit)
    (hcodec : pair.codec uuid aes = .value codec)
    (hcipher : codec.encrypt (Bytes.ofText key) r = (.value cipher, r')) :
    Locked aes v uuid key cipher := by
  obtain rfl := Outcome.value.inj (hcodec.symm.trans (hseals.codec_of_usable hkey uuid))
  obtain ⟨cipher', r₁, hencrypt, hdecrypt⟩ :=
    Codec.decrypt_encrypt hfit hkey.size (Bytes.ofText key) r
  obtain rfl := Outcome.value.inj (congrArg Prod.fst (hcipher.symm.trans hencrypt))
  exact ⟨pair, _, hpair, hcodec, hdecrypt⟩

/-- In a regular run every key that is encrypted is locked. -/
theorem World.Sound.locked_of_encrypted (hs : w.Sound c) (hr : w.Regular) {pair : SecretRecord}
    {codec : Codec} {cipher : Bytes} {r' : Entropy}
    (hpair : w.storage.vault.secret? req.uuid = some pair)
    (hcodec : pair.codec req.uuid c.aes = .value codec)
    (hcipher : codec.encrypt (Bytes.ofText req.key) r = (.value cipher, r')) :
    Locked c.aes w.storage.vault req.uuid req.key cipher := by
  obtain ⟨key, hkey, hseals⟩ := hs.secrets _ _ hpair
  have husable := hr.usable key hkey
  obtain ⟨r₀, r₁, hgenerate⟩ := hs.made key hkey
  exact .of_encrypt hpair hseals husable
    (Crypto.Rsa.fit_of_generate hgenerate husable.prime1 husable.prime2) hcodec hcipher

/-- What is sound about a call that stores a key stays so when the call takes a step. -/
theorem World.Sound.setting_of_setMove (hs : w.Sound c) (hr : w.Regular)
    (hcall : (Call.setting chain shelf req stage).Sound c w) {calls : List Call}
    {deposits : List Deposit}
    (h : SetMove (c.keeper chain shelf) req w.storage r stage stage' s') :
    (Call.setting chain shelf req stage').Sound c
      ⟨s', calls, deposits, w.made ++ (generated c.rsaBits r stage).toList⟩ := by
  cases h with
  | stop hearly hfail => trivial
  | found hpair => exact hpair
  | missing => trivial
  | generated hfresh =>
    obtain ⟨key, r₁, hgenerate, hseals⟩ := SecretRecord.seals_of_generate hfresh
    have hkey : generated c.rsaBits r .generate = some key :=
      generated_eq_some.2 ⟨rfl, r₁, hgenerate⟩
    exact ⟨key, List.mem_append_right _ (Option.mem_toList.2 hkey), hseals⟩
  | inserted => exact Vault.secret?_insertSecret_self
  | encrypted hcodec hcipher => exact hs.locked_of_encrypted hr hcall hcodec hcipher
  | appended hshelf happend => trivial
  | added hshelf hadd => trivial
  | noted => trivial
  | idle => trivial

end Storing

/-! ### Steps of calls that look keys up -/

section Looking

variable {chain : String} {req : GetRequest} {seen : List Deposit} {stage : GetStage}

theorem getStep_find_ledger {s : Storage} (huuid : req.uuid ≠ "")
    (hreach : (s.ledger chain).offline? = none) :
    (c.keeper chain .ledger).getStep req .find s =
      if s.entries chain (ledgerKey req.uuid) = [] then
        .done (.failure (.keyNotFound chain req.uuid))
      else .unlock (s.entries chain (ledgerKey req.uuid)) :=
  Keeper.getStep_find rfl huuid hreach

/-- A call that looks at a ledger sees its deposits. -/
theorem World.Sound.reads_find (hs : w.Sound c) (hr : w.Regular)
    (hcall : .finding chain .ledger req ∈ w.calls) :
    Reads c.aes w.storage.vault chain req w.deposits
      ((c.keeper chain .ledger).getStep req .find w.storage) := by
  have hlocked := hs.entries chain (ledgerKey req.uuid)
  rw [getStep_find_ledger (hr.uuid_ne _ hcall) (hs.reach chain)]
  split_ifs with hnil
  · have hkeys : (atLedger w.deposits chain (ledgerKey req.uuid)).map Deposit.key =
        ledgerKeys w.deposits chain req.uuid :=
      (hs.atLedger_eq hr hcall (List.prefix_refl _) chain).2
    rw [hnil] at hlocked
    rw [List.forall₂_nil_left_iff.1 hlocked, List.map_nil] at hkeys
    rw [Reads, ← hkeys]
    rfl
  · exact ⟨hnil, hlocked⟩

/-- Ciphertexts that are locked for one identity decrypt under one codec. -/
theorem AreLocked.decrypt {uuid : String} {pair : SecretRecord} {codec : Codec}
    {ciphers : List Bytes} {ds : List Deposit} (hpair : v.secret? uuid = some pair)
    (hcodec : pair.codec uuid aes = .value codec) (huuid : ∀ d ∈ ds, d.uuid = uuid)
    (h : AreLocked aes v ciphers ds) :
    List.Forall₂ (fun cipher plain => codec.decrypt cipher = .ok plain) ciphers
      (ds.map fun d => Bytes.ofText d.key) := by
  induction h with
  | nil => exact .nil
  | @cons cipher d ciphers ds hhead htail ih =>
    obtain ⟨hd, hds⟩ := List.forall_mem_cons.1 huuid
    obtain ⟨pair', codec', hpair', hcodec', hdecrypt⟩ := hhead
    rw [hd] at hpair' hcodec'
    obtain rfl := Option.some.inj (hpair'.symm.trans hpair)
    obtain rfl := Outcome.value.inj (hcodec'.symm.trans hcodec)
    exact .cons hdecrypt (ih hds)

/-- **A call that saw deposits ends with their keys.** -/
theorem World.Sound.getStep_eq (hs : w.Sound c) (hr : w.Regular)
    (hcall : .getting chain .ledger req seen stage ∈ w.calls) :
    (c.keeper chain .ledger).getStep req stage w.storage =
      .done (foundOutcome chain req.uuid (ledgerKeys seen chain req.uuid)) := by
  obtain ⟨hseen, hreads⟩ := hs.calls _ hcall
  obtain ⟨huuid, hkeys⟩ :
      (∀ d ∈ atLedger seen chain (ledgerKey req.uuid), d.uuid = req.uuid) ∧
        (atLedger seen chain (ledgerKey req.uuid)).map Deposit.key =
          ledgerKeys seen chain req.uuid :=
    hs.atLedger_eq hr hcall hseen chain
  cases stage with
  | find => exact absurd hreads id
  | done outcome =>
    obtain rfl : outcome = _ := hreads
    rfl
  | unlock ciphers =>
    obtain ⟨hne, hlocked⟩ := hreads
    obtain ⟨cipher, ciphers, rfl⟩ := List.exists_cons_of_ne_nil hne
    -- The first entry shows that the identity has a key pair.
    obtain ⟨d, ds, hhead, -, hds⟩ := List.forall₂_cons_left_iff.1 hlocked
    rw [hds] at huuid hlocked hkeys
    obtain ⟨pair, codec, hpair, hcodec, -⟩ := hhead
    rw [huuid d List.mem_cons_self] at hpair hcodec
    have hplain := hlocked.decrypt hpair hcodec huuid
    have hcodec' : pair.codec req.uuid (c.keeper chain .ledger).aes = .value codec := hcodec
    rw [Keeper.getStep_unlock hpair hcodec' hplain, ← hkeys]
    simp [foundOutcome, Keeper.getReply, Custodian.keeper, Shelf.word, Function.comp_def]

end Looking

/-! ### Runs -/

theorem World.sound_empty (c : Custodian) : World.empty.Sound c where
  made key hkey := by cases hkey
  secrets uuid pair h := by cases h
  reach chain := rfl
  entries chain name := .nil
  calls call hcall := by cases hcall
  deposits := .refl _

/-- A step of one call leaves the others as they are. -/
theorem forall_calls_of_replace {before after : List Call} {old new : Call}
    (hw : w.calls = before ++ old :: after) (hs : ∀ call ∈ w.calls, call.Sound c w)
    (hkeeps : w.storage.vault.Keeps w'.storage.vault) (hmade : ∀ key ∈ w.made, key ∈ w'.made)
    (hdeposits : w.deposits <+: w'.deposits) (hw' : w'.calls = before ++ new :: after)
    (hnew : new.Sound c w') : ∀ call ∈ w'.calls, call.Sound c w' := by
  intro call hcall
  rw [hw', List.mem_append, List.mem_cons] at hcall
  rcases hcall with hcall | rfl | hcall
  · exact (hs call (by simp [hw, hcall])).mono hkeeps hmade hdeposits
  · exact hnew
  · exact (hs call (by simp [hw, hcall])).mono hkeeps hmade hdeposits

/-- A look at the storage preserves the invariant. -/
theorem World.Sound.of_look (hs : w.Sound c) {before after : List Call} {old new : Call}
    (hw : w.calls = before ++ old :: after) (hold : old.deposit? = none)
    (hnone : new.deposit? = none)
    (hnew : new.Sound c { w with calls := before ++ new :: after }) :
    World.Sound c { w with calls := before ++ new :: after } where
  made := hs.made
  secrets := hs.secrets
  reach := hs.reach
  entries := hs.entries
  calls := forall_calls_of_replace hw hs.calls (fun _ _ h => h) (fun _ h => h)
    (List.prefix_refl _) rfl hnew
  deposits := by
    have hdeposits := hs.deposits
    rw [hw, List.filterMap_append, List.filterMap_cons_none hold] at hdeposits
    rwa [List.filterMap_append, List.filterMap_cons_none hnone]

/-- A new call preserves the invariant. -/
theorem World.Sound.of_start (hs : w.Sound c) {call : Call} (hnone : call.deposit? = none)
    (hcall : call.Sound c { w with calls := call :: w.calls }) :
    World.Sound c { w with calls := call :: w.calls } where
  made := hs.made
  secrets := hs.secrets
  reach := hs.reach
  entries := hs.entries
  calls := List.forall_mem_cons.2 ⟨hcall, fun other hother =>
    (hs.calls other hother).mono (fun _ _ h => h) (fun _ h => h) (List.prefix_refl _)⟩
  deposits := by
    rw [List.filterMap_cons_none hnone]
    exact hs.deposits

/-- A step of a call that stores a key preserves the invariant. -/
theorem World.Sound.of_set (hs : w.Sound c) (hr : w.Regular) {chain : String} {shelf : Shelf}
    {req : SetRequest} {stage stage' : SetStage} {before after : List Call} {s' : Storage}
    {r : Entropy} (hw : w.calls = before ++ .setting chain shelf req stage :: after)
    (h : SetMove (c.keeper chain shelf) req w.storage r stage stage' s') :
    World.Sound c
      { storage := s'
        calls := before ++ .setting chain shelf req stage' :: after
        deposits := w.deposits ++ (deposited chain shelf req stage stage').toList
        made := w.made ++ (generated c.rsaBits r stage).toList } := by
  have hcall : (Call.setting chain shelf req stage).Sound c w := hs.calls _ (by simp [hw])
  have hkeeps : w.storage.vault.Keeps s'.vault := fun _ _ => h.secret?_eq_some
  refine ⟨fun key hkey => ?_, fun uuid pair hpair => ?_, fun chain' => ?_,
    hs.areLocked_of_setMove hcall h, ?_, ?_⟩
  · rcases List.mem_append.1 hkey with hkey | hkey
    · exact hs.made key hkey
    · exact ⟨r, (generated_eq_some.1 (Option.mem_toList.1 hkey)).2⟩
  · rcases h.secret?_cases hpair with hpair | rfl
    · obtain ⟨key, hkey, hseals⟩ := hs.secrets uuid pair hpair
      exact ⟨key, List.mem_append_left _ hkey, hseals⟩
    · obtain ⟨key, hkey, hseals⟩ := hcall
      exact ⟨key, List.mem_append_left _ hkey, hseals⟩
  · rw [h.offline?_eq, hs.reach]
  · exact forall_calls_of_replace hw hs.calls hkeeps (fun _ => List.mem_append_left _)
      (List.prefix_append _ _) rfl (hs.setting_of_setMove hr hcall h)
  · have hdeposits := hs.deposits
    rw [hw, List.filterMap_append, filterMap_cons_eq] at hdeposits
    rw [List.filterMap_append, filterMap_cons_eq, deposit?_of_setMove chain shelf h]
    refine (hdeposits.append_right _).trans (List.perm_iff_count.2 fun d => ?_)
    simp only [List.count_append]
    omega

/-- **Steps preserve the invariant** as long as the run is regular. -/
theorem Step.sound (hstep : Step c w w') (hs : w.Sound c) (hr' : w'.Regular) : w'.Sound c := by
  have hr := hstep.regular hr'
  cases hstep with
  | set hw h => exact hs.of_set hr hw (Keeper.setMove_of_setStep h)
  | @find chain shelf req before after hw =>
    refine hs.of_look hw rfl rfl ?_
    cases shelf with
    | content => trivial
    | ledger => exact ⟨List.prefix_refl _, hs.reads_find hr (by simp [hw])⟩
  | @get chain shelf req seen stage before after hw =>
    have hcall : .getting chain shelf req seen stage ∈ w.calls := by simp [hw]
    refine hs.of_look hw rfl rfl ?_
    cases shelf with
    | content => trivial
    | ledger => exact ⟨(hs.calls _ hcall).1, by rw [hs.getStep_eq hr hcall]; rfl⟩
  | startSet chain shelf req => exact hs.of_start rfl trivial
  | startGet chain shelf req => exact hs.of_start rfl trivial

/-- **Regular runs have the invariant.** -/
theorem Run.sound (hrun : Run c w) (hr : w.Regular) : w.Sound c := by
  induction hrun with
  | begin => exact World.sound_empty c
  | step hrun hstep ih => exact hstep.sound (ih (hstep.regular hr)) hr

/-! ### Calls that succeed -/

section Succeeding

variable {chain : String} {req : SetRequest} {before after : List Call}

/-- A call for an identity without a key pair generates one, which it is to put into the vault. -/
theorem Run.exists_inserting {key : PrivateKey} {r r' : Entropy} (hrun : Run c w)
    (hw : w.calls = before ++ .setting chain .ledger req .lookUp :: after)
    (huuid : req.uuid ≠ "") (hnone : w.storage.vault.secret? req.uuid = none)
    (hgenerate : Crypto.Rsa.generate c.rsaBits r = (.ok key, r')) :
    ∃ w' fresh, Run c w' ∧ fresh.Seals c.aes key ∧ w'.storage = w.storage ∧
      w'.calls = before ++ .setting chain .ledger req (.insert fresh) :: after ∧
      w'.deposits = w.deposits ∧ w'.made = w.made ++ [key] := by
  obtain ⟨w₁, hrun₁, hs₁, hw₁, hd₁, hm₁⟩ :=
    hrun.exists_set hw (Keeper.setStep_lookUp (r := r) huuid hnone)
  obtain ⟨fresh, r₂, hfresh, hseals⟩ := SecretRecord.exists_generate hgenerate req.uuid c.aes
  obtain ⟨w₂, hrun₂, hs₂, hw₂, hd₂, hm₂⟩ :=
    hrun₁.exists_set hw₁ (Keeper.setStep_generate hfresh)
  refine ⟨w₂, fresh, hrun₂, hseals, hs₂.trans hs₁, hw₂, ?_, ?_⟩
  · rw [hd₂, hd₁]
    simp [deposited]
  · rw [hm₂, hm₁]
    simp [generated, hgenerate, Except.toOption]

/-- The key pair that a call puts into the vault is in force if there was none. -/
theorem Run.exists_keyed {fresh : SecretRecord} (hrun : Run c w)
    (hw : w.calls = before ++ .setting chain .ledger req (.insert fresh) :: after)
    (hnone : w.storage.vault.secret? req.uuid = none) :
    ∃ w', Run c w' ∧ w'.storage.vault.secret? req.uuid = some fresh ∧
      w'.storage.ledgers = w.storage.ledgers ∧
      w'.calls = before ++ .setting chain .ledger req (.encrypt fresh) :: after ∧
      w'.deposits = w.deposits ∧ w'.made = w.made := by
  obtain ⟨w₁, hrun₁, hs₁, hw₁, hd₁, hm₁⟩ :=
    hrun.exists_set (r := .ofOctets []) hw (Keeper.setStep_insert_of_eq_none fresh hnone)
  refine ⟨w₁, hrun₁, ?_, by rw [hs₁], hw₁, ?_, ?_⟩
  · rw [hs₁, (Vault.secret?_insertSecret_of_eq_none fresh req.uuid hnone).2, if_pos rfl]
  · rw [hd₁]
    simp [deposited]
  · rw [hm₁]
    simp [generated]

/-- A call that comes too late to the vault goes on with the key pair that is there. -/
theorem Run.exists_overtaken {fresh pair : SecretRecord} (hrun : Run c w)
    (hw : w.calls = before ++ .setting chain .ledger req (.insert fresh) :: after)
    (hpair : w.storage.vault.secret? req.uuid = some pair) :
    ∃ w', Run c w' ∧ w'.storage = w.storage ∧
      w'.calls = before ++ .setting chain .ledger req (.encrypt pair) :: after ∧
      w'.deposits = w.deposits ∧ w'.made = w.made := by
  have hinsert : (c.keeper chain .ledger).setStep req (.insert fresh) w.storage (.ofOctets []) =
      (.encrypt pair, w.storage, .ofOctets []) := by
    rw [Keeper.setStep_insert, Vault.insertSecret_of_eq_some hpair]
  obtain ⟨w₁, hrun₁, hs₁, hw₁, hd₁, hm₁⟩ := hrun.exists_set hw hinsert
  refine ⟨w₁, hrun₁, hs₁, hw₁, ?_, ?_⟩
  · rw [hd₁]
    simp [deposited]
  · rw [hm₁]
    simp [generated]

/-- A call that has a usable key pair puts its key on the ledger. -/
theorem Run.exists_shelved {key : PrivateKey} {pair : SecretRecord} (hrun : Run c w)
    (hw : w.calls = before ++ .setting chain .ledger req (.encrypt pair) :: after)
    (hreach : (w.storage.ledger chain).offline? = none) (hseals : pair.Seals c.aes key)
    (hfit : key.Fit) (hkey : Usable key) :
    ∃ w' reply, Run c w' ∧
      w'.calls = before ++ .setting chain .ledger req (.done (.value reply)) :: after ∧
      (w'.storage.ledger chain).offline? = none ∧
      w'.deposits = w.deposits ++ [⟨chain, .ledger, req.uuid, req.key⟩] ∧
      w'.made = w.made := by
  obtain ⟨cipher, r₁, hcipher, -⟩ :=
    Codec.decrypt_encrypt hfit hkey.size (Bytes.ofText req.key) (.ofOctets [])
  obtain ⟨w₁, hrun₁, hs₁, hw₁, hd₁, hm₁⟩ :=
    hrun.exists_set hw (Keeper.setStep_encrypt (hseals.codec_of_usable hkey req.uuid) hcipher)
  rw [← hs₁] at hreach
  obtain ⟨s₂, happend⟩ := Storage.exists_appendLedger hreach (ledgerKey req.uuid) [cipher]
  obtain ⟨w₂, hrun₂, hs₂, hw₂, hd₂, hm₂⟩ :=
    hrun₁.exists_set (r := r₁) hw₁ (Keeper.setStep_shelve rfl happend)
  obtain ⟨w₃, hrun₃, hs₃, hw₃, hd₃, hm₃⟩ := hrun₂.exists_set (r := r₁) hw₂ rfl
  refine ⟨w₃, _, hrun₃, hw₃, ?_, ?_, ?_⟩
  · rw [hs₃, hs₂]
    exact ((Storage.entries_of_appendLedger happend).2.2.1 chain).trans hreach
  · rw [hd₃, hd₂, hd₁]
    simp [deposited]
  · rw [hm₃, hm₂, hm₁]
    simp [generated]

end Succeeding

/-- **What was stored is what is found.** In a run in which the keys that are generated are usable
and ledgers tell the identities of calls apart, the deposits are those of the calls that came so
far, each once. A call that looked at the ledger of a chain ends with its next step, whatever
happened since: with a miss exactly if there was no deposit for its identity when it looked, and
otherwise as a success with the keys of these deposits in their order. -/
theorem keys_of_run (hrun : Run c w) (hr : w.Regular) :
    w.deposits.Perm (w.calls.filterMap Call.deposit?) ∧
    ∀ (chain : String) (req : GetRequest) (seen : List Deposit) (stage : GetStage),
      .getting chain .ledger req seen stage ∈ w.calls →
      seen <+: w.deposits ∧
      ((c.keeper chain .ledger).getStep req stage w.storage =
          .done (.failure (.keyNotFound chain req.uuid)) ↔ ledgerKeys seen chain req.uuid = []) ∧
      (ledgerKeys seen chain req.uuid ≠ [] →
        (c.keeper chain .ledger).getStep req stage w.storage =
          .done (.value ⟨.success, "get social key success",
            (ledgerKeys seen chain req.uuid).map fun key => ⟨"", key⟩⟩)) := by
  have hs := hrun.sound hr
  refine ⟨hs.deposits, fun chain req seen stage hcall => ⟨(hs.calls _ hcall).1, ?_⟩⟩
  rw [hs.getStep_eq hr hcall]
  cases ledgerKeys seen chain req.uuid with
  | nil => simp [foundOutcome]
  | cons key keys => simp [foundOutcome]

/-! ### One key -/

/-- What the keepers of a node with short key pairs have in common. -/
def shortCustodian : Custodian := ⟨⟨List.replicate 16 0, by simp⟩, 89, none⟩

/-- A key pair whose modulus has twelve octets. -/
def shortKey : PrivateKey where
  modulus := 393604523980745004294340609
  publicExponent := 65537
  privateExponent := 62580819077451141399642113
  prime1 := 13258564042753
  prime2 := 29686813949953

/-- The prime is one more than a number with small prime factors. -/
theorem prime_13258564042753 : Nat.Prime 13258564042753 := by
  refine lucas_primality _ (5 : ZMod 13258564042753) (by reduce_mod_char) fun q hq hdvd => ?_
  have hprod : q ∣ 2 ^ 32 * 3 ^ 2 * 7 ^ 3 := by
    simpa using hdvd
  rcases hq.dvd_mul.1 hprod with h | h
  · rcases hq.dvd_mul.1 h with h | h
    · obtain rfl := (Nat.prime_dvd_prime_iff_eq hq Nat.prime_two).1 (hq.dvd_of_dvd_pow h)
      reduce_mod_char
      decide
    · obtain rfl := (Nat.prime_dvd_prime_iff_eq hq Nat.prime_three).1 (hq.dvd_of_dvd_pow h)
      reduce_mod_char
      decide
  · obtain rfl := (Nat.prime_dvd_prime_iff_eq hq (by norm_num)).1 (hq.dvd_of_dvd_pow h)
    reduce_mod_char
    decide

theorem prime_29686813949953 : Nat.Prime 29686813949953 := by
  refine lucas_primality _ (5 : ZMod 29686813949953) (by reduce_mod_char) fun q hq hdvd => ?_
  have hprod : q ∣ 2 ^ 40 * 3 ^ 3 := by
    simpa using hdvd
  rcases hq.dvd_mul.1 hprod with h | h
  · obtain rfl := (Nat.prime_dvd_prime_iff_eq hq Nat.prime_two).1 (hq.dvd_of_dvd_pow h)
    reduce_mod_char
    decide
  · obtain rfl := (Nat.prime_dvd_prime_iff_eq hq Nat.prime_three).1 (hq.dvd_of_dvd_pow h)
    reduce_mod_char
    decide

theorem usable_shortKey : Usable shortKey where
  prime1 := prime_13258564042753
  prime2 := prime_29686813949953
  size := by decide +kernel
  readable := by decide +kernel

theorem fst_generate_shortKey :
    (Crypto.Rsa.generate 89 (.ofOctets [0, 15, 0, 0, 0, 0, 3, 0, 0, 0, 0, 0])).1 =
      .ok shortKey := by
  decide +kernel

/-- There are octets from which this key pair is generated. -/
theorem exists_generate_shortKey : ∃ r r', Crypto.Rsa.generate 89 r = (.ok shortKey, r') := by
  have heta : ∀ {α β : Type} {p : α × β} {a : α}, p.1 = a → p = (a, p.2) := by
    rintro α β p a rfl
    rfl
  exact ⟨_, _, heta fst_generate_shortKey⟩

/-- A call that stores a key of one identity on the ledger of Ethereum. -/
def shortCall (key : String) (stage : SetStage) : Call :=
  .setting "Ethereum" .ledger ⟨"Ethereum", "u1", key, "", ""⟩ stage

/-- Two calls store keys of one identity side by side, and both of them generate a key pair for it.
The second call is the first one at the vault, and the last one at the ledger. -/
theorem exists_short_race : ∃ w reply reply', Run shortCustodian w ∧
    w.calls = [shortCall "k1" (.done (.value reply)), shortCall "k2" (.done (.value reply'))] ∧
    w.deposits = [⟨"Ethereum", .ledger, "u1", "k1"⟩, ⟨"Ethereum", .ledger, "u1", "k2"⟩] ∧
    w.made = [shortKey, shortKey] := by
  obtain ⟨r, r', hgenerate⟩ := exists_generate_shortKey
  have hfit := Crypto.Rsa.fit_of_generate hgenerate prime_13258564042753 prime_29686813949953
  have hbegin : Run shortCustodian _ := .begin
  have hstarted := (hbegin.step
    (.startSet "Ethereum" .ledger ⟨"Ethereum", "u1", "k2", "", ""⟩)).step
      (.startSet "Ethereum" .ledger ⟨"Ethereum", "u1", "k1", "", ""⟩)
  -- Neither of them finds a key pair.
  obtain ⟨w₁, fresh₁, hrun₁, -, hs₁, hw₁, hd₁, hm₁⟩ :=
    hstarted.exists_inserting (List.nil_append _).symm (by decide) rfl hgenerate
  have hcalls₁ : w₁.calls =
      [shortCall "k1" (.insert fresh₁)] ++ shortCall "k2" .lookUp :: [] := hw₁
  have hnone : w₁.storage.vault.secret? "u1" = none := by
    rw [hs₁]
    rfl
  obtain ⟨w₂, fresh₂, hrun₂, hseals, hs₂, hw₂, hd₂, hm₂⟩ :=
    hrun₁.exists_inserting hcalls₁ (by decide) hnone hgenerate
  -- The second one puts its key pair into the vault, and the first one takes it from there.
  obtain ⟨w₃, hrun₃, hpair, hl₃, hw₃, hd₃, hm₃⟩ :=
    hrun₂.exists_keyed hw₂ (by rw [hs₂]; exact hnone)
  have hcalls₃ : w₃.calls =
      [] ++ shortCall "k1" (.insert fresh₁) :: [shortCall "k2" (.encrypt fresh₂)] := hw₃
  obtain ⟨w₄, hrun₄, hs₄, hw₄, hd₄, hm₄⟩ := hrun₃.exists_overtaken hcalls₃ hpair
  have hreach : (w₄.storage.ledger "Ethereum").offline? = none := by
    rw [hs₄, Storage.ledger, hl₃, hs₂, hs₁]
    rfl
  -- Both keys are encrypted under it.
  obtain ⟨w₅, reply, hrun₅, hw₅, hreach₅, hd₅, hm₅⟩ :=
    hrun₄.exists_shelved hw₄ hreach hseals hfit usable_shortKey
  have hcalls₅ : w₅.calls =
      [shortCall "k1" (.done (.value reply))] ++ shortCall "k2" (.encrypt fresh₂) :: [] := hw₅
  obtain ⟨w₆, reply', hrun₆, hw₆, -, hd₆, hm₆⟩ :=
    hrun₅.exists_shelved hcalls₅ hreach₅ hseals hfit usable_shortKey
  refine ⟨w₆, reply, reply', hrun₆, hw₆, ?_, ?_⟩
  · rw [hd₆, hd₅, hd₄, hd₃, hd₂, hd₁]
    rfl
  · rw [hm₆, hm₅, hm₄, hm₃, hm₂, hm₁]
    rfl

/-- The keys that two calls stored side by side are both found by a third one, although each of the
two has generated a key pair of its own. -/
theorem keys_of_short_race : ∃ w seen stage, Run shortCustodian w ∧
    w.made = [shortKey, shortKey] ∧
    .getting "Ethereum" .ledger ⟨"Ethereum", "u1", ""⟩ seen stage ∈ w.calls ∧
    (shortCustodian.keeper "Ethereum" .ledger).getStep ⟨"Ethereum", "u1", ""⟩ stage w.storage =
      .done (.value ⟨.success, "get social key success", [⟨"", "k1"⟩, ⟨"", "k2"⟩]⟩) := by
  obtain ⟨w, reply, reply', hrun, hcalls, hdeposits, hmade⟩ := exists_short_race
  have hfinding := hrun.step (.startGet "Ethereum" .ledger ⟨"Ethereum", "u1", ""⟩)
  have hlooked := hfinding.step (.find (List.nil_append _).symm)
  have huuid : ∀ call ∈ [] ++ .getting "Ethereum" .ledger ⟨"Ethereum", "u1", ""⟩ w.deposits
      ((shortCustodian.keeper "Ethereum" .ledger).getStep ⟨"Ethereum", "u1", ""⟩ .find
        w.storage) :: w.calls, Call.uuid call = "u1" := by
    simp [hcalls, shortCall, Call.uuid]
  have hregular : World.Regular { w with
      calls := [] ++ .getting "Ethereum" .ledger ⟨"Ethereum", "u1", ""⟩ w.deposits
        ((shortCustodian.keeper "Ethereum" .ledger).getStep ⟨"Ethereum", "u1", ""⟩ .find
          w.storage) :: w.calls } := by
    refine ⟨fun key hkey => ?_, fun call hcall => ?_, fun call hcall call' hcall' _ => ?_⟩
    · obtain rfl : key = shortKey := by simpa [hmade] using hkey
      exact usable_shortKey
    · rw [huuid call hcall]
      decide
    · rw [huuid call hcall, huuid call' hcall']
  have hkeys : ledgerKeys w.deposits "Ethereum" "u1" = ["k1", "k2"] := by
    rw [hdeposits]
    rfl
  obtain ⟨-, -, hfound⟩ := (keys_of_run hlooked hregular).2 "Ethereum" _ _ _ List.mem_cons_self
  rw [hkeys] at hfound
  exact ⟨_, _, _, hlooked, hmade, List.mem_cons_self, hfound (List.cons_ne_nil _ _)⟩

end KeyCustody.Custody
