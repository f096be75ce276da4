import KeyCustody.Custody.Adaptor
import KeyCustody.Custody.Storage
/-!
# Keepers

A keeper is an adaptor that encrypts keys under the RSA key pair of their identity and puts them on
a ledger or into a content store. A call takes steps, each of which looks at the storage or changes
it at most once, so that the steps of calls side by side may come in any order.

To store a key, the key pair of the identity is looked up; if there is none, one is made and put
into the vault, where another call may have been first. The key is encrypted under the pair that is
in the vault, put on the shelf and noted.

## Main definitions

* `Keeper`, `Shelf`: the adaptor, and where it puts keys.
* `SetStage`, `Keeper.setStep`: storing a key, step by step.
* `GetStage`, `Keeper.getStep`: looking keys up, step by step.
* `Keeper.toAdaptor`: calls that are not interrupted.
-/

namespace KeyCustody.Custody

open Crypto (SymmetricKey Entropy)
open Wire (GetRequest GetReply SetRequest SetReply SocialKey)

/-- Where a keeper puts keys. -/
inductive Shelf where
  | ledger
  | content
  deriving DecidableEq, Repr

/-- An adaptor that keeps keys encrypted. -/
structure Keeper where
  chain : String
  shelf : Shelf
  /-- The key under which private keys are kept. -/
  aes : SymmetricKey
  /-- The bits of fresh key pairs. -/
  rsaBits : Nat

/-- The word for the shelf in a reply. -/
def Shelf.word : Shelf → String
  | .ledger => ""
  | .content => "ipfs "

namespace Keeper

/-! ### Storing a key -/

/-- How far a call that stores a key is. -/
inductive SetStage where
  | lookUp
  /-- There was no key pair. -/
  | generate
  | insert (fresh : SecretRecord)
  | encrypt (pair : SecretRecord)
  | shelve (pair : SecretRecord) (cipher : Bytes)
  /-- The key is on the shelf, in a content store under a name. -/
  | note (pair : SecretRecord) (cid? : Option String)
  | done (outcome : Outcome AdaptorError SetReply)

/-- The reply after a key was stored. -/
def setReply (k : Keeper) (pair : SecretRecord) (cid? : Option String) : SetReply where
  code := .success
  msg := "set " ++ k.shelf.word ++ "social key success"
  pubKey := pair.publicText
  privKey := pair.privateEncrypted
  fileCid := cid?.getD ""

/-- The next stage of a call that stores a key. -/
def setStep (k : Keeper) (req : SetRequest) (stage : SetStage) (s : Storage) (r : Entropy) :
    SetStage × Storage × Entropy :=
  match stage with
  | .lookUp =>
    if req.uuid.isEmpty then (.done (.failure .emptyUuid), s, r)
    else
      match s.vault.secret? req.uuid with
      | some pair => (.encrypt pair, s, r)
      | none => (.generate, s, r)
  | .generate =>
    match SecretRecord.generate req.uuid k.aes k.rsaBits r with
    | (.ok fresh, r) => (.insert fresh, s, r)
    | (.error e, r) => (.done (.failure e), s, r)
  | .insert fresh =>
    let (vault, pair) := s.vault.insertSecret req.uuid fresh
    (.encrypt pair, { s with vault }, r)
  | .encrypt pair =>
    match pair.codec req.uuid k.aes with
    | .failure e => (.done (.failure e), s, r)
    | .breakdown b => (.done (.breakdown b), s, r)
    | .value codec =>
      match codec.encrypt (Bytes.ofText req.key) r with
      | (.value cipher, r) => (.shelve pair cipher, s, r)
      | (.failure e, r) => (.done (.failure (.codec req.uuid e)), s, r)
      | (.breakdown b, r) => (.done (.breakdown b), s, r)
  | .shelve pair cipher =>
    match k.shelf with
    | .ledger =>
      match s.appendLedger k.chain (ledgerKey req.uuid) [cipher] with
      | .ok s => (.note pair none, s, r)
      | .error e => (.done (.failure e), s, r)
    | .content =>
      match s.addContent k.chain cipher with
      | .ok (s, cid) => (.note pair (some cid), s, r)
      | .error e => (.done (.failure e), s, r)
  | .note pair cid? =>
    let vault := s.vault.addNote req.uuid ⟨req.password, cid?⟩
    (.done (.value (k.setReply pair cid?)), { s with vault }, r)
  | .done outcome => (.done outcome, s, r)

/-! ### Looking keys up -/

/-- How far a call that looks keys up is. -/
inductive GetStage where
  | find
  /-- What was on the shelf for the identity. -/
  | unlock (ciphers : List Bytes)
  | done (outcome : Outcome AdaptorError GetReply)

/-- The failure that nothing is stored for the identity of a request. -/
def miss (k : Keeper) (req : GetRequest) : AdaptorError :=
  .keyNotFound k.chain req.uuid

/-- What is on the shelf for a request. A content is asked for by its name. -/
def ciphers (k : Keeper) (req : GetRequest) (s : Storage) : Except AdaptorError (List Bytes) :=
  match k.shelf with
  | .ledger => s.queryLedger k.chain (ledgerKey req.uuid)
  | .content =>
    if req.fileCid.isEmpty then .ok []
    else (s.getContent k.chain req.fileCid).map Option.toList

/-- The plaintexts of ciphertexts. -/
def decryptAll (uuid : String) (codec : Crypto.Rsa.Codec) :
    List Bytes → Outcome AdaptorError (List Bytes)
  | [] => .value []
  | c :: cs => do
    let p ← (Outcome.ofExcept (codec.decrypt c)).mapFailure (.codec uuid)
    let ps ← decryptAll uuid codec cs
    pure (p :: ps)

/-- The reply with keys that were found. In a content store the key has the name of its content. -/
def getReply (k : Keeper) (req : GetRequest) (plain : List Bytes) : GetReply where
  code := .success
  msg := "get " ++ k.shelf.word ++ "social key success"
  keyList := plain.map fun p =>
    ⟨match k.shelf with
      | .ledger => ""
      | .content => req.fileCid, Bytes.textLossy p⟩

/-- The next stage of a call that looks keys up. -/
def getStep (k : Keeper) (req : GetRequest) (stage : GetStage) (s : Storage) : GetStage :=
  match stage with
  | .find =>
    if req.uuid.isEmpty then .done (.failure .emptyUuid)
    else
      match k.ciphers req s with
      | .error e => .done (.failure e)
      | .ok [] => .done (.failure (k.miss req))
      | .ok cs => .unlock cs
  | .unlock cs =>
    match s.vault.secret? req.uuid with
    | none => .done (.failure (k.miss req))
    | some pair => .done do
      let codec ← pair.codec req.uuid k.aes
      let plain ← decryptAll req.uuid codec cs
      pure (k.getReply req plain)
  | .done outcome => .done outcome

/-! ### Whole calls -/

/-- How a call that stores a key ends after at most `fuel` more steps without interruption. -/
def runSet (k : Keeper) (req : SetRequest) :
    (fuel : Nat) → SetStage → Storage → Entropy → Outcome AdaptorError SetReply × Storage × Entropy
  | _, .done outcome, s, r => (outcome, s, r)
  | 0, _, s, r => (.failure (.backend ""), s, r)
  | fuel + 1, stage, s, r =>
    let (stage, s, r) := k.setStep req stage s r
    runSet k req fuel stage s r

/-- How a call that looks keys up ends after at most `fuel` more steps without interruption. -/
def runGet (k : Keeper) (req : GetRequest) :
    (fuel : Nat) → GetStage → Storage → Outcome AdaptorError GetReply
  | _, .done outcome, _ => outcome
  | 0, _, _ => .failure (.backend "")
  | fuel + 1, stage, s => runGet k req fuel (k.getStep req stage s) s

/-- The most steps of a call. -/
def mostSteps : Nat := 6

/-- The adaptor of a keeper: calls that are not interrupted. -/
def toAdaptor (k : Keeper) : Adaptor (Storage × Entropy) where
  chain := k.chain
  support _ := .value supported
  get req s := (k.runGet req mostSteps .find s.1, s)
  set req s :=
    let (outcome, storage, r) := k.runSet req mostSteps .lookUp s.1 s.2
    (outcome, storage, r)

end Keeper

end KeyCustody.Custody
