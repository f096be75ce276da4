import KeyCustody.Crypto.Sha256
import KeyCustody.Custody.Vault
import KeyCustody.Text.Hex
/-!
# Storage

What the adaptors of a node store: the vault that they share, a ledger for each chain of that kind
and a content store for each chain of the other. Ledgers only grow, and they name an identity by
thirty-two octets. A content store names what is in it by its hash.

A ledger or a content store that is out of reach fails every call with the words that it is given.

## Main definitions

* `ledgerKey`, `contentId`: names of identities and of contents.
* `Ledger`, `ContentStore`, `Storage`: what is stored.
* `Storage.queryLedger`, `Storage.appendLedger`, `Storage.addContent`, `Storage.getContent`: the
  calls of the adaptors of a chain.
-/

namespace KeyCustody.Custody

/-! ### Names -/

/-- The octets of the name of an identity in a ledger. -/
def ledgerKeyLength : Nat := 32

/-- The name of an identity in a ledger: the octets of its text, cut or filled up with zeros. -/
def ledgerKey (uuid : String) : Bytes :=
  let octets := (Bytes.ofText uuid).take ledgerKeyLength
  octets ++ List.replicate (ledgerKeyLength - octets.length) 0

/-- The name of a content: its hash in hexadecimal. -/
def contentId (data : Bytes) : String :=
  Text.Hex.encode (Crypto.Sha256.digest data)

/-! ### What is stored -/

/-- The entries of identities. -/
structure Ledger where
  entries : Assoc Bytes (List Bytes)
  /-- The words with which it fails, if it is out of reach. -/
  offline? : Option String
  deriving DecidableEq, Repr

/-- Contents by name. -/
structure ContentStore where
  contents : Assoc String Bytes
  /-- The words with which it fails, if it is out of reach. -/
  offline? : Option String
  deriving DecidableEq, Repr

/-- Everything that the adaptors of a node store. -/
structure Storage where
  vault : Vault
  /-- The ledgers by chain. -/
  ledgers : Assoc String Ledger
  /-- The content stores by chain. -/
  stores : Assoc String ContentStore
  deriving DecidableEq, Repr

/-- A ledger without entries. -/
def Ledger.empty : Ledger := ⟨[], none⟩

/-- A content store without contents. -/
def ContentStore.empty : ContentStore := ⟨[], none⟩

namespace Storage

/-- Storage with nothing in it. -/
def empty : Storage := ⟨.empty, [], []⟩

/-- The ledger of a chain. -/
def ledger (s : Storage) (chain : String) : Ledger :=
  (Assoc.get? s.ledgers chain).getD .empty

/-- The content store of a chain. -/
def store (s : Storage) (chain : String) : ContentStore :=
  (Assoc.get? s.stores chain).getD .empty

/-! ### Calls -/

/-- The failure of a call, if the part of the storage is out of reach. -/
def reach (offline? : Option String) : Except AdaptorError Unit :=
  match offline? with
  | some words => .error (.backend words)
  | none => .ok ()

/-- The entries of an identity in the ledger of a chain, the oldest first. -/
def queryLedger (s : Storage) (chain : String) (key : Bytes) :
    Except AdaptorError (List Bytes) := do
  let l := s.ledger chain
  reach l.offline?
  pure ((Assoc.get? l.entries key).getD [])

/-- The storage with more entries of an identity in the ledger of a chain. -/
def appendLedger (s : Storage) (chain : String) (key : Bytes) (entries : List Bytes) :
    Except AdaptorError Storage := do
  let l := s.ledger chain
  reach l.offline?
  let l := { l with entries := Assoc.modify l.entries key [] (· ++ entries) }
  pure { s with ledgers := Assoc.put s.ledgers chain l }

/-- The storage with a content in the store of a chain, and the name of the content. -/
def addContent (s : Storage) (chain : String) (data : Bytes) :
    Except AdaptorError (Storage × String) := do
  let c := s.store chain
  reach c.offline?
  let cid := contentId data
  let c := { c with contents := Assoc.put c.contents cid data }
  pure ({ s with stores := Assoc.put s.stores chain c }, cid)

/-- The content with a name in the store of a chain. -/
def getContent (s : Storage) (chain cid : String) : Except AdaptorError (Option Bytes) := do
  let c := s.store chain
  reach c.offline?
  pure (Assoc.get? c.contents cid)

end Storage

end KeyCustody.Custody
