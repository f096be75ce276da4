import KeyCustody.Cbor.Typed
/-!
# Requests and replies

What an envelope carries, and what the clients of a node send and get: requests on a chain and their
replies. Each kind is a record of named fields, described once; the description serves the octets on
the wire, the texts of clients and the lines of a log.

## Main definitions

* `ReturnCode`, `SupportRequest`, `SupportReply`, `GetRequest`, `SocialKey`, `GetReply`,
  `SetRequest`, `SetReply`: the records.
* `Payload`: the description of a record.
* `Payload.encode`, `Payload.decode`: octets on the wire.
-/

namespace KeyCustody.Wire

/-! ### Records -/

/-- How a request ended. -/
inductive ReturnCode where
  | success
  | error
  /-- No adaptor serves the chain. -/
  | unsupported
  deriving DecidableEq, Repr

/-- The name of a return code. -/
def ReturnCode.name : ReturnCode → String
  | .success => "success"
  | .error => "error"
  | .unsupported => "unsupported"

/-- The question whether a chain is served. -/
structure SupportRequest where
  chain : String
  deriving DecidableEq, Repr

/-- The answer whether a chain is served. -/
structure SupportReply where
  code : ReturnCode
  msg : String
  support : Bool
  deriving DecidableEq, Repr

/-- The request for the keys of an identity. -/
structure GetRequest where
  chain : String
  uuid : String
  /-- The content id under which a content store keeps the key. -/
  fileCid : String
  deriving DecidableEq, Repr

/-- A stored key. -/
structure SocialKey where
  id : String
  key : String
  deriving DecidableEq, Repr

/-- The keys of an identity. -/
structure GetReply where
  code : ReturnCode
  msg : String
  keyList : List SocialKey
  deriving DecidableEq, Repr

/-- The request to store a key. -/
structure SetRequest where
  chain : String
  uuid : String
  key : String
  password : String
  socialCode : String
  deriving DecidableEq, Repr

/-- The answer to a request to store a key. -/
structure SetReply where
  code : ReturnCode
  msg : String
  /-- The file of the public key of the identity. -/
  pubKey : String
  /-- The file of its private key, encrypted and in base 64. -/
  privKey : String
  /-- The content id, if a content store keeps the key. -/
  fileCid : String
  deriving DecidableEq, Repr

/-- The message of a reply on a chain that is not served. -/
def unsupportedMessage : String := "Unsupported Operation"

/-- The answer for a chain that is not served. -/
def SupportReply.unsupported : SupportReply := ⟨.unsupported, unsupportedMessage, false⟩

/-- The reply on a chain that is not served. -/
def GetReply.unsupported : GetReply := ⟨.unsupported, unsupportedMessage, []⟩

/-- The reply on a chain that is not served. -/
def SetReply.unsupported : SetReply := ⟨.unsupported, unsupportedMessage, "", "", ""⟩

/-! ### Descriptions -/

/-- The kinds of fields. -/
inductive FieldKind where
  | text
  | flag
  | code
  | keys
  deriving DecidableEq, Repr

/-- What stands in a field. -/
inductive Field where
  | text (s : String)
  | flag (b : Bool)
  | code (c : ReturnCode)
  | keys (ks : List SocialKey)
  deriving DecidableEq, Repr

/-- A field of a record. -/
structure FieldSpec where
  name : String
  kind : FieldKind
  /-- Its contents if it is left out; a field without must be there. -/
  default? : Option Field
  /-- Whether its contents are kept out of logs. -/
  isSecret : Bool
  deriving DecidableEq, Repr

namespace FieldSpec

/-- A text that must be there. -/
def text (name : String) : FieldSpec := ⟨name, .text, none, false⟩

/-- A text that is empty if it is left out. -/
def optionalText (name : String) : FieldSpec := ⟨name, .text, some (.text ""), false⟩

/-- The field with its contents kept out of logs. -/
def secret (f : FieldSpec) : FieldSpec := { f with isSecret := true }

/-- A truth value that must be there. -/
def flag (name : String) : FieldSpec := ⟨name, .flag, none, false⟩

/-- A return code that must be there. -/
def code (name : String) : FieldSpec := ⟨name, .code, none, false⟩

/-- A list of keys that must be there. -/
def keys (name : String) : FieldSpec := ⟨name, .keys, none, false⟩

/-- The name and the default of the field. -/
def slot (f : FieldSpec) : Cbor.Slot Field := ⟨f.name, f.default?⟩

end FieldSpec

/-- The form of a payload: a bare return code or a record. -/
inductive Shape where
  | code
  | record (fields : List FieldSpec)
  deriving DecidableEq, Repr

/-- The description of a kind of payload. -/
class Payload (α : Type) where
  /-- The name under which a log shows it. -/
  typeName : String
  shape : Shape
  toFields : α → List Field
  ofFields? : List Field → Option α

/-- The return codes by name. -/
def codeChoices : List (String × ReturnCode) :=
  [ReturnCode.success, .error, .unsupported].map fun c => (c.name, c)

instance : Payload ReturnCode where
  typeName := "ReturnCode"
  shape := .code
  toFields c := [.code c]
  ofFields?
    | [.code c] => some c
    | _ => none

instance : Payload SupportRequest where
  typeName := "SupportChainReq"
  shape := .record [.text "chain"]
  toFields r := [.text r.chain]
  ofFields?
    | [.text chain] => some ⟨chain⟩
    | _ => none

instance : Payload SupportReply where
  typeName := "SupportChainRep"
  shape := .record [.code "code", .text "msg", .flag "support"]
  toFields r := [.code r.code, .text r.msg, .flag r.support]
  ofFields?
    | [.code code, .text msg, .flag support] => some ⟨code, msg, support⟩
    | _ => none

instance : Payload GetRequest where
  typeName := "GetSocialKeyReq"
  shape := .record [.text "chain", .text "uuid", .optionalText "file_cid"]
  toFields r := [.text r.chain, .text r.uuid, .text r.fileCid]
  ofFields?
    | [.text chain, .text uuid, .text fileCid] => some ⟨chain, uuid, fileCid⟩
    | _ => none

/-- The fields of a stored key. -/
def socialKeyFields : List FieldSpec := [.text "id", (.text "key" : FieldSpec).secret]

instance : Payload SocialKey where
  typeName := "SocialKey"
  shape := .record socialKeyFields
  toFields k := [.text k.id, .text k.key]
  ofFields?
    | [.text id, .text key] => some ⟨id, key⟩
    | _ => none

instance : Payload GetReply where
  typeName := "GetSocialKeyRep"
  shape := .record [.code "code", .text "msg", .keys "key_list"]
  toFields r := [.code r.code, .text r.msg, .keys r.keyList]
  ofFields?
    | [.code code, .text msg, .keys keyList] => some ⟨code, msg, keyList⟩
    | _ => none

instance : Payload SetRequest where
  typeName := "SetSocialKeyReq"
  shape := .record [.text "chain", .text "uuid", (.text "key" : FieldSpec).secret,
    (.optionalText "password" : FieldSpec).secret, .optionalText "social_code"]
  toFields r := [.text r.chain, .text r.uuid, .text r.key, .text r.password, .text r.socialCode]
  ofFields?
    | [.text chain, .text uuid, .text key, .text password, .text socialCode] =>
      some ⟨chain, uuid, key, password, socialCode⟩
    | _ => none

instance : Payload SetReply where
  typeName := "SetSocialKeyRep"
  shape := .record [.code "code", .text "msg", .text "pub_key", .text "priv_key",
    .text "file_cid"]
  toFields r := [.code r.code, .text r.msg, .text r.pubKey, .text r.privKey, .text r.fileCid]
  ofFields?
    | [.code code, .text msg, .text pubKey, .text privKey, .text fileCid] =>
      some ⟨code, msg, pubKey, privKey, fileCid⟩
    | _ => none

/-! ### Octets on the wire -/

/-- A record as a map from names to values. -/
def recordValue (specs : List FieldSpec) (values : List Cbor.Value) : Cbor.Value :=
  .map (List.zipWith (fun f v => (.text f.name, v)) specs values)

/-- A stored key as a value. -/
def SocialKey.toValue (k : SocialKey) : Cbor.Value :=
  recordValue socialKeyFields [.text k.id, .text k.key]

/-- What stands in a field as a value. -/
def Field.toValue : Field → Cbor.Value
  | .text s => .text s
  | .flag b => .bool b
  | .code c => .text c.name
  | .keys ks => .array (ks.map SocialKey.toValue)

/-- A stored key. -/
def readSocialKey (fuel depth : Nat) (bs : Bytes) :
    Except Cbor.ReadError (SocialKey × Bytes) := do
  let slots : List (Cbor.Slot String) := socialKeyFields.map fun f => ⟨f.name, none⟩
  let (texts, bs) ← Cbor.readRecord slots (fun _ _ => Cbor.readText fuel) fuel depth bs
  match texts with
  | [id, key] => pure (⟨id, key⟩, bs)
  | _ => throw .unfit

/-- The contents of a field of the given kind. -/
def readField (kind : FieldKind) (fuel depth : Nat) (bs : Bytes) :
    Except Cbor.ReadError (Field × Bytes) :=
  match kind with
  | .text => do
    let (s, bs) ← Cbor.readText fuel bs
    pure (.text s, bs)
  | .flag => do
    let (b, bs) ← Cbor.readBool fuel bs
    pure (.flag b, bs)
  | .code => do
    let (c, bs) ← Cbor.readChoice codeChoices fuel depth bs
    pure (.code c, bs)
  | .keys => do
    let (ks, bs) ← Cbor.readList (readSocialKey fuel) fuel depth bs
    pure (.keys ks, bs)

/-- The fields of a payload of the given form. -/
def readShape (shape : Shape) (fuel depth : Nat) (bs : Bytes) :
    Except Cbor.ReadError (List Field × Bytes) :=
  match shape with
  | .code => do
    let (c, bs) ← readField .code fuel depth bs
    pure ([c], bs)
  | .record specs =>
    let kinds := specs.map FieldSpec.kind
    Cbor.readRecord (specs.map FieldSpec.slot)
      (fun i depth => readField (kinds.getD i .text) fuel depth) fuel depth bs

namespace Payload

variable {α : Type} [Payload α]

/-- A payload as a value. -/
def toValue (a : α) : Cbor.Value :=
  match shape α with
  | .code => ((toFields a).map Field.toValue).headD .null
  | .record specs => recordValue specs ((toFields a).map Field.toValue)

/-- The octets of a payload. -/
def encode (a : α) : Bytes :=
  (toValue a).encode

/-- The payload of octets; what follows it is not looked at. -/
def decode (bs : Bytes) : Except Cbor.ReadError α := do
  let (fields, _) ← readShape (shape α) (Cbor.fuelFor bs) Cbor.depthLimit bs
  match ofFields? fields with
  | some a => pure a
  | none => throw .unfit

end Payload

end KeyCustody.Wire
