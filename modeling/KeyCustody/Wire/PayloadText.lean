import KeyCustody.Json.Tree
import KeyCustody.Json.Typed
import KeyCustody.Text.Quoted
import KeyCustody.Wire.Payload
/-!
# Payloads as texts

The clients of a node write and read payloads as JSON, and a log shows them with their secrets left
out. Both follow the descriptions of the records.

## Main definitions

* `Payload.toJson`, `Payload.readJson`: the documents of clients.
* `Payload.shown`: the line of a log.
-/

namespace KeyCustody.Wire

/-! ### Documents -/

/-- A record as an object. -/
def recordJson (specs : List FieldSpec) (values : List Json.Tree) : Json.Tree :=
  .object (List.zipWith (fun f v => (f.name, v)) specs values)

/-- What stands in a field as a document. -/
def Field.toJson : Field → Json.Tree
  | .text s => .text s
  | .flag b => .flag b
  | .code c => .text c.name
  | .keys ks => .list (ks.map fun k => recordJson socialKeyFields [.text k.id, .text k.key])

/-- A stored key. -/
def readSocialKeyJson (fuel : Nat) (bs : Bytes) : Except Json.ReadError (SocialKey × Bytes) := do
  let slots : List (Json.Slot String) := socialKeyFields.map fun f => ⟨f.name, none⟩
  let (texts, bs) ← Json.readRecord slots (fun _ => Json.readText fuel) fuel bs
  match texts with
  | [id, key] => pure (⟨id, key⟩, bs)
  | _ => throw .unfit

/-- The contents of a field of the given kind. -/
def readFieldJson (kind : FieldKind) (fuel : Nat) (bs : Bytes) :
    Except Json.ReadError (Field × Bytes) :=
  match kind with
  | .text => (Json.readText fuel bs).map fun (s, bs) => (.text s, bs)
  | .flag => (Json.readFlag fuel bs).map fun (b, bs) => (.flag b, bs)
  | .code => (Json.readChoice codeChoices fuel bs).map fun (c, bs) => (.code c, bs)
  | .keys => (Json.readList (readSocialKeyJson fuel) fuel bs).map fun (ks, bs) => (.keys ks, bs)

/-- The fields of a payload of the given form. -/
def readShapeJson (shape : Shape) (fuel : Nat) (bs : Bytes) :
    Except Json.ReadError (List Field × Bytes) :=
  match shape with
  | .code => (readFieldJson .code fuel bs).map fun (c, bs) => ([c], bs)
  | .record specs =>
    let kinds := specs.map FieldSpec.kind
    Json.readRecord (specs.map fun f => ⟨f.name, f.default?⟩)
      (fun i => readFieldJson (kinds.getD i .text) fuel) fuel bs

/-! ### Lines of a log -/

/-- The names of the return codes in a log. -/
def ReturnCode.shown : ReturnCode → String
  | .success => "Success"
  | .error => "Error"
  | .unsupported => "Unsupported"

/-- A record in a log. -/
def showRecord (name : String) (fields : List (String × String)) : String :=
  let inner := ", ".intercalate (fields.map fun (n, v) => n ++ ": " ++ v)
  name ++ " \x7b " ++ inner ++ " \x7d"

/-- What a log shows in place of a secret. -/
def redacted : String := Text.Quoted.encode "<redacted>"

/-- A stored key in a log. -/
def SocialKey.shown (k : SocialKey) : String :=
  showRecord "SocialKey" [("id", Text.Quoted.encode k.id), ("key", redacted)]

/-- What stands in a field in a log. -/
def Field.shown : Field → String
  | .text s => Text.Quoted.encode s
  | .flag true => "true"
  | .flag false => "false"
  | .code c => c.shown
  | .keys ks => "[" ++ ", ".intercalate (ks.map SocialKey.shown) ++ "]"

namespace Payload

variable {α : Type} [Payload α]

/-- The document of a payload. -/
def toJson (a : α) : Json.Tree :=
  match shape α with
  | .code => ((toFields a).map Field.toJson).headD (.text "")
  | .record specs => recordJson specs ((toFields a).map Field.toJson)

/-- The payload of the octets of a document. -/
def readJson (bs : Bytes) : Except Json.ReadError α := do
  let fields ← Json.readWhole (readShapeJson (shape α)) bs
  match ofFields? fields with
  | some a => pure a
  | none => throw .unfit

/-- The line of a log. -/
def shown (a : α) : String :=
  match shape α with
  | .code => "".intercalate ((toFields a).map Field.shown)
  | .record specs =>
    showRecord (typeName α)
      (List.zipWith (fun f v => (f.name, if f.isSecret then redacted else v.shown)) specs
        (toFields a))

end Payload

end KeyCustody.Wire
