import KeyCustody.Cbor.Typed
import KeyCustody.Peer.Identity
import KeyCustody.Wire.Stream
/-!
# Envelopes

What peers send to each other is wrapped in a signed envelope. It names the sender, the message that
it belongs to, and what kind of message it is. On the wire it is an array of nine items, and the
signature is that of the same array with an empty signature in it.

## Main definitions

* `MessageKind`: the kinds of messages, with their numbers.
* `Envelope`, `EnvelopeError`: the message, and what can be wrong with it.
* `Envelope.signingBytes`, `Envelope.sign`, `Envelope.verify`: signatures.
* `Envelope.encode?`, `Envelope.decode`: octets on the wire.
-/

namespace KeyCustody.Wire

open Crypto (SignatureScheme)
open Peer (PeerId PublicKey Identity)

/-! ### Kinds of messages -/

/-- The kinds of messages between nodes. -/
inductive MessageKind where
  /-- A request of a client of this node. -/
  | directRequest
  /-- A request that a peer could not answer itself. -/
  | relayRequest
  /-- The answer to a relayed request. -/
  | keyResponse
  deriving DecidableEq, Repr

namespace MessageKind

/-- The number of a kind. -/
def code : MessageKind → Nat
  | .directRequest => 1
  | .relayRequest => 2
  | .keyResponse => 3

/-- The kind with a number. -/
def ofCode? (n : Nat) : Option MessageKind :=
  if n = 1 then some .directRequest
  else if n = 2 then some .relayRequest
  else if n = 3 then some .keyResponse
  else none

/-- The name of a kind. -/
def name : MessageKind → String
  | .directRequest => "DIRECT_REQUEST"
  | .relayRequest => "RELAY_REQUEST"
  | .keyResponse => "GET_KEY_RESPONSE"

/-- Whether messages of the kind travel on the request protocol. -/
def isRequest : MessageKind → Bool
  | .directRequest => true
  | .relayRequest => true
  | .keyResponse => false

theorem ofCode?_code (k : MessageKind) : ofCode? k.code = some k := by
  cases k <;> rfl

end MessageKind

/-! ### Errors -/

/-- Why octets are no message. -/
inductive DecodeError where
  | unreadable (e : Cbor.ReadError)
  | expectedArray
  | fieldCount (n : Nat)
  | expectedText
  | expectedInteger
  | expectedBool
  | expectedBytes
  /-- An integer does not fit two octets. -/
  | overflow16
  /-- An integer does not fit eight octets. -/
  | overflow64
  deriving DecidableEq, Repr

/-- The fields of an envelope. -/
def fieldCount : Nat := 9

/-- The words for octets that are no message. -/
def DecodeError.message : DecodeError → String
  | .unreadable e => e.message
  | .expectedArray => "expected array"
  | .fieldCount n => "expected " ++ toString Wire.fieldCount ++ " fields, got " ++ toString n
  | .expectedText => "expected text"
  | .expectedInteger => "expected integer"
  | .expectedBool => "expected bool"
  | .expectedBytes => "expected bytes"
  | .overflow16 => "u16 overflow"
  | .overflow64 => "u64 overflow"

/-- What can be wrong with an envelope. -/
inductive EnvelopeError where
  | unsupportedVersion (version : String)
  | unknownKind (code : Nat)
  | invalidSignature
  | unknownSigner (signer : String)
  | invalidNodeId (nodeId : String)
  | signerMismatch (claimed remote : String)
  | tooLarge (size : Nat)
  | undecodable (e : DecodeError)
  deriving DecidableEq, Repr

/-- A number in hexadecimal with a mark in front and at least two digits. -/
def hexCode (n : Nat) : String :=
  let digits := Text.Hex.ofNat n
  "0x" ++ (if digits.length < 2 then "0" ++ digits else digits)

/-- The words for what is wrong with an envelope. -/
def EnvelopeError.message : EnvelopeError → String
  | .unsupportedVersion v => "unsupported envelope version: " ++ v
  | .unknownKind n => "unknown message type: " ++ hexCode n
  | .invalidSignature => "invalid signature"
  | .unknownSigner s => "no public key known for signer " ++ s
  | .invalidNodeId s => "invalid node id " ++ s
  | .signerMismatch claimed remote =>
    "envelope signed by " ++ claimed ++ " but delivered by " ++ remote
  | .tooLarge n =>
    "envelope too large: " ++ toString n ++ " bytes exceeds " ++ toString largestEnvelope
  | .undecodable e => "CBOR decode error: " ++ e.message

/-! ### Envelopes -/

/-- The version of the envelopes that nodes write and read. -/
def protocolVersion : String := "1.0.0"

/-- The version of the node's software. -/
def clientVersion : String := "keylocker-node/0.1.0"

/-- A message with its sender and the sender's signature. -/
structure Envelope where
  version : String
  clientVersion : String
  /-- The text of the sender's peer id. -/
  nodeId : String
  /-- Seconds since 1970 on the sender's clock. -/
  timestamp : UInt64
  /-- What ties an answer to its request. -/
  messageId : String
  gossip : Bool
  kind : MessageKind
  payload : Bytes
  /-- The sender's signature, empty in an unsigned envelope. -/
  signature : Bytes
  deriving DecidableEq, Repr

/-- The error for a length beyond that of the longest envelope. -/
def checkSize (size : Nat) : Except EnvelopeError Unit :=
  if largestEnvelope < size then .error (.tooLarge size) else .ok ()

namespace Envelope

variable {S : SignatureScheme}

/-- An unsigned envelope. -/
def unsigned (kind : MessageKind) (sender : PeerId) (messageId : String) (payload : Bytes)
    (timestamp : UInt64) : Envelope where
  version := protocolVersion
  clientVersion := Wire.clientVersion
  nodeId := sender.toText
  timestamp
  messageId
  gossip := false
  kind
  payload
  signature := []

/-- The envelope as an array with the given signature in it. -/
def toValue (env : Envelope) (signature : Bytes) : Cbor.Value :=
  .array [.text env.version, .text env.clientVersion, .text env.nodeId, .int env.timestamp.toNat,
    .text env.messageId, .bool env.gossip, .int env.kind.code, .bytes env.payload,
    .bytes signature]

/-- The octets that are signed: the envelope with an empty signature. -/
def signingBytes (env : Envelope) : Bytes :=
  (env.toValue []).encode

/-- The envelope with a fresh signature. -/
def sign (env : Envelope) (i : Identity S) : Envelope :=
  { env with signature := i.sign env.signingBytes }

/-- Whether the signature is good under a public key; a missing one never is. -/
def verify (S : SignatureScheme) (env : Envelope) (k : PublicKey) : Bool :=
  !env.signature.isEmpty && k.verify S env.signingBytes env.signature

/-- Whether an identity signed the envelope. -/
def isSignedBy (env : Envelope) (i : Identity S) : Bool :=
  env.verify S i.publicKey

/-- An envelope signed by its sender. -/
def build (kind : MessageKind) (messageId : String) (payload : Bytes) (timestamp : UInt64)
    (i : Identity S) : Envelope :=
  (unsigned kind i.peerId messageId payload timestamp).sign i

/-- The peer id of the sender. -/
def sender (env : Envelope) : Except EnvelopeError PeerId :=
  match PeerId.ofText? env.nodeId with
  | some p => .ok p
  | none => .error (.invalidNodeId env.nodeId)

/-! ### Octets on the wire -/

/-- The octets of an envelope, whatever their number. -/
def octets (env : Envelope) : Bytes :=
  (env.toValue env.signature).encode

/-- The octets of an envelope, if it is not too large. -/
def encode? (env : Envelope) : Except EnvelopeError Bytes := do
  checkSize env.octets.length
  pure env.octets

/-- The text that a value is. -/
def textOf : Cbor.Value → Except DecodeError String
  | .text s => .ok s
  | _ => .error .expectedText

/-- The number below `bound` that a value is. -/
def numberOf (bound : Nat) (overflow : DecodeError) : Cbor.Value → Except DecodeError Nat
  | .int (.ofNat n) => if n < bound then .ok n else .error overflow
  | .int _ => .error overflow
  | _ => .error .expectedInteger

/-- The truth value that a value is. -/
def boolOf : Cbor.Value → Except DecodeError Bool
  | .bool b => .ok b
  | _ => .error .expectedBool

/-- The octets that a value is. -/
def bytesOf : Cbor.Value → Except DecodeError Bytes
  | .bytes bs => .ok bs
  | _ => .error .expectedBytes

/-- The result of reading a field as a result of reading an envelope. -/
def field {α : Type} : Except DecodeError α → Except EnvelopeError α
  | .ok a => .ok a
  | .error e => .error (.undecodable e)

/-- The kind of message with a number. -/
def kindOf (n : Nat) : Except EnvelopeError MessageKind :=
  match MessageKind.ofCode? n with
  | some k => .ok k
  | none => .error (.unknownKind n)

/-- The envelope of the items of an array, the first fault in the order of the items first. -/
def ofItems : List Cbor.Value → Except EnvelopeError Envelope
  | [v0, v1, v2, v3, v4, v5, v6, v7, v8] => do
    let version ← field (textOf v0)
    if version ≠ protocolVersion then throw (.unsupportedVersion version)
    let clientVersion ← field (textOf v1)
    let nodeId ← field (textOf v2)
    let timestamp ← field (numberOf (Nat.pow 2 64) .overflow64 v3)
    let messageId ← field (textOf v4)
    let gossip ← field (boolOf v5)
    let code ← field (numberOf (Nat.pow 2 16) .overflow16 v6)
    let kind ← kindOf code
    let payload ← field (bytesOf v7)
    let signature ← field (bytesOf v8)
    pure { version, clientVersion, nodeId, timestamp := UInt64.ofNat timestamp, messageId, gossip,
           kind, payload, signature }
  | vs => .error (.undecodable (.fieldCount vs.length))

/-- The envelope of octets, of which there must not be too many. -/
def decode (bs : Bytes) : Except EnvelopeError Envelope := do
  checkSize bs.length
  match Cbor.Value.decode bs with
  | .ok (.array vs) => ofItems vs
  | .ok _ => .error (.undecodable .expectedArray)
  | .error e => .error (.undecodable (.unreadable e))

end Envelope

end KeyCustody.Wire
