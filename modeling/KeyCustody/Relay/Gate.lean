import KeyCustody.Node.Log
import KeyCustody.Peer.Store
import KeyCustody.Wire.Envelope
/-!
# The gate

Every frame from a peer passes the gate before anything is done about it. It must be an envelope
that names the peer from which it came as its sender, with a good signature under the public key
that the store has for this peer, and of a kind that travels on the protocol it came on.

## Main definitions

* `authenticate`: whether an envelope is by the peer that delivered it.
* `Rejection`, `inspect`: what the gate finds about a frame.
* `Rejection.log`: what is reported of a frame that is turned away.
-/

namespace KeyCustody.Relay

open Crypto (SignatureScheme)
open Node (Log)
open Peer (PeerId PeerStore)
open Wire (Envelope EnvelopeError MessageKind StreamProtocol)

/-- Whether an envelope is by the peer that delivered it: the peer is the sender, the store has its
key, and the signature is good. -/
def authenticate (S : SignatureScheme) (store : PeerStore) (env : Envelope) (remote : PeerId) :
    Except EnvelopeError Unit := do
  let sender ← env.sender
  if sender = remote then
    match store.publicKey? S sender with
    | some key => if env.verify S key then pure () else throw .invalidSignature
    | none => throw (.unknownSigner sender.toText)
  else throw (.signerMismatch sender.toText remote.toText)

/-- Why a frame is turned away. -/
inductive Rejection where
  | undecodable (e : EnvelopeError)
  | unauthentic (e : EnvelopeError)
  | unexpectedKind (kind : MessageKind)
  deriving DecidableEq, Repr

/-- Whether messages of a kind travel on a protocol. -/
def isExpected (protocol : StreamProtocol) (kind : MessageKind) : Bool :=
  match protocol with
  | .request => kind.isRequest
  | .response => kind == .keyResponse

/-- The envelope in a frame that a peer delivered, if it passes. -/
def inspect (S : SignatureScheme) (store : PeerStore) (protocol : StreamProtocol) (remote : PeerId)
    (data : Bytes) : Except Rejection Envelope :=
  match Envelope.decode data with
  | .error e => .error (.undecodable e)
  | .ok env =>
    match authenticate S store env remote with
    | .error e => .error (.unauthentic e)
    | .ok () =>
      if isExpected protocol env.kind then .ok env else .error (.unexpectedKind env.kind)

/-- The word for what travels on a protocol. -/
def trafficWord : StreamProtocol → String
  | .request => "request"
  | .response => "response"

/-- What is reported of a frame that is turned away. -/
def Rejection.log (protocol : StreamProtocol) : Rejection → Log
  | .undecodable _ => Node.warn ("Undecodable get-key " ++ trafficWord protocol)
  | .unauthentic _ => Node.warn ("Dropping get-key " ++ trafficWord protocol)
  | .unexpectedKind _ =>
    Node.warn ("Unexpected message on " ++ trafficWord protocol ++ " protocol")

end KeyCustody.Relay
