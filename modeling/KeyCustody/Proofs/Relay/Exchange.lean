import KeyCustody.Node.State
import KeyCustody.Proofs.Peer.Store
import KeyCustody.Proofs.Wire.Payload
import KeyCustody.Proofs.Wire.RoundTrip
/-!
# A question and its answer

Whatever a node puts into a frame passes the gate of every node that has a record of it: the record
resolves to the key with which the node signs, be it learned or read from the id. So a node that has
keys of an identity answers the question of a node that it knows, and what it sends is worth the
reply of its adaptors to a node that knows it in turn.

## Main definitions

* `SignatureScheme.Lawful`: what nodes rely on when they sign.

## Main results

* `admitted_of_knows`: envelopes of known peers.
* `onFrame_question`: a question is answered.
* `inspect_answer`: what an answer is worth.
-/

namespace KeyCustody

/-- What nodes rely on when they sign: seeds have public keys, and signatures that are not empty and
good under them. -/
structure Crypto.SignatureScheme.Lawful (S : SignatureScheme) : Prop where
  acceptsOwn : S.AcceptsOwn
  isPublic (seed : Bytes) : S.isPublic (S.publicOf seed) = true
  sign_ne_nil (seed message : Bytes) : S.sign seed message ≠ []

namespace Relay

open Crypto (SignatureScheme)
open Peer (PeerId PeerStore PeerRecord Identity)
open Wire (Envelope GetRequest GetReply LawfulPayload MessageKind Payload StreamProtocol)

variable {S : SignatureScheme} {σ : Type} {store : PeerStore} {own : Identity S}
  {timestamp : UInt64} {id : String} {data : Bytes}

/-- The record of a known peer resolves to the key with which the peer signs. -/
theorem exists_resolves (hS : S.Lawful) (hgenuine : store.Genuine)
    (hknows : store.Knows own.peerId) :
    ∃ record : PeerRecord, Assoc.get? store.records own.peerId = some record ∧
      record.publicKey?.or (own.peerId.embeddedKey? S) = some own.publicKey := by
  obtain ⟨record, hrecord⟩ := hknows
  refine ⟨record, hrecord, ?_⟩
  cases hkey : record.publicKey? with
  | some key =>
    rw [Option.some_or, PeerId.ofPublicKey_injective (hgenuine _ _ _ hrecord hkey)]
  | none =>
    have hpublic : S.isPublic own.publicKey.bytes = true := by
      rw [own.publicKey_bytes]
      exact hS.isPublic own.seed
    rw [Option.none_or, Identity.peerId, PeerId.embeddedKey?_ofPublicKey, if_pos hpublic]

/-- What a known peer puts into a frame passes. -/
theorem admitted_of_knows {protocol : StreamProtocol} {kind : MessageKind} {payload : Bytes}
    (hS : S.Lawful) (hgenuine : store.Genuine) (hknows : store.Knows own.peerId)
    (hdata : (Envelope.build kind id payload timestamp own).encode? = .ok data)
    (hkind : isExpected protocol kind = true) :
    Admitted S store protocol own.peerId data (.build kind id payload timestamp own) := by
  obtain ⟨hsize, rfl⟩ := Envelope.encode?_eq_ok.1 hdata
  obtain ⟨record, hrecord, hkey⟩ := exists_resolves hS hgenuine hknows
  exact admitted_build hS.acceptsOwn hrecord hkey rfl (hS.sign_ne_nil _ _) hsize hkind

/-- The payload of an envelope that is not too large is read back. -/
theorem decode_payload {α : Type} [Payload α] [LawfulPayload α] {kind : MessageKind} {a : α}
    (hdata : (Envelope.build kind id (Payload.encode a) timestamp own).encode? = .ok data) :
    Payload.decode (Envelope.build kind id (Payload.encode a) timestamp own).payload = .ok a := by
  obtain ⟨hsize, -⟩ := Envelope.encode?_eq_ok.1 hdata
  have hshort := (Envelope.countable_of_length (lt_of_le_of_lt hsize (by decide))).payload
  have hread := Payload.decode_encode a hshort []
  rwa [List.append_nil] at hread

/-- What is read of a frame is the envelope in it, which is signed by its sender. -/
theorem decode_frame {kind : MessageKind} {payload : Bytes}
    (hdata : (Envelope.build kind id payload timestamp own).encode? = .ok data) :
    Envelope.decode data = .ok (.build kind id payload timestamp own) ∧
      (S.Lawful →
        (Envelope.build kind id payload timestamp own).verify S own.publicKey = true) := by
  obtain ⟨hsize, rfl⟩ := Envelope.encode?_eq_ok.1 hdata
  exact ⟨Envelope.decode_octets rfl hsize,
    fun hS => Envelope.verify_sign hS.acceptsOwn (hS.sign_ne_nil _ _)⟩

/-- **A question is answered** by a node that knows who asks and whose own lookup is a success. -/
theorem onFrame_question {n : Node.State S σ} {request : GetRequest} {reply : GetReply}
    {now : Node.Instant} {frame : Bytes} (hS : S.Lawful) (hgenuine : n.store.Genuine)
    (hknows : n.store.Knows own.peerId)
    (hframe : requestFrame own timestamp id (Payload.encode request) = .ok frame)
    (hserved : n.dispatcher.isSupported request.chain = true)
    (hget : (n.dispatcher.get request n.storage).1 = .ok reply) (hcode : reply.code = .success)
    (hdata : answerFrame n.identity now.seconds id reply = .ok data) :
    (n.onFrame own.peerId .request frame now).2.2 = some data := by
  have hadmitted : Admitted S n.store .request own.peerId frame _ :=
    admitted_of_knows hS hgenuine hknows hframe rfl
  have hinspect := inspect_eq_ok.2 hadmitted
  have hreact : (react n.identity now.seconds id (n.dispatcher.get request n.storage)).frame? =
      some data := by
    simp only [react, hget, hcode, if_true, hdata]
  have hserve : (serve n.identity n.dispatcher now.seconds
      (.build .relayRequest id (Payload.encode request) timestamp own) n.storage).frame? =
        some data := by
    rw [serve, decode_payload hframe]
    simp only [hserved, if_true]
    exact hreact
  simp only [Node.State.onFrame, onRequest, hinspect]
  exact hserve

/-- **An answer is worth its reply** to a node that knows the peer from which it comes. -/
theorem inspect_answer {reply : GetReply} (hS : S.Lawful) (hgenuine : store.Genuine)
    (hknows : store.Knows own.peerId) (hdata : answerFrame own timestamp id reply = .ok data) :
    ∃ env, inspect S store .response own.peerId data = .ok env ∧ env.messageId = id ∧
      (replyOf env.payload).1 = some reply :=
  ⟨_, inspect_eq_ok.2 (admitted_of_knows hS hgenuine hknows hdata rfl), rfl,
    replyOf_eq_some.2 (decode_payload hdata)⟩

end Relay

end KeyCustody
