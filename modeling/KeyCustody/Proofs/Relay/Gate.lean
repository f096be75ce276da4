import KeyCustody.Proofs.Outcome
import KeyCustody.Proofs.Peer.Id
import KeyCustody.Proofs.Pending.Table
import KeyCustody.Proofs.Wire.Envelope
import KeyCustody.Relay.Responder
import Mathlib
/-!
# What passes the gate

The gate is spelled out as one list of conditions on a frame: its size, its form, its sender, the
key that the store has for this sender, the signature, and the kind of message. A frame passes
exactly if it meets all of them. One that does not leaves the slots as they are, and on the request
protocol the reaction to it does not depend on the adaptors at all. One that does fills the slot
under its message id, and touches no other.

## Main definitions

* `Admitted`: the conditions.

## Main results

* `inspect_eq_ok`: the gate admits just the frames that meet the conditions.
* `admitted_build`: an envelope that a known peer made and delivered meets them.
* `acts_on_admitted`: what is done about a frame, and about one that does not meet them.
-/

namespace KeyCustody.Relay

open Crypto (SignatureScheme)
open Custody (Dispatcher)
open Node (Log)
open Peer (PeerId PeerStore PeerRecord PublicKey Identity)
open Pending (Table)
open Wire (Envelope GetRequest GetReply MessageKind Payload StreamProtocol)

variable {S : SignatureScheme} {store : PeerStore} {protocol : StreamProtocol} {remote : PeerId}
  {data : Bytes} {env : Envelope}

/-! ### The conditions -/

/-- A signature over the form of an envelope without a signature is good under the key that a record
of its sender resolves to: the key that was learned, else the one in the id. -/
structure SignedBy (S : SignatureScheme) (env : Envelope) (sender : PeerId) (record : PeerRecord)
    (key : PublicKey) : Prop where
  resolves : record.publicKey?.or (sender.embeddedKey? S) = some key
  signature_ne_nil : env.signature ≠ []
  verifies :
    S.verify key.bytes ({ env with signature := [] } : Envelope).octets env.signature = true

/-- The conditions under which a frame from a peer passes on a protocol, as an envelope. -/
structure Admitted (S : SignatureScheme) (store : PeerStore) (protocol : StreamProtocol)
    (remote : PeerId) (data : Bytes) (env : Envelope) : Prop where
  size : data.length ≤ 65536
  decodes : Envelope.decode data = .ok env
  version : env.version = "1.0.0"
  sender : PeerId.ofText? env.nodeId = some remote
  signed : ∃ record key, Assoc.get? store.records remote = some record ∧
    SignedBy S env remote record key
  kind : match protocol with
    | .request => env.kind = .directRequest ∨ env.kind = .relayRequest
    | .response => env.kind = .keyResponse

theorem publicKey?_eq_some {key : PublicKey} :
    store.publicKey? S remote = some key ↔ ∃ record, Assoc.get? store.records remote = some record ∧
      record.publicKey?.or (remote.embeddedKey? S) = some key := by
  simp [PeerStore.publicKey?, Option.bind_eq_some_iff]

theorem verify_eq_true {key : PublicKey} : env.verify S key = true ↔ env.signature ≠ [] ∧
    S.verify key.bytes ({ env with signature := [] } : Envelope).octets env.signature = true := by
  simp [Envelope.verify, PublicKey.verify, Envelope.signingBytes_eq, Envelope.cleared]

theorem isExpected_eq_true {kind : MessageKind} : isExpected protocol kind = true ↔
    match protocol with
    | .request => kind = .directRequest ∨ kind = .relayRequest
    | .response => kind = .keyResponse := by
  cases protocol <;> cases kind <;> simp [isExpected, MessageKind.isRequest]

/-- An envelope is by the peer that delivered it if the peer is the sender and its signature is good
under the key of the peer's record. -/
theorem authenticate_eq_ok : authenticate S store env remote = .ok () ↔
    PeerId.ofText? env.nodeId = some remote ∧ ∃ record key,
      Assoc.get? store.records remote = some record ∧ SignedBy S env remote record key := by
  constructor
  · intro h
    obtain ⟨sender, hsender, h⟩ := bind_eq_ok.1 h
    by_cases hremote : sender = remote
    · subst hremote
      rw [if_pos rfl] at h
      have hid : PeerId.ofText? env.nodeId = some sender := by
        unfold Envelope.sender at hsender
        split at hsender
        · rename_i p hp
          rw [hp, Except.ok.inj hsender]
        · cases hsender
      cases hkey : store.publicKey? S sender with
      | none =>
        rw [hkey] at h
        cases h
      | some key =>
        obtain ⟨record, hrecord, hresolves⟩ := publicKey?_eq_some.1 hkey
        simp only [hkey] at h
        by_cases hverify : env.verify S key = true
        · obtain ⟨hne, hgood⟩ := verify_eq_true.1 hverify
          exact ⟨hid, record, key, hrecord, hresolves, hne, hgood⟩
        · rw [if_neg hverify] at h
          cases h
    · rw [if_neg hremote] at h
      cases h
  · rintro ⟨hid, record, key, hrecord, hresolves, hne, hgood⟩
    have hkey := publicKey?_eq_some.2 ⟨record, hrecord, hresolves⟩
    have hverify := verify_eq_true.2 ⟨hne, hgood⟩
    rw [authenticate, Envelope.sender, hid]
    simp only [ok_bind, if_true, hkey, hverify]
    rfl

/-- **The gate admits just the frames that meet the conditions.** -/
theorem inspect_eq_ok :
    inspect S store protocol remote data = .ok env ↔ Admitted S store protocol remote data env := by
  constructor
  · intro h
    unfold inspect at h
    split at h
    · cases h
    · rename_i env' hdecode
      split at h
      · cases h
      · rename_i hauthentic
        split_ifs at h with hkind
        obtain rfl := Except.ok.inj h
        obtain ⟨hsender, hsigned⟩ := authenticate_eq_ok.1 hauthentic
        exact ⟨Envelope.length_le_of_decode hdecode, hdecode, Envelope.version_of_decode hdecode,
          hsender, hsigned, isExpected_eq_true.1 hkind⟩
  · intro h
    rw [inspect, h.decodes]
    simp only [authenticate_eq_ok.2 ⟨h.sender, h.signed⟩]
    rw [if_pos (isExpected_eq_true.2 h.kind)]

/-- A frame that meets the conditions for no envelope is turned away. -/
theorem exists_rejection (h : ∀ env, ¬ Admitted S store protocol remote data env) :
    ∃ e, inspect S store protocol remote data = .error e := by
  cases hinspect : inspect S store protocol remote data with
  | error e => exact ⟨e, rfl⟩
  | ok env => exact absurd (inspect_eq_ok.1 hinspect) (h env)

/-! ### Envelopes of known peers -/

/-- An envelope that a known peer made and delivers meets the conditions. -/
theorem admitted_build {own : Identity S} {record : PeerRecord} {kind : MessageKind}
    {messageId : String} {payload : Bytes} {timestamp : UInt64} (hS : S.AcceptsOwn)
    (hrecord : Assoc.get? store.records own.peerId = some record)
    (hkey : record.publicKey?.or (own.peerId.embeddedKey? S) = some own.publicKey)
    (henv : env = Envelope.build kind messageId payload timestamp own)
    (hsignature : env.signature ≠ []) (hsize : env.octets.length ≤ Wire.largestEnvelope)
    (hkind : isExpected protocol kind = true) :
    Admitted S store protocol own.peerId env.octets env := by
  subst henv
  refine ⟨hsize, Envelope.decode_octets rfl hsize, rfl, PeerId.ofText?_toText _,
    ⟨record, own.publicKey, hrecord, hkey, hsignature, ?_⟩, isExpected_eq_true.1 hkind⟩
  rw [own.publicKey_bytes]
  exact hS own.seed _

/-! ### What is done about a frame -/

/-- An answer is worth the reply that its payload is, or nothing. -/
theorem replyOf_eq_some {payload : Bytes} {reply : GetReply} :
    (replyOf payload).1 = some reply ↔ Payload.decode payload = .ok reply := by
  unfold replyOf
  split
  · rename_i reply' h
    simp [h]
  · rename_i e h
    simp [h]

theorem onResponse_of_admitted (h : Admitted S store .response remote data env) (slots : Slots) :
    (onResponse S store remote data slots).1 =
      (slots.deliver env.messageId (replyOf env.payload).1).1 := by
  rw [onResponse, inspect_eq_ok.2 h]

/-- **What is done about a frame.** Unless it meets the conditions, it leaves the slots as they are,
and as a request it gets a reaction without a frame that is the same whatever the adaptors are and
leaves their storage as it is. An answer that meets them fills the slot under its message id with
the reply that its payload is, or with nothing if it is none, and touches no other. -/
theorem acts_on_admitted (S : SignatureScheme) (store : PeerStore) (remote : PeerId)
    (data : Bytes) :
    (∀ slots : Slots, (∀ env, ¬ Admitted S store .response remote data env) →
      (onResponse S store remote data slots).1 = slots) ∧
    ((∀ env, ¬ Admitted S store .request remote data env) →
      ∃ log : Log, ∀ (σ : Type) (own : Identity S) (dispatcher : Dispatcher σ)
        (timestamp : UInt64) (storage : σ),
        onRequest own store dispatcher timestamp remote data storage = ⟨storage, log, none⟩) ∧
    (∀ (slots : Slots) (env : Envelope), Admitted S store .response remote data env →
      ∃ answer : Option GetReply,
        (∀ reply, answer = some reply ↔ Payload.decode env.payload = .ok reply) ∧
        Table.Fills env.messageId answer slots (onResponse S store remote data slots).1 ∧
        (slots.Separate → ∀ (id : String) (s : Pending.Slot), id ≠ env.messageId →
          Assoc.get? slots.slots id = some s →
          Assoc.get? (onResponse S store remote data slots).1.slots id = some s ∧
            (onResponse S store remote data slots).1.channel? s.registration =
              slots.channel? s.registration)) := by
  refine ⟨fun slots h => ?_, fun h => ?_, fun slots env h => ?_⟩
  · obtain ⟨e, he⟩ := exists_rejection h
    rw [onResponse, he]
  · obtain ⟨e, he⟩ := exists_rejection h
    refine ⟨e.log .request, fun σ own dispatcher timestamp storage => ?_⟩
    rw [onRequest, he]
  · have hfills : Table.Fills env.messageId (replyOf env.payload).1 slots
        (onResponse S store remote data slots).1 := by
      rw [onResponse_of_admitted h]
      exact Table.fills_deliver slots env.messageId _
    exact ⟨_, fun reply => replyOf_eq_some, hfills, fun hs id s hid hget =>
      hfills.other hs hid hget⟩

/-! ### A known peer -/

/-- A scheme that shows what the conditions are about without any computation: a signature is the
public key followed by the message. -/
def plainScheme : SignatureScheme where
  publicOf seed := (seed ++ List.replicate Crypto.keyLength 0).take Crypto.keyLength
  length_publicOf seed := by simp
  isPublic _ := true
  sign seed message := (seed ++ List.replicate Crypto.keyLength 0).take Crypto.keyLength ++ message
  verify key message signature := signature == key ++ message

theorem plainScheme_acceptsOwn : plainScheme.AcceptsOwn := by
  intro seed message
  simp [plainScheme]

theorem plainScheme_sign_ne_nil (seed message : Bytes) : plainScheme.sign seed message ≠ [] := by
  intro h
  have := congrArg List.length h
  simp [plainScheme, Crypto.keyLength] at this

/-- The identity of a seed of equal octets. -/
def plainIdentity (b : UInt8) : Identity plainScheme :=
  .ofSeed plainScheme (List.replicate Crypto.keyLength b) (by simp)

/-- The record of a peer of which only the key is known. -/
def plainRecord (b : UInt8) : PeerRecord :=
  ⟨[], some (plainIdentity b).publicKey⟩

/-- An answer of this peer. -/
def plainAnswer (b : UInt8) : Envelope :=
  .build .keyResponse "m" (Payload.encode (⟨.success, "ok", [⟨"1", "k"⟩]⟩ : GetReply)) 5
    (plainIdentity b)

set_option maxRecDepth 10000 in
/-- An answer of a known peer arrives in the slot that is registered for it. -/
theorem acts_on_known_answer :
    ((onResponse plainScheme ⟨[((plainIdentity 7).peerId, plainRecord 7)]⟩ (plainIdentity 7).peerId
      (plainAnswer 7).octets (Table.empty.insert "m")).1.channel? 0) =
      some ⟨some (some ⟨.success, "ok", [⟨"1", "k"⟩]⟩), false, true⟩ := by
  have hadmitted : Admitted plainScheme ⟨[((plainIdentity 7).peerId, plainRecord 7)]⟩ .response
      (plainIdentity 7).peerId (plainAnswer 7).octets (plainAnswer 7) :=
    admitted_build plainScheme_acceptsOwn (if_pos rfl) rfl rfl (plainScheme_sign_ne_nil _ _)
      (by cbv) rfl
  obtain ⟨answer, hanswer, hfills, -⟩ := (acts_on_admitted plainScheme _ _ _).2.2
    (Table.empty.insert "m") _ hadmitted
  obtain rfl : answer = some ⟨.success, "ok", [⟨"1", "k"⟩]⟩ := (hanswer _).2 (by cbv)
  exact hfills.filled ⟨⟨0, true, true⟩, ⟨none, true, true⟩, if_pos rfl, rfl, rfl, rfl, rfl⟩

end KeyCustody.Relay
