import KeyCustody.Proofs.Cbor.Shortest
import KeyCustody.Proofs.Relay.Gate
/-!
# Envelopes there and back

An envelope is sent exactly if it is not too large, and whoever receives it reads the envelope that
was sent, or refuses its version. Since all of its fields arrive as they are, a signature is good
after the trip if it was good before, under whatever key. What is signed are all fields but the
signature, each of them in its place: two envelopes with the same octets to sign differ at most in
their signatures. And although one envelope can be read from many octets, those that differ from
the ones sent in a single bit are not among them.

## Main results

* `Envelope.round_trip`: what is sent and what is received.
* `Envelope.signingBytes_eq_iff`: what a signature binds.
* `Envelope.flip_noticed`: a bit that flips on the way.
-/

namespace KeyCustody.Wire.Envelope

open Crypto (SignatureScheme)
open Peer (PublicKey Identity)
open Relay (plainAnswer plainIdentity plainScheme plainScheme_acceptsOwn plainScheme_sign_ne_nil)

/-! ### Sent and received -/

/-- An identity of a scheme that accepts its own signatures accepts what it signed. -/
theorem verify_sign {S : SignatureScheme} (hS : S.AcceptsOwn) {i : Identity S} {env : Envelope}
    (hne : i.sign env.signingBytes ≠ []) : (env.sign i).verify S i.publicKey = true := by
  have hgood : i.publicKey.verify S env.signingBytes (i.sign env.signingBytes) = true := by
    rw [PublicKey.verify, i.publicKey_bytes]
    exact hS i.seed _
  have hsigned : (env.sign i).signingBytes = env.signingBytes := rfl
  rw [verify, hsigned, Bool.and_eq_true, Bool.not_eq_true', List.isEmpty_eq_false_iff]
  exact ⟨hne, hgood⟩

/-- **Envelopes there and back.** An envelope is written exactly if its octets are at most 65536,
and is refused with their number otherwise. What is read of the octets is the envelope, every field
of it, or the refusal of a version other than the one that nodes speak. So its signature is good
under the same keys as before, and one that an identity made is good under the identity's key, if
the scheme accepts its own signatures and makes none that is empty. -/
theorem round_trip (S : SignatureScheme) (env : Envelope) :
    (env.encode? = if env.octets.length ≤ 65536 then .ok env.octets
      else .error (.tooLarge env.octets.length)) ∧
    ∀ bs, env.encode? = .ok bs →
      (decode bs = if env.version = protocolVersion then .ok env
        else .error (.unsupportedVersion env.version)) ∧
      (∀ env', decode bs = .ok env' →
        ∀ key : PublicKey, env'.verify S key = env.verify S key) ∧
      ∀ (i : Identity S) (draft : Envelope), S.AcceptsOwn → i.sign draft.signingBytes ≠ [] →
        draft.version = protocolVersion → env = draft.sign i →
          ∃ env', decode bs = .ok env' ∧ env'.verify S i.publicKey = true := by
  refine ⟨env.encode?_eq, fun bs hbs => ?_⟩
  obtain ⟨hsize, rfl⟩ := encode?_eq_ok.1 hbs
  have hdecode := decode_octets_eq hsize
  refine ⟨hdecode, fun env' henv' key => ?_, fun i draft hS hne hversion hsigned => ?_⟩
  · rw [henv'] at hdecode
    split_ifs at hdecode
    rw [Except.ok.inj hdecode]
  · subst hsigned
    exact ⟨_, decode_octets hversion hsize, verify_sign hS hne⟩

/-- An answer that its sender signed arrives as it was sent, and its signature is good. -/
theorem plainAnswer_round_trip : ∃ bs, (plainAnswer 7).encode? = .ok bs ∧
    decode bs = .ok (plainAnswer 7) ∧
    ∃ env, decode bs = .ok env ∧ env.verify plainScheme (plainIdentity 7).publicKey = true := by
  have hbs : (plainAnswer 7).encode? = .ok (plainAnswer 7).octets :=
    encode?_eq_ok.2 ⟨by cbv, rfl⟩
  obtain ⟨hdecode, -, hverify⟩ := (round_trip plainScheme (plainAnswer 7)).2 _ hbs
  exact ⟨_, hbs, hdecode.trans (if_pos rfl), hverify (plainIdentity 7) _ plainScheme_acceptsOwn
    (plainScheme_sign_ne_nil _ _) rfl rfl⟩

/-! ### What is signed -/

/-- **What a signature binds.** Two envelopes have the same octets to sign exactly if they agree in
every field but the signature: no octet can move from one field to another without a trace. A new
signature leaves the octets to sign as they are. A head can count what is in memory: lengths are
below `2 ^ 64`. -/
theorem signingBytes_eq_iff {a b : Envelope} (ha : a.cleared.Countable)
    (hb : b.cleared.Countable) :
    (a.signingBytes = b.signingBytes ↔
      a.version = b.version ∧ a.clientVersion = b.clientVersion ∧ a.nodeId = b.nodeId ∧
        a.timestamp = b.timestamp ∧ a.messageId = b.messageId ∧ a.gossip = b.gossip ∧
        a.kind = b.kind ∧ a.payload = b.payload) ∧
    ∀ signature, { a with signature }.signingBytes = a.signingBytes := by
  refine ⟨⟨fun h => ?_, ?_⟩, fun signature => rfl⟩
  · rw [signingBytes_eq, signingBytes_eq] at h
    have hfields := eq_of_octets ha hb h
    simp only [cleared, Envelope.mk.injEq] at hfields
    obtain ⟨h0, h1, h2, h3, h4, h5, h6, h7, -⟩ := hfields
    exact ⟨h0, h1, h2, h3, h4, h5, h6, h7⟩
  · rintro ⟨h0, h1, h2, h3, h4, h5, h6, h7⟩
    rw [signingBytes_eq, signingBytes_eq]
    congr 1
    rw [cleared, cleared, h0, h1, h2, h3, h4, h5, h6, h7]

/-- An envelope of few octets. -/
def brief (clientVersion nodeId : String) : Envelope :=
  ⟨protocolVersion, clientVersion, nodeId, 5, "m", false, .relayRequest, [1, 2], [3]⟩

/-- A letter that moves from one field to the next changes the octets to sign. -/
theorem brief_signingBytes_ne :
    (brief "ab" "c").signingBytes ≠ (brief "a" "bc").signingBytes := by
  intro h
  have ha : (brief "ab" "c").cleared.Countable :=
    ⟨by decide, by decide, by decide, by decide, by decide, by decide⟩
  have hb : (brief "a" "bc").cleared.Countable :=
    ⟨by decide, by decide, by decide, by decide, by decide, by decide⟩
  obtain ⟨-, hclient, -⟩ := (signingBytes_eq_iff ha hb).1.1 h
  exact absurd hclient (by decide)

/-! ### Bits that flip on the way -/

/-- An envelope is written as an array with one integer that may be large, the time. -/
theorem exists_items (env : Envelope) : ∃ before after,
    env.items = before ++ .int env.timestamp.toNat :: after ∧
      (before ++ .int env.timestamp.toNat :: after).length < 24 ∧
      (∀ v ∈ before, v.Rigid) ∧ ∀ v ∈ after, v.Rigid := by
  have hkind : env.kind.code < 2 ^ 16 := by cases env.kind <;> decide
  refine ⟨[.text env.version, .text env.clientVersion, .text env.nodeId], [.text env.messageId,
    .bool env.gossip, .int env.kind.code, .bytes env.payload, .bytes env.signature], rfl,
    by simp, ?_, ?_⟩
  · simp only [List.forall_mem_cons]
    exact ⟨.text _, .text _, .text _, List.forall_mem_nil _⟩
  · simp only [List.forall_mem_cons]
    exact ⟨.text _, .bool _, .int hkind, .bytes _, .bytes _, List.forall_mem_nil _⟩

/-- Octets as long as those of an envelope that are read as this envelope are its own, unless
somewhere among them a number became the head of a tag. -/
theorem eq_of_decode {env : Envelope} {bs altered : Bytes} (hbs : env.encode? = .ok bs)
    (hlength : altered.length = bs.length) (hquiet : Cbor.MakesNoTag bs altered)
    (h : decode altered = .ok env) : altered = bs := by
  obtain ⟨hsize, hoctets⟩ := encode?_eq_ok.1 hbs
  obtain ⟨-, -, hread⟩ := items_of_decode h
  obtain ⟨before, after, hitems, hcount, hbefore, hafter⟩ := env.exists_items
  refine Cbor.eq_of_decode_array hbefore hafter hcount (hoctets.symm.trans ?_) hlength
    (hoctets ▸ hsize) hquiet (hitems ▸ hread)
  rw [octets_eq, hitems]

/-- **A bit that flips on the way is noticed**, whatever bit it is. If the octets can still be read,
then not as the envelope that was sent; and the octets to sign or the signature are not those of the
envelope that was sent. So if a key is good for the signature of this one message only, the envelope
that is read is not good under the key. -/
theorem flip_noticed {env env' : Envelope} {bs : Bytes} {i k : Nat} (hbs : env.encode? = .ok bs)
    (hi : i < bs.length) (hk : k < 8) (h : decode (bs.flipBit i k) = .ok env') :
    env' ≠ env ∧ ¬ (env'.signingBytes = env.signingBytes ∧ env'.signature = env.signature) ∧
      ∀ (S : SignatureScheme) (key : PublicKey),
        (∀ message signature, key.verify S message signature = true →
          message = env.signingBytes ∧ signature = env.signature) →
        env'.verify S key = false := by
  have hne : env' ≠ env := by
    rintro rfl
    exact Bytes.flipBit_ne hi hk (eq_of_decode hbs (Bytes.length_flipBit bs i k)
      (Cbor.makesNoTag_flipBit bs i hk) h)
  have hdiffers :
      ¬ (env'.signingBytes = env.signingBytes ∧ env'.signature = env.signature) := by
    rintro ⟨hbytes, hsignature⟩
    have hcleared := eq_of_signingBytes h hbytes
    refine hne ?_
    cases env'
    cases env
    simp_all [cleared]
  refine ⟨hne, hdiffers, fun S key honly => ?_⟩
  by_contra hverify
  rw [Bool.not_eq_false, verify, Bool.and_eq_true] at hverify
  exact hdiffers (honly _ _ hverify.2)

/-- A scheme under which one signature of one message is good. -/
def onlyScheme (message signature : Bytes) : SignatureScheme :=
  { plainScheme with verify := fun _ m s => m == message && s == signature }

/-- With its last bit flipped an envelope is read as one with another signature, which is not
good. -/
theorem brief_flip_noticed : ∃ bs env', (brief "a" "b").encode? = .ok bs ∧ bs.length = 21 ∧
    decode (bs.flipBit 20 0) = .ok env' ∧ env'.signature = [2] ∧ env' ≠ brief "a" "b" ∧
    env'.verify (onlyScheme (brief "a" "b").signingBytes [3]) (plainIdentity 7).publicKey =
      false := by
  have hbs : (brief "a" "b").encode? = .ok (brief "a" "b").octets :=
    encode?_eq_ok.2 ⟨by cbv, rfl⟩
  have hlength : (brief "a" "b").octets.length = 21 := by cbv
  have hflip : (brief "a" "b").octets.flipBit 20 0 =
      { brief "a" "b" with signature := [2] }.octets := by cbv
  have hread := @decode_octets { brief "a" "b" with signature := [2] } rfl (by cbv)
  rw [← hflip] at hread
  obtain ⟨hne, -, hverify⟩ := flip_noticed hbs (by rw [hlength]; decide) (by decide) hread
  refine ⟨_, _, hbs, hlength, hread, rfl, hne, hverify _ _ fun message signature hgood => ?_⟩
  rw [PublicKey.verify, onlyScheme, Bool.and_eq_true, beq_iff_eq, beq_iff_eq] at hgood
  exact hgood

end KeyCustody.Wire.Envelope
