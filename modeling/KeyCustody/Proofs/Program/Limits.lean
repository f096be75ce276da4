import KeyCustody.Proofs.Custody.Deposits
import KeyCustody.Proofs.Node.Connections
import KeyCustody.Program.Config
/-!
# What a valid configuration keeps from breaking down

Three computations run on numbers of the configuration and break down for some of them: the choice
of the connections to close, the ticker of a wait, and the encryption under a fresh key. The checks
of a configuration cover the first one altogether. Of the ticker they cover a period of zero, but
not one so long that its first tick is beyond the last instant of the clock. The length of a fresh
modulus is not checked at all, and one of at most eighty-eight bits leaves no room for data.

## Main definitions

* `Config.connections`: connections with the watermarks of a configuration.

## Main results

* `limits_of_validate`: how each of the computations ends under a valid configuration.
* `breakdowns_of_valid`: valid configurations under which two of them break down.
-/

namespace KeyCustody

namespace Pending.Waiter

variable {α : Type}

/-- How a wait begins that has a period other than zero. -/
theorem snd_begin (t : Table α) (id : String) {poll : Nat} (hpoll : poll ≠ 0) (timeout now : Nat) :
    (begin t id poll timeout now).2 =
      match (t.takeReceiver id).2 with
      | none => .failure .unknown
      | some registration =>
        if lastInstant ≤ now + poll then .breakdown .instantOverflow
        else .value ⟨id, registration, poll, now + timeout, now + poll⟩ := by
  rw [begin]
  rcases t.takeReceiver id with ⟨t₁, _ | registration⟩
  · rfl
  · simp only [if_neg hpoll]
    split_ifs <;> rfl

end Pending.Waiter

namespace Program

open Crypto (Entropy)
open Crypto.Rsa (Codec PrivateKey generate)
open Node (Connections)
open Pending (Table Waiter lastInstant)

namespace Config

variable {c : Config}

/-- Connections between the watermarks of a configuration. -/
def connections (c : Config) {π : Type} (since : Assoc π Nat) : Connections π :=
  ⟨c.lowWater, c.highWater, c.graceSeconds * 1000, since⟩

/-- What the checks of a configuration ensure of its numbers. -/
theorem numbers_of_validate (h : c.validate = .ok ()) :
    c.lowWater ≤ c.highWater ∧ c.attempts ≠ 0 ∧ c.pollSeconds ≠ 0 := by
  by_cases hwater : c.highWater < c.lowWater
  · rw [validate, if_pos hwater] at h
    cases h
  by_cases hattempts : c.attempts = 0
  · rw [validate, if_neg hwater, if_pos hattempts] at h
    cases h
  by_cases hpoll : c.pollSeconds = 0
  · rw [validate, if_neg hwater, if_neg hattempts, if_pos hpoll] at h
    cases h
  exact ⟨Nat.not_lt.1 hwater, hattempts, hpoll⟩

/-- **How the computations end under a valid configuration.** The choice of the connections to close
always has a value. A wait with the configured period and time is turned away if there is no
receiving end, breaks down just if its first tick is beyond the last instant, and begins otherwise.
Under a fresh key, encryption breaks down for every plaintext if the modulus has at most
eighty-eight bits, and has a value for every plaintext if it has more. -/
theorem limits_of_validate (h : c.validate = .ok ()) :
    (∀ {π : Type} [DecidableEq π] (since : Assoc π Nat) (now : Nat),
      ∃ victims, ((c.connections since).trim now).2 = .value victims) ∧
    (∀ {α : Type} (t : Table α) (id : String) (now : Nat),
      (Waiter.begin t id c.relaySettings.poll c.relaySettings.timeout now).2 =
        match (t.takeReceiver id).2 with
        | none => .failure .unknown
        | some registration =>
          if lastInstant ≤ now + c.relaySettings.poll then .breakdown .instantOverflow
          else .value ⟨id, registration, c.relaySettings.poll, now + c.relaySettings.timeout,
            now + c.relaySettings.poll⟩) ∧
    (∀ (k : PrivateKey) (r r' : Entropy), generate c.rsaBits r = (.ok k, r') →
      ∀ (data : Bytes) (r : Entropy),
        let outcome := ((⟨some k.toPublic, some k⟩ : Codec).encrypt data r).1
        (c.rsaBits ≤ 80 → outcome = .breakdown .subtractionOverflow) ∧
        (80 < c.rsaBits ∧ c.rsaBits ≤ 88 → outcome = .breakdown .divisionByZero) ∧
        (88 < c.rsaBits → ∃ cipher, outcome = .value cipher)) := by
  obtain ⟨hwater, -, hpoll⟩ := numbers_of_validate h
  refine ⟨fun since now => Connections.exists_trim_eq_value hwater now, fun t id now => ?_,
    fun k r r' hk data r => ?_⟩
  · have hperiod : c.relaySettings.poll ≠ 0 := by
      simp only [relaySettings]
      omega
    exact Waiter.snd_begin t id hperiod _ now
  · have hbits : Crypto.Rsa.bitLength k.modulus = c.rsaBits := (Crypto.Rsa.generate_eq_ok hk).2.2
    have hsize : k.toPublic.size = (c.rsaBits + 7) / 8 := by rw [← hbits]; rfl
    obtain ⟨hless, hequal, hmore⟩ :=
      Codec.outcome_encrypt (c := ⟨some k.toPublic, some k⟩) rfl data r
    rw [hsize, Crypto.Rsa.overhead] at hless hequal hmore
    exact ⟨fun _ => hless (by omega), fun _ => hequal (by omega), fun _ => hmore (by omega)⟩

/-- The usual configuration with a modulus that is just long enough. -/
def shortModulus : Config :=
  { usual with rsaBits := 89 }

/-- Connections are closed, a wait begins, and a plaintext is encrypted. -/
theorem limits_of_shortModulus :
    (∃ victims, ((shortModulus.connections [("a", 0), ("b", 5)]).trim 7).2 = .value victims) ∧
    (Waiter.begin ((Table.empty : Table Nat).insert "m") "m" shortModulus.relaySettings.poll
      shortModulus.relaySettings.timeout 0).2 = .value ⟨"m", 0, 3000, 30000, 3000⟩ ∧
    ∃ cipher, ((⟨some Custody.shortKey.toPublic, some Custody.shortKey⟩ : Codec).encrypt
      (Bytes.ofText "k1") (.ofSeed 0)).1 = .value cipher := by
  have hvalid : shortModulus.validate = .ok () := by decide +kernel
  obtain ⟨r, r', hgenerate⟩ := Custody.exists_generate_shortKey
  obtain ⟨htrim, hbegin, hencrypt⟩ := limits_of_validate hvalid
  refine ⟨htrim _ _, (hbegin _ _ _).trans ?_, ?_⟩
  · decide +kernel
  · exact (hencrypt _ r r' hgenerate _ _).2.2 (by decide)

end Config

/-! ### Limits that are not checked -/

/-- A key pair whose modulus has eleven octets, as many as the padding takes. -/
def narrowKey : PrivateKey where
  modulus := 174085318025773238552889479
  publicExponent := 65537
  privateExponent := 28796846555642180811122153
  prime1 := 13194139533349
  prime2 := 13194139533371

/-- Octets from which this key pair is generated. -/
def narrowEntropy : Entropy :=
  .ofOctets [0, 0, 0, 0, 0, 36, 0, 0, 0, 0, 0, 58]

theorem fst_generate_narrowKey : (generate 88 narrowEntropy).1 = .ok narrowKey := by
  decide +kernel

/-- Two valid configurations: under one of them a fresh key leaves no room for data, and under the
other one a wait has its first tick beyond the last instant. -/
theorem breakdowns_of_valid :
    ({ Config.usual with rsaBits := 88 } : Config).validate = .ok () ∧
    (generate 88 narrowEntropy).1 = .ok narrowKey ∧
    ((⟨some narrowKey.toPublic, some narrowKey⟩ : Codec).encrypt (Bytes.ofText "k1")
      (generate 88 narrowEntropy).2).1 = .breakdown .divisionByZero ∧
    ({ Config.usual with pollSeconds := 2 ^ 63 } : Config).validate = .ok () ∧
    (Waiter.begin ((Table.empty : Table Nat).insert "m") "m"
      ({ Config.usual with pollSeconds := 2 ^ 63 } : Config).relaySettings.poll 30000 0).2 =
        .breakdown .instantOverflow := by
  refine ⟨?_, fst_generate_narrowKey, ?_, ?_, ?_⟩
  · decide +kernel
  · decide +kernel
  · decide +kernel
  · decide +kernel

end Program

end KeyCustody
