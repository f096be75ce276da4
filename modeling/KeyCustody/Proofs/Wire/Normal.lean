import KeyCustody.Proofs.Wire.RoundTrip
/-!
# The normal form of an envelope

One envelope can be read from many octets: with longer heads than need be, from strings in segments,
with its time in a byte string, before whatever follows. The octets that are written for it are
normal: they are read as the same envelope, for which the same octets are written again. They are
hardly ever longer than those that arrived, since only a large time in a byte string is shorter than
in a head, and by two octets at most.

## Main results

* `Envelope.length_octets_le_of_decode`: the normal form and the octets that arrived.
* `Envelope.normal_of_decode`: what is read, written and read again.
-/

namespace KeyCustody.Wire.Envelope

/-- What arrives takes two octets more at most in its normal form. -/
theorem length_octets_le_of_decode {data : Bytes} {env : Envelope} (h : decode data = .ok env) :
    env.octets.length ≤ data.length + 2 := by
  obtain ⟨hsize, -, hread⟩ := items_of_decode h
  obtain ⟨before, after, hitems, hcount, hbefore, hafter⟩ := env.exists_items
  rw [hitems] at hread
  rw [octets_eq, hitems]
  exact Cbor.length_encode_le_of_decode_array hbefore hafter hcount hsize hread

theorem encode?_eq_error {env : Envelope} {e : EnvelopeError} : env.encode? = .error e ↔
    largestEnvelope < env.octets.length ∧ e = .tooLarge env.octets.length := by
  rw [encode?_eq]
  split_ifs with hsize
  · simp [Nat.not_lt.2 hsize]
  · simp [Nat.lt_of_not_le hsize, eq_comm]

/-- **Reading and writing normalises.** What is written for an envelope that was read takes at most
two octets more than what it was read from. So it can be sent on if it arrived in at most 65534
octets, and otherwise nothing but its size can prevent that. What is sent on is read as the same
envelope, and for that the same octets are written. -/
theorem normal_of_decode {data : Bytes} {env : Envelope} (h : decode data = .ok env) :
    env.octets.length ≤ data.length + 2 ∧
      (data.length ≤ 65534 → env.encode? = .ok env.octets) ∧
      (∀ e, env.encode? = .error e → e = .tooLarge env.octets.length) ∧
      ∀ normal, env.encode? = .ok normal →
        decode normal = .ok env ∧
          ∀ env', decode normal = .ok env' → env'.encode? = .ok normal := by
  have hlength := length_octets_le_of_decode h
  refine ⟨hlength, fun hdata => ?_, fun e he => (encode?_eq_error.1 he).2, fun normal hnormal => ?_⟩
  · have hsize : env.octets.length ≤ largestEnvelope := by
      rw [largestEnvelope]
      omega
    exact encode?_eq_ok.2 ⟨hsize, rfl⟩
  · obtain ⟨hsize, rfl⟩ := encode?_eq_ok.1 hnormal
    have hread := decode_octets (version_of_decode h) hsize
    refine ⟨hread, fun env' henv' => ?_⟩
    obtain rfl : env = env' := Except.ok.inj (hread.symm.trans henv')
    exact hnormal

/-- An envelope of few octets with its time in a byte string. -/
def taggedTime : Bytes :=
  [0x89, 0x65, 0x31, 0x2E, 0x30, 0x2E, 0x30, 0x61, 0x61, 0x61, 0x62, 0xC2, 0x45, 1, 0, 0, 0, 0,
    0x61, 0x6D, 0xF4, 2, 0x42, 1, 2, 0x41, 3]

/-- A large time in a byte string takes two octets less than in a head, and arrives in a head if it
is sent on. -/
theorem taggedTime_normal : ∃ env normal, decode taggedTime = .ok env ∧
    env.timestamp.toNat = 2 ^ 32 ∧ env.octets.length = taggedTime.length + 2 ∧
    env.octets.length ≤ taggedTime.length + 2 ∧ env.encode? = .ok normal ∧
    normal ≠ taggedTime ∧ decode normal = .ok env := by
  have hread : decode taggedTime =
      .ok { brief "a" "b" with timestamp := UInt64.ofNat (2 ^ 32) } := by decide +kernel
  obtain ⟨hlength, hsent, -, hnormal⟩ := normal_of_decode hread
  have hsent := hsent (by decide)
  exact ⟨_, _, hread, by decide, by decide +kernel, hlength, hsent, by decide +kernel,
    (hnormal _ hsent).1⟩

end KeyCustody.Wire.Envelope
