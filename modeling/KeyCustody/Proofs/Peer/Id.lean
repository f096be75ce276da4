import KeyCustody.Peer.Id
import KeyCustody.Proofs.Text.Base58
/-!
# Reading peer ids

An id is read back from its octets and from its text, so that no two ids have the same text.

## Main results

* `PeerId.ofBytes?_toBytes`, `PeerId.ofText?_toText`: an id is read back.
* `PeerId.toBytes_injective`, `PeerId.toText_injective`: octets, and a text, are those of one id.
* `PeerId.lt_iff`: ids are ordered as their octets are.
-/

namespace KeyCustody.Peer

namespace Varint

theorem encode_of_lt {n : Nat} (h : n < 128) : encode n = [UInt8.ofNat n] := by
  rw [encode, dif_pos h]

/-- A number of one digit is read back. -/
theorem readMinimal_encode_of_lt {n : Nat} (h : n < 128) (rest : Bytes) :
    readMinimal 64 (encode n ++ rest) = some (n, rest) := by
  have hn : (UInt8.ofNat n).toNat = n := by
    rw [UInt8.toNat_ofNat']
    omega
  have hlt : UInt8.ofNat n < 0x80 := by
    rw [UInt8.lt_iff_toNat_lt, hn]
    exact h
  rw [encode_of_lt h]
  simp only [readMinimal, longest, List.singleton_append, readDigits, if_pos hlt, hn]
  simp only [Option.bind_eq_bind, Option.bind_some, List.length_singleton, lt_irrefl, false_and,
    if_false, value, List.foldr_cons, List.foldr_nil]
  simp only [Nat.mul_zero, Nat.add_zero, Nat.pow_eq, Option.some.injEq, Prod.mk.injEq, and_true]
  omega

end Varint

theorem DigestKind.ofCode?_code (k : DigestKind) : ofCode? k.code = some k := by
  cases k <;> rfl

theorem DigestKind.code_lt (k : DigestKind) : k.code < 128 := by
  cases k <;> decide

theorem DigestKind.longest_lt (k : DigestKind) : k.longest < 128 := by
  cases k <;> decide

namespace PeerId

/-- An id is read back from its octets. -/
theorem ofBytes?_toBytes (p : PeerId) : ofBytes? p.toBytes = some p := by
  have hlength : p.digest.length < 128 := lt_of_le_of_lt p.length_le p.kind.longest_lt
  rw [ofBytes?, toBytes, List.append_assoc,
    Varint.readMinimal_encode_of_lt p.kind.code_lt]
  simp only [Option.bind_eq_bind, Option.bind_some, Varint.readMinimal_encode_of_lt hlength,
    DigestKind.ofCode?_code, if_true]
  rw [mk?, dif_pos p.length_le]

theorem toBytes_injective : Function.Injective toBytes := by
  intro p q h
  have := congrArg ofBytes? h
  simpa [ofBytes?_toBytes] using this

/-- Ids are ordered as their octets are. -/
theorem lt_iff {p q : PeerId} : p.lt q = true ↔ p.toBytes < q.toBytes :=
  Bytes.lexLt_iff

/-- **An id is read back from its text.** -/
@[simp] theorem ofText?_toText (p : PeerId) : ofText? p.toText = some p := by
  simp [ofText?, toText, Text.Base58.decode?_encode, ofBytes?_toBytes]

theorem toText_injective : Function.Injective toText := by
  intro p q h
  have := congrArg ofText? h
  simpa using this

end PeerId

end KeyCustody.Peer
