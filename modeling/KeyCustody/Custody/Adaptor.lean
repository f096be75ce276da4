import KeyCustody.Custody.Error
import KeyCustody.Outcome
import KeyCustody.Wire.Payload
/-!
# Adaptors

An adaptor serves one chain: it says that it does, it looks up the keys of an identity, and it
stores a key. Its calls may change a state of its own choice, may fail, and may break down.
-/

namespace KeyCustody.Custody

open Wire (SupportRequest SupportReply GetRequest GetReply SetRequest SetReply)

/-- What serves a chain. -/
structure Adaptor (σ : Type) where
  /-- The name of the chain. -/
  chain : String
  /-- Whether the chain is served. -/
  support : SupportRequest → Outcome AdaptorError SupportReply
  /-- The keys of an identity. -/
  get : GetRequest → σ → Outcome AdaptorError GetReply × σ
  /-- One more key of an identity. -/
  set : SetRequest → σ → Outcome AdaptorError SetReply × σ

/-- The answer that a chain is served. -/
def supported : SupportReply := ⟨.success, "get support chain success", true⟩

/-- The text in lower-case letters, for ASCII letters. -/
def lowerCase (s : String) : String :=
  String.ofList (s.toList.map Char.toLower)

/-- The adaptor that accepts every request and stores nothing. -/
def Adaptor.idle {σ : Type} (chain : String) : Adaptor σ where
  chain
  support _ := .value supported
  get _ s := (.value ⟨.success, "get " ++ lowerCase chain ++ " social key success", []⟩, s)
  set _ s :=
    (.value ⟨.success, "set " ++ lowerCase chain ++ " social key success", "", "", ""⟩, s)

end KeyCustody.Custody
