import KeyCustody.Crypto.Error
/-!
# Failures of the custody of keys
-/

namespace KeyCustody.Custody

/-- Why an adaptor does not do what it is asked. -/
inductive AdaptorError where
  /-- Nothing is stored for the identity: the one failure at which peers are asked. -/
  | keyNotFound (chain uuid : String)
  | invalidRequest (words : String)
  | codec (uuid : String) (e : Crypto.CryptoError)
  | backend (words : String)
  deriving DecidableEq, Repr

/-- The words for a failure. -/
def AdaptorError.message : AdaptorError → String
  | .keyNotFound chain uuid => "no key stored for uuid " ++ uuid ++ " on " ++ chain
  | .invalidRequest words => "invalid request: " ++ words
  | .codec uuid e => "codec error for uuid " ++ uuid ++ ": " ++ e.message
  | .backend words => "backend error: " ++ words

/-- The failure of a request without an identity. -/
def AdaptorError.emptyUuid : AdaptorError :=
  .invalidRequest "uuid must not be empty"

/-- Why a request that was routed to an adaptor has no reply. -/
inductive DispatchError where
  /-- The adaptor broke down. -/
  | brokeDown (method chain words : String)
  | adaptor (e : AdaptorError)
  deriving DecidableEq, Repr

/-- The words for a request without a reply. -/
def DispatchError.message : DispatchError → String
  | .brokeDown method chain words =>
    "panic in " ++ method ++ " for chain " ++ chain ++ ": " ++ words
  | .adaptor e => e.message

/-- Whether the failure is that nothing is stored here. -/
def DispatchError.isKeyMiss : DispatchError → Bool
  | .adaptor (.keyNotFound _ _) => true
  | _ => false

end KeyCustody.Custody
