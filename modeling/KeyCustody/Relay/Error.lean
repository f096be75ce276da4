import KeyCustody.Wire.Envelope
/-!
# Failures of relays
-/

namespace KeyCustody.Relay

/-- Why a relayed request has no reply. -/
inductive RelayError where
  /-- Nobody is known to ask. -/
  | noPeers
  | emptyRequest
  /-- No attempt to send the request succeeded. -/
  | noHost
  | envelope (e : Wire.EnvelopeError)
  /-- An answer came that is no reply. -/
  | unusable
  | timeout
  deriving DecidableEq, Repr

/-- The words for a relayed request without a reply. -/
def RelayError.message : RelayError → String
  | .noPeers => "no peers in peerStore"
  | .emptyRequest => "nil request"
  | .noHost => "no p2p host to relay request"
  | .envelope e => e.message
  | .unusable => "relayed response could not be decoded"
  | .timeout => "timed out waiting for relayed response"

end KeyCustody.Relay
