import KeyCustody.Peer.Id
import KeyCustody.Wire.Stream
/-!
# Failures of the transport
-/

namespace KeyCustody.Net

open Peer (PeerId)
open Wire (StreamProtocol)

/-- Why a frame or a dial did not get through. -/
inductive TransportError where
  | hostClosed
  | dial (peer : PeerId) (reason : String)
  | stream (peer : PeerId) (protocol : StreamProtocol) (reason : String)
  /-- The peer answered something else than the acknowledgement. -/
  | noAck (peer : PeerId) (protocol : StreamProtocol)
  deriving DecidableEq

/-- The words for a failure. -/
def TransportError.message : TransportError → String
  | .hostClosed => "p2p host is shut down"
  | .dial peer reason => "dial to " ++ peer.toText ++ " failed: " ++ reason
  | .stream peer protocol reason =>
    protocol.name ++ " stream to " ++ peer.toText ++ " failed: " ++ reason
  | .noAck peer protocol => peer.toText ++ " answered " ++ protocol.name ++ " without an ACK"

end KeyCustody.Net
