import KeyCustody.Bytes
import KeyCustody.Text.Decimal
import KeyCustody.Outcome
import KeyCustody.Crypto.SymmetricKey
import KeyCustody.Crypto.KeyFile
import KeyCustody.Crypto.Ed25519
import KeyCustody.Peer.Identity
import KeyCustody.Net.Multiaddr
import KeyCustody.Cbor.Value
import KeyCustody.Cbor.Typed
import KeyCustody.Wire.Envelope
import KeyCustody.Wire.Payload
import KeyCustody.Json.Tree
import KeyCustody.Json.Typed
import KeyCustody.Wire.PayloadText
import KeyCustody.Pending.Room
import KeyCustody.Node.Connections
import KeyCustody.Node.Recovery
import KeyCustody.Custody.Chain
import KeyCustody.Wire.MessageId
import KeyCustody.Api.Routes
import KeyCustody.Host.Machine
import KeyCustody.Simulation.Backends
import KeyCustody.Simulation.Cluster
import KeyCustody.Simulation.Wire
import KeyCustody.Main
import KeyCustody.Program.Launch
import KeyCustody.Proofs.Relay.Replies
import KeyCustody.Proofs.Cbor.Length
import KeyCustody.Proofs.Custody.Deposits
import KeyCustody.Proofs.Pending.Traffic
import KeyCustody.Proofs.Pending.Tenure
import KeyCustody.Proofs.Relay.Leftovers
import KeyCustody.Proofs.Custody.Isolation
import KeyCustody.Proofs.Pending.Acceptance
import KeyCustody.Proofs.Wire.RoundTrip
import KeyCustody.Proofs.Program.Limits
import KeyCustody.Proofs.Host.Rendezvous
import KeyCustody.Proofs.Relay.Answered
import KeyCustody.Proofs.Relay.Reaction
import KeyCustody.Proofs.Relay.Fallback
import KeyCustody.Proofs.Host.Accounts
import KeyCustody.Proofs.Crypto.Chaining
import KeyCustody.Proofs.Crypto.Der
import KeyCustody.Proofs.Crypto.Pem
import KeyCustody.Proofs.Crypto.KeyFile
import KeyCustody.Proofs.Crypto.Padding
import KeyCustody.Proofs.Text.Hex
import KeyCustody.Proofs.Custody.Contents
import KeyCustody.Proofs.Custody.Failure
import KeyCustody.Proofs.Wire.Stream
import KeyCustody.Proofs.Wire.Normal
import KeyCustody.Proofs.Node.Connections
import KeyCustody.Proofs.Cbor.Extent
import KeyCustody.Proofs.Wire.Arrangement
import KeyCustody.Proofs.Peer.Addresses
import KeyCustody.Proofs.Peer.Identity
import KeyCustody.Proofs.Node.Recovery
import KeyCustody.Proofs.Custody.Routing
import KeyCustody.Proofs.Node.Routing
