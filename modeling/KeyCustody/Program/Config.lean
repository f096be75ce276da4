import KeyCustody.Crypto.SymmetricKey
import KeyCustody.Net.Multiaddr
import KeyCustody.Relay.Call
import KeyCustody.Text.Blank
/-!
# Configurations

What can be set for a node, with the values that hold if nothing is said. Not every configuration
makes sense: `Config.validate` finds the first fault. The symmetric key is checked only where it is
used, because a node without one makes its own.

## Main definitions

* `Config`, `Config.usual`: the configuration, and the one that holds if nothing is said.
* `Config.listenAddress`, `Config.symmetricKey?`: what two of the texts stand for.
* `Config.validate`, `ConfigError`: the checks.
-/

namespace KeyCustody.Program

open Crypto (CryptoError SymmetricKey)
open Net (Multiaddr Socket)

/-- What can be set for a node. -/
structure Config where
  /-- Whether a fresh key is printed, and nothing else done. -/
  printsKey : Bool
  listenHost : String
  listenPort : Nat
  rendezvous : String
  chains : List String
  /-- The environment variable with the private key. -/
  keyVariable : String
  /-- How many peers are asked for keys that are not held here. -/
  attempts : Nat
  pollSeconds : Nat
  timeoutSeconds : Nat
  lowWater : Nat
  highWater : Nat
  graceSeconds : Nat
  /-- The symmetric key in hexadecimal. -/
  aesKey? : Option String
  rsaBits : Nat
  apiSocket? : Option Socket
  contract? : Option String
  contentNodes : List String
  deriving DecidableEq

/-- Why a configuration is of no use. -/
inductive ConfigError where
  | watermarks (low high : Nat)
  | noAttempts
  | noPoll
  | noRendezvous
  | listenHost (host : String)
  | aesDigits
  | aesKey (e : CryptoError)
  deriving DecidableEq, Repr

/-- The words for a fault. -/
def ConfigError.message : ConfigError → String
  | .watermarks low high => "conn_high_water (" ++ toString high ++
      ") must be >= conn_low_water (" ++ toString low ++ ")"
  | .noAttempts => "fault_tolerance_times must be at least 1"
  | .noPoll => "relay_poll_interval_secs must be > 0"
  | .noRendezvous => "rendezvous must not be empty"
  | .listenHost host => "invalid listen address " ++ host
  | .aesDigits => "invalid aes_key hex"
  | .aesKey e => "invalid aes_key: " ++ e.message

namespace Config

/-- The configuration that holds if nothing is said. -/
def usual : Config where
  printsKey := false
  listenHost := "0.0.0.0"
  listenPort := 4001
  rendezvous := "keylocker"
  chains := ["Ethereum", "Ipfs", "Filecoin"]
  keyVariable := "KEYLOCKER_P2P_PRIVATE_KEY"
  attempts := 3
  pollSeconds := 3
  timeoutSeconds := 30
  lowWater := 100
  highWater := 400
  graceSeconds := 60
  aesKey? := none
  rsaBits := 2048
  apiSocket? := none
  contract? := none
  contentNodes := []

/-- Where the node listens: the host is a part of the text of the address, so that it may bring
further parts with it. A host with a colon is taken for one of eight groups. -/
def listenAddress (c : Config) : Except ConfigError Multiaddr :=
  let version := if c.listenHost.toList.contains ':' then "ip6" else "ip4"
  match Multiaddr.ofText?
      ("/" ++ version ++ "/" ++ c.listenHost ++ "/tcp/" ++ toString c.listenPort) with
  | some a => .ok a
  | none => .error (.listenHost c.listenHost)

/-- The symmetric key, if one is set: hexadecimal digits with blanks around them and marks in front
of them. -/
def symmetricKey? (c : Config) : Except ConfigError (Option SymmetricKey) :=
  match c.aesKey? with
  | none => .ok none
  | some text =>
    match Text.Hex.decodeList (Text.dropHexMarks (Text.trimList text.toList)) with
    | none => .error .aesDigits
    | some octets =>
      match SymmetricKey.ofBytes? octets with
      | .ok k => .ok (some k)
      | .error e => .error (.aesKey e)

/-- The first fault of a configuration. -/
def validate (c : Config) : Except ConfigError Unit := do
  if c.highWater < c.lowWater then throw (.watermarks c.lowWater c.highWater)
  if c.attempts = 0 then throw .noAttempts
  if c.pollSeconds = 0 then throw .noPoll
  if c.rendezvous.isEmpty then throw .noRendezvous
  discard c.listenAddress

/-- How a node with the configuration relays. -/
def relaySettings (c : Config) : Relay.Settings where
  attempts := c.attempts
  poll := c.pollSeconds * 1000
  timeout := c.timeoutSeconds * 1000

end Config

end KeyCustody.Program
