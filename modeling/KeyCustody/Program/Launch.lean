import KeyCustody.Custody.Chain
import KeyCustody.Peer.Identity
import KeyCustody.Program.Options
/-!
# Launching a node

From a command line and an environment to a node that is ready to listen: the options are read, the
configuration is checked, the identity is found in the environment, and the symmetric key is read or
made. The first fault ends the launch. A node can listen only on a machine's address with a socket
number.

## Main definitions

* `Launch`: what a command line leads to.
* `LaunchError`: why a node does not start.
* `launch`: the launch.
-/

namespace KeyCustody.Program

open Crypto (Entropy SignatureScheme SymmetricKey keyLength)
open Custody (Custodian)
open Net (Multiaddr)
open Peer (Identity IdentityError)

/-- Why a node does not start. -/
inductive LaunchError where
  | config (e : ConfigError)
  | identity (e : IdentityError)
  | unsupportedAddress (a : Multiaddr)
  deriving DecidableEq

/-- The words for a node that does not start. -/
def LaunchError.message : LaunchError → String
  | .config e => e.message
  | .identity e => e.message
  | .unsupportedAddress a => "Multiaddr is not supported: " ++ a.toText

/-- A node that is ready to listen. -/
structure Plan (S : SignatureScheme) where
  config : Config
  identity : Identity S
  custodian : Custodian
  listen : Multiaddr

/-- What a command line leads to. -/
inductive Launch (S : SignatureScheme) where
  | refused (e : UsageError)
  | failed (e : LaunchError)
  /-- A fresh key is printed for an environment variable. -/
  | printed (variableName : String) (identity : Identity S)
  | ready (plan : Plan S)

/-- The line that is printed for a fresh key. -/
def keyLine {S : SignatureScheme} (variableName : String) (i : Identity S) : String :=
  variableName ++ "=" ++ i.encode

/-- A fresh identity. -/
def freshIdentity (S : SignatureScheme) (r : Entropy) : Identity S × Entropy :=
  (.ofSeed S (r.draw keyLength).1 (Entropy.length_draw keyLength r), (r.draw keyLength).2)

/-- The symmetric key that is set, or else a fresh long one. -/
def symmetricKey (c : Config) (r : Entropy) : Except ConfigError SymmetricKey := do
  match ← c.symmetricKey? with
  | some k => .ok k
  | none => (SymmetricKey.ofBytes? (r.draw 32).1).mapError .aesKey

/-- An address on which a node can listen. -/
def listenable (a : Multiaddr) : Except LaunchError Multiaddr :=
  if a.listenSocket?.isSome then .ok a else .error (.unsupportedAddress a)

/-- The node of a configuration. -/
def plan (S : SignatureScheme) (c : Config) (environment : String → Option String) (r : Entropy) :
    Except LaunchError (Plan S) := do
  c.validate.mapError .config
  let identity ←
    (Identity.ofVariable S c.keyVariable (environment c.keyVariable)).mapError .identity
  let key ← (symmetricKey c r).mapError .config
  let listen ← listenable (← c.listenAddress.mapError .config)
  .ok ⟨c, identity, ⟨key, c.rsaBits, c.contract?⟩, listen⟩

/-- What a command line and an environment lead to. -/
def launch (S : SignatureScheme) (arguments : List String) (environment : String → Option String)
    (r : Entropy) : Launch S :=
  match Config.ofCommandLine arguments environment with
  | .error e => .refused e
  | .ok c =>
    if c.printsKey then .printed c.keyVariable (freshIdentity S r).1
    else
      match plan S c environment r with
      | .error e => .failed e
      | .ok p => .ready p

/-- The code with which the program ends. -/
def Launch.exitCode {S : SignatureScheme} : Launch S → UInt32
  | .refused .help => 0
  | .refused _ => 2
  | .failed _ => 1
  | .printed _ _ => 0
  | .ready _ => 0

end KeyCustody.Program
