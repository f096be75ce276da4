import KeyCustody.Crypto.Ed25519
import KeyCustody.Program.Launch
/-!
# The program

A node is launched from the command line and runs until its standard input ends.
-/

namespace KeyCustody.Program

open Crypto (Entropy)

/-- Waits for the end of the input. -/
partial def drainInput (input : IO.FS.Stream) : IO Unit := do
  if !(← input.getLine).isEmpty then drainInput input

/-- The values of the environment variables with the given names. -/
def environmentOf (names : List String) : IO (Assoc String String) := do
  let values ← names.mapM fun name => do
    pure ((← IO.getEnv name).toList.map fun value => (name, value))
  pure values.flatten

/-- Says what a command line leads to, and does it. -/
def runLaunch : Launch Crypto.Ed25519.scheme → IO Unit
  | .refused .help => IO.println UsageError.help.message
  | .refused e => IO.eprintln e.message
  | .failed e => IO.eprintln ("Error: " ++ e.message)
  | .printed name i => do
    IO.println (keyLine name i)
    IO.eprintln ("peer id: " ++ i.peerId.toText)
  | .ready p => do
    IO.eprintln ("keylocker node starting: " ++ p.identity.peerId.toText)
    drainInput (← IO.getStdin)

end KeyCustody.Program

open KeyCustody in
/-- Launches a node from the command line. -/
def main (arguments : List String) : IO UInt32 := do
  let known ← Program.environmentOf (Program.settings.map Program.Setting.variableName)
  let keyVariable := match Program.Config.ofCommandLine arguments (Assoc.get? known) with
    | .ok c => c.keyVariable
    | .error _ => ""
  let secret ← Program.environmentOf [keyVariable]
  let octets ← IO.getRandomBytes 64
  let result := Program.launch Crypto.Ed25519.scheme arguments (Assoc.get? (known ++ secret))
    (Crypto.Entropy.ofOctets octets.toList)
  Program.runLaunch result
  pure result.exitCode
