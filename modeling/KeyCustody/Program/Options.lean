import KeyCustody.Assoc
import KeyCustody.Program.Config
/-!
# Options

A configuration is given by options on the command line and, for what they do not say, by
environment variables. An option is two hyphens and a name; its value is joined to it by an equals
sign or is the next argument, which then does not start with a hyphen unless it is nothing else. The
value of an option is looked at when the next option comes, or at the end.

## Main definitions

* `Setting`, `settings`: what an option with a value sets.
* `UsageError`: why a command line is refused.
* `Reading`: how far a command line is read.
* `Config.ofCommandLine`: the configuration of a command line and an environment.
-/

namespace KeyCustody.Program

/-- Something that is set by an option with a value. -/
structure Setting where
  /-- The name of the option, without the hyphens. -/
  name : String
  /-- Whether the option may be repeated. -/
  repeats : Bool
  /-- The configuration with all the values, if they are good. -/
  set : Config → List String → Option Config

/-- Why a command line is refused. -/
inductive UsageError where
  /-- Help is wanted. -/
  | help
  | unknown (argument : String)
  | missingValue (name : String)
  | badValue (name value : String)
  | repeated (name : String)
  | unwantedValue (name : String)
  deriving DecidableEq, Repr

/-! ### Settings -/

/-- The setting of one value that is read. -/
def setRead {α : Type} (read : String → Option α) (put : Config → α → Config) (c : Config) :
    List String → Option Config
  | [value] => (read value).map (put c)
  | _ => none

/-- A number of two octets, which may have a sign. -/
def readSocketNumber (s : String) : Option Nat :=
  match s.toList with
  | '-' :: cs => (Text.Decimal.digits? cs).filter (· = 0)
  | _ => Text.Decimal.typed? Text.Decimal.largest16 s

/-- A setting that is a text. -/
def textSetting (name : String) (put : Config → String → Config) : Setting :=
  ⟨name, false, setRead some put⟩

/-- A setting that is a number. -/
def numberSetting (name : String) (put : Config → Nat → Config) : Setting :=
  ⟨name, false, setRead (Text.Decimal.typed? Text.Decimal.largest64) put⟩

/-- The options with a value. -/
def settings : List Setting :=
  [textSetting "listen-host" fun c v => { c with listenHost := v },
    ⟨"listen-port", false, setRead readSocketNumber fun c v => { c with listenPort := v }⟩,
    textSetting "rendezvous" fun c v => { c with rendezvous := v },
    ⟨"chains", true, fun c vs => some { c with chains := vs.flatMap (·.splitOn ",") }⟩,
    textSetting "private-key-env" fun c v => { c with keyVariable := v },
    numberSetting "fault-tolerance-times" fun c v => { c with attempts := v },
    numberSetting "relay-poll-interval-secs" fun c v => { c with pollSeconds := v },
    numberSetting "relay-timeout-secs" fun c v => { c with timeoutSeconds := v },
    numberSetting "conn-low-water" fun c v => { c with lowWater := v },
    numberSetting "conn-high-water" fun c v => { c with highWater := v },
    numberSetting "conn-grace-secs" fun c v => { c with graceSeconds := v },
    textSetting "aes-key" fun c v => { c with aesKey? := some v },
    numberSetting "rsa-bits" fun c v => { c with rsaBits := v },
    ⟨"api-addr", false, setRead Net.Socket.ofText? fun c v => { c with apiSocket? := some v }⟩,
    textSetting "ethereum-contract" fun c v => { c with contract? := some v },
    ⟨"ipfs-node", true, fun c vs => some { c with contentNodes := vs }⟩]

/-- The environment variable for a setting: its name in capitals, with underscores. -/
def Setting.variableName (s : Setting) : String :=
  "KEYLOCKER_" ++ s.name.map fun c => if c = '-' then '_' else c.toUpper

/-! ### Arguments -/

/-- The form of an argument. -/
inductive Argument where
  /-- Two hyphens, after which no option follows. -/
  | escape
  | long (name : String) (value? : Option String)
  /-- A hyphen and characters, of which this is the first. -/
  | short (c : Char)
  | word
  deriving DecidableEq, Repr

/-- The form of a text. -/
def Argument.ofText (s : String) : Argument :=
  match s.toList with
  | ['-', '-'] => .escape
  | '-' :: '-' :: cs =>
    let name := cs.takeWhile (· ≠ '=')
    match cs.drop name.length with
    | _ :: value => .long (String.ofList name) (some (String.ofList value))
    | [] => .long (String.ofList name) none
  | '-' :: c :: _ => .short c
  | _ => .word

/-- What an option still needs. -/
inductive Unfinished where
  | nothing
  /-- Its value. -/
  | value (s : Setting)
  /-- That its value is looked at. -/
  | check (s : Setting) (value : String)

/-- How far a command line is read. -/
structure Reading where
  config : Config
  /-- The values of the options so far. -/
  given : Assoc String (List String)
  unfinished : Unfinished
  /-- Whether no option follows. -/
  isTrailing : Bool

namespace Reading

/-- Nothing is read yet. -/
def start : Reading := ⟨.usual, [], .nothing, false⟩

/-- One more value for a setting. -/
def give (r : Reading) (s : Setting) (value : String) : Except UsageError Reading :=
  let before := (Assoc.get? r.given s.name).getD []
  if !s.repeats && !before.isEmpty then .error (.repeated s.name)
  else
    match s.set r.config (before ++ [value]) with
    | some config => .ok { r with config, given := Assoc.put r.given s.name (before ++ [value]) }
    | none => .error (.badValue s.name value)

/-- The last option is finished. -/
def finish (r : Reading) : Except UsageError Reading :=
  let r' := { r with unfinished := .nothing }
  match r.unfinished with
  | .nothing => .ok r'
  | .value s => .error (.missingValue s.name)
  | .check s value => r'.give s value

/-- The step for an option without a value. -/
def onFlag (r : Reading) (name : String) : Except UsageError Reading := do
  let r ← r.finish
  if name = "help" then .error .help
  else if r.config.printsKey then .error (.repeated name)
  else .ok { r with config := { r.config with printsKey := true } }

/-- The step for an argument. -/
def onArgument (r : Reading) (text : String) : Except UsageError Reading :=
  if r.isTrailing then .error (.unknown text)
  else
    match Argument.ofText text with
    | .escape => .ok { r with isTrailing := true }
    | .short c => if c = 'h' then r.onFlag "help" else .error (.unknown text)
    | .word =>
      match r.unfinished with
      | .value s => .ok { r with unfinished := .check s text }
      | _ => .error (.unknown text)
    | .long name value? =>
      match settings.find? (fun s => s.name = name), value? with
      | some s, some value => do (← r.finish).give s value
      | some s, none => do .ok { ← r.finish with unfinished := .value s }
      | none, _ =>
        if name ≠ "help" ∧ name ≠ "gen-key" then .error (.unknown text)
        else if value?.isSome then .error (.unwantedValue name)
        else r.onFlag name

/-- The step for a setting that may be in the environment, if no option gave it. -/
def onVariable (environment : String → Option String) (r : Reading) (s : Setting) :
    Except UsageError Reading :=
  match Assoc.get? r.given s.name, environment s.variableName with
  | none, some value => r.give s value
  | _, _ => .ok r

end Reading

/-- The configuration of a command line and an environment. -/
def Config.ofCommandLine (arguments : List String) (environment : String → Option String) :
    Except UsageError Config := do
  let r ← arguments.foldlM Reading.onArgument .start
  let r ← settings.foldlM (Reading.onVariable environment) (← r.finish)
  .ok r.config

/-- What is said about the options to a person. -/
def usage : String :=
  "Usage: keylocker-node [--gen-key]" ++
    String.join (settings.map fun s => " [--" ++ s.name ++ " <VALUE>]" ++
      if s.repeats then "..." else "")

/-- The words for a command line that is refused. -/
def UsageError.message : UsageError → String
  | .help => usage
  | .unknown argument => "error: unexpected argument '" ++ argument ++ "' found"
  | .missingValue name => "error: a value is required for '--" ++ name ++ "' but none was supplied"
  | .badValue name value => "error: invalid value '" ++ value ++ "' for '--" ++ name ++ "'"
  | .repeated name => "error: the argument '--" ++ name ++ "' cannot be used multiple times"
  | .unwantedValue name => "error: unexpected value for '--" ++ name ++ "' found"

end KeyCustody.Program
