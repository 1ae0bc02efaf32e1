import MessageBroker.Config.Settings

/-!
# Command line of the demo

Four options, each with a value: `--orders`, `--fail-every`, `--log-level` and `--config`. The value
stands behind the option or behind `=`. An option must not be given twice, and no other arguments
are allowed. The first mistake is reported; an argument that is not known is reported before a bad
value that stands right before it.
-/

namespace MessageBroker.Demo

/-- What the command line says. -/
structure Arguments where
  orders : Nat := 5
  failEvery : Nat := 0
  logLevel : Option String := none
  config : String := Config.Settings.standardFile
deriving DecidableEq

/-- An option of the command line. -/
inductive Flag where
  | orders
  | failEvery
  | logLevel
  | config
deriving DecidableEq

namespace Flag

/-- All options. -/
def all : List Flag := [.orders, .failEvery, .logLevel, .config]

/-- The name of the option, behind its dashes. -/
def name : Flag → String
  | .orders => "orders"
  | .failEvery => "fail-every"
  | .logLevel => "log-level"
  | .config => "config"

/-- The option and its value in words. -/
def usage : Flag → String
  | .orders => "--orders <ORDERS>"
  | .failEvery => "--fail-every <FAIL_EVERY>"
  | .logLevel => "--log-level <LOG_LEVEL>"
  | .config => "--config <CONFIG>"

end Flag

/-- The text of the help. -/
def helpText : String := "Publish order events through the in-process broker

Usage: fanout [OPTIONS]

Options:
      --orders <ORDERS>          Number of order events to publish [default: 5]
      --fail-every <FAIL_EVERY>  Make the first delivery of every k-th order fail in the notification worker (0 = never) [default: 0]
      --log-level <LOG_LEVEL>    Log level, overriding the configured one
      --config <CONFIG>          Configuration file (without extension) [default: config/default]
  -h, --help                     Print help
"

/-- Why a command line is refused. -/
inductive UsageError where
  | unknown (argument : String)
  | noValue (flag : Flag)
  | repeated (flag : Flag)
  | badValue (flag : Flag) (value reason : String)
  | needlessValue (argument value : String)
deriving DecidableEq

/-- The first line of the complaint. -/
def UsageError.message : UsageError → String
  | .unknown argument => "error: unexpected argument '" ++ argument ++ "' found"
  | .noValue flag => "error: a value is required for '" ++ flag.usage ++ "' but none was supplied"
  | .repeated flag => "error: the argument '" ++ flag.usage ++ "' cannot be used multiple times"
  | .badValue flag value reason =>
    "error: invalid value '" ++ value ++ "' for '" ++ flag.usage ++ "': " ++ reason
  | .needlessValue argument value =>
    "error: unexpected value '" ++ value ++ "' for '" ++ argument ++
      "' found; no more were expected"

/-- What a command line asks for. -/
inductive Request where
  | run (arguments : Arguments)
  | help
deriving DecidableEq

/-- A command line while it is read: what was said so far, the options given, and an option whose
value may follow. -/
structure Reading where
  arguments : Arguments := {}
  given : List Flag := []
  pending : Option (Flag × Option String) := none

namespace Reading

/-- A count of 32 bits. -/
def count (flag : Flag) (value : String) : Except UsageError Nat :=
  let (negative, digits) := Numeral.splitSign value.toList
  let bad (reason : String) : Except UsageError Nat := .error (.badValue flag value reason)
  if value.isEmpty then bad "cannot parse integer from empty string"
  else
    match Decimal.read? digits with
    | none => bad "invalid digit found in string"
    | some n =>
      let i : Int := if negative then -(n : Int) else n
      if i < -9223372036854775808 then bad "number too small to fit in target type"
      else if 9223372036854775807 < i then bad "number too large to fit in target type"
      else if i < 0 ∨ 4294967295 < i then
        bad (String.ofList (Decimal.integer i) ++ " is not in 0..=4294967295")
      else .ok n

/-- Notes an option with its value. -/
def note (r : Reading) (flag : Flag) (value : String) : Except UsageError Reading := do
  if flag ∈ r.given then throw (.repeated flag)
  let arguments ← match flag with
    | .orders => do pure { r.arguments with orders := ← count flag value }
    | .failEvery => do pure { r.arguments with failEvery := ← count flag value }
    | .logLevel => pure { r.arguments with logLevel := some value }
    | .config => pure { r.arguments with config := value }
  return { arguments, given := flag :: r.given, pending := none }

/-- Notes the option that is pending. -/
def settle (r : Reading) : Except UsageError Reading :=
  match r.pending with
  | none => .ok r
  | some (flag, some value) => { r with pending := none }.note flag value
  | some (flag, none) => .error (.noValue flag)

end Reading

/-- Splits an argument at its first `=`. -/
def splitValue (s : List Char) : String × Option String :=
  let name := s.takeWhile (· ≠ '=')
  match s.drop name.length with
  | [] => (String.ofList name, none)
  | _ :: value => (String.ofList name, some (String.ofList value))

/-- Reads the arguments in turn. -/
def readArguments : List String → Reading → Except UsageError Request
  | [], r => do return .run (← r.settle).arguments
  | argument :: rest, r =>
    match argument.toList with
    | ['-', '-'] =>
      match rest with
      | [] => do return .run (← r.settle).arguments
      | next :: _ => .error (.unknown next)
    | '-' :: '-' :: s =>
      let (name, value) := splitValue s
      match Flag.all.find? (·.name = name), value with
      | some flag, some value => do readArguments rest (← (← r.settle).note flag value)
      | some flag, none => do readArguments rest { ← r.settle with pending := some (flag, none) }
      | none, value =>
        if name = "help" then
          match value with
          | none => do
            let _ ← r.settle
            return .help
          | some value => .error (.needlessValue "--help" value)
        else .error (.unknown ("--" ++ name))
    | '-' :: 'h' :: _ => do
      let _ ← r.settle
      return .help
    | '-' :: c :: _ => .error (.unknown (String.ofList ['-', c]))
    | _ =>
      match r.pending with
      | some (flag, none) => readArguments rest { r with pending := some (flag, some argument) }
      | _ => .error (.unknown argument)

/-- What the command line asks for. -/
def Request.ofArguments (arguments : List String) : Except UsageError Request :=
  readArguments arguments {}

end MessageBroker.Demo
