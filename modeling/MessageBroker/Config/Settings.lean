import MessageBroker.Config.Fault
import MessageBroker.Config.Source
import MessageBroker.Consumer.Worker

/-!
# Settings

The settings of the broker, its workers and its log. Each is taken from the environment, else from
the file, else from the defaults, one by one: a section that gives one setting leaves the others to
the layers below. Integers may be written as numbers, truth values or texts.

Main definitions: `Settings.load`, and `Settings.queueDefaults`, `Settings.pollInterval` and
`Settings.retention`, which give the numbers their units.
-/

namespace MessageBroker.Config

/-- Settings of the broker: defaults for queues, and how long processed messages are remembered. -/
structure BrokerSettings where
  visibilityTimeoutMs : Nat
  maxRetries : Nat
  idempotencyTtlSecs : Nat
deriving DecidableEq

/-- Settings of workers. -/
structure WorkerSettings where
  pollIntervalMs : Nat
deriving DecidableEq

/-- Settings of the log. -/
structure LoggingSettings where
  level : String
deriving DecidableEq

/-- All settings. -/
structure Settings where
  broker : BrokerSettings
  worker : WorkerSettings
  logging : LoggingSettings
deriving DecidableEq

/-- The settings where nothing else is given. -/
def Settings.standard : Settings := ⟨⟨30000, 3, 3600⟩, ⟨100⟩, ⟨"info"⟩⟩

/-! ## Single values -/

/-- The greatest number of 64 bits. -/
def greatestWord : Nat := 18446744073709551615

/-- The greatest number of 32 bits. -/
def greatestCount : Nat := 4294967295

/-- The nearest natural number of 64 bits to a real; none is zero. -/
def wordOfReal (x : Binary64) : Nat :=
  match x.round? with
  | some i => min i.toNat greatestWord
  | none => if x.isNaN ∨ x.isNegative then 0 else greatestWord

/-- The number of a text: words for one and zero, else digits. -/
def wordOfText? (s : String) : Option Nat :=
  let lower := s.toLower
  if lower = "true" ∨ lower = "on" ∨ lower = "yes" then some 1
  else if lower = "false" ∨ lower = "off" ∨ lower = "no" then some 0
  else Numeral.natural? s.toList

/-- A natural number of 64 bits. -/
def Value.word (key : String) (v : Value) : Except Fault Nat :=
  let complain (expected : String) : Except Fault Nat :=
    .error (.wrongKind v.describe expected key v.origin)
  match v with
  | .scalar _ (.integer i) =>
    if i < 0 then complain "an unsigned 64 bit or less integer" else .ok i.toNat
  | .scalar _ (.real x) => .ok (wordOfReal x)
  | .scalar _ (.boolean b) => .ok (if b then 1 else 0)
  | .scalar _ (.text s) =>
    match wordOfText? s with
    | some n => .ok n
    | none => complain "an integer"
  | _ => complain "an integer"

/-- A natural number of 32 bits. -/
def Value.count (key : String) (v : Value) : Except Fault Nat := do
  let n ← v.word key
  if n ≤ greatestCount then return n
  else
    .error (.wrongKind ("64-bit unsigned integer `" ++ String.ofList (Decimal.natural n) ++ "`")
      "an unsigned 32 bit integer" key none)

/-- A text; numbers and truth values are written out. -/
def Value.text (key : String) (v : Value) : Except Fault String :=
  match v with
  | .scalar _ (.text s) => .ok s
  | .scalar _ (.integer i) => .ok (integerText i)
  | .scalar _ (.real x) => .ok (String.ofList (RealStyle.plain.write x))
  | .scalar _ (.boolean b) => .ok (if b then "true" else "false")
  | _ => .error (.wrongKind v.describe "a string" key v.origin)

/-- A value that may be null. -/
def Value.optional {α : Type} (read : String → Value → Except Fault α) (key : String) :
    Value → Except Fault (Option α)
  | .scalar _ .null => .ok none
  | v => (read key v).map some

/-! ## Sections -/

/-- A section with its name, the name of its kind in complaints, and its fields in order. -/
structure Section where
  name : String
  kind : String
  fields : List String

/-- The broker's section. -/
def brokerSection : Section :=
  ⟨"broker", "PartialBrokerSettings", ["visibility_timeout_ms", "max_retries",
    "idempotency_ttl_secs"]⟩

/-- The workers' section. -/
def workerSection : Section := ⟨"worker", "PartialWorkerSettings", ["poll_interval_ms"]⟩

/-- The log's section. -/
def loggingSection : Section := ⟨"logging", "PartialLoggingSettings", ["level"]⟩

/-- The values of a section's fields in order, each with its key; a missing one is null. A section
may be missing, or null, or the list of its fields. -/
def Section.values (s : Section) (tree : Value) : Except Fault (List (String × Value)) :=
  match (tree.lookup? s.name).getD .null with
  | .scalar _ .null => .ok (s.fields.map fun field => (s.name ++ "." ++ field, .null))
  | .table origin entries =>
    .ok (s.fields.map fun field =>
      (s.name ++ "." ++ field, ((Value.table origin entries).lookup? field).getD .null))
  | .list _ items =>
    .ok (items.zipIdx.map fun (item, i) =>
      (s.name ++ "[" ++ String.ofList (Decimal.natural i) ++ "]", item))
  | v =>
    .error (.wrongSection
      ("invalid type: " ++ v.describeSection ++ ", expected struct " ++ s.kind) s.name)

/-- The value of a section's field by place, read and checked. The list of a section's fields must
not be too short. -/
def Section.field {α : Type} (s : Section) (values : List (String × Value)) (place : Nat)
    (read : String → Value → Except Fault α) : Except Fault (Option α) :=
  match values[place]? with
  | some (key, v) => v.optional read key
  | none =>
    .error (.wrongSection ("invalid length " ++ String.ofList (Decimal.natural values.length) ++
      ", expected struct " ++ s.kind ++ " with " ++
      String.ofList (Decimal.natural s.fields.length) ++
      (if s.fields.length = 1 then " element" else " elements")) s.name)

namespace Settings

/-- The settings of a tree of values. -/
def ofTree (tree : Value) : Except Fault Settings := do
  let broker ← brokerSection.values tree
  let timeout ← brokerSection.field broker 0 fun key v => v.word key
  let retries ← brokerSection.field broker 1 fun key v => v.count key
  let ttl ← brokerSection.field broker 2 fun key v => v.word key
  let worker ← workerSection.values tree
  let poll ← workerSection.field worker 0 fun key v => v.word key
  let logging ← loggingSection.values tree
  let level ← loggingSection.field logging 0 fun key v => v.text key
  return {
    broker := {
      visibilityTimeoutMs := timeout.getD standard.broker.visibilityTimeoutMs
      maxRetries := retries.getD standard.broker.maxRetries
      idempotencyTtlSecs := ttl.getD standard.broker.idempotencyTtlSecs }
    worker := { pollIntervalMs := poll.getD standard.worker.pollIntervalMs }
    logging := { level := level.getD standard.logging.level } }

/-- The layer of the file that a name stands for; a missing file has no values. -/
def fileLayer (files : List File) (name : String) : Except Fault Layer :=
  match chooseFile files name with
  | none => .ok []
  | some (file, format) =>
    match format.layer? (normalPath file.name) file.text with
    | some layer => .ok layer
    | none => .error .unreadable

/-- Loads the settings from a file and the environment. -/
def load (files : List File) (name : String) (environment : List (String × String)) :
    Except Fault Settings := do
  let file ← fileLayer files name
  ofTree ((environmentLayer environment).over (file.over (.table none [])))

/-- The file name where none is given. -/
def standardFile : String := "config/default"

/-! ## Units -/

/-- The defaults of queues. -/
def queueDefaults (s : Settings) : QueueDefaults :=
  ⟨.ofMillis s.broker.visibilityTimeoutMs, s.broker.maxRetries⟩

/-- How long processed messages are remembered. -/
def retention (s : Settings) : Span := .ofSeconds s.broker.idempotencyTtlSecs

/-- How long workers wait when no message is visible. -/
def pollInterval (s : Settings) : Span := .ofMillis s.worker.pollIntervalMs

end Settings

end MessageBroker.Config
