import MessageBroker.Demo.Arguments
import MessageBroker.Demo.Machine
import MessageBroker.Demo.Variables
import MessageBroker.Statistics

/-!
# The demo as a program

A `World` is what the program finds when it starts: its arguments, the environment and the files of
the working directory. A file `.env` adds to the environment first; then the arguments are read, and
then the settings. `Program.run` gives the `Ending`: either the log and the final counters, or a
complaint with an exit code.
-/

namespace MessageBroker.Demo

/-- What the program finds when it starts. -/
structure World where
  arguments : List String
  environment : List (String × String)
  files : List Config.File
  clock : Clock

/-- How the program ends. -/
inductive Ending where
  /-- The lines that are shown, and the counters. -/
  | finished (log : List LogLine) (stats : BrokerStats)
  /-- The help was asked for. -/
  | helped
  /-- An exit code and a complaint. -/
  | refused (code : Nat) (complaint : String)
  /-- The demo was not done in time. -/
  | unfinished

namespace Program

/-- The file of variables. -/
def variablesFile : String := ".env"

/-- The files that the program reads if they exist. -/
def filesWanted (arguments : List String) : List String :=
  match Request.ofArguments arguments with
  | .ok (.run a) => [variablesFile, a.config, a.config ++ ".toml", a.config ++ ".json"]
  | _ => []

/-- The variables of the environment that the settings know. -/
def variablesWanted : List String :=
  [Config.brokerSection, Config.workerSection, Config.loggingSection].flatMap fun s =>
    s.fields.map fun field => "FANOUT__" ++ s.name.toUpper ++ "__" ++ field.toUpper

/-- The environment with the variables of the file added. -/
def environment (w : World) : List (String × String) :=
  match w.files.find? (·.name = variablesFile) with
  | some file => Variables.addTo w.environment file.text
  | none => w.environment

/-- The level of the log: that of the command line, else that of the settings. -/
def level (a : Arguments) (settings : Config.Settings) : LogLevel :=
  .ofName (a.logLevel.getD settings.logging.level)

/-- The lines of a finished demo that a level shows, in order. -/
def shownLines (s : State) (level : LogLevel) : List LogLine :=
  s.log.reverse.filter (·.level.shownAt level)

/-- How the program ends when the demo is done, if it is. -/
def ending (level : LogLevel) : Option State → Ending
  | some s => .finished (shownLines s level) s.fleet.broker.stats
  | none => .unfinished

/-- Runs the demo with settings. -/
def work (a : Arguments) (settings : Config.Settings) (clock : Clock) : Ending :=
  let start := State.create settings a.orders a.failEvery clock
  ending (level a settings) (start.finish (State.turnsNeeded a.orders))

/-- Runs the program. -/
def run (w : World) : Ending :=
  match Request.ofArguments w.arguments with
  | .error e => .refused 2 e.message
  | .ok .help => .helped
  | .ok (.run a) =>
    match Config.Settings.load w.files a.config (environment w) with
    | .error fault => .refused 1 ("Failed to load configuration: " ++ fault.message)
    | .ok settings => work a settings w.clock

/-- The text that shows counters. -/
def statsText (stats : BrokerStats) : String := stats.toJson.toIndentedText ++ "\n"

end Program

end MessageBroker.Demo
