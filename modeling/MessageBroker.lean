import MessageBroker.Broker
import MessageBroker.BrokerError
import MessageBroker.Config.Fault
import MessageBroker.Config.Settings
import MessageBroker.Config.Source
import MessageBroker.Config.Toml.Atom
import MessageBroker.Config.Toml.Document
import MessageBroker.Config.Toml.Lexical
import MessageBroker.Config.Value
import MessageBroker.Consumer.Fleet
import MessageBroker.Consumer.Guard
import MessageBroker.Consumer.Handler
import MessageBroker.Consumer.Script
import MessageBroker.Consumer.Statistics
import MessageBroker.Consumer.Worker
import MessageBroker.Demo.Arguments
import MessageBroker.Demo.LogLine
import MessageBroker.Demo.Machine
import MessageBroker.Demo.Order
import MessageBroker.Demo.Pipeline
import MessageBroker.Demo.Program
import MessageBroker.Demo.Variables
import MessageBroker.Envelope
import MessageBroker.Idempotency
import MessageBroker.Ident
import MessageBroker.Json.Cursor
import MessageBroker.Json.Encoding
import MessageBroker.Json.Fault
import MessageBroker.Json.Literal
import MessageBroker.Json.Numeral
import MessageBroker.Json.Shape
import MessageBroker.Json.Skip
import MessageBroker.Json.Value
import MessageBroker.Json.Writer
import MessageBroker.LogLevel
import MessageBroker.Main
import MessageBroker.Message
import MessageBroker.NameTable
import MessageBroker.Numeric.Binary64
import MessageBroker.Numeric.Decimal
import MessageBroker.Numeric.Numeral
import MessageBroker.Numeric.RealText
import MessageBroker.Numeric.Shortest
import MessageBroker.Proofs.Broker.Answer
import MessageBroker.Proofs.Broker.Copies
import MessageBroker.Proofs.Broker.DeadLetters
import MessageBroker.Proofs.Broker.Deadline
import MessageBroker.Proofs.Broker.Dispatch
import MessageBroker.Proofs.Broker.FanOut
import MessageBroker.Proofs.Broker.Growth
import MessageBroker.Proofs.Broker.Ledger
import MessageBroker.Proofs.Broker.LetterChain
import MessageBroker.Proofs.Broker.Mint
import MessageBroker.Proofs.Broker.Objects
import MessageBroker.Proofs.Broker.Observation
import MessageBroker.Proofs.Broker.Operation
import MessageBroker.Proofs.Broker.Processed
import MessageBroker.Proofs.Broker.Publishers
import MessageBroker.Proofs.Broker.Registry
import MessageBroker.Proofs.Broker.Standing
import MessageBroker.Proofs.Config.Contents
import MessageBroker.Proofs.Config.Document
import MessageBroker.Proofs.Config.Fields
import MessageBroker.Proofs.Config.File
import MessageBroker.Proofs.Config.Integers
import MessageBroker.Proofs.Config.JsonDocument
import MessageBroker.Proofs.Config.JsonGrammar
import MessageBroker.Proofs.Config.JsonInteger
import MessageBroker.Proofs.Config.JsonReads
import MessageBroker.Proofs.Config.Layers
import MessageBroker.Proofs.Config.Resolution
import MessageBroker.Proofs.Config.TomlDocument
import MessageBroker.Proofs.Config.TomlGrammar
import MessageBroker.Proofs.Config.TomlInteger
import MessageBroker.Proofs.Config.TomlReads
import MessageBroker.Proofs.Config.TomlSections
import MessageBroker.Proofs.Config.TomlStrings
import MessageBroker.Proofs.Config.TomlTables
import MessageBroker.Proofs.Config.Variables
import MessageBroker.Proofs.Consumer.Account
import MessageBroker.Proofs.Consumer.Affects
import MessageBroker.Proofs.Consumer.Attempts
import MessageBroker.Proofs.Consumer.Call
import MessageBroker.Proofs.Consumer.Counters
import MessageBroker.Proofs.Consumer.Crew
import MessageBroker.Proofs.Consumer.Deduplication
import MessageBroker.Proofs.Consumer.Drain
import MessageBroker.Proofs.Consumer.Effect
import MessageBroker.Proofs.Consumer.Executions
import MessageBroker.Proofs.Consumer.Expiry
import MessageBroker.Proofs.Consumer.GuardLaw
import MessageBroker.Proofs.Consumer.Guarding
import MessageBroker.Proofs.Consumer.Lifecycle
import MessageBroker.Proofs.Consumer.Loops
import MessageBroker.Proofs.Consumer.Moves
import MessageBroker.Proofs.Consumer.Sessions
import MessageBroker.Proofs.Consumer.Sharing
import MessageBroker.Proofs.Consumer.Shift
import MessageBroker.Proofs.Consumer.Steps
import MessageBroker.Proofs.Consumer.Store
import MessageBroker.Proofs.Consumer.Tallies
import MessageBroker.Proofs.Consumer.Timesheet
import MessageBroker.Proofs.Consumer.Tries
import MessageBroker.Proofs.Consumer.Turns
import MessageBroker.Proofs.Custody.Accounting
import MessageBroker.Proofs.Custody.Ancestry
import MessageBroker.Proofs.Custody.Budget
import MessageBroker.Proofs.Custody.Chronicle
import MessageBroker.Proofs.Custody.Commuting
import MessageBroker.Proofs.Custody.Exclusion
import MessageBroker.Proofs.Custody.Handles
import MessageBroker.Proofs.Custody.Journal
import MessageBroker.Proofs.Custody.Law
import MessageBroker.Proofs.Custody.Lineage
import MessageBroker.Proofs.Custody.Order
import MessageBroker.Proofs.Custody.Provenance
import MessageBroker.Proofs.Custody.Receipts
import MessageBroker.Proofs.Custody.Refusals
import MessageBroker.Proofs.Custody.Registrations
import MessageBroker.Proofs.Custody.Sound
import MessageBroker.Proofs.Custody.Sweep
import MessageBroker.Proofs.Demo.Conduct
import MessageBroker.Proofs.Demo.Desk
import MessageBroker.Proofs.Demo.Orders
import MessageBroker.Proofs.Demo.Outcome
import MessageBroker.Proofs.Demo.Schedule
import MessageBroker.Proofs.Demo.Staff
import MessageBroker.Proofs.Json.Literal
import MessageBroker.Proofs.Json.Normal
import MessageBroker.Proofs.Json.Numeral
import MessageBroker.Proofs.Json.Reads
import MessageBroker.Proofs.Json.Shaped
import MessageBroker.Proofs.Json.Written
import MessageBroker.Proofs.Message.Envelope
import MessageBroker.Proofs.Message.Payload
import MessageBroker.Proofs.Numeric.Decimal
import MessageBroker.Proofs.Numeric.Numeral
import MessageBroker.Proofs.Queue.CriticalSection
import MessageBroker.Proofs.Time.Calendar
import MessageBroker.Proofs.Time.Saturation
import MessageBroker.Proofs.Time.Timestamp
import MessageBroker.Publication
import MessageBroker.Queue
import MessageBroker.Statistics
import MessageBroker.Text.Blank
import MessageBroker.Text.Hidden
import MessageBroker.Text.Quoted
import MessageBroker.Text.Utf8
import MessageBroker.Time.Calendar
import MessageBroker.Time.Clock
import MessageBroker.Time.Instant
import MessageBroker.Time.Span
import MessageBroker.Time.Timestamp
