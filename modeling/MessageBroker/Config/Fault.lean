import MessageBroker.Config.Value
import MessageBroker.Numeric.RealText
import MessageBroker.Text.Quoted

/-!
# Faults of the configuration

A file may not be of its format, a value may be of another kind than its setting, and a section may
be something else than a table. A fault names the key of the setting, and the origin of the value
where that is known.
-/

namespace MessageBroker.Config

/-- Why settings could not be loaded. -/
inductive Fault where
  /-- A file is not of its format. -/
  | unreadable
  /-- A value is of another kind than its setting. -/
  | wrongKind (found expected key : String) (origin : Option String)
  /-- A section is no table. -/
  | wrongSection (complaint key : String)
deriving DecidableEq

/-- The fault in words; a file that cannot be read is reported without its key. -/
def Fault.message : Fault → String
  | .unreadable => "configuration file could not be parsed"
  | .wrongKind found expected key origin =>
    "invalid type: " ++ found ++ ", expected " ++ expected ++ " for key `" ++ key ++ "`" ++
      (match origin with
        | some origin => " in " ++ origin
        | none => "")
  | .wrongSection complaint key => complaint ++ " for key `" ++ key ++ "`"

/-- A decimal integer as text. -/
def integerText (i : Int) : String := String.ofList (Decimal.integer i)

/-- A value as a complaint about a setting names it. -/
def Value.describe : Value → String
  | .scalar _ .null => "unit value"
  | .scalar _ (.boolean b) => "boolean `" ++ (if b then "true" else "false") ++ "`"
  | .scalar _ (.integer i) => "64-bit integer `" ++ integerText i ++ "`"
  | .scalar _ (.real x) => "floating point `" ++ String.ofList (RealStyle.plain.write x) ++ "`"
  | .scalar _ (.text s) => "string " ++ Text.quoted s
  | .list _ _ => "sequence"
  | .table _ _ => "map"

/-- A value as a complaint about a section names it. -/
def Value.describeSection : Value → String
  | .scalar _ (.integer i) => "integer `" ++ integerText i ++ "`"
  | .scalar _ (.real x) => "floating point `" ++ String.ofList (RealStyle.pointed.write x) ++ "`"
  | v => v.describe

end MessageBroker.Config
