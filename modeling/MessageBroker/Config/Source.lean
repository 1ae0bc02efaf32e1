import MessageBroker.Config.Toml.Document
import MessageBroker.Json.Shape
import MessageBroker.Numeric.Numeral

/-!
# Sources of settings

Settings come from at most one file and from the environment. The file is the one with the given
name, or with that name and the ending of a known format; it may be missing. Environment variables
whose names begin with `FANOUT__` count, in letters of either case; the two underscores between the
parts of a name separate the steps of a path.
-/

namespace MessageBroker.Config

/-! ## Files -/

/-- A file format for settings. -/
inductive Format where
  | toml
  | json
deriving DecidableEq

namespace Format

/-- The ending of a format's file names. -/
def ending : Format → List Char
  | .toml => ".toml".toList
  | .json => ".json".toList

/-- The format of a file name, by its last ending. -/
def ofName? (name : List Char) : Option Format :=
  [Format.toml, .json].find? fun format =>
    format.ending.isSuffixOf name &&
      (name.take (name.length - format.ending.length)).getLast?.any (· ≠ '/')

end Format

/-- A file to read: its name, and its format if that is known. -/
structure File where
  name : String
  text : String
deriving DecidableEq

/-- The parts of a relative path, without empty ones and those that stay in place. -/
def pathParts (path : String) : List String :=
  ((path.splitToList (· = '/')).filter fun part => part ≠ "" ∧ part ≠ ".")

/-- A relative path in normal form. -/
def normalPath (path : String) : String := "/".intercalate (pathParts path)

/-- The file that a name stands for, and its format. A file of exactly that name comes first, and
then must have the ending of a format. -/
def chooseFile (files : List File) (name : String) : Option (File × Format) :=
  let find? (path : String) : Option File :=
    files.find? fun file => pathParts file.name = pathParts path
  match find? name with
  | some file => (Format.ofName? (normalPath name).toList).map fun format => (file, format)
  | none =>
    [Format.toml, .json].findSome? fun format =>
      (find? (name ++ String.ofList format.ending)).map fun file => (file, format)

/-! ## JSON files -/

/-- A number: an integer that 64 bits hold with a sign, or a real. -/
def scalarOfNumber : Number → Scalar
  | .integer i =>
    if i ≤ 9223372036854775807 then .integer i
    else .real (Binary64.ofFloat (UInt64.ofNat i.toNat).toFloat)
  | .real x => .real x

mutual

/-- The value of a JSON value. -/
def Value.ofJson (origin : Option String) : Json → Value
  | .null => .scalar origin .null
  | .boolean b => .scalar origin (.boolean b)
  | .number n => .scalar origin (scalarOfNumber n)
  | .string s => .scalar origin (.text s)
  | .array items => .list origin (itemsOfJson origin items)
  | .object members => .table origin (entriesOfJson origin members)

/-- The values of an array's items. -/
def itemsOfJson (origin : Option String) : List Json → List Value
  | [] => []
  | item :: rest => Value.ofJson origin item :: itemsOfJson origin rest

/-- The entries of an object. -/
def entriesOfJson (origin : Option String) : List (String × Json) → List (String × Value)
  | [] => []
  | (name, member) :: rest => (name, Value.ofJson origin member) :: entriesOfJson origin rest

end

/-- The text behind a byte order mark, which need not be there. -/
def unmarked : List Char → List Char
  | '\ufeff' :: rest => rest
  | chars => chars

/-- The layer of a file's text, none if it is not a table of its format. A byte order mark at the
start does not count. -/
def Format.layer? (format : Format) (origin : String) (text : String) : Option Layer :=
  match format with
  | .toml => Toml.parse (some origin) (unmarked text.toList)
  | .json =>
    match Json.parse (Utf8.encode (unmarked text.toList)) with
    | .ok (.object members) => some (entriesOfJson (some origin) members)
    | _ => none

/-! ## Environment -/

/-- What marks the variables that count, in lower case. -/
def environmentMark : List Char := "fanout__".toList

/-- Lower case as far as it leads to ASCII: beside the letters of ASCII, only the Kelvin sign. -/
def lowerChar (c : Char) : Char := if c = '\u212a' then 'k' else c.toLower

/-- Points in place of double underscores, from left to right. -/
def separateSteps : List Char → List Char
  | '_' :: '_' :: rest => '.' :: separateSteps rest
  | c :: rest => c :: separateSteps rest
  | [] => []

/-- The key of a variable's name, if the variable counts. -/
def environmentKey? (name : String) : Option String :=
  let lower := name.toList.map lowerChar
  if environmentMark.isPrefixOf lower then
    some (String.ofList (separateSteps (lower.drop environmentMark.length)))
  else none

/-- The value of a variable: a boolean, an integer or a real if the text is one, else the text. -/
def environmentScalar (text : String) : Scalar :=
  let lower := text.toLower
  if lower = "true" then .boolean true
  else if lower = "false" then .boolean false
  else
    match Numeral.integer? text.toList, Numeral.real? text.toList with
    | some i, _ => .integer i
    | none, some x => .real x
    | none, none => .text text

/-- The origin of the values of variables. -/
def environmentOrigin : String := "the environment"

/-- The layer of the environment. -/
def environmentLayer (environment : List (String × String)) : Layer :=
  environment.filterMap fun (name, text) =>
    (environmentKey? name).map fun key =>
      (key, .scalar (some environmentOrigin) (environmentScalar text))

end MessageBroker.Config
