import MessageBroker.Text.Blank
import MessageBroker.NameTable

/-!
# Files of variables

A file `.env` gives environment variables, each by a name, `=` and a value. Values may be quoted in
part, and then go over several lines; between single quotes every character stands for itself,
elsewhere a backslash escapes the next character and `$` inserts the value of another variable. A
variable that is set already keeps its value, and the first entry that cannot be read ends the file.

Main definition: `Variables.addTo`.
-/

namespace MessageBroker.Demo.Variables

/-- Variables by name. -/
abbrev Assignments := List (String × String)

/-- The value of a variable; a missing one is empty. -/
def valueOf (environment : Assignments) (name : List Char) : List Char :=
  ((Entries.find? (String.ofList name) environment).getD "").toList

/-! ## Entries -/

/-- Where the division into entries stands: an entry ends with the line in which no quote is open. -/
inductive Extent where
  | plain
  | blank
  | escaped
  | quoted
  | quotedEscaped
  | verbatim
  | verbatimEscaped
deriving DecidableEq

/-- Behind another character; none at the start of a comment. -/
def Extent.next? (extent : Extent) (c : Char) : Option Extent :=
  let opened : Extent :=
    if c = '\\' then .escaped else if c = '"' then .quoted else if c = '\'' then .verbatim
    else .plain
  match extent with
  | .plain => if Text.isBlank c ∧ c ≠ '\n' ∧ c ≠ '\r' then some .blank else some opened
  | .blank => if c = '#' then none else some opened
  | .escaped => some .plain
  | .quoted => some (if c = '\\' then .quotedEscaped else if c = '"' then .plain else .quoted)
  | .quotedEscaped => some .quoted
  | .verbatim =>
    some (if c = '\\' then .verbatimEscaped else if c = '\'' then .plain else .verbatim)
  | .verbatimEscaped => some .verbatim

/-- A line as far as a comment, and where the division stands behind it. -/
def Extent.pass : Extent → List Char → List Char × Extent
  | extent, [] => ([], extent)
  | extent, c :: rest =>
    match extent.next? c with
    | none => ([], .plain)
    | some extent =>
      let (kept, extent) := extent.pass rest
      (c :: kept, extent)

/-- Divides lines, which keep their line ends, into entries. An entry that never ends is none. -/
def entries : (lines : List (List Char)) → (begun : List Char) → Extent → List (Option (List Char))
  | [], _, extent => if extent = .plain then [] else [none]
  | line :: rest, begun, extent =>
    if (Text.trimLeft (begun ++ line)).head? = some '#' then entries rest [] .plain
    else
      let (kept, extent) := extent.pass line
      if extent = .plain then some (begun ++ kept) :: entries rest [] .plain
      else entries rest (begun ++ kept) extent

/-- The lines of a text, with their line ends. -/
def linesOf : List Char → List (List Char)
  | [] => []
  | '\n' :: rest => ['\n'] :: linesOf rest
  | c :: rest =>
    match linesOf rest with
    | [] => [[c]]
    | line :: others => (c :: line) :: others

/-! ## Values -/

/-- Where the reader of a value stands. -/
inductive Place where
  /-- Outside quotes. -/
  | bare
  /-- Between double quotes. -/
  | quoted
  /-- Between single quotes. -/
  | verbatim
  /-- Behind the value, where only a comment may follow. -/
  | behind
  | comment
  /-- Behind a backslash. -/
  | escaped (isQuoted : Bool)
  /-- In a name behind `$`; its characters so far, the latest first. -/
  | naming (isQuoted : Bool) (name : List Char)
  /-- In a name between braces. -/
  | braced (isQuoted : Bool) (name : List Char)
deriving DecidableEq

namespace Place

/-- The place outside double quotes, or between them. -/
def plain (isQuoted : Bool) : Place := if isQuoted then .quoted else .bare

/-- Reads a character outside single quotes that is part of no name and not escaped. -/
def readPlain (isQuoted : Bool) (c : Char) : List Char × Place :=
  if c = '$' then ([], .naming isQuoted [])
  else if c = '\\' then ([], .escaped isQuoted)
  else if c = '"' then ([], plain !isQuoted)
  else if isQuoted then ([c], .quoted)
  else if c = '\'' then ([], .verbatim)
  else if c = ' ' ∨ c = '\t' then ([], .behind)
  else ([c], .bare)

/-- Reads a character: what it adds to the value, and the next place. The character that ends a name
stands for itself, even if it is a quote. -/
def read? (environment : Assignments) : Place → Char → Option (List Char × Place)
  | .bare, c => some (readPlain false c)
  | .quoted, c => some (readPlain true c)
  | .verbatim, c => some (if c = '\'' then ([], .bare) else ([c], .verbatim))
  | .behind, c =>
    if c = ' ' ∨ c = '\t' then some ([], .behind)
    else if c = '#' then some ([], .comment)
    else none
  | .comment, _ => some ([], .comment)
  | .escaped isQuoted, c =>
    if c = 'n' then some (['\n'], plain isQuoted)
    else if c ∈ ['\\', '\'', '"', '$', ' '] then some ([c], plain isQuoted)
    else none
  | .naming isQuoted name, c =>
    if c.isAlphanum then some ([], .naming isQuoted (c :: name))
    else if c = '\x7b' ∧ name = [] then some ([], .braced isQuoted [])
    else
      let value := valueOf environment name.reverse
      some (if c = '$' then (value, .naming isQuoted []) else (value ++ [c], plain isQuoted))
  | .braced isQuoted name, c =>
    some (if c = '\x7d' then (valueOf environment name.reverse, plain isQuoted)
      else ([], .braced isQuoted (c :: name)))

/-- What the end of the text adds; none inside quotes and braces. -/
def finish? (environment : Assignments) : Place → Option (List Char)
  | .bare | .behind | .comment | .escaped false => some []
  | .naming false name => some (valueOf environment name.reverse)
  | _ => none

end Place

/-- The value that the rest of a text writes. -/
def value? (environment : Assignments) : Place → List Char → Option (List Char)
  | place, [] => place.finish? environment
  | place, c :: rest => do
    let (added, place) ← place.read? environment c
    return added ++ (← value? environment place rest)

/-! ## Assignments -/

/-- A character that a variable's name begins with. -/
def isInitial (c : Char) : Bool := c.isAlpha || c = '_'

/-- A name at the front of a text, and the rest behind blanks. -/
def name? (s : List Char) : Option (String × List Char) :=
  match s with
  | c :: _ =>
    if isInitial c then
      let name := s.takeWhile (fun c => c.isAlphanum || c = '_' || c = '.')
      some (String.ofList name, Text.trimLeft (s.drop name.length))
    else none
  | [] => none

/-- The name that an entry assigns to, and the text of the value. The word `export` may precede. -/
def assignment? (s : List Char) : Option (String × List Char) := do
  let (name, rest) ← name? s
  match rest with
  | '=' :: rest => some (name, Text.trimLeft rest)
  | _ =>
    if name = "export" then
      let (name, rest) ← name? rest
      match rest with
      | '=' :: rest => some (name, Text.trimLeft rest)
      | _ => none
    else none

/-- The assignment of an entry, none for one without; fails if the entry cannot be read. -/
def assigned? (environment : Assignments) (text : List Char) : Option (Option (String × String)) :=
  let s := Text.trim text
  match s with
  | [] | '#' :: _ => some none
  | _ => do
    let (name, text) ← assignment? s
    match text with
    | '#' :: _ => some (some (name, ""))
    | _ =>
      let value ← value? environment .bare text
      some (some (name, String.ofList value))

/-- Adds the variables of entries to an environment. A reference finds the environment first, and
then what the entries before assigned. -/
def load : List (Option (List Char)) → (stored environment : Assignments) → Assignments
  | [], _, environment => environment
  | text :: rest, stored, environment =>
    match text.bind (assigned? (environment ++ stored)) with
    | none => environment
    | some none => load rest stored environment
    | some (some (name, value)) =>
      let environment' :=
        if (Entries.find? name environment).isSome then environment
        else environment ++ [(name, value)]
      load rest ((name, value) :: stored) environment'

/-- The environment with the variables of a file's text added. A byte order mark at the start does
not count. -/
def addTo (environment : Assignments) (text : String) : Assignments :=
  let chars := match text.toList with
    | '\ufeff' :: rest => rest
    | chars => chars
  load (entries (linesOf chars) [] .plain) [] environment

end MessageBroker.Demo.Variables
