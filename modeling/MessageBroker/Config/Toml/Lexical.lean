import MessageBroker.Numeric.Decimal

/-!
# Lexical elements of TOML

Blanks, comments, line ends, names and strings. A parser takes characters from the front of a text
or fails; what is wrong with a text is not reported.
-/

namespace MessageBroker.Config.Toml

/-- A parser takes characters from the front of a text, or fails. -/
abbrev Parser := StateT (List Char) Option

namespace Parser

/-- Fails. -/
def fail {α : Type} : Parser α := fun _ => none

/-- The next character, left unread. -/
def peek : Parser (Option Char) := fun s => some (s.head?, s)

/-- The unread characters. -/
def unread : Parser (List Char) := get

/-- Passes over characters. -/
def pass (n : Nat) : Parser Unit := modify (List.drop n)

/-- Takes the next character. -/
def take : Parser Char := fun s =>
  match s with
  | [] => none
  | c :: rest => some (c, rest)

/-- Takes the longest run of characters that satisfy a test. -/
def run (test : Char → Bool) : Parser (List Char) := fun s =>
  some (s.takeWhile test, s.dropWhile test)

/-- Takes a given text if it comes next. -/
def skip? (text : List Char) : Parser Bool := fun s =>
  if text.isPrefixOf s then some (true, s.drop text.length) else some (false, s)

/-- Takes a given text, which must come next. -/
def expect (text : List Char) : Parser Unit := do
  if !(← skip? text) then fail

/-! ## Blanks, comments and lines -/

/-- Passes over spaces and tabs. -/
def blanks : Parser Unit := do
  let _ ← run (fun c => c = ' ' || c = '\t')

/-- A character that comments and literal strings may hold. -/
def isPlain (c : Char) : Bool := c = '\t' || (0x20 ≤ c.toNat && c.toNat ≠ 0x7F)

/-- Passes over a comment, if one comes next. -/
def comment : Parser Unit := do
  if (← peek) = some '#' then
    let _ ← run isPlain

/-- Takes a line end, if one comes next. -/
def lineEnd? : Parser Bool := do
  if ← skip? ['\r', '\n'] then return true else skip? ['\n']

/-- The rest of a line: blanks, a comment, and the line end or the end of the text. -/
def restOfLine : Parser Unit := do
  blanks
  comment
  if !(← lineEnd?) then
    if (← peek).isSome then fail

/-- Passes over blanks, comments and line ends. -/
def gap : (fuel : Nat) → Parser Unit
  | 0 => return ()
  | fuel + 1 => do
    blanks
    comment
    if ← lineEnd? then gap fuel

/-! ## Strings -/

/-- The value of a hexadecimal digit. -/
def hexDigit? (c : Char) : Option Nat :=
  if c.isDigit then some (c.toNat - 48)
  else if 'a' ≤ c ∧ c ≤ 'f' then some (c.toNat - 87)
  else if 'A' ≤ c ∧ c ≤ 'F' then some (c.toNat - 55)
  else none

/-- The character of a number of hexadecimal digits; surrogates are no characters. -/
def hexChar (count : Nat) : Parser Char := fun s =>
  let digits := s.take count
  if digits.length < count then none
  else
    match digits.foldlM (fun n c => (hexDigit? c).map (n * 16 + ·)) 0 with
    | some n => if n.isValidChar then some (Char.ofNat n, s.drop count) else none
    | none => none

/-- The character of an escape, behind its backslash. -/
def escape : Parser Char := do
  match ← take with
  | 'b' => return '\x08'
  | 't' => return '\t'
  | 'n' => return '\n'
  | 'f' => return '\x0c'
  | 'r' => return '\r'
  | 'e' => return '\x1b'
  | '"' => return '"'
  | '\\' => return '\\'
  | 'x' => hexChar 2
  | 'u' => hexChar 4
  | 'U' => hexChar 8
  | _ => fail

/-- The rest of a one-line string with escapes. -/
def basicRest : (fuel : Nat) → List Char → Parser (List Char)
  | 0, _ => fail
  | fuel + 1, done => do
    match ← take with
    | '"' => return done.reverse
    | '\\' => basicRest fuel ((← escape) :: done)
    | c => if isPlain c then basicRest fuel (c :: done) else fail

/-- The rest of a one-line string without escapes. -/
def literalRest : Parser (List Char) := do
  let text ← run (fun c => isPlain c && c ≠ '\'')
  expect ['\'']
  return text

/-- A backslash at the end of a line, behind which blanks and line ends do not count. -/
def continues : Parser Bool := do
  let s ← unread
  let rest := s.dropWhile (fun c => c = ' ' || c = '\t')
  if ['\n'].isPrefixOf rest || ['\r', '\n'].isPrefixOf rest then
    let _ ← run (fun c => c = ' ' || c = '\t' || c = '\n' || c = '\r')
    return true
  else return false

/-- The rest of a string over several lines, up to three of its quotes; two more may stand before
the closing ones. -/
def multilineRest (quote : Char) : (fuel : Nat) → List Char → Parser (List Char)
  | 0, _ => fail
  | fuel + 1, done => do
    let quotes := ((← unread).takeWhile (· = quote)).length
    if 3 ≤ quotes then
      let inside := min (quotes - 3) 2
      pass (inside + 3)
      return (List.replicate inside quote ++ done).reverse
    else if ← lineEnd? then multilineRest quote fuel ('\n' :: done)
    else
      let c ← take
      if c = '\\' ∧ quote = '"' then
        if ← continues then multilineRest quote fuel done
        else multilineRest quote fuel ((← escape) :: done)
      else if isPlain c then multilineRest quote fuel (c :: done)
      else fail

/-- A string over several lines, behind its opening quotes; a line end right behind them does not
count. -/
def multiline (quote : Char) : Parser (List Char) := do
  let _ ← lineEnd?
  multilineRest quote ((← unread).length + 1) []

/-- A string of one line, behind its opening quote. -/
def oneLine (quote : Char) : Parser (List Char) := do
  if quote = '"' then basicRest ((← unread).length + 1) [] else literalRest

/-- A string of any kind. -/
def string : Parser String := do
  let quote ← take
  if quote ≠ '"' ∧ quote ≠ '\'' then fail
  if ← skip? [quote, quote] then String.ofList <$> multiline quote
  else String.ofList <$> oneLine quote

/-! ## Names -/

/-- A character of a bare name. -/
def isBare (c : Char) : Bool := c.isAlphanum || c = '_' || c = '-'

/-- A bare or a quoted name. -/
def name : Parser String := do
  match ← peek with
  | some '"' =>
    pass 1
    String.ofList <$> oneLine '"'
  | some '\'' =>
    pass 1
    String.ofList <$> oneLine '\''
  | _ =>
    let bare ← run isBare
    if bare.isEmpty then fail else return String.ofList bare

/-- Names joined by points, at most `fuel` of them. -/
def names : (fuel : Nat) → Parser (List String)
  | 0 => fail
  | fuel + 1 => do
    blanks
    let head ← name
    blanks
    if ← skip? ['.'] then return head :: (← names fuel)
    else return [head]

/-- A key: names joined by points, with blanks around them. -/
def key : Parser (List String) := do
  names ((← unread).length + 1)

end Parser

end MessageBroker.Config.Toml
