import MessageBroker.Time.Instant
import MessageBroker.Numeric.Decimal
import MessageBroker.Text.Blank

/-!
# Written instants

Instants are written in UTC as `2024-01-01T00:00:00.250Z`, with the fewest of 0, 3, 6 or 9 digits
of a second that are exact, and a sign before years outside 0000 to 9999. A leap second has the
number after that of the second which it follows: 60 behind second 59, and elsewhere that of the
next second. The reader is more lenient: blanks around the separators, `t` or a blank for `T`, a
numeric offset or `UTC` for `Z`, signed years of any length and digits past the nanosecond.

Main definitions: `Instant.written`, `Instant.read`, and `TimestampFault`, the ways in which a text
fails to be an instant.
-/

namespace MessageBroker

/-! ## Writing -/

namespace Instant

/-- Four digits, or a sign and at least four digits for a year that four digits cannot write. -/
def writtenYear (year : Int) : List Char :=
  if 0 ≤ year ∧ year ≤ 9999 then Decimal.fixed 4 year.toNat
  else (if year < 0 then '-' else '+') :: Decimal.padded 4 year.natAbs

/-- The digits after the second, with their point: the fewest of 0, 3, 6 and 9 that are exact. -/
def writtenFraction (nanos : Nat) : List Char :=
  if nanos = 0 then []
  else if nanos % 1000000 = 0 then '.' :: Decimal.fixed 3 (nanos / 1000000)
  else if nanos % 1000 = 0 then '.' :: Decimal.fixed 6 (nanos / 1000)
  else '.' :: Decimal.fixed 9 nanos

/-- The instant in UTC. -/
def written (t : Instant) : List Char :=
  let date := Date.ofDayNumber (t.seconds / 86400)
  let second := (t.seconds % 86400).toNat
  let leap := if t.InLeapSecond then 1 else 0
  writtenYear date.year ++ '-' :: Decimal.fixed 2 date.month ++ '-' :: Decimal.fixed 2 date.day
    ++ 'T' :: Decimal.fixed 2 (second / 3600) ++ ':' :: Decimal.fixed 2 (second / 60 % 60)
    ++ ':' :: Decimal.fixed 2 (second % 60 + leap)
    ++ writtenFraction (t.fraction - leap * 1000000000) ++ ['Z']

/-- The instant in UTC, as a string. -/
def toText (t : Instant) : String := String.ofList t.written

end Instant

/-! ## Faults -/

/-- Why a text is no instant. -/
inductive TimestampFault where
  | tooShort
  | invalid
  | outOfRange
  | trailing
  | impossible
deriving DecidableEq, Repr

/-- The wording of a fault. -/
def TimestampFault.message : TimestampFault → String
  | .tooShort => "premature end of input"
  | .invalid => "input contains invalid characters"
  | .outOfRange => "input is out of range"
  | .trailing => "trailing input"
  | .impossible => "no possible date and time matching input"

/-! ## Reading -/

namespace Instant

open Text (trimLeft isBlank)

/-- A reader takes characters from the front of a text. -/
abbrev Reader := StateT (List Char) (Except TimestampFault)

/-- Drops leading blanks. -/
def skipBlanks : Reader Unit := modify trimLeft

/-- At least one digit, and at most `width` of them if a width is given. -/
def readNumber (width : Option Nat) : Reader Nat := fun s =>
  let window := match width with
    | none => s
    | some n => s.take n
  let digits := window.takeWhile Char.isDigit
  if s.isEmpty then .error .tooShort
  else if digits.isEmpty then .error .invalid
  else if 9223372036854775807 < Decimal.read digits then .error .outOfRange
  else .ok (Decimal.read digits, s.drop digits.length)

/-- A number of at most two digits within bounds, after optional blanks. -/
def readField (least greatest : Nat) : Reader Nat := do
  skipBlanks
  let n ← readNumber (some 2)
  if least ≤ n ∧ n ≤ greatest then return n else throw .outOfRange

/-- An optional sign: its factor, if the text begins with one. -/
def readSign : Reader (Option Int) := fun s =>
  match s with
  | '-' :: rest => .ok (some (-1), rest)
  | '+' :: rest => .ok (some 1, rest)
  | _ => .ok (none, s)

/-- A year: four digits at most without a sign, any number of digits with one. -/
def readYear : Reader Int := do
  skipBlanks
  let sign ← readSign
  let n ← readNumber (if sign.isSome then none else some 4)
  let year := sign.getD 1 * (n : Int)
  if -2147483648 ≤ year ∧ year ≤ 2147483647 then return year else throw .outOfRange

/-- One character of those allowed. -/
def readMark (allowed : List Char) : Reader Unit := fun s =>
  match s with
  | [] => .error .tooShort
  | c :: rest => if c ∈ allowed then .ok ((), rest) else .error .invalid

/-- A separator, after optional blanks. -/
def readSeparator (mark : Char) : Reader Unit := do
  skipBlanks
  readMark [mark]

/-- Nanoseconds after an optional point; digits past the ninth are skipped. -/
def readFraction : Reader Nat := do
  match ← get with
  | '.' :: digits =>
    set digits
    let n ← readNumber (some 9)
    let rest ← get
    set (rest.dropWhile Char.isDigit)
    return n * Nat.pow 10 (9 - (digits.length - rest.length))
  | _ => return 0

/-- Two digits exactly. -/
def readPair : Reader Nat := fun s =>
  match s with
  | [] => .error .tooShort
  | [c] => .error (if c.toNat < 128 then .tooShort else .invalid)
  | a :: b :: rest =>
    if a.isDigit ∧ b.isDigit then .ok (Decimal.read [a, b], rest) else .error .invalid

/-- Hours, any colons and blanks, and minutes, in seconds. -/
def readHoursMinutes : Reader Nat := do
  let hours ← readPair
  modify (fun s => s.dropWhile (fun c => c = ':' || isBlank c))
  let minutes ← readPair
  if 59 < minutes then throw .outOfRange else return hours * 3600 + minutes * 60

/-- Seconds east of UTC: `Z`, `UTC`, or a sign with hours and minutes. -/
def readOffset : Reader Int := do
  match ← get with
  | [] => throw .tooShort
  | 'Z' :: rest | 'z' :: rest => set rest; return 0
  | '+' :: rest => set rest; return (← readHoursMinutes : Nat)
  | '-' :: rest | '\u2212' :: rest => set rest; return -(← readHoursMinutes : Nat)
  | a :: b :: c :: rest =>
    if a.toUpper = 'U' ∧ b.toUpper = 'T' ∧ c.toUpper = 'C' then
      set rest
      return 0
    else throw .invalid
  | _ => throw .invalid

/-- The instant of a local date and time at an offset from UTC. A second 60 is the leap second after
second 59. -/
def ofFields (date : Date) (hour minute second fraction : Nat) (offset : Int) :
    Except TimestampFault Instant :=
  if ¬ date.Valid ∨ date.year < -262143 ∨ 262142 < date.year ∨ offset.natAbs ≥ 86400 then
    .error .outOfRange
  else
    let leap := if second = 60 then 1 else 0
    let seconds := date.dayNumber * 86400 + (hour * 3600 + minute * 60 + (second - leap) : Nat)
    match ofParts? (seconds - offset) (fraction + leap * 1000000000) with
    | some t => .ok t
    | none => .error .impossible

/-- A date, a time and an offset, with nothing but blanks behind them. -/
def reader : Reader Instant := do
  let year ← readYear
  readSeparator '-'
  let month ← readField 1 12
  readSeparator '-'
  let day ← readField 1 31
  readMark ['T', 't', ' ']
  let hour ← readField 0 23
  readSeparator ':'
  let minute ← readField 0 59
  readSeparator ':'
  let second ← readField 0 60
  let fraction ← readFraction
  skipBlanks
  let offset ← readOffset
  skipBlanks
  if (← get).isEmpty then ofFields ⟨year, month, day⟩ hour minute second fraction offset
  else throw .trailing

/-- Reads an instant, all of the text. -/
def read (s : List Char) : Except TimestampFault Instant := (reader.run s).map Prod.fst

/-- Reads an instant from a string. -/
def ofText (s : String) : Except TimestampFault Instant := read s.toList

end Instant

end MessageBroker
