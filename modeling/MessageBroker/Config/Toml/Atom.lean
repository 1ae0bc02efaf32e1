import MessageBroker.Config.Toml.Lexical
import MessageBroker.Config.Value
import MessageBroker.Time.Calendar

/-!
# Unquoted values of TOML

Numbers, booleans and points in time stand without quotes. Such a value is taken as one word, up to
the next character that cannot belong to it, and then read as a whole. A point in time becomes its
text in normal form, since no setting is one.
-/

namespace MessageBroker.Config.Toml

/-- A character of an unquoted value; a blank may stand between a date and a time. -/
def isAtomChar (c : Char) : Bool :=
  c.isAlphanum || c = '_' || c = '-' || c = '+' || c = '.' || c = ':'

/-! ## Numbers -/

/-- Digits of a base with single underscores between them; the underscores are dropped. -/
def ungroup? (isDigit : Char → Bool) : List Char → Option (List Char)
  | [] => none
  | [c] => if isDigit c then some [c] else none
  | c :: '_' :: rest => if isDigit c then (ungroup? isDigit rest).map (c :: ·) else none
  | c :: rest => if isDigit c then (ungroup? isDigit rest).map (c :: ·) else none

/-- An integer in a base behind its mark. -/
def inBase? (base : Nat) (isDigit : Char → Bool) (s : List Char) : Option Nat :=
  (ungroup? isDigit s).bind fun digits =>
    digits.foldlM (fun n c => (Parser.hexDigit? c).map (n * base + ·)) 0

/-- A hexadecimal digit. -/
def isHexDigit (c : Char) : Bool := (Parser.hexDigit? c).isSome

/-- Decimal digits with underscores, without leading zeros. -/
def wholePart? (s : List Char) : Option (List Char) :=
  (ungroup? Char.isDigit s).bind fun digits =>
    if 1 < digits.length ∧ digits.head? = some '0' then none else some digits

/-- The magnitude of an integer. -/
def magnitude? (s : List Char) : Option Nat := (wholePart? s).map Decimal.read

/-- Splits off an optional sign. -/
def splitSign : List Char → Option Bool × List Char
  | '-' :: rest => (some true, rest)
  | '+' :: rest => (some false, rest)
  | s => (none, s)

/-- An integer, if 64 bits hold it. Only decimal integers have a sign. -/
def integer? (s : List Char) : Option Int :=
  let found : Option Int := match splitSign s with
    | (none, '0' :: 'x' :: rest) => (inBase? 16 isHexDigit rest).map Int.ofNat
    | (none, '0' :: 'o' :: rest) => (inBase? 8 (fun c => '0' ≤ c && c ≤ '7') rest).map Int.ofNat
    | (none, '0' :: 'b' :: rest) => (inBase? 2 (fun c => c = '0' || c = '1') rest).map Int.ofNat
    | (sign, rest) =>
      (magnitude? rest).map fun n => if sign = some true then -(n : Int) else n
  found.filter fun i => -9223372036854775808 ≤ i && i ≤ 9223372036854775807

/-- The exponent of a real, behind its mark. -/
def exponent? (s : List Char) : Option Int :=
  let (sign, rest) := splitSign s
  (ungroup? Char.isDigit rest).map fun digits =>
    if sign = some true then -(Decimal.read digits : Int) else Decimal.read digits

/-- A real without its sign: a point with digits on both sides, an exponent, or both; or a word. A
real that is too large for a double is refused. -/
def unsignedReal? (s : List Char) : Option Binary64 :=
  if s = "inf".toList then some ⟨0x7ff0000000000000⟩
  else if s = "nan".toList then some ⟨0x7ff8000000000000⟩
  else
    let isMark (c : Char) : Bool := c = 'e' || c = 'E'
    let mantissa := s.takeWhile (!isMark ·)
    let whole := mantissa.takeWhile (· ≠ '.')
    let point := mantissa.drop whole.length
    let mark := s.drop mantissa.length
    let fraction? : Option (List Char) := match point with
      | [] => some []
      | _ :: digits => ungroup? Char.isDigit digits
    let exponent? : Option Int := match mark with
      | [] => some 0
      | _ :: rest => exponent? rest
    if point.isEmpty ∧ mark.isEmpty then none
    else
      match wholePart? whole, fraction?, exponent? with
      | some digits, some fraction, some e =>
        some (Binary64.ofDecimal (Decimal.read (digits ++ fraction)) (e - fraction.length))
          |>.filter (·.isFinite)
      | _, _, _ => none

/-- A real. -/
def real? (s : List Char) : Option Binary64 :=
  let (sign, rest) := splitSign s
  (unsignedReal? rest).map fun x => if sign = some true then x.negate else x

/-! ## Points in time -/

/-- A number of two digits within bounds, and the rest. -/
def pair? (least greatest : Nat) : List Char → Option (Nat × List Char)
  | a :: b :: rest =>
    if a.isDigit && b.isDigit then
      let n := Decimal.read [a, b]
      if least ≤ n ∧ n ≤ greatest then some (n, rest) else none
    else none
  | _ => none

/-- A date in normal form, and the rest. -/
def date? (s : List Char) : Option (List Char × List Char) := do
  let year := s.take 4
  if year.length < 4 ∨ ¬ year.all Char.isDigit then none
  match s.drop 4 with
  | '-' :: rest =>
    let (month, rest) ← pair? 1 12 rest
    match rest with
    | '-' :: rest =>
      let (day, rest) ← pair? 1 31 rest
      if (⟨Decimal.read year, month, day⟩ : Date).Valid then some (s.take 10, rest) else none
    | _ => none
  | _ => none

/-- Decimals of a second in normal form: nine at most, without zeros at the end. -/
def decimals (digits : List Char) : List Char :=
  let kept := ((digits.take 9).reverse.dropWhile (· = '0')).reverse
  '.' :: (if kept.isEmpty then ['0'] else kept)

/-- A time of day in normal form, and the rest. Seconds may be missing. -/
def time? (s : List Char) : Option (List Char × List Char) := do
  let (_, rest) ← pair? 0 23 s
  match rest with
  | ':' :: rest =>
    let (_, rest) ← pair? 0 59 rest
    match rest with
    | ':' :: rest =>
      let (_, rest) ← pair? 0 60 rest
      match rest with
      | '.' :: rest =>
        let digits := rest.takeWhile Char.isDigit
        if digits.isEmpty then none
        else some (s.take 8 ++ decimals digits, rest.drop digits.length)
      | _ => some (s.take 8, rest)
    | _ => some (s.take 5, rest)
  | _ => none

/-- An offset from UTC in normal form. -/
def offset? (s : List Char) : Option (List Char) :=
  match s with
  | [] => some []
  | ['Z'] | ['z'] => some ['Z']
  | sign :: rest =>
    if sign = '+' ∨ sign = '-' then do
      let (_, rest) ← pair? 0 23 rest
      match rest with
      | ':' :: rest =>
        let (_, rest) ← pair? 0 59 rest
        if rest.isEmpty then some s else none
      | _ => none
    else none

/-- A time with an optional offset, in normal form. -/
def timeWithOffset? (s : List Char) : Option (List Char) := do
  let (time, rest) ← time? s
  let offset ← offset? rest
  return time ++ offset

/-- A date, a time of day, or both, in normal form. -/
def moment? (s : List Char) : Option (List Char) :=
  match date? s with
  | some (date, []) => some date
  | some (date, mark :: rest) =>
    if mark = 'T' ∨ mark = 't' ∨ mark = ' ' then
      (timeWithOffset? rest).map fun time => date ++ 'T' :: time
    else none
  | none =>
    match time? s with
    | some (time, []) => some time
    | _ => none

/-! ## Words -/

/-- The value of an unquoted word. -/
def atom? (s : List Char) : Option Scalar :=
  if s = "true".toList then some (.boolean true)
  else if s = "false".toList then some (.boolean false)
  else
    ((integer? s).map Scalar.integer).orElse fun _ =>
      ((real? s).map Scalar.real).orElse fun _ =>
        (moment? s).map fun text => .text (String.ofList text)

namespace Parser

/-- An unquoted value. A date may go on with a time behind one blank. -/
def atom : Parser Scalar := do
  let word ← run isAtomChar
  let rest ← unread
  let isDate := match date? word with
    | some (_, []) => true
    | _ => false
  let next := (rest.drop 1).takeWhile isAtomChar
  let isTimed := isDate && rest.head? = some ' ' && (next.head?.map Char.isDigit).getD false
  let whole := if isTimed then word ++ ' ' :: next else word
  if isTimed then pass (1 + next.length)
  match atom? whole with
  | some value => return value
  | none => fail

end Parser

end MessageBroker.Config.Toml
