import MessageBroker.Text.Hidden

/-!
# Quoted text

Messages quote a text between double quotes. A quote and a backslash follow a backslash, the usual
control characters have letters, and characters without a picture are written by number, as
`\u{feff}`.
-/

namespace MessageBroker.Text

/-- The number of a character in lower-case hexadecimal, between braces. -/
def numbered (c : Char) : List Char :=
  '\\' :: 'u' :: '\x7b' :: Nat.toDigits 16 c.toNat ++ ['\x7d']

/-- One character of a quoted text. -/
def quotedChar (c : Char) : List Char :=
  match c with
  | '"' => ['\\', '"']
  | '\\' => ['\\', '\\']
  | '\n' => ['\\', 'n']
  | '\r' => ['\\', 'r']
  | '\t' => ['\\', 't']
  | '\x00' => ['\\', '0']
  | _ => if isHidden c then numbered c else [c]

/-- The text between double quotes. -/
def quoted (s : String) : String :=
  String.ofList ('"' :: s.toList.flatMap quotedChar ++ ['"'])

end MessageBroker.Text
