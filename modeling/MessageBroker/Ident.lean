/-!
# Identifiers

Message ids, delivery ids and receipt handles are identifiers. A caller gives one as text; the
broker generates one by number. Generated identifiers with different numbers differ, and none equals
a text, which is what random identifiers of 122 bits stand for. A `Mint` hands out generated
identifiers in turn.
-/

namespace MessageBroker

/-- An identifier given as text, or generated. -/
inductive Ident where
  | text (value : String)
  | generated (number : Nat)
deriving DecidableEq, Inhabited

namespace Ident

/-- The text without characters, which stands for a missing identifier. -/
def blank : Ident := .text ""

/-- The identifier as text, given the texts of the generated ones. -/
def spelled (spell : Nat → String) : Ident → String
  | .text value => value
  | .generated number => spell number

end Ident

/-- The identifiers generated so far are those with a number below `issued`. -/
structure Mint where
  issued : Nat := 0
deriving DecidableEq, Inhabited

namespace Mint

/-- The identifier that is generated next. -/
def next (mint : Mint) : Ident := .generated mint.issued

/-- The mint after one more identifier. -/
def advance (mint : Mint) : Mint := ⟨mint.issued + 1⟩

/-- The identifier has been generated. -/
def Issued (mint : Mint) : Ident → Prop
  | .text _ => False
  | .generated number => number < mint.issued

/-- The next identifier is new. -/
theorem not_issued_next (mint : Mint) : ¬ mint.Issued mint.next := Nat.lt_irrefl _

/-- An advanced mint has issued the next identifier. -/
theorem issued_advance_next (mint : Mint) : mint.advance.Issued mint.next := Nat.lt_succ_self _

/-- What was issued stays issued. -/
theorem Issued.advance {mint : Mint} {i : Ident} (h : mint.Issued i) : mint.advance.Issued i := by
  cases i with
  | text value => exact h
  | generated number => exact Nat.lt_succ_of_lt h

end Mint

end MessageBroker
