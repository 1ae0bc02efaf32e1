import MessageBroker.Ident

/-!
# Identifiers that were generated and those to come

A generated identifier has been issued by a mint (`Mint.Issued`), or it is still to come
(`Mint.Pending`); a text is neither. Over time identifiers only go from the latter to the former.
Those that come next are listed by `Mint.upcoming`.
-/

namespace MessageBroker

namespace Mint

/-- The identifier is still to be generated. -/
def Pending (mint : Mint) : Ident → Prop
  | .text _ => False
  | .generated number => mint.issued ≤ number

instance (mint : Mint) : (i : Ident) → Decidable (mint.Pending i)
  | .text _ => inferInstanceAs (Decidable False)
  | .generated number => inferInstanceAs (Decidable (mint.issued ≤ number))

/-- What was issued stays issued. -/
theorem Issued.mono {mint mint' : Mint} {i : Ident} (h : mint.Issued i)
    (hle : mint.issued ≤ mint'.issued) : mint'.Issued i := by
  cases i with
  | text value => exact h
  | generated number => exact Nat.lt_of_lt_of_le h hle

/-- What is still to be generated was so before. -/
theorem Pending.of_le {mint mint' : Mint} {i : Ident} (h : mint'.Pending i)
    (hle : mint.issued ≤ mint'.issued) : mint.Pending i := by
  cases i with
  | text value => exact h
  | generated number => exact Nat.le_trans hle h

/-- What was issued is not to come. -/
theorem Issued.not_pending {mint : Mint} {i : Ident} (h : mint.Issued i) : ¬ mint.Pending i := by
  cases i with
  | text value => exact id
  | generated number => exact Nat.not_le_of_lt h

/-- The identifiers that are generated next, in order. -/
def upcoming (mint : Mint) (n : Nat) : List Ident :=
  (List.range' mint.issued n).map .generated

/-- Two more identifiers are the next one, the one after that, and those that follow. -/
theorem upcoming_add_two (mint : Mint) (n : Nat) :
    mint.upcoming (n + 2) = mint.next :: mint.advance.next :: mint.advance.advance.upcoming n := by
  unfold upcoming next advance
  rw [List.range'_succ, List.range'_succ]
  rfl

/-- The next identifiers are some of them, and those that follow these. -/
theorem upcoming_add (mint : Mint) (n k : Nat) :
    mint.upcoming (n + k) = mint.upcoming n ++ (⟨mint.issued + n⟩ : Mint).upcoming k := by
  unfold upcoming
  rw [← List.map_append, List.range'_append_1]

/-- Identifiers generated in turn differ. -/
theorem nodup_upcoming (mint : Mint) (n : Nat) : (mint.upcoming n).Nodup := by
  have hrange : (List.range' mint.issued n).Nodup := List.nodup_range' 1
  unfold upcoming
  exact List.Pairwise.map Ident.generated (fun _ _ hne h => hne (Ident.generated.inj h)) hrange

/-- The upcoming identifiers are pending now, and no longer when they have been generated. -/
theorem mem_upcoming_iff {mint : Mint} {n : Nat} {i : Ident} :
    i ∈ mint.upcoming n ↔ mint.Pending i ∧ ¬ (⟨mint.issued + n⟩ : Mint).Pending i := by
  unfold upcoming Pending
  cases i with
  | text value => simp
  | generated number => simp [List.mem_range'_1]

end Mint

end MessageBroker
