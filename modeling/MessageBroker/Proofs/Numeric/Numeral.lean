import MessageBroker.Numeric.Numeral
import MessageBroker.Proofs.Numeric.Decimal

/-!
# Integers written by people

`Numeral.written?` is the integer that a text writes, whatever its size: digits behind an optional
sign. The reader for 64 bits gives that integer if they hold it (`integer?_eq`), and otherwise the
text is still one of a real, the one nearest to the integer's magnitude, with its sign
(`real?_of_written`).
-/

namespace MessageBroker.Numeral

/-- An integer that 64 bits hold with its sign. -/
def IsSigned (i : Int) : Prop := -9223372036854775808 ≤ i ∧ i ≤ 9223372036854775807

instance (i : Int) : Decidable (IsSigned i) := inferInstanceAs (Decidable (_ ∧ _))

/-- The integer that a text writes: digits, and at least one, behind an optional sign. -/
def written? (s : List Char) : Option Int :=
  let (negative, digits) := splitSign s
  (Decimal.read? digits).map fun n : Nat => if negative then -(n : Int) else n

/-- A text that writes an integer, in parts. -/
theorem exists_of_written {s : List Char} {i : Int} (h : written? s = some i) :
    ((splitSign s).2 ≠ [] ∧ ∀ c ∈ (splitSign s).2, c.isDigit = true) ∧
      i = if (splitSign s).1 then -(Decimal.read (splitSign s).2 : Int)
        else Decimal.read (splitSign s).2 := by
  unfold written? at h
  generalize splitSign s = parts at h ⊢
  obtain ⟨negative, digits⟩ := parts
  obtain ⟨n, hn, rfl⟩ := Option.map_eq_some_iff.mp h
  obtain ⟨hnumeral, hread⟩ := Option.ite_none_right_eq_some.mp hn
  cases hread
  obtain ⟨hsome, hdigits⟩ := Bool.and_eq_true_iff.mp hnumeral
  refine ⟨⟨fun hnil => ?_, fun c hc => List.all_eq_true.mp hdigits c hc⟩, rfl⟩
  obtain rfl : digits = [] := hnil
  cases hsome

/-- The integer of a text is the one that it writes, if 64 bits hold that. -/
theorem integer?_eq (s : List Char) : integer? s = (written? s).filter fun i => IsSigned i := by
  unfold integer? written?
  generalize splitSign s = parts
  obtain ⟨negative, digits⟩ := parts
  dsimp only
  cases Decimal.read? digits with
  | none => rfl
  | some n =>
    rw [Option.map_some, Option.filter_some, Option.bind_some]
    generalize (if negative then -(n : Int) else n) = i
    by_cases h : -9223372036854775808 ≤ i ∧ i ≤ 9223372036854775807
    · have hsigned : IsSigned i := h
      rw [if_pos h, decide_eq_true hsigned, if_pos rfl]
    · have hsigned : ¬ IsSigned i := h
      rw [if_neg h, decide_eq_false hsigned, if_neg Bool.false_ne_true]

/-- What is left behind a sign is part of the text. -/
theorem mem_of_mem_splitSign {s : List Char} {c : Char} (h : c ∈ (splitSign s).2) : c ∈ s := by
  unfold splitSign at h
  split at h
  · exact List.mem_cons_of_mem _ h
  · exact List.mem_cons_of_mem _ h
  · exact h

/-- A text that writes an integer has a digit. -/
theorem exists_digit_of_written {s : List Char} {i : Int} (h : written? s = some i) :
    ∃ c ∈ s, c.isDigit = true := by
  obtain ⟨⟨hne, hall⟩, -⟩ := exists_of_written h
  obtain ⟨c, rest, hdigits⟩ := List.exists_cons_of_ne_nil hne
  have hmem : c ∈ (splitSign s).2 := by
    rw [hdigits]
    exact List.mem_cons_self
  exact ⟨c, mem_of_mem_splitSign hmem, hall c hmem⟩

/-- A text with a digit is no word of letters, in whichever case these are. -/
theorem map_toLower_ne {s word : List Char} (hs : ∃ c ∈ s, c.isDigit = true)
    (hword : word.any Char.isDigit = false) : s.map Char.toLower ≠ word := by
  obtain ⟨c, hmem, hdigit⟩ := hs
  have hlower : c.toLower = c := by
    have hbounds := Decimal.toNat_of_isDigit hdigit
    have hupper : ¬ (65 ≤ c.toNat ∧ c.toNat ≤ 90) := by omega
    unfold Char.toLower
    exact dif_neg hupper
  intro h
  have hin : c ∈ word := h ▸ List.mem_map.mpr ⟨c, hmem, hlower⟩
  exact List.any_eq_false.mp hword c hin hdigit

/-- A text that writes an integer is no word of letters. -/
theorem toLower_ne_of_written {text word : String} {i : Int} (h : written? text.toList = some i)
    (hword : word.toList.any Char.isDigit = false) : text.toLower ≠ word := by
  intro he
  have hlower : text.toList.map Char.toLower = word.toList := by
    rw [← he]
    exact String.toList_map.symm
  exact map_toLower_ne (exists_digit_of_written h) hword hlower

/-- Digits have no sign before them. -/
theorem splitSign_of_read {s : List Char} {n : Nat} (h : Decimal.read? s = some n) :
    splitSign s = (false, s) := by
  obtain ⟨hnumeral, -⟩ := Option.ite_none_right_eq_some.mp h
  have hdigits := List.all_eq_true.mp (Bool.and_eq_true_iff.mp hnumeral).2
  unfold splitSign
  split
  · exact absurd (hdigits '-' List.mem_cons_self) (by decide)
  · exact absurd (hdigits '+' List.mem_cons_self) (by decide)
  · rfl

/-- A natural number of a text is the integer that the text writes. -/
theorem natural?_of_written {s : List Char} {i : Int} {n : Nat} (h : written? s = some i)
    (hn : natural? s = some n) : (n : Int) = i := by
  unfold natural? at hn
  split at hn
  · rename_i digits
    obtain ⟨m, hm, hn⟩ := Option.bind_eq_some_iff.mp hn
    obtain ⟨-, hn⟩ := Option.ite_none_right_eq_some.mp hn
    change (Decimal.read? digits).map _ = some i at h
    rw [hm] at h
    cases h
    cases hn
    rfl
  · obtain ⟨m, hm, hn⟩ := Option.bind_eq_some_iff.mp hn
    obtain ⟨-, hn⟩ := Option.ite_none_right_eq_some.mp hn
    unfold written? at h
    rw [splitSign_of_read hm] at h
    change (Decimal.read? s).map _ = some i at h
    rw [hm] at h
    cases h
    cases hn
    rfl

/-- Digits alone are the magnitude of the number that they write. -/
theorem magnitude?_digits {digits : List Char} (hne : digits ≠ [])
    (hall : ∀ c ∈ digits, c.isDigit = true) :
    magnitude? digits = some (Binary64.ofDecimal (Decimal.read digits) 0) := by
  have htake : digits.takeWhile Char.isDigit = digits := by
    have hend : ∀ c ∈ ([] : List Char).head?, c.isDigit = false := fun _ h => by cases h
    have hfront := Decimal.takeWhile_digits hall hend
    rwa [List.append_nil] at hfront
  obtain ⟨c, rest, hdigits⟩ := List.exists_cons_of_ne_nil hne
  have hhas : ∃ c ∈ digits, c.isDigit = true := by
    have hmem : c ∈ digits := hdigits ▸ List.mem_cons_self
    exact ⟨c, hmem, hall c hmem⟩
  have hempty : digits.isEmpty = false := List.isEmpty_eq_false_iff.mpr hne
  unfold magnitude?
  dsimp only
  rw [if_neg, if_neg (map_toLower_ne hhas rfl), htake, List.drop_length]
  · rw [if_neg (by simp [hempty]), List.append_nil]
    rfl
  · rintro (h | h)
    · exact map_toLower_ne hhas rfl h
    · exact map_toLower_ne hhas rfl h

/-- A text that writes an integer is the text of a real, too. -/
theorem real?_of_written {s : List Char} {i : Int} (h : written? s = some i) :
    real? s = some (if (splitSign s).1 then (Binary64.ofDecimal i.natAbs 0).negate
      else Binary64.ofDecimal i.natAbs 0) := by
  obtain ⟨⟨hne, hall⟩, hi⟩ := exists_of_written h
  have habs : i.natAbs = Decimal.read (splitSign s).2 := by
    rw [hi]
    split <;> omega
  unfold real?
  dsimp only
  rw [magnitude?_digits hne hall, habs]
  rfl

/-- The double nearest to an integer. -/
def nearest (i : Int) : Binary64 :=
  if i < 0 then (Binary64.ofDecimal i.natAbs 0).negate else Binary64.ofDecimal i.natAbs 0

/-- A text that writes an integer other than zero is the text of the real nearest to it. -/
theorem real?_eq_nearest {s : List Char} {i : Int} (h : written? s = some i) (hi : i ≠ 0) :
    real? s = some (nearest i) := by
  obtain ⟨-, hparts⟩ := exists_of_written h
  have hsign : (splitSign s).1 = true ↔ i < 0 := by
    cases hminus : (splitSign s).1 with
    | true =>
      rw [hminus, if_pos rfl] at hparts
      simp only [true_iff]
      omega
    | false =>
      rw [hminus, if_neg Bool.false_ne_true] at hparts
      simp only [Bool.false_eq_true, false_iff]
      omega
  rw [real?_of_written h]
  unfold nearest
  by_cases hneg : i < 0
  · rw [if_pos (hsign.mpr hneg), if_pos hneg]
  · rw [if_neg (mt hsign.mp hneg), if_neg hneg]

end MessageBroker.Numeral
