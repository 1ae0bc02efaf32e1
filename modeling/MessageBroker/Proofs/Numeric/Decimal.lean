import MessageBroker.Numeric.Decimal

/-!
# Decimal text is read back

Every way of writing a number gives digits and nothing else, and `Decimal.read` gives the number
back: `read_natural` for as many digits as needed, `read_fixed` for a fixed number of them, modulo
the power of ten, and `read_padded` for both. So the digits at the front of a text are exactly the
written ones, provided that no digit follows them (`takeWhile_digits`).
-/

namespace MessageBroker.Decimal

/-! ## Digits -/

/-- A digit has its value. -/
theorem value_digit (d : Nat) : value (digit d) = d % 10 := by
  have hlt : d % 10 < 10 := Nat.mod_lt _ (by decide)
  have hall : ∀ k < 10, value (Char.ofNat (48 + k)) = k := by decide
  exact hall _ hlt

/-- A digit is a digit character. -/
theorem isDigit_digit (d : Nat) : (digit d).isDigit = true := by
  have hlt : d % 10 < 10 := Nat.mod_lt _ (by decide)
  have hall : ∀ k < 10, (Char.ofNat (48 + k)).isDigit = true := by decide
  exact hall _ hlt

/-- Where the digit characters stand among the others. -/
theorem toNat_of_isDigit {c : Char} (h : c.isDigit = true) : 48 ≤ c.toNat ∧ c.toNat ≤ 57 := by
  have hdigit := h
  simp only [Char.isDigit, Bool.and_eq_true, decide_eq_true_eq] at hdigit
  exact hdigit

/-- The digits at the front of a text, if no digit follows them. -/
theorem takeWhile_digits {digits rest : List Char} (hdigits : ∀ c ∈ digits, c.isDigit = true)
    (hrest : ∀ c ∈ rest.head?, c.isDigit = false) :
    (digits ++ rest).takeWhile Char.isDigit = digits := by
  have hstop : rest.takeWhile Char.isDigit = [] := by
    cases rest with
    | nil => rfl
    | cons c tail => rw [List.takeWhile_cons_of_neg (by simp [hrest c rfl])]
  rw [List.takeWhile_append_of_pos hdigits, hstop, List.append_nil]

/-- Digits are read one after the other. -/
theorem read_concat (digits : List Char) (c : Char) :
    read (digits ++ [c]) = read digits * 10 + value c := by
  unfold read
  rw [List.foldl_append]
  rfl

/-- A number has no more digits than those that it is read from. -/
theorem read_lt {digits : List Char} (h : ∀ c ∈ digits, c.isDigit = true) :
    read digits < Nat.pow 10 digits.length := by
  have hfrom : ∀ n, digits.foldl (fun n c => n * 10 + value c) n <
      (n + 1) * Nat.pow 10 digits.length := by
    induction digits with
    | nil => intro n; exact Nat.lt_of_lt_of_eq n.lt_succ_self (Nat.mul_one _).symm
    | cons c rest ih =>
      obtain ⟨hc, hrest⟩ := List.forall_mem_cons.mp h
      intro n
      have hvalue : n * 10 + value c + 1 ≤ (n + 1) * 10 := by
        have hdigit := toNat_of_isDigit hc
        unfold value
        omega
      calc rest.foldl _ (n * 10 + value c)
        _ < (n * 10 + value c + 1) * Nat.pow 10 rest.length := ih hrest _
        _ ≤ (n + 1) * 10 * Nat.pow 10 rest.length := Nat.mul_le_mul_right _ hvalue
        _ = (n + 1) * (Nat.pow 10 rest.length * 10) := by
          rw [Nat.mul_assoc, Nat.mul_comm 10]
  exact Nat.lt_of_lt_of_eq (hfrom 0) (Nat.one_mul _)

/-! ## As many digits as needed -/

/-- A number is written in digits. -/
theorem isDigit_of_mem_natural {n : Nat} {c : Char} (h : c ∈ natural n) : c.isDigit = true :=
  Nat.isDigit_of_mem_toDigits (by decide) (by decide) h

/-- A number has a digit. -/
theorem natural_ne_nil (n : Nat) : natural n ≠ [] := Nat.toDigits_ne_nil

/-- The digits of a number are read as that number. -/
theorem read_natural (n : Nat) : read (natural n) = n := by
  have hread : read (natural n) = Nat.ofDigitChars 10 (natural n) 0 := by
    rw [Nat.ofDigitChars_eq_foldl]
    unfold read
    congr 1
    funext m c
    rw [Nat.mul_comm]
    rfl
  rw [hread]
  exact Nat.ofDigitChars_ten_toDigits

/-- Only zero begins with a zero, and it has no other digit. -/
theorem natural_of_head_zero {n : Nat} {rest : List Char} (h : natural n = '0' :: rest) :
    n = 0 ∧ rest = [] := by
  unfold natural at h
  induction n using Nat.strongRecOn generalizing rest with
  | ind n ih =>
    rw [Nat.toDigits_eq_if (by decide)] at h
    split at h
    · obtain ⟨hdigit, hrest⟩ := List.cons.inj h
      exact ⟨Nat.digitChar_eq_zero.mp hdigit, hrest.symm⟩
    · rename_i hle
      -- The digits in front of the last one are those of a smaller number that is not zero.
      have hsmaller : n / 10 < n := by omega
      obtain ⟨c, front, hfront⟩ := List.exists_cons_of_ne_nil (natural_ne_nil (n / 10))
      unfold natural at hfront
      rw [hfront] at h
      obtain ⟨rfl, -⟩ := List.cons.inj h
      have hzero := (ih _ hsmaller hfront).1
      omega

/-! ## A fixed number of digits -/

/-- A fixed number of digits are digits. -/
theorem isDigit_of_mem_fixed {width n : Nat} {c : Char} (h : c ∈ fixed width n) :
    c.isDigit = true := by
  induction width generalizing n with
  | zero => exact absurd h List.not_mem_nil
  | succ width ih =>
    rcases List.mem_append.mp h with h | h
    · exact ih h
    · rw [List.mem_singleton.mp h]
      exact isDigit_digit n

/-- A fixed number of digits are read as the number, up to the power of ten. -/
theorem read_fixed (width n : Nat) : read (fixed width n) = n % Nat.pow 10 width := by
  induction width generalizing n with
  | zero =>
    show 0 = n % 1
    omega
  | succ width ih =>
    have hsplit : n % (10 * Nat.pow 10 width) = n % 10 + 10 * (n / 10 % Nat.pow 10 width) :=
      Nat.mod_mul
    have hpow : Nat.pow 10 (width + 1) = 10 * Nat.pow 10 width := Nat.mul_comm _ _
    show read (fixed width (n / 10) ++ [digit n]) = _
    rw [read_concat, ih, value_digit, hpow, hsplit]
    omega

/-- A number below the power of ten is read back from its digits. -/
theorem read_fixed_of_lt {width n : Nat} (h : n < Nat.pow 10 width) :
    read (fixed width n) = n := by
  rw [read_fixed, Nat.mod_eq_of_lt h]

/-! ## At least a number of digits -/

section Padded

variable (width n : Nat)

/-- A padded number is written in digits. -/
theorem isDigit_of_mem_padded {c : Char} (h : c ∈ padded width n) : c.isDigit = true := by
  unfold padded at h
  split at h
  · exact isDigit_of_mem_fixed h
  · exact isDigit_of_mem_natural h

/-- A padded number is read as that number. -/
theorem read_padded : read (padded width n) = n := by
  unfold padded
  split
  · rename_i hlt
    exact read_fixed_of_lt hlt
  · exact read_natural n

/-- A padded number has a digit. -/
theorem padded_ne_nil : padded (width + 1) n ≠ [] := by
  unfold padded
  split
  · exact List.ne_nil_of_length_eq_add_one (length_fixed (width + 1) n)
  · exact natural_ne_nil n

end Padded

end MessageBroker.Decimal
