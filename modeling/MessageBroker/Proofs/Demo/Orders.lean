import Mathlib.Data.Nat.Count
import Mathlib.Data.Nat.ModEq
import MessageBroker.Demo.Pipeline
import MessageBroker.Proofs.Message.Payload
import MessageBroker.Proofs.Numeric.Decimal

/-!
# The orders of the demo

The number of an order is written into its id with four digits at least, and read back from there by
the handler that rejects every k-th order. That gives the number back for all numbers of 32 bits,
with however many digits they are written (`sequenceOf_orderId`). A message that carries an order is
decoded by both handlers, and what they do about it depends on the number of the order and on how
often the message was leased (`IsOrder.notify_eq`, `IsOrder.audit_eq`).
-/

namespace MessageBroker.Demo

/-! ## Numbers in ids -/

/-- The greatest number of an order. -/
def greatestNumber : Nat := 4294967295

/-- A mark does not stand before digits. -/
theorem dropMarks_of_digits {digits : List Char} (h : ∀ c ∈ digits, c.isDigit = true) (fuel : Nat) :
    dropMarks fuel digits = digits := by
  have hmark : idMark.isPrefixOf digits = false := by
    cases digits with
    | nil => rfl
    | cons c rest =>
      have hne : ('o' == c) = false := by
        refine beq_false_of_ne fun he => ?_
        have hdigit := h c List.mem_cons_self
        rw [← he] at hdigit
        exact absurd hdigit (by decide)
      show ('o' == c && _) = false
      rw [hne, Bool.false_and]
  cases fuel with
  | zero => rfl
  | succ fuel =>
    unfold dropMarks
    rw [hmark, if_neg Bool.false_ne_true]

/-- The mark is dropped from an id once. -/
theorem dropMarks_append {digits : List Char} (h : ∀ c ∈ digits, c.isDigit = true) (fuel : Nat) :
    dropMarks (fuel + 1) (idMark ++ digits) = digits := by
  have hmark : idMark.isPrefixOf (idMark ++ digits) = true :=
    List.isPrefixOf_iff_prefix.mpr (List.prefix_append _ _)
  unfold dropMarks
  rw [hmark, if_pos rfl, List.drop_left, dropMarks_of_digits h]

/-- Digits are the text of the number that they write. -/
theorem natural?_of_digits {digits : List Char} (hne : digits ≠ [])
    (h : ∀ c ∈ digits, c.isDigit = true) (hle : Decimal.read digits ≤ 18446744073709551615) :
    Numeral.natural? digits = some (Decimal.read digits) := by
  have hnumeral : Decimal.isNumeral digits = true := by
    unfold Decimal.isNumeral
    rw [Bool.and_eq_true_iff, List.all_eq_true]
    exact ⟨by simp [hne], h⟩
  have hread : Decimal.read? digits = some (Decimal.read digits) := if_pos hnumeral
  unfold Numeral.natural?
  split
  · exact absurd (h '+' List.mem_cons_self) (by decide)
  · dsimp only
    rw [hread, Option.bind_some, if_pos hle]

/-- The number of an order is read back from its id. -/
theorem sequenceOf_orderId {n : Nat} (h : n ≤ greatestNumber) : sequenceOf (orderId n) = n := by
  have hdigits : ∀ c ∈ Decimal.padded 4 n, c.isDigit = true := fun c hc =>
    Decimal.isDigit_of_mem_padded 4 n hc
  have hread : Decimal.read (Decimal.padded 4 n) = n := Decimal.read_padded 4 n
  have hid : (orderId n).toList = idMark ++ Decimal.padded 4 n := String.toList_ofList
  have hlength : (idMark ++ Decimal.padded 4 n).length = (Decimal.padded 4 n).length + 3 + 1 := by
    rw [List.length_append, Nat.add_comm]
    rfl
  have hle : n ≤ 18446744073709551615 := Nat.le_trans h (by decide)
  have hnumber : Numeral.natural? (Decimal.padded 4 n) = some n := by
    rw [natural?_of_digits (Decimal.padded_ne_nil 3 n) hdigits (hread.symm ▸ hle), hread]
  unfold sequenceOf
  dsimp only
  rw [hid, hlength, dropMarks_append hdigits, hnumber]
  exact if_pos h

/-! ## The orders that are rejected -/

/-- An order number is one of those that are rejected: every k-th one, none if k is zero. -/
def rejectsEvery (failEvery number : Nat) : Bool := 0 < failEvery ∧ number % failEvery = 0

/-- An order is rejected by its number. -/
theorem isRejected_orderId {n : Nat} (h : n ≤ greatestNumber) (failEvery : Nat) :
    isRejected failEvery (orderId n) = rejectsEvery failEvery n := by
  unfold isRejected rejectsEvery
  rw [sequenceOf_orderId h]

/-- How many of the first orders are rejected. -/
def rejections (rejects : Nat → Bool) (count : Nat) : Nat :=
  Nat.count (fun i => rejects (i + 1) = true) count

/-- Of no orders none is rejected. -/
theorem rejections_zero (rejects : Nat → Bool) : rejections rejects 0 = 0 := Nat.count_zero _

/-- One more order. -/
theorem rejections_succ (rejects : Nat → Bool) (count : Nat) : rejections rejects (count + 1) =
    rejections rejects count + if rejects (count + 1) then 1 else 0 :=
  Nat.count_succ _ _

/-- Every k-th order is one in k, rounded down. -/
theorem rejections_rejectsEvery (failEvery count : Nat) :
    rejections (rejectsEvery failEvery) count = count / failEvery := by
  induction count with
  | zero => rw [Nat.zero_div, rejections_zero]
  | succ count ih =>
    have hdvd : (rejectsEvery failEvery (count + 1) = true) ↔ failEvery ∣ count + 1 := by
      rw [Nat.dvd_iff_mod_eq_zero]
      unfold rejectsEvery
      rw [decide_eq_true_iff]
      refine ⟨And.right, fun h => ⟨Nat.pos_of_ne_zero ?_, h⟩⟩
      rintro rfl
      rw [Nat.mod_zero] at h
      exact absurd h (Nat.succ_ne_zero _)
    rw [rejections_succ, ih, Nat.succ_div]
    congr 1
    exact if_congr hdvd rfl rfl

/-- Nothing is rejected if no number is. -/
theorem rejections_none (count : Nat) : rejections (fun _ => false) count = 0 := by
  induction count with
  | zero => exact rejections_zero _
  | succ count ih =>
    rw [rejections_succ, ih]
    rfl

/-! ## Messages of orders -/

/-- The message is that of the order with a number. -/
structure IsOrder (m : Message) (number : Nat) : Prop where
  number_le : number ≤ greatestNumber
  payload : m.payload = Json.encode (orderEvent number).toJson

namespace IsOrder

variable {m : Message} {number : Nat} (h : IsOrder m number)
include h

/-- It carries the event of that order. -/
theorem ofMessage : OrderCreated.ofMessage m = .ok (orderEvent number) := by
  have hle : number ≤ 4294967295 := h.number_le
  refine OrderCreated.ofMessage_of_payload ⟨?_, ?_⟩ h.payload
  · show (-9223372036854775808 : Int) ≤ number * 1250 ∧ (number : Int) * 1250 ≤ 9223372036854775807
    omega
  · show (-2147483648 : Int) ≤ 1 ∧ (1 : Int) ≤ 2147483647
    decide

/-- Another message with the same payload is one of the order too. -/
theorem of_payload {m' : Message} (hm : m'.payload = m.payload) : IsOrder m' number :=
  ⟨h.number_le, hm.trans h.payload⟩

/-- The notification of a rejected order fails when its message was leased for the first time. -/
theorem notify_eq (failEvery : Nat) : notify failEvery m =
    if rejectsEvery failEvery number ∧ m.retryCount = 1 then [.fail (rejection (orderId number))]
    else [] := by
  unfold notify
  rw [h.ofMessage]
  dsimp only [orderEvent]
  rw [isRejected_orderId h.number_le]

/-- Every order is recorded. -/
theorem audit_eq : audit m = [] := by
  unfold audit
  rw [h.ofMessage]

end IsOrder

end MessageBroker.Demo
