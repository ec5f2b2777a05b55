import OpenCut.Domain.Exact
import OpenCut.Lib.Outcome

/-!
# Arithmetic of times

`domain/exact.go`, from the big integers on: `Add` and `Subtract` give the parts of a fraction to
`rationalFromBig`, which reduces it and refuses what does not fit. The result has the numerator and
the denominator of the exact sum or difference (`rational_time_exact`).
-/

namespace OpenCut

open Outcome

/-- Why a fraction is refused. -/
inductive TimeError
  /-- `ErrInvalidRationalTime`. -/
  | invalidRationalTime
  /-- `ErrTimeOverflow`. -/
  | timeOverflow
deriving DecidableEq

namespace RationalTime

/-- `absInt64`. -/
def absInt64 (value : Int) : Nat := if 0 ≤ value then value.toNat else (-(value + 1)).toNat + 1

/-- `gcd`. -/
def gcd (left right : Nat) : Nat :=
  if h : right = 0 then left
  else
    have := Nat.mod_lt left (Nat.pos_of_ne_zero h)
    gcd right (left % right)
termination_by right

/-- `NewRationalTime`, of the numerator and the denominator. -/
def newRationalTime (value : Int) (scale : Nat) : Except TimeError (Int × Nat) := do
  ensure (0 < scale) .invalidRationalTime
  if value = 0 then return (0, 1)
  let divisor := gcd (absInt64 value) scale
  return (value.tdiv divisor, scale / divisor)

/-- `rationalFromBig`. -/
def rationalFromBig (numerator : Int) (denominator : Nat) : Except TimeError (Int × Nat) := do
  ensure (0 < denominator) .invalidRationalTime
  if numerator = 0 then return (0, 1)
  let divisor := numerator.natAbs.gcd denominator
  let numerator := numerator.tdiv divisor
  let denominator := denominator / divisor
  ensure (-(maxInt64 + 1 : Int) ≤ numerator ∧ numerator ≤ maxInt64 ∧ denominator ≤ maxInt32)
    .timeOverflow
  newRationalTime numerator denominator

/-- `Add`. -/
def add (value other : RationalTime) : Except TimeError (Int × Nat) :=
  rationalFromBig (value.value * other.scale + other.value * value.scale)
    (value.scale * other.scale)

/-- `Subtract`. -/
def subtract (value other : RationalTime) : Except TimeError (Int × Nat) :=
  rationalFromBig (value.value * other.scale - other.value * value.scale)
    (value.scale * other.scale)

theorem absInt64_eq (value : Int) : absInt64 value = value.natAbs := by
  unfold absInt64
  split <;> omega

theorem gcd_eq (left right : Nat) : gcd left right = left.gcd right := by
  fun_induction gcd left right with
  | case1 left => rw [Nat.gcd_zero_right]
  | case2 left right h _ ih => rw [ih, Nat.gcd_comm left right, Nat.gcd_rec right left,
      Nat.gcd_comm]

variable {value : Int} {scale : Nat}

/-- A fraction that is reduced stays as it is. -/
theorem newRationalTime_eq (hscale : 0 < scale) (hreduced : value.natAbs.gcd scale = 1) :
    newRationalTime value scale = .ok (value, scale) := by
  rw [newRationalTime, ensure_of _ hscale, ok_bind]
  split
  · next hzero =>
    rw [hzero, Int.natAbs_zero, Nat.gcd_zero_left] at hreduced
    rw [hzero, hreduced]
    rfl
  · rw [absInt64_eq, gcd_eq, hreduced]
    simp [pure, Except.pure]

/-- The numerator and the denominator are in their machine ranges. -/
def Fits (q : ℚ) : Prop := -(maxInt64 + 1 : Int) ≤ q.num ∧ q.num ≤ maxInt64 ∧ q.den ≤ maxInt32

instance (q : ℚ) : Decidable (Fits q) := inferInstanceAs (Decidable (_ ∧ _))

/-- The reduced fraction, or the error. -/
def exactly (q : ℚ) : Except TimeError (Int × Nat) :=
  if Fits q then .ok (q.num, q.den) else .error .timeOverflow

theorem rationalFromBig_eq (hscale : 0 < scale) :
    rationalFromBig value scale = exactly (value / scale) := by
  obtain ⟨hnum, hden⟩ := @parts_div value scale hscale
  have hreduced := ((value : ℚ) / scale).reduced
  rw [Nat.Coprime, hnum, hden] at hreduced
  rw [rationalFromBig, ensure_of _ hscale, ok_bind]
  simp only [exactly, Fits, hnum, hden]
  split
  · next hzero =>
    rw [hzero, Int.natAbs_zero, Nat.gcd_zero_left, Nat.div_self hscale, Int.zero_tdiv]
    rfl
  · have hpos : 0 < scale / value.natAbs.gcd scale := by
      rw [← hden]
      exact Rat.den_pos _
    rw [newRationalTime_eq hpos hreduced, ensure]
    split <;> rfl

theorem add_eq (a b : RationalTime) : a.add b = exactly (a.toRat + b.toRat) := by
  rw [add, rationalFromBig_eq (Nat.mul_pos a.valid.scale_pos b.valid.scale_pos), toRat, toRat,
    div_add_div _ _ a.scale_pos.ne' b.scale_pos.ne']
  push_cast
  ring_nf

theorem subtract_eq (a b : RationalTime) : a.subtract b = exactly (a.toRat - b.toRat) := by
  rw [subtract, rationalFromBig_eq (Nat.mul_pos a.valid.scale_pos b.valid.scale_pos), toRat, toRat,
    div_sub_div _ _ a.scale_pos.ne' b.scale_pos.ne']
  push_cast
  ring_nf

theorem compare_eq (a b : RationalTime) : a.compare b = Ord.compare a.toRat b.toRat := by
  rcases lt_trichotomy a.toRat b.toRat with hlt | heq | hgt
  · rw [compare_eq_lt.2 (lt_iff_toRat.2 hlt), compare_lt_iff_lt.2 hlt]
  · rw [toRat_injective heq, compare_eq_iff_eq.2 rfl]
    exact compare_eq_iff_eq.2 rfl
  · rw [compare_eq_gt.2 (lt_iff_toRat.2 hgt), compare_gt_iff_gt.2 hgt]

variable {a b c : RationalTime}

/-- The parts of a time are the result if and only if it stands for the result. -/
theorem exactly_ok_iff {q : ℚ} : exactly q = .ok (c.value, c.scale) ↔ c.toRat = q := by
  constructor
  · intro h
    rw [exactly] at h
    split at h
    · obtain ⟨hnum, hden⟩ := Prod.mk.inj (Except.ok.inj h)
      rw [toRat, ← hnum, ← hden, Rat.num_div_den]
    · cases h
  · rintro rfl
    obtain ⟨hvalue, hscale⟩ := parts_of_toRat (Rat.den_pos _) (Rat.reduced _)
      (Rat.num_div_den c.toRat).symm
    rw [exactly, if_pos, hvalue, hscale]
    rw [Fits, ← hvalue, ← hscale]
    exact ⟨c.valid.value_ge, c.valid.value_le, c.valid.scale_le⟩

/-- The sum that the rest of the model computes with. -/
theorem add?_iff : a.add? b = some c ↔ a.add b = .ok (c.value, c.scale) := by
  rw [add_eq, exactly_ok_iff, add?_eq_some]

theorem subtract?_iff : a.subtract? b = some c ↔ a.subtract b = .ok (c.value, c.scale) := by
  rw [subtract_eq, exactly_ok_iff, subtract?_eq_some]

end RationalTime

/-- `End`. -/
def TimeRange.«end» (range : TimeRange) : Except TimeError (Int × Nat) :=
  range.start.add range.duration

open RationalTime in
/-- `Compare` is the order of the rationals. `Add`, `Subtract` and `End` give the numerator and the
    denominator of the exact result, and `ErrTimeOverflow` if and only if these do not fit. Times of
    one rational are identical, so that taking away what was added gives the same time back. -/
theorem rational_time_exact (a b : RationalTime) :
    a.compare b = Ord.compare a.toRat b.toRat ∧
      a.add b = exactly (a.toRat + b.toRat) ∧
      a.subtract b = exactly (a.toRat - b.toRat) ∧
      (⟨a, b⟩ : TimeRange).end = exactly (a.toRat + b.toRat) ∧
      (a.toRat = b.toRat ↔ a = b) ∧
      ∀ c d : RationalTime, a.add b = .ok (c.value, c.scale) →
        c.subtract b = .ok (d.value, d.scale) → d = a := by
  refine ⟨compare_eq a b, add_eq a b, subtract_eq a b, add_eq a b, toRat_injective.eq_iff, ?_⟩
  intro c d hc hd
  apply toRat_injective
  rw [toRat_subtract (subtract?_iff.2 hd), toRat_add (add?_iff.2 hc), add_sub_cancel_right]

/-- A third is added to a half and taken away. -/
theorem rational_time_exact_half :
    ∃ a b c d : RationalTime, a.add b = .ok (c.value, c.scale) ∧
      c.subtract b = .ok (d.value, d.scale) ∧ d = a := by
  have hadd : RationalTime.add ⟨1, 2, by decide⟩ ⟨1, 3, by decide⟩ = .ok (5, 6) := by decide +kernel
  have hsub : RationalTime.subtract ⟨5, 6, by decide⟩ ⟨1, 3, by decide⟩ = .ok (1, 2) := by
    decide +kernel
  exact ⟨_, _, ⟨5, 6, by decide⟩, ⟨1, 2, by decide⟩, hadd, hsub,
    (rational_time_exact _ _).2.2.2.2.2 _ _ hadd hsub⟩

end OpenCut
