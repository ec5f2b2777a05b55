import Mathlib.Data.Rat.Defs
import Mathlib.Algebra.Order.Field.Rat
import Mathlib.Data.Int.GCD
import Mathlib.Tactic.Ring
import Mathlib.Tactic.Linarith
import Mathlib.Tactic.FieldSimp
import Mathlib.Tactic.Positivity
import Mathlib.Tactic.NormNum

/-!
# Exact rationals

`domain/exact.go`: times and geometry are reduced fractions of a 64-bit
numerator and a positive 31-bit denominator. A value that fails `Validate`
never gets past decoding, so validity is a field of `RationalTime` and
`ExactRational` and comparison needs no error path. `Add` and `Subtract`
compute with big integers and fail (`ErrTimeOverflow`, here `none`) when the
reduced result does not fit.

A value stands for the rational `value / scale` (`toRat`). The comparison of
the code is the order of these rationals (`RationalTime.lt_iff_toRat`) and the
sum, where there is one, is their sum (`RationalTime.toRat_add`).
-/

namespace OpenCut

/-- The largest 64-bit integer, `math.MaxInt64`. -/
def maxInt64 : Nat := 2 ^ 63 - 1

/-- The largest 32-bit integer, `math.MaxInt32`. -/
def maxInt32 : Nat := 2 ^ 31 - 1

/-- What `Validate` accepts of a fraction with an `int64` numerator and an
    `int32` denominator: it is positive below and reduced (so that zero is
    `0 / 1`). -/
structure ReducedFraction (value : Int) (scale : Nat) : Prop where
  value_ge : -(maxInt64 + 1 : Int) ≤ value
  value_le : value ≤ maxInt64
  scale_pos : 0 < scale
  scale_le : scale ≤ maxInt32
  reduced : value.natAbs.gcd scale = 1

instance (value : Int) (scale : Nat) : Decidable (ReducedFraction value scale) :=
  decidable_of_iff
    (-(maxInt64 + 1 : Int) ≤ value ∧ value ≤ maxInt64 ∧ 0 < scale ∧ scale ≤ maxInt32 ∧
      value.natAbs.gcd scale = 1)
    ⟨fun ⟨h₁, h₂, h₃, h₄, h₅⟩ => ⟨h₁, h₂, h₃, h₄, h₅⟩,
      fun ⟨h₁, h₂, h₃, h₄, h₅⟩ => ⟨h₁, h₂, h₃, h₄, h₅⟩⟩

/-- Exact seconds, `value / scale`. -/
structure RationalTime where
  value : Int
  scale : Nat
  valid : ReducedFraction value scale
deriving DecidableEq

/-- A reduced, dimensionless rational number. -/
structure ExactRational where
  value : Int
  scale : Nat
  valid : ReducedFraction value scale
deriving DecidableEq

/-- `0 / 1` and `1 / 1` are valid. -/
theorem ReducedFraction.ofNat (n : Nat) (h : n ≤ maxInt64) : ReducedFraction n 1 :=
  ⟨by omega, by omega, by decide, by decide, by simp⟩

namespace ExactRational

instance : Zero ExactRational := ⟨⟨0, 1, ReducedFraction.ofNat 0 (by decide)⟩⟩

instance : One ExactRational := ⟨⟨1, 1, ReducedFraction.ofNat 1 (by decide)⟩⟩

/-- The rational the value stands for. -/
def toRat (r : ExactRational) : ℚ := r.value / r.scale

/-- `Compare`, by cross products. -/
def compare (value other : ExactRational) : Ordering :=
  Ord.compare (value.value * other.scale) (other.value * value.scale)

end ExactRational

namespace RationalTime

instance : Zero RationalTime := ⟨⟨0, 1, ReducedFraction.ofNat 0 (by decide)⟩⟩

instance : One RationalTime := ⟨⟨1, 1, ReducedFraction.ofNat 1 (by decide)⟩⟩

/-- The rational number of seconds the value stands for. -/
def toRat (t : RationalTime) : ℚ := t.value / t.scale

theorem toRat_zero : toRat 0 = 0 := by
  change ((0 : Int) : ℚ) / _ = 0
  norm_num

theorem toRat_one : toRat 1 = 1 := by
  change ((1 : Int) : ℚ) / ((1 : Nat) : ℚ) = 1
  norm_num

/-- `IsNegative`. -/
def isNegative (t : RationalTime) : Bool := t.value < 0

/-- `IsPositive`. -/
def isPositive (t : RationalTime) : Bool := 0 < t.value

/-- `Compare`, by cross products. -/
def compare (value other : RationalTime) : Ordering :=
  Ord.compare (value.value * other.scale) (other.value * value.scale)

/-- The order in which `Compare` answers `-1`. -/
instance : LT RationalTime := ⟨fun a b => a.value * b.scale < b.value * a.scale⟩

/-- The order in which `Compare` does not answer `1`. -/
instance : LE RationalTime := ⟨fun a b => a.value * b.scale ≤ b.value * a.scale⟩

instance (a b : RationalTime) : Decidable (a < b) :=
  inferInstanceAs (Decidable (a.value * b.scale < b.value * a.scale))

instance (a b : RationalTime) : Decidable (a ≤ b) :=
  inferInstanceAs (Decidable (a.value * b.scale ≤ b.value * a.scale))

/-- `NewRationalTime`: the fraction reduced by the common divisor, or `none` if
    the denominator is not positive or a part is out of its machine range. -/
def new? (value : Int) (scale : Nat) : Option RationalTime :=
  let divisor := value.natAbs.gcd scale
  if h : ReducedFraction (value.tdiv divisor) (scale / divisor) then some ⟨_, _, h⟩ else none

/-- `Add`, with `rationalFromBig`. -/
def add? (value other : RationalTime) : Option RationalTime :=
  new? (value.value * other.scale + other.value * value.scale) (value.scale * other.scale)

/-- `Subtract`, with `rationalFromBig`. -/
def subtract? (value other : RationalTime) : Option RationalTime :=
  new? (value.value * other.scale - other.value * value.scale) (value.scale * other.scale)

theorem scale_pos (t : RationalTime) : (0 : ℚ) < t.scale := Nat.cast_pos.2 t.valid.scale_pos

variable {a b : RationalTime}

theorem lt_iff_toRat : a < b ↔ a.toRat < b.toRat := by
  rw [toRat, toRat, div_lt_div_iff₀ a.scale_pos b.scale_pos]
  exact_mod_cast Iff.rfl

theorem le_iff_toRat : a ≤ b ↔ a.toRat ≤ b.toRat := by
  rw [toRat, toRat, div_le_div_iff₀ a.scale_pos b.scale_pos]
  exact_mod_cast Iff.rfl

theorem compare_eq_lt : a.compare b = .lt ↔ a < b := by
  rw [compare, Int.compare_eq_lt]
  exact Iff.rfl

theorem compare_eq_gt : a.compare b = .gt ↔ b < a := by
  rw [compare, Int.compare_eq_gt]
  exact Iff.rfl

variable {t : RationalTime} {value : Int} {scale : Nat}

/-- A time has the parts of the reduced fraction that it stands for. -/
theorem parts_of_toRat (hs : 0 < scale) (hreduced : value.natAbs.gcd scale = 1)
    (h : t.toRat = value / scale) :
    t.value = value ∧ t.scale = scale := by
  obtain ⟨hvalue, hscale⟩ := Rat.div_int_inj (Int.natCast_pos.2 t.valid.scale_pos)
    (Int.natCast_pos.2 hs) (by simpa [Nat.Coprime] using t.valid.reduced)
    (by simpa [Nat.Coprime] using hreduced) (by simpa [toRat] using h)
  exact ⟨hvalue, by exact_mod_cast hscale⟩

/-- A reduced fraction is determined by the rational it stands for. -/
theorem toRat_injective : Function.Injective toRat := by
  intro a b h
  obtain ⟨hv, hs⟩ := parts_of_toRat b.valid.scale_pos b.valid.reduced (t := a) h
  cases a
  cases b
  cases hv
  cases hs
  rfl

/-- Times are ordered as the rationals they stand for. -/
instance : LinearOrder RationalTime where
  le_refl _ := le_iff_toRat.2 le_rfl
  le_trans _ _ _ hab hbc := le_iff_toRat.2 ((le_iff_toRat.1 hab).trans (le_iff_toRat.1 hbc))
  le_antisymm _ _ hab hba := toRat_injective ((le_iff_toRat.1 hab).antisymm (le_iff_toRat.1 hba))
  le_total a b := by
    rw [le_iff_toRat, le_iff_toRat]
    exact le_total _ _
  lt_iff_le_not_ge a b := by
    rw [lt_iff_toRat, le_iff_toRat, le_iff_toRat]
    exact lt_iff_le_not_ge
  toDecidableLE _ _ := inferInstance
  toDecidableLT _ _ := inferInstance
  toDecidableEq := inferInstance

section

variable (hs : 0 < scale)
include hs

/-- A quotient reduced by the common divisor. -/
theorem parts_div : ((value : ℚ) / scale).num = value.tdiv (value.natAbs.gcd scale) ∧
      ((value : ℚ) / scale).den = scale / value.natAbs.gcd scale := by
  rw [← Rat.mkRat_eq_div, ← Rat.normalize_eq_mkRat hs.ne', Rat.normalize_eq]
  exact ⟨(Int.tdiv_eq_ediv_of_dvd (Int.natCast_dvd.2 (Nat.gcd_dvd_left _ _))).symm, rfl⟩

/-- A fraction that `NewRationalTime` builds stands for the quotient of its
    arguments. -/
theorem toRat_new? (h : new? value scale = some t) : t.toRat = value / scale := by
  obtain ⟨hnum, hden⟩ := @parts_div value scale hs
  dsimp only [new?] at h
  split at h
  · obtain ⟨⟩ := h
    dsimp only [toRat]
    rw [← hnum, ← hden, Rat.num_div_den]
  · cases h

/-- Every quotient that is a time is built by `NewRationalTime`. -/
theorem new?_of_toRat (h : t.toRat = value / scale) : new? value scale = some t := by
  obtain ⟨hnum, hden⟩ := @parts_div value scale hs
  rw [← Rat.num_div_den ((value : ℚ) / scale)] at h
  obtain ⟨hvalue, hscale⟩ := parts_of_toRat (Rat.den_pos _) (Rat.reduced _) h
  rw [hnum] at hvalue
  rw [hden] at hscale
  obtain ⟨v, s, hvalid⟩ := t
  obtain rfl := hvalue
  obtain rfl := hscale
  exact dif_pos hvalid

theorem new?_eq_some : new? value scale = some t ↔ t.toRat = value / scale :=
  ⟨toRat_new? hs, new?_of_toRat hs⟩

end

variable {c : RationalTime}

theorem add?_eq_some : a.add? b = some c ↔ c.toRat = a.toRat + b.toRat := by
  have ha := a.scale_pos
  have hb := b.scale_pos
  rw [add?, new?_eq_some (Nat.mul_pos a.valid.scale_pos b.valid.scale_pos), toRat, toRat, toRat]
  push_cast
  rw [div_add_div _ _ ha.ne' hb.ne']
  ring_nf

theorem toRat_add (h : a.add? b = some c) : c.toRat = a.toRat + b.toRat := add?_eq_some.1 h

theorem subtract?_eq_some : a.subtract? b = some c ↔ c.toRat = a.toRat - b.toRat := by
  have ha := a.scale_pos
  have hb := b.scale_pos
  rw [subtract?, new?_eq_some (Nat.mul_pos a.valid.scale_pos b.valid.scale_pos), toRat, toRat,
    toRat]
  push_cast
  rw [div_sub_div _ _ ha.ne' hb.ne']
  ring_nf

theorem toRat_subtract (h : a.subtract? b = some c) : c.toRat = a.toRat - b.toRat :=
  subtract?_eq_some.1 h

theorem isPositive_iff : t.isPositive = true ↔ 0 < t.toRat := by
  rw [isPositive, decide_eq_true_iff, toRat, lt_div_iff₀ t.scale_pos]
  simp

theorem isNegative_iff : t.isNegative = true ↔ t.toRat < 0 := by
  rw [isNegative, decide_eq_true_iff, toRat, div_lt_iff₀ t.scale_pos]
  simp

end RationalTime

/-- A half-open range of time. -/
structure TimeRange where
  start : RationalTime
  duration : RationalTime
deriving DecidableEq

variable (r : TimeRange)

/-- `End`: the first instant after the range. -/
def TimeRange.end? : Option RationalTime := r.start.add? r.duration

theorem TimeRange.toRat_end {r : TimeRange} {t : RationalTime} (h : r.end? = some t) :
    t.toRat = r.start.toRat + r.duration.toRat :=
  RationalTime.toRat_add h

/-- The instants of the range. -/
def TimeRange.instants : Set ℚ := Set.Ico r.start.toRat (r.start.toRat + r.duration.toRat)

end OpenCut
