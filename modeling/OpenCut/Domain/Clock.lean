import Mathlib.Data.Int.Basic

/-!
# Instants

Wall clock times, in nanoseconds since the epoch, and durations.
-/

namespace OpenCut

/-- Nanoseconds since the epoch. -/
abbrev Instant := Int

/-- A `time.Duration`, in nanoseconds. -/
abbrev Duration := Int

/-- `time.Second`. -/
def second : Duration := 1000000000

/-- The zero `time.Time`. -/
def zeroTime : Instant := -62135596800 * second

/-- `Time.Unix`. -/
def unix (t : Instant) : Int := t / second

theorem unix_mono {t t' : Instant} (h : t ≤ t') : unix t ≤ unix t' := Int.ediv_le_ediv (by decide) h

end OpenCut
