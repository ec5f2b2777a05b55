import Mathlib.Data.Char
import Mathlib.Data.List.Lex
import Mathlib.Tactic.Push
import OpenCut.Domain.Clock
import OpenCut.Domain.Text

/-!
# Stored instants

`formatInstant` (`repository/cli_authorization.go`): the repository stores an instant as the text
that the layout `time.RFC3339Nano` gives for it in UTC. The layout drops the zeros at the end of the
fraction of a second, and with them the point. Leases, pages and retentions are decided by SQL that
compares these texts, byte by byte.

Up to the second, the texts are ordered as the instants (`ordered_dateTime`). In one second, the `Z`
that ends a text stands against a further digit or the point of the other one, and is greater. So
two texts are in the wrong order if the fraction of one is that of the other, cut off
(`formatInstant_lt`).
-/

namespace OpenCut

open List Nat

/-! ## Texts in the order of numbers -/

/-- Two texts of one length that are in the order of two numbers. -/
structure Ordered (n m : Nat) (s t : Text) : Prop where
  length : s.length = t.length
  lt : n < m → s < t
  eq : n = m → s = t

variable {n m n' m' N M : Nat} {s t s' t' : Text}

theorem append_lt_iff (h : s.length = t.length) : s ++ s' < t ++ t' ↔ s < t ∨ s = t ∧ s' < t' := by
  induction s generalizing t with
  | nil =>
    obtain rfl := length_eq_zero_iff.1 h.symm
    simp
  | cons c s ih =>
    cases t with
    | nil => cases h
    | cons d t =>
      rw [cons_append, cons_append, cons_lt_cons_iff, cons_lt_cons_iff, ih (succ.inj h), cons.injEq]
      tauto

theorem Ordered.cons (c : Char) (h : Ordered n m s t) : Ordered n m (c :: s) (c :: t) :=
  ⟨congrArg Nat.succ h.length, fun hlt => List.cons_lt_cons_iff.2 (.inr ⟨rfl, h.lt hlt⟩),
    fun heq => congrArg _ (h.eq heq)⟩

/-- A number in two parts, the first of which decides first. -/
theorem Ordered.append (h : Ordered n m s t) (hlength : s'.length = t'.length)
    (h' : n = m → Ordered n' m' s' t') (hlt : N < M → n < m ∨ n = m ∧ n' < m')
    (heq : N = M → n = m ∧ n' = m') : Ordered N M (s ++ s') (t ++ t') := by
  refine ⟨by rw [length_append, length_append, h.length, hlength], fun hN => ?_, fun hN => ?_⟩
  · rcases hlt hN with hlt | ⟨hnm, hlt⟩
    · exact (append_lt_iff h.length).2 (.inl (h.lt hlt))
    · exact (append_lt_iff h.length).2 (.inr ⟨h.eq hnm, (h' hnm).lt hlt⟩)
  · obtain ⟨hnm, hnm'⟩ := heq hN
    rw [h.eq hnm, (h' hnm).eq hnm']

theorem Ordered.iff (h : Ordered n m s t) (h' : Ordered m n t s) :
    (s < t ↔ n < m) ∧ (s = t ↔ n = m) := by
  rcases lt_trichotomy n m with hlt | heq | hgt
  · simp [h.lt hlt, (h.lt hlt).ne, hlt, hlt.ne]
  · simp [h.eq heq, heq]
  · simp [(h'.lt hgt).not_gt, (h'.lt hgt).ne', hgt.not_gt, hgt.ne']

/-- As many decimal digits. -/
def digits : Nat → Nat → Text
  | 0, _ => []
  | width + 1, n => digits width (n / 10) ++ [Nat.digitChar (n % 10)]

variable (width : Nat)

theorem length_digits (n : Nat) : (digits width n).length = width := by
  induction width generalizing n with
  | zero => rfl
  | succ width ih => rw [digits, length_append, ih, length_singleton]

theorem digitChar_order : ∀ n < 16, ∀ m < 16,
    (Nat.digitChar n < Nat.digitChar m ↔ n < m) ∧ (Nat.digitChar n = Nat.digitChar m ↔ n = m) := by
  decide

theorem ordered_digitChar (hn : n < 16) (hm : m < 16) : Ordered n m [digitChar n] [digitChar m] :=
  ⟨rfl, fun h => cons_lt_cons_iff.2 (.inl ((digitChar_order _ hn _ hm).1.2 h)), fun h => by rw [h]⟩

theorem ordered_digits (hn : n < 10 ^ width) (hm : m < 10 ^ width) :
    Ordered n m (digits width n) (digits width m) := by
  induction width generalizing n m with
  | zero => exact ⟨rfl, by omega, fun _ => rfl⟩
  | succ width ih =>
    rw [pow_succ] at hn hm
    exact (ih (by omega) (by omega)).append rfl
      (fun _ => ordered_digitChar (by omega) (by omega)) (by omega) (by omega)

/-! ## The calendar -/

/-- The days of a month. January is month 1. -/
def daysIn (year : Nat) : Nat → Nat
  | 1 | 3 | 5 | 7 | 8 | 10 | 12 => 31
  | 4 | 6 | 9 | 11 => 30
  | 2 => if year % 4 = 0 ∧ (year % 100 ≠ 0 ∨ year % 400 = 0) then 29 else 28
  | _ => 0

theorem daysIn_le (year month : Nat) : daysIn year month ≤ 31 := by
  unfold daysIn
  repeat' split
  all_goals omega

/-- The days before a year or a month, if the years or months have as many days. -/
def daysBefore (days : Nat → Nat) : Nat → Nat
  | 0 => 0
  | n + 1 => daysBefore days n + days n

variable {f : Nat → Nat}

theorem daysBefore_le {day : Nat} (h : n < m) (hday : day ≤ f n) :
    daysBefore f n + day ≤ daysBefore f m := by
  induction m, h using le_induction with
  | base => exact Nat.add_le_add_left hday _
  | succ m _ ih => exact ih.trans (le_add_right _ _)

/-- Days are in the order of their years or months. -/
theorem daysBefore_lex {day day' : Nat} (hday : 0 < day ∧ day ≤ f n)
    (hday' : 0 < day' ∧ day' ≤ f m) :
    (daysBefore f n + day < daysBefore f m + day' → n < m ∨ n = m ∧ day < day') ∧
      (daysBefore f n + day = daysBefore f m + day' → n = m ∧ day = day') := by
  rcases lt_trichotomy n m with h | rfl | h
  · have := daysBefore_le h hday.2
    omega
  · omega
  · have := daysBefore_le h hday'.2
    omega

/-- A `time.Time` in UTC, with the year of four digits that the layout has room for. -/
structure UTCTime where
  year : Fin 10000
  month : Nat
  day : Nat
  hour : Fin 24
  minute : Fin 60
  second : Fin 60
  nanosecond : Fin 1000000000
  month_le : month ≤ 12
  day_valid : 0 < day ∧ day ≤ daysIn year month

namespace UTCTime

variable (t : UTCTime)

/-- The day of the year. -/
def yearDay : Nat := daysBefore (daysIn t.year) t.month + t.day

/-- The days, where the first one of the year 0 is day 1. -/
def days : Nat := daysBefore (fun year => daysBefore (daysIn year) 13) t.year + t.yearDay

/-- The seconds since the last day before the year 0 began. -/
def seconds : Nat := ((t.days * 24 + t.hour) * 60 + t.minute) * 60 + t.second

/-- The instant. The epoch begins on day 719529. -/
def instant : Instant := (t.seconds - 719529 * 86400) * OpenCut.second + t.nanosecond

/-- The layout up to the day. -/
def date : Text := digits 4 t.year ++ ('-' :: digits 2 t.month ++ '-' :: digits 2 t.day)

/-- The layout up to the second. -/
def dateTime : Text :=
  t.date ++ 'T' :: digits 2 t.hour ++ ':' :: digits 2 t.minute ++ ':' :: digits 2 t.second

end UTCTime

/-- The digits of a fraction, as long as something is left. -/
def fraction : Nat → Nat → Text
  | 0, _ => []
  | width + 1, n =>
    if n = 0 then [] else Nat.digitChar (n / 10 ^ width) :: fraction width (n % 10 ^ width)

/-- The end of the layout, for as many nanoseconds. -/
def fractionText (n : Nat) : Text := (if n = 0 then [] else '.' :: fraction 9 n) ++ ['Z']

/-- `formatInstant`. -/
def formatInstant (t : UTCTime) : Text := t.dateTime ++ fractionText t.nanosecond

theorem UTCTime.yearDay_valid (t : UTCTime) :
    0 < t.yearDay ∧ t.yearDay ≤ daysBefore (daysIn t.year) 13 :=
  ⟨Nat.add_pos_right _ t.day_valid.1, daysBefore_le (Nat.lt_succ_of_le t.month_le) t.day_valid.2⟩

theorem ordered_date (a b : UTCTime) : Ordered a.days b.days a.date b.date := by
  obtain ⟨hlt, heq⟩ := daysBefore_lex (f := fun year => daysBefore (daysIn year) 13)
    a.yearDay_valid b.yearDay_valid
  refine (ordered_digits 4 a.year.2 b.year.2).append (by simp [length_digits]) (fun hyear => ?_)
    hlt heq
  have ha := a.day_valid
  have hb := b.day_valid
  rw [← hyear] at hb
  obtain ⟨hlt, heq⟩ := daysBefore_lex ha hb
  rw [UTCTime.yearDay, UTCTime.yearDay, ← hyear]
  have := daysIn_le a.year a.month
  have := daysIn_le a.year b.month
  have := a.month_le
  have := b.month_le
  have hday := (ordered_digits 2 (n := a.day) (m := b.day) (by omega) (by omega)).cons '-'
  exact ((ordered_digits 2 (by omega) (by omega)).cons '-').append hday.length
    (fun _ => hday) hlt heq

/-- Up to the second, texts are in the order of time. -/
theorem ordered_dateTime (a b : UTCTime) : Ordered a.seconds b.seconds a.dateTime b.dateTime := by
  have htwo : ∀ (n m : Nat) (c : Char), n < 60 → m < 60 →
      Ordered n m (c :: digits 2 n) (c :: digits 2 m) :=
    fun n m c hn hm => (ordered_digits 2 (by omega) (by omega)).cons c
  have hhour := htwo a.hour b.hour 'T' (by omega) (by omega)
  have hminute := htwo a.minute b.minute ':' (by omega) (by omega)
  have hsecond := htwo a.second b.second ':' (by omega) (by omega)
  have hhours : Ordered (a.days * 24 + a.hour) (b.days * 24 + b.hour) _ _ :=
    (ordered_date a b).append hhour.length (fun _ => hhour) (by omega) (by omega)
  have hminutes : Ordered ((a.days * 24 + a.hour) * 60 + a.minute)
      ((b.days * 24 + b.hour) * 60 + b.minute) _ _ :=
    hhours.append hminute.length (fun _ => hminute) (by omega) (by omega)
  rw [UTCTime.seconds, UTCTime.seconds]
  exact hminutes.append hsecond.length (fun _ => hsecond) (by omega) (by omega)

/-! ## In one second -/

/-- The number `n` is `m` with zeros from some decimal place on. -/
def CutOff (n m : Nat) : Prop := ∃ k, n = m / 10 ^ k * 10 ^ k

theorem cutOff_iff (hn : n ≠ 0) (hm : m < 10 ^ (width + 1)) :
    CutOff n m ↔ n / 10 ^ width = m / 10 ^ width ∧ CutOff (n % 10 ^ width) (m % 10 ^ width) := by
  have hsplit : ∀ k ≤ width,
      m / 10 ^ k * 10 ^ k = 10 ^ width * (m / 10 ^ width) + m % 10 ^ width / 10 ^ k * 10 ^ k := by
    intro k hk
    obtain ⟨j, rfl⟩ := Nat.exists_eq_add_of_le hk
    have hmod : m % 10 ^ (k + j) / 10 ^ k = m / 10 ^ k % 10 ^ j := by
      rw [pow_add, mod_mul_right_div_self]
    have hdiv : m / 10 ^ (k + j) = m / 10 ^ k / 10 ^ j := by
      rw [pow_add, Nat.div_div_eq_div_mul]
    rw [hmod, hdiv]
    nth_rewrite 1 [← div_add_mod (m / 10 ^ k) (10 ^ j)]
    ring
  have hpos : 0 < 10 ^ width := by positivity
  have hrest : ∀ k, m % 10 ^ width / 10 ^ k * 10 ^ k < 10 ^ width := fun k =>
    (div_mul_le_self _ _).trans_lt (mod_lt _ hpos)
  constructor
  · rintro ⟨k, rfl⟩
    rcases le_or_gt k width with hk | hk
    · rw [hsplit k hk, mul_add_div hpos, mul_add_mod, div_eq_of_lt (hrest k),
        mod_eq_of_lt (hrest k)]
      exact ⟨rfl, k, rfl⟩
    · rw [Nat.div_eq_of_lt (hm.trans_le (Nat.pow_le_pow_right (by decide) hk)), zero_mul] at hn
      exact absurd rfl hn
  · rintro ⟨htop, k, hk⟩
    have hn' := div_add_mod n (10 ^ width)
    rcases le_or_gt k width with hle | hlt
    · exact ⟨k, by rw [hsplit k hle, ← htop, ← hk, hn']⟩
    · have hzero : m % 10 ^ width / 10 ^ k = 0 :=
        Nat.div_eq_of_lt ((Nat.mod_lt _ hpos).trans (Nat.pow_lt_pow_right (by decide) hlt))
      rw [hzero, zero_mul] at hk
      exact ⟨width, by rw [← htop, mul_comm, ← add_zero (_ * _), ← hk, hn']⟩

theorem cutOff_zero (hm : m < 10 ^ width) : CutOff 0 m :=
  ⟨width, by rw [Nat.div_eq_of_lt hm, zero_mul]⟩

/-- The end of a text stands against the further digits of the other one. -/
theorem fraction_lt_iff (hn : n < 10 ^ width) (hm : m < 10 ^ width) (hne : n ≠ m) :
    fraction width n ++ ['Z'] < fraction width m ++ ['Z'] ↔
      (n < m ↔ ¬(CutOff n m ∨ CutOff m n)) := by
  induction width generalizing n m with
  | zero => omega
  | succ width ih =>
    have hpos : 0 < 10 ^ width := by positivity
    have hdigit : ∀ {n}, n < 10 ^ (width + 1) → n / 10 ^ width < 10 := fun h =>
      Nat.div_lt_of_lt_mul (by rwa [pow_succ] at h)
    have hZ : ∀ n < 10, digitChar n < 'Z' := by decide
    have hcut := cutOff_zero _ hn
    have hcut' := cutOff_zero _ hm
    by_cases hn0 : n = 0
    · subst hn0
      have := (hZ _ (hdigit hm)).not_gt
      have := (hZ _ (hdigit hm)).ne'
      simp_all [fraction, hne.symm, cons_lt_cons_iff]
    by_cases hm0 : m = 0
    · subst hm0
      have := hZ _ (hdigit hn)
      simp_all [fraction, cons_lt_cons_iff]
    · have hfirst :=
        digitChar_order _ ((hdigit hn).trans (by decide)) _ ((hdigit hm).trans (by decide))
      rw [fraction, fraction, if_neg hn0, if_neg hm0, cons_append, cons_append,
        cons_lt_cons_iff, hfirst.1, hfirst.2, cutOff_iff width hn0 hm, cutOff_iff width hm0 hn]
      have hn' := div_add_mod n (10 ^ width)
      have hm' := div_add_mod m (10 ^ width)
      -- The first digits decide, or the rests where they are equal.
      rcases lt_trichotomy (n / 10 ^ width) (m / 10 ^ width) with hlt | heq | hgt
      · have := lt_of_div_lt_div hlt
        simp [hlt, hlt.ne, hlt.ne', this]
      · rw [heq] at hn' ⊢
        have hrest : n % 10 ^ width ≠ m % 10 ^ width := by omega
        have hiff : n < m ↔ n % 10 ^ width < m % 10 ^ width := by omega
        simp [ih (mod_lt _ hpos) (mod_lt _ hpos) hrest, hiff]
      · have := lt_of_div_lt_div hgt
        simp [hgt.ne, hgt.ne', hgt.not_gt, this.le]

variable {a b : UTCTime}

/-- In one second, the fraction of one instant is that of the other one, cut off. -/
def UTCTime.CutsOff (a b : UTCTime) : Prop :=
  unix a.instant = unix b.instant ∧ a.nanosecond.val ≠ b.nanosecond.val ∧
    (CutOff a.nanosecond b.nanosecond ∨ CutOff b.nanosecond a.nanosecond)

theorem fractionText_lt_iff (hn : n < 10 ^ 9) (hm : m < 10 ^ 9) (hne : n ≠ m) :
    fractionText n < fractionText m ↔ (n < m ↔ ¬(CutOff n m ∨ CutOff m n)) := by
  have hcut := cutOff_zero _ hn
  have hcut' := cutOff_zero _ hm
  unfold fractionText
  split <;> split
  · omega
  · next hn0 hm0 =>
    subst hn0
    simp [hcut', cons_lt_cons_iff, pos_of_ne_zero hm0]
  · next hn0 hm0 =>
    subst hm0
    simp [hcut, cons_lt_cons_iff]
  · rw [cons_append, cons_append, cons_lt_cons_iff, fraction_lt_iff 9 hn hm hne]
    simp

/-- Instants are ordered by their seconds first. -/
theorem instant_lt_iff : a.instant < b.instant ↔
    a.seconds < b.seconds ∨ a.seconds = b.seconds ∧ a.nanosecond.val < b.nanosecond := by
  have := a.nanosecond.2
  have := b.nanosecond.2
  rw [UTCTime.instant, UTCTime.instant, OpenCut.second]
  change (_ : Int) < _ ↔ _
  omega

theorem unix_eq_iff : unix a.instant = unix b.instant ↔ a.seconds = b.seconds := by
  have := a.nanosecond.2
  have := b.nanosecond.2
  rw [UTCTime.instant, UTCTime.instant, unix, unix, OpenCut.second]
  omega

theorem formatInstant_lt (a b : UTCTime) :
    (formatInstant a < formatInstant b ↔ a.instant < b.instant) ↔ ¬a.CutsOff b := by
  have h := ordered_dateTime a b
  obtain ⟨hlt, heq⟩ := h.iff (ordered_dateTime b a)
  rw [formatInstant, formatInstant, append_lt_iff h.length, UTCTime.CutsOff, instant_lt_iff,
    unix_eq_iff, hlt, heq]
  by_cases hseconds : a.seconds = b.seconds
  · by_cases hfraction : a.nanosecond.val = b.nanosecond.val
    · simp [hseconds, hfraction]
    · rw [fractionText_lt_iff a.nanosecond.2 b.nanosecond.2 hfraction]
      by_cases hlt : a.nanosecond.val < b.nanosecond <;> simp [hseconds, hfraction, hlt]
  · simp [hseconds]

/-- The texts of two instants are in the order of time, strictly or not, if and only if the instants
    are not in one second with the fraction of one cut off in the other. -/
theorem formatInstant_ordered_iff (a b : UTCTime) :
    ((formatInstant a < formatInstant b ↔ a.instant < b.instant) ↔ ¬a.CutsOff b) ∧
      ((formatInstant a ≤ formatInstant b ↔ a.instant ≤ b.instant) ↔ ¬a.CutsOff b) := by
  have hswap : b.CutsOff a ↔ a.CutsOff b := by
    rw [UTCTime.CutsOff, UTCTime.CutsOff, eq_comm, ne_comm, or_comm]
  refine ⟨formatInstant_lt a b, ?_⟩
  rw [← hswap, ← formatInstant_lt b a, ← not_lt, ← not_lt, not_iff_not]

/-- An instant and another one, half a second later. -/
theorem half_second_later_sorts_before : ∃ a b : UTCTime,
    a.instant < b.instant ∧ formatInstant b < formatInstant a := by
  have hlater : ∀ t : UTCTime, t.nanosecond = 0 →
      t.instant < { t with nanosecond := 500000000 }.instant :=
    fun t ht => instant_lt_iff.2 (.inr ⟨rfl, by simp [ht]⟩)
  exact ⟨⟨2026, 1, 1, 0, 0, 0, 0, by decide, by decide⟩, _, hlater _ rfl, by decide⟩

end OpenCut
