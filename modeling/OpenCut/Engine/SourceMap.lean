import Mathlib.Data.List.Chain
import OpenCut.Domain.Exact
import OpenCut.Lib.Outcome

/-!
# Selection in a source map

`renderengine/source_map.go`: a proxy time map gives the presentation times of the frames of a
source, in increasing order. `SelectFloor` looks for the last frame that is not later than a target.
A cursor remembers what was selected last: a target that is not earlier than the last one is looked
for from there on, every other one by bisection.

Whatever was asked before, a call selects the last record that is not later than the target, or the
first record where every record is later, as a call on a fresh cursor does
(`selectFloor_history_independent`). What both searches end with is said by `SourceMap.IsFloor`,
which leaves no choice (`IsFloor.unique`).
-/

namespace OpenCut

open Outcome RationalTime

/-- Why nothing is selected. -/
inductive SourceMapError
  /-- "source map selection input is invalid" -/
  | selectionInput
  /-- "source PTS comparison input is invalid" -/
  | comparisonInput
  /-- "source proxy time map ordinal is invalid" -/
  | ordinal

/-- A record, with its number. -/
structure SourceMapSelection where
  ordinal : Nat
  sourcePTS : Int
  proxyPTS : Int

/-- A map that `OpenSourceMap` has opened: there are records of a source and a proxy PTS, and both
    increase from one record to the next. -/
structure SourceMap where
  records : List (Int × Int)
  nonempty : records ≠ []
  ordered : records.IsChain fun previous record => previous.1 < record.1 ∧ previous.2 < record.2

/-- The last target and what was selected for it, once the cursor is initialized. -/
structure SourceMapCursor where
  last : Option (RationalTime × SourceMapSelection)

/-- `comparePTSTime`, by cross products. -/
def comparePTSTime (pts : Int) (timeBase target : RationalTime) :
    Except SourceMapError Ordering := do
  ensure timeBase.isPositive .comparisonInput
  return compare (pts * timeBase.value * target.scale) (target.value * timeBase.scale)

namespace SourceMap

variable (source : SourceMap)

/-- `Count`. -/
def count : Nat := source.records.length

/-- `NewCursor`. -/
def newCursor : SourceMapCursor := ⟨none⟩

/-- The record of a number below `count`. -/
def record (ordinal : Nat) : SourceMapSelection :=
  ⟨ordinal, (source.records.getD ordinal 0).1, (source.records.getD ordinal 0).2⟩

/-- `readRecord`. -/
def readRecord (ordinal : Nat) : Except SourceMapError SourceMapSelection := do
  ensure (ordinal < source.count) .ordinal
  return source.record ordinal

variable (target timeBase : RationalTime)

/-- The loop of `selectForward`, with the number of records that are left. -/
def forward : Nat → SourceMapSelection → Except SourceMapError SourceMapSelection
  | 0, selected => .ok selected
  | left + 1, selected => do
    let next ← source.readRecord (selected.ordinal + 1)
    if (← comparePTSTime next.sourcePTS timeBase target) = .gt then return selected
    else forward left next

/-- `selectForward`. -/
def selectForward (selected : SourceMapSelection) : Except SourceMapError SourceMapSelection :=
  source.forward target timeBase (source.count - (selected.ordinal + 1)) selected

/-- The loop of `selectBinary`, which takes fewer turns than there are records. -/
def bisect : Nat → Nat → Nat → Except SourceMapError Nat
  | 0, low, _ => .ok low
  | fuel + 1, low, high =>
    if low + 1 < high then do
      let record ← source.readRecord (low + (high - low) / 2)
      if (← comparePTSTime record.sourcePTS timeBase target) = .gt then
        bisect fuel low (low + (high - low) / 2)
      else bisect fuel (low + (high - low) / 2) high
    else .ok low

/-- `selectBinary`. -/
def selectBinary : Except SourceMapError SourceMapSelection := do
  let first ← source.readRecord 0
  if (← comparePTSTime first.sourcePTS timeBase target) ≠ .lt then return first
  source.readRecord (← source.bisect target timeBase source.count 0 source.count)

/-- The search that `SelectFloor` decides on. -/
def select (cursor : SourceMapCursor) : Except SourceMapError SourceMapSelection :=
  match cursor.last with
  | some (lastTarget, lastSelected) =>
    if target.compare lastTarget ≠ .lt then source.selectForward target timeBase lastSelected
    else source.selectBinary target timeBase
  | none => source.selectBinary target timeBase

/-- `SelectFloor`. -/
def selectFloor (cursor : SourceMapCursor) :
    Except SourceMapError (SourceMapSelection × SourceMapCursor) := do
  ensure timeBase.isPositive .selectionInput
  let selected ← source.select target timeBase cursor
  return (selected, ⟨some (target, selected)⟩)

/-- Calls of `SelectFloor` on a cursor, one after another. -/
def selectAll : SourceMapCursor → List RationalTime →
    Except SourceMapError (List SourceMapSelection)
  | _, [] => .ok []
  | cursor, target :: targets => do
    let (selected, cursor) ← source.selectFloor target timeBase cursor
    return selected :: (← selectAll cursor targets)

/-! ## What is selected -/

/-- The record is later than the target. -/
def Late (ordinal : Nat) : Prop := target.toRat < (source.record ordinal).sourcePTS * timeBase.toRat

/-- The record is not later than the target, or the first one, and all records that follow are
    later. -/
structure IsFloor (ordinal : Nat) : Prop where
  lt : ordinal < source.count
  reached : ordinal = 0 ∨ ¬source.Late target timeBase ordinal
  later : ∀ i < source.count, ordinal < i → source.Late target timeBase i

variable {source target timeBase} {i j : Nat}

theorem count_pos : 0 < source.count := List.length_pos_of_ne_nil source.nonempty

theorem IsFloor.unique (hi : source.IsFloor target timeBase i)
    (hj : source.IsFloor target timeBase j) : i = j := by
  rcases lt_trichotomy i j with hlt | heq | hlt
  · exact absurd (hi.later j hj.lt hlt) (hj.reached.resolve_left (by omega))
  · exact heq
  · exact absurd (hj.later i hi.lt hlt) (hi.reached.resolve_left (by omega))

theorem readRecord_of_lt (h : i < source.count) : source.readRecord i = .ok (source.record i) := by
  rw [readRecord, ensure_of _ h]
  rfl

/-- The source PTS increase. -/
theorem sourcePTS_lt (hij : i < j) (hj : j < source.count) :
    (source.record i).sourcePTS < (source.record j).sourcePTS := by
  have : IsTrans (Int × Int) fun previous record => previous.1 < record.1 ∧ previous.2 < record.2 :=
    ⟨fun _ _ _ h h' => ⟨h.1.trans h'.1, h.2.trans h'.2⟩⟩
  have hlt := List.pairwise_iff_getElem.1 (List.isChain_iff_pairwise.1 source.ordered) i j
    (hij.trans hj) hj hij
  rw [record, record, List.getD, List.getD, List.getElem?_eq_getElem (hij.trans hj),
    List.getElem?_eq_getElem hj]
  exact hlt.1

section Positive

variable (hbase : timeBase.isPositive)

include hbase

theorem timeBase_pos : 0 < timeBase.toRat :=
  div_pos (Int.cast_pos.2 (of_decide_eq_true hbase)) timeBase.scale_pos

/-- `comparePTSTime` compares the time of a PTS with the target. -/
theorem comparePTSTime_ok (pts : Int) (target : RationalTime) : ∃ ordering,
    comparePTSTime pts timeBase target = .ok ordering ∧
      (ordering = .gt ↔ target.toRat < pts * timeBase.toRat) ∧
      (ordering = .lt ↔ pts * timeBase.toRat < target.toRat) := by
  refine ⟨_, by rw [comparePTSTime, ensure_of _ hbase]; rfl, ?_, ?_⟩
  · rw [compare_gt_iff_gt, toRat, toRat, ← mul_div_assoc,
      div_lt_div_iff₀ target.scale_pos timeBase.scale_pos]
    exact_mod_cast Iff.rfl
  · rw [compare_lt_iff_lt, toRat, toRat, ← mul_div_assoc,
      div_lt_div_iff₀ timeBase.scale_pos target.scale_pos]
    exact_mod_cast Iff.rfl

theorem Late.mono (h : source.Late target timeBase i) (hij : i ≤ j) (hj : j < source.count) :
    source.Late target timeBase j := by
  rcases hij.lt_or_eq with hlt | rfl
  · exact h.trans (mul_lt_mul_of_pos_right (Int.cast_lt.2 (sourcePTS_lt hlt hj))
      (timeBase_pos hbase))
  · exact h

/-- The loop goes on from a record that is not later than the target, or from the first one. -/
theorem forward_isFloor {left : Nat} (hi : i + 1 + left = source.count)
    (hreached : i = 0 ∨ ¬source.Late target timeBase i) : ∃ ordinal,
      source.forward target timeBase left (source.record i) = .ok (source.record ordinal) ∧
      source.IsFloor target timeBase ordinal := by
  induction left generalizing i with
  | zero => exact ⟨i, rfl, by omega, hreached, by omega⟩
  | succ left ih =>
    obtain ⟨_, hcompare, hgt, -⟩ := comparePTSTime_ok hbase (source.record (i + 1)).sourcePTS target
    have hnext : source.readRecord ((source.record i).ordinal + 1) = .ok (source.record (i + 1)) :=
      readRecord_of_lt (show i + 1 < source.count by omega)
    rw [forward, hnext, ok_bind, hcompare, ok_bind]
    split
    · next h => exact ⟨i, rfl, by omega, hreached, fun j hj hlt => Late.mono hbase (hgt.1 h) hlt hj⟩
    · next h => exact ih (by omega) (.inr (mt hgt.2 h))

/-- The loop keeps a record that is not later than the target below those that are. -/
theorem bisect_isFloor {fuel low high : Nat} (hlow : low < high) (hfuel : high ≤ low + 1 + fuel)
    (hhigh : high ≤ source.count) (hreached : ¬source.Late target timeBase low)
    (hlater : ∀ i < source.count, high ≤ i → source.Late target timeBase i) : ∃ ordinal,
      source.bisect target timeBase fuel low high = .ok ordinal ∧
      source.IsFloor target timeBase ordinal := by
  induction fuel generalizing low high with
  | zero => exact ⟨low, rfl, by omega, .inr hreached, fun i hi hlt => hlater i hi (by omega)⟩
  | succ fuel ih =>
    rw [bisect]
    split
    · obtain ⟨_, hcompare, hgt, -⟩ := comparePTSTime_ok hbase
        (source.record (low + (high - low) / 2)).sourcePTS target
      rw [readRecord_of_lt (by omega), ok_bind, hcompare, ok_bind]
      split
      · next h =>
        exact ih (by omega) (by omega) (by omega) hreached fun i hi hle =>
          Late.mono hbase (hgt.1 h) hle hi
      · next h => exact ih (by omega) (by omega) hhigh (mt hgt.2 h) hlater
    · exact ⟨low, rfl, by omega, .inr hreached, fun i hi hlt => hlater i hi (by omega)⟩

theorem selectBinary_isFloor : ∃ ordinal,
    source.selectBinary target timeBase = .ok (source.record ordinal) ∧
      source.IsFloor target timeBase ordinal := by
  obtain ⟨_, hcompare, -, hlt⟩ := comparePTSTime_ok hbase (source.record 0).sourcePTS target
  rw [selectBinary, readRecord_of_lt count_pos, ok_bind, hcompare, ok_bind]
  split
  · next h =>
    refine ⟨0, rfl, count_pos, .inl rfl, fun i hi hpos => ?_⟩
    have hpts := mul_lt_mul_of_pos_right (Int.cast_lt.2 (sourcePTS_lt hpos hi)) (timeBase_pos hbase)
    exact (not_lt.1 (mt hlt.2 h)).trans_lt hpts
  · next h =>
    have hreached : ¬source.Late target timeBase 0 := (hlt.1 (not_not.1 h)).not_gt
    have hfuel : source.count ≤ 0 + 1 + source.count := by omega
    obtain ⟨ordinal, hbisect, hfloor⟩ :=
      bisect_isFloor hbase count_pos hfuel le_rfl hreached (by omega)
    rw [hbisect, ok_bind, readRecord_of_lt hfloor.lt]
    exact ⟨ordinal, rfl, hfloor⟩

/-- The cursor holds what its last target selects. -/
def Sound (source : SourceMap) (timeBase : RationalTime) (cursor : SourceMapCursor) : Prop :=
  ∀ last ∈ cursor.last, ∃ ordinal, last.2 = source.record ordinal ∧
    source.IsFloor last.1 timeBase ordinal

variable {cursor : SourceMapCursor}

theorem selectFloor_isFloor (hcursor : source.Sound timeBase cursor)
    (target : RationalTime) : ∃ ordinal, source.selectFloor target timeBase cursor =
        .ok (source.record ordinal, ⟨some (target, source.record ordinal)⟩) ∧
      source.IsFloor target timeBase ordinal := by
  rw [selectFloor, ensure_of _ hbase, ok_bind]
  suffices h : ∃ ordinal, source.select target timeBase cursor = .ok (source.record ordinal) ∧
      source.IsFloor target timeBase ordinal by
    obtain ⟨ordinal, hselected, hfloor⟩ := h
    rw [hselected]
    exact ⟨ordinal, rfl, hfloor⟩
  rw [select]
  split
  · next lastTarget lastSelected hlast =>
    obtain ⟨ordinal, hrecord, hfloor⟩ := hcursor _ hlast
    obtain rfl : lastSelected = source.record ordinal := hrecord
    split
    · next hge =>
      -- What was not later than the last target is not later than this one.
      have hle : lastTarget.toRat ≤ target.toRat :=
        le_iff_toRat.1 (not_lt.1 (mt compare_eq_lt.2 hge))
      have := hfloor.lt
      exact forward_isFloor hbase (Nat.add_sub_of_le this)
        (hfloor.reached.imp_right fun h hlate => h (hle.trans_lt hlate))
    · exact selectBinary_isFloor hbase
  · exact selectBinary_isFloor hbase

theorem selectAll_isFloor (hcursor : source.Sound timeBase cursor) (targets : List RationalTime) :
    ∃ selections, source.selectAll timeBase cursor targets = .ok selections ∧
      List.Forall₂ (fun target selected => ∃ ordinal, selected = source.record ordinal ∧
        source.IsFloor target timeBase ordinal) targets selections := by
  induction targets generalizing cursor with
  | nil => exact ⟨[], rfl, .nil⟩
  | cons target targets ih =>
    obtain ⟨ordinal, hselected, hfloor⟩ := selectFloor_isFloor hbase hcursor target
    have hsound : source.Sound timeBase ⟨some (target, source.record ordinal)⟩ := by
      rintro _ ⟨⟩
      exact ⟨ordinal, rfl, hfloor⟩
    obtain ⟨selections, hselections, hfloors⟩ := ih hsound
    refine ⟨source.record ordinal :: selections, ?_, .cons ⟨ordinal, rfl, hfloor⟩ hfloors⟩
    rw [selectAll, hselected, ok_bind]
    dsimp only
    rw [hselections]
    rfl

end Positive

end SourceMap

open SourceMap

/-- Calls with any targets, in any order, succeed on one cursor. Each one selects a record: the one
    with the greatest source PTS of those that are not later than its target, or record 0 if every
    record is later. A call on a fresh cursor selects the same. -/
theorem selectFloor_history_independent (source : SourceMap) {timeBase : RationalTime}
    (hbase : timeBase.isPositive) (targets : List RationalTime) :
    ∃ selections, source.selectAll timeBase newCursor targets = .ok selections ∧
      List.Forall₂ (fun target selected => ∃ ordinal < source.count,
        selected = source.record ordinal ∧
        (selected.sourcePTS * timeBase.toRat ≤ target.toRat ∨ ordinal = 0 ∧
          ∀ i < source.count, target.toRat < (source.record i).sourcePTS * timeBase.toRat) ∧
        (∀ i < source.count, (source.record i).sourcePTS * timeBase.toRat ≤ target.toRat →
          (source.record i).sourcePTS ≤ selected.sourcePTS) ∧
        ∃ cursor, source.selectFloor target timeBase newCursor = .ok (selected, cursor))
        targets selections := by
  have hfresh : source.Sound timeBase newCursor := by
    rintro _ ⟨⟩
  obtain ⟨selections, hselections, hfloors⟩ := selectAll_isFloor hbase hfresh targets
  refine ⟨selections, hselections, hfloors.imp ?_⟩
  rintro target _ ⟨ordinal, rfl, hfloor⟩
  obtain ⟨_, hother, hfloor'⟩ := selectFloor_isFloor hbase hfresh target
  obtain rfl := hfloor.unique hfloor'
  refine ⟨ordinal, hfloor.lt, rfl, ?_, fun i hi htime => ?_, _, hother⟩
  · by_cases hlate : source.Late target timeBase ordinal
    · have hzero := hfloor.reached.resolve_right (not_not.2 hlate)
      exact .inr ⟨hzero, fun i hi => Late.mono hbase hlate (hzero ▸ i.zero_le) hi⟩
    · exact .inl (not_lt.1 hlate)
  · rcases lt_trichotomy i ordinal with hlt | rfl | hlt
    · exact (sourcePTS_lt hlt hfloor.lt).le
    · exact le_rfl
    · exact absurd (hfloor.later i hi hlt) (not_lt.2 htime)

/-- Three records in seconds, and a target between the first two. -/
theorem selectFloor_history_independent_between : ∃ selections,
    selectAll ⟨[(0, 0), (10, 1), (20, 2)], by decide, by decide⟩ 1 newCursor [1, 1] =
      .ok selections := by
  obtain ⟨selections, h, -⟩ := selectFloor_history_independent
    ⟨[(0, 0), (10, 1), (20, 2)], by decide, by decide⟩
    (show (1 : RationalTime).isPositive by decide) [1, 1]
  exact ⟨selections, h⟩

end OpenCut
