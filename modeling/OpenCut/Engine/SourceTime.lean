import Mathlib.Algebra.Order.Floor.Semiring
import Mathlib.Data.Rat.Floor
import OpenCut.Render.Published

/-!
# Output frames, output samples and source times

`renderengine/source_map.go`, `audio_decode_plan.go`: the output has a frame every `1 / rate`
seconds and a sample every `1 / 48000` seconds. An instruction is active at a frame or a
sample whose time its timeline range covers, and reads its source at the time that is as
far from the start of the source range (`sourceTimeAt_eq_some`). These times are computed
as `RationalTime`s, so that a source time may be too fine to be computed.
-/

namespace OpenCut

open Outcome RationalTime TimeRange

/-- Why the render engine refuses to go on. -/
inductive EngineError
  /-- `ErrInvalidRationalTime` or `ErrTimeOverflow`. -/
  | time
  /-- A `ResourceLimitError` on "output-frame-time". -/
  | outputFrameTime
  /-- An error of the render contract. -/
  | contract (error : RenderError)
  /-- "video source-time input is invalid" -/
  | videoSourceTimeInput
  /-- "video source-time ranges are invalid" -/
  | videoSourceTimeRanges
  /-- "audio source-time input is invalid" -/
  | audioSourceTimeInput
  /-- "audio source-time ranges are invalid" -/
  | audioSourceTimeRanges
  /-- "settle plan output frame is invalid" -/
  | settleOutputFrame
  /-- "settle plan frame rate is invalid" -/
  | settleFrameRate
  /-- "settle plan caption range is invalid" -/
  | settleCaptionRange
  /-- `ErrSettleInstantEmpty`. -/
  | settleInstantEmpty
deriving DecidableEq

/-! ## Times -/

namespace RationalTime

/-- The rational is a time: its parts fit in their machine range. -/
def Representable (q : ℚ) : Prop := ∃ t : RationalTime, t.toRat = q

theorem add?_isSome {a b : RationalTime} :
    (a.add? b).isSome ↔ Representable (a.toRat + b.toRat) := by
  rw [Option.isSome_iff_exists]
  exact exists_congr fun _ => add?_eq_some

/-- `NewRationalTime` of parts in their machine range. -/
theorem exists_new? (value : Int) (scale : Nat) (hvalue : value.natAbs ≤ maxInt64)
    (hpos : 0 < scale) (hscale : scale ≤ maxInt32) :
    ∃ t, new? value scale = some t ∧ t.toRat = value / scale := by
  set d := value.natAbs.gcd scale with hd
  have hd0 : 0 < d := Nat.gcd_pos_of_pos_right _ hpos
  have habs : (value.tdiv d).natAbs ≤ maxInt64 := by
    rw [Int.natAbs_tdiv, Int.natAbs_natCast]
    exact (Nat.div_le_self _ _).trans hvalue
  have hreduced : ReducedFraction (value.tdiv d) (scale / d) := by
    refine ⟨by omega, by omega, ?_, (Nat.div_le_self _ _).trans hscale, ?_⟩
    · exact Nat.div_pos (Nat.le_of_dvd hpos (Nat.gcd_dvd_right _ _)) hd0
    · rw [Int.natAbs_tdiv, Int.natAbs_natCast]
      exact Nat.coprime_div_gcd_div_gcd hd0
  have hnew : new? value scale = some ⟨_, _, hreduced⟩ := dif_pos hreduced
  exact ⟨_, hnew, toRat_new? hpos hnew⟩

end RationalTime

/-- The range covers the instant. -/
def TimeRange.Covers (range : TimeRange) (t : ℚ) : Prop :=
  range.start.toRat ≤ t ∧ t < range.start.toRat + range.duration.toRat

instance (range : TimeRange) (t : ℚ) : Decidable (range.Covers t) :=
  inferInstanceAs (Decidable (_ ∧ _))

/-- When a frame begins. -/
def frameTime (frameRate : RationalTime) (outputFrame : Nat) : ℚ := outputFrame / frameRate.toRat

/-- The source time that an instruction reads at the instant. -/
def TimeRange.sourceTime (sourceRange timelineRange : TimeRange) (t : ℚ) : ℚ :=
  sourceRange.start.toRat + (t - timelineRange.start.toRat)

/-! ## Source times of instructions -/

/-- The common end of `VideoInstructionSourceTime` and `AudioInstructionSourceTime`: the source
    time at `outputTime`, if the timeline range covers it. -/
def sourceTimeAt (sourceRange timelineRange : TimeRange) (outputTime : RationalTime) :
    Except EngineError (Option RationalTime) := do
  let stop ← need timelineRange.end? .time
  if outputTime < timelineRange.start ∨ stop ≤ outputTime then return none
  let negativeStart ←
    need (RationalTime.new? (-timelineRange.start.value) timelineRange.start.scale) .time
  let offset ← need (outputTime.add? negativeStart) .time
  let sourceTime ← need (sourceRange.start.add? offset) .time
  return some sourceTime

variable (instruction : RenderVideoInstruction) (outputFrame : Nat)

/-- `VideoInstructionSourceTime`: nothing if the instruction is not active at the frame. -/
def videoInstructionSourceTime
    (frameRate : RationalTime) : Except EngineError (Option RationalTime) := do
  ensure (frameRate.isPositive ∧ outputFrame ≤ maxInt64 ∧ frameRate.value ≤ maxInt32 ∧
    instruction.sourceRange.duration.isPositive ∧ instruction.timelineRange.duration.isPositive ∧
    instruction.timelineRange.start.isNegative = false) .videoSourceTimeInput
  ensure (instruction.sourceRange.duration = instruction.timelineRange.duration)
    .videoSourceTimeRanges
  ensure (outputFrame * frameRate.scale ≤ maxInt64) .outputFrameTime
  let outputTime ←
    need (RationalTime.new? (outputFrame * frameRate.scale : Nat) frameRate.value.toNat) .time
  sourceTimeAt instruction.sourceRange instruction.timelineRange outputTime

/-- `AudioInstructionSourceTime`: nothing if the instruction is not active at the sample. -/
def audioInstructionSourceTime (instruction : RenderAudioInstruction) (outputSample : Nat) :
    Except EngineError (Option RationalTime) := do
  ensure (outputSample ≤ maxInt64 ∧ instruction.sourceRange.duration.isPositive ∧
    instruction.timelineRange.duration.isPositive ∧
    instruction.timelineRange.start.isNegative = false) .audioSourceTimeInput
  ensure (instruction.sourceRange.duration = instruction.timelineRange.duration)
    .audioSourceTimeRanges
  let outputTime ← need (RationalTime.new? outputSample sequencePreviewAudioSampleRate) .time
  sourceTimeAt instruction.sourceRange instruction.timelineRange outputTime

section

variable {sourceRange timelineRange : TimeRange} {outputTime : RationalTime}

/-- The comparisons of the source say that the range covers the instant. -/
theorem TimeRange.not_covers_iff {stop : RationalTime} (hstop : timelineRange.end? = some stop)
    (outputTime : RationalTime) : outputTime < timelineRange.start ∨ stop ≤ outputTime ↔
      ¬timelineRange.Covers outputTime.toRat := by
  rw [Covers, not_and_or, not_le, not_lt, lt_iff_toRat, le_iff_toRat, toRat_end hstop]

section

variable (hend : timelineRange.end?.isSome)
include hend

theorem sourceTimeAt_eq_none : sourceTimeAt sourceRange timelineRange outputTime = .ok none ↔
      ¬timelineRange.Covers outputTime.toRat := by
  obtain ⟨_, hstop⟩ := Option.isSome_iff_exists.1 hend
  rw [← not_covers_iff hstop, sourceTimeAt, hstop, need, ok_bind]
  split
  · next h => simp [h, pure, Except.pure]
  · next h =>
    simp only [steps_ok, h, iff_false]
    rintro ⟨_, -, _, -, _, -, hnone⟩
    exact absurd hnone (by simp)

theorem sourceTimeAt_eq_some (hneg : timelineRange.start.isNegative = false) {t : RationalTime} :
    sourceTimeAt sourceRange timelineRange outputTime = .ok (some t) ↔
      timelineRange.Covers outputTime.toRat ∧
      RationalTime.Representable (outputTime.toRat - timelineRange.start.toRat) ∧
      t.toRat = sourceRange.sourceTime timelineRange outputTime.toRat := by
  obtain ⟨_, hstop⟩ := Option.isSome_iff_exists.1 hend
  have hnot := not_covers_iff hstop outputTime
  rw [sourceTimeAt, hstop, need, ok_bind]
  split
  · next h => simp [hnot.1 h, pure, Except.pure]
  · next h =>
    -- The negated start is a time, since the start is not negative.
    have hvalue : (-timelineRange.start.value).natAbs ≤ maxInt64 := by
      have hle := timelineRange.start.valid.value_le
      rw [isNegative, decide_eq_false_iff_not] at hneg
      omega
    obtain ⟨negative, hnew, hnegative⟩ := exists_new? _ _ hvalue
      timelineRange.start.valid.scale_pos timelineRange.start.valid.scale_le
    have hnegative' : negative.toRat = -timelineRange.start.toRat := by
      rw [hnegative, toRat]
      push_cast
      ring
    simp only [hnew, steps_ok, Option.some.injEq, exists_eq_left',
      not_not.1 (fun hc => h (hnot.2 hc)), true_and, add?_eq_some, hnegative', sourceTime,
      RationalTime.Representable]
    constructor
    · rintro ⟨offset, hoffset, t', ht', rfl⟩
      exact ⟨⟨offset, by rw [hoffset]; ring⟩, by rw [ht', hoffset]; ring⟩
    · rintro ⟨⟨offset, hoffset⟩, ht⟩
      exact ⟨offset, by rw [hoffset]; ring, t, by rw [ht, hoffset], rfl⟩

/-- What the source time of an instruction is refused with, if its ranges are in order. -/
theorem sourceTimeAt_error {e : EngineError}
    (h : sourceTimeAt sourceRange timelineRange outputTime = .error e) : e = .time := by
  obtain ⟨_, hstop⟩ := Option.isSome_iff_exists.1 hend
  rw [sourceTimeAt, hstop, need, ok_bind] at h
  split at h
  · cases h
  · simp only [bind_error, need_error, pure_error, and_false, exists_false, or_false] at h
    rcases h with ⟨-, rfl⟩ | ⟨_, -, ⟨-, rfl⟩ | ⟨_, -, -, rfl⟩⟩
    all_goals rfl

end

end

variable {frameRate : RationalTime}

/-- The source time of an instruction at a frame, for the frame rates and the frames that the
    engine can count. -/
theorem videoInstructionSourceTime_of_ranges (hsource : instruction.sourceRange.duration.isPositive)
    (htimeline : instruction.timelineRange.duration.isPositive)
    (hstart : instruction.timelineRange.start.isNegative = false)
    (hequal : instruction.sourceRange.duration = instruction.timelineRange.duration)
    (hrate : frameRate.isPositive)
    (hvalue : frameRate.value ≤ maxInt32) (hframe : outputFrame * frameRate.scale ≤ maxInt64) :
    ∃ outputTime : RationalTime, outputTime.toRat = frameTime frameRate outputFrame ∧
      videoInstructionSourceTime instruction outputFrame frameRate =
        sourceTimeAt instruction.sourceRange instruction.timelineRange outputTime := by
  have hpos : 0 < frameRate.value := by simpa [isPositive] using hrate
  have hframe' : outputFrame ≤ maxInt64 :=
    (Nat.le_mul_of_pos_right _ frameRate.valid.scale_pos).trans hframe
  obtain ⟨outputTime, hnew, htime⟩ := exists_new?
    (outputFrame * frameRate.scale : Nat) frameRate.value.toNat
    ((Int.natAbs_natCast _).trans_le hframe) (by omega) (by omega)
  refine ⟨outputTime, ?_, ?_⟩
  · rw [htime, frameTime, toRat]
    have hcast : ((frameRate.value.toNat : Nat) : ℚ) = (frameRate.value : ℚ) := by
      exact_mod_cast Int.toNat_of_nonneg hpos.le
    rw [hcast, div_div_eq_mul_div]
    push_cast
    rfl
  · rw [videoInstructionSourceTime,
      ensure_of _ ⟨hrate, hframe', hvalue, hsource, htimeline, hstart⟩, ok_bind,
      ensure_of _ hequal, ok_bind, ensure_of _ hframe, ok_bind, hnew, need, ok_bind]

theorem videoInstructionSourceTime_eq {inputs : List RenderPlanInput}
    {instruction : RenderVideoInstruction} (h : instruction.valid inputs) {outputFrame : Nat}
    (hrate : frameRate.isPositive) (hvalue : frameRate.value ≤ maxInt32)
    (hframe : outputFrame * frameRate.scale ≤ maxInt64) :
    ∃ outputTime : RationalTime, outputTime.toRat = frameTime frameRate outputFrame ∧
      videoInstructionSourceTime instruction outputFrame frameRate =
        sourceTimeAt instruction.sourceRange instruction.timelineRange outputTime := by
  obtain ⟨hsource, htimeline, hequal⟩ := RenderVideoInstruction.ranges_of_valid h
  obtain ⟨hsource, -⟩ := validatePositiveRange_iff.1 hsource
  obtain ⟨htimeline, hstart, -⟩ := validatePositiveRange_iff.1 htimeline
  exact videoInstructionSourceTime_of_ranges instruction outputFrame hsource htimeline (hstart rfl)
    hequal hrate hvalue hframe

end OpenCut
