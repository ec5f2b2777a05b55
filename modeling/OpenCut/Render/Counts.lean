import Mathlib.Algebra.Order.Floor.Semifield
import Mathlib.Data.Nat.Cast.Order.Field
import OpenCut.Lib.Rounding
import OpenCut.Render.Published

/-!
# Frames and samples of an output

The output of a plan has as many frames and samples as begin in the duration of the plan
(`output_counts`), and the canvas of its sequence, whatever the duration (`output_canvas`). A
preview keeps the aspect ratio of the canvas (`sequencePreviewDimensions_fit`).
-/

namespace OpenCut

open Outcome RationalTime

theorem RationalTime.toRat_of_pos {t : RationalTime} (h : 0 < t.value) :
    t.toRat = (t.value.toNat : ℚ) / t.scale := by
  have hcast : ((t.value.toNat : ℕ) : ℚ) = (t.value : ℚ) := by
    exact_mod_cast Int.toNat_of_nonneg h.le
  rw [toRat, hcast]

variable {duration : RationalTime}

/-- `ceilRenderCount` is the ceiling of the product. -/
theorem ceilRenderCount_ok {rate : RationalTime} {count : Nat} :
    ceilRenderCount duration rate = .ok count ↔ duration.isPositive ∧ rate.isPositive ∧
      count = ⌈duration.toRat * rate.toRat⌉₊ ∧ count ≤ maxInt64 := by
  rw [ceilRenderCount, bind_ok]
  have hden : 0 < duration.scale * rate.scale :=
    Nat.mul_pos duration.valid.scale_pos rate.valid.scale_pos
  have hproduct (hd : 0 < duration.value) (hr : 0 < rate.value) :
      ((duration.value.toNat * rate.value.toNat : ℕ) : ℚ) / (duration.scale * rate.scale : ℕ) =
        duration.toRat * rate.toRat := by
    rw [toRat_of_pos hd, toRat_of_pos hr, div_mul_div_comm]
    push_cast
    rfl
  simp only [steps_ok, isPositive, decide_eq_true_iff, Rounding.ceil_quotient _ hden]
  constructor
  · rintro ⟨⟨hd, hr⟩, ⟨hle, -⟩, rfl⟩
    exact ⟨hd, hr, by rw [hproduct hd hr], hle⟩
  · rintro ⟨hd, hr, rfl, hle⟩
    rw [hproduct hd hr]
    refine ⟨⟨hd, hr⟩, ⟨hle, ?_⟩, rfl⟩
    have hpos : 0 < duration.toRat * rate.toRat :=
      mul_pos (isPositive_iff.1 (by simpa [isPositive] using hd))
        (isPositive_iff.1 (by simpa [isPositive] using hr))
    exact (Nat.ceil_pos.2 hpos).ne'

theorem toRat_ofNat (n : Nat) (h : n ≤ maxInt64) : (RationalTime.ofNat n h).toRat = n := by
  simp [ofNat, toRat]

/-- The counts of an output. -/
structure RenderOutputPolicy.Counts (output : RenderOutputPolicy) (format : SequenceFormat)
    (duration : RationalTime) : Prop where
  frameRate : output.frameRate = format.frameRate
  frames : output.videoFrameCount = ⌈duration.toRat * format.frameRate.toRat⌉₊
  samples : output.audioSampleCount = ⌈duration.toRat * sequencePreviewAudioSampleRate⌉₊
  frames_le : output.videoFrameCount ≤ maximumPreviewVideoFrames
  samples_le : output.audioSampleCount ≤ maximumPreviewAudioSamples
  rate_pos : format.frameRate.isPositive

variable {format : SequenceFormat}

theorem renderCounts_ok {frames samples : Nat}
    (h : renderCounts format duration = .ok (frames, samples)) :
    frames = ⌈duration.toRat * format.frameRate.toRat⌉₊ ∧
      samples = ⌈duration.toRat * sequencePreviewAudioSampleRate⌉₊ ∧
      frames ≤ maximumPreviewVideoFrames ∧ samples ≤ maximumPreviewAudioSamples ∧
      format.frameRate.isPositive := by
  simp only [renderCounts, steps_ok, ceilRenderCount_ok, Prod.mk.injEq, toRat_ofNat] at h
  obtain ⟨_, ⟨-, hrate, rfl, -⟩, _, ⟨-, -, rfl, -⟩, ⟨hframes, hsamples⟩, rfl, rfl⟩ := h
  exact ⟨rfl, rfl, hframes, hsamples, hrate⟩

variable {purpose : RenderPlanPurpose}

/-- The output of a plan has the counts of its duration. -/
theorem output_counts {output : RenderOutputPolicy}
    (h : purpose.output format duration = .ok output) : output.Counts format duration := by
  cases purpose with
  | sequencePreview =>
    simp only [RenderPlanPurpose.output, sequencePreviewOutput, steps_ok] at h
    obtain ⟨_, -, ⟨frames, samples⟩, hcounts, rfl⟩ := h
    obtain ⟨hframes, hsamples, hle, hle', hrate⟩ := renderCounts_ok hcounts
    exact ⟨rfl, hframes, hsamples, hle, hle', hrate⟩
  | «export» =>
    simp only [RenderPlanPurpose.output, sequenceExportOutput, steps_ok] at h
    obtain ⟨-, -, ⟨_, _⟩, hcounts, rfl⟩ := h
    obtain ⟨hframes, hsamples, hle, hle', hrate⟩ := renderCounts_ok hcounts
    exact ⟨rfl, hframes, hsamples, hle, hle', hrate⟩

/-- The canvas does not depend on the duration. -/
theorem output_canvas {duration' : RationalTime} {output output' : RenderOutputPolicy}
    (h : purpose.output format duration = .ok output)
    (h' : purpose.output format duration' = .ok output') :
    output.canvasWidth = output'.canvasWidth ∧ output.canvasHeight = output'.canvasHeight := by
  cases purpose with
  | sequencePreview =>
    simp only [RenderPlanPurpose.output, sequencePreviewOutput, steps_ok] at h h'
    obtain ⟨_, hsize, _, -, rfl⟩ := h
    obtain ⟨_, hsize', _, -, rfl⟩ := h'
    obtain rfl := Except.ok.inj (hsize.symm.trans hsize')
    exact ⟨rfl, rfl⟩
  | «export» =>
    simp only [RenderPlanPurpose.output, sequenceExportOutput, steps_ok] at h h'
    obtain ⟨_, -, _, -, _, -, rfl⟩ := h
    obtain ⟨_, -, _, -, _, -, rfl⟩ := h'
    exact ⟨rfl, rfl⟩

/-! ## The size of a preview -/

/-- The aspect ratio of the canvas as it is shown. -/
def SequenceFormat.displayAspect (format : SequenceFormat) : ℚ :=
  format.canvasWidth * format.pixelAspect.toRat / format.canvasHeight

theorem evenFloor_even (n : Nat) : Even (evenFloor n) ∧ evenFloor n ≤ n ∧ n < evenFloor n + 2 := by
  rw [evenFloor, Nat.even_iff]
  omega

theorem floorBigRatio_le (numerator denominator : Nat) :
    floorBigRatio numerator denominator ≤ numerator / denominator := by
  dsimp only [floorBigRatio]
  split
  · exact Nat.zero_le _
  · exact le_rfl

/-- The shorter side of a preview, for a longer one that fits. -/
theorem evenFloor_scaled {side shorter longer : Nat} (hside : side ≤ maxInt64)
    (h : shorter ≤ longer) :
    evenFloor (floorBigRatio (side * shorter) longer) ≤ side * (shorter / longer : ℚ) ∧
      side * (shorter / longer : ℚ) < evenFloor (floorBigRatio (side * shorter) longer) + 2 := by
  have hle : side * shorter / longer ≤ side :=
    Nat.div_le_of_le_mul (by rw [Nat.mul_comm]; exact Nat.mul_le_mul_right _ h)
  have hfloor : floorBigRatio (side * shorter) longer = ⌊(side * (shorter / longer) : ℚ)⌋₊ := by
    rw [← mul_div_assoc, ← Nat.cast_mul, Nat.floor_div_eq_div, floorBigRatio, ite_eq_right_iff]
    rintro (hzero | rfl | _)
    · rw [hzero, Nat.zero_div]
    · rw [Nat.div_zero]
    · omega
  obtain ⟨-, hfloor_le, hlt⟩ := evenFloor_even ⌊(side * (shorter / longer) : ℚ)⌋₊
  rw [hfloor, ← Nat.le_floor_iff (by positivity)]
  exact ⟨hfloor_le, (Nat.lt_floor_add_one _).trans_le (by exact_mod_cast hlt)⟩

/-- A preview has even sides, of two pixels or more. The longer one is not longer than 1280 pixels
    and than that of the canvas as it is shown, and the shorter one is less than two pixels below
    what the aspect ratio gives for the longer one. -/
theorem sequencePreviewDimensions_fit {format : SequenceFormat} {width height : Nat}
    (h : sequencePreviewDimensions format = .ok (width, height)) :
    Even width ∧ Even height ∧ 2 ≤ width ∧ 2 ≤ height ∧
      if 1 ≤ format.displayAspect then
        width ≤ 1280 ∧ (width : ℚ) ≤ format.canvasWidth * format.pixelAspect.toRat ∧
          height ≤ width / format.displayAspect ∧ width / format.displayAspect < height + 2
      else
        height ≤ 1280 ∧ height ≤ format.canvasHeight ∧
          width ≤ height * format.displayAspect ∧ height * format.displayAspect < width + 2 := by
  simp only [sequencePreviewDimensions, steps_ok, Prod.mk.injEq] at h
  obtain ⟨⟨hvalid, hpos⟩, h⟩ := h
  have hpos := of_decide_eq_true hpos
  simp only [SequenceFormat.valid, Bool.and_eq_true, decide_eq_true_eq] at hvalid
  have hscaled : 0 < format.canvasHeight * format.pixelAspect.scale :=
    Nat.mul_pos (by omega) format.pixelAspect.valid.scale_pos
  have hwidth : format.canvasWidth * format.pixelAspect.toRat =
      (format.canvasWidth * format.pixelAspect.value.toNat : ℕ) / format.pixelAspect.scale := by
    rw [toRat_of_pos hpos, ← mul_div_assoc, Nat.cast_mul]
  have haspect : format.displayAspect = (format.canvasWidth * format.pixelAspect.value.toNat : ℕ) /
      (format.canvasHeight * format.pixelAspect.scale : ℕ) := by
    rw [SequenceFormat.displayAspect, hwidth, div_div, ← Nat.cast_mul,
      Nat.mul_comm _ format.canvasHeight]
  generalize format.canvasWidth * format.pixelAspect.value.toNat = displayWidth at *
  generalize format.canvasHeight * format.pixelAspect.scale = heightScaled at *
  have hlonger : 1 ≤ format.displayAspect ↔ heightScaled ≤ displayWidth := by
    rw [haspect, one_le_div (Nat.cast_pos.2 hscaled), Nat.cast_le]
  have hmin : ∀ n, evenFloor (min n sequencePreviewMaximumLongEdge) ≤ 1280 ∧
      evenFloor (min n sequencePreviewMaximumLongEdge) ≤ n := fun n =>
    ⟨(evenFloor_even _).2.1.trans (min_le_right _ _),
      (evenFloor_even _).2.1.trans (min_le_left _ _)⟩
  split
  · next hwide =>
    have hle := hlonger.1 hwide
    rw [if_pos hle] at h
    obtain ⟨⟨htwo, htwo'⟩, rfl, rfl⟩ := h
    obtain ⟨hedge, hfits⟩ := hmin (floorBigRatio displayWidth format.pixelAspect.scale)
    have hscaled := evenFloor_scaled (hedge.trans (by decide)) hle
    rw [hwidth, haspect, div_div_eq_mul_div, mul_div_assoc]
    exact ⟨(evenFloor_even _).1, (evenFloor_even _).1, htwo, htwo', hedge,
      (Nat.cast_le.2 (hfits.trans (floorBigRatio_le _ _))).trans Nat.cast_div_le, hscaled⟩
  · next hwide =>
    rw [hlonger] at hwide
    rw [if_neg hwide] at h
    obtain ⟨⟨htwo, htwo'⟩, rfl, rfl⟩ := h
    obtain ⟨hedge, hfits⟩ := hmin format.canvasHeight
    rw [haspect]
    exact ⟨(evenFloor_even _).1, (evenFloor_even _).1, htwo, htwo', hedge, hfits,
      evenFloor_scaled (hedge.trans (by decide)) (by omega)⟩

/-- A canvas of full high definition. -/
theorem sequencePreviewDimensions_fit_hd : ∃ format width height,
    sequencePreviewDimensions format = .ok (width, height) ∧ Even width ∧
      width = 1280 ∧ height = 720 := by
  have h : sequencePreviewDimensions ⟨1920, 1080, 1, 1, 48000⟩ = .ok (1280, 720) :=
    by decide +kernel
  exact ⟨_, _, _, h, (sequencePreviewDimensions_fit h).1, rfl, rfl⟩

/-- A canvas of 1366 by 768 pixels is shown with 1280 by 718 pixels. The width is more than the
    aspect ratio gives for the height. -/
theorem preview_wider_than_aspect : ∃ format width height,
    sequencePreviewDimensions format = .ok (width, height) ∧
      height * format.displayAspect < width := by
  refine ⟨⟨1366, 768, 1, 1, 48000⟩, 1280, 718, by decide +kernel, ?_⟩
  rw [SequenceFormat.displayAspect, toRat_one]
  norm_num

end OpenCut
