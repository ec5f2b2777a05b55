import OpenCut.Render.Contract

/-!
# Output policies

`rendercontract/output.go` and `SequenceFormat`: the size and the number of frames and
samples of what a plan renders, derived from the format of the sequence and the duration.
-/

namespace OpenCut

open Outcome

/-- The format of a sequence. Audio layout and colour policy have one value each and are
    left out. -/
structure SequenceFormat where
  canvasWidth : Nat
  canvasHeight : Nat
  pixelAspect : RationalTime
  frameRate : RationalTime
  audioSampleRate : Nat

/-- The whole number `n` of seconds, or of units per second. -/
def RationalTime.ofNat (n : Nat) (h : n ≤ maxInt64) : RationalTime :=
  ⟨n, 1, ReducedFraction.ofNat n h⟩

/-- `SequenceFormat.Validate`. -/
def SequenceFormat.valid (format : SequenceFormat) : Bool :=
  16 ≤ format.canvasWidth && format.canvasWidth ≤ 16384 && 16 ≤ format.canvasHeight &&
    format.canvasHeight ≤ 16384 && format.pixelAspect.isPositive && format.frameRate.isPositive &&
    format.frameRate ≤ RationalTime.ofNat 240 (by decide) && 8000 ≤ format.audioSampleRate &&
    format.audioSampleRate ≤ 384000

/-- The profiles of what is rendered. -/
inductive OutputProfile
  /-- `SequencePreviewProfileV1`. -/
  | sequencePreview
  /-- `SequenceExportProfileV1`. -/
  | sequenceExport
deriving DecidableEq

/-- What is written out. -/
structure RenderOutputPolicy where
  profile : OutputProfile
  canvasWidth : Nat
  canvasHeight : Nat
  pixelAspect : RationalTime
  frameRate : RationalTime
  videoFrameCount : Nat
  audioSampleCount : Nat
deriving DecidableEq

/-- `ceilRenderCount`: how many ticks of the rate begin in the duration. -/
def ceilRenderCount (duration rate : RationalTime) : Except RenderError Nat := do
  ensure (duration.isPositive ∧ rate.isPositive) .planInvalid
  let numerator := duration.value.toNat * rate.value.toNat
  let denominator := duration.scale * rate.scale
  let count := numerator / denominator + if numerator % denominator = 0 then 0 else 1
  ensure (count ≤ maxInt64 ∧ count ≠ 0) .planInvalid
  return count

/-- `floorBigRatio`. -/
def floorBigRatio (numerator denominator : Nat) : Nat :=
  let result := numerator / denominator
  if numerator = 0 ∨ denominator = 0 ∨ maxInt64 < result then 0 else result

/-- `evenFloor`. -/
def evenFloor (value : Nat) : Nat := value - value % 2

/-- `sequencePreviewDimensions`: the size of the preview, whose longer side is at most
    `SequencePreviewMaximumLongEdge`. -/
def sequencePreviewDimensions (format : SequenceFormat) : Except RenderError (Nat × Nat) := do
  ensure (format.valid ∧ format.pixelAspect.isPositive) .planInvalid
  let displayWidth := format.canvasWidth * format.pixelAspect.value.toNat
  let displayScale := format.pixelAspect.scale
  let heightScaled := format.canvasHeight * displayScale
  let (width, height) :=
    if heightScaled ≤ displayWidth then
      let width := evenFloor (min (floorBigRatio displayWidth displayScale)
        sequencePreviewMaximumLongEdge)
      (width, evenFloor (floorBigRatio (width * heightScaled) displayWidth))
    else
      let height := evenFloor (min format.canvasHeight sequencePreviewMaximumLongEdge)
      (evenFloor (floorBigRatio (height * displayWidth) heightScaled), height)
  ensure (2 ≤ width ∧ 2 ≤ height) .planInvalid
  return (width, height)

variable (format : SequenceFormat) (duration : RationalTime)

/-- The frames and samples that a duration takes, within the limits. -/
def renderCounts : Except RenderError (Nat × Nat) := do
  let videoFrameCount ← ceilRenderCount duration format.frameRate
  let audioSampleCount ← ceilRenderCount duration
    (.ofNat sequencePreviewAudioSampleRate (by decide))
  ensure (videoFrameCount ≤ maximumPreviewVideoFrames ∧
    audioSampleCount ≤ maximumPreviewAudioSamples) .planInvalid
  return (videoFrameCount, audioSampleCount)

/-- `SequencePreviewOutput`. -/
def sequencePreviewOutput : Except RenderError RenderOutputPolicy := do
  let (width, height) ← sequencePreviewDimensions format
  let (videoFrameCount, audioSampleCount) ← renderCounts format duration
  return { profile := .sequencePreview, canvasWidth := width, canvasHeight := height,
           pixelAspect := 1, frameRate := format.frameRate,
           videoFrameCount, audioSampleCount }

/-- `SequenceExportOutput`. -/
def sequenceExportOutput : Except RenderError RenderOutputPolicy := do
  ensure (format.valid ∧ format.canvasWidth % 2 = 0 ∧ format.canvasHeight % 2 = 0) .planInvalid
  ensure (format.pixelAspect = 1) .planInvalid
  let (videoFrameCount, audioSampleCount) ← renderCounts format duration
  return { profile := .sequenceExport, canvasWidth := format.canvasWidth,
           canvasHeight := format.canvasHeight, pixelAspect := 1,
           frameRate := format.frameRate, videoFrameCount, audioSampleCount }

end OpenCut
