import OpenCut.Application.EditValidation

/-!
# The render contract

`product/rendercontract` and `domain/render.go`: the values that a render plan is made
of and the checks they have to pass. The render engine executes a plan only if it passes
these checks, so they are the rules a stored value has to satisfy to be rendered.

The texts that name a fixed policy (codec, container, sampling, …) are determined by the
purpose of the plan and are left out; of an output the dimensions and counts remain.
-/

namespace OpenCut

open Outcome

/-- Why no plan is compiled, or a plan is refused. -/
inductive RenderError
  /-- `ErrRenderPlanInvalid`. -/
  | planInvalid
  /-- `ErrRenderSequenceEmpty`. -/
  | sequenceEmpty
  /-- `ErrRenderInputRequired`. -/
  | inputRequired
  /-- `ErrRenderFontRequired`. -/
  | fontRequired
deriving DecidableEq

/-- `MaximumRenderPlanItems`. -/
def maximumRenderPlanItems : Nat := 65536

/-- `MaximumRenderDimension`. -/
def maximumRenderDimension : Nat := 16384

/-- `MaximumSourceProxySamples`. -/
def maximumSourceProxySamples : Nat := 8000000000

/-- `MaximumPreviewVideoFrames`. -/
def maximumPreviewVideoFrames : Nat := 10000000

/-- `MaximumPreviewAudioSamples`. -/
def maximumPreviewAudioSamples : Nat := 2000000000

/-- `SequencePreviewAudioSampleRate`. -/
def sequencePreviewAudioSampleRate : Nat := 48000

/-- `SequencePreviewMaximumLongEdge`. -/
def sequencePreviewMaximumLongEdge : Nat := 1280

/-! ## Times -/

/-- `laterRenderTime`. -/
def laterRenderTime (left right : RationalTime) : RationalTime :=
  if left < right then right else left

/-- `validatePositiveRange`. -/
def validatePositiveRange (range : TimeRange) (nonnegativeStart : Bool) : Bool :=
  range.duration.isPositive && !(nonnegativeStart && range.start.isNegative) && range.end?.isSome

/-! ## Placements -/

/-- How a frame is fitted to the canvas before it is scaled. -/
inductive FitPolicy
  | contain
  | cover

/-- Where a clip is drawn. -/
structure RenderPlacement where
  cropXBasisPoints : Nat
  cropYBasisPoints : Nat
  cropWidthBasisPoints : Nat
  cropHeightBasisPoints : Nat
  scaleX : ExactRational
  scaleY : ExactRational
  translateX : ExactRational
  translateY : ExactRational
  anchorXBasisPoints : Nat
  anchorYBasisPoints : Nat
  opacityBasisPoints : Nat
  fitPolicy : FitPolicy

/-- The whole number `n` as an exact rational. -/
def ExactRational.ofNat (n : Nat) (h : n ≤ maxInt64) : ExactRational :=
  ⟨n, 1, ReducedFraction.ofNat n h⟩

/-- The whole number `-n` as an exact rational. -/
def ExactRational.negOfNat (n : Nat) (h : n ≤ maxInt64) : ExactRational :=
  ⟨-n, 1, ⟨by omega, by omega, by decide, by decide, by simp⟩⟩

/-- The largest scale a placement may have. -/
def maximumScale : ExactRational := .ofNat 64 (by decide)

/-- The largest translation a placement may have. -/
def maximumTranslation : ExactRational := .ofNat 16 (by decide)

/-- The least translation a placement may have. -/
def minimumTranslation : ExactRational := .negOfNat 16 (by decide)

/-- `validateRenderPlacement`. -/
structure RenderPlacement.Valid (p : RenderPlacement) : Prop where
  cropWidth : p.cropWidthBasisPoints ≠ 0
  cropHeight : p.cropHeightBasisPoints ≠ 0
  cropX : p.cropXBasisPoints + p.cropWidthBasisPoints ≤ 10000
  cropY : p.cropYBasisPoints + p.cropHeightBasisPoints ≤ 10000
  anchorX : p.anchorXBasisPoints ≤ 10000
  anchorY : p.anchorYBasisPoints ≤ 10000
  opacity : p.opacityBasisPoints ≤ 10000
  scale : ∀ scale ∈ [p.scaleX, p.scaleY], scale.compare maximumScale ≠ .gt ∧ 0 < scale.value
  translate : ∀ translate ∈ [p.translateX, p.translateY],
    translate.compare minimumTranslation ≠ .lt ∧ translate.compare maximumTranslation ≠ .gt

instance (p : RenderPlacement) : Decidable p.Valid :=
  decidable_of_iff (p.cropWidthBasisPoints ≠ 0 ∧ p.cropHeightBasisPoints ≠ 0 ∧
      p.cropXBasisPoints + p.cropWidthBasisPoints ≤ 10000 ∧
      p.cropYBasisPoints + p.cropHeightBasisPoints ≤ 10000 ∧
      p.anchorXBasisPoints ≤ 10000 ∧ p.anchorYBasisPoints ≤ 10000 ∧
      p.opacityBasisPoints ≤ 10000 ∧
      (∀ scale ∈ [p.scaleX, p.scaleY], scale.compare maximumScale ≠ .gt ∧ 0 < scale.value) ∧
      ∀ translate ∈ [p.translateX, p.translateY],
        translate.compare minimumTranslation ≠ .lt ∧ translate.compare maximumTranslation ≠ .gt)
    ⟨fun ⟨h₁, h₂, h₃, h₄, h₅, h₆, h₇, h₈, h₉⟩ => ⟨h₁, h₂, h₃, h₄, h₅, h₆, h₇, h₈, h₉⟩,
      fun ⟨h₁, h₂, h₃, h₄, h₅, h₆, h₇, h₈, h₉⟩ => ⟨h₁, h₂, h₃, h₄, h₅, h₆, h₇, h₈, h₉⟩⟩

/-! ## Caption text and style -/

/-- `IsRenderCaptionRune`. -/
def isRenderCaptionRune (value : Char) : Bool :=
  value == '\n' || value == '\t' || value == '\u200c' || value == '\u200d' ||
    !(Unicode.control.has value || Unicode.format.has value || Unicode.lineSeparator.has value ||
      Unicode.paragraphSeparator.has value)

/-- `ValidCaptionText`. -/
def validCaptionText (value : Text) : Bool :=
  !value.isEmpty && value.byteLength ≤ maximumAuthoredTextBytes && value.all isRenderCaptionRune

/-- A font the captions are set in. -/
structure RenderFontResource where
  resourceID : Text
  version : Text
  sha256 : Digest

/-- `ValidFontResource`. -/
def RenderFontResource.valid (font : RenderFontResource) : Bool :=
  !font.resourceID.isEmpty && font.resourceID.byteLength ≤ 256 && !font.version.isEmpty &&
    font.version.byteLength ≤ 128

/-- How a caption is set. -/
structure RenderCaptionStyle where
  fontResourceID : Text
  fontSizeBasisPoint : Nat
  textColorRGBA : Text
  outlineColorRGBA : Text
  outlineBasisPoints : Nat
  lineHeightBasisPoints : Nat
  alignment : Text
  positionYBasisPoint : Nat
  safeWidthBasisPoint : Nat
  wrapPolicy : Text

/-- `validRenderRGBA`. -/
def validRenderRGBA : Text → Bool
  | '#' :: digits =>
    digits.length == 8 && digits.all fun c => ('0' ≤ c && c ≤ '9') || ('a' ≤ c && c ≤ 'f')
  | _ => false

/-- `validateRenderCaptionStyle`. -/
def RenderCaptionStyle.valid (style : RenderCaptionStyle) (fonts : List RenderFontResource) :
    Bool :=
  fonts.any (fun font => font.resourceID == style.fontResourceID) &&
    style.fontSizeBasisPoint != 0 && style.fontSizeBasisPoint ≤ 10000 &&
    style.outlineBasisPoints ≤ 10000 && 10000 ≤ style.lineHeightBasisPoints &&
    style.lineHeightBasisPoints ≤ 30000 && style.positionYBasisPoint ≤ 10000 &&
    style.safeWidthBasisPoint != 0 && style.safeWidthBasisPoint ≤ 10000 &&
    style.alignment == "bottom-center".toList &&
    style.wrapPolicy == "explicit-lines-clip-v1".toList && validRenderRGBA style.textColorRGBA &&
    validRenderRGBA style.outlineColorRGBA

end OpenCut
