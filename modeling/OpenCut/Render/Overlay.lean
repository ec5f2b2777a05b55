import OpenCut.Render.Plan

/-!
# Draft overlays

`draftoverlay/overlay.go`: while a gesture is going on, the placements it would commit
are laid over a compiled plan. An overlay is refused as a whole if a placement is invalid
(`validateOverlay`), and is stale as a whole if the sequence or a clip has moved on.
-/

namespace OpenCut

open Outcome

/-- `MaximumOverlayOperations`. -/
def maximumOverlayOperations : Nat := 256

/-- A placement that the gesture would set. -/
structure ClipPlacementOperation where
  clipID : ID
  clipRevision : Revision
  placement : RenderPlacement

/-- The placements of a gesture. -/
structure Overlay where
  sequenceRevision : Revision
  placements : List ClipPlacementOperation

/-- Why an overlay is not applied. -/
inductive OverlayError
  /-- `ErrOverlayInvalid`. -/
  | invalid
  /-- `ErrOverlayStale`. -/
  | stale

/-- `validateOverlay`. -/
def validateOverlay (overlay : Overlay) : Except OverlayError Unit :=
  ensure (overlay.placements.length ≤ maximumOverlayOperations ∧
    (overlay.placements.map (·.clipID)).Nodup ∧
    ∀ operation ∈ overlay.placements, operation.placement.Valid) .invalid

/-- Where the plan draws the clip: the last of its instructions (`targets`). -/
def overlayTarget (video : List RenderVideoInstruction) (clipID : ID) : Option Nat :=
  (video.zipIdx.reverse.find? fun (instruction, _) => instruction.clipID == clipID).map Prod.snd

/-- The instructions with the placement of the operation. -/
def substitutePlacement (targets : List RenderVideoInstruction)
    (video : List RenderVideoInstruction) (operation : ClipPlacementOperation) :
    List RenderVideoInstruction :=
  match overlayTarget targets operation.clipID with
  | some index =>
    video.modify index fun instruction => { instruction with placement := operation.placement }
  | none => video

/-- `Apply`. -/
def Overlay.apply (plan : RenderPlanPayload) (overlay : Overlay) :
    Except OverlayError RenderPlanPayload := do
  validateOverlay overlay
  if overlay.placements.isEmpty then return plan
  ensure (overlay.sequenceRevision = plan.sequenceRevision) .stale
  ensure (∀ operation ∈ overlay.placements,
    ((overlayTarget plan.video operation.clipID).bind (plan.video[·]?)).any
      (·.clipRevision == operation.clipRevision)) .stale
  return { plan with video := overlay.placements.foldl (substitutePlacement plan.video) plan.video }

/-- The creative part of a placement, as it is committed. -/
def RenderPlacement.creative (p : RenderPlacement) : ClipPlacement where
  cropXBasisPoints := p.cropXBasisPoints
  cropYBasisPoints := p.cropYBasisPoints
  cropWidthBasisPoints := p.cropWidthBasisPoints
  cropHeightBasisPoints := p.cropHeightBasisPoints
  scaleX := p.scaleX
  scaleY := p.scaleY
  translateX := p.translateX
  translateY := p.translateY
  opacityBasisPoints := p.opacityBasisPoints

/-- Only an overlay whose placements are all valid is applied. -/
theorem Overlay.valid_of_apply {plan plan' : RenderPlanPayload} {overlay : Overlay}
    (h : overlay.apply plan = .ok plan') :
    ∀ operation ∈ overlay.placements, operation.placement.Valid := by
  obtain ⟨_, h, -⟩ := bind_ok.1 h
  rw [validateOverlay, ensure_ok] at h
  exact h.2.2

end OpenCut
