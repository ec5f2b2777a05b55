import OpenCut.Application.Normalizer

/-!
# Caption operations

`addCaption`, `updateCaption` and `validateCaptionOverlaps` of
`application/edit_normalize.go`.
-/

namespace OpenCut

open Outcome

namespace EditNormalizer

variable (I : NormalizeEditInput) (n : EditNormalizer)

/-- `addCaption`. -/
def addCaption (createAs : LocalID) (trackID : ID) (range : TimeRange)
    (language : CaptionLanguage) (text : Text) : Except EditError EditNormalizer := do
  let id ← I.allocated createAs .caption
  ensure (I.base.caption? id).isNone errEditInvalid
  let n ← n.markTouched ⟨.caption, id⟩
  let track ← need (I.state.tracks.find? trackID) errEditInvalid
  ensure (track.type = .caption) errEditInvalid
  I.require ⟨.track, track.id⟩ track.revision
  let state : CaptionState := {
    id, revision := 1, trackID := track.id, range, language, text, provenance := .manual,
    tombstoned := false }
  return (n.put none (.caption state)).changeTrack track

/-- What `update-caption` writes; `remove-caption` writes nothing. -/
structure CaptionUpdate where
  range : TimeRange
  language : CaptionLanguage
  text : Text

/-- `updateCaption`: with an update, or removing the caption without one. -/
def updateCaption (captionID : ID) (update : Option CaptionUpdate) :
    Except EditError EditNormalizer := do
  let current ← need (n.working.caption? captionID)
    (.invalid s!"caption {captionID.text} is not a live caption in this sequence")
  ensure (!current.tombstoned)
    (.invalid s!"caption {captionID.text} is not a live caption in this sequence")
  let n ← refuseAs (n.markTouched ⟨.caption, current.id⟩)
    (.invalid s!"caption {captionID.text} is mutated more than once in this proposal")
  I.require ⟨.caption, current.id⟩ current.revision
  let track ← need (I.state.tracks.find? current.trackID) errEditInvalid
  I.require ⟨.track, track.id⟩ track.revision
  let n := n.changeTrack track
  let next := match update with
    | none => { current with revision := current.revision + 1, tombstoned := true }
    | some update => { current with
        revision := current.revision + 1
        range := update.range
        language := update.language
        text := update.text }
  return n.put (some (.caption current)) (.caption next)

/-- `validateCaptionOverlaps`. -/
def validateCaptionOverlaps : Except EditError Unit :=
  ensure (∀ caption ∈ n.working.captions, ⟨.caption, caption.id⟩ ∈ n.touched →
    caption.tombstoned = false → ∀ other ∈ n.working.captions, other.id ≠ caption.id →
      other.tombstoned = false → other.trackID = caption.trackID →
        rangesOverlap caption.range other.range = false) errEditInvalid

end EditNormalizer

end OpenCut
