import OpenCut.Application.NormalizeAlignments
import OpenCut.Application.NormalizeClips

/-!
# Rough cuts

`application/edit_normalize_rough_cut.go`: source excerpts are laid on the timeline one
after the other. The request states the clips and alignments it expects, with a digest
of them; they have to be those that are built from the loaded state.
-/

namespace OpenCut

open Outcome

/-- The value of a source excerpt that is live. -/
def liveExcerpt? (t : EntityTable) (id : ID) : Option SourceExcerptValue :=
  match t.node? id with
  | some { value := .sourceExcerpt value, tombstoned := false, .. } => some value
  | _ => none

/-- `roughCutLocal`: `prefix_kind_ordinal`, the ordinal in three digits or more. -/
def roughCutLocal (localPrefix : LocalID) (kind : List Char) (ordinal : Nat) :
    Except EditError LocalID := do
  let digits := Nat.toDigits 10 ordinal
  let value :=
    localPrefix ++ '_' :: kind ++ '_' :: (List.replicate (3 - digits.length) '0' ++ digits)
  ensure (validLocalID value) errEditInvalid
  return value

variable (state : EditNormalizationState) (excerpt : SourceExcerptValue)

/-- `validateRoughCutLane`. -/
def validateRoughCutLane (expectedTrack : TrackType)
    (lane : RoughCutLaneBindingInput) : Except EditError Unit := do
  let track ← need (state.tracks.find? lane.trackID) errEditInvalid
  let stream ← need (state.sourceStreams.find? lane.sourceStreamID) errEditInvalid
  ensure (track.type = expectedTrack ∧ stream.assetID = excerpt.assetID ∧
    trackAcceptsStream track stream) errEditInvalid
  ensure (sourceRangeWithin excerpt.sourceRange stream.descriptor) errEditInvalid

variable (localPrefix : LocalID)

/-- A lane of an output. -/
def roughCutLane (ordinal : Nat)
    (kind : List Char) (expectedTrack : TrackType) (lane : Option RoughCutLaneBindingInput) :
    Except EditError (Option DerivedRoughCutLaneOutputInput) :=
  match lane with
  | none => .ok none
  | some lane => do
    validateRoughCutLane state excerpt expectedTrack lane
    let clipAs ← roughCutLocal localPrefix kind ordinal
    return some { clipAs, trackID := lane.trackID, sourceStreamID := lane.sourceStreamID }

/-- One item of `BuildRoughCutOperation`: its output, after those built so far, and
    where the next one starts. -/
def roughCutItem (built : List DerivedRoughCutOutputInput × RationalTime)
    (item : RoughCutDerivationItemInput) :
    Except EditError (List DerivedRoughCutOutputInput × RationalTime) := do
  let (outputs, cursor) := built
  let excerpt ← need (liveExcerpt? state.entities item.sourceExcerptID) errEditInvalid
  ensure (state.sourceExcerptEvidence.find? item.sourceExcerptID = some .exact) errEditInvalid
  ensure (item.video.isSome ∨ item.audio.isSome) errEditInvalid
  let ordinal := outputs.length + 1
  let video ← roughCutLane state excerpt localPrefix ordinal ['v', 'i', 'd', 'e', 'o'] .video
    item.video
  let audio ← roughCutLane state excerpt localPrefix ordinal ['a', 'u', 'd', 'i', 'o'] .audio
    item.audio
  let timelineRange ← newTimeRange cursor excerpt.sourceRange.duration
  let alignmentAs ← roughCutLocal localPrefix ['a', 'l', 'i', 'g', 'n', 'm', 'e', 'n', 't'] ordinal
  let linkGroupAs ← if video.isSome ∧ audio.isSome then
      some <$> roughCutLocal localPrefix ['g', 'r', 'o', 'u', 'p'] ordinal
    else pure none
  let cursor ← need timelineRange.end? errEditInvalid
  return (outputs ++ [{
    sourceExcerptID := item.sourceExcerptID, sourceRange := excerpt.sourceRange, timelineRange
    video, audio, linkGroupAs, alignmentAs }], cursor)

/-- `BuildRoughCutOperation`. -/
def buildRoughCutOperation (timelineStart : RationalTime) (localPrefix : LocalID)
    (items : List RoughCutDerivationItemInput) : Except EditError RoughCutDerivation := do
  ensure (!timelineStart.isNegative ∧ 1 ≤ items.length ∧ items.length ≤ 128 ∧
    localPrefix.byteLength ≤ 40 ∧ validLocalID localPrefix) errEditInvalid
  let (outputs, _) ← items.foldlM (roughCutItem state localPrefix) ([], timelineStart)
  return { policy := paperEditRoughCutPolicyV1, timelineStart, localPrefix, items, outputs }

namespace EditNormalizer

variable (I : NormalizeEditInput) (n : EditNormalizer) (output : DerivedRoughCutOutputInput)

/-- The clip of a lane; the first of two lanes creates their group. -/
def addRoughCutLane (assetID : ID)
    (linkGroup : Option ClipLinkGroupInput) (lane : Option DerivedRoughCutLaneOutputInput) :
    Except EditError EditNormalizer :=
  match lane with
  | none => .ok n
  | some lane => n.addClip I lane.clipAs lane.trackID assetID lane.sourceStreamID
      output.sourceRange output.timelineRange true linkGroup

/-- One output of `deriveRoughCut`. -/
def putRoughCutOutput : Except EditError EditNormalizer := do
  let excerpt ← need (n.working.node? output.sourceExcerptID) errEditInvalid
  let assetID ← match excerpt.value with
    | .sourceExcerpt value => .ok value.assetID
    | _ => .error errEditInvalid
  let n ← n.addRoughCutLane I output assetID (output.linkGroupAs.map .create) output.video
  let n ← n.addRoughCutLane I output assetID
    (output.linkGroupAs.map fun group => .existing (.byLocal group)) output.audio
  let targets := (output.video.toList ++ output.audio.toList).map fun lane =>
    AlignmentTargetInput.clip (.byLocal lane.clipAs) ⟨0, output.timelineRange.duration⟩
  n.bindAlignment I output.alignmentAs (.byID output.sourceExcerptID) targets

/-- `deriveRoughCut`. -/
def deriveRoughCut (derivation outputDigest : RoughCutDerivation) :
    Except EditError EditNormalizer := do
  let expected ← buildRoughCutOperation I.state derivation.timelineStart derivation.localPrefix
    derivation.items
  ensure (derivation = outputDigest ∧ derivation = expected) errEditInvalid
  expected.outputs.foldlM (fun n output => n.putRoughCutOutput I output) n

end EditNormalizer

end OpenCut
