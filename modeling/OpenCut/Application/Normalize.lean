import OpenCut.Application.CaptionDerivation
import OpenCut.Application.NormalizeCaptions
import OpenCut.Application.RoughCut

/-!
# Normalization of a request

`NormalizeEditProposal` of `application/edit_normalize.go`: the operations on
entities in the order of the request, the checks of link groups and overlaps, the
operations on alignments, the check that no touched entity leaves an alignment
undecided, and the changes of the sections and tracks around what was put.
-/

namespace OpenCut

open Outcome

/-- `validateNormalizationInput`. -/
def validateNormalizationInput (I : NormalizeEditInput) : Except EditError Unit := do
  ensure (1 ≤ I.state.projectRevision ∧ 1 ≤ I.state.documentRevision ∧
    1 ≤ I.state.sequenceRevision) errEditInvalid
  match I.actor with
  | .agent _ => ensure (I.runID.isSome ∧ I.turnID.isSome) errEditInvalid
  | .creator _ => ensure (I.runID = none ∧ I.turnID = none) errEditInvalid
  validateEditProposeInput I.input
  validateAllocationMatchesOperations I.allocation I.input.operations

namespace EditNormalizer

section

variable [Uniseg] (I : NormalizeEditInput) (n : EditNormalizer)

/-- One operation of `normalizeEntityOperations`. -/
def normalizeEntityOperation : EditOperationInput → Except EditError EditNormalizer
  | .insertNarrativeNode createAs parentID after writing =>
    n.insertNarrativeNode I createAs parentID after writing
  | .updateNarrativeNode nodeID writing => n.updateNarrativeNode I nodeID writing
  | .moveNarrativeNode nodeID parentID after => n.moveNarrativeNode I nodeID parentID after
  | .removeNarrativeNode nodeID => n.removeNarrativeNode I nodeID
  | .addCaption createAs trackID range language text =>
    n.addCaption I createAs trackID range language text
  | .updateCaption captionID range language text =>
    n.updateCaption I captionID (some ⟨range, language, text⟩)
  | .removeCaption captionID => n.updateCaption I captionID none
  | .addClip createAs trackID assetID sourceStreamID sourceRange timelineRange enabled linkGroup =>
    n.addClip I createAs trackID assetID sourceStreamID sourceRange timelineRange enabled linkGroup
  | .moveClip clipID scope trackID timelineStart => n.moveClip I clipID scope trackID timelineStart
  | .trimClip clipID scope sourceRange timelineRange =>
    n.trimClip I clipID scope sourceRange timelineRange
  | .splitClip clipID scope splitAt outputs left right =>
    n.splitClip I clipID scope splitAt outputs left right
  | .setClipPlacement clipID placement => n.setClipPlacement I clipID placement
  | .removeClip clipID scope => n.removeClip I clipID scope
  | .linkClips createLinkGroupAs clips => n.linkClips I createLinkGroupAs clips
  | .unlinkClips linkGroupID => n.unlinkClips I linkGroupID
  | .addTranscriptCorrection createAs artifactID assetID segmentIDs sourceRange language text =>
    n.addTranscriptCorrection I createAs artifactID assetID segmentIDs sourceRange language text
  | .updateTranscriptCorrection correctionID language text =>
    n.updateTranscriptCorrection I correctionID (some (language, text))
  | .removeTranscriptCorrection correctionID => n.updateTranscriptCorrection I correctionID none
  | .insertSourceExcerpt createAs parentID after assetID fingerprint artifactID segmentIDs
      corrections sourceRange language =>
    n.insertSourceExcerpt I createAs parentID after assetID fingerprint artifactID segmentIDs
      corrections sourceRange language
  | .deriveCaptions nodeID clipID trackID policy outputs =>
    n.deriveCaptions I nodeID clipID trackID policy outputs
  | .deriveRoughCut derivation outputDigest => n.deriveRoughCut I derivation outputDigest
  | .bindAlignment .. => .ok n
  | .remapAlignment .. => .ok n
  | .markAlignmentStale _ => .ok n
  | .unbindAlignment _ => .ok n

omit [Uniseg] in
/-- One operation of `normalizeAlignmentOperations`. -/
def normalizeAlignmentOperation : EditOperationInput → Except EditError EditNormalizer
  | .bindAlignment createAs narrativeNode targets =>
    n.bindAlignment I createAs narrativeNode targets
  | .remapAlignment alignmentID targets => n.remapAlignment I alignmentID targets
  | .markAlignmentStale alignmentID => n.updateAlignment I alignmentID .stale
  | .unbindAlignment alignmentID => n.updateAlignment I alignmentID .unbound
  | _ => .ok n

end

/-- The changes of the sections around what was put, as far as they are not put
    themselves, and of the tracks. -/
def aggregateChanges (n : EditNormalizer) : List EntityRevisionChange :=
  let parents := n.parentChanges.rows.filter fun (id, _) =>
    decide (⟨.narrativeNode, id⟩ ∉ n.touched)
  (parents.map fun (id, before) => ⟨⟨.narrativeNode, id⟩, some before, before + 1, false⟩) ++
    n.trackChanges.rows.map fun (id, before) => ⟨⟨.track, id⟩, some before, before + 1, false⟩

end EditNormalizer

/-- The order in which changes are listed. -/
def sortChanges (changes : List EntityRevisionChange) : List EntityRevisionChange :=
  changes.insertionSort fun a b => a.key.le b.key

/-- The operations, checks and alignments of `NormalizeEditProposal`, in its order. -/
def runNormalizer [Uniseg] (I : NormalizeEditInput) : Except EditError EditNormalizer := do
  let n ← newEditNormalizer I
  let n ← I.input.operations.foldlM (fun n op => n.normalizeEntityOperation I op) n
  n.validateLinkGroups
  n.validateCaptionOverlaps
  n.validateClipOverlaps
  let n ← I.input.operations.foldlM (fun n op => n.normalizeAlignmentOperation I op) n
  ensure (n.operations.length ≤ 512 ∧ n.inverse.length ≤ 512) errEditInvalid
  n.validateAlignmentEffects I
  return n

/-- The proposal that a run of the normalizer gives (`appendAggregateChanges` and the
    end of `NormalizeEditProposal`). -/
def EditNormalizer.proposal (I : NormalizeEditInput) (n : EditNormalizer) : EditProposal where
  id := I.proposalID
  runID := I.runID
  turnID := I.turnID
  requestID := I.input.requestID
  actor := I.actor
  intent := I.input.intent
  baseProjectRevision := I.input.baseProjectRevision
  projectRevision := I.state.projectRevision
  preconditions := I.input.preconditions.insertionSort fun a b => a.key.le b.key
  allocation := I.allocation
  operations := n.operations.map .put
  inversePreview := n.inverse.reverse.map .put
  changes := sortChanges (n.changes ++ n.aggregateChanges)
  status := .open
  appliedTransactionID := none

/-- `NormalizeEditProposal`. -/
def normalizeEditProposal [Uniseg] (I : NormalizeEditInput) : Except EditError EditProposal := do
  validateNormalizationInput I
  let n ← runNormalizer I
  return n.proposal I

end OpenCut
