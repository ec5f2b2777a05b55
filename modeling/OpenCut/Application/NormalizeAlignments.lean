import OpenCut.Application.NormalizeNarrative
import Mathlib.Data.List.Sort

/-!
# Alignment operations

`bindAlignment`, `updateAlignment` and `validateAlignmentEffects` of
`application/edit_normalize.go`, and `edit_normalize_alignment_remap.go`. They come
after all other operations, when the entities an alignment refers to have their new
revisions. An alignment that is on an entity the request touches has to be dealt
with by the same request: remapped, marked stale or unbound.
-/

namespace OpenCut

open Outcome

/-! ## Targets -/

/-- A rational as it is written in the key of a target. -/
def RationalTime.keyText (t : RationalTime) : String := s!"{t.value}/{t.scale}"

/-- `alignmentTargetKey`: the text by which targets are ordered and compared. It
    leaves out the revision. -/
def alignmentTargetKey : AlignmentTarget → List Char
  | .caption id _ range =>
    s!"caption\x00{id.text}\x00{range.start.keyText}\x00{range.duration.keyText}".toList
  | .clip id _ range =>
    s!"clip\x00{id.text}\x00{range.start.keyText}\x00{range.duration.keyText}".toList
  | .timeline _ range => s!"timeline\x00{range.start.keyText}\x00{range.duration.keyText}".toList

/-- The type of a target on the wire. -/
def AlignmentTarget.typeRank : AlignmentTarget → Nat
  | .caption .. => 0
  | .clip .. => 1
  | .timeline .. => 2

/-- A stretch of a source. -/
structure AlignmentCoverageSpan where
  start : RationalTime
  duration : RationalTime
deriving DecidableEq

/-- The next of the sorted stretches, merged with the last one if they meet. -/
def mergeSpan (merged : List AlignmentCoverageSpan) (current : AlignmentCoverageSpan) :
    Option (List AlignmentCoverageSpan) :=
  match merged.getLast? with
  | none => some [current]
  | some previous => do
    let previousEnd ← previous.start.add? previous.duration
    match current.start.compare previousEnd with
    | .lt => none
    | .eq => do
      let currentEnd ← current.start.add? current.duration
      let duration ← currentEnd.subtract? previous.start
      return merged.dropLast ++ [{ previous with duration }]
    | .gt => some (merged ++ [current])

/-- The stretch of the source that a clip target covers, by asset and stream. -/
def targetSpan (clips : EntityTable) (target : AlignmentTarget) :
    Option ((ID × ID) × AlignmentCoverageSpan) :=
  match target with
  | .clip clipID _ localRange => do
    let clip ← clips.clip? clipID
    guard (rangeWithin localRange clip.timelineRange.duration)
    let start ← clip.sourceRange.start.add? localRange.start
    return ((clip.assetID, clip.sourceStreamID), ⟨start, localRange.duration⟩)
  | _ => none

/-- `alignmentSourceCoverage`: what the targets cover of each stream. -/
def alignmentSourceCoverage (targets : List AlignmentTarget) (clips : EntityTable) :
    Option (Table (ID × ID) (List AlignmentCoverageSpan)) := do
  let spans ← targets.mapM (targetSpan clips)
  (spans.map Prod.fst).dedup.foldlM (fun coverage key => do
    let sorted := ((spans.filter fun span => span.1 == key).map Prod.snd).insertionSort
      fun left right => left.start ≤ right.start
    let merged ← sorted.foldlM mergeSpan []
    return coverage.set key merged) ∅

/-- `sameAlignmentCoverage`. -/
def sameAlignmentCoverage (left right : Table (ID × ID) (List AlignmentCoverageSpan)) : Bool :=
  left.rows.length == right.rows.length &&
    left.rows.all fun (key, spans) => right.find? key == some spans

namespace EditNormalizer

variable (I : NormalizeEditInput) (n : EditNormalizer)

/-- One target of `normalizeAlignmentTargets`. A target that the request touches
    needs no precondition when an alignment is remapped. -/
def normalizeAlignmentTarget (allowTouched : Bool) (input : AlignmentTargetInput) :
    Except EditError AlignmentTarget :=
  match input with
  | .caption reference localRange => do
    let id ← I.resolveReference reference .caption
    let caption ← need (n.working.caption? id) errEditInvalid
    ensure (!caption.tombstoned && rangeWithin localRange caption.range.duration) errEditInvalid
    if reference.id?.isSome ∧ ¬(allowTouched ∧ ⟨.caption, id⟩ ∈ n.touched) then
      I.require ⟨.caption, id⟩ caption.revision
    return .caption id caption.revision localRange
  | .clip reference localRange => do
    let id ← I.resolveReference reference .clip
    let clip ← need (n.working.clip? id) errEditInvalid
    ensure (!clip.tombstoned && rangeWithin localRange clip.timelineRange.duration) errEditInvalid
    if reference.id?.isSome ∧ ¬(allowTouched ∧ ⟨.clip, id⟩ ∈ n.touched) then
      I.require ⟨.clip, id⟩ clip.revision
    return .clip id clip.revision localRange
  | .timeline range sequenceRevision => do
    ensure (sequenceRevision = I.state.sequenceRevision) errEditConflict
    I.require ⟨.sequence, I.state.sequenceID⟩ I.state.sequenceRevision
    return .timeline sequenceRevision range

/-- `normalizeAlignmentTargets`. -/
def normalizeAlignmentTargets (inputs : List AlignmentTargetInput) (allowTouched : Bool) :
    Except EditError (List AlignmentTarget) := do
  let targets ← inputs.mapM (n.normalizeAlignmentTarget I allowTouched)
  let targets := targets.insertionSort fun a b => ¬alignmentTargetKey b < alignmentTargetKey a
  ensure (targets.map alignmentTargetKey).Nodup errEditInvalid
  return targets

/-- `bindAlignment`. -/
def bindAlignment (createAs : LocalID) (narrativeNode : EditReference)
    (targets : List AlignmentTargetInput) : Except EditError EditNormalizer := do
  let id ← I.allocated createAs .alignment
  ensure (I.base.alignment? id).isNone errEditInvalid
  let n ← n.markTouched ⟨.alignment, id⟩
  let nodeID ← I.resolveReference narrativeNode .narrativeNode
  let node ← need (n.working.node? nodeID) errEditInvalid
  ensure (!node.tombstoned && node.kind != .section) errEditInvalid
  if narrativeNode.id?.isSome then
    I.require ⟨.narrativeNode, nodeID⟩ node.revision
  let targets ← n.normalizeAlignmentTargets I targets false
  return n.put none (.alignment {
    id, revision := 1, narrativeNodeID := nodeID, narrativeNodeRevision := node.revision,
    targets, status := .exact })

variable (alignmentID : ID)

/-- `updateAlignment`. -/
def updateAlignment (status : AlignmentStatus) : Except EditError EditNormalizer := do
  let current ← need (n.working.alignment? alignmentID) errEditInvalid
  let n ← n.markTouched ⟨.alignment, alignmentID⟩
  I.require ⟨.alignment, current.id⟩ current.revision
  let n := n.setEffect alignmentID status
  return n.put (some (.alignment current))
    (.alignment { current with revision := current.revision + 1, status })

/-- `preservesCaptionAlignment` for one target before and after. -/
def preservesCaptionTarget : AlignmentTarget × AlignmentTarget → Bool
  | (.caption beforeID beforeRevision beforeRange, .caption afterID afterRevision afterRange) =>
    beforeID == afterID && beforeRange == afterRange &&
      match I.base.caption? beforeID, n.working.caption? afterID with
      | some before, some after =>
        !after.tombstoned && before.text == after.text && before.language == after.language &&
          beforeRevision == before.revision && afterRevision == after.revision &&
          rangeWithin afterRange after.range.duration
      | _, _ => false
  | _ => false

/-- `preservesAlignmentSemantics`: the new targets cover the same stretches of the
    sources, or are the same captions with the same words. -/
def preservesAlignmentSemantics (current next : List AlignmentTarget) : Bool :=
  match current.head? with
  | some (.clip ..) =>
    match alignmentSourceCoverage current I.base, alignmentSourceCoverage next n.working with
    | some oldCoverage, some newCoverage => sameAlignmentCoverage oldCoverage newCoverage
    | _, _ => false
  | some (.caption ..) =>
    current.length == next.length && (current.zip next).all (n.preservesCaptionTarget I)
  | _ => false

/-- `remapAlignment`. -/
def remapAlignment (targets : List AlignmentTargetInput) : Except EditError EditNormalizer := do
  let current ← need (n.working.alignment? alignmentID) errEditInvalid
  ensure (current.status = .exact ∧ current.targets ≠ []) errEditInvalid
  let n ← n.markTouched ⟨.alignment, current.id⟩
  ensure (⟨.narrativeNode, current.narrativeNodeID⟩ ∉ n.touched) errEditInvalid
  I.require ⟨.alignment, current.id⟩ current.revision
  let targets ← refuseAs (n.normalizeAlignmentTargets I targets true) errEditInvalid
  ensure (targets ≠ [] ∧
    targets.head?.map (·.typeRank) = current.targets.head?.map (·.typeRank)) errEditInvalid
  ensure (n.preservesAlignmentSemantics I current.targets targets) errEditInvalid
  let n := n.setEffect current.id .exact
  return n.put (some (.alignment current))
    (.alignment { current with revision := current.revision + 1, targets, status := .exact })

/-- The loaded alignments on an entity. -/
def dependentAlignments (key : EntityKey) : List ID :=
  match key.kind with
  | .narrativeNode => (I.state.nodeAlignments.find? key.id).getD []
  | .caption => (I.state.captionAlignments.find? key.id).getD []
  | .clip => (I.state.clipAlignments.find? key.id).getD []
  | _ => []

/-- `validateAlignmentEffects`. -/
def validateAlignmentEffects : Except EditError Unit :=
  n.touched.forM fun key =>
    (dependentAlignments I key).forM fun alignmentID =>
      let kind := key.kind.name
      ensure (n.alignmentEffects.find? alignmentID).isSome (.invalid
        (s!"{kind} {key.id.text} still anchors alignment {alignmentID.text}; " ++
          "unbind it or mark it stale in the same proposal"))

end EditNormalizer

end OpenCut
