import OpenCut.Application.EditState
import OpenCut.Application.EditValidation

/-!
# The normalizer: its state and its primitive steps

`application/edit_normalize.go` and `edit_normalize_helpers.go`. Normalization
turns the operations of a request into puts of whole entity states. It works on a
copy of the loaded state, in which later operations see what earlier ones did, and
touches every entity at most once.

The handlers of the source spell out, for every kind of entity, the same append:
the new state, its inverse and the change of its revision. They are one step here
(`EditNormalizer.put`): the inverse of a put on an existing entity is the state it
had, and that of a created entity is its retirement, both at the next revision.
-/

namespace OpenCut

open Outcome

/-! ## Ranges -/

/-- `rangeWithin`. -/
def rangeWithin (localRange : TimeRange) (duration : RationalTime) : Bool :=
  !localRange.start.isNegative && localRange.duration.isPositive &&
    localRange.end?.any fun rangeEnd => decide (rangeEnd ≤ duration)

/-- `sourceRangeWithin`. -/
def sourceRangeWithin (source : TimeRange) (descriptor : SourceStreamDescriptor) : Bool :=
  source.duration.isPositive && source.end?.any fun sourceEnd =>
    let coverageStart := descriptor.startTime.getD 0
    decide (coverageStart ≤ source.start) && match descriptor.duration with
      | none => true
      | some duration => !duration.isNegative &&
        (coverageStart.add? duration).any fun coverageEnd => decide (sourceEnd ≤ coverageEnd)

/-- `rangesOverlap`: a range that has no end overlaps everything. -/
def rangesOverlap (left right : TimeRange) : Bool :=
  match left.end?, right.end? with
  | some leftEnd, some rightEnd => left.start < rightEnd && right.start < leftEnd
  | _, _ => true

/-! ## Input and state -/

/-- What is normalized: a request, who makes it, the identities allocated for its
    local names and the state loaded for it. -/
structure NormalizeEditInput where
  proposalID : ID
  runID : Option ID
  turnID : Option ID
  actor : ActorRef
  allocation : List LocalAllocation
  input : EditProposeInput
  state : EditNormalizationState

namespace NormalizeEditInput

/-- The entities of the loaded state. -/
abbrev base (I : NormalizeEditInput) : EntityTable := I.state.entities

variable (I : NormalizeEditInput)

/-- The preconditions of the request by entity. -/
def conditions : Table EntityKey Revision :=
  I.input.preconditions.foldl (fun conditions c => conditions.set c.key c.revision) ∅

/-- The allocations by local name. -/
def allocations : Table LocalID LocalAllocation :=
  I.allocation.foldl (fun allocations a => allocations.set a.localID a) ∅

/-- The identity allocated for a local name, which has to be of the kind. -/
def allocated (name : LocalID) (kind : EditEntityKind) : Except EditError ID := do
  let allocation ← need (I.allocations.find? name) errEditInvalid
  ensure (allocation.kind = kind) errEditInvalid
  return allocation.id

/-- `resolveReference`. -/
def resolveReference (reference : EditReference) (kind : EditEntityKind) : Except EditError ID :=
  match reference with
  | .byID id => .ok id
  | .byLocal name => I.allocated name kind

/-- `require`: the request has a precondition on the entity, at this revision. -/
def require (key : EntityKey) (revision : Revision) : Except EditError Unit := do
  let kind := key.kind.name
  let id := key.id.text
  let provided ← need (I.conditions.find? key) (.invalid s!"missing {kind} precondition for {id}")
  ensure (provided = revision) (.conflict s!"{kind} {id} expected {provided}, observed {revision}")

end NormalizeEditInput

/-- The state of the normalizer. -/
structure EditNormalizer where
  /-- The entities as the operations so far leave them. -/
  working : EntityTable
  sectionChildren : Table ID Int
  linkGroupClips : Table ID (List ID)
  /-- The entities an operation has acted on. -/
  touched : List EntityKey
  /-- The alignments whose fate the request has decided. -/
  alignmentEffects : Table ID AlignmentStatus
  operations : List EntityState
  /-- The inverses, in the order of the operations. -/
  inverse : List EntityState
  changes : List EntityRevisionChange
  parentChanges : Table ID Revision
  trackChanges : Table ID Revision

/-- `newEditNormalizer`. -/
def newEditNormalizer (I : NormalizeEditInput) : Except EditError EditNormalizer := do
  ensure (I.allocation.map (·.localID)).Nodup errEditInvalid
  return {
    working := I.base
    sectionChildren := I.state.sectionChildCounts
    linkGroupClips := I.state.linkGroupClips
    touched := []
    alignmentEffects := ∅
    operations := []
    inverse := []
    changes := []
    parentChanges := ∅
    trackChanges := ∅ }

variable (before : Option EntityState) (after : EntityState)

/-- The put that takes an operation back. -/
def inverseOf : EntityState := (before.getD after.retired).withRevision (after.revision + 1)

/-- The change of the revision of the entity that is put. -/
def changeOf : EntityRevisionChange where
  key := after.key
  before := before.map (·.revision)
  after := after.revision
  tombstoned := after.tombstoned

namespace EditNormalizer

variable (n : EditNormalizer)

/-- `markTouched`. -/
def markTouched (key : EntityKey) : Except EditError EditNormalizer := do
  ensure (key ∉ n.touched) errEditInvalid
  return { n with touched := key :: n.touched }

/-- Puts a state: of a new entity, or of one that was in the state `before`. -/
def put (before : Option EntityState) (after : EntityState) : EditNormalizer where
  working := n.working.put after
  sectionChildren := n.sectionChildren
  linkGroupClips := n.linkGroupClips
  touched := n.touched
  alignmentEffects := n.alignmentEffects
  operations := n.operations ++ [after]
  inverse := n.inverse ++ [inverseOf before after]
  changes := n.changes ++ [changeOf before after]
  parentChanges := n.parentChanges
  trackChanges := n.trackChanges

/-- Records that the contents of a track change. -/
def changeTrack (track : EditTrackState) : EditNormalizer :=
  { n with trackChanges := n.trackChanges.set track.id track.revision }

variable (id : ID)

/-- Adds to the number of live children of a section. -/
def addChildren (count : Int) : EditNormalizer :=
  { n with sectionChildren :=
      n.sectionChildren.set id ((n.sectionChildren.find? id).getD 0 + count) }

/-- Sets the members of a link group. -/
def setMembers (members : List ID) : EditNormalizer :=
  { n with linkGroupClips := n.linkGroupClips.set id members }

/-- The members of a link group. -/
def members : List ID := (n.linkGroupClips.find? id).getD []

/-- Decides the fate of an alignment. -/
def setEffect (status : AlignmentStatus) : EditNormalizer :=
  { n with alignmentEffects := n.alignmentEffects.set id status }

end EditNormalizer

end OpenCut
