import OpenCut.Repository.Store

/-!
# Projection of normalized operations

`repository/edit_projection_*.go`: an operation of a committed edit writes the row of
its entity. A new entity is inserted; an existing one is updated if it still has the
revision that the edit was made for. An update does not write every column of the row
(`EntityState.updating`): a caption keeps its track and its provenance, a correction the
stretch of the transcript that it replaces.
-/

namespace OpenCut

open Outcome

/-- The state that the row of `old` has after the update to `new`. -/
def EntityState.updating (old new : EntityState) : EntityState :=
  match old, new with
  | .caption old, .caption new =>
    .caption { new with trackID := old.trackID, provenance := old.provenance }
  | .transcriptCorrection old, .transcriptCorrection new =>
    .transcriptCorrection { new with
      assetID := old.assetID, artifactID := old.artifactID, segmentIDs := old.segmentIDs
      sourceRange := old.sourceRange }
  | _, new => new

@[simp]
theorem EntityState.key_updating (old new : EntityState) : (old.updating new).key = new.key := by
  cases old <;> cases new <;> rfl

@[simp]
theorem EntityState.revision_updating (old new : EntityState) :
    (old.updating new).revision = new.revision := by
  cases old <;> cases new <;> rfl

@[simp]
theorem EntityState.updating_self (s : EntityState) : s.updating s = s := by
  cases s <;> rfl

/-- An update leaves alone what a later update leaves alone. -/
theorem EntityState.updating_updating {old s e : EntityState} (hs : s.key = old.key)
    (he : e.key = old.key) : (old.updating s).updating e = old.updating e := by
  cases old <;> cases s <;> simp [key] at hs <;> cases e <;> simp [key] at he <;> rfl

/-- What an update writes in full, it writes in full at any revision. -/
theorem EntityState.updating_of_unrevised {old e s : EntityState} (hkey : e.key = old.key)
    (he : old.updating e = e) (h : s.unrevised = e.unrevised) : old.updating s = s := by
  cases old <;> cases e <;> simp [key] at hkey <;> cases s <;>
    simp [unrevised, withRevision] at h <;> rename_i a b c <;> cases a <;> cases b <;> cases c <;>
    simp_all [updating]

/-- A caption that can be inserted with its provenance (`insertCaptionProvenance`). -/
def CaptionState.provenanceProjectable (state : CaptionState) : Bool :=
  match state.provenance with
  | .manual => true
  | .transcriptDerivation value => decide value.policy.Valid &&
    1 ≤ value.segmentIDs.length && value.segmentIDs.length ≤ 256 &&
    value.correctionRevisions.length ≤ 256 && decide (state.range = value.derivedRange) &&
    decide (state.language = value.derivedLanguage) && decide (state.text = value.derivedText)

/-- The type of the target. -/
def AlignmentTarget.type : AlignmentTarget → EditEntityKind
  | .caption .. => .caption
  | .clip .. => .clip
  | .timeline .. => .sequence

/-- Targets that can be inserted (`insertAlignmentTargets`): they are of one type. -/
def AlignmentState.targetsProjectable (state : AlignmentState) : Bool :=
  1 ≤ state.targets.length && state.targets.length ≤ 64 &&
    state.targets.all fun target => state.targets.head?.any fun head => head.type == target.type

namespace EntityTable

variable (t : EntityTable) (before : Option Revision)

/-- The statements that the projections share: insert the row, or update the one at
    the revision `before` (`requireOneEditRow`). -/
def write (state : EntityState) : Except EditError EntityTable :=
  match before with
  | none => do
    ensure (t.find? state.key).isNone .storage
    return t.put state
  | some before => do
    let old ← need (t.find? state.key) errEditConflict
    ensure (old.revision = before) errEditConflict
    return t.put (old.updating state)

/-- `applyAsset`: an edit never inserts an asset. -/
def applyAsset (state : AssetState) : Except EditError EntityTable := do
  ensure (before.isSome ∧ state.displayName ≠ []) errEditInvalid
  t.write before (.asset state)

/-- `applyCaption`. -/
def applyCaption (state : CaptionState) : Except EditError EntityTable := do
  ensure state.range.end?.isSome errEditInvalid
  let t ← t.write before (.caption state)
  ensure (before.isSome ∨ state.provenanceProjectable) errEditInvalid
  return t

/-- `applyAlignment`. -/
def applyAlignment (state : AlignmentState) : Except EditError EntityTable := do
  let t ← t.write before (.alignment state)
  ensure state.targetsProjectable errEditInvalid
  return t

/-- `applyLinkGroup`. -/
def applyLinkGroup (state : LinkGroupState) : Except EditError EntityTable :=
  t.write before (.linkGroup state)

/-- `applyClip`. -/
def applyClip (state : ClipState) : Except EditError EntityTable := do
  ensure (state.timelineRange.end?.isSome ∧ state.timelineRange.start.isNegative = false ∧
    state.sourceRange.duration.isPositive ∧ state.timelineRange.duration.isPositive)
    errEditInvalid
  ensure (state.sourceRange.duration = state.timelineRange.duration) errEditInvalid
  ensure (∀ placement ∈ state.placement, placement.Valid) errEditInvalid
  t.write before (.clip state)

/-- `applyTranscriptCorrection`. -/
def applyTranscriptCorrection (state : TranscriptCorrectionState) :
    Except EditError EntityTable := do
  ensure (state.sourceRange.end?.isSome ∧ 1 ≤ state.segmentIDs.length ∧
    state.segmentIDs.length ≤ 256) errEditInvalid
  t.write before (.transcriptCorrection state)

end EntityTable

/-- The change of the entity among the changes; the last one counts. -/
def changeIndex (changes : List EntityRevisionChange) (key : EntityKey) :
    Option EntityRevisionChange :=
  changes.reverse.find? fun change => change.key = key

namespace Content

variable (c : Content)

/-- The put operations of `applyNormalizedOperation`. -/
def applyPut (changes : List EntityRevisionChange) (state : EntityState) :
    Except EditError Content :=
  let change := changeIndex changes state.key
  let before := change.bind (·.before)
  match state with
  | .narrativeNode state => do
    let nodes ← c.nodes.applyNarrativeNode change state
    return { c with nodes }
  | .transcriptCorrection state => do
    let entities ← c.entities.applyTranscriptCorrection before state
    return { c with entities }
  | .caption state => do
    let entities ← c.entities.applyCaption before state
    return { c with entities }
  | .alignment state => do
    let entities ← c.entities.applyAlignment before state
    -- The foreign key of the node.
    ensure (c.nodes.find? state.narrativeNodeID).isSome .storage
    return { c with entities }
  | .asset state => do
    let entities ← c.entities.applyAsset before state
    return { c with entities }
  | .clip state => do
    let entities ← c.entities.applyClip before state
    return { c with entities }
  | .linkGroup state => do
    let entities ← c.entities.applyLinkGroup before state
    return { c with entities }

/-- `applyAggregateRevision`. -/
def applyAggregateRevision (change : EntityRevisionChange) : Except EditError Content := do
  let before ← need change.before errEditInvalid
  match change.key.kind with
  | .narrativeDocument =>
    ensure (change.key.id = c.documentID ∧ c.documentRevision = before) errEditConflict
    return { c with documentRevision := change.after }
  | .sequence =>
    ensure (change.key.id = c.sequenceID ∧ c.sequenceRevision = before) errEditConflict
    return { c with sequenceRevision := change.after }
  | .narrativeNode =>
    let row ← need (c.nodes.find? change.key.id) errEditConflict
    ensure (row.revision = before) errEditConflict
    return { c with nodes := c.nodes.set change.key.id { row with revision := change.after } }
  | .track =>
    let row ← need (c.tracks.find? change.key.id) errEditConflict
    ensure (row.revision = before) errEditConflict
    return { c with tracks := c.tracks.set change.key.id { row with revision := change.after } }
  | _ => throw errEditInvalid

end Content

end OpenCut
