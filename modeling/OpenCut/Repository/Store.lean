import OpenCut.Application.EditState
import OpenCut.Domain.OrderKey
import OpenCut.Repository.Narrative

/-!
# The stored content of a project

The tables that edits read and write, of one project with its narrative document and
its sequence. A row of a time-ranged table also has the order keys of its range; they
are functions of the range and stay out of the rows.

`Content.load?` is an entity as the loaders of `repository/edit_state*.go` read it, and
`Content.revision?` is `loadEditEntityRevision`.
-/

namespace OpenCut

/-- A row of `tracks`. -/
structure TrackRow where
  revision : Revision
  type : TrackType
  label : Text
  orderKey : Text

/-- The content of a project. The nodes are apart, since a row has a place among its
    siblings; the tables of the other entities are one, under kind and identity. -/
structure Content where
  documentID : ID
  documentRevision : Revision
  sequenceID : ID
  sequenceRevision : Revision
  nodes : NarrativeTable
  entities : EntityTable
  tracks : Table ID TrackRow

/-- A row of `source_streams`. -/
structure SourceStreamRow where
  assetID : ID
  fingerprint : Digest
  descriptor : SourceStreamDescriptor

/-- A transcript of `media_artifacts`. -/
structure TranscriptArtifactRow where
  assetID : ID
  fingerprint : Digest
  sourceStreamID : ID
  ready : Bool
  segments : List EditTranscriptSegmentState

/-- What the media work has found out about the assets. -/
structure Media where
  sourceStreams : Table ID SourceStreamRow
  transcriptArtifacts : Table ID TranscriptArtifactRow

namespace Content

variable (c : Content)

/-- The node of a row, with the sibling it stands after. -/
def nodeState (id : ID) (row : NarrativeNodeRow) : NarrativeNodeState where
  id
  revision := row.revision
  parentID := row.parentID
  afterNodeID := c.nodes.loadNarrativeAfter row.parentID row.orderIndex id
  value := row.value
  tombstoned := row.tombstoned

/-- A stored node as it is loaded. -/
def loadNode? (id : ID) : Option NarrativeNodeState := (c.nodes.find? id).map (c.nodeState id)

variable (key : EntityKey)

/-- An entity as it is loaded. -/
def load? : Option EntityState :=
  if key.kind = .narrativeNode then (c.loadNode? key.id).map .narrativeNode
  else c.entities.find? key

/-- `loadEditEntityRevision`. -/
def revision? : Option Revision :=
  match key.kind with
  | .narrativeDocument => if key.id = c.documentID then some c.documentRevision else none
  | .narrativeNode => (c.nodes.find? key.id).map (·.revision)
  | .sequence => if key.id = c.sequenceID then some c.sequenceRevision else none
  | .track => (c.tracks.find? key.id).map (·.revision)
  | _ => (c.entities.find? key).map (·.revision)

theorem key_of_load? {key : EntityKey} {s : EntityState} (h : c.load? key = some s) :
    s.key = key := by
  unfold load? at h
  split at h
  · next hk =>
    simp only [loadNode?, Option.map_map, Option.map_eq_some_iff] at h
    obtain ⟨row, -, rfl⟩ := h
    exact EntityKey.ext hk.symm rfl
  · exact EntityTable.key_of_find? h

end Content

end OpenCut
