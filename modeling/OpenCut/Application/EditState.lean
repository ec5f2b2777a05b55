import OpenCut.Domain.Edit
import OpenCut.Lib.Table

/-!
# The state an edit is normalized against

`EditNormalizationState` of `application/edit_normalize.go`: what the repository
loads from the stored project for the operations of one request. The source keeps
a map for every kind of entity; here they are one table under the kind and the
identity (`EntityTable`), in which every state stands under its own key.
-/

namespace OpenCut

/-! ## Tables of entities -/

/-- Entity states, each under its own key. -/
structure EntityTable where
  /-- The states under their keys. -/
  table : Table EntityKey EntityState
  /-- A state stands under its own key. -/
  keyed : ∀ {k : EntityKey} {s : EntityState}, table.find? k = some s → s.key = k

namespace EntityTable

instance : EmptyCollection EntityTable := ⟨⟨∅, by simp⟩⟩

/-- The state of the entity. -/
def find? (t : EntityTable) (k : EntityKey) : Option EntityState := t.table.find? k

/-- The table with this state of its entity. -/
def put (t : EntityTable) (s : EntityState) : EntityTable where
  table := t.table.set s.key s
  keyed := by
    intro k s' h
    rcases Table.of_find?_set h with ⟨hk, rfl⟩ | h
    · rw [hk]
    · exact t.keyed h

/-- All states, in no particular order. -/
def states (t : EntityTable) : List EntityState := t.table.rows.map Prod.snd

@[simp]
theorem find?_empty (k : EntityKey) : (∅ : EntityTable).find? k = none := Table.find?_empty k

theorem find?_put (t : EntityTable) (s : EntityState) (k : EntityKey) :
    (t.put s).find? k = if k = s.key then some s else t.find? k :=
  Table.find?_set _ _ _ _

@[simp]
theorem find?_put_self (t : EntityTable) (s : EntityState) : (t.put s).find? s.key = some s :=
  Table.find?_set_self _ _ _

variable {s : EntityState} {k : EntityKey}

theorem find?_put_ne (t : EntityTable) (h : k ≠ s.key) : (t.put s).find? k = t.find? k :=
  Table.find?_set_ne _ _ h

variable {t : EntityTable}

theorem key_of_find? (h : t.find? k = some s) : s.key = k := t.keyed h

theorem find?_key (h : t.find? k = some s) : t.find? s.key = some s := by
  rwa [key_of_find? h]

theorem mem_states : s ∈ t.states ↔ t.find? s.key = some s := by
  rw [states, List.mem_map]
  constructor
  · rintro ⟨⟨k, s'⟩, h, rfl⟩
    rw [Table.mem_rows] at h
    rwa [t.keyed h]
  · exact fun h => ⟨(s.key, s), Table.mem_rows.2 h, rfl⟩

/-- The narrative node. -/
def node? (t : EntityTable) (id : ID) : Option NarrativeNodeState :=
  match t.find? ⟨.narrativeNode, id⟩ with
  | some (.narrativeNode s) => some s
  | _ => none

variable {id : ID}

@[simp]
theorem node?_eq_some {s : NarrativeNodeState} :
    t.node? id = some s ↔ t.find? ⟨.narrativeNode, id⟩ = some (.narrativeNode s) := by
  unfold node?
  split <;> simp_all

/-- The narrative node, if it is a section. -/
def section? (t : EntityTable) (id : ID) : Option NarrativeNodeState :=
  (t.node? id).filter fun s => s.kind == .section

/-- The transcript correction. -/
def correction? (t : EntityTable) (id : ID) : Option TranscriptCorrectionState :=
  match t.find? ⟨.transcriptCorrection, id⟩ with
  | some (.transcriptCorrection s) => some s
  | _ => none

@[simp]
theorem correction?_eq_some {s : TranscriptCorrectionState} : t.correction? id = some s ↔
      t.find? ⟨.transcriptCorrection, id⟩ = some (.transcriptCorrection s) := by
  unfold correction?
  split <;> simp_all

/-- The caption. -/
def caption? (t : EntityTable) (id : ID) : Option CaptionState :=
  match t.find? ⟨.caption, id⟩ with
  | some (.caption s) => some s
  | _ => none

@[simp]
theorem caption?_eq_some {s : CaptionState} :
    t.caption? id = some s ↔ t.find? ⟨.caption, id⟩ = some (.caption s) := by
  unfold caption?
  split <;> simp_all

/-- The clip. -/
def clip? (t : EntityTable) (id : ID) : Option ClipState :=
  match t.find? ⟨.clip, id⟩ with
  | some (.clip s) => some s
  | _ => none

@[simp]
theorem clip?_eq_some {s : ClipState} :
    t.clip? id = some s ↔ t.find? ⟨.clip, id⟩ = some (.clip s) := by
  unfold clip?
  split <;> simp_all

/-- The link group. -/
def linkGroup? (t : EntityTable) (id : ID) : Option LinkGroupState :=
  match t.find? ⟨.linkGroup, id⟩ with
  | some (.linkGroup s) => some s
  | _ => none

@[simp]
theorem linkGroup?_eq_some {s : LinkGroupState} :
    t.linkGroup? id = some s ↔ t.find? ⟨.linkGroup, id⟩ = some (.linkGroup s) := by
  unfold linkGroup?
  split <;> simp_all

/-- The alignment. -/
def alignment? (t : EntityTable) (id : ID) : Option AlignmentState :=
  match t.find? ⟨.alignment, id⟩ with
  | some (.alignment s) => some s
  | _ => none

@[simp]
theorem alignment?_eq_some {s : AlignmentState} :
    t.alignment? id = some s ↔ t.find? ⟨.alignment, id⟩ = some (.alignment s) := by
  unfold alignment?
  split <;> simp_all

/-- The asset. -/
def asset? (t : EntityTable) (id : ID) : Option AssetState :=
  match t.find? ⟨.asset, id⟩ with
  | some (.asset s) => some s
  | _ => none

@[simp]
theorem asset?_eq_some {s : AssetState} :
    t.asset? id = some s ↔ t.find? ⟨.asset, id⟩ = some (.asset s) := by
  unfold asset?
  split <;> simp_all

/-- The transcript corrections of the table. -/
def corrections (t : EntityTable) : List TranscriptCorrectionState :=
  t.states.filterMap fun | .transcriptCorrection s => some s | _ => none

/-- The assets of the table. -/
def assets (t : EntityTable) : List AssetState :=
  t.states.filterMap fun | .asset s => some s | _ => none

/-- The captions of the table. -/
def captions (t : EntityTable) : List CaptionState :=
  t.states.filterMap fun | .caption s => some s | _ => none

/-- The clips of the table. -/
def clips (t : EntityTable) : List ClipState :=
  t.states.filterMap fun | .clip s => some s | _ => none

end EntityTable

/-! ## Media -/

/-- A track of the sequence. -/
structure EditTrackState where
  id : ID
  revision : Revision
  type : TrackType

/-- What a stream holds. -/
inductive MediaType
  | video
  | audio
  | subtitle
  | data
  | attachment
  | other
deriving DecidableEq

/-- The part of a stream's description that edits read. -/
structure SourceStreamDescriptor where
  mediaType : MediaType
  startTime : Option RationalTime
  duration : Option RationalTime

/-- A stream of an asset, with the asset's revision. -/
structure EditSourceStreamState where
  id : ID
  assetID : ID
  assetRevision : Revision
  descriptor : SourceStreamDescriptor

/-- A word of a transcript. -/
structure TranscriptToken where
  sourceRange : TimeRange
  text : Text

/-- A segment of a transcript. -/
structure EditTranscriptSegmentState where
  id : ID
  ordinal : Nat
  tokens : List TranscriptToken

/-- A transcript of a stream of an asset. -/
structure EditTranscriptArtifactState where
  id : ID
  assetID : ID
  fingerprint : Digest
  sourceStreamID : ID
  segments : List EditTranscriptSegmentState

/-- The segment of the transcript. -/
def EditTranscriptArtifactState.segment? (artifact : EditTranscriptArtifactState) (id : ID) :
    Option EditTranscriptSegmentState :=
  artifact.segments.find? fun segment => segment.id == id

/-- Whether the transcript an excerpt was taken from still says the same. -/
inductive SourceExcerptEvidenceStatus
  | exact
  | stale
deriving DecidableEq

/-! ## The loaded state -/

/-- The state loaded for a request. -/
structure EditNormalizationState where
  projectRevision : Revision
  documentRevision : Revision
  sequenceID : ID
  sequenceRevision : Revision
  entities : EntityTable
  tracks : Table ID EditTrackState
  sectionChildCounts : Table ID Int
  sourceExcerptEvidence : Table ID SourceExcerptEvidenceStatus
  transcriptArtifacts : Table ID EditTranscriptArtifactState
  linkGroupClips : Table ID (List ID)
  sourceStreams : Table ID EditSourceStreamState
  nodeAlignments : Table ID (List ID)
  captionAlignments : Table ID (List ID)
  clipAlignments : Table ID (List ID)

end OpenCut
