import OpenCut.Domain.Exact

/-!
# Entities of an edit

`domain/edit.go` and `domain/caption_derivation.go`: the states of the entities
an edit can put, the normalized operations a proposal is made of, and the
revision changes it announces.

Identities are UUIDs in the source; here they are numbers, ordered as the texts
of the UUIDs are. The five node states of the source share their identity,
revision, parent, anchor and tombstone; they are one record
(`NarrativeNodeState`) with a payload per kind. `EntityState` is the sum of all
entity states, which the source spells as one optional field per kind. A project
has one narrative document and one sequence, so entities do not repeat them.
-/

namespace OpenCut

/-- A UUID. -/
abbrev ID := Nat

/-- The last `k` hexadecimal digits of a number. -/
def hexDigits : Nat → Nat → List Char
  | 0, _ => []
  | k + 1, n => hexDigits k (n / 16) ++ [Nat.digitChar (n % 16)]

/-- A UUID as it is written. -/
def ID.text (id : ID) : String :=
  let digits := hexDigits 32 id
  let groups := [digits.take 8, (digits.drop 8).take 4, (digits.drop 12).take 4,
    (digits.drop 16).take 4, digits.drop 20]
  "-".intercalate (groups.map String.ofList)

/-- A revision: it starts at `1` and advances by one. -/
abbrev Revision := Nat

/-- A text: a valid UTF-8 string, as its runes. -/
abbrev Text := List Char

/-- A name that a request gives to an entity it creates. -/
abbrev LocalID := Text

/-- The name a writer gives to a request. -/
abbrev RequestID := Text

/-- The length of a text in bytes. -/
def Text.byteLength (t : Text) : Nat := (t.map Char.utf8Size).sum

/-- A SHA-256 digest. -/
abbrev Digest := Nat

/-- A canonical BCP-47 tag; decoding rejects any other (`ParseCaptionLanguage`). -/
abbrev CaptionLanguage := Text

/-- The kinds of entities, in the order of their names on the wire. -/
inductive EditEntityKind
  | alignment
  | asset
  | caption
  | clip
  | linkGroup
  | narrativeDocument
  | narrativeNode
  | sequence
  | track
  | transcriptCorrection
deriving DecidableEq

/-- The name of the kind on the wire. -/
def EditEntityKind.name : EditEntityKind → String
  | .alignment => "alignment"
  | .asset => "asset"
  | .caption => "caption"
  | .clip => "clip"
  | .linkGroup => "link-group"
  | .narrativeDocument => "narrative-document"
  | .narrativeNode => "narrative-node"
  | .sequence => "sequence"
  | .track => "track"
  | .transcriptCorrection => "transcript-correction"

/-- The place of the kind among the names on the wire. -/
def EditEntityKind.rank : EditEntityKind → Nat
  | .alignment => 0
  | .asset => 1
  | .caption => 2
  | .clip => 3
  | .linkGroup => 4
  | .narrativeDocument => 5
  | .narrativeNode => 6
  | .sequence => 7
  | .track => 8
  | .transcriptCorrection => 9

/-- The kind and the identity of an entity (`entityKey`). -/
@[ext]
structure EntityKey where
  kind : EditEntityKind
  id : ID
deriving DecidableEq

/-- The order in which changes and preconditions are listed. -/
def EntityKey.le (a b : EntityKey) : Bool :=
  a.kind.rank < b.kind.rank || (a.kind == b.kind && a.id ≤ b.id)

/-! ## Narrative nodes -/

/-- Kinds of narrative nodes. -/
inductive NarrativeNodeKind
  | section
  | authoredText
  | sourceExcerpt
  | visualIntent
  | note
deriving DecidableEq

/-- What an authored text is for. -/
inductive AuthoredTextPurpose
  | spoken
  | onScreen
deriving DecidableEq

/-- What a visual intent is for. -/
inductive VisualIntentPurpose
  | bRoll
  | composition
  | replacement
deriving DecidableEq

/-- A correction pinned at a revision. -/
structure TranscriptCorrectionRevisionRef where
  id : ID
  revision : Revision
deriving DecidableEq

/-- The transcript a source excerpt was taken from. -/
structure SourceExcerptTranscriptEvidence where
  artifactID : ID
  sourceStreamID : ID
  segmentIDs : List ID
  correctionRevisions : List TranscriptCorrectionRevisionRef
deriving DecidableEq

/-- What a source excerpt says. -/
structure SourceExcerptValue where
  assetID : ID
  acceptedFingerprint : Digest
  sourceRange : TimeRange
  language : CaptionLanguage
  effectiveText : Text
  evidence : SourceExcerptTranscriptEvidence
deriving DecidableEq

/-- What a node says, by kind. -/
inductive NarrativeNodeValue
  | section (title : Text) (language : CaptionLanguage)
  | authoredText (purpose : AuthoredTextPurpose) (language : CaptionLanguage) (text : Text)
  | sourceExcerpt (value : SourceExcerptValue)
  | visualIntent (purpose : VisualIntentPurpose) (language : CaptionLanguage) (description : Text)
  | note (language : CaptionLanguage) (text : Text)
deriving DecidableEq

/-- The kind of a node with this value. -/
def NarrativeNodeValue.kind : NarrativeNodeValue → NarrativeNodeKind
  | .section .. => .section
  | .authoredText .. => .authoredText
  | .sourceExcerpt .. => .sourceExcerpt
  | .visualIntent .. => .visualIntent
  | .note .. => .note

/-- A narrative node as a proposal puts it. `afterNodeID` is the sibling it
    stands after; `none` is the first place. -/
structure NarrativeNodeState where
  id : ID
  revision : Revision
  parentID : Option ID
  afterNodeID : Option ID
  value : NarrativeNodeValue
  tombstoned : Bool
deriving DecidableEq

/-- The kind of the node. -/
def NarrativeNodeState.kind (n : NarrativeNodeState) : NarrativeNodeKind := n.value.kind

/-! ## Transcript corrections -/

/-- The replacement of a stretch of a transcript. -/
structure TranscriptCorrectionState where
  id : ID
  revision : Revision
  assetID : ID
  artifactID : ID
  segmentIDs : List ID
  sourceRange : TimeRange
  replacementText : Text
  language : CaptionLanguage
  tombstoned : Bool
deriving DecidableEq

/-! ## Captions -/

/-- How captions are derived from a transcript. -/
structure CaptionDerivationPolicy where
  id : String
  maximumLines : Nat
  maximumLineGraphemes : Nat
  minimumDuration : RationalTime
  maximumDuration : RationalTime
  maximumGap : RationalTime
  maximumReadingRate : Nat
  boundaryPolicy : String
  timingPolicy : String
  unicodeSegmentationID : String
deriving DecidableEq

/-- The only policy that passes `Validate`. -/
def readableCaptionPolicyV1 : CaptionDerivationPolicy where
  id := "readable-captions-v1"
  maximumLines := 2
  maximumLineGraphemes := 42
  minimumDuration := ⟨1, 1, by decide⟩
  maximumDuration := ⟨6, 1, by decide⟩
  maximumGap := ⟨3, 4, by decide⟩
  maximumReadingRate := 20
  boundaryPolicy := "terminal-punctuation-v1"
  timingPolicy := "forward-pad-no-overlap-v1"
  unicodeSegmentationID := "unicode-egc-15.0.0-uniseg-v0.4.7"

/-- `Validate`. -/
def CaptionDerivationPolicy.Valid (policy : CaptionDerivationPolicy) : Prop :=
  policy = readableCaptionPolicyV1

instance (policy : CaptionDerivationPolicy) : Decidable policy.Valid :=
  inferInstanceAs (Decidable (policy = readableCaptionPolicyV1))

/-- What a derived caption was derived from. -/
structure CaptionDerivationProvenance where
  sourceExcerptID : ID
  sourceExcerptRevision : Revision
  assetID : ID
  acceptedFingerprint : Digest
  artifactID : ID
  sourceStreamID : ID
  segmentIDs : List ID
  correctionRevisions : List TranscriptCorrectionRevisionRef
  clipID : ID
  clipRevision : Revision
  clipSourceRange : TimeRange
  clipTimelineRange : TimeRange
  evidenceSourceRange : TimeRange
  policy : CaptionDerivationPolicy
  derivedRange : TimeRange
  derivedLanguage : CaptionLanguage
  derivedText : Text
deriving DecidableEq

/-- Where a caption comes from. -/
inductive CaptionProvenance
  | manual
  | transcriptDerivation (derivation : CaptionDerivationProvenance)
deriving DecidableEq

/-- A caption on a caption track. -/
structure CaptionState where
  id : ID
  revision : Revision
  trackID : ID
  range : TimeRange
  language : CaptionLanguage
  text : Text
  provenance : CaptionProvenance
  tombstoned : Bool
deriving DecidableEq

/-! ## Alignments -/

/-- Whether an alignment still says where its node is on the timeline. -/
inductive AlignmentStatus
  | exact
  | stale
  | unbound
deriving DecidableEq

/-- What an alignment points at, pinned at a revision. -/
inductive AlignmentTarget
  | caption (captionID : ID) (captionRevision : Revision) (localRange : TimeRange)
  | clip (clipID : ID) (clipRevision : Revision) (localRange : TimeRange)
  | timeline (sequenceRevision : Revision) (range : TimeRange)
deriving DecidableEq

/-- The target apart from the revision. -/
def AlignmentTarget.unrevised : AlignmentTarget → AlignmentTarget
  | .caption id _ range => .caption id 0 range
  | .clip id _ range => .clip id 0 range
  | .timeline _ range => .timeline 0 range

/-- The places of a narrative node on the timeline. -/
structure AlignmentState where
  id : ID
  revision : Revision
  narrativeNodeID : ID
  narrativeNodeRevision : Revision
  targets : List AlignmentTarget
  status : AlignmentStatus
deriving DecidableEq

/-! ## Clips and link groups -/

/-- The static creative transform of a visual clip. -/
structure ClipPlacement where
  cropXBasisPoints : Nat
  cropYBasisPoints : Nat
  cropWidthBasisPoints : Nat
  cropHeightBasisPoints : Nat
  scaleX : ExactRational
  scaleY : ExactRational
  translateX : ExactRational
  translateY : ExactRational
  opacityBasisPoints : Nat
deriving DecidableEq

/-- `ClipPlacementScaleLimit`. -/
def clipPlacementScaleLimit : Nat := 100

/-- `ClipPlacementTranslateLimit`. -/
def clipPlacementTranslateLimit : Nat := 10

/-- `ClipPlacement.Validate`. -/
structure ClipPlacement.Valid (p : ClipPlacement) : Prop where
  cropWidth : 1 ≤ p.cropWidthBasisPoints
  cropHeight : 1 ≤ p.cropHeightBasisPoints
  cropX : p.cropXBasisPoints + p.cropWidthBasisPoints ≤ 10000
  cropY : p.cropYBasisPoints + p.cropHeightBasisPoints ≤ 10000
  opacity : p.opacityBasisPoints ≤ 10000
  scale : ∀ scale ∈ [p.scaleX, p.scaleY],
    0 < scale.value ∧ scale.value ≤ scale.scale * clipPlacementScaleLimit
  translate : ∀ translate ∈ [p.translateX, p.translateY],
    translate.value.natAbs ≤ translate.scale * clipPlacementTranslateLimit

instance (p : ClipPlacement) : Decidable p.Valid :=
  decidable_of_iff (1 ≤ p.cropWidthBasisPoints ∧ 1 ≤ p.cropHeightBasisPoints ∧
      p.cropXBasisPoints + p.cropWidthBasisPoints ≤ 10000 ∧
      p.cropYBasisPoints + p.cropHeightBasisPoints ≤ 10000 ∧ p.opacityBasisPoints ≤ 10000 ∧
      (∀ scale ∈ [p.scaleX, p.scaleY],
        0 < scale.value ∧ scale.value ≤ scale.scale * clipPlacementScaleLimit) ∧
      ∀ translate ∈ [p.translateX, p.translateY],
        translate.value.natAbs ≤ translate.scale * clipPlacementTranslateLimit)
    ⟨fun ⟨h₁, h₂, h₃, h₄, h₅, h₆, h₇⟩ => ⟨h₁, h₂, h₃, h₄, h₅, h₆, h₇⟩,
      fun ⟨h₁, h₂, h₃, h₄, h₅, h₆, h₇⟩ => ⟨h₁, h₂, h₃, h₄, h₅, h₆, h₇⟩⟩

/-- What `Validate` says of an invalid placement: the first check that fails. -/
def ClipPlacement.fault (p : ClipPlacement) : String :=
  if p.cropWidthBasisPoints < 1 ∨ p.cropHeightBasisPoints < 1 ∨
      10000 < p.cropXBasisPoints + p.cropWidthBasisPoints ∨
      10000 < p.cropYBasisPoints + p.cropHeightBasisPoints then
    "invalid clip placement: placement crop window must stay inside [0,10000] basis points"
  else if 10000 < p.opacityBasisPoints then
    "invalid clip placement: placement opacity is at most 10000 basis points"
  else if ∃ scale ∈ [p.scaleX, p.scaleY],
      scale.value ≤ 0 ∨ scale.scale * clipPlacementScaleLimit < scale.value then
    "invalid clip placement: placement scale must be positive and at most 100x"
  else
    "invalid clip placement: placement translation must stay within 10 canvas units"

/-- The placement every clip has when none is stored. -/
def identityClipPlacement : ClipPlacement where
  cropXBasisPoints := 0
  cropYBasisPoints := 0
  cropWidthBasisPoints := 10000
  cropHeightBasisPoints := 10000
  scaleX := 1
  scaleY := 1
  translateX := 0
  translateY := 0
  opacityBasisPoints := 10000

/-- A clip on a video or audio track. -/
structure ClipState where
  id : ID
  revision : Revision
  trackID : ID
  assetID : ID
  sourceStreamID : ID
  sourceRange : TimeRange
  timelineRange : TimeRange
  enabled : Bool
  linkGroupID : Option ID
  placement : Option ClipPlacement
  tombstoned : Bool
deriving DecidableEq

/-- A group of clips that are edited together. -/
structure LinkGroupState where
  id : ID
  revision : Revision
  tombstoned : Bool
deriving DecidableEq

/-! ## Assets -/

/-- How an asset's file is held. -/
inductive AssetImportMode
  | referenced
  | managed
deriving DecidableEq

/-- A registered media file. Its fingerprint is accepted once the media work has
    identified it. -/
structure AssetState where
  id : ID
  revision : Revision
  sourceGrantID : ID
  displayName : Text
  importMode : AssetImportMode
  acceptedFingerprint : Option Digest
  tombstoned : Bool
deriving DecidableEq

/-! ## Entities of every kind -/

/-- The state of an entity that an edit can put. -/
inductive EntityState
  | narrativeNode (state : NarrativeNodeState)
  | transcriptCorrection (state : TranscriptCorrectionState)
  | caption (state : CaptionState)
  | alignment (state : AlignmentState)
  | asset (state : AssetState)
  | clip (state : ClipState)
  | linkGroup (state : LinkGroupState)
deriving DecidableEq

namespace EntityState

/-- The kind and identity of the entity (`normalizedOperationIdentity`). -/
def key : EntityState → EntityKey
  | narrativeNode s => ⟨.narrativeNode, s.id⟩
  | transcriptCorrection s => ⟨.transcriptCorrection, s.id⟩
  | caption s => ⟨.caption, s.id⟩
  | alignment s => ⟨.alignment, s.id⟩
  | asset s => ⟨.asset, s.id⟩
  | clip s => ⟨.clip, s.id⟩
  | linkGroup s => ⟨.linkGroup, s.id⟩

/-- `normalizedOperationRevision`. -/
def revision : EntityState → Revision
  | narrativeNode s => s.revision
  | transcriptCorrection s => s.revision
  | caption s => s.revision
  | alignment s => s.revision
  | asset s => s.revision
  | clip s => s.revision
  | linkGroup s => s.revision

variable (r : Revision)

/-- `setNormalizedOperationRevision`. -/
def withRevision : EntityState → EntityState
  | narrativeNode s => narrativeNode { s with revision := r }
  | transcriptCorrection s => transcriptCorrection { s with revision := r }
  | caption s => caption { s with revision := r }
  | alignment s => alignment { s with revision := r }
  | asset s => asset { s with revision := r }
  | clip s => clip { s with revision := r }
  | linkGroup s => linkGroup { s with revision := r }

/-- `normalizedOperationTombstoned`. An alignment has no tombstone. -/
def tombstoned : EntityState → Bool
  | narrativeNode s => s.tombstoned
  | transcriptCorrection s => s.tombstoned
  | caption s => s.tombstoned
  | alignment _ => false
  | asset s => s.tombstoned
  | clip s => s.tombstoned
  | linkGroup s => s.tombstoned

/-- The entity taken out of the project: tombstoned, or, for an alignment,
    unbound. -/
def retired : EntityState → EntityState
  | narrativeNode s => narrativeNode { s with tombstoned := true }
  | transcriptCorrection s => transcriptCorrection { s with tombstoned := true }
  | caption s => caption { s with tombstoned := true }
  | alignment s => alignment { s with status := .unbound }
  | asset s => asset { s with tombstoned := true }
  | clip s => clip { s with tombstoned := true }
  | linkGroup s => linkGroup { s with tombstoned := true }

/-- The entity apart from revisions: its own, and those that an alignment records. -/
def unrevised : EntityState → EntityState
  | alignment s => alignment { s with
      revision := 0, narrativeNodeRevision := 0
      targets := s.targets.map AlignmentTarget.unrevised }
  | s => s.withRevision 0

variable (s : EntityState)

@[simp]
theorem unrevised_withRevision : (s.withRevision r).unrevised = s.unrevised := by
  cases s <;> rfl

@[simp]
theorem key_withRevision : (s.withRevision r).key = s.key := by
  cases s <;> rfl

@[simp]
theorem revision_withRevision : (s.withRevision r).revision = r := by
  cases s <;> rfl

end EntityState

/-! ## Project versions -/

/-- What a track holds. -/
inductive TrackType
  | video
  | audio
  | caption
deriving DecidableEq

/-- The type on the wire. -/
def TrackType.name : TrackType → String
  | .video => "video"
  | .audio => "audio"
  | .caption => "caption"

/-- A track as a version captures it. -/
structure ProjectVersionTrack where
  id : ID
  revision : Revision
  type : TrackType
  label : Text
  orderKey : Text
deriving DecidableEq

/-- The state of a project that a version captures (`projectVersionState`). The source
    lists corrections, assets, link groups, clips, captions and alignments apart;
    `entities` is one list after another. -/
structure ProjectVersionState where
  projectRevision : Revision
  documentID : ID
  documentRevision : Revision
  sequenceID : ID
  sequenceRevision : Revision
  tracks : List ProjectVersionTrack
  narrativeNodes : List NarrativeNodeState
  entities : List EntityState
deriving DecidableEq

/-! ## Proposals and transactions -/

/-- The stored version a restore goes back to. The digest of its state is represented
    by the state. -/
structure ProjectVersionRestoreRef where
  id : ID
  digest : ProjectVersionState
deriving DecidableEq

/-- An operation of a normalized proposal. -/
inductive NormalizedEditOperation
  | put (state : EntityState)
  | restoreProjectVersion (version : ProjectVersionRestoreRef)
deriving DecidableEq

/-- The entity must be at the revision. -/
structure EntityPrecondition where
  key : EntityKey
  revision : Revision
deriving DecidableEq

/-- A local name of a request and the identity allocated for it. -/
structure LocalAllocation where
  localID : LocalID
  kind : EditEntityKind
  id : ID
deriving DecidableEq

/-- What a proposal does to the revision of an entity: `before` is absent for an
    entity that it creates. -/
structure EntityRevisionChange where
  key : EntityKey
  before : Option Revision
  after : Revision
  tombstoned : Bool
deriving DecidableEq

/-- Who asks. -/
inductive ActorRef
  | agent (id : ID)
  | creator (id : ID)
deriving DecidableEq

/-- What became of a proposal. -/
inductive ProposalStatus
  | open
  | applied
  | stale
  | cancelled
deriving DecidableEq

/-- A normalized proposal. `projectRevision` is the revision of the project that
    its `edit.proposed` activity records. -/
structure EditProposal where
  id : ID
  runID : Option ID
  turnID : Option ID
  requestID : RequestID
  actor : ActorRef
  intent : Text
  baseProjectRevision : Revision
  projectRevision : Revision
  preconditions : List EntityPrecondition
  allocation : List LocalAllocation
  operations : List NormalizedEditOperation
  inversePreview : List NormalizedEditOperation
  changes : List EntityRevisionChange
  status : ProposalStatus
  appliedTransactionID : Option ID
deriving DecidableEq

/-- A committed edit. -/
structure EditTransaction where
  id : ID
  proposalID : ID
  actor : ActorRef
  intent : Text
  operations : List NormalizedEditOperation
  inverseOperations : List NormalizedEditOperation
  changes : List EntityRevisionChange
  committedProjectRevision : Revision
  undoesTransactionID : Option ID

end OpenCut
