import OpenCut.Application.NormalizeClips
import OpenCut.Repository.Store

/-!
# Loading the state of a request

`repository/edit_state*.go`: for every operation of a request, the entities it names and
those around them are read into an `EditNormalizationState`: the sections above a node,
the members of a link group, the live entities that a range meets, and the exact
alignments of everything that is changed. Rows are selected by order keys
(`keysMeet`), which is exact (`rationalOrderKey_strictMono`).

The rows of a query go into a map; the order in which they are read shows nowhere
except in the members of a link group and the alignments of an entity, which are listed
by identity.
-/

namespace OpenCut

open Outcome

/-- The state loaded so far, and the entities whose alignments are read at the end. -/
structure EditLoad where
  state : EditNormalizationState
  mutatedNodes : List ID
  mutatedCaptions : List ID
  mutatedClips : List ID

/-- The condition of the queries for overlaps, on the order keys of the two ranges. -/
def keysMeet (stored range : TimeRange) : Bool :=
  match stored.end?, range.end? with
  | some storedEnd, some rangeEnd =>
    rationalOrderKey stored.start < rationalOrderKey rangeEnd &&
      rationalOrderKey range.start < rationalOrderKey storedEnd
  | _, _ => false

/-- `trimBoundaryDeltas`. -/
def trimBoundaryDeltas (current next : TimeRange) :
    Except EditError (RationalTime × RationalTime) := do
  let left ← need (next.start.subtract? current.start) errEditInvalid
  let currentEnd ← need current.end? errEditInvalid
  let nextEnd ← need next.end? errEditInvalid
  let right ← need (nextEnd.subtract? currentEnd) errEditInvalid
  return (left, right)

/-- `rangeWithStoredBoundaryDeltas`. -/
def rangeWithStoredBoundaryDeltas (current : TimeRange) (left right : RationalTime) :
    Except EditError TimeRange := do
  let start ← need (current.start.add? left) errEditInvalid
  let currentEnd ← need current.end? errEditInvalid
  let newEnd ← need (currentEnd.add? right) errEditInvalid
  let duration ← need (newEnd.subtract? start) errEditInvalid
  newTimeRange start duration

namespace EditLoad

/-- Records a node whose alignments are to be read. -/
def mutateNode (l : EditLoad) (id : ID) : EditLoad :=
  { l with mutatedNodes := l.mutatedNodes.insert id }

/-- Records a caption whose alignments are to be read. -/
def mutateCaption (l : EditLoad) (id : ID) : EditLoad :=
  { l with mutatedCaptions := l.mutatedCaptions.insert id }

/-- Records a clip whose alignments are to be read. -/
def mutateClip (l : EditLoad) (id : ID) : EditLoad :=
  { l with mutatedClips := l.mutatedClips.insert id }

/-- The load with one more entity. -/
def addEntity (l : EditLoad) (s : EntityState) : EditLoad :=
  { l with state := { l.state with entities := l.state.entities.put s } }

/-! ## Entities -/

section

variable (c : Content) (l : EditLoad)

/-- The shape of the `ensure…State` functions: an entity that is not loaded yet is read. -/
def ensureEntity (key : EntityKey) (missing : EditError) : Except EditError EditLoad :=
  match l.state.entities.find? key with
  | some _ => .ok l
  | none => do
    let state ← need (c.load? key) missing
    return l.addEntity state

variable (id : ID)

/-- `ensureCaptionState`. -/
def ensureCaptionState : Except EditError EditLoad :=
  l.ensureEntity c ⟨.caption, id⟩ (.invalid s!"caption {id.text} does not exist in this project")

/-- `ensureClipState`. -/
def ensureClipState : Except EditError EditLoad := l.ensureEntity c ⟨.clip, id⟩ errEditInvalid

/-- `ensureLinkGroupState`. -/
def ensureLinkGroupState : Except EditError EditLoad :=
  l.ensureEntity c ⟨.linkGroup, id⟩ errEditInvalid

/-- `ensureAlignmentState`. -/
def ensureAlignmentState : Except EditError EditLoad :=
  l.ensureEntity c ⟨.alignment, id⟩ errEditInvalid

/-- `ensureTranscriptCorrectionState`. -/
def ensureTranscriptCorrectionState : Except EditError EditLoad :=
  l.ensureEntity c ⟨.transcriptCorrection, id⟩ errEditInvalid

/-- `ensureTrackState`. -/
def ensureTrackState : Except EditError EditLoad :=
  match l.state.tracks.find? id with
  | some _ => .ok l
  | none => do
    let row ← need (c.tracks.find? id) (.invalid s!"track {id.text} does not exist in this project")
    let track : EditTrackState := { id, revision := row.revision, type := row.type }
    return { l with state := { l.state with tracks := l.state.tracks.set id track } }

/-! ## Narrative nodes -/

/-- The number of live children of a section. -/
def childCount : Nat := (c.nodes.rows.filter fun (_, row) => row.liveUnder id).length

/-- The load with a section and the number of its children. -/
def addSection (s : NarrativeNodeState) : EditLoad :=
  let l := l.addEntity (.narrativeNode s)
  { l with state := { l.state with
      sectionChildCounts := l.state.sectionChildCounts.set s.id (childCount c s.id) } }

/-- The recursion of `ensureSectionState` towards the root. -/
def ensureSectionStates : Nat → EditLoad → ID → Except EditError EditLoad
  | 0, _, _ => .error errEditInvalid
  | fuel + 1, l, id =>
    if (l.state.entities.section? id).isSome then .ok l
    else do
      let state ← need (c.loadNode? id) errEditInvalid
      ensure (state.kind = .section) errEditInvalid
      let l := l.addSection c state
      match state.parentID with
      | none => return l
      | some parent => ensureSectionStates fuel l parent

/-- `ensureSectionState`: reads a section and the sections above it. A section is read
    once, so the number of nodes bounds the recursion. -/
def ensureSectionState : Except EditError EditLoad :=
  ensureSectionStates c (c.nodes.rows.length + 1) l id

/-- `ensureSourceExcerptState`. -/
def ensureSourceExcerptState : Except EditError EditLoad :=
  match l.state.entities.node? id with
  | some state => do
    ensure (state.kind = .sourceExcerpt) errEditInvalid
    return l
  | none => do
    let state ← need (c.loadNode? id) errEditInvalid
    ensure (state.kind = .sourceExcerpt) errEditInvalid
    return l.addEntity (.narrativeNode state)

/-- `ensureNarrativeNodeState`. -/
def ensureNarrativeNodeState : Except EditError EditLoad :=
  match l.state.entities.node? id with
  | some _ => .ok l
  | none => do
    let state ← need (c.loadNode? id) errEditInvalid
    if state.kind = .section then l.ensureSectionState c id
    else return l.addEntity (.narrativeNode state)

/-- Reads the sibling that an operation names by its identity. -/
def ensureAfter (after : Option EditReference) : Except EditError EditLoad :=
  match after.bind (·.id?) with
  | none => .ok l
  | some id => l.ensureNarrativeNodeState c id

/-- The parent of a loaded node (`normalizationNarrativeParent`), with its section read. -/
def ensureParent : Except EditError EditLoad := do
  let parent ← need ((l.state.entities.node? id).bind (·.parentID)) errEditInvalid
  l.ensureSectionState c parent

/-! ## Ranges -/

/-- The shape of the queries for overlaps: the selected rows whose range is met, of
    which there may be at most `limit`. -/
def loadOverlaps (rangeOf : EntityState → Option TimeRange) (range : TimeRange) (limit : Nat) :
    Except EditError EditLoad := do
  ensure range.end?.isSome errEditInvalid
  let rows := c.entities.states.filter fun s => (rangeOf s).any fun stored => keysMeet stored range
  ensure (rows.length ≤ limit) errEditInvalid
  rows.foldlM (fun l s => l.ensureEntity c s.key errEditInvalid) l

/-- `loadCaptionOverlaps`. -/
def loadCaptionOverlaps (trackID : ID) (range : TimeRange) (exclude : Option ID) :
    Except EditError EditLoad :=
  l.loadOverlaps c (fun
    | .caption s =>
      if s.trackID = trackID ∧ s.tombstoned = false ∧ exclude ≠ some s.id then some s.range
      else none
    | _ => none) range 512

/-- `loadClipOverlaps`. -/
def loadClipOverlaps (trackID : ID) (range : TimeRange) : Except EditError EditLoad :=
  l.loadOverlaps c (fun
    | .clip s => if s.trackID = trackID ∧ s.tombstoned = false then some s.timelineRange else none
    | _ => none) range 512

/-- `loadTranscriptCorrectionOverlaps`. -/
def loadTranscriptCorrectionOverlaps (artifactID : ID) (language : CaptionLanguage)
    (range : TimeRange) : Except EditError EditLoad :=
  l.loadOverlaps c (fun
    | .transcriptCorrection s =>
      if s.artifactID = artifactID ∧ s.language = language ∧ s.tombstoned = false then
        some s.sourceRange
      else none
    | _ => none) range 256

/-! ## Link groups and alignments -/

/-- The live members of a link group, by identity. -/
def groupMembers : List ID :=
  (c.entities.clips.filterMap fun s =>
    if s.linkGroupID = some id ∧ s.tombstoned = false then some s.id else none).insertionSort
    (· ≤ ·)

/-- `loadLinkGroupMembers`. -/
def loadLinkGroupMembers : Except EditError EditLoad :=
  match l.state.linkGroupClips.find? id with
  | some _ => .ok l
  | none => do
    let l ← l.ensureLinkGroupState c id
    let members := groupMembers c id
    ensure (members.length ≤ 64) errEditInvalid
    let l ← members.foldlM (fun l id => l.ensureClipState c id) l
    return { l with state := { l.state with
      linkGroupClips := l.state.linkGroupClips.set id members } }

variable (count : AlignmentState → Nat)

/-- The exact alignments that `count` finds the entity in, once for every time. -/
def exactAlignments : List ID :=
  (c.entities.states.flatMap fun
    | .alignment s => if s.status = .exact then List.replicate (count s) s.id else []
    | _ => []).insertionSort (· ≤ ·)

/-- `loadExactAlignments`: the exact alignments of an entity, with their identities. -/
def loadExactAlignments : Except EditError (EditLoad × List ID) := do
  let ids := exactAlignments c count
  ensure (ids.length ≤ 2048) errEditInvalid
  let l ← ids.foldlM (fun l id => l.ensureAlignmentState c id) l
  return (l, ids)

/-- `loadExactNodeAlignments`. -/
def loadExactNodeAlignments : Except EditError EditLoad := do
  let (l, ids) ← l.loadExactAlignments c fun s => if s.narrativeNodeID = id then 1 else 0
  return { l with state := { l.state with nodeAlignments := l.state.nodeAlignments.set id ids } }

/-- `loadExactCaptionAlignments`. -/
def loadExactCaptionAlignments : Except EditError EditLoad := do
  let (l, ids) ← l.loadExactAlignments c fun s => s.targets.countP fun
    | .caption captionID .. => captionID == id
    | _ => false
  return { l with state := { l.state with
    captionAlignments := l.state.captionAlignments.set id ids } }

/-- `loadExactClipAlignments`. -/
def loadExactClipAlignments : Except EditError EditLoad := do
  let (l, ids) ← l.loadExactAlignments c fun s => s.targets.countP fun
    | .clip clipID .. => clipID == id
    | _ => false
  return { l with state := { l.state with clipAlignments := l.state.clipAlignments.set id ids } }

/-- Reads what an alignment points at now. -/
def ensureTarget (target : AlignmentTarget) : Except EditError EditLoad :=
  match target with
  | .caption captionID .. => l.ensureCaptionState c captionID
  | .clip clipID .. => l.ensureClipState c clipID
  | .timeline .. => .ok l

/-- Reads what an alignment is bound to, if it is named by its identity. -/
def ensureTargetInput (target : AlignmentTargetInput) : Except EditError EditLoad :=
  match target with
  | .caption (.byID id) _ => l.ensureCaptionState c id
  | .clip (.byID id) _ => l.ensureClipState c id
  | _ => .ok l

/-- `loadAlignmentRemapInput`. -/
def loadAlignmentRemapInput (alignmentID : ID) (targets : List AlignmentTargetInput) :
    Except EditError EditLoad := do
  let l ← l.ensureAlignmentState c alignmentID
  let current ← need (l.state.entities.alignment? alignmentID) errEditInvalid
  let l ← current.targets.foldlM (fun l target => l.ensureTarget c target) l
  targets.foldlM (fun l target => l.ensureTargetInput c target) l

end

/-! ## Media -/

section

variable (c : Content) (m : Media) (l : EditLoad)

/-- `ensureSourceStreamState`: a stream of the file that its asset stands for now. -/
def ensureSourceStreamState (assetID streamID : ID) : Except EditError EditLoad :=
  match l.state.sourceStreams.find? streamID with
  | some current => do
    ensure (current.assetID = assetID) errEditInvalid
    return l
  | none => do
    let row ← need (m.sourceStreams.find? streamID) errEditInvalid
    ensure (row.assetID = assetID) errEditInvalid
    let asset ← need (c.entities.asset? assetID) errEditInvalid
    ensure (asset.tombstoned = false ∧ asset.acceptedFingerprint = some row.fingerprint)
      errEditInvalid
    let stream : EditSourceStreamState := {
      id := streamID, assetID, assetRevision := asset.revision, descriptor := row.descriptor }
    return { l with state := { l.state with
      sourceStreams := l.state.sourceStreams.set streamID stream } }

/-- `ensureEditTranscriptArtifact`: a transcript that is ready, with some of its segments. -/
def ensureEditTranscriptArtifact (id : ID) (segmentIDs : List ID) : Except EditError EditLoad := do
  let row ← need (m.transcriptArtifacts.find? id) errEditInvalid
  let artifact ← match l.state.transcriptArtifacts.find? id with
    | some artifact => pure artifact
    | none => do
      ensure (row.ready = true) errEditInvalid
      pure { id, assetID := row.assetID, fingerprint := row.fingerprint
             sourceStreamID := row.sourceStreamID, segments := [] }
  let artifact ← segmentIDs.foldlM (fun (artifact : EditTranscriptArtifactState) segmentID =>
    match artifact.segment? segmentID with
    | some _ => .ok artifact
    | none => do
      let segment ← need (row.segments.find? fun s => s.id == segmentID) errEditInvalid
      return { artifact with segments := artifact.segments ++ [segment] }) artifact
  return { l with state := { l.state with
    transcriptArtifacts := l.state.transcriptArtifacts.set id artifact } }

/-- `sourceExcerptEvidenceStatus`: whether the transcript, the file and the corrections
    are still those that the excerpt was taken from. -/
def sourceExcerptEvidenceStatus (value : SourceExcerptValue) :
    Except EditError SourceExcerptEvidenceStatus :=
  let available := (m.transcriptArtifacts.find? value.evidence.artifactID).any (fun row =>
      row.ready && row.assetID == value.assetID && row.fingerprint == value.acceptedFingerprint &&
        row.sourceStreamID == value.evidence.sourceStreamID) &&
    (c.entities.asset? value.assetID).any fun asset =>
      !asset.tombstoned && asset.acceptedFingerprint == some value.acceptedFingerprint
  if !available then .ok .stale
  else do
    ensure value.sourceRange.end?.isSome errEditInvalid
    let current := c.entities.corrections.filter fun s =>
      s.artifactID = value.evidence.artifactID ∧ s.language = value.language ∧
        s.tombstoned = false ∧ keysMeet s.sourceRange value.sourceRange
    if current.length ≤ 256 ∧ current.length = value.evidence.correctionRevisions.length ∧
        ∀ pinned ∈ value.evidence.correctionRevisions,
          ∃ s ∈ current, s.id = pinned.id ∧ s.revision = pinned.revision then
      return .exact
    else
      return .stale

/-- `ensureSourceExcerptEvidenceStatus`. -/
def ensureSourceExcerptEvidenceStatus (id : ID) (value : SourceExcerptValue) :
    Except EditError EditLoad := do
  let status ← sourceExcerptEvidenceStatus c m value
  return { l with state := { l.state with
    sourceExcerptEvidence := l.state.sourceExcerptEvidence.set id status } }

/-- The source excerpt, if it is loaded. -/
def excerpt? (id : ID) : Option SourceExcerptValue :=
  (l.state.entities.node? id).bind fun state =>
    match state.value with
    | .sourceExcerpt value => some value
    | _ => none

/-- `ensureClipDependencies`. -/
def ensureClipDependencies (clip : ClipState) : Except EditError EditLoad := do
  let l ← l.ensureTrackState c clip.trackID
  l.ensureSourceStreamState c m clip.assetID clip.sourceStreamID

/-- A clip that an operation changes: it is read with its track and its stream. -/
def mutateMember (id : ID) : Except EditError EditLoad := do
  let l ← l.ensureClipState c id
  let clip ← need (l.state.entities.clip? id) errEditInvalid
  let l ← l.ensureClipDependencies c m clip
  return l.mutateClip id

variable (clipID : ID) (scope : ClipMutationScope)

/-- `loadClipMutationInput`, up to the ranges: the clips that the operation acts on. An
    operation that changes who is in the group also changes the other members. -/
def loadClipMutationMembers (membershipChange : Bool) : Except EditError (EditLoad × List ID) := do
  let l ← l.ensureClipState c clipID
  let seed ← need (l.state.entities.clip? clipID) errEditInvalid
  let l ← l.ensureClipDependencies c m seed
  let (l, members) ← match seed.linkGroupID with
    | none => pure (l, [clipID])
    | some group =>
      if scope = .linked ∨ membershipChange then do
        let l ← l.loadLinkGroupMembers c group
        let all := (l.state.linkGroupClips.find? group).getD []
        let l := if membershipChange then all.foldl mutateClip l else l
        pure (l, if scope = .linked then all else [clipID])
      else pure (l, [clipID])
  let l ← members.foldlM (fun l id => l.mutateMember c m id) l
  return (l, members)

/-- `loadClipMutationInput` for a move. -/
def loadMoveClip (trackID : ID) (timelineStart : RationalTime) : Except EditError EditLoad := do
  let (l, members) ← l.loadClipMutationMembers c m clipID scope false
  let l ← l.ensureTrackState c trackID
  let seed ← need (l.state.entities.clip? clipID) errEditInvalid
  let delta ← need (timelineStart.subtract? seed.timelineRange.start) errEditInvalid
  members.foldlM (fun l id => do
    let current ← need (l.state.entities.clip? id) errEditInvalid
    let start ← need (current.timelineRange.start.add? delta) errEditInvalid
    let candidate := { current.timelineRange with start }
    l.loadClipOverlaps c (if id = clipID then trackID else current.trackID) candidate) l

/-- `loadClipMutationInput` for a trim. -/
def loadTrimClip (timelineRange : TimeRange) : Except EditError EditLoad := do
  let (l, members) ← l.loadClipMutationMembers c m clipID scope false
  let seed ← need (l.state.entities.clip? clipID) errEditInvalid
  let (left, right) ← trimBoundaryDeltas seed.timelineRange timelineRange
  members.foldlM (fun l id => do
    let current ← need (l.state.entities.clip? id) errEditInvalid
    let candidate ← rangeWithStoredBoundaryDeltas current.timelineRange left right
    l.loadClipOverlaps c current.trackID candidate) l

/-- `loadClipMutationInput` for a split or a removal. -/
def loadMembershipChange : Except EditError EditLoad := do
  let (l, _) ← l.loadClipMutationMembers c m clipID scope true
  return l

/-- `loadUnlinkClipsInput`. -/
def loadUnlinkClipsInput (groupID : ID) : Except EditError EditLoad := do
  let l ← l.loadLinkGroupMembers c groupID
  let members := (l.state.linkGroupClips.find? groupID).getD []
  members.foldlM (fun l id => l.mutateMember c m id) l

/-- The rows that a derivation of captions reads. -/
def loadDeriveCaptions (nodeID clipID trackID : ID) (outputs : List DerivedCaptionOutputInput) :
    Except EditError EditLoad := do
  let l ← l.ensureSourceExcerptState c nodeID
  let value ← need (l.excerpt? nodeID) errEditInvalid
  let l ← l.ensureEditTranscriptArtifact m value.evidence.artifactID value.evidence.segmentIDs
  let l ← l.loadTranscriptCorrectionOverlaps c value.evidence.artifactID value.language
    value.sourceRange
  let l ← l.ensureSourceStreamState c m value.assetID value.evidence.sourceStreamID
  let l ← l.ensureClipState c clipID
  let l ← l.ensureTrackState c trackID
  outputs.foldlM (fun l output => l.loadCaptionOverlaps c trackID output.timelineRange none) l

/-- The rows that a rough cut reads for an excerpt. -/
def loadRoughCutItem (item : RoughCutDerivationItemInput) : Except EditError EditLoad := do
  let l ← l.ensureSourceExcerptState c item.sourceExcerptID
  let value ← need (l.excerpt? item.sourceExcerptID) errEditInvalid
  let l ← l.ensureSourceExcerptEvidenceStatus c m item.sourceExcerptID value
  (item.video.toList ++ item.audio.toList).foldlM (fun l lane => do
    let l ← l.ensureTrackState c lane.trackID
    l.ensureSourceStreamState c m value.assetID lane.sourceStreamID) l

/-- The rows that a rough cut reads where its clips go. -/
def loadRoughCutOutput (output : DerivedRoughCutOutputInput) : Except EditError EditLoad :=
  (output.video.toList ++ output.audio.toList).foldlM
    (fun l lane => l.loadClipOverlaps c lane.trackID output.timelineRange) l

/-! ## The request -/

/-- The rows that an operation reads. -/
def loadOperation : EditOperationInput → Except EditError EditLoad
  | .insertNarrativeNode _ parentID after _ => do
    let l ← l.ensureSectionState c parentID
    l.ensureAfter c after
  | .updateNarrativeNode nodeID _ => do
    let l ← l.ensureNarrativeNodeState c nodeID
    return l.mutateNode nodeID
  | .moveNarrativeNode nodeID parentID after => do
    let l ← l.ensureNarrativeNodeState c nodeID
    let l ← l.ensureParent c nodeID
    let l ← l.ensureSectionState c parentID
    let l ← l.ensureAfter c after
    return l.mutateNode nodeID
  | .removeNarrativeNode nodeID => do
    let l ← l.ensureNarrativeNodeState c nodeID
    let l ← l.ensureParent c nodeID
    return l.mutateNode nodeID
  | .addCaption _ trackID range _ _ => do
    let l ← l.ensureTrackState c trackID
    l.loadCaptionOverlaps c trackID range none
  | .updateCaption captionID range _ _ => do
    let l ← l.ensureCaptionState c captionID
    let current ← need (l.state.entities.caption? captionID) errEditInvalid
    let l ← l.ensureTrackState c current.trackID
    let l ← l.loadCaptionOverlaps c current.trackID range (some captionID)
    return l.mutateCaption captionID
  | .removeCaption captionID => do
    let l ← l.ensureCaptionState c captionID
    let current ← need (l.state.entities.caption? captionID) errEditInvalid
    let l ← l.ensureTrackState c current.trackID
    return l.mutateCaption captionID
  | .bindAlignment _ narrativeNode targets => do
    let l ← l.ensureAfter c (some narrativeNode)
    targets.foldlM (fun l target => l.ensureTargetInput c target) l
  | .remapAlignment alignmentID targets => l.loadAlignmentRemapInput c alignmentID targets
  | .markAlignmentStale alignmentID => l.ensureAlignmentState c alignmentID
  | .unbindAlignment alignmentID => l.ensureAlignmentState c alignmentID
  | .addClip _ trackID assetID sourceStreamID _ timelineRange _ linkGroup => do
    let l ← l.ensureTrackState c trackID
    let l ← l.ensureSourceStreamState c m assetID sourceStreamID
    let l ← l.loadClipOverlaps c trackID timelineRange
    match linkGroup with
    | some (.existing (.byID id)) => l.loadLinkGroupMembers c id
    | _ => return l
  | .moveClip clipID scope trackID timelineStart =>
    l.loadMoveClip c m clipID scope trackID timelineStart
  | .trimClip clipID scope _ timelineRange => l.loadTrimClip c m clipID scope timelineRange
  | .splitClip clipID scope .. => l.loadMembershipChange c m clipID scope
  | .removeClip clipID scope => l.loadMembershipChange c m clipID scope
  | .setClipPlacement clipID _ => do
    let l ← l.ensureClipState c clipID
    let clip ← need (l.state.entities.clip? clipID) errEditInvalid
    let l ← l.ensureTrackState c clip.trackID
    return l.mutateClip clipID
  | .linkClips _ clips => clips.foldlM (fun l id => l.mutateMember c m id) l
  | .unlinkClips groupID => l.loadUnlinkClipsInput c m groupID
  | .addTranscriptCorrection _ artifactID _ segmentIDs sourceRange language _ => do
    let l ← l.ensureEditTranscriptArtifact m artifactID segmentIDs
    l.loadTranscriptCorrectionOverlaps c artifactID language sourceRange
  | .updateTranscriptCorrection correctionID language _ => do
    let l ← l.ensureTranscriptCorrectionState c correctionID
    let current ← need (l.state.entities.correction? correctionID) errEditInvalid
    l.loadTranscriptCorrectionOverlaps c current.artifactID language current.sourceRange
  | .removeTranscriptCorrection correctionID => l.ensureTranscriptCorrectionState c correctionID
  | .insertSourceExcerpt _ parentID after _ _ artifactID segmentIDs _ sourceRange language => do
    let l ← l.ensureSectionState c parentID
    let l ← l.ensureAfter c after
    let l ← l.ensureEditTranscriptArtifact m artifactID segmentIDs
    l.loadTranscriptCorrectionOverlaps c artifactID language sourceRange
  | .deriveCaptions nodeID clipID trackID _ outputs =>
    l.loadDeriveCaptions c m nodeID clipID trackID outputs
  | .deriveRoughCut derivation _ => do
    let l ← derivation.items.foldlM (fun l item => l.loadRoughCutItem c m item) l
    derivation.outputs.foldlM (fun l output => l.loadRoughCutOutput c output) l

end

end EditLoad

variable (projectRevision : Revision)

/-- `loadEditHeads`: nothing but the revisions. -/
def loadEditHeads (c : Content) : EditLoad where
  state := {
    projectRevision, documentRevision := c.documentRevision, sequenceID := c.sequenceID
    sequenceRevision := c.sequenceRevision, entities := ∅, tracks := ∅, sectionChildCounts := ∅
    sourceExcerptEvidence := ∅, transcriptArtifacts := ∅, linkGroupClips := ∅, sourceStreams := ∅
    nodeAlignments := ∅, captionAlignments := ∅, clipAlignments := ∅ }
  mutatedNodes := []
  mutatedCaptions := []
  mutatedClips := []

/-- The preconditions of a request, against the stored revisions. -/
def checkPreconditions (c : Content) (preconditions : List EntityPrecondition) :
    Except EditError Unit :=
  preconditions.forM fun precondition => do
    let revision ← need (c.revision? precondition.key) errEditInvalid
    ensure (revision = precondition.revision) errEditConflict

/-- `loadEditNormalizationState`, after the checks of the writer and of the project. -/
def loadEditNormalizationState (c : Content) (m : Media)
    (input : EditProposeInput) : Except EditError EditNormalizationState := do
  checkPreconditions c input.preconditions
  let l ← input.operations.foldlM (fun (l : EditLoad) op => l.loadOperation c m op)
    (loadEditHeads projectRevision c)
  let l ← l.mutatedNodes.foldlM (fun l id => l.loadExactNodeAlignments c id) l
  let l ← l.mutatedCaptions.foldlM (fun l id => l.loadExactCaptionAlignments c id) l
  let l ← l.mutatedClips.foldlM (fun l id => l.loadExactClipAlignments c id) l
  return l.state

end OpenCut
