import OpenCut.Application.Normalize
import OpenCut.Lib.Machine
import OpenCut.Repository.Load
import OpenCut.Repository.Undo

/-!
# The repository as a system

The requests that read and write a stored project, each served in one database
transaction: a request that is refused leaves the project as it was. Any number of
writers may send requests in any order (`Project.Reaches`). What other parts of the
product do to the tables read here is arbitrary: the media work publishes streams and
transcripts (`Request.publishMedia`), agent runs come and go (`Request.setRuns`).

* `proposeEdit` and `applyEdit` are the two halves of an agent's edit, at different times;
* `commitCreatorEdit` is both at once; `undoEdit` and `undoCreatorEdit` take back;
* `createProjectVersion`, `snapshotAgentTurn` and `restoreProjectVersion` are versions;
* `registerAsset` and `completeMediaIdentification` are how assets enter.
-/

namespace OpenCut

open Outcome

/-! ## Records -/

/-- An agent's request to normalize and store an edit. -/
structure ProposeEditRecord where
  runID : ID
  turnID : ID
  actor : ActorRef
  inputDigest : Digest
  proposalID : ID
  allocation : List LocalAllocation
  input : EditProposeInput

/-- An agent's request to apply a stored proposal, which it names by identity and digest. -/
structure ApplyEditRecord where
  runID : ID
  turnID : ID
  actor : ActorRef
  requestID : RequestID
  inputDigest : Digest
  proposalID : ID
  proposalDigest : EditProposal
  transactionID : ID

/-- A creator's request to normalize and apply an edit at once. -/
structure CommitCreatorEditRecord where
  actor : ActorRef
  inputDigest : Digest
  proposalID : ID
  transactionID : ID
  allocation : List LocalAllocation
  input : EditProposeInput

/-- A creator's request to capture the project. -/
structure CreateProjectVersionRecord where
  creator : ActorRef
  requestID : RequestID
  requestDigest : Digest
  id : ID
  createdAt : Nat

/-- A creator's request to go back to a version. -/
structure RestoreProjectVersionRecord where
  creator : ActorRef
  requestID : RequestID
  requestDigest : Digest
  versionID : ID
  safetyVersionID : ID
  proposalID : ID
  transactionID : ID
  expectedProjectRevision : Revision
  occurredAt : Nat

/-- A creator's request to register a media file. -/
structure RegisterAssetRecord where
  actor : ActorRef
  requestID : RequestID
  inputDigest : Digest
  expectedProjectRevision : Revision
  sourceGrantID : ID
  displayName : Text
  assetID : ID
  proposalID : ID
  transactionID : ID

/-- The media work has identified the file of an asset. -/
structure CompleteMediaIdentification where
  assetID : ID
  sourceGrantID : ID
  fingerprint : Digest

variable (record : RegisterAssetRecord)

/-- The asset that a registration puts (`Media.RegisterAsset`). -/
def RegisterAssetRecord.asset : AssetState where
  id := record.assetID
  revision := 1
  sourceGrantID := record.sourceGrantID
  displayName := record.displayName
  importMode := .referenced
  acceptedFingerprint := none
  tombstoned := false

/-- The transaction of `buildAssetRegisterJournal`. -/
def RegisterAssetRecord.transaction : EditTransaction where
  id := record.transactionID
  proposalID := record.proposalID
  actor := record.actor
  intent := "register referenced asset".toList
  operations := [.put (.asset record.asset)]
  inverseOperations := [.put (.asset { record.asset with revision := 2, tombstoned := true })]
  changes := [{ key := ⟨.asset, record.assetID⟩, before := none, after := 1, tombstoned := false }]
  committedProjectRevision := record.expectedProjectRevision + 1
  undoesTransactionID := none

/-- The proposal of `buildAssetRegisterJournal`, applied. -/
def RegisterAssetRecord.proposal : EditProposal where
  id := record.proposalID
  runID := none
  turnID := none
  requestID := record.requestID
  actor := record.actor
  intent := "register referenced asset".toList
  baseProjectRevision := record.expectedProjectRevision
  projectRevision := record.expectedProjectRevision
  preconditions := []
  allocation := [⟨"asset".toList, .asset, record.assetID⟩]
  operations := record.transaction.operations
  inversePreview := record.transaction.inverseOperations
  changes := record.transaction.changes
  status := .applied
  appliedTransactionID := some record.transactionID

/-- The part of a proposal that its digest is taken over; the digest is represented by it. -/
def EditProposal.digest (proposal : EditProposal) : EditProposal :=
  { proposal with
    id := 0, requestID := [], projectRevision := 0, status := .open, appliedTransactionID := none }

/-- The actor is an agent. -/
def ActorRef.isAgent : ActorRef → Bool
  | .agent _ => true
  | .creator _ => false

namespace Project

variable (p : Project)

/-! ## Edits -/

/-- `validateEditWriter`: the turn of the agent's run is going on. -/
def validateEditWriter (runID turnID : ID) (actor : ActorRef) : Except EditError Unit := do
  ensure actor.isAgent errEditInvalid
  let run ← need (p.runs.find? runID) .runNotFound
  ensure (run.actor = actor) errEditConflict
  ensure (run.active ∧ run.currentTurn = turnID ∧ run.turnActive) .staleTurn

/-- `loadEditCommitReplay`: whether the request has been served before. -/
def loadEditCommitReplay (key : RequestKey) (command : EditCommand) (inputDigest : Digest) :
    Except EditError Bool :=
  match p.requests.find? key with
  | none => .ok false
  | some row => do
    ensure (row.command = command ∧ row.inputDigest = inputDigest ∧ row.transactionID.isSome)
      .requestReused
    return true

/-- `insertEditRequest`. -/
def insertEditRequest (key : RequestKey) (row : EditRequestRow) : Project :=
  { p with requests := p.requests.set key row }

/-- The rows of a committed edit: its proposal, its transaction and its request. -/
def commitRequest (proposal : EditProposal) (transactionID : ID) (undoes : Option ID)
    (key : RequestKey) (command : EditCommand) (inputDigest : Digest) :
    Except EditError Project := do
  let p ← p.commitProposal proposal transactionID undoes
  return p.insertEditRequest key {
    command, inputDigest, proposalID := proposal.id, transactionID := some transactionID }

section

variable [Uniseg]

/-- Loads what a request reads and normalizes it. -/
def normalizeRequest (proposalID : ID) (runID turnID : Option ID) (actor : ActorRef)
    (allocation : List LocalAllocation) (input : EditProposeInput) :
    Except EditError EditProposal := do
  let state ← loadEditNormalizationState p.revision p.content p.media input
  normalizeEditProposal { proposalID, runID, turnID, actor, allocation, input, state }

/-- `ProposeEdit`. -/
def proposeEdit (record : ProposeEditRecord) : Except EditError Project :=
  let key : RequestKey := (record.actor, record.input.requestID)
  match p.requests.find? key with
  | some row => do
    ensure (row.command = .editPropose ∧ row.inputDigest = record.inputDigest) .requestReused
    return p
  | none => do
    p.validateEditWriter record.runID record.turnID record.actor
    let proposal ← p.normalizeRequest record.proposalID (some record.runID) (some record.turnID)
      record.actor record.allocation record.input
    let p ← p.insertEditProposalRow proposal
    return p.insertEditRequest key {
      command := .editPropose, inputDigest := record.inputDigest, proposalID := proposal.id
      transactionID := none }

/-- `CommitCreatorEdit`. -/
def commitCreatorEdit (record : CommitCreatorEditRecord) : Except EditError Project := do
  let key : RequestKey := (record.actor, record.input.requestID)
  let replayed ← p.loadEditCommitReplay key .creatorEditCommit record.inputDigest
  if replayed then return p
  else
    ensure (!record.actor.isAgent) errEditInvalid
    let proposal ← p.normalizeRequest record.proposalID none none record.actor record.allocation
      record.input
    let p ← p.insertEditProposalRow proposal
    p.commitRequest proposal record.transactionID none key .creatorEditCommit record.inputDigest

end

/-- `loadEditProposal`. -/
def loadEditProposal (id : ID) : Except EditError EditProposal := do
  let proposal ← need (p.proposals.find? id) .proposalNotFound
  return { proposal with id }

/-- `ApplyEdit`. An applied proposal is applied again by recording the request only
    (`convergeAppliedProposal`). -/
def applyEdit (record : ApplyEditRecord) : Except EditError Project := do
  let key : RequestKey := (record.actor, record.requestID)
  let replayed ← p.loadEditCommitReplay key .editApply record.inputDigest
  if replayed then return p
  else
    p.validateEditWriter record.runID record.turnID record.actor
    let proposal ← p.loadEditProposal record.proposalID
    ensure (proposal.actor = record.actor ∧ proposal.runID = some record.runID ∧
      proposal.turnID = some record.turnID ∧ proposal.digest = record.proposalDigest)
      errEditConflict
    match proposal.status, proposal.appliedTransactionID with
    | .applied, some transactionID =>
      return p.insertEditRequest key {
        command := .editApply, inputDigest := record.inputDigest, proposalID := proposal.id
        transactionID := some transactionID }
    | .stale, _ => throw .proposalStale
    | .open, _ =>
      p.commitRequest proposal record.transactionID none key .editApply record.inputDigest
    | _, _ => throw .proposalTerminal

/-- The end of `UndoEdit` and `UndoCreatorEdit`, after the checks of the writer. -/
def commitUndo (record : UndoEditRecord) (command : EditCommand) : Except EditError Project := do
  let target ← need (p.transactions.find? record.targetTransactionID) .transactionNotFound
  p.content.validateUndoTargetCurrent target
  let proposal ← p.buildUndoProposal record target
  let p ← p.insertEditProposalRow proposal
  p.commitRequest proposal record.transactionID (some record.targetTransactionID)
    (record.actor, record.requestID) command record.inputDigest

/-- `UndoEdit`. -/
def undoEdit (record : UndoEditRecord) : Except EditError Project := do
  let replayed ← p.loadEditCommitReplay (record.actor, record.requestID) .editUndo
    record.inputDigest
  if replayed then return p
  else
    let runID ← need record.runID errEditInvalid
    let turnID ← need record.turnID errEditInvalid
    p.validateEditWriter runID turnID record.actor
    p.commitUndo record .editUndo

/-- `UndoCreatorEdit`. -/
def undoCreatorEdit (record : UndoEditRecord) : Except EditError Project := do
  let replayed ← p.loadEditCommitReplay (record.actor, record.requestID) .creatorEditUndo
    record.inputDigest
  if replayed then return p
  else
    ensure (!record.actor.isAgent ∧ record.runID = none ∧ record.turnID = none) errEditInvalid
    p.commitUndo record .creatorEditUndo

/-! ## Versions -/

/-- Whether a version request has been served before; it has to be the same. -/
def loadVersionReplay (key : RequestKey) (requestDigest : Digest) (versionID : Option ID) :
    Except EditError Bool :=
  match p.versionRequests.find? key with
  | none => .ok false
  | some row => do
    ensure (row.inputDigest = requestDigest ∧ ∀ id ∈ versionID, row.versionID = id)
      .projectVersionRequestReused
    return true

/-- `CreateProjectVersion`. -/
def createProjectVersion (record : CreateProjectVersionRecord) : Except EditError Project := do
  let key : RequestKey := (record.creator, record.requestID)
  let replayed ← p.loadVersionReplay key record.requestDigest none
  if replayed then return p
  else
    ensure (!record.creator.isAgent) .projectVersionInvalid
    let (p, id, _) ← p.insertProjectVersionSnapshot record.id .manual .retain record.createdAt
    return { p with versionRequests := p.versionRequests.set key {
      inputDigest := record.requestDigest, versionID := id, safetyVersionID := none } }

/-- The snapshot that `BeginAgentBridge` and `ContinueAgentBridge` take before a turn. -/
def snapshotAgentTurn (versionID : ID) (createdAt : Nat) : Except EditError Project := do
  let (p, _, _) ← p.insertProjectVersionSnapshot versionID .agentTurn .automatic createdAt
  return p

variable (record : RestoreProjectVersionRecord)

/-- `buildProjectVersionRestoreProposal`. -/
def buildProjectVersionRestoreProposal
    (target safety : ProjectVersionRestoreRef) : EditProposal where
  id := record.proposalID
  runID := none
  turnID := none
  requestID := record.requestID
  actor := record.creator
  intent := "Restore project version ".toList ++ record.versionID.text.toList
  baseProjectRevision := p.revision
  projectRevision := p.revision
  preconditions := []
  allocation := []
  operations := [.restoreProjectVersion target]
  inversePreview := [.restoreProjectVersion safety]
  changes := []
  status := .open
  appliedTransactionID := none

/-- `RestoreProjectVersion`, after the check for a replay. -/
def restoreVersion : Except EditError Project := do
  let target ← p.loadStoredProjectVersionState record.versionID
  let current ← loadProjectVersionState p.revision p.content
  ensure (p.revision = record.expectedProjectRevision ∧
    target.capturedProjectRevision ≠ p.revision) errEditConflict
  validateVersionStateRoots current target.state
  ensureVersionTargetSubset current target.state
  let (p, safetyID, safety) ← p.insertProjectVersionSnapshot record.safetyVersionID .preRestore
    .pinned record.occurredAt
  let proposal := p.buildProjectVersionRestoreProposal record ⟨record.versionID, target.state⟩
    ⟨safetyID, safety.state⟩
  let p ← p.insertEditProposalRow proposal
  let p ← p.commitProposal proposal record.transactionID none
  return { p with versionRequests := p.versionRequests.set (record.creator, record.requestID) {
    inputDigest := record.requestDigest, versionID := record.versionID
    safetyVersionID := some safetyID } }

/-- `RestoreProjectVersion`. -/
def restoreProjectVersion : Except EditError Project := do
  ensure (!record.creator.isAgent) .projectVersionInvalid
  let replayed ← p.loadVersionReplay (record.creator, record.requestID) record.requestDigest
    (some record.versionID)
  if replayed then return p else p.restoreVersion record

/-! ## Assets -/

/-- `RegisterAsset`. The file is known under a display name that is not empty, and has not
    been imported before. -/
def registerAsset (record : RegisterAssetRecord) : Except EditError Project :=
  let key : RequestKey := (record.actor, record.requestID)
  match p.registrations.find? key with
  | some digest => do
    ensure (digest = record.inputDigest) .requestReused
    return p
  | none => do
    ensure (!record.actor.isAgent ∧ record.displayName ≠ []) .assetInvalid
    ensure (p.revision = record.expectedProjectRevision) errEditConflict
    ensure (∀ asset ∈ p.content.entities.assets, asset.sourceGrantID ≠ record.sourceGrantID)
      .assetConflict
    ensure ((p.proposals.find? record.proposalID).isNone ∧
      (p.transactions.find? record.transactionID).isNone ∧
      (p.content.entities.find? ⟨.asset, record.assetID⟩).isNone) .storage
    return { p with
      revision := record.expectedProjectRevision + 1
      content := { p.content with entities := p.content.entities.put (.asset record.asset) }
      proposals := p.proposals.set record.proposalID record.proposal
      transactions := p.transactions.set record.transactionID record.transaction
      registrations := p.registrations.set key record.inputDigest }

/-- `CompleteMediaIdentification`: the fingerprint of an asset is accepted once. Neither
    the asset nor the project advances. -/
def completeMediaIdentification (input : CompleteMediaIdentification) :
    Except EditError Project := do
  let asset ← need (p.content.entities.asset? input.assetID) .mediaLeaseLost
  ensure (asset.sourceGrantID = input.sourceGrantID ∧
    ∀ fingerprint ∈ asset.acceptedFingerprint, fingerprint = input.fingerprint) .mediaLeaseLost
  let identified := { asset with acceptedFingerprint := some input.fingerprint }
  return { p with
    content := { p.content with entities := p.content.entities.put (.asset identified) } }

end Project

/-! ## Runs -/

/-- A request to the repository. -/
inductive Request
  | proposeEdit (record : ProposeEditRecord)
  | applyEdit (record : ApplyEditRecord)
  | commitCreatorEdit (record : CommitCreatorEditRecord)
  | undoEdit (record : UndoEditRecord)
  | undoCreatorEdit (record : UndoEditRecord)
  | createProjectVersion (record : CreateProjectVersionRecord)
  | snapshotAgentTurn (versionID : ID) (createdAt : Nat)
  | restoreProjectVersion (record : RestoreProjectVersionRecord)
  | registerAsset (record : RegisterAssetRecord)
  | completeMediaIdentification (input : CompleteMediaIdentification)
  /-- The media work has published streams and transcripts. -/
  | publishMedia (media : Media)
  /-- Agent runs begin, take turns and end. -/
  | setRuns (runs : Table ID AgentRun)

namespace Project

variable [Uniseg]

/-- Serves a request. -/
def serve (p : Project) : Request → Except EditError Project
  | .proposeEdit record => p.proposeEdit record
  | .applyEdit record => p.applyEdit record
  | .commitCreatorEdit record => p.commitCreatorEdit record
  | .undoEdit record => p.undoEdit record
  | .undoCreatorEdit record => p.undoCreatorEdit record
  | .createProjectVersion record => p.createProjectVersion record
  | .snapshotAgentTurn versionID createdAt => p.snapshotAgentTurn versionID createdAt
  | .restoreProjectVersion record => p.restoreProjectVersion record
  | .registerAsset record => p.registerAsset record
  | .completeMediaIdentification input => p.completeMediaIdentification input
  | .publishMedia media => .ok { p with media }
  | .setRuns runs => .ok { p with runs }

/-- A state that some sequence of requests leads to, each of which is `allowed` in the
    state it meets. -/
def Reaches (allowed : Project → Request → Prop) : Project → Project → Prop :=
  Machine.Reaches serve allowed

end Project

/-! ## Genesis -/

/-- The identities of a new project. -/
structure GenesisIDs where
  projectVersion : ID
  narrativeDocument : ID
  rootSection : ID
  mainSequence : ID
  videoTrack : ID
  audioTrack : ID
  captionTrack : ID

variable (ids : GenesisIDs)

/-- The content of a new project: a root section and one track of each type. -/
def genesisContent : Content where
  documentID := ids.narrativeDocument
  documentRevision := 1
  sequenceID := ids.mainSequence
  sequenceRevision := 1
  nodes := (∅ : NarrativeTable).set ids.rootSection {
    parentID := none, revision := 1, value := .section [] "und".toList, orderIndex := 0
    tombstoned := false }
  entities := ∅
  tracks := (((∅ : Table ID TrackRow).set ids.videoTrack ⟨1, .video, "V1".toList, "a0".toList⟩).set
    ids.audioTrack ⟨1, .audio, "A1".toList, "a1".toList⟩).set
    ids.captionTrack ⟨1, .caption, "C1".toList, "a2".toList⟩

variable (createdAt : Nat)

/-- The version of a new project. -/
def genesisVersion : ProjectVersion where
  capturedProjectRevision := 1
  source := .genesis
  retention := .pinned
  createdAt
  state := {
    projectRevision := 1, documentID := ids.narrativeDocument, documentRevision := 1
    sequenceID := ids.mainSequence, sequenceRevision := 1
    tracks := loadProjectVersionTracks (genesisContent ids)
    narrativeNodes := [{
      id := ids.rootSection, revision := 1, parentID := none, afterNodeID := none
      value := .section [] "und".toList, tombstoned := false }]
    entities := [] }

/-- A new project, of which nothing but a version exists. -/
def genesis : Project where
  revision := 1
  content := genesisContent ids
  media := ⟨∅, ∅⟩
  runs := ∅
  proposals := ∅
  transactions := ∅
  requests := ∅
  versions := (∅ : Table ID ProjectVersion).set ids.projectVersion (genesisVersion ids createdAt)
  versionRequests := ∅
  registrations := ∅

/-- The version of a new project is what a capture gives. -/
theorem loadProjectVersionState_genesis :
    loadProjectVersionState 1 (genesisContent ids) = .ok (genesisVersion ids createdAt).state := by
  have hrows : Table.rows (genesisContent ids).nodes =
      [(ids.rootSection, ⟨none, 1, .section [] "und".toList, 0, false⟩)] := rfl
  have hroot : Table.find? (genesisContent ids).nodes ids.rootSection =
      some ⟨none, 1, .section [] "und".toList, 0, false⟩ := Table.find?_set_self _ _ _
  rw [loadProjectVersionState, loadProjectVersionNarrative, ensure_of]
  · simp only [hrows, List.insertionSort_cons, List.insertionSort_nil, List.orderedInsert_nil,
      Content.loadNode?, hroot, Option.map_some, List.filterMap_cons, List.filterMap_nil]
    rfl
  · simp [hrows]

/-! ## A sample project -/

/-- The project on which runs are evaluated. -/
def sampleProject : Project := genesis {
  projectVersion := 7, narrativeDocument := 2, rootSection := 1, mainSequence := 3
  videoTrack := 4, audioTrack := 5, captionTrack := 6 } 0

/-- The sample project after the requests, if all of them are allowed and served. -/
def samplePlay (allowed : Project → Request → Prop) [∀ p request, Decidable (allowed p request)]
    (requests : List Request) : Option Project :=
  Machine.play (@Project.serve runeClusters) allowed sampleProject requests

/-- The sample project after the requests, if all of them are served. -/
def sampleAfter (requests : List Request) : Option Project := samplePlay (fun _ _ => True) requests

/-- The run of an agent on the sample project, in its turn. -/
def sampleRuns : Table ID AgentRun :=
  (∅ : Table ID AgentRun).set 50 {
    actor := .agent 52, active := true, currentTurn := 51, turnActive := true }

/-- The creator registers an asset, and its fingerprint is found. -/
def sampleAsset : List Request := [.registerAsset {
    actor := .creator 9, requestID := ['r'], inputDigest := 0, expectedProjectRevision := 1
    sourceGrantID := 41, displayName := ['a'], assetID := 40, proposalID := 90
    transactionID := 91 },
  .completeMediaIdentification { assetID := 40, sourceGrantID := 41, fingerprint := 42 }]

/-- The asset has one stream. -/
def sampleStream (startTime duration : Option RationalTime) : Request :=
  .publishMedia {
    sourceStreams := (∅ : Table ID SourceStreamRow).set 43 {
      assetID := 40, fingerprint := 42, descriptor := { mediaType := .video, startTime, duration } }
    transcriptArtifacts := ∅ }

variable (n : Nat)

/-- The `n`-th edit of the creator. -/
def sampleCommit (baseProjectRevision : Revision)
    (preconditions : List EntityPrecondition) (allocation : List LocalAllocation)
    (operations : List EditOperationInput) : Request :=
  .commitCreatorEdit {
    actor := .creator 9, inputDigest := 0, proposalID := 100 + n, transactionID := 200 + n
    allocation
    input := {
      requestID := List.replicate n 'c', intent := ['x'], baseProjectRevision, preconditions
      operations } }

/-- The creator names the root section. -/
def sampleNaming (revision : Revision) : Request :=
  sampleCommit 1 revision [⟨⟨.narrativeNode, 1⟩, revision⟩] []
    [.updateNarrativeNode 1 (.section ['u'] "en".toList)]

/-- Two clips, one after the other, on the video track. -/
def sampleClips : List Request := sampleAsset ++ [
  sampleStream none none,
  sampleCommit 1 2 [⟨⟨.asset, 40⟩, 1⟩, ⟨⟨.track, 4⟩, 1⟩] [⟨['a'], .clip, 20⟩, ⟨['b'], .clip, 21⟩] [
    .addClip ['a'] 4 40 43 ⟨0, 1⟩ ⟨0, 1⟩ true none,
    .addClip ['b'] 4 40 43 ⟨0, 1⟩ ⟨1, 1⟩ true none]]

/-- A note with an exact alignment on both clips. -/
def sampleAligned : List Request := sampleClips ++ [
  sampleCommit 2 3 [⟨⟨.narrativeNode, 1⟩, 1⟩, ⟨⟨.clip, 20⟩, 1⟩, ⟨⟨.clip, 21⟩, 1⟩]
    [⟨['n'], .narrativeNode, 10⟩, ⟨['x'], .alignment, 60⟩] [
    .insertNarrativeNode ['n'] 1 none (.note ['e', 'n'] ['t']),
    .bindAlignment ['x'] (.byLocal ['n']) [.clip (.byID 20) ⟨0, 1⟩, .clip (.byID 21) ⟨0, 1⟩]]]

/-- The `n`-th proposal of the agent. -/
def samplePropose (baseProjectRevision : Revision)
    (preconditions : List EntityPrecondition) (allocation : List LocalAllocation)
    (operations : List EditOperationInput) : Request :=
  .proposeEdit {
    runID := 50, turnID := 51, actor := .agent 52, inputDigest := 0, proposalID := 300 + n
    allocation
    input := {
      requestID := 'p' :: List.replicate n 'p', intent := ['x'], baseProjectRevision, preconditions
      operations } }

/-- The agent's request to apply its `n`-th proposal, as it is stored. -/
def sampleApply (proposal : EditProposal) : ApplyEditRecord where
  runID := 50
  turnID := 51
  actor := .agent 52
  requestID := 'a' :: List.replicate n 'a'
  inputDigest := 0
  proposalID := 300 + n
  proposalDigest := proposal.digest
  transactionID := 400 + n

end OpenCut
