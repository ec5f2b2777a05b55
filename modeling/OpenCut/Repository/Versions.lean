import OpenCut.Repository.Project
import OpenCut.Repository.Projection

/-!
# Project versions

`repository/project_version_state.go`, `project_version_apply.go`,
`project_version_restore.go` and `project_versions.go`. A version captures the whole
content of a project, tombstoned entities included. A restore puts every entity of the
version back and retires the ones that the version does not know; each put advances a
revision, so that a restore is an edit like any other.
-/

namespace OpenCut

open Outcome

/-! ## Capturing -/

/-- The kinds of entities of a version, in the order in which it lists them. -/
def versionKinds : List EditEntityKind :=
  [.transcriptCorrection, .asset, .linkGroup, .clip, .caption, .alignment]

/-- `loadProjectVersionTracks`: by order key and identity. -/
def loadProjectVersionTracks (c : Content) : List ProjectVersionTrack :=
  let tracks : List ProjectVersionTrack := c.tracks.rows.map fun (id, row) =>
    { id, revision := row.revision, type := row.type, label := row.label, orderKey := row.orderKey }
  tracks.insertionSort fun a b => a.orderKey < b.orderKey ∨ (a.orderKey = b.orderKey ∧ a.id ≤ b.id)

/-- The order `parent_id, order_index, id` of the stored nodes; the root comes first. -/
def narrativeOrder (a b : ID × NarrativeNodeRow) : Prop :=
  match a.2.parentID, b.2.parentID with
  | none, none => a.2.orderIndex < b.2.orderIndex ∨ (a.2.orderIndex = b.2.orderIndex ∧ a.1 ≤ b.1)
  | none, some _ => True
  | some _, none => False
  | some p, some q => p < q ∨ (p = q ∧ (a.2.orderIndex < b.2.orderIndex ∨
    (a.2.orderIndex = b.2.orderIndex ∧ a.1 ≤ b.1)))

instance : DecidableRel narrativeOrder := fun a b => by
  unfold narrativeOrder
  split <;> infer_instance

/-- `loadProjectVersionNarrative`. The sections above a section have to be stored. -/
def loadProjectVersionNarrative (c : Content) : Except EditError (List NarrativeNodeState) := do
  ensure (∀ row ∈ c.nodes.rows.map Prod.snd, row.value.kind = .section →
    ∀ parent ∈ row.parentID, ∃ above ∈ c.nodes.find? parent, above.value.kind = .section)
    .projectVersionInvalid
  return (c.nodes.rows.insertionSort narrativeOrder).filterMap fun (id, _) => c.loadNode? id

/-- The entities of one kind, by identity. -/
def loadProjectVersionEntities (c : Content) (kind : EditEntityKind) : List EntityState :=
  (c.entities.states.filter fun s => s.key.kind = kind).insertionSort fun a b => a.key.id ≤ b.key.id

/-- `loadProjectVersionState`. -/
def loadProjectVersionState (projectRevision : Revision) (c : Content) :
    Except EditError ProjectVersionState := do
  let narrativeNodes ← loadProjectVersionNarrative c
  return {
    projectRevision, documentID := c.documentID, documentRevision := c.documentRevision
    sequenceID := c.sequenceID, sequenceRevision := c.sequenceRevision
    tracks := loadProjectVersionTracks c, narrativeNodes
    entities := versionKinds.flatMap (loadProjectVersionEntities c) }

namespace ProjectVersionState

variable (v : ProjectVersionState)

/-- The node as the version has it. -/
def node? (id : ID) : Option NarrativeNodeState := v.narrativeNodes.find? fun s => s.id = id

/-- The entity as the version has it; it is not a node. -/
def entity? (key : EntityKey) : Option EntityState := v.entities.find? fun s => s.key = key

/-- The keys of the nodes and of the other entities of the version. -/
def keys : List EntityKey :=
  v.narrativeNodes.map (fun s => ⟨.narrativeNode, s.id⟩) ++ v.entities.map (·.key)

end ProjectVersionState

/-! ## Restoring -/

variable (current target : ProjectVersionState)

/-- `validateVersionStateRoots`: the same document, sequence and tracks, whatever the
    revisions of the tracks. -/
def validateVersionStateRoots : Except EditError Unit :=
  ensure (current.documentID = target.documentID ∧ current.sequenceID = target.sequenceID ∧
    current.tracks.map (fun track => { track with revision := 0 }) =
      target.tracks.map (fun track => { track with revision := 0 })) .projectVersionInvalid

/-- `ensureVersionTargetSubset`. -/
def ensureVersionTargetSubset : Except EditError Unit :=
  ensure (∀ key ∈ target.keys, key ∈ current.keys) .projectVersionInvalid

/-- `projectVersionRestoreChanges`: every entity of the project advances. -/
def projectVersionRestoreChanges : Except EditError (List EntityRevisionChange) := do
  let nodes : List EntityRevisionChange := current.narrativeNodes.map fun s =>
    { key := ⟨.narrativeNode, s.id⟩, before := some s.revision, after := s.revision + 1
      tombstoned := (target.node? s.id).all (·.tombstoned) }
  let entities : List EntityRevisionChange := current.entities.map fun s =>
    { key := s.key, before := some s.revision, after := s.revision + 1
      tombstoned := (target.entity? s.key).all (·.tombstoned) }
  ensureVersionTargetSubset current target
  return (nodes ++ entities).insertionSort fun a b => a.key.le b.key

variable (changes : List EntityRevisionChange) (sequenceRevision : Revision)

/-- `versionChange`. -/
def versionChange (key : EntityKey) : Except EditError EntityRevisionChange := do
  let change ← need (changeIndex changes key) .projectVersionInvalid
  ensure change.before.isSome .projectVersionInvalid
  return change

/-- What a restore makes of an entity that the version does not know: it is retired,
    and a clip leaves its link group. -/
def EntityState.outside : EntityState → EntityState
  | .clip s => .clip { s with tombstoned := true, linkGroupID := none }
  | s => s.retired

/-- A target of an exact alignment, at the revision that the restore gives it. -/
def restampTarget : AlignmentTarget → Except EditError AlignmentTarget
  | .caption id _ range => do
    let change ← versionChange changes ⟨.caption, id⟩
    return .caption id change.after range
  | .clip id _ range => do
    let change ← versionChange changes ⟨.clip, id⟩
    return .clip id change.after range
  | .timeline _ range => return .timeline (sequenceRevision + 1) range

/-- An alignment, if it is exact, at the revisions that the restore gives its node and
    its targets. A node that the project does not have keeps its revision. -/
def restampAlignment (s : AlignmentState) : Except EditError AlignmentState :=
  if s.status = .exact then do
    let targets ← s.targets.mapM (restampTarget changes sequenceRevision)
    let node := changeIndex changes ⟨.narrativeNode, s.narrativeNodeID⟩
    return { s with
      narrativeNodeRevision := (node.map (·.after)).getD s.narrativeNodeRevision, targets }
  else
    return s

/-- The state that a restore puts in the place of an entity. -/
def restoredEntity (target : ProjectVersionState) (before : EntityState) :
    Except EditError EntityState := do
  let change ← versionChange changes before.key
  match (target.entity? before.key).getD before.outside with
  | .alignment s => do
    let s ← restampAlignment changes sequenceRevision { s with revision := change.after }
    return .alignment s
  | s => return s.withRevision change.after

namespace Content

variable (c : Content) (current target : ProjectVersionState) (changes : List EntityRevisionChange)

/-- The loop that the `applyVersion…` functions share, over the entities of a kind. -/
def applyVersionEntities (kind : EditEntityKind) : Except EditError Content :=
  (current.entities.filter fun s => s.key.kind = kind).foldlM (fun c before => do
    let value ← restoredEntity changes current.sequenceRevision target before
    c.applyPut changes value) c

/-- `applyVersionAssets`. -/
def applyVersionAssets : Except EditError Content :=
  c.applyVersionEntities current target changes .asset

/-- `applyVersionCorrections`. -/
def applyVersionCorrections : Except EditError Content :=
  c.applyVersionEntities current target changes .transcriptCorrection

/-- `applyVersionLinkGroups`. -/
def applyVersionLinkGroups : Except EditError Content :=
  c.applyVersionEntities current target changes .linkGroup

/-- `applyVersionClips`. -/
def applyVersionClips : Except EditError Content :=
  c.applyVersionEntities current target changes .clip

/-- `applyVersionCaptions`. -/
def applyVersionCaptions : Except EditError Content :=
  c.applyVersionEntities current target changes .caption

/-- `applyVersionAlignments`. -/
def applyVersionAlignments : Except EditError Content :=
  c.applyVersionEntities current target changes .alignment

/-- Puts a node at the revision that the restore gives it. -/
def applyVersionNode (state : NarrativeNodeState) : Except EditError Content := do
  let change ← versionChange changes ⟨.narrativeNode, state.id⟩
  c.applyPut changes (.narrativeNode { state with revision := change.after })

/-- `applyVersionNarrative`: the nodes that the version does not know are tombstoned,
    then its own are put one by one in the order in which they were captured. -/
def applyVersionNarrative : Except EditError Content := do
  let absent := current.narrativeNodes.filter fun s => (target.node? s.id).isNone
  let c ← absent.foldlM
    (fun c state => c.applyVersionNode changes { state with tombstoned := true }) c
  target.narrativeNodes.foldlM (fun c state => c.applyVersionNode changes state) c

/-- `applyProjectVersionRestore`, with the state of the version that was found. -/
def restoreVersionState (projectRevision : Revision) : Except EditError Content := do
  let current ← loadProjectVersionState projectRevision c
  validateVersionStateRoots current target
  let changes ← projectVersionRestoreChanges current target
  let c ← c.applyVersionAssets current target changes
  let c ← c.applyVersionCorrections current target changes
  let c ← c.applyVersionNarrative current target changes
  let c ← c.applyVersionLinkGroups current target changes
  let c ← c.applyVersionClips current target changes
  let c ← c.applyVersionCaptions current target changes
  c.applyVersionAlignments current target changes

end Content

namespace Project

variable (p : Project) (id : ID)

/-- `loadStoredProjectVersionState`. -/
def loadStoredProjectVersionState : Except EditError ProjectVersion := do
  let version ← need (p.versions.find? id) .projectVersionNotFound
  ensure (version.state.projectRevision = version.capturedProjectRevision) .projectVersionInvalid
  return version

/-- `applyProjectVersionRestore`. -/
def applyProjectVersionRestore (c : Content) (reference : ProjectVersionRestoreRef) :
    Except EditError Content := do
  let version ← p.loadStoredProjectVersionState reference.id
  ensure (version.state = reference.digest) .projectVersionInvalid
  c.restoreVersionState version.state p.revision

/-! ## Snapshots -/

/-- A version is named by a request. -/
def versionRequested : Bool :=
  p.versionRequests.rows.any fun (_, row) => row.versionID == id || row.safetyVersionID == some id

/-- The versions that `pruneAutomaticAgentTurnVersions` may delete, the latest first. -/
def pruneCandidates : List (ID × ProjectVersion) :=
  (p.versions.rows.filter fun (id, version) =>
    version.source == .agentTurn && version.retention == .automatic && !p.versionRequested id
  ).insertionSort fun a b =>
    b.2.createdAt < a.2.createdAt ∨ (b.2.createdAt = a.2.createdAt ∧ b.1 ≤ a.1)

/-- `pruneAutomaticAgentTurnVersions`: the latest 32 stay. -/
def pruneAutomaticAgentTurnVersions : Project :=
  { p with versions :=
      (p.pruneCandidates.drop 32).foldl (fun versions (id, _) => versions.erase id) p.versions }

variable (source : ProjectVersionSource)

/-- The automatic snapshot of the current revision, if there is one. -/
def existingSnapshot? : Option (ID × ProjectVersion) :=
  if source = .manual then none
  else p.versions.rows.find? fun (_, version) =>
    version.capturedProjectRevision == p.revision && version.source == source

/-- `insertProjectVersionSnapshot`: an automatic snapshot of the same revision is taken
    instead of a new one. -/
def insertProjectVersionSnapshot (retention : ProjectVersionRetention) (createdAt : Nat) :
    Except EditError (Project × ID × ProjectVersion) :=
  match p.existingSnapshot? source with
  | some (id, version) => .ok (p, id, version)
  | none => do
    let state ← loadProjectVersionState p.revision p.content
    ensure (p.versions.find? id).isNone .storage
    let version : ProjectVersion :=
      { capturedProjectRevision := p.revision, source, retention, createdAt, state }
    let p := { p with versions := p.versions.set id version }
    if source = .agentTurn then
      return (p.pruneAutomaticAgentTurnVersions, id, version)
    else
      return (p, id, version)

end Project

end OpenCut
