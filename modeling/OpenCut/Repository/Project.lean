import OpenCut.Repository.Store

/-!
# The stored project

Everything the repository stores about one project: its content, what the media work
has published, the agent runs that may write to it, the journal of proposals and
transactions, the versions, and the requests it has already served. A project is never
anything but active in this code base, so its status is left out.
-/

namespace OpenCut

/-- A row of `agent_runs` with its current turn, as far as `validateEditWriter` reads it. -/
structure AgentRun where
  actor : ActorRef
  active : Bool
  currentTurn : ID
  turnActive : Bool

/-- The commands that are recorded under a request identity. -/
inductive EditCommand
  | editPropose
  | editApply
  | editUndo
  | creatorEditCommit
  | creatorEditUndo
deriving DecidableEq

/-- A row of `edit_request_identities`. -/
structure EditRequestRow where
  command : EditCommand
  inputDigest : Digest
  proposalID : ID
  transactionID : Option ID

/-- Why a version was captured. -/
inductive ProjectVersionSource
  | genesis
  | manual
  | agentTurn
  | preRestore
deriving DecidableEq

/-- How long a version is kept. -/
inductive ProjectVersionRetention
  | pinned
  | retain
  | automatic
deriving DecidableEq

/-- A row of `project_versions`. -/
structure ProjectVersion where
  capturedProjectRevision : Revision
  source : ProjectVersionSource
  retention : ProjectVersionRetention
  createdAt : Nat
  state : ProjectVersionState

/-- A row of `project_version_requests`. -/
structure VersionRequestRow where
  inputDigest : Digest
  versionID : ID
  safetyVersionID : Option ID

/-- Who asked for something, and under which name. -/
abbrev RequestKey := ActorRef × RequestID

/-- The stored project. -/
structure Project where
  revision : Revision
  content : Content
  media : Media
  runs : Table ID AgentRun
  proposals : Table ID EditProposal
  transactions : Table ID EditTransaction
  requests : Table RequestKey EditRequestRow
  versions : Table ID ProjectVersion
  versionRequests : Table RequestKey VersionRequestRow
  /-- The requests to register an asset, with the digests of their inputs. -/
  registrations : Table RequestKey Digest

end OpenCut
