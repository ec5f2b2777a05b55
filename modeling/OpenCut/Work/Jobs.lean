import OpenCut.Domain.Clock
import OpenCut.Domain.Edit
import OpenCut.Lib.Outcome
import OpenCut.Lib.Table

/-!
# Work jobs

The tables of durable work (`apps/api/repository/migrations/0014_generic_work_jobs.sql` and the
details of the kinds of jobs) and the recovery of expired attempts
(`apps/api/repository/work_job_recovery.go`).

A job has one row of details, which is of its kind: the two are one value here (`JobDetail`).
So are a job and its prerequisites. An asset has its media state, and of its streams what the
choice of a transcript stream makes of them. Instants are exact.
-/

namespace OpenCut

/-! ## Jobs -/

/-- `domain.MediaJobKind`. -/
inductive MediaJobKind
  | identify
  | probe
  | frameSet
  | proxy
  | renderInput
  | waveform
  | transcript
deriving DecidableEq

/-- `domain.WorkJobKind`. -/
inductive WorkJobKind
  | media (kind : MediaJobKind)
  | sequencePreview
  | sequenceFrames
  | sequenceExport
  | resourceAcquire
deriving DecidableEq

/-- The states of a job. -/
inductive WorkJobState
  | blocked
  | queued
  | running
  | succeeded
  | failed
  | cancelled
deriving DecidableEq

/-- The states of an attempt. -/
inductive AttemptState
  | leased
  | running
  | publishing
  | succeeded
  | failed
  | abandoned
deriving DecidableEq

/-- `leased`, `running` or `publishing`. -/
def AttemptState.live : AttemptState → Bool
  | .leased | .running | .publishing => true
  | .succeeded | .failed | .abandoned => false

/-- The classes by which the queue is ordered. -/
inductive PriorityClass
  | interactive
  | foreground
  | background

/-- The rank of a class in the queue. -/
def PriorityClass.rank : PriorityClass → Nat
  | .interactive => 0
  | .foreground => 1
  | .background => 2

/-- `media_job_details`, with the fingerprint that the parameters of a frame set name. -/
structure MediaJobDetail where
  kind : MediaJobKind
  assetID : ID
  fingerprint : Option Digest
  resultArtifactID : Option ID
  resultCode : Option Text

/-- `sequence_preview_job_details` and `sequence_export_job_details`, with the producer jobs of
    their inputs. -/
structure SequenceRenderDetail where
  rendererVersion : Text
  inputs : List ID
  renderPlanDigest : Option Digest
  resultArtifactID : Option ID

/-- A frame that a frame set asks for. -/
structure SequenceFrameSample where
  requestedTime : RationalTime
  frameIndex : Nat

/-- The preview that a frame set is taken from, once it is there. -/
structure PreviewBinding where
  artifactID : ID
  artifactDigest : Digest
  renderPlanDigest : Digest
deriving DecidableEq

/-- `sequence_frame_set_job_details`, with the parameters that the preview has to match. -/
structure SequenceFrameSetDetail where
  previewJobID : ID
  frameRate : ExactRational
  samples : List SequenceFrameSample
  preview : Option PreviewBinding
  resultArtifactID : Option ID

/-- `ProductResourceRegistration`: an entry of the catalog. -/
structure ProductResourceRegistration where
  name : Text
  profile : Text
  entryDigest : Digest
deriving DecidableEq

/-- `resource_job_details`. -/
structure ResourceJobDetail where
  installationID : ID
  entry : ProductResourceRegistration
  resultResourceID : Option ID

/-- The details of a job. -/
inductive JobDetail
  | media (detail : MediaJobDetail)
  | sequencePreview (detail : SequenceRenderDetail)
  | sequenceFrames (detail : SequenceFrameSetDetail)
  | sequenceExport (detail : SequenceRenderDetail)
  | resourceAcquire (detail : ResourceJobDetail)

/-- The kind of the jobs with these details. -/
def JobDetail.kind : JobDetail → WorkJobKind
  | .media detail => .media detail.kind
  | .sequencePreview _ => .sequencePreview
  | .sequenceFrames _ => .sequenceFrames
  | .sequenceExport _ => .sequenceExport
  | .resourceAcquire _ => .resourceAcquire

/-- A row of `work_job_prerequisites`. -/
inductive Prerequisite
  | fingerprintRequired (producer : ID)
  | factsRequired (producer : ID)
  | modelRequired (resource : Text)
  | artifactReady (producer : ID)
  | executorRequired (kind : WorkJobKind)
deriving DecidableEq

/-- A row of `work_jobs`, with its details and prerequisites. `intact` says that the identities,
    digest, parameters and pins stored with it are well formed and agree with its details, which
    every claim and every publication checks. -/
structure WorkJob where
  detail : JobDetail
  state : WorkJobState
  priorityClass : PriorityClass
  createdAt : Instant
  cancellationRequested : Bool
  producerVersion : Text
  parameters : Text
  intact : Bool
  prerequisites : List Prerequisite
  terminalErrorCode : Option String

variable (job : WorkJob)

/-- The kind of a job. -/
def WorkJob.kind : WorkJobKind := job.detail.kind

/-- `blocked` or `queued`. -/
def WorkJob.waiting : Bool := job.state = .blocked ∨ job.state = .queued

/-- A row of `work_job_attempts`. -/
structure WorkAttempt where
  id : ID
  jobID : ID
  generation : Nat
  state : AttemptState
  leaseOwner : Text
  leaseExpiresAt : Instant
  executorVersion : Text

/-- Whether the attempt is live. -/
def WorkAttempt.live (attempt : WorkAttempt) : Bool := attempt.state.live

/-! ## What jobs refer to -/

/-- A row of `assets` with its media state. `audioStream` is the stream that
    `SelectDefaultTranscriptAudioStream` chooses among those of the accepted fingerprint, and
    `streamsReadable` whether there are any and all of them decode. -/
structure WorkAsset where
  tombstoned : Bool
  sourceGrantID : ID
  acceptedFingerprint : Option Digest
  observedFingerprint : Option Digest
  factsKnown : Bool
  streamsReadable : Bool
  audioStream : Option ID

/-- A row of `source_grants`. -/
structure SourceGrant where
  active : Bool
  installationID : ID

/-- A row of `media_artifacts`, of the kind of the job that produces it. -/
structure MediaArtifact where
  kind : MediaJobKind
  ready : Bool

/-- A row of `sequence_preview_artifacts`, with its facts. -/
structure SequencePreviewArtifact where
  ready : Bool
  contentDigest : Digest
  renderPlanDigest : Digest
  factsValid : Bool
  frameRate : ExactRational
  presentationDuration : RationalTime
  videoFrameCount : Nat

/-- A row of `transcript_job_bindings`, `intact` if it decodes and agrees with the stream and the
    resource it names. -/
structure TranscriptBinding where
  fingerprint : Digest
  sourceStreamID : ID
  engineVersion : Text
  engineTarget : Text
  modelResourceID : ID
  modelEntryDigest : Digest
  intact : Bool
deriving DecidableEq

/-- A row of `product_resources`. -/
structure ProductResource where
  installationID : ID
  entry : ProductResourceRegistration
  ready : Bool

/-- The tables of durable work and those that it reads. -/
structure WorkDatabase where
  jobs : Table ID WorkJob
  attempts : List WorkAttempt
  assets : Table ID WorkAsset
  sourceGrants : Table ID SourceGrant
  mediaArtifacts : Table ID MediaArtifact
  previewArtifacts : Table ID SequencePreviewArtifact
  transcriptBindings : Table ID TranscriptBinding
  productResources : Table ID ProductResource

/-- Why a request about work is refused. -/
inductive WorkError
  | noWork
  | noMediaWork
  | workLeaseLost
  | mediaLeaseLost
  | resourceLeaseLost
  | assetInvalid
  | sequencePreviewInvalid
  | sequenceFramesInvalid
  | sequenceExportInvalid
  | sequenceExportNotFound
  | productResourceInvalid
  | constraint
deriving DecidableEq

namespace WorkDatabase

variable (db : WorkDatabase) (jobID : ID)

/-- The attempts of a job, the oldest first. -/
def attemptsOf : List WorkAttempt := db.attempts.filter (·.jobID == jobID)

/-- `COALESCE(MAX(generation), 0)` of a job. -/
def maxGeneration : Nat := ((db.attemptsOf jobID).map (·.generation)).foldr max 0

/-- Whether a job has a live attempt. -/
def hasLiveAttempt : Bool := (db.attemptsOf jobID).any (·.live)

/-- An `UPDATE` of `work_jobs`. -/
def updateJobs (f : ID → WorkJob → WorkJob) : WorkDatabase := { db with jobs := db.jobs.mapRows f }

/-- An `UPDATE` of `work_job_attempts`. -/
def updateAttempts (f : WorkAttempt → WorkAttempt) : WorkDatabase :=
  { db with attempts := db.attempts.map f }

variable (now : Instant)

/-- The attempts whose lease has expired at `now` are abandoned. -/
def abandonExpired : WorkDatabase :=
  db.updateAttempts fun attempt =>
    if attempt.live ∧ attempt.leaseExpiresAt ≤ now then { attempt with state := .abandoned }
    else attempt

/-- The state of a job whose attempt was abandoned, and its error code. -/
def requeued (id : ID) (job : WorkJob) : WorkJob :=
  if job.cancellationRequested then { job with state := .cancelled, terminalErrorCode := none }
  else if 3 ≤ db.maxGeneration id then
    { job with state := .failed, terminalErrorCode := some "attempt-limit-exceeded" }
  else { job with state := .queued, terminalErrorCode := none }

/-- `recoverExpiredWorkAttempts`. -/
def recoverExpiredWorkAttempts : WorkDatabase :=
  let db := db.abandonExpired now
  db.updateJobs fun id job =>
    if job.state = .running ∧ ¬db.hasLiveAttempt id then db.requeued id job else job

@[simp]
theorem updateJobs_jobs (db : WorkDatabase) (f : ID → WorkJob → WorkJob) (id : ID) :
    (db.updateJobs f).jobs.find? id = (db.jobs.find? id).map (f id) :=
  Table.find?_mapRows f db.jobs id

@[simp]
theorem updateAttempts_jobs (db : WorkDatabase) (f : WorkAttempt → WorkAttempt) :
    (db.updateAttempts f).jobs = db.jobs := rfl

end WorkDatabase

end OpenCut
