import Mathlib.Data.List.MinMax
import Mathlib.Data.Prod.Lex
import OpenCut.Work.Reconcile

/-!
# Claims and leases

`ClaimWorkJob` and `RenewWorkJobLease` (`apps/api/repository/work_jobs.go`), `ClaimMediaJob`
(`media_work.go`) and the claims of the other kinds.

A claim is made in two stages. The head of the queue is chosen among the queued jobs of the
registered kinds, by priority and age only (`nextClaimableWorkJob`); then the claim of its kind
asks its own query for that one job (`claimable`), and finds it or nothing.
-/

namespace OpenCut

open Outcome

/-- `ClaimWorkJobInput`. -/
structure ClaimWorkJobInput where
  attemptID : ID
  executors : List WorkExecutorRegistration
  resources : List ProductResourceRegistration
  leaseOwner : Text
  now : Instant
  leaseDuration : Duration

/-- The checks of the lease that is asked for. -/
def ClaimWorkJobInput.leaseValid (input : ClaimWorkJobInput) : Bool :=
  input.attemptID ≠ 0 ∧ input.leaseOwner ≠ [] ∧ input.leaseOwner.byteLength ≤ 128 ∧
    input.now ≠ zeroTime ∧ 3 * second ≤ input.leaseDuration ∧ input.leaseDuration ≤ 600 * second

/-- What a claim is about, apart from the job and its attempt. -/
inductive ClaimSubject
  | media (assetID sourceGrantID : ID) (acceptedFingerprint : Option Digest)
    (binding : Option TranscriptBinding)
  | sequencePreview (parameters : Text)
  | sequenceFrames (parameters : Text) (preview : PreviewBinding)
  | sequenceExport (parameters : Text)
  | resourceAcquire (installationID : ID) (entry : ProductResourceRegistration)

/-- `WorkJobClaim`. -/
structure WorkJobClaim where
  jobID : ID
  attemptID : ID
  kind : WorkJobKind
  executorVersion : Text
  executorTarget : Text
  generation : Nat
  leaseOwner : Text
  leaseExpiresAt : Instant
  subject : ClaimSubject

namespace WorkDatabase

/-! ## The queue -/

variable (executors : List WorkExecutorRegistration)

/-- Whether a job is queued, not cancelled and of a registered kind. -/
def inQueue (job : WorkJob) : Bool :=
  job.state = .queued && !job.cancellationRequested && executors.any (·.kind == job.kind)

variable (db : WorkDatabase) (input : ClaimWorkJobInput)

/-- The queue of the registered kinds, unordered. -/
def queue : List (ID × WorkJob) := db.jobs.rows.filter fun row => inQueue executors row.2

/-- By what the queue is ordered: priority, age, identity. -/
def QueueKey : Type := Lex (ℕ × Lex (ℤ × ℕ))

-- the orders of the numbers are named, for other instances of them do not compute
instance : LinearOrder QueueKey :=
  @Prod.Lex.instLinearOrder ℕ (Lex (ℤ × ℕ)) Nat.instLinearOrder
    (@Prod.Lex.instLinearOrder ℤ ℕ Int.instLinearOrder Nat.instLinearOrder)

/-- The place of a job in the queue. -/
def queueKey (row : ID × WorkJob) : QueueKey :=
  toLex (row.2.priorityClass.rank, toLex (row.2.createdAt, row.1))

/-- `nextClaimableWorkJob`. -/
def nextClaimableWorkJob : Option (ID × WorkJob) := (db.queue executors).argmin queueKey

/-! ## The queries of the kinds -/

/-- A media job can be claimed if its asset lives, the grant of the asset is active and, but for
    an identification, the fingerprint of the asset is known. -/
def mediaClaimable (detail : MediaJobDetail) : Bool :=
  (db.assets.find? detail.assetID).any fun asset =>
    !asset.tombstoned && (db.sourceGrants.find? asset.sourceGrantID).any (·.active) &&
      (detail.kind = .identify || asset.acceptedFingerprint.isSome)

/-- A preview or an export can be claimed by an executor of its version if its inputs are
    there. -/
def renderClaimable (usable : MediaArtifact → Bool) (version : Text) (detail : SequenceRenderDetail)
    : Bool :=
  detail.rendererVersion = version && !detail.inputs.any (db.inputWaits usable)

/-- A frame set can be claimed by an executor of its version if its preview is still the one it
    was bound to. -/
def frameClaimable (version : Text) (job : WorkJob) (detail : SequenceFrameSetDetail) : Bool :=
  job.producerVersion = version && detail.preview.any fun binding =>
    (db.previewArtifacts.find? binding.artifactID).any fun artifact =>
      artifact.ready && artifact.contentDigest == binding.artifactDigest &&
        artifact.renderPlanDigest == binding.renderPlanDigest

/-- The claim query of the job's own kind, for a queued job. -/
def claimable (job : WorkJob) : Bool :=
  match job.detail with
  | .media detail => db.mediaClaimable detail
  | .sequencePreview detail =>
    db.renderClaimable (·.ready) (executorVersion .sequencePreview executors) detail
  | .sequenceFrames detail =>
    db.frameClaimable (executorVersion .sequenceFrames executors) job detail
  | .sequenceExport detail =>
    db.renderClaimable (fun artifact => artifact.kind = .renderInput && artifact.ready)
      (executorVersion .sequenceExport executors) detail
  | .resourceAcquire _ => job.producerVersion = executorVersion .resourceAcquire executors

/-! ## What a claim checks after its query -/

variable (id : ID)

/-- The streams and the binding that a media job needs, by its kind. -/
def mediaInputsSound (detail : MediaJobDetail) (asset : WorkAsset)
    (executor : MediaExecutorRegistration) : Bool :=
  match detail.kind with
  | .identify => asset.acceptedFingerprint.isNone
  | .probe | .waveform => true
  | .frameSet => detail.fingerprint.isSome && detail.fingerprint == asset.acceptedFingerprint
  | .proxy | .renderInput => asset.streamsReadable
  | .transcript =>
    match db.transcriptBindings.find? id with
    | none => asset.streamsReadable && asset.audioStream.isNone
    | some binding =>
      binding.intact && some binding.fingerprint == asset.acceptedFingerprint &&
        (db.productResources.find? binding.modelResourceID).any (·.ready) &&
        binding.engineVersion == executor.version && binding.engineTarget == executor.target

/-- The checks of the claim of a media job. -/
def mediaSound (executors : List MediaExecutorRegistration) (id : ID) (job : WorkJob)
    (detail : MediaJobDetail) : Bool :=
  job.intact && (db.assets.find? detail.assetID).any fun asset =>
    (executors.find? (·.kind == detail.kind)).any fun executor =>
      db.mediaInputsSound id detail asset executor

/-! ## Attempts -/

/-- A new attempt, unless its identity is taken or the job has a live one (the primary key and
    the index `work_job_attempts_one_live`). -/
def insertAttempt (attempt : WorkAttempt) : Except WorkError WorkDatabase := do
  ensure (¬db.attempts.any (·.id == attempt.id) ∧ ¬db.hasLiveAttempt attempt.jobID) .constraint
  return { db with attempts := db.attempts ++ [attempt] }

variable (claim : WorkJobClaim)

/-- The attempt of a claim. -/
def WorkJobClaim.attempt : WorkAttempt where
  id := claim.attemptID
  jobID := claim.jobID
  generation := claim.generation
  state := .running
  leaseOwner := claim.leaseOwner
  leaseExpiresAt := claim.leaseExpiresAt
  executorVersion := claim.executorVersion

/-- The end of every claim: the attempt is inserted and the job runs. -/
def lease : Except WorkError (WorkJobClaim × WorkDatabase) := do
  let db ← db.insertAttempt (WorkJobClaim.attempt claim)
  return (claim, db.updateJobs fun id job =>
    if id = claim.jobID ∧ job.state = .queued ∧ ¬job.cancellationRequested then
      { job with state := .running }
    else job)

variable (job : WorkJob)

/-- The claim that is made for a job. -/
def claimOf (version target : Text) (subject : ClaimSubject) : WorkJobClaim where
  jobID := id
  attemptID := input.attemptID
  kind := job.kind
  executorVersion := version
  executorTarget := target
  generation := db.maxGeneration id + 1
  leaseOwner := input.leaseOwner
  leaseExpiresAt := input.now + input.leaseDuration
  subject

/-- The queued job that a claim asks for. -/
def queuedJob? : Option WorkJob :=
  (db.jobs.find? id).filter fun job => job.state = .queued && !job.cancellationRequested

/-! ## The claims -/

/-- The claim of one of the kinds other than media: the query for one job, the checks of its row
    and the lease. -/
def claimRow (kind : WorkJobKind) (invalid : WorkError) (sound : WorkJob → Bool)
    (subject : WorkJob → Option ClaimSubject) : Except WorkError (WorkJobClaim × WorkDatabase) := do
  let version := executorVersion kind input.executors
  ensure (id ≠ 0 ∧ version ≠ []) .noWork
  let job ← need ((db.queuedJob? id).filter fun job =>
    job.kind = kind && db.claimable input.executors job) .noWork
  ensure (job.intact ∧ sound job) invalid
  let subject ← need (subject job) invalid
  db.lease (db.claimOf input id job version [] subject)

/-- `claimSequencePreviewJob`. -/
def claimSequencePreviewJob : Except WorkError (WorkJobClaim × WorkDatabase) :=
  db.claimRow input id .sequencePreview .sequencePreviewInvalid (fun _ => true)
    fun job => some (.sequencePreview job.parameters)

/-- The preview of a frame set. -/
def boundPreview? : Option PreviewBinding :=
  match job.detail with
  | .sequenceFrames detail => detail.preview
  | _ => none

/-- `claimSequenceFrameJob`. -/
def claimSequenceFrameJob : Except WorkError (WorkJobClaim × WorkDatabase) :=
  db.claimRow input id .sequenceFrames .sequenceFramesInvalid (fun _ => true)
    fun job => (boundPreview? job).map (.sequenceFrames job.parameters)

/-- `claimSequenceExportJob`. -/
def claimSequenceExportJob : Except WorkError (WorkJobClaim × WorkDatabase) :=
  db.claimRow input id .sequenceExport .sequenceExportInvalid (fun _ => true)
    fun job => some (.sequenceExport job.parameters)

/-- The entry that a resource job acquires. -/
def resourceSubject? : Option ClaimSubject :=
  match job.detail with
  | .resourceAcquire detail => some (.resourceAcquire detail.installationID detail.entry)
  | _ => none

/-- Whether the entry of a resource job is registered. -/
def resourceRegistered (resources : List ProductResourceRegistration) (job : WorkJob) : Bool :=
  match job.detail with
  | .resourceAcquire detail => resources.any (· == detail.entry)
  | _ => false

/-- `claimProductResourceJob`. -/
def claimProductResourceJob : Except WorkError (WorkJobClaim × WorkDatabase) := do
  ensure (validateProductResourceRegistrations input.resources) .noWork
  db.claimRow input id .resourceAcquire .productResourceInvalid (resourceRegistered input.resources)
    resourceSubject?

/-- `ClaimMediaJob` for one job: what waits is recovered and reconciled once more. -/
def claimMediaJob (executors : List MediaExecutorRegistration) (id : ID) :
    Except WorkError (WorkJobClaim × WorkDatabase) := do
  ensure (validMediaExecutors executors ∧ id ≠ 0 ∧ input.leaseValid) .assetInvalid
  let db ← (db.recoverExpiredWorkAttempts input.now).reconcileMediaPrerequisites executors
    input.resources
  let job ← need (db.queuedJob? id) .noMediaWork
  match job.detail with
  | .media detail =>
    ensure (executors.any (·.kind == detail.kind) ∧ db.mediaClaimable detail) .noMediaWork
    let asset ← need (db.assets.find? detail.assetID) .noMediaWork
    let executor ← need (executors.find? (·.kind == detail.kind)) .noMediaWork
    ensure (db.mediaSound executors id job detail) .assetInvalid
    db.lease (db.claimOf input id job executor.version executor.target
      (.media detail.assetID asset.sourceGrantID asset.acceptedFingerprint
        (db.transcriptBindings.find? id)))
  | _ => throw .noMediaWork

/-- The claim of the head of the queue. -/
def claimHead (media : List MediaExecutorRegistration) (id : ID) (kind : WorkJobKind) :
    Except WorkError (WorkJobClaim × WorkDatabase) :=
  match kind with
  | .sequencePreview => db.claimSequencePreviewJob input id
  | .sequenceFrames => db.claimSequenceFrameJob input id
  | .sequenceExport => db.claimSequenceExportJob input id
  | .resourceAcquire => db.claimProductResourceJob input id
  | .media _ =>
    match db.claimMediaJob input media id with
    | .error .noMediaWork => .error .noWork
    | outcome => outcome

/-- `ClaimWorkJob`. -/
def claimWorkJob : Except WorkError (WorkJobClaim × WorkDatabase) := do
  ensure input.leaseValid .sequencePreviewInvalid
  let media ← mediaExecutorRegistrations input.executors
  ensure (validateProductResourceRegistrations input.resources) .productResourceInvalid
  let db ← db.recoverWorkJobs input.executors input.resources input.now
  let row ← need (db.nextClaimableWorkJob input.executors) .noWork
  db.claimHead input media row.1 row.2.kind

/-- `RenewWorkJobLease` and `RenewMediaJobLease`. -/
def renewWorkJobLease (now : Instant) (duration : Duration)
    (lost : WorkError) : Except WorkError WorkDatabase := do
  ensure (claim.jobID ≠ 0 ∧ claim.attemptID ≠ 0 ∧ claim.leaseOwner ≠ [] ∧ now ≠ zeroTime ∧
    3 * second ≤ duration ∧ duration ≤ 600 * second) lost
  let holds (attempt : WorkAttempt) : Bool :=
    attempt.id == claim.attemptID && attempt.jobID == claim.jobID &&
      attempt.generation == claim.generation && attempt.leaseOwner == claim.leaseOwner &&
      attempt.state == .running && now < attempt.leaseExpiresAt
  ensure ((db.attempts.filter holds).length = 1) lost
  return db.updateAttempts fun attempt =>
    if holds attempt then { attempt with leaseExpiresAt := now + duration } else attempt

end WorkDatabase

end OpenCut
