import Mathlib.Data.List.Dedup
import OpenCut.Domain.Text
import OpenCut.Work.Jobs

/-!
# Reconciliation of waiting jobs

`reconcileMediaPrerequisites` (`media_work.go`), `reconcileTranscriptBindings`
(`transcript_bindings.go`), `reconcileSequencePreviewJobs` (`work_jobs.go`),
`reconcileSequenceExportJobs` (`sequence_export_work.go`), `reconcileSequenceFrameJobs`
(`sequence_frame_work.go`) and `reconcileProductResourceJobs` (`product_resource_work.go`): what
a waiting job still waits for is computed anew, and the job is queued if that is nothing.

Reconciliation asks for fingerprints, facts, models, executors and artifacts. It does not look
at the asset of a media job or at its grant: a job of a tombstoned asset is queued.
-/

namespace OpenCut

open Outcome

/-! ## Executors and resources -/

/-- `WorkExecutorRegistration`. -/
structure WorkExecutorRegistration where
  kind : WorkJobKind
  version : Text
  target : Text

/-- `MediaExecutorRegistration`. -/
structure MediaExecutorRegistration where
  kind : MediaJobKind
  version : Text
  target : Text

/-- `TranscriptProfile`. -/
def transcriptProfile : Text := "whisper-small-multilingual-v1".toList

/-- Whether an executor of the kind has to name a target, and the length of its version. A
    waveform has no executor. -/
def executorLimits : WorkJobKind → Option (Bool × Nat)
  | .media .identify | .media .probe | .media .frameSet | .media .proxy => some (false, 256)
  | .media .transcript | .media .renderInput => some (true, 1024)
  | .media .waveform => none
  | .sequencePreview | .sequenceFrames | .sequenceExport => some (false, 1024)
  | .resourceAcquire => some (false, 256)

variable (executor : WorkExecutorRegistration)

/-- The check of one executor. -/
def WorkExecutorRegistration.valid : Bool :=
  match executorLimits executor.kind with
  | none => false
  | some (targeted, length) =>
    (if targeted then executor.target ≠ [] ∧ executor.target.byteLength ≤ 128
      else executor.target = []) ∧
    executor.version ≠ [] ∧ executor.version.byteLength ≤ length

/-- `validateWorkExecutorRegistrations`. -/
def validateWorkExecutorRegistrations (executors : List WorkExecutorRegistration) : Bool :=
  executors ≠ [] ∧ executors.length ≤ 16 ∧ executors.all (·.valid) ∧ (executors.map (·.kind)).Nodup

/-- The executor of a kind of media jobs. -/
def WorkExecutorRegistration.media? : Option MediaExecutorRegistration :=
  match executor.kind with
  | .media kind => some ⟨kind, executor.version, executor.target⟩
  | _ => none

/-- `mediaExecutorRegistrations`. -/
def mediaExecutorRegistrations (executors : List WorkExecutorRegistration) :
    Except WorkError (List MediaExecutorRegistration) := do
  ensure (validateWorkExecutorRegistrations executors) .sequencePreviewInvalid
  return executors.filterMap (·.media?)

/-- The check of one executor of media jobs. -/
def MediaExecutorRegistration.valid (executor : MediaExecutorRegistration) : Bool :=
  executor.kind ≠ .waveform && executor.version ≠ [] && executor.version.byteLength ≤ 1024 &&
    executor.target.byteLength ≤ 128 &&
    (executor.kind = .transcript || executor.kind = .renderInput) == (executor.target ≠ [])

/-- `validMediaExecutors`. -/
def validMediaExecutors (executors : List MediaExecutorRegistration) : Bool :=
  executors ≠ [] ∧ executors.length ≤ 8 ∧ executors.all (·.valid) ∧ (executors.map (·.kind)).Nodup

/-- `sequencePreviewExecutorVersion` and its siblings: the version of the first executor of the
    kind, or the empty text. -/
def executorVersion (kind : WorkJobKind) (executors : List WorkExecutorRegistration) : Text :=
  ((executors.find? (·.kind == kind)).map (·.version)).getD []

/-- `ValidProductResourceName`. -/
def validProductResourceName (name : Text) : Bool :=
  name.length ≤ 128 && (name.head?.any fun c => 'a' ≤ c && c ≤ 'z') &&
    name.all fun c => ('a' ≤ c && c ≤ 'z') || ('0' ≤ c && c ≤ '9') || c == '.' || c == '-'

/-- The loop of `ValidateProductResourceRegistrations`: the names ascend. -/
def validRegistrations : Text → List ProductResourceRegistration → Bool
  | _, [] => true
  | previous, registration :: registrations =>
    validProductResourceName registration.name && !textLE registration.name previous &&
      registration.profile ≠ [] && registration.profile.byteLength ≤ 128 &&
      validRegistrations registration.name registrations

/-- `ValidateProductResourceRegistrations`. -/
def validateProductResourceRegistrations (registrations : List ProductResourceRegistration) :
    Bool :=
  registrations.length ≤ 128 && validRegistrations [] registrations

/-- The registered model of the transcripts. -/
def transcriptModel? (resources : List ProductResourceRegistration) :
    Option ProductResourceRegistration :=
  resources.find? fun resource =>
    resource.name == transcriptProfile && resource.profile == transcriptProfile

/-! ## Media jobs -/

/-- A waiting job is queued if it has no prerequisites. -/
def WorkJob.requeue (job : WorkJob) : WorkJob :=
  { job with state := if job.prerequisites.isEmpty then .queued else .blocked }

namespace WorkDatabase

variable (db : WorkDatabase)

/-- The jobs of a kind on an asset. -/
def mediaJobs (kind : MediaJobKind) (assetID : ID) : List ID :=
  db.jobs.rows.filterMap fun row =>
    match row.2.detail with
    | .media detail => if detail.kind = kind ∧ detail.assetID = assetID then some row.1 else none
    | _ => none

/-- The resource of an entry that is ready in an installation. -/
def readyResource? (installationID : ID) (entry : ProductResourceRegistration) : Option ID :=
  (db.productResources.rows.find? fun row =>
    row.2.installationID == installationID && row.2.entry == entry && row.2.ready).map (·.1)

/-- The binding that `reconcileTranscriptBindings` gives to a job, if any. -/
def newTranscriptBinding (executor : MediaExecutorRegistration)
    (registration : ProductResourceRegistration) (asset : WorkAsset) :
    Except WorkError (Option TranscriptBinding) :=
  match asset.acceptedFingerprint, db.sourceGrants.find? asset.sourceGrantID with
  | some fingerprint, some grant =>
    if asset.factsKnown then do
      ensure asset.streamsReadable .assetInvalid
      match asset.audioStream, db.readyResource? grant.installationID registration with
      | some stream, some resource => return some {
          fingerprint, sourceStreamID := stream, engineVersion := executor.version
          engineTarget := executor.target, modelResourceID := resource
          modelEntryDigest := registration.entryDigest, intact := true }
      | _, _ => return none
    else return none
  | _, _ => return none

/-- Whether `reconcileTranscriptBindings` looks at a job: a waiting transcript without a binding.
    Its asset. -/
def unboundTranscript? (id : ID) (job : WorkJob) : Option WorkAsset :=
  match job.detail with
  | .media detail =>
    if detail.kind = .transcript ∧ job.waiting ∧ (db.transcriptBindings.find? id).isNone then
      db.assets.find? detail.assetID
    else none
  | _ => none

/-- One job of `reconcileTranscriptBindings`. -/
def bindTranscript (executor : MediaExecutorRegistration)
    (registration : ProductResourceRegistration) (bindings : Table ID TranscriptBinding)
    (row : ID × WorkJob) : Except WorkError (Table ID TranscriptBinding) :=
  match db.unboundTranscript? row.1 row.2 with
  | none => return bindings
  | some asset => do
    match ← db.newTranscriptBinding executor registration asset with
    | none => return bindings
    | some binding => return bindings.set row.1 binding

variable (executors : List MediaExecutorRegistration) (resources : List ProductResourceRegistration)

/-- `reconcileTranscriptBindings`. -/
def reconcileTranscriptBindings : Except WorkError WorkDatabase :=
  match executors.find? (·.kind == .transcript), transcriptModel? resources with
  | some executor, some registration => do
    let bindings ← db.jobs.rows.foldlM (db.bindTranscript executor registration)
      db.transcriptBindings
    return { db with transcriptBindings := bindings }
  | _, _ => return db

/-- A probe waits for the fingerprint of its asset. -/
def fingerprintPrerequisites (detail : MediaJobDetail) : List Prerequisite :=
  if detail.kind = .probe ∧ (db.assets.find? detail.assetID).any (·.acceptedFingerprint.isNone) then
    (db.mediaJobs .identify detail.assetID).map .fingerprintRequired
  else []

/-- The kinds that wait for the facts of their asset. -/
def needsFacts : MediaJobKind → Bool
  | .frameSet | .proxy | .waveform | .transcript => true
  | .identify | .probe | .renderInput => false

/-- Frame sets, proxies, waveforms and transcripts wait for the facts of their asset. -/
def factsPrerequisites (detail : MediaJobDetail) : List Prerequisite :=
  if needsFacts detail.kind ∧ (db.assets.find? detail.assetID).any (!·.factsKnown) then
    (db.mediaJobs .probe detail.assetID).map .factsRequired
  else []

/-- Whether a transcript waits for its model. -/
def modelRequired (id : ID) (asset : WorkAsset) : Bool :=
  match db.sourceGrants.find? asset.sourceGrantID with
  | none => false
  | some grant =>
    let active := (transcriptModel? resources).map (·.entryDigest)
    if asset.factsKnown then
      asset.audioStream.isSome && !(db.transcriptBindings.find? id).any fun binding =>
        some binding.modelEntryDigest == active &&
          (db.productResources.find? binding.modelResourceID).any fun resource =>
            resource.installationID == grant.installationID && resource.ready
    else
      !db.productResources.rows.any fun row =>
        row.2.installationID == grant.installationID && row.2.entry.name == transcriptProfile &&
          row.2.entry.profile == transcriptProfile && some row.2.entry.entryDigest == active &&
          row.2.ready

/-- A transcript waits for its model. -/
def modelPrerequisites (id : ID) (detail : MediaJobDetail) : List Prerequisite :=
  if detail.kind = .transcript ∧
      (db.assets.find? detail.assetID).any (db.modelRequired resources id) then
    [.modelRequired transcriptProfile]
  else []

/-- Whether no executor of a kind of media jobs is registered; for a transcript that is bound,
    none with the engine of its binding. -/
def executorMissing (id : ID) (kind : MediaJobKind) : Bool :=
  if kind = .transcript then
    match executors.find? (·.kind == .transcript) with
    | none => true
    | some executor => (db.transcriptBindings.find? id).any fun binding =>
        binding.engineVersion ≠ executor.version || binding.engineTarget ≠ executor.target
  else !executors.any (·.kind == kind)

/-- What a waiting media job waits for. -/
def mediaPrerequisites (id : ID) (detail : MediaJobDetail) : List Prerequisite :=
  db.fingerprintPrerequisites detail ++ db.factsPrerequisites detail ++
    db.modelPrerequisites resources id detail ++
    if db.executorMissing executors id detail.kind then [.executorRequired (.media detail.kind)]
    else []

/-- A waiting job with the prerequisites of a media job, if it is one. -/
def withMediaPrerequisites (id : ID) (job : WorkJob) : WorkJob :=
  match job.detail with
  | .media detail =>
    { job with prerequisites := db.mediaPrerequisites executors resources id detail }
  | _ => job

/-- `reconcileMediaPrerequisites`. Its last statement queues or blocks the waiting jobs of all
    kinds. -/
def reconcileMediaPrerequisites : Except WorkError WorkDatabase := do
  ensure (validateProductResourceRegistrations resources) .productResourceInvalid
  let db ← db.reconcileTranscriptBindings executors resources
  return db.updateJobs fun id job =>
    if job.waiting then (db.withMediaPrerequisites executors resources id job).requeue else job

/-! ## Previews and exports -/

/-- The artifact of a producer job, if it is a media job that has one. -/
def producedArtifact? (producer : WorkJob) : Option MediaArtifact :=
  match producer.detail with
  | .media detail => detail.resultArtifactID.bind db.mediaArtifacts.find?
  | _ => none

/-- Whether a job is one of those with details of a media job. -/
def isMedia (job : WorkJob) : Bool :=
  match job.detail with
  | .media _ => true
  | _ => false

/-- A producer that has failed. -/
def inputFailed (producer : ID) : Bool :=
  (db.jobs.find? producer).any fun job => job.state = .failed ∨ job.state = .cancelled

/-- A producer that has succeeded and left no usable artifact. -/
def inputUnavailable (usable : MediaArtifact → Bool) (producer : ID) : Bool :=
  (db.jobs.find? producer).any fun job =>
    isMedia job && job.state = .succeeded && !(db.producedArtifact? job).any usable

/-- A producer that has not succeeded, or whose artifact is not usable. A missing artifact makes
    the comparison `NULL`, which selects nothing. -/
def inputWaits (usable : MediaArtifact → Bool) (producer : ID) : Bool :=
  (db.jobs.find? producer).any fun job =>
    isMedia job && (job.state ≠ .succeeded || (db.producedArtifact? job).any (!usable ·))

/-- The details of the jobs of one of the two kinds. -/
def renderDetail? (kind : WorkJobKind) (job : WorkJob) : Option SequenceRenderDetail :=
  match job.detail with
  | .sequencePreview detail => if kind = .sequencePreview then some detail else none
  | .sequenceExport detail => if kind = .sequenceExport then some detail else none
  | _ => none

/-- Waiting jobs that meet a condition fail. -/
def failWaiting (condition : WorkJob → Bool) (code : String) : WorkDatabase :=
  db.updateJobs fun _ job =>
    if job.waiting ∧ condition job then
      { job with state := .failed, terminalErrorCode := some code }
    else job

/-- What a preview or an export waits for. -/
def renderPrerequisites (kind : WorkJobKind) (usable : MediaArtifact → Bool) (version : Text)
    (detail : SequenceRenderDetail) : List Prerequisite :=
  (detail.inputs.filter (db.inputWaits usable)).dedup.map .artifactReady ++
    if version = [] ∨ detail.rendererVersion ≠ version then [.executorRequired kind] else []

/-- `reconcileSequencePreviewJobs` and `reconcileSequenceExportJobs`. -/
def reconcileSequenceRenderJobs (kind : WorkJobKind) (usable : MediaArtifact → Bool)
    (version : Text) : WorkDatabase :=
  let db := db.failWaiting
    (fun job => (renderDetail? kind job).any (·.inputs.any db.inputFailed)) "input-job-failed"
  let db := db.failWaiting
    (fun job => (renderDetail? kind job).any (·.inputs.any (db.inputUnavailable usable)))
    "input-artifact-unavailable"
  db.updateJobs fun _ job =>
    match renderDetail? kind job with
    | some detail =>
      if job.waiting then
        { job with
          prerequisites := db.renderPrerequisites kind usable version detail
          terminalErrorCode := none }.requeue
      else job
    | none => job

variable (version : Text)

/-- `reconcileSequencePreviewJobs`. -/
def reconcileSequencePreviewJobs : WorkDatabase :=
  db.reconcileSequenceRenderJobs .sequencePreview (·.ready) version

/-- `reconcileSequenceExportJobs`. -/
def reconcileSequenceExportJobs : WorkDatabase :=
  db.reconcileSequenceRenderJobs .sequenceExport
    (fun artifact => artifact.kind = .renderInput && artifact.ready) version

/-! ## Frame sets -/

/-- The preview that a frame set can be bound to. -/
def readyPreview? (detail : SequenceFrameSetDetail) : Option (ID × SequencePreviewArtifact) :=
  match db.jobs.find? detail.previewJobID with
  | none => none
  | some preview =>
    match preview.detail with
    | .sequencePreview previewDetail =>
      if preview.state = .succeeded then
        (previewDetail.resultArtifactID.bind fun id =>
          (db.previewArtifacts.find? id).map (id, ·)).filter (·.2.ready)
      else none
    | _ => none

variable (job : WorkJob)

/-- A job of `bindReadySequenceFrameInputs`. -/
def bindPreview (detail : SequenceFrameSetDetail) (id : ID)
    (artifact : SequencePreviewArtifact) : WorkJob :=
  if ¬(job.intact ∧ artifact.factsValid ∧ detail.frameRate.compare artifact.frameRate = .eq) then
    { job with state := .failed, terminalErrorCode := some "input-artifact-invalid" }
  else if detail.samples.any fun sample =>
      sample.requestedTime.compare artifact.presentationDuration ≠ .lt ||
        artifact.videoFrameCount ≤ sample.frameIndex then
    { job with state := .failed, terminalErrorCode := some "sequence-time-out-of-range" }
  else
    { job with detail := .sequenceFrames { detail with
        preview := some ⟨id, artifact.contentDigest, artifact.renderPlanDigest⟩ } }

/-- `bindReadySequenceFrameInputs`. -/
def bindReadySequenceFrameInputs : WorkDatabase :=
  db.updateJobs fun _ job =>
    match job.detail with
    | .sequenceFrames detail =>
      if job.waiting ∧ detail.preview.isNone then
        match db.readyPreview? detail with
        | some (id, artifact) => bindPreview job detail id artifact
        | none => job
      else job
    | _ => job

/-- The frame sets whose preview has failed. -/
def previewFailed : Bool :=
  match job.detail with
  | .sequenceFrames detail => db.inputFailed detail.previewJobID
  | _ => false

/-- What a frame set waits for. -/
def framePrerequisites (detail : SequenceFrameSetDetail) : List Prerequisite :=
  (if detail.preview.isNone then [.artifactReady detail.previewJobID] else []) ++
    if version = [] ∨ job.producerVersion ≠ version then [.executorRequired .sequenceFrames]
    else []

/-- `reconcileSequenceFrameJobs`. -/
def reconcileSequenceFrameJobs : WorkDatabase :=
  let db := db.failWaiting db.previewFailed "input-job-failed"
  db.bindReadySequenceFrameInputs.updateJobs fun _ job =>
    match job.detail with
    | .sequenceFrames detail =>
      if job.waiting then
        { job with
          prerequisites := framePrerequisites version job detail
          terminalErrorCode := none }.requeue
      else job
    | _ => job

/-! ## Resources -/

/-- One job of `reconcileProductResourceJobs`. -/
def reconcileResource (resources : List ProductResourceRegistration)
    (job : WorkJob) (detail : ResourceJobDetail) : WorkJob :=
  if resources.any (· == detail.entry) then
    { job with
      prerequisites := if version = [] ∨ job.producerVersion ≠ version then
        [.executorRequired .resourceAcquire] else []
      terminalErrorCode := none }.requeue
  else
    { job with
      state := .failed, terminalErrorCode := some "resource-catalog-entry-unavailable" }

/-- `reconcileProductResourceJobs`. -/
def reconcileProductResourceJobs (resources : List ProductResourceRegistration) :
    Except WorkError WorkDatabase := do
  ensure (validateProductResourceRegistrations resources) .productResourceInvalid
  return db.updateJobs fun _ job =>
    match job.detail with
    | .resourceAcquire detail =>
      if job.waiting then reconcileResource version resources job detail else job
    | _ => job

/-! ## Recovery -/

/-- `RecoverWorkJobs`. -/
def recoverWorkJobs (executors : List WorkExecutorRegistration)
    (resources : List ProductResourceRegistration) (now : Instant) :
    Except WorkError WorkDatabase := do
  let media ← mediaExecutorRegistrations executors
  ensure (validateProductResourceRegistrations resources ∧ now ≠ zeroTime) .sequencePreviewInvalid
  let db ← (db.recoverExpiredWorkAttempts now).reconcileMediaPrerequisites media resources
  let db := db.reconcileSequencePreviewJobs (executorVersion .sequencePreview executors)
  let db := db.reconcileSequenceExportJobs (executorVersion .sequenceExport executors)
  let db := db.reconcileSequenceFrameJobs (executorVersion .sequenceFrames executors)
  db.reconcileProductResourceJobs (executorVersion .resourceAcquire executors) resources

/-- `RecoverMediaJobs`. -/
def recoverMediaJobs (now : Instant) : Except WorkError WorkDatabase := do
  ensure (validMediaExecutors executors ∧ now ≠ zeroTime) .assetInvalid
  (db.recoverExpiredWorkAttempts now).reconcileMediaPrerequisites executors []

end WorkDatabase

end OpenCut
