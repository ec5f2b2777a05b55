import OpenCut.Work.Claim

/-!
# Publication of results

How the worker of an attempt completes or fails its job: `CompleteMediaIdentification` and the
other publications of media jobs (`media_work.go`, `media_*_publication.go`), those of previews,
frame sets and exports (`sequence_*_publication.go`) and of resources
(`product_resource_work.go`); and what else ends an attempt, `CancelSequenceExport` and
`ReblockMediaTranscriptResource`.

Every publication first verifies its attempt (`verifyAttempt`): it runs under the lease and the
generation of the claim, its job runs, and its lease has not expired. Within the transaction the
updates of the job and of the attempt then find their row, so their row counts are not checked
again. What is left out: activities, files, leases of render material, availability.
-/

namespace OpenCut

open Outcome

namespace WorkDatabase

/-! ## Verification -/

variable (db : WorkDatabase) (claim : WorkJobClaim) (now : Instant)

/-- The attempt of a claim. -/
def attempt? : Option WorkAttempt :=
  db.attempts.find? fun attempt => attempt.id == claim.attemptID && attempt.jobID == claim.jobID

/-- What the verifications have in common; `pinned` is what they check besides. -/
def verifyAttempt (lost : WorkError) (pinned : WorkAttempt → WorkJob → Bool) :
    Except WorkError WorkJob := do
  let attempt ← need (db.attempt? claim) lost
  let job ← need (db.jobs.find? claim.jobID) lost
  ensure (attempt.state = .running ∧ attempt.leaseOwner = claim.leaseOwner ∧
    attempt.generation = claim.generation ∧ job.state = .running ∧ pinned attempt job ∧
    now < attempt.leaseExpiresAt) lost
  return job

/-- The kind of a media job and the grant of its asset are those of the claim. -/
def mediaPinned (kind : MediaJobKind) (_ : WorkAttempt) (job : WorkJob) : Bool :=
  match job.detail, claim.subject with
  | .media detail, .media _ grantID _ _ =>
    detail.kind = kind && (db.assets.find? detail.assetID).any (·.sourceGrantID == grantID)
  | _, _ => false

/-- `verifyMediaAttempt`. -/
def verifyMediaAttempt (kind : MediaJobKind) : Except WorkError WorkJob :=
  db.verifyAttempt claim now .mediaLeaseLost (db.mediaPinned claim kind)

/-- The executor, the renderer and the parameters of a preview are those of the claim. -/
def previewPinned (attempt : WorkAttempt) (job : WorkJob) : Bool :=
  match job.detail, claim.subject with
  | .sequencePreview detail, .sequencePreview parameters =>
    job.intact && attempt.executorVersion = claim.executorVersion &&
      detail.rendererVersion = claim.executorVersion && job.parameters = parameters
  | _, _ => false

/-- `verifySequencePreviewAttempt`. -/
def verifySequencePreviewAttempt : Except WorkError WorkJob :=
  db.verifyAttempt claim now .workLeaseLost (previewPinned claim)

/-- The executor, the renderer and the parameters of an export are those of the claim. -/
def exportPinned (attempt : WorkAttempt) (job : WorkJob) : Bool :=
  match job.detail, claim.subject with
  | .sequenceExport detail, .sequenceExport parameters =>
    job.intact && attempt.executorVersion = claim.executorVersion &&
      detail.rendererVersion = claim.executorVersion && job.parameters = parameters
  | _, _ => false

/-- `verifySequenceExportAttempt`. -/
def verifySequenceExportAttempt : Except WorkError WorkJob :=
  db.verifyAttempt claim now .workLeaseLost (exportPinned claim)

/-- The executor, the parameters and the preview of a frame set are those of the claim. -/
def framesPinned (attempt : WorkAttempt) (job : WorkJob) : Bool :=
  match job.detail, claim.subject with
  | .sequenceFrames detail, .sequenceFrames parameters preview =>
    job.intact && attempt.executorVersion = claim.executorVersion &&
      job.parameters = parameters && detail.preview = some preview
  | _, _ => false

/-- `verifySequenceFrameAttempt`. -/
def verifySequenceFrameAttempt : Except WorkError WorkJob :=
  db.verifyAttempt claim now .workLeaseLost (framesPinned claim)

/-- The producer, the installation and the entry of a resource job are those of the claim. -/
def resourcePinned (_ : WorkAttempt) (job : WorkJob) : Bool :=
  match job.detail, claim.subject with
  | .resourceAcquire detail, .resourceAcquire installationID entry =>
    job.producerVersion = claim.executorVersion && detail.installationID == installationID &&
      detail.entry == entry
  | _, _ => false

/-- `verifyProductResourceAttempt`. -/
def verifyProductResourceAttempt : Except WorkError WorkJob :=
  db.verifyAttempt claim now .resourceLeaseLost (resourcePinned claim)

/-! ## The end of an attempt -/

/-- The job and the attempt of a claim end, if they run. -/
def settleJob (state : WorkJobState) (ended : AttemptState) (code : Option String) : WorkDatabase :=
  (db.updateJobs fun id job =>
    if id = claim.jobID ∧ job.state = .running then
      { job with state, terminalErrorCode := code }
    else job).updateAttempts fun attempt =>
      if attempt.id = claim.attemptID ∧ attempt.state = .running then
        { attempt with state := ended }
      else attempt

/-- The job of the claim has succeeded. -/
def succeed : WorkDatabase := db.settleJob claim .succeeded .succeeded none

/-- The details of one job. -/
def updateDetail (jobID : ID) (f : JobDetail → JobDetail) : WorkDatabase :=
  db.updateJobs fun id job => if id = jobID then { job with detail := f job.detail } else job

/-- Prerequisites of jobs that are met are deleted, and those of the jobs that wait are queued if
    none is left. -/
def satisfy (jobs : WorkJob → Bool) (met : Prerequisite → Bool) : WorkDatabase :=
  db.updateJobs fun _ job =>
    if jobs job then
      let job := { job with prerequisites := job.prerequisites.filter fun p => !met p }
      if job.waiting then job.requeue else job
    else job

/-- Whether a job is one of those on an asset. -/
def onAsset (assetID : ID) (job : WorkJob) : Bool :=
  match job.detail with
  | .media detail => detail.assetID == assetID
  | _ => false

/-! ## Media jobs -/

/-- The asset of the claim and the fingerprint it was claimed with. -/
def claimedAsset : Except WorkError (ID × WorkAsset × ID × Option Digest) :=
  match claim.subject with
  | .media assetID grantID fingerprint _ => do
    let asset ← need (db.assets.find? assetID) .mediaLeaseLost
    return (assetID, asset, grantID, fingerprint)
  | _ => throw .mediaLeaseLost

/-- `CompleteMediaIdentification`. -/
def completeMediaIdentification (fingerprint : Digest) : Except WorkError WorkDatabase := do
  let _ ← db.verifyMediaAttempt claim now .identify
  let (assetID, asset, grantID, _) ← db.claimedAsset claim
  ensure (asset.sourceGrantID = grantID ∧ (asset.acceptedFingerprint = none ∨
    asset.acceptedFingerprint = some fingerprint)) .mediaLeaseLost
  let db := { db with assets := db.assets.set assetID { asset with
    acceptedFingerprint := some fingerprint, observedFingerprint := some fingerprint } }
  return (db.succeed claim).satisfy (onAsset assetID) fun p =>
    match p with
    | .fingerprintRequired _ => true
    | _ => false

/-- The accepted and the observed fingerprint of the asset are still those of the claim. -/
def claimedCurrent : Except WorkError (ID × WorkAsset) :=
  do
  let (assetID, asset, _, fingerprint) ← db.claimedAsset claim
  ensure (fingerprint.isSome ∧ asset.acceptedFingerprint = fingerprint ∧
    asset.observedFingerprint = fingerprint) .mediaLeaseLost
  return (assetID, asset)

variable (artifactID : ID)

/-- An artifact is published: a new one, or one that was evicted is there again. -/
def publishArtifact (kind : MediaJobKind) (again : Bool) : Except WorkError WorkDatabase := do
  match db.mediaArtifacts.find? artifactID with
  | none => ensure (again = false) .mediaLeaseLost
  | some artifact =>
    ensure again .constraint
    ensure (artifact.kind = kind ∧ artifact.ready = false) .mediaLeaseLost
  return { db with mediaArtifacts := db.mediaArtifacts.set artifactID ⟨kind, true⟩ }

/-- The result of a media job, which it must not have yet. -/
def setMediaResult (jobID : ID) (job : WorkJob) (artifactID : Option ID) (code : Option Text) :
    Except WorkError WorkDatabase :=
  match job.detail with
  | .media detail => do
    ensure (detail.resultArtifactID = none ∧ detail.resultCode = none) .mediaLeaseLost
    return db.updateDetail jobID fun _ =>
      .media { detail with resultArtifactID := artifactID, resultCode := code }
  | _ => throw .mediaLeaseLost

/-- `CompleteMediaProbe`, with the streams that were found. -/
def completeMediaProbe (streamsReadable : Bool) (audioStream : Option ID) :
    Except WorkError WorkDatabase := do
  let job ← db.verifyMediaAttempt claim now .probe
  let (assetID, asset) ← db.claimedCurrent claim
  let db ← db.publishArtifact artifactID .probe false
  let db := { db with assets := db.assets.set assetID { asset with
    factsKnown := true, streamsReadable, audioStream } }
  let db ← db.setMediaResult claim.jobID job (some artifactID) none
  return (db.succeed claim).satisfy (onAsset assetID) fun p =>
    match p with
    | .factsRequired _ => true
    | _ => false

/-- `CompleteMediaFrameSet`, `CompleteMediaProxy` and `CompleteMediaRenderInput`. -/
def completeMediaArtifact (kind : MediaJobKind) (artifactID : ID) (again : Bool) :
    Except WorkError WorkDatabase := do
  let job ← db.verifyMediaAttempt claim now kind
  let _ ← db.claimedCurrent claim
  let db ← db.publishArtifact artifactID kind again
  let db ← db.setMediaResult claim.jobID job (some artifactID) none
  return db.succeed claim

/-- `CompleteMediaFrameSet`. -/
def completeMediaFrameSet : Except WorkError WorkDatabase :=
  db.completeMediaArtifact claim now .frameSet artifactID false

/-- `CompleteMediaProxy`. -/
def completeMediaProxy (again : Bool) : Except WorkError WorkDatabase :=
  db.completeMediaArtifact claim now .proxy artifactID again

/-- `CompleteMediaRenderInput`. -/
def completeMediaRenderInput (again : Bool) : Except WorkError WorkDatabase :=
  db.completeMediaArtifact claim now .renderInput artifactID again

/-- The binding of the claim, if it is still the stored one. -/
def claimedBinding : Except WorkError TranscriptBinding :=
  match claim.subject with
  | .media _ _ fingerprint (some binding) => do
    let stored ← need (db.transcriptBindings.find? claim.jobID) .assetInvalid
    ensure (stored.intact ∧ some stored.fingerprint = fingerprint ∧
      (db.productResources.find? stored.modelResourceID).any (·.ready)) .assetInvalid
    ensure (stored = binding) .mediaLeaseLost
    return binding
  | _ => throw .mediaLeaseLost

/-- `CompleteMediaTranscript`. -/
def completeMediaTranscript : Except WorkError WorkDatabase := do
  let job ← db.verifyMediaAttempt claim now .transcript
  let _ ← db.claimedCurrent claim
  let _ ← db.claimedBinding claim
  let db ← db.publishArtifact artifactID .transcript false
  let db ← db.setMediaResult claim.jobID job (some artifactID) none
  return db.succeed claim

/-- `CompleteMediaTranscriptNoAudio`. -/
def completeMediaTranscriptNoAudio : Except WorkError WorkDatabase := do
  let job ← db.verifyMediaAttempt claim now .transcript
  let (_, asset) ← db.claimedCurrent claim
  ensure ((db.transcriptBindings.find? claim.jobID).isNone ∧ asset.audioStream.isNone)
    .mediaLeaseLost
  let db ← db.setMediaResult claim.jobID job none (some "no-audio".toList)
  return db.succeed claim

/-! ## Sequence jobs and resources -/

/-- The result of a preview or an export: the plan is the one it was bound to, and it has no
    result yet. -/
def setRenderResult (jobID : ID) (job : WorkJob) (plan : Digest) (artifactID : ID) :
    Except WorkError WorkDatabase :=
  match job.detail with
  | .sequencePreview detail => do
    ensure (detail.renderPlanDigest = some plan ∧ detail.resultArtifactID = none) .workLeaseLost
    return db.updateDetail jobID fun _ =>
      .sequencePreview { detail with resultArtifactID := some artifactID }
  | .sequenceExport detail => do
    ensure (detail.renderPlanDigest = some plan ∧ detail.resultArtifactID = none) .workLeaseLost
    return db.updateDetail jobID fun _ =>
      .sequenceExport { detail with resultArtifactID := some artifactID }
  | _ => throw .workLeaseLost

/-- `CompleteSequencePreview`: an artifact of the same content is made ready again or used. -/
def completeSequencePreview (plan : Digest) (artifactID : ID) (artifact : SequencePreviewArtifact) :
    Except WorkError WorkDatabase := do
  let job ← db.verifySequencePreviewAttempt claim now
  match db.previewArtifacts.find? artifactID with
  | none => pure ()
  | some stored =>
    ensure (stored.contentDigest = artifact.contentDigest ∧
      stored.renderPlanDigest = artifact.renderPlanDigest) .sequencePreviewInvalid
  let db := { db with previewArtifacts :=
    db.previewArtifacts.set artifactID { artifact with ready := true } }
  let db ← db.setRenderResult claim.jobID job plan artifactID
  return db.succeed claim

/-- `CompleteSequenceExport`. -/
def completeSequenceExport (plan : Digest) (artifactID : ID) : Except WorkError WorkDatabase := do
  let job ← db.verifySequenceExportAttempt claim now
  let db ← db.setRenderResult claim.jobID job plan artifactID
  return db.succeed claim

/-- `CompleteSequenceFrameSet`. -/
def completeSequenceFrameSet : Except WorkError WorkDatabase := do
  let job ← db.verifySequenceFrameAttempt claim now
  match job.detail with
  | .sequenceFrames detail =>
    ensure (detail.resultArtifactID = none) .workLeaseLost
    let db := db.updateDetail claim.jobID fun _ =>
      .sequenceFrames { detail with resultArtifactID := some artifactID }
    return db.succeed claim
  | _ => throw .workLeaseLost

/-- Whether a job is on an asset of an installation. -/
def inInstallation (installationID : ID) (job : WorkJob) : Bool :=
  match job.detail with
  | .media detail => (db.assets.find? detail.assetID).any fun asset =>
      (db.sourceGrants.find? asset.sourceGrantID).any (·.installationID == installationID)
  | _ => false

/-- `CompleteProductResource`: the resource is there, and the jobs of its installation that wait
    for it are queued (`satisfyProductResourcePrerequisites`). -/
def completeProductResource (resourceID : ID) : Except WorkError WorkDatabase := do
  let job ← db.verifyProductResourceAttempt claim now
  match job.detail with
  | .resourceAcquire detail =>
    ensure ((db.productResources.find? resourceID).all fun resource =>
      !resource.ready && resource.entry == detail.entry) .productResourceInvalid
    ensure (detail.resultResourceID = none) .resourceLeaseLost
    let db := { db with productResources :=
      db.productResources.set resourceID ⟨detail.installationID, detail.entry, true⟩ }
    let db := db.updateDetail claim.jobID fun _ =>
      .resourceAcquire { detail with resultResourceID := some resourceID }
    let db := db.succeed claim
    return db.satisfy (db.inInstallation detail.installationID) fun p =>
      p == .modelRequired detail.entry.name
  | _ => throw .resourceLeaseLost

/-! ## Failures -/

variable (code : String)

/-- The job of a claim fails with a code. -/
def failJob : WorkDatabase := db.settleJob claim .failed .failed (some code)

/-- `FailMediaJob`. -/
def failMediaJob : Except WorkError WorkDatabase :=
  match claim.kind with
  | .media kind => do
    let _ ← db.verifyMediaAttempt claim now kind
    return db.failJob claim code
  | _ => throw .mediaLeaseLost

/-- `FailSequencePreview`. -/
def failSequencePreview : Except WorkError WorkDatabase := do
  let _ ← db.verifySequencePreviewAttempt claim now
  return db.failJob claim code

/-- `FailSequenceExport`. -/
def failSequenceExport : Except WorkError WorkDatabase := do
  let _ ← db.verifySequenceExportAttempt claim now
  return db.failJob claim code

/-- `FailSequenceFrameSet`. -/
def failSequenceFrameSet : Except WorkError WorkDatabase := do
  let _ ← db.verifySequenceFrameAttempt claim now
  return db.failJob claim code

/-- `FailProductResource`. -/
def failProductResource : Except WorkError WorkDatabase := do
  let _ ← db.verifyProductResourceAttempt claim now
  return db.failJob claim code

/-! ## What else ends an attempt -/

/-- The live attempts of some jobs are abandoned. -/
def abandon (jobs : ID → Bool) : WorkDatabase :=
  db.updateAttempts fun attempt =>
    if attempt.live ∧ jobs attempt.jobID then { attempt with state := .abandoned } else attempt

/-- `CancelSequenceExport` of the last job of a chain of retries. -/
def cancelSequenceExport (jobID : ID) : Except WorkError WorkDatabase := do
  let job ← need ((db.jobs.find? jobID).filter (·.kind = .sequenceExport)) .sequenceExportNotFound
  match job.state with
  | .succeeded | .failed | .cancelled => return db
  | .blocked | .queued | .running =>
    return (db.abandon (· == jobID)).updateJobs fun id job =>
      if id = jobID then
        { job with state := .cancelled, cancellationRequested := true, terminalErrorCode := none }
      else job

variable (resourceID : ID)

/-- Whether a transcript is bound to a resource. -/
def boundTo (jobID : ID) : Bool :=
  (db.transcriptBindings.find? jobID).any (·.modelResourceID == resourceID)

/-- `ReblockMediaTranscriptResource`: the model of the claim is not what it should be. -/
def reblockMediaTranscriptResource : Except WorkError WorkDatabase := do
  let _ ← db.verifyMediaAttempt claim now .transcript
  let binding ← db.claimedBinding claim
  ensure (binding.modelResourceID = resourceID) .productResourceInvalid
  let resource ← need ((db.productResources.find? resourceID).filter (·.ready))
    .productResourceInvalid
  let db := { db with productResources :=
    db.productResources.set resourceID { resource with ready := false } }
  return (db.abandon (db.boundTo resourceID)).updateJobs fun id job =>
    if db.boundTo resourceID id then
      let job := if job.kind = .media .transcript ∧ (job.waiting ∨ job.state = .running) then
        { job with state := .blocked, terminalErrorCode := none } else job
      if job.state = .blocked then
        { job with prerequisites := .modelRequired resource.entry.name :: job.prerequisites }
      else job
    else job

/-- `BindSequencePreviewRenderPlan` and `BindSequenceExportRenderPlan`: the plan of an attempt. -/
def bindRenderPlan (plan : Digest) : Except WorkError WorkDatabase :=
  match claim.subject with
  | .sequencePreview _ => do
    let job ← db.verifySequencePreviewAttempt claim now
    match job.detail with
    | .sequencePreview detail =>
      ensure (detail.renderPlanDigest.all (· == plan)) .workLeaseLost
      return db.updateDetail claim.jobID fun _ =>
        .sequencePreview { detail with renderPlanDigest := some plan }
    | _ => throw .workLeaseLost
  | .sequenceExport _ => do
    let job ← db.verifySequenceExportAttempt claim now
    match job.detail with
    | .sequenceExport detail =>
      ensure (detail.renderPlanDigest.all (· == plan)) .workLeaseLost
      return db.updateDetail claim.jobID fun _ =>
        .sequenceExport { detail with renderPlanDigest := some plan }
    | _ => throw .workLeaseLost
  | _ => throw .workLeaseLost

/-- A new job: it waits, and nobody has asked to cancel it. -/
def enqueue (id : ID) (job : WorkJob) : Except WorkError WorkDatabase := do
  ensure ((db.jobs.find? id).isNone ∧ job.waiting ∧ ¬job.cancellationRequested) .constraint
  return { db with jobs := db.jobs.set id job }

end WorkDatabase

end OpenCut
