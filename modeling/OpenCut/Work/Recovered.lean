import OpenCut.Work.Reconcile

/-!
# What recovery changes

Reconciliation touches waiting jobs only: they wait on or fail (`Reconciles`). It leaves the
attempts and, but for the bindings of transcripts, what the jobs refer to.
-/

namespace OpenCut

open Outcome

namespace WorkJob

/-- What reconciliation may make of a job. -/
def Settles (job job' : WorkJob) : Prop :=
  job' = job ∨ (job.waiting ∧ (job'.waiting ∨ job'.state = .failed))

theorem Settles.refl (job : WorkJob) : job.Settles job := .inl rfl

variable {job : WorkJob}

theorem waiting_iff : job.waiting ↔ job.state = .blocked ∨ job.state = .queued := decide_eq_true_iff

variable {job' : WorkJob}

theorem Settles.trans {job'' : WorkJob} (h : job.Settles job') (h' : job'.Settles job'') :
    job.Settles job'' := by
  rcases h' with rfl | ⟨hwaiting', h'⟩
  · exact h
  · rcases h with rfl | ⟨hwaiting, -⟩
    · exact .inr ⟨hwaiting', h'⟩
    · exact .inr ⟨hwaiting, h'⟩

@[simp]
theorem waiting_requeue (job : WorkJob) : job.requeue.waiting := by
  rw [waiting_iff, requeue]
  dsimp only
  split
  · exact .inr rfl
  · exact .inl rfl

theorem Settles.of_waiting (h : job.waiting) (h' : job'.waiting) :
    job.Settles job' := .inr ⟨h, .inl h'⟩

theorem Settles.of_failed (h : job.waiting) (h' : job'.state = .failed) :
    job.Settles job' := .inr ⟨h, .inr h'⟩

end WorkJob

namespace WorkDatabase

open WorkJob

/-- Reconciliation: jobs settle, and what they refer to stays. -/
structure Reconciles (db db' : WorkDatabase) : Prop where
  jobs : ∀ id, Option.Rel Settles (db.jobs.find? id) (db'.jobs.find? id)
  attempts : db'.attempts = db.attempts
  assets : db'.assets = db.assets
  sourceGrants : db'.sourceGrants = db.sourceGrants
  mediaArtifacts : db'.mediaArtifacts = db.mediaArtifacts
  previewArtifacts : db'.previewArtifacts = db.previewArtifacts
  productResources : db'.productResources = db.productResources

namespace Reconciles

variable {db db' db'' : WorkDatabase}

theorem refl (db : WorkDatabase) : db.Reconciles db :=
  ⟨fun id => by cases db.jobs.find? id <;> constructor; exact Settles.refl _,
    rfl, rfl, rfl, rfl, rfl, rfl⟩

theorem trans (h : db.Reconciles db') (h' : db'.Reconciles db'') : db.Reconciles db'' := by
  refine ⟨fun id => ?_, h'.attempts.trans h.attempts, h'.assets.trans h.assets,
    h'.sourceGrants.trans h.sourceGrants, h'.mediaArtifacts.trans h.mediaArtifacts,
    h'.previewArtifacts.trans h.previewArtifacts, h'.productResources.trans h.productResources⟩
  have hbefore := h.jobs id
  have hafter := h'.jobs id
  generalize db.jobs.find? id = a at *
  generalize db'.jobs.find? id = b at *
  generalize db''.jobs.find? id = c at *
  cases hbefore with
  | none =>
    cases hafter
    constructor
  | some hsettles =>
    cases hafter with
    | some hsettles' => exact .some (hsettles.trans hsettles')

theorem updateJobs {f : ID → WorkJob → WorkJob} (hf : ∀ id job, Settles job (f id job)) :
    db.Reconciles (db.updateJobs f) := by
  refine ⟨fun id => ?_, rfl, rfl, rfl, rfl, rfl, rfl⟩
  rw [updateJobs_jobs]
  cases db.jobs.find? id with
  | none => exact .none
  | some job => exact .some (hf id job)

end Reconciles

/-! ## The steps of recovery -/

variable {resources : List ProductResourceRegistration} {db db' : WorkDatabase}
  {executors : List MediaExecutorRegistration}

theorem bindTranscripts_ok (h : db.reconcileTranscriptBindings executors resources = .ok db') :
    ∃ bindings, db' = { db with transcriptBindings := bindings } := by
  rw [reconcileTranscriptBindings] at h
  split at h
  · obtain ⟨bindings, -, h⟩ := bind_ok.1 h
    exact ⟨bindings, (pure_ok.1 h).symm⟩
  · exact ⟨db.transcriptBindings, (pure_ok.1 h).symm⟩

theorem reconcileMediaPrerequisites_reconciles
    (h : db.reconcileMediaPrerequisites executors resources = .ok db') : db.Reconciles db' := by
  simp only [reconcileMediaPrerequisites, steps_ok] at h
  obtain ⟨-, _, hbound, rfl⟩ := h
  obtain ⟨bindings, rfl⟩ := bindTranscripts_ok hbound
  have hbindings : db.Reconciles { db with transcriptBindings := bindings } :=
    ⟨(Reconciles.refl db).jobs, rfl, rfl, rfl, rfl, rfl, rfl⟩
  refine hbindings.trans (Reconciles.updateJobs fun id job => ?_)
  split
  · next hwaiting => exact .of_waiting hwaiting (waiting_requeue _)
  · exact .refl job

theorem failWaiting_reconciles (db : WorkDatabase) (condition : WorkJob → Bool) (code : String) :
    db.Reconciles (db.failWaiting condition code) := by
  refine Reconciles.updateJobs fun id job => ?_
  split
  · next h => exact .of_failed h.1 rfl
  · exact .refl job

theorem reconcileSequenceRenderJobs_reconciles (db : WorkDatabase) (kind : WorkJobKind)
    (usable : MediaArtifact → Bool) (version : Text) :
    db.Reconciles (db.reconcileSequenceRenderJobs kind usable version) := by
  refine (failWaiting_reconciles _ _ _).trans ((failWaiting_reconciles _ _ _).trans
    (Reconciles.updateJobs fun id job => ?_))
  split
  · split
    · next hwaiting => exact .of_waiting hwaiting (waiting_requeue _)
    · exact .refl job
  · exact .refl job

theorem bindPreview_settles {job : WorkJob} (h : job.waiting) (detail : SequenceFrameSetDetail)
    (id : ID) (artifact : SequencePreviewArtifact) :
    job.Settles (bindPreview job detail id artifact) := by
  rw [bindPreview]
  split
  · exact .of_failed h rfl
  · split
    · exact .of_failed h rfl
    · exact .of_waiting h h

theorem reconcileSequenceFrameJobs_reconciles (db : WorkDatabase) (version : Text) :
    db.Reconciles (db.reconcileSequenceFrameJobs version) := by
  refine (failWaiting_reconciles _ _ _).trans
    ((Reconciles.updateJobs fun id job => ?_).trans (Reconciles.updateJobs fun id job => ?_))
  · split
    · split
      · next h =>
        split
        · exact bindPreview_settles h.1 _ _ _
        · exact .refl job
      · exact .refl job
    · exact .refl job
  · split
    · split
      · next hwaiting => exact .of_waiting hwaiting (waiting_requeue _)
      · exact .refl job
    · exact .refl job

theorem reconcileProductResourceJobs_reconciles {version : Text}
    (h : db.reconcileProductResourceJobs version resources = .ok db') : db.Reconciles db' := by
  simp only [reconcileProductResourceJobs, steps_ok] at h
  obtain ⟨-, rfl⟩ := h
  refine Reconciles.updateJobs fun id job => ?_
  split
  · split
    · next hwaiting =>
      rw [reconcileResource]
      split
      · exact .of_waiting hwaiting (waiting_requeue _)
      · exact .of_failed hwaiting rfl
    · exact .refl job
  · exact .refl job

variable {now : Instant}

/-- What `RecoverWorkJobs` does: expired attempts are recovered, media jobs reconciled, and then
    the others. -/
theorem recoverWorkJobs_ok {executors : List WorkExecutorRegistration}
    (h : db.recoverWorkJobs executors resources now = .ok db') :
    ∃ media between, mediaExecutorRegistrations executors = .ok media ∧
      validateProductResourceRegistrations resources ∧ now ≠ zeroTime ∧
      (db.recoverExpiredWorkAttempts now).reconcileMediaPrerequisites media resources =
        .ok between ∧
      (((between.reconcileSequencePreviewJobs (executorVersion .sequencePreview executors)
        ).reconcileSequenceExportJobs (executorVersion .sequenceExport executors)
        ).reconcileSequenceFrameJobs (executorVersion .sequenceFrames executors)
        ).reconcileProductResourceJobs (executorVersion .resourceAcquire executors) resources =
        .ok db' := by
  simp only [recoverWorkJobs, steps_ok] at h
  obtain ⟨media, hmedia, ⟨hresources, hnow⟩, between, hbetween, h⟩ := h
  exact ⟨media, between, hmedia, hresources, hnow, hbetween, h⟩

theorem recoverWorkJobs_reconciles {executors : List WorkExecutorRegistration}
    (h : db.recoverWorkJobs executors resources now = .ok db') :
    (db.recoverExpiredWorkAttempts now).Reconciles db' := by
  obtain ⟨_, _, -, -, -, hbetween, hlast⟩ := recoverWorkJobs_ok h
  exact (reconcileMediaPrerequisites_reconciles hbetween).trans
    ((reconcileSequenceRenderJobs_reconciles _ _ _ _).trans
      ((reconcileSequenceRenderJobs_reconciles _ _ _ _).trans
        ((reconcileSequenceFrameJobs_reconciles _ _).trans
          (reconcileProductResourceJobs_reconciles hlast))))

end WorkDatabase

end OpenCut
