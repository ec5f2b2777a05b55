import OpenCut.Work.Recovered

/-!
# A second recovery

`ClaimMediaJob` recovers and reconciles a database that `ClaimWorkJob` has recovered in a
transaction before. For the media jobs the first pass has left nothing to do (`Settled`), so at
the same instant the second one leaves all that the claim of a media job reads
(`Settled.reconcileMediaPrerequisites`).
-/

namespace OpenCut

open Outcome List

namespace WorkDatabase

/-! ## What media jobs are claimed by -/

variable {job : WorkJob} {id : ID} {f : ID → WorkJob → WorkJob}

/-- The rows of the media jobs. -/
def mediaRows (db : WorkDatabase) : List (ID × WorkJob) := db.jobs.rows.filter (isMedia ·.2)

/-- The databases agree in the media jobs, the attempts and what media jobs refer to. -/
structure SameMedia (db db' : WorkDatabase) : Prop where
  rows : db'.mediaRows = db.mediaRows
  attempts : db'.attempts = db.attempts
  assets : db'.assets = db.assets
  sourceGrants : db'.sourceGrants = db.sourceGrants
  transcriptBindings : db'.transcriptBindings = db.transcriptBindings
  productResources : db'.productResources = db.productResources

variable {db db' db'' : WorkDatabase}

theorem SameMedia.trans (h : db.SameMedia db') (h' : db'.SameMedia db'') : db.SameMedia db'' :=
  ⟨h'.rows.trans h.rows, h'.attempts.trans h.attempts, h'.assets.trans h.assets,
    h'.sourceGrants.trans h.sourceGrants, h'.transcriptBindings.trans h.transcriptBindings,
    h'.productResources.trans h.productResources⟩

theorem isMedia_iff : isMedia job ↔ ∃ detail, job.detail = .media detail := by
  rw [isMedia]
  cases job.detail <;> simp

theorem mem_mediaRows : (id, job) ∈ db.mediaRows ↔ db.jobs.find? id = some job ∧ isMedia job := by
  rw [mediaRows, mem_filter, Table.mem_rows]

theorem mediaJobs_eq (db : WorkDatabase) (kind : MediaJobKind) (assetID : ID) :
    db.mediaJobs kind assetID = db.mediaRows.filterMap fun row =>
      match row.2.detail with
      | .media detail => if detail.kind = kind ∧ detail.assetID = assetID then some row.1 else none
      | _ => none := by
  rw [mediaRows, filterMap_filter, mediaJobs]
  refine filterMap_congr fun row _ => ?_
  cases hdetail : row.2.detail <;> simp [isMedia, hdetail]

theorem rows_updateJobs (db : WorkDatabase) (f : ID → WorkJob → WorkJob) :
    (db.updateJobs f).jobs.rows = db.jobs.rows.map fun row => (row.1, f row.1 row.2) := by
  simp [updateJobs, Table.rows, Table.mapRows, Function.comp_def, Sigma.map]

/-- Jobs that keep their details keep the jobs of each kind on each asset. -/
theorem mediaJobs_updateJobs (hf : ∀ id job, (f id job).detail = job.detail) (kind : MediaJobKind)
    (assetID : ID) :
    (db.updateJobs f).mediaJobs kind assetID = db.mediaJobs kind assetID := by
  rw [mediaJobs, rows_updateJobs, filterMap_map, mediaJobs]
  refine filterMap_congr fun row _ => ?_
  simp only [Function.comp_apply, hf]

/-- An update that leaves the media jobs. -/
theorem SameMedia.updateJobs (hmedia : ∀ row ∈ db.mediaRows, f row.1 row.2 = row.2)
    (hkind : ∀ id job, isMedia (f id job) = isMedia job) : db.SameMedia (db.updateJobs f) := by
  refine ⟨?_, rfl, rfl, rfl, rfl, rfl⟩
  rw [mediaRows, rows_updateJobs, filter_map]
  simp only [Function.comp_def, hkind]
  refine (map_congr_left fun row hrow => ?_).trans (map_id _)
  rw [hmedia row hrow]
  rfl

/-- By what the prerequisites of media jobs are computed. -/
theorem withMediaPrerequisites_congr
    (hjobs : ∀ kind assetID, db'.mediaJobs kind assetID = db.mediaJobs kind assetID)
    (hassets : db'.assets = db.assets) (hgrants : db'.sourceGrants = db.sourceGrants)
    (hbindings : db'.transcriptBindings = db.transcriptBindings)
    (hresources : db'.productResources = db.productResources)
    (executors : List MediaExecutorRegistration) (resources : List ProductResourceRegistration)
    (id : ID) (job : WorkJob) :
    db'.withMediaPrerequisites executors resources id job =
      db.withMediaPrerequisites executors resources id job := by
  have hmodel : db'.modelRequired resources id = db.modelRequired resources id := by
    funext asset
    simp only [modelRequired, hgrants, hbindings, hresources]
  have hprerequisites : db'.mediaPrerequisites executors resources id =
      db.mediaPrerequisites executors resources id := by
    funext detail
    rw [mediaPrerequisites, fingerprintPrerequisites, factsPrerequisites, modelPrerequisites,
      executorMissing, hassets, hjobs, hjobs, hmodel, hbindings]
    rfl
  rw [withMediaPrerequisites, withMediaPrerequisites, hprerequisites]

theorem SameMedia.withMediaPrerequisites (h : db.SameMedia db')
    (executors : List MediaExecutorRegistration) (resources : List ProductResourceRegistration)
    (id : ID) (job : WorkJob) :
    db'.withMediaPrerequisites executors resources id job =
      db.withMediaPrerequisites executors resources id job :=
  withMediaPrerequisites_congr (fun kind assetID => by rw [mediaJobs_eq, mediaJobs_eq, h.rows])
    h.assets h.sourceGrants h.transcriptBindings h.productResources executors resources id job

/-! ## Nothing left to do -/

/-- What recovery at `now` and reconciliation have left of the media jobs. -/
structure Settled (db : WorkDatabase) (executors : List MediaExecutorRegistration)
    (resources : List ProductResourceRegistration) (now : Instant) : Prop where
  unexpired : ∀ attempt ∈ db.attempts, attempt.live → now < attempt.leaseExpiresAt
  busy : ∀ row ∈ db.mediaRows, row.2.state = .running → db.hasLiveAttempt row.1
  bound : ∀ executor registration, executors.find? (·.kind == .transcript) = some executor →
    transcriptModel? resources = some registration → ∀ row ∈ db.mediaRows, ∀ asset,
      db.unboundTranscript? row.1 row.2 = some asset →
        db.newTranscriptBinding executor registration asset = .ok none
  queued : ∀ row ∈ db.mediaRows, row.2.waiting →
    (db.withMediaPrerequisites executors resources row.1 row.2).requeue = row.2

variable {executors : List MediaExecutorRegistration}
  {resources : List ProductResourceRegistration} {now : Instant}

theorem Settled.of_same (h : db.Settled executors resources now) (hsame : db.SameMedia db') :
    db'.Settled executors resources now := by
  have hunbound : db'.unboundTranscript? = db.unboundTranscript? := by
    funext id job
    simp only [unboundTranscript?, hsame.transcriptBindings, hsame.assets]
  have hbinding : db'.newTranscriptBinding = db.newTranscriptBinding := by
    funext executor registration asset
    simp only [newTranscriptBinding, readyResource?, hsame.sourceGrants, hsame.productResources]
  refine ⟨?_, ?_, ?_, ?_⟩
  · rw [hsame.attempts]
    exact h.unexpired
  · rw [hsame.rows]
    simp only [hasLiveAttempt, attemptsOf, hsame.attempts]
    exact h.busy
  · rw [hsame.rows, hunbound, hbinding]
    exact h.bound
  · rw [hsame.rows]
    simp only [hsame.withMediaPrerequisites]
    exact h.queued

/-! ## After one pass -/

theorem recoverExpiredWorkAttempts_unexpired (db : WorkDatabase) (now : Instant) :
    ∀ attempt ∈ (db.recoverExpiredWorkAttempts now).attempts,
      attempt.live → now < attempt.leaseExpiresAt := by
  intro attempt hattempt hlive
  obtain ⟨_, -, rfl⟩ := mem_map.1 hattempt
  split at hlive
  · cases hlive
  · next h =>
    rw [if_neg h]
    exact not_le.1 fun hle => h ⟨hlive, hle⟩

theorem requeued_state_ne_running (db : WorkDatabase) (id : ID) (job : WorkJob) :
    (db.requeued id job).state ≠ .running := by
  rw [requeued]
  split
  · exact WorkJobState.noConfusion
  · split <;> exact WorkJobState.noConfusion

theorem recoverExpiredWorkAttempts_busy
    (hjob : (db.recoverExpiredWorkAttempts now).jobs.find? id = some job)
    (hrunning : job.state = .running) :
    (db.recoverExpiredWorkAttempts now).hasLiveAttempt id := by
  rw [recoverExpiredWorkAttempts, updateJobs_jobs, Option.map_eq_some_iff] at hjob
  obtain ⟨before, -, rfl⟩ := hjob
  split at hrunning
  · exact absurd hrunning (requeued_state_ne_running _ id before)
  · next h =>
    by_contra hlive
    exact h ⟨hrunning, hlive⟩

theorem unboundTranscript?_eq_some {asset : WorkAsset} :
    db.unboundTranscript? id job = some asset ↔ ∃ detail, job.detail = .media detail ∧
      detail.kind = .transcript ∧ job.waiting ∧ db.transcriptBindings.find? id = none ∧
      db.assets.find? detail.assetID = some asset := by
  rw [unboundTranscript?]
  cases hdetail : job.detail with
  | media => simp [and_assoc]
  | _ => simp

/-- What the loop of `reconcileTranscriptBindings` leaves unbound had no binding to be given. -/
theorem bindTranscripts_unbound {executor : MediaExecutorRegistration}
    {registration : ProductResourceRegistration} {rows : List (ID × WorkJob)}
    {bindings bindings' : Table ID TranscriptBinding}
    (h : rows.foldlM (db.bindTranscript executor registration) bindings = .ok bindings') :
    (∀ id, bindings'.find? id = none → bindings.find? id = none) ∧
    ∀ row ∈ rows, ∀ asset, db.unboundTranscript? row.1 row.2 = some asset →
      bindings'.find? row.1 = none → db.newTranscriptBinding executor registration asset =
        .ok none := by
  induction rows generalizing bindings with
  | nil =>
    obtain rfl := pure_ok.1 h
    exact ⟨fun _ => id, by simp⟩
  | cons row rows ih =>
    obtain ⟨between, hrow, h⟩ := bind_ok.1 h
    obtain ⟨hkeep, hrest⟩ := ih h
    -- the row itself: it keeps its bindings, or it is bound
    have hhere : (∀ id, between.find? id = none → bindings.find? id = none) ∧
        ∀ asset, db.unboundTranscript? row.1 row.2 = some asset → between.find? row.1 = none →
          db.newTranscriptBinding executor registration asset = .ok none := by
      rw [bindTranscript] at hrow
      split at hrow
      · next hnone =>
        obtain rfl := pure_ok.1 hrow
        exact ⟨fun _ => id, fun asset hasset => by rw [hnone] at hasset; cases hasset⟩
      · next asset hasset =>
        obtain ⟨_, hbinding, hrow⟩ := bind_ok.1 hrow
        split at hrow
        · obtain rfl := pure_ok.1 hrow
          refine ⟨fun _ => id, fun asset' hasset' _ => ?_⟩
          obtain rfl := Option.mem_unique hasset hasset'
          exact hbinding
        · obtain rfl := pure_ok.1 hrow
          refine ⟨fun id hid => ?_, fun asset' _ hunbound => ?_⟩
          · rw [Table.find?_set] at hid
            split at hid
            · cases hid
            · exact hid
          · rw [Table.find?_set_self] at hunbound
            cases hunbound
    refine ⟨fun id hid => hhere.1 id (hkeep id hid), fun row' hmem asset hasset hunbound => ?_⟩
    rcases mem_cons.1 hmem with rfl | hmem
    · exact hhere.2 asset hasset (hkeep _ hunbound)
    · exact hrest row' hmem asset hasset hunbound

theorem requeue_detail (job : WorkJob) : job.requeue.detail = job.detail := rfl

theorem withMediaPrerequisites_detail (id : ID) (job : WorkJob) :
    (db.withMediaPrerequisites executors resources id job).detail = job.detail := by
  rw [withMediaPrerequisites]
  split <;> rfl

/-- After one pass the media jobs are settled. -/
theorem settled_of_reconcile
    (h : (db.recoverExpiredWorkAttempts now).reconcileMediaPrerequisites executors resources =
      .ok db') : db'.Settled executors resources now := by
  have hunexpired := recoverExpiredWorkAttempts_unexpired db now
  have hbusy : ∀ id job, (db.recoverExpiredWorkAttempts now).jobs.find? id = some job →
      job.state = .running → (db.recoverExpiredWorkAttempts now).hasLiveAttempt id :=
    fun id job => recoverExpiredWorkAttempts_busy
  generalize db.recoverExpiredWorkAttempts now = db at h hunexpired hbusy
  simp only [reconcileMediaPrerequisites, steps_ok] at h
  obtain ⟨-, _, hbound, rfl⟩ := h
  obtain ⟨bindings, rfl⟩ := bindTranscripts_ok hbound
  have hdetail : ∀ id (job : WorkJob), (if job.waiting then
      (withMediaPrerequisites { db with transcriptBindings := bindings } executors resources id
        job).requeue else job).detail = job.detail := by
    intro id job
    split
    · exact withMediaPrerequisites_detail id job
    · rfl
  have hwaiting : ∀ {id} {job : WorkJob}, (if job.waiting then
      (withMediaPrerequisites { db with transcriptBindings := bindings } executors resources id
        job).requeue else job).waiting → job.waiting := by
    intro id job hwaits
    split at hwaits
    · assumption
    · exact hwaits
  refine ⟨hunexpired, fun row hrow hrunning => ?_, fun executor registration he hr row hrow asset
    hasset => ?_, fun row hrow hwaits => ?_⟩
  all_goals
    obtain ⟨id, _⟩ := row
    obtain ⟨hfind, -⟩ := mem_mediaRows.1 hrow
    rw [updateJobs_jobs, Option.map_eq_some_iff] at hfind
    obtain ⟨job, hjob, rfl⟩ := hfind
  · -- a job that runs was not touched
    split at hrunning
    · have := WorkJob.waiting_requeue (withMediaPrerequisites
        { db with transcriptBindings := bindings } executors resources id job)
      rw [WorkJob.waiting_iff, hrunning] at this
      rcases this with h | h <;> cases h
    · exact hbusy id job hjob hrunning
  · -- an unbound transcript was looked at, and there was nothing to bind it to
    obtain ⟨detail, hmedia, hkind, hwaits, hunbound, hfound⟩ := unboundTranscript?_eq_some.1 hasset
    rw [hdetail] at hmedia
    simp only [reconcileTranscriptBindings, he, hr, steps_ok] at hbound
    obtain ⟨bindings', hfold, heq⟩ := hbound
    obtain rfl : bindings' = bindings := congrArg transcriptBindings heq
    obtain ⟨hkeep, hrows⟩ := bindTranscripts_unbound hfold
    exact hrows (id, job) (Table.mem_rows.2 hjob) asset (unboundTranscript?_eq_some.2
      ⟨detail, hmedia, hkind, hwaiting hwaits, hkeep id hunbound, hfound⟩) hunbound
  · -- the prerequisites of a waiting job have just been computed
    rw [withMediaPrerequisites_congr (mediaJobs_updateJobs hdetail) rfl rfl rfl rfl,
      if_pos (hwaiting hwaits)]
    obtain ⟨detail, _⟩ := job
    cases detail <;> rfl

/-! ## The other steps of recovery -/

/-- An update that is not about media jobs. -/
def SparesMedia (f : ID → WorkJob → WorkJob) : Prop :=
  ∀ id job, isMedia (f id job) = isMedia job ∧ (isMedia job → f id job = job)

theorem SparesMedia.same (h : SparesMedia f) : db.SameMedia (db.updateJobs f) :=
  .updateJobs (fun row hrow => (h row.1 row.2).2 (List.mem_filter.1 hrow).2) fun id job =>
    (h id job).1

/-- Updates of the jobs with one other kind of details. -/
theorem SparesMedia.of_detail
    (hmedia : ∀ id job detail, job.detail = .media detail → f id job = job)
    (hother : ∀ id job, isMedia job = false → isMedia (f id job) = false) : SparesMedia f := by
  intro id job
  cases h : isMedia job with
  | true =>
    obtain ⟨detail, hdetail⟩ := isMedia_iff.1 h
    exact ⟨by rw [hmedia id job detail hdetail, h], fun _ => hmedia id job detail hdetail⟩
  | false => exact ⟨hother id job h, fun h' => by cases h'⟩

theorem failWaiting_same {condition : WorkJob → Bool}
    (hcondition : ∀ job detail, job.detail = .media detail → condition job = false)
    (code : String) : db.SameMedia (db.failWaiting condition code) := by
  refine SparesMedia.same (.of_detail (fun id job detail hdetail => ?_) fun id job hother => ?_)
  · rw [if_neg fun h => ?_]
    rw [hcondition job detail hdetail] at h
    exact Bool.false_ne_true h.2
  · split
    · exact hother
    · exact hother

theorem renderDetail?_media {kind : WorkJobKind} {detail : MediaJobDetail}
    (h : job.detail = .media detail) : renderDetail? kind job = none := by
  rw [renderDetail?, h]

theorem reconcileSequenceRenderJobs_same (db : WorkDatabase) (kind : WorkJobKind)
    (usable : MediaArtifact → Bool) (version : Text) :
    db.SameMedia (db.reconcileSequenceRenderJobs kind usable version) := by
  refine (failWaiting_same (fun job detail h => by rw [renderDetail?_media h]; rfl) _).trans
    ((failWaiting_same (fun job detail h => by rw [renderDetail?_media h]; rfl) _).trans
      (SparesMedia.same (.of_detail (fun id job detail h => ?_) fun id job hother => ?_)))
  · rw [renderDetail?_media h]
  · split
    · split
      · exact hother
      · exact hother
    · exact hother

theorem isMedia_bindPreview (h : isMedia job = false) (detail : SequenceFrameSetDetail) (id : ID)
    (artifact : SequencePreviewArtifact) :
    isMedia (bindPreview job detail id artifact) = false := by
  rw [bindPreview]
  split
  · exact h
  · split
    · exact h
    · rfl

theorem reconcileSequenceFrameJobs_same (db : WorkDatabase) (version : Text) :
    db.SameMedia (db.reconcileSequenceFrameJobs version) := by
  refine (failWaiting_same (fun job detail h => by rw [previewFailed, h]) _).trans
    ((SparesMedia.same (.of_detail (fun id job detail h => ?_) fun id job hother => ?_)).trans
      (SparesMedia.same (.of_detail (fun id job detail h => ?_) fun id job hother => ?_)))
  · rw [h]
  · split
    · split
      · split
        · exact isMedia_bindPreview hother _ _ _
        · exact hother
      · exact hother
    · exact hother
  · rw [h]
  · split
    · split
      · exact hother
      · exact hother
    · exact hother

theorem reconcileProductResourceJobs_same {version : Text}
    (h : db.reconcileProductResourceJobs version resources = .ok db') : db.SameMedia db' := by
  simp only [reconcileProductResourceJobs, steps_ok] at h
  obtain ⟨-, rfl⟩ := h
  refine SparesMedia.same (.of_detail (fun id job detail h => by rw [h]) fun id job hother => ?_)
  split
  · split
    · rw [reconcileResource]
      split
      · exact hother
      · exact hother
    · exact hother
  · exact hother

/-- After `RecoverWorkJobs` the media jobs are settled. -/
theorem settled_of_recoverWorkJobs {executors : List WorkExecutorRegistration}
    (h : db.recoverWorkJobs executors resources now = .ok db') :
    db'.Settled (executors.filterMap (·.media?)) resources now := by
  obtain ⟨_, _, hmedia, -, -, hbetween, hlast⟩ := recoverWorkJobs_ok h
  simp only [mediaExecutorRegistrations, steps_ok] at hmedia
  obtain ⟨-, rfl⟩ := hmedia
  exact (settled_of_reconcile hbetween).of_same ((reconcileSequenceRenderJobs_same _ _ _ _).trans
    ((reconcileSequenceRenderJobs_same _ _ _ _).trans ((reconcileSequenceFrameJobs_same _ _).trans
      (reconcileProductResourceJobs_same hlast))))

/-! ## The second pass -/

section

variable (h : db.Settled executors resources now)
include h

theorem Settled.recoverExpiredWorkAttempts_same :
    db.SameMedia (db.recoverExpiredWorkAttempts now) := by
  have hattempts : db.abandonExpired now = db := by
    rw [abandonExpired, updateAttempts]
    have hmap : (db.attempts.map fun attempt =>
        if attempt.live ∧ attempt.leaseExpiresAt ≤ now then { attempt with state := .abandoned }
        else attempt) = db.attempts := by
      refine (map_congr_left fun attempt hattempt => ?_).trans (map_id _)
      exact if_neg fun hexpired =>
        absurd (h.unexpired attempt hattempt hexpired.1) (not_lt.2 hexpired.2)
    rw [hmap]
  rw [recoverExpiredWorkAttempts, hattempts]
  refine .updateJobs (fun row hrow => ?_) fun id job => ?_
  · rw [if_neg fun hidle => hidle.2 (h.busy row hrow hidle.1)]
  · split
    · rw [requeued]
      split
      · rfl
      · split <;> rfl
    · rfl

theorem Settled.reconcileTranscriptBindings :
    db.reconcileTranscriptBindings executors resources = .ok db := by
  rw [WorkDatabase.reconcileTranscriptBindings]
  split
  · next executor registration he hr =>
    rw [foldlM_fixed fun row hrow => ?_]
    · rfl
    · rw [bindTranscript]
      split
      · rfl
      · next asset hasset =>
        obtain ⟨detail, hdetail, -⟩ := unboundTranscript?_eq_some.1 hasset
        rw [h.bound executor registration he hr row
          (mem_filter.2 ⟨hrow, isMedia_iff.2 ⟨detail, hdetail⟩⟩) asset hasset]
        rfl
  · rfl

/-- Another pass at the same instant finds the media jobs as they are and leaves them so. -/
theorem Settled.reconcileMediaPrerequisites
    (hresources : validateProductResourceRegistrations resources) :
    ∃ db', (db.recoverExpiredWorkAttempts now).reconcileMediaPrerequisites executors resources =
      .ok db' ∧ db.SameMedia db' := by
  have hsame := h.recoverExpiredWorkAttempts_same
  have hsettled := h.of_same hsame
  refine ⟨_, by rw [WorkDatabase.reconcileMediaPrerequisites, ensure_of _ hresources,
    hsettled.reconcileTranscriptBindings]; rfl, hsame.trans (.updateJobs (fun row hrow => ?_)
      fun id job => ?_)⟩
  · split
    · next hwaiting => exact hsettled.queued row hrow hwaiting
    · rfl
  · split
    · rw [isMedia, requeue_detail, withMediaPrerequisites_detail, isMedia]
    · rfl

end

end WorkDatabase

end OpenCut
