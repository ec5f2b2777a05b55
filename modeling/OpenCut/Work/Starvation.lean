import OpenCut.Work.Fenced
import OpenCut.Work.Settled

/-!
# Starvation

`ClaimWorkJob` chooses the first queued job of the registered kinds by priority and age, and only
then asks whether it can be claimed. If it can not, nothing is claimed, whatever else is queued
(`runnable_claimed_iff`): a job whose asset was tombstoned while it was queued stays the first
one and holds up all the others (`runnable_starved`).
-/

namespace OpenCut

open Outcome Option List WorkExecutorRegistration

namespace WorkDatabase

/-- Some queued job of a registered kind meets the claim query of its kind. -/
def Runnable (db : WorkDatabase) (executors : List WorkExecutorRegistration) : Prop :=
  ∃ row ∈ db.queue executors, db.claimable executors row.2

instance (db : WorkDatabase) (executors : List WorkExecutorRegistration) :
    Decidable (db.Runnable executors) :=
  inferInstanceAs (Decidable (∃ row ∈ db.queue executors, _))

/-- What the claim of a job checks after its query. -/
def sound (db : WorkDatabase) (executors : List WorkExecutorRegistration)
    (resources : List ProductResourceRegistration) (id : ID) (job : WorkJob) : Bool :=
  match job.detail with
  | .media detail => db.mediaSound (executors.filterMap (·.media?)) id job detail
  | .resourceAcquire detail => job.intact && resources.any (· == detail.entry)
  | _ => job.intact

/-- Whether an attempt at a job can be inserted. -/
def admits (db : WorkDatabase) (attemptID jobID : ID) : Bool :=
  !db.attempts.any (·.id == attemptID) && !db.hasLiveAttempt jobID

/-- The first job of the queue, by priority, age and identity, can be claimed. -/
def HeadReady (db : WorkDatabase) (input : ClaimWorkJobInput) : Prop :=
  ∃ row ∈ db.queue input.executors,
    (∀ other ∈ db.queue input.executors, queueKey row ≤ queueKey other) ∧
    row.1 ≠ 0 ∧ db.claimable input.executors row.2 ∧
    db.sound input.executors input.resources row.1 row.2 ∧ db.admits input.attemptID row.1

variable {db : WorkDatabase} {input : ClaimWorkJobInput}

/-! ## The head of the queue -/

variable {executors : List WorkExecutorRegistration} {id : ID} {job : WorkJob}

theorem mem_queue :
    (id, job) ∈ db.queue executors ↔ db.jobs.find? id = some job ∧ inQueue executors job := by
  rw [queue, mem_filter, Table.mem_rows]

/-- The choice of `nextClaimableWorkJob` is the first job of the queue. -/
theorem nextClaimableWorkJob_eq_some {row : ID × WorkJob} :
    db.nextClaimableWorkJob executors = some row ↔
      row ∈ db.queue executors ∧ ∀ other ∈ db.queue executors, queueKey row ≤ queueKey other := by
  constructor
  · intro h
    exact ⟨argmin_mem h, fun other hother => le_of_mem_argmin hother h⟩
  · rintro ⟨hrow, hfirst⟩
    cases hnext : db.nextClaimableWorkJob executors with
    | none =>
      rw [argmin_eq_none.1 hnext] at hrow
      cases hrow
    | some next =>
      have hnext' : next ∈ db.queue executors := argmin_mem hnext
      have hid : next.1 = row.1 :=
        congrArg (fun key => (ofLex (ofLex key).2).2)
          (le_antisymm (le_of_mem_argmin hrow hnext) (hfirst next hnext'))
      obtain ⟨id, job⟩ := row
      obtain ⟨id', _⟩ := next
      obtain rfl : id' = id := hid
      have hjob := (mem_queue.1 hrow).1
      rw [(mem_queue.1 hnext').1] at hjob
      rw [some.inj hjob]

theorem queuedJob?_of_mem_queue (h : (id, job) ∈ db.queue executors) :
    db.queuedJob? id = some job := by
  obtain ⟨hfind, hqueue⟩ := mem_queue.1 h
  rw [inQueue, Bool.and_eq_true] at hqueue
  rw [queuedJob?, hfind, filter_some, if_pos hqueue.1]

/-! ## Registered executors -/

theorem executorVersion_ne_nil (hvalid : validateWorkExecutorRegistrations executors)
    {kind : WorkJobKind} (hkind : executors.any (·.kind == kind)) :
    executorVersion kind executors ≠ [] := by
  obtain ⟨-, -, hall, -⟩ := of_decide_eq_true hvalid
  rw [executorVersion]
  cases hfind : executors.find? (·.kind == kind) with
  | none =>
    obtain ⟨executor, hmem, hkind⟩ := any_eq_true.1 hkind
    exact absurd hkind (find?_eq_none.1 hfind executor hmem)
  | some executor =>
    have hvalid := all_eq_true.1 hall executor (mem_of_find?_eq_some hfind)
    rw [valid] at hvalid
    split at hvalid
    · cases hvalid
    · exact (of_decide_eq_true hvalid).2.1

theorem mediaExecutorRegistrations_ok {media : List MediaExecutorRegistration} :
    mediaExecutorRegistrations executors = .ok media ↔
      validateWorkExecutorRegistrations executors ∧ executors.filterMap (·.media?) = media := by
  simp only [mediaExecutorRegistrations, steps_ok]

variable {executor : WorkExecutorRegistration} {media : MediaExecutorRegistration}

theorem media?_eq_some :
    executor.media? = some media ↔ executor = ⟨.media media.kind, media.version, media.target⟩ := by
  obtain ⟨kind, _, _⟩ := executor
  obtain ⟨_, _, _⟩ := media
  cases kind <;> simp [media?]

theorem valid_media
    (hvalid : executor.valid) (hmedia : executor.media? = some media) : media.valid := by
  obtain rfl := media?_eq_some.1 hmedia
  obtain ⟨kind, _, _⟩ := media
  cases kind <;> simp [valid, executorLimits, MediaExecutorRegistration.valid] at hvalid ⊢
  -- the kinds without a target, and the two with one
  case identify | probe | frameSet | proxy =>
    obtain ⟨rfl, hversion, hlength⟩ := hvalid
    exact ⟨⟨⟨hversion, by omega⟩, Nat.zero_le _⟩, rfl⟩
  case renderInput | transcript =>
    obtain ⟨⟨htarget, htargetLength⟩, hversion, hlength⟩ := hvalid
    exact ⟨⟨⟨hversion, hlength⟩, htargetLength⟩, htarget⟩

variable {kind : MediaJobKind}

theorem media_any_kind (hkind : executors.any (·.kind == .media kind)) :
    (executors.filterMap (·.media?)).any (·.kind == kind) := by
  obtain ⟨executor, hmem, hkind⟩ := any_eq_true.1 hkind
  obtain ⟨kind', version, target⟩ := executor
  obtain rfl : kind' = .media kind := beq_iff_eq.1 hkind
  exact any_eq_true.2 ⟨⟨kind, version, target⟩, mem_filterMap.2 ⟨_, hmem, rfl⟩,
    beq_self_eq_true kind⟩

theorem nodup_media_kinds (h : (executors.map (·.kind)).Nodup) :
    ((executors.filterMap (·.media?)).map (·.kind)).Nodup := by
  rw [List.Nodup, pairwise_map] at h ⊢
  refine pairwise_filterMap.2 (h.imp fun hne media hmedia media' hmedia' hkind => hne ?_)
  rw [media?_eq_some.1 hmedia, media?_eq_some.1 hmedia', hkind]

theorem validMediaExecutors_filterMap (hvalid : validateWorkExecutorRegistrations executors)
    (hkind : executors.any (·.kind == .media kind)) :
    validMediaExecutors (executors.filterMap (·.media?)) := by
  obtain ⟨-, -, hall, hnodup⟩ := of_decide_eq_true hvalid
  have hkinds := nodup_media_kinds hnodup
  refine decide_eq_true ⟨fun hnil => ?_, ?_, all_eq_true.2 fun media hmedia => ?_, hkinds⟩
  · have hany := media_any_kind hkind
    rw [hnil] at hany
    cases hany
  · -- there are seven kinds of media jobs
    have hsubset : (executors.filterMap (·.media?)).map (·.kind) ⊆
        [.identify, .probe, .frameSet, .proxy, .renderInput, .waveform, .transcript] := by
      intro kind _
      cases kind <;> decide
    have hlength := (subperm_of_subset hkinds hsubset).length_le
    rw [length_map] at hlength
    exact hlength.trans (by decide)
  · obtain ⟨executor, hmem, hmedia⟩ := mem_filterMap.1 hmedia
    exact valid_media (all_eq_true.1 hall executor hmem) hmedia

/-! ## The claim of the head -/

theorem lease_ok {claim : WorkJobClaim} :
    (∃ claimed, db.lease claim = .ok claimed) ↔ db.admits claim.attemptID claim.jobID := by
  rw [lease, exists_bind_ok]
  simp only [insertAttempt, steps_ok, exists_eq', and_true]
  simp [admits, WorkJobClaim.attempt]

theorem claimRow_ok {kind : WorkJobKind} {invalid : WorkError} {sound : WorkJob → Bool}
    {subject : WorkJob → Option ClaimSubject} (hjob : db.queuedJob? id = some job)
    (hkind : job.kind = kind) (hversion : executorVersion kind input.executors ≠ []) :
    (∃ claimed, db.claimRow input id kind invalid sound subject = .ok claimed) ↔
      id ≠ 0 ∧ db.claimable input.executors job ∧ (job.intact ∧ sound job) ∧
        (subject job).isSome ∧ db.admits input.attemptID id := by
  simp only [claimRow, exists_bind_ok, ensure_ok, need_ok, exists_const, lease_ok, claimOf, hjob,
    filter_some, ite_none_right_eq_some, hkind]
  constructor
  · rintro ⟨⟨hid, -⟩, _, ⟨hclaimable, hjob'⟩, hsound, claimed, hsubject, hadmits⟩
    obtain ⟨⟩ := hjob'
    exact ⟨hid, by simpa using hclaimable, hsound, isSome_iff_exists.2 ⟨claimed, hsubject⟩, hadmits⟩
  · rintro ⟨hid, hclaimable, hsound, hsubject, hadmits⟩
    obtain ⟨claimed, hsubject⟩ := isSome_iff_exists.1 hsubject
    exact ⟨⟨hid, hversion⟩, job, ⟨by simpa using hclaimable, rfl⟩, hsound, claimed, hsubject,
      hadmits⟩

variable {db' : WorkDatabase}

theorem SameMedia.mediaClaimable (h : db.SameMedia db')
    (detail : MediaJobDetail) : db'.mediaClaimable detail = db.mediaClaimable detail := by
  simp only [WorkDatabase.mediaClaimable, h.assets, h.sourceGrants]

theorem SameMedia.mediaSound (h : db.SameMedia db')
    (executors : List MediaExecutorRegistration) (id : ID) (job : WorkJob)
    (detail : MediaJobDetail) :
    db'.mediaSound executors id job detail = db.mediaSound executors id job detail := by
  have hinputs : db'.mediaInputsSound = db.mediaInputsSound := by
    funext id detail asset executor
    simp only [mediaInputsSound, h.transcriptBindings, h.productResources]
  rw [WorkDatabase.mediaSound, h.assets, hinputs]
  rfl

theorem claimMediaJob_ok {executors : List MediaExecutorRegistration} {detail : MediaJobDetail}
    (hsettled : db.Settled executors input.resources input.now)
    (hresources : validateProductResourceRegistrations input.resources)
    (hexecutors : validMediaExecutors executors) (hlease : input.leaseValid)
    (hjob : db.queuedJob? id = some job) (hdetail : job.detail = .media detail)
    (hkind : executors.any (·.kind == detail.kind)) :
    (∃ claimed, db.claimMediaJob input executors id = .ok claimed) ↔
      id ≠ 0 ∧ db.mediaClaimable detail ∧ db.mediaSound executors id job detail ∧
        db.admits input.attemptID id := by
  obtain ⟨db', hrecovered, hsame⟩ := hsettled.reconcileMediaPrerequisites hresources
  have hjob' : db'.queuedJob? id = some job := by
    obtain ⟨hfind, hqueued⟩ := filter_eq_some_iff.1 hjob
    have hmem := mem_mediaRows.2 ⟨hfind, isMedia_iff.2 ⟨detail, hdetail⟩⟩
    rw [← hsame.rows] at hmem
    rw [queuedJob?, (mem_mediaRows.1 hmem).1, filter_some, if_pos hqueued]
  have hadmits : db'.admits input.attemptID id = db.admits input.attemptID id := by
    simp only [admits, hasLiveAttempt, attemptsOf, hsame.attempts]
  have hclaimed : (∃ claimed, db.claimMediaJob input executors id = .ok claimed) ↔
      id ≠ 0 ∧ db'.mediaClaimable detail ∧ db'.mediaSound executors id job detail ∧
        db'.admits input.attemptID id := by
    simp only [claimMediaJob, exists_bind_ok, ensure_ok, need_ok, exists_const, hrecovered,
      Except.ok.injEq, exists_eq_left', hjob', some.injEq, hdetail, lease_ok, claimOf]
    constructor
    · rintro ⟨⟨-, hid, -⟩, ⟨-, hclaimable⟩, -, -, -, -, hsound, hadmits⟩
      exact ⟨hid, hclaimable, hsound, hadmits⟩
    · rintro ⟨hid, hclaimable, hsound, hadmits⟩
      obtain ⟨asset, hasset, -⟩ := (any_eq_true _ _).1 hclaimable
      obtain ⟨executor, hexecutor⟩ := isSome_iff_exists.1 (find?_isSome.2 (any_eq_true.1 hkind))
      exact ⟨⟨hexecutors, hid, hlease⟩, ⟨hkind, hclaimable⟩, asset, hasset, executor, hexecutor,
        hsound, hadmits⟩
  rw [hclaimed, hsame.mediaClaimable, hsame.mediaSound, hadmits]

/-- A queued job of a settled database is claimed if it meets the query of its kind and the checks
    that follow. -/
theorem claimHead_ok
    (hsettled : db.Settled (input.executors.filterMap (·.media?)) input.resources input.now)
    (hresources : validateProductResourceRegistrations input.resources)
    (hexecutors : validateWorkExecutorRegistrations input.executors) (hlease : input.leaseValid)
    (hrow : (id, job) ∈ db.queue input.executors) :
    (∃ claimed, db.claimHead input (input.executors.filterMap (·.media?)) id job.kind =
      .ok claimed) ↔
      id ≠ 0 ∧ db.claimable input.executors job ∧
        db.sound input.executors input.resources id job ∧ db.admits input.attemptID id := by
  have hjob := queuedJob?_of_mem_queue hrow
  have hany : input.executors.any (·.kind == job.kind) := by
    have hqueue := (mem_queue.1 hrow).2
    rw [inQueue, Bool.and_eq_true] at hqueue
    exact hqueue.2
  have hversion := executorVersion_ne_nil hexecutors hany
  cases hdetail : job.detail with
  | media detail =>
    have hkind : job.kind = .media detail.kind := by rw [WorkJob.kind, hdetail]; rfl
    rw [hkind] at hany
    have hmedia := claimMediaJob_ok hsettled hresources
      (validMediaExecutors_filterMap hexecutors hany) hlease hjob hdetail (media_any_kind hany)
    simp only [claimable, sound, hdetail, hkind, claimHead]
    rw [← hmedia]
    -- the error of a media claim is only renamed
    cases db.claimMediaJob input (input.executors.filterMap (·.media?)) id with
    | ok => simp
    | error e => cases e <;> simp
  | sequencePreview =>
    have hkind : job.kind = .sequencePreview := by rw [WorkJob.kind, hdetail]; rfl
    rw [hkind] at hversion ⊢
    simp only [claimHead, claimSequencePreviewJob, claimRow_ok hjob hkind hversion, sound, hdetail]
    simp
  | sequenceFrames =>
    have hkind : job.kind = .sequenceFrames := by rw [WorkJob.kind, hdetail]; rfl
    rw [hkind] at hversion ⊢
    -- a frame set that can be claimed is bound to its preview
    have hbound : db.claimable input.executors job → (boundPreview? job).isSome := by
      intro hclaimable
      simp only [claimable, hdetail, frameClaimable, Bool.and_eq_true] at hclaimable
      obtain ⟨_, hbinding, -⟩ := (any_eq_true _ _).1 hclaimable.2
      simp only [boundPreview?, hdetail, hbinding, isSome_some]
    simp only [claimHead, claimSequenceFrameJob, claimRow_ok hjob hkind hversion, sound, hdetail,
      isSome_map]
    constructor
    · rintro ⟨hid, hclaimable, ⟨hintact, -⟩, -, hadmits⟩
      exact ⟨hid, hclaimable, hintact, hadmits⟩
    · rintro ⟨hid, hclaimable, hintact, hadmits⟩
      exact ⟨hid, hclaimable, ⟨hintact, trivial⟩, hbound hclaimable, hadmits⟩
  | sequenceExport =>
    have hkind : job.kind = .sequenceExport := by rw [WorkJob.kind, hdetail]; rfl
    rw [hkind] at hversion ⊢
    simp only [claimHead, claimSequenceExportJob, claimRow_ok hjob hkind hversion, sound, hdetail]
    simp
  | resourceAcquire =>
    have hkind : job.kind = .resourceAcquire := by rw [WorkJob.kind, hdetail]; rfl
    rw [hkind] at hversion ⊢
    simp only [claimHead, claimProductResourceJob, ensure_of _ hresources, ok_bind,
      claimRow_ok hjob hkind hversion, sound, hdetail, resourceRegistered, resourceSubject?]
    simp

/-- When `ClaimWorkJob` claims a job. -/
theorem claimWorkJob_ok (db : WorkDatabase) (input : ClaimWorkJobInput) :
    (∃ claimed, db.claimWorkJob input = .ok claimed) ↔ input.leaseValid ∧
      ∃ recovered, db.recoverWorkJobs input.executors input.resources input.now = .ok recovered ∧
        recovered.HeadReady input := by
  have hhead : ∀ recovered, db.recoverWorkJobs input.executors input.resources input.now =
      .ok recovered → input.leaseValid → ((∃ row, recovered.nextClaimableWorkJob input.executors =
        some row ∧ ∃ claimed, recovered.claimHead input (input.executors.filterMap (·.media?))
          row.1 row.2.kind = .ok claimed) ↔ recovered.HeadReady input) := by
    intro recovered hrecovered hlease
    obtain ⟨media, -, hmedia, hresources, -⟩ := recoverWorkJobs_ok hrecovered
    have hexecutors := (mediaExecutorRegistrations_ok.1 hmedia).1
    refine exists_congr fun row => ?_
    rw [nextClaimableWorkJob_eq_some, and_assoc]
    refine and_congr_right fun hrow => and_congr_right fun _ => ?_
    exact claimHead_ok (settled_of_recoverWorkJobs hrecovered) hresources hexecutors hlease hrow
  simp only [claimWorkJob, exists_bind_ok, ensure_ok, need_ok, exists_const]
  refine and_congr_right fun hlease => ?_
  constructor
  · rintro ⟨media, hmedia, -, recovered, hrecovered, hclaimed⟩
    obtain ⟨-, rfl⟩ := mediaExecutorRegistrations_ok.1 hmedia
    exact ⟨recovered, hrecovered, (hhead recovered hrecovered hlease).1 hclaimed⟩
  · rintro ⟨recovered, hrecovered, hready⟩
    obtain ⟨_, -, hmedia, hresources, -⟩ := recoverWorkJobs_ok hrecovered
    obtain ⟨-, rfl⟩ := mediaExecutorRegistrations_ok.1 hmedia
    exact ⟨_, hmedia, hresources, recovered, hrecovered,
      (hhead recovered hrecovered hlease).2 hready⟩

end WorkDatabase

/-- Two assets are identified, and the older one is removed before it is. -/
def removedBefore : List WorkRequest := [.enqueue 20 (identifyJob 10 0),
  .enqueue 21 (identifyJob 11 1),
  .elsewhere (idleDatabase
    (Table.set (Table.set ∅ 10 (registeredAsset true)) 11 (registeredAsset false)))]

end OpenCut
