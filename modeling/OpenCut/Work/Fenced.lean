import OpenCut.Work.Leases

/-!
# Results come from the latest attempt, once

The moves of all transactions (`serve_moves`) and what follows for whole runs
(`work_leases_fenced`).
-/

namespace OpenCut

open Outcome Fencing Option

namespace WorkDatabase

variable {db db' : WorkDatabase} {claim : WorkJobClaim} {now : Instant}

/-! ## Claims -/

/-- The attempt of a claim is added to a queued job, with the next generation. -/
def Leases (db : WorkDatabase) (claim : WorkJobClaim) (db' : WorkDatabase) : Prop :=
  ∃ job, db.queuedJob? claim.jobID = some job ∧
    claim.generation = db.maxGeneration claim.jobID + 1 ∧ db.lease claim = .ok (claim, db')

variable {id : ID} {job : WorkJob}

theorem queuedJob?_eq_some (h : db.queuedJob? id = some job) :
    db.jobs.find? id = some job ∧ job.state = .queued ∧ ¬job.cancellationRequested := by
  rw [queuedJob?, filter_eq_some_iff] at h
  simpa using h

theorem Leases.moves (h : db.Leases claim db') (hfenced : db.AllFenced) (id : ID) :
    Moves (db.record id) (db'.record id) := by
  obtain ⟨job, hjob, hgeneration, hlease⟩ := h
  obtain ⟨hfind, hqueued, hcancel⟩ := queuedJob?_eq_some hjob
  simp only [lease, insertAttempt, steps_ok] at hlease
  obtain ⟨_, ⟨-, rfl⟩, hdb⟩ := hlease
  obtain ⟨-, rfl⟩ := Prod.mk.inj hdb
  rw [record, record, phase_updateJobs]
  show Moves ⟨db.phase id, _⟩ ⟨(db.jobs.find? id).elim _ _,
    (db.attempts ++ [WorkJobClaim.attempt claim]).filter (·.jobID == id)⟩
  rw [List.filter_append]
  by_cases hid : id = claim.jobID
  · subst hid
    rw [phase_of_find hfind, hfind, elim_some,
      if_pos ⟨rfl, hqueued, by simpa using hcancel⟩, hqueued]
    have hnew : [WorkJobClaim.attempt claim].filter (·.jobID == claim.jobID) =
        [WorkJobClaim.attempt claim] := by simp [WorkJobClaim.attempt]
    rw [hnew]
    refine .single (.take ?_)
    show claim.generation = (db.attemptsOf claim.jobID).length + 1
    rw [hgeneration, maxGeneration]
    exact congrArg (· + 1) (hfenced claim.jobID).foldr_max
  · have hnone : [WorkJobClaim.attempt claim].filter (·.jobID == id) = [] := by
      simp [WorkJobClaim.attempt, Ne.symm hid]
    rw [hnone, List.append_nil, phase]
    have hphase : (db.jobs.find? id).elim .waiting (fun job => phaseOf
        (if id = claim.jobID ∧ job.state = .queued ∧ ¬job.cancellationRequested then
          { job with state := .running } else job).state) =
        (db.jobs.find? id).elim .waiting fun job => phaseOf job.state := by
      simp only [hid, false_and, if_false]
    rw [hphase]
    exact .refl

variable {input : ClaimWorkJobInput} {kind : WorkJobKind}

theorem claimRow_leases
    {invalid : WorkError} {sound : WorkJob → Bool} {subject : WorkJob → Option ClaimSubject}
    (h : db.claimRow input id kind invalid sound subject = .ok (claim, db')) :
    db.Leases claim db' := by
  simp only [claimRow, steps_ok, filter_eq_some_iff] at h
  obtain ⟨-, job, ⟨hjob, -⟩, -, pinned, -, hlease⟩ := h
  obtain rfl : db.claimOf input id job _ [] pinned = claim := by
    simp only [lease, steps_ok, Prod.mk.injEq] at hlease
    obtain ⟨-, -, hclaim, -⟩ := hlease
    exact hclaim
  exact ⟨job, hjob, rfl, hlease⟩

theorem claimMediaJob_leases {executors : List MediaExecutorRegistration}
    (h : db.claimMediaJob input executors id = .ok (claim, db')) :
    ∃ mid : WorkDatabase, (∀ id, Moves (db.record id) (mid.record id)) ∧ mid.Leases claim db' := by
  simp only [claimMediaJob, steps_ok] at h
  obtain ⟨-, mid, hmid, job, hjob, h⟩ := h
  refine ⟨mid, fun id => (recoverExpiredWorkAttempts_moves db input.now id).trans
    ((reconcileMediaPrerequisites_reconciles hmid).drifts.moves id), ?_⟩
  split at h
  · next detail _ =>
    simp only [steps_ok] at h
    obtain ⟨-, _, -, executor, -, -, hlease⟩ := h
    obtain rfl : mid.claimOf input id job executor.version executor.target _ = claim := by
      simp only [lease, steps_ok, Prod.mk.injEq] at hlease
      obtain ⟨-, -, hclaim, -⟩ := hlease
      exact hclaim
    exact ⟨job, hjob, rfl, hlease⟩
  · cases h

theorem claimHead_leases {media : List MediaExecutorRegistration}
    (h : db.claimHead input media id kind = .ok (claim, db')) :
    ∃ mid : WorkDatabase, (∀ id, Moves (db.record id) (mid.record id)) ∧ mid.Leases claim db' := by
  have hhere : db.Leases claim db' →
      ∃ mid : WorkDatabase, (∀ id, Moves (db.record id) (mid.record id)) ∧ mid.Leases claim db' :=
    fun hleases => ⟨db, fun _ => .refl, hleases⟩
  cases kind with
  | media kind =>
    simp only [claimHead] at h
    split at h
    · cases h
    · exact claimMediaJob_leases h
  | sequencePreview => exact hhere (claimRow_leases h)
  | sequenceFrames => exact hhere (claimRow_leases h)
  | sequenceExport => exact hhere (claimRow_leases h)
  | resourceAcquire =>
    simp only [claimHead, claimProductResourceJob, steps_ok] at h
    exact hhere (claimRow_leases h.2)

/-! ## The other transactions -/

theorem Accepts.moves (h : db.Accepts claim now db') (hfenced : db.AllFenced) (id : ID) :
    Moves (db.record id) (db'.record id) := by
  obtain ⟨attempt, job, mid, _, _, code, hverified, hmid, hstate, hended, hlast⟩ := h
  obtain ⟨hmem, hid⟩ := hverified.mem
  have hmem' : attempt ∈ mid.attemptsOf claim.jobID := by
    rw [attemptsOf, hmid.attempts]
    exact hmem
  exact (hmid.moves id).trans ((settleJob_moves (hfenced.moves hmid.moves) hmem' hid
    hverified.running hstate hended code id).trans (hlast.moves id))

theorem renewWorkJobLease_moves {duration : Duration} {lost : WorkError}
    (h : db.renewWorkJobLease claim now duration lost = .ok db') (id : ID) :
    Moves (db.record id) (db'.record id) := by
  simp only [renewWorkJobLease, steps_ok] at h
  obtain ⟨-, -, rfl⟩ := h
  refine Wears.moves (fun attempt => ?_) id
  split
  · exact ⟨rfl, rfl, fun hlive => hlive⟩
  · exact ⟨rfl, rfl, fun hlive => hlive⟩

theorem abandon_moves (db : WorkDatabase) (jobs : ID → Bool) (id : ID) :
    Moves (db.record id) ((db.abandon jobs).record id) :=
  (Wears.ending rfl).moves id

theorem cancelSequenceExport_moves {jobID : ID} (h : db.cancelSequenceExport jobID = .ok db')
    (id : ID) : Moves (db.record id) (db'.record id) := by
  simp only [cancelSequenceExport, steps_ok, filter_eq_some_iff] at h
  obtain ⟨job, ⟨hjob, -⟩, h⟩ := h
  have hcancel : phaseOf job.state ≠ .closed → Moves (db.record id)
      (((db.abandon (· == jobID)).updateJobs fun id job =>
        if id = jobID then
          { job with
            state := .cancelled, cancellationRequested := true, terminalErrorCode := none }
        else job).record id) := by
    intro hopen
    refine (abandon_moves db (· == jobID) id).trans (updateJobs_moves (fun id' job' hjob' => ?_) id)
    split
    · next hid =>
      subst hid
      obtain rfl := mem_unique hjob hjob'
      exact .inr ⟨hopen, hasLiveAttempt_abandon (beq_self_eq_true id')⟩
    · exact .inl rfl
  split at h
  · exact pure_ok.1 h ▸ .refl
  · exact pure_ok.1 h ▸ .refl
  · exact pure_ok.1 h ▸ .refl
  · next hstate => exact pure_ok.1 h ▸ hcancel (by rw [hstate]; exact Phase.noConfusion)
  · next hstate => exact pure_ok.1 h ▸ hcancel (by rw [hstate]; exact Phase.noConfusion)
  · next hstate => exact pure_ok.1 h ▸ hcancel (by rw [hstate]; exact Phase.noConfusion)

theorem reblockMediaTranscriptResource_moves {resourceID : ID}
    (h : db.reblockMediaTranscriptResource claim now resourceID = .ok db') (id : ID) :
    Moves (db.record id) (db'.record id) := by
  simp only [reblockMediaTranscriptResource, steps_ok] at h
  obtain ⟨-, -, -, -, -, _, -, rfl⟩ := h
  refine Relation.ReflTransGen.trans ?_ (updateJobs_moves (fun id' job hjob => ?_) id)
  · exact abandon_moves _ _ id
  split
  · next hbound =>
    split
    · next h =>
      refine .inr ⟨fun hclosed => ?_, hasLiveAttempt_abandon hbound⟩
      rcases h.2 with hwaiting | hrunning
      · rw [phaseOf_eq_waiting.2 hwaiting] at hclosed
        cases hclosed
      · rw [hrunning] at hclosed
        cases hclosed
    · split <;> exact .inl rfl
  · exact .inl rfl

theorem bindRenderPlan_drifts {plan : Digest} (h : db.bindRenderPlan claim now plan = .ok db') :
    db.Drifts db' := by
  rw [bindRenderPlan] at h
  split at h
  · obtain ⟨job, -, h⟩ := bind_ok.1 h
    split at h
    · exact updateDetail_checked h
    · cases h
  · obtain ⟨job, -, h⟩ := bind_ok.1 h
    split at h
    · exact updateDetail_checked h
    · cases h
  · cases h

theorem enqueue_drifts (h : db.enqueue id job = .ok db') : db.Drifts db' := by
  simp only [enqueue, steps_ok] at h
  obtain ⟨⟨hfresh, hwaiting, -⟩, rfl⟩ := h
  refine ⟨rfl, fun id' => .inl ?_⟩
  show ((db.jobs.set id job).find? id').elim _ _ = (db.jobs.find? id').elim _ _
  rw [Table.find?_set]
  split
  · next hid =>
    rw [hid, hfresh]
    exact phaseOf_eq_waiting.2 hwaiting
  · rfl

/-! ## Whole runs -/

/-- Every transaction moves the record of every job. -/
theorem serve_moves (hfenced : db.AllFenced) {request : WorkRequest}
    (h : db.serve request = .ok db') (id : ID) : Moves (db.record id) (db'.record id) := by
  cases request with
  | recover executors resources now =>
    exact (recoverExpiredWorkAttempts_moves db now id).trans
      ((recoverWorkJobs_reconciles h).drifts.moves id)
  | recoverMedia executors now =>
    simp only [serve, recoverMediaJobs, steps_ok] at h
    exact (recoverExpiredWorkAttempts_moves db now id).trans
      ((reconcileMediaPrerequisites_reconciles h.2).drifts.moves id)
  | claim =>
    simp only [serve, steps_ok] at h
    obtain ⟨_, -, ⟨_, _⟩, hclaim, rfl⟩ := h
    obtain ⟨mid, hmid, hleases⟩ := claimHead_leases hclaim
    exact (hmid id).trans (hleases.moves (hfenced.moves hmid) id)
  | renew => exact renewWorkJobLease_moves h id
  | publish => exact (publish_accepts h).moves hfenced id
  | cancelExport jobID => exact cancelSequenceExport_moves h id
  | reblockTranscripts => exact reblockMediaTranscriptResource_moves h id
  | bindRenderPlan => exact (bindRenderPlan_drifts h).moves id
  | enqueue => exact (enqueue_drifts h).moves id
  | elsewhere =>
    obtain rfl := pure_ok.1 h
    exact (Drifts.of_eq rfl rfl).moves id

/-- A run of transactions. -/
abbrev Runs (db db' : WorkDatabase) : Prop := Machine.Reaches serve (fun _ _ => True) db db'

theorem Runs.allFenced (h : db.Runs db') (hfenced : db.AllFenced) : db'.AllFenced :=
  Machine.Reaches.invariant AllFenced h
    (fun _ _ _ _ hfenced hserve => hfenced.moves (serve_moves hfenced hserve)) hfenced

theorem Runs.moves (h : db.Runs db') (hfenced : db.AllFenced) (id : ID) :
    Moves (db.record id) (db'.record id) := by
  induction h with
  | refl => exact .refl
  | @tail between _ hrun hlast ih =>
    obtain ⟨_, -, hserve⟩ := hlast
    exact ih.trans (serve_moves (Runs.allFenced hrun hfenced) hserve id)

/-- A database without jobs. -/
theorem allFenced_of_empty (hattempts : db.attempts = []) : db.AllFenced := by
  intro id
  have hnone : db.attemptsOf id = [] := by rw [attemptsOf, hattempts]; rfl
  refine ⟨?_, fun as a as' heq => ?_, fun a ha => ?_⟩
  · rw [record, hnone]
    rfl
  · rw [record, hnone] at heq
    simp at heq
  · rw [record, hnone] at ha
    cases ha

/-- After a result the job is closed. -/
theorem Accepts.closed (h : db.Accepts claim now db') : db'.phase claim.jobID = .closed := by
  obtain ⟨_, job, mid, state, ended, code, hverified, hmid, hstate, -, hlast⟩ := h
  have hheld : mid.phase claim.jobID = .held := by
    refine hmid.held ?_
    rw [phase_of_find hverified.find_job, hverified.held]
    rfl
  have hsettled : (mid.settleJob claim state ended code).phase claim.jobID = .closed := by
    rw [phase] at hheld
    refine (congrArg Record.phase (record_settleJob claim state ended code claim.jobID)).trans ?_
    cases hjob : mid.jobs.find? claim.jobID with
    | none =>
      rw [hjob] at hheld
      cases hheld
    | some job =>
      rw [hjob, elim_some] at hheld
      simp only [elim_some, phaseOf_eq_held.1 hheld, and_self, if_true]
      exact hstate
  rcases hlast.phases claim.jobID with hsame | ⟨hwaiting, -⟩
  · exact hsame.trans hsettled
  · rw [hsettled] at hwaiting
    cases hwaiting

/-- A result adds no attempt. -/
theorem Accepts.length_attemptsOf (h : db.Accepts claim now db') (id : ID) :
    (db'.attemptsOf id).length = (db.attemptsOf id).length := by
  obtain ⟨_, job, mid, state, ended, code, -, hmid, -, -, hlast⟩ := h
  have hlength : ((mid.settleJob claim state ended code).attemptsOf id).length =
      (mid.attemptsOf id).length := by
    rw [attemptsOf_settleJob, List.length_map]
  rw [attemptsOf, hlast.attempts]
  refine hlength.trans ?_
  rw [attemptsOf, hmid.attempts]
  rfl

/-- No result of a closed job is accepted. -/
theorem not_accepts_of_closed (h : db.phase claim.jobID = .closed) : ¬db.Accepts claim now db' := by
  rintro ⟨_, job, -, -, -, -, hverified, -⟩
  rw [phase_of_find hverified.find_job, hverified.held] at h
  cases h

end WorkDatabase

open WorkDatabase in
/-- In every run of transactions on the tables of work, at whatever instants they are made, a job
    has at most one live attempt; its attempts carry the generations `1, 2, 3, …`; a completion or
    a failure is accepted from the latest attempt of its job only, before its lease expires; and
    once one was accepted, no other is, and no attempt is added to the job. -/
theorem work_leases_fenced {start db : WorkDatabase}
    (hattempts : start.attempts = []) (hrun : start.Runs db) :
    (∀ jobID, ((db.attemptsOf jobID).filter (·.live)).length ≤ 1) ∧
    (∀ jobID, (db.attemptsOf jobID).map (·.generation) =
      List.range' 1 (db.attemptsOf jobID).length) ∧
    ∀ claim now publication after, db.publish claim now publication = .ok after →
      (∃ attempt, (db.attemptsOf claim.jobID).getLast? = some attempt ∧
        attempt.id = claim.attemptID ∧ attempt.generation = claim.generation ∧
        now < attempt.leaseExpiresAt) ∧
      ∀ later, after.Runs later →
        (later.attemptsOf claim.jobID).length = (db.attemptsOf claim.jobID).length ∧
        ∀ claim' now' publication', claim'.jobID = claim.jobID →
          ∀ db', later.publish claim' now' publication' ≠ .ok db' := by
  have hfenced : db.AllFenced := Runs.allFenced hrun (allFenced_of_empty hattempts)
  refine ⟨fun jobID => (hfenced jobID).live_unique, fun jobID => (hfenced jobID).generations,
    fun claim now publication after hpublish => ?_⟩
  have haccepts := publish_accepts hpublish
  have hafter : after.AllFenced := hfenced.moves (haccepts.moves hfenced)
  have hclosed : after.phase claim.jobID = .closed := haccepts.closed
  have hsame : (after.attemptsOf claim.jobID).length = (db.attemptsOf claim.jobID).length :=
    haccepts.length_attemptsOf _
  obtain ⟨attempt, job, -, -, -, -, hverified, -⟩ := haccepts
  refine ⟨⟨attempt, (hfenced claim.jobID).getLast? hverified.mem.1 hverified.live,
    hverified.mem.2, hverified.generation, hverified.unexpired⟩, fun later hlater => ?_⟩
  obtain ⟨hlast, hlength⟩ := moves_closed (hlater.moves hafter claim.jobID) hclosed
  refine ⟨hlength.trans hsame, fun claim' now' publication' hjob db' hpublish' => ?_⟩
  rw [← hjob] at hlast
  exact not_accepts_of_closed hlast (publish_accepts hpublish')

/-! ## A job that is claimed twice -/

/-- One executor, of identifications. -/
def identifyExecutors : List WorkExecutorRegistration := [⟨.media .identify, ['1'], []⟩]

/-- The identification of an asset. -/
def identifyJob (assetID : ID) (createdAt : Instant) : WorkJob where
  detail := .media ⟨.identify, assetID, none, none, none⟩
  state := .queued
  priorityClass := .background
  createdAt
  cancellationRequested := false
  producerVersion := ['1']
  parameters := []
  intact := true
  prerequisites := []
  terminalErrorCode := none

/-- A registered asset, whose file may be read under the grant 2. -/
def registeredAsset (tombstoned : Bool) : WorkAsset where
  tombstoned
  sourceGrantID := 2
  acceptedFingerprint := none
  observedFingerprint := none
  factsKnown := false
  streamsReadable := true
  audioStream := none

/-- No work yet, and the assets that are there. -/
def idleDatabase (assets : Table ID WorkAsset) : WorkDatabase where
  jobs := ∅
  attempts := []
  assets
  sourceGrants := Table.set ∅ 2 ⟨true, 1⟩
  mediaArtifacts := ∅
  previewArtifacts := ∅
  transcriptBindings := ∅
  productResources := ∅

/-- The worker asks for a lease of five seconds. -/
def identifyInput (attemptID : ID) (now : Instant) : ClaimWorkJobInput where
  attemptID
  executors := identifyExecutors
  resources := []
  leaseOwner := ['w']
  now
  leaseDuration := 5 * second

/-- A job is claimed, its worker is not heard of again, and it is claimed once more. -/
def claimedTwice : List WorkRequest := [.enqueue 20 (identifyJob 10 0),
  .claim (identifyInput 31 0) 20 (.media .identify),
  .recover identifyExecutors [] (5 * second),
  .claim (identifyInput 32 (6 * second)) 20 (.media .identify)]

/-- The claim of the second worker. -/
def secondClaim : WorkJobClaim where
  jobID := 20
  attemptID := 32
  kind := .media .identify
  executorVersion := ['1']
  executorTarget := []
  generation := 2
  leaseOwner := ['w']
  leaseExpiresAt := 11 * second
  subject := .media 10 2 none none

open WorkDatabase in
theorem work_leases_fenced_identification : ∃ db after,
    (idleDatabase (Table.set ∅ 10 (registeredAsset false))).Runs db ∧
    (db.attemptsOf 20).map (·.generation) = [1, 2] ∧
    db.publish secondClaim (10 * second) (.identification 7) = .ok after ∧
    ∀ now publication db', after.publish secondClaim now publication ≠ .ok db' := by
  obtain ⟨db, hrun, hlength, after, hok⟩ : ∃ db,
      (idleDatabase (Table.set ∅ 10 (registeredAsset false))).Runs db ∧
      (db.attemptsOf 20).length = 2 ∧
      ∃ after, db.publish secondClaim (10 * second) (.identification 7) = .ok after :=
    Machine.exists_of_play claimedTwice (by decide +kernel)
  obtain ⟨-, hgenerations, haccepted⟩ := work_leases_fenced rfl hrun
  refine ⟨db, after, hrun, ?_, hok, fun now publication db' => ?_⟩
  · rw [hgenerations, hlength]
    rfl
  · exact ((haccepted _ _ _ _ hok).2 after (.refl _)).2 _ _ _ rfl db'

end OpenCut
