import OpenCut.Lib.Fencing
import OpenCut.Lib.Machine
import OpenCut.Work.Publication
import OpenCut.Work.Recovered

/-!
# Leases are fenced

Any number of workers claim jobs, renew their leases and publish results, while expired attempts
are recovered, waiting jobs reconciled, exports cancelled and new jobs enqueued: all of it one
transaction after another, in any order and at any instants (`WorkDatabase.serve`). A claim is
the second transaction of `ClaimWorkJob`; it may come long after the choice of its job.

Each transaction moves the record of each job as `Fencing.Move` says (`serve_moves`). So a job
has at most one live attempt, its attempts carry the generations `1, 2, 3, …`, and a result is
accepted from the latest attempt under its lease only, once for each job (`work_leases_fenced`).
-/

namespace OpenCut

open Outcome Fencing List

/-! ## The transactions -/

/-- What a worker publishes. -/
inductive Publication
  | identification (fingerprint : Digest)
  | probe (artifactID : ID) (streamsReadable : Bool) (audioStream : Option ID)
  | frameSet (artifactID : ID)
  | proxy (artifactID : ID) (again : Bool)
  | renderInput (artifactID : ID) (again : Bool)
  | transcript (artifactID : ID)
  | transcriptNoAudio
  | sequencePreview (plan : Digest) (artifactID : ID) (artifact : SequencePreviewArtifact)
  | sequenceFrameSet (artifactID : ID)
  | sequenceExport (plan : Digest) (artifactID : ID)
  | productResource (resourceID : ID)
  | failure (code : String)

/-- The transactions on the tables of durable work. -/
inductive WorkRequest
  | recover (executors : List WorkExecutorRegistration)
    (resources : List ProductResourceRegistration) (now : Instant)
  | recoverMedia (executors : List MediaExecutorRegistration) (now : Instant)
  | claim (input : ClaimWorkJobInput) (id : ID) (kind : WorkJobKind)
  | renew (claim : WorkJobClaim) (now : Instant) (duration : Duration)
  | publish (claim : WorkJobClaim) (now : Instant) (publication : Publication)
  | cancelExport (jobID : ID)
  | reblockTranscripts (claim : WorkJobClaim) (now : Instant) (resourceID : ID)
  | bindRenderPlan (claim : WorkJobClaim) (now : Instant) (plan : Digest)
  | enqueue (id : ID) (job : WorkJob)
  /-- A transaction on the tables that the jobs refer to. -/
  | elsewhere (tables : WorkDatabase)

namespace WorkDatabase

variable (db : WorkDatabase)

/-- The failure of a job, by the kind of its claim. -/
def fail (claim : WorkJobClaim) (now : Instant) (code : String) : Except WorkError WorkDatabase :=
  match claim.kind with
  | .media _ => db.failMediaJob claim now code
  | .sequencePreview => db.failSequencePreview claim now code
  | .sequenceFrames => db.failSequenceFrameSet claim now code
  | .sequenceExport => db.failSequenceExport claim now code
  | .resourceAcquire => db.failProductResource claim now code

/-- A result is published. -/
def publish (claim : WorkJobClaim) (now : Instant) : Publication → Except WorkError WorkDatabase
  | .identification fingerprint => db.completeMediaIdentification claim now fingerprint
  | .probe artifactID readable audio => db.completeMediaProbe claim now artifactID readable audio
  | .frameSet artifactID => db.completeMediaFrameSet claim now artifactID
  | .proxy artifactID again => db.completeMediaProxy claim now artifactID again
  | .renderInput artifactID again => db.completeMediaRenderInput claim now artifactID again
  | .transcript artifactID => db.completeMediaTranscript claim now artifactID
  | .transcriptNoAudio => db.completeMediaTranscriptNoAudio claim now
  | .sequencePreview plan artifactID artifact =>
    db.completeSequencePreview claim now plan artifactID artifact
  | .sequenceFrameSet artifactID => db.completeSequenceFrameSet claim now artifactID
  | .sequenceExport plan artifactID => db.completeSequenceExport claim now plan artifactID
  | .productResource resourceID => db.completeProductResource claim now resourceID
  | .failure code => db.fail claim now code

/-- One transaction. -/
def serve : WorkRequest → Except WorkError WorkDatabase
  | .recover executors resources now => db.recoverWorkJobs executors resources now
  | .recoverMedia executors now => db.recoverMediaJobs executors now
  | .claim input id kind => do
    let media ← mediaExecutorRegistrations input.executors
    let claimed ← db.claimHead input media id kind
    return claimed.2
  | .renew claim now duration => db.renewWorkJobLease claim now duration .workLeaseLost
  | .publish claim now publication => db.publish claim now publication
  | .cancelExport jobID => db.cancelSequenceExport jobID
  | .reblockTranscripts claim now resourceID =>
    db.reblockMediaTranscriptResource claim now resourceID
  | .bindRenderPlan claim now plan => db.bindRenderPlan claim now plan
  | .enqueue id job => db.enqueue id job
  | .elsewhere tables => return { tables with jobs := db.jobs, attempts := db.attempts }

/-! ## The record of a job -/

variable {job : WorkJob} {id : ID}

/-- The phase of a job in a state. -/
def phaseOf : WorkJobState → Phase
  | .blocked | .queued => .waiting
  | .running => .held
  | .succeeded | .failed | .cancelled => .closed

/-- The phase of a job; one that is not there yet waits. -/
def phase (id : ID) : Phase := (db.jobs.find? id).elim .waiting fun job => phaseOf job.state

/-- The record of a job. -/
def record (id : ID) : Record WorkAttempt := ⟨db.phase id, db.attemptsOf id⟩

/-- The record of a job moves. -/
abbrev Moves (r r' : Record WorkAttempt) : Prop :=
  Relation.ReflTransGen (Move WorkAttempt.live WorkAttempt.generation) r r'

/-- All records of a database are fenced. -/
def AllFenced : Prop := ∀ id, Fenced WorkAttempt.live WorkAttempt.generation (db.record id)

theorem phaseOf_eq_waiting : phaseOf job.state = .waiting ↔ job.waiting := by
  rw [WorkJob.waiting_iff]
  cases job.state <;> simp [phaseOf]

variable {state : WorkJobState}

theorem phaseOf_eq_held : phaseOf state = .held ↔ state = .running := by
  cases state <;> simp [phaseOf]

theorem phase_of_find {db : WorkDatabase} (h : db.jobs.find? id = some job) :
    db.phase id = phaseOf job.state := by
  rw [phase, h]
  rfl

variable {db db' : WorkDatabase}

theorem AllFenced.moves (h : db.AllFenced) (hmoves : ∀ id, Moves (db.record id) (db'.record id)) :
    db'.AllFenced := fun id => (h id).moves (hmoves id)

/-- The attempts stay, and jobs that do not wait stay in their phase. -/
structure Drifts (db db' : WorkDatabase) : Prop where
  attempts : db'.attempts = db.attempts
  phases : ∀ id, db'.phase id = db.phase id ∨ (db.phase id = .waiting ∧ db'.phase id ≠ .held)

theorem Drifts.moves (h : db.Drifts db') (id : ID) : Moves (db.record id) (db'.record id) := by
  have hattempts : db'.attemptsOf id = db.attemptsOf id := by rw [attemptsOf, h.attempts]; rfl
  rw [record, record, hattempts]
  rcases h.phases id with hsame | ⟨hwaiting, hheld⟩
  · rw [hsame]
  · rw [hwaiting]
    exact .single (.settle hheld)

theorem Drifts.refl (db : WorkDatabase) : db.Drifts db := ⟨rfl, fun _ => .inl rfl⟩

theorem Drifts.trans {db'' : WorkDatabase} (h : db.Drifts db') (h' : db'.Drifts db'') :
    db.Drifts db'' := by
  refine ⟨h'.attempts.trans h.attempts, fun id => ?_⟩
  rcases h'.phases id with hsame' | ⟨hwaiting', hheld'⟩
  · rw [hsame']
    exact h.phases id
  · rcases h.phases id with hsame | ⟨hwaiting, -⟩
    · exact .inr ⟨hsame ▸ hwaiting', hheld'⟩
    · exact .inr ⟨hwaiting, hheld'⟩

/-- A job that runs still runs. -/
theorem Drifts.held (h : db.Drifts db') (hid : db.phase id = .held) : db'.phase id = .held := by
  rcases h.phases id with hsame | ⟨hwaiting, -⟩
  · exact hsame.trans hid
  · rw [hid] at hwaiting
    cases hwaiting

theorem phase_updateJobs (f : ID → WorkJob → WorkJob) (id : ID) : (db.updateJobs f).phase id =
      (db.jobs.find? id).elim .waiting fun job => phaseOf (f id job).state := by
  rw [phase, updateJobs_jobs]
  cases db.jobs.find? id <;> rfl

theorem Drifts.updateJobs {f : ID → WorkJob → WorkJob}
    (hf : ∀ id job, (f id job).state = job.state ∨ (job.waiting ∧ (f id job).state ≠ .running)) :
    db.Drifts (db.updateJobs f) := by
  refine ⟨rfl, fun id => ?_⟩
  rw [phase_updateJobs, phase]
  cases db.jobs.find? id with
  | none => exact .inl rfl
  | some job =>
    rcases hf id job with hsame | ⟨hwaiting, _⟩
    · exact .inl (congrArg phaseOf hsame)
    · refine .inr ⟨phaseOf_eq_waiting.2 hwaiting, ?_⟩
      cases hstate : (f id job).state <;> simp_all [phaseOf]

theorem Reconciles.drifts (h : db.Reconciles db') : db.Drifts db' := by
  refine ⟨h.attempts, fun id => ?_⟩
  have hrel := h.jobs id
  rw [phase, phase]
  generalize db.jobs.find? id = a at *
  generalize db'.jobs.find? id = b at *
  cases hrel with
  | none => exact .inl rfl
  | some hsettles =>
    rcases hsettles with rfl | ⟨hwaiting, hafter⟩
    · exact .inl rfl
    · refine .inr ⟨phaseOf_eq_waiting.2 hwaiting, ?_⟩
      rcases hafter with hwaiting' | hfailed
      · exact fun hheld => by
          have := phaseOf_eq_waiting.2 hwaiting'
          simp_all
      · simp [hfailed, phaseOf]

/-! ## Attempts that end -/

variable {f : WorkAttempt → WorkAttempt}

theorem attemptsOf_updateAttempts (hf : ∀ attempt, (f attempt).jobID = attempt.jobID) (id : ID) :
    (db.updateAttempts f).attemptsOf id = (db.attemptsOf id).map f := by
  simp only [attemptsOf, updateAttempts, filter_map]
  congr 1
  refine filter_congr fun attempt _ => ?_
  simp [hf]

/-- Attempts end at most: their generation and their job stay. -/
def Wears (f : WorkAttempt → WorkAttempt) : Prop :=
  ∀ attempt, (f attempt).jobID = attempt.jobID ∧
    Ages WorkAttempt.live WorkAttempt.generation attempt (f attempt)

theorem Wears.forall₂ (hf : Wears f) (attempts : List WorkAttempt) :
    attempts.Forall₂ (Ages WorkAttempt.live WorkAttempt.generation) (attempts.map f) := by
  rw [forall₂_map_right_iff, forall₂_same]
  exact fun attempt _ => (hf attempt).2

/-- Ending some attempts moves every record. -/
theorem Wears.moves (hf : Wears f) (id : ID) :
    Moves (db.record id) ((db.updateAttempts f).record id) := by
  rw [record, record, attemptsOf_updateAttempts fun attempt => (hf attempt).1]
  exact .single (.age (hf.forall₂ _))

/-- An update that sets the state of some attempts to one that is not live. -/
theorem Wears.ending {p : WorkAttempt → Prop} [DecidablePred p] {state : AttemptState}
    (hstate : state.live = false) :
    Wears fun attempt => if p attempt then { attempt with state } else attempt := by
  intro attempt
  dsimp only
  split
  · exact ⟨rfl, rfl, fun hlive => by simp [WorkAttempt.live, hstate] at hlive⟩
  · exact ⟨rfl, rfl, id⟩

/-- Jobs with which no attempt is busy are released. -/
theorem updateJobs_moves {f : ID → WorkJob → WorkJob}
    (hf : ∀ id job, db.jobs.find? id = some job → (f id job).state = job.state ∨
      (phaseOf job.state ≠ .closed ∧ db.hasLiveAttempt id = false)) (id : ID) :
    Moves (db.record id) ((db.updateJobs f).record id) := by
  rw [record, record, phase_updateJobs, phase]
  cases hfind : db.jobs.find? id with
  | none => exact .refl
  | some job =>
    rcases hf id job hfind with hsame | ⟨hclosed, hlive⟩
    · rw [Option.elim_some, Option.elim_some, hsame]
      exact .refl
    · rw [hasLiveAttempt, any_eq_false] at hlive
      exact .single (.release hclosed (forall₂_same.2 fun _ _ => ⟨rfl, fun h => h⟩) hlive)

theorem recoverExpiredWorkAttempts_moves (db : WorkDatabase) (now : Instant) (id : ID) :
    Moves (db.record id) ((db.recoverExpiredWorkAttempts now).record id) := by
  have habandon : Moves (db.record id) ((db.abandonExpired now).record id) :=
    (Wears.ending rfl).moves id
  refine habandon.trans (updateJobs_moves (fun id job _ => ?_) id)
  split
  · next h =>
    exact .inr ⟨by rw [h.1]; exact Phase.noConfusion, Bool.eq_false_of_not_eq_true h.2⟩
  · exact .inl rfl

/-- No attempt of an abandoned job is live. -/
theorem hasLiveAttempt_abandon {jobs : ID → Bool} (h : jobs id) :
    (db.abandon jobs).hasLiveAttempt id = false := by
  have hwears : Wears fun attempt => if attempt.live ∧ jobs attempt.jobID then
      { attempt with state := .abandoned } else attempt := Wears.ending rfl
  rw [hasLiveAttempt, abandon, attemptsOf_updateAttempts fun attempt => (hwears attempt).1,
    any_eq_false]
  rintro _ hmem
  obtain ⟨attempt, hattempt, rfl⟩ := mem_map.1 hmem
  have hid : attempt.jobID = id := beq_iff_eq.1 (mem_filter.1 hattempt).2
  split
  · exact Bool.false_ne_true
  · next hnot =>
    intro hlive
    exact hnot ⟨hlive, hid ▸ h⟩

/-! ## Verified attempts -/

variable {claim : WorkJobClaim} {now : Instant} {lost : WorkError}
  {pinned : WorkAttempt → WorkJob → Bool} {attempt : WorkAttempt}

/-- What the verification of an attempt establishes. -/
structure Verified (db : WorkDatabase) (claim : WorkJobClaim) (now : Instant)
    (attempt : WorkAttempt) (job : WorkJob) : Prop where
  find_attempt : db.attempt? claim = some attempt
  running : attempt.state = .running
  generation : attempt.generation = claim.generation
  unexpired : now < attempt.leaseExpiresAt
  find_job : db.jobs.find? claim.jobID = some job
  held : job.state = .running

theorem verifyAttempt_ok (h : db.verifyAttempt claim now lost pinned = .ok job) :
    ∃ attempt, db.Verified claim now attempt job := by
  simp only [verifyAttempt, steps_ok] at h
  obtain ⟨attempt, hattempt, _, hjob, ⟨hrunning, -, hgeneration, hheld, -, hunexpired⟩, rfl⟩ := h
  exact ⟨attempt, hattempt, hrunning, hgeneration, hunexpired, hjob, hheld⟩

theorem Verified.mem (h : db.Verified claim now attempt job) :
    attempt ∈ db.attemptsOf claim.jobID ∧ attempt.id = claim.attemptID := by
  have hpred := find?_some h.find_attempt
  simp only [Bool.and_eq_true, beq_iff_eq] at hpred
  exact ⟨mem_filter.2 ⟨mem_of_find?_eq_some h.find_attempt, beq_iff_eq.2 hpred.2⟩, hpred.1⟩

theorem Verified.live (h : db.Verified claim now attempt job) : attempt.live := by
  rw [WorkAttempt.live, h.running]
  rfl

theorem attemptsOf_settleJob (claim : WorkJobClaim) (state : WorkJobState) (ended : AttemptState)
    (code : Option String) (id : ID) :
    (db.settleJob claim state ended code).attemptsOf id = (db.attemptsOf id).map fun attempt =>
        if attempt.id = claim.attemptID ∧ attempt.state = .running then
          { attempt with state := ended } else attempt := by
  rw [settleJob, attemptsOf_updateAttempts fun attempt => by split <;> rfl]
  rfl

theorem record_settleJob (claim : WorkJobClaim) (state : WorkJobState) (ended : AttemptState)
    (code : Option String) (id : ID) :
    (db.settleJob claim state ended code).record id = ⟨(db.jobs.find? id).elim .waiting fun job =>
        phaseOf (if id = claim.jobID ∧ job.state = .running then state else job.state),
        (db.attemptsOf id).map fun attempt =>
          if attempt.id = claim.attemptID ∧ attempt.state = .running then
            { attempt with state := ended } else attempt⟩ := by
  rw [record, attemptsOf_settleJob, settleJob, phase, updateAttempts_jobs, updateJobs_jobs]
  cases db.jobs.find? id with
  | none => rfl
  | some job =>
    simp only [Option.map_some, Option.elim_some]
    split <;> rfl

/-- The job of a claim and its attempt end together: if the attempt is the live one of a job that
    runs, the job is closed. -/
theorem settleJob_moves (hfenced : db.AllFenced) (hmem : attempt ∈ db.attemptsOf claim.jobID)
    (hid : attempt.id = claim.attemptID) (hrunning : attempt.state = .running)
    (hstate : phaseOf state = .closed) {ended : AttemptState}
    (hended : ended.live = false) (code : Option String) (id : ID) :
    Moves (db.record id) ((db.settleJob claim state ended code).record id) := by
  have hwears : Wears fun attempt => if attempt.id = claim.attemptID ∧ attempt.state = .running then
      { attempt with state := ended } else attempt := Wears.ending hended
  rw [record_settleJob, record, phase]
  cases hjob : db.jobs.find? id with
  | none => exact .single (.age (hwears.forall₂ _))
  | some job =>
    simp only [Option.elim_some]
    split
    · next h =>
      obtain ⟨rfl, hheld⟩ := h
      refine .single ?_
      rw [hstate, hheld]
      refine .release Phase.noConfusion (hwears.forall₂ _) fun a ha hlive => ?_
      -- a live attempt would be the latest one, which has just ended
      obtain ⟨before, hbefore, rfl⟩ := mem_map.1 ha
      have hlast := (hfenced claim.jobID).getLast? hbefore ((hwears before).2.2 hlive)
      have hlast' := (hfenced claim.jobID).getLast? hmem (by rw [WorkAttempt.live, hrunning]; rfl)
      obtain rfl := Option.mem_unique hlast hlast'
      rw [if_pos ⟨hid, hrunning⟩, WorkAttempt.live, hended] at hlive
      exact Bool.false_ne_true hlive
    · exact .single (.age (hwears.forall₂ _))

/-! ## Results that are accepted -/

variable {artifactID : ID} {plan : Digest}

theorem Drifts.of_eq (hjobs : db'.jobs = db.jobs) (hattempts : db'.attempts = db.attempts) :
    db.Drifts db' :=
  ⟨hattempts, fun id => .inl (by rw [phase, phase, hjobs])⟩

theorem updateDetail_drifts (db : WorkDatabase) (jobID : ID) (f : JobDetail → JobDetail) :
    db.Drifts (db.updateDetail jobID f) := by
  refine Drifts.updateJobs fun id job => .inl ?_
  split <;> rfl

variable {jobID : ID}

/-- The detail of a job is updated after a check. -/
theorem updateDetail_checked {p : Prop} [Decidable p] {e : WorkError} {f : JobDetail → JobDetail}
    (h : (ensure p e >>= fun _ => pure (db.updateDetail jobID f)) = .ok db') : db.Drifts db' := by
  simp only [steps_ok] at h
  obtain ⟨-, rfl⟩ := h
  exact updateDetail_drifts _ _ _

theorem satisfy_drifts (db : WorkDatabase) (jobs : WorkJob → Bool) (met : Prerequisite → Bool) :
    db.Drifts (db.satisfy jobs met) := by
  refine Drifts.updateJobs fun id job => ?_
  split
  · dsimp only
    split
    · next hwaiting =>
      refine .inr ⟨hwaiting, fun hrunning => ?_⟩
      have hafter := WorkJob.waiting_iff.1 (WorkJob.waiting_requeue { job with
        prerequisites := job.prerequisites.filter fun p => !met p })
      simp [hrunning] at hafter
    · exact .inl rfl
  · exact .inl rfl

variable {kind : MediaJobKind} {again : Bool}

theorem publishArtifact_drifts
    (h : db.publishArtifact artifactID kind again = .ok db') : db.Drifts db' := by
  rw [publishArtifact] at h
  split at h
  · simp only [steps_ok] at h
    obtain ⟨-, rfl⟩ := h
    exact .of_eq rfl rfl
  · simp only [steps_ok] at h
    obtain ⟨-, -, rfl⟩ := h
    exact .of_eq rfl rfl

theorem setMediaResult_drifts {artifactID : Option ID} {code : Option Text}
    (h : db.setMediaResult jobID job artifactID code = .ok db') :
    db.Drifts db' := by
  rw [setMediaResult] at h
  split at h
  · exact updateDetail_checked h
  · cases h

theorem setRenderResult_drifts
    (h : db.setRenderResult jobID job plan artifactID = .ok db') : db.Drifts db' := by
  rw [setRenderResult] at h
  split at h
  · exact updateDetail_checked h
  · exact updateDetail_checked h
  · cases h

/-- A result is accepted: the attempt is verified, and the job and the attempt end. -/
def Accepts (db : WorkDatabase) (claim : WorkJobClaim) (now : Instant) (db' : WorkDatabase) :
    Prop :=
  ∃ attempt job mid state ended code, db.Verified claim now attempt job ∧ db.Drifts mid ∧
    phaseOf state = .closed ∧ ended.live = false ∧
    (mid.settleJob claim state ended code).Drifts db'

variable {claim : WorkJobClaim} {now : Instant}

section

variable (hverify : db.verifyAttempt claim now lost pinned = .ok job)
include hverify

theorem Accepts.succeed {mid : WorkDatabase} (hmid : db.Drifts mid)
    (hlast : (mid.succeed claim).Drifts db') : db.Accepts claim now db' := by
  obtain ⟨attempt, hverified⟩ := verifyAttempt_ok hverify
  exact ⟨attempt, job, mid, .succeeded, .succeeded, none, hverified, hmid, rfl, rfl, hlast⟩

theorem Accepts.failed (code : String) : db.Accepts claim now (db.failJob claim code) := by
  obtain ⟨attempt, hverified⟩ := verifyAttempt_ok hverify
  exact ⟨attempt, job, db, .failed, .failed, some code, hverified, .refl db, rfl, rfl, .refl _⟩

end

theorem completeMediaIdentification_accepts {fingerprint : Digest}
    (h : db.completeMediaIdentification claim now fingerprint = .ok db') :
    db.Accepts claim now db' := by
  simp only [completeMediaIdentification, steps_ok] at h
  obtain ⟨job, hverify, ⟨_, _, _, _⟩, -, -, rfl⟩ := h
  refine .succeed hverify ?_ (satisfy_drifts _ _ _)
  exact .of_eq rfl rfl

theorem completeMediaProbe_accepts {readable : Bool} {audio : Option ID}
    (h : db.completeMediaProbe claim now artifactID readable audio = .ok db') :
    db.Accepts claim now db' := by
  simp only [completeMediaProbe, steps_ok] at h
  obtain ⟨job, hverify, ⟨_, _⟩, -, _, hpublished, mid, hmid, rfl⟩ := h
  refine .succeed hverify ?_ (satisfy_drifts _ _ _)
  refine (publishArtifact_drifts hpublished).trans (Drifts.trans ?_ (setMediaResult_drifts hmid))
  exact .of_eq rfl rfl

theorem completeMediaArtifact_accepts
    (h : db.completeMediaArtifact claim now kind artifactID again = .ok db') :
    db.Accepts claim now db' := by
  simp only [completeMediaArtifact, steps_ok] at h
  obtain ⟨job, hverify, -, -, _, hpublished, mid, hmid, rfl⟩ := h
  exact .succeed hverify ((publishArtifact_drifts hpublished).trans (setMediaResult_drifts hmid))
    (.refl _)

theorem completeMediaTranscript_accepts
    (h : db.completeMediaTranscript claim now artifactID = .ok db') : db.Accepts claim now db' := by
  simp only [completeMediaTranscript, steps_ok] at h
  obtain ⟨job, hverify, -, -, -, -, _, hpublished, mid, hmid, rfl⟩ := h
  exact .succeed hverify ((publishArtifact_drifts hpublished).trans (setMediaResult_drifts hmid))
    (.refl _)

theorem completeMediaTranscriptNoAudio_accepts
    (h : db.completeMediaTranscriptNoAudio claim now = .ok db') : db.Accepts claim now db' := by
  simp only [completeMediaTranscriptNoAudio, steps_ok] at h
  obtain ⟨job, hverify, -, -, -, mid, hmid, rfl⟩ := h
  exact .succeed hverify (setMediaResult_drifts hmid) (.refl _)

theorem completeSequencePreview_accepts {artifact : SequencePreviewArtifact}
    (h : db.completeSequencePreview claim now plan artifactID artifact = .ok db') :
    db.Accepts claim now db' := by
  obtain ⟨job, hverify, h⟩ := bind_ok.1 h
  split at h
  · simp only [steps_ok] at h
    obtain ⟨mid, hmid, rfl⟩ := h
    refine .succeed hverify (Drifts.trans ?_ (setRenderResult_drifts hmid)) (.refl _)
    exact .of_eq rfl rfl
  · simp only [steps_ok] at h
    obtain ⟨-, mid, hmid, rfl⟩ := h
    refine .succeed hverify (Drifts.trans ?_ (setRenderResult_drifts hmid)) (.refl _)
    exact .of_eq rfl rfl

theorem completeSequenceExport_accepts
    (h : db.completeSequenceExport claim now plan artifactID = .ok db') :
    db.Accepts claim now db' := by
  simp only [completeSequenceExport, steps_ok] at h
  obtain ⟨job, hverify, mid, hmid, rfl⟩ := h
  exact .succeed hverify (setRenderResult_drifts hmid) (.refl _)

theorem completeSequenceFrameSet_accepts
    (h : db.completeSequenceFrameSet claim now artifactID = .ok db') :
    db.Accepts claim now db' := by
  obtain ⟨job, hverify, h⟩ := bind_ok.1 h
  split at h
  · simp only [steps_ok] at h
    obtain ⟨-, rfl⟩ := h
    exact .succeed hverify (updateDetail_drifts _ _ _) (.refl _)
  · cases h

theorem completeProductResource_accepts {resourceID : ID}
    (h : db.completeProductResource claim now resourceID = .ok db') :
    db.Accepts claim now db' := by
  obtain ⟨job, hverify, h⟩ := bind_ok.1 h
  split at h
  · simp only [steps_ok] at h
    obtain ⟨-, -, rfl⟩ := h
    refine .succeed hverify (Drifts.trans ?_ (updateDetail_drifts _ _ _)) (satisfy_drifts _ _ _)
    exact .of_eq rfl rfl
  · cases h

theorem fail_accepts {code : String} (h : db.fail claim now code = .ok db') :
    db.Accepts claim now db' := by
  rw [fail] at h
  split at h
  · next kind hkind =>
    simp only [failMediaJob, hkind, steps_ok] at h
    obtain ⟨job, hverify, rfl⟩ := h
    exact .failed hverify code
  all_goals
    simp only [failSequencePreview, failSequenceFrameSet, failSequenceExport, failProductResource,
      steps_ok] at h
    obtain ⟨job, hverify, rfl⟩ := h
    exact .failed hverify code

/-- Every publication that succeeds is a result that is accepted. -/
theorem publish_accepts {publication : Publication}
    (h : db.publish claim now publication = .ok db') : db.Accepts claim now db' := by
  cases publication with
  | identification => exact completeMediaIdentification_accepts h
  | probe => exact completeMediaProbe_accepts h
  | frameSet | proxy | renderInput => exact completeMediaArtifact_accepts h
  | transcript => exact completeMediaTranscript_accepts h
  | transcriptNoAudio => exact completeMediaTranscriptNoAudio_accepts h
  | sequencePreview => exact completeSequencePreview_accepts h
  | sequenceFrameSet => exact completeSequenceFrameSet_accepts h
  | sequenceExport => exact completeSequenceExport_accepts h
  | productResource => exact completeProductResource_accepts h
  | failure => exact fail_accepts h

end WorkDatabase

end OpenCut
