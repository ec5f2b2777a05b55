import OpenCut.Work.Starvation

/-!
# The scheduler

`WorkScheduler.Run`, `RunOne` and `heartbeat` (`product/application/work_scheduler.go`), with all
that may happen between their steps: transactions of others, the end of the context, and the
calls that the executor of the claimed job makes.

An executor is any program that works under the context of its execution and ends with what its
last call returned: a publication, the binding of a plan, or its context, once that is done. Of
the calls to the repository, those that fail for another reason than a lost lease or a cancelled
context are left out (`Refused`).
-/

namespace OpenCut

open Outcome List WorkDatabase

/-! ## The model -/

/-- Why `RunOne` fails. -/
inductive RunError
  | lost (error : WorkError)
  | context
deriving DecidableEq

/-- The errors of a lost lease. -/
def WorkError.leaseLost : WorkError → Bool
  | .workLeaseLost | .mediaLeaseLost | .resourceLeaseLost => true
  | _ => false

/-- `WorkScheduler`: the registrations of its executors and its settings. -/
structure WorkScheduler where
  executors : List WorkExecutorRegistration
  resources : List ProductResourceRegistration
  leaseOwner : Text
  leaseDuration : Duration

/-- Where `Execute` stands: at work, about to return, or back. -/
inductive ExecutorState
  | working
  | returning (error : Option RunError)
  | returned (error : Option RunError)
deriving DecidableEq

/-- `RunOne` after a claim: the executor and the heartbeat run side by side. -/
structure Execution where
  claim : WorkJobClaim
  /-- `cancel` was called. -/
  cancelled : Bool
  executor : ExecutorState
  /-- What was sent to `heartbeatDone`. -/
  heartbeatDone : Option (Option RunError)

/-- Where `Run` stands. -/
inductive SchedulerPhase
  | polling
  | recovering (input : ClaimWorkJobInput)
  | choosing (input : ClaimWorkJobInput)
  | claiming (input : ClaimWorkJobInput) (id : ID) (kind : WorkJobKind)
  | executing (execution : Execution)
  | returned (error : Option RunError)

/-- The scheduler and the database it works on. -/
structure SchedulerState where
  db : WorkDatabase
  /-- The context of `Run` is done. -/
  contextDone : Bool
  phase : SchedulerPhase
  /-- Of each job that was executed, what `Execute` returned and what `RunOne` did. -/
  finished : List (Option RunError × Option RunError)

/-- What happens next. -/
inductive SchedulerEvent
  | transaction (request : WorkRequest)
  | done
  | leave
  | poll (now : Instant) (attemptID : ID)
  | recover
  | choose
  | claim
  | tick (now : Instant)
  | stopHeartbeat
  | bindPlan (now : Instant) (plan : Digest)
  | reblock (now : Instant) (resourceID : ID)
  | publish (now : Instant) (publication : Publication)
  | giveUp
  | returnExecute
  | finish

/-- The event can not happen here. -/
inductive Refused
  | refused

namespace SchedulerState

variable (scheduler : WorkScheduler) (s : SchedulerState)

/-- What `Run` returned, if it did. -/
def returned? : Option (Option RunError) :=
  match s.phase with
  | .returned error => some error
  | _ => none

/-- Whether the context of an execution is done. -/
def executionDone (e : Execution) : Bool := s.contextDone || e.cancelled

/-- The state with the execution `e`. -/
def withExecution (e : Execution) : SchedulerState := { s with phase := .executing e }

/-- `Run` returns. -/
def stop (error : Option RunError) : SchedulerState := { s with phase := .returned error }

/-- A call of the executor to the repository; `next` is where a call that succeeds leads. -/
def call (e : Execution) (result : Except WorkError WorkDatabase) (next : ExecutorState) :
    Except Refused SchedulerState :=
  if s.executionDone e then
    .ok (s.withExecution { e with executor := .returning (some .context) })
  else
    match result with
    | .ok db => .ok ({ s with db }.withExecution { e with executor := next })
    | .error error =>
      if error.leaseLost then
        .ok (s.withExecution { e with executor := .returning (some (.lost error)) })
      else .error .refused

/-- One round of `heartbeat`: the lease is renewed, or the execution is cancelled. -/
def tick (e : Execution) (now : Instant) : SchedulerState :=
  if s.executionDone e then
    s.withExecution { e with cancelled := true, heartbeatDone := some (some .context) }
  else
    match s.db.renewWorkJobLease e.claim now scheduler.leaseDuration .workLeaseLost with
    | .ok db => { s with db }.withExecution e
    | .error error =>
      s.withExecution { e with cancelled := true, heartbeatDone := some (some (.lost error)) }

/-- `RunOne` with a claim: its executor is looked up and started. -/
def begin (claim : WorkJobClaim) : SchedulerState :=
  match scheduler.executors.find? (·.kind == claim.kind) with
  | some executor =>
    if executor.version = claim.executorVersion ∧ executor.target = claim.executorTarget then
      s.withExecution ⟨claim, false, .working, none⟩
    else s.stop (some (.lost .workLeaseLost))
  | none => s.stop (some (.lost .workLeaseLost))

/-- The end of `RunOne`: the error of the heartbeat comes first. `Run` goes on if there is
    none. -/
def finish (executed heartbeat : Option RunError) : SchedulerState :=
  let s := { s with finished := s.finished ++ [(executed, heartbeat <|> executed)] }
  match heartbeat <|> executed with
  | some error => s.stop (some error)
  | none => { s with phase := .polling }

/-- One step. -/
def serve (event : SchedulerEvent) : Except Refused SchedulerState :=
  match s.phase, event with
  | _, .transaction request =>
    match s.db.serve request with
    | .ok db => .ok { s with db }
    | .error _ => .ok s
  | _, .done => .ok { s with contextDone := true }
  | .polling, .leave => do
    ensure s.contextDone .refused
    return s.stop none
  | .polling, .poll now attemptID => .ok { s with phase := .recovering {
      attemptID, executors := scheduler.executors, resources := scheduler.resources
      leaseOwner := scheduler.leaseOwner, now, leaseDuration := scheduler.leaseDuration } }
  | .recovering input, .recover =>
    if s.contextDone then .ok (s.stop (some .context)) else do
      ensure input.leaseValid .refused
      match s.db.recoverWorkJobs input.executors input.resources input.now with
      | .ok db => return { s with db, phase := .choosing input }
      | .error _ => .error .refused
  | .choosing input, .choose =>
    if s.contextDone then .ok (s.stop (some .context)) else
      match s.db.nextClaimableWorkJob input.executors with
      | some row => .ok { s with phase := .claiming input row.1 row.2.kind }
      | none => .ok { s with phase := .polling }
  | .claiming input id kind, .claim =>
    if s.contextDone then .ok (s.stop (some .context)) else
      match s.db.claimHead input (input.executors.filterMap (·.media?)) id kind with
      | .ok (claim, db) => .ok ({ s with db }.begin scheduler claim)
      | .error .noWork => .ok { s with phase := .polling }
      | .error _ => .error .refused
  | .executing e, .tick now => do
    ensure e.heartbeatDone.isNone .refused
    return s.tick scheduler e now
  | .executing e, .stopHeartbeat => do
    ensure (e.heartbeatDone.isNone ∧ s.executionDone e) .refused
    return s.withExecution { e with heartbeatDone := some none }
  | .executing e, .bindPlan now plan => do
    ensure (e.executor = .working) .refused
    s.call e (s.db.bindRenderPlan e.claim now plan) .working
  | .executing e, .reblock now resourceID => do
    ensure (e.executor = .working) .refused
    s.call e (s.db.reblockMediaTranscriptResource e.claim now resourceID) (.returning none)
  | .executing e, .publish now publication => do
    ensure (e.executor = .working) .refused
    s.call e (s.db.publish e.claim now publication) (.returning none)
  | .executing e, .giveUp => do
    ensure (e.executor = .working ∧ s.executionDone e) .refused
    return s.withExecution { e with executor := .returning (some .context) }
  | .executing e, .returnExecute =>
    match e.executor with
    | .returning error =>
      .ok (s.withExecution { e with cancelled := true, executor := .returned error })
    | _ => .error .refused
  | .executing e, .finish =>
    match e.executor, e.heartbeatDone with
    | .returned executed, some heartbeat => .ok (s.finish executed heartbeat)
    | _, _ => .error .refused
  | _, _ => .error .refused

end SchedulerState

/-! ## Claims resolve to their executor -/

/-- What a claim has of the request it answers. -/
structure WorkJobClaim.Answers (claim : WorkJobClaim) (input : ClaimWorkJobInput) : Prop where
  jobID : claim.jobID ≠ 0
  attemptID : claim.attemptID = input.attemptID
  leaseOwner : claim.leaseOwner = input.leaseOwner
  executor : ∃ executor, input.executors.find? (·.kind == claim.kind) = some executor ∧
    executor.version = claim.executorVersion ∧ executor.target = claim.executorTarget

namespace WorkDatabase

variable {db db' : WorkDatabase} {claim : WorkJobClaim} {input : ClaimWorkJobInput} {id : ID}

theorem lease_claim {db' : WorkDatabase} {claim claim' : WorkJobClaim}
    (h : db.lease claim = .ok (claim', db')) : claim = claim' := by
  simp only [lease, steps_ok, Prod.mk.injEq] at h
  obtain ⟨-, -, hclaim, -⟩ := h
  exact hclaim

variable {kind : WorkJobKind}

theorem claimRow_answers {invalid : WorkError} {sound : WorkJob → Bool}
    {subject : WorkJob → Option ClaimSubject}
    (hexecutors : validateWorkExecutorRegistrations input.executors)
    (htarget : ∃ length, executorLimits kind = some (false, length))
    (h : db.claimRow input id kind invalid sound subject = .ok (claim, db')) :
    claim.Answers input := by
  simp only [claimRow, steps_ok, Option.filter_eq_some_iff] at h
  obtain ⟨⟨hid, hversion⟩, job, ⟨-, hjob⟩, -, _, -, hlease⟩ := h
  obtain rfl := lease_claim hlease
  rw [Bool.and_eq_true, decide_eq_true_iff] at hjob
  obtain ⟨hkind, -⟩ := hjob
  refine ⟨hid, rfl, rfl, ?_⟩
  show ∃ executor, input.executors.find? (·.kind == job.kind) = some executor ∧
    executor.version = executorVersion kind input.executors ∧ executor.target = []
  rw [hkind]
  cases hfind : input.executors.find? (·.kind == kind) with
  | none => simp [executorVersion, hfind] at hversion
  | some executor =>
    refine ⟨executor, rfl, by simp [executorVersion, hfind], ?_⟩
    -- a valid executor of the kind has no target
    obtain ⟨-, -, hall, -⟩ := of_decide_eq_true hexecutors
    have hvalid := all_eq_true.1 hall executor (mem_of_find?_eq_some hfind)
    obtain ⟨_, hlimits⟩ := htarget
    have hexecutor : executor.kind = kind := by simpa using find?_some hfind
    rw [WorkExecutorRegistration.valid, hexecutor, hlimits] at hvalid
    simpa using (of_decide_eq_true hvalid).1

theorem find?_media {executors : List WorkExecutorRegistration} {kind : MediaJobKind}
    {media : MediaExecutorRegistration}
    (h : (executors.filterMap (·.media?)).find? (·.kind == kind) = some media) :
    executors.find? (·.kind == .media kind) = some ⟨.media kind, media.version, media.target⟩ := by
  have hpred : (fun executor : WorkExecutorRegistration =>
      executor.media?.any (·.kind == kind)) = fun executor => executor.kind == .media kind := by
    funext executor
    obtain ⟨kind', _, _⟩ := executor
    cases kind' <;> simp [WorkExecutorRegistration.media?]
  rw [find?_filterMap, hpred, Option.bind_eq_some_iff] at h
  obtain ⟨_, hexecutor, hmedia⟩ := h
  obtain rfl := media?_eq_some.1 hmedia
  have hkind : WorkJobKind.media media.kind = .media kind := by
    simpa using find?_some hexecutor
  rw [hexecutor, hkind]

theorem claimMediaJob_answers
    (h : db.claimMediaJob input (input.executors.filterMap (·.media?)) id = .ok (claim, db')) :
    claim.Answers input := by
  simp only [claimMediaJob, steps_ok] at h
  obtain ⟨⟨-, hid, -⟩, mid, -, job, -, h⟩ := h
  split at h
  · next detail hdetail =>
    simp only [steps_ok] at h
    obtain ⟨-, _, -, executor, hexecutor, -, hlease⟩ := h
    obtain rfl := lease_claim hlease
    have hkind : job.kind = .media detail.kind := by rw [WorkJob.kind, hdetail]; rfl
    refine ⟨hid, rfl, rfl, ⟨⟨.media detail.kind, executor.version, executor.target⟩, ?_, rfl, rfl⟩⟩
    show input.executors.find? (·.kind == job.kind) = _
    rw [hkind]
    exact find?_media hexecutor
  · cases h

theorem claimHead_answers (hexecutors : validateWorkExecutorRegistrations input.executors)
    (h : db.claimHead input (input.executors.filterMap (·.media?)) id kind = .ok (claim, db')) :
    claim.Answers input := by
  cases kind with
  | media kind =>
    simp only [claimHead] at h
    split at h
    · cases h
    · exact claimMediaJob_answers h
  | sequencePreview => exact claimRow_answers hexecutors ⟨_, rfl⟩ h
  | sequenceFrames => exact claimRow_answers hexecutors ⟨_, rfl⟩ h
  | sequenceExport => exact claimRow_answers hexecutors ⟨_, rfl⟩ h
  | resourceAcquire =>
    simp only [claimHead, claimProductResourceJob, steps_ok] at h
    exact claimRow_answers hexecutors ⟨_, rfl⟩ h.2

/-! ## Renewals -/

/-- The attempt of the claim runs under its lease at `now`. -/
def holdsLease (db : WorkDatabase) (claim : WorkJobClaim) (now : Instant) : Bool :=
  db.attempts.any fun attempt =>
    attempt.id == claim.attemptID && attempt.jobID == claim.jobID &&
      attempt.generation == claim.generation && attempt.leaseOwner == claim.leaseOwner &&
      attempt.state == .running && now < attempt.leaseExpiresAt

/-- Of the attempts of a job, at most one has a given generation. -/
theorem AllFenced.length_generation_le (h : db.AllFenced) (jobID : ID) (generation : ℕ) :
    (db.attempts.filter fun attempt =>
      attempt.jobID == jobID && attempt.generation == generation).length ≤ 1 := by
  have hgenerations : (db.attemptsOf jobID).map (·.generation) =
      range' 1 (db.attemptsOf jobID).length := (h jobID).generations
  have hnodup : ((db.attemptsOf jobID).map (·.generation)).Nodup := by
    rw [hgenerations]
    exact nodup_range'
  have hfilter : (db.attempts.filter fun attempt =>
      attempt.jobID == jobID && attempt.generation == generation) =
      (db.attemptsOf jobID).filter (·.generation == generation) := by
    rw [attemptsOf, filter_filter]
    exact filter_congr fun attempt _ => Bool.and_comm _ _
  rw [hfilter, ← countP_eq_length_filter]
  refine le_trans (le_of_eq ?_) (nodup_iff_count_le_one.1 hnodup generation)
  rw [count, countP_map]
  rfl

/-- A lease that is held can be renewed. -/
theorem renewWorkJobLease_of_holdsLease {now : Instant} {duration : Duration} {lost : WorkError}
    (hfenced : db.AllFenced) (hjob : claim.jobID ≠ 0) (hattempt : claim.attemptID ≠ 0)
    (howner : claim.leaseOwner ≠ []) (hnow : now ≠ zeroTime)
    (hduration : 3 * second ≤ duration ∧ duration ≤ 600 * second)
    (hholds : db.holdsLease claim now) :
    ∃ db', db.renewWorkJobLease claim now duration lost = .ok db' := by
  simp only [renewWorkJobLease, exists_bind_ok, ensure_ok, pure_ok, exists_const, exists_eq',
    and_true]
  refine ⟨⟨hjob, hattempt, howner, hnow, hduration⟩, le_antisymm ?_ ?_⟩
  · -- the statement finds no more than one row
    refine le_trans (List.Sublist.length_le ?_)
      (hfenced.length_generation_le claim.jobID claim.generation)
    refine monotone_filter_right _ fun attempt hattempt => ?_
    simp only [Bool.and_eq_true, beq_iff_eq] at hattempt ⊢
    exact ⟨hattempt.1.1.1.1.2, hattempt.1.1.1.2⟩
  · obtain ⟨_, hmem, hattempt⟩ := any_eq_true.1 hholds
    exact length_pos_of_mem (mem_filter.2 ⟨hmem, hattempt⟩)

end WorkDatabase

/-! ## Undisturbed runs -/

/-- A call was not refused for a lost lease. -/
def notLost : Except WorkError WorkDatabase → Bool
  | .ok _ => true
  | .error error => !error.leaseLost

namespace SchedulerState

/-- The heartbeat ticks while the attempt runs under its lease and its context is not done, and
    no call of the executor is refused for a lost lease. -/
def undisturbed (s : SchedulerState) (event : SchedulerEvent) : Bool :=
  match s.phase, event with
  | .executing e, .tick now => !s.executionDone e && now ≠ zeroTime && s.db.holdsLease e.claim now
  | .executing e, .bindPlan now plan =>
    s.contextDone || notLost (s.db.bindRenderPlan e.claim now plan)
  | .executing e, .reblock now resourceID =>
    s.contextDone || notLost (s.db.reblockMediaTranscriptResource e.claim now resourceID)
  | .executing e, .publish now publication =>
    s.contextDone || notLost (s.db.publish e.claim now publication)
  | _, _ => true

end SchedulerState

/-- What holds of a job in execution, if nothing disturbs it. -/
structure Execution.Sound (scheduler : WorkScheduler) (contextDone : Bool) (e : Execution) :
    Prop where
  jobID : e.claim.jobID ≠ 0
  attemptID : e.claim.attemptID ≠ 0
  leaseOwner : e.claim.leaseOwner ≠ []
  leaseDuration : 3 * second ≤ scheduler.leaseDuration ∧ scheduler.leaseDuration ≤ 600 * second
  cancelled : e.cancelled → ∃ error, e.executor = .returned error
  failed : ∀ error, e.executor = .returning (some error) ∨ e.executor = .returned (some error) →
    contextDone
  heartbeat : ∀ error, e.heartbeatDone ≠ some (some error)

/-- The request that a phase works on is one of the scheduler. -/
structure ClaimWorkJobInput.Sound (scheduler : WorkScheduler) (input : ClaimWorkJobInput) :
    Prop where
  executors : input.executors = scheduler.executors
  leaseDuration : input.leaseDuration = scheduler.leaseDuration

/-- What holds of a phase, if nothing disturbs the jobs. -/
def SchedulerPhase.Sound (scheduler : WorkScheduler) (contextDone : Bool) : SchedulerPhase → Prop
  | .polling => True
  | .recovering input => input.Sound scheduler
  | .choosing input | .claiming input _ _ => input.Sound scheduler ∧ input.leaseValid ∧
      validateWorkExecutorRegistrations input.executors
  | .executing e => e.Sound scheduler contextDone
  | .returned _ => contextDone

variable {e : Execution} {contextDone : Bool}

theorem Execution.Sound.mono {scheduler : WorkScheduler}
    (h : e.Sound scheduler contextDone) : e.Sound scheduler true :=
  ⟨h.jobID, h.attemptID, h.leaseOwner, h.leaseDuration, h.cancelled, fun _ _ => rfl, h.heartbeat⟩

theorem SchedulerPhase.Sound.mono {scheduler : WorkScheduler}
    {phase : SchedulerPhase} (h : phase.Sound scheduler contextDone) :
    phase.Sound scheduler true := by
  cases phase with
  | executing e => exact Execution.Sound.mono h
  | returned error => rfl
  | _ => exact h

namespace SchedulerState

/-- The invariant of undisturbed runs. -/
structure Sound (scheduler : WorkScheduler) (s : SchedulerState) : Prop where
  fenced : s.db.AllFenced
  phase : s.phase.Sound scheduler s.contextDone
  finished : ∀ outcome ∈ s.finished, outcome.1 = none → outcome.2 = none

variable {scheduler : WorkScheduler} {s s' : SchedulerState}

section

variable (h : s.Sound scheduler)
include h

theorem Sound.withPhase {phase : SchedulerPhase}
    (hphase : phase.Sound scheduler s.contextDone) : Sound scheduler { s with phase } :=
  ⟨h.fenced, hphase, h.finished⟩

theorem Sound.withDatabase {request : WorkRequest} {db : WorkDatabase}
    (hdb : s.db.serve request = .ok db) : Sound scheduler { s with db } :=
  ⟨h.fenced.moves (serve_moves h.fenced hdb), h.phase, h.finished⟩

theorem Sound.execution (hphase : s.phase = .executing e) : e.Sound scheduler s.contextDone := by
  have he := h.phase
  rwa [hphase] at he

end

theorem Execution.Sound.returning {contextDone : Bool}
    (h : e.Sound scheduler contextDone) (hworking : e.executor = .working)
    {error : Option RunError} (herror : error.isSome → contextDone) :
    Execution.Sound scheduler contextDone { e with executor := .returning error } := by
  refine ⟨h.jobID, h.attemptID, h.leaseOwner, h.leaseDuration, fun hcancelled => ?_,
    fun failure hfailure => ?_, h.heartbeat⟩
  · obtain ⟨_, hreturned⟩ := h.cancelled hcancelled
    rw [hworking] at hreturned
    cases hreturned
  · rcases hfailure with hfailure | hfailure
    · obtain rfl := ExecutorState.returning.inj hfailure
      exact herror rfl
    · cases hfailure

section

variable (h : s.Sound scheduler)
include h

section

variable (hphase : s.phase = .executing e)
include hphase

/-- While the executor works, only the context of `Run` ends its execution. -/
theorem Sound.contextDone_of_executionDone (hworking : e.executor = .working)
    (hdone : s.executionDone e) : s.contextDone := by
  rcases Bool.or_eq_true_iff.1 hdone with hcontext | hcancelled
  · exact hcontext
  · obtain ⟨_, hreturned⟩ := (h.execution hphase).cancelled hcancelled
    rw [hworking] at hreturned
    cases hreturned

/-- A call of the executor that is not refused for a lost lease. -/
theorem Sound.call (hworking : e.executor = .working) (request : WorkRequest) {next : ExecutorState}
    (hnext : next = .working ∨ next = .returning none)
    (hnotLost : s.contextDone || notLost (s.db.serve request))
    (hcall : s.call e (s.db.serve request) next = .ok s') : s'.Sound scheduler := by
  have he := h.execution hphase
  unfold SchedulerState.call at hcall
  split at hcall
  · next hdone =>
    obtain ⟨⟩ := hcall
    exact h.withPhase (Execution.Sound.returning he hworking fun _ =>
      h.contextDone_of_executionDone hphase hworking hdone)
  · next hdone =>
    split at hcall
    · next db hdb =>
      obtain ⟨⟩ := hcall
      refine (h.withDatabase hdb).withPhase ?_
      rcases hnext with rfl | rfl
      · rw [← hworking]
        exact he
      · exact Execution.Sound.returning he hworking fun hnone => by cases hnone
    · next error herror =>
      -- a lost lease is ruled out, unless the context was done, which it was not
      split at hcall
      · next hlost =>
        rw [herror, notLost, hlost, Bool.not_true, Bool.or_false] at hnotLost
        exact absurd (Bool.or_eq_true_iff.2 (.inl hnotLost)) hdone
      · cases hcall

/-- A tick of the heartbeat while the lease is held. -/
theorem Sound.tick {now : Instant} (hundisturbed : s.undisturbed (.tick now)) :
    (s.tick scheduler e now).Sound scheduler := by
  have he := h.execution hphase
  simp only [undisturbed, hphase, Bool.and_eq_true, Bool.not_eq_true', decide_eq_true_iff]
    at hundisturbed
  obtain ⟨⟨hdone, hnow⟩, hholds⟩ := hundisturbed
  obtain ⟨db, hdb⟩ : ∃ db, s.db.serve (.renew e.claim now scheduler.leaseDuration) = .ok db :=
    renewWorkJobLease_of_holdsLease h.fenced he.jobID he.attemptID he.leaseOwner hnow
      he.leaseDuration hholds
  have hrenewed : s.db.renewWorkJobLease e.claim now scheduler.leaseDuration .workLeaseLost =
    .ok db := hdb
  rw [SchedulerState.tick, if_neg (by rw [hdone]; exact Bool.false_ne_true), hrenewed]
  exact (h.withDatabase hdb).withPhase he

end

/-- The claim of a job is executed. -/
theorem Sound.begin {input : ClaimWorkJobInput}
    (hinput : input.Sound scheduler) (hlease : input.leaseValid) {claim : WorkJobClaim}
    (hclaim : claim.Answers input) : (s.begin scheduler claim).Sound scheduler := by
  obtain ⟨_, hfind, hversion, htarget⟩ := hclaim.executor
  rw [hinput.executors] at hfind
  rw [SchedulerState.begin, hfind]
  dsimp only
  rw [if_pos ⟨hversion, htarget⟩]
  obtain ⟨hattempt, howner, -, -, hshort, hlong⟩ := of_decide_eq_true hlease
  refine h.withPhase ⟨hclaim.jobID, ?_, ?_, ?_, fun hcancelled => ?_, fun error herror => ?_,
    fun error herror => ?_⟩
  · exact hclaim.attemptID ▸ hattempt
  · exact hclaim.leaseOwner ▸ howner
  · exact hinput.leaseDuration ▸ ⟨hshort, hlong⟩
  · cases hcancelled
  · rcases herror with herror | herror <;> cases herror
  · cases herror

theorem Sound.finish (hphase : s.phase = .executing e)
    {executed heartbeat : Option RunError} (hexecuted : e.executor = .returned executed)
    (hheartbeat : e.heartbeatDone = some heartbeat) :
    (s.finish executed heartbeat).Sound scheduler := by
  have he := h.execution hphase
  obtain rfl : heartbeat = none := by
    cases heartbeat with
    | none => rfl
    | some error => exact absurd hheartbeat (he.heartbeat error)
  have hfinished : ∀ outcome ∈ s.finished ++ [(executed, none <|> executed)],
      outcome.1 = none → outcome.2 = none := by
    intro outcome hmem hnone
    rcases mem_append.1 hmem with hmem | hmem
    · exact h.finished outcome hmem hnone
    · obtain rfl := mem_singleton.1 hmem
      exact hnone
  cases executed with
  | none => exact ⟨h.fenced, trivial, hfinished⟩
  | some error => exact ⟨h.fenced, he.failed error (.inr hexecuted), hfinished⟩

/-- A step of an undisturbed run keeps the invariant. -/
theorem serve_sound {event : SchedulerEvent}
    (hundisturbed : s.undisturbed event) (hserve : serve scheduler s event = .ok s') :
    s'.Sound scheduler := by
  have hphases := h.phase
  -- One case for each event where it can happen, in the order of `serve`.
  unfold serve at hserve
  split at hserve
  · split at hserve
    · next db hdb =>
      obtain ⟨⟩ := hserve
      exact h.withDatabase hdb
    · obtain ⟨⟩ := hserve
      exact h
  · obtain ⟨⟩ := hserve
    exact ⟨h.fenced, h.phase.mono, h.finished⟩
  · simp only [steps_ok] at hserve
    obtain ⟨hdone, rfl⟩ := hserve
    exact h.withPhase hdone
  · obtain ⟨⟩ := hserve
    exact h.withPhase ⟨rfl, rfl⟩
  · next input hphase =>
    rw [hphase] at hphases
    split at hserve
    · next hdone =>
      obtain ⟨⟩ := hserve
      exact h.withPhase hdone
    · simp only [steps_ok] at hserve
      obtain ⟨hlease, hserve⟩ := hserve
      split at hserve
      · next db hdb =>
        obtain rfl := pure_ok.1 hserve
        obtain ⟨_, -, hmedia, -⟩ := recoverWorkJobs_ok hdb
        have hserved : s.db.serve (.recover input.executors input.resources input.now) =
          .ok db := hdb
        exact (h.withDatabase hserved).withPhase
          ⟨hphases, hlease, (mediaExecutorRegistrations_ok.1 hmedia).1⟩
      · cases hserve
  · next input hphase =>
    rw [hphase] at hphases
    split at hserve
    · next hdone =>
      obtain ⟨⟩ := hserve
      exact h.withPhase hdone
    · split at hserve
      · obtain ⟨⟩ := hserve
        exact h.withPhase hphases
      · obtain ⟨⟩ := hserve
        exact h.withPhase trivial
  · next input id kind hphase =>
    rw [hphase] at hphases
    obtain ⟨hinput, hlease, hexecutors⟩ := hphases
    split at hserve
    · next hdone =>
      obtain ⟨⟩ := hserve
      exact h.withPhase hdone
    · split at hserve
      · next claim db hdb =>
        obtain ⟨⟩ := hserve
        have hserved : s.db.serve (.claim input id kind) = .ok db := by
          simp only [WorkDatabase.serve, steps_ok, mediaExecutorRegistrations_ok]
          exact ⟨_, ⟨hexecutors, rfl⟩, _, hdb, rfl⟩
        exact (h.withDatabase hserved).begin hinput hlease (claimHead_answers hexecutors hdb)
      · obtain ⟨⟩ := hserve
        exact h.withPhase trivial
      · cases hserve
  · next e now hphase =>
    simp only [steps_ok] at hserve
    obtain ⟨-, rfl⟩ := hserve
    exact h.tick hphase hundisturbed
  · next e hphase =>
    have he := h.execution hphase
    simp only [steps_ok] at hserve
    obtain ⟨-, rfl⟩ := hserve
    exact h.withPhase ⟨he.jobID, he.attemptID, he.leaseOwner, he.leaseDuration, he.cancelled,
      he.failed, fun error herror => by cases herror⟩
  · next e now plan hphase =>
    simp only [steps_ok] at hserve
    simp only [undisturbed, hphase] at hundisturbed
    exact h.call hphase hserve.1 (.bindRenderPlan e.claim now plan) (.inl rfl) hundisturbed hserve.2
  · next e now resourceID hphase =>
    simp only [steps_ok] at hserve
    simp only [undisturbed, hphase] at hundisturbed
    exact h.call hphase hserve.1 (.reblockTranscripts e.claim now resourceID) (.inr rfl)
      hundisturbed hserve.2
  · next e now publication hphase =>
    simp only [steps_ok] at hserve
    simp only [undisturbed, hphase] at hundisturbed
    exact h.call hphase hserve.1 (.publish e.claim now publication) (.inr rfl) hundisturbed hserve.2
  · next e hphase =>
    simp only [steps_ok] at hserve
    obtain ⟨⟨hworking, hdone⟩, rfl⟩ := hserve
    exact h.withPhase (Execution.Sound.returning (h.execution hphase) hworking fun _ =>
      h.contextDone_of_executionDone hphase hworking hdone)
  · next e hphase =>
    have he := h.execution hphase
    split at hserve
    · next error hreturning =>
      obtain ⟨⟩ := hserve
      refine h.withPhase ⟨he.jobID, he.attemptID, he.leaseOwner, he.leaseDuration,
        fun _ => ⟨error, rfl⟩, fun failure hfailure => ?_, he.heartbeat⟩
      rcases hfailure with hfailure | hfailure
      · cases hfailure
      · obtain rfl := ExecutorState.returned.inj hfailure
        exact he.failed failure (.inl hreturning)
    · cases hserve
  · next e hphase =>
    split at hserve
    · next executed heartbeat hexecuted hheartbeat =>
      obtain ⟨⟩ := hserve
      exact h.finish hphase hexecuted hheartbeat
    · cases hserve
  · cases hserve

end

/-- `Run` begins, on a database with its history. -/
structure Begins (s : SchedulerState) : Prop where
  phase : s.phase = .polling
  finished : s.finished = []
  db : ∃ origin : WorkDatabase, origin.attempts = [] ∧ origin.Runs s.db

theorem Begins.sound (h : s.Begins) : s.Sound scheduler := by
  obtain ⟨_, hattempts, hruns⟩ := h.db
  refine ⟨WorkDatabase.Runs.allFenced hruns (allFenced_of_empty hattempts), ?_, ?_⟩
  · rw [h.phase]
    trivial
  · rw [h.finished]
    simp

end SchedulerState

/-- A scheduler with one executor. -/
def schedulerOf (executor : WorkExecutorRegistration) : WorkScheduler where
  executors := [executor]
  resources := []
  leaseOwner := ['w']
  leaseDuration := 30 * second

/-- The scheduler of identifications, and one of exports. -/
def identifyScheduler : WorkScheduler := schedulerOf ⟨.media .identify, ['1'], []⟩

@[inherit_doc identifyScheduler]
def exportScheduler : WorkScheduler := schedulerOf ⟨.sequenceExport, ['1'], []⟩

/-- `Run` begins on a database without work, with one asset. -/
def idleScheduler : SchedulerState where
  db := idleDatabase (Table.set ∅ 10 (registeredAsset false))
  contextDone := false
  phase := .polling
  finished := []

/-- An export without inputs. -/
def exportJob : WorkJob where
  detail := .sequenceExport ⟨['1'], [], none, none⟩
  state := .queued
  priorityClass := .background
  createdAt := 0
  cancellationRequested := false
  producerVersion := ['1']
  parameters := []
  intact := true
  prerequisites := []
  terminalErrorCode := none

/-- A job is enqueued and claimed. -/
def claimed (job : WorkJob) : List SchedulerEvent :=
  [.transaction (.enqueue 20 job), .poll 0 31, .recover, .choose, .claim]

theorem idleScheduler_begins : idleScheduler.Begins := ⟨rfl, rfl, _, rfl, .refl _⟩

end OpenCut
