import OpenCut.Launcher.Runtime
import OpenCut.Lib.Machine
import OpenCut.Lib.Table

/-!
# The handoff to a candidate

The loop of `RunB0` and `runManagedRelease` (`internal/launcher/launcher.go`) with the sessions of
its broker (`sidecar/broker/broker.go`). A candidate is started, and if it registers, reports that
it is ready and does not exit for a while, it is confirmed.

That a session registered or became ready is also put into a buffer, under its subject, which is
`payload` for every release. Whoever waits looks at the sessions first and takes a message only if
that does not do. So messages stay: a message of the release before lets the candidate pass
(`unready_confirmed`). If there is none when the candidate is started, and no session, then a
confirmed candidate was ready (`confirmed_was_ready`).
-/

namespace OpenCut

open Outcome Except

/-! ## The broker -/

/-- The subject under which every release registers. -/
def payload : Text := "payload".toList

/-- Where the handler of a session stands: it has to announce the registration or that the session
    is ready, or it reads. -/
inductive HandlerPhase
  | announcing
  | reading
  | notifying
deriving DecidableEq

/-- A session in the table of the broker, with the number of processes that had been started when
    it registered. -/
structure BrokerSession where
  ready : Bool
  handler : HandlerPhase
  startedBefore : Nat

/-- A send to a buffered channel that is given up if the buffer is full. -/
def push (buffer : List Text) (subject : Text) : List Text :=
  if buffer.length < 32 then buffer ++ [subject] else buffer

/-! ## The launcher -/

/-- What `runManagedRelease` is given. -/
structure ManagedRelease where
  runtime : RuntimeState
  selected : Text
  isCandidate : Bool

/-- Where the loop stands. `checked` says that the waiting function has looked at the sessions in
    vain and is about to take a message. -/
inductive LauncherPhase
  | loading
  | installing
  | starting (release : ManagedRelease)
  | waitingRegistered (release : ManagedRelease) (checked : Bool)
  | waitingReady (release : ManagedRelease) (checked : Bool)
  | holding (release : ManagedRelease)
  | confirming (release : ManagedRelease)
  | running (release : ManagedRelease)
  | finished (release : ManagedRelease)
  | draining
  | returned

/-- A candidate that was confirmed, and whether a session that registered after its process was
    started had reported that it is ready. -/
structure Confirmation where
  version : Text
  wasReady : Bool
deriving DecidableEq

/-- The launcher, its broker and the state file. -/
structure HandoffState where
  file : Option RuntimeState
  sessions : Table Text BrokerSession
  registered : List Text
  ready : List Text
  /-- How many processes were started. -/
  started : Nat
  /-- When the sessions of releases that have reported to be ready had registered. -/
  reported : List Nat
  phase : LauncherPhase
  confirmations : List Confirmation

/-- What happens next: to a session, to the state file, or in the launcher. -/
inductive HandoffEvent
  | connect (subject : Text)
  | announce (subject : Text)
  | report (subject : Text) (ready : Bool)
  | notify (subject : Text)
  | disconnect (subject : Text)
  | write (file : Option RuntimeState)
  | load
  | installed
  | start
  | checkRegistered
  | receiveRegistered
  | checkReady
  | receiveReady
  | hold
  | confirm
  | exit
  | next
  | absent
  | fail

/-- The event can not happen here. -/
inductive HandoffRefused
  | refused

namespace HandoffState

variable (s : HandoffState) (subject : Text)

/-- The session of a subject, changed. -/
def withSession (session : BrokerSession) : HandoffState :=
  { s with sessions := s.sessions.set subject session }

/-- `handleRegister` up to the table: a subject that has a session is sent away. -/
def connect : HandoffState :=
  match s.sessions.find? subject with
  | none => s.withSession subject ⟨false, .announcing, s.started⟩
  | some _ => s

/-- A `state` event in `readSession`. -/
def report (session : BrokerSession) (ready : Bool) : HandoffState :=
  let changed := session.ready ≠ ready
  { s.withSession subject { session with
      ready, handler := if changed ∧ ready then .notifying else .reading } with
    reported := if subject = payload ∧ ready then s.reported ++ [session.startedBefore]
      else s.reported }

variable (channel : Text)

/-- `failCandidate`: a candidate is rolled back. -/
def failCandidate (s : HandoffState) (release : ManagedRelease) : HandoffState :=
  if release.isCandidate then
    match release.runtime.rollback channel with
    | .ok runtime => { s with file := some runtime, phase := .returned }
    | .error _ => { s with phase := .returned }
  else { s with phase := .returned }

/-- The end of the stability hold: a candidate is confirmed. -/
def confirmRelease (s : HandoffState) (release : ManagedRelease) : HandoffState :=
  if release.isCandidate then
    match release.runtime.confirm channel release.selected with
    | .ok runtime => { s with
        file := some runtime, phase := .running release
        confirmations := s.confirmations ++ [⟨release.selected, s.reported.any (· == s.started)⟩] }
    | .error _ => { s with phase := .returned }
  else { s with phase := .running release }

/-- The choice of the release that is run. -/
def select (runtime : RuntimeState) : HandoffState :=
  if runtime.candidate ≠ [] then
    { s with phase := .starting ⟨runtime, runtime.candidate, true⟩ }
  else if runtime.active ≠ [] then
    { s with phase := .starting ⟨runtime, runtime.active, false⟩ }
  else { s with phase := .installing }

/-- The handler of a session. -/
def handle (phase : HandlerPhase) (step : BrokerSession → HandoffState) :
    Except HandoffRefused HandoffState :=
  match s.sessions.find? subject with
  | some session => if session.handler = phase then .ok (step session) else .error .refused
  | none => .error .refused

/-- One step. -/
def serve (s : HandoffState) (event : HandoffEvent) : Except HandoffRefused HandoffState :=
  match event, s.phase with
  | .connect subject, _ => .ok (s.connect subject)
  | .announce subject, _ => s.handle subject .announcing fun session =>
      { s.withSession subject { session with handler := .reading } with
        registered := push s.registered subject }
  | .report subject ready, _ => s.handle subject .reading fun session =>
      s.report subject session ready
  | .notify subject, _ => s.handle subject .notifying fun session =>
      { s.withSession subject { session with handler := .reading } with
        ready := push s.ready subject }
  | .disconnect subject, _ => s.handle subject .reading fun _ =>
      { s with sessions := s.sessions.erase subject }
  | .write file, _ => .ok { s with file }
  | .load, .loading =>
    match RuntimeState.load s.file channel with
    | .ok runtime => .ok (s.select runtime)
    | .error _ => .ok { s with phase := .returned }
  | .installed, .installing => .ok { s with phase := .loading }
  | .start, .starting release =>
    .ok { s with started := s.started + 1, phase := .waitingRegistered release false }
  | .checkRegistered, .waitingRegistered release false =>
    match s.sessions.find? payload with
    | some _ => .ok { s with phase := .waitingReady release false }
    | none => .ok { s with phase := .waitingRegistered release true }
  | .receiveRegistered, .waitingRegistered release true =>
    match s.registered with
    | subject :: registered => .ok { s with
        registered, phase := if subject = payload then .waitingReady release false
          else .waitingRegistered release false }
    | [] => .error .refused
  | .checkReady, .waitingReady release false =>
    match s.sessions.find? payload with
    | some session => .ok { s with
        phase := if session.ready then .holding release else .waitingReady release true }
    | none => .ok { s with phase := .waitingReady release true }
  | .receiveReady, .waitingReady release true =>
    match s.ready with
    | subject :: ready => .ok { s with
        ready, phase := if subject = payload then .holding release
          else .waitingReady release false }
    | [] => .error .refused
  | .hold, .holding release => .ok { s with phase := .confirming release }
  | .confirm, .confirming release => .ok (s.confirmRelease channel release)
  | .exit, .running release => .ok { s with phase := .finished release }
  | .next, .finished release =>
    match RuntimeState.load s.file channel with
    | .ok next => .ok { s with phase :=
        if next.candidate = [] ∨ next.candidate = release.selected then .returned else .draining }
    | .error _ => .ok { s with phase := .returned }
  | .absent, .draining =>
    match s.sessions.find? payload with
    | none => .ok { s with phase := .loading }
    | some _ => .error .refused
  | .fail, .starting release | .fail, .waitingRegistered release _
  | .fail, .waitingReady release _ | .fail, .holding release =>
    .ok (s.failCandidate channel release)
  | .fail, .installing | .fail, .running _ | .fail, .draining => .ok { s with phase := .returned }
  | _, _ => .error .refused

/-! ## Candidates that start clean -/

/-- When the process of a candidate is started, no release has a session, and no message that one
    was ready is left. -/
def startsClean (s : HandoffState) (event : HandoffEvent) : Bool :=
  match event, s.phase with
  | .start, .starting release => !release.isCandidate ||
      ((s.sessions.find? payload).isNone && !s.ready.any (· == payload))
  | _, _ => true

/-- A session that registered after the last process was started has reported to be ready. -/
def Reported (s : HandoffState) : Prop := s.started ∈ s.reported

/-- What the sessions and the messages say about releases is about the last process. -/
structure Fresh (s : HandoffState) : Prop where
  startedBefore : ∀ session, s.sessions.find? payload = some session →
    session.startedBefore = s.started
  ready : ∀ session, s.sessions.find? payload = some session →
    session.ready ∨ session.handler = .notifying → s.Reported
  message : payload ∈ s.ready → s.Reported

/-- What holds while a candidate is tested, and once it was ready. -/
def Tested (s : HandoffState) : LauncherPhase → Prop
  | .waitingRegistered release _ | .waitingReady release _ => release.isCandidate → s.Fresh
  | .holding release | .confirming release => release.isCandidate → s.Fresh ∧ s.Reported
  | _ => True

/-- The invariant of runs in which candidates start clean. -/
structure Sound (s : HandoffState) : Prop where
  tested : s.Tested s.phase
  confirmations : ∀ confirmation ∈ s.confirmations, confirmation.wasReady

variable {s s' : HandoffState} {subject : Text}

/-! ## Sessions -/

/-- A step of a handler: the launcher stays, and what was fresh stays so. -/
structure Handles (s s' : HandoffState) : Prop where
  phase : s'.phase = s.phase
  confirmations : s'.confirmations = s.confirmations
  fresh : s.Fresh → s'.Fresh
  reported : s.Reported → s'.Reported

theorem Handles.sound (h : Handles s s') (hs : s.Sound) : s'.Sound := by
  refine ⟨?_, by rw [h.confirmations]; exact hs.confirmations⟩
  have htested := hs.tested
  rw [h.phase]
  revert htested
  cases s.phase with
  | waitingRegistered => exact fun htested hc => h.fresh (htested hc)
  | waitingReady => exact fun htested hc => h.fresh (htested hc)
  | holding => exact fun htested hc => ⟨h.fresh (htested hc).1, h.reported (htested hc).2⟩
  | confirming =>
    exact fun htested hc => ⟨h.fresh (htested hc).1, h.reported (htested hc).2⟩
  | _ => exact id

variable {ready : List Text}

/-- What else changes, or a message that is received, leaves a fresh session fresh. -/
theorem Fresh.keep (h : s.Fresh) (file : Option RuntimeState) (registered : List Text)
    (phase : LauncherPhase) (hready : ready ⊆ s.ready) :
    Fresh { s with file, registered, ready, phase } :=
  ⟨h.startedBefore, h.ready, fun hmem => h.message (hready hmem)⟩

variable {session : BrokerSession}

/-- A session is put in the table, and perhaps a message into the buffer, that say no more than
    what has been reported. -/
theorem Fresh.update (h : s.Fresh) {reported : List Nat} (hreported : s.reported ⊆ reported)
    (hstarted : subject = payload → session.startedBefore = s.started)
    (hready : subject = payload → session.ready ∨ session.handler = .notifying →
      s.started ∈ reported)
    (hmessage : payload ∈ ready → payload ∈ s.ready ∨ s.started ∈ reported) :
    Fresh { s.withSession subject session with ready, reported } := by
  refine ⟨fun session' hsession' => ?_, fun session' hsession' hsays => ?_, fun hmem => ?_⟩
  · rcases Table.of_find?_set hsession' with ⟨hsubject, rfl⟩ | hbefore
    · exact hstarted hsubject.symm
    · exact h.startedBefore session' hbefore
  · rcases Table.of_find?_set hsession' with ⟨hsubject, rfl⟩ | hbefore
    · exact hready hsubject.symm hsays
    · exact hreported (h.ready session' hbefore hsays)
  · rcases hmessage hmem with hbefore | hnow
    · exact hreported (h.message hbefore)
    · exact hnow

theorem connect_handles (s : HandoffState) (subject : Text) : Handles s (s.connect subject) := by
  rw [connect]
  split
  · refine ⟨rfl, rfl, fun hfresh => hfresh.update (List.Subset.refl _) (fun _ => rfl)
      (fun _ hsays => ?_) .inl, id⟩
    rcases hsays with hsays | hsays <;> cases hsays
  · exact ⟨rfl, rfl, id, id⟩

/-- A handler goes back to reading. -/
theorem reading_handles (hsession : s.sessions.find? subject = some session)
    (hmessage : payload ∈ ready → payload ∈ s.ready ∨
      (subject = payload ∧ session.handler = .notifying)) (registered : List Text) :
    Handles s { s.withSession subject { session with handler := .reading } with
      registered, ready } := by
  refine ⟨rfl, rfl, fun hfresh => ?_, id⟩
  have hfresh' : Fresh { s.withSession subject { session with handler := .reading } with
      ready, reported := s.reported } := by
    refine hfresh.update (List.Subset.refl _)
      (fun hsubject => hfresh.startedBefore session (hsubject ▸ hsession))
      (fun hsubject hsays => ?_) fun hmem => ?_
    · rcases hsays with hsays | hsays
      · exact hfresh.ready session (hsubject ▸ hsession) (.inl hsays)
      · cases hsays
    · rcases hmessage hmem with hbefore | ⟨hsubject, hnotifying⟩
      · exact .inl hbefore
      · exact .inr (hfresh.ready session (hsubject ▸ hsession) (.inr hnotifying))
  exact ⟨hfresh'.startedBefore, hfresh'.ready, hfresh'.message⟩

theorem mem_push {buffer : List Text} {other : Text} (h : other ∈ push buffer subject) :
    other ∈ buffer ∨ other = subject := by
  rw [push] at h
  split at h
  · simpa using h
  · exact .inl h

theorem report_handles (hsession : s.sessions.find? subject = some session)
    (ready : Bool) : Handles s (s.report subject session ready) := by
  have hsubset : s.reported ⊆ if subject = payload ∧ ready then
      s.reported ++ [session.startedBefore] else s.reported := by
    split
    · exact List.subset_append_left _ _
    · exact List.Subset.refl _
  refine ⟨rfl, rfl, fun hfresh => hfresh.update hsubset
    (fun hsubject => hfresh.startedBefore session (hsubject ▸ hsession))
    (fun hsubject hsays => ?_) .inl, fun hreported => hsubset hreported⟩
  -- a session that is ready now has just reported it
  have hready : ready = true := by
    rcases hsays with hsays | hsays
    · exact hsays
    · simp only at hsays
      split at hsays
      · next h => exact h.2
      · cases hsays
  rw [if_pos ⟨hsubject, hready⟩, hfresh.startedBefore session (hsubject ▸ hsession)]
  simp

theorem disconnect_handles (s : HandoffState) (subject : Text) :
    Handles s { s with sessions := s.sessions.erase subject } := by
  exact ⟨rfl, rfl, fun hfresh => ⟨fun session hsession =>
    hfresh.startedBefore session (Table.of_find?_erase hsession).2, fun session hsession =>
    hfresh.ready session (Table.of_find?_erase hsession).2, hfresh.message⟩, id⟩

theorem handle_ok {phase : HandlerPhase} {step : BrokerSession → HandoffState}
    (h : s.handle subject phase step = .ok s') :
    ∃ session, s.sessions.find? subject = some session ∧ session.handler = phase ∧
      step session = s' := by
  rw [handle] at h
  split at h
  · next session hsession =>
    split at h
    · next hphase => exact ⟨session, hsession, hphase, ok.inj h⟩
    · cases h
  · cases h

/-! ## The launcher -/

theorem select_sound (hs : s.Sound) (runtime : RuntimeState) : (s.select runtime).Sound := by
  rw [select]
  split
  · exact ⟨trivial, hs.confirmations⟩
  · split <;> exact ⟨trivial, hs.confirmations⟩

theorem failCandidate_sound (hs : s.Sound) (channel : Text) (release : ManagedRelease) :
    (s.failCandidate channel release).Sound := by
  rw [failCandidate]
  split
  · split <;> exact ⟨trivial, hs.confirmations⟩
  · exact ⟨trivial, hs.confirmations⟩

variable {release : ManagedRelease}

/-- A candidate is confirmed after it was ready. -/
theorem confirmRelease_sound (hs : s.Sound) (channel : Text)
    (hready : release.isCandidate → s.Reported) : (s.confirmRelease channel release).Sound := by
  rw [confirmRelease]
  split
  · next hcandidate =>
    split
    · refine ⟨trivial, fun confirmation hmem => ?_⟩
      rcases List.mem_append.1 hmem with hmem | hmem
      · exact hs.confirmations confirmation hmem
      · obtain rfl := List.mem_singleton.1 hmem
        exact List.any_eq_true.2 ⟨s.started, hready hcandidate, beq_self_eq_true _⟩
    · exact ⟨trivial, hs.confirmations⟩
  · exact ⟨trivial, hs.confirmations⟩

/-- The process of a candidate that starts clean is tested on its own. -/
theorem start_sound (hs : s.Sound)
    (hphase : s.phase = .starting release) (hclean : s.startsClean .start) :
    Sound { s with started := s.started + 1, phase := .waitingRegistered release false } := by
  refine ⟨fun hcandidate => ?_, hs.confirmations⟩
  simp only [startsClean, hphase, hcandidate, Bool.not_true, Bool.false_or, Bool.and_eq_true,
    Option.isNone_iff_eq_none, Bool.not_eq_true', List.any_eq_false, beq_iff_eq] at hclean
  obtain ⟨hnone, hmessage⟩ := hclean
  refine ⟨fun session hsession => ?_, fun session hsession => ?_, fun hmem => ?_⟩
  · exact absurd (hnone.symm.trans hsession) (Option.some_ne_none session).symm
  · exact absurd (hnone.symm.trans hsession) (Option.some_ne_none session).symm
  · exact absurd rfl (hmessage payload hmem)

/-- A step of a run in which candidates start clean keeps the invariant. -/
theorem serve_sound {channel : Text} (hs : s.Sound) {event : HandoffEvent}
    (hclean : s.startsClean event) (h : serve channel s event = .ok s') : s'.Sound := by
  have htested := hs.tested
  have hsubset := List.Subset.refl s.ready
  -- One case for each event where it can happen, in the order of `serve`.
  unfold serve at h
  split at h
  · next subject =>
    obtain ⟨⟩ := h
    exact (connect_handles s subject).sound hs
  · obtain ⟨session, hsession, -, rfl⟩ := handle_ok h
    exact (reading_handles hsession .inl _).sound hs
  · next subject ready =>
    obtain ⟨session, hsession, -, rfl⟩ := handle_ok h
    exact (report_handles hsession ready).sound hs
  · obtain ⟨session, hsession, hnotifying, rfl⟩ := handle_ok h
    refine (reading_handles hsession (fun hmem => ?_) s.registered).sound hs
    exact (mem_push hmem).imp_right fun hsubject => ⟨hsubject.symm, hnotifying⟩
  · next subject =>
    obtain ⟨-, -, -, rfl⟩ := handle_ok h
    exact (disconnect_handles s subject).sound hs
  · obtain ⟨⟩ := h
    exact Handles.sound (s := s) ⟨rfl, rfl, fun hfresh => hfresh.keep _ _ _ hsubset, id⟩ hs
  · split at h
    · obtain ⟨⟩ := h
      exact select_sound hs _
    · obtain ⟨⟩ := h
      exact ⟨trivial, hs.confirmations⟩
  · obtain ⟨⟩ := h
    exact ⟨trivial, hs.confirmations⟩
  · next release hphase =>
    obtain ⟨⟩ := h
    exact start_sound hs hphase hclean
  · next release hphase =>
    rw [hphase] at htested
    split at h
    · obtain ⟨⟩ := h
      exact ⟨fun hc => (htested hc).keep _ _ _ hsubset, hs.confirmations⟩
    · obtain ⟨⟩ := h
      exact ⟨fun hc => (htested hc).keep _ _ _ hsubset, hs.confirmations⟩
  · next release hphase =>
    rw [hphase] at htested
    split at h
    · obtain ⟨⟩ := h
      refine ⟨?_, hs.confirmations⟩
      split
      · exact fun hc => (htested hc).keep _ _ _ hsubset
      · exact fun hc => (htested hc).keep _ _ _ hsubset
    · cases h
  · next release hphase =>
    rw [hphase] at htested
    split at h
    · next session hsession =>
      obtain ⟨⟩ := h
      refine ⟨?_, hs.confirmations⟩
      split
      · next hready =>
        exact fun hc => ⟨(htested hc).keep _ _ _ hsubset,
          (htested hc).ready session hsession (.inl hready)⟩
      · exact fun hc => (htested hc).keep _ _ _ hsubset
    · obtain ⟨⟩ := h
      exact ⟨fun hc => (htested hc).keep _ _ _ hsubset, hs.confirmations⟩
  · next release hphase =>
    rw [hphase] at htested
    split at h
    · next subject ready hready =>
      obtain ⟨⟩ := h
      have hrest : ready ⊆ s.ready := by
        rw [hready]
        exact List.subset_cons_self _ _
      refine ⟨?_, hs.confirmations⟩
      split
      · next hsubject =>
        refine fun hc => ⟨(htested hc).keep _ _ _ hrest, (htested hc).message ?_⟩
        rw [hready, hsubject]
        exact List.mem_cons_self
      · exact fun hc => (htested hc).keep _ _ _ hrest
    · cases h
  · next release hphase =>
    obtain ⟨⟩ := h
    rw [hphase] at htested
    exact ⟨fun hc => ⟨(htested hc).1.keep _ _ _ hsubset, (htested hc).2⟩, hs.confirmations⟩
  · next release hphase =>
    obtain ⟨⟩ := h
    rw [hphase] at htested
    exact confirmRelease_sound hs channel fun hc => (htested hc).2
  · obtain ⟨⟩ := h
    exact ⟨trivial, hs.confirmations⟩
  · split at h
    · obtain ⟨⟩ := h
      refine ⟨?_, hs.confirmations⟩
      split <;> trivial
    · obtain ⟨⟩ := h
      exact ⟨trivial, hs.confirmations⟩
  · split at h
    · obtain ⟨⟩ := h
      exact ⟨trivial, hs.confirmations⟩
    · cases h
  iterate 4
    obtain ⟨⟩ := h
    exact failCandidate_sound hs channel _
  iterate 3
    obtain ⟨⟩ := h
    exact ⟨trivial, hs.confirmations⟩
  cases h

/-- The launcher enters its loop. -/
structure Begins (s : HandoffState) : Prop where
  phase : s.phase = .loading
  confirmations : s.confirmations = []

theorem Begins.sound (h : s.Begins) : s.Sound := by
  refine ⟨?_, ?_⟩
  · rw [h.phase]
    trivial
  · rw [h.confirmations]
    simp

end HandoffState

open HandoffState in
/-- If, whenever the process of a candidate is started, no release has a session and no message
    that one was ready is left in the buffer, then a candidate is confirmed only after a session
    that registered after its process was started had reported to be ready. -/
theorem confirmed_was_ready {channel : Text} {start s : HandoffState} (hstart : start.Begins)
    (hrun : Machine.Reaches (serve channel) (fun s event => s.startsClean event) start s) :
    ∀ confirmation ∈ s.confirmations, confirmation.wasReady :=
  (Machine.Reaches.invariant Sound hrun
    (fun _ _ _ hclean hs hserve => serve_sound hs hclean hserve) hstart.sound).confirmations

/-! ## Two releases -/

/-- The channel of the releases. -/
def betaChannel : Text := "beta".toList

/-- The first release is active, and nothing runs yet. -/
def firstRelease : HandoffState where
  file := some ⟨1, 1, "1.0.0-beta.1".toList, [], "1.0.0-beta.1".toList, 1⟩
  sessions := ∅
  registered := []
  ready := []
  started := 0
  reported := []
  phase := .loading
  confirmations := []

/-- The second release is a candidate. -/
def secondPrepared : RuntimeState :=
  ⟨1, 2, "1.0.0-beta.1".toList, "1.0.0-beta.2".toList, "1.0.0-beta.1".toList, 2⟩

/-- The first release runs; its session is ready before the launcher looks. Then it exits. -/
def firstRuns : List HandoffEvent := [
  .load, .start, .connect payload, .announce payload, .checkRegistered, .report payload true,
  .notify payload, .checkReady, .hold, .confirm, .write (some secondPrepared),
  .disconnect payload, .exit, .next, .absent]

open HandoffState in
theorem confirmed_was_ready_second : ∃ s,
    Machine.Reaches (serve betaChannel) (fun s event => s.startsClean event)
      { firstRelease with file := some secondPrepared } s ∧
    s.confirmations.length = 1 ∧ ∀ confirmation ∈ s.confirmations, confirmation.wasReady := by
  obtain ⟨s, hrun, hlength⟩ : ∃ s, Machine.Reaches (serve betaChannel)
      (fun s event => s.startsClean event) { firstRelease with file := some secondPrepared } s ∧
      s.confirmations.length = 1 :=
    Machine.exists_of_play [.load, .start, .connect payload, .announce payload, .checkRegistered,
      .report payload true, .notify payload, .checkReady, .hold, .confirm] (by decide +kernel)
  exact ⟨s, hrun, hlength, confirmed_was_ready ⟨rfl, rfl⟩ hrun⟩

open HandoffState in
/-- The message of the first release, which nobody took, makes the launcher believe that the
    second one is ready, and the second one is confirmed. It had registered and was not ready. -/
theorem unready_confirmed : ∃ s,
    Machine.Reaches (serve betaChannel) (fun _ _ => True) firstRelease s ∧
    s.confirmations = [⟨"1.0.0-beta.2".toList, false⟩] ∧
    s.file.map (fun runtime => (runtime.active, runtime.lastGood)) =
      some ("1.0.0-beta.2".toList, "1.0.0-beta.2".toList) :=
  Machine.exists_of_play (firstRuns ++ [.load, .start, .connect payload, .announce payload,
    .checkRegistered, .checkReady, .receiveReady, .hold, .confirm]) (by decide +kernel)

end OpenCut
