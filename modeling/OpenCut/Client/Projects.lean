import OpenCut.Domain.Edit
import OpenCut.Lib.Machine
import OpenCut.Lib.Outcome

/-!
# The project state of the client

`packages/contracts/src/projects.ts`: the client shows the projects of a snapshot and follows the
activity of the server by a cursor. Every list call that returns replaces the state, whatever the
cursor of its snapshot, and an event that only moves the cursor keeps the status. So the state goes
forward, and is ready after an event, exactly if no snapshot is older than the state it replaces
and such an event meets a state that is ready (`projects_forward_iff`).
-/

namespace OpenCut

open Outcome Machine

variable {Project : Type}

/-! ## The model -/

/-- `ProjectSnapshot`. -/
structure ProjectSnapshot (Project : Type) where
  activityCursor : Nat
  projects : List Project

inductive ProjectStatus
  | connecting
  | ready
  | unavailable
deriving DecidableEq

/-- `ProjectState`. -/
structure ProjectState (Project : Type) where
  status : ProjectStatus
  activityCursor : Nat
  projects : List Project
  error : Option Text

/-- `ActivityEvent`, with whether it is of the kind `workspace.project-created`. -/
structure ProjectActivity where
  cursor : Nat
  projectCreated : Bool

/-- `incrementCursor`. -/
def incrementCursor (cursor : Nat) : Option Nat :=
  if cursor + 1 ≤ maxInt64 then some (cursor + 1) else none

/-- Who waits for a list call: a page or `create`, `start`, or the stream with an event. -/
inductive ListCaller
  | page
  | start
  | stream (event : Nat)

/-- Where `runStream` is. -/
inductive ActivityStream
  | idle
  | loading
  | reading (last : Nat)
  | reconciling
  | waiting
deriving DecidableEq

/-- The variables of `createContracts`, with the list calls that are under way and the cursors at
    which they were made, the cursor of the server, the snapshot whose projects are shown, and
    whether an event was processed since the stream failed. -/
structure Contracts (Project : Type) where
  state : ProjectState Project
  stream : ActivityStream
  calls : List (Nat × ListCaller)
  server : Nat
  shown : ProjectSnapshot Project
  processed : Bool

inductive ContractsEvent (Project : Type)
  | commit
  | start
  | list
  | respond (call : Nat) (snapshot : ProjectSnapshot Project)
  | reject (call : Nat) (error : Text)
  | activity (event : ProjectActivity)
  | fail (error : Text)
  | reconnect

namespace Contracts

/-- `initialState`. -/
def initial : Contracts Project := ⟨⟨.connecting, 0, [], none⟩, .idle, [], 0, ⟨0, []⟩, false⟩

/-- `read.list`, up to the request. -/
def list (c : Contracts Project) (caller : ListCaller) : Contracts Project :=
  { c with calls := c.calls ++ [(c.server, caller)] }

/-- `applySnapshot`. -/
def applySnapshot (c : Contracts Project) (snapshot : ProjectSnapshot Project) :
    Contracts Project :=
  { c with state := ⟨.ready, snapshot.activityCursor, snapshot.projects, none⟩, shown := snapshot }

/-- What the caller does once the snapshot is applied. -/
def resolve (c : Contracts Project) : ListCaller → Contracts Project
  | .page => c
  | .start => { c with stream := .reading c.state.activityCursor }
  | .stream event => { c with stream := .reading event, processed := true }

/-- The state after an exception. -/
def unavailable (c : Contracts Project) (error : Text) (stream : ActivityStream) :
    Contracts Project :=
  { c with state := { c.state with status := .unavailable, error := some error }
           stream, processed := false }

/-- `reconcileActivity`, up to the request of a list. -/
def reconcileActivity (c : Contracts Project) (event : ProjectActivity) : Contracts Project :=
  match incrementCursor c.state.activityCursor with
  | none => c.unavailable "cursor overflow".toList .waiting
  | some next =>
    if event.cursor ≠ next ∨ event.projectCreated then
      { c.list (.stream event.cursor) with stream := .reconciling }
    else
      { c with state := { c.state with activityCursor := event.cursor }
               stream := .reading event.cursor, processed := true }

/-- One step of the server, of a caller, of a list call or of the stream. The snapshot of a list
    call is taken between its request and its response. -/
def serve (c : Contracts Project) : ContractsEvent Project → Except Unit (Contracts Project)
  | .commit => .ok { c with server := c.server + 1 }
  | .start => do
    ensure (c.stream = .idle) ()
    return { c.list .start with
      state := { c.state with status := .connecting, error := none }, stream := .loading }
  | .list => .ok (c.list .page)
  | .respond call snapshot => do
    let (request, caller) ← need c.calls[call]? ()
    ensure (request ≤ snapshot.activityCursor ∧ snapshot.activityCursor ≤ c.server) ()
    return ({ c with calls := c.calls.eraseIdx call }.applySnapshot snapshot).resolve caller
  | .reject call error => do
    let (_, caller) ← need c.calls[call]? ()
    let c := { c with calls := c.calls.eraseIdx call }
    return match caller with
      | .page => c
      | .start => c.unavailable error .loading
      | .stream _ => c.unavailable error .waiting
  | .activity event =>
    match c.stream with
    | .reading last => do
      ensure (last < event.cursor ∧ event.cursor ≤ c.server) ()
      return c.reconcileActivity event
    | _ => .error ()
  | .fail error =>
    match c.stream with
    | .reading _ => .ok (c.unavailable error .waiting)
    | _ => .error ()
  | .reconnect => do
    ensure (c.stream = .waiting) ()
    return { c with stream := .reading c.state.activityCursor }

/-! ## Going forward -/

/-- What every step keeps. -/
structure Sound (c : Contracts Project) : Prop where
  error : c.state.status = .ready → c.state.error = none
  shown : c.shown.activityCursor ≤ c.state.activityCursor
  projects : c.state.projects = c.shown.projects
  idle : c.stream = .idle → c.processed = false

/-- Once an event was processed after the last failure, the state is ready and has no error. -/
def Recovered (c : Contracts Project) : Prop :=
  c.processed → c.state.status = .ready ∧ c.state.error = none

/-- Neither the cursor nor the list that is shown goes back, and the state recovers. -/
def Forward (c c' : Contracts Project) : Prop :=
  c.state.activityCursor ≤ c'.state.activityCursor ∧
    c.shown.activityCursor ≤ c'.shown.activityCursor ∧ c'.Recovered

/-- A snapshot is not older than the state it replaces, and an event that only moves the cursor
    meets a state that is ready. -/
def Fresh (c : Contracts Project) : ContractsEvent Project → Prop
  | .respond _ snapshot => c.state.activityCursor ≤ snapshot.activityCursor
  | .activity event => incrementCursor c.state.activityCursor = some event.cursor →
      event.projectCreated = false → c.state.status = .ready
  | _ => True

variable {c c' : Contracts Project} {event : ContractsEvent Project}

/-- An event is reconciled. -/
theorem reconcileActivity_forward_iff (h : c.Sound) (hr : c.Recovered) (event : ProjectActivity) :
    (c.reconcileActivity event).Sound ∧
      (c.Forward (c.reconcileActivity event) ↔ c.Fresh (.activity event)) := by
  obtain ⟨herror, hshown, hprojects, -⟩ := h
  rw [reconcileActivity]
  split
  · next hnext =>
    exact ⟨⟨nofun, hshown, hprojects, fun _ => rfl⟩,
      iff_of_true ⟨le_rfl, le_rfl, nofun⟩ (by simp [Fresh, hnext])⟩
  · next next hnext =>
    have hlt : c.state.activityCursor < next := by
      simp only [incrementCursor, Option.ite_none_right_eq_some] at hnext
      obtain ⟨-, ⟨⟩⟩ := hnext
      exact Nat.lt_succ_self _
    split
    · next hlist =>
      refine ⟨⟨herror, hshown, hprojects, nofun⟩, ?_⟩
      have hplain : ¬(next = event.cursor ∧ event.projectCreated = false) := by
        rintro ⟨rfl, hcreated⟩
        simp [hcreated] at hlist
      simp only [Forward, list, le_refl, true_and, Fresh, hnext, Option.some.injEq]
      exact iff_of_true hr fun heq hcreated => absurd ⟨heq, hcreated⟩ hplain
    · next hplain =>
      simp only [not_or, not_not, Bool.not_eq_true] at hplain
      obtain ⟨rfl, hcreated⟩ := hplain
      refine ⟨⟨herror, hshown.trans hlt.le, hprojects, nofun⟩, ?_⟩
      simp only [Forward, Recovered, Fresh, hnext, hcreated, hlt.le, le_refl, true_and,
        forall_const]
      exact ⟨And.left, fun hready => ⟨hready, herror hready⟩⟩

/-- One step goes forward exactly if it is fresh. -/
theorem serve_forward_iff (h : c.Sound) (hr : c.Recovered) (hserve : c.serve event = .ok c') :
    c'.Sound ∧ (c.Forward c' ↔ c.Fresh event) := by
  have hsame : c.Forward c ↔ True := iff_true_intro ⟨le_rfl, le_rfl, hr⟩
  have hfails (calls error stream) : ({ c with calls }.unavailable error stream).Sound ∧
      (c.Forward ({ c with calls }.unavailable error stream) ↔ True) :=
    ⟨⟨nofun, h.shown, h.projects, fun _ => rfl⟩, iff_true_intro ⟨le_rfl, le_rfl, nofun⟩⟩
  cases event with
  | commit | list =>
    cases hserve
    exact ⟨⟨h.error, h.shown, h.projects, h.idle⟩, hsame⟩
  | start =>
    simp only [serve, steps_ok] at hserve
    obtain ⟨hidle, rfl⟩ := hserve
    refine ⟨⟨fun _ => rfl, h.shown, h.projects, nofun⟩, iff_true_intro ⟨le_rfl, le_rfl, ?_⟩⟩
    simp [Recovered, list, h.idle hidle]
  | respond call snapshot =>
    simp only [serve, steps_ok] at hserve
    obtain ⟨⟨_, caller⟩, -, -, rfl⟩ := hserve
    cases caller with
    | page => exact ⟨⟨fun _ => rfl, le_rfl, rfl, h.idle⟩, And.left, fun hle =>
        ⟨hle, h.shown.trans hle, fun _ => ⟨rfl, rfl⟩⟩⟩
    | start | stream => exact ⟨⟨fun _ => rfl, le_rfl, rfl, nofun⟩, And.left, fun hle =>
        ⟨hle, h.shown.trans hle, fun _ => ⟨rfl, rfl⟩⟩⟩
  | reject call error =>
    simp only [serve, steps_ok] at hserve
    obtain ⟨⟨_, caller⟩, -, rfl⟩ := hserve
    cases caller with
    | page => exact ⟨⟨h.error, h.shown, h.projects, h.idle⟩, hsame⟩
    | start | stream => exact hfails _ _ _
  | activity event =>
    simp only [serve] at hserve
    split at hserve
    · simp only [steps_ok] at hserve
      obtain ⟨-, rfl⟩ := hserve
      exact reconcileActivity_forward_iff h hr event
    · cases hserve
  | fail error =>
    simp only [serve] at hserve
    split at hserve <;> cases hserve
    exact hfails _ _ _
  | reconnect =>
    simp only [serve, steps_ok] at hserve
    obtain ⟨-, rfl⟩ := hserve
    exact ⟨⟨h.error, h.shown, h.projects, nofun⟩, hsame⟩

/-- In a run of fresh steps the state goes forward from any state reached to any later one, and a
    step from it goes forward exactly if it is fresh. -/
theorem projects_forward_iff (hrun : Reaches serve Fresh initial c) :
    c.state.projects = c.shown.projects ∧ (∀ c', Reaches serve Fresh c c' → c.Forward c') ∧
      ∀ event c', c.serve event = .ok c' → (c.Forward c' ↔ c.Fresh event) := by
  have hinv {c c' : Contracts Project} (hrun : Reaches serve Fresh c c') (h : c.Sound)
      (hr : c.Recovered) : c'.Sound ∧ c.Forward c' :=
    hrun.invariant (fun c' => c'.Sound ∧ c.Forward c') (fun s event s' hfresh hs hserve => by
      obtain ⟨hsound, hiff⟩ := serve_forward_iff hs.1 hs.2.2.2 hserve
      obtain ⟨hcursor, hshown, hr⟩ := hiff.2 hfresh
      exact ⟨hsound, hs.2.1.trans hcursor, hs.2.2.1.trans hshown, hr⟩) ⟨h, le_rfl, le_rfl, hr⟩
  obtain ⟨hsound, -, -, hr⟩ := hinv hrun ⟨fun _ => rfl, le_rfl, rfl, fun _ => rfl⟩ nofun
  exact ⟨hsound.projects, fun c' h => (hinv h hsound hr).2, fun event c' hserve =>
    (serve_forward_iff hsound hr hserve).2⟩

/-- The first list. -/
theorem projects_forward_iff_first : ∃ c c' : Contracts Unit,
    Reaches serve Fresh initial c ∧ c.serve (.respond 0 ⟨0, [()]⟩) = .ok c' ∧ c.Forward c' := by
  have hrun : Reaches serve Fresh initial (initial.list .page : Contracts Unit) :=
    (Reaches.refl _).serve_ok (r := .list) trivial rfl
  exact ⟨_, _, hrun, rfl, ((projects_forward_iff hrun).2.2 (.respond 0 ⟨0, [()]⟩) _ rfl).2 le_rfl⟩

/-- Of two list calls the later one returns first, and the state goes back. After a failure of the
    stream, the next event leaves the state unavailable. -/
theorem projects_go_back :
    (∃ c : Contracts Unit, Reaches serve (fun _ _ => True) initial c ∧ c.state.activityCursor = 1 ∧
      ∃ c', c.serve (.respond 0 ⟨0, []⟩) = .ok c' ∧ c'.state.activityCursor = 0) ∧
    ∃ c : Contracts Unit, Reaches serve (fun _ _ => True) initial c ∧ c.processed ∧
      c.state.status = .unavailable :=
  ⟨exists_of_play [.list, .commit, .list, .respond 1 ⟨1, []⟩] (by decide +kernel),
    exists_of_play [.start, .respond 0 ⟨0, []⟩, .commit, .fail [], .reconnect,
      .activity ⟨1, false⟩] (by decide +kernel)⟩

end Contracts

end OpenCut
