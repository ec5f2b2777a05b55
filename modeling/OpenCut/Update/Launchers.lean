import OpenCut.Lib.Machine
import OpenCut.Lib.Sections
import OpenCut.Update.Installer

/-!
# Launchers on one cell

Any number of processes run `RunB0` on one cell. A process recovers, takes the lock of the cell
and goes on with its loop; while it has the lock, update transitions may be requested of its
broker, one at a time, which run in a thread of their own. Only a thread of the process that has
the lock begins an install; but `Recover` at the start does not need the lock, and a transition
that is under way does not lose it.

A process may crash before any operation of its threads. An operation that is many for the file
system, the extraction of an entry or a download, may be torn.
-/

namespace OpenCut

variable (H : CellHost)

/-- The threads of a process: `RunB0`, and the update transition of its broker. -/
inductive ThreadKind
  | main
  | transition
deriving DecidableEq

/-- A thread: of which process, and which. -/
abbrev ThreadID := ID × ThreadKind

/-- The processes on a cell. A process has a bootstrap until it exits. -/
structure UpdateSystem where
  files : CellFiles H
  lock : Option ID
  bootstraps : Table ID Bootstrap
  threads : Table ThreadID UpdatePhase

/-- What may happen: a process is started, an update transition is requested of it, one of its
    threads does its next operation, or it crashes or exits; then the tree it was extracting and the
    download it was writing are left as given. -/
inductive UpdateEvent
  | begin (pid : ID) (bootstrap : Bootstrap)
  | request (pid : ID)
  | act (thread : ThreadID) (answer : Answer H)
  | crash (pid : ID) (tree : Tree) (bytes : Option H.Bytes)

/-- An event that cannot happen. -/
inductive UpdateRefused
  | refused

variable {H} (disk : CellDisk H)

/-- What an operation that is torn leaves behind. -/
def CellDisk.tear (tree : Tree) (bytes : Option H.Bytes) : Option UpdatePhase → CellDisk H
  | some (.opening install) | some (.extracting install _ _) =>
    { disk with incoming := disk.incoming.set install.transactionID tree }
  | some (.downloading install) =>
    match bytes with
    | some bytes => { disk with partials := disk.partials.set install.bundle.sha256 bytes }
    | none => disk
  | _ => disk

namespace UpdateSystem

/-- No process has run on the cell. -/
def start : UpdateSystem H := ⟨⟨⟨none, none, ∅, ∅, ∅, ∅⟩, ⟨none, []⟩, [], []⟩, none, ∅, ∅⟩

variable (s : UpdateSystem H)

/-- The lock, without the process. -/
def unlock (pid : ID) : Option ID := if s.lock = some pid then none else s.lock

variable (thread : ThreadID)

/-- A thread stands in another phase now, or has ended. `RunB0` gives back the lock. -/
def moveThread (files : CellFiles H) : Option UpdatePhase → UpdateSystem H
  | some phase => { s with files, threads := s.threads.set thread phase }
  | none =>
    { s with
      files, threads := s.threads.erase thread
      lock := if thread.2 = .main then s.unlock thread.1 else s.lock }

/-- `TryLock` of the broker. -/
def tryLock : UpdateSystem H :=
  if s.lock = none then { s with lock := some thread.1, threads := s.threads.set thread .looping }
  else s.moveThread thread s.files none

/-- A process is gone, with its threads and its lock. -/
def crashProcess (pid : ID) (tree : Tree) (bytes : Option H.Bytes) : UpdateSystem H :=
  let disk := (s.files.disk.tear tree bytes (s.threads.find? (pid, .main))).tear tree bytes
    (s.threads.find? (pid, .transition))
  { files := { s.files with disk }
    lock := s.unlock pid
    bootstraps := s.bootstraps.erase pid
    threads := (s.threads.erase (pid, .main)).erase (pid, .transition) }

/-- One event. -/
def serve (event : UpdateEvent H) : Except UpdateRefused (UpdateSystem H) :=
  match event with
  | .begin pid bootstrap =>
    if (s.bootstraps.find? pid).isNone then
      .ok { s with
        bootstraps := s.bootstraps.set pid bootstrap
        threads := s.threads.set (pid, .main) (.recovering .boot) }
    else .error .refused
  | .request pid =>
    if s.lock = some pid ∧ (s.threads.find? (pid, .transition)).isNone then
      .ok { s with threads := s.threads.set (pid, .transition) (.recovering .transition) }
    else .error .refused
  | .act thread answer =>
    match s.threads.find? thread, s.bootstraps.find? thread.1 with
    | some phase, some bootstrap =>
      if phase = .locking then .ok (s.tryLock thread)
      else
        .ok (s.moveThread thread (operate bootstrap s.files phase answer).1
          (operate bootstrap s.files phase answer).2)
    | _, _ => .error .refused
  | .crash pid tree bytes =>
    if (s.bootstraps.find? pid).isSome then .ok (s.crashProcess pid tree bytes)
    else .error .refused

end UpdateSystem

/-! ## Updates that do not overlap -/

/-- The thread is busy with the journal, the versions or the state file. -/
def UpdatePhase.updating : UpdatePhase → Bool
  | .recoveringState .. | .recoveringStat .. | .recoveringCheck .. | .recoveringSave ..
  | .removing .. | .forgetting .. | .journaling .. | .caching .. | .downloading .. | .comparing ..
  | .keeping .. | .opening .. | .extracting .. | .validating .. | .promoting .. | .moving ..
  | .saving .. | .testing .. => true
  | .recovering .. | .preparing .. | .origins .. | .rotating .. | .verifying .. | .deciding ..
  | .locking | .looping | .running .. | .leaving .. => false

/-- The thread is busy with the trust root. -/
def UpdatePhase.trusting : UpdatePhase → Bool
  | .rotating .. | .verifying .. => true
  | _ => false

/-- A candidate is on record. -/
def CellDisk.pending : Bool := disk.state.any fun runtime => runtime.candidate ≠ []

/-- The next operation of the thread may begin an update: it is about to read a journal, to begin a
    transaction or to test a candidate. -/
def UpdatePhase.beginsUpdate : UpdatePhase → Bool
  | .recovering _ => disk.journal.isSome
  | .deciding _ _ => !disk.pending
  | .looping => disk.pending
  | _ => false

/-- The next operation of the thread begins to read the trust root for an install. -/
def UpdatePhase.beginsTrust : UpdatePhase → Bool
  | .origins _ => true
  | _ => false

/-- No update begins while another thread is busy with one, and no trust root is read for an
    install while another thread is busy with it. -/
def UpdateSystem.undisturbed (s : UpdateSystem H) (event : UpdateEvent H) : Bool :=
  match event with
  | .act thread _ =>
    (s.threads.find? thread).all fun phase =>
      (!phase.beginsUpdate s.files.disk || Sections.free s.threads UpdatePhase.updating thread) &&
        (!phase.beginsTrust || Sections.free s.threads UpdatePhase.trusting thread)
  | _ => true

/-- The bootstrap that a process is started with has a protocol floor among the given ones. -/
def UpdateEvent.floorsIn (floors : Text → Prop) : UpdateEvent H → Prop
  | .begin _ bootstrap => floors bootstrap.protocolFloor
  | _ => True

end OpenCut
