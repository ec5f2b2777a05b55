import OpenCut.Launcher.Runtime
import OpenCut.Release.Trust
import OpenCut.Update.Bundle

/-!
# The installer of a cell

`internal/update/journal.go`, `internal/update/genesis.go` and the loop of
`internal/launcher/launcher.go`, file operation by file operation. A thread stands in a phase
between two operations (`UpdatePhase`), and does the next one on the files of the cell (`operate`);
what it gets from outside, answers of an origin or the fate of a process, is its `Answer`.

`Recover` and `InstallLatest` share their end (`finishRecovery`), and so does the clean-up of an
install that failed: the transaction's directory is removed, entry by entry, and then the journal.

The files that updates are about are the `CellDisk`; the trust root is apart. What was accepted
and how recoveries ended is on record.
-/

namespace OpenCut

open Outcome

variable (H : CellHost)

/-! ## The files -/

/-- How far an install has come. -/
inductive JournalPhase
  | metadataVerified
  | downloaded
  | extracted
  | promoted
deriving DecidableEq

/-- `journal`. -/
structure Journal where
  transactionID : Text
  channel : Text
  version : Text
  sha256 : Text
  phase : JournalPhase
deriving DecidableEq

/-- What `loadJournal` makes sure of. -/
def Journal.valid (entry : Journal) : Bool :=
  entry.transactionID ≠ [] ∧ '/' ∉ entry.transactionID ∧ '\\' ∉ entry.transactionID ∧
    entry.sha256 ≠ [] ∧ (parseVersionForChannel entry.version entry.channel).isSome

/-- The state file, the journal, and the directories of downloads (under their digests, complete
    and partial), of transactions and of versions. -/
structure CellDisk where
  state : Option RuntimeState
  journal : Option Journal
  downloads : Table Text H.Bytes
  partials : Table Text H.Bytes
  incoming : Table Text Tree
  versions : Table Text Tree

/-- Metadata that was accepted: under which root, what was in the trust root file at that time,
    for which protocol floor and when. -/
structure Acceptance where
  envelope : Envelope
  root : TrustRoot
  persisted : Option TrustRoot
  protocolFloor : Text
  now : Instant

/-- How a recovery ended: whether with an error, what was left of the journal, the state file
    before and after it, and whether the candidate has a directory. -/
structure Recovery where
  failed : Bool
  journal : Option Journal
  before : Option RuntimeState
  after : Option RuntimeState
  promoted : Bool

/-- The files of a cell, with what was accepted and recovered so far. -/
structure CellFiles where
  disk : CellDisk H
  trust : TrustStore
  accepted : List Acceptance
  recoveries : List Recovery

/-- `config.Bootstrap`. -/
structure Bootstrap where
  protocolFloor : Text
  trust : TrustConfig

/-! ## Phases -/

/-- What a thread recovers or installs for: the start of the launcher, its loop while nothing is
    installed, or an update transition. -/
inductive Task
  | boot
  | genesis
  | transition
deriving DecidableEq

/-- An install that has begun: what it was told, the state it has loaded and its transaction. -/
structure Install where
  task : Task
  envelope : Envelope
  runtime : RuntimeState
  transactionID : Text
deriving DecidableEq

/-- The version that is installed. -/
def Install.version (install : Install) : Text := install.envelope.signed.version

/-- The bundle that is installed. -/
def Install.bundle (install : Install) : BundleDescriptor := install.envelope.signed.bundle

/-- What the removal of a transaction ends. -/
inductive Ending
  | recovered (task : Task) (before : Option RuntimeState)
  | installed (task : Task)
  | abandoned (task : Task)
deriving DecidableEq

/-- Where a thread stands, before its next file operation. -/
inductive UpdatePhase
  | recovering (task : Task)
  | recoveringState (task : Task) (before : Option RuntimeState) (entry : Journal)
  | recoveringStat (task : Task) (before : Option RuntimeState) (entry : Journal)
      (runtime : RuntimeState)
  | recoveringCheck (task : Task) (before : Option RuntimeState) (entry : Journal)
      (runtime : RuntimeState)
  | recoveringSave (task : Task) (before : Option RuntimeState) (entry : Journal)
      (runtime : RuntimeState)
  | removing (ending : Ending) (transactionID : Text)
  | forgetting (ending : Ending)
  | preparing (task : Task)
  | origins (task : Task)
  | rotating (task : Task) (root : TrustRoot)
  | verifying (task : Task) (root : TrustRoot)
  | deciding (task : Task) (envelope : Envelope)
  | journaling (install : Install) (phase : JournalPhase)
  | caching (install : Install)
  | downloading (install : Install)
  | comparing (install : Install)
  | keeping (install : Install)
  | opening (install : Install)
  | extracting (install : Install) (entries : List ArchiveEntry) (ends : Bool)
  | validating (install : Install)
  | promoting (install : Install)
  | moving (install : Install)
  | saving (install : Install)
  | locking
  | looping
  | testing (runtime : RuntimeState)
  | running (selected : Text)
  | leaving (selected : Text)
deriving DecidableEq

/-- Where a thread goes on after `Recover`. -/
def Task.recovered : Task → UpdatePhase
  | .boot => .locking
  | .genesis => .preparing .genesis
  | .transition => .preparing .transition

/-- Where a thread goes on after `InstallLatest`. -/
def Task.installed : Task → Option UpdatePhase
  | .genesis => some .looping
  | .boot | .transition => none

/-- From outside: that the operation failed or the process did, what the origin answers, the time,
    a random transaction, the bytes that were downloaded, and what is removed next. -/
structure Answer where
  failed : Bool := false
  root : RootResponse := .notFound
  envelope : Option Envelope := none
  now : Instant := 0
  transactionID : Text := []
  bytes : Option H.Bytes := none
  unlink : Option Text := none

/-- What `randomID` returns. -/
def isTransactionID (id : Text) : Bool := id.length = 32 ∧ id.all isLowerHex

/-! ## Recovery -/

variable {H} (files : CellFiles H) (install : Install) (task : Task) (before : Option RuntimeState)

/-- `Recover` returns. -/
def CellFiles.recovered (failed : Bool) (before : Option RuntimeState) : CellFiles H :=
  { files with
    recoveries := files.recoveries ++ [⟨failed, files.disk.journal, before, files.disk.state,
      files.disk.state.any fun runtime => (files.disk.versions.find? runtime.candidate).isSome⟩] }

variable (runtime : RuntimeState)

/-- `state.Save`. -/
def CellFiles.saveState : Except RuntimeError (CellFiles H) := do
  runtime.validate H.channel
  return { files with disk := { files.disk with state := some runtime } }

/-- `Recover` returns an error. -/
def failRecover : CellFiles H × Option UpdatePhase := (files.recovered true before, none)

/-- `Recover` goes on to `finishRecovery`. -/
def finishRecover (entry : Journal) : CellFiles H × Option UpdatePhase :=
  (files, some (.removing (.recovered task before) entry.transactionID))

/-- `Recover` has the journal's entry and the state. -/
def recoverWith (entry : Journal) (runtime : RuntimeState) : CellFiles H × Option UpdatePhase :=
  if runtime.active = entry.version ∨ runtime.candidate = entry.version then
    finishRecover files task before entry
  else if runtime.candidate ≠ [] then failRecover files before
  else (files, some (.recoveringStat task before entry runtime))

/-- `Recover` prepares the version that was promoted. -/
def recoverSave (entry : Journal) (runtime : RuntimeState) : CellFiles H × Option UpdatePhase :=
  match runtime.prepare H.channel entry.version >>= files.saveState with
  | .error _ => failRecover files before
  | .ok files => finishRecover files task before entry

/-- One operation of `os.RemoveAll`: a path of the tree goes, or the directory if it is empty. -/
def removeOne (ending : Ending) (transactionID : Text) (unlink : Option Text) :
    CellFiles H × Option UpdatePhase :=
  match files.disk.incoming.find? transactionID, unlink with
  | some tree, some path =>
    ({ files with
      disk := { files.disk with
        incoming := files.disk.incoming.set transactionID (tree.erase path) } },
      some (.removing ending transactionID))
  | some tree, none =>
    if tree.rows = [] then
      ({ files with
        disk := { files.disk with incoming := files.disk.incoming.erase transactionID } },
        some (.forgetting ending))
    else (files, some (.removing ending transactionID))
  | none, _ => (files, some (.forgetting ending))

/-- The journal is removed. -/
def forget (ending : Ending) : CellFiles H × Option UpdatePhase :=
  let files := { files with disk := { files.disk with journal := none } }
  match ending with
  | .recovered task before => (files.recovered false before, some task.recovered)
  | .installed task => (files, task.installed)
  | .abandoned task => (files, some (.origins task))

/-! ## Installation -/

/-- An install that has begun fails. -/
def abandon : CellFiles H × Option UpdatePhase :=
  (files, some (.removing (.abandoned install.task) install.transactionID))

/-- `Compare` of two versions as texts; a text that is no version counts as the zero version. -/
def exceeds (channel version active : Text) : Bool :=
  ((parseVersionForChannel version channel).getD ⟨0, 0, 0, [], 0⟩).compare
    ((parseVersionForChannel active channel).getD ⟨0, 0, 0, [], 0⟩) = .gt

/-- `installFromOrigin` has the state: there is nothing to do, the release is refused, or a
    transaction begins. -/
def decideInstall (channel : Text) (task : Task) (envelope : Envelope) (transactionID : Text)
    (runtime : RuntimeState) : Option UpdatePhase :=
  let version := envelope.signed.version
  if runtime.candidate ≠ [] then
    if runtime.candidate = version then task.installed else some (.origins task)
  else if runtime.active = version then task.installed
  else if runtime.active ≠ [] ∧ ¬exceeds channel version runtime.active then some (.origins task)
  else if ¬isTransactionID transactionID then some (.origins task)
  else some (.journaling ⟨task, envelope, runtime, transactionID⟩ .metadataVerified)

/-- The entry of the journal in a phase of the install. -/
def Install.entry (channel : Text) (install : Install) (phase : JournalPhase) : Journal :=
  ⟨install.transactionID, channel, install.version, install.bundle.sha256, phase⟩

/-- Where an install goes on when its journal is written. -/
def Install.after : JournalPhase → UpdatePhase
  | .metadataVerified => .caching install
  | .downloaded => .opening install
  | .extracted => .validating install
  | .promoted => .saving install

/-- `ensureBundle` renames the partial download. -/
def keepDownload : CellFiles H × Option UpdatePhase :=
  match files.disk.partials.find? install.bundle.sha256 with
  | none => abandon files install
  | some bytes =>
    ({ files with
      disk := { files.disk with
        downloads := files.disk.downloads.set install.bundle.sha256 bytes
        partials := files.disk.partials.erase install.bundle.sha256 } },
      some (.journaling install .downloaded))

/-- `Extract` makes its directory and opens the archive. -/
def openArchive : CellFiles H × Option UpdatePhase :=
  if (files.disk.incoming.find? install.transactionID).isSome then abandon files install
  else
    match files.disk.downloads.find? install.bundle.sha256 with
    | none => abandon files install
    | some bytes =>
      ({ files with
        disk := { files.disk with incoming := files.disk.incoming.set install.transactionID ∅ } },
        some (.extracting install (H.archive bytes).1 (H.archive bytes).2))

/-- `Extract` writes one more entry, or ends. -/
def extractOne (entries : List ArchiveEntry) (ends : Bool) : CellFiles H × Option UpdatePhase :=
  match entries, files.disk.incoming.find? install.transactionID with
  | [], _ => if ends then (files, some (.journaling install .extracted)) else abandon files install
  | _ :: _, none => abandon files install
  | entry :: entries, some tree =>
    match writeEntry tree entry with
    | .error _ => abandon files install
    | .ok tree =>
      ({ files with
        disk := { files.disk with
          incoming := files.disk.incoming.set install.transactionID tree } },
        some (.extracting install entries ends))

/-- The checks of the tree that was extracted. -/
def validateTree (protocolFloor : Text) : CellFiles H × Option UpdatePhase :=
  match files.disk.incoming.find? install.transactionID with
  | none => abandon files install
  | some tree =>
    if H.releaseFits tree install.version protocolFloor ∧
        H.releaseMatches tree install.envelope.signed then
      (files, some (.promoting install))
    else abandon files install

/-- The version's directory may exist already. -/
def statVersion : CellFiles H × Option UpdatePhase :=
  match files.disk.versions.find? install.version with
  | none => (files, some (.moving install))
  | some existing =>
    if (H.loadManifest existing).any fun manifest => manifest.version = install.version then
      (files, some (.journaling install .promoted))
    else abandon files install

/-- The tree becomes the version's directory. -/
def renameTree : CellFiles H × Option UpdatePhase :=
  match files.disk.incoming.find? install.transactionID,
      files.disk.versions.find? install.version with
  | some tree, none =>
    ({ files with
      disk := { files.disk with
        incoming := files.disk.incoming.erase install.transactionID
        versions := files.disk.versions.set install.version tree } },
      some (.journaling install .promoted))
  | _, _ => abandon files install

/-- The version becomes the candidate, in the state that was loaded. -/
def saveCandidate : CellFiles H × Option UpdatePhase :=
  match install.runtime.prepare H.channel install.version >>= files.saveState with
  | .error _ => abandon files install
  | .ok files => (files, some (.removing (.installed install.task) install.transactionID))

/-! ## The launcher -/

/-- `RunB0` selects what it runs. -/
def selectRelease : UpdatePhase :=
  if runtime.candidate ≠ [] then .testing runtime
  else if runtime.active ≠ [] then .running runtime.active
  else .recovering .genesis

/-- `runManagedRelease` confirms the candidate, or rolls it back; then `RunB0` returns. -/
def settleCandidate (failed : Bool) : CellFiles H × Option UpdatePhase :=
  if failed then
    match runtime.rollback H.channel >>= files.saveState with
    | .error _ => (files, none)
    | .ok files => (files, none)
  else
    match runtime.confirm H.channel runtime.candidate >>= files.saveState with
    | .error _ => (files, none)
    | .ok files => (files, some (.running runtime.candidate))

/-- `RunB0` returns, unless there is another candidate. -/
def leaveRelease (selected : Text) : Option UpdatePhase :=
  if runtime.candidate = [] ∨ runtime.candidate = selected then none else some .looping

/-! ## One operation -/

/-- One operation of a thread of a process with the given bootstrap, and where the thread stands
    then, if it has not ended. The lock of the cell is not a file (`UpdateSystem.serve`). -/
def operate (bootstrap : Bootstrap) (files : CellFiles H) (phase : UpdatePhase)
    (answer : Answer H) : CellFiles H × Option UpdatePhase :=
  match phase with
  | .recovering task =>
    match files.disk.journal with
    | none => (files.recovered false files.disk.state, some task.recovered)
    | some entry =>
      if entry.valid ∧ entry.channel = H.channel then
        (files, some (.recoveringState task files.disk.state entry))
      else failRecover files files.disk.state
  | .recoveringState task before entry =>
    match RuntimeState.load files.disk.state H.channel with
    | .error _ => failRecover files before
    | .ok runtime => recoverWith files task before entry runtime
  | .recoveringStat task before entry runtime =>
    if (files.disk.versions.find? entry.version).isNone then finishRecover files task before entry
    else (files, some (.recoveringCheck task before entry runtime))
  | .recoveringCheck task before entry runtime =>
    if (files.disk.versions.find? entry.version).any fun tree =>
        H.releaseFits tree entry.version bootstrap.protocolFloor then
      (files, some (.recoveringSave task before entry runtime))
    else failRecover files before
  | .recoveringSave task before entry runtime => recoverSave files task before entry runtime
  | .removing ending transactionID => removeOne files ending transactionID answer.unlink
  | .forgetting ending => forget files ending
  | .preparing task =>
    match ensureTrustRoot H.scheme files.trust bootstrap.trust !answer.failed with
    | .error _ => (files, none)
    | .ok (_, trust) => ({ files with trust }, some (.origins task))
  | .origins task =>
    -- The next origin, if there is one.
    if answer.failed then (files, none)
    else
      match ensureTrustRoot H.scheme files.trust bootstrap.trust true with
      | .error _ => (files, some (.origins task))
      | .ok (root, trust) => ({ files with trust }, some (.rotating task root))
  | .rotating task root =>
    match rotateTrustRoot H.scheme files.trust root answer.root !answer.failed with
    | .error _ => (files, some (.origins task))
    | .ok (root, trust) => ({ files with trust }, some (.verifying task root))
  | .verifying task root =>
    match answer.envelope with
    | none => (files, some (.origins task))
    | some envelope =>
      match verifyEnvelopeTarget H.scheme envelope root.config H.channel bootstrap.protocolFloor
          H.host answer.now with
      | .error _ => (files, some (.origins task))
      | .ok _ =>
        ({ files with
          accepted := files.accepted ++
            [⟨envelope, root, files.trust.file, bootstrap.protocolFloor, answer.now⟩] },
          some (.deciding task envelope))
  | .deciding task envelope =>
    match RuntimeState.load files.disk.state H.channel with
    | .error _ => (files, some (.origins task))
    | .ok runtime => (files, decideInstall H.channel task envelope answer.transactionID runtime)
  | .journaling install phase =>
    ({ files with disk := { files.disk with journal := some (install.entry H.channel phase) } },
      some (install.after phase))
  | .caching install =>
    if (files.disk.downloads.find? install.bundle.sha256).any fun bytes =>
        H.bundleFits bytes install.bundle then
      (files, some (.journaling install .downloaded))
    else (files, some (.downloading install))
  | .downloading install =>
    match answer.bytes with
    | none => abandon files install
    | some bytes =>
      ({ files with
        disk := { files.disk with
          partials := files.disk.partials.set install.bundle.sha256 bytes } },
        some (.comparing install))
  | .comparing install =>
    if (files.disk.partials.find? install.bundle.sha256).any fun bytes =>
        H.bundleFits bytes install.bundle then
      (files, some (.keeping install))
    else
      abandon { files with
        disk := { files.disk with
          partials := files.disk.partials.erase install.bundle.sha256 } } install
  | .keeping install => keepDownload files install
  | .opening install => openArchive files install
  | .extracting install entries ends => extractOne files install entries ends
  | .validating install => validateTree files install bootstrap.protocolFloor
  | .promoting install => statVersion files install
  | .moving install => renameTree files install
  | .saving install => saveCandidate files install
  | .locking => (files, some .looping)
  | .looping =>
    match RuntimeState.load files.disk.state H.channel with
    | .error _ => (files, none)
    | .ok runtime => (files, some (selectRelease runtime))
  | .testing runtime => settleCandidate files runtime answer.failed
  | .running selected => (files, if answer.failed then none else some (.leaving selected))
  | .leaving selected =>
    match RuntimeState.load files.disk.state H.channel with
    | .error _ => (files, none)
    | .ok runtime => (files, leaveRelease runtime selected)

end OpenCut
