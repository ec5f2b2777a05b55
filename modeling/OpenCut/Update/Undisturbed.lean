import OpenCut.Update.Operations

/-!
# Updates that do not overlap

If no update begins while another one is under way (`UpdateSystem.undisturbed`), then what holds of
a cell between operations holds along every run, whatever crashes (`UpdateSystem.Sound`,
`serve_sound`). So updates never go backwards and every recovery ends well
(`updates_never_go_backwards`), and what the state file names was promoted from a complete bundle
that was accepted (`promoted_releases_authorized`).

`Recover` at the start of a process does not wait for the lock of the cell. It may load the state,
wait while another process confirms newer versions, and then write back what it has loaded
(`update_goes_backwards`); and it may remove files of a transaction that another process is
extracting (`incomplete_release_promoted`).
-/

namespace OpenCut

open Outcome Sections Option UpdatePhase RuntimeState

variable {H : CellHost} {floors : Text → Prop} {files : CellFiles H} {bootstrap : Bootstrap}
  {phase next : UpdatePhase} {answer : Answer H}

/-! ## Where updates begin -/

theorem Task.idle_recovered (task : Task) :
    ¬task.recovered.trusting ∧ ¬task.recovered.updating := by
  cases task <;> decide

theorem Task.idle_installed {task : Task} (h : task.installed = some next) :
    ¬next.trusting ∧ ¬next.updating := by
  cases task <;> cases h
  decide

/-- A thread comes to the trust root only where it begins to read it. -/
theorem operate_trusting (h : (operate bootstrap files phase answer).2 = some next)
    (hnext : next.trusting) : phase.trusting ∨ phase.beginsTrust := by
  cases phase with
  | rotating => exact .inl rfl
  | verifying => exact .inl rfl
  | origins => exact .inr rfl
  | _ =>
    exfalso
    simp only [operate, recoverWith, finishRecover, failRecover, recoverSave, removeOne, forget,
      abandon, keepDownload, openArchive, extractOne, validateTree, statVersion, renameTree,
      saveCandidate, settleCandidate, decideInstall, leaveRelease, selectRelease,
      Install.after] at h
    revert h
    repeat' split
    all_goals first
        | (rintro ⟨⟩ <;> first | cases hnext | exact absurd hnext (Task.idle_recovered _).1)
        | (intro h; exact absurd hnext (Task.idle_installed h).1)

variable {disk : CellDisk H} {runtime : RuntimeState}

theorem pending_of_load (h : RuntimeState.load disk.state H.channel = .ok runtime) :
    disk.pending = decide (runtime.candidate ≠ []) := by
  rw [CellDisk.pending]
  cases hstate : disk.state with
  | none =>
    rw [hstate] at h
    obtain ⟨⟩ := h
    rfl
  | some =>
    rw [hstate, load, check_bind_ok, pure_ok] at h
    rw [← h.2]
    rfl

/-- A thread comes to an update only where it begins one. -/
theorem operate_begins (h : (operate bootstrap files phase answer).2 = some next)
    (hnext : next.updating) : phase.updating ∨ phase.beginsUpdate files.disk := by
  cases phase with
  | recovering task =>
    rw [operate] at h
    split at h
    · cases h
      exact absurd hnext task.idle_recovered.2
    · next entry hentry => exact .inr (by rw [beginsUpdate, hentry]; rfl)
  | preparing task | origins task | rotating task root | locking | running =>
    exfalso
    simp only [operate] at h
    revert h
    repeat' split
    all_goals rintro ⟨⟩ <;> cases hnext
  | verifying =>
    exfalso
    rw [operate] at h
    split at h
    · cases h
      cases hnext
    · split at h <;> cases h <;> cases hnext
  | deciding =>
    rw [operate] at h
    split at h
    · cases h
      cases hnext
    · next runtime hload =>
      refine .inr ?_
      rw [beginsUpdate, pending_of_load hload]
      rw [decideInstall] at h
      split at h
      · split at h
        · exact absurd hnext (Task.idle_installed h).2
        · cases h
          cases hnext
      · next hcandidate => simpa using hcandidate
  | looping =>
    rw [operate] at h
    split at h
    · cases h
    · next runtime hload =>
      refine .inr ?_
      rw [beginsUpdate, pending_of_load hload]
      rw [selectRelease] at h
      split at h
      · next hcandidate => exact decide_eq_true hcandidate
      · split at h <;> cases h <;> cases hnext
  | leaving =>
    exfalso
    rw [operate] at h
    split at h
    · cases h
    · dsimp only at h
      rw [leaveRelease] at h
      split at h <;> cases h
      cases hnext
  | _ => exact .inl rfl

/-! ## One operation among threads -/

/-- The state in the file is the one that is loaded. -/
theorem CellDisk.Sound.load_of_state {accepted : List Acceptance}
    (h : disk.Sound floors accepted) (hstate : disk.state = some runtime) :
    RuntimeState.load disk.state H.channel = .ok runtime := by
  obtain ⟨_, hload⟩ := h.loads
  have hloaded := hload
  rw [hstate, load, check_bind_ok, pure_ok] at hloaded
  obtain ⟨-, rfl⟩ := hloaded
  exact hload

/-- The trust root of a thread that is not busy with it. -/
theorem UpdatePhase.Trusts.of_idle {trust : TrustStore} (h : ¬phase.trusting) :
    phase.Trusts trust := by
  cases phase <;> trivial

theorem UpdatePhase.Trusts.mono {trust trust' : TrustStore} (h : phase.Trusts trust)
    (hkeep : ∀ root, trust.file = some root → trust'.file = some root) : phase.Trusts trust' := by
  cases phase with
  | rotating task root => exact hkeep root h
  | verifying task root => exact hkeep root h
  | _ => trivial

/-- A thread that is busy with the trust root goes by the one that it has read or written. -/
theorem operate_trusts (htrusts : phase.Trusts files.trust)
    (h : (operate bootstrap files phase answer).2 = some next) :
    next.Trusts (operate bootstrap files phase answer).1.trust := by
  by_cases hnext : next.trusting
  · rcases operate_trusting h hnext with hphase | hphase
    · cases phase with
      | rotating =>
        rw [operate] at h ⊢
        split at h
        · cases h
          cases hnext
        · next hrotate =>
          cases h
          exact rotateTrustRoot_file htrusts hrotate
      | verifying =>
        rw [operate] at h
        split at h
        · cases h
          cases hnext
        · split at h <;> cases h <;> cases hnext
      | _ => cases hphase
    · cases phase with
      | origins task =>
        rw [operate] at h ⊢
        split at h
        · cases h
        · next hfailed =>
          rw [if_neg hfailed]
          split at h
          · cases h
            cases hnext
          · next hensure =>
            cases h
            exact (ensureTrustRoot_file hensure).1
      | _ => cases hphase
  · exact UpdatePhase.Trusts.of_idle hnext

/-- A thread that is busy with nothing does not replace the trust root. -/
theorem operate_trust_file (hidle : ¬phase.updating) (htrusting : ¬phase.trusting)
    {root : TrustRoot} (hfile : files.trust.file = some root) :
    (operate bootstrap files phase answer).1.trust.file = some root := by
  cases phase with
  | preparing task =>
    rw [operate]
    split
    · exact hfile
    · next hensure => exact (ensureTrustRoot_file hensure).2 root hfile ▸ hfile
  | origins task =>
    rw [operate]
    split
    · exact hfile
    · split
      · exact hfile
      · next hensure => exact (ensureTrustRoot_file hensure).2 root hfile ▸ hfile
  | rotating => exact absurd rfl htrusting
  | verifying => exact absurd rfl htrusting
  | recovering task =>
    rw [operate]
    split
    · exact hfile
    · split <;> exact hfile
  | deciding =>
    rw [operate]
    split <;> exact hfile
  | looping =>
    rw [operate]
    split <;> exact hfile
  | leaving =>
    rw [operate]
    split <;> exact hfile
  | locking => exact hfile
  | running => exact hfile
  | _ => exact absurd rfl hidle

/-- What an operation does to the assertions of all threads. -/
structure Acted (floors : Text → Prop) (files : CellFiles H) (phase : UpdatePhase)
    (result : CellFiles H × Option UpdatePhase) : Prop where
  disk : result.1.disk.Sound floors result.1.accepted
  next : ∀ next, result.2 = some next → next.Sound floors result.1.accepted result.1.disk
  others : ∀ other : UpdatePhase, ¬other.updating ∨ ¬phase.updating →
    other.Sound floors files.accepted files.disk →
    other.Sound floors result.1.accepted result.1.disk
  trust : ¬phase.trusting → ∀ root, files.trust.file = some root → result.1.trust.file = some root
  advances : ActiveAdvances H.channel files.disk.state result.1.disk.state
  recoveries : SameFloor floors → (∀ recovery ∈ files.recoveries, recovery.Sound) →
    ∀ recovery ∈ result.1.recoveries, recovery.Sound

theorem operate_acted (hdisk : files.disk.Sound floors files.accepted)
    (hphase : phase.Sound floors files.accepted files.disk) (htrusts : phase.Trusts files.trust)
    (hfloor : floors bootstrap.protocolFloor) :
    Acted floors files phase (operate bootstrap files phase answer) := by
  by_cases hupdating : phase.updating
  · have hstep : Stepped floors files (operate bootstrap files phase answer) :=
      operate_updating hupdating hdisk hphase hfloor
    refine ⟨hstep.accepted ▸ hstep.disk, hstep.accepted ▸ hstep.next, fun other hother h => ?_,
      fun _ root hroot => hstep.trust ▸ hroot, hstep.advances, fun hsame hsound recovery hmem => ?_⟩
    · rw [hstep.accepted]
      exact h.of_idle (hother.resolve_right (not_not.2 hupdating))
    · rcases hstep.recoveries recovery hmem with hmem | hnew
      · exact hsound recovery hmem
      · exact hnew hsame
  · have hstep : Waited floors files (operate bootstrap files phase answer) :=
      operate_idle hupdating hdisk hphase htrusts
    refine ⟨?_, ?_, fun other _ h => ?_, fun hidle _ => operate_trust_file hupdating hidle,
      .inl (by rw [hstep.disk]), fun _ hsound recovery hmem => ?_⟩
    · rw [hstep.disk]
      exact hdisk.mono hstep.accepted
    · rw [hstep.disk]
      exact hstep.next
    · rw [hstep.disk]
      exact h.mono hstep.accepted
    · rcases hstep.recoveries recovery hmem with hmem | hnew
      · exact hsound recovery hmem
      · exact hnew

/-! ## Runs -/

namespace UpdateSystem

variable {s s' : UpdateSystem H} {event : UpdateEvent H} {thread : ThreadID}

/-- What holds along runs in which updates do not overlap. -/
structure Sound (floors : Text → Prop) (s : UpdateSystem H) : Prop where
  bootstraps : ∀ pid bootstrap, s.bootstraps.find? pid = some bootstrap →
    floors bootstrap.protocolFloor
  disk : s.files.disk.Sound floors s.files.accepted
  updating : Exclusive s.threads UpdatePhase.updating
  trusting : Exclusive s.threads UpdatePhase.trusting
  holds : Holds s.threads fun phase => phase.Sound floors s.files.accepted s.files.disk
  trusts : Holds s.threads fun phase => phase.Trusts s.files.trust
  recoveries : SameFloor floors → ∀ recovery ∈ s.files.recoveries, recovery.Sound

theorem start_sound : (start : UpdateSystem H).Sound floors := by
  have hload : ∀ runtime, load none H.channel = .ok runtime →
      runtime = empty := fun runtime h => (Except.ok.inj h).symm
  refine ⟨?_, ⟨⟨_, rfl⟩, ?_, ?_, ?_⟩, ?_, ?_, ?_, ?_, ?_⟩
  · intro pid bootstrap h
    cases h
  · intro runtime h
    rw [hload runtime h]
    refine ⟨rfl, fun hne => absurd rfl hne, ?_⟩
    rintro version (rfl | rfl) hne <;> exact absurd rfl hne
  · rintro _ _ - ⟨⟩
  · rintro _ _ ⟨⟩
  · rintro k k' p p' ⟨⟩
  · rintro k k' p p' ⟨⟩
  · rintro k p ⟨⟩
  · rintro k p ⟨⟩
  · rintro - _ ⟨⟩

section

variable (hs : s.Sound floors)
include hs

/-- The thread stands in another phase, or has ended. -/
theorem moveThread_sound (hthread : s.threads.find? thread = some phase)
    {result : CellFiles H × Option UpdatePhase} (hacted : Acted floors s.files phase result)
    (htrusts : ∀ next, result.2 = some next → next.Trusts result.1.trust)
    (hupdate : ∀ next, result.2 = some next → next.updating →
      free s.threads UpdatePhase.updating thread)
    (htrust : ∀ next, result.2 = some next → next.trusting →
      free s.threads UpdatePhase.trusting thread) :
    (s.moveThread thread result.1 result.2).Sound floors := by
  have hkept : ∀ other, ¬trusting other → other.Trusts s.files.trust →
      other.Trusts result.1.trust := fun other hother _ => UpdatePhase.Trusts.of_idle hother
  have hkept' : ¬phase.trusting → ∀ other : UpdatePhase, other.Trusts s.files.trust →
      other.Trusts result.1.trust := fun hidle other h => h.mono (hacted.trust hidle)
  have hrecoveries := fun hsame => hacted.recoveries hsame (hs.recoveries hsame)
  cases hnext : result.2 with
  | none =>
    exact ⟨hs.bootstraps, hacted.disk, hs.updating.erase thread, hs.trusting.erase thread,
      hs.holds.others hs.updating hthread (fun other h => hacted.others other (.inl h))
        fun h other => hacted.others other (.inr h),
      hs.trusts.others hs.trusting hthread hkept hkept', hrecoveries⟩
  | some next =>
    exact ⟨hs.bootstraps, hacted.disk, hs.updating.set (hupdate next hnext),
      hs.trusting.set (htrust next hnext),
      hs.holds.step hs.updating hthread (fun other h => hacted.others other (.inl h))
        (fun h other => hacted.others other (.inr h)) (hacted.next next hnext),
      hs.trusts.step hs.trusting hthread hkept hkept' (htrusts next hnext), hrecoveries⟩

/-- Whoever is busy keeps the others out, and whoever begins has been let in. -/
theorem free_of_undisturbed (hthread : s.threads.find? thread = some phase)
    (hundisturbed : s.undisturbed (.act thread answer)) :
    (phase.updating ∨ phase.beginsUpdate s.files.disk →
      free s.threads UpdatePhase.updating thread) ∧
      (phase.trusting ∨ phase.beginsTrust → free s.threads UpdatePhase.trusting thread) := by
  rw [undisturbed, hthread, all_some, Bool.and_eq_true, Bool.or_eq_true, Bool.or_eq_true,
    Bool.not_eq_true', Bool.not_eq_true'] at hundisturbed
  obtain ⟨hupdate, htrust⟩ := hundisturbed
  constructor
  · rintro (hbusy | hbegins)
    · exact hs.updating.free hthread hbusy
    · exact hupdate.resolve_left (by simp [hbegins])
  · rintro (hbusy | hbegins)
    · exact hs.trusting.free hthread hbusy
    · exact htrust.resolve_left (by simp [hbegins])

/-- The thread does nothing, or ends. -/
theorem Acted.rest {result : Option UpdatePhase} (hnext : ∀ next, result = some next →
      next.Sound floors s.files.accepted s.files.disk) :
    Acted floors s.files phase (s.files, result) :=
  ⟨hs.disk, hnext, fun _ _ h => h, fun _ _ h => h, .inl rfl, fun _ h => h⟩

theorem act_sound (hundisturbed : s.undisturbed (.act thread answer))
    (h : s.serve (.act thread answer) = .ok s') :
    s'.Sound floors ∧ ActiveAdvances H.channel s.files.disk.state s'.files.disk.state := by
  rw [serve] at h
  split at h
  · next phase bootstrap hthread hbootstrap =>
    split at h
    · obtain ⟨⟩ := h
      have hrest : Acted floors s.files phase (s.files, none) := Acted.rest hs (by rintro _ ⟨⟩)
      rw [tryLock]
      split
      · refine ⟨⟨hs.bootstraps, hs.disk, hs.updating.set (by rintro ⟨⟩),
          hs.trusting.set (by rintro ⟨⟩),
          hs.holds.set trivial, hs.trusts.set trivial, hs.recoveries⟩, .inl rfl⟩
      · exact ⟨moveThread_sound hs hthread hrest (by rintro _ ⟨⟩) (by rintro _ ⟨⟩) (by rintro _ ⟨⟩),
          .inl rfl⟩
    · obtain ⟨⟩ := h
      have hphase := hs.holds thread phase hthread
      have htrusts := hs.trusts thread phase hthread
      obtain ⟨hupdate, htrust⟩ := free_of_undisturbed hs hthread hundisturbed
      have hacted : Acted floors s.files phase (operate bootstrap s.files phase answer) :=
        operate_acted hs.disk hphase htrusts (hs.bootstraps _ _ hbootstrap)
      refine ⟨moveThread_sound hs hthread hacted (fun next hnext => operate_trusts htrusts hnext)
        (fun next hnext hbusy => hupdate (operate_begins hnext hbusy))
        fun next hnext hbusy => htrust (operate_trusting hnext hbusy), ?_⟩
      have hadvances := hacted.advances
      revert hadvances
      cases (operate bootstrap s.files phase answer).2 <;> exact id
  · cases h

end

/-! ### Crashes -/

/-- What is torn is neither the state nor the journal nor a version. -/
theorem tear_sound {accepted : List Acceptance}
    (h : disk.Sound floors accepted) (tree : Tree) (bytes : Option H.Bytes)
    (torn : Option UpdatePhase) :
    (disk.tear tree bytes torn).Sound floors accepted ∧
      (disk.tear tree bytes torn).state = disk.state := by
  unfold CellDisk.tear
  split
  · exact ⟨⟨h.loads, h.runtime, h.journal, h.versions⟩, rfl⟩
  · exact ⟨⟨h.loads, h.runtime, h.journal, h.versions⟩, rfl⟩
  · split
    · exact ⟨⟨h.loads, h.runtime, h.journal, h.versions⟩, rfl⟩
    · exact ⟨h, rfl⟩
  · exact ⟨h, rfl⟩

/-- Nothing is torn outside updates. -/
theorem tear_idle (tree : Tree) (bytes : Option H.Bytes) {torn : Option UpdatePhase}
    (h : ∀ phase, torn = some phase → ¬phase.updating) : disk.tear tree bytes torn = disk := by
  unfold CellDisk.tear
  split
  · exact absurd rfl (h _ rfl)
  · exact absurd rfl (h _ rfl)
  · exact absurd rfl (h _ rfl)
  · rfl

theorem crashProcess_sound (hs : s.Sound floors) (pid : ID) (tree : Tree)
    (bytes : Option H.Bytes) : (s.crashProcess pid tree bytes).Sound floors ∧
      (s.crashProcess pid tree bytes).files.disk.state = s.files.disk.state := by
  obtain ⟨hmain, hstate⟩ := tear_sound hs.disk tree bytes (s.threads.find? (pid, .main))
  obtain ⟨hboth, hstate'⟩ := tear_sound hmain tree bytes (s.threads.find? (pid, .transition))
  refine ⟨⟨?_, hboth, (hs.updating.erase _).erase _, (hs.trusting.erase _).erase _, ?_,
    (hs.trusts.erase _).erase _, hs.recoveries⟩, hstate'.trans hstate⟩
  · intro other bootstrap hother
    exact hs.bootstraps other bootstrap (Table.of_find?_erase hother).2
  · intro thread phase hthread
    obtain ⟨htransition, hthread⟩ := Table.of_find?_erase hthread
    obtain ⟨hmain', hthread⟩ := Table.of_find?_erase hthread
    have hphase := hs.holds thread phase hthread
    by_cases hupdating : phase.updating
    · -- The thread is busy with an update, so the threads that are gone were not.
      have hidle : ∀ gone, gone ≠ thread → ∀ phase', s.threads.find? gone = some phase' →
          ¬phase'.updating := fun gone hne phase' hgone hupdating' =>
        hne (hs.updating gone thread phase' phase hgone hthread hupdating' hupdating)
      change phase.Sound floors s.files.accepted
        ((s.files.disk.tear tree bytes (s.threads.find? (pid, .main))).tear tree bytes
          (s.threads.find? (pid, .transition)))
      rw [tear_idle tree bytes (hidle _ (Ne.symm htransition)),
        tear_idle tree bytes (hidle _ (Ne.symm hmain'))]
      exact hphase
    · exact hphase.of_idle hupdating

/-- One event keeps what holds of the cell. -/
theorem serve_sound (hs : s.Sound floors) (hundisturbed : s.undisturbed event)
    (hfloors : event.floorsIn floors) (h : s.serve event = .ok s') :
    s'.Sound floors ∧ ActiveAdvances H.channel s.files.disk.state s'.files.disk.state := by
  cases event with
  | begin =>
    rw [serve] at h
    split at h
    · obtain ⟨⟩ := h
      refine ⟨⟨?_, hs.disk, hs.updating.set (by rintro ⟨⟩), hs.trusting.set (by rintro ⟨⟩),
        hs.holds.set trivial, hs.trusts.set trivial, hs.recoveries⟩, .inl rfl⟩
      intro other bootstrap' hother
      rcases Table.of_find?_set hother with ⟨-, rfl⟩ | hother
      · exact hfloors
      · exact hs.bootstraps other bootstrap' hother
    · cases h
  | request pid =>
    rw [serve] at h
    split at h
    · obtain ⟨⟩ := h
      exact ⟨⟨hs.bootstraps, hs.disk, hs.updating.set (by rintro ⟨⟩),
        hs.trusting.set (by rintro ⟨⟩),
        hs.holds.set trivial, hs.trusts.set trivial, hs.recoveries⟩, .inl rfl⟩
    · cases h
  | act => exact act_sound hs hundisturbed h
  | crash pid tree bytes =>
    rw [serve] at h
    split at h
    · obtain ⟨⟩ := h
      obtain ⟨hsound, hstate⟩ := crashProcess_sound hs pid tree bytes
      exact ⟨hsound, .inl (by rw [hstate])⟩
    · cases h

/-- The events of a run in which updates do not overlap, of processes with these protocol floors. -/
def allowed (floors : Text → Prop) (s : UpdateSystem H) (event : UpdateEvent H) : Prop :=
  s.undisturbed event ∧ event.floorsIn floors

instance (floors : Text → Prop) [DecidablePred floors] (event : UpdateEvent H) :
    Decidable (event.floorsIn floors) :=
  match event with
  | .begin _ bootstrap => inferInstanceAs (Decidable (floors bootstrap.protocolFloor))
  | .request _ | .act _ _ | .crash _ _ _ => .isTrue trivial

instance (floors : Text → Prop) [DecidablePred floors] (s : UpdateSystem H)
    (event : UpdateEvent H) : Decidable (allowed floors s event) :=
  inferInstanceAs (Decidable (_ ∧ _))

theorem sound_of_reaches
    (hrun : Machine.Reaches serve (allowed floors) (start : UpdateSystem H) s) : s.Sound floors :=
  hrun.invariant (Sound floors) (fun _ _ _ hallowed hs h =>
    (serve_sound hs hallowed.1 hallowed.2 h).1) start_sound

end UpdateSystem

/-! ## Two releases -/

variable (second : Bool)

/-- The version of the first release, or of the second. -/
def releaseVersion : Text := (if second then "1.0.0-beta.2" else "1.0.0-beta.1").toList

/-- The text of the manifest of a release. -/
def releaseText : Text := if second then ['2'] else ['1']

/-- The digest of the bundle of a release. -/
def releaseDigest : Text := List.replicate 64 (if second then 'b' else 'a')

/-- A file of a release. -/
def releaseFile (name : String) (content : Text) : ArchiveEntry :=
  ⟨name.toList, some (.file content true)⟩

/-- A machine on which the bundles of two releases can be downloaded. -/
def twoReleases : CellHost where
  channel := "beta".toList
  host := ⟨.mac, .arm64⟩
  scheme := sampleScheme
  Bytes := Bool
  sha256 := releaseDigest
  size := fun _ => 1
  archive := fun second => ([releaseFile "launcher/library" [], releaseFile "launcher/run" [],
    releaseFile "manifest.json" (releaseText second), releaseFile "payload/bin/open-cut" [],
    releaseFile "payload/run" []], true)
  readFile := fun tree path => match tree.find? path with
    | some (.file content _) => some content
    | _ => none
  isRegular := fun tree path => match tree.find? path with
    | some (.file _ _) => true
    | _ => false
  decodeManifest := fun content =>
    if content = ['1'] ∨ content = ['2'] then
      some ⟨1, "beta".toList, releaseVersion (content = ['2']), ⟨.mac, .arm64⟩,
        "launcher/run".toList, "payload/run".toList, ['p'], 0⟩
    else none
  topologyResolves := fun _ _ => true

/-- The metadata of a release, signed by the only key. -/
def releaseEnvelope : Envelope where
  signed := { sampleDescriptor with
    version := releaseVersion second, bundle := ⟨"releases/a".toList, 1, releaseDigest second⟩ }
  signatures := [⟨['a'], ['k']⟩]

/-- The bootstrap of every process. -/
def sampleBootstrap : Bootstrap := ⟨['p'], ⟨1, [⟨['a'], ['k']⟩]⟩⟩

/-- The thread does as many operations. -/
def goOn (thread : ThreadID) (count : Nat) : List (UpdateEvent twoReleases) :=
  List.replicate count (.act thread {})

/-- A thread installs a release, up to the point where its tree is extracted. -/
def downloadRelease (thread : ThreadID) (second : Bool) : List (UpdateEvent twoReleases) :=
  goOn thread 4 ++ [.act thread { envelope := some (releaseEnvelope second) },
    .act thread { transactionID := List.replicate 32 (if second then 'b' else 'a') }] ++
  goOn thread 2 ++ [.act thread { bytes := some second }] ++ goOn thread 4

/-- The first process installs the first release and makes it the active version. -/
def firstReleaseRuns : List (UpdateEvent twoReleases) :=
  .begin 1 sampleBootstrap :: goOn (1, .main) 3 ++ downloadRelease (1, .main) false ++
    goOn (1, .main) 16

/-! ## Runs in which updates do not overlap -/

open UpdateSystem

/-- If no update begins while another one is under way, then in every state that processes and
    crashes lead to, a candidate is newer than the active version, the active version is only
    replaced by a newer one, and, with one protocol floor, every recovery returned without an error,
    left no journal, and left the state as it was or with a candidate that was promoted. -/
theorem updates_never_go_backwards {floors : Text → Prop} {s : UpdateSystem H}
    (hrun : Machine.Reaches UpdateSystem.serve (UpdateSystem.allowed floors) UpdateSystem.start s) :
    (∀ runtime, s.files.disk.state = some runtime → runtime.candidate ≠ [] →
      Follows H.channel runtime.candidate runtime.active) ∧
    (∀ event s', UpdateSystem.allowed floors s event → s.serve event = .ok s' →
      ActiveAdvances H.channel s.files.disk.state s'.files.disk.state) ∧
    ((∀ floor floor', floors floor → floors floor' → floor = floor') →
      ∀ recovery ∈ s.files.recoveries, recovery.Sound) := by
  have hs := sound_of_reaches hrun
  refine ⟨fun runtime hstate hcandidate => ?_, fun event s' hallowed h =>
    (serve_sound hs hallowed.1 hallowed.2 h).2, hs.recoveries⟩
  have hload := hs.disk.load_of_state hstate
  exact (hs.disk.runtime runtime hload).candidate hcandidate

/-- A process crashes while it promotes the first release; the next one recovers, and confirms
    it. -/
theorem updates_never_go_backwards_recovered : ∃ s : UpdateSystem twoReleases,
    Machine.Reaches serve (allowed (· = ['p'])) start s ∧
    activeOf s.files.disk.state = releaseVersion false ∧ s.files.recoveries.length = 3 ∧
    ∀ recovery ∈ s.files.recoveries, recovery.Sound := by
  obtain ⟨s, hrun, hactive, hlength⟩ : ∃ s : UpdateSystem twoReleases,
      Machine.Reaches serve (allowed (· = ['p'])) start s ∧
      activeOf s.files.disk.state = releaseVersion false ∧ s.files.recoveries.length = 3 :=
    Machine.exists_of_play (.begin 1 sampleBootstrap :: goOn (1, .main) 3 ++
      downloadRelease (1, .main) false ++ goOn (1, .main) 11 ++
      [.crash 1 ∅ none, .begin 2 sampleBootstrap] ++ goOn (2, .main) 10) (by decide +kernel)
  refine ⟨s, hrun, hactive, hlength, (updates_never_go_backwards hrun).2.2 ?_⟩
  rintro _ _ rfl rfl
  rfl

/-- While the first process installs the second release, another process starts, finds the journal
    and loads the state, in which the first release is active. The second release is confirmed; then
    the other process writes back what it has loaded. -/
theorem update_goes_backwards : ∃ s s' : UpdateSystem twoReleases,
    Machine.Reaches serve (fun _ _ => True) start s ∧ s.serve (.act (2, .main) {}) = .ok s' ∧
    activeOf s.files.disk.state = releaseVersion true ∧
    activeOf s'.files.disk.state = releaseVersion false ∧
    Newer twoReleases.channel (releaseVersion true) (releaseVersion false) := by
  obtain ⟨s, hrun, hactive, s', hserve, hactive'⟩ : ∃ s : UpdateSystem twoReleases,
      Machine.Reaches serve (fun _ _ => True) start s ∧
      activeOf s.files.disk.state = releaseVersion true ∧
      ∃ s', s.serve (.act (2, .main) {}) = .ok s' ∧
        activeOf s'.files.disk.state = releaseVersion false :=
    Machine.exists_of_play (firstReleaseRuns ++ [.request 1] ++
      downloadRelease (1, .transition) true ++ goOn (1, .transition) 11 ++
      [.begin 2 sampleBootstrap] ++ goOn (2, .main) 4 ++ goOn (1, .transition) 3 ++
      goOn (1, .main) 4) (by decide +kernel)
  exact ⟨s, s', hrun, hserve, hactive, hactive', ⟨1, 0, 0, "beta".toList, 2⟩,
    ⟨1, 0, 0, "beta".toList, 1⟩, by decide +kernel, by decide +kernel, by decide +kernel⟩

/-- If no update begins while another one is under way, then every version that the state file
    names has a directory, which is the extraction of a bundle that has the digest and the size
    that metadata for this version, channel and host gave, and the metadata was accepted under the
    trust root that was stored at that time. -/
theorem promoted_releases_authorized {floors : Text → Prop} {s : UpdateSystem H}
    (hrun : Machine.Reaches UpdateSystem.serve (UpdateSystem.allowed floors) UpdateSystem.start s)
    {runtime : RuntimeState} (hstate : s.files.disk.state = some runtime) {version : Text}
    (hversion : version = runtime.candidate ∨ version = runtime.active) (hne : version ≠ []) :
    ∃ tree bytes, ∃ acceptance ∈ s.files.accepted,
      s.files.disk.versions.find? version = some tree ∧
      extract (H.archive bytes).1 (H.archive bytes).2 = .ok tree ∧
      H.sha256 bytes = acceptance.envelope.signed.bundle.sha256 ∧
      H.size bytes = acceptance.envelope.signed.bundle.size ∧
      acceptance.envelope.signed.version = version ∧
      acceptance.envelope.signed.channel = H.channel ∧
      acceptance.envelope.signed.target = H.host ∧
      acceptance.persisted = some acceptance.root ∧
      verifyEnvelopeTarget H.scheme acceptance.envelope acceptance.root.config H.channel
        acceptance.protocolFloor H.host acceptance.now = .ok () := by
  have hs := sound_of_reaches hrun
  have hload := hs.disk.load_of_state hstate
  obtain ⟨tree, htree⟩ := isSome_iff_exists.1
    ((hs.disk.runtime runtime hload).promoted version hversion.symm hne)
  obtain ⟨_, haccepts, rfl, bytes, hfits, hextract⟩ := (hs.disk.versions _ tree htree).authorized
  obtain ⟨-, hchannel, htarget, -⟩ := haccepts.valid
  obtain ⟨acceptance, hmem, rfl, hpersisted, hverify⟩ := haccepts
  rw [CellHost.bundleFits, decide_eq_true_eq] at hfits
  exact ⟨tree, bytes, acceptance, hmem, htree, hextract, hfits.1, hfits.2, rfl, hchannel, htarget,
    hpersisted, hverify⟩

/-- The first release is installed. -/
theorem promoted_releases_authorized_first :
    ∃ (s : UpdateSystem twoReleases) (runtime : RuntimeState),
    Machine.Reaches serve (allowed fun _ => True) start s ∧ s.files.disk.state = some runtime ∧
    runtime.active = releaseVersion false ∧ ∃ tree bytes, ∃ acceptance ∈ s.files.accepted,
      s.files.disk.versions.find? (releaseVersion false) = some tree ∧
      extract (twoReleases.archive bytes).1 (twoReleases.archive bytes).2 = .ok tree ∧
      twoReleases.sha256 bytes = acceptance.envelope.signed.bundle.sha256 := by
  obtain ⟨s, hrun, runtime, hstate, hactive⟩ : ∃ s : UpdateSystem twoReleases,
      Machine.Reaches serve (allowed fun _ => True) start s ∧
      ∃ runtime, s.files.disk.state = some runtime ∧ runtime.active = releaseVersion false :=
    Machine.exists_of_play firstReleaseRuns (by decide +kernel)
  obtain ⟨tree, bytes, acceptance, hmem, htree, hextract, hdigest, -⟩ :=
    promoted_releases_authorized hrun hstate (.inr hactive.symm) (by decide)
  exact ⟨s, runtime, hrun, hstate, hactive, tree, bytes, acceptance, hmem, htree, hextract, hdigest⟩

/-- While the first process extracts the first release, another process starts, finds the journal,
    begins to remove the transaction, and crashes. The tree that is left passes the checks, and
    becomes the candidate without a file that its bundle has. -/
theorem incomplete_release_promoted : ∃ (s : UpdateSystem twoReleases) (runtime : RuntimeState)
    (tree : Tree),
    Machine.Reaches serve (fun _ _ => True) start s ∧ Function.Injective twoReleases.sha256 ∧
    s.files.disk.state = some runtime ∧ runtime.candidate = releaseVersion false ∧
    s.files.disk.versions.find? runtime.candidate = some tree ∧
    ∀ bytes, extract (twoReleases.archive bytes).1 (twoReleases.archive bytes).2 ≠ .ok tree := by
  obtain ⟨s, hrun, runtime, hstate, hcandidate, tree, htree, hmissing⟩ :
      ∃ s : UpdateSystem twoReleases,
      Machine.Reaches serve (fun _ _ => True) start s ∧
      ∃ runtime, s.files.disk.state = some runtime ∧ runtime.candidate = releaseVersion false ∧
        ∃ tree, s.files.disk.versions.find? runtime.candidate = some tree ∧
          tree.find? "launcher/library".toList = none :=
    Machine.exists_of_play (.begin 1 sampleBootstrap :: goOn (1, .main) 3 ++
      downloadRelease (1, .main) false ++ goOn (1, .main) 2 ++
      .begin 2 sampleBootstrap :: goOn (2, .main) 3 ++
      [.act (2, .main) { unlink := some "launcher/library".toList }, .crash 2 ∅ none] ++
      goOn (1, .main) 12) (by decide +kernel)
  have hinjective : ∀ a b, releaseDigest a = releaseDigest b → a = b := by decide +kernel
  refine ⟨s, runtime, tree, hrun, fun a b => hinjective a b, hstate, hcandidate, htree,
    fun bytes hextract => ?_⟩
  obtain ⟨_, hextract', hthere⟩ : ∃ tree,
      extract (twoReleases.archive bytes).1 (twoReleases.archive bytes).2 = .ok tree ∧
      tree.find? "launcher/library".toList ≠ none := by
    cases bytes <;> decide +kernel
  cases hextract.symm.trans hextract'
  exact hthere hmissing

end OpenCut
