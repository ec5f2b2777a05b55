import OpenCut.Update.Assertions

/-!
# The operations of updates

Each operation of a thread that is busy with an update keeps what holds of the cell, and what is
known where the thread stands then follows (`operate_updating`). The other operations leave the
state, the journal and the directories alone (`operate_idle`).
-/

namespace OpenCut

open Outcome RuntimeState Option List

variable {H : CellHost} {floors : Text → Prop} {files files' : CellFiles H}
  {next : Option UpdatePhase}

/-- All processes have the same protocol floor. -/
def SameFloor (floors : Text → Prop) : Prop := ∀ floor floor', floors floor → floors floor' →
  floor = floor'

/-- What an operation of an update keeps, and what holds where the thread stands then. -/
structure Stepped (floors : Text → Prop) (files : CellFiles H)
    (result : CellFiles H × Option UpdatePhase) : Prop where
  disk : result.1.disk.Sound floors files.accepted
  next : ∀ phase, result.2 = some phase → phase.Sound floors files.accepted result.1.disk
  trust : result.1.trust = files.trust
  accepted : result.1.accepted = files.accepted
  advances : ActiveAdvances H.channel files.disk.state result.1.disk.state
  recoveries : ∀ recovery ∈ result.1.recoveries, recovery ∈ files.recoveries ∨
    (SameFloor floors → recovery.Sound)

namespace Stepped

variable (hdisk : files.disk.Sound floors files.accepted)
include hdisk

/-- The state, the journal and the versions stay. -/
theorem quiet (disk : CellDisk H) (hstate : disk.state = files.disk.state)
    (hjournal : disk.journal = files.disk.journal)
    (hversions : disk.versions = files.disk.versions)
    (hnext : ∀ phase, next = some phase → phase.Sound floors files.accepted disk) :
    Stepped floors files ({ files with disk }, next) := by
  refine ⟨⟨?_, ?_, ?_, ?_⟩, hnext, rfl, rfl, .inl (by rw [hstate]), fun _ => .inl⟩
  · exact hstate ▸ hdisk.loads
  · rw [hstate, hversions]
    exact hdisk.runtime
  · rw [hstate, hjournal]
    exact hdisk.journal
  · exact hversions ▸ hdisk.versions

/-- The thread goes on. -/
theorem onward {disk : CellDisk H} {phase : UpdatePhase}
    (hphase : phase.Sound floors files.accepted disk) (hstate : disk.state = files.disk.state)
    (hjournal : disk.journal = files.disk.journal)
    (hversions : disk.versions = files.disk.versions) :
    Stepped floors files ({ files with disk }, some phase) :=
  quiet hdisk disk hstate hjournal hversions fun _ hnext => some.inj hnext ▸ hphase

/-- Nothing is written. -/
theorem go {phase : UpdatePhase} (hphase : phase.Sound floors files.accepted files.disk) :
    Stepped floors files (files, some phase) :=
  onward hdisk hphase rfl rfl rfl

theorem abandon (install : Install) : Stepped floors files (abandon files install) :=
  go hdisk (show UpdatePhase.Sound floors files.accepted files.disk
    (.removing (.abandoned _) _) from trivial)

variable {runtime : RuntimeState}

/-- The state file is written. -/
theorem saved (hvalid : runtime.validate H.channel = .ok ())
    (hruntime : RuntimeSound H files.disk.versions runtime)
    (hjournal : ∀ entry, files.disk.journal = some entry → JournalSound H runtime entry)
    (hadvances : ActiveAdvances H.channel files.disk.state (some runtime))
    (hnext : ∀ phase, next = some phase → phase.Sound floors files.accepted
      { files.disk with state := some runtime }) :
    Stepped floors files
      ({ files with disk := { files.disk with state := some runtime } }, next) := by
  have hload := load_some_ok hvalid
  refine ⟨⟨⟨runtime, hload⟩, ?_, ?_, hdisk.versions⟩, hnext, rfl, rfl, hadvances,
    fun recovery hmem => .inl hmem⟩
  · intro loaded hloaded
    obtain rfl := Except.ok.inj (hload.symm.trans hloaded)
    exact hruntime
  · intro loaded entry hloaded hentry
    obtain rfl := Except.ok.inj (hload.symm.trans hloaded)
    exact hjournal entry hentry

/-- The version that the journal is about is saved as the candidate. -/
theorem prepared {entry : Journal}
    (hload : RuntimeState.load files.disk.state H.channel = .ok runtime)
    (hjournal : files.disk.journal = some entry)
    (hfollows : Follows H.channel entry.version runtime.active)
    (hversion : (files.disk.versions.find? entry.version).isSome)
    (hsave : runtime.prepare H.channel entry.version >>= files.saveState = .ok files')
    (hnext : ∀ prepared : RuntimeState, prepared.candidate = entry.version → ∀ phase,
      next = some phase → phase.Sound floors files.accepted
        { files.disk with state := some prepared }) : Stepped floors files (files', next) := by
  have hruntime := hdisk.runtime runtime hload
  have hentry := hdisk.journal runtime entry hload hjournal
  obtain ⟨prepared, hactive, hlast, hcandidate, hprepared, rfl⟩ := prepare_saveState_ok hsave
  refine saved hdisk hprepared ⟨?_, ?_, ?_⟩ ?_ (.inl ?_) (hnext prepared hcandidate)
  · rw [hactive, hlast]
    exact hruntime.lastGood
  · rw [hactive, hcandidate]
    exact fun _ => hfollows
  · intro version hversion' hne
    rw [hactive, hcandidate] at hversion'
    rcases hversion' with rfl | rfl
    · exact hruntime.promoted _ (.inl rfl) hne
    · exact hversion
  · intro entry' hentry'
    obtain rfl := mem_unique hjournal hentry'
    exact ⟨hentry.valid, hentry.channel, .inr hcandidate, .inr (hactive ▸ hfollows)⟩
  · rw [activeOf_of_load hload]
    exact hactive

/-- A recovery may only fail where it cannot. -/
theorem failRecover {before : Option RuntimeState} (hnever : ¬SameFloor floors) :
    Stepped floors files (failRecover files before) := by
  refine ⟨⟨hdisk.loads, hdisk.runtime, hdisk.journal, hdisk.versions⟩, ?_, rfl, rfl, .inl rfl,
    fun recovery hmem => ?_⟩
  · rintro _ ⟨⟩
  · rcases mem_append.1 hmem with hmem | -
    · exact .inl hmem
    · exact .inr fun hsame => absurd hsame hnever

end Stepped

/-! ## Recovery -/

section Recovery

variable {task : Task} {before : Option RuntimeState} {entry : Journal} {runtime : RuntimeState}

section

variable (hdisk : files.disk.Sound floors files.accepted)
include hdisk

theorem finishRecover_stepped (hrecovered : Recovered files.disk before) :
    Stepped floors files (finishRecover files task before entry) :=
  Stepped.go hdisk (show UpdatePhase.Sound floors files.accepted files.disk
    (.removing (.recovered task before) entry.transactionID) from hrecovered)

theorem recoverWith_stepped (hjournal : files.disk.journal = some entry)
    (hstate : files.disk.state = before)
    (hload : RuntimeState.load files.disk.state H.channel = .ok runtime) :
    Stepped floors files (recoverWith files task before entry runtime) := by
  rw [recoverWith]
  split
  · exact finishRecover_stepped hdisk (.inl hstate)
  · next hother =>
    rw [not_or] at hother
    have hcandidate := (hdisk.journal runtime entry hload hjournal).candidate.resolve_right hother.2
    rw [if_neg fun hne => hne hcandidate]
    exact .go hdisk ⟨hjournal, hstate, hload, hcandidate, hother.1⟩

theorem recoverSave_stepped (hrecovers : Recovers files.disk before entry runtime)
    (hversion : (files.disk.versions.find? entry.version).isSome) :
    Stepped floors files (recoverSave files task before entry runtime) := by
  have hentry := hdisk.journal runtime entry hrecovers.loads hrecovers.journal
  have hvalid := hentry.valid
  rw [Journal.valid, decide_eq_true_eq, hentry.channel] at hvalid
  have hparse := hvalid.2.2.2.2
  obtain ⟨_, hsave⟩ := exists_prepare_saveState files
    (validate_of_load hrecovers.loads) hrecovers.candidate hparse
  rw [recoverSave, hsave]
  refine .prepared hdisk hrecovers.loads hrecovers.journal
    (hentry.follows.resolve_left hrecovers.active) hversion hsave fun prepared hcandidate => ?_
  rintro _ ⟨⟩
  refine .inr ⟨prepared, rfl, ?_, ?_⟩
  · rw [hcandidate]
    exact ne_nil_of_parse hparse
  · rw [hcandidate]
    exact hversion

theorem removeOne_stepped {ending : Ending} (hending : ending.Sound files.disk)
    (transactionID : Text) (unlink : Option Text) :
    Stepped floors files (removeOne files ending transactionID unlink) := by
  unfold removeOne
  split
  · exact .onward hdisk hending rfl rfl rfl
  · split
    · exact .onward hdisk hending rfl rfl rfl
    · exact .go hdisk hending
  · exact .go hdisk hending

end

variable {accepted : List Acceptance} {disk : CellDisk H}

/-- Nothing is known where a recovery or an install has ended. -/
theorem Task.sound_recovered (task : Task) : task.recovered.Sound floors accepted disk := by
  cases task <;> trivial

theorem Task.sound_installed {task : Task}
    {phase : UpdatePhase} (h : task.installed = some phase) : phase.Sound floors accepted disk := by
  cases task <;> cases h
  trivial

theorem forget_stepped (hdisk : files.disk.Sound floors files.accepted) {ending : Ending}
    (hending : ending.Sound files.disk) : Stepped floors files (forget files ending) := by
  have hforgotten : CellDisk.Sound floors files.accepted { files.disk with journal := none } :=
    ⟨hdisk.loads, hdisk.runtime, fun _ _ _ hentry => absurd hentry.symm (some_ne_none _),
      hdisk.versions⟩
  cases ending with
  | recovered task =>
    refine ⟨hforgotten, ?_, rfl, rfl, .inl rfl, fun recovery hmem => ?_⟩
    · rintro _ ⟨⟩
      exact task.sound_recovered
    · rcases mem_append.1 hmem with hmem | hmem
      · exact .inl hmem
      · obtain rfl := mem_singleton.1 hmem
        refine .inr fun _ => ⟨rfl, rfl, ?_⟩
        rcases hending with hsame | ⟨runtime, hstate, hne, hpromoted⟩
        · exact .inl hsame
        · refine .inr ⟨runtime, hstate, hne, ?_⟩
          rw [hstate]
          exact hpromoted
  | installed task =>
    exact ⟨hforgotten, fun _ hnext => Task.sound_installed hnext, rfl, rfl, .inl rfl, fun _ => .inl⟩
  | abandoned task =>
    refine ⟨hforgotten, ?_, rfl, rfl, .inl rfl, fun _ => .inl⟩
    rintro _ ⟨⟩
    trivial

end Recovery

/-! ## Installation -/

section Installation

variable {install : Install} (hdisk : files.disk.Sound floors files.accepted)
include hdisk

section

variable (hbegun : install.Begun H files.accepted files.disk.state)
include hbegun

/-- The journal of an install that has begun. -/
theorem journaling_stepped {phase : JournalPhase} (hreached : install.Reached files.disk phase) :
    Stepped floors files
      ({ files with disk := { files.disk with journal := some (install.entry H.channel phase) } },
        some (install.after phase)) := by
  refine ⟨⟨hdisk.loads, hdisk.runtime, ?_, hdisk.versions⟩, ?_, rfl, rfl, .inl rfl, fun _ => .inl⟩
  · intro runtime entry hload hentry
    obtain rfl := Except.ok.inj (hbegun.loads.symm.trans hload)
    obtain ⟨⟩ := hentry
    exact ⟨Install.entry_valid hbegun phase, rfl, .inl hbegun.candidate, .inr hbegun.follows⟩
  · rintro _ ⟨⟩
    cases phase with
    | metadataVerified => exact ⟨hbegun, _, rfl⟩
    | downloaded => exact ⟨hbegun, ⟨_, rfl⟩, hreached⟩
    | extracted => exact ⟨hbegun, ⟨_, rfl⟩, hreached⟩
    | promoted => exact ⟨hbegun, ⟨_, rfl⟩, hreached⟩

theorem keepDownload_stepped (hstored : install.Stored H files.disk.partials) :
    Stepped floors files (keepDownload files install) := by
  obtain ⟨bytes, hbytes, hfits⟩ := hstored
  rw [keepDownload, hbytes]
  exact .onward hdisk ⟨hbegun, bytes, Table.find?_set_self _ _ _, hfits⟩ rfl rfl rfl

end

section

variable (hbegun : install.Begun H files.accepted files.disk.state)
  (hjournaled : install.Journaled H.channel files.disk.journal)
include hbegun hjournaled

theorem openArchive_stepped (hstored : install.Stored H files.disk.downloads) :
    Stepped floors files (openArchive files install) := by
  obtain ⟨bytes, hbytes, hfits⟩ := hstored
  rw [openArchive, hbytes]
  split
  · exact .abandon hdisk install
  · exact .onward hdisk
      ⟨hbegun, hjournaled, bytes, [], ∅, hfits, rfl, rfl, Table.find?_set_self _ _ _⟩ rfl rfl rfl

/-- One more entry is extracted: the entries that are done are the first ones of the archive. -/
theorem extractOne_stepped {entries : List ArchiveEntry} {ends : Bool}
    (hextracting : install.Extracting H files.disk.incoming entries ends) :
    Stepped floors files (extractOne files install entries ends) := by
  obtain ⟨bytes, done, tree, hfits, harchive, hdone, htree⟩ := hextracting
  cases entries with
  | nil =>
    rw [append_nil] at harchive
    rw [extractOne]
    split
    · next hends =>
      refine .go hdisk ⟨hbegun, bytes, tree, hfits, ?_, htree, trivial⟩
      rw [harchive, extract, hdone, ok_bind, ensure_of _ hends]
      rfl
    · exact .abandon hdisk install
  | cons entry =>
    unfold extractOne
    rw [htree]
    dsimp only
    split
    · exact .abandon hdisk install
    · next tree' hwrite =>
      refine .onward hdisk ⟨hbegun, hjournaled, bytes, done ++ [entry], tree', hfits, ?_, ?_,
        Table.find?_set_self _ _ _⟩ rfl rfl rfl
      · rw [harchive, append_assoc]
        rfl
      · rw [foldlM_append, hdone, ok_bind, foldlM_cons, hwrite, ok_bind]
        rfl

theorem validateTree_stepped (hextracted : install.Extracted H files.disk.incoming fun _ => True)
    {protocolFloor : Text} (hfloor : floors protocolFloor) :
    Stepped floors files (validateTree files install protocolFloor) := by
  obtain ⟨bytes, tree, hfits, hextract, htree, -⟩ := hextracted
  unfold validateTree
  rw [htree]
  dsimp only
  split
  · next hchecked =>
    exact .go hdisk
      ⟨hbegun, hjournaled, bytes, tree, hfits, hextract, htree, protocolFloor, hfloor, hchecked.1⟩
  · exact .abandon hdisk install

end

theorem statVersion_stepped
    (hphase : UpdatePhase.Sound floors files.accepted files.disk (.promoting install)) :
    Stepped floors files (statVersion files install) := by
  rw [statVersion]
  split
  · exact .go hdisk hphase
  · next existing hexisting =>
    split
    · refine .go hdisk ⟨hphase.1, ?_⟩
      rw [Install.Reached, hexisting]
      rfl
    · exact .abandon hdisk install

/-- The tree that was extracted and checked becomes the directory of the version. -/
theorem renameTree_stepped
    (hphase : UpdatePhase.Sound floors files.accepted files.disk (.moving install)) :
    Stepped floors files (renameTree files install) := by
  obtain ⟨hbegun, -, bytes, tree, hfits, hextract, htree, hfloor⟩ := hphase
  rw [renameTree, htree]
  split
  · next tree' heq hnone =>
    obtain ⟨⟩ := heq
    have hkept : ∀ version, (files.disk.versions.find? version).isSome →
        ((files.disk.versions.set install.version tree).find? version).isSome := by
      intro version hversion
      rw [Table.find?_set]
      split
      · rfl
      · exact hversion
    refine ⟨⟨hdisk.loads, ?_, hdisk.journal, ?_⟩, ?_, rfl, rfl, .inl rfl, fun _ => .inl⟩
    · intro runtime hload
      have hruntime := hdisk.runtime runtime hload
      exact ⟨hruntime.lastGood, hruntime.candidate, fun version hversion hne =>
        hkept version (hruntime.promoted version hversion hne)⟩
    · intro version other hfind
      rcases Table.of_find?_set hfind with ⟨rfl, rfl⟩ | hfind
      · exact ⟨⟨install.envelope, hbegun.accepted, rfl, bytes, hfits, hextract⟩, hfloor⟩
      · exact hdisk.versions version other hfind
    · rintro _ ⟨⟩
      refine ⟨hbegun, ?_⟩
      rw [Install.Reached, Table.find?_set_self]
      rfl
  · exact .abandon hdisk install

theorem saveCandidate_stepped (hbegun : install.Begun H files.accepted files.disk.state)
    (hjournaled : install.Journaled H.channel files.disk.journal)
    (hversion : (files.disk.versions.find? install.version).isSome) :
    Stepped floors files (saveCandidate files install) := by
  rw [saveCandidate]
  split
  · exact .abandon hdisk install
  · next files' hsave =>
    obtain ⟨_, hphase⟩ := hjournaled
    refine .prepared hdisk hbegun.loads hphase hbegun.follows hversion hsave fun _ _ => ?_
    rintro _ ⟨⟩
    trivial

end Installation

/-! ## Candidates -/

variable {versions : Table Text Tree}

theorem RuntimeSound.of_confirm {runtime : RuntimeState}
    (h : RuntimeSound H versions runtime) (hcandidate : runtime.candidate ≠ []) (generation : Nat) :
    RuntimeSound H versions { runtime with
      generation, active := runtime.candidate, lastGood := runtime.candidate
      candidate := [] } := by
  refine ⟨rfl, fun hne => absurd rfl hne, ?_⟩
  rintro _ (rfl | rfl) hne
  · exact h.promoted _ (.inr rfl) hcandidate
  · exact absurd rfl hne

theorem RuntimeSound.of_rollback {runtime : RuntimeState}
    (h : RuntimeSound H versions runtime) (generation : Nat) :
    RuntimeSound H versions { runtime with
      generation, candidate := [], active := runtime.lastGood } := by
  refine ⟨rfl, fun hne => absurd rfl hne, ?_⟩
  rintro _ (rfl | rfl) hne
  · exact h.promoted _ (.inl h.lastGood.symm) hne
  · exact absurd rfl hne

/-- A candidate that is confirmed is newer than the version that was active; one that is rolled
    back leaves the active version as it is. -/
theorem settleCandidate_stepped (hdisk : files.disk.Sound floors files.accepted)
    {runtime : RuntimeState} (hload : RuntimeState.load files.disk.state H.channel = .ok runtime)
    (hcandidate : runtime.candidate ≠ []) (failed : Bool) :
    Stepped floors files (settleCandidate files runtime failed) := by
  have hruntime := hdisk.runtime runtime hload
  have hfollows := hruntime.candidate hcandidate
  have hentry : ∀ entry, files.disk.journal = some entry → runtime.candidate = entry.version ∧
      JournalSound H runtime entry := by
    intro entry hjournal
    have hsound := hdisk.journal runtime entry hload hjournal
    exact ⟨hsound.candidate.resolve_left hcandidate, hsound⟩
  have hstay : Stepped floors files (files, none) :=
    Stepped.quiet hdisk files.disk rfl rfl rfl (by rintro _ ⟨⟩)
  rw [settleCandidate]
  split
  · split
    · exact hstay
    · next files' hsave =>
      simp only [rollback, CellFiles.saveState, steps_ok] at hsave
      obtain ⟨_, ⟨_, -, _, -, rfl⟩, hvalid, rfl⟩ := hsave
      refine .saved hdisk hvalid (hruntime.of_rollback _) ?_ (.inl ?_) (by rintro _ ⟨⟩)
      · intro entry hjournal
        obtain ⟨heq, hsound⟩ := hentry entry hjournal
        refine ⟨hsound.valid, hsound.channel, .inl rfl, .inr ?_⟩
        rw [← heq, ← hruntime.lastGood]
        exact hfollows
      · rw [activeOf_of_load hload]
        exact hruntime.lastGood.symm
  · split
    · exact hstay
    · next files' hsave =>
      simp only [confirm, CellFiles.saveState, steps_ok] at hsave
      obtain ⟨_, ⟨_, -, _, -, rfl⟩, hvalid, rfl⟩ := hsave
      refine .saved hdisk hvalid (hruntime.of_confirm hcandidate _) ?_ (.inr ?_) ?_
      · intro entry hjournal
        obtain ⟨heq, hsound⟩ := hentry entry hjournal
        exact ⟨hsound.valid, hsound.channel, .inl rfl, .inl heq⟩
      · rw [activeOf_of_load hload]
        exact hfollows
      · rintro _ ⟨⟩
        trivial

/-! ## All operations -/

variable {bootstrap : Bootstrap} {phase : UpdatePhase} {answer : Answer H}

/-- An operation of a thread that is busy with an update. -/
theorem operate_updating (hupdating : phase.updating)
    (hdisk : files.disk.Sound floors files.accepted)
    (hphase : phase.Sound floors files.accepted files.disk)
    (hfloor : floors bootstrap.protocolFloor) :
    Stepped floors files (operate bootstrap files phase answer) := by
  cases phase with
  | recovering task | preparing task | origins task | rotating task root | verifying task root
  | deciding task envelope | locking | looping | running selected | leaving => cases hupdating
  | recoveringState =>
    obtain ⟨_, hload⟩ := hdisk.loads
    rw [operate, hload]
    exact recoverWith_stepped hdisk hphase.1 hphase.2 hload
  | recoveringStat =>
    rw [operate]
    split
    · exact finishRecover_stepped hdisk (.inl hphase.state)
    · next hsome =>
      rw [isNone_iff_eq_none, ← ne_eq, ne_none_iff_isSome] at hsome
      exact .go hdisk ⟨hphase, hsome⟩
  | recoveringCheck =>
    rw [operate]
    split
    · exact .go hdisk hphase
    · next hfits =>
      obtain ⟨tree, htree⟩ := isSome_iff_exists.1 hphase.2
      obtain ⟨floor, hfloor', hfits'⟩ := (hdisk.versions _ tree htree).fits
      refine .failRecover hdisk fun hsame => hfits ?_
      rw [htree, hsame _ floor hfloor hfloor']
      exact hfits'
  | recoveringSave => exact recoverSave_stepped hdisk hphase.1 hphase.2
  | removing ending transactionID => exact removeOne_stepped hdisk hphase transactionID _
  | forgetting => exact forget_stepped hdisk hphase
  | journaling => exact journaling_stepped hdisk hphase.1 hphase.2
  | caching =>
    rw [operate]
    split
    · next hcached =>
      obtain ⟨bytes, hbytes, hfits⟩ := (any_eq_true _ _).1 hcached
      exact .go hdisk ⟨hphase.1, bytes, hbytes, hfits⟩
    · exact .go hdisk hphase
  | downloading install =>
    rw [operate]
    split
    · exact .abandon hdisk install
    · exact .onward hdisk hphase rfl rfl rfl
  | comparing =>
    rw [operate]
    split
    · next hdownloaded =>
      obtain ⟨bytes, hbytes, hfits⟩ := (any_eq_true _ _).1 hdownloaded
      exact .go hdisk ⟨hphase.1, hphase.2, bytes, hbytes, hfits⟩
    · exact .onward hdisk trivial rfl rfl rfl
  | keeping => exact keepDownload_stepped hdisk hphase.1 hphase.2.2
  | opening => exact openArchive_stepped hdisk hphase.1 hphase.2.1 hphase.2.2
  | extracting => exact extractOne_stepped hdisk hphase.1 hphase.2.1 hphase.2.2
  | validating => exact validateTree_stepped hdisk hphase.1 hphase.2.1 hphase.2.2 hfloor
  | promoting => exact statVersion_stepped hdisk hphase
  | moving => exact renameTree_stepped hdisk hphase
  | saving => exact saveCandidate_stepped hdisk hphase.1 hphase.2.1 hphase.2.2
  | testing => exact settleCandidate_stepped hdisk hphase.1 hphase.2 _

/-- What an operation outside updates leaves alone, and what holds where the thread stands then. -/
structure Waited (floors : Text → Prop) (files : CellFiles H)
    (result : CellFiles H × Option UpdatePhase) : Prop where
  disk : result.1.disk = files.disk
  accepted : files.accepted ⊆ result.1.accepted
  next : ∀ phase, result.2 = some phase → phase.Sound floors result.1.accepted files.disk
  recoveries : ∀ recovery ∈ result.1.recoveries, recovery ∈ files.recoveries ∨ recovery.Sound

/-- Nothing is written, or only the trust root. -/
theorem Waited.go (trust : TrustStore)
    (hnext : ∀ phase, next = some phase → phase.Sound floors files.accepted files.disk) :
    Waited floors files ({ files with trust }, next) :=
  ⟨rfl, List.Subset.refl _, hnext, fun _ => .inl⟩

theorem Waited.stay
    (hnext : ∀ phase, next = some phase → phase.Sound floors files.accepted files.disk) :
    Waited floors files (files, next) :=
  ⟨rfl, List.Subset.refl _, hnext, fun _ => .inl⟩

/-- A transaction begins for a release that is newer than the active version. -/
theorem decideInstall_sound {task : Task} {envelope : Envelope} {transactionID : Text}
    {runtime : RuntimeState} (haccepts : Accepts H files.accepted envelope)
    (hload : RuntimeState.load files.disk.state H.channel = .ok runtime)
    (h : decideInstall H.channel task envelope transactionID runtime = some phase) :
    phase.Sound floors files.accepted files.disk := by
  have hversion := haccepts.valid.1
  rw [decideInstall] at h
  split at h
  · split at h
    · exact Task.sound_installed h
    · cases h
      trivial
  · next hcandidate =>
    rw [not_not] at hcandidate
    split at h
    · exact Task.sound_installed h
    · split at h
      · cases h
        trivial
      · next hrefused =>
        split at h
        · cases h
          trivial
        · next hid =>
          cases h
          refine ⟨⟨hload, hcandidate, ?_, haccepts, not_not.1 hid⟩, trivial⟩
          by_cases hactive : runtime.active = []
          · exact .inl hactive
          · have hvalid := validate_ok.1 (validate_of_load hload)
            have hexceeds : exceeds H.channel envelope.signed.version runtime.active := by
              by_contra hnot
              exact hrefused ⟨hactive, hnot⟩
            exact .inr (newer_of_exceeds hversion
              (parse_of_validVersion hvalid.2.1.1 hactive) hexceeds)

/-- An operation of a thread that is not busy with an update. -/
theorem operate_idle (hidle : ¬phase.updating) (hdisk : files.disk.Sound floors files.accepted)
    (hphase : phase.Sound floors files.accepted files.disk) (htrusts : phase.Trusts files.trust) :
    Waited floors files (operate bootstrap files phase answer) := by
  have hend : ∀ phase, (none : Option UpdatePhase) = some phase →
      phase.Sound floors files.accepted files.disk := by rintro _ ⟨⟩
  have horigins : ∀ task phase, some (UpdatePhase.origins task) = some phase →
      phase.Sound floors files.accepted files.disk := by
    rintro task _ ⟨⟩
    trivial
  cases phase with
  | recovering task =>
    rw [operate]
    split
    · next hnone =>
      refine ⟨rfl, List.Subset.refl _, ?_, fun recovery hmem => ?_⟩
      · rintro _ ⟨⟩
        exact task.sound_recovered
      · rcases mem_append.1 hmem with hmem | hmem
        · exact .inl hmem
        · obtain rfl := mem_singleton.1 hmem
          exact .inr ⟨rfl, hnone, .inl rfl⟩
    · next entry hentry =>
      obtain ⟨runtime, hload⟩ := hdisk.loads
      have hsound := hdisk.journal runtime entry hload hentry
      rw [if_pos ⟨hsound.valid, hsound.channel⟩]
      refine Waited.stay ?_
      rintro _ ⟨⟩
      exact ⟨hentry, rfl⟩
  | preparing task =>
    rw [operate]
    split
    · exact Waited.stay hend
    · exact Waited.go _ (horigins task)
  | origins task =>
    rw [operate]
    split
    · exact Waited.stay hend
    · split
      · exact Waited.stay (horigins task)
      · refine Waited.go _ ?_
        rintro _ ⟨⟩
        trivial
  | rotating task root =>
    rw [operate]
    split
    · exact Waited.stay (horigins task)
    · refine Waited.go _ ?_
      rintro _ ⟨⟩
      trivial
  | verifying task root =>
    rw [operate]
    split
    · exact Waited.stay (horigins task)
    · split
      · exact Waited.stay (horigins task)
      · next envelope _ _ hverify =>
        refine ⟨rfl, subset_append_left _ _, ?_, fun _ => .inl⟩
        rintro _ ⟨⟩
        exact ⟨_, mem_append_right _ (mem_singleton.2 rfl), rfl, htrusts, hverify⟩
  | deciding =>
    obtain ⟨runtime, hload⟩ := hdisk.loads
    rw [operate, hload]
    exact Waited.stay fun phase hnext => decideInstall_sound hphase hload hnext
  | locking =>
    refine Waited.stay ?_
    rintro _ ⟨⟩
    trivial
  | looping =>
    obtain ⟨runtime, hload⟩ := hdisk.loads
    rw [operate, hload]
    refine Waited.stay ?_
    rintro _ ⟨⟩
    rw [selectRelease]
    split
    · next hcandidate => exact ⟨hload, hcandidate⟩
    · split <;> trivial
  | running =>
    refine Waited.stay fun phase hnext => ?_
    split at hnext
    · exact hend phase hnext
    · cases hnext
      trivial
  | leaving =>
    obtain ⟨_, hload⟩ := hdisk.loads
    rw [operate, hload]
    refine Waited.stay fun phase hnext => ?_
    rw [leaveRelease] at hnext
    split at hnext
    · cases hnext
    · cases hnext
      trivial
  | _ => exact absurd rfl hidle

end OpenCut
