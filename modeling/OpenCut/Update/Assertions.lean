import OpenCut.Update.Launchers

/-!
# What holds of a cell between operations

Between updates, the files of a cell agree: the state is valid, its candidate is newer than the
active version, what it names was promoted, the journal is about the candidate or about a version
that may become one, and every version's directory is the extraction of a bundle that was
accepted (`CellDisk.Sound`). While a thread is busy with an update, more is known from where it
stands (`UpdatePhase.Sound`).

Each operation of an update keeps this, if no other thread touches the files meanwhile
(`operate_updating`); other operations leave the files alone (`operate_idle`).
-/

namespace OpenCut

open Outcome RuntimeState

variable {H : CellHost}

/-! ## Assertions -/

/-- The first version is greater than the second one. -/
def Newer (channel version other : Text) : Prop :=
  ∃ v w, parseVersionForChannel version channel = some v ∧
    parseVersionForChannel other channel = some w ∧ v.compare w = .gt

/-- A version may take the place of the active one, which may be missing. -/
def Follows (channel version active : Text) : Prop := active = [] ∨ Newer channel version active

/-- The metadata was accepted under the trust root that was stored at that time. -/
def Accepts (H : CellHost) (accepted : List Acceptance) (envelope : Envelope) : Prop :=
  ∃ acceptance ∈ accepted, acceptance.envelope = envelope ∧
    acceptance.persisted = some acceptance.root ∧
    verifyEnvelopeTarget H.scheme envelope acceptance.root.config H.channel acceptance.protocolFloor
      H.host acceptance.now = .ok ()

/-- The tree is the extraction of a bundle that has the digest and the size of accepted
    metadata. -/
def Authorized (H : CellHost) (accepted : List Acceptance) (version : Text) (tree : Tree) : Prop :=
  ∃ envelope, Accepts H accepted envelope ∧ envelope.signed.version = version ∧
    ∃ bytes, H.bundleFits bytes envelope.signed.bundle ∧
      extract (H.archive bytes).1 (H.archive bytes).2 = .ok tree

/-- The directory of a version, of which one of the protocol floors was the floor. -/
structure Promoted (H : CellHost) (floors : Text → Prop) (accepted : List Acceptance)
    (version : Text) (tree : Tree) : Prop where
  authorized : Authorized H accepted version tree
  fits : ∃ floor, floors floor ∧ H.releaseFits tree version floor

/-- The state file, with the directories of versions. -/
structure RuntimeSound (H : CellHost) (versions : Table Text Tree) (runtime : RuntimeState) :
    Prop where
  lastGood : runtime.active = runtime.lastGood
  candidate : runtime.candidate ≠ [] → Follows H.channel runtime.candidate runtime.active
  promoted : ∀ version, version = runtime.active ∨ version = runtime.candidate → version ≠ [] →
    (versions.find? version).isSome

/-- The journal is about the candidate, or about a version that was or may be one. -/
structure JournalSound (H : CellHost) (runtime : RuntimeState) (entry : Journal) : Prop where
  valid : entry.valid
  channel : entry.channel = H.channel
  candidate : runtime.candidate = [] ∨ runtime.candidate = entry.version
  follows : runtime.active = entry.version ∨ Follows H.channel entry.version runtime.active

/-- The state that is loaded, the journal and the directories of versions agree. -/
structure CellDisk.Sound (floors : Text → Prop) (accepted : List Acceptance) (disk : CellDisk H) :
    Prop where
  loads : ∃ runtime, RuntimeState.load disk.state H.channel = .ok runtime
  runtime : ∀ runtime, RuntimeState.load disk.state H.channel = .ok runtime →
    RuntimeSound H disk.versions runtime
  journal : ∀ runtime entry, RuntimeState.load disk.state H.channel = .ok runtime →
    disk.journal = some entry → JournalSound H runtime entry
  versions : ∀ version tree, disk.versions.find? version = some tree →
    Promoted H floors accepted version tree

/-- An install has begun on the state that it has loaded. -/
structure Install.Begun (H : CellHost) (accepted : List Acceptance) (state : Option RuntimeState)
    (install : Install) : Prop where
  loads : RuntimeState.load state H.channel = .ok install.runtime
  candidate : install.runtime.candidate = []
  follows : Follows H.channel install.version install.runtime.active
  accepted : Accepts H accepted install.envelope
  transactionID : isTransactionID install.transactionID

/-- The journal is that of the install. -/
def Install.Journaled (channel : Text) (journal : Option Journal) (install : Install) : Prop :=
  ∃ phase, journal = some (install.entry channel phase)

/-- The bundle is in a directory of downloads. -/
def Install.Stored (H : CellHost) (downloads : Table Text H.Bytes) (install : Install) : Prop :=
  ∃ bytes, downloads.find? install.bundle.sha256 = some bytes ∧ H.bundleFits bytes install.bundle

/-- The tree is the extraction of the bundle. -/
def Install.Extracted (H : CellHost) (incoming : Table Text Tree) (install : Install)
    (P : Tree → Prop) : Prop :=
  ∃ bytes tree, H.bundleFits bytes install.bundle ∧
    extract (H.archive bytes).1 (H.archive bytes).2 = .ok tree ∧
    incoming.find? install.transactionID = some tree ∧ P tree

/-- The tree is the extraction of the first entries of the bundle. -/
def Install.Extracting (H : CellHost) (incoming : Table Text Tree) (install : Install)
    (entries : List ArchiveEntry) (ends : Bool) : Prop :=
  ∃ bytes done tree, H.bundleFits bytes install.bundle ∧ H.archive bytes = (done ++ entries, ends) ∧
    done.foldlM writeEntry ∅ = .ok tree ∧ incoming.find? install.transactionID = some tree

/-- What the install has achieved when its journal is about to be written. -/
def Install.Reached (disk : CellDisk H) (install : Install) : JournalPhase → Prop
  | .metadataVerified => True
  | .downloaded => install.Stored H disk.downloads
  | .extracted => install.Extracted H disk.incoming fun _ => True
  | .promoted => (disk.versions.find? install.version).isSome

/-- A recovery has the journal and the state. -/
structure Recovers (disk : CellDisk H) (before : Option RuntimeState) (entry : Journal)
    (runtime : RuntimeState) : Prop where
  journal : disk.journal = some entry
  state : disk.state = before
  loads : RuntimeState.load disk.state H.channel = .ok runtime
  candidate : runtime.candidate = []
  active : runtime.active ≠ entry.version

/-- The state is as before the recovery, or names a candidate that was promoted. -/
def Recovered (disk : CellDisk H) (before : Option RuntimeState) : Prop :=
  disk.state = before ∨ ∃ runtime, disk.state = some runtime ∧ runtime.candidate ≠ [] ∧
    (disk.versions.find? runtime.candidate).isSome

/-- What holds when a transaction is removed. -/
def Ending.Sound (disk : CellDisk H) : Ending → Prop
  | .recovered _ before => Recovered disk before
  | .installed _ | .abandoned _ => True

/-- What holds when a thread stands in a phase. -/
def UpdatePhase.Sound (floors : Text → Prop) (accepted : List Acceptance) (disk : CellDisk H) :
    UpdatePhase → Prop
  | .recoveringState _ before entry => disk.journal = some entry ∧ disk.state = before
  | .recoveringStat _ before entry runtime => Recovers disk before entry runtime
  | .recoveringCheck _ before entry runtime | .recoveringSave _ before entry runtime =>
    Recovers disk before entry runtime ∧ (disk.versions.find? entry.version).isSome
  | .removing ending _ | .forgetting ending => ending.Sound disk
  | .deciding _ envelope => Accepts H accepted envelope
  | .journaling install phase => install.Begun H accepted disk.state ∧ install.Reached disk phase
  | .caching install | .downloading install | .comparing install =>
    install.Begun H accepted disk.state ∧ install.Journaled H.channel disk.journal
  | .keeping install =>
    install.Begun H accepted disk.state ∧ install.Journaled H.channel disk.journal ∧
      install.Stored H disk.partials
  | .opening install =>
    install.Begun H accepted disk.state ∧ install.Journaled H.channel disk.journal ∧
      install.Stored H disk.downloads
  | .extracting install entries ends =>
    install.Begun H accepted disk.state ∧ install.Journaled H.channel disk.journal ∧
      install.Extracting H disk.incoming entries ends
  | .validating install =>
    install.Begun H accepted disk.state ∧ install.Journaled H.channel disk.journal ∧
      install.Extracted H disk.incoming fun _ => True
  | .promoting install | .moving install =>
    install.Begun H accepted disk.state ∧ install.Journaled H.channel disk.journal ∧
      install.Extracted H disk.incoming fun tree =>
        ∃ floor, floors floor ∧ H.releaseFits tree install.version floor
  | .saving install =>
    install.Begun H accepted disk.state ∧ install.Journaled H.channel disk.journal ∧
      (disk.versions.find? install.version).isSome
  | .testing runtime =>
    RuntimeState.load disk.state H.channel = .ok runtime ∧ runtime.candidate ≠ []
  | .recovering _ | .preparing _ | .origins _ | .rotating .. | .verifying .. | .locking | .looping
  | .running _ | .leaving _ => True

/-- The trust root that a thread goes by is the one in the file. -/
def UpdatePhase.Trusts (trust : TrustStore) : UpdatePhase → Prop
  | .rotating _ root | .verifying _ root => trust.file = some root
  | _ => True

/-- A recovery returned no error and left no journal, and the state is as before or names a
    candidate that was promoted. -/
structure Recovery.Sound (recovery : Recovery) : Prop where
  failed : recovery.failed = false
  journal : recovery.journal = none
  state : recovery.after = recovery.before ∨ ∃ runtime, recovery.after = some runtime ∧
    runtime.candidate ≠ [] ∧ recovery.promoted

/-- The active version in the state file. -/
def activeOf (state : Option RuntimeState) : Text := (state.map (·.active)).getD []

/-- The active version is the same, or a newer one. -/
def ActiveAdvances (channel : Text) (state state' : Option RuntimeState) : Prop :=
  activeOf state' = activeOf state ∨ Follows channel (activeOf state') (activeOf state)

/-! ## States -/

section States

variable {channel version : Text} {state : Option RuntimeState} {runtime : RuntimeState}

theorem RuntimeState.load_some_ok (h : runtime.validate channel = .ok ()) :
    RuntimeState.load (some runtime) channel = .ok runtime := by
  rw [load, h]
  rfl

section

variable (h : RuntimeState.load state channel = .ok runtime)
include h

/-- What was loaded is valid. -/
theorem RuntimeState.validate_of_load : runtime.validate channel = .ok () := by
  cases state with
  | none =>
    obtain ⟨⟩ := h
    rfl
  | some =>
    rw [load, check_bind_ok, pure_ok] at h
    obtain ⟨hvalid, rfl⟩ := h
    exact hvalid

theorem activeOf_of_load : activeOf state = runtime.active := by
  cases state with
  | none =>
    obtain ⟨⟩ := h
    rfl
  | some =>
    rw [load, check_bind_ok, pure_ok] at h
    obtain ⟨-, rfl⟩ := h
    rfl

end

theorem RuntimeState.validate_ok : runtime.validate channel = .ok () ↔ runtime.schema = 1 ∧
      (validVersion channel runtime.active ∧ validVersion channel runtime.candidate ∧
        validVersion channel runtime.lastGood) ∧
      (runtime.candidate ≠ [] ∨ runtime.active = runtime.lastGood) := by
  simp only [validate, steps_ok]

theorem parse_of_validVersion (h : RuntimeState.validVersion channel version) (hne : version ≠ []) :
    (parseVersionForChannel version channel).isSome := by
  rw [validVersion, Bool.or_eq_true, decide_eq_true_eq] at h
  exact h.resolve_left hne

theorem ne_nil_of_parse (h : (parseVersionForChannel version channel).isSome) : version ≠ [] := by
  rintro rfl
  revert h
  have hnone : parseVersion [] = none := by decide
  rw [parseVersionForChannel, hnone]
  simp

/-- Of two versions of the channel, the code compares the parsed ones. -/
theorem newer_of_exceeds {other : Text} (hversion : (parseVersionForChannel version channel).isSome)
    (hother : (parseVersionForChannel other channel).isSome) (h : exceeds channel version other) :
    Newer channel version other := by
  obtain ⟨v, hv⟩ := Option.isSome_iff_exists.1 hversion
  obtain ⟨w, hw⟩ := Option.isSome_iff_exists.1 hother
  rw [exceeds, hv, hw, decide_eq_true_eq] at h
  exact ⟨v, w, hv, hw, h⟩

/-- A version becomes the candidate. -/
theorem prepare_saveState_ok {files files' : CellFiles H}
    (h : runtime.prepare H.channel version >>= files.saveState = .ok files') :
    ∃ prepared : RuntimeState, prepared.active = runtime.active ∧
      prepared.lastGood = runtime.lastGood ∧ prepared.candidate = version ∧
      prepared.validate H.channel = .ok () ∧
      files' = { files with disk := { files.disk with state := some prepared } } := by
  simp only [prepare, CellFiles.saveState, steps_ok] at h
  obtain ⟨_, ⟨_, -, _, -, _, -, rfl⟩, hvalid, rfl⟩ := h
  refine ⟨_, ?_, ?_, ?_, hvalid, rfl⟩ <;> rfl

theorem exists_prepare_saveState (files : CellFiles H)
    (hvalid : runtime.validate H.channel = .ok ()) (hcandidate : runtime.candidate = [])
    (hversion : (parseVersionForChannel version H.channel).isSome) :
    ∃ files', runtime.prepare H.channel version >>= files.saveState = .ok files' := by
  have hne := ne_nil_of_parse hversion
  obtain ⟨hschema, ⟨hactive, -, hlast⟩, -⟩ := validate_ok.1 hvalid
  have hprepare : runtime.prepare H.channel version = .ok { runtime with
      generation := (runtime.generation + 1) % 2 ^ 64
      attempt := (runtime.attempt + 1) % 2 ^ 64
      candidate := version } := by
    rw [prepare, hvalid, ok_bind, ensure_of _ hcandidate, ok_bind, ensure_of _ hversion, ok_bind]
    rfl
  rw [hprepare, ok_bind, CellFiles.saveState, exists_bind_ok]
  refine ⟨(), validate_ok.2 ⟨hschema, ⟨hactive, ?_, hlast⟩, .inl hne⟩, _, rfl⟩
  rw [validVersion, Bool.or_eq_true]
  exact .inr hversion

end States

/-! ## Accepted metadata -/

variable {accepted accepted' : List Acceptance} {floors : Text → Prop} {disk : CellDisk H}
  {envelope : Envelope}

theorem Accepts.mono (h : Accepts H accepted envelope) (hsub : accepted ⊆ accepted') :
    Accepts H accepted' envelope := by
  obtain ⟨acceptance, hmem, hrest⟩ := h
  exact ⟨acceptance, hsub hmem, hrest⟩

/-- What is accepted is about a version of the channel and a bundle with a digest. -/
theorem Accepts.valid (h : Accepts H accepted envelope) :
    (parseVersionForChannel envelope.signed.version H.channel).isSome ∧
      envelope.signed.channel = H.channel ∧ envelope.signed.target = H.host ∧
      envelope.signed.bundle.sha256 ≠ [] := by
  obtain ⟨_, -, -, -, hverify⟩ := h
  obtain ⟨hvalid, htarget, -⟩ := verifyEnvelopeTarget_ok.1 hverify
  simp only [Descriptor.validate, steps_ok] at hvalid
  obtain ⟨-, hversion, hchannel, -, -, -, -, ⟨hlength, -⟩, -⟩ := hvalid
  refine ⟨hversion, hchannel, htarget, fun hnil => ?_⟩
  rw [hnil] at hlength
  cases hlength

theorem Authorized.mono {version : Text} {tree : Tree} (h : Authorized H accepted version tree)
    (hsub : accepted ⊆ accepted') :
    Authorized H accepted' version tree := by
  obtain ⟨envelope, haccepts, hrest⟩ := h
  exact ⟨envelope, haccepts.mono hsub, hrest⟩

theorem CellDisk.Sound.mono (h : disk.Sound floors accepted) (hsub : accepted ⊆ accepted') :
    disk.Sound floors accepted' :=
  ⟨h.loads, h.runtime, h.journal, fun version tree hfind =>
    ⟨(h.versions version tree hfind).authorized.mono hsub, (h.versions version tree hfind).fits⟩⟩

variable {install : Install}

theorem Install.Begun.mono {state : Option RuntimeState}
    (h : install.Begun H accepted state) (hsub : accepted ⊆ accepted') :
    install.Begun H accepted' state :=
  { h with accepted := h.accepted.mono hsub }

variable {phase : UpdatePhase}

theorem UpdatePhase.Sound.mono (h : phase.Sound floors accepted disk)
    (hsub : accepted ⊆ accepted') : phase.Sound floors accepted' disk := by
  cases phase with
  | deciding => exact Accepts.mono h hsub
  | journaling install phase | caching install | downloading install | comparing install
  | keeping install | opening install | extracting install entries ends | validating install
  | promoting install | moving install | saving => exact ⟨h.1.mono hsub, h.2⟩
  | _ => exact h

/-- Outside an update, a phase knows nothing of the files. -/
theorem UpdatePhase.Sound.of_idle {disk' : CellDisk H}
    (hphase : ¬phase.updating) (h : phase.Sound floors accepted disk) :
    phase.Sound floors accepted disk' := by
  cases phase <;> first | exact absurd rfl hphase | exact h

theorem Install.entry_valid {state : Option RuntimeState}
    (h : install.Begun H accepted state) (phase : JournalPhase) :
    (install.entry H.channel phase).valid := by
  obtain ⟨hversion, -, -, hsha⟩ := h.accepted.valid
  have hid := h.transactionID
  rw [isTransactionID, decide_eq_true_eq, List.all_eq_true] at hid
  obtain ⟨hlength, hhex⟩ := hid
  rw [Journal.valid, decide_eq_true_eq]
  refine ⟨fun hnil => ?_, fun hslash => ?_, fun hslash => ?_, hsha, hversion⟩
  · rw [show install.transactionID = [] from hnil] at hlength
    cases hlength
  · exact absurd (hhex _ hslash) (by decide)
  · exact absurd (hhex _ hslash) (by decide)

end OpenCut
