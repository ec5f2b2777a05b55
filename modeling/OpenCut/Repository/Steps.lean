import OpenCut.Repository.System

/-!
# What a request does

Whatever a request asks for, it does one of six things to the project
(`Project.effect_of_serve`): it leaves everything that is said about the project alone,
stores a proposal, captures a version, commits a proposal, registers an asset or accepts
the fingerprint of one. The proposals that are committed come from four sources
(`Project.Source`). Only the last three change the content (`Project.serve_cases`); the
rest of the module says where the rows of the journal come from.
-/

namespace OpenCut

open Outcome Table

namespace Project

variable {p p' : Project}

/-! ## Snapshots -/

variable {id : ID} {createdAt : Nat} {version : ProjectVersion}
  {retention : ProjectVersionRetention} {source : ProjectVersionSource}

/-- A snapshot only adds and prunes versions. -/
theorem insertProjectVersionSnapshot_frame {id' : ID}
    (h : p.insertProjectVersionSnapshot id source retention createdAt = .ok (p', id', version)) :
    p' = { p with versions := p'.versions } := by
  unfold insertProjectVersionSnapshot at h
  split at h
  · obtain ⟨rfl, -⟩ := Prod.mk.inj (Except.ok.inj h)
    rfl
  · simp only [steps_ok] at h
    obtain ⟨_, -, -, h⟩ := h
    split at h
    · obtain ⟨rfl, -⟩ := Prod.mk.inj (pure_ok.1 h)
      rfl
    · obtain ⟨rfl, -⟩ := Prod.mk.inj (pure_ok.1 h)
      rfl

theorem find?_foldl_erase {rows : List (ID × ProjectVersion)} {versions : Table ID ProjectVersion}
    (h : (rows.foldl (fun versions (id, _) => versions.erase id) versions).find? id =
      some version) :
    versions.find? id = some version := by
  induction rows generalizing versions with
  | nil => exact h
  | cons row rows ih => exact (of_find?_erase (ih h)).2

/-- The version captures the project as it is. -/
def Captured (p : Project) (version : ProjectVersion) : Prop :=
  version.capturedProjectRevision = p.revision ∧
    loadProjectVersionState p.revision p.content = .ok version.state

/-- A snapshot stores no version but one of the project as it is. -/
theorem versions_of_snapshot {id' key : ID} {returned : ProjectVersion}
    (h : p.insertProjectVersionSnapshot id source retention createdAt = .ok (p', id', returned))
    (hversion : p'.versions.find? key = some version) :
    p.versions.find? key = some version ∨ p.Captured version := by
  unfold insertProjectVersionSnapshot at h
  split at h
  · obtain ⟨rfl, -⟩ := Prod.mk.inj (Except.ok.inj h)
    exact .inl hversion
  · simp only [steps_ok] at h
    obtain ⟨state, hstate, -, h⟩ := h
    have hstored : (p.versions.set id
        { capturedProjectRevision := p.revision, source, retention, createdAt, state }).find? key =
          some version := by
      split at h
      · obtain ⟨rfl, -⟩ := Prod.mk.inj (pure_ok.1 h)
        exact find?_foldl_erase hversion
      · obtain ⟨rfl, -⟩ := Prod.mk.inj (pure_ok.1 h)
        exact hversion
    rcases of_find?_set hstored with ⟨-, rfl⟩ | hstored
    · exact .inr ⟨rfl, hstate⟩
    · exact .inl hstored

/-! ## Commits -/

variable {proposal : EditProposal} {transactionID : ID} {undoes : Option ID} {command : EditCommand}

/-- The proposal is committed as the transaction `t`, which makes `p'` of the project. A
    restore also captures a version. -/
structure Commits (p : Project) (proposal : EditProposal) (t : EditTransaction) (p' : Project) :
    Prop where
  valid : p.content.validateProposalPreconditions proposal = .ok ()
  transaction : ∃ id undoes, t = p.transactionOf proposal id undoes
  applied : { p with versions := p'.versions }.applyTransaction t = .ok p'.content
  revision : p'.revision = p.revision + 1
  transactions : p'.transactions = p.transactions.set t.id t
  versions : ∀ id version, p'.versions.find? id = some version →
    p.versions.find? id = some version ∨ p.Captured version
  proposals : ∀ id, p'.proposals.find? id = p.proposals.find? id ∨
    ∃ stored, p'.proposals.find? id = some stored ∧ stored.status = .applied

theorem commitProposal_ok : p.commitProposal proposal transactionID undoes = .ok p' ↔
      p.content.validateProposalPreconditions proposal = .ok () ∧
      p.transactions.find? transactionID = none ∧
      ∃ content, p.applyTransaction (p.transactionOf proposal transactionID undoes) = .ok content ∧
        p' = { p with
          revision := p.revision + 1, content
          transactions := p.transactions.set transactionID
            (p.transactionOf proposal transactionID undoes)
          proposals := p.proposals.set proposal.id { proposal with
            status := .applied, appliedTransactionID := some transactionID } } := by
  simp only [commitProposal, prepareEditTransaction, persistAndApplyEditTransaction, steps_ok,
    markEditProposalApplied, transactionOf]
  constructor
  · rintro ⟨_, ⟨hvalid, rfl⟩, _, ⟨hfresh, content, hcontent, -, rfl⟩, rfl⟩
    exact ⟨hvalid, hfresh, content, hcontent, rfl⟩
  · rintro ⟨hvalid, hfresh, content, hcontent, rfl⟩
    exact ⟨_, ⟨hvalid, rfl⟩, _, ⟨hfresh, content, hcontent, rfl, rfl⟩, rfl⟩

variable {key : RequestKey}

theorem commitRequest_ok {inputDigest : Digest}
    (h : p.commitRequest proposal transactionID undoes key command inputDigest = .ok p') :
    ∃ q, p.commitProposal proposal transactionID undoes = .ok q ∧
      p' = { q with requests := p'.requests } := by
  simp only [commitRequest, steps_ok] at h
  obtain ⟨q, hq, rfl⟩ := h
  exact ⟨q, hq, rfl⟩

variable {digest : Digest} {replayed : Bool}

theorem loadEditCommitReplay_ok (h : p.loadEditCommitReplay key command digest = .ok replayed) :
    (p.requests.find? key = none ∧ replayed = false) ∨
    ∃ row, p.requests.find? key = some row ∧ row.command = command ∧ row.inputDigest = digest ∧
      row.transactionID.isSome ∧ replayed = true := by
  unfold loadEditCommitReplay at h
  split at h
  · next hnone => exact .inl ⟨hnone, (Except.ok.inj h).symm⟩
  · next row hrow =>
    simp only [steps_ok] at h
    obtain ⟨⟨hcommand, hdigest, hsome⟩, rfl⟩ := h
    exact .inr ⟨row, hrow, hcommand, hdigest, hsome, rfl⟩

/-- A request that was served before changes nothing. -/
theorem replay_cases {rest : Except EditError Project} (h : (do
      let replayed ← p.loadEditCommitReplay key command digest
      if replayed then pure p else rest) = .ok p') :
    p' = p ∨ p.requests.find? key = none ∧ rest = .ok p' := by
  obtain ⟨_, hreplayed, h⟩ := bind_ok.1 h
  rcases loadEditCommitReplay_ok hreplayed with ⟨hkey, rfl⟩ | ⟨_, -, -, -, -, rfl⟩
  · exact .inr ⟨hkey, h⟩
  · exact .inl (pure_ok.1 h).symm

/-- A commit of a project that differs from `p` only in versions captured now and in the
    row of the proposal. -/
theorem Commits.of_commitProposal {q q' : Project}
    (h : q.commitProposal proposal transactionID undoes = .ok q')
    (hp' : p' = { q' with requests := p'.requests, versionRequests := p'.versionRequests })
    (hq : q = { p with proposals := q.proposals, versions := q.versions })
    (hversions : ∀ id version, q.versions.find? id = some version →
      p.versions.find? id = some version ∨ p.Captured version)
    (hproposals : ∀ id, id ≠ proposal.id → q.proposals.find? id = p.proposals.find? id) :
    ∃ t, p.Commits proposal t p' := by
  obtain ⟨hvalid, -, _, hcontent, rfl⟩ := commitProposal_ok.1 h
  rw [hq] at hvalid hcontent hp'
  refine ⟨p.transactionOf proposal transactionID undoes, hvalid, ⟨_, _, rfl⟩, ?_, ?_, ?_, ?_, ?_⟩
  · rw [hp']
    exact hcontent
  · rw [hp']
  · rw [hp']
    rfl
  · rw [hp']
    exact hversions
  · intro id
    rw [hp', find?_set]
    split
    · exact .inr ⟨_, rfl, rfl⟩
    · next hne => exact .inl (hproposals id hne)

/-- The proposal is stored first. -/
theorem Commits.of_commitRequest {inputDigest : Digest}
    (h : commitRequest { p with proposals := p.proposals.set proposal.id proposal } proposal
      transactionID undoes key command inputDigest = .ok p') : ∃ t, p.Commits proposal t p' := by
  obtain ⟨q, hq, hp'⟩ := commitRequest_ok h
  exact of_commitProposal hq (by rw [hp']) rfl (fun _ _ => .inl) fun _ hne => find?_set_ne _ _ hne

/-! ## The sources of what is committed -/

/-- How a proposal that a request commits comes about. -/
inductive Source [Uniseg] (p : Project) : Request → EditProposal → Prop
  /-- It was stored by an earlier request. -/
  | stored {record : ApplyEditRecord} {proposal : EditProposal}
      (found : p.proposals.find? record.proposalID = some proposal)
      (status : proposal.status = .open) :
      Source p (.applyEdit record) { proposal with id := record.proposalID }
  /-- It is normalized now. -/
  | normalized {record : CommitCreatorEditRecord} {proposal : EditProposal}
      (normalized : p.normalizeRequest record.proposalID none none record.actor record.allocation
        record.input = .ok proposal) :
      Source p (.commitCreatorEdit record) proposal
  /-- It takes a transaction back. -/
  | undo {request : Request} {record : UndoEditRecord} {target : EditTransaction}
      {proposal : EditProposal}
      (undoes : request = .undoEdit record ∨ request = .undoCreatorEdit record)
      (found : p.transactions.find? record.targetTransactionID = some target)
      (current : p.content.validateUndoTargetCurrent target = .ok ())
      (built : p.buildUndoProposal record target = .ok proposal) :
      Source p request proposal
  /-- It goes back to a version. -/
  | restore {record : RestoreProjectVersionRecord} {version : ProjectVersion}
      {proposal : EditProposal}
      (found : p.loadStoredProjectVersionState record.versionID = .ok version)
      (older : version.capturedProjectRevision ≠ p.revision)
      (operations : proposal.operations =
        [.restoreProjectVersion ⟨record.versionID, version.state⟩])
      (inverse : ∃ safety, proposal.inversePreview = [.restoreProjectVersion safety])
      (preconditions : proposal.preconditions = [])
      (changes : proposal.changes = []) :
      Source p (.restoreProjectVersion record) proposal

/-! ## Inversion -/

variable {record : UndoEditRecord}

theorem proposeEdit_cases [Uniseg] {record : ProposeEditRecord}
    (h : p.proposeEdit record = .ok p') :
    p' = p ∨ ∃ proposal row, p.normalizeRequest record.proposalID (some record.runID)
        (some record.turnID) record.actor record.allocation record.input = .ok proposal ∧
      p.proposals.find? proposal.id = none ∧
      p.requests.find? (record.actor, record.input.requestID) = none ∧ row.transactionID = none ∧
      p' = { p with proposals := p.proposals.set proposal.id proposal }.insertEditRequest
        (record.actor, record.input.requestID) row := by
  dsimp only [proposeEdit] at h
  split at h
  · simp only [steps_ok] at h
    obtain ⟨-, rfl⟩ := h
    exact .inl rfl
  · next hkey =>
    simp only [steps_ok, insertEditProposalRow] at h
    obtain ⟨-, proposal, hproposal, _, ⟨hfresh, rfl⟩, rfl⟩ := h
    exact .inr ⟨proposal, _, hproposal, hfresh, hkey, rfl, rfl⟩

theorem commitCreatorEdit_cases [Uniseg] {record : CommitCreatorEditRecord}
    (h : p.commitCreatorEdit record = .ok p') :
    p' = p ∨ ∃ proposal, p.normalizeRequest record.proposalID none none record.actor
        record.allocation record.input = .ok proposal ∧ p.proposals.find? proposal.id = none ∧
      p.requests.find? (record.actor, record.input.requestID) = none ∧
      { p with proposals := p.proposals.set proposal.id proposal }.commitRequest proposal
        record.transactionID none (record.actor, record.input.requestID) .creatorEditCommit
        record.inputDigest = .ok p' := by
  refine (replay_cases h).imp_right fun ⟨hkey, h⟩ => ?_
  simp only [insertEditProposalRow, steps_ok] at h
  obtain ⟨-, proposal, hproposal, _, ⟨hfresh, rfl⟩, h⟩ := h
  exact ⟨proposal, hproposal, hfresh, hkey, h⟩

theorem applyEdit_cases {record : ApplyEditRecord} (h : p.applyEdit record = .ok p') :
    p' = p ∨ p.requests.find? (record.actor, record.requestID) = none ∧
      ∃ proposal, p.proposals.find? record.proposalID = some proposal ∧
        ((∃ row, proposal.status = .applied ∧ row.transactionID = proposal.appliedTransactionID ∧
            p' = p.insertEditRequest (record.actor, record.requestID) row) ∨
          proposal.status = .open ∧
            p.commitRequest { proposal with id := record.proposalID } record.transactionID none
              (record.actor, record.requestID) .editApply record.inputDigest = .ok p') := by
  refine (replay_cases h).imp_right fun ⟨hkey, h⟩ => ?_
  simp only [steps_ok, loadEditProposal] at h
  obtain ⟨-, _, ⟨proposal, hproposal, rfl⟩, -, h⟩ := h
  refine ⟨hkey, proposal, hproposal, ?_⟩
  split at h
  · next hstatus htransaction =>
    exact .inl ⟨_, hstatus, htransaction.symm, (pure_ok.1 h).symm⟩
  · cases h
  · next hstatus => exact .inr ⟨hstatus, h⟩
  · cases h

theorem commitUndo_cases (h : p.commitUndo record command = .ok p') :
    ∃ target proposal, p.transactions.find? record.targetTransactionID = some target ∧
      p.content.validateUndoTargetCurrent target = .ok () ∧
      p.buildUndoProposal record target = .ok proposal ∧ p.proposals.find? proposal.id = none ∧
      { p with proposals := p.proposals.set proposal.id proposal }.commitRequest proposal
        record.transactionID (some record.targetTransactionID) (record.actor, record.requestID)
        command record.inputDigest = .ok p' := by
  simp only [commitUndo, steps_ok, insertEditProposalRow] at h
  obtain ⟨target, htarget, hcurrent, proposal, hproposal, _, ⟨hfresh, rfl⟩, h⟩ := h
  exact ⟨target, proposal, htarget, hcurrent, hproposal, hfresh, h⟩

theorem undoEdit_cases (h : p.undoEdit record = .ok p') :
    p' = p ∨ p.requests.find? (record.actor, record.requestID) = none ∧
      p.commitUndo record .editUndo = .ok p' := by
  refine (replay_cases h).imp_right fun ⟨hkey, h⟩ => ?_
  simp only [bind_ok] at h
  obtain ⟨_, -, _, -, _, -, h⟩ := h
  exact ⟨hkey, h⟩

theorem undoCreatorEdit_cases (h : p.undoCreatorEdit record = .ok p') :
    p' = p ∨ p.requests.find? (record.actor, record.requestID) = none ∧
      p.commitUndo record .creatorEditUndo = .ok p' := by
  refine (replay_cases h).imp_right fun ⟨hkey, h⟩ => ?_
  obtain ⟨_, -, h⟩ := bind_ok.1 h
  exact ⟨hkey, h⟩

theorem createProjectVersion_cases {record : CreateProjectVersionRecord}
    (h : p.createProjectVersion record = .ok p') :
    p' = p ∨ ∃ q id version, p.insertProjectVersionSnapshot record.id .manual .retain
        record.createdAt = .ok (q, id, version) ∧
      p' = { q with versionRequests := p'.versionRequests } := by
  obtain ⟨_, -, h⟩ := bind_ok.1 h
  split at h
  · exact .inl (pure_ok.1 h).symm
  · simp only [steps_ok, Prod.exists] at h
    obtain ⟨-, q, id, version, hq, rfl⟩ := h
    exact .inr ⟨q, id, version, hq, rfl⟩

theorem snapshotAgentTurn_cases {versionID : ID}
    (h : p.snapshotAgentTurn versionID createdAt = .ok p') :
    ∃ id version, p.insertProjectVersionSnapshot versionID .agentTurn .automatic createdAt =
      .ok (p', id, version) := by
  simp only [snapshotAgentTurn, steps_ok, Prod.exists] at h
  obtain ⟨q, id, version, hq, rfl⟩ := h
  exact ⟨id, version, hq⟩

theorem loadVersionReplay_ok {versionID : Option ID}
    (h : p.loadVersionReplay key digest versionID = .ok replayed) :
    replayed = (p.versionRequests.find? key).isSome := by
  unfold loadVersionReplay at h
  split at h
  · next hnone => rw [hnone, ← Except.ok.inj h]; rfl
  · next row hrow =>
    simp only [steps_ok] at h
    obtain ⟨-, rfl⟩ := h
    rw [hrow]
    rfl

theorem restoreProjectVersion_cases {record : RestoreProjectVersionRecord}
    (h : p.restoreProjectVersion record = .ok p') :
    ((p.versionRequests.find? (record.creator, record.requestID)).isSome ∧ p' = p) ∨
    ∃ target current q safetyID safety proposal q',
      p.loadStoredProjectVersionState record.versionID = .ok target ∧
      loadProjectVersionState p.revision p.content = .ok current ∧
      target.capturedProjectRevision ≠ p.revision ∧
      validateVersionStateRoots current target.state = .ok () ∧
      ensureVersionTargetSubset current target.state = .ok () ∧
      p.insertProjectVersionSnapshot record.safetyVersionID .preRestore .pinned record.occurredAt =
        .ok (q, safetyID, safety) ∧
      proposal = q.buildProjectVersionRestoreProposal record ⟨record.versionID, target.state⟩
        ⟨safetyID, safety.state⟩ ∧
      q.proposals.find? record.proposalID = none ∧
      commitProposal { q with proposals := q.proposals.set record.proposalID proposal } proposal
        record.transactionID none = .ok q' ∧
      p' = { q' with versionRequests := p'.versionRequests } := by
  simp only [restoreProjectVersion, bind_ok] at h
  obtain ⟨_, -, _, hreplayed, h⟩ := h
  split at h
  · next htrue => exact .inl ⟨by rw [← loadVersionReplay_ok hreplayed, htrue], (pure_ok.1 h).symm⟩
  · simp only [restoreVersion, steps_ok, insertEditProposalRow, Prod.exists] at h
    obtain ⟨target, htarget, current, hcurrent, ⟨-, holder⟩, hroots, hsubset, q, safetyID, safety,
      hq, _, ⟨hfresh, rfl⟩, q', hq', rfl⟩ := h
    exact .inr ⟨target, current, q, safetyID, safety, _, q', htarget, hcurrent, holder, hroots,
      hsubset, hq, rfl, hfresh, hq', rfl⟩

/-! ## Assets -/

/-- The record registers an asset, which makes `p'` of the project. -/
structure Registers (p : Project) (record : RegisterAssetRecord) (p' : Project) : Prop where
  expected : p.revision = record.expectedProjectRevision
  fresh : p.content.entities.find? ⟨.asset, record.assetID⟩ = none
  freshProposal : p.proposals.find? record.proposalID = none
  freshTransaction : p.transactions.find? record.transactionID = none
  result : p' = { p with
    revision := p.revision + 1
    content := { p.content with entities := p.content.entities.put (.asset record.asset) }
    proposals := p.proposals.set record.proposalID record.proposal
    transactions := p.transactions.set record.transactionID record.transaction
    registrations := p'.registrations }

theorem registerAsset_cases {record : RegisterAssetRecord} (h : p.registerAsset record = .ok p') :
    p' = p ∨ p.Registers record p' := by
  dsimp only [registerAsset] at h
  split at h
  · simp only [steps_ok] at h
    obtain ⟨-, rfl⟩ := h
    exact .inl rfl
  · simp only [steps_ok] at h
    obtain ⟨-, hrevision, -, ⟨hproposal, htransaction, hfresh⟩, rfl⟩ := h
    exact .inr ⟨hrevision, hfresh, hproposal, htransaction, by rw [hrevision]⟩

/-- The fingerprint of the asset is accepted, which makes `p'` of the project. -/
structure Identifies (p : Project) (input : CompleteMediaIdentification) (asset : AssetState)
    (p' : Project) : Prop where
  found : p.content.entities.asset? input.assetID = some asset
  accepted : ∀ fingerprint ∈ asset.acceptedFingerprint, fingerprint = input.fingerprint
  result : p' = { p with
    content := { p.content with
      entities := p.content.entities.put
        (.asset { asset with acceptedFingerprint := some input.fingerprint }) } }

theorem completeMediaIdentification_cases {input : CompleteMediaIdentification}
    (h : p.completeMediaIdentification input = .ok p') : ∃ asset, p.Identifies input asset p' := by
  simp only [completeMediaIdentification, steps_ok] at h
  obtain ⟨asset, hfound, ⟨-, haccepted⟩, rfl⟩ := h
  exact ⟨asset, hfound, haccepted, rfl⟩

/-! ## All requests -/

variable [Uniseg] {request : Request}

/-- What a request that is served does to the project. -/
inductive Effect (p : Project) : Request → Project → Prop
  /-- Nothing that is said about the project changes. -/
  | quiet {request : Request} {p' : Project}
      (result : p' = { p with media := p'.media, runs := p'.runs, requests := p'.requests }) :
      Effect p request p'
  /-- A proposal is normalized and stored. -/
  | proposed {record : ProposeEditRecord} {proposal : EditProposal} {p' : Project}
      (normalized : p.normalizeRequest record.proposalID (some record.runID) (some record.turnID)
        record.actor record.allocation record.input = .ok proposal)
      (result : p' = { p with
        proposals := p.proposals.set proposal.id proposal, requests := p'.requests }) :
      Effect p (.proposeEdit record) p'
  /-- A version is captured, unless an earlier one is taken. -/
  | captured {request : Request} {id id' : ID} {source : ProjectVersionSource}
      {retention : ProjectVersionRetention} {createdAt : Nat} {version : ProjectVersion}
      {q p' : Project}
      (snapshot : p.insertProjectVersionSnapshot id source retention createdAt =
        .ok (q, id', version))
      (result : p' = { q with versionRequests := p'.versionRequests }) : Effect p request p'
  /-- A proposal is committed. -/
  | committed {request : Request} {proposal : EditProposal} {t : EditTransaction} {p' : Project}
      (source : p.Source request proposal) (commits : p.Commits proposal t p') :
      Effect p request p'
  /-- An asset is registered. -/
  | registered {record : RegisterAssetRecord} {p' : Project} (registers : p.Registers record p') :
      Effect p (.registerAsset record) p'
  /-- The fingerprint of an asset is accepted. -/
  | identified {input : CompleteMediaIdentification} {asset : AssetState} {p' : Project}
      (identifies : p.Identifies input asset p') :
      Effect p (.completeMediaIdentification input) p'

theorem effect_of_commitUndo
    (hrequest : request = .undoEdit record ∨ request = .undoCreatorEdit record)
    (h : p.commitUndo record command = .ok p') : p.Effect request p' := by
  obtain ⟨_, proposal, hfound, hcurrent, hbuilt, -, h⟩ := commitUndo_cases h
  obtain ⟨t, ht⟩ := Commits.of_commitRequest h
  exact .committed (.undo hrequest hfound hcurrent hbuilt) ht

section

variable (h : p.serve request = .ok p')
include h

theorem effect_of_serve : p.Effect request p' := by
  cases request with
  | proposeEdit =>
    rcases proposeEdit_cases h with rfl | ⟨proposal, row, hnormalized, -, -, -, hp'⟩
    · exact .quiet rfl
    · exact .proposed hnormalized (by rw [hp']; rfl)
  | applyEdit record =>
    rcases applyEdit_cases h with rfl | ⟨-, proposal, hfound, ⟨row, -, -, rfl⟩ | ⟨hstatus, h⟩⟩
    · exact .quiet rfl
    · exact .quiet rfl
    · obtain ⟨q, hq, hp'⟩ := commitRequest_ok h
      obtain ⟨t, ht⟩ : ∃ t, p.Commits { proposal with id := record.proposalID } t p' :=
        Commits.of_commitProposal hq (by rw [hp']) rfl (fun _ _ => .inl) (fun _ _ => rfl)
      exact .committed (.stored hfound hstatus) ht
  | commitCreatorEdit =>
    rcases commitCreatorEdit_cases h with rfl | ⟨proposal, hnormalized, -, -, h⟩
    · exact .quiet rfl
    · obtain ⟨t, ht⟩ := Commits.of_commitRequest h
      exact .committed (.normalized hnormalized) ht
  | undoEdit =>
    rcases undoEdit_cases h with rfl | ⟨-, h⟩
    · exact .quiet rfl
    · exact effect_of_commitUndo (.inl rfl) h
  | undoCreatorEdit =>
    rcases undoCreatorEdit_cases h with rfl | ⟨-, h⟩
    · exact .quiet rfl
    · exact effect_of_commitUndo (.inr rfl) h
  | createProjectVersion =>
    rcases createProjectVersion_cases h with rfl | ⟨q, id, version, hq, hp'⟩
    · exact .quiet rfl
    · exact .captured hq hp'
  | snapshotAgentTurn =>
    obtain ⟨id, version, hq⟩ := snapshotAgentTurn_cases h
    exact .captured hq rfl
  | restoreProjectVersion =>
    rcases restoreProjectVersion_cases h with ⟨-, rfl⟩ | ⟨_, _, q, _, _, proposal,
      q', htarget, _, holder, _, _, hq, hproposal, -, hq', hp'⟩
    · exact .quiet rfl
    · have hframe := insertProjectVersionSnapshot_frame hq
      have hversions : ∀ id version, q.versions.find? id = some version →
          p.versions.find? id = some version ∨ p.Captured version :=
        fun _ _ => versions_of_snapshot hq
      obtain ⟨t, ht⟩ : ∃ t, p.Commits proposal t p' :=
        Commits.of_commitProposal hq' (by rw [hp']) (by rw [hframe]) hversions
          fun id hid => (find?_set_ne _ _ (by rwa [hproposal] at hid)).trans (by rw [hframe])
      subst hproposal
      exact .committed (.restore htarget holder rfl ⟨_, rfl⟩ rfl rfl) ht
  | registerAsset =>
    rcases registerAsset_cases h with rfl | hregisters
    · exact .quiet rfl
    · exact .registered hregisters
  | completeMediaIdentification input =>
    obtain ⟨_, hidentifies⟩ := completeMediaIdentification_cases h
    exact .identified hidentifies
  | publishMedia media =>
    obtain ⟨⟩ := h
    exact .quiet rfl
  | setRuns runs =>
    obtain ⟨⟩ := h
    exact .quiet rfl

/-- The request leaves content and transactions alone. -/
structure Quiet (p p' : Project) : Prop where
  revision : p'.revision = p.revision
  content : p'.content = p.content
  transactions : p'.transactions = p.transactions

/-- What a request that is served does to the content of the project. -/
theorem serve_cases : p.Quiet p' ∨
    (∃ proposal t, p.Source request proposal ∧ p.Commits proposal t p') ∨
    (∃ record, request = .registerAsset record ∧ p.Registers record p') ∨
    (∃ input asset, request = .completeMediaIdentification input ∧
      p.Identifies input asset p') := by
  cases effect_of_serve h with
  | quiet result =>
    rw [result]
    exact .inl ⟨rfl, rfl, rfl⟩
  | proposed _ result =>
    rw [result]
    exact .inl ⟨rfl, rfl, rfl⟩
  | captured snapshot result =>
    rw [result, insertProjectVersionSnapshot_frame snapshot]
    exact .inl ⟨rfl, rfl, rfl⟩
  | committed source commits => exact .inr (.inl ⟨_, _, source, commits⟩)
  | registered registers => exact .inr (.inr (.inl ⟨_, rfl, registers⟩))
  | identified identifies => exact .inr (.inr (.inr ⟨_, _, rfl, identifies⟩))

/-! ## The rows of the journal -/

/-- A stored transaction is an old one, or the commit or registration that was served. -/
theorem transactions_of_serve {t : EditTransaction} (ht : p'.transactions.find? id = some t) :
    p.transactions.find? id = some t ∨
    (∃ proposal, p.Source request proposal ∧ p.Commits proposal t p') ∨
    ∃ record, request = .registerAsset record ∧ p.Registers record p' ∧ t = record.transaction := by
  rcases serve_cases h with hquiet | ⟨proposal, t', hsource, hcommits⟩ |
    ⟨record, hrequest, hregisters⟩ | ⟨input, asset, -, hidentifies⟩
  · rw [hquiet.transactions] at ht
    exact .inl ht
  · rw [hcommits.transactions] at ht
    rcases of_find?_set ht with ⟨-, rfl⟩ | ht
    · exact .inr (.inl ⟨proposal, hsource, hcommits⟩)
    · exact .inl ht
  · rw [hregisters.result] at ht
    rcases of_find?_set ht with ⟨-, rfl⟩ | ht
    · exact .inr (.inr ⟨record, hrequest, hregisters, rfl⟩)
    · exact .inl ht
  · rw [hidentifies.result] at ht
    exact .inl ht

/-- A stored version is an old one, or captures the project as the request met it. -/
theorem versions_of_serve (hversion : p'.versions.find? id = some version) :
    p.versions.find? id = some version ∨ p.Captured version := by
  cases effect_of_serve h with
  | quiet result =>
    rw [result] at hversion
    exact .inl hversion
  | proposed _ result =>
    rw [result] at hversion
    exact .inl hversion
  | captured snapshot result =>
    rw [result] at hversion
    exact versions_of_snapshot snapshot hversion
  | committed _ commits => exact commits.versions id version hversion
  | registered registers =>
    rw [registers.result] at hversion
    exact .inl hversion
  | identified identifies =>
    rw [identifies.result] at hversion
    exact .inl hversion

/-- A proposal that is open is an old one, or was normalized now. -/
theorem proposals_of_serve (hproposal : p'.proposals.find? id = some proposal)
    (hopen : proposal.status = .open) :
    p.proposals.find? id = some proposal ∨
    (∃ record, request = .proposeEdit record ∧
      p.normalizeRequest record.proposalID (some record.runID) (some record.turnID) record.actor
        record.allocation record.input = .ok proposal) ∧
      p'.content = p.content ∧ p'.revision = p.revision := by
  cases effect_of_serve h with
  | quiet result =>
    rw [result] at hproposal
    exact .inl hproposal
  | @proposed record _ _ normalized result =>
    rw [result] at hproposal
    rcases of_find?_set hproposal with ⟨-, rfl⟩ | hproposal
    · refine .inr ⟨⟨record, rfl, normalized⟩, ?_, ?_⟩
      · rw [result]
      · rw [result]
    · exact .inl hproposal
  | captured snapshot result =>
    rw [result, insertProjectVersionSnapshot_frame snapshot] at hproposal
    exact .inl hproposal
  | committed _ commits =>
    rcases commits.proposals id with hsame | ⟨_, hstored, happlied⟩
    · exact .inl (hsame ▸ hproposal)
    · obtain rfl := Option.mem_unique hstored hproposal
      exact absurd (happlied.symm.trans hopen) (by decide)
  | registered registers =>
    rw [registers.result] at hproposal
    rcases of_find?_set hproposal with ⟨-, rfl⟩ | hproposal
    · exact absurd hopen (by simp [RegisterAssetRecord.proposal])
    · exact .inl hproposal
  | identified identifies =>
    rw [identifies.result] at hproposal
    exact .inl hproposal

end

end Project

end OpenCut
