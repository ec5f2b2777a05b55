import OpenCut.Lib.Database
import OpenCut.Repository.Steps

/-!
# Applying a proposal

`ApplyEdit` as the database transaction it is, with what it returns. Requests are
remembered by actor and name, proposals by what became of them, and neither record is ever
overwritten (`Project.Grows`). So whatever is served in between, a proposal and a request
are each applied once: a retry returns the transaction of the first attempt, a second
request for the proposal converges on it, and another request under the same name is
refused (`applyEdit_at_most_once`).

A proposal whose revisions no longer hold is marked stale, but by a statement of the
transaction that is then rolled back: the mark is never stored
(`conflicting_proposal_never_stale`).
-/

namespace OpenCut

open Outcome Database Body Option Table Project

/-- The record names the proposal as its writer and its turn do. -/
abbrev ApplyEditRecord.Names (record : ApplyEditRecord) (proposal : EditProposal) : Prop :=
  proposal.actor = record.actor ∧ proposal.runID = some record.runID ∧
    proposal.turnID = some record.turnID ∧ proposal.digest = record.proposalDigest

/-- The row of a request that was served by the transaction. -/
def ApplyEditRecord.row (record : ApplyEditRecord) (transactionID : ID) : EditRequestRow where
  command := .editApply
  inputDigest := record.inputDigest
  proposalID := record.proposalID
  transactionID := some transactionID

namespace Project

/-! ## The database transaction -/

section

variable (p : Project)

/-- `loadEditTransaction`. -/
def loadEditTransaction (id : ID) : Except EditError EditTransaction :=
  need (p.transactions.find? id) .transactionNotFound

/-- The transaction that `loadEditCommitReplay` returns for a request that was served. -/
def loadReplayedTransaction (key : RequestKey) : Except EditError EditTransaction := do
  let id ← need ((p.requests.find? key).bind (·.transactionID)) .requestReused
  p.loadEditTransaction id

/-- The mark of a proposal whose revisions no longer hold. -/
def markEditProposalStale (proposal : EditProposal) : Project :=
  { p with proposals := p.proposals.set proposal.id { proposal with status := .stale } }

/-- The statements of `ApplyEdit`. -/
def applyEditBody (record : ApplyEditRecord) : Body Project EditError EditTransaction := do
  let p ← get
  let key : RequestKey := (record.actor, record.requestID)
  let replayed ← p.loadEditCommitReplay key .editApply record.inputDigest
  if replayed then
    p.loadReplayedTransaction key
  else
    p.validateEditWriter record.runID record.turnID record.actor
    let proposal ← p.loadEditProposal record.proposalID
    ensure (proposal.actor = record.actor ∧ proposal.runID = some record.runID ∧
      proposal.turnID = some record.turnID ∧ proposal.digest = record.proposalDigest)
      errEditConflict
    match proposal.status, proposal.appliedTransactionID with
    | .applied, some transactionID =>
      -- `convergeAppliedProposal`
      let transaction ← p.loadEditTransaction transactionID
      set (p.insertEditRequest key {
        command := .editApply, inputDigest := record.inputDigest, proposalID := proposal.id
        transactionID := some transactionID })
      return transaction
    | .stale, _ => throw .proposalStale
    | .open, _ =>
      match p.prepareEditTransaction proposal record.transactionID none with
      | .error e =>
        if e = errEditConflict then set (p.markEditProposalStale proposal)
        throw e
      | .ok transaction =>
        let q ← p.persistAndApplyEditTransaction transaction
        set ((q.markEditProposalApplied proposal record.transactionID).insertEditRequest key {
          command := .editApply, inputDigest := record.inputDigest, proposalID := proposal.id
          transactionID := some record.transactionID })
        return transaction
    | _, _ => throw .proposalTerminal

/-- `ApplyEdit`: what it returns, and the project after it. -/
def applyEditOutcome (record : ApplyEditRecord) : Except EditError EditTransaction × Project :=
  transact (applyEditBody record) p

end

variable {p p' : Project} {key : RequestKey} {command : EditCommand} {digest : Digest}

theorem loadEditCommitReplay_fresh (hkey : p.requests.find? key = none) :
    p.loadEditCommitReplay key command digest = .ok false := by
  rw [loadEditCommitReplay, hkey]

variable {proposal : EditProposal}

theorem loadEditProposal_of_find? {id : ID} (hfound : p.proposals.find? id = some proposal) :
    p.loadEditProposal id = .ok { proposal with id } := by
  rw [loadEditProposal, hfound]
  rfl

variable {row : EditRequestRow}

theorem loadEditCommitReplay_same (hrow : p.requests.find? key = some row)
    (hsame : row.command = command ∧ row.inputDigest = digest ∧ row.transactionID.isSome) :
    p.loadEditCommitReplay key command digest = .ok true := by
  rw [loadEditCommitReplay, hrow]
  exact bind_ok.2 ⟨(), ensure_of _ hsame, rfl⟩

theorem loadEditCommitReplay_reused (hrow : p.requests.find? key = some row)
    (hdiff : row.command ≠ command ∨ row.inputDigest ≠ digest) :
    p.loadEditCommitReplay key command digest = .error .requestReused := by
  rw [loadEditCommitReplay, hrow]
  have hnot : ¬(row.command = command ∧ row.inputDigest = digest ∧ row.transactionID.isSome) :=
    fun h => hdiff.elim (· h.1) (· h.2.1)
  simp only [ensure, if_neg hnot]
  rfl

/-! ## What is on record stays on record -/

/-- The journal of `p'` continues that of `p`: transactions, applied proposals and the
    requests that were served are kept, and what is committed later has a later revision. -/
structure Grows (p p' : Project) : Prop where
  revision : p.revision ≤ p'.revision
  transactions : ∀ {id t}, p.transactions.find? id = some t → p'.transactions.find? id = some t
  later : ∀ {id t}, p'.transactions.find? id = some t →
    p.transactions.find? id = some t ∨ p.revision < t.committedProjectRevision
  applied : ∀ {id proposal}, p.proposals.find? id = some proposal → proposal.status = .applied →
    p'.proposals.find? id = some proposal
  requests : ∀ {key row}, p.requests.find? key = some row → p'.requests.find? key = some row

namespace Grows

@[refl]
theorem refl (p : Project) : p.Grows p := ⟨le_rfl, id, .inl, fun h _ => h, id⟩

theorem trans {p'' : Project} (h : p.Grows p') (h' : p'.Grows p'') : p.Grows p'' where
  revision := h.revision.trans h'.revision
  transactions ht := h'.transactions (h.transactions ht)
  later ht := by
    rcases h'.later ht with ht | hlater
    · exact h.later ht
    · exact .inr (h.revision.trans_lt hlater)
  applied hproposal happlied := h'.applied (h.applied hproposal happlied) happlied
  requests hrow := h'.requests (h.requests hrow)

/-- Only the proposals change, where none is applied. -/
theorem setProposal {id : ID}
    (hid : ∀ stored, p.proposals.find? id = some stored → stored.status ≠ .applied) :
    p.Grows { p with proposals := p.proposals.set id proposal } where
  revision := le_rfl
  transactions h := h
  later := .inl
  applied hstored happlied :=
    (find?_set_ne _ _ (by rintro rfl; exact hid _ hstored happlied)).trans hstored
  requests h := h

theorem insertEditRequest {key : RequestKey} (hkey : p.requests.find? key = none)
    (row : EditRequestRow) : p.Grows (p.insertEditRequest key row) where
  revision := le_rfl
  transactions h := h
  later := .inl
  applied h _ := h
  requests hrow :=
    (find?_set_ne _ _ (by rintro rfl; exact absurd (hkey.symm.trans hrow) (by simp))).trans hrow

/-- The rows of a transaction and of the proposal that it applies. -/
theorem setTransaction {id : ID} {t : EditTransaction}
    (hnew : ∀ stored, p.proposals.find? t.proposalID = some stored → stored.status ≠ .applied)
    (hfresh : p.transactions.find? id = none)
    (hrevision : t.committedProjectRevision = p.revision + 1)
    (hp' : p'.revision = p.revision + 1 ∧ p'.transactions = p.transactions.set id t ∧
      p'.proposals = p.proposals.set t.proposalID proposal ∧ p'.requests = p.requests) :
    p.Grows p' := by
  obtain ⟨hp'revision, htransactions, hproposals, hrequests⟩ := hp'
  refine ⟨by rw [hp'revision]; exact Nat.le_succ _, fun {id' t'} ht' => ?_, fun {id' t'} ht' => ?_,
    fun {id' stored} hstored happlied => ?_, fun hrow => hrequests ▸ hrow⟩
  · rw [htransactions]
    refine (find?_set_ne _ _ fun hkey => ?_).trans ht'
    rw [hkey, hfresh] at ht'
    cases ht'
  · rw [htransactions] at ht'
    rcases of_find?_set ht' with ⟨-, rfl⟩ | ht'
    · exact .inr (by rw [hrevision]; exact Nat.lt_succ_self _)
    · exact .inl ht'
  · rw [hproposals]
    refine (find?_set_ne _ _ fun hkey => ?_).trans hstored
    exact hnew stored (hkey ▸ hstored) happlied

end Grows

/-! ## What is applied -/

variable {record : ApplyEditRecord} {t : EditTransaction} {proposal : EditProposal}

/-- Nothing stands against the request, which has a new name, for the stored proposal. -/
structure Asks (p : Project) (record : ApplyEditRecord) (proposal : EditProposal) : Prop where
  fresh : p.requests.find? (record.actor, record.requestID) = none
  writer : p.validateEditWriter record.runID record.turnID record.actor = .ok ()
  names : record.Names { proposal with id := record.proposalID }
  found : p.proposals.find? record.proposalID = some proposal

/-- What `ApplyEdit` does when it succeeds. -/
inductive Applies (p : Project) (record : ApplyEditRecord) (t : EditTransaction) : Project → Prop
  /-- The request was served before. -/
  | replayed {row : EditRequestRow} {transactionID : ID}
      (found : p.requests.find? (record.actor, record.requestID) = some row)
      (same : row.command = .editApply ∧ row.inputDigest = record.inputDigest ∧
        row.transactionID = some transactionID)
      (stored : p.transactions.find? transactionID = some t) : Applies p record t p
  /-- The proposal was applied before. -/
  | converged {proposal : EditProposal} {transactionID : ID} (asks : p.Asks record proposal)
      (status : proposal.status = .applied)
      (transaction : proposal.appliedTransactionID = some transactionID)
      (stored : p.transactions.find? transactionID = some t) :
      Applies p record t (p.insertEditRequest (record.actor, record.requestID)
        (record.row transactionID))
  /-- The proposal is applied now. -/
  | committed {proposal : EditProposal} {q : Project} (asks : p.Asks record proposal)
      (status : proposal.status = .open)
      (commits : p.commitProposal { proposal with id := record.proposalID } record.transactionID
        none = .ok q)
      (transaction : t = p.transactionOf { proposal with id := record.proposalID }
        record.transactionID none) :
      Applies p record t (q.insertEditRequest (record.actor, record.requestID)
        (record.row record.transactionID))

theorem applies_of_outcome (h : p.applyEditOutcome record = (.ok t, p')) :
    p.Applies record t p' := by
  rw [applyEditOutcome, transact_eq_ok, applyEditBody, perform_bind, perform_get] at h
  simp only [perform_lift_bind_ok] at h
  obtain ⟨_, hreplayed, h⟩ := h
  rcases loadEditCommitReplay_ok hreplayed with ⟨hfresh, rfl⟩ |
    ⟨row, hrow, hcommand, hdigest, hsome, rfl⟩
  · simp only [Bool.false_eq_true, if_false, perform_lift_bind_ok, loadEditProposal, bind_ok,
      need_ok, pure_ok] at h
    obtain ⟨_, hwriter, _, ⟨_, hproposal, rfl⟩, _, hnames, h⟩ := h
    have hasks : p.Asks record _ := ⟨hfresh, hwriter, ensure_ok.1 hnames, hproposal⟩
    split at h
    · next transactionID hstatus htransaction =>
      rw [perform_lift_bind_ok] at h
      obtain ⟨t', ht, h⟩ := h
      cases h
      exact .converged hasks hstatus htransaction (need_ok.1 ht)
    · cases h
    · next hstatus =>
      split at h
      · split at h <;> cases h
      · next t' ht =>
        rw [perform_lift_bind_ok] at h
        obtain ⟨q, hq, h⟩ := h
        cases h
        refine .committed hasks hstatus (q := q.markEditProposalApplied _ _) ?_ ?_
        · rw [commitProposal, ht, ok_bind, hq]
          rfl
        · simp only [prepareEditTransaction, steps_ok] at ht
          obtain ⟨-, rfl⟩ := ht
          rfl
    · cases h
  · obtain ⟨_, htransaction⟩ := isSome_iff_exists.1 hsome
    simp only [if_true, perform_lift, loadReplayedTransaction, hrow, bind_some,
      htransaction, need, ok_bind, loadEditTransaction] at h
    obtain ⟨ht, rfl⟩ := Prod.mk.inj h
    exact .replayed hrow ⟨hcommand, hdigest, htransaction⟩ (need_ok.1 ht)

/-- `Applies` is exactly what `ApplyEdit` does when it succeeds. -/
theorem outcome_of_applies (h : p.Applies record t p') :
    p.applyEditOutcome record = (.ok t, p') := by
  rw [applyEditOutcome, transact_eq_ok, applyEditBody, perform_bind, perform_get]
  cases h with
  | @replayed row transactionID found same stored =>
    obtain ⟨hcommand, hdigest, htransaction⟩ := same
    have hreplay := loadEditCommitReplay_same found ⟨hcommand, hdigest, by rw [htransaction]; rfl⟩
    simp only [perform_lift_bind hreplay, if_true, perform_lift, loadReplayedTransaction,
      found, bind_some, htransaction, need, ok_bind, loadEditTransaction, stored]
  | converged asks status transaction stored =>
    have hload : p.loadEditTransaction _ = .ok t := need_ok.2 stored
    simp only [perform_lift_bind (loadEditCommitReplay_fresh asks.fresh), Bool.false_eq_true,
      if_false, perform_lift_bind asks.writer,
      perform_lift_bind (loadEditProposal_of_find? asks.found)]
    rw [perform_lift_bind (ensure_of _ asks.names)]
    simp only [status, transaction, perform_lift_bind hload]
    rfl
  | committed asks status commits transaction =>
    simp only [commitProposal, steps_ok] at commits
    obtain ⟨t', hprepare, q, hq, rfl⟩ := commits
    obtain rfl : t' = t := by
      simp only [prepareEditTransaction, steps_ok] at hprepare
      obtain ⟨-, rfl⟩ := hprepare
      exact transaction.symm
    simp only [perform_lift_bind (loadEditCommitReplay_fresh asks.fresh), Bool.false_eq_true,
      if_false, perform_lift_bind asks.writer,
      perform_lift_bind (loadEditProposal_of_find? asks.found)]
    rw [perform_lift_bind (ensure_of _ asks.names)]
    simp only [hprepare]
    simp only [status, perform_lift_bind hq, perform_bind, perform_set, perform_pure]
    rfl

/-! ## The journal of a run -/

/-- The rows of the journal refer to each other: a transaction to the proposal that it
    applied, an applied proposal and a served request to a transaction. -/
structure Journaled (p : Project) : Prop where
  transactions : ∀ {id t}, p.transactions.find? id = some t → t.id = id ∧
    t.committedProjectRevision ≤ p.revision ∧
    ∃ proposal, p.proposals.find? t.proposalID = some proposal ∧ proposal.status = .applied ∧
      proposal.appliedTransactionID = some id
  proposals : ∀ {id proposal}, p.proposals.find? id = some proposal →
    proposal.status = .applied → ∃ transactionID t,
      proposal.appliedTransactionID = some transactionID ∧
      p.transactions.find? transactionID = some t
  requests : ∀ {key row transactionID}, p.requests.find? key = some row →
    row.transactionID = some transactionID → ∃ t, p.transactions.find? transactionID = some t

namespace Journaled

theorem genesis (ids : GenesisIDs) (createdAt : Nat) : (genesis ids createdAt).Journaled := by
  constructor <;> intros <;> simp_all [OpenCut.genesis]

variable {proposal : EditProposal}

/-- A proposal that is not applied is stored. -/
theorem setProposal (hp : p.Journaled) (hfresh : p.proposals.find? proposal.id = none)
    (hstatus : proposal.status ≠ .applied) :
    Journaled { p with proposals := p.proposals.set proposal.id proposal } where
  transactions {id t} ht := by
    obtain ⟨hid, hrevision, stored, hstored, hrow⟩ := hp.transactions ht
    refine ⟨hid, hrevision, stored, ?_, hrow⟩
    refine (find?_set_ne _ _ fun hkey => ?_).trans hstored
    rw [hkey, hfresh] at hstored
    cases hstored
  proposals {id stored} hstored happlied := by
    rcases of_find?_set hstored with ⟨-, rfl⟩ | hstored
    · exact absurd happlied ‹_›
    · exact hp.proposals hstored happlied
  requests := hp.requests

theorem insertEditRequest {key : RequestKey} (hp : p.Journaled)
    (hrow : ∀ transactionID ∈ row.transactionID, ∃ t, p.transactions.find? transactionID = some t) :
    (p.insertEditRequest key row).Journaled where
  transactions := hp.transactions
  proposals := hp.proposals
  requests {key' row' transactionID} hfound htransaction := by
    rcases of_find?_set hfound with ⟨-, rfl⟩ | hfound
    · exact hrow transactionID htransaction
    · exact hp.requests hfound htransaction

/-- The journal continues that of `p`, and its rows refer to each other. -/
abbrev Continues (p p' : Project) : Prop := p'.Journaled ∧ p.Grows p'

variable {q : Project}

theorem Continues.trans (h : Continues p q) (h' : Continues q p') : Continues p p' :=
  ⟨h'.1, h.2.trans h'.2⟩

/-- The rows of a transaction and of the proposal that it applies. -/
theorem setTransaction {id : ID} {t : EditTransaction} (hp : p.Journaled) (hid : t.id = id)
    (hnew : ∀ stored, p.proposals.find? t.proposalID = some stored → stored.status ≠ .applied)
    (hfresh : p.transactions.find? id = none) (hstatus : proposal.status = .applied)
    (htransaction : proposal.appliedTransactionID = some id)
    (hrevision : t.committedProjectRevision = p.revision + 1)
    (hq : q.revision = p.revision + 1 ∧ q.transactions = p.transactions.set id t ∧
      q.proposals = p.proposals.set t.proposalID proposal ∧ q.requests = p.requests) :
    Continues p q := by
  have hgrows : p.Grows q := .setTransaction hnew hfresh hrevision hq
  refine ⟨?_, hgrows⟩
  obtain ⟨hqrevision, hqtransactions, hqproposals, hqrequests⟩ := hq
  have hstored : q.transactions.find? id = some t := by
    rw [hqtransactions, find?_set_self]
  refine ⟨fun {id' t'} ht' => ?_, fun {id' stored} hfound happlied => ?_,
    fun {key row transactionID} hfound hrow => ?_⟩
  · rw [hqtransactions] at ht'
    rw [hqrevision]
    rcases of_find?_set ht' with ⟨hkey, rfl⟩ | ht'
    · rw [hqproposals]
      exact ⟨hid.trans hkey.symm, hrevision.le, proposal, find?_set_self _ _ _, hstatus,
        hkey ▸ htransaction⟩
    · obtain ⟨hid', hle, stored, hfound, happlied, hrow⟩ := hp.transactions ht'
      exact ⟨hid', hle.trans (Nat.le_succ _), stored, hgrows.applied hfound happlied,
        happlied, hrow⟩
  · rw [hqproposals] at hfound
    rcases of_find?_set hfound with ⟨-, rfl⟩ | hfound
    · exact ⟨id, t, htransaction, hstored⟩
    · obtain ⟨transactionID, t', hrow, ht'⟩ := hp.proposals hfound happlied
      exact ⟨transactionID, t', hrow, hgrows.transactions ht'⟩
  · rw [hqrequests] at hfound
    obtain ⟨t', ht'⟩ := hp.requests hfound hrow
    exact ⟨t', hgrows.transactions ht'⟩

variable {transactionID : ID} {undoes : Option ID}

theorem commitProposal (hp : p.Journaled)
    (hnew : ∀ stored, p.proposals.find? proposal.id = some stored → stored.status ≠ .applied)
    (h : p.commitProposal proposal transactionID undoes = .ok p') : Continues p p' := by
  obtain ⟨-, hfresh, _, -, rfl⟩ := commitProposal_ok.1 h
  exact hp.setTransaction (t := p.transactionOf proposal transactionID undoes) rfl hnew hfresh
    rfl rfl rfl ⟨rfl, rfl, rfl, rfl⟩

theorem of_same (hp : p.Journaled) (hrevision : p'.revision = p.revision)
    (htransactions : p'.transactions = p.transactions) (hproposals : p'.proposals = p.proposals)
    (hrequests : p'.requests = p.requests) : Continues p p' := by
  obtain ⟨_, _, _, _, _, _, _, _, _, _⟩ := p'
  obtain rfl := hrevision
  obtain rfl := htransactions
  obtain rfl := hproposals
  obtain rfl := hrequests
  exact ⟨⟨hp.transactions, hp.proposals, hp.requests⟩, le_rfl, id, .inl, fun h _ => h, id⟩

/-- A proposal is stored and committed. -/
theorem store_commit (hp : p.Journaled) (hfresh : p.proposals.find? proposal.id = none)
    (hopen : proposal.status = .open)
    (h : Project.commitProposal { p with proposals := p.proposals.set proposal.id proposal }
      proposal transactionID undoes = .ok p') : Continues p p' := by
  have hstored : Journaled { p with proposals := p.proposals.set proposal.id proposal } :=
    hp.setProposal hfresh (by rw [hopen]; decide)
  have hnew : ∀ stored, (p.proposals.set proposal.id proposal).find? proposal.id = some stored →
      stored.status ≠ .applied := by
    intro stored hfound
    rw [find?_set_self] at hfound
    rw [← some.inj hfound, hopen]
    decide
  have hcommitted := hstored.commitProposal hnew h
  exact ⟨hcommitted.1, (Grows.setProposal (by simp [hfresh])).trans hcommitted.2⟩

/-- The request that was served is recorded. -/
theorem Continues.insertEditRequest {key : RequestKey}
    (h : Continues p q) (hkey : q.requests.find? key = none)
    (hrow : ∀ transactionID ∈ row.transactionID, ∃ t, q.transactions.find? transactionID = some t) :
    Continues p (q.insertEditRequest key row) :=
  ⟨h.1.insertEditRequest hrow, h.2.trans (.insertEditRequest hkey row)⟩

theorem Continues.commitRequest {key : RequestKey} {command : EditCommand} {digest : Digest}
    (hcommit : ∀ {q'}, q.commitProposal proposal transactionID undoes = .ok q' → Continues p q')
    (hkey : q.requests.find? key = none)
    (h : q.commitRequest proposal transactionID undoes key command digest = .ok p') :
    Continues p p' := by
  simp only [Project.commitRequest, steps_ok] at h
  obtain ⟨q', hq, rfl⟩ := h
  have hcontinues := hcommit hq
  obtain ⟨-, -, _, -, rfl⟩ := commitProposal_ok.1 hq
  refine hcontinues.insertEditRequest hkey ?_
  rintro id ⟨⟩
  exact ⟨_, find?_set_self _ _ _⟩

theorem store_commitRequest {key : RequestKey} {command : EditCommand} {digest : Digest}
    (hp : p.Journaled) (hfresh : p.proposals.find? proposal.id = none)
    (hopen : proposal.status = .open) (hkey : p.requests.find? key = none)
    (h : commitRequest { p with proposals := p.proposals.set proposal.id proposal } proposal
      transactionID undoes key command digest = .ok p') : Continues p p' :=
  .commitRequest (hp.store_commit hfresh hopen) hkey h

end Journaled

theorem normalizeRequest_open [Uniseg] {proposalID : ID} {runID turnID : Option ID}
    {actor : ActorRef} {allocation : List LocalAllocation} {input : EditProposeInput}
    (h : p.normalizeRequest proposalID runID turnID actor allocation input = .ok proposal) :
    proposal.status = .open := by
  simp only [normalizeRequest, normalizeEditProposal, steps_ok] at h
  obtain ⟨_, -, -, _, -, rfl⟩ := h
  rfl

theorem buildUndoProposal_open {record : UndoEditRecord} {target : EditTransaction}
    (h : p.buildUndoProposal record target = .ok proposal) :
    proposal.status = .open := by
  simp only [buildUndoProposal, steps_ok, Prod.exists] at h
  obtain ⟨_, -, _, _, -, _, _, -, _, -, rfl⟩ := h
  rfl

theorem continues_of_commitUndo {record : UndoEditRecord} (hp : p.Journaled)
    (hkey : p.requests.find? (record.actor, record.requestID) = none)
    (h : p.commitUndo record command = .ok p') : Journaled.Continues p p' := by
  obtain ⟨_, _, -, -, hproposal, hfresh, h⟩ := commitUndo_cases h
  exact hp.store_commitRequest hfresh (buildUndoProposal_open hproposal) hkey h

theorem continues_of_serve [Uniseg] {request : Request} (hp : p.Journaled)
    (h : p.serve request = .ok p') : Journaled.Continues p p' := by
  cases request with
  | proposeEdit =>
    rcases proposeEdit_cases h with rfl | ⟨proposal, row, hproposal, hfresh, hkey, hrow, rfl⟩
    · exact ⟨hp, .refl _⟩
    · refine Journaled.Continues.insertEditRequest
        ⟨hp.setProposal hfresh ?_, .setProposal (by simp [hfresh])⟩ hkey (by simp [hrow])
      rw [normalizeRequest_open hproposal]
      decide
  | applyEdit record =>
    rcases applyEdit_cases h with rfl | ⟨hkey, proposal, hproposal,
      ⟨row, hstatus, hrow, rfl⟩ | ⟨hstatus, h⟩⟩
    · exact ⟨hp, .refl _⟩
    · obtain ⟨id, t, hid, ht⟩ := hp.proposals hproposal hstatus
      refine Journaled.Continues.insertEditRequest ⟨hp, .refl _⟩ hkey fun id' hid' => ⟨t, ?_⟩
      rwa [mem_unique hid (hrow ▸ hid')] at ht
    · refine .commitRequest (hp.commitProposal fun stored hstored => ?_) hkey h
      rw [← mem_unique hproposal hstored, hstatus]
      decide
  | commitCreatorEdit =>
    rcases commitCreatorEdit_cases h with rfl | ⟨_, hproposal, hfresh, hkey, h⟩
    · exact ⟨hp, .refl _⟩
    · exact hp.store_commitRequest hfresh (normalizeRequest_open hproposal) hkey h
  | undoEdit =>
    rcases undoEdit_cases h with rfl | ⟨hkey, h⟩
    · exact ⟨hp, .refl _⟩
    · exact continues_of_commitUndo hp hkey h
  | undoCreatorEdit =>
    rcases undoCreatorEdit_cases h with rfl | ⟨hkey, h⟩
    · exact ⟨hp, .refl _⟩
    · exact continues_of_commitUndo hp hkey h
  | createProjectVersion =>
    rcases createProjectVersion_cases h with rfl | ⟨q, id, version, hq, hp'⟩
    · exact ⟨hp, .refl _⟩
    · rw [hp', insertProjectVersionSnapshot_frame hq]
      exact hp.of_same rfl rfl rfl rfl
  | snapshotAgentTurn =>
    obtain ⟨id, _, hq⟩ := snapshotAgentTurn_cases h
    rw [insertProjectVersionSnapshot_frame hq]
    exact hp.of_same rfl rfl rfl rfl
  | restoreProjectVersion =>
    rcases restoreProjectVersion_cases h with ⟨-, rfl⟩ | ⟨_, _, q, _, _, _, q', -, -, -, -, -,
      hq, rfl, hfresh, hq', hp'⟩
    · exact ⟨hp, .refl _⟩
    · have hcaptured : Journaled.Continues p q := by
        rw [insertProjectVersionSnapshot_frame hq]
        exact hp.of_same rfl rfl rfl rfl
      have hcommitted := hcaptured.1.store_commit hfresh rfl hq'
      rw [hp']
      exact hcaptured.trans (hcommitted.trans (hcommitted.1.of_same rfl rfl rfl rfl))
  | registerAsset record =>
    rcases registerAsset_cases h with rfl | hregisters
    · exact ⟨hp, .refl _⟩
    · rw [hregisters.result]
      refine hp.setTransaction (t := record.transaction) rfl (fun stored hstored => ?_)
        hregisters.freshTransaction rfl rfl ?_ ⟨rfl, rfl, rfl, rfl⟩
      · cases hregisters.freshProposal.symm.trans hstored
      · rw [hregisters.expected]
        rfl
  | completeMediaIdentification input =>
    obtain ⟨_, hidentifies⟩ := completeMediaIdentification_cases h
    rw [hidentifies.result]
    exact hp.of_same rfl rfl rfl rfl
  | publishMedia media =>
    obtain ⟨⟩ := h
    exact hp.of_same rfl rfl rfl rfl
  | setRuns runs =>
    obtain ⟨⟩ := h
    exact hp.of_same rfl rfl rfl rfl

variable {allowed : Project → Request → Prop}

theorem continues_of_reaches [Uniseg] (hp : p.Journaled)
    (h : Project.Reaches allowed p p') : Journaled.Continues p p' :=
  Machine.Reaches.invariant (Journaled.Continues p) h
    (fun _ _ _ _ hq hserve => hq.trans (continues_of_serve hq.1 hserve)) ⟨hp, .refl p⟩

theorem Journaled.of_reaches [Uniseg] {ids : GenesisIDs}
    {createdAt : Nat} (h : Project.Reaches allowed (OpenCut.genesis ids createdAt) p) :
    p.Journaled :=
  (continues_of_reaches (.genesis ids createdAt) h).1

/-! ## The outcome of a request -/

/-- `ApplyEdit` serves a request as the step of the system does. -/
theorem applyEdit_eq_outcome (hp : p.Journaled) : p.applyEdit record =
      (p.applyEditOutcome record).1.map fun _ => (p.applyEditOutcome record).2 := by
  rw [applyEditOutcome, transact, applyEditBody, perform_bind, perform_get, applyEdit]
  simp only [perform_bind, perform_lift]
  cases hreplay : p.loadEditCommitReplay (record.actor, record.requestID) .editApply
      record.inputDigest with
  | error e => rfl
  | ok =>
    rcases loadEditCommitReplay_ok hreplay with ⟨_, rfl⟩ | ⟨row, hrow, -, -, hsome, rfl⟩
    · simp only [ok_bind, Bool.false_eq_true, if_false, perform_bind, perform_lift]
      cases p.validateEditWriter record.runID record.turnID record.actor with
      | error e => rfl
      | ok _ =>
        cases hproposal : p.loadEditProposal record.proposalID with
        | error e => rfl
        | ok proposal =>
          simp only [ok_bind]
          cases ensure (proposal.actor = record.actor ∧ proposal.runID = some record.runID ∧
            proposal.turnID = some record.turnID ∧ proposal.digest = record.proposalDigest)
            errEditConflict with
          | error e => rfl
          | ok _ =>
            cases hstatus : proposal.status with
            | «open» =>
              simp only [commitRequest, commitProposal]
              cases p.prepareEditTransaction proposal record.transactionID none with
              | error e =>
                by_cases hconflict : e = errEditConflict
                · simp only [if_pos hconflict]
                  rfl
                · simp only [if_neg hconflict]
                  rfl
              | ok t =>
                simp only [ok_bind, perform_bind, perform_lift]
                cases p.persistAndApplyEditTransaction t with
                | error e => rfl
                | ok q => rfl
            | applied =>
              cases htransaction : proposal.appliedTransactionID with
              | none => rfl
              | some transactionID =>
                have hstored : ∃ t, p.loadEditTransaction transactionID = .ok t := by
                  simp only [loadEditProposal, steps_ok] at hproposal
                  obtain ⟨_, hfound, rfl⟩ := hproposal
                  obtain ⟨id, t, hid, ht⟩ := hp.proposals hfound hstatus
                  obtain rfl := mem_unique htransaction hid
                  exact ⟨t, need_ok.2 ht⟩
                obtain ⟨t, ht⟩ := hstored
                simp only [perform_bind, perform_lift, ht]
                rfl
            | stale => rfl
            | cancelled => rfl
    · obtain ⟨_, htransaction⟩ := isSome_iff_exists.1 hsome
      obtain ⟨t, ht⟩ := hp.requests hrow htransaction
      simp only [ok_bind, if_true, perform_lift, loadReplayedTransaction, hrow, bind_some,
        htransaction, need, loadEditTransaction, ht]
      rfl

end Project

/-! ## At most once -/

/-- The actor and the name of an edit request, its command and its input. -/
def Request.identity? : Request → Option (RequestKey × EditCommand × Digest)
  | .proposeEdit record =>
    some ((record.actor, record.input.requestID), .editPropose, record.inputDigest)
  | .applyEdit record => some ((record.actor, record.requestID), .editApply, record.inputDigest)
  | .commitCreatorEdit record =>
    some ((record.actor, record.input.requestID), .creatorEditCommit, record.inputDigest)
  | .undoEdit record => some ((record.actor, record.requestID), .editUndo, record.inputDigest)
  | .undoCreatorEdit record =>
    some ((record.actor, record.requestID), .creatorEditUndo, record.inputDigest)
  | _ => none

namespace Project

variable {p p' : Project}

/-- A request under a name that served another command or another input is refused. -/
theorem serve_reused [Uniseg] {request : Request} {key : RequestKey} {command : EditCommand}
    {digest : Digest} {row : EditRequestRow}
    (hrequest : request.identity? = some (key, command, digest))
    (hrow : p.requests.find? key = some row)
    (hdiff : row.command ≠ command ∨ row.inputDigest ≠ digest) :
    p.serve request = .error .requestReused := by
  have hreplay := loadEditCommitReplay_reused hrow hdiff
  cases request with
  | proposeEdit record =>
    cases hrequest
    have hnot : ¬(row.command = .editPropose ∧ row.inputDigest = record.inputDigest) :=
      fun h => hdiff.elim (· h.1) (· h.2)
    simp only [serve, proposeEdit, hrow, ensure, if_neg hnot]
    rfl
  | applyEdit =>
    cases hrequest
    rw [serve, applyEdit, hreplay]
    rfl
  | commitCreatorEdit =>
    cases hrequest
    simp only [serve, commitCreatorEdit, hreplay]
    rfl
  | undoEdit =>
    cases hrequest
    rw [serve, undoEdit, hreplay]
    rfl
  | undoCreatorEdit =>
    cases hrequest
    rw [serve, undoCreatorEdit, hreplay]
    rfl
  | _ => cases hrequest

/-- The request `first` was served with the transaction `t`, and never again: what holds of
    the two in every later state of the project. -/
structure ServedOnce [Uniseg] (first : ApplyEditRecord) (t : EditTransaction) (p : Project) :
    Prop where
  /-- The transaction is the only one of its proposal. -/
  stored : p.transactions.find? t.id = some t
  unique : ∀ {id t'}, p.transactions.find? id = some t' → t'.proposalID = t.proposalID → t' = t
  /-- A retry returns the transaction and changes nothing. -/
  retry : ∀ {record : ApplyEditRecord},
    (record.actor, record.requestID) = (first.actor, first.requestID) →
    record.inputDigest = first.inputDigest → p.applyEditOutcome record = (.ok t, p)
  /-- Another command or another input under the same name is refused. -/
  reused : ∀ {request : Request} {command : EditCommand} {digest : Digest},
    request.identity? = some ((first.actor, first.requestID), command, digest) →
    (command ≠ .editApply ∨ digest ≠ first.inputDigest) → p.serve request = .error .requestReused
  /-- A second request for the proposal, under a new name, returns the transaction and
      records nothing but its name if its writer may ask for it, and changes nothing
      otherwise. -/
  second : ∀ {record : ApplyEditRecord}, record.proposalID = t.proposalID →
    p.requests.find? (record.actor, record.requestID) = none →
    ∃ proposal, p.proposals.find? t.proposalID = some proposal ∧
      (p.validateEditWriter record.runID record.turnID record.actor = .ok () ∧
        record.Names { proposal with id := record.proposalID } →
        p.applyEditOutcome record = (.ok t,
          p.insertEditRequest (record.actor, record.requestID) (record.row t.id))) ∧
      (¬(p.validateEditWriter record.runID record.turnID record.actor = .ok () ∧
        record.Names { proposal with id := record.proposalID }) →
        ∃ e, p.applyEditOutcome record = (.error e, p))

variable {record : ApplyEditRecord} {t : EditTransaction}

/-- What `ApplyEdit` has on record after it served a request. -/
theorem Applies.recorded (hp : p.Journaled) (h : p.Applies record t p') :
    p'.transactions.find? t.id = some t ∧
    ∃ row, p'.requests.find? (record.actor, record.requestID) = some row ∧
      row.command = .editApply ∧ row.inputDigest = record.inputDigest ∧
      row.transactionID = some t.id := by
  cases h with
  | replayed found same stored =>
    rw [(hp.transactions stored).1]
    exact ⟨stored, _, found, same⟩
  | converged _ _ _ stored =>
    rw [(hp.transactions stored).1]
    exact ⟨stored, _, find?_set_self _ _ _, rfl, rfl, rfl⟩
  | committed _ _ commits transaction =>
    obtain ⟨-, -, _, -, rfl⟩ := commitProposal_ok.1 commits
    rw [transaction]
    exact ⟨find?_set_self _ _ _, _, find?_set_self _ _ _, rfl, rfl, rfl⟩

/-- A transaction that is not on record before is committed now. -/
theorem Applies.of_new (hp : p.Journaled) (h : p.Applies record t p')
    (hnew : p.transactions.find? t.id = none) :
    p.requests.find? (record.actor, record.requestID) = none ∧ t.proposalID = record.proposalID ∧
      (∃ proposal, p.proposals.find? record.proposalID = some proposal ∧ proposal.status = .open) ∧
      t.committedProjectRevision = p.revision + 1 ∧ p'.revision = p.revision + 1 := by
  cases h with
  | replayed found same stored =>
    rw [(hp.transactions stored).1, stored] at hnew
    cases hnew
  | converged _ _ _ stored =>
    rw [(hp.transactions stored).1, stored] at hnew
    cases hnew
  | committed asks status commits transaction =>
    obtain ⟨-, -, _, -, rfl⟩ := commitProposal_ok.1 commits
    rw [transaction]
    exact ⟨asks.fresh, rfl, ⟨_, asks.found, status⟩, rfl, rfl⟩

/-- A request under a new name is served if its writer may ask for its proposal. -/
theorem Applies.asked (h : p.Applies record t p')
    (hfresh : p.requests.find? (record.actor, record.requestID) = none) :
    ∃ proposal, p.Asks record proposal := by
  cases h with
  | replayed found => cases hfresh.symm.trans found
  | converged asks => exact ⟨_, asks⟩
  | committed asks => exact ⟨_, asks⟩

theorem ServedOnce.of_recorded [Uniseg] {first : ApplyEditRecord} {row : EditRequestRow}
    (hp : p.Journaled) (ht : p.transactions.find? t.id = some t)
    (hrow : p.requests.find? (first.actor, first.requestID) = some row)
    (hsame : row.command = .editApply ∧ row.inputDigest = first.inputDigest ∧
      row.transactionID = some t.id) : ServedOnce first t p := by
  obtain ⟨hcommand, hdigest, htransaction⟩ := hsame
  obtain ⟨-, -, proposal, hproposal, hstatus, happlied⟩ := hp.transactions ht
  refine ⟨ht, fun {id t'} ht' hid => ?_, fun {record} hkey hinput => ?_,
    fun {request command digest} hrequest hdiff => ?_, fun {record} hid hfresh => ?_⟩
  · obtain ⟨_, -, stored, hstored, -, happlied'⟩ := hp.transactions ht'
    rw [hid, hproposal] at hstored
    obtain ⟨⟩ := hstored
    obtain rfl := mem_unique happlied happlied'
    exact mem_unique ht' ht
  · rw [← hkey] at hrow
    exact outcome_of_applies (.replayed hrow ⟨hcommand, hdigest.trans hinput.symm, htransaction⟩ ht)
  · refine serve_reused hrequest hrow ?_
    rw [hcommand, hdigest]
    exact hdiff.imp Ne.symm Ne.symm
  · rw [← hid] at hproposal ⊢
    refine ⟨proposal, hproposal, fun hasks => ?_, fun hrefused => ?_⟩
    · exact outcome_of_applies
        (.converged ⟨hfresh, hasks.1, hasks.2, hproposal⟩ hstatus happlied ht)
    · cases houtcome : (p.applyEditOutcome record).1 with
      | error e => exact ⟨e, Prod.ext houtcome (transact_eq_error.1 (Prod.ext houtcome rfl)).2⟩
      | ok t' =>
        obtain ⟨_, hasks⟩ := (applies_of_outcome (Prod.ext houtcome rfl)).asked hfresh
        obtain rfl := mem_unique hproposal hasks.found
        exact absurd ⟨hasks.writer, hasks.names⟩ hrefused

end Project

/-- Whatever is served in between, a request and the proposal it applies are each the
    source of one transaction, which every retry returns; and the transactions of a project
    are at successive revisions of it. -/
theorem applyEdit_at_most_once [Uniseg] {ids : GenesisIDs} {createdAt : Nat} {p q p' : Project}
    {first : ApplyEditRecord} {t : EditTransaction}
    (hp : Project.Reaches (fun _ _ => True) (genesis ids createdAt) p)
    (hfirst : p.applyEditOutcome first = (.ok t, q))
    (hrun : Project.Reaches (fun _ _ => True) q p') :
    p'.ServedOnce first t ∧
    (p.transactions.find? t.id = none →
      t.proposalID = first.proposalID ∧
      t.committedProjectRevision = p.revision + 1 ∧ q.revision = p.revision + 1 ∧
      (∀ {id t'}, p'.transactions.find? id = some t' → q.transactions.find? id = none →
        t.committedProjectRevision < t'.committedProjectRevision) ∧
      ∀ {second t' q'}, p'.applyEditOutcome second = (.ok t', q') →
        p'.transactions.find? t'.id = none →
        second.proposalID ≠ first.proposalID ∧
        (second.actor, second.requestID) ≠ (first.actor, first.requestID) ∧
        t'.committedProjectRevision = p'.revision + 1 ∧
        t.committedProjectRevision < t'.committedProjectRevision) := by
  have hjournal := Project.Journaled.of_reaches hp
  have happlies := applies_of_outcome hfirst
  have hserve : p.serve (.applyEdit first) = .ok q := by
    rw [serve, applyEdit_eq_outcome hjournal, hfirst]
    rfl
  have hq : q.Journaled := (continues_of_serve hjournal hserve).1
  obtain ⟨hp', hgrows⟩ := continues_of_reaches hq hrun
  obtain ⟨hstored, row, hrow, hsame⟩ := happlies.recorded hjournal
  refine ⟨.of_recorded hp' (hgrows.transactions hstored) (hgrows.requests hrow) hsame,
    fun hnew => ?_⟩
  obtain ⟨-, hid, -, hrevision, hqrevision⟩ := happlies.of_new hjournal hnew
  refine ⟨hid, hrevision, hqrevision, fun {id t'} ht' hnew' => ?_,
    fun {second t' q'} hsecond hnew' => ?_⟩
  · rcases hgrows.later ht' with hold | _
    · cases hnew'.symm.trans hold
    · rwa [hrevision, ← hqrevision]
  · obtain ⟨hfresh, -, ⟨_, hproposal, hopen⟩, hrevision', -⟩ :=
      (applies_of_outcome hsecond).of_new hp' hnew'
    refine ⟨fun hsame' => ?_, fun hkey => ?_, hrevision', ?_⟩
    · obtain ⟨-, -, _, hfound, happlied, -⟩ := hp'.transactions (hgrows.transactions hstored)
      rw [hid, ← hsame', hproposal] at hfound
      obtain ⟨⟩ := hfound
      cases hopen.symm.trans happlied
    · rw [hkey, hgrows.requests hrow] at hfresh
      cases hfresh
    · rw [hrevision, hrevision', ← hqrevision]
      exact Nat.lt_succ_of_le hgrows.revision

/-- An agent proposes to name the root section. -/
def sampleProposal : List Request := [.setRuns sampleRuns,
  samplePropose 1 1 [⟨⟨.narrativeNode, 1⟩, 1⟩] []
    [.updateNarrativeNode 1 (.section ['t'] "en".toList)]]

/-- The creator's edit comes between the agent's request and its retries. -/
theorem applyEdit_at_most_once_sample :
    let _ := runeClusters
    ∃ p proposal t p', sampleAfter sampleProposal = some p ∧
      p.proposals.find? 301 = some proposal ∧ p.transactions.find? t.id = none ∧
      (p.applyEditOutcome (sampleApply 1 proposal)).1 = .ok t ∧
      (p.applyEditOutcome (sampleApply 1 proposal)).2.serve (sampleNaming 2) = .ok p' ∧
      p'.ServedOnce (sampleApply 1 proposal) t ∧ t.committedProjectRevision = p.revision + 1 := by
  let _ := runeClusters
  obtain ⟨p, hp, proposal, hproposal, t, hok, hnew, p', hserve⟩ : ∃ p,
      sampleAfter sampleProposal = some p ∧
      ∃ proposal, p.proposals.find? 301 = some proposal ∧
        ∃ t, (p.applyEditOutcome (sampleApply 1 proposal)).1 = .ok t ∧
          p.transactions.find? t.id = none ∧
          ∃ p', @Project.serve runeClusters (p.applyEditOutcome (sampleApply 1 proposal)).2
            (sampleNaming 2) = .ok p' := by
    decide +kernel
  have honce := applyEdit_at_most_once (Machine.Reaches.of_play hp) (Prod.ext hok rfl)
    ((Machine.Reaches.refl _).serve_ok trivial hserve)
  exact ⟨p, proposal, t, p', hp, hproposal, hnew, hok, hserve, honce.1, (honce.2 hnew).2.1⟩

/-! ## Conflicts -/

namespace Project

/-- The revisions that the open proposal was made for no longer hold, where nothing else
    stands against the request to apply it. -/
structure Conflicts (p : Project) (record : ApplyEditRecord) (proposal : EditProposal) : Prop
    extends p.Asks record proposal where
  status : proposal.status = .open
  moved : p.content.validateProposalPreconditions proposal ≠ .ok ()

variable {p p' : Project}

theorem validateProposalPreconditions_error {c : Content} {proposal : EditProposal}
    (h : c.validateProposalPreconditions proposal ≠ .ok ()) :
    c.validateProposalPreconditions proposal = .error errEditConflict := by
  rw [Content.validateProposalPreconditions] at h ⊢
  unfold ensure at h ⊢
  split
  · split
    · next h₁ h₂ =>
      rw [if_pos h₁, if_pos h₂] at h
      exact absurd rfl h
    · rfl
  · rfl

/-- The statements of the request mark the proposal stale and fail. -/
theorem Conflicts.perform {record : ApplyEditRecord} {proposal : EditProposal}
    (h : p.Conflicts record proposal) :
    (applyEditBody record).perform p = (.error errEditConflict,
      p.markEditProposalStale { proposal with id := record.proposalID }) := by
  have hprepare : p.prepareEditTransaction { proposal with id := record.proposalID }
      record.transactionID none = .error errEditConflict := by
    have hmoved := validateProposalPreconditions_error h.moved
    rw [Content.validateProposalPreconditions] at hmoved
    rw [prepareEditTransaction, Content.validateProposalPreconditions, hmoved]
    rfl
  rw [applyEditBody, perform_bind, perform_get]
  simp only [perform_lift_bind (loadEditCommitReplay_fresh h.fresh), Bool.false_eq_true, if_false,
    perform_lift_bind h.writer, perform_lift_bind (loadEditProposal_of_find? h.found)]
  rw [perform_lift_bind (ensure_of _ h.names)]
  simp only [hprepare, if_true]
  simp only [h.status, perform_bind, perform_set, perform_throw]

/-- From now on, the proposal is stored as stale, and requests to apply it are refused for
    that. -/
def StaleFromNowOn [Uniseg] (p : Project) (id : ID) : Prop :=
  ∀ p', Reaches (fun _ _ => True) p p' → ∃ stored, p'.proposals.find? id = some stored ∧
    stored.status = .stale ∧ ∀ record : ApplyEditRecord, record.proposalID = id →
      p'.requests.find? (record.actor, record.requestID) = none →
      p'.validateEditWriter record.runID record.turnID record.actor = .ok () →
      record.Names { stored with id } → (p'.applyEditOutcome record).1 = .error .proposalStale

end Project

/-- The statements of a request to apply a proposal whose revisions no longer hold mark it
    stale, but the request fails and the mark goes with it. -/
theorem conflicting_proposal_never_stale [Uniseg] {p : Project} {record : ApplyEditRecord}
    {proposal : EditProposal} (h : p.Conflicts record proposal) :
    (∃ stored, ((Project.applyEditBody record).perform p).2.proposals.find? record.proposalID =
      some stored ∧ stored.status = .stale) ∧
    p.applyEditOutcome record = (.error errEditConflict, p) ∧
    ¬(p.applyEditOutcome record).2.StaleFromNowOn record.proposalID := by
  have hperform := h.perform
  have houtcome : p.applyEditOutcome record = (.error errEditConflict, p) :=
    transact_eq_error.2 ⟨by rw [hperform], rfl⟩
  refine ⟨⟨_, by rw [hperform]; exact find?_set_self _ _ _, rfl⟩, houtcome, fun hstale => ?_⟩
  rw [houtcome] at hstale
  obtain ⟨_, hstored, hstatus, -⟩ := hstale p (.refl p)
  obtain rfl := mem_unique h.found hstored
  cases h.status.symm.trans hstatus

/-- The creator names the root section before the agent's proposal is applied. -/
def sampleConflict : List Request := sampleProposal ++ [sampleNaming 1]

theorem conflicting_proposal_never_stale_sample :
    let _ := runeClusters
    ∃ p proposal, sampleAfter sampleConflict = some p ∧
      p.Conflicts (sampleApply 1 proposal) proposal ∧
      ¬(p.applyEditOutcome (sampleApply 1 proposal)).2.StaleFromNowOn 301 := by
  obtain ⟨p, hp, proposal, hproposal, hfresh, hwriter, hnames, hopen, hmoved⟩ : ∃ p,
      sampleAfter sampleConflict = some p ∧
      ∃ proposal, p.proposals.find? 301 = some proposal ∧
        p.requests.find? (.agent 52, ['a', 'a']) = none ∧
        p.validateEditWriter 50 51 (.agent 52) = .ok () ∧
        (sampleApply 1 proposal).Names { proposal with id := 301 } ∧ proposal.status = .open ∧
        p.content.validateProposalPreconditions proposal ≠ .ok () := by
    decide +kernel
  have hconflicts : p.Conflicts (sampleApply 1 proposal) proposal :=
    ⟨⟨hfresh, hwriter, hnames, hproposal⟩, hopen, hmoved⟩
  let _ := runeClusters
  exact ⟨p, proposal, hp, hconflicts, (conflicting_proposal_never_stale hconflicts).2.2⟩

/-- After the conflict the agent's proposal is as open as before, and a later request to
    apply it meets the same conflict. -/
theorem conflicting_proposal_stays_open :
    ∃ p proposal q, sampleAfter sampleConflict = some p ∧
      p.proposals.find? 301 = some proposal ∧
      p.applyEditOutcome (sampleApply 1 proposal) = (.error errEditConflict, q) ∧
      (∃ stored, q.proposals.find? 301 = some stored ∧ stored.status = .open) ∧
      (q.applyEditOutcome { sampleApply 1 proposal with requestID := ['b'] }).1 =
        .error errEditConflict := by
  obtain ⟨p, hp, proposal, hproposal, hconflict, hfollowing⟩ : ∃ p,
      sampleAfter sampleConflict = some p ∧
      ∃ proposal, p.proposals.find? 301 = some proposal ∧
        (p.applyEditOutcome (sampleApply 1 proposal)).1 = .error errEditConflict ∧
        (∃ stored, (p.applyEditOutcome (sampleApply 1 proposal)).2.proposals.find? 301 =
          some stored ∧ stored.status = .open) ∧
        ((p.applyEditOutcome (sampleApply 1 proposal)).2.applyEditOutcome
          { sampleApply 1 proposal with requestID := ['b'] }).1 = .error errEditConflict := by
    decide +kernel
  exact ⟨p, proposal, _, hp, hproposal, Prod.ext hconflict rfl, hfollowing⟩

end OpenCut
