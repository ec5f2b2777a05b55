import OpenCut.Repository.Versions

/-!
# Committing a proposal

`repository/edit_apply.go` and `edit_apply_helpers.go`: a proposal is committed if every
entity it names still has the revision it was made for. The document and the sequence
advance with it, at whatever revisions they are. The transaction is recorded, its
operations are applied in their order, and then the sections and tracks around them
advance.
-/

namespace OpenCut

open Outcome

/-- The entity that the operation puts; a restore puts none. -/
def NormalizedEditOperation.entity? : NormalizedEditOperation → Option EntityState
  | .put s => some s
  | .restoreProjectVersion _ => none

variable (operations : List NormalizedEditOperation)

/-- `proposalChangesNarrative`. -/
def proposalChangesNarrative : Bool :=
  operations.any fun
    | .put s => s.key.kind == .narrativeNode
    | .restoreProjectVersion _ => true

/-- `proposalChangesSequence`. -/
def proposalChangesSequence : Bool :=
  operations.any fun
    | .put s => s.key.kind == .caption || s.key.kind == .clip || s.key.kind == .linkGroup
    | .restoreProjectVersion _ => true

/-- `normalizedOperationEntityKeys`. -/
def normalizedOperationEntityKeys : List EntityKey :=
  operations.filterMap fun operation => operation.entity?.map (·.key)

/-- `proposalRestoresProjectVersion`. -/
def proposalRestoresProjectVersion : Bool :=
  match operations with
  | [.restoreProjectVersion _] => true
  | _ => false

/-- The change that is applied to a section, a track, the document or the sequence after
    the operations. -/
def isAggregateChange (change : EntityRevisionChange) : Bool :=
  decide (change.key ∉ normalizedOperationEntityKeys operations) && match change.key.kind with
    | .narrativeDocument => true
    | .sequence => true
    | .narrativeNode => !proposalRestoresProjectVersion operations
    | .track => !proposalRestoresProjectVersion operations
    | _ => false

namespace Content

variable (c : Content)

/-- `validateProposalPreconditions`: a created entity must not exist, any other must be at
    the revision before the change. -/
def validateProposalPreconditions (proposal : EditProposal) : Except EditError Unit := do
  ensure (∀ condition ∈ proposal.preconditions, c.revision? condition.key = some condition.revision)
    errEditConflict
  ensure (∀ change ∈ proposal.changes, c.revision? change.key = change.before) errEditConflict

/-- `currentAggregateChange` of the document. -/
def documentChange : EntityRevisionChange where
  key := ⟨.narrativeDocument, c.documentID⟩
  before := some c.documentRevision
  after := c.documentRevision + 1
  tombstoned := false

/-- `currentAggregateChange` of the sequence. -/
def sequenceChange : EntityRevisionChange where
  key := ⟨.sequence, c.sequenceID⟩
  before := some c.sequenceRevision
  after := c.sequenceRevision + 1
  tombstoned := false

/-- The changes of a transaction: those of the proposal and of the heads above it. -/
def transactionChanges (proposal : EditProposal) : List EntityRevisionChange :=
  (proposal.changes ++
    (if proposalChangesNarrative proposal.operations then [c.documentChange] else []) ++
    if proposalChangesSequence proposal.operations then [c.sequenceChange] else []
  ).insertionSort fun a b => a.key.le b.key

end Content

namespace Project

variable (p : Project) (proposal : EditProposal) (transactionID : ID) (undoes : Option ID)

/-- The transaction that commits the proposal now. -/
def transactionOf : EditTransaction where
  id := transactionID
  proposalID := proposal.id
  actor := proposal.actor
  intent := proposal.intent
  operations := proposal.operations
  inverseOperations := proposal.inversePreview
  changes := p.content.transactionChanges proposal
  committedProjectRevision := p.revision + 1
  undoesTransactionID := undoes

/-- `prepareEditTransaction`. -/
def prepareEditTransaction : Except EditError EditTransaction := do
  p.content.validateProposalPreconditions proposal
  return p.transactionOf proposal transactionID undoes

/-- `applyNormalizedOperation`. -/
def applyNormalizedOperation (changes : List EntityRevisionChange) (c : Content)
    (operation : NormalizedEditOperation) : Except EditError Content :=
  match operation with
  | .put state => c.applyPut changes state
  | .restoreProjectVersion version => p.applyProjectVersionRestore c version

variable (t : EditTransaction)

/-- What a transaction does to the content: its operations, then the changes around them. -/
def applyTransaction : Except EditError Content := do
  let c ← t.operations.foldlM (p.applyNormalizedOperation t.changes) p.content
  (t.changes.filter (isAggregateChange t.operations)).foldlM
    (fun c change => c.applyAggregateRevision change) c

/-- `persistAndApplyEditTransaction`. -/
def persistAndApplyEditTransaction : Except EditError Project := do
  ensure (p.transactions.find? t.id).isNone .storage
  let content ← p.applyTransaction t
  ensure (t.committedProjectRevision = p.revision + 1) errEditConflict
  return { p with
    revision := t.committedProjectRevision, content
    transactions := p.transactions.set t.id t }

/-- `markEditProposalApplied`. -/
def markEditProposalApplied : Project :=
  { p with proposals := p.proposals.set proposal.id { proposal with
      status := .applied, appliedTransactionID := some transactionID } }

/-- Prepares, applies and marks a proposal that is stored. -/
def commitProposal : Except EditError Project := do
  let transaction ← p.prepareEditTransaction proposal transactionID undoes
  let p ← p.persistAndApplyEditTransaction transaction
  return p.markEditProposalApplied proposal transactionID

/-- `insertEditProposalRow`. -/
def insertEditProposalRow : Except EditError Project := do
  ensure (p.proposals.find? proposal.id).isNone .storage
  return { p with proposals := p.proposals.set proposal.id proposal }

end Project

end OpenCut
