import OpenCut.Repository.Journal

/-!
# Undoing a transaction

`repository/edit_undo.go` and `edit_undo_helpers.go`: an undo is a proposal made of the
inverse operations that the transaction recorded, advanced to the revisions after the
current ones (`rebaseOperationSet`). It is allowed while everything that the transaction
changed, apart from the document and the sequence, is still where it left it.
-/

namespace OpenCut

open Outcome

/-- The change is of an entity inside the document or the sequence. -/
def EntityRevisionChange.isInner (change : EntityRevisionChange) : Bool :=
  change.key.kind != .narrativeDocument && change.key.kind != .sequence

/-- `normalizedOperationIdentity` and the entity: a restore has none. -/
def NormalizedEditOperation.needEntity (operation : NormalizedEditOperation) :
    Except EditError EntityState :=
  need operation.entity? errEditInvalid

namespace Content

variable (c : Content) (target : EditTransaction)

/-- `validateUndoTargetCurrent`. -/
def validateUndoTargetCurrent : Except EditError Unit :=
  ensure (∀ change ∈ target.changes, change.isInner → c.revision? change.key = some change.after)
    errEditConflict

/-- `operationRevisionMap`. -/
def operationRevisionMap (operations : List NormalizedEditOperation) :
    Except EditError (Table EntityKey Revision) :=
  operations.foldlM (fun result operation => do
    let state ← operation.needEntity
    let revision ← need (c.revision? state.key) errEditConflict
    return result.set state.key revision) ∅

/-- `revisionFromMapOrStore`. -/
def revisionFromMapOrStore (revisions : Table EntityKey Revision) (key : EntityKey) :
    Except EditError Revision :=
  match revisions.find? key with
  | some revision => .ok revision
  | none => need (c.revision? key) errEditConflict

/-- The operations at their next revisions, and the revisions after them. -/
def advanceOperations (base : Table EntityKey Revision)
    (operations : List NormalizedEditOperation) :
    Except EditError (List EntityState × Table EntityKey Revision) :=
  operations.foldlM (fun (result, final) operation => do
    let state ← operation.needEntity
    let current ← c.revisionFromMapOrStore base state.key
    return (result ++ [state.withRevision (current + 1)], final.set state.key (current + 1)))
    ([], base)

/-- A target of an exact alignment at its revision after the operations. -/
def rebaseTarget (final : Table EntityKey Revision) (changesSequence : Bool) :
    AlignmentTarget → Except EditError AlignmentTarget
  | .caption id _ range => do
    let revision ← c.revisionFromMapOrStore final ⟨.caption, id⟩
    return .caption id revision range
  | .clip id _ range => do
    let revision ← c.revisionFromMapOrStore final ⟨.clip, id⟩
    return .clip id revision range
  | .timeline _ range =>
    return .timeline (if changesSequence then c.sequenceRevision + 1 else c.sequenceRevision) range

/-- An exact alignment at the revisions of its node and its targets after the operations. -/
def rebaseAlignment (final : Table EntityKey Revision) (changesSequence : Bool) :
    EntityState → Except EditError EntityState
  | .alignment s =>
    if s.status = .exact then do
      let node ← c.revisionFromMapOrStore final ⟨.narrativeNode, s.narrativeNodeID⟩
      let targets ← s.targets.mapM (c.rebaseTarget final changesSequence)
      return .alignment { s with narrativeNodeRevision := node, targets }
    else return .alignment s
  | s => return s

/-- `rebaseOperationSet`. -/
def rebaseOperationSet (operations : List NormalizedEditOperation)
    (base : Table EntityKey Revision) :
    Except EditError (List EntityState × Table EntityKey Revision) := do
  let (result, final) ← c.advanceOperations base operations
  let result ← result.mapM (c.rebaseAlignment final (proposalChangesSequence operations))
  return (result, final)

variable (operations : List EntityState)

/-- The changes that an undo makes to what it puts. -/
def undoOperationChanges : Except EditError (List EntityRevisionChange) :=
  operations.mapM fun state => do
    let current ← need (c.revision? state.key) errEditConflict
    return {
      key := state.key, before := some current, after := state.revision
      tombstoned := state.tombstoned }

/-- The changes that an undo makes around what it puts. -/
def undoOuterChanges : Except EditError (List EntityRevisionChange) :=
  (target.changes.filter fun change =>
    change.isInner && decide (change.key ∉ operations.map (·.key))).mapM fun change => do
    ensure (c.revision? change.key = some change.after) errEditConflict
    return { key := change.key, before := some change.after, after := change.after + 1
             tombstoned := false }

/-- `undoChanges`. -/
def undoChanges : Except EditError (List EntityRevisionChange) := do
  let put ← c.undoOperationChanges operations
  let outer ← c.undoOuterChanges target operations
  return (put ++ outer).insertionSort fun a b => a.key.le b.key

end Content

/-- What an undo asks for. Agents name their run and turn. -/
structure UndoEditRecord where
  runID : Option ID
  turnID : Option ID
  actor : ActorRef
  targetTransactionID : ID
  requestID : RequestID
  inputDigest : Digest
  intent : Text
  proposalID : ID
  transactionID : ID

/-- The preconditions that say what the changes expect. -/
def preconditionsOf (changes : List EntityRevisionChange) : List EntityPrecondition :=
  changes.filterMap fun change => change.before.map fun revision => ⟨change.key, revision⟩

/-- `buildUndoProposal`. -/
def Project.buildUndoProposal (p : Project) (record : UndoEditRecord) (target : EditTransaction) :
    Except EditError EditProposal := do
  let current ← p.content.operationRevisionMap target.inverseOperations
  let (operations, finalRevisions) ← p.content.rebaseOperationSet target.inverseOperations current
  let (inverse, _) ← p.content.rebaseOperationSet target.operations finalRevisions
  let changes ← p.content.undoChanges target operations
  return {
    id := record.proposalID, runID := record.runID, turnID := record.turnID
    requestID := record.requestID, actor := record.actor
    intent := if record.intent = [] then "undo ".toList ++ target.id.text.toList else record.intent
    baseProjectRevision := p.revision, projectRevision := p.revision
    preconditions := preconditionsOf changes, allocation := []
    operations := operations.map .put, inversePreview := inverse.map .put, changes
    status := .open, appliedTransactionID := none }

end OpenCut
