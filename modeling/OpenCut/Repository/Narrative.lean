import OpenCut.Application.EditInput
import OpenCut.Lib.Outcome
import OpenCut.Lib.Table
import Mathlib.Data.List.Sort

/-!
# The stored narrative tree

`repository/edit_projection_narrative.go`, and `loadNarrativeAfter`. A node is stored
under its parent with an index among its siblings. Putting a node takes it out of its
siblings, which close up (`compactNarrativeSiblings`), and puts it back after the
sibling it names, the later ones making room (`shiftNarrativeSiblings`). Tombstoned
nodes keep their last place but take part in neither.
-/

namespace OpenCut

open Outcome

/-- A row of `narrative_nodes` with its payload. -/
structure NarrativeNodeRow where
  parentID : Option ID
  revision : Revision
  value : NarrativeNodeValue
  orderIndex : Nat
  tombstoned : Bool

/-- The stored nodes of the document. -/
abbrev NarrativeTable := Table ID NarrativeNodeRow

/-- The row is one of the live children of the section. -/
def NarrativeNodeRow.liveUnder (row : NarrativeNodeRow) (parent : ID) : Bool :=
  row.parentID == some parent && !row.tombstoned

variable (state : NarrativeNodeState)

/-- `narrativeProjectionState`: the node can be stored. -/
def NarrativeNodeState.projectable : Bool :=
  1 ≤ state.revision && match state.value with
    | .section .. => true
    | .authoredText _ _ text => !text.isEmpty
    | .visualIntent _ _ description => !description.isEmpty
    | .note _ text => !text.isEmpty
    | .sourceExcerpt value => 1 ≤ value.evidence.segmentIDs.length &&
      value.evidence.segmentIDs.length ≤ 256 && value.evidence.correctionRevisions.length ≤ 256

/-- `updateNarrativePayload`: the payload of a source excerpt is never updated. -/
def NarrativeNodeState.updatedValue (old : NarrativeNodeValue) : NarrativeNodeValue :=
  match state.value with
  | .sourceExcerpt _ => old
  | value => value

@[simp]
theorem NarrativeNodeState.updatedValue_self : state.updatedValue state.value = state.value := by
  unfold updatedValue
  split
  · rfl
  · rfl

variable {old : NarrativeNodeValue}

theorem NarrativeNodeState.kind_updatedValue {state : NarrativeNodeState}
    (h : old.kind = state.kind) : (state.updatedValue old).kind = old.kind := by
  unfold updatedValue
  split
  · rfl
  · exact h.symm

/-- An update leaves alone what a later update leaves alone. -/
theorem NarrativeNodeState.updatedValue_updatedValue {state later : NarrativeNodeState}
    (h : old.kind = state.kind) (hlater : old.kind = later.kind) :
    later.updatedValue (state.updatedValue old) = later.updatedValue old := by
  unfold updatedValue
  split
  · next hvalue =>
    split
    · rfl
    · next hother =>
      rw [hlater, kind, kind, hvalue] at h
      cases hstate : state.value <;> rw [hstate] at h <;> cases h
      exact absurd hstate (hother _)
  · rfl

namespace NarrativeTable

variable (t : NarrativeTable) (parent : ID)

/-- `shiftNarrativeSiblings`: the live children from the index on move up. -/
def shiftNarrativeSiblings (start : Nat) : NarrativeTable :=
  t.mapRows fun _ row =>
    if row.liveUnder parent && start ≤ row.orderIndex then
      { row with orderIndex := row.orderIndex + 1 }
    else row

/-- `compactNarrativeSiblings`: the live children after the index move down. -/
def compactNarrativeSiblings (removed : Nat) : NarrativeTable :=
  t.mapRows fun _ row =>
    if row.liveUnder parent && removed < row.orderIndex then
      { row with orderIndex := row.orderIndex - 1 }
    else row

/-- `narrativeInsertIndex`: the index right after a live child of the section. -/
def narrativeInsertIndex (after : Option ID) : Except EditError Nat :=
  match after with
  | none => .ok 0
  | some after => do
    let row ← need (t.find? after) errEditConflict
    ensure (row.liveUnder parent) errEditConflict
    return row.orderIndex + 1

/-- `loadNarrativeAfter`: the live sibling right before the place of a node. -/
def loadNarrativeAfter (parent : Option ID) (orderIndex : Nat) (id : ID) : Option ID :=
  parent.bind fun parent =>
    let before := t.rows.filter fun (sibling, row) => row.liveUnder parent &&
      decide (row.orderIndex < orderIndex ∨ (row.orderIndex = orderIndex ∧ sibling < id))
    let descending := before.insertionSort fun a b =>
      b.2.orderIndex < a.2.orderIndex ∨ (b.2.orderIndex = a.2.orderIndex ∧ b.1 ≤ a.1)
    descending.head?.map Prod.fst

/-- The foreign key of the parent, which the store checks after a statement. -/
def withParent : Except EditError NarrativeTable := do
  ensure (t.find? parent).isSome .storage
  return t

/-- A live node is taken out of its siblings. -/
def detach (id : ID) (old : NarrativeNodeRow) : NarrativeTable :=
  match old.parentID with
  | some parent =>
    if old.tombstoned then t
    else compactNarrativeSiblings (t.set id { old with tombstoned := true }) parent old.orderIndex
  | none => t

/-- The node is put under a section: live after its anchor, or tombstoned at the
    index it had. -/
def attach (old : NarrativeNodeRow) (state : NarrativeNodeState) :
    Except EditError NarrativeTable :=
  let row : NarrativeNodeRow := {
    parentID := some parent, revision := state.revision, value := state.updatedValue old.value
    orderIndex := old.orderIndex, tombstoned := state.tombstoned }
  if state.tombstoned then
    withParent (t.set state.id row) parent
  else do
    let index ← t.narrativeInsertIndex parent state.afterNodeID
    withParent
      ((t.shiftNarrativeSiblings parent index).set state.id { row with orderIndex := index }) parent

/-- `applyNarrativeNode` for a new node. -/
def insertNarrativeNode (state : NarrativeNodeState) : Except EditError NarrativeTable := do
  let parent ← need state.parentID errEditInvalid
  ensure (!state.tombstoned) errEditInvalid
  let index ← t.narrativeInsertIndex parent state.afterNodeID
  ensure (t.find? state.id).isNone .storage
  let row : NarrativeNodeRow := {
    parentID := some parent, revision := state.revision, value := state.value
    orderIndex := index, tombstoned := false }
  withParent ((t.shiftNarrativeSiblings parent index).set state.id row) parent

/-- `applyNarrativeNode` for a stored node, which has to be at the revision
    `before`. The root section only changes its payload. -/
def updateNarrativeNode (before : Revision) (state : NarrativeNodeState) :
    Except EditError NarrativeTable := do
  let old ← need (t.find? state.id) errEditConflict
  ensure (old.revision = before) errEditConflict
  ensure (old.value.kind = state.kind ∧ old.parentID.isSome = state.parentID.isSome) errEditInvalid
  match state.parentID with
  | none =>
    ensure (state.afterNodeID = none ∧ state.tombstoned = false) errEditInvalid
    return t.set state.id { old with
      revision := state.revision, value := state.updatedValue old.value }
  | some parent => (t.detach state.id old).attach parent old state

/-- `applyNarrativeNode`. -/
def applyNarrativeNode (change : Option EntityRevisionChange) (state : NarrativeNodeState) :
    Except EditError NarrativeTable := do
  let change ← need change errEditInvalid
  ensure (state.projectable ∧ change.key.id = state.id ∧ change.after = state.revision)
    errEditInvalid
  match change.before with
  | none => t.insertNarrativeNode state
  | some before => t.updateNarrativeNode before state

end NarrativeTable

end OpenCut
