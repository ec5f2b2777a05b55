import OpenCut.Application.Normalizer

/-!
# Narrative operations

`application/edit_normalize_narrative.go`: inserting, updating, moving and removing
nodes of the narrative tree. A node may only be put under a live section that was
loaded and is named by a precondition; a section may not be moved under one of its
descendants, which `sectionDescendsFrom` finds by climbing the working tree.
-/

namespace OpenCut

open Outcome

namespace EntityTable

/-- `narrativeNodeParent`. -/
def narrativeNodeParent (t : EntityTable) (id : ID) : Option ID := (t.node? id).bind (·.parentID)

/-- The climb of `sectionDescendsFrom` from `current`, after the sections `seen`. -/
def descendsFrom (t : EntityTable) (ancestor : ID) : Nat → List ID → ID → Bool
  | 0, _, _ => true
  | fuel + 1, seen, current =>
    current == ancestor || decide (current ∈ seen) ||
      match (t.section? current).bind (·.parentID) with
      | none => false
      | some parent => t.descendsFrom ancestor fuel (current :: seen) parent

/-- `sectionDescendsFrom`: the climb from `candidate` meets `ancestor`. It also
    answers yes if it meets a section twice. No climb is longer than the number
    of nodes, so the bound is never what ends it. -/
def sectionDescendsFrom (t : EntityTable) (candidate ancestor : ID) : Bool :=
  t.descendsFrom ancestor (t.states.length + 2) [] candidate

end EntityTable

namespace EditNormalizer

variable (I : NormalizeEditInput) (n : EditNormalizer)

/-- `requireNarrativeParent`. The precondition is on the loaded revision, also if
    the section has been put since. -/
def requireNarrativeParent (id : ID) : Except EditError NarrativeNodeState := do
  let parent ← need (n.working.section? id) errEditInvalid
  ensure (!parent.tombstoned) errEditInvalid
  let base ← need (I.base.section? id) errEditInvalid
  I.require ⟨.narrativeNode, id⟩ base.revision
  return parent

/-- `markNarrativeParentChanged`. -/
def markNarrativeParentChanged (id : ID) : EditNormalizer :=
  if ⟨.narrativeNode, id⟩ ∈ n.touched then
    { n with parentChanges := n.parentChanges.erase id }
  else
    match I.base.section? id with
    | some base => { n with parentChanges := n.parentChanges.set id base.revision }
    | none => n

/-- `resolveNarrativeNodeReference`. -/
def resolveNarrativeNodeReference (reference : Option EditReference) :
    Except EditError (Option ID) :=
  match reference with
  | none => .ok none
  | some reference => do
    let id ← I.resolveReference reference .narrativeNode
    let state ← need (n.working.node? id) errEditInvalid
    ensure (!state.tombstoned) errEditInvalid
    return some id

/-- Forgets that a node changed as a parent; it is put itself. -/
def forgetParentChange (id : ID) : EditNormalizer :=
  { n with parentChanges := n.parentChanges.erase id }

/-- `insertNarrativeNode`. -/
def insertNarrativeNode (createAs : LocalID) (parentID : ID) (after : Option EditReference)
    (writing : NarrativeWriting) : Except EditError EditNormalizer := do
  let id ← I.allocated createAs .narrativeNode
  ensure (n.working.node? id).isNone errEditInvalid
  let n ← n.markTouched ⟨.narrativeNode, id⟩
  let parent ← n.requireNarrativeParent I parentID
  let after ← n.resolveNarrativeNodeReference I after
  ensure (∀ a ∈ after, n.working.narrativeNodeParent a = some parent.id) errEditInvalid
  let state : NarrativeNodeState := {
    id, revision := 1, parentID := some parent.id, afterNodeID := after,
    value := writing.value, tombstoned := false }
  let n := n.put none (.narrativeNode state)
  return (n.markNarrativeParentChanged I parent.id).addChildren parent.id 1

/-- `updateNarrativeNode`. The node keeps the anchor it was loaded with. -/
def updateNarrativeNode (nodeID : ID) (writing : NarrativeWriting) :
    Except EditError EditNormalizer := do
  let current ← need (n.working.node? nodeID) errEditInvalid
  ensure (!current.tombstoned) errEditInvalid
  let n ← n.markTouched ⟨.narrativeNode, nodeID⟩
  ensure (writing.value.kind = current.kind) errEditInvalid
  I.require ⟨.narrativeNode, nodeID⟩ current.revision
  let n := n.forgetParentChange nodeID
  let next := { current with revision := current.revision + 1, value := writing.value }
  return n.put (some (.narrativeNode current)) (.narrativeNode next)

/-- `moveNarrativeNode`. -/
def moveNarrativeNode (nodeID parentID : ID) (after : Option EditReference) :
    Except EditError EditNormalizer := do
  let current ← need (n.working.node? nodeID) errEditInvalid
  ensure (!current.tombstoned) errEditInvalid
  let oldParentID ← need current.parentID errEditInvalid
  let n ← n.markTouched ⟨.narrativeNode, nodeID⟩
  I.require ⟨.narrativeNode, nodeID⟩ current.revision
  let n := n.forgetParentChange nodeID
  let oldParent ← n.requireNarrativeParent I oldParentID
  let newParent ← refuseAs (n.requireNarrativeParent I parentID) errEditInvalid
  let after ← n.resolveNarrativeNodeReference I after
  ensure (∀ a ∈ after, a ≠ nodeID ∧ n.working.narrativeNodeParent a = some newParent.id)
    errEditInvalid
  ensure (¬(current.kind = .section ∧ n.working.sectionDescendsFrom newParent.id nodeID))
    errEditInvalid
  let next := { current with
    revision := current.revision + 1, parentID := some newParent.id, afterNodeID := after }
  let n := n.put (some (.narrativeNode current)) (.narrativeNode next)
  let n := (n.markNarrativeParentChanged I oldParent.id).markNarrativeParentChanged I newParent.id
  if oldParent.id = newParent.id then
    return n
  else
    return (n.addChildren oldParent.id (-1)).addChildren newParent.id 1

/-- `removeNarrativeNode`. The root section and sections with live children stay. -/
def removeNarrativeNode (nodeID : ID) : Except EditError EditNormalizer := do
  let current ← need (n.working.node? nodeID) errEditInvalid
  ensure (!current.tombstoned) errEditInvalid
  let parentID ← need current.parentID errEditInvalid
  ensure (¬(current.kind = .section ∧ (n.sectionChildren.find? nodeID).getD 0 ≠ 0)) errEditInvalid
  let n ← n.markTouched ⟨.narrativeNode, nodeID⟩
  I.require ⟨.narrativeNode, nodeID⟩ current.revision
  let n := n.forgetParentChange nodeID
  let parent ← n.requireNarrativeParent I parentID
  let next := { current with revision := current.revision + 1, tombstoned := true }
  let n := n.put (some (.narrativeNode current)) (.narrativeNode next)
  return (n.markNarrativeParentChanged I parent.id).addChildren parent.id (-1)

end EditNormalizer

end OpenCut
