import OpenCut.Lib.Ranking
import OpenCut.Repository.Store

/-!
# The order of siblings

What the narrative document is for is a tree whose sections list their children in order;
what is stored is an index of every node among its siblings. `NarrativeTable.Ordered`
relates the two: the live children of a section have the indices of their places in the
list. Putting a node (`applyNarrativeNode`) with its shifting and closing up of indices is
putting it after its anchor in the lists (`Ordered.applyNarrativeNode`, `putChild`), and
`loadNarrativeAfter` is the sibling before it (`loadNarrativeAfter_eq`). Apart from indices
a put changes the row of its node only (`putNode_of_apply`).
-/

namespace OpenCut

open Outcome List Table NarrativeNodeRow Option

/-! ## The abstract tree -/

/-- The live children of every section, in order. -/
abbrev Children := ID → List ID

/-- A node is taken out, and put after its anchor if it is live. -/
def putChild (children : Children) (state : NarrativeNodeState) : Children := fun parent =>
  if state.parentID = some parent ∧ state.tombstoned = false then
    Ranking.place state.afterNodeID state.id ((children parent).erase state.id)
  else (children parent).erase state.id

/-- The node is one of the live children of the section. -/
def NarrativeNodeState.liveUnder (node : NarrativeNodeState) (parent : ID) : Bool :=
  node.parentID == some parent && !node.tombstoned

theorem NarrativeNodeState.liveUnder_iff {node : NarrativeNodeState} {parent : ID} :
    node.liveUnder parent ↔ node.parentID = some parent ∧ node.tombstoned = false := by
  simp [liveUnder]

/-- Nodes that are put one by one, each after the last of its siblings that was put, stand
    in this order before the nodes that were not put. -/
theorem foldl_putChild {nodes : List NarrativeNodeState} {children : Children}
    (hnodes : (nodes.map (·.id)).Nodup) (hchildren : ∀ parent, (children parent).Nodup)
    (hafter : ∀ before node rest, nodes = before ++ node :: rest → ∀ parent, node.liveUnder parent →
      node.afterNodeID = ((before.filter (·.liveUnder parent)).map (·.id)).getLast?)
    (parent : ID) :
    nodes.foldl putChild children parent = (nodes.filter (·.liveUnder parent)).map (·.id) ++
        (children parent).filter fun id => decide (id ∉ nodes.map (·.id)) := by
  induction nodes using reverseRecOn with
  | nil => simp
  | append_singleton nodes node ih =>
    rw [map_append, nodup_append] at hnodes
    obtain ⟨hnodup, -, hfresh⟩ := hnodes
    have hnotin : node.id ∉ nodes.map (·.id) := fun h => hfresh _ h node.id (by simp) rfl
    have hput := ih hnodup fun before n rest hsplit =>
      hafter before n (rest ++ [node]) (by rw [hsplit]; simp)
    set placed := (nodes.filter (·.liveUnder parent)).map (·.id) with hplaced
    have hplacedIn : ∀ id ∈ placed, id ∈ nodes.map (·.id) := fun id h => by
      obtain ⟨n, hn, rfl⟩ := mem_map.1 h
      exact mem_map_of_mem (mem_of_mem_filter hn)
    set rest := (children parent).filter fun id => decide (id ∉ (nodes ++ [node]).map (·.id))
      with hrest
    have herase : (nodes.foldl putChild children parent).erase node.id = placed ++ rest := by
      rw [hput, erase_append_right _ fun h => hnotin (hplacedIn _ h),
        ((hchildren parent).filter _).erase_eq_filter, List.filter_filter, hrest]
      congr 2
      funext id
      by_cases hid : id = node.id <;> simp [hid]
    have hdisjoint : (placed ++ rest).Nodup := by
      refine nodup_append.2 ⟨hnodup.sublist (filter_sublist.map _),
        (hchildren parent).filter _, fun a ha b hb heq => ?_⟩
      have hb := of_decide_eq_true (mem_filter.1 hb).2
      rw [map_append] at hb
      exact hb (mem_append_left _ (heq ▸ hplacedIn a ha))
    rw [foldl_append, foldl_cons, foldl_nil, putChild, herase, filter_append, map_append, ← hplaced]
    by_cases hlive : node.liveUnder parent
    · rw [if_pos (NarrativeNodeState.liveUnder_iff.1 hlive),
        hafter nodes node [] rfl parent hlive, ← hplaced, Ranking.place_append hdisjoint]
      simp [hlive]
    · rw [if_neg fun h => hlive (NarrativeNodeState.liveUnder_iff.2 h)]
      simp [hlive]

namespace NarrativeTable

variable {t t' : NarrativeTable}

/-- The index of a node among the live children of the section. -/
def rank (t : NarrativeTable) (parent id : ID) : Option Nat :=
  (t.find? id).bind fun row => if row.liveUnder parent then some row.orderIndex else none

variable {parent id : ID}

theorem rank_eq_some {n : Nat} : t.rank parent id = some n ↔
      ∃ row, t.find? id = some row ∧ row.liveUnder parent ∧ row.orderIndex = n := by
  simp only [rank, bind_eq_some_iff, ite_none_right_eq_some, some.injEq]

variable {row : NarrativeNodeRow}

theorem rank_of_find? (h : t.find? id = some row) :
    t.rank parent id = if row.liveUnder parent then some row.orderIndex else none := by
  rw [rank, h, bind_some]

/-- The indices of the live children are their places in the lists. -/
def Ordered (t : NarrativeTable) (children : Children) : Prop :=
  ∀ parent, Ranking.Lists (t.rank parent) (children parent)

/-- The row of the node apart from its index. -/
def unplaced? (t : NarrativeTable) (id : ID) : Option NarrativeNodeRow :=
  (t.find? id).map fun row => { row with orderIndex := 0 }

/-! ## Closing up and making room -/

variable {parent' : ID}

/-- A row is under at most one section. -/
theorem liveUnder_unique (h : row.liveUnder parent) (h' : row.liveUnder parent') :
    parent' = parent := by
  simp only [liveUnder, Bool.and_eq_true, beq_iff_eq] at h h'
  exact mem_unique h'.1 h.1

/-- Where a row under the section gets another index, by what the index was. -/
theorem rank_of_reindexed {f : Nat → Nat} (h : t'.find? id = (t.find? id).map fun row =>
      if row.liveUnder parent then { row with orderIndex := f row.orderIndex } else row) :
    t'.rank parent' id =
      if parent' = parent then (t.rank parent id).map f else t.rank parent' id := by
  cases hrow : t.find? id with
  | none => simp [rank, h, hrow]
  | some row =>
    rw [hrow, map_some] at h
    by_cases hlive : row.liveUnder parent
    · rw [if_pos hlive] at h
      rw [rank_of_find? h, rank_of_find? hrow, rank_of_find? hrow, if_pos hlive]
      by_cases hparent : parent' = parent
      · rw [if_pos hparent, hparent]
        exact if_pos hlive
      · have hother : ¬row.liveUnder parent' := fun h => hparent (liveUnder_unique hlive h)
        rw [if_neg hparent, if_neg hother]
        exact if_neg hother
    · rw [if_neg hlive] at h
      rw [rank_of_find? h, rank_of_find? hrow, rank_of_find? hrow, if_neg hlive]
      by_cases hparent : parent' = parent
      · rw [if_pos hparent, hparent, if_neg hlive, map_none]
      · rw [if_neg hparent]

theorem rank_compact (parent : ID) (removed : Nat) (parent' id : ID) :
    (t.compactNarrativeSiblings parent removed).rank parent' id = if parent' = parent then
        (t.rank parent id).map fun n => if removed < n then n - 1 else n
      else t.rank parent' id := by
  refine rank_of_reindexed ((find?_mapRows _ _ _).trans ?_)
  congr 1
  funext row
  by_cases hlive : row.liveUnder parent <;> by_cases hn : removed < row.orderIndex <;>
    simp [hlive, hn]

theorem rank_shift (parent : ID) (start : Nat) (parent' id : ID) :
    (t.shiftNarrativeSiblings parent start).rank parent' id = if parent' = parent then
        (t.rank parent id).map fun n => if start ≤ n then n + 1 else n
      else t.rank parent' id := by
  refine rank_of_reindexed ((find?_mapRows _ _ _).trans ?_)
  congr 1
  funext row
  by_cases hlive : row.liveUnder parent <;> by_cases hn : start ≤ row.orderIndex <;>
    simp [hlive, hn]

theorem unplaced?_mapRows {P : NarrativeNodeRow → Prop} [DecidablePred P]
    {f : NarrativeNodeRow → Nat} (id : ID) : unplaced? (t.mapRows fun _ row =>
      if P row then { row with orderIndex := f row } else row) id = t.unplaced? id := by
  rw [unplaced?, unplaced?, find?_mapRows, Option.map_map]
  congr 1
  funext row
  dsimp only [Function.comp_apply]
  split <;> rfl

/-! ## Putting a node -/

variable {children : Children} {old : NarrativeNodeRow} {state : NarrativeNodeState}

theorem rank_set (id : ID) (row : NarrativeNodeRow) (parent k : ID) : rank (t.set id row) parent k =
      if k = id then if row.liveUnder parent then some row.orderIndex else none
      else t.rank parent k := by
  split
  · next h => rw [h, rank_of_find? (find?_set_self _ _ _)]
  · next h => rw [rank, rank, find?_set_ne _ _ h]

theorem unplaced?_set (id : ID) (row : NarrativeNodeRow) (k : ID) : unplaced? (t.set id row) k =
      if k = id then some { row with orderIndex := 0 } else t.unplaced? k := by
  split
  · next h => rw [h, unplaced?, find?_set_self, map_some]
  · next h => rw [unplaced?, unplaced?, find?_set_ne _ _ h]

/-- The node is under no section. -/
def Loose (t : NarrativeTable) (id : ID) : Prop := ∀ parent, t.rank parent id = none

theorem Ordered.erase_of_loose (h : t.Ordered children) (hid : t.Loose id) (parent : ID) :
    (children parent).erase id = children parent := by
  refine erase_of_not_mem fun hmem => ?_
  obtain ⟨n, hn⟩ := (h parent).mem_iff.1 hmem
  rw [hid parent] at hn
  cases hn

theorem loose_of_not_live (hrow : t.find? id = some row)
    (h : ∀ parent, row.liveUnder parent = false) : t.Loose id := by
  intro parent
  rw [rank_of_find? hrow, h parent]
  rfl

theorem liveUnder_iff :
    row.liveUnder parent ↔ row.parentID = some parent ∧ row.tombstoned = false := by
  simp [liveUnder]

/-- Only a node that is live under a section is taken out of its siblings. -/
theorem detach_cases (t : NarrativeTable) (id : ID) (old : NarrativeNodeRow) :
    ((∀ parent, old.liveUnder parent = false) ∧ t.detach id old = t) ∨
    ∃ parent, old.liveUnder parent ∧ t.detach id old =
      compactNarrativeSiblings (t.set id { old with tombstoned := true }) parent
        old.orderIndex := by
  unfold detach
  split
  · next parent hparent =>
    split
    · next htombstoned =>
      exact .inl ⟨fun parent => by simp [liveUnder, htombstoned], rfl⟩
    · next hlive =>
      exact .inr ⟨parent, liveUnder_iff.2 ⟨hparent, by simpa using hlive⟩, rfl⟩
  · next hroot => exact .inl ⟨fun parent => by simp [liveUnder, hroot], rfl⟩

theorem loose_detach (hold : t.find? id = some old) : (t.detach id old).Loose id := by
  rcases t.detach_cases id old with ⟨hdead, heq⟩ | ⟨_, -, heq⟩
  · rw [heq]
    exact loose_of_not_live hold hdead
  · intro parent'
    rw [heq, rank_compact, rank_set, rank_set]
    simp [liveUnder]

theorem unplaced?_detach {k : ID} (hk : k ≠ id) :
    (t.detach id old).unplaced? k = t.unplaced? k := by
  rcases t.detach_cases id old with ⟨-, heq⟩ | ⟨_, -, heq⟩
  · rw [heq]
  · rw [heq, compactNarrativeSiblings, unplaced?_mapRows, unplaced?_set, if_neg hk]

/-- Taking a node out of its siblings takes it out of the lists. -/
theorem Ordered.detach (h : t.Ordered children) (hold : t.find? id = some old) :
    (t.detach id old).Ordered fun parent => (children parent).erase id := by
  intro parent'
  beta_reduce
  rcases t.detach_cases id old with ⟨hdead, heq⟩ | ⟨parent, hunder, heq⟩
  · rw [heq, h.erase_of_loose (loose_of_not_live hold hdead)]
    exact h parent'
  · rw [heq]
    by_cases hp : parent' = parent
    · subst hp
      refine (h parent').erase (n := old.orderIndex) ?_ fun k => ?_
      · rw [rank_of_find? hold, if_pos hunder]
      · rw [rank_compact, if_pos rfl, rank_set]
        split
        · simp [liveUnder]
        · rfl
    · have hnot : t.rank parent' id = none := by
        rw [rank_of_find? hold, if_neg fun h => hp (liveUnder_unique hunder h)]
      have hnotin : id ∉ children parent' := by
        intro hmem
        obtain ⟨n, hn⟩ := (h parent').mem_iff.1 hmem
        rw [hnot] at hn
        cases hn
      rw [erase_of_not_mem hnotin]
      refine (h parent').congr fun k => ?_
      rw [rank_compact, if_neg hp, rank_set]
      split
      · next hk => rw [hk, hnot]; simp [liveUnder]
      · rfl

/-- A row that is under no section takes no place. -/
theorem Ordered.set_loose (h : t.Ordered children) (hid : t.Loose id) (row : NarrativeNodeRow)
    (hrow : ∀ parent, row.liveUnder parent = false) :
    Ordered (t.set id row) children := by
  intro parent
  refine (h parent).congr fun k => ?_
  rw [rank_set, hrow parent]
  split
  · next hk => rw [hk, hid parent]; rfl
  · rfl

variable {after : Option ID}

theorem narrativeInsertIndex_ok {index : Nat}
    (h : t.narrativeInsertIndex parent after = .ok index) :
    after = none ∧ index = 0 ∨
      ∃ b m, after = some b ∧ t.rank parent b = some m ∧ index = m + 1 := by
  unfold narrativeInsertIndex at h
  split at h
  · exact .inl ⟨rfl, (Except.ok.inj h).symm⟩
  · next b =>
    simp only [steps_ok] at h
    obtain ⟨row, hrow, hlive, rfl⟩ := h
    exact .inr ⟨b, _, rfl, rank_eq_some.2 ⟨row, hrow, hlive, rfl⟩, rfl⟩

/-- Making room for a row after its anchor is placing it in the list. -/
theorem Ordered.set_placed (h : t.Ordered children) (hid : t.Loose id)
    (row : NarrativeNodeRow) (hindex : t.narrativeInsertIndex parent after = .ok row.orderIndex)
    (hrow : row.liveUnder parent) :
    Ordered ((t.shiftNarrativeSiblings parent row.orderIndex).set id row) fun parent' =>
      if parent' = parent then Ranking.place after id (children parent') else children parent' := by
  intro parent'
  beta_reduce
  split
  · next hp =>
    subst hp
    refine (h parent').place (hid parent') (narrativeInsertIndex_ok hindex) fun k => ?_
    rw [rank_set, if_pos hrow, rank_shift, if_pos rfl]
  · next hp =>
    refine (h parent').congr fun k => ?_
    rw [rank_set, if_neg fun h => hp (liveUnder_unique hrow h), rank_shift, if_neg hp]
    split
    · next hk => rw [hk, hid parent']
    · rfl

theorem withParent_ok : t.withParent parent = .ok t' ↔ (t.find? parent).isSome ∧ t = t' := by
  simp only [withParent, steps_ok]

section

variable (h : t.Ordered children)
include h

theorem Ordered.insertNarrativeNode (hinsert : t.insertNarrativeNode state = .ok t') :
    t'.Ordered (putChild children state) := by
  simp only [NarrativeTable.insertNarrativeNode, steps_ok, withParent_ok] at hinsert
  obtain ⟨parent, hparent, hlive, index, hindex, hfresh, -, rfl⟩ := hinsert
  have hloose : t.Loose state.id := fun parent => by rw [rank, hfresh, bind_none]
  have hplaced := h.set_placed hloose ⟨some parent, state.revision, state.value, index, false⟩
    hindex (liveUnder_iff.2 ⟨rfl, rfl⟩)
  intro parent'
  have hp := hplaced parent'
  simp only [putChild, hparent, hlive, h.erase_of_loose hloose, some.injEq, and_true,
    eq_comm (a := parent)]
  exact hp

theorem Ordered.attach (hloose : t.Loose state.id) (hattach : t.attach parent old state = .ok t') :
    t'.Ordered fun parent' =>
      if parent' = parent ∧ state.tombstoned = false then
        Ranking.place state.afterNodeID state.id (children parent')
      else children parent' := by
  unfold NarrativeTable.attach at hattach
  split at hattach
  · next htombstoned =>
    obtain ⟨-, rfl⟩ := withParent_ok.1 hattach
    simp only [htombstoned, Bool.true_eq_false, and_false, if_false]
    exact h.set_loose hloose _ fun parent => by simp [liveUnder]
  · next hlive =>
    simp only [bind_ok, withParent_ok] at hattach
    obtain ⟨index, hindex, -, rfl⟩ := hattach
    simp only [hlive, and_true]
    exact h.set_placed hloose ⟨some parent, state.revision, state.updatedValue old.value, index,
      false⟩ hindex (liveUnder_iff.2 ⟨rfl, rfl⟩)

theorem Ordered.updateNarrativeNode {before : Revision}
    (hupdate : t.updateNarrativeNode before state = .ok t') :
    t'.Ordered (putChild children state) := by
  simp only [NarrativeTable.updateNarrativeNode, steps_ok] at hupdate
  obtain ⟨old, hold, -, ⟨-, hroots⟩, hupdate⟩ := hupdate
  split at hupdate
  · next hparent =>
    simp only [steps_ok] at hupdate
    obtain ⟨-, rfl⟩ := hupdate
    have hroot : old.parentID = none := by simpa [hparent] using hroots
    have hdead : ∀ parent, old.liveUnder parent = false := fun parent => by
      simp [liveUnder, hroot]
    have hloose : t.Loose state.id := loose_of_not_live hold hdead
    have hset := h.set_loose hloose { old with
      revision := state.revision, value := state.updatedValue old.value } hdead
    intro parent
    simp only [putChild, hparent, h.erase_of_loose hloose]
    exact hset parent
  · next parent hparent =>
    have hattached := (h.detach hold).attach (loose_detach hold) hupdate
    intro parent'
    have hp := hattached parent'
    simp only [putChild, hparent, some.injEq, eq_comm (a := parent)]
    exact hp

/-- Putting a stored node with its index puts it in the lists. -/
theorem Ordered.applyNarrativeNode {change : Option EntityRevisionChange}
    (happly : t.applyNarrativeNode change state = .ok t') :
    t'.Ordered (putChild children state) := by
  simp only [NarrativeTable.applyNarrativeNode, bind_ok] at happly
  obtain ⟨_, -, _, -, happly⟩ := happly
  split at happly
  · exact h.insertNarrativeNode happly
  · exact h.updateNarrativeNode happly

end

/-! ## The row of the node -/

end NarrativeTable

/-- The payload that is stored when the node is put over an old row, or none. -/
def NarrativeNodeState.storedValue (state : NarrativeNodeState) (old : Option NarrativeNodeRow) :
    NarrativeNodeValue :=
  match old with
  | none => state.value
  | some row => state.updatedValue row.value

namespace NarrativeTable

variable {t t' : NarrativeTable}

/-- What `applyNarrativeNode` asks for and does, apart from indices. -/
structure PutNode (t : NarrativeTable) (change : EntityRevisionChange) (state : NarrativeNodeState)
    (t' : NarrativeTable) : Prop where
  before : (t.find? state.id).map (·.revision) = change.before
  kind : ∀ old ∈ t.find? state.id, old.value.kind = state.kind
  rooted : ∀ old ∈ t.find? state.id, old.parentID.isSome = state.parentID.isSome
  root : state.parentID = none → (t.find? state.id).isSome ∧ state.tombstoned = false
  parent : ∀ parent ∈ state.parentID, (t'.find? parent).isSome
  rows : ∀ k, t'.unplaced? k = if k = state.id then some {
      parentID := state.parentID, revision := state.revision
      value := state.storedValue (t.find? state.id), orderIndex := 0
      tombstoned := state.tombstoned }
    else t.unplaced? k

variable {state : NarrativeNodeState} {change : EntityRevisionChange}

theorem putNode_of_insert (hbefore : change.before = none)
    (h : t.insertNarrativeNode state = .ok t') :
    t.PutNode change state t' := by
  simp only [insertNarrativeNode, steps_ok, withParent_ok] at h
  obtain ⟨_, hparent, hlive, _, -, hfresh, hstored, rfl⟩ := h
  refine ⟨?_, ?_, ?_, ?_, ?_, fun k => ?_⟩
  · rw [hfresh, hbefore, map_none]
  · simp [hfresh]
  · simp [hfresh]
  · simp [hparent]
  · intro parent' h
    rw [hparent] at h
    exact some.inj h ▸ hstored
  · rw [unplaced?_set, shiftNarrativeSiblings, unplaced?_mapRows, hparent, hlive, hfresh]
    rfl

theorem putNode_of_attach {parent : ID} {old : NarrativeNodeRow}
    (h : t.attach parent old state = .ok t') :
    (t'.find? parent).isSome ∧ ∀ k, t'.unplaced? k = if k = state.id then some {
        parentID := some parent, revision := state.revision, value := state.updatedValue old.value
        orderIndex := 0, tombstoned := state.tombstoned }
      else t.unplaced? k := by
  unfold attach at h
  split at h
  · next htombstoned =>
    obtain ⟨hstored, rfl⟩ := withParent_ok.1 h
    exact ⟨hstored, fun k => unplaced?_set _ _ _⟩
  · simp only [bind_ok, withParent_ok] at h
    obtain ⟨_, -, hstored, rfl⟩ := h
    refine ⟨hstored, fun k => ?_⟩
    rw [unplaced?_set, shiftNarrativeSiblings, unplaced?_mapRows]

section

variable (hroot : ∀ old ∈ t.find? state.id, old.parentID = none → old.tombstoned = false)
include hroot

theorem putNode_of_update {before : Revision}
    (hbefore : change.before = some before) (h : t.updateNarrativeNode before state = .ok t') :
    t.PutNode change state t' := by
  simp only [updateNarrativeNode, steps_ok] at h
  obtain ⟨old, hold, hrevision, ⟨hkind, hrooted⟩, h⟩ := h
  have hlive := hroot old hold
  have hparts : (state.parentID = none → state.tombstoned = false) ∧
      (∀ parent ∈ state.parentID, (t'.find? parent).isSome) ∧
      ∀ k, t'.unplaced? k = if k = state.id then some {
          parentID := state.parentID, revision := state.revision
          value := state.updatedValue old.value, orderIndex := 0, tombstoned := state.tombstoned }
        else t.unplaced? k := by
    split at h
    · next hparent =>
      simp only [steps_ok] at h
      obtain ⟨⟨-, hstate⟩, rfl⟩ := h
      have hnone : old.parentID = none := by simpa [hparent] using hrooted
      refine ⟨fun _ => hstate, by simp [hparent], fun k => ?_⟩
      rw [unplaced?_set, hparent, hstate, ← hnone, ← hlive hnone]
    · next parent hparent =>
      obtain ⟨hstored, hrows⟩ := putNode_of_attach h
      refine ⟨by simp [hparent], by simpa [hparent] using hstored, fun k => ?_⟩
      rw [hrows k, hparent]
      split
      · rfl
      · next hk => exact unplaced?_detach hk
  refine ⟨?_, ?_, ?_, ?_, hparts.2.1, ?_⟩
  · rw [hold, hbefore, map_some, hrevision]
  · simpa [hold] using hkind
  · simpa [hold] using hrooted
  · intro hnone
    exact ⟨by rw [hold]; rfl, hparts.1 hnone⟩
  · rw [hold]
    exact hparts.2.2

theorem putNode_of_apply {change : Option EntityRevisionChange}
    (h : t.applyNarrativeNode change state = .ok t') :
    ∃ c, change = some c ∧ c.key.id = state.id ∧ t.PutNode c state t' := by
  simp only [applyNarrativeNode, steps_ok] at h
  obtain ⟨c, hc, ⟨-, hid, -⟩, h⟩ := h
  refine ⟨c, hc, hid, ?_⟩
  split at h
  · next hbefore => exact putNode_of_insert hbefore h
  · next hbefore => exact putNode_of_update hroot hbefore h

end

/-! ## Reading the order -/

variable {l : Children} {id : ID} {row : NarrativeNodeRow}

/-- The live children of the section, by index. -/
def children (t : NarrativeTable) : Children := fun parent =>
  ((t.rows.filter fun row => row.2.liveUnder parent).insertionSort
    fun a b => a.2.orderIndex ≤ b.2.orderIndex).map Prod.fst

/-- The rows of live children have indices of their own, which go up in a sorted list. -/
theorem pairwise_rank (h : t.Ordered l) {parent : ID} {rows : List (ID × NarrativeNodeRow)}
    (hrows : ∀ row ∈ rows, t.find? row.1 = some row.2 ∧ row.2.liveUnder parent)
    (hnodup : (rows.map Prod.fst).Nodup)
    (hsorted : rows.Pairwise fun a b => a.2.orderIndex ≤ b.2.orderIndex) :
    (rows.map Prod.fst).Pairwise fun a b =>
      ∀ i ∈ t.rank parent a, ∀ j ∈ t.rank parent b, i < j := by
  have hrank : ∀ row ∈ rows, t.rank parent row.1 = some row.2.orderIndex := fun row hrow => by
    rw [rank_of_find? (hrows row hrow).1, if_pos (hrows row hrow).2]
  rw [pairwise_map]
  refine (hsorted.and (pairwise_map.1 hnodup)).imp_of_mem ?_
  rintro a b ha hb ⟨hle, hne⟩ i hi j hj
  obtain rfl := mem_unique (hrank a ha) hi
  obtain rfl := mem_unique (hrank b hb) hj
  refine lt_of_le_of_ne hle fun heq => hne ?_
  have hplace := (h parent _ b.1).2 (hrank b hb)
  rw [← heq, (h parent _ a.1).2 (hrank a ha)] at hplace
  exact some.inj hplace

/-- The list of the children is what the indices say. -/
theorem Ordered.children_eq (h : t.Ordered l) : t.children = l := by
  funext parent
  have hmem : ∀ row ∈ (t.rows.filter fun row => row.2.liveUnder parent).insertionSort
      fun a b => a.2.orderIndex ≤ b.2.orderIndex,
      t.find? row.1 = some row.2 ∧ row.2.liveUnder parent := by
    intro row hrow
    rw [mem_insertionSort, mem_filter] at hrow
    exact ⟨mem_rows.1 hrow.1, hrow.2⟩
  refine (h parent).eq_of_pairwise (fun k => ?_) (pairwise_rank h hmem ?_ ?_)
  · rw [children, List.mem_map]
    constructor
    · rintro ⟨row, hrow, rfl⟩
      obtain ⟨hfind, hlive⟩ := hmem row hrow
      exact ⟨_, rank_eq_some.2 ⟨row.2, hfind, hlive, rfl⟩⟩
    · rintro ⟨n, hn⟩
      obtain ⟨row, hfind, hlive, -⟩ := rank_eq_some.1 hn
      refine ⟨(k, row), ?_, rfl⟩
      rw [mem_insertionSort, mem_filter]
      exact ⟨mem_rows.2 hfind, hlive⟩
  · refine ((perm_insertionSort _ _).map _).nodup_iff.2 ?_
    exact t.rows_nodup.sublist (filter_sublist.map _)
  · have : Std.Total fun a b : ID × NarrativeNodeRow => a.2.orderIndex ≤ b.2.orderIndex :=
      ⟨fun a b => le_total _ _⟩
    exact pairwise_insertionSort _ _

/-- The order in which `loadNarrativeAfter` looks at the siblings before a node. -/
theorem pairwise_descending (rows : List (ID × NarrativeNodeRow)) :
    (rows.insertionSort fun a b => b.2.orderIndex < a.2.orderIndex ∨
      (b.2.orderIndex = a.2.orderIndex ∧ b.1 ≤ a.1)).Pairwise
      fun a b => b.2.orderIndex ≤ a.2.orderIndex := by
  have : Std.Total fun a b : ID × NarrativeNodeRow => b.2.orderIndex < a.2.orderIndex ∨
      (b.2.orderIndex = a.2.orderIndex ∧ b.1 ≤ a.1) := by
    refine ⟨fun a b => ?_⟩
    rcases lt_trichotomy a.2.orderIndex b.2.orderIndex with h | h | h
    · exact .inr (.inl h)
    · exact (le_total b.1 a.1).imp (fun hid => .inr ⟨h.symm, hid⟩) (fun hid => .inr ⟨h, hid⟩)
    · exact .inl (.inl h)
  have : IsTrans (ID × NarrativeNodeRow) fun a b => b.2.orderIndex < a.2.orderIndex ∨
      (b.2.orderIndex = a.2.orderIndex ∧ b.1 ≤ a.1) := by
    refine ⟨fun a b c => ?_⟩
    rintro (hab | ⟨hab, hab'⟩) (hbc | ⟨hbc, hbc'⟩)
    · exact .inl (hbc.trans hab)
    · exact .inl (hbc ▸ hab)
    · exact .inl (hab ▸ hbc)
    · exact .inr ⟨hbc.trans hab, hbc'.trans hab'⟩
  exact (pairwise_insertionSort _ rows).imp fun h => by omega

/-- The sibling that a live node is loaded with is the one before it. -/
theorem loadNarrativeAfter_eq (h : t.Ordered l) {parent : ID} (hrow : t.find? id = some row)
    (hlive : row.liveUnder parent) :
    t.loadNarrativeAfter (some parent) row.orderIndex id = Ranking.predecessor id (l parent) := by
  have hrank : t.rank parent id = some row.orderIndex := by
    rw [rank_of_find? hrow, if_pos hlive]
  set before := t.rows.filter fun r => r.2.liveUnder parent &&
    decide (r.2.orderIndex < row.orderIndex ∨ (r.2.orderIndex = row.orderIndex ∧ r.1 < id))
    with hbefore
  -- Of two live siblings with one index there is only one, so the tie-break never counts.
  have hmem : ∀ r, r ∈ before ↔ t.find? r.1 = some r.2 ∧ r.2.liveUnder parent ∧
      r.2.orderIndex < row.orderIndex := by
    rintro ⟨k, r⟩
    rw [hbefore, mem_filter, mem_rows, Bool.and_eq_true, decide_eq_true_eq]
    refine and_congr_right fun hk => and_congr_right fun hkl => or_iff_left ?_
    rintro ⟨hindex, hlt⟩
    have hkrank : t.rank parent k = some row.orderIndex := rank_eq_some.2 ⟨r, hk, hkl, hindex⟩
    have hsame := (h parent _ k).2 hkrank
    rw [(h parent _ id).2 hrank] at hsame
    exact absurd hlt (some.inj hsame ▸ lt_irrefl _)
  set rows := (before.insertionSort fun a b => b.2.orderIndex < a.2.orderIndex ∨
    (b.2.orderIndex = a.2.orderIndex ∧ b.1 ≤ a.1)).reverse with hrows
  have hperm : rows.Perm before := (reverse_perm _).trans (perm_insertionSort _ _)
  have hsorted : rows.Pairwise fun a b => a.2.orderIndex ≤ b.2.orderIndex :=
    pairwise_reverse.2 (pairwise_descending before)
  have hlist : rows.map Prod.fst = (l parent).take row.orderIndex := by
    refine ((h parent).take row.orderIndex).eq_of_pairwise (fun k => ?_) ?_
    · rw [List.mem_map]
      constructor
      · rintro ⟨r, hr, rfl⟩
        obtain ⟨hfind, hl, hlt⟩ := (hmem r).1 (hperm.mem_iff.1 hr)
        exact ⟨_, filter_eq_some_iff.2 ⟨rank_eq_some.2 ⟨r.2, hfind, hl, rfl⟩, by simpa using hlt⟩⟩
      · rintro ⟨n, hn⟩
        obtain ⟨hn, hlt⟩ := filter_eq_some_iff.1 hn
        obtain ⟨r, hfind, hl, rfl⟩ := rank_eq_some.1 hn
        exact ⟨(k, r), hperm.mem_iff.2 ((hmem (k, r)).2 ⟨hfind, hl, by simpa using hlt⟩), rfl⟩
    · have hstored : ∀ r ∈ rows, t.find? r.1 = some r.2 ∧ r.2.liveUnder parent := fun r hr =>
        ((hmem r).1 (hperm.mem_iff.1 hr)).imp_right And.left
      have hnodup : (rows.map Prod.fst).Nodup :=
        (hperm.map _).nodup_iff.2 (t.rows_nodup.sublist (filter_sublist.map _))
      refine (pairwise_rank h hstored hnodup hsorted).imp fun hab i hi j hj => ?_
      exact hab i (filter_eq_some_iff.1 hi).1 j (filter_eq_some_iff.1 hj).1
  rw [Ranking.predecessor_eq_take (h parent) hrank, ← hlist, hrows, map_reverse,
    getLast?_reverse, head?_map]
  rfl

/-! ## The whole tree -/

theorem unplaced?_eq_none : t.unplaced? id = none ↔ t.find? id = none := by
  rw [unplaced?, map_eq_none_iff]

theorem unplaced?_isSome : (t.unplaced? id).isSome = (t.find? id).isSome := by
  rw [unplaced?, isSome_map]

theorem unplaced?_of_find? (h : t.find? id = some row) :
    t.unplaced? id = some { row with orderIndex := 0 } := by
  rw [unplaced?, h, map_some]

theorem find?_of_unplaced? (h : t.unplaced? id = some row) :
    ∃ index, t.find? id = some { row with orderIndex := index } := by
  simp only [unplaced?, map_eq_some_iff] at h
  obtain ⟨stored, hstored, rfl⟩ := h
  exact ⟨stored.orderIndex, hstored⟩

theorem orderIndex_of_unplaced? (h : t.unplaced? id = some row) : row.orderIndex = 0 := by
  simp only [unplaced?, map_eq_some_iff] at h
  obtain ⟨_, -, rfl⟩ := h
  rfl

/-- The nodes hang together: there is one root, which is live, every other node is below a
    stored one, and the indices of siblings are the places of a list. -/
structure Rooted (t : NarrativeTable) (root : ID) : Prop where
  root_live : ∃ row, t.unplaced? root = some row ∧ row.parentID = none ∧ row.tombstoned = false
  rooted : ∀ {id row}, t.unplaced? id = some row → row.parentID = none → id = root
  parents : ∀ {id row parent}, t.unplaced? id = some row → row.parentID = some parent →
    (t.find? parent).isSome
  ordered : t.Ordered t.children

namespace Rooted

variable {root : ID}

theorem live_of_root (h : t.Rooted root) {id : ID} {row : NarrativeNodeRow}
    (hrow : t.find? id = some row) (hparent : row.parentID = none) : row.tombstoned = false := by
  have hplaced := unplaced?_of_find? hrow
  obtain ⟨_, hroot, -, hlive⟩ := h.root_live
  obtain rfl := h.rooted hplaced hparent
  rw [hplaced] at hroot
  rw [← some.inj hroot] at hlive
  exact hlive

variable {change : Option EntityRevisionChange}

theorem putNode (h : t.Rooted root)
    {state : NarrativeNodeState} (happly : t.applyNarrativeNode change state = .ok t') :
    ∃ c, change = some c ∧ c.key.id = state.id ∧ t.PutNode c state t' :=
  putNode_of_apply (fun _ hold => h.live_of_root hold) happly

theorem applyNarrativeNode (h : t.Rooted root)
    {state : NarrativeNodeState} (happly : t.applyNarrativeNode change state = .ok t') :
    t'.Rooted root ∧ t'.children = putChild t.children state := by
  obtain ⟨c, -, -, hput⟩ := h.putNode happly
  have hordered := h.ordered.applyNarrativeNode happly
  -- A node with a parent keeps having one, and the root has none.
  have hnone : state.parentID = none → state.id = root := by
    intro hparent
    obtain ⟨old, hold⟩ := isSome_iff_exists.1 (hput.root hparent).1
    have hrooted := hput.rooted old hold
    rw [hparent, isSome_none, isSome_eq_false_iff, isNone_iff_eq_none] at hrooted
    exact h.rooted (unplaced?_of_find? hold) hrooted
  have hstored : ∀ k, (t.find? k).isSome → (t'.find? k).isSome := by
    intro k hk
    rw [← unplaced?_isSome] at hk ⊢
    rw [hput.rows k]
    split
    · rfl
    · exact hk
  refine ⟨⟨?_, ?_, ?_, hordered.children_eq ▸ hordered⟩, hordered.children_eq⟩
  · obtain ⟨row, hrow, hparent, hlive⟩ := h.root_live
    by_cases hid : root = state.id
    · have hstate : state.parentID = none := by
        have hfind : t.find? state.id ≠ none := fun hnone => by
          rw [← unplaced?_eq_none, ← hid, hrow] at hnone
          cases hnone
        obtain ⟨old, hold⟩ := ne_none_iff_exists'.1 hfind
        have hold' : row = { old with orderIndex := 0 } :=
          (mem_unique (unplaced?_of_find? hold) (hid ▸ hrow)).symm
        rw [hold'] at hparent
        have hrooted := hput.rooted old hold
        rw [show old.parentID = none from hparent] at hrooted
        exact isNone_iff_eq_none.1 (by simpa using hrooted.symm)
      exact ⟨_, by rw [hput.rows, if_pos hid], hstate, (hput.root hstate).2⟩
    · exact ⟨row, by rw [hput.rows, if_neg hid, hrow], hparent, hlive⟩
  · intro id row hrow hparent
    rw [hput.rows] at hrow
    split at hrow
    · next hid =>
      rw [← some.inj hrow] at hparent
      exact hid.trans (hnone hparent)
    · exact h.rooted hrow hparent
  · intro id row parent hrow hparent
    rw [hput.rows] at hrow
    split at hrow
    · rw [← some.inj hrow] at hparent
      exact hput.parent parent hparent
    · exact hstored parent (h.parents hrow hparent)

/-- An aggregate change of a section advances its revision only. -/
theorem setRevision (h : t.Rooted root) {id : ID} {row : NarrativeNodeRow}
    (hrow : t.find? id = some row) (revision : Revision) :
    Rooted (t.set id { row with revision }) root ∧
      children (t.set id { row with revision }) = t.children := by
  have hplaced := unplaced?_of_find? hrow
  have hordered : Ordered (t.set id { row with revision }) t.children := by
    intro parent
    refine (h.ordered parent).congr fun k => ?_
    rw [rank_set]
    split
    · next hk => rw [hk, rank_of_find? hrow]; rfl
    · rfl
  -- Read back in the old table, a row has the same parent and tombstone.
  have hback : ∀ {k row'}, unplaced? (t.set id { row with revision }) k = some row' →
      ∃ old, t.unplaced? k = some old ∧ old.parentID = row'.parentID := by
    intro k row' hk
    rw [unplaced?_set] at hk
    split at hk
    · next hid => exact ⟨_, hid ▸ hplaced, by rw [← some.inj hk]⟩
    · exact ⟨row', hk, rfl⟩
  refine ⟨⟨?_, ?_, ?_, hordered.children_eq ▸ hordered⟩, hordered.children_eq⟩
  · obtain ⟨rootRow, hroot, hparent, hlive⟩ := h.root_live
    by_cases hid : root = id
    · rw [hid, hplaced] at hroot
      rw [← some.inj hroot] at hparent hlive
      exact ⟨{ row with revision, orderIndex := 0 }, by rw [unplaced?_set, if_pos hid], hparent,
        hlive⟩
    · exact ⟨rootRow, by rw [unplaced?_set, if_neg hid, hroot], hparent, hlive⟩
  · intro k row' hk hparent
    obtain ⟨old, hold, heq⟩ := hback hk
    exact h.rooted hold (heq.trans hparent)
  · intro k row' parent hk hparent
    obtain ⟨old, hold, heq⟩ := hback hk
    rw [find?_set]
    split
    · rfl
    · exact h.parents hold (heq.trans hparent)

end Rooted

end NarrativeTable

end OpenCut
