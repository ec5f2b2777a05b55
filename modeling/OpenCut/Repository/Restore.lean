import OpenCut.Repository.Capture
import OpenCut.Repository.Writes

/-!
# Going back to a version

`RestoreProjectVersion` puts the entities of a version one by one, each through the
projection that edits use. This module says what the loops arrive at
(`restored_of_restoreVersionState`): every node and every other entity of the version is
what it was but for revisions, and what the version does not know is retired.

The order of siblings is the hard part, since nodes that are still to be put stand between
those that were: each is put right behind the last of its siblings (`foldl_putChild`), which
pushes the others back.
-/

namespace OpenCut

open Outcome NarrativeTable List EntityState ProjectVersionState Content Option

/-! ## The changes of a restore -/

theorem Content.load?_node {c : Content} {node : NarrativeNodeState} :
    c.load? ⟨.narrativeNode, node.id⟩ = some (.narrativeNode node) ↔
      c.loadNode? node.id = some node := by
  simp [load?]

theorem Content.load?_entity {c : Content} {key : EntityKey} (h : key.kind ≠ .narrativeNode) :
    c.load? key = c.entities.find? key := by
  rw [load?, if_neg h]

/-- Every loaded entity has its change, from its revision to the next one. -/
def Advances (c : Content) (changes : List EntityRevisionChange) : Prop :=
  ∀ key, (changeIndex changes key).map (fun change => (change.before, change.after)) =
    (c.load? key).map fun s => (some s.revision, s.revision + 1)

section

variable {c : Content} {current target : ProjectVersionState} {changes : List EntityRevisionChange}

section

variable (hcurrent : Captures c current)
  (h : projectVersionRestoreChanges current target = .ok changes)
include hcurrent h

theorem mem_restoreChanges {change : EntityRevisionChange} (hchange : change ∈ changes) :
    ∃ s, c.load? s.key = some s ∧ change.key = s.key ∧ change.before = some s.revision ∧
      change.after = s.revision + 1 := by
  simp only [projectVersionRestoreChanges, steps_ok] at h
  obtain ⟨-, rfl⟩ := h
  rw [mem_insertionSort, mem_append, List.mem_map, List.mem_map] at hchange
  rcases hchange with ⟨node, hnode, rfl⟩ | ⟨s, hs, rfl⟩
  · exact ⟨.narrativeNode node, load?_node.2 (hcurrent.mem_nodes.1 hnode), rfl, rfl, rfl⟩
  · obtain ⟨hfind, hkind⟩ := hcurrent.mem_entities.1 hs
    exact ⟨s, (load?_entity hkind).trans hfind, rfl, rfl, rfl⟩

theorem restoreChanges_of_load? {s : EntityState} (hs : c.load? s.key = some s) :
    ∃ change ∈ changes, change.key = s.key := by
  simp only [projectVersionRestoreChanges, steps_ok] at h
  obtain ⟨-, rfl⟩ := h
  simp only [mem_insertionSort, mem_append, List.mem_map]
  by_cases hkind : s.key.kind = .narrativeNode
  · cases s with
    | narrativeNode node => exact ⟨_, .inl ⟨node, hcurrent.mem_nodes.2 (load?_node.1 hs), rfl⟩, rfl⟩
    | _ => simp [key] at hkind
  · rw [load?_entity hkind] at hs
    exact ⟨_, .inr ⟨s, hcurrent.mem_entities.2 ⟨hs, hkind⟩, rfl⟩, rfl⟩

theorem restoreChanges_nodup : (changes.map (·.key)).Nodup := by
  simp only [projectVersionRestoreChanges, steps_ok] at h
  obtain ⟨-, rfl⟩ := h
  refine ((perm_insertionSort _ _).map _).nodup_iff.2 ?_
  rw [map_append, List.map_map, List.map_map]
  refine nodup_append.2 ⟨?_, hcurrent.entities_nodup, ?_⟩
  · have hnodes := hcurrent.nodes_nodup.map (f := fun id => (⟨.narrativeNode, id⟩ : EntityKey))
      fun a b hab => congrArg EntityKey.id hab
    rwa [List.map_map] at hnodes
  · intro a ha b hb heq
    obtain ⟨_, -, rfl⟩ := mem_map.1 ha
    obtain ⟨s, hs, rfl⟩ := mem_map.1 hb
    exact (hcurrent.mem_entities.1 hs).2 (congrArg EntityKey.kind heq.symm)

theorem advances_of_restoreChanges : Advances c changes := by
  have hnodup : (changes.reverse.map (·.key)).Nodup := by
    rw [map_reverse, nodup_reverse]
    exact restoreChanges_nodup hcurrent h
  intro key
  cases hload : c.load? key with
  | none =>
    cases hchange : changeIndex changes key with
    | none => rfl
    | some =>
      obtain ⟨hmem, rfl⟩ := (Keyed.find?_key hnodup).1 hchange
      obtain ⟨s, hs, hkey, -⟩ := mem_restoreChanges hcurrent h (mem_reverse.1 hmem)
      rw [hkey, hs] at hload
      cases hload
  | some s =>
    obtain rfl := key_of_load? c hload
    obtain ⟨_, hmem, hkey⟩ := restoreChanges_of_load? hcurrent h hload
    obtain ⟨s', hs', hkey', hbefore, hafter⟩ := mem_restoreChanges hcurrent h hmem
    obtain rfl : s' = s := by
      rw [← hkey', hkey, hload] at hs'
      exact (some.inj hs').symm
    rw [changeIndex, (Keyed.find?_key hnodup).2 ⟨mem_reverse.2 hmem, hkey⟩, map_some,
      map_some, hbefore, hafter]

end

end

/-! ## The nodes -/

/-- The row of a node that is put over an old one. -/
def NarrativeNodeState.rowOver (node : NarrativeNodeState) (revision : Revision)
    (old : NarrativeNodeRow) : NarrativeNodeRow where
  parentID := node.parentID
  revision
  value := node.updatedValue old.value
  orderIndex := 0
  tombstoned := node.tombstoned

/-- What putting the nodes makes of the content. -/
structure PutNodes (changes : List EntityRevisionChange) (root : ID)
    (nodes : List NarrativeNodeState) (c c' : Content) : Prop where
  rooted : c'.nodes.Rooted root
  frame : c' = { c with nodes := c'.nodes }
  children : c'.nodes.children = nodes.foldl putChild c.nodes.children
  other : ∀ id ∉ nodes.map (·.id), c'.nodes.unplaced? id = c.nodes.unplaced? id
  put : (nodes.map (·.id)).Nodup → ∀ node ∈ nodes, ∃ change old,
    changeIndex changes ⟨.narrativeNode, node.id⟩ = some change ∧
    c.nodes.unplaced? node.id = some old ∧
    c'.nodes.unplaced? node.id = some (node.rowOver change.after old)

section

variable {changes : List EntityRevisionChange} {root : ID} {c c' : Content}

theorem applyVersionNode_ok {node : NarrativeNodeState} (hrooted : c.nodes.Rooted root)
    (h : c.applyVersionNode changes node = .ok c') :
    ∃ change old, changeIndex changes ⟨.narrativeNode, node.id⟩ = some change ∧
      c.nodes.unplaced? node.id = some old ∧ c'.nodes.Rooted root ∧
      c' = { c with nodes := c'.nodes } ∧ c'.nodes.children = putChild c.nodes.children node ∧
      ∀ id, c'.nodes.unplaced? id =
        if id = node.id then some (node.rowOver change.after old) else c.nodes.unplaced? id := by
  simp only [applyVersionNode, versionChange, steps_ok] at h
  obtain ⟨_, ⟨change, hchange, hbefore, rfl⟩, h⟩ := h
  rcases applyPut_cases h with ⟨_, _, hstate, hnodes, rfl⟩ | ⟨hkind, -⟩
  · obtain rfl := narrativeNode.inj hstate
    obtain ⟨hrooted', hchildren⟩ := hrooted.applyNarrativeNode hnodes
    obtain ⟨_, hchange', -, hput⟩ := hrooted.putNode hnodes
    rw [← mem_unique hchange hchange'] at hput
    rw [← hput.before, isSome_map] at hbefore
    obtain ⟨old, hold⟩ := isSome_iff_exists.1 hbefore
    refine ⟨change, { old with orderIndex := 0 }, hchange,
      unplaced?_of_find? hold, hrooted', rfl, hchildren, fun id => ?_⟩
    rw [hput.rows id, hold]
    rfl
  · exact absurd rfl hkind

theorem putNodes_of_foldlM {nodes : List NarrativeNodeState} (hrooted : c.nodes.Rooted root)
    (h : nodes.foldlM (fun c node => c.applyVersionNode changes node) c = .ok c') :
    PutNodes changes root nodes c c' := by
  refine foldlM_progress (PutNodes changes root · c ·) (fun done node d d' hd h => ?_) ?_ h
  · obtain ⟨change, old, hchange, hold, hrooted', hframe, hchildren, hrows⟩ :=
      applyVersionNode_ok hd.rooted h
    refine ⟨hrooted', ?_, ?_, fun id hid => ?_, fun hnodup n hn => ?_⟩
    · rw [hframe, hd.frame]
    · rw [foldl_append, ← hd.children, hchildren]
      rfl
    · rw [map_append, mem_append, not_or] at hid
      rw [hrows, if_neg fun heq => hid.2 (by simp [heq]), hd.other id hid.1]
    · rw [map_append, nodup_append] at hnodup
      obtain ⟨hdone, -, hfresh⟩ := hnodup
      have hnotin : node.id ∉ done.map (·.id) := fun hmem => hfresh _ hmem node.id (by simp) rfl
      rcases mem_append.1 hn with hn | hn
      · obtain ⟨change', old', hchange', hold', hput⟩ := hd.put hdone n hn
        refine ⟨change', old', hchange', hold', ?_⟩
        have hne : n.id ≠ node.id := fun heq => hnotin (heq ▸ mem_map_of_mem hn)
        rw [hrows, if_neg hne, hput]
      · obtain rfl := mem_singleton.1 hn
        refine ⟨change, old, hchange, (hd.other _ hnotin).symm.trans hold, ?_⟩
        rw [hrows, if_pos rfl]
  · exact ⟨hrooted, rfl, rfl, fun _ _ => rfl, fun _ _ hmem => absurd hmem not_mem_nil⟩

end

/-- What is true of the nodes of a stored version: each is in it once, the live children of
    a section stand after one another, and the project has all of them, with the columns
    that updates do not write. -/
structure RestorableNodes (c : Content) (v : ProjectVersionState) : Prop where
  nodes_nodup : (v.narrativeNodes.map (·.id)).Nodup
  after : ∀ node ∈ v.narrativeNodes, ∀ parent, node.liveUnder parent →
    node.afterNodeID = Ranking.predecessor node.id (v.children parent)
  has_nodes : ∀ node ∈ v.narrativeNodes, c.Has (.narrativeNode node)

/-- What is true of a stored version. -/
structure Restorable (c : Content) (v : ProjectVersionState) : Prop extends
    RestorableNodes c v where
  entities_nodup : (v.entities.map (·.key)).Nodup
  kinds : ∀ s ∈ v.entities, s.key.kind ≠ .narrativeNode
  has_entities : ∀ s ∈ v.entities, c.Has s

section

variable {changes : List EntityRevisionChange} {root : ID} {c c' : Content}
  {current v : ProjectVersionState}

/-- In the order of the version, every node is put behind the last of its siblings. -/
theorem RestorableNodes.after_of_split (hv : RestorableNodes c v)
    {before rest : List NarrativeNodeState}
    {node : NarrativeNodeState} (h : v.narrativeNodes = before ++ node :: rest) {parent : ID}
    (hlive : node.liveUnder parent) :
    node.afterNodeID = ((before.filter (·.liveUnder parent)).map (·.id)).getLast? := by
  have hchildren : v.children parent = (before.filter (·.liveUnder parent)).map (·.id) ++
      node.id :: (rest.filter (·.liveUnder parent)).map (·.id) := by
    rw [ProjectVersionState.children, h, filter_append, filter_cons, if_pos hlive,
      map_append, map_cons]
  have hnotin : node.id ∉ (before.filter (·.liveUnder parent)).map (·.id) := by
    have hnodup := hv.nodes_nodup
    rw [h, map_append, map_cons, nodup_append] at hnodup
    intro hmem
    obtain ⟨n, hn, heq⟩ := mem_map.1 hmem
    exact hnodup.2.2 n.id (mem_map_of_mem (mem_of_mem_filter hn)) node.id (by simp) heq
  rw [hv.after node (by rw [h]; simp) parent hlive, hchildren, Ranking.predecessor_append hnotin]

/-- What a restore makes of the nodes. -/
structure NodesRestored (root : ID) (v : ProjectVersionState) (c c' : Content) : Prop where
  rooted : c'.nodes.Rooted root
  children : c'.nodes.children = v.children
  nodes : ∀ node ∈ v.narrativeNodes, ∃ old, c.nodes.unplaced? node.id = some old ∧
    c'.nodes.unplaced? node.id = some {
      parentID := node.parentID, revision := old.revision + 1, value := node.value
      orderIndex := 0, tombstoned := node.tombstoned }
  absent : ∀ id, v.node? id = none → ∀ old, c.nodes.unplaced? id = some old →
    c'.nodes.unplaced? id = some { old with revision := old.revision + 1, tombstoned := true }
  fresh : ∀ id, c.nodes.unplaced? id = none → c'.nodes.unplaced? id = none

variable {id : ID}

theorem after_of_advances (h : Advances c changes) {change : EntityRevisionChange}
    (hchange : changeIndex changes ⟨.narrativeNode, id⟩ = some change) {old : NarrativeNodeRow}
    (hold : c.nodes.unplaced? id = some old) : change.after = old.revision + 1 := by
  obtain ⟨_, hrow⟩ := find?_of_unplaced? hold
  have hkey := h ⟨.narrativeNode, id⟩
  simp only [hchange, load?, if_true, loadNode?, hrow, map_some, some.injEq, Prod.mk.injEq] at hkey
  exact hkey.2

theorem ProjectVersionState.node?_eq_none :
    v.node? id = none ↔ id ∉ v.narrativeNodes.map (·.id) := by
  simp [node?, find?_eq_none]

/-- The nodes that the version does not know. -/
theorem mem_absent (hcurrent : CapturesNodes c current) :
    id ∈ (current.narrativeNodes.filter fun node => (v.node? node.id).isNone).map (·.id) ↔
      v.node? id = none ∧ ∃ row, c.nodes.find? id = some row := by
  simp only [List.mem_map, mem_filter, isNone_iff_eq_none]
  constructor
  · rintro ⟨_, ⟨hnode, hnone⟩, rfl⟩
    obtain ⟨row, hrow, -⟩ := loadNode?_eq_some.1 (hcurrent.mem_nodes.1 hnode)
    exact ⟨hnone, row, hrow⟩
  · rintro ⟨hnone, row, hrow⟩
    exact ⟨c.nodeState id row,
      ⟨hcurrent.mem_nodes.2 (loadNode?_eq_some.2 ⟨row, hrow, rfl⟩), hnone⟩, rfl⟩

/-- Tombstoned nodes are taken out. -/
theorem children_putTombstoned {children : Children} {nodes : List NarrativeNodeState}
    (hnodes : (nodes.map (·.id)).Nodup) (hchildren : ∀ parent, (children parent).Nodup)
    (hdead : ∀ node ∈ nodes, node.tombstoned) (parent : ID) :
    nodes.foldl putChild children parent =
      (children parent).filter fun id => decide (id ∉ nodes.map (·.id)) := by
  have hnone : ∀ node ∈ nodes, ∀ parent, ¬node.liveUnder parent := fun node hnode parent h => by
    have hlive := (NarrativeNodeState.liveUnder_iff.1 h).2
    rw [hdead node hnode] at hlive
    cases hlive
  rw [foldl_putChild hnodes hchildren (fun before node rest hsplit parent hlive =>
    absurd hlive (hnone node (by rw [hsplit]; simp) parent)) parent,
    filter_eq_nil_iff.2 fun node hnode => hnone node hnode parent]
  rfl

theorem nodesRestored_of_apply (hrooted : c.nodes.Rooted root) (hcurrent : CapturesNodes c current)
    (hchanges : ∀ {id change old}, changeIndex changes ⟨.narrativeNode, id⟩ = some change →
      c.nodes.unplaced? id = some old → change.after = old.revision + 1)
    (hv : RestorableNodes c v) (h : c.applyVersionNarrative current v changes = .ok c') :
    c' = { c with nodes := c'.nodes } ∧ NodesRestored root v c c' := by
  obtain ⟨d, hd, h⟩ := bind_ok.1 h
  set absent := current.narrativeNodes.filter fun node => (v.node? node.id).isNone with habsent
  set retired := absent.map fun node => { node with tombstoned := true } with hretired
  have hd : retired.foldlM (fun c node => c.applyVersionNode changes node) c = .ok d := by
    rwa [hretired, foldlM_map]
  have hids : retired.map (·.id) = absent.map (·.id) := map_map
  have hnodup : (retired.map (·.id)).Nodup := by
    rw [hids]
    exact hcurrent.nodes_nodup.sublist (filter_sublist.map _)
  have hfirst := putNodes_of_foldlM hrooted hd
  have hsecond := putNodes_of_foldlM hfirst.rooted h
  refine ⟨by rw [hsecond.frame, hfirst.frame], hsecond.rooted, ?_, fun node hnode => ?_,
    fun id hid old hold => ?_, fun id hid => ?_⟩
  · -- What is left of the old children is neither absent nor in the version.
    funext parent
    have hleft : (d.nodes.children parent).filter
        (fun id => decide (id ∉ v.narrativeNodes.map (·.id))) = [] := by
      rw [hfirst.children, children_putTombstoned hnodup (fun p => (hrooted.ordered p).nodup)
        (by simp [hretired]), List.filter_filter, filter_eq_nil_iff]
      intro id hid
      obtain ⟨n, hn⟩ := (hrooted.ordered parent).mem_iff.1 hid
      obtain ⟨row, hrow, -⟩ := rank_eq_some.1 hn
      rw [Bool.and_eq_true, decide_eq_true_eq, decide_eq_true_eq, hids]
      rintro ⟨hunknown, hstays⟩
      exact hstays ((mem_absent hcurrent).2 ⟨node?_eq_none.2 hunknown, row, hrow⟩)
    rw [hsecond.children, foldl_putChild hv.nodes_nodup (fun p => (hfirst.rooted.ordered p).nodup)
      (fun _ _ _ hsplit _ hlive => hv.after_of_split hsplit hlive), hleft, append_nil]
    rfl
  · obtain ⟨change, old, hchange, hold, hput⟩ := hsecond.put hv.nodes_nodup node hnode
    have hnotin : node.id ∉ retired.map (·.id) := by
      rw [hids]
      intro hmem
      exact node?_eq_none.1 ((mem_absent hcurrent).1 hmem).1 (mem_map_of_mem hnode)
    rw [hfirst.other _ hnotin] at hold
    obtain ⟨row, hrow, -, hvalue⟩ := hv.has_nodes node hnode
    obtain rfl : { row with orderIndex := 0 } = old := mem_unique (unplaced?_of_find? hrow) hold
    refine ⟨_, hold, ?_⟩
    rw [hput, NarrativeNodeState.rowOver, hchanges hchange hold]
    exact congrArg some (by rw [hvalue])
  · obtain ⟨index, hrow⟩ := find?_of_unplaced? hold
    have hmem : { c.nodeState id { old with orderIndex := index } with tombstoned := true } ∈
        retired := mem_map_of_mem (mem_filter.2
      ⟨hcurrent.mem_nodes.2 (loadNode?_eq_some.2 ⟨_, hrow, rfl⟩), by
        rw [isNone_iff_eq_none]; exact hid⟩)
    obtain ⟨_, _, hchange, hold', hput⟩ := hfirst.put hnodup _ hmem
    obtain rfl := mem_unique hold hold'
    rw [hsecond.other id (node?_eq_none.1 hid)]
    refine hput.trans (congrArg some ?_)
    have hvalue := NarrativeNodeState.updatedValue_self
      { c.nodeState id { old with orderIndex := index } with tombstoned := true }
    have hindex := orderIndex_of_unplaced? hold
    rw [NarrativeNodeState.rowOver, hchanges hchange hold]
    obtain ⟨parentID, revision, value, orderIndex, _⟩ := old
    obtain rfl : orderIndex = 0 := hindex
    exact congrArg (fun value => (⟨parentID, revision + 1, value, 0, true⟩ : NarrativeNodeRow))
      hvalue
  · have hunknown : id ∉ v.narrativeNodes.map (·.id) := by
      intro hmem
      obtain ⟨node, hnode, rfl⟩ := mem_map.1 hmem
      obtain ⟨row, hrow, -⟩ := hv.has_nodes node hnode
      rw [unplaced?_of_find? hrow] at hid
      cases hid
    have hstays : id ∉ retired.map (·.id) := by
      rw [hids]
      intro hmem
      obtain ⟨-, row, hrow⟩ := (mem_absent hcurrent).1 hmem
      rw [unplaced?_of_find? hrow] at hid
      cases hid
    rw [hsecond.other id hunknown, hfirst.other id hstays, hid]

end

/-! ## The other entities -/

/-- The target is at the revision that the project has. -/
def AlignmentTarget.CurrentIn (c : Content) : AlignmentTarget → Prop
  | .caption id revision _ => c.revision? ⟨.caption, id⟩ = some revision
  | .clip id revision _ => c.revision? ⟨.clip, id⟩ = some revision
  | .timeline revision _ => c.sequenceRevision = revision

/-- The alignment is at the revisions that the project has. -/
def AlignmentState.CurrentIn (c : Content) (s : AlignmentState) : Prop :=
  c.revision? ⟨.narrativeNode, s.narrativeNodeID⟩ = some s.narrativeNodeRevision ∧
    ∀ target ∈ s.targets, target.CurrentIn c

section

variable {changes : List EntityRevisionChange} {c c' : Content} {current v : ProjectVersionState}
  {sequenceRevision : Revision}

theorem unrevised_restampTarget {target target' : AlignmentTarget}
    (h : restampTarget changes sequenceRevision target = .ok target') :
    target'.unrevised = target.unrevised := by
  cases target with
  | timeline =>
    obtain rfl := pure_ok.1 h
    rfl
  | _ =>
    simp only [restampTarget, steps_ok] at h
    obtain ⟨_, -, rfl⟩ := h
    rfl

theorem restampAlignment_ok {s s' : AlignmentState}
    (h : restampAlignment changes sequenceRevision s = .ok s') :
    (EntityState.alignment s').unrevised = (EntityState.alignment s).unrevised ∧
      s'.id = s.id ∧ s'.revision = s.revision := by
  unfold restampAlignment at h
  split at h
  · simp only [steps_ok] at h
    obtain ⟨_, htargets, rfl⟩ := h
    refine ⟨?_, rfl, rfl⟩
    simp only [unrevised, mapM_map (fun _ _ => unrevised_restampTarget) htargets]
  · obtain rfl := pure_ok.1 h
    exact ⟨rfl, rfl, rfl⟩

/-- What a restore makes of an entity, apart from revisions. -/
def ProjectVersionState.restored (v : ProjectVersionState) (before : EntityState) : EntityState :=
  (v.entity? before.key).getD before.outside

theorem ProjectVersionState.key_restored (v : ProjectVersionState) (before : EntityState) :
    (v.restored before).key = before.key := by
  rw [restored]
  cases h : v.entity? before.key with
  | none => cases before <;> rfl
  | some s => simpa using find?_some h

theorem restoredEntity_ok {before value : EntityState}
    (h : restoredEntity changes sequenceRevision v before = .ok value) :
    value.key = before.key ∧ value.unrevised = (v.restored before).unrevised ∧
      ∃ change, changeIndex changes before.key = some change ∧ change.before.isSome ∧
        value.revision = change.after := by
  simp only [restoredEntity, versionChange, steps_ok] at h
  obtain ⟨_, ⟨change, hchange, hbefore, rfl⟩, h⟩ := h
  have hkey := v.key_restored before
  rw [← restored] at h
  split at h
  · next s hs =>
    simp only [steps_ok] at h
    obtain ⟨s', hs', rfl⟩ := h
    obtain ⟨hsame, hid, hrevision⟩ := restampAlignment_ok hs'
    rw [hs] at hkey ⊢
    refine ⟨?_, hsame, change, hchange, hbefore, hrevision⟩
    rw [← hkey]
    exact congrArg (EntityKey.mk .alignment) hid
  · next s hs =>
    obtain rfl := pure_ok.1 h
    refine ⟨(key_withRevision _ _).trans hkey, unrevised_withRevision _ _,
      change, hchange, hbefore, revision_withRevision _ _⟩

/-- The target is at the revision after the change of what it refers to. -/
def AlignmentTarget.Restamped (changes : List EntityRevisionChange) (sequenceRevision : Revision) :
    AlignmentTarget → Prop
  | .caption id revision _ => ∃ change, changeIndex changes ⟨.caption, id⟩ = some change ∧
    revision = change.after
  | .clip id revision _ => ∃ change, changeIndex changes ⟨.clip, id⟩ = some change ∧
    revision = change.after
  | .timeline revision _ => revision = sequenceRevision + 1

theorem restamped_restampTarget {target target' : AlignmentTarget}
    (h : restampTarget changes sequenceRevision target = .ok target') :
    target'.Restamped changes sequenceRevision := by
  cases target with
  | timeline =>
    obtain rfl := pure_ok.1 h
    rfl
  | _ =>
    simp only [restampTarget, versionChange, steps_ok] at h
    obtain ⟨_, ⟨_, hchange, _, -, rfl⟩, rfl⟩ := h
    exact ⟨_, hchange, rfl⟩

/-- An exact alignment is put at the revisions after the changes. -/
theorem restamped_restoredEntity {before : EntityState} {s : AlignmentState}
    (h : restoredEntity changes sequenceRevision v before = .ok (.alignment s))
    (hexact : s.status = .exact) :
    (∀ change, changeIndex changes ⟨.narrativeNode, s.narrativeNodeID⟩ = some change →
      s.narrativeNodeRevision = change.after) ∧
    ∀ target ∈ s.targets, target.Restamped changes sequenceRevision := by
  simp only [restoredEntity, bind_ok] at h
  obtain ⟨change, -, h⟩ := h
  split at h
  · next old _ =>
    simp only [steps_ok, alignment.injEq] at h
    obtain ⟨_, h, rfl⟩ := h
    unfold restampAlignment at h
    split at h
    · simp only [steps_ok] at h
      obtain ⟨_, htargets, rfl⟩ := h
      refine ⟨fun change hchange => ?_, fun target htarget => ?_⟩
      · dsimp only at hchange ⊢
        rw [hchange]
        rfl
      · obtain ⟨old, -, hold⟩ := mapM_mem htargets htarget
        exact restamped_restampTarget hold
    · next hnot =>
      obtain rfl := pure_ok.1 h
      exact absurd hexact hnot
  · next old hold =>
    have hvalue := pure_ok.1 h
    cases hs : (v.entity? before.key).getD before.outside with
    | alignment s => exact absurd hs (hold s)
    | _ => rw [hs] at hvalue; cases hvalue

/-- The entities of the kinds are at what the restore makes of them, the others are left. -/
structure EntitiesRestored (changes : List EntityRevisionChange)
    (current v : ProjectVersionState) (kinds : List EditEntityKind) (c c' : Content) : Prop where
  frame : c' = { c with nodes := c'.nodes, entities := c'.entities }
  stored : ∀ id, (c'.nodes.find? id).isSome = (c.nodes.find? id).isSome
  other : ∀ key, (key ∈ current.entities.map (·.key) → key.kind ∉ kinds) →
    c'.entities.find? key = c.entities.find? key
  done : ∀ s ∈ current.entities, s.key.kind ∈ kinds → ∃ value,
    restoredEntity changes current.sequenceRevision v s = .ok value ∧
    c'.entities.find? s.key = some (EntityState.storedOver (c.entities.find? s.key) value) ∧
    ∀ a, value = .alignment a → (c.nodes.find? a.narrativeNodeID).isSome

theorem EntitiesRestored.trans {kinds kinds' : List EditEntityKind} {d : Content}
    (h : EntitiesRestored changes current v kinds c d)
    (h' : EntitiesRestored changes current v kinds' d c')
    (hdisjoint : ∀ kind ∈ kinds, kind ∉ kinds') :
    EntitiesRestored changes current v (kinds ++ kinds') c c' where
  frame := by rw [h'.frame, h.frame]
  stored id := (h'.stored id).trans (h.stored id)
  other key hkey := by
    simp only [mem_append, not_or] at hkey
    rw [h'.other key fun hmem => (hkey hmem).2, h.other key fun hmem => (hkey hmem).1]
  done s hs hkind := by
    rcases mem_append.1 hkind with hkind | hkind
    · obtain ⟨value, hvalue, hfind, hnode⟩ := h.done s hs hkind
      exact ⟨value, hvalue, (h'.other _ fun _ => hdisjoint _ hkind).trans hfind, hnode⟩
    · obtain ⟨value, hvalue, hfind, hnode⟩ := h'.done s hs hkind
      rw [h.other _ fun _ hmem => hdisjoint _ hmem hkind] at hfind
      exact ⟨value, hvalue, hfind, fun a ha => (h.stored _).symm.trans (hnode a ha)⟩

/-- The entities that were put so far, and the others. -/
structure PutEntities (changes : List EntityRevisionChange) (current v : ProjectVersionState)
    (entities : List EntityState) (c c' : Content) : Prop where
  frame : c' = { c with entities := c'.entities }
  other : ∀ key ∉ entities.map (·.key), c'.entities.find? key = c.entities.find? key
  put : (entities.map (·.key)).Nodup → ∀ s ∈ entities, ∃ value,
    restoredEntity changes current.sequenceRevision v s = .ok value ∧
    c'.entities.find? s.key = some (EntityState.storedOver (c.entities.find? s.key) value) ∧
    ∀ a, value = .alignment a → (c.nodes.find? a.narrativeNodeID).isSome

theorem putEntities_of_foldlM {entities : List EntityState}
    (hkinds : ∀ s ∈ entities, s.key.kind ≠ .narrativeNode)
    (h : entities.foldlM (fun c before => do
      let value ← restoredEntity changes current.sequenceRevision v before
      c.applyPut changes value) c = .ok c') :
    PutEntities changes current v entities c c' := by
  suffices hgen : (∀ s ∈ entities, s.key.kind ≠ .narrativeNode) →
      PutEntities changes current v entities c c' from hgen hkinds
  refine foldlM_progress (fun done d => (∀ s ∈ done, s.key.kind ≠ .narrativeNode) →
    PutEntities changes current v done c d) (fun done before d d' hd h hkinds => ?_) ?_ h
  · have hd := hd fun s hs => hkinds s (mem_append_left _ hs)
    obtain ⟨value, hvalue, h⟩ := bind_ok.1 h
    obtain ⟨hkey, -⟩ := restoredEntity_ok hvalue
    rcases applyPut_cases h with ⟨_, _, rfl, -⟩ | ⟨-, -, hnode, rfl⟩
    · exact absurd (congrArg EntityKey.kind hkey.symm) (hkinds before (by simp))
    · refine ⟨?_, fun key hkey' => ?_, fun hnodup s hs => ?_⟩
      · rw [hd.frame]
      · rw [map_append, mem_append, not_or] at hkey'
        have hne : key ≠ (storedOver (d.entities.find? value.key) value).key := by
          rw [key_storedOver, hkey]
          exact fun heq => hkey'.2 (by simp [heq])
        exact (EntityTable.find?_put_ne _ hne).trans (hd.other key hkey'.1)
      · rw [map_append, nodup_append] at hnodup
        obtain ⟨hdone, -, hfresh⟩ := hnodup
        have hnotin : before.key ∉ done.map (·.key) := fun hmem =>
          hfresh _ hmem before.key (by simp) rfl
        rcases mem_append.1 hs with hs | hs
        · obtain ⟨value', hvalue', hfind, hnode'⟩ := hd.put hdone s hs
          refine ⟨value', hvalue', (EntityTable.find?_put_ne _ ?_).trans hfind, hnode'⟩
          rw [key_storedOver, hkey]
          exact fun heq => hnotin (heq ▸ mem_map_of_mem hs)
        · obtain rfl := mem_singleton.1 hs
          refine ⟨value, hvalue, ?_, fun a ha => ?_⟩
          · rw [← hd.other s.key hnotin, ← hkey]
            have hself := EntityTable.find?_put_self d.entities
              (storedOver (d.entities.find? value.key) value)
            rwa [key_storedOver] at hself
          · have hstored := hnode a ha
            rwa [hd.frame] at hstored
  · exact fun _ => ⟨rfl, fun _ _ => rfl, fun _ _ hmem => absurd hmem not_mem_nil⟩

theorem entitiesRestored_of_apply {kind : EditEntityKind} (hkind : kind ≠ .narrativeNode)
    (hcurrent : (current.entities.map (·.key)).Nodup)
    (h : c.applyVersionEntities current v changes kind = .ok c') :
    c'.nodes = c.nodes ∧ EntitiesRestored changes current v [kind] c c' := by
  have hof : ∀ s ∈ current.entities.filter fun s => s.key.kind = kind, s.key.kind = kind :=
    fun s hs => of_decide_eq_true (mem_filter.1 hs).2
  have hput := putEntities_of_foldlM (fun s hs => (hof s hs).symm ▸ hkind) h
  have hnodup := hcurrent.sublist ((filter_sublist (p := fun s => s.key.kind = kind)).map _)
  refine ⟨by rw [hput.frame], ?_, fun id => ?_,
    fun key hkey => hput.other key fun hmem => ?_, fun s hs hmem => hput.put hnodup s ?_⟩
  · rw [hput.frame]
  · rw [hput.frame]
  · obtain ⟨s, hs, rfl⟩ := mem_map.1 hmem
    exact hkey (mem_map_of_mem (mem_of_mem_filter hs)) (mem_singleton.2 (hof s hs))
  · exact mem_filter.2 ⟨hs, decide_eq_true (mem_singleton.1 hmem)⟩

theorem entitiesRestored_of_nodes {root : ID} (hframe : c' = { c with nodes := c'.nodes })
    (h : NodesRestored root v c c') : EntitiesRestored changes current v [] c c' where
  frame := by rw [hframe]
  stored id := by
    rw [← unplaced?_isSome, ← unplaced?_isSome]
    cases hold : c.nodes.unplaced? id with
    | none => rw [h.fresh id hold]
    | some old =>
      cases hnode : v.node? id with
      | none => rw [h.absent id hnode old hold]; rfl
      | some node =>
        obtain rfl : node.id = id := by simpa using find?_some hnode
        obtain ⟨_, -, hput⟩ := h.nodes node (mem_of_find?_eq_some hnode)
        rw [hput]
        rfl
  other key _ := by rw [hframe]
  done s _ hmem := absurd hmem not_mem_nil

/-- The content that a restore arrives at. -/
theorem restored_of_restoreVersionState {root : ID} {revision : Revision}
    (hrooted : c.nodes.Rooted root) (hv : Restorable c v)
    (h : c.restoreVersionState v revision = .ok c') :
    ∃ current changes, Captures c current ∧ Advances c changes ∧ NodesRestored root v c c' ∧
      EntitiesRestored changes current v
        [.asset, .transcriptCorrection, .linkGroup, .clip, .caption, .alignment] c c' := by
  simp only [restoreVersionState, bind_ok] at h
  obtain ⟨current, hload, _, -, changes, hchanges, _, h₁, c₂, h₂, c₃, h₃, _, h₄, _, h₅, _, h₆,
    h₇⟩ := h
  have hcurrent := captures_of_load hload
  have hadvances := advances_of_restoreChanges hcurrent hchanges
  have hnodup := hcurrent.entities_nodup
  obtain ⟨hnodes₁, hassets⟩ := entitiesRestored_of_apply (by decide) hnodup h₁
  obtain ⟨hnodes₂, hcorrections⟩ := entitiesRestored_of_apply (by decide) hnodup h₂
  have hc₂ : c₂ = { c with entities := c₂.entities } := by
    have hframe := (hassets.trans hcorrections (by decide)).frame
    rwa [hnodes₂, hnodes₁] at hframe
  obtain ⟨hframe₃, hnodes⟩ := nodesRestored_of_apply (c := c₂) (by rw [hc₂]; exact hrooted)
    (by rw [hc₂]; exact ⟨hcurrent.mem_nodes, hcurrent.nodes_nodup⟩)
    (by rw [hc₂]; exact fun hchange hold => after_of_advances hadvances hchange hold)
    (by rw [hc₂]; exact ⟨hv.nodes_nodup, hv.after, hv.has_nodes⟩) h₃
  obtain ⟨hnodes₄, hgroups⟩ := entitiesRestored_of_apply (by decide) hnodup h₄
  obtain ⟨hnodes₅, hclips⟩ := entitiesRestored_of_apply (by decide) hnodup h₅
  obtain ⟨hnodes₆, hcaptions⟩ := entitiesRestored_of_apply (by decide) hnodup h₆
  obtain ⟨hnodes₇, halignments⟩ := entitiesRestored_of_apply (by decide) hnodup h₇
  have hlast : c'.nodes = c₃.nodes := by rw [hnodes₇, hnodes₆, hnodes₅, hnodes₄]
  have hfirst : c₂.nodes = c.nodes := by rw [hnodes₂, hnodes₁]
  refine ⟨current, changes, hcurrent, hadvances, ?_, ?_⟩
  · obtain ⟨hrooted', hchildren, hput, habsent, hfresh⟩ := hnodes
    rw [← hlast] at hrooted' hchildren hput habsent hfresh
    rw [hfirst] at hput habsent hfresh
    exact ⟨hrooted', hchildren, hput, habsent, hfresh⟩
  · exact (((((hassets.trans hcorrections (by decide)).trans
      (entitiesRestored_of_nodes hframe₃ hnodes) (by decide)).trans hgroups (by decide)).trans
      hclips (by decide)).trans hcaptions (by decide)).trans halignments (by decide)

end

end OpenCut
