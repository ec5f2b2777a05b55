import OpenCut.Lib.Keyed
import OpenCut.Repository.Siblings
import OpenCut.Repository.Versions

/-!
# What a version captures

`loadProjectVersionState` reads every node and every other entity of the project once, so
that the captured state can be searched as the project is read (`Captures`), and lists the
children of a section in their order (`children_of_load`). It depends on what the
tables hold, not on how they hold it (`loadProjectVersionState_congr`).
-/

namespace OpenCut

open Outcome List NarrativeTable

variable {revision : Revision} {c : Content} {v : ProjectVersionState}

theorem loadProjectVersionState_ok : loadProjectVersionState revision c = .ok v ↔
      (∀ row ∈ c.nodes.rows.map Prod.snd, row.value.kind = .section →
        ∀ parent ∈ row.parentID, ∃ above ∈ c.nodes.find? parent, above.value.kind = .section) ∧
      v = {
        projectRevision := revision, documentID := c.documentID
        documentRevision := c.documentRevision, sequenceID := c.sequenceID
        sequenceRevision := c.sequenceRevision, tracks := loadProjectVersionTracks c
        narrativeNodes := (c.nodes.rows.insertionSort narrativeOrder).filterMap
          fun (id, _) => c.loadNode? id
        entities := versionKinds.flatMap (loadProjectVersionEntities c) } := by
  simp only [loadProjectVersionState, loadProjectVersionNarrative, steps_ok]
  constructor
  · rintro ⟨_, ⟨hsections, rfl⟩, rfl⟩
    exact ⟨hsections, rfl⟩
  · rintro ⟨hsections, rfl⟩
    exact ⟨_, ⟨hsections, rfl⟩, rfl⟩

/-! ## The entities -/

variable (t : EntityTable)

theorem EntityTable.states_nodup : (t.states.map (·.key)).Nodup := by
  have hkeys : t.states.map (·.key) = t.table.rows.map Prod.fst := by
    rw [states, map_map]
    refine map_congr_left fun row hrow => ?_
    exact t.keyed (Table.mem_rows.1 hrow)
  rw [hkeys]
  exact t.table.rows_nodup

/-- The entities of one kind have identities of their own. -/
theorem EntityTable.states_of_kind_nodup (kind : EditEntityKind) :
    ((t.states.filter fun s => s.key.kind = kind).map (·.key.id)).Nodup := by
  have hkeys : ((t.states.filter fun s => s.key.kind = kind).map (·.key)).Nodup :=
    t.states_nodup.sublist (filter_sublist.map _)
  have hids : ∀ a ∈ t.states.filter fun s => s.key.kind = kind,
      ∀ b ∈ t.states.filter fun s => s.key.kind = kind, a.key.id = b.key.id → a = b := by
    intro a ha b hb hid
    have hkind : a.key.kind = b.key.kind := by
      rw [of_decide_eq_true (mem_filter.1 ha).2, of_decide_eq_true (mem_filter.1 hb).2]
    exact inj_on_of_nodup_map hkeys ha hb (EntityKey.ext hkind hid)
  exact (nodup_map_iff_inj_on (List.Nodup.of_map _ hkeys)).2 hids

/-- A capture reads the entities through `find?`. -/
theorem loadProjectVersionState_congr {entities : EntityTable}
    (h : ∀ key, c.entities.find? key = entities.find? key) :
    loadProjectVersionState revision { c with entities } = loadProjectVersionState revision c := by
  have hentities : ∀ kind, loadProjectVersionEntities { c with entities } kind =
      loadProjectVersionEntities c kind :=
    fun kind => (Keyed.insertionSort_key (((Table.rows_perm h).map _).filter _)
      (c.entities.states_of_kind_nodup kind)).symm
  unfold loadProjectVersionState
  rw [funext hentities]
  rfl

theorem mem_loadProjectVersionEntities {kind : EditEntityKind} {s : EntityState} :
    s ∈ loadProjectVersionEntities c kind ↔ c.entities.find? s.key = some s ∧
      s.key.kind = kind := by
  rw [loadProjectVersionEntities, mem_insertionSort, mem_filter, EntityTable.mem_states,
    decide_eq_true_eq]

/-- Every entity that is not a node is of one of the kinds of a version. -/
theorem mem_versionKinds (s : EntityState) :
    s.key.kind ∈ versionKinds ↔ s.key.kind ≠ .narrativeNode := by
  cases s <;> simp [EntityState.key, versionKinds]

/-! ## The nodes -/

theorem narrativeOrder_total (a b : ID × NarrativeNodeRow) :
    narrativeOrder a b ∨ narrativeOrder b a := by
  obtain ⟨i, p, _, _, n, _⟩ := a
  obtain ⟨j, q, _, _, m, _⟩ := b
  cases p <;> cases q <;> simp only [narrativeOrder, or_true, true_or] <;> unfold ID at * <;> omega

theorem narrativeOrder_trans {a b c : ID × NarrativeNodeRow} (h : narrativeOrder a b)
    (h' : narrativeOrder b c) : narrativeOrder a c := by
  obtain ⟨i, p, _, _, n, _⟩ := a
  obtain ⟨j, q, _, _, m, _⟩ := b
  obtain ⟨k, r, _, _, l, _⟩ := c
  cases p <;> cases q <;> cases r <;> simp only [narrativeOrder] at h h' ⊢ <;>
    unfold ID at * <;> omega

theorem pairwise_narrativeOrder (rows : List (ID × NarrativeNodeRow)) :
    (rows.insertionSort narrativeOrder).Pairwise narrativeOrder := by
  have : Std.Total narrativeOrder := ⟨narrativeOrder_total⟩
  have : IsTrans _ narrativeOrder := ⟨fun _ _ _ => narrativeOrder_trans⟩
  exact pairwise_insertionSort _ rows

/-- Among the children of one section the order is that of the indices. -/
theorem orderIndex_le_of_narrativeOrder {a b : ID × NarrativeNodeRow} {parent : ID}
    (h : narrativeOrder a b) (ha : a.2.liveUnder parent) (hb : b.2.liveUnder parent) :
    a.2.orderIndex ≤ b.2.orderIndex := by
  rw [liveUnder_iff] at ha hb
  simp only [narrativeOrder, ha.1, hb.1, lt_self_iff_false, false_or, true_and] at h
  rcases h with h | h
  · exact h.le
  · exact h.1.le

/-- The live children of every section, in the order of the version. -/
def ProjectVersionState.children (v : ProjectVersionState) : Children := fun parent =>
  (v.narrativeNodes.filter (·.liveUnder parent)).map (·.id)

namespace Content

variable {c : Content}

theorem loadNode?_eq_some {id : ID} {node : NarrativeNodeState} :
    c.loadNode? id = some node ↔ ∃ row, c.nodes.find? id = some row ∧ c.nodeState id row = node :=
  Option.map_eq_some_iff

/-- The rows of the table, loaded. -/
theorem filterMap_loadNode? {rows : List (ID × NarrativeNodeRow)}
    (h : ∀ row ∈ rows, c.nodes.find? row.1 = some row.2) :
    (rows.filterMap fun (id, _) => c.loadNode? id) =
      rows.map fun (id, row) => c.nodeState id row := by
  rw [← filterMap_eq_map]
  refine filterMap_congr fun row hrow => ?_
  exact loadNode?_eq_some.2 ⟨row.2, h row hrow, rfl⟩

end Content

/-! ## Searching a version -/

/-- The version holds the nodes of the content. -/
structure CapturesNodes (c : Content) (v : ProjectVersionState) : Prop where
  mem_nodes : ∀ {node}, node ∈ v.narrativeNodes ↔ c.loadNode? node.id = some node
  nodes_nodup : (v.narrativeNodes.map (·.id)).Nodup

/-- The version holds what the content holds. -/
structure Captures (c : Content) (v : ProjectVersionState) : Prop extends CapturesNodes c v where
  mem_entities : ∀ {s}, s ∈ v.entities ↔
    c.entities.find? s.key = some s ∧ s.key.kind ≠ .narrativeNode
  entities_nodup : (v.entities.map (·.key)).Nodup
  sequenceRevision : v.sequenceRevision = c.sequenceRevision

theorem entities_nodup (c : Content) :
    ((versionKinds.flatMap (loadProjectVersionEntities c)).map (·.key)).Nodup := by
  rw [map_flatMap, nodup_flatMap]
  constructor
  · intro kind _
    have hperm := (perm_insertionSort (fun a b : EntityState => a.key.id ≤ b.key.id)
      (c.entities.states.filter fun s => s.key.kind = kind)).map (·.key)
    exact hperm.nodup_iff.2 (c.entities.states_nodup.sublist (filter_sublist.map _))
  · have hkinds : versionKinds.Pairwise (· ≠ ·) := by decide
    refine hkinds.imp fun {kind kind'} hne key hkey hkey' => hne ?_
    simp only [mem_map, mem_loadProjectVersionEntities] at hkey hkey'
    obtain ⟨s, ⟨-, rfl⟩, rfl⟩ := hkey
    obtain ⟨s', ⟨-, rfl⟩, heq⟩ := hkey'
    rw [heq]

theorem find?_of_mem_sorted {row : ID × NarrativeNodeRow}
    (h : row ∈ c.nodes.rows.insertionSort narrativeOrder) : c.nodes.find? row.1 = some row.2 :=
  Table.mem_rows.1 ((mem_insertionSort _).1 h)

theorem sorted_nodup (c : Content) :
    ((c.nodes.rows.insertionSort narrativeOrder).map Prod.fst).Nodup :=
  ((perm_insertionSort _ _).map _).nodup_iff.2 c.nodes.rows_nodup

theorem captures_of_load (h : loadProjectVersionState revision c = .ok v) : Captures c v := by
  obtain ⟨-, rfl⟩ := loadProjectVersionState_ok.1 h
  refine ⟨⟨fun {node} => ?_, ?_⟩, fun {s} => ?_, entities_nodup c, rfl⟩
  · rw [mem_filterMap]
    constructor
    · rintro ⟨⟨id, row⟩, hrow, hnode⟩
      obtain ⟨_, -, rfl⟩ := Content.loadNode?_eq_some.1 hnode
      exact hnode
    · intro hnode
      obtain ⟨row, hrow, -⟩ := Content.loadNode?_eq_some.1 hnode
      exact ⟨(node.id, row), (mem_insertionSort _).2 (Table.mem_rows.2 hrow), hnode⟩
  · dsimp only
    rw [Content.filterMap_loadNode? fun _ => find?_of_mem_sorted, map_map]
    exact sorted_nodup c
  · rw [mem_flatMap]
    simp only [mem_loadProjectVersionEntities]
    constructor
    · rintro ⟨_, hkind, hfind, rfl⟩
      exact ⟨hfind, (mem_versionKinds s).1 hkind⟩
    · rintro ⟨hfind, hkind⟩
      exact ⟨_, (mem_versionKinds s).2 hkind, hfind, rfl⟩

namespace Captures

variable {c : Content} {v : ProjectVersionState}

theorem node?_eq (h : Captures c v) (id : ID) : v.node? id = c.loadNode? id := by
  refine Option.ext fun node => ?_
  rw [ProjectVersionState.node?, Keyed.find?_key h.nodes_nodup, h.mem_nodes]
  constructor
  · rintro ⟨hnode, rfl⟩
    exact hnode
  · intro hnode
    obtain ⟨row, -, rfl⟩ := Content.loadNode?_eq_some.1 hnode
    exact ⟨hnode, rfl⟩

theorem entity?_eq (h : Captures c v) {key : EntityKey} (hkey : key.kind ≠ .narrativeNode) :
    v.entity? key = c.entities.find? key := by
  refine Option.ext fun s => ?_
  rw [ProjectVersionState.entity?, Keyed.find?_key h.entities_nodup, h.mem_entities]
  constructor
  · rintro ⟨⟨hfind, -⟩, rfl⟩
    exact hfind
  · intro hfind
    obtain rfl := EntityTable.key_of_find? hfind
    exact ⟨⟨hfind, hkey⟩, rfl⟩

end Captures

/-- The version lists the children as the content orders them. -/
theorem children_of_load {root : ID} (hrooted : c.nodes.Rooted root)
    (h : loadProjectVersionState revision c = .ok v) :
    v.children = c.nodes.children := by
  obtain ⟨-, hv⟩ := loadProjectVersionState_ok.1 h
  funext parent
  set rows := (c.nodes.rows.insertionSort narrativeOrder).filter fun row => row.2.liveUnder parent
    with hrows
  have hids : v.children parent = rows.map Prod.fst := by
    simp only [hv, ProjectVersionState.children, Content.filterMap_loadNode? fun _ =>
      find?_of_mem_sorted, filter_map, map_map]
    rfl
  have hmem : ∀ row ∈ rows, c.nodes.find? row.1 = some row.2 ∧ row.2.liveUnder parent :=
    fun row hrow => (mem_filter.1 hrow).imp_left find?_of_mem_sorted
  rw [hids]
  refine (hrooted.ordered parent).eq_of_pairwise (fun id => ?_)
    (pairwise_rank hrooted.ordered hmem ?_ ?_)
  · rw [mem_map]
    constructor
    · rintro ⟨row, hrow, rfl⟩
      obtain ⟨hfind, hlive⟩ := hmem row hrow
      exact ⟨_, rank_eq_some.2 ⟨row.2, hfind, hlive, rfl⟩⟩
    · rintro ⟨n, hn⟩
      obtain ⟨row, hfind, hlive, -⟩ := rank_eq_some.1 hn
      exact ⟨(id, row), mem_filter.2 ⟨(mem_insertionSort _).2 (Table.mem_rows.2 hfind), hlive⟩, rfl⟩
  · exact (sorted_nodup c).sublist (filter_sublist.map _)
  · refine ((pairwise_narrativeOrder _).sublist filter_sublist).imp_of_mem ?_
    exact fun ha hb hab => orderIndex_le_of_narrativeOrder hab (hmem _ ha).2 (hmem _ hb).2

/-- A live node of the version stands after the one before it. -/
theorem after_of_load {root : ID} (hrooted : c.nodes.Rooted root)
    (h : loadProjectVersionState revision c = .ok v) {node : NarrativeNodeState}
    (hnode : node ∈ v.narrativeNodes) {parent : ID} (hlive : node.liveUnder parent) :
    node.afterNodeID = Ranking.predecessor node.id (v.children parent) := by
  obtain ⟨row, hrow, hstate⟩ := Content.loadNode?_eq_some.1 ((captures_of_load h).mem_nodes.1 hnode)
  rw [children_of_load hrooted h]
  have hunder : row.liveUnder parent := by
    rw [← hstate] at hlive
    exact hlive
  rw [← loadNarrativeAfter_eq hrooted.ordered hrow hunder, ← (liveUnder_iff.1 hunder).1]
  exact (congrArg NarrativeNodeState.afterNodeID hstate).symm

end OpenCut
