import OpenCut.Repository.TiedRuns

/-!
# Updates of nodes and the order of siblings

An update of a node is stored as a put of the whole node, with the sibling that stood before it when
the request was normalized. Applying it takes the node out and puts it back after that sibling. So
the node stays under its section (`CommittedLater.parentOf_eq`), but it stays in its place only if
the same sibling is still before it, and no earlier operation of the request has taken that sibling
elsewhere (`EditProposeInput.Anchored`). Then any two siblings that the request does not insert,
move or remove keep their order (`updates_keep_order`).

* `filter_foldl_putChild`: puts that leave nodes where they are do not show in the lists of
  children, apart from the nodes that other puts move;
* `NodePuts`: which nodes an operation puts, in the order of the operations.
-/

namespace OpenCut

open Outcome Ties Content Ranking List EditOperationInput NarrativeTable EntityState Option

/-! ## Lists of children -/

/-- The put has the node where it is. -/
def NarrativeNodeState.Stays (s : NarrativeNodeState) (children : Children) : Prop :=
  ∀ parent, (s.id ∉ children parent ∧ s.parentID ≠ some parent) ∨
    (s.id ∈ children parent ∧ s.liveUnder parent ∧
      s.afterNodeID = Ranking.predecessor s.id (children parent))

section

variable {puts : List NarrativeNodeState} {children : Children} {moves : NarrativeNodeState → Bool}

/-- The identities of the nodes that are moved. -/
def movedBy (moves : NarrativeNodeState → Bool) (puts : List NarrativeNodeState) : List ID :=
  (puts.filter moves).map (·.id)

theorem movedBy_concat (puts : List NarrativeNodeState) (s : NarrativeNodeState) :
    movedBy moves (puts ++ [s]) =
      if moves s then movedBy moves puts ++ [s.id] else movedBy moves puts := by
  by_cases hs : moves s <;> simp [movedBy, hs]

variable {s : NarrativeNodeState}

/-- A put does not show in a part of the lists that its node does not belong to. -/
theorem filter_putChild_of_not {p : ID → Bool} (hs : p s.id = false)
    (parent : ID) : (putChild children s parent).filter p = (children parent).filter p := by
  have herase : ((children parent).erase s.id).filter p = (children parent).filter p := by
    generalize children parent = l
    induction l with
    | nil => rfl
    | cons x l ih =>
      by_cases hx : x = s.id
      · rw [hx, erase_cons_head, filter_cons_of_neg (by simp [hs])]
      · rw [erase_cons_tail (by simpa using hx), filter_cons, filter_cons, ih]
  unfold putChild
  split
  · rw [filter_place_of_not hs, herase]
  · exact herase

/-- Nor does one that has its node where it is, in a part with its anchor. -/
theorem filter_putChild_of_stays {current : Children} {p : ID → Bool}
    (hchildren : ∀ parent, (children parent).Nodup) (hstays : s.Stays children) (hs : p s.id)
    (hanchor : ∀ a ∈ s.afterNodeID, p a) {parent : ID}
    (hcurrent : (current parent).filter p = (children parent).filter p) :
    (putChild current s parent).filter p = (children parent).filter p := by
  unfold putChild
  rcases hstays parent with ⟨hnotin, hparent⟩ | ⟨hin, hlive, hafter⟩
  · rw [if_neg fun h => hparent h.1, filter_erase hs, hcurrent, erase_of_not_mem]
    exact fun hmem => hnotin (mem_of_mem_filter hmem)
  · have hpredecessor : predecessor s.id ((children parent).filter p) = s.afterNodeID := by
      rw [hafter] at hanchor ⊢
      exact predecessor_filter hs hanchor
    rw [if_pos (NarrativeNodeState.liveUnder_iff.1 hlive), filter_place hs hanchor,
      filter_erase hs, hcurrent, ← hpredecessor]
    exact place_predecessor_erase ((hchildren parent).filter p) (mem_filter.2 ⟨hin, hs⟩)

/-- Puts that have their nodes where they are leave the lists of the other nodes alone, if no
    earlier put moves an anchor of theirs. -/
theorem filter_foldl_putChild (hputs : (puts.map (·.id)).Nodup)
    (hchildren : ∀ parent, (children parent).Nodup)
    (hstays : ∀ s ∈ puts, moves s = false → s.Stays children)
    (hanchors : ∀ done s rest, puts = done ++ s :: rest → moves s = false →
      ∀ a ∈ s.afterNodeID, a ∉ movedBy moves done) (parent : ID) :
    (puts.foldl putChild children parent).filter (fun id => decide (id ∉ movedBy moves puts)) =
      (children parent).filter fun id => decide (id ∉ movedBy moves puts) := by
  induction puts using reverseRecOn with
  | nil => rfl
  | append_singleton puts s ih =>
    rw [map_append, nodup_append] at hputs
    obtain ⟨hnodup, -, hfresh⟩ := hputs
    have hnew : s.id ∉ movedBy moves puts := by
      intro hmem
      obtain ⟨s', hs', heq⟩ := mem_map.1 hmem
      exact hfresh _ (mem_map_of_mem (mem_of_mem_filter hs')) s.id (by simp) heq
    have hcurrent := ih hnodup (fun s' hs' => hstays s' (mem_append_left _ hs'))
      fun done s' rest hsplit => hanchors done s' (rest ++ [s]) (by rw [hsplit]; simp)
    rw [foldl_append, foldl_cons, foldl_nil]
    by_cases hmoves : moves s
    · -- One node less is compared.
      have hpart : ∀ l : List ID, l.filter (fun id => decide (id ∉ movedBy moves (puts ++ [s]))) =
          (l.filter fun id => decide (id ∉ movedBy moves puts)).filter
            fun id => decide (id ≠ s.id) := by
        intro l
        rw [List.filter_filter]
        refine filter_congr fun id _ => ?_
        rw [movedBy_concat, if_pos hmoves]
        by_cases hid : id = s.id <;> simp [hid]
      rw [filter_putChild_of_not (by simp [movedBy_concat, hmoves]), hpart, hpart, hcurrent]
    · rw [movedBy_concat, if_neg hmoves]
      refine filter_putChild_of_stays hchildren (hstays s (by simp) (by simpa using hmoves))
        (by simpa using hnew) (fun a ha => ?_) hcurrent
      simpa using hanchors puts s [] rfl (by simpa using hmoves) a ha

/-- So two nodes that are not moved keep their order. -/
theorem sublist_of_filter_eq {p : ID → Bool} {l l' : List ID} (h : l'.filter p = l.filter p)
    {x y : ID} (hx : p x) (hy : p y) (hxy : [x, y].Sublist l) : [x, y].Sublist l' := by
  have hpart := hxy.filter p
  rw [filter_cons_of_pos hx, filter_cons_of_pos hy, filter_nil, ← h] at hpart
  exact hpart.trans filter_sublist

end

/-! ## What a commit does to the lists -/

variable {states : List EntityState} {proposal : EditProposal} {q : Project}

/-- The node that is put, if it is one. -/
def EntityState.asNode? : EntityState → Option NarrativeNodeState
  | .narrativeNode s => some s
  | _ => none

variable {node : NarrativeNodeState}

theorem EntityState.asNode?_eq_some {s : EntityState} :
    s.asNode? = some node ↔ s = .narrativeNode node := by
  cases s <;> simp [asNode?]

/-- The nodes among what is put. -/
def nodesOf (states : List EntityState) : List NarrativeNodeState := states.filterMap (·.asNode?)

theorem nodesOf_append (states states' : List EntityState) :
    nodesOf (states ++ states') = nodesOf states ++ nodesOf states' :=
  filterMap_append

theorem mem_nodesOf : node ∈ nodesOf states ↔ .narrativeNode node ∈ states := by
  simp only [nodesOf, mem_filterMap, asNode?_eq_some, exists_eq_right]

theorem nodup_nodesOf (h : (states.map (·.key)).Nodup) : ((nodesOf states).map (·.id)).Nodup := by
  induction states with
  | nil => exact nodup_nil
  | cons s states ih =>
    obtain ⟨hs, hstates⟩ := nodup_cons.1 h
    cases s with
    | narrativeNode node =>
      refine nodup_cons.2 ⟨fun hmem => ?_, ih hstates⟩
      obtain ⟨_, hnode', hid⟩ := mem_map.1 hmem
      refine hs (mem_map.2 ⟨_, mem_nodesOf.1 hnode', ?_⟩)
      simp only [key, hid]
    | _ => exact ih hstates

/-- The lists of children after a transaction of puts. -/
theorem EditProposal.Puts.children_of_applyTransaction (h : proposal.Puts states) {root : ID}
    {c : Content} {t : EditTransaction} (hrooted : q.content.nodes.Rooted root)
    (hoperations : t.operations = proposal.operations) (happlied : q.applyTransaction t = .ok c) :
    c.nodes.Rooted root ∧
      c.nodes.children = (nodesOf states).foldl putChild q.content.nodes.children := by
  obtain ⟨d, hd, happlied⟩ := bind_ok.1 happlied
  rw [hoperations, h.operations, foldlM_map] at hd
  have hputs := foldlM_progress (fun done (c : Content) => c.nodes.Rooted root ∧
    c.nodes.children = (nodesOf done).foldl putChild q.content.nodes.children)
    (fun done s c c' hc hput => ?_) ⟨hrooted, rfl⟩ hd
  · refine foldlM_invariant (fun c : Content => c.nodes.Rooted root ∧
      c.nodes.children = (nodesOf states).foldl putChild q.content.nodes.children)
      (fun change _ c c' hc hchange => ?_) hputs happlied
    rcases (applyAggregateRevision_cases hchange).2 with ⟨-, rfl⟩ | ⟨-, rfl⟩ |
      ⟨row, -, hrow, rfl⟩ | ⟨row, -, -, rfl⟩
    · exact hc
    · exact hc
    · obtain ⟨hroot, hsame⟩ := hc.1.setRevision hrow change.after
      exact ⟨hroot, hsame.trans hc.2⟩
    · exact hc
  · rw [nodesOf_append, foldl_append, ← hc.2]
    rcases applyPut_cases hput with ⟨node, _, rfl, hnodes, rfl⟩ | ⟨hkind, -, -, rfl⟩
    · exact hc.1.applyNarrativeNode hnodes
    · cases s with
      | narrativeNode node => exact absurd rfl hkind
      | _ => exact ⟨hc.1, rfl⟩

/-! ## The nodes that a request puts -/

variable {op : EditOperationInput} {I : NormalizeEditInput} {done : List EditOperationInput}

/-- The node that the operation moves or removes. -/
def EditOperationInput.relocates : EditOperationInput → Option ID
  | .moveNarrativeNode nodeID .. | .removeNarrativeNode nodeID => some nodeID
  | _ => none

/-- The operation inserts, moves or removes a node. -/
def EditOperationInput.arranges : EditOperationInput → Bool
  | .insertNarrativeNode .. | .insertSourceExcerpt .. | .moveNarrativeNode ..
  | .removeNarrativeNode .. => true
  | _ => false

theorem EditOperationInput.changedSections_of_not_arranges (h : op.arranges = false)
    (t : EntityTable) : op.changedSections t = [] := by
  cases op <;> first | rfl | cases h

theorem EditOperationInput.relocates_of_not_arranges (h : op.arranges = false) :
    op.relocates = none := by
  cases op <;> first | rfl | cases h

/-- An operation that acts on a node moves it, removes it or updates it. -/
theorem EditOperationInput.acts_node {t : EntityTable} {members : ID → List ID} {id : ID}
    (h : ⟨.narrativeNode, id⟩ ∈ op.acts t members) :
    op.relocates = some id ∨ ∃ writing, op = .updateNarrativeNode id writing := by
  cases op <;> simp_all [acts, relocates, clipKeys]

/-- The node is put as an update of it, with the section and the sibling it was loaded with. -/
structure Updated (I : NormalizeEditInput) (done : List EditOperationInput)
    (s : NarrativeNodeState) : Prop where
  op : ∃ writing, .updateNarrativeNode s.id writing ∈ done
  loaded : ∃ b, I.base.node? s.id = some b ∧ b.tombstoned = false ∧ s.parentID = b.parentID ∧
    s.afterNodeID = b.afterNodeID ∧ s.tombstoned = false

/-- The node is new, moved or removed, or updated. -/
def PutBy (I : NormalizeEditInput) (done : List EditOperationInput)
    (changes : List EntityRevisionChange) (s : NarrativeNodeState) : Prop :=
  (∃ change ∈ changes, change.key = ⟨.narrativeNode, s.id⟩ ∧ change.before = none) ∨
    (∃ op ∈ done, op.relocates = some s.id) ∨ Updated I done s

variable {done' : List EditOperationInput}

theorem Updated.mono {s : NarrativeNodeState}
    (h : Updated I done s) (hdone : done ⊆ done') : Updated I done' s := by
  obtain ⟨⟨writing, hop⟩, hloaded⟩ := h
  exact ⟨⟨writing, hdone hop⟩, hloaded⟩

theorem PutBy.mono {changes changes' : List EntityRevisionChange}
    {s : NarrativeNodeState} (h : PutBy I done changes s) (hdone : done ⊆ done')
    (hchanges : changes ⊆ changes') :
    PutBy I done' changes' s := by
  rcases h with ⟨change, hchange, hnew⟩ | ⟨op, hop, hmoves⟩ | hupdated
  · exact .inl ⟨change, hchanges hchange, hnew⟩
  · exact .inr (.inl ⟨op, hdone hop, hmoves⟩)
  · exact .inr (.inr (hupdated.mono hdone))

/-- How the nodes come to be put by the operations `done`. -/
structure NodePuts (I : NormalizeEditInput) (done : List EditOperationInput)
    (nodes : List NarrativeNodeState) (changes : List EntityRevisionChange) : Prop where
  puts : ∀ s ∈ nodes, PutBy I done changes s
  updates : ∀ id writing, .updateNarrativeNode id writing ∈ done →
    ∃ s ∈ nodes, s.id = id ∧ Updated I done s
  /-- What is put before an update is put by earlier operations. -/
  order : ∀ before s after, nodes = before ++ s :: after → Updated I done s →
    ∃ ops writing rest, done = ops ++ .updateNarrativeNode s.id writing :: rest ∧
      ∀ s' ∈ before, PutBy I ops changes s'

theorem NodePuts.later {nodes : List NarrativeNodeState}
    {changes changes' : List EntityRevisionChange} (h : NodePuts I done nodes changes)
    (hchanges : changes ⊆ changes') :
    NodePuts I done nodes changes' := by
  refine ⟨fun s hs => (h.puts s hs).mono (Subset.refl _) hchanges, h.updates,
    fun before s after hsplit hupdated => ?_⟩
  obtain ⟨ops, writing, rest, hdone, hbefore⟩ := h.order before s after hsplit hupdated
  exact ⟨ops, writing, rest, hdone, fun s' hs' => (hbefore s' hs').mono (Subset.refl _) hchanges⟩

namespace EditNormalizer

variable {I : NormalizeEditInput} {n n' : EditNormalizer} {es es' : List Emission}
  {ps ps' : List ID} {writing : NarrativeWriting}

/-- What an update puts. -/
theorem updateNarrativeNode_puts {nodeID : ID}
    (h : n.updateNarrativeNode I nodeID writing = .ok n') :
    ∃ b, n.working.node? nodeID = some b ∧ b.tombstoned = false ∧
      ⟨.narrativeNode, nodeID⟩ ∉ n.touched ∧ n'.operations = n.operations ++
        [.narrativeNode { b with revision := b.revision + 1, value := writing.value }] := by
  simp only [updateNarrativeNode, steps_ok, markTouched_ok] at h
  obtain ⟨b, hb, hlive, _, ⟨hnew, rfl⟩, -, -, rfl⟩ := h
  exact ⟨b, hb, by simpa using hlive, hnew, rfl⟩

variable {owed : List ID}

/-- What an operation puts of the nodes. -/
theorem node_of_emission [Uniseg] (hkeyed : I.TracksKeyed) {owed' : List ID}
    (h : Balanced I n es ps owed) (h' : Balanced I n' (es ++ es') ps' owed')
    {op : EditOperationInput}
    (hok : n.normalizeEntityOperation I op = .ok n') {e : Emission} (he : e ∈ es')
    {s : NarrativeNodeState} (hs : e.after = .narrativeNode s) :
    e.before = none ∨ op.relocates = some s.id ∨
      ∃ writing, op = .updateNarrativeNode s.id writing := by
  cases hbefore : e.before with
  | none => exact .inl rfl
  | some b =>
    refine .inr ?_
    have hkey : (changeOf e.before e.after).key = ⟨.narrativeNode, s.id⟩ := by rw [hs]; rfl
    have hsome : (changeOf e.before e.after).before.isSome := by rw [hbefore]; rfl
    have hcs : ∀ {cs}, n'.changes = n.changes ++ cs → changeOf e.before e.after ∈ cs := by
      intro cs hcs
      rw [h'.changes, h.changes, map_append, append_cancel_left_eq] at hcs
      rw [← hcs]
      exact mem_map_of_mem he
    cases hplaces : op.places with
    | none =>
      obtain ⟨cs, hchanges, hkeys⟩ :=
        ((normalizeEntityOperation_handles hkeyed h hplaces hok).act h).changes
      exact acts_node ((hkeys _ rfl).1 ⟨_, hcs hchanges, hkey, hsome⟩)
    | some id =>
      cases op with
      | setClipPlacement =>
        obtain ⟨-, m, hdecides, hact⟩ := setClipPlacement_handled hkeyed h hok
        obtain ⟨cs, hchanges, hkeys⟩ := hact.changes
        rw [hdecides.changes] at hchanges
        have hmem := (hkeys _ rfl).1 ⟨_, hcs hchanges, hkey, hsome⟩
        cases mem_singleton.1 hmem
      | _ => cases hplaces

/-- A place in two lists is in the one or in the other. -/
theorem split_of_append {α : Type} {l l' before after : List α} {a : α}
    (h : l ++ l' = before ++ a :: after) :
    (∃ rest, l = before ++ a :: rest) ∨ ∃ r, before = l ++ r ∧ l' = r ++ a :: after := by
  rcases append_eq_append_iff.1 h with ⟨r, hbefore, hl'⟩ | ⟨r, hl, hrest⟩
  · exact .inr ⟨r, hbefore, hl'⟩
  · cases r with
    | nil => exact .inr ⟨[], by simpa using hl.symm, by simpa using hrest.symm⟩
    | cons x r =>
      obtain ⟨rfl, -⟩ := cons.inj hrest
      exact .inl ⟨r, hl⟩

/-- An operation that updates a node puts just this node. -/
theorem updated_of_operation [Uniseg] (hbalanced : Balanced I n es ps owed)
    (done : List EditOperationInput) {nodes : List NarrativeNodeState} {id : ID}
    (hok : n.normalizeEntityOperation I (.updateNarrativeNode id writing) = .ok n')
    (hnodes : nodesOf n'.operations = nodesOf n.operations ++ nodes) :
    ∃ s, nodes = [s] ∧ s.id = id ∧ Updated I (done ++ [.updateNarrativeNode id writing]) s := by
  obtain ⟨b, hb, hlive, hnew, hput⟩ := updateNarrativeNode_puts hok
  rw [hput, nodesOf_append, append_cancel_left_eq] at hnodes
  obtain rfl := EntityTable.id_of_node? hb
  refine ⟨_, hnodes.symm, rfl, ⟨writing, by simp⟩, b, ?_, hlive, rfl, rfl, hlive⟩
  rw [← hb, EntityTable.node?, EntityTable.node?, hbalanced.find?_of_untouched hnew]

section

variable (hkeyed : I.TracksKeyed)
include hkeyed

/-- One operation on entities. -/
theorem nodePuts_step [Uniseg] {done : List EditOperationInput}
    (hbalanced : Balanced I n es ps owed)
    (h : NodePuts I done (nodesOf n.operations) n.changes) {op : EditOperationInput}
    (hok : n.normalizeEntityOperation I op = .ok n') :
    NodePuts I (done ++ [op]) (nodesOf n'.operations) n'.changes := by
  obtain ⟨es', hbalanced'⟩ := normalizeEntityOperation_emits hkeyed hbalanced hok
  obtain ⟨ts, ht, -⟩ := hbalanced.trace
  obtain ⟨ts', ht', -⟩ := hbalanced'.trace
  set nodes := nodesOf (es'.map (·.after)) with hnew
  have hnodes : nodesOf n'.operations = nodesOf n.operations ++ nodes := by
    rw [ht'.operations, ht.operations, map_append, nodesOf_append]
  have hchanges : n.changes ⊆ n'.changes := hbalanced.changes_mono hbalanced' (prefix_append _ _)
  -- What is put now has not been put before.
  have hemission : ∀ s ∈ nodes, ∃ e ∈ es', e.after = .narrativeNode s ∧
      ⟨.narrativeNode, s.id⟩ ∉ n.touched := by
    intro s hs
    rw [hnew, mem_nodesOf] at hs
    obtain ⟨e, he, heq⟩ := mem_map.1 hs
    refine ⟨e, he, heq, fun hmem => ?_⟩
    have hkeys := ht'.nodup
    rw [map_append, nodup_append'] at hkeys
    refine hkeys.2.2 (hbalanced.settled _ hmem) (mem_map.2 ⟨e, he, ?_⟩)
    rw [Emission.key, heq]
    rfl
  have hold : ∀ s ∈ nodesOf n.operations, ⟨.narrativeNode, s.id⟩ ∈ n.touched := by
    intro s hs
    rw [mem_nodesOf, ht.operations] at hs
    obtain ⟨e, he, heq⟩ := mem_map.1 hs
    have hkey := ht.touched e he
    rwa [Emission.key, heq] at hkey
  refine ⟨fun s hs => ?_, fun id writing hop => ?_, fun before s after hsplit hupdated => ?_⟩
  · rw [hnodes, mem_append] at hs
    rcases hs with hs | hs
    · exact (h.puts s hs).mono (subset_append_left _ _) hchanges
    · obtain ⟨e, he, heq, -⟩ := hemission s hs
      rcases node_of_emission hkeyed hbalanced hbalanced' hok he heq with
        hbefore | hmoves | ⟨writing, rfl⟩
      · refine .inl ⟨changeOf e.before e.after, ?_, ?_, ?_⟩
        · rw [ht'.changes]
          exact mem_map_of_mem (mem_append_right _ he)
        · rw [heq]
          rfl
        · rw [hbefore]
          rfl
      · exact .inr (.inl ⟨op, by simp, hmoves⟩)
      · obtain ⟨s', hone, -, hupdated⟩ := updated_of_operation hbalanced done hok hnodes
        rw [hone, mem_singleton] at hs
        exact .inr (.inr (hs ▸ hupdated))
  · rw [hnodes]
    rw [mem_append, mem_singleton] at hop
    rcases hop with hop | rfl
    · obtain ⟨s, hs, hid, hupdated⟩ := h.updates id writing hop
      exact ⟨s, mem_append_left _ hs, hid, hupdated.mono (subset_append_left _ _)⟩
    · obtain ⟨s, hone, hid, hupdated⟩ := updated_of_operation hbalanced done hok hnodes
      exact ⟨s, mem_append_right _ (by rw [hone]; simp), hid, hupdated⟩
  · obtain ⟨⟨writing, hop⟩, hloaded⟩ := hupdated
    rw [mem_append, mem_singleton] at hop
    rw [hnodes] at hsplit
    rcases split_of_append hsplit with ⟨rest, hin⟩ | ⟨r, rfl, hin⟩
    · -- An earlier put, which this operation does not update.
      have hs := hold s (by rw [hin]; simp)
      have hearlier : Updated I done s := by
        rcases hop with hop | rfl
        · exact ⟨⟨writing, hop⟩, hloaded⟩
        · obtain ⟨-, -, -, hfresh, -⟩ := updateNarrativeNode_puts hok
          exact absurd hs hfresh
      obtain ⟨ops, writing', rest', hdone, hbefore⟩ := h.order before s rest hin hearlier
      exact ⟨ops, writing', rest' ++ [op], by rw [hdone]; simp, fun s' hs' =>
        (hbefore s' hs').mono (Subset.refl _) hchanges⟩
    · have hs : s ∈ nodes := by rw [hin]; simp
      obtain ⟨-, -, -, hfresh⟩ := hemission s hs
      rcases hop with hop | rfl
      · obtain ⟨s', hs', hid, -⟩ := h.updates _ _ hop
        exact absurd (hid ▸ hold s' hs') hfresh
      · -- The update itself: everything else was put by earlier operations.
        obtain ⟨s', hone, -, -⟩ := updated_of_operation hbalanced done hok hnodes
        rw [hin] at hone
        have hr : r = [] := by
          cases r with
          | nil => rfl
          | cons x r =>
            have hlength := congrArg length hone
            simp at hlength
        refine ⟨done, writing, [], rfl, fun s' hs' => ?_⟩
        rw [hr, append_nil] at hs'
        exact (h.puts s' hs').mono (Subset.refl _) hchanges

/-- The nodes that a run puts. -/
theorem nodePuts_of_run [Uniseg] (h : runNormalizer I = .ok n) :
    NodePuts I I.input.operations (nodesOf n.operations) n.changes := by
  simp only [runNormalizer, steps_ok] at h
  obtain ⟨n₀, hn₀, m, hm, -, -, -, k, hk, -, -, rfl⟩ := h
  have hstart := newEditNormalizer_balanced hn₀
  have hempty : NodePuts I [] (nodesOf n₀.operations) n₀.changes := by
    obtain ⟨ts, ht, -⟩ := hstart.trace
    rw [ht.operations]
    exact ⟨by simp [nodesOf], by simp, by simp [nodesOf]⟩
  obtain ⟨es, ps, hbalanced, hputs⟩ : ∃ es ps, Balanced I m es ps [] ∧
      NodePuts I I.input.operations (nodesOf m.operations) m.changes := by
    refine foldlM_progress (fun done m => ∃ es ps, Balanced I m es ps [] ∧
      NodePuts I done (nodesOf m.operations) m.changes) ?_ ⟨[], [], hstart, hempty⟩ hm
    rintro _ op m m' ⟨es, ps, hbalanced, hputs⟩ hop
    obtain ⟨es', hbalanced'⟩ := normalizeEntityOperation_emits hkeyed hbalanced hop
    exact ⟨_, _, hbalanced', nodePuts_step hkeyed hbalanced hputs hop⟩
  -- The operations on alignments put no nodes.
  suffices hrun : ∃ es ps, Balanced I k es ps [] ∧
      NodePuts I I.input.operations (nodesOf k.operations) k.changes by
    obtain ⟨-, -, -, hrun⟩ := hrun
    exact hrun
  refine foldlM_invariant (fun k => ∃ es ps, Balanced I k es ps [] ∧
    NodePuts I I.input.operations (nodesOf k.operations) k.changes) ?_ ⟨es, ps, hbalanced, hputs⟩ hk
  rintro op - k k' ⟨es, ps, hbalanced, hputs⟩ hop
  obtain ⟨_, -, -, es', hhandled, hkinds⟩ := normalizeAlignmentOperation_handled hbalanced hop
  have hbalanced' := hhandled.balanced
  obtain ⟨ts, ht, -⟩ := hbalanced.trace
  obtain ⟨ts', ht', -⟩ := hbalanced'.trace
  have hnodes : nodesOf k'.operations = nodesOf k.operations := by
    have hnone : nodesOf (es'.map (·.after)) = [] := by
      refine eq_nil_iff_forall_not_mem.2 fun s hs => ?_
      obtain ⟨e, he, heq⟩ := mem_map.1 (mem_nodesOf.1 hs)
      have hkind := hkinds e he
      rw [Emission.key, heq] at hkind
      cases hkind
    rw [ht'.operations, ht.operations, map_append, nodesOf_append, hnone, append_nil]
  refine ⟨_, _, hbalanced', ?_⟩
  rw [hnodes]
  exact hputs.later (hbalanced.changes_mono hbalanced' (prefix_append _ _))

/-- A run of operations that arrange nothing puts no new nodes. -/
theorem stored_of_run [Uniseg] (h : runNormalizer I = .ok n)
    (hops : ∀ op ∈ I.input.operations, op.arranges = false) {s : NarrativeNodeState}
    (hs : s ∈ nodesOf n.operations) {change : EntityRevisionChange}
    (hchange : change ∈ (n.proposal I).changes) (hkey : change.key = ⟨.narrativeNode, s.id⟩) :
    change.before ≠ none := by
  obtain ⟨es, es', m, -, -, -, -, hbalanced, -, -⟩ := runNormalizer_emits hkeyed h
  obtain ⟨ts, ht, -⟩ := hbalanced.trace
  rw [mem_nodesOf, ht.operations] at hs
  obtain ⟨e, he, heq⟩ := mem_map.1 hs
  have hparents : e.parents = [] := by
    refine eq_nil_iff_forall_not_mem.2 fun id hid => ?_
    obtain ⟨op, hop, hmem⟩ := mem_flatMap.1 ((hbalanced.parents id).2 ⟨e, he, hid⟩)
    rw [changedSections_of_not_arranges (hops op hop)] at hmem
    cases hmem
  obtain ⟨b, hb⟩ : ∃ b, e.before = some b := by
    obtain ⟨_, hlicensed, -⟩ := ht.exists_licensed he
    cases hlicensed with
    | insertNode => cases hparents
    | updateNode => exact ⟨_, rfl⟩
    | _ => cases heq <;> cases hparents
  have hput : changeOf e.before e.after ∈ (n.proposal I).changes := by
    rw [mem_changes, ht.changes]
    exact .inl (mem_map_of_mem he)
  have hsame : change = changeOf e.before e.after := by
    refine inj_on_of_nodup_map (nodup_changes hbalanced) hchange hput ?_
    rw [hkey, changeOf, heq]
    rfl
  rw [hsame, hb]
  exact some_ne_none _

end

end EditNormalizer

variable {p : Project} {proposalID : ID} {runID turnID : Option ID} {actor : ActorRef}
  {allocation : List LocalAllocation} {input : EditProposeInput}

/-- The nodes that an accepted request puts. -/
theorem nodePuts_of_normalizeRequest [Uniseg]
    (h : p.normalizeRequest proposalID runID turnID actor allocation input = .ok proposal)
    (hstates : proposal.operations = states.map .put) :
    ∃ I, NodePuts I input.operations (nodesOf states) proposal.changes ∧
      (∀ id b, I.base.node? id = some b → p.content.loadNode? id = some b) ∧
      ((∀ op ∈ input.operations, op.arranges = false) → ∀ s ∈ nodesOf states,
        Updated I input.operations s) := by
  simp only [Project.normalizeRequest, normalizeEditProposal, steps_ok] at h
  obtain ⟨state, hload, -, n, hn, rfl⟩ := h
  set I : NormalizeEditInput := { proposalID, runID, turnID, actor, allocation, input, state }
  obtain ⟨l, hstate, hloaded⟩ := loaded_of_loadEditNormalizationState hload
  have hputs := EditNormalizer.nodePuts_of_run (I := I) (tracksKeyed_of_load hload) hn
  have heq : n.operations = states :=
    map_injective_iff.2 (fun _ _ h => NormalizedEditOperation.put.inj h) hstates
  have hchanges : n.changes ⊆ (n.proposal I).changes := fun change hchange =>
    EditNormalizer.mem_changes.2 (.inl hchange)
  refine ⟨I, heq ▸ hputs.later hchanges, fun id b hb => ?_, fun hops s hs => ?_⟩
  · have hentity := hloaded.entities (k := ⟨.narrativeNode, id⟩) (s := .narrativeNode b)
      (by rw [hstate]; exact EntityTable.node?_eq_some.1 hb)
    obtain ⟨b', hb', heq'⟩ := map_eq_some_iff.1 hentity
    cases heq'
    exact hb'
  · rw [← heq] at hs
    rcases hputs.puts s hs with ⟨_, hchange, hkey, hnew⟩ | ⟨op, hop, hmoves⟩ | hupdated
    · exact absurd hnew (EditNormalizer.stored_of_run (I := I) (tracksKeyed_of_load hload) hn hops
        hs (hchanges hchange) hkey)
    · rw [relocates_of_not_arranges (hops op hop)] at hmoves
      cases hmoves
    · exact hupdated

/-! ## Places -/

namespace Content

variable {c : Content} {root : ID}

/-- The section that the node is under. -/
def parentOf (c : Content) (id : ID) : Option ID := (c.nodes.find? id).bind (·.parentID)

/-- The sibling that the node is loaded with. -/
def siblingBefore (c : Content) (id : ID) : Option ID := (c.loadNode? id).bind (·.afterNodeID)

variable {parent id : ID} (hrooted : c.nodes.Rooted root)
include hrooted

theorem mem_children : id ∈ c.nodes.children parent ↔
      ∃ row, c.nodes.find? id = some row ∧ row.liveUnder parent := by
  rw [(hrooted.ordered parent).mem_iff]
  constructor
  · rintro ⟨n, hn⟩
    obtain ⟨row, hrow, hlive, -⟩ := rank_eq_some.1 hn
    exact ⟨row, hrow, hlive⟩
  · rintro ⟨row, hrow, hlive⟩
    exact ⟨row.orderIndex, rank_eq_some.2 ⟨row, hrow, hlive, rfl⟩⟩

theorem owner_eq_some : (c.tie ⟨.narrativeNode, id⟩).owner = some ⟨.narrativeNode, parent⟩ ↔
      id ∈ c.nodes.children parent := by
  rw [mem_children hrooted, tie_node, unplaced?]
  cases c.nodes.find? id with
  | none => simp [Tie.loose]
  | some row => simp [NarrativeNodeRow.tie, nodeTie, liveUnder_iff, and_comm]

/-- A node that is loaded with a sibling stands after it. -/
theorem siblingBefore_eq (h : id ∈ c.nodes.children parent) :
    c.siblingBefore id = Ranking.predecessor id (c.nodes.children parent) := by
  obtain ⟨row, hrow, hlive⟩ := (mem_children hrooted).1 h
  have hparent := (liveUnder_iff.1 hlive).1
  rw [siblingBefore, loadNode?, hrow, ← loadNarrativeAfter_eq hrooted.ordered hrow hlive, ← hparent]
  rfl

theorem parentOf_eq_none : c.parentOf root = none := by
  obtain ⟨row, hrow, hparent, -⟩ := hrooted.root_live
  obtain ⟨_, hrow', rfl⟩ := map_eq_some_iff.1 hrow
  rw [parentOf, hrow', bind_some]
  exact hparent

theorem siblingBefore_root : c.siblingBefore root = none := by
  have hparent := parentOf_eq_none hrooted
  rw [siblingBefore, loadNode?, Option.bind_map]
  rw [parentOf] at hparent
  cases hrow : c.nodes.find? root with
  | none => rfl
  | some row =>
    rw [hrow] at hparent
    change c.nodes.loadNarrativeAfter row.parentID row.orderIndex root = none
    rw [show row.parentID = none from hparent]
    rfl

theorem parentOf_of_mem (h : id ∈ c.nodes.children parent) : c.parentOf id = some parent := by
  obtain ⟨row, hrow, hlive⟩ := (mem_children hrooted).1 h
  rw [parentOf, hrow, bind_some]
  exact (liveUnder_iff.1 hlive).1

end Content

/-- Along a run a revision stands for the same ties. -/
theorem Project.Tied.follows_of_reaches [Uniseg] {root : ID} {allowed : Project → Request → Prop}
    (hp : p.Tied root) (h : Project.Reaches allowed p q) :
    p.content.world.Follows q.content.world := by
  refine (Machine.Reaches.invariant (fun q : Project => q.Tied root ∧
    p.content.world.Follows q.content.world) h (fun q _ q' _ hq hserve => ?_) ⟨hp, .refl _⟩).2
  exact ⟨hq.1.serve hserve, hq.2.trans (hq.1.follows_of_serve hserve).2⟩

/-! ## Committing updates -/

/-- The request moves or removes the node. -/
def EditProposeInput.Relocates (input : EditProposeInput) (id : ID) : Prop :=
  ∃ op ∈ input.operations, op.relocates = some id

/-- Every node that the request updates has the same sibling before it in both contents, and no
    earlier operation of the request moves or removes this sibling. -/
def EditProposeInput.Anchored (input : EditProposeInput) (c c' : Content) : Prop :=
  ∀ done id writing rest, input.operations = done ++ .updateNarrativeNode id writing :: rest →
    c'.siblingBefore id = c.siblingBefore id ∧
      ∀ a ∈ c.siblingBefore id, ∀ op ∈ done, op.relocates ≠ some a

/-- Live siblings that the request neither moves nor removes keep their order. -/
def EditProposeInput.KeepsOrder (input : EditProposeInput) (c c' : Content) : Prop :=
  ∀ parent x y, ¬input.Relocates x → ¬input.Relocates y →
    [x, y].Sublist (c.nodes.children parent) → [x, y].Sublist (c'.nodes.children parent)

/-- What is known of a proposal that was made in `p` and is committed in `q`. -/
structure CommittedLater (p q q' : Project) (root : ID) (I : NormalizeEditInput)
    (input : EditProposeInput) (nodes : List NarrativeNodeState)
    (changes : List EntityRevisionChange) : Prop where
  puts : NodePuts I input.operations nodes changes
  distinct : (nodes.map (·.id)).Nodup
  base : ∀ id b, I.base.node? id = some b → p.content.loadNode? id = some b
  made : p.content.nodes.Rooted root
  before : q.content.nodes.Rooted root
  after : q'.content.nodes.Rooted root
  children : q'.content.nodes.children = nodes.foldl putChild q.content.nodes.children
  absent : ∀ change ∈ changes, change.before = none → q.content.revision? change.key = none
  /-- What is put has its tie, and it had the tie with which it was loaded. -/
  ties : ∀ s ∈ nodes, q'.content.tie ⟨.narrativeNode, s.id⟩ = (EntityState.narrativeNode s).tie ∧
    q.content.tie ⟨.narrativeNode, s.id⟩ = p.content.tie ⟨.narrativeNode, s.id⟩

theorem committedLater [Uniseg] {ids : GenesisIDs} {createdAt : Nat} {q' : Project}
    {transactionID : ID} {undoes : Option ID}
    (hp : Project.Reaches (fun _ _ => True) (genesis ids createdAt) p)
    (hmade : p.normalizeRequest proposalID runID turnID actor allocation input = .ok proposal)
    (hrun : Project.Reaches (fun _ _ => True) p q)
    (hcommit : q.commitProposal proposal transactionID undoes = .ok q') :
    ∃ I nodes, CommittedLater p q q' ids.rootSection I input nodes proposal.changes ∧
      ((∀ op ∈ input.operations, op.arranges = false) → ∀ s ∈ nodes,
        Updated I input.operations s) := by
  have hptied := (Project.Tied.genesis ids createdAt).reaches hp
  have hqtied := hptied.reaches hrun
  have hfollows := hptied.follows_of_reaches hrun
  obtain ⟨states, _, hmadeIn⟩ := madeIn_of_normalizeRequest hmade hptied.ties
  obtain ⟨I, hputs, hbase, honly⟩ := nodePuts_of_normalizeRequest hmade hmadeIn.puts.operations
  obtain ⟨t, hcommits⟩ : ∃ t, q.Commits proposal t q' :=
    Project.Commits.of_commitProposal hcommit rfl rfl (fun _ _ => .inl) fun _ _ => rfl
  have hqrooted := hqtied.wellformed.rooted
  have hpatch := hmadeIn.puts.commits_patch hqrooted hcommits
  have hadvances := hmadeIn.puts.advances_of_commits hcommits
  obtain ⟨id, _, rfl⟩ := hcommits.transaction
  obtain ⟨hrooted, hchildren⟩ := hmadeIn.puts.children_of_applyTransaction
    (q := { q with versions := q'.versions }) hqrooted rfl hcommits.applied
  obtain ⟨hties, -⟩ := hmadeIn.puts.tie_of_applyTransaction
    (q := { q with versions := q'.versions }) hqrooted rfl hcommits.applied
  refine ⟨I, nodesOf states, ⟨hputs, nodup_nodesOf hmadeIn.puts.distinct, hbase,
    hptied.wellformed.rooted, hqrooted, hrooted, hchildren, fun change hchange hnone => ?_,
    fun s hs => ⟨hties _ (mem_nodesOf.1 hs), ?_⟩⟩, honly⟩
  · rw [(hadvances.changes change hchange).1, hnone]
  · obtain ⟨change, hchange, hkey, -⟩ := hmadeIn.puts.entry _ (mem_nodesOf.1 hs)
    have hc : (proposal.patch states).change ⟨.narrativeNode, s.id⟩ =
        some (change.before, change.after) :=
      (change_eq_some hmadeIn.puts.nodup).2 ⟨rfl, change, hchange, hkey, rfl⟩
    exact World.tie_of_view
      (hmadeIn.sound.view_eq tieRule_loose hfollows hqtied.ties hpatch.meets hc)

namespace CommittedLater

variable {p q q' : Project} {root : ID} {I : NormalizeEditInput} {input : EditProposeInput}
  {nodes : List NarrativeNodeState} {changes : List EntityRevisionChange} {s : NarrativeNodeState}
  (h : CommittedLater p q q' root I input nodes changes)
include h

/-- A node that is updated is put after the sibling it was loaded with, and it is the root or
    stays under its section. -/
theorem placed (hs : s ∈ nodes) (hupdated : Updated I input.operations s) :
    s.afterNodeID = p.content.siblingBefore s.id ∧
      ((s.parentID = none ∧ s.id = root) ∨ ∃ parent, s.liveUnder parent ∧
        s.id ∈ q.content.nodes.children parent ∧ s.id ∈ q'.content.nodes.children parent) := by
  obtain ⟨b, hb, hlive, hparent, hafter, hslive⟩ := hupdated.loaded
  have hload := h.base s.id b hb
  refine ⟨by rw [hafter, siblingBefore, hload, bind_some], ?_⟩
  cases hnone : s.parentID with
  | none =>
    obtain ⟨row, hrow, rfl⟩ := loadNode?_eq_some.1 hload
    exact .inl ⟨rfl, h.made.rooted (unplaced?_of_find? hrow) (hparent.symm.trans hnone)⟩
  | some parent =>
    obtain ⟨hput, hkept⟩ := h.ties s hs
    have hstored : p.content.load? ⟨.narrativeNode, s.id⟩ = some (.narrativeNode b) := by
      rw [load?, if_pos rfl, hload, map_some]
    rw [tie_of_load? hstored] at hkept
    refine .inr ⟨parent, NarrativeNodeState.liveUnder_iff.2 ⟨hnone, hslive⟩, ?_, ?_⟩
    · rw [← owner_eq_some h.before, hkept]
      exact owner_eq_node.2 ⟨b, rfl, hlive, hparent.symm.trans hnone⟩
    · rw [← owner_eq_some h.after, hput]
      exact owner_eq_node.2 ⟨s, rfl, hslive, hnone⟩

theorem parentOf_eq {id : ID} {writing : NarrativeWriting}
    (hop : .updateNarrativeNode id writing ∈ input.operations) :
    q'.content.parentOf id = q.content.parentOf id := by
  obtain ⟨s, hs, rfl, hupdated⟩ := h.puts.updates id writing hop
  rcases (h.placed hs hupdated).2 with ⟨-, hroot⟩ | ⟨_, -, hbefore, hafter⟩
  · rw [hroot, parentOf_eq_none h.before, parentOf_eq_none h.after]
  · rw [parentOf_of_mem h.before hbefore, parentOf_of_mem h.after hafter]

/-- An update has its node where it is, if the sibling before it is still the same. -/
theorem stays (hs : s ∈ nodes) (hupdated : Updated I input.operations s)
    (hsame : q.content.siblingBefore s.id = p.content.siblingBefore s.id) :
    s.Stays q.content.nodes.children := by
  intro parent
  obtain ⟨hafter, ⟨hnone, hroot⟩ | ⟨parent', hlive, hin, -⟩⟩ := h.placed hs hupdated
  · refine .inl ⟨fun hmem => ?_, by simp [hnone]⟩
    have hparent := parentOf_of_mem h.before hmem
    rw [hroot, parentOf_eq_none h.before] at hparent
    cases hparent
  · by_cases hparent : parent = parent'
    · subst hparent
      exact .inr ⟨hin, hlive, by rw [hafter, ← hsame, siblingBefore_eq h.before hin]⟩
    · refine .inl ⟨fun hmem => hparent ?_, fun heq => hparent ?_⟩
      · exact some.inj ((parentOf_of_mem h.before hmem).symm.trans (parentOf_of_mem h.before hin))
      · exact some.inj (heq.symm.trans (NarrativeNodeState.liveUnder_iff.1 hlive).1)

/-- What is put and is not an update is not among the children, or it is moved or removed. -/
theorem relocated {done : List EditOperationInput} (hputs : PutBy I done changes s)
    (hupdated : ¬Updated I done s) {parent : ID} (hin : s.id ∈ q.content.nodes.children parent) :
    ∃ op ∈ done, op.relocates = some s.id := by
  rcases hputs with ⟨change, hchange, hkey, hnew⟩ | hmoves | hput
  · obtain ⟨row, hrow, -⟩ := (mem_children h.before).1 hin
    have hrevision := h.absent change hchange hnew
    rw [hkey, revision?_node, NarrativeTable.revision?, hrow] at hrevision
    cases hrevision
  · exact hmoves
  · exact absurd hput hupdated

/-- If every node that is updated has its anchor, the order of siblings is kept. -/
theorem keepsOrder (hanchored : input.Anchored p.content q.content) :
    input.KeepsOrder q.content q'.content := by
  classical
  set moves : NarrativeNodeState → Bool := fun s => !decide (Updated I input.operations s)
  have hmoves : ∀ {s}, moves s = false ↔ Updated I input.operations s := by
    intro s
    simp [moves]
  have hsame : ∀ {s}, Updated I input.operations s →
      q.content.siblingBefore s.id = p.content.siblingBefore s.id := by
    rintro s ⟨⟨writing, hop⟩, -⟩
    obtain ⟨done, rest, hsplit⟩ := append_of_mem hop
    exact (hanchored done s.id writing rest hsplit).1
  have hfilter := @filter_foldl_putChild _ _ moves h.distinct
    (fun parent => (h.before.ordered parent).nodup)
    (fun s hs hmove => h.stays hs (hmoves.1 hmove) (hsame (hmoves.1 hmove)))
    (fun done s rest hsplit hmove a ha hmem => ?_)
  · intro parent x y hx hy hxy
    rw [h.children]
    have hapart : ∀ z, ¬input.Relocates z → z ∈ q.content.nodes.children parent →
        decide (z ∉ movedBy moves nodes) = true := by
      intro z hz hin
      refine decide_eq_true fun hmem => hz ?_
      obtain ⟨s, hs, rfl⟩ := mem_map.1 hmem
      obtain ⟨hs, hmove⟩ := mem_filter.1 hs
      refine h.relocated (h.puts.puts s hs) (fun hupdated => ?_) hin
      rw [hmoves.2 hupdated] at hmove
      cases hmove
    exact sublist_of_filter_eq (hfilter parent) (hapart x hx (hxy.subset (by simp)))
      (hapart y hy (hxy.subset (by simp))) hxy
  · -- The anchor is a sibling, and what was put before has not taken it away.
    have hupdated := hmoves.1 hmove
    have hs : s ∈ nodes := by rw [hsplit]; simp
    obtain ⟨s', hs', rfl⟩ := mem_map.1 hmem
    obtain ⟨hs', hmove'⟩ := mem_filter.1 hs'
    obtain ⟨ops, writing, rest', hops, hearlier⟩ := h.puts.order done s rest hsplit hupdated
    obtain ⟨hafter, hplace⟩ := h.placed hs hupdated
    rw [hafter] at ha
    have hin : ∃ parent, s'.id ∈ q.content.nodes.children parent := by
      rcases hplace with ⟨-, hroot⟩ | ⟨parent, -, hin, -⟩
      · rw [hroot, siblingBefore_root h.made] at ha
        cases ha
      · rw [← hsame hupdated, siblingBefore_eq h.before hin] at ha
        exact ⟨parent, mem_of_predecessor ha⟩
    have hnot : ¬Updated I ops s' := by
      intro hput
      rw [hmoves.2 (hput.mono (by rw [hops]; simp))] at hmove'
      cases hmove'
    obtain ⟨_, hin⟩ := hin
    obtain ⟨op, hop, hrelocates⟩ := h.relocated (hearlier s' hs') hnot hin
    exact (hanchored ops s.id writing rest' hops).2 s'.id ha op hop hrelocates

/-- If the node is the only one on which the request acts, the order is kept just in this case. -/
theorem keepsOrder_iff (hall : ∀ s ∈ nodes, Updated I input.operations s) {id : ID}
    {writing : NarrativeWriting} (hop : .updateNarrativeNode id writing ∈ input.operations)
    (hops : ∀ op ∈ input.operations, op.arranges = false ∧
      ∀ id' writing', op = .updateNarrativeNode id' writing' → id' = id) :
    input.KeepsOrder q.content q'.content ↔
      q.content.siblingBefore id = p.content.siblingBefore id := by
  have hrelocates : ∀ z, ¬input.Relocates z := by
    rintro z ⟨op, hop, hz⟩
    rw [relocates_of_not_arranges (hops op hop).1] at hz
    cases hz
  constructor
  · intro hkeeps
    obtain ⟨s, hs, rfl, hupdated⟩ := h.puts.updates id writing hop
    have hone : nodes = [s] := by
      have hequal : ∀ s' ∈ nodes, s' = s := by
        intro s' hs'
        obtain ⟨writing', hop'⟩ := (hall s' hs').op
        exact inj_on_of_nodup_map h.distinct hs' hs ((hops _ hop').2 _ _ rfl)
      have hlist := eq_replicate_of_mem hequal
      have hlength := length_pos_of_mem hs
      have hle := h.distinct.of_map
      rw [hlist, nodup_replicate] at hle
      rw [hlist, show nodes.length = 1 by omega]
      rfl
    obtain ⟨hafter, ⟨-, hroot⟩ | ⟨parent, hlive, hin, hin'⟩⟩ := h.placed hs hupdated
    · rw [hroot, siblingBefore_root h.made, siblingBefore_root h.before]
    · have hput : q'.content.nodes.children parent = place s.afterNodeID s.id
          ((q.content.nodes.children parent).erase s.id) := by
        rw [h.children, hone]
        exact if_pos (NarrativeNodeState.liveUnder_iff.1 hlive)
      have hnodup := (h.before.ordered parent).nodup
      have hnotin : s.id ∉ (q.content.nodes.children parent).erase s.id :=
        fun hmem => (hnodup.mem_erase_iff.1 hmem).1 rfl
      rw [hput] at hin'
      have hsame : q.content.nodes.children parent = q'.content.nodes.children parent := by
        refine eq_of_pairs (h.after.ordered parent).nodup ?_ fun x y hxy =>
          hkeeps parent x y (hrelocates x) (hrelocates y) hxy
        rw [hput]
        exact (perm_cons_erase hin).trans (place_perm hnotin hin').symm
      rw [siblingBefore_eq h.before hin, hsame, hput, ← hafter]
      exact predecessor_place hnotin hin'
  · intro hsame
    refine h.keepsOrder fun done id' writing' rest hsplit => ?_
    have hop' : .updateNarrativeNode id' writing' ∈ input.operations := by rw [hsplit]; simp
    obtain rfl := (hops _ hop').2 _ _ rfl
    refine ⟨hsame, fun a _ op hdone hmoves => hrelocates a ⟨op, ?_, hmoves⟩⟩
    rw [hsplit]
    exact mem_append_left _ hdone

end CommittedLater

/-- A request is accepted in a run of a new project, and committed later in the run. Every node
    that it updates stays under its section. If every such node still has before it the sibling that
    it had when the request was accepted, and no earlier operation of the request takes this sibling
    away, siblings that the request neither inserts nor moves nor removes keep their order. If the
    request acts on one node only, they keep it just in this case. -/
theorem updates_keep_order [Uniseg] {ids : GenesisIDs} {createdAt : Nat} {q' : Project}
    {transactionID : ID} {undoes : Option ID}
    (hp : Project.Reaches (fun _ _ => True) (genesis ids createdAt) p)
    (hmade : p.normalizeRequest proposalID runID turnID actor allocation input = .ok proposal)
    (hrun : Project.Reaches (fun _ _ => True) p q)
    (hcommit : q.commitProposal proposal transactionID undoes = .ok q') :
    (∀ id writing, .updateNarrativeNode id writing ∈ input.operations →
      q'.content.parentOf id = q.content.parentOf id) ∧
    (input.Anchored p.content q.content → input.KeepsOrder q.content q'.content) ∧
    ∀ id writing, .updateNarrativeNode id writing ∈ input.operations →
      (∀ op ∈ input.operations, op.arranges = false ∧
        ∀ id' writing', op = .updateNarrativeNode id' writing' → id' = id) →
      (input.KeepsOrder q.content q'.content ↔
        q.content.siblingBefore id = p.content.siblingBefore id) := by
  obtain ⟨I, _, hlater, honly⟩ := committedLater hp hmade hrun hcommit
  refine ⟨fun id writing hop => hlater.parentOf_eq hop, hlater.keepsOrder,
    fun id writing hop hops => ?_⟩
  exact hlater.keepsOrder_iff (honly fun op hop => (hops op hop).1) hop hops

/-! ## Samples -/

/-- The creator inserts two notes, the second after the first. -/
def sampleNotes : Request :=
  sampleCommit 1 1 [⟨⟨.narrativeNode, 1⟩, 1⟩]
    [⟨['a'], .narrativeNode, 10⟩, ⟨['b'], .narrativeNode, 11⟩] [
    .insertNarrativeNode ['a'] 1 none (.note ['e', 'n'] ['a']),
    .insertNarrativeNode ['b'] 1 (some (.byLocal ['a'])) (.note ['e', 'n'] ['b'])]

/-- The creator inserts a note between them. -/
def sampleBetween : Request :=
  sampleCommit 2 2 [⟨⟨.narrativeNode, 1⟩, 2⟩] [⟨['n'], .narrativeNode, 12⟩]
    [.insertNarrativeNode ['n'] 1 (some (.byID 10)) (.note ['e', 'n'] ['n'])]

/-- The agent's request to update the second note. -/
def sampleRewrite : EditProposeInput where
  requestID := ['p']
  intent := ['x']
  baseProjectRevision := 2
  preconditions := [⟨⟨.narrativeNode, 11⟩, 1⟩]
  operations := [.updateNarrativeNode 11 (.note ['e', 'n'] ['u'])]

/-- What is accepted of it. -/
def sampleRewritten (p : Project) : Except EditError EditProposal :=
  @Project.normalizeRequest p runeClusters 301 (some 50) (some 51) (.agent 52) [] sampleRewrite

/-- If the request is applied at once, the notes keep their order. -/
theorem updates_keep_order_at_once : ∃ p proposal p',
    sampleAfter [sampleNotes] = some p ∧ sampleRewritten p = .ok proposal ∧
    p.commitProposal proposal 401 none = .ok p' ∧ p'.content.parentOf 11 = p.content.parentOf 11 ∧
    sampleRewrite.KeepsOrder p.content p'.content := by
  obtain ⟨p, hp, proposal, hproposal, p', hp'⟩ : ∃ p, sampleAfter [sampleNotes] = some p ∧
      ∃ proposal, sampleRewritten p = .ok proposal ∧
        ∃ p', p.commitProposal proposal 401 none = .ok p' := by
    decide +kernel
  let _ := runeClusters
  obtain ⟨hparent, hkeeps, -⟩ := updates_keep_order (Machine.Reaches.of_play hp) hproposal (.refl p)
    hp'
  refine ⟨p, proposal, p', hp, hproposal, hp', hparent 11 _ mem_cons_self,
    hkeeps fun done id writing rest hsplit => ⟨rfl, ?_⟩⟩
  -- It is the only operation, so nothing comes before it.
  have hlength := congrArg length hsplit
  have hdone : done = [] := by
    rw [length_append, length_cons] at hlength
    simp only [sampleRewrite, length_cons, length_nil] at hlength
    exact length_eq_zero_iff.1 (by omega)
  simp [hdone]

/-- If the note has been inserted in the meantime, the update takes the second note across it. -/
theorem update_crosses_sibling : ∃ p proposal q q',
    sampleAfter [sampleNotes] = some p ∧ sampleRewritten p = .ok proposal ∧
    Machine.play (@Project.serve runeClusters) (fun _ _ => True) p [sampleBetween] = some q ∧
    q.commitProposal proposal 401 none = .ok q' ∧
    ¬sampleRewrite.Relocates 12 ∧ ¬sampleRewrite.Relocates 11 ∧
    q.content.nodes.children 1 = [10, 12, 11] ∧ q'.content.nodes.children 1 = [10, 11, 12] ∧
    ¬sampleRewrite.KeepsOrder q.content q'.content := by
  obtain ⟨p, hp, proposal, hproposal, q, hq, q', hq', hbefore, hafter⟩ : ∃ p,
      sampleAfter [sampleNotes] = some p ∧
      ∃ proposal, sampleRewritten p = .ok proposal ∧ ∃ q,
        Machine.play (@Project.serve runeClusters) (fun _ _ => True) p [sampleBetween] = some q ∧
        ∃ q', q.commitProposal proposal 401 none = .ok q' ∧
          q.content.nodes.children 1 = [10, 12, 11] ∧
          q'.content.nodes.children 1 = [10, 11, 12] := by
    decide +kernel
  have hrelocates : ∀ id, ¬sampleRewrite.Relocates id := by
    rintro id ⟨op, hop, hmoves⟩
    obtain rfl := mem_singleton.1 hop
    cases hmoves
  refine ⟨p, proposal, q, q', hp, hproposal, hq, hq', hrelocates 12, hrelocates 11, hbefore, hafter,
    fun hkeeps => ?_⟩
  have hcrossed := hkeeps 1 12 11 (hrelocates 12) (hrelocates 11) (by rw [hbefore]; decide)
  rw [hafter] at hcrossed
  exact absurd hcrossed (by decide)

end OpenCut
