import OpenCut.Lib.Ties
import OpenCut.Repository.RestoreRuns
import OpenCut.Repository.Revisions

/-!
# Who is part of what

A live node is part of the section above it, and a live clip of the link group that it
names. Sections and link groups take parts while they are live. What requests do to these
ties is what patches (`Ties.Patch`) do: committing a proposal of puts commits its patch
(`EditProposal.Puts.commits_patch`), and a restore ties everything as it was captured
(`tie_of_restored`).
-/

namespace OpenCut

open Outcome Ties Content Option EntityState

/-! ## Ties -/

/-- A node is part of the section above it. A section takes parts. -/
def nodeTie (parentID : Option ID) (kind : NarrativeNodeKind) (tombstoned : Bool) :
    Tie EntityKey where
  owner := if tombstoned then none else parentID.map fun id => ⟨.narrativeNode, id⟩
  holds := !tombstoned && kind == .section

/-- A clip is part of the link group that it names; other entities have no ties. -/
def EntityState.tie : EntityState → Tie EntityKey
  | .narrativeNode s => nodeTie s.parentID s.kind s.tombstoned
  | .clip s => ⟨if s.tombstoned then none else s.linkGroupID.map fun id => ⟨.linkGroup, id⟩, false⟩
  | .linkGroup s => ⟨none, !s.tombstoned⟩
  | _ => .loose

/-- The kinds of entities that have ties. -/
def EditEntityKind.tied : EditEntityKind → Bool
  | .narrativeNode | .clip | .linkGroup => true
  | _ => false

namespace EntityState

@[simp]
theorem tie_withRevision (s : EntityState) (r : Revision) : (s.withRevision r).tie = s.tie := by
  cases s <;> rfl

@[simp]
theorem tie_storedOver (old : Option EntityState) (s : EntityState) :
    (EntityState.storedOver old s).tie = s.tie := by
  cases old with
  | none => rfl
  | some old => cases old <;> cases s <;> rfl

/-- What is taken out of the project is loose. -/
@[simp]
theorem tie_retired (s : EntityState) : s.retired.tie = .loose := by
  cases s <;> rfl

@[simp]
theorem tie_outside (s : EntityState) : s.outside.tie = .loose := by
  cases s <;> rfl

@[simp]
theorem tie_unrevised (s : EntityState) : s.unrevised.tie = s.tie := by
  cases s <;> rfl

variable {s : EntityState}

theorem tie_of_unrevised {s' : EntityState} (h : s'.unrevised = s.unrevised) : s'.tie = s.tie := by
  rw [← tie_unrevised s', h, tie_unrevised]

theorem tie_of_not_tied (h : s.key.kind.tied = false) : s.tie = .loose := by
  cases s with
  | narrativeNode => cases h
  | clip => cases h
  | linkGroup => cases h
  | _ => rfl

/-- A live node is part of the section above it. -/
theorem owner_eq_node {id : ID} : s.tie.owner = some ⟨.narrativeNode, id⟩ ↔
      ∃ node, s = .narrativeNode node ∧ node.tombstoned = false ∧ node.parentID = some id := by
  cases s <;> simp [tie, nodeTie, Tie.loose]

/-- A live clip is part of the link group that it names. -/
theorem owner_eq_linkGroup {id : ID} : s.tie.owner = some ⟨.linkGroup, id⟩ ↔
      ∃ clip, s = .clip clip ∧ clip.tombstoned = false ∧ clip.linkGroupID = some id := by
  cases s <;> simp [tie, nodeTie, Tie.loose]

/-- Nothing else has parts. -/
theorem kind_of_owner {k : EntityKey} (h : s.tie.owner = some k) :
    k.kind = .narrativeNode ∨ k.kind = .linkGroup := by
  cases s with
  | narrativeNode s =>
    simp only [tie, nodeTie, ite_none_left_eq_some, map_eq_some_iff] at h
    obtain ⟨-, id, -, rfl⟩ := h
    exact .inl rfl
  | clip s =>
    simp only [tie, ite_none_left_eq_some, map_eq_some_iff] at h
    obtain ⟨-, id, -, rfl⟩ := h
    exact .inr rfl
  | _ => cases h

end EntityState

/-- The tie of a row. -/
def NarrativeNodeRow.tie (row : NarrativeNodeRow) : Tie EntityKey :=
  nodeTie row.parentID row.value.kind row.tombstoned

namespace Content

variable {c c' : Content}

/-- The tie of the entity that is stored. -/
def tie (c : Content) (key : EntityKey) : Tie EntityKey := ((c.load? key).map (·.tie)).getD .loose

variable {key : EntityKey}

theorem tie_of_load? {s : EntityState} (h : c.load? key = some s) : c.tie key = s.tie := by
  rw [tie, h, map_some, getD_some]

theorem tie_of_load?_none (h : c.load? key = none) : c.tie key = .loose := by
  rw [tie, h, map_none, getD_none]

theorem load?_of_owner {owner : EntityKey} (h : (c.tie key).owner = some owner) :
    ∃ s, c.load? key = some s ∧ s.tie.owner = some owner := by
  cases hload : c.load? key with
  | none =>
    rw [tie_of_load?_none hload] at h
    cases h
  | some s => exact ⟨s, rfl, tie_of_load? hload ▸ h⟩

/-- The tie of a node does not depend on its index. -/
theorem tie_node (c : Content) (id : ID) :
    c.tie ⟨.narrativeNode, id⟩ = ((c.nodes.unplaced? id).map (·.tie)).getD .loose := by
  rw [tie, load?, if_pos rfl, loadNode?, NarrativeTable.unplaced?, map_map, map_map, map_map]
  rfl

theorem tie_entity (h : key.kind ≠ .narrativeNode) :
    c.tie key = ((c.entities.find? key).map (·.tie)).getD .loose := by
  rw [tie, load?_entity h]

/-- Ties after the nodes have changed. -/
theorem tie_nodes {nodes : NarrativeTable} (hnodes : ∀ id,
      ((nodes.unplaced? id).map (·.tie)).getD .loose = c.tie ⟨.narrativeNode, id⟩) :
    tie { c with nodes } = c.tie := by
  funext key
  by_cases hkind : key.kind = .narrativeNode
  · obtain ⟨_, id⟩ := key
    cases hkind
    rw [tie_node, hnodes]
  · rw [tie_entity hkind, tie_entity hkind]

/-- A put ties its entity. -/
theorem tie_applyPut {root : ID} {changes : List EntityRevisionChange} {s : EntityState}
    (hrooted : c.nodes.Rooted root) (h : c.applyPut changes s = .ok c') (key : EntityKey) :
    c'.tie key = if key = s.key then s.tie else c.tie key := by
  rcases applyPut_cases h with ⟨node, _, rfl, hnodes, rfl⟩ | ⟨hkind, -, -, rfl⟩
  · obtain ⟨_, -, -, hput⟩ := hrooted.putNode hnodes
    have hvalue : (node.storedValue (c.nodes.find? node.id)).kind = node.kind := by
      cases hold : c.nodes.find? node.id with
      | none => rfl
      | some old =>
        have hkind := hput.kind old hold
        exact (NarrativeNodeState.kind_updatedValue hkind).trans hkind
    by_cases hkind : key.kind = .narrativeNode
    · obtain ⟨kind, id⟩ := key
      cases hkind
      simp only [tie_node, hput.rows id, key, EntityKey.mk.injEq, true_and]
      split
      · rw [map_some, getD_some, NarrativeNodeRow.tie, hvalue]
        rfl
      · rfl
    · rw [tie_entity hkind, if_neg, tie_entity hkind]
      rintro rfl
      exact hkind rfl
  · by_cases hnode : key.kind = .narrativeNode
    · have hne : key ≠ s.key := fun heq => hkind (heq ▸ hnode)
      obtain ⟨_, id⟩ := key
      cases hnode
      rw [if_neg hne, tie_node, tie_node]
    · rw [tie_entity hnode, tie_entity hnode, EntityTable.find?_put, key_storedOver]
      split
      · rw [map_some, getD_some, tie_storedOver]
      · rfl

/-- Where only revisions change, ties do not. -/
theorem tie_applyAggregateRevision {change : EntityRevisionChange}
    (h : c.applyAggregateRevision change = .ok c') : c'.tie = c.tie := by
  rcases (applyAggregateRevision_cases h).2 with ⟨-, rfl⟩ | ⟨-, rfl⟩ | ⟨row, -, hrow, rfl⟩ |
    ⟨row, -, -, rfl⟩
  · rfl
  · rfl
  · refine tie_nodes fun id => ?_
    rw [NarrativeTable.unplaced?_set, tie_node]
    split
    · next hid =>
      rw [hid, NarrativeTable.unplaced?_of_find? hrow]
      rfl
    · rfl
  · rfl

/-- An asset has no ties. -/
theorem tie_putAsset (c : Content) (asset : AssetState) :
    tie { c with entities := c.entities.put (.asset asset) } = c.tie := by
  funext key
  by_cases hkind : key.kind = .narrativeNode
  · obtain ⟨_, id⟩ := key
    cases hkind
    rw [tie_node, tie_node]
  · rw [tie_entity hkind, tie_entity hkind, EntityTable.find?_put]
    split
    · next hkey =>
      cases hfind : c.entities.find? key with
      | none => rfl
      | some s =>
        have hs : s.key.kind.tied = false := by
          rw [EntityTable.key_of_find? hfind, hkey]
          rfl
        simp only [map_some, getD_some, tie_of_not_tied hs]
        rfl
    · rfl

/-- The entities with ties, as a world. -/
def world (c : Content) : World EntityKey where
  revision? key := if key.kind.tied then c.revision? key else none
  tie := c.tie
  absent := by
    intro key h
    cases hload : c.load? key with
    | none => exact tie_of_load?_none hload
    | some s =>
      rw [tie_of_load? hload]
      refine tie_of_not_tied ?_
      rw [c.key_of_load? hload]
      by_contra htied
      rw [if_pos (by simpa using htied), revision?_of_load? hload] at h
      cases h

theorem revision?_world_of_tied (h : key.kind.tied) :
    c.world.revision? key = c.revision? key := if_pos h

/-- Contents with the same revisions and ties are the same world. -/
theorem world_congr (hrevision : ∀ key, key.kind.tied → c'.revision? key = c.revision? key)
    (htie : c'.tie = c.tie) : c'.world = c.world := by
  have hrevisions : c'.world.revision? = c.world.revision? := by
    funext key
    by_cases htied : key.kind.tied
    · rw [revision?_world_of_tied htied, revision?_world_of_tied htied, hrevision key htied]
    · exact (if_neg htied).trans (if_neg htied).symm
  exact World.ext hrevisions htie

end Content

/-! ## Commits of puts -/

variable {states : List EntityState} {key : EntityKey}

/-- The states under their keys. -/
def tiesOf (states : List EntityState) (key : EntityKey) : Option (Tie EntityKey) :=
  if key.kind.tied then (states.find? fun s => s.key = key).map (·.tie) else none

/-- What puts with these changes do to ties. -/
def tiesPatch (changes : List EntityRevisionChange) (states : List EntityState) :
    Patch EntityKey where
  change key := if key.kind.tied then
    (changes.find? fun change => change.key = key).map fun change => (change.before, change.after)
    else none
  put := tiesOf states

/-- What the proposal does to ties. -/
abbrev EditProposal.patch (proposal : EditProposal) (states : List EntityState) : Patch EntityKey :=
  tiesPatch proposal.changes states

theorem tiesOf_eq_some (h : (states.map (·.key)).Nodup) {t : Tie EntityKey} :
    tiesOf states key = some t ↔ key.kind.tied ∧ ∃ s ∈ states, s.key = key ∧ s.tie = t := by
  simp only [tiesOf, ite_none_right_eq_some, map_eq_some_iff, Keyed.find?_key h, and_assoc]

theorem tiesOf_eq_none : tiesOf states key = none ↔ (key.kind.tied → key ∉ states.map (·.key)) := by
  simp only [tiesOf, ite_eq_right_iff, map_eq_none_iff, List.find?_eq_none,
    decide_eq_true_eq, List.mem_map, not_exists, not_and]

theorem change_eq_some {changes : List EntityRevisionChange} (h : (changes.map (·.key)).Nodup)
    {c : Option ℕ × ℕ} :
    (tiesPatch changes states).change key = some c ↔ key.kind.tied ∧
      ∃ change ∈ changes, change.key = key ∧ (change.before, change.after) = c := by
  simp only [tiesPatch, ite_none_right_eq_some, map_eq_some_iff, Keyed.find?_key h, and_assoc]

theorem change_eq_none {changes : List EntityRevisionChange} :
    (tiesPatch changes states).change key = none ↔ (key.kind.tied → key ∉ changes.map (·.key)) := by
  simp only [tiesPatch, ite_eq_right_iff, map_eq_none_iff, List.find?_eq_none,
    decide_eq_true_eq, List.mem_map, not_exists, not_and]

namespace EditProposal.Puts

variable {proposal : EditProposal} {states : List EntityState} {p p' : Project}
  {t : EditTransaction}

/-- Ties after a transaction of puts. -/
theorem tie_of_applyTransaction (h : proposal.Puts states) {q : Project} {root : ID} {c : Content}
    (hrooted : q.content.nodes.Rooted root)
    (hoperations : t.operations = proposal.operations) (happlied : q.applyTransaction t = .ok c) :
    (∀ s ∈ states, c.tie s.key = s.tie) ∧
      ∀ key ∉ states.map (·.key), c.tie key = q.content.tie key := by
  obtain ⟨d, hd, happlied⟩ := bind_ok.1 happlied
  rw [hoperations, h.operations, List.foldlM_map] at hd
  obtain ⟨-, hputs, hkept⟩ := foldlM_writes_under (fun c => c.nodes.Rooted root) tie
    (·.key) (·.tie) (fun c s c' hc hput =>
      ⟨rooted_write hc (.put hput), tie_applyPut hc hput⟩) h.distinct hrooted hd
  have htie : c.tie = d.tie := by
    refine foldlM_invariant (fun c => c.tie = d.tie) (fun change _ c c' hc hchange => ?_) rfl
      happlied
    exact (tie_applyAggregateRevision hchange).trans hc
  rw [htie]
  exact ⟨hputs, hkept⟩

/-- Committing the proposal commits its patch. -/
theorem commits_patch (h : proposal.Puts states) {root : ID}
    (hrooted : p.content.nodes.Rooted root) (hcommits : p.Commits proposal t p') :
    (proposal.patch states).Commits p.content.world p'.content.world := by
  have hadvances := h.advances_of_commits hcommits
  obtain ⟨hputs, hkept⟩ : (∀ s ∈ states, p'.content.tie s.key = s.tie) ∧
      ∀ key ∉ states.map (·.key), p'.content.tie key = p.content.tie key := by
    obtain ⟨id, _, rfl⟩ := hcommits.transaction
    exact h.tie_of_applyTransaction (q := { p with versions := p'.versions }) hrooted rfl
      hcommits.applied
  refine ⟨fun key c hc => ?_, fun key c hc => ?_, fun key hnone => ?_, funext fun key => ?_⟩
  · obtain ⟨htied, change, hchange, rfl, rfl⟩ := (change_eq_some h.nodup).1 hc
    rw [revision?_world_of_tied htied]
    exact (hadvances.changes change hchange).1
  · obtain ⟨htied, change, hchange, rfl, rfl⟩ := (change_eq_some h.nodup).1 hc
    rw [revision?_world_of_tied htied]
    exact (hadvances.changes change hchange).2
  · by_cases htied : key.kind.tied
    · rw [revision?_world_of_tied htied, revision?_world_of_tied htied]
      refine hadvances.kept key (change_eq_none.1 hnone htied) ?_ ?_
      · rintro rfl
        cases htied
      · rintro rfl
        cases htied
    · exact (if_neg htied).trans (if_neg htied).symm
  · change p'.content.tie key = (tiesOf states key).getD (p.content.tie key)
    cases hput : tiesOf states key with
    | some t =>
      obtain ⟨-, s, hs, rfl, rfl⟩ := (tiesOf_eq_some h.distinct).1 hput
      exact hputs s hs
    | none =>
      by_cases hkey : key ∈ states.map (·.key)
      · obtain ⟨s, hs, rfl⟩ := List.mem_map.1 hkey
        have htied : ¬s.key.kind.tied := fun htied => tiesOf_eq_none.1 hput htied hkey
        have hloose : p.content.tie s.key = .loose := by
          refine p.content.world.absent s.key ?_
          exact if_neg htied
        rw [hputs s hs, getD_none, hloose]
        exact tie_of_not_tied (by simpa using htied)
      · exact hkept key hkey

end EditProposal.Puts

/-! ## Restores -/

/-- The tie of an entity of the version. -/
def ProjectVersionState.tie (v : ProjectVersionState) (key : EntityKey) : Tie EntityKey :=
  if key.kind = .narrativeNode then
    ((v.node? key.id).map fun node => (EntityState.narrativeNode node).tie).getD .loose
  else ((v.entity? key).map (·.tie)).getD .loose

/-- A version has the ties of what it captures. -/
theorem Captures.tie_eq {c : Content} {v : ProjectVersionState} (h : Captures c v) :
    v.tie = c.tie := by
  funext key
  unfold ProjectVersionState.tie Content.tie Content.load?
  split
  · rw [h.node?_eq, map_map]
    rfl
  · next hkind => rw [h.entity?_eq hkind]

section

variable {c c' : Content} {current v : ProjectVersionState} {changes : List EntityRevisionChange}

/-- A restore gives everything the ties of the version. -/
theorem tie_of_restored {root : ID} (hv : Restorable c v) (hcurrent : Captures c current)
    (hnodes : NodesRestored root v c c')
    (hentities : EntitiesRestored changes current v
      [.asset, .transcriptCorrection, .linkGroup, .clip, .caption, .alignment] c c') :
    c'.tie = v.tie := by
  funext key
  by_cases hkind : key.kind = .narrativeNode
  · obtain ⟨_, id⟩ := key
    cases hkind
    rw [tie_node, ProjectVersionState.tie, if_pos rfl]
    dsimp only
    cases hnode : v.node? id with
    | none =>
      cases hold : c.nodes.unplaced? id with
      | none => rw [hnodes.fresh id hold]; rfl
      | some old =>
        rw [hnodes.absent id hnode old hold]
        rfl
    | some node =>
      obtain rfl : node.id = id := by simpa using List.find?_some hnode
      obtain ⟨old, -, hput⟩ := hnodes.nodes node (List.mem_of_find?_eq_some hnode)
      rw [hput]
      rfl
  · rw [tie_entity hkind, ProjectVersionState.tie, if_neg hkind]
    rcases hentities.entity hv hcurrent hkind with ⟨hnone, hnone'⟩ | ⟨s, _, hs, hstored, hvalue, -⟩
    · cases hentity : v.entity? key with
      | none => rw [hnone']
      | some e =>
        -- What the version has is still there.
        have hkey : e.key = key := by simpa using List.find?_some hentity
        have hmem := List.mem_of_find?_eq_some hentity
        obtain ⟨old, hold, -⟩ := (has_iff (hv.kinds e hmem)).1 (hv.has_entities e hmem)
        rw [hkey, hnone] at hold
        cases hold
    · obtain rfl := EntityTable.key_of_find? hs
      rw [hstored, map_some, getD_some,
        tie_of_unrevised (restoredEntity_ok hvalue).2.1, ProjectVersionState.restored]
      cases hentity : v.entity? s.key with
      | none => simp
      | some e => simp

end

end OpenCut
