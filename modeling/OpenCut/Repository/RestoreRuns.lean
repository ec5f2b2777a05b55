import OpenCut.Repository.Restore

/-!
# Restores in a run

In every run, the nodes of the project hang together and every stored version can be gone
back to (`Project.Wellformed`): what updates do not write has not changed since it was
captured. So a restore that is accepted is exact (`restore_exact`): the nodes have their
payloads, parents and order, the other entities everything but their revisions; what the
version does not know is retired. Every revision advances by one, but not those of the
tracks (`restore_keeps_tracks`). Exact alignments are at the new revisions of what they
refer to.
-/

namespace OpenCut

open Outcome NarrativeTable Content EntityTable EntityState Option Project

/-! ## The versions of a run -/

theorem restorable_of_load {root : ID} {revision : Revision} {c : Content}
    {v : ProjectVersionState} (hrooted : c.nodes.Rooted root)
    (h : loadProjectVersionState revision c = .ok v) : Restorable c v := by
  have hcaptures := captures_of_load h
  refine ⟨⟨hcaptures.nodes_nodup, fun node hnode parent hlive =>
    after_of_load hrooted h hnode hlive,
    fun node hnode => ?_⟩, hcaptures.entities_nodup, fun s hs => (hcaptures.mem_entities.1 hs).2,
    fun s hs => ?_⟩
  · exact has_of_load? (load?_node.2 (hcaptures.mem_nodes.1 hnode))
  · obtain ⟨hfind, hkind⟩ := hcaptures.mem_entities.1 hs
    exact has_of_load? ((load?_entity hkind).trans hfind)

theorem Restorable.writes {root : ID} {c c' : Content} {v : ProjectVersionState}
    (hv : Restorable c v) (hrooted : c.nodes.Rooted root) (h : Content.Writes c c') :
    Restorable c' v :=
  ⟨⟨hv.nodes_nodup, hv.after, fun node hnode => has_writes hrooted (hv.has_nodes node hnode) h⟩,
    hv.entities_nodup, hv.kinds, fun s hs => has_writes hrooted (hv.has_entities s hs) h⟩

/-- The nodes of the project hang together, and it can go back to each of its versions. -/
structure Project.Wellformed (root : ID) (p : Project) : Prop where
  rooted : p.content.nodes.Rooted root
  versions : ∀ {id version}, p.versions.find? id = some version → Restorable p.content version.state

theorem rooted_genesis (ids : GenesisIDs) : (genesisContent ids).nodes.Rooted ids.rootSection := by
  have hrow : ∀ {id row}, (genesisContent ids).nodes.unplaced? id = some row →
      id = ids.rootSection ∧ row.parentID = none := by
    intro id row h
    rw [genesisContent, unplaced?_set] at h
    split at h
    · next hid => exact ⟨hid, by rw [← some.inj h]⟩
    · simp [unplaced?] at h
  have hordered : (genesisContent ids).nodes.Ordered fun _ => [] := by
    intro parent i k
    rw [genesisContent, rank_set]
    simp [NarrativeNodeRow.liveUnder, rank]
  refine ⟨⟨_, by rw [genesisContent, unplaced?_set, if_pos rfl], rfl, rfl⟩,
    fun h _ => (hrow h).1, fun h hparent => ?_, hordered.children_eq ▸ hordered⟩
  rw [(hrow h).2] at hparent
  cases hparent

namespace Project.Wellformed

variable {root : ID} {p p' : Project}

theorem genesis (ids : GenesisIDs) (createdAt : Nat) :
    Project.Wellformed ids.rootSection (genesis ids createdAt) := by
  refine ⟨rooted_genesis ids, fun {id version} h => ?_⟩
  rcases Table.of_find?_set h with ⟨-, rfl⟩ | h
  · exact restorable_of_load (rooted_genesis ids) (loadProjectVersionState_genesis ids createdAt)
  · cases h

theorem serve [Uniseg] {request : Request} (hp : p.Wellformed root)
    (h : p.serve request = .ok p') : p'.Wellformed root := by
  have hwrites := writes_of_serve h
  refine ⟨hwrites.invariant (·.nodes.Rooted root) (fun _ _ => rooted_write) hp.rooted,
    fun {id version} hversion => ?_⟩
  rcases versions_of_serve h hversion with hold | hcaptured
  · exact (hp.versions hold).writes hp.rooted hwrites
  · exact (restorable_of_load hp.rooted hcaptured.2).writes hp.rooted hwrites

theorem of_reaches [Uniseg] {allowed : Project → Request → Prop} {ids : GenesisIDs}
    {createdAt : Nat} (h : Project.Reaches allowed (OpenCut.genesis ids createdAt) p) :
    p.Wellformed ids.rootSection :=
  Machine.Reaches.invariant (Project.Wellformed ids.rootSection) h
    (fun _ _ _ _ hp hserve => hp.serve hserve) (genesis ids createdAt)

end Project.Wellformed

/-! ## The restore -/

/-- The entity is taken out of the project: tombstoned or, for an alignment, unbound. -/
def EntityState.Retired : EntityState → Prop
  | .alignment s => s.status = .unbound
  | s => s.tombstoned

/-- The project `p'` is what going back from `p` to the version makes of it. -/
structure Restored (p : Project) (v : ProjectVersionState) (p' : Project) : Prop where
  /-- The nodes of the version have their parents, payloads and liveness. -/
  nodes : ∀ node ∈ v.narrativeNodes, ∃ node', p'.content.loadNode? node.id = some node' ∧
    node'.parentID = node.parentID ∧ node'.value = node.value ∧ node'.tombstoned = node.tombstoned
  /-- The live children of every section are those of the version, in the same order. -/
  children : p'.content.nodes.children = v.children
  /-- Other nodes are tombstoned. -/
  otherNodes : ∀ id node', p'.content.loadNode? id = some node' → v.node? id = none →
    node'.tombstoned
  /-- The other entities are what they were, apart from revisions. -/
  entities : ∀ s ∈ v.entities, ∃ s', p'.content.entities.find? s.key = some s' ∧
    s'.unrevised = s.unrevised
  /-- Entities that the version does not have are retired. -/
  otherEntities : ∀ key s', key.kind ≠ .narrativeNode → p'.content.entities.find? key = some s' →
    v.entity? key = none → s'.Retired
  /-- Every revision but those of tracks advances by one. -/
  revisions : ∀ key revision, key.kind ≠ .track → p.content.revision? key = some revision →
    p'.content.revision? key = some (revision + 1)
  /-- Tracks keep their revisions. -/
  tracks : p'.content.tracks = p.content.tracks
  /-- Exact alignments record the revisions of what they refer to. -/
  alignments : ∀ id s, p'.content.entities.alignment? id = some s → s.status = .exact →
    s.CurrentIn p'.content

section

variable {p p' : Project} {reference : ProjectVersionRestoreRef} {proposal : EditProposal}

section

variable (hoperations : proposal.operations = [.restoreProjectVersion reference])
include hoperations

theorem transactionChanges_of_restore {c : Content} (hchanges : proposal.changes = []) :
    c.transactionChanges proposal = [c.documentChange, c.sequenceChange] := by
  have hle : EntityKey.le c.documentChange.key c.sequenceChange.key = true := rfl
  simp [transactionChanges, hoperations, hchanges, proposalChangesNarrative,
    proposalChangesSequence, hle]

theorem applyTransaction_of_restore {q : Project} {transactionID : ID}
    {undoes : Option ID} {c' : Content}
    (hchanges : proposal.changes = [])
    (h : q.applyTransaction (q.transactionOf proposal transactionID undoes) = .ok c') :
    ∃ c, q.content.restoreVersionState reference.digest q.revision = .ok c ∧ c' = { c with
        documentRevision := c.documentRevision + 1
        sequenceRevision := c.sequenceRevision + 1 } := by
  simp only [applyTransaction, transactionOf, hoperations,
    transactionChanges_of_restore hoperations hchanges, List.foldlM_cons, List.foldlM_nil, bind_ok,
    pure_ok, applyNormalizedOperation, applyProjectVersionRestore, ensure_ok] at h
  obtain ⟨c, ⟨_, ⟨_, -, _, hstate, hc⟩, rfl⟩, h⟩ := h
  have hfilter : [q.content.documentChange, q.content.sequenceChange].filter
      (isAggregateChange [.restoreProjectVersion reference]) =
      [q.content.documentChange, q.content.sequenceChange] := rfl
  rw [hfilter] at h
  simp only [List.foldlM_cons, List.foldlM_nil, applyAggregateRevision, documentChange,
    sequenceChange, steps_ok, some.injEq] at h
  obtain ⟨_, ⟨_, rfl, ⟨-, hdocument⟩, rfl⟩, _, ⟨_, rfl, ⟨-, hsequence⟩, rfl⟩, rfl⟩ := h
  refine ⟨_, hstate ▸ hc, ?_⟩
  rw [← hdocument, ← hsequence]

end

/-- A restore that is served changes the content by `restoreVersionState` and advances the
    document and the sequence. -/
theorem content_of_restore {record : RestoreProjectVersionRecord}
    (hfresh : p.versionRequests.find? (record.creator, record.requestID) = none)
    (h : p.restoreProjectVersion record = .ok p') :
    ∃ version c, p.versions.find? record.versionID = some version ∧
      p.content.restoreVersionState version.state p.revision = .ok c ∧
      p'.content = { c with
        documentRevision := c.documentRevision + 1
        sequenceRevision := c.sequenceRevision + 1 } := by
  rcases restoreProjectVersion_cases h with ⟨hreplayed, -⟩ | ⟨_, _, q, _,
    _, _, q', htarget, -, -, -, -, hq, hproposal, -, hq', hp'⟩
  · rw [hfresh] at hreplayed
    cases hreplayed
  · simp only [loadStoredProjectVersionState, steps_ok] at htarget
    obtain ⟨version, hversion, -, rfl⟩ := htarget
    obtain ⟨-, -, _, hcontent, rfl⟩ := commitProposal_ok.1 hq'
    have hframe := insertProjectVersionSnapshot_frame hq
    obtain ⟨c, hc, hcontent⟩ := applyTransaction_of_restore (by rw [hproposal]; rfl)
      (by rw [hproposal]; rfl) hcontent
    rw [hframe] at hc
    exact ⟨version, c, hversion, hc, by rw [hp', hcontent]⟩

end

/-! ## The entities after a restore -/

theorem EntityState.retired_of_unrevised {s s' : EntityState}
    (h : s'.unrevised = s.outside.unrevised) : s'.Retired := by
  cases s <;> cases s' <;> simp_all [unrevised, outside, retired,
    withRevision, EntityState.Retired, tombstoned]

section

variable {c c' : Content} {current v : ProjectVersionState} {changes : List EntityRevisionChange}
  {s : EntityState}

/-- An update to what the restore puts writes all of it. -/
theorem updating_of_restoredEntity {sequenceRevision : Revision} {value : EntityState}
    (hv : Restorable c v) (hs : c.entities.find? s.key = some s)
    (hvalue : restoredEntity changes sequenceRevision v s = .ok value) :
    s.updating value = value := by
  refine updating_of_unrevised (v.key_restored s) ?_ (restoredEntity_ok hvalue).2.1
  rw [ProjectVersionState.restored]
  cases hentity : v.entity? s.key with
  | none => cases s <;> rfl
  | some e =>
    have hmem := List.mem_of_find?_eq_some hentity
    have hkey : e.key = s.key := by simpa using List.find?_some hentity
    obtain ⟨old, hold, hsame⟩ := (has_iff (hv.kinds e hmem)).1 (hv.has_entities e hmem)
    rw [hkey, hs] at hold
    obtain ⟨⟩ := hold
    exact hsame

variable {key : EntityKey}

/-- What became of every entity of the project. -/
theorem EntitiesRestored.entity (hv : Restorable c v) (hcurrent : Captures c current)
    (h : EntitiesRestored changes current v
      [.asset, .transcriptCorrection, .linkGroup, .clip, .caption, .alignment] c c')
    (hkind : key.kind ≠ .narrativeNode) :
    (c.entities.find? key = none ∧ c'.entities.find? key = none) ∨
    ∃ s value, c.entities.find? key = some s ∧ c'.entities.find? key = some value ∧
      restoredEntity changes c.sequenceRevision v s = .ok value ∧
      ∀ a, value = .alignment a → (c.nodes.find? a.narrativeNodeID).isSome := by
  cases hfind : c.entities.find? key with
  | none =>
    refine .inl ⟨rfl, ?_⟩
    rw [h.other key fun hmem => ?_, hfind]
    obtain ⟨s, hs, rfl⟩ := List.mem_map.1 hmem
    rw [(hcurrent.mem_entities.1 hs).1] at hfind
    cases hfind
  | some s =>
    have hkey := key_of_find? hfind
    rw [← hkey] at hfind hkind
    have hmem : s ∈ current.entities := hcurrent.mem_entities.2 ⟨hfind, hkind⟩
    have hlisted : s.key.kind ∈
        [EditEntityKind.asset, .transcriptCorrection, .linkGroup, .clip, .caption, .alignment] := by
      cases s with
      | narrativeNode => exact absurd rfl hkind
      | _ => simp [EntityState.key]
    obtain ⟨value, hvalue, hstored, hnode⟩ := h.done s hmem hlisted
    rw [hcurrent.sequenceRevision] at hvalue
    rw [hfind, storedOver, updating_of_restoredEntity hv hfind hvalue, hkey] at hstored
    exact .inr ⟨s, value, rfl, hstored, hvalue, hnode⟩

/-- The revision of an entity before and after. -/
theorem Advances.revision? (hadvances : Advances c changes)
    {change : EntityRevisionChange} (hchange : changeIndex changes key = some change) :
    ∃ s, c.load? key = some s ∧ change.after = s.revision + 1 := by
  have hkey := hadvances key
  rw [hchange] at hkey
  cases hload : c.load? key with
  | none => simp [hload] at hkey
  | some s =>
    simp only [hload, map_some, some.injEq, Prod.mk.injEq] at hkey
    exact ⟨s, rfl, hkey.2⟩

theorem Advances.exists_change (hadvances : Advances c changes)
    (hs : c.load? key = some s) : ∃ change, changeIndex changes key = some change := by
  have hkey := hadvances key
  rw [hs] at hkey
  obtain ⟨change, hchange, -⟩ := map_eq_some_iff.1 hkey
  exact ⟨change, hchange⟩

theorem NodesRestored.revision? {root : ID} (h : NodesRestored root v c c') {id : ID}
    {revision : Revision} (hid : c.revision? ⟨.narrativeNode, id⟩ = some revision) :
    c'.revision? ⟨.narrativeNode, id⟩ = some (revision + 1) := by
  simp only [Content.revision?, map_eq_some_iff] at hid ⊢
  obtain ⟨row, hrow, rfl⟩ := hid
  have hold := unplaced?_of_find? hrow
  cases hnode : v.node? id with
  | none =>
    obtain ⟨index, hrow'⟩ := find?_of_unplaced? (h.absent id hnode _ hold)
    exact ⟨_, hrow', rfl⟩
  | some node =>
    obtain rfl : node.id = id := by simpa using List.find?_some hnode
    obtain ⟨old, hold', hput⟩ := h.nodes node (List.mem_of_find?_eq_some hnode)
    rw [hold] at hold'
    obtain ⟨⟩ := hold'
    obtain ⟨_, hrow'⟩ := find?_of_unplaced? hput
    exact ⟨_, hrow', rfl⟩

theorem Content.revision?_of_load?
    (h : c.load? key = some s) : c.revision? key = some s.revision := by
  have hkey := c.key_of_load? h
  subst hkey
  cases s with
  | narrativeNode node =>
    obtain ⟨row, hrow, hnode⟩ := loadNode?_eq_some.1 (load?_node.1 h)
    simp only [key, revision?, hrow, map_some]
    rw [EntityState.revision, ← hnode]
    rfl
  | _ => simp_all [load?, revision?, key]

/-- The heads above the content advance. -/
def Content.advanceHeads (c : Content) : Content :=
  { c with
    documentRevision := c.documentRevision + 1, sequenceRevision := c.sequenceRevision + 1 }

section

variable {root : ID} (hv : Restorable c v) (hcurrent : Captures c current)
  (hadvances : Advances c changes) (hnodes : NodesRestored root v c c')
  (hentities : EntitiesRestored changes current v
    [.asset, .transcriptCorrection, .linkGroup, .clip, .caption, .alignment] c c')
include hv hcurrent hadvances hnodes hentities

theorem revision?_of_restored {revision : Revision}
    (hkind : key.kind ≠ .track) (h : c.revision? key = some revision) :
    c'.advanceHeads.revision? key = some (revision + 1) := by
  have hentity : ∀ s, key.kind ≠ .narrativeNode → c.entities.find? key = some s →
      (c'.entities.find? key).map (·.revision) = some (s.revision + 1) := by
    intro s hnode hs
    rcases hentities.entity hv hcurrent hnode with ⟨hnone, -⟩ | ⟨s', _, hs', hstored, hvalue, -⟩
    · cases hnone.symm.trans hs
    · obtain rfl := mem_unique hs' hs
      obtain ⟨-, -, _, hchange, -, hrevision⟩ := restoredEntity_ok hvalue
      obtain ⟨_, hload, hafter⟩ := hadvances.revision? hchange
      rw [key_of_find? hs, load?_entity hnode, hs] at hload
      obtain ⟨⟩ := hload
      rw [hstored, map_some, hrevision, hafter]
  have hframe := hentities.frame
  obtain ⟨kind, id⟩ := key
  cases kind with
  | narrativeDocument | sequence =>
    rw [hframe]
    simp only [revision?, advanceHeads] at h ⊢
    split at h
    · next hid => exact (if_pos hid).trans (by rw [some.inj h])
    · cases h
  | narrativeNode => exact hnodes.revision? h
  | track => exact absurd rfl hkind
  | _ =>
    obtain ⟨s, hs, rfl⟩ := map_eq_some_iff.1 h
    exact hentity s (by simp) hs

/-- Exact alignments are at the revisions that the restore gives. -/
theorem currentIn_of_restored {id : ID} {a : AlignmentState}
    (ha : c'.entities.alignment? id = some a) (hexact : a.status = .exact) :
    a.CurrentIn c'.advanceHeads := by
  have hrevision : ∀ {key change}, key.kind ≠ .track → changeIndex changes key = some change →
      c'.advanceHeads.revision? key = some change.after := by
    intro key change hkind hchange
    obtain ⟨s, hload, hafter⟩ := hadvances.revision? hchange
    rw [hafter]
    exact revision?_of_restored hv hcurrent hadvances hnodes hentities hkind
      (revision?_of_load? hload)
  have hfind := alignment?_eq_some.1 ha
  have hkind : (⟨.alignment, id⟩ : EntityKey).kind ≠ .narrativeNode := by simp
  rcases hentities.entity hv hcurrent hkind with ⟨-, hnone⟩ | ⟨s, _, -, hstored, hvalue, hnode⟩
  · cases hnone.symm.trans hfind
  · obtain rfl := mem_unique hstored hfind
    obtain ⟨hstamp, htargets⟩ := restamped_restoredEntity hvalue hexact
    refine ⟨?_, fun target htarget => ?_⟩
    · obtain ⟨row, hrow⟩ := isSome_iff_exists.1 (hnode a rfl)
      have hload : c.load? ⟨.narrativeNode, a.narrativeNodeID⟩ =
          some (.narrativeNode (c.nodeState a.narrativeNodeID row)) := by
        rw [load?, if_pos rfl, loadNode?, hrow]
        rfl
      obtain ⟨change, hchange⟩ := hadvances.exists_change hload
      rw [hstamp change hchange]
      exact hrevision (by simp) hchange
    · have hrestamped := htargets target htarget
      cases target with
      | caption =>
        obtain ⟨change, hchange, rfl⟩ := hrestamped
        exact hrevision (by simp) hchange
      | clip =>
        obtain ⟨_, hchange, rfl⟩ := hrestamped
        exact hrevision (by simp) hchange
      | timeline =>
        rw [AlignmentTarget.CurrentIn, hentities.frame]
        exact hrestamped.symm

end

end

/-! ## Restores are exact -/

/-- In every run, a restore that is served goes back to the version: its content is again
    that of the project, what came later is retired, and everything but the tracks is at
    its next revision. The tracks keep theirs, so that a proposal made before the restore
    may still be applied after it. -/
theorem restore_exact [Uniseg] {ids : GenesisIDs} {createdAt : Nat} {p p' : Project}
    {record : RestoreProjectVersionRecord} {version : ProjectVersion}
    (hp : Project.Reaches (fun _ _ => True) (genesis ids createdAt) p)
    (hfresh : p.versionRequests.find? (record.creator, record.requestID) = none)
    (hversion : p.versions.find? record.versionID = some version)
    (h : p.serve (.restoreProjectVersion record) = .ok p') : Restored p version.state p' := by
  have hwell := Project.Wellformed.of_reaches hp
  obtain ⟨_, c, hversion', hc, hcontent⟩ := content_of_restore hfresh h
  obtain rfl := mem_unique hversion hversion'
  have hv := hwell.versions hversion
  obtain ⟨_, _, hcurrent, hadvances, hnodes, hentities⟩ :=
    restored_of_restoreVersionState hwell.rooted hv hc
  have hheads : p'.content = c.advanceHeads := hcontent
  have hstate : p'.content.nodes = c.nodes ∧ p'.content.entities = c.entities := by
    rw [hheads]
    exact ⟨rfl, rfl⟩
  have hloaded : ∀ {id row}, c.nodes.unplaced? id = some row → ∃ node',
      p'.content.loadNode? id = some node' ∧ node'.parentID = row.parentID ∧
        node'.value = row.value ∧ node'.tombstoned = row.tombstoned := by
    intro id row hrow
    obtain ⟨_, hfind⟩ := find?_of_unplaced? hrow
    rw [← hstate.1] at hfind
    exact ⟨_, loadNode?_eq_some.2 ⟨_, hfind, rfl⟩, rfl, rfl, rfl⟩
  refine ⟨fun node hnode => ?_, ?_, fun id node' hnode' hnone => ?_, fun s hs => ?_,
    fun key s' hkind hs' hnone => ?_, fun key revision hkind hrevision => ?_, ?_,
    fun id s hs hexact => ?_⟩
  · obtain ⟨old, -, hput⟩ := hnodes.nodes node hnode
    exact hloaded hput
  · rw [hstate.1]
    exact hnodes.children
  · obtain ⟨row, hrow, rfl⟩ := loadNode?_eq_some.1 hnode'
    rw [hstate.1] at hrow
    have hplaced := unplaced?_of_find? hrow
    cases hold : p.content.nodes.unplaced? id with
    | none =>
      rw [hnodes.fresh id hold] at hplaced
      cases hplaced
    | some old =>
      rw [hnodes.absent id hnone old hold] at hplaced
      exact (congrArg NarrativeNodeRow.tombstoned (some.inj hplaced)).symm
  · have hkind := hv.kinds s hs
    obtain ⟨old, hold, -⟩ := (has_iff hkind).1 (hv.has_entities s hs)
    rcases hentities.entity hv hcurrent hkind with ⟨hnone, -⟩ | ⟨old', value, hold', hstored,
      hvalue, -⟩
    · cases hnone.symm.trans hold
    · obtain rfl := mem_unique hold' hold
      refine ⟨value, by rwa [hstate.2], ?_⟩
      have hentity : version.state.entity? old'.key = some s :=
        (Keyed.find?_key hv.entities_nodup).2 ⟨hs, (key_of_find? hold).symm⟩
      rw [(restoredEntity_ok hvalue).2.1, ProjectVersionState.restored, hentity]
      rfl
  · rw [hstate.2] at hs'
    rcases hentities.entity hv hcurrent hkind with ⟨-, hgone⟩ | ⟨s, _, hs, hstored, hvalue, -⟩
    · cases hgone.symm.trans hs'
    · obtain rfl := mem_unique hstored hs'
      refine retired_of_unrevised (s := s) ?_
      rw [(restoredEntity_ok hvalue).2.1, ProjectVersionState.restored, key_of_find? hs, hnone]
      rfl
  · rw [hheads]
    exact revision?_of_restored hv hcurrent hadvances hnodes hentities hkind hrevision
  · rw [hheads, hentities.frame]
    rfl
  · rw [hstate.2] at hs
    rw [hheads]
    exact currentIn_of_restored hv hcurrent hadvances hnodes hentities hs hexact

/-- The root section of the sample project is named. -/
def sampleNamed : List Request := [sampleNaming 1]

/-- The creator goes back to the version of the new project. -/
def sampleRestore : RestoreProjectVersionRecord where
  creator := .creator 9
  requestID := ['r']
  requestDigest := 0
  versionID := 7
  safetyVersionID := 8
  proposalID := 120
  transactionID := 220
  expectedProjectRevision := 2
  occurredAt := 1

/-- The creator keeps a version. -/
def sampleVersion : Request := .createProjectVersion {
  creator := .creator 9, requestID := ['v'], requestDigest := 0, id := 70, createdAt := 1 }

/-- A version has two notes, two clips and an alignment; then the notes change places, a clip is
    removed, and the alignment is stale. -/
def sampleChanged : List Request := sampleAligned ++ [
  sampleCommit 3 4 [⟨⟨.narrativeNode, 1⟩, 2⟩, ⟨⟨.narrativeNode, 10⟩, 1⟩]
    [⟨['m'], .narrativeNode, 11⟩]
    [.insertNarrativeNode ['m'] 1 (some (.byID 10)) (.note ['e', 'n'] ['m'])],
  sampleVersion,
  sampleCommit 4 5 [⟨⟨.narrativeNode, 1⟩, 3⟩, ⟨⟨.narrativeNode, 11⟩, 1⟩, ⟨⟨.clip, 21⟩, 1⟩,
      ⟨⟨.track, 4⟩, 2⟩, ⟨⟨.alignment, 60⟩, 1⟩] []
    [.moveNarrativeNode 11 1 none, .removeClip 21 .single, .markAlignmentStale 60]]

theorem restore_exact_sample :
    let _ := runeClusters
    ∃ p p' version, sampleAfter sampleChanged = some p ∧ p.versions.find? 70 = some version ∧
      p.serve (.restoreProjectVersion
        { sampleRestore with versionID := 70, expectedProjectRevision := 6 }) = .ok p' ∧
      Restored p version.state p' := by
  obtain ⟨p, hp, hfresh, ⟨version, hversion⟩, p', hserve⟩ : ∃ p,
      sampleAfter sampleChanged = some p ∧
      p.versionRequests.find? (.creator 9, ['r']) = none ∧
      (∃ version, p.versions.find? 70 = some version) ∧
      ∃ p', p.restoreProjectVersion
        { sampleRestore with versionID := 70, expectedProjectRevision := 6 } = .ok p' := by
    decide +kernel
  let _ := runeClusters
  exact ⟨p, p', version, hp, hversion, hserve,
    restore_exact (Machine.Reaches.of_play hp) hfresh hversion hserve⟩

/-- The tracks are where they were. -/
theorem restore_keeps_tracks :
    ∃ p p', sampleAfter sampleNamed = some p ∧
      p.restoreProjectVersion sampleRestore = .ok p' ∧
      p.content.revision? ⟨.track, 4⟩ = some 1 ∧ p'.content.revision? ⟨.track, 4⟩ = some 1 := by
  simp only [exists_and_left]
  decide +kernel

/-- A proposal from before the restore is applied to where the restore has put a caption back. -/
example : ∃ p, sampleAfter [.setRuns sampleRuns,
      sampleCommit 1 1 [⟨⟨.track, 6⟩, 1⟩] [⟨['a'], .caption, 20⟩]
        [.addCaption ['a'] 6 ⟨0, 1⟩ ['e', 'n'] ['t']],
      sampleVersion,
      sampleCommit 2 2 [⟨⟨.caption, 20⟩, 1⟩, ⟨⟨.track, 6⟩, 2⟩] [] [.removeCaption 20],
      samplePropose 1 3 [⟨⟨.track, 6⟩, 3⟩] [⟨['b'], .caption, 25⟩]
        [.addCaption ['b'] 6 ⟨0, 1⟩ ['e', 'n'] ['u']],
      .restoreProjectVersion
        { sampleRestore with versionID := 70, expectedProjectRevision := 3 }] = some p ∧
    ∃ proposal, p.proposals.find? 301 = some proposal ∧
      ∃ p', p.applyEdit (sampleApply 1 proposal) = .ok p' ∧
        ∀ id ∈ [20, 25], (p'.content.entities.caption? id).any fun s =>
          s.trackID = 6 ∧ s.range = ⟨0, 1⟩ ∧ !s.tombstoned := by
  decide +kernel

end OpenCut
