import OpenCut.Repository.Writes

/-!
# The revisions after a commit

Committing a proposal of puts sets the revisions of the entities that are put, and of the
sections, the tracks, the document and the sequence among its changes, and no others
(`EditProposal.Puts.advances`).
-/

namespace OpenCut

open Outcome List Content EntityState

namespace NarrativeTable

variable {t t' : NarrativeTable}

/-- The revision of the node. -/
def revision? (t : NarrativeTable) (id : ID) : Option Revision := (t.find? id).map (·.revision)

theorem revision?_eq_unplaced? (t : NarrativeTable) (id : ID) :
    t.revision? id = (t.unplaced? id).map (·.revision) := by
  rw [revision?, unplaced?, Option.map_map]
  rfl

variable {state : NarrativeNodeState}

theorem revision?_updateNarrativeNode {before : Revision}
    (h : t.updateNarrativeNode before state = .ok t') (k : ID) :
    t'.revision? k = if k = state.id then some state.revision else t.revision? k := by
  simp only [updateNarrativeNode, steps_ok] at h
  obtain ⟨old, _, -, -, h⟩ := h
  split at h
  · simp only [steps_ok] at h
    obtain ⟨-, rfl⟩ := h
    rw [revision?, Table.find?_set, apply_ite (Option.map _)]
    rfl
  · obtain ⟨-, hrows⟩ := putNode_of_attach h
    rw [revision?_eq_unplaced?, revision?_eq_unplaced?, hrows k]
    split
    · rfl
    · next hk => rw [unplaced?_detach hk]

theorem revision?_applyNarrativeNode {change : Option EntityRevisionChange}
    (h : t.applyNarrativeNode change state = .ok t') (k : ID) :
    t'.revision? k = if k = state.id then some state.revision else t.revision? k := by
  simp only [applyNarrativeNode, steps_ok] at h
  obtain ⟨c, -, ⟨-, -, _⟩, h⟩ := h
  split at h
  · next hbefore =>
    rw [revision?_eq_unplaced?, revision?_eq_unplaced?,
      (putNode_of_insert hbefore h).rows k, apply_ite (Option.map _)]
    rfl
  · exact revision?_updateNarrativeNode h k

end NarrativeTable

namespace Content

variable {c c' : Content}

theorem revision?_node (c : Content) (id : ID) :
    c.revision? ⟨.narrativeNode, id⟩ = c.nodes.revision? id := rfl

theorem kind_of_key (s : EntityState) : s.key.kind ≠ .narrativeDocument ∧
    s.key.kind ≠ .sequence ∧ s.key.kind ≠ .track := by
  cases s <;> simp [key]

variable {s : EntityState}

/-- Revisions after an entity that is no node is put. -/
theorem revision?_putEntity (c : Content) (hs : s.key.kind ≠ .narrativeNode)
    (key : EntityKey) : revision? { c with entities := c.entities.put s } key =
      if key = s.key then some s.revision else c.revision? key := by
  obtain ⟨hdocument, hsequence, htrack⟩ := kind_of_key s
  by_cases hkey : key = s.key
  · rw [if_pos hkey, hkey]
    unfold revision?
    split
    · next hkind => exact absurd hkind hdocument
    · next hkind => exact absurd hkind hs
    · next hkind => exact absurd hkind hsequence
    · next hkind => exact absurd hkind htrack
    · rw [EntityTable.find?_put_self, Option.map_some]
  · rw [if_neg hkey]
    unfold revision?
    split
    · rfl
    · rfl
    · rfl
    · rfl
    · rw [EntityTable.find?_put_ne _ hkey]

variable {revision : Revision}

/-- A change that only concerns one kind. -/
theorem revision?_of_kind (key : EntityKey)
    (hother : ∀ k, k.kind ≠ key.kind → c'.revision? k = c.revision? k)
    (hkind : ∀ id, c'.revision? ⟨key.kind, id⟩ =
      if id = key.id then some revision else c.revision? ⟨key.kind, id⟩) (k : EntityKey) :
    c'.revision? k = if k = key then some revision else c.revision? k := by
  by_cases hk : k.kind = key.kind
  · obtain ⟨_, id⟩ := k
    cases hk
    rw [hkind id]
    congr 1
    exact propext ⟨fun h => EntityKey.ext rfl h, congrArg EntityKey.id⟩
  · rw [if_neg fun h => hk (congrArg EntityKey.kind h), hother k hk]

/-- Revisions after the nodes have changed. -/
theorem revision?_nodes {nodes : NarrativeTable} {id : ID}
    (h : ∀ k, nodes.revision? k = if k = id then some revision else c.nodes.revision? k)
    (key : EntityKey) : revision? { c with nodes } key =
      if key = ⟨.narrativeNode, id⟩ then some revision else c.revision? key := by
  refine revision?_of_kind ⟨.narrativeNode, id⟩ (fun k hk => ?_) (fun k => ?_) key
  · unfold revision?
    split
    · rfl
    · next hnode => exact absurd hnode hk
    all_goals rfl
  · exact h k

/-- A put sets the revision of its entity. -/
theorem revision?_applyPut {changes : List EntityRevisionChange}
    (h : c.applyPut changes s = .ok c') (key : EntityKey) :
    c'.revision? key = if key = s.key then some s.revision else c.revision? key := by
  rcases applyPut_cases h with ⟨_, _, rfl, hnodes, rfl⟩ | ⟨_, -, -, rfl⟩
  · exact revision?_nodes (NarrativeTable.revision?_applyNarrativeNode hnodes) key
  · have hput := revision?_putEntity c (s := storedOver (c.entities.find? s.key) s)
      (by rwa [key_storedOver]) key
    rwa [key_storedOver, revision_storedOver] at hput

/-- An aggregate change sets the revision that it names. -/
theorem revision?_applyAggregateRevision {change : EntityRevisionChange}
    (h : c.applyAggregateRevision change = .ok c') (key : EntityKey) :
    c'.revision? key = if key = change.key then some change.after else c.revision? key := by
  obtain ⟨⟨hsome, hbefore⟩, hcases⟩ := applyAggregateRevision_cases h
  obtain ⟨⟨_, target⟩, before, _, _⟩ := change
  obtain ⟨_, rfl⟩ := Option.isSome_iff_exists.1 hsome
  rcases hcases with ⟨rfl, rfl⟩ | ⟨rfl, rfl⟩ | ⟨row, rfl, _, rfl⟩ | ⟨row, rfl, _, rfl⟩
  · simp only [revision?, Option.ite_none_right_eq_some] at hbefore
    refine revision?_of_kind ⟨.narrativeDocument, target⟩ (fun k hk => ?_) (fun id => ?_) key
    · unfold revision?
      split
      · next hkind => exact absurd hkind hk
      all_goals rfl
    · simp only [revision?, hbefore.1]
      split <;> rfl
  · simp only [revision?, Option.ite_none_right_eq_some] at hbefore
    refine revision?_of_kind ⟨.sequence, target⟩ (fun k hk => ?_) (fun id => ?_) key
    · unfold revision?
      split
      · rfl
      · rfl
      · next hkind => exact absurd hkind hk
      all_goals rfl
    · simp only [revision?, hbefore.1]
      split <;> rfl
  · refine revision?_nodes (fun k => ?_) key
    rw [NarrativeTable.revision?, Table.find?_set, apply_ite (Option.map _)]
    rfl
  · refine revision?_of_kind ⟨.track, target⟩ (fun k hk => ?_) (fun id => ?_) key
    · unfold revision?
      split
      · rfl
      · rfl
      · rfl
      · next hkind => exact absurd hkind hk
      · rfl
    · simp only [revision?, Table.find?_set, apply_ite (Option.map _), Option.map_some]

end Content

namespace Project

variable {p p' : Project}

theorem normalizedOperationEntityKeys_puts (states : List EntityState) :
    normalizedOperationEntityKeys (states.map .put) = states.map (·.key) := by
  rw [normalizedOperationEntityKeys, filterMap_map]
  exact congrFun filterMap_eq_map _

/-- What a transaction of puts does to the revisions. -/
theorem revision?_of_applyTransaction {t : EditTransaction} {states : List EntityState}
    {c : Content} (hoperations : t.operations = states.map .put)
    (hstates : (states.map (·.key)).Nodup) (hchanges : (t.changes.map (·.key)).Nodup)
    (h : p.applyTransaction t = .ok c) :
    (∀ s ∈ states, c.revision? s.key = some s.revision) ∧
    (∀ change ∈ t.changes, isAggregateChange t.operations change →
      c.revision? change.key = some change.after) ∧
    ∀ key ∉ states.map (·.key), (∀ change ∈ t.changes, isAggregateChange t.operations change →
      change.key ≠ key) → c.revision? key = p.content.revision? key := by
  obtain ⟨d, hd, h⟩ := bind_ok.1 h
  obtain ⟨hputs, hrest⟩ : (∀ s ∈ states, d.revision? s.key = some s.revision) ∧
      ∀ key ∉ states.map (·.key), d.revision? key = p.content.revision? key := by
    rw [hoperations, foldlM_map] at hd
    exact foldlM_writes revision? (·.key) (fun s => some s.revision)
      (fun _ _ _ hput => revision?_applyPut hput) hstates hd
  obtain ⟨haggregates, hkept⟩ := foldlM_writes revision? (·.key) (fun change => some change.after)
    (fun _ _ _ hchange => revision?_applyAggregateRevision hchange)
    (hchanges.sublist (filter_sublist.map _)) h
  have hnot : ∀ key, (∀ change ∈ t.changes, isAggregateChange t.operations change →
      change.key ≠ key) → c.revision? key = d.revision? key := by
    intro key hkey
    refine hkept key fun hmem => ?_
    obtain ⟨change, hchange, rfl⟩ := mem_map.1 hmem
    obtain ⟨hchange, haggregate⟩ := mem_filter.1 hchange
    exact hkey change hchange haggregate rfl
  refine ⟨fun s hs => ?_, fun change hchange haggregate => ?_, fun key hkey hother => ?_⟩
  · -- A put is no aggregate change.
    rw [hnot s.key fun change _ haggregate hkey => ?_, hputs s hs]
    rw [isAggregateChange, Bool.and_eq_true, decide_eq_true_eq, hoperations,
      normalizedOperationEntityKeys_puts, hkey] at haggregate
    exact haggregate.1 (mem_map_of_mem hs)
  · exact haggregates change (mem_filter.2 ⟨hchange, haggregate⟩)
  · rw [hnot key hother, hrest key hkey]

end Project

/-! ## Proposals of puts -/

/-- The proposal puts the states, each with an entry among its changes; the other entries
    are of sections and tracks around. -/
structure EditProposal.Puts (proposal : EditProposal) (states : List EntityState) : Prop where
  operations : proposal.operations = states.map .put
  distinct : (states.map (·.key)).Nodup
  nodup : (proposal.changes.map (·.key)).Nodup
  entry : ∀ s ∈ states, ∃ change ∈ proposal.changes, change.key = s.key ∧ change.after = s.revision
  around : ∀ change ∈ proposal.changes, change.key ∉ states.map (·.key) →
    change.key.kind = .narrativeNode ∨ change.key.kind = .track

/-- What committing a proposal does to the revisions. -/
structure EditProposal.Advances (proposal : EditProposal) (p p' : Project) : Prop where
  project : p'.revision = p.revision + 1
  /-- The entities of the changes go from the one revision to the other. -/
  changes : ∀ change ∈ proposal.changes, p.content.revision? change.key = change.before ∧
    p'.content.revision? change.key = some change.after
  /-- The document and the sequence advance if something of theirs is put. -/
  document : p'.content.revision? ⟨.narrativeDocument, p.content.documentID⟩ =
    some (if proposalChangesNarrative proposal.operations then p.content.documentRevision + 1
      else p.content.documentRevision)
  sequence : p'.content.revision? ⟨.sequence, p.content.sequenceID⟩ =
    some (if proposalChangesSequence proposal.operations then p.content.sequenceRevision + 1
      else p.content.sequenceRevision)
  /-- Nothing else does. -/
  kept : ∀ key ∉ proposal.changes.map (·.key),
    key ≠ ⟨.narrativeDocument, p.content.documentID⟩ → key ≠ ⟨.sequence, p.content.sequenceID⟩ →
    p'.content.revision? key = p.content.revision? key

namespace EditProposal.Puts

variable {proposal : EditProposal} {states : List EntityState} {p p' : Project}
  {change : EntityRevisionChange}

/-- No entry is for a document or a sequence. -/
theorem kind_of_mem (h : proposal.Puts states) (hchange : change ∈ proposal.changes) :
    change.key.kind ≠ .narrativeDocument ∧ change.key.kind ≠ .sequence := by
  by_cases hput : change.key ∈ states.map (·.key)
  · obtain ⟨s, -, hkey⟩ := mem_map.1 hput
    rw [← hkey]
    exact ⟨(kind_of_key s).1, (kind_of_key s).2.1⟩
  · rcases h.around change hchange hput with hkind | hkind <;> rw [hkind] <;> simp

theorem mem_transactionChanges {c : Content} :
    change ∈ c.transactionChanges proposal ↔ change ∈ proposal.changes ∨
      (proposalChangesNarrative proposal.operations ∧ change = c.documentChange) ∨
      (proposalChangesSequence proposal.operations ∧ change = c.sequenceChange) := by
  simp only [transactionChanges, mem_insertionSort, mem_append, or_assoc]
  split <;> split <;> simp_all

section

variable (h : proposal.Puts states)
include h

theorem nodup_transactionChanges (c : Content) :
    ((c.transactionChanges proposal).map (·.key)).Nodup := by
  rw [transactionChanges, ((perm_insertionSort _ _).map _).nodup_iff]
  simp only [map_append, nodup_append', h.nodup, true_and]
  have hheads : ∀ (b : Bool) (change : EntityRevisionChange) (key : EntityKey),
      key ∈ (if b then [change] else []).map (·.key) → key = change.key := by
    intro b change key hmem
    cases b <;> simp_all
  refine ⟨⟨by split <;> simp, fun key hkey hdocument => ?_⟩, by split <;> simp,
    fun key hkey hsequence => ?_⟩
  · obtain ⟨change, hchange, rfl⟩ := mem_map.1 hkey
    have hkind := congrArg EntityKey.kind (hheads _ _ _ hdocument)
    exact (h.kind_of_mem hchange).1 hkind
  · have hkind := congrArg EntityKey.kind (hheads _ _ _ hsequence)
    rcases mem_append.1 hkey with hkey | hkey
    · obtain ⟨_, hchange, rfl⟩ := mem_map.1 hkey
      exact (h.kind_of_mem hchange).2 hkind
    · rw [hheads _ _ _ hkey] at hkind
      cases hkind

/-- The entries that are not of puts are applied as they are. -/
theorem isAggregateChange_iff {change : EntityRevisionChange} {c : Content}
    (hchange : change ∈ c.transactionChanges proposal) :
    isAggregateChange proposal.operations change ↔ change.key ∉ states.map (·.key) := by
  have hrestores : proposalRestoresProjectVersion proposal.operations = false := by
    rw [h.operations]
    cases states with
    | nil => rfl
    | cons => rfl
  rw [isAggregateChange, Bool.and_eq_true, decide_eq_true_eq, hrestores]
  nth_rewrite 1 [h.operations]
  rw [Project.normalizedOperationEntityKeys_puts]
  refine and_iff_left_of_imp fun hput => ?_
  rcases mem_transactionChanges.1 hchange with hchange | ⟨-, rfl⟩ | ⟨-, rfl⟩
  · rcases h.around change hchange hput with hkind | hkind <;> rw [hkind] <;> rfl
  · rfl
  · rfl

/-- A commit of the proposal advances what its changes say. -/
theorem advances_of_commits {t : EditTransaction} (hcommits : p.Commits proposal t p') :
    proposal.Advances p p' := by
  obtain ⟨_, _, rfl⟩ := hcommits.transaction
  have hvalid := hcommits.valid
  simp only [validateProposalPreconditions, steps_ok] at hvalid
  obtain ⟨-, hbefore⟩ := hvalid
  obtain ⟨hputs, haggregates, hkept⟩ := Project.revision?_of_applyTransaction
    h.operations h.distinct (h.nodup_transactionChanges p.content) hcommits.applied
  set content := p'.content with hcontent
  have haround : ∀ change ∈ p.content.transactionChanges proposal,
      change.key ∉ states.map (·.key) → content.revision? change.key = some change.after :=
    fun change hchange hput => haggregates change hchange ((h.isAggregateChange_iff hchange).2 hput)
  have hrest : ∀ key ∉ states.map (·.key),
      (∀ change ∈ p.content.transactionChanges proposal, change.key ≠ key) →
      content.revision? key = p.content.revision? key :=
    fun key hkey hnone => hkept key hkey fun change hchange _ => hnone change hchange
  -- A put is never of a document or of a sequence.
  have hnone : ∀ key : EntityKey, key.kind = .narrativeDocument ∨ key.kind = .sequence →
      key ∉ states.map (·.key) := by
    intro key hkind hmem
    obtain ⟨s, -, rfl⟩ := mem_map.1 hmem
    obtain ⟨hdocument, hsequence, -⟩ := kind_of_key s
    exact hkind.elim hdocument hsequence
  refine ⟨hcommits.revision, fun change hchange => ⟨hbefore change hchange, ?_⟩, ?_, ?_, ?_⟩
  · by_cases hput : change.key ∈ states.map (·.key)
    · obtain ⟨s, hs, hkey⟩ := mem_map.1 hput
      obtain ⟨entry, hentry, hentryKey, hafter⟩ := h.entry s hs
      rw [inj_on_of_nodup_map h.nodup hchange hentry (hkey.symm.trans hentryKey.symm), hafter,
        hentryKey]
      exact hputs s hs
    · exact haround change (mem_transactionChanges.2 (.inl hchange)) hput
  · split
    · next hnarrative =>
      exact haround p.content.documentChange
        (mem_transactionChanges.2 (.inr (.inl ⟨hnarrative, rfl⟩))) (hnone _ (.inl rfl))
    · next hnarrative =>
      refine (hrest _ (hnone _ (.inl rfl)) fun change hchange hkey => ?_).trans
        (by simp [revision?])
      rcases mem_transactionChanges.1 hchange with hchange | ⟨hnarrative', -⟩ | ⟨-, rfl⟩
      · exact (h.kind_of_mem hchange).1 (congrArg EntityKey.kind hkey)
      · exact hnarrative hnarrative'
      · cases hkey
  · split
    · next hsequence =>
      exact haround p.content.sequenceChange
        (mem_transactionChanges.2 (.inr (.inr ⟨hsequence, rfl⟩))) (hnone _ (.inr rfl))
    · next hsequence =>
      refine (hrest _ (hnone _ (.inr rfl)) fun change hchange hkey => ?_).trans
        (by simp [revision?])
      rcases mem_transactionChanges.1 hchange with hchange | ⟨-, rfl⟩ | ⟨hsequence', -⟩
      · exact (h.kind_of_mem hchange).2 (congrArg EntityKey.kind hkey)
      · cases hkey
      · exact hsequence hsequence'
  · intro key hkey hdocument hsequence
    refine hrest key (fun hput => ?_) fun change hchange hchangeKey => ?_
    · obtain ⟨s, hs, rfl⟩ := mem_map.1 hput
      obtain ⟨entry, hentry, hentryKey, -⟩ := h.entry s hs
      exact hkey (mem_map.2 ⟨entry, hentry, hentryKey⟩)
    · rcases mem_transactionChanges.1 hchange with hchange | ⟨-, rfl⟩ | ⟨-, rfl⟩
      · exact hkey (mem_map.2 ⟨change, hchange, hchangeKey⟩)
      · exact hdocument hchangeKey.symm
      · exact hsequence hchangeKey.symm

theorem advances {transactionID : ID} {undoes : Option ID}
    (hcommit : p.commitProposal proposal transactionID undoes = .ok p') :
    proposal.Advances p p' := by
  obtain ⟨t, hcommits⟩ : ∃ t, p.Commits proposal t p' :=
    Project.Commits.of_commitProposal hcommit rfl rfl (fun _ _ => .inl) fun _ _ => rfl
  exact h.advances_of_commits hcommits

end

end EditProposal.Puts

end OpenCut
