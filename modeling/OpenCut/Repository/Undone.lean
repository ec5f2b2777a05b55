import OpenCut.Repository.Revisions

/-!
# What an undo puts

The proposal that undoes a transaction puts what the inverse of the transaction puts, apart
from revisions, and its changes name what the transaction changed inside the document and
the sequence (`undoes_of_buildUndoProposal`).
-/

namespace OpenCut

open Outcome List Content

/-- The transaction put the states, and its inverse puts `back`. -/
structure EditTransaction.Puts (t : EditTransaction) (states back : List EntityState) : Prop where
  operations : t.operations = states.map .put
  inverse : t.inverseOperations = back.map .put
  distinct : (states.map (·.key)).Nodup
  distinctBack : (back.map (·.key)).Nodup
  keys : ∀ key, key ∈ back.map (·.key) ↔ key ∈ states.map (·.key)
  nodup : (t.changes.map (·.key)).Nodup
  entry : ∀ s ∈ states, ∃ change ∈ t.changes, change.key = s.key
  around : ∀ change ∈ t.changes, change.isInner → change.key ∉ states.map (·.key) →
    change.key.kind = .narrativeNode ∨ change.key.kind = .track

theorem EntityRevisionChange.isInner_iff {change : EntityRevisionChange} :
    change.isInner ↔ change.key.kind ≠ .narrativeDocument ∧ change.key.kind ≠ .sequence := by
  simp [isInner]

/-- The states are the same apart from revisions. -/
def Rebased (states result : List EntityState) : Prop :=
  result.map (fun s => (s.key, s.unrevised)) = states.map fun s => (s.key, s.unrevised)

namespace Rebased

variable {states result result' : List EntityState}

theorem trans (h : Rebased states result) (h' : Rebased result result') : Rebased states result' :=
  Eq.trans h' h

theorem keys (h : Rebased states result) : result.map (·.key) = states.map (·.key) := by
  have hfst := congrArg (map Prod.fst) h
  rwa [map_map, map_map] at hfst

end Rebased

namespace Content

variable {c : Content} {states result : List EntityState} {base final : Table EntityKey Revision}

theorem needEntity_put (s : EntityState) : (NormalizedEditOperation.put s).needEntity = .ok s := rfl

/-- The map has the revisions that are stored. -/
theorem operationRevisionMap_ok (h : c.operationRevisionMap (states.map .put) = .ok base) :
    ∀ s ∈ states, ∃ n, c.revision? s.key = some n ∧ base.find? s.key = some n := by
  rw [operationRevisionMap, foldlM_map] at h
  refine foldlM_progress (fun done base => ∀ s ∈ done, ∃ n, c.revision? s.key = some n ∧
    base.find? s.key = some n) (fun done s base base' hdone hop => ?_) (by simp) h
  simp only [needEntity_put, steps_ok] at hop
  obtain ⟨_, hs, n, hn, rfl⟩ := hop
  obtain ⟨⟩ := hs
  intro s' hs'
  rw [Table.find?_set]
  split
  · next hkey => exact ⟨n, hkey ▸ hn, rfl⟩
  · next hne =>
    rcases mem_append.1 hs' with hs' | hs'
    · exact hdone s' hs'
    · rw [mem_singleton.1 hs'] at hne
      exact absurd rfl hne

theorem advanceOperations_ok
    (h : c.advanceOperations base (states.map .put) = .ok (result, final)) :
    Rebased states result ∧ ∀ s ∈ result, ∃ n, c.revisionFromMapOrStore base s.key = .ok n ∧
      s.revision = n + 1 := by
  rw [advanceOperations, foldlM_map] at h
  refine foldlM_progress (fun done (acc : List EntityState × Table EntityKey Revision) =>
    Rebased done acc.1 ∧ ∀ s ∈ acc.1, ∃ n, c.revisionFromMapOrStore base s.key = .ok n ∧
      s.revision = n + 1) (b := ([], base)) (fun done s acc acc' hdone hop => ?_) ⟨rfl, by simp⟩ h
  simp only [needEntity_put, steps_ok] at hop
  obtain ⟨_, hs, n, hn, rfl⟩ := hop
  obtain ⟨⟩ := hs
  refine ⟨?_, fun s' hs' => ?_⟩
  · rw [Rebased, map_append, map_append, hdone.1]
    simp
  · rcases mem_append.1 hs' with hs' | hs'
    · exact hdone.2 s' hs'
    · rw [mem_singleton.1 hs']
      exact ⟨n, by rwa [EntityState.key_withRevision], by simp⟩

variable {changesSequence : Bool}

theorem unrevised_rebaseTarget {target target' : AlignmentTarget}
    (h : c.rebaseTarget final changesSequence target = .ok target') :
    target'.unrevised = target.unrevised := by
  cases target with
  | timeline =>
    obtain rfl := pure_ok.1 h
    rfl
  | _ =>
    simp only [rebaseTarget, steps_ok] at h
    obtain ⟨_, -, rfl⟩ := h
    rfl

/-- An alignment is rebased in the revisions that it records. -/
theorem rebaseAlignment_ok {s s' : EntityState}
    (h : c.rebaseAlignment final changesSequence s = .ok s') :
    s'.key = s.key ∧ s'.unrevised = s.unrevised ∧ s'.revision = s.revision := by
  cases s with
  | alignment s =>
    simp only [rebaseAlignment] at h
    split at h
    · simp only [steps_ok] at h
      obtain ⟨_, -, _, htargets, rfl⟩ := h
      refine ⟨rfl, ?_, rfl⟩
      simp only [EntityState.unrevised, mapM_map (fun _ _ => unrevised_rebaseTarget) htargets]
    · obtain rfl := pure_ok.1 h
      exact ⟨rfl, rfl, rfl⟩
  | _ =>
    obtain rfl := pure_ok.1 h
    exact ⟨rfl, rfl, rfl⟩

/-- Operations are rebased one revision further, and otherwise stay. -/
theorem rebaseOperationSet_ok
    (h : c.rebaseOperationSet (states.map .put) base = .ok (result, final)) :
    Rebased states result ∧ ∀ s ∈ result, ∃ n, c.revisionFromMapOrStore base s.key = .ok n ∧
      s.revision = n + 1 := by
  simp only [rebaseOperationSet, steps_ok, Prod.exists, Prod.mk.injEq] at h
  obtain ⟨_, _, hadvanced, _, hresult, rfl, rfl⟩ := h
  obtain ⟨hrebased, hrevisions⟩ := advanceOperations_ok hadvanced
  refine ⟨hrebased.trans (mapM_map (fun s s' hs => ?_) hresult), fun s hs => ?_⟩
  · obtain ⟨hkey, hunrevised, -⟩ := rebaseAlignment_ok hs
    exact Prod.ext hkey hunrevised
  · obtain ⟨s', hs', hrebase⟩ := mapM_mem hresult hs
    obtain ⟨n, hn, hrevision⟩ := hrevisions s' hs'
    obtain ⟨hkey, -, hsame⟩ := rebaseAlignment_ok hrebase
    exact ⟨n, by rwa [hkey], hsame.trans hrevision⟩

variable {changes : List EntityRevisionChange}

/-- The changes of what an undo puts. -/
theorem undoOperationChanges_ok (h : c.undoOperationChanges states = .ok changes) :
    changes.map (·.key) = states.map (·.key) ∧ ∀ change ∈ changes, ∃ s ∈ states,
      change.key = s.key ∧ change.before = c.revision? s.key ∧ change.before.isSome ∧
        change.after = s.revision := by
  refine ⟨mapM_map (fun s change hs => ?_) h, fun change hchange => ?_⟩
  · simp only [steps_ok] at hs
    obtain ⟨_, -, rfl⟩ := hs
    rfl
  · obtain ⟨s, hs, hchange⟩ := mapM_mem h hchange
    simp only [steps_ok] at hchange
    obtain ⟨n, hn, rfl⟩ := hchange
    exact ⟨s, hs, rfl, hn.symm, rfl, rfl⟩

/-- The changes around what an undo puts. -/
theorem undoOuterChanges_ok {target : EditTransaction}
    (h : c.undoOuterChanges target states = .ok changes) :
    changes.map (·.key) = (target.changes.filter fun change =>
        change.isInner && decide (change.key ∉ states.map (·.key))).map (·.key) ∧
      ∀ change ∈ changes, ∃ n, change.before = some n ∧ change.after = n + 1 ∧
        c.revision? change.key = some n := by
  refine ⟨mapM_map (fun entry change hchange => ?_) h, fun change hchange => ?_⟩
  · simp only [steps_ok] at hchange
    obtain ⟨-, rfl⟩ := hchange
    rfl
  · obtain ⟨entry, -, hchange⟩ := mapM_mem h hchange
    simp only [steps_ok] at hchange
    obtain ⟨hrevision, rfl⟩ := hchange
    exact ⟨entry.after, rfl, rfl, hrevision⟩

end Content

/-- What the proposal that undoes the transaction puts and changes. -/
structure EditProposal.Undoes (proposal : EditProposal) (c : Content) (t : EditTransaction)
    (states back : List EntityState) : Prop where
  /-- It puts what the inverse puts, and its inverse what the transaction put. -/
  puts : ∃ operations, proposal.Puts operations ∧ Rebased back operations
  inverse : ∃ inverse, proposal.inversePreview = inverse.map .put ∧ Rebased states inverse
  /-- It names what the transaction changed, at the revisions that are stored. -/
  names : ∀ key, key ∈ proposal.changes.map (·.key) ↔
    ∃ change ∈ t.changes, change.isInner ∧ change.key = key
  made : ∀ change ∈ proposal.changes, ∃ n, c.revision? change.key = some n ∧
    change.before = some n ∧ change.after = n + 1

theorem undoes_of_buildUndoProposal {p : Project} {record : UndoEditRecord}
    {target : EditTransaction} {states back : List EntityState} {proposal : EditProposal}
    (ht : target.Puts states back) (h : p.buildUndoProposal record target = .ok proposal) :
    proposal.Undoes p.content target states back := by
  simp only [Project.buildUndoProposal, steps_ok, Prod.exists, ht.inverse, ht.operations,
    undoChanges] at h
  obtain ⟨_, hcurrent, operations, _, hoperations, inverse, _, hinverse, _,
    ⟨put, hput, outer, houter, rfl⟩, rfl⟩ := h
  have hmap := operationRevisionMap_ok hcurrent
  obtain ⟨hrebased, hrevisions⟩ := rebaseOperationSet_ok hoperations
  obtain ⟨hputKeys, hputChanges⟩ := undoOperationChanges_ok hput
  obtain ⟨houterKeys, houterChanges⟩ := undoOuterChanges_ok houter
  have hkeys : operations.map (·.key) = back.map (·.key) := hrebased.keys
  -- What is put is put one revision after the one that is stored.
  have hadvance : ∀ s ∈ operations, ∃ n, p.content.revision? s.key = some n ∧
      s.revision = n + 1 := by
    intro s hs
    obtain ⟨n, hn, hrevision⟩ := hrevisions s hs
    obtain ⟨b, hb, hbkey⟩ := mem_map.1 (hkeys ▸ mem_map_of_mem hs)
    obtain ⟨m, hm, hfind⟩ := hmap b hb
    rw [revisionFromMapOrStore, ← hbkey, hfind] at hn
    obtain rfl := Except.ok.inj hn
    exact ⟨m, hbkey ▸ hm, hrevision⟩
  have hmem : ∀ {change}, change ∈ (put ++ outer).insertionSort (fun a b => a.key.le b.key) ↔
      change ∈ put ∨ change ∈ outer := by simp
  have houterMem : ∀ {key}, key ∈ outer.map (·.key) ↔ (∃ change ∈ target.changes,
      change.isInner ∧ change.key = key) ∧ key ∉ operations.map (·.key) := by
    intro key
    rw [houterKeys, mem_map]
    constructor
    · rintro ⟨change, hchange, rfl⟩
      obtain ⟨hchange, hinner⟩ := mem_filter.1 hchange
      rw [Bool.and_eq_true, decide_eq_true_eq] at hinner
      exact ⟨⟨change, hchange, hinner.1, rfl⟩, hinner.2⟩
    · rintro ⟨⟨change, hchange, hinner, rfl⟩, hnot⟩
      exact ⟨change, mem_filter.2 ⟨hchange, by simp only [hinner, hnot]; rfl⟩, rfl⟩
  refine ⟨⟨operations, ⟨rfl, ?_, ?_, fun s hs => ?_, fun change hchange hnot => ?_⟩, hrebased⟩,
    ⟨inverse, rfl, (rebaseOperationSet_ok hinverse).1⟩, fun key => ?_, fun change hchange => ?_⟩
  · rw [hkeys]
    exact ht.distinctBack
  · refine ((perm_insertionSort _ _).map _).nodup_iff.2 ?_
    rw [map_append, nodup_append']
    refine ⟨by rw [hputKeys, hkeys]; exact ht.distinctBack, ?_, fun key hkey hkey' => ?_⟩
    · rw [houterKeys]
      exact ht.nodup.sublist (filter_sublist.map _)
    · rw [hputKeys] at hkey
      exact (houterMem.1 hkey').2 hkey
  · obtain ⟨change, hchange, hkey⟩ := mem_map.1 (hputKeys ▸ mem_map_of_mem hs)
    obtain ⟨s', hs', hkey', -, -, hafter⟩ := hputChanges change hchange
    obtain rfl : s' = s := inj_on_of_nodup_map (hkeys ▸ ht.distinctBack) hs' hs
      (hkey'.symm.trans hkey)
    exact ⟨change, hmem.2 (.inl hchange), hkey, hafter⟩
  · rcases hmem.1 hchange with hchange | hchange
    · exact absurd (hputKeys ▸ mem_map_of_mem hchange) hnot
    · obtain ⟨⟨entry, hentry, hinner, hkey⟩, -⟩ := houterMem.1 (mem_map_of_mem hchange)
      rw [← hkey]
      refine ht.around entry hentry hinner fun hmem => hnot ?_
      rw [hkeys, ← hkey, ht.keys]
      exact hmem
  · have hsplit : key ∈ ((put ++ outer).insertionSort fun a b => a.key.le b.key).map (·.key) ↔
        key ∈ operations.map (·.key) ∨ key ∈ outer.map (·.key) := by
      rw [((perm_insertionSort _ _).map _).mem_iff, map_append, mem_append, hputKeys]
    rw [hsplit, houterMem]
    constructor
    · rintro (hkey | ⟨hinner, -⟩)
      · rw [hkeys, ht.keys] at hkey
        obtain ⟨s, hs, rfl⟩ := mem_map.1 hkey
        obtain ⟨change, hchange, hkey⟩ := ht.entry s hs
        refine ⟨change, hchange, EntityRevisionChange.isInner_iff.2 ?_, hkey⟩
        rw [hkey]
        exact ⟨(kind_of_key s).1, (kind_of_key s).2.1⟩
      · exact hinner
    · intro hinner
      by_cases hkey : key ∈ operations.map (·.key)
      · exact .inl hkey
      · exact .inr ⟨hinner, hkey⟩
  · rcases hmem.1 hchange with hchange | hchange
    · obtain ⟨s, hs, hkey, hbefore, -, hafter⟩ := hputChanges change hchange
      obtain ⟨n, hn, hrevision⟩ := hadvance s hs
      exact ⟨n, hkey ▸ hn, hbefore.trans hn, hafter.trans hrevision⟩
    · obtain ⟨n, hbefore, hafter, hn⟩ := houterChanges change hchange
      exact ⟨n, hn, hbefore, hafter⟩

end OpenCut
