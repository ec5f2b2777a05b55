import OpenCut.Application.Creations
import OpenCut.Repository.Dependents
import OpenCut.Repository.Revisions

/-!
# The revisions of an accepted proposal

Optimistic concurrency rests on the list of changes of a proposal: it names every entity
that the proposal writes, at the revision it was loaded with. `EditProposal.Disciplined`
says what the list holds, and `EditProposal.Advances` what committing the proposal does to
the revisions that are stored; both hold of every proposal that is accepted
(`Project.normalizeRequest_disciplined`).

A track is on the list if a caption or a clip on it is put, except that a clip that is
linked or unlinked is put without its track.
-/

namespace OpenCut

open Outcome List EditNormalizationState EditNormalizer

/-! ## What the list of changes holds -/

/-- The tracks whose contents a put changes: that of a caption, and those that a clip was
    loaded with and is put on, unless the clip is put to change its link group. -/
def EditNormalizationState.changedTracks (state : EditNormalizationState) : EntityState → List ID
  | .caption s => [s.trackID]
  | .clip s =>
    match state.entities.clip? s.id with
    | none => [s.trackID]
    | some loaded => if s.linkGroupID = loaded.linkGroupID then [loaded.trackID, s.trackID] else []
  | _ => []

/-- The changes of a proposal that was normalized from `I`. -/
structure EditProposal.Disciplined (proposal : EditProposal) (I : NormalizeEditInput) : Prop where
  /-- No two entries are for the same entity. -/
  nodup : (proposal.changes.map (·.key)).Nodup
  /-- A put has one entry, at the revision that it puts. -/
  puts : ∀ s, .put s ∈ proposal.operations →
    ∃! change, change ∈ proposal.changes ∧ change.key = s.key
  after : ∀ s, .put s ∈ proposal.operations → ∀ change ∈ proposal.changes, change.key = s.key →
    change.after = s.revision
  /-- An entity that is allocated is new, any other comes after the revision loaded. -/
  allocated : ∀ s, .put s ∈ proposal.operations → ∀ change ∈ proposal.changes,
    change.key = s.key → I.Allocates s.key → change.before = none ∧ change.after = 1
  loaded : ∀ s, .put s ∈ proposal.operations → ∀ change ∈ proposal.changes,
    change.key = s.key → ¬I.Allocates s.key → ∃ old, I.state.entities.find? s.key = some old ∧
      change.before = some old.revision ∧ change.after = old.revision + 1
  /-- The other entries are of sections around the puts and of tracks. -/
  others : ∀ change ∈ proposal.changes, (∀ s, .put s ∈ proposal.operations → s.key ≠ change.key) →
    ∃ before, change.before = some before ∧ change.after = before + 1 ∧
      ((∃ id ∈ I.input.operations.flatMap (·.changedSections I.state.entities),
        change.key = ⟨.narrativeNode, id⟩ ∧
        ∃ old, I.state.entities.section? id = some old ∧ old.revision = before) ∨
      ∃ s id, .put s ∈ proposal.operations ∧ id ∈ I.state.changedTracks s ∧
        change.key = ⟨.track, id⟩ ∧
        ∃ track, I.state.tracks.find? id = some track ∧ track.revision = before)
  /-- All sections around the puts have an entry, and all tracks that change. -/
  sections : ∀ id ∈ I.input.operations.flatMap (·.changedSections I.state.entities),
    ∃ change ∈ proposal.changes, change.key = ⟨.narrativeNode, id⟩
  tracks : ∀ s, .put s ∈ proposal.operations → ∀ id ∈ I.state.changedTracks s,
    ∃ change ∈ proposal.changes, change.key = ⟨.track, id⟩

/-! ## The puts -/

namespace Licensed

variable {I : NormalizeEditInput} {es : List Emission} {e : Emission}

section

variable (h : Licensed I es e)
include h

/-- The sections of which a put changes a child were loaded. -/
theorem section_of_mem {id : ID} (hid : id ∈ e.parents) : ∃ s, I.base.section? id = some s := by
  have hopen : ∀ {id}, I.OpenSection (I.base.run es) id → ∃ s, I.base.section? id = some s :=
    fun ⟨_, s, hs, _⟩ => ⟨s, hs⟩
  cases h with
  | insertNode _ _ _ _ _ hsection =>
    obtain rfl := mem_singleton.1 hid
    exact hopen hsection
  | moveNode _ _ _ _ hold hnew =>
    rcases mem_cons.1 hid with rfl | hid
    · exact hopen hold
    · obtain rfl := mem_singleton.1 hid
      exact hopen hnew
  | removeNode _ _ _ _ hsection =>
    obtain rfl := mem_singleton.1 hid
    exact hopen hsection
  | _ => exact absurd hid not_mem_nil

/-- The tracks that a put changes were loaded. -/
theorem track_of_mem {id : ID} (hid : id ∈ e.tracks) :
    ∃ track, I.state.tracks.find? id = some track := by
  have hhas : ∀ {id}, I.HasTrack id → ∃ track, I.state.tracks.find? id = some track :=
    fun ⟨track, htrack, _⟩ => ⟨track, htrack⟩
  cases h with
  | newCaption _ _ _ htrack =>
    obtain rfl := mem_singleton.1 hid
    exact hhas htrack
  | changeCaption _ _ _ htrack =>
    obtain rfl := mem_singleton.1 hid
    exact hhas htrack
  | newClip _ _ _ _ htrack =>
    obtain rfl := mem_singleton.1 hid
    exact hhas htrack
  | changeClip _ _ htrack hnext =>
    rcases mem_cons.1 hid with rfl | hid
    · exact hhas htrack
    · obtain rfl := mem_singleton.1 hid
      exact hhas hnext
  | _ => exact absurd hid not_mem_nil

/-- The tracks on record for a put, in terms of what was loaded and what is put. -/
theorem tracks_eq (hnew : e.key ∉ es.map (·.key)) : e.tracks = I.state.changedTracks e.after := by
  have hbase : ∀ id, ⟨.clip, id⟩ ∉ es.map (·.key) →
      (I.base.run es).clip? id = I.state.entities.clip? id := by
    intro id hid
    unfold EntityTable.clip?
    rw [EntityTable.find?_run_of_not_mem hid]
  cases h with
  | @newClip s _ hfree =>
    rw [hbase s.id hnew] at hfree
    simp only [changedTracks, hfree]
  | @changeClip s _ _ _ _ _ hs =>
    rw [hbase s.id hnew] at hs
    simp only [changedTracks, hs, if_true]
  | @relinkClip s _ hs _ hgroup =>
    rw [hbase s.id hnew] at hs
    simp only [changedTracks, hs, if_neg hgroup]
  | _ => rfl

end

end Licensed

namespace EditNormalizer

variable {I : NormalizeEditInput} {n : EditNormalizer} {es : List Emission} {ps : List ID}

/-- The entry of a section or a track around the puts. -/
def aroundChange (kind : EditEntityKind) (id : ID) (before : Revision) : EntityRevisionChange :=
  ⟨⟨kind, id⟩, some before, before + 1, false⟩

variable {change : EntityRevisionChange}

theorem mem_aggregateChanges : change ∈ n.aggregateChanges ↔
      (∃ id before, n.parentChanges.find? id = some before ∧ ⟨.narrativeNode, id⟩ ∉ n.touched ∧
        aroundChange .narrativeNode id before = change) ∨
      ∃ id before, n.trackChanges.find? id = some before ∧
        aroundChange .track id before = change := by
  simp only [aggregateChanges, mem_append, mem_map, mem_filter, Prod.exists,
    Table.mem_rows, decide_eq_true_eq, aroundChange, and_assoc]

theorem mem_changes :
    change ∈ (n.proposal I).changes ↔ change ∈ n.changes ∨ change ∈ n.aggregateChanges := by
  simp [proposal, sortChanges]

/-- The entries of a trace are those of its puts and of what is around them. -/
theorem nodup_changes (h : Balanced I n es ps []) : ((n.proposal I).changes.map (·.key)).Nodup := by
  obtain ⟨ts, ht, -⟩ := h.trace
  have hperm : ((n.proposal I).changes.map (·.key)).Perm
      ((n.changes ++ n.aggregateChanges).map (·.key)) :=
    (perm_insertionSort _ _).map _
  rw [hperm.nodup_iff, map_append, nodup_append']
  have hkeys : n.changes.map (·.key) = es.map (·.key) := by
    rw [ht.changes, map_map]
    rfl
  refine ⟨hkeys ▸ ht.nodup, ?_, ?_⟩
  · -- Each list of rows has an entry for every key once.
    rw [aggregateChanges, map_append, nodup_append', map_map, map_map]
    refine ⟨?_, ?_, ?_⟩
    · refine List.Nodup.of_map EntityKey.id ?_
      rw [map_map]
      exact (Table.rows_nodup _).sublist (filter_sublist.map _)
    · refine List.Nodup.of_map EntityKey.id ?_
      rw [map_map]
      exact Table.rows_nodup _
    · intro k hk hk'
      obtain ⟨row, -, rfl⟩ := mem_map.1 hk
      obtain ⟨_, -, hrow⟩ := mem_map.1 hk'
      exact absurd (congrArg EntityKey.kind hrow) (by simp)
  · -- A section that is put is not among those around.
    intro k hk hk'
    obtain ⟨_, hchange, rfl⟩ := mem_map.1 hk'
    rcases mem_aggregateChanges.1 hchange with ⟨id, _, -, huntouched, rfl⟩ | ⟨id, _, -, rfl⟩
    · rw [hkeys] at hk
      exact ht.not_mem_keys huntouched hk
    · rw [hkeys] at hk
      obtain ⟨e, -, he⟩ := mem_map.1 hk
      exact absurd (congrArg EntityKey.kind he) (Content.kind_of_key e.after).2.2

/-- What was normalized is disciplined. -/
theorem disciplined_of_balanced (h : Balanced I n es (I.input.operations.flatMap
      (·.changedSections I.base)) [])
    (hcreated : ∀ key, I.Allocates key →
      ∃ change ∈ n.changes, change.key = key ∧ change.before = none) :
    (n.proposal I).Disciplined I := by
  have hnodup := nodup_changes h
  obtain ⟨ts, ht, hts⟩ := h.trace
  have hput : ∀ {s}, .put s ∈ (n.proposal I).operations ↔ ∃ e ∈ es, e.after = s := by
    intro s
    simp [proposal, ht.operations]
  have hentry : ∀ e ∈ es, changeOf e.before e.after ∈ (n.proposal I).changes := by
    intro e he
    rw [mem_changes, ht.changes]
    exact .inl (mem_map_of_mem he)
  -- The entry of a put is the one that the put was made with.
  have hunique : ∀ e ∈ es, ∀ change ∈ (n.proposal I).changes, change.key = e.key →
      change = changeOf e.before e.after :=
    fun e he change hchange hkey => inj_on_of_nodup_map hnodup hchange (hentry e he) hkey
  refine ⟨hnodup, ?_, ?_, ?_, ?_, ?_, ?_, ?_⟩
  · intro s hs
    obtain ⟨e, he, rfl⟩ := hput.1 hs
    exact ⟨_, ⟨hentry e he, rfl⟩, fun change hchange => hunique e he change hchange.1 hchange.2⟩
  · intro s hs change hchange hkey
    obtain ⟨e, he, rfl⟩ := hput.1 hs
    rw [hunique e he change hchange hkey]
    rfl
  · intro s hs change hchange hkey hallocates
    obtain ⟨e, he, rfl⟩ := hput.1 hs
    rw [hunique e he change hchange hkey]
    obtain ⟨created, hmem, hcreatedKey, hnone⟩ := hcreated _ hallocates
    rw [hunique e he created (mem_changes.2 (.inl hmem)) hcreatedKey] at hnone
    obtain ⟨done, hlicence, -⟩ := ht.exists_licensed he
    rcases hlicence.revision with ⟨-, hrevision, -⟩ | ⟨b, hbefore, -⟩
    · exact ⟨hnone, hrevision⟩
    · rw [hbefore] at hnone
      cases hnone
  · intro s hs change hchange hkey hallocates
    obtain ⟨e, he, rfl⟩ := hput.1 hs
    rw [hunique e he change hchange hkey]
    obtain ⟨done, hlicence, -⟩ := ht.exists_licensed he
    rcases hlicence.revision with ⟨-, -, hnew⟩ | ⟨b, hbefore, -⟩
    · exact absurd hnew hallocates
    · obtain ⟨hfound, hrevision⟩ := ht.loaded_of_before he hbefore
      refine ⟨b, hfound, ?_, hrevision⟩
      rw [hbefore]
      rfl
  · intro change hchange hother
    rcases mem_changes.1 hchange with hmem | hmem
    · rw [ht.changes] at hmem
      obtain ⟨e, he, rfl⟩ := mem_map.1 hmem
      exact absurd rfl (hother _ (hput.2 ⟨e, he, rfl⟩))
    · rcases mem_aggregateChanges.1 hmem with ⟨id, before, hfind, huntouched, rfl⟩ |
        ⟨id, before, hfind, rfl⟩
      · obtain ⟨hid, old, hold, hrevision⟩ := (ht.parents id huntouched before).1 hfind
        exact ⟨before, rfl, rfl, .inl ⟨id, hid, rfl, old, hold, hrevision⟩⟩
      · obtain ⟨hid, track, htrack, hrevision⟩ := (ht.tracks id before).1 hfind
        obtain ⟨e, he, hid⟩ := (hts id).1 hid
        obtain ⟨done, hlicence, hnew⟩ := ht.exists_licensed he
        rw [hlicence.tracks_eq hnew] at hid
        exact ⟨before, rfl, rfl,
          .inr ⟨e.after, id, hput.2 ⟨e, he, rfl⟩, hid, rfl, track, htrack, hrevision⟩⟩
  · intro id hid
    obtain ⟨e, he, hparent⟩ := (h.parents id).1 hid
    obtain ⟨done, hlicence, -⟩ := ht.exists_licensed he
    obtain ⟨old, hold⟩ := hlicence.section_of_mem hparent
    by_cases htouched : ⟨.narrativeNode, id⟩ ∈ n.touched
    · obtain ⟨d, hd, hkey⟩ := mem_map.1 (h.settled _ htouched)
      exact ⟨_, hentry d hd, hkey⟩
    · refine ⟨aroundChange .narrativeNode id old.revision, ?_, rfl⟩
      rw [mem_changes, mem_aggregateChanges]
      exact .inr (.inl ⟨id, _, (ht.parents id htouched _).2 ⟨hid, old, hold, rfl⟩, htouched, rfl⟩)
  · intro s hs id hid
    obtain ⟨e, he, rfl⟩ := hput.1 hs
    obtain ⟨_, hlicence, hnew⟩ := ht.exists_licensed he
    rw [← hlicence.tracks_eq hnew] at hid
    obtain ⟨track, htrack⟩ := hlicence.track_of_mem hid
    refine ⟨aroundChange .track id track.revision, ?_, rfl⟩
    rw [mem_changes, mem_aggregateChanges]
    exact .inr (.inr ⟨id, _, (ht.tracks id _).2 ⟨(hts id).2 ⟨e, he, hid⟩, track, htrack, rfl⟩, rfl⟩)

/-- What was normalized is a proposal of puts. -/
theorem puts_of_balanced (h : Balanced I n es ps []) : (n.proposal I).Puts (es.map (·.after)) := by
  obtain ⟨ts, ht, -⟩ := h.trace
  refine ⟨?_, ?_, nodup_changes h, fun s hs => ?_, fun change hchange hput => ?_⟩
  · rw [proposal, ht.operations]
  · rw [map_map]
    exact ht.nodup
  · obtain ⟨e, he, rfl⟩ := mem_map.1 hs
    refine ⟨changeOf e.before e.after, ?_, rfl, rfl⟩
    rw [mem_changes, ht.changes]
    exact .inl (mem_map_of_mem he)
  · rcases mem_changes.1 hchange with hmem | hmem
    · rw [ht.changes] at hmem
      obtain ⟨e, he, rfl⟩ := mem_map.1 hmem
      exact absurd (mem_map_of_mem (mem_map_of_mem he)) hput
    · rcases mem_aggregateChanges.1 hmem with ⟨id, _, -, -, rfl⟩ | ⟨id, _, -, rfl⟩
      · exact .inl rfl
      · exact .inr rfl

end EditNormalizer

/-! ## Accepted proposals -/

theorem tracksKeyed_of_load {projectRevision : Revision} {c : Content} {m : Media}
    {I : NormalizeEditInput}
    (h : loadEditNormalizationState projectRevision c m I.input = .ok I.state) : I.TracksKeyed := by
  obtain ⟨l, hstate, hloaded⟩ := loaded_of_loadEditNormalizationState h
  intro id track htrack
  rw [← hstate] at htrack
  exact (hloaded.tracks htrack).1

/-- The changes of a proposal that is accepted name what it writes, and committing it
    advances them and the heads above them, and nothing else. -/
theorem Project.normalizeRequest_disciplined [Uniseg] {p : Project} {proposalID : ID}
    {runID turnID : Option ID} {actor : ActorRef} {allocation : List LocalAllocation}
    {input : EditProposeInput} {proposal : EditProposal}
    (h : p.normalizeRequest proposalID runID turnID actor allocation input = .ok proposal) :
    ∃ state, loadEditNormalizationState p.revision p.content p.media input = .ok state ∧
      proposal.Disciplined { proposalID, runID, turnID, actor, allocation, input, state } ∧
      ∀ q q' transactionID undoes, q.commitProposal proposal transactionID undoes = .ok q' →
        proposal.Advances q q' := by
  simp only [normalizeRequest, normalizeEditProposal, steps_ok] at h
  obtain ⟨state, hload, hvalid, n, hrun, rfl⟩ := h
  refine ⟨state, hload, ?_⟩
  set I : NormalizeEditInput := { proposalID, runID, turnID, actor, allocation, input, state }
  have hkeyed : I.TracksKeyed := tracksKeyed_of_load hload
  obtain ⟨es, es', m, -, -, -, -, hbalanced, -, -⟩ := runNormalizer_emits hkeyed hrun
  refine ⟨disciplined_of_balanced hbalanced fun key hkey =>
    created_of_allocates hkeyed hvalid hrun hkey, ?_⟩
  intro q q' transactionID undoes hcommit
  exact (puts_of_balanced hbalanced).advances hcommit

/-! ## Samples -/

/-- What is accepted of the creator's request to link the two clips. -/
def sampleLink (p : Project) : Except EditError EditProposal :=
  @Project.normalizeRequest p runeClusters 500 none none (.creator 9) [⟨['g'], .linkGroup, 22⟩] {
    requestID := ['l'], intent := ['x'], baseProjectRevision := 3
    preconditions := [⟨⟨.clip, 20⟩, 1⟩, ⟨⟨.clip, 21⟩, 1⟩]
    operations := [.linkClips ['g'] [20, 21]] }

/-- Linking the clips is disciplined: it has three entries, and committing it advances
    three entities and the sequence. -/
theorem sampleLink_disciplined : ∃ p proposal q,
    sampleAfter sampleClips = some p ∧ sampleLink p = .ok proposal ∧
    p.commitProposal proposal 501 none = .ok q ∧ proposal.changes.length = 3 ∧
    (∃ I, proposal.Disciplined I) ∧ proposal.Advances p q := by
  obtain ⟨p, hp, proposal, hproposal, hlength, q, hq⟩ : ∃ p,
      sampleAfter sampleClips = some p ∧ ∃ proposal, sampleLink p = .ok proposal ∧
        proposal.changes.length = 3 ∧ ∃ q, p.commitProposal proposal 501 none = .ok q := by
    decide +kernel
  let _ := runeClusters
  obtain ⟨_, -, hdisciplined, hadvances⟩ := Project.normalizeRequest_disciplined hproposal
  exact ⟨p, proposal, q, hp, hproposal, hq, hlength, ⟨_, hdisciplined⟩, hadvances p q 501 none hq⟩

/-- The first clip, as it is linked. -/
def sampleLinkedClip : ClipState where
  id := 20
  revision := 2
  trackID := 4
  assetID := 40
  sourceStreamID := 43
  sourceRange := ⟨0, 1⟩
  timelineRange := ⟨0, 1⟩
  enabled := true
  linkGroupID := some 22
  placement := none
  tombstoned := false

/-- The clips that are linked change, but their track is not among the changes. -/
theorem sampleLink_without_track : ∃ p proposal old,
    sampleAfter sampleClips = some p ∧ sampleLink p = .ok proposal ∧
    .put (.clip sampleLinkedClip) ∈ proposal.operations ∧
    p.content.entities.clip? sampleLinkedClip.id = some old ∧
    sampleLinkedClip.linkGroupID ≠ old.linkGroupID ∧
    ∀ change ∈ proposal.changes, change.key ≠ ⟨.track, sampleLinkedClip.trackID⟩ := by
  simp only [exists_and_left]
  decide +kernel

end OpenCut
