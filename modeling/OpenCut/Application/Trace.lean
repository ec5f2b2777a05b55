import OpenCut.Application.Normalize

/-!
# What a run of the normalizer emits

The handlers of the normalizer differ in what they check and in what they put, but they
all leave the same record. A *trace* is that record: the puts so far, in their order,
each with the state that it replaces, the sections of which it inserts, moves or removes
a child, and the tracks whose contents it changes (`Emission`). `Licensed` lists, once,
what a put can be, with the checks that it has passed in the state the earlier puts left.

* `Trace`: the state of the normalizer, field by field, as a function of the record;
* `Balanced`: the sections and tracks on record are those of the puts, and a link group
  whose members change is put itself. It holds between any two operations.
-/

namespace OpenCut

open Outcome List EntityTable

/-! ## Emissions -/

/-- A put of the normalizer. -/
structure Emission where
  /-- The state of the entity before, unless it is new. -/
  before : Option EntityState
  after : EntityState
  /-- The sections of which a child is inserted, moved or removed. -/
  parents : List ID
  /-- The tracks whose contents change. -/
  tracks : List ID

/-- The entity that is put. -/
def Emission.key (e : Emission) : EntityKey := e.after.key

/-- One for a live child of the section, nothing else. -/
def EntityState.childOf (id : ID) : EntityState → Int
  | .narrativeNode s => if s.tombstoned = false ∧ s.parentID = some id then 1 else 0
  | _ => 0

/-- The link group of which the entity is a live member. -/
def EntityState.group? : EntityState → Option ID
  | .clip s => if s.tombstoned then none else s.linkGroupID
  | _ => none

/-- By how much the put changes the number of live children of a section. -/
def Emission.gain (id : ID) (e : Emission) : Int :=
  e.after.childOf id - (e.before.map (·.childOf id)).getD 0

theorem Emission.gain_existing (id : ID) (before after : EntityState) (parents tracks : List ID) :
    Emission.gain id ⟨some before, after, parents, tracks⟩ = after.childOf id - before.childOf id :=
  rfl

/-- The put takes a live member into the group or out of it. -/
def Emission.Regroups (e : Emission) (group : ID) : Prop :=
  ¬(e.before.bind (·.group?) = some group ↔ e.after.group? = some group)

/-- The table after the puts. -/
def EntityTable.run (t : EntityTable) (es : List Emission) : EntityTable :=
  es.foldl (fun t e => t.put e.after) t

namespace EntityTable

theorem run_append (t : EntityTable) (es es' : List Emission) :
    t.run (es ++ es') = (t.run es).run es' :=
  foldl_append

theorem run_concat (t : EntityTable) (es : List Emission) (e : Emission) :
    t.run (es ++ [e]) = (t.run es).put e.after :=
  run_append t es [e]

variable {t : EntityTable}

/-- What is not put stays. -/
theorem find?_run_of_not_mem {es : List Emission} {k : EntityKey}
    (h : k ∉ es.map (·.key)) : (t.run es).find? k = t.find? k := by
  induction es generalizing t with
  | nil => rfl
  | cons e es ih =>
    rw [map_cons, mem_cons, not_or] at h
    exact (ih h.2).trans (find?_put_ne t h.1)

/-- What is put once is there. -/
theorem find?_run_of_mem {es : List Emission} (h : (es.map (·.key)).Nodup)
    {e : Emission} (he : e ∈ es) : (t.run es).find? e.key = some e.after := by
  induction es generalizing t with
  | nil => exact absurd he not_mem_nil
  | cons d es ih =>
    rw [map_cons, nodup_cons] at h
    rcases mem_cons.1 he with rfl | he
    · exact (find?_run_of_not_mem h.1).trans (find?_put_self t e.after)
    · exact ih h.2 he

end EntityTable

/-! ## Licences -/

namespace NormalizeEditInput

variable (I : NormalizeEditInput)

/-- The identity of the entity is allocated for the request. -/
def Allocates (key : EntityKey) : Prop := ∃ a ∈ I.allocation, a.kind = key.kind ∧ a.id = key.id

/-- The request has a precondition on the entity at this revision. -/
def Requires (key : EntityKey) (revision : Revision) : Prop :=
  I.conditions.find? key = some revision

/-- A section that children can be put under, as far as the puts go: live, loaded, and
    named by a precondition. -/
def OpenSection (t : EntityTable) (id : ID) : Prop :=
  (∃ s, t.section? id = some s ∧ s.tombstoned = false) ∧
    ∃ b, I.base.section? id = some b ∧ I.Requires ⟨.narrativeNode, id⟩ b.revision

/-- The node can be the anchor of a child of the section. -/
def AnchorIn (t : EntityTable) (parent anchor : ID) : Prop :=
  ∃ s, t.node? anchor = some s ∧ s.tombstoned = false ∧ s.parentID = some parent

/-- A track of the state. -/
def HasTrack (id : ID) : Prop :=
  ∃ track, I.state.tracks.find? id = some track ∧ I.Requires ⟨.track, id⟩ track.revision

/-- What the alignment is to be bound to is there, live and at the revision recorded. -/
def LiveTarget (t : EntityTable) : AlignmentTarget → Prop
  | .caption id revision _ =>
    ∃ s, t.caption? id = some s ∧ s.tombstoned = false ∧ s.revision = revision
  | .clip id revision _ => ∃ s, t.clip? id = some s ∧ s.tombstoned = false ∧ s.revision = revision
  | .timeline .. => True

/-- The number of live children that the section has after the puts. -/
def childrenAfter (es : List Emission) (id : ID) : Int :=
  (I.state.sectionChildCounts.find? id).getD 0 + (es.map (·.gain id)).sum

end NormalizeEditInput

/-- The puts that can follow the puts `es`. -/
inductive Licensed (I : NormalizeEditInput) (es : List Emission) : Emission → Prop
  | insertNode {s : NarrativeNodeState} {parent : ID} (hid : I.Allocates ⟨.narrativeNode, s.id⟩)
      (hnew : (I.base.run es).node? s.id = none) (hrevision : s.revision = 1)
      (hlive : s.tombstoned = false) (hparent : s.parentID = some parent)
      (hsection : I.OpenSection (I.base.run es) parent)
      (hanchor : ∀ a ∈ s.afterNodeID, NormalizeEditInput.AnchorIn (I.base.run es) parent a) :
      Licensed I es ⟨none, .narrativeNode s, [parent], []⟩
  | updateNode {s : NarrativeNodeState} {value : NarrativeNodeValue}
      (hs : (I.base.run es).node? s.id = some s) (hlive : s.tombstoned = false)
      (hkind : value.kind = s.kind) (hrequire : I.Requires ⟨.narrativeNode, s.id⟩ s.revision) :
      Licensed I es ⟨some (.narrativeNode s),
        .narrativeNode { s with revision := s.revision + 1, value := value }, [], []⟩
  | moveNode {s : NarrativeNodeState} {old new : ID} {anchor : Option ID}
      (hs : (I.base.run es).node? s.id = some s) (hlive : s.tombstoned = false)
      (hrequire : I.Requires ⟨.narrativeNode, s.id⟩ s.revision) (hold : s.parentID = some old)
      (holdSection : I.OpenSection (I.base.run es) old)
      (hnewSection : I.OpenSection (I.base.run es) new)
      (hanchor : ∀ a ∈ anchor, a ≠ s.id ∧ NormalizeEditInput.AnchorIn (I.base.run es) new a)
      (hdescent : s.kind = .section → (I.base.run es).sectionDescendsFrom new s.id = false) :
      Licensed I es ⟨some (.narrativeNode s), .narrativeNode
        { s with revision := s.revision + 1, parentID := some new, afterNodeID := anchor },
        [old, new], []⟩
  | removeNode {s : NarrativeNodeState} {parent : ID}
      (hs : (I.base.run es).node? s.id = some s) (hlive : s.tombstoned = false)
      (hrequire : I.Requires ⟨.narrativeNode, s.id⟩ s.revision) (hparent : s.parentID = some parent)
      (hsection : I.OpenSection (I.base.run es) parent)
      (hempty : s.kind = .section → I.childrenAfter es s.id = 0) :
      Licensed I es ⟨some (.narrativeNode s),
        .narrativeNode { s with revision := s.revision + 1, tombstoned := true }, [parent], []⟩
  | newCaption {s : CaptionState} (hid : I.Allocates ⟨.caption, s.id⟩) (hrevision : s.revision = 1)
      (hlive : s.tombstoned = false) (htrack : I.HasTrack s.trackID) :
      Licensed I es ⟨none, .caption s, [], [s.trackID]⟩
  | changeCaption {s : CaptionState} {range : TimeRange} {language : CaptionLanguage} {text : Text}
      {tombstoned : Bool} (hs : (I.base.run es).caption? s.id = some s)
      (hlive : s.tombstoned = false) (hrequire : I.Requires ⟨.caption, s.id⟩ s.revision)
      (htrack : I.HasTrack s.trackID) :
      Licensed I es ⟨some (.caption s), .caption { s with
        revision := s.revision + 1, range := range, language := language, text := text,
        tombstoned := tombstoned }, [], [s.trackID]⟩
  | newClip {s : ClipState} (hid : I.Allocates ⟨.clip, s.id⟩)
      (hnew : (I.base.run es).clip? s.id = none) (hrevision : s.revision = 1)
      (hlive : s.tombstoned = false) (htrack : I.HasTrack s.trackID)
      (hgroup : ∀ g ∈ s.linkGroupID, ⟨.linkGroup, g⟩ ∈ es.map (·.key)) :
      Licensed I es ⟨none, .clip s, [], [s.trackID]⟩
  | changeClip {s : ClipState} {trackID : ID} {sourceRange timelineRange : TimeRange}
      {placement : Option ClipPlacement} {tombstoned : Bool}
      (hs : (I.base.run es).clip? s.id = some s) (hlive : s.tombstoned = false)
      (htrack : I.HasTrack s.trackID) (hnext : I.HasTrack trackID) :
      Licensed I es ⟨some (.clip s), .clip { s with
        revision := s.revision + 1, trackID := trackID, sourceRange := sourceRange,
        timelineRange := timelineRange, placement := placement, tombstoned := tombstoned },
        [], [s.trackID, trackID]⟩
  | relinkClip {s : ClipState} {group : Option ID}
      (hs : (I.base.run es).clip? s.id = some s) (hlive : s.tombstoned = false)
      (hgroup : group ≠ s.linkGroupID) :
      Licensed I es ⟨some (.clip s),
        .clip { s with revision := s.revision + 1, linkGroupID := group }, [], []⟩
  | newGroup {s : LinkGroupState} (hid : I.Allocates ⟨.linkGroup, s.id⟩)
      (hnew : (I.base.run es).linkGroup? s.id = none) (hrevision : s.revision = 1)
      (hlive : s.tombstoned = false) :
      Licensed I es ⟨none, .linkGroup s, [], []⟩
  | changeGroup {s : LinkGroupState} {tombstoned : Bool}
      (hs : (I.base.run es).linkGroup? s.id = some s) (hlive : s.tombstoned = false)
      (hrequire : I.Requires ⟨.linkGroup, s.id⟩ s.revision) :
      Licensed I es ⟨some (.linkGroup s),
        .linkGroup { s with revision := s.revision + 1, tombstoned := tombstoned }, [], []⟩
  | newCorrection {s : TranscriptCorrectionState} (hid : I.Allocates ⟨.transcriptCorrection, s.id⟩)
      (hnew : (I.base.run es).correction? s.id = none) (hrevision : s.revision = 1)
      (hlive : s.tombstoned = false)
      (hfree : transcriptCorrectionOverlaps (I.base.run es).corrections s.artifactID s.language
        s.sourceRange none = false) :
      Licensed I es ⟨none, .transcriptCorrection s, [], []⟩
  | changeCorrection {s : TranscriptCorrectionState} {language : CaptionLanguage} {text : Text}
      {tombstoned : Bool} (hs : (I.base.run es).correction? s.id = some s)
      (hlive : s.tombstoned = false)
      (hrequire : I.Requires ⟨.transcriptCorrection, s.id⟩ s.revision)
      (hfree : tombstoned = false → transcriptCorrectionOverlaps (I.base.run es).corrections
        s.artifactID language s.sourceRange (some s.id) = false) :
      Licensed I es ⟨some (.transcriptCorrection s), .transcriptCorrection { s with
        revision := s.revision + 1, replacementText := text, language := language,
        tombstoned := tombstoned }, [], []⟩
  | newAlignment {s : AlignmentState} (hid : I.Allocates ⟨.alignment, s.id⟩)
      (hrevision : s.revision = 1)
      (hnode : ∃ node, (I.base.run es).node? s.narrativeNodeID = some node ∧
        node.tombstoned = false)
      (htargets : ∀ target ∈ s.targets, NormalizeEditInput.LiveTarget (I.base.run es) target) :
      Licensed I es ⟨none, .alignment s, [], []⟩
  | changeAlignment {s : AlignmentState} {targets : List AlignmentTarget} {status : AlignmentStatus}
      (hs : (I.base.run es).alignment? s.id = some s)
      (hrequire : I.Requires ⟨.alignment, s.id⟩ s.revision)
      (hexact : status = .exact → s.status = .exact ∧
        ⟨.narrativeNode, s.narrativeNodeID⟩ ∉ es.map (·.key) ∧
        ∀ target ∈ targets, NormalizeEditInput.LiveTarget (I.base.run es) target) :
      Licensed I es ⟨some (.alignment s), .alignment { s with
        revision := s.revision + 1, targets := targets, status := status }, [], []⟩

/-- A put is of an entity whose identity is allocated, at the first revision, or of one
    that was there, at the next. -/
theorem Licensed.revision {I : NormalizeEditInput} {es : List Emission} {e : Emission}
    (h : Licensed I es e) :
    (e.before = none ∧ e.after.revision = 1 ∧ I.Allocates e.key) ∨
      ∃ b, e.before = some b ∧ (I.base.run es).find? e.key = some b ∧
        e.after.revision = b.revision + 1 := by
  cases h with
  | insertNode hid _ hrevision => exact .inl ⟨rfl, hrevision, hid⟩
  | newCaption hid hrevision => exact .inl ⟨rfl, hrevision, hid⟩
  | newClip hid _ hrevision => exact .inl ⟨rfl, hrevision, hid⟩
  | newGroup hid _ hrevision => exact .inl ⟨rfl, hrevision, hid⟩
  | newCorrection hid _ hrevision => exact .inl ⟨rfl, hrevision, hid⟩
  | newAlignment hid hrevision => exact .inl ⟨rfl, hrevision, hid⟩
  | updateNode hs => exact .inr ⟨_, rfl, node?_eq_some.1 hs, rfl⟩
  | moveNode hs => exact .inr ⟨_, rfl, node?_eq_some.1 hs, rfl⟩
  | removeNode hs => exact .inr ⟨_, rfl, node?_eq_some.1 hs, rfl⟩
  | changeCaption hs => exact .inr ⟨_, rfl, caption?_eq_some.1 hs, rfl⟩
  | changeClip hs => exact .inr ⟨_, rfl, clip?_eq_some.1 hs, rfl⟩
  | relinkClip hs => exact .inr ⟨_, rfl, clip?_eq_some.1 hs, rfl⟩
  | changeGroup hs => exact .inr ⟨_, rfl, linkGroup?_eq_some.1 hs, rfl⟩
  | changeCorrection hs => exact .inr ⟨_, rfl, correction?_eq_some.1 hs, rfl⟩
  | changeAlignment hs => exact .inr ⟨_, rfl, alignment?_eq_some.1 hs, rfl⟩

/-! ## Traces -/

/-- The state `n` is that of the normalizer after the puts `es`, with the sections `ps`
    and the tracks `ts` on record. -/
structure Trace (I : NormalizeEditInput) (n : EditNormalizer) (es : List Emission)
    (ps ts : List ID) : Prop where
  working : n.working = I.base.run es
  operations : n.operations = es.map (·.after)
  inverse : n.inverse = es.map fun e => inverseOf e.before e.after
  changes : n.changes = es.map fun e => changeOf e.before e.after
  nodup : (es.map (·.key)).Nodup
  touched : ∀ e ∈ es, e.key ∈ n.touched
  licensed : ∀ done e rest, es = done ++ e :: rest → Licensed I done e
  children : ∀ id, (n.sectionChildren.find? id).getD 0 = I.childrenAfter es id
  parents : ∀ id, ⟨.narrativeNode, id⟩ ∉ n.touched → ∀ r, n.parentChanges.find? id = some r ↔
    id ∈ ps ∧ ∃ b, I.base.section? id = some b ∧ b.revision = r
  tracks : ∀ id r, n.trackChanges.find? id = some r ↔
    id ∈ ts ∧ ∃ track, I.state.tracks.find? id = some track ∧ track.revision = r

/-- The records agree with the puts, except that the link groups `owed` are still to be
    put: the sections `ps` are on record. -/
structure Balanced (I : NormalizeEditInput) (n : EditNormalizer) (es : List Emission)
    (ps owed : List ID) : Prop where
  trace : ∃ ts, Trace I n es ps ts ∧ ∀ id, id ∈ ts ↔ ∃ e ∈ es, id ∈ e.tracks
  settled : ∀ k ∈ n.touched, k ∈ es.map (·.key)
  parents : ∀ id, id ∈ ps ↔ ∃ e ∈ es, id ∈ e.parents
  groups : ∀ e ∈ es, ∀ g, e.Regroups g → ⟨.linkGroup, g⟩ ∈ es.map (·.key) ∨ g ∈ owed

/-! ## Steps of a trace -/

theorem NormalizeEditInput.childrenAfter_concat (I : NormalizeEditInput) (es : List Emission)
    (e : Emission) (id : ID) :
    I.childrenAfter (es ++ [e]) id = I.childrenAfter es id + e.gain id := by
  simp [childrenAfter, add_assoc]

/-- The entity is touched. -/
abbrev EditNormalizer.mark (n : EditNormalizer) (k : EntityKey) : EditNormalizer :=
  { n with touched := k :: n.touched }

namespace Trace

variable {I : NormalizeEditInput} {n : EditNormalizer} {es : List Emission} {ps ts : List ID}
  (h : Trace I n es ps ts)
include h

variable {k : EntityKey}

theorem not_mem_keys (hk : k ∉ n.touched) : k ∉ es.map (·.key) := by
  intro hmem
  obtain ⟨e, he, rfl⟩ := mem_map.1 hmem
  exact hk (h.touched e he)

/-- What no operation has touched is as it was loaded. -/
theorem find?_of_untouched (hk : k ∉ n.touched) : n.working.find? k = I.base.find? k := by
  rw [h.working]
  exact find?_run_of_not_mem (h.not_mem_keys hk)

variable {e : Emission}

/-- Every put of the trace had its licence, and its entity was not put before. -/
theorem exists_licensed (he : e ∈ es) : ∃ done, Licensed I done e ∧ e.key ∉ done.map (·.key) := by
  obtain ⟨done, rest, rfl⟩ := append_of_mem he
  refine ⟨done, h.licensed done e rest rfl, fun hmem => ?_⟩
  have hkeys := h.nodup
  rw [map_append, nodup_append'] at hkeys
  exact hkeys.2.2 hmem mem_cons_self

/-- What a put replaces was loaded. -/
theorem loaded_of_before (he : e ∈ es) {b : EntityState} (hb : e.before = some b) :
    I.base.find? e.key = some b ∧ e.after.revision = b.revision + 1 := by
  obtain ⟨_, hlicensed, hnew⟩ := h.exists_licensed he
  rcases hlicensed.revision with ⟨hnone, -, -⟩ | ⟨b', hb', hfind, hrevision⟩
  · cases hnone.symm.trans hb
  · obtain rfl := Option.mem_unique hb' hb
    rw [find?_run_of_not_mem hnew] at hfind
    exact ⟨hfind, hrevision⟩

/-- More entities may be touched. -/
theorem touch {touched : List EntityKey} (hsub : n.touched ⊆ touched) :
    Trace I { n with touched } es ps ts :=
  { h with
    touched := fun e he => hsub (h.touched e he)
    parents := fun id hid => h.parents id fun hmem => hid (hsub hmem) }

theorem mark (k : EntityKey) : Trace I (n.mark k) es ps ts := h.touch (subset_cons_self k n.touched)

/-- A put that has its licence and changes the numbers of children as recorded. -/
theorem put (e : Emission) (hk : e.key ∈ n.touched) (hnew : e.key ∉ es.map (·.key))
    (hlicensed : Licensed I es e) {counts : Table ID Int}
    (hcounts : ∀ id, (counts.find? id).getD 0 = (n.sectionChildren.find? id).getD 0 + e.gain id) :
    Trace I { n.put e.before e.after with sectionChildren := counts } (es ++ [e]) ps ts where
  working := by
    rw [run_concat, ← h.working]
    rfl
  operations := by
    rw [map_append, ← h.operations]
    rfl
  inverse := by
    rw [map_append, ← h.inverse]
    rfl
  changes := by
    rw [map_append, ← h.changes]
    rfl
  nodup := by
    rw [map_append, map_singleton]
    exact h.nodup.append (nodup_singleton _) (disjoint_singleton.2 hnew)
  touched := by
    intro d hd
    rcases mem_append.1 hd with hd | hd
    · exact h.touched d hd
    · rwa [mem_singleton.1 hd]
  licensed := by
    intro done d rest heq
    rcases eq_nil_or_concat rest with rfl | ⟨rest, _, rfl⟩
    · obtain ⟨rfl, hd⟩ := append_inj' heq rfl
      rwa [← head_eq_of_cons_eq hd]
    · rw [concat_eq_append, ← cons_append, ← append_assoc] at heq
      exact h.licensed done d rest (append_inj' heq rfl).1
  children := fun id => by
    rw [I.childrenAfter_concat, ← h.children]
    exact hcounts id
  parents := h.parents
  tracks := h.tracks

/-- A put of an entity that is no node. -/
theorem put_entity (e : Emission) (hk : e.key ∈ n.touched) (hnew : e.key ∉ es.map (·.key))
    (hlicensed : Licensed I es e) (hgain : ∀ id, e.gain id = 0) :
    Trace I (n.put e.before e.after) (es ++ [e]) ps ts :=
  h.put e hk hnew hlicensed fun id => by rw [hgain, add_zero]

theorem changeTrack {id : ID} {track : EditTrackState}
    (htrack : I.state.tracks.find? id = some track) (hid : track.id = id) :
    Trace I (n.changeTrack track) es ps (ts ++ [id]) :=
  { h with
    tracks := by
      intro id' r
      change (n.trackChanges.set track.id track.revision).find? id' = some r ↔ _
      rw [hid, Table.find?_set, mem_append, mem_singleton]
      split
      · next heq =>
        subst heq
        simp [htrack]
      · next hne =>
        rw [h.tracks]
        simp [hne] }

theorem markParent (id : ID) : Trace I (n.markNarrativeParentChanged I id) es (ps ++ [id]) ts := by
  have hparents : ∀ id', ⟨.narrativeNode, id'⟩ ∉ n.touched → id' ≠ id → ∀ r,
      n.parentChanges.find? id' = some r ↔
        id' ∈ ps ++ [id] ∧ ∃ b, I.base.section? id' = some b ∧ b.revision = r := by
    intro id' hid' hne r
    rw [h.parents id' hid']
    simp [hne]
  unfold EditNormalizer.markNarrativeParentChanged
  split
  · next htouched =>
    refine { h with parents := fun id' hid' r => ?_ }
    have hne : id' ≠ id := fun heq => hid' (heq ▸ htouched)
    rw [← hparents id' hid' hne, Table.find?_erase, if_neg hne]
  · next htouched =>
    split
    · next base hbase =>
      refine { h with parents := fun id' hid' r => ?_ }
      rw [Table.find?_set]
      split
      · next heq =>
        subst heq
        simp [hbase]
      · next hne => exact hparents id' hid' hne r
    · next hbase =>
      refine { h with parents := fun id' hid' r => ?_ }
      by_cases hne : id' = id
      · subst hne
        rw [h.parents id' hid']
        simp [hbase]
      · exact hparents id' hid' hne r

theorem forgetParent {id : ID} (hid : ⟨.narrativeNode, id⟩ ∈ n.touched) :
    Trace I (n.forgetParentChange id) es ps ts :=
  { h with
    parents := by
      intro id' hid' r
      have hne : id' ≠ id := fun heq => hid' (heq ▸ hid)
      change (n.parentChanges.erase id).find? id' = some r ↔ _
      rw [Table.find?_erase, if_neg hne]
      exact h.parents id' hid' r }

theorem setMembers (id : ID) (members : List ID) : Trace I (n.setMembers id members) es ps ts :=
  { h with }

theorem setEffect (id : ID) (status : AlignmentStatus) : Trace I (n.setEffect id status) es ps ts :=
  { h with }

end Trace

namespace Balanced

variable {I : NormalizeEditInput} {n n' : EditNormalizer} {es es' : List Emission}
  {ps ps' owed owed' : List ID}

section

variable (h : Balanced I n es ps owed)
include h

theorem working : n.working = I.base.run es := by
  obtain ⟨ts, htrace, -⟩ := h.trace
  exact htrace.working

theorem changes : n.changes = es.map fun e => changeOf e.before e.after := by
  obtain ⟨ts, htrace, -⟩ := h.trace
  exact htrace.changes

variable {k : EntityKey}

theorem mem_touched : k ∈ n.touched ↔ k ∈ es.map (·.key) := by
  refine ⟨h.settled k, fun hk => ?_⟩
  obtain ⟨ts, htrace, -⟩ := h.trace
  by_contra hn
  exact htrace.not_mem_keys hn hk

theorem find?_of_untouched (hk : k ∉ n.touched) : n.working.find? k = I.base.find? k := by
  obtain ⟨ts, htrace, -⟩ := h.trace
  exact htrace.find?_of_untouched hk

/-- What is touched and put stays so. -/
theorem touched_mono (h' : Balanced I n' es' ps' owed') (hes : es <+: es') :
    n.touched ⊆ n'.touched := by
  intro k hk
  rw [h'.mem_touched]
  exact (hes.map _).subset (h.settled k hk)

theorem changes_mono (h' : Balanced I n' es' ps' owed') (hes : es <+: es') :
    n.changes ⊆ n'.changes := by
  rw [h.changes, h'.changes]
  exact (hes.map _).subset

/-- More puts, with the sections and tracks that they change recorded. -/
theorem extend
    (htrace : ∀ ts, Trace I n es ps ts → ∃ ts', Trace I n' (es ++ es') (ps ++ ps') (ts ++ ts') ∧
      ∀ id, id ∈ ts' ↔ ∃ e ∈ es', id ∈ e.tracks)
    (htouched : ∀ k ∈ n'.touched, k ∈ n.touched ∨ k ∈ es'.map (·.key))
    (hparents : ∀ id, id ∈ ps' ↔ ∃ e ∈ es', id ∈ e.parents)
    (hgroups : ∀ e ∈ es', ∀ g, e.Regroups g → ⟨.linkGroup, g⟩ ∈ (es ++ es').map (·.key) ∨
      g ∈ owed) :
    Balanced I n' (es ++ es') (ps ++ ps') owed where
  trace := by
    obtain ⟨ts, ht, hts⟩ := h.trace
    obtain ⟨ts', ht', hts'⟩ := htrace ts ht
    refine ⟨_, ht', fun id => ?_⟩
    rw [mem_append, hts, hts']
    simp [or_and_right, exists_or]
  settled := by
    intro k hk
    rw [map_append, mem_append]
    exact (htouched k hk).imp_left (h.settled k)
  parents := by
    intro id
    rw [mem_append, h.parents, hparents]
    simp [or_and_right, exists_or]
  groups := by
    intro d hd g hg
    rcases mem_append.1 hd with hd | hd
    · refine (h.groups d hd g hg).imp_left fun hmem => ?_
      rw [map_append, mem_append]
      exact .inl hmem
    · exact hgroups d hd g hg

variable {e : Emission}

/-- One more put of an entity that is no node. -/
theorem emit (htrace : ∀ ts, Trace I n es ps ts → ∃ ts', Trace I n' (es ++ [e]) ps (ts ++ ts') ∧
      ∀ id, id ∈ ts' ↔ id ∈ e.tracks) (htouched : n'.touched ⊆ e.key :: n.touched)
    (hparents : e.parents = [])
    (hgroups : ∀ g, e.Regroups g → ⟨.linkGroup, g⟩ ∈ es.map (·.key) ∨ g ∈ owed) :
    Balanced I n' (es ++ [e]) ps owed := by
  rw [← append_nil ps]
  refine h.extend (by simpa using htrace) ?_ ?_ ?_
  · intro k hk
    simpa [or_comm] using htouched hk
  · simp [hparents]
  · intro d hd g hg
    rw [mem_singleton.1 hd] at hg
    refine (hgroups g hg).imp_left fun hmem => ?_
    rw [map_append, mem_append]
    exact .inl hmem

/-- One more put of a node. -/
theorem emit_node (htrace : ∀ ts, Trace I n es ps ts → Trace I n' (es ++ [e]) (ps ++ e.parents) ts)
    (htouched : n'.touched = e.key :: n.touched) (htracks : e.tracks = [])
    (hgroups : ∀ g, ¬e.Regroups g) : Balanced I n' (es ++ [e]) (ps ++ e.parents) owed := by
  refine h.extend (fun ts ht => ⟨[], by simpa using htrace ts ht, by simp [htracks]⟩) ?_ ?_ ?_
  · intro k hk
    rw [htouched, mem_cons] at hk
    simpa [or_comm] using hk
  · simp
  · intro d hd g hg
    rw [mem_singleton.1 hd] at hg
    exact absurd hg (hgroups g)

/-- A put that changes neither a section nor a track. -/
theorem put {before : Option EntityState} {after : EntityState}
    (hlicensed : Licensed I es ⟨before, after, [], []⟩) (huntouched : after.key ∉ n.touched)
    (hgain : ∀ id, Emission.gain id ⟨before, after, [], []⟩ = 0)
    (hgroups : ∀ g, Emission.Regroups ⟨before, after, [], []⟩ g →
      ⟨.linkGroup, g⟩ ∈ es.map (·.key) ∨ g ∈ owed) :
    Balanced I ((n.mark after.key).put before after) (es ++ [⟨before, after, [], []⟩]) ps owed := by
  refine h.emit (fun ts ht => ⟨[], ?_, by simp⟩) (Subset.refl _) rfl hgroups
  rw [append_nil]
  exact (ht.mark _).put_entity ⟨before, after, [], []⟩ mem_cons_self
    (ht.not_mem_keys huntouched) hlicensed hgain

/-- Steps that put nothing. -/
theorem setMembers (id : ID) (members : List ID) :
    Balanced I (n.setMembers id members) es ps owed where
  trace := by
    obtain ⟨ts, ht, hts⟩ := h.trace
    exact ⟨ts, ht.setMembers id members, hts⟩
  settled := h.settled
  parents := h.parents
  groups := h.groups

theorem setEffect (id : ID) (status : AlignmentStatus) :
    Balanced I (n.setEffect id status) es ps owed where
  trace := by
    obtain ⟨ts, ht, hts⟩ := h.trace
    exact ⟨ts, ht.setEffect id status, hts⟩
  settled := h.settled
  parents := h.parents
  groups := h.groups

/-- Groups may be owed. -/
theorem owe (gs : List ID) : Balanced I n es ps (gs ++ owed) :=
  { h with groups := fun e he g hg => (h.groups e he g hg).imp_right (mem_append_right gs) }

end

/-- A group that has been put is not owed any more. -/
theorem pay (h : Balanced I n es ps (g :: owed)) (hg : ⟨.linkGroup, g⟩ ∈ es.map (·.key)) :
    Balanced I n es ps owed :=
  { h with
    groups := by
      intro e he g' hg'
      rcases h.groups e he g' hg' with hmem | howed
      · exact .inl hmem
      · rcases mem_cons.1 howed with rfl | howed
        · exact .inl hg
        · exact .inr howed }

end Balanced

end OpenCut
