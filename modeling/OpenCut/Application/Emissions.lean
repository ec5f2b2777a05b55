import OpenCut.Application.Trace

/-!
# What the operations of a request do

One lemma for every handler of the normalizer says all that an operation does if it succeeds
(`Handles`): it adds puts to the trace, after which the records are balanced again; of what is
loaded and alignments are anchored at, it puts what can be read off it; and it creates the entities
of the local names that it declares. This module has the operations on narrative nodes, captions,
transcripts and alignments.
-/

namespace OpenCut

open Outcome EntityTable List EntityState Emission

/-! ## What the primitive steps say -/

namespace EntityTable

variable {t : EntityTable} {id : ID}

theorem id_of_node? {s : NarrativeNodeState} (h : t.node? id = some s) : s.id = id :=
  congrArg EntityKey.id (key_of_find? (node?_eq_some.1 h))

theorem section?_eq_some {s : NarrativeNodeState} :
    t.section? id = some s ↔ t.node? id = some s ∧ s.kind = .section := by
  simp [section?, Option.filter_eq_some_iff]

theorem id_of_caption? {s : CaptionState} (h : t.caption? id = some s) : s.id = id :=
  congrArg EntityKey.id (key_of_find? (caption?_eq_some.1 h))

theorem id_of_clip? {s : ClipState} (h : t.clip? id = some s) : s.id = id :=
  congrArg EntityKey.id (key_of_find? (clip?_eq_some.1 h))

theorem id_of_linkGroup? {s : LinkGroupState} (h : t.linkGroup? id = some s) : s.id = id :=
  congrArg EntityKey.id (key_of_find? (linkGroup?_eq_some.1 h))

theorem id_of_correction? {s : TranscriptCorrectionState} (h : t.correction? id = some s) :
    s.id = id :=
  congrArg EntityKey.id (key_of_find? (correction?_eq_some.1 h))

theorem id_of_alignment? {s : AlignmentState} (h : t.alignment? id = some s) : s.id = id :=
  congrArg EntityKey.id (key_of_find? (alignment?_eq_some.1 h))

end EntityTable

namespace NormalizeEditInput

variable {I : NormalizeEditInput}

/-- Every track of the state stands under its own identity. -/
def TracksKeyed (I : NormalizeEditInput) : Prop :=
  ∀ id track, I.state.tracks.find? id = some track → track.id = id

theorem allocates_of_ok {name : LocalID} {kind : EditEntityKind} {id : ID}
    (h : I.allocated name kind = .ok id) : I.Allocates ⟨kind, id⟩ := by
  simp only [allocated, steps_ok] at h
  obtain ⟨a, ha, hkind, hid⟩ := h
  rcases Table.find?_foldl_set (g := fun a => a) ha with ⟨b, hb, -, rfl⟩ | hempty
  · exact ⟨b, hb, hkind, hid⟩
  · rw [Table.find?_empty] at hempty
    cases hempty

theorem requires_of_ok {key : EntityKey} {revision : Revision} {u : Unit}
    (h : I.require key revision = .ok u) : I.Requires key revision := by
  simp only [require, steps_ok] at h
  obtain ⟨_, hprovided, heq⟩ := h
  exact hprovided.trans (congrArg some heq)

end NormalizeEditInput

/-- The entity of the local name is among the changes, as a new one. -/
def NormalizeEditInput.Created (I : NormalizeEditInput) (changes : List EntityRevisionChange)
    (named : LocalID × EditEntityKind) : Prop :=
  ∃ id, I.allocated named.1 named.2 = .ok id ∧
    ∃ change ∈ changes, change.key = ⟨named.2, id⟩ ∧ change.before = none

theorem NormalizeEditInput.Created.mono {I : NormalizeEditInput}
    {changes changes' : List EntityRevisionChange} {named : LocalID × EditEntityKind}
    (h : I.Created changes named) (hsub : changes ⊆ changes') : I.Created changes' named := by
  obtain ⟨id, hid, change, hmem, hchange⟩ := h
  exact ⟨id, hid, change, hsub hmem, hchange⟩

/-- The sections of which the operation inserts, moves or removes a child. -/
def EditOperationInput.changedSections (t : EntityTable) : EditOperationInput → List ID
  | .insertNarrativeNode _ parentID _ _ => [parentID]
  | .insertSourceExcerpt _ parentID _ _ _ _ _ _ _ _ => [parentID]
  | .moveNarrativeNode nodeID parentID _ => (t.narrativeNodeParent nodeID).toList ++ [parentID]
  | .removeNarrativeNode nodeID => (t.narrativeNodeParent nodeID).toList
  | _ => []

/-- The kinds of the entities that alignments are anchored at. -/
def EditEntityKind.anchors : EditEntityKind → Bool
  | .narrativeNode | .caption | .clip => true
  | _ => false

namespace EditNormalizer

/-! ## Steps -/

/-- A step puts, of what alignments are anchored at and is loaded, just `keys`, which no earlier
    step has touched. It decides no alignment, and changes the members of link groups that it
    touches only. -/
structure Act (n n' : EditNormalizer) (keys : List EntityKey) : Prop where
  changes : ∃ cs, n'.changes = n.changes ++ cs ∧ ∀ k, k.kind.anchors →
    ((∃ c ∈ cs, c.key = k ∧ c.before.isSome) ↔ k ∈ keys)
  fresh : ∀ k ∈ keys, k ∉ n.touched
  effects : n'.alignmentEffects = n.alignmentEffects
  touched : n.touched ⊆ n'.touched
  members : ∀ g, ⟨.linkGroup, g⟩ ∉ n'.touched → n'.members g = n.members g

/-- A step adds the puts `es'` to the puts `es`. Of those, the puts of what is loaded and alignments
    are anchored at are the puts of `keys`; the entities of `names` are created. -/
structure Handled (I : NormalizeEditInput) (n n' : EditNormalizer) (es es' : List Emission)
    (ps owed : List ID) (keys : List EntityKey) (names : List (LocalID × EditEntityKind)) :
    Prop where
  balanced : Balanced I n' (es ++ es') ps owed
  acts : ∀ k, k ∈ keys ↔ k.kind.anchors ∧ ∃ e ∈ es', e.key = k ∧ e.before.isSome
  effects : n'.alignmentEffects = n.alignmentEffects
  members : ∀ g, ⟨.linkGroup, g⟩ ∉ n'.touched → n'.members g = n.members g
  created : ∀ named ∈ names, I.Created n'.changes named

/-- What a step does after the puts `es`. -/
def Handles (I : NormalizeEditInput) (n n' : EditNormalizer) (es : List Emission)
    (ps owed : List ID) (keys : List EntityKey) (names : List (LocalID × EditEntityKind)) : Prop :=
  ∃ es', Handled I n n' es es' ps owed keys names

variable {I : NormalizeEditInput} {n m n' : EditNormalizer} {es : List Emission}
  {ps ps' owed owed' : List ID} {keys keys' : List EntityKey}
  {names names' : List (LocalID × EditEntityKind)}

namespace Handles

theorem emits (h : Handles I n n' es ps owed keys names) :
    ∃ es', Balanced I n' (es ++ es') ps owed := by
  obtain ⟨es', h⟩ := h
  exact ⟨es', h.balanced⟩

theorem act (hn : Balanced I n es ps' owed') (h : Handles I n n' es ps owed keys names) :
    Act n n' keys := by
  obtain ⟨es', h⟩ := h
  refine ⟨⟨es'.map fun e => changeOf e.before e.after, ?_, fun k hk => ?_⟩, fun k hk => ?_,
    h.effects, hn.touched_mono h.balanced (prefix_append es es'), h.members⟩
  · rw [h.balanced.changes, hn.changes, map_append]
  · simp [h.acts, hk, changeOf, Emission.key]
  · obtain ⟨-, e, he, rfl, -⟩ := (h.acts k).1 hk
    obtain ⟨ts, ht, -⟩ := h.balanced.trace
    have hnodup := ht.nodup
    rw [map_append, nodup_append'] at hnodup
    rw [hn.mem_touched]
    exact fun hmem => hnodup.2.2 hmem (mem_map_of_mem he)

theorem refl (h : Balanced I n es ps owed) : Handles I n n es ps owed [] [] :=
  ⟨[], by rwa [append_nil], by simp, rfl, fun _ _ => rfl, by simp⟩

theorem trans (h : Handles I n m es ps owed keys names)
    (h' : ∀ es', es <+: es' → Balanced I m es' ps owed →
      Handles I m n' es' ps' owed' keys' names') :
    Handles I n n' es ps' owed' (keys ++ keys') (names ++ names') := by
  obtain ⟨es₁, h₁⟩ := h
  obtain ⟨es₂, h₂⟩ := h' (es ++ es₁) (prefix_append es es₁) h₁.balanced
  have hes : es ++ es₁ <+: es ++ es₁ ++ es₂ := prefix_append _ _
  refine ⟨es₁ ++ es₂, by simpa using h₂.balanced, fun k => ?_, h₂.effects.trans h₁.effects,
    fun g hg => ?_, fun named hnamed => ?_⟩
  · simp only [mem_append, h₁.acts, h₂.acts, or_and_right, exists_or, and_or_left]
  · rw [h₂.members g hg, h₁.members g fun hmem =>
      hg (h₁.balanced.touched_mono h₂.balanced hes hmem)]
  · rcases mem_append.1 hnamed with hnamed | hnamed
    · exact (h₁.created named hnamed).mono (h₁.balanced.changes_mono h₂.balanced hes)
    · exact h₂.created named hnamed

section

variable (h : Handles I n n' es ps owed keys names)
include h

/-- Only what is in the lists counts. -/
theorem congr (hkeys : ∀ k, k ∈ keys ↔ k ∈ keys')
    (hnames : names' ⊆ names) : Handles I n n' es ps owed keys' names' := by
  obtain ⟨es', h⟩ := h
  exact ⟨es', h.balanced, fun k => (hkeys k).symm.trans (h.acts k), h.effects, h.members,
    fun named hnamed => h.created named (hnames hnamed)⟩

/-- The members of a link group that is touched are set. -/
theorem setMembers {g : ID} (hg : ⟨.linkGroup, g⟩ ∈ n'.touched) (members : List ID) :
    Handles I n (n'.setMembers g members) es ps owed keys names := by
  obtain ⟨es', h⟩ := h
  refine ⟨es', h.balanced.setMembers g members, h.acts, h.effects, fun g' hg' => ?_, h.created⟩
  rw [← h.members g' hg', EditNormalizer.members, EditNormalizer.setMembers, Table.find?_set,
    if_neg]
  · rfl
  · rintro rfl
    exact hg' hg

end

/-- A link group that is put is not owed any more. -/
theorem pay {g : ID} (h : Handles I n n' es ps (g :: owed) keys names)
    (hg : ⟨.linkGroup, g⟩ ∈ n'.touched) : Handles I n n' es ps owed keys names := by
  obtain ⟨es', h⟩ := h
  exact ⟨es', h.balanced.pay (h.balanced.mem_touched.1 hg), h.acts, h.effects, h.members, h.created⟩

/-- The loop of an operation. -/
theorem loop {α : Type} {f : EditNormalizer → α → Except EditError EditNormalizer} {l : List α}
    {keys : α → List EntityKey} {names : α → List (LocalID × EditEntityKind)}
    (h : Balanced I n es ps owed)
    (hf : ∀ a ∈ l, ∀ m m' es', es <+: es' → Balanced I m es' ps owed → f m a = .ok m' →
      Handles I m m' es' ps owed (keys a) (names a))
    (hop : l.foldlM f n = .ok n') :
    Handles I n n' es ps owed (l.flatMap keys) (l.flatMap names) := by
  induction l generalizing n es with
  | nil =>
    obtain rfl := pure_ok.1 hop
    exact refl h
  | cons a l ih =>
    obtain ⟨m, hm, hop⟩ := bind_ok.1 hop
    refine (hf a mem_cons_self n m es (prefix_refl es) h hm).trans fun es₁ hes₁ h₁ => ?_
    exact ih h₁ (fun a' ha' m m' es' hes' => hf a' (mem_cons_of_mem a ha') m m' es'
      (hes₁.trans hes')) hop

end Handles

/-! ### Puts -/

section Put

variable {s : EntityState} {parents tracks : List ID}

theorem members_of_groups (h : n'.linkGroupClips = n.linkGroupClips) (g : ID) :
    n'.members g = n.members g :=
  congrArg (fun groups => (groups.find? g).getD []) h

/-- A put of a new entity. -/
theorem Handled.put_new {name : LocalID} {kind : EditEntityKind} {id : ID}
    (hid : I.allocated name kind = .ok id) (hkey : s.key = ⟨kind, id⟩)
    (hkept : n'.alignmentEffects = n.alignmentEffects ∧ n'.linkGroupClips = n.linkGroupClips)
    (h : Balanced I n' (es ++ [⟨none, s, parents, tracks⟩]) ps owed) :
    Handled I n n' es [⟨none, s, parents, tracks⟩] ps owed [] [(name, kind)] := by
  refine ⟨h, by simp, hkept.1, fun g _ => members_of_groups hkept.2 g, fun named hnamed => ?_⟩
  rw [mem_singleton.1 hnamed]
  exact ⟨id, hid, changeOf none s, by simp [h.changes], hkey, rfl⟩

/-- A put of an entity that was there. -/
theorem Handled.put_existing {b : EntityState} {k : EntityKey} (hkey : s.key = k)
    (hanchors : k.kind.anchors)
    (hkept : n'.alignmentEffects = n.alignmentEffects ∧ n'.linkGroupClips = n.linkGroupClips)
    (h : Balanced I n' (es ++ [⟨some b, s, parents, tracks⟩]) ps owed) :
    Handled I n n' es [⟨some b, s, parents, tracks⟩] ps owed [k] [] := by
  subst hkey
  refine ⟨h, fun k => ?_, hkept.1, fun g _ => members_of_groups hkept.2 g, by simp⟩
  rw [mem_singleton]
  constructor
  · rintro rfl
    exact ⟨hanchors, _, mem_cons_self, rfl, rfl⟩
  · rintro ⟨-, e, he, rfl, -⟩
    rw [mem_singleton.1 he]
    rfl

/-- A put of an entity that no alignment is anchored at. -/
theorem Handled.put_other {b : Option EntityState} (hother : s.key.kind.anchors = false)
    (hkept : n'.alignmentEffects = n.alignmentEffects ∧ n'.linkGroupClips = n.linkGroupClips)
    (h : Balanced I n' (es ++ [⟨b, s, parents, tracks⟩]) ps owed) :
    Handled I n n' es [⟨b, s, parents, tracks⟩] ps owed [] [] := by
  refine ⟨h, fun k => ?_, hkept.1, fun g _ => members_of_groups hkept.2 g, by simp⟩
  refine iff_of_false not_mem_nil ?_
  rintro ⟨hanchors, e, he, rfl, -⟩
  rw [mem_singleton.1 he] at hanchors
  exact Bool.false_ne_true (hother.symm.trans hanchors)

end Put

/-! ## What the primitive steps leave -/

theorem markTouched_ok {k : EntityKey} : n.markTouched k = .ok n' ↔
    k ∉ n.touched ∧ n.mark k = n' := by
  simp only [markTouched, steps_ok]

theorem requireNarrativeParent_ok {id : ID} {parent : NarrativeNodeState}
    (h : n.requireNarrativeParent I id = .ok parent) :
    parent.id = id ∧ I.OpenSection n.working id := by
  simp only [requireNarrativeParent, steps_ok] at h
  obtain ⟨parent, hparent, hlive, base, hbase, hrequire, rfl⟩ := h
  exact ⟨id_of_node? (section?_eq_some.1 hparent).1,
    ⟨parent, hparent, hlive⟩, base, hbase, I.requires_of_ok hrequire⟩

variable {parent : ID}

/-- The anchor of a node that is put under the section. -/
theorem anchorIn_of_ok {reference : Option EditReference} {after : Option ID}
    (h : n.resolveNarrativeNodeReference I reference = .ok after)
    {a : ID} (ha : a ∈ after) (hparent : n.working.narrativeNodeParent a = some parent) :
    NormalizeEditInput.AnchorIn n.working parent a := by
  cases reference with
  | none =>
    cases h
    cases ha
  | some =>
    simp only [resolveNarrativeNodeReference, steps_ok] at h
    obtain ⟨id, -, s, hs, hlive, rfl⟩ := h
    cases ha
    rw [narrativeNodeParent, hs] at hparent
    exact ⟨s, hs, hlive, hparent⟩

theorem markParent_addChildren (n : EditNormalizer) (p q : ID) (count : Int) :
    (n.markNarrativeParentChanged I p).addChildren q count =
      (n.addChildren q count).markNarrativeParentChanged I p := by
  unfold markNarrativeParentChanged addChildren
  by_cases htouched : (⟨.narrativeNode, p⟩ : EntityKey) ∈ n.touched
  · simp only [if_pos htouched]
  · simp only [if_neg htouched]
    cases I.base.section? p <;> rfl

/-- The numbers of children after one of them is changed. -/
theorem addChildren_find? (n : EditNormalizer) (p id : ID) (count : Int) :
    (((n.addChildren p count).sectionChildren.find? id).getD 0) =
      (n.sectionChildren.find? id).getD 0 + if id = p then count else 0 := by
  change ((n.sectionChildren.set p _).find? id).getD 0 = _
  rw [Table.find?_set]
  split
  · next h => rw [h, Option.getD_some]
  · rw [add_zero]

/-- What a mark of a section leaves alone. -/
theorem markParent_kept (n : EditNormalizer) (p : ID) :
    (n.markNarrativeParentChanged I p).touched = n.touched ∧
      (n.markNarrativeParentChanged I p).alignmentEffects = n.alignmentEffects ∧
      (n.markNarrativeParentChanged I p).linkGroupClips = n.linkGroupClips := by
  unfold markNarrativeParentChanged
  split
  · exact ⟨rfl, rfl, rfl⟩
  · split <;> exact ⟨rfl, rfl, rfl⟩

/-! ## Narrative nodes -/

variable {s : NarrativeNodeState} {name createAs : LocalID} {parentID nodeID : ID}
  {after : Option EditReference} {language : CaptionLanguage}

theorem childOf_of_live (hlive : s.tombstoned = false)
    (hparent : s.parentID = some parent) (id : ID) :
    (EntityState.narrativeNode s).childOf id = if id = parent then 1 else 0 := by
  simp [childOf, hlive, hparent, eq_comm (a := parent)]

section

variable (h : Balanced I n es ps owed)
include h

variable {parent : ID}

/-- The end of an insertion. -/
theorem insertNode_handles (huntouched : ⟨.narrativeNode, s.id⟩ ∉ n.touched)
    (hid : I.allocated name .narrativeNode = .ok s.id) (hnew : n.working.node? s.id = none)
    (hrevision : s.revision = 1) (hlive : s.tombstoned = false)
    (hparent : s.parentID = some parent) (hsection : I.OpenSection n.working parent)
    (hanchor : ∀ a ∈ s.afterNodeID, NormalizeEditInput.AnchorIn n.working parent a) :
    Handles I n
      ((((n.mark ⟨.narrativeNode, s.id⟩).put none (.narrativeNode s)).markNarrativeParentChanged I
        parent).addChildren
        parent 1) es (ps ++ [parent]) owed [] [(name, .narrativeNode)] := by
  let e : Emission := ⟨none, .narrativeNode s, [parent], []⟩
  refine ⟨_, .put_new hid rfl (markParent_kept _ parent).2 (h.emit_node (e := e) (fun ts ht => ?_)
    (markParent_kept _ parent).1 rfl (by simp [e, Regroups, group?]))⟩
  · rw [ht.working] at hnew hsection hanchor
    rw [markParent_addChildren]
    refine ((ht.mark _).put e mem_cons_self (ht.not_mem_keys huntouched)
      (.insertNode (I.allocates_of_ok hid) hnew hrevision hlive hparent hsection hanchor)
      fun id => ?_).markParent parent
    refine (addChildren_find? _ parent id 1).trans ?_
    simp [e, gain, childOf_of_live hlive hparent, put]

variable {writing : NarrativeWriting}

theorem insertNarrativeNode_handles
    (hop : n.insertNarrativeNode I createAs parentID after writing = .ok n') :
    Handles I n n' es (ps ++ [parentID]) owed [] [(createAs, .narrativeNode)] := by
  simp only [insertNarrativeNode, steps_ok, markTouched_ok] at hop
  obtain ⟨id, hid, hnew, _, ⟨huntouched, rfl⟩, _, hparent, _, hafter, hanchor, rfl⟩ := hop
  obtain ⟨rfl, hsection⟩ := requireNarrativeParent_ok hparent
  exact insertNode_handles h huntouched hid hnew rfl rfl rfl
    hsection fun a ha => anchorIn_of_ok hafter ha (hanchor a ha)

theorem insertSourceExcerpt_handles {assetID : ID} {fingerprint : Digest} {artifactID : ID}
    {segmentIDs : List ID} {corrections : List TranscriptCorrectionReferenceInput}
    {sourceRange : TimeRange}
    (hop : n.insertSourceExcerpt I createAs parentID after assetID fingerprint artifactID segmentIDs
      corrections sourceRange language = .ok n') :
    Handles I n n' es (ps ++ [parentID]) owed [] [(createAs, .narrativeNode)] := by
  simp only [insertSourceExcerpt, steps_ok, markTouched_ok] at hop
  obtain ⟨id, hid, hnew, _, ⟨huntouched, rfl⟩, _, hparent, _, hafter, hanchor, -, -, -, -,
      -, -, -, -, -, rfl⟩ := hop
  obtain ⟨rfl, hsection⟩ := requireNarrativeParent_ok hparent
  exact insertNode_handles h huntouched hid hnew rfl rfl rfl
    hsection fun a ha => anchorIn_of_ok hafter ha (hanchor a ha)

theorem updateNarrativeNode_handles (hop : n.updateNarrativeNode I nodeID writing = .ok n') :
    Handles I n n' es ps owed [⟨.narrativeNode, nodeID⟩] [] := by
  simp only [updateNarrativeNode, steps_ok, markTouched_ok] at hop
  obtain ⟨s, hs, hlive, _, ⟨huntouched, rfl⟩, hkind, hrequire, rfl⟩ := hop
  obtain rfl := id_of_node? hs
  let e : Emission := ⟨some (.narrativeNode s), .narrativeNode
    { s with revision := s.revision + 1, value := writing.value }, [], []⟩
  refine ⟨_, .put_existing rfl rfl ⟨rfl, rfl⟩ (h.emit (e := e) (fun ts ht => ⟨[], ?_, by simp [e]⟩)
    (Subset.refl _) rfl (by simp [e, Regroups, group?]))⟩
  · rw [append_nil]
    rw [ht.working] at hs
    exact ((ht.mark _).forgetParent mem_cons_self).put_entity e mem_cons_self
      (ht.not_mem_keys huntouched) (.updateNode hs hlive hkind (I.requires_of_ok hrequire))
      fun id => by simp [e, gain, childOf]

/-- The parent of a node that no operation has touched yet. -/
theorem narrativeNodeParent_of_untouched (hs : n.working.node? s.id = some s)
    (hparent : s.parentID = some parent) (huntouched : ⟨.narrativeNode, s.id⟩ ∉ n.touched) :
    I.base.narrativeNodeParent s.id = some parent := by
  rw [node?_eq_some, h.find?_of_untouched huntouched] at hs
  rw [narrativeNodeParent, node?_eq_some.2 hs]
  exact hparent

theorem moveNarrativeNode_handles (hop : n.moveNarrativeNode I nodeID parentID after = .ok n') :
    Handles I n n' es (ps ++ ((I.base.narrativeNodeParent nodeID).toList ++ [parentID])) owed
      [⟨.narrativeNode, nodeID⟩] [] := by
  simp only [moveNarrativeNode, steps_ok, markTouched_ok, refuseAs_ok] at hop
  obtain ⟨s, hs, hlive, old, hold, _, ⟨huntouched, rfl⟩, hrequire, oldParent, holdParent, newParent,
      hnewParent, anchor, hafter, hanchor, hdescent, hop⟩ := hop
  obtain rfl := id_of_node? hs
  obtain ⟨rfl, holdSection⟩ := requireNarrativeParent_ok holdParent
  obtain ⟨rfl, hnewSection⟩ := requireNarrativeParent_ok hnewParent
  rw [narrativeNodeParent_of_untouched h hs hold huntouched]
  have hanchor : ∀ a ∈ anchor, a ≠ s.id ∧ NormalizeEditInput.AnchorIn n.working newParent.id a :=
    fun a ha => ⟨(hanchor a ha).1, anchorIn_of_ok hafter ha (hanchor a ha).2⟩
  have hdescent : s.kind = .section → n.working.sectionDescendsFrom newParent.id s.id = false :=
    fun hkind => Bool.eq_false_iff.2 fun hdescends => hdescent ⟨hkind, hdescends⟩
  let e : Emission := ⟨some (.narrativeNode s), .narrativeNode { s with
    revision := s.revision + 1, parentID := some newParent.id, afterNodeID := anchor },
    [oldParent.id, newParent.id], []⟩
  have hgain : ∀ id, e.gain id =
      (if id = newParent.id then 1 else 0) - if id = oldParent.id then 1 else 0 := by
    intro id
    rw [gain_existing, childOf_of_live hlive hold, childOf_of_live (s := { s with
      revision := s.revision + 1, parentID := some newParent.id, afterNodeID := anchor }) hlive rfl]
  -- The trace up to the put, whatever becomes of the numbers of children.
  have hput : ∀ ts, Trace I n es ps ts → ∀ counts : Table ID Int,
      (∀ id, (counts.find? id).getD 0 = (n.sectionChildren.find? id).getD 0 + e.gain id) →
      Trace I ({ ((n.mark ⟨.narrativeNode, s.id⟩).forgetParentChange s.id).put e.before e.after with
          sectionChildren := counts }) (es ++ [e]) ps ts := by
    intro ts ht counts hcounts
    rw [ht.working] at hs hanchor hdescent
    exact ((ht.mark _).forgetParent mem_cons_self).put e mem_cons_self
      (ht.not_mem_keys huntouched) (.moveNode hs hlive (I.requires_of_ok hrequire) hold
        (ht.working ▸ holdSection) (ht.working ▸ hnewSection) hanchor hdescent) hcounts
  have hregroup : ∀ g, ¬e.Regroups g := fun g hg => by
    simp [e, Emission.Regroups, group?] at hg
  -- The marks of the two sections.
  have hmarks : ∀ k : EditNormalizer,
      let k' :=
        (k.markNarrativeParentChanged I oldParent.id).markNarrativeParentChanged I newParent.id
      k'.touched = k.touched ∧ k'.alignmentEffects = k.alignmentEffects ∧
        k'.linkGroupClips = k.linkGroupClips := by
    intro k
    obtain ⟨htouched, heffects, hclips⟩ := markParent_kept (I := I) k oldParent.id
    rw [← htouched, ← heffects, ← hclips]
    exact markParent_kept _ newParent.id
  split at hop
  · next hsame =>
    rw [pure_ok] at hop
    subst hop
    refine ⟨_, .put_existing rfl rfl (hmarks _).2
      (h.emit_node (e := e) (fun ts ht => ?_) (hmarks _).1 rfl hregroup)⟩
    rw [append_cons ps]
    refine ((hput ts ht n.sectionChildren fun id => ?_).markParent _).markParent _
    rw [hgain, hsame, sub_self, add_zero]
  · rw [pure_ok] at hop
    subst hop
    refine ⟨_, .put_existing rfl rfl (hmarks _).2
      (h.emit_node (e := e) (fun ts ht => ?_) (hmarks _).1 rfl hregroup)⟩
    rw [append_cons ps]
    simp only [markParent_addChildren]
    refine ((hput ts ht _ fun id => ?_).markParent _).markParent _
    refine (addChildren_find? _ newParent.id id 1).trans ?_
    rw [addChildren_find?, hgain, add_assoc]
    congr 1
    split <;> split <;> rfl

theorem removeNarrativeNode_handles (hop : n.removeNarrativeNode I nodeID = .ok n') :
    Handles I n n' es (ps ++ (I.base.narrativeNodeParent nodeID).toList) owed
      [⟨.narrativeNode, nodeID⟩] [] := by
  simp only [removeNarrativeNode, steps_ok, markTouched_ok] at hop
  obtain ⟨s, hs, hlive, _, hparentID, hempty, _, ⟨huntouched, rfl⟩, hrequire, parent,
      hparent, rfl⟩ := hop
  obtain rfl := id_of_node? hs
  obtain ⟨rfl, hsection⟩ := requireNarrativeParent_ok hparent
  rw [narrativeNodeParent_of_untouched h hs hparentID huntouched]
  let e : Emission := ⟨some (.narrativeNode s), .narrativeNode
    { s with revision := s.revision + 1, tombstoned := true }, [parent.id], []⟩
  refine ⟨_, .put_existing rfl rfl (markParent_kept _ parent.id).2 (h.emit_node (e := e)
    (fun ts ht => ?_) (markParent_kept _ parent.id).1 rfl (by simp [e, Regroups, group?]))⟩
  · have hempty : s.kind = .section → I.childrenAfter es s.id = 0 := by
      intro hkind
      rw [← ht.children]
      by_contra hne
      exact hempty ⟨hkind, hne⟩
    rw [ht.working] at hs
    rw [markParent_addChildren]
    refine (((ht.mark _).forgetParent mem_cons_self).put e mem_cons_self
      (ht.not_mem_keys huntouched) (.removeNode hs hlive (I.requires_of_ok hrequire) hparentID
        (ht.working ▸ hsection) hempty) fun id => ?_).markParent parent.id
    refine (addChildren_find? _ parent.id id (-1)).trans ?_
    have hgain : e.gain id = if id = parent.id then -1 else 0 := by
      rw [gain_existing, childOf_of_live hlive hparentID]
      split <;> rfl
    rw [hgain]
    rfl

end

/-! ## Captions and corrections -/

section

variable (hkeyed : I.TracksKeyed) (h : Balanced I n es ps owed)
include hkeyed h

/-- A caption that is new. -/
theorem newCaption_handles {s : CaptionState} (hid : I.allocated name .caption = .ok s.id)
    (hrevision : s.revision = 1) (hlive : s.tombstoned = false)
    (huntouched : ⟨.caption, s.id⟩ ∉ n.touched) {track : EditTrackState}
    (htrack : I.state.tracks.find? s.trackID = some track)
    (hrequire : I.Requires ⟨.track, track.id⟩ track.revision) :
    Handles I n (((n.mark ⟨.caption, s.id⟩).put none
      (.caption s)).changeTrack track) es ps owed [] [(name, .caption)] := by
  let e : Emission := ⟨none, .caption s, [], [s.trackID]⟩
  have hkey := hkeyed _ _ htrack
  refine ⟨_, .put_new hid rfl ⟨rfl, rfl⟩ (h.emit (e := e)
    (fun ts ht => ⟨[s.trackID], ?_, by simp [e]⟩) (Subset.refl _) rfl
    (by simp [e, Regroups, group?]))⟩
  · refine ((ht.mark _).put_entity e mem_cons_self (ht.not_mem_keys huntouched) ?_
      fun id => ?_).changeTrack htrack hkey
    · exact .newCaption (I.allocates_of_ok hid) hrevision hlive ⟨track, htrack, hkey ▸ hrequire⟩
    · simp [e, gain, childOf]

theorem addCaption_handles {trackID : ID} {range : TimeRange} {text : Text}
    (hop : n.addCaption I createAs trackID range language text = .ok n') :
    Handles I n n' es ps owed [] [(createAs, .caption)] := by
  simp only [addCaption, steps_ok, markTouched_ok] at hop
  obtain ⟨id, hid, _, _, ⟨huntouched, rfl⟩, _, htrack, -, hrequire, rfl⟩ := hop
  obtain rfl := hkeyed _ _ htrack
  exact newCaption_handles hkeyed h hid rfl rfl huntouched htrack (I.requires_of_ok hrequire)

theorem updateCaption_handles {captionID : ID} {update : Option CaptionUpdate}
    (hop : n.updateCaption I captionID update = .ok n') :
    Handles I n n' es ps owed [⟨.caption, captionID⟩] [] := by
  simp only [updateCaption, steps_ok, markTouched_ok, refuseAs_ok] at hop
  obtain ⟨s, hs, hlive, _, ⟨huntouched, rfl⟩, hrequire, track, htrack, hrequireTrack, rfl⟩ := hop
  obtain rfl := id_of_caption? hs
  have hkey := hkeyed _ _ htrack
  have hhas : I.HasTrack s.trackID := ⟨track, htrack, hkey ▸ I.requires_of_ok hrequireTrack⟩
  -- With an update and without one, the put is of the same form.
  have hput : ∀ range language text tombstoned,
      Handles I n (((n.mark ⟨.caption, s.id⟩).changeTrack track).put (some (.caption s))
        (.caption { s with
          revision := s.revision + 1, range := range, language := language, text := text,
          tombstoned := tombstoned })) es ps owed [⟨.caption, s.id⟩] [] := by
    intro range language text tombstoned
    let e : Emission := ⟨some (.caption s), .caption { s with
      revision := s.revision + 1, range := range, language := language, text := text,
      tombstoned := tombstoned }, [], [s.trackID]⟩
    refine ⟨_, .put_existing rfl rfl ⟨rfl, rfl⟩ (h.emit (e := e)
      (fun ts ht => ⟨[s.trackID], ?_, by simp [e]⟩) (Subset.refl _) rfl
      (by simp [e, Regroups, group?]))⟩
    · rw [ht.working] at hs
      exact ((ht.mark _).changeTrack htrack hkey).put_entity e mem_cons_self
        (ht.not_mem_keys huntouched) (.changeCaption hs hlive (I.requires_of_ok hrequire) hhas)
        fun id => by simp [e, gain, childOf]
  cases update with
  | none => exact hput s.range s.language s.text true
  | some update => exact hput update.range update.language update.text s.tombstoned

end

theorem addTranscriptCorrection_handles (h : Balanced I n es ps owed) {artifactID assetID : ID}
    {segmentIDs : List ID} {sourceRange : TimeRange} {text : Text}
    (hop : n.addTranscriptCorrection I createAs artifactID assetID segmentIDs sourceRange language
      text = .ok n') : Handles I n n' es ps owed [] [(createAs, .transcriptCorrection)] := by
  simp only [addTranscriptCorrection, steps_ok, markTouched_ok, refuseAs_ok] at hop
  obtain ⟨id, hid, hnew, _, ⟨huntouched, rfl⟩, _, -, -, ⟨_, _⟩, -, hfree, rfl⟩ := hop
  rw [h.working] at hnew hfree
  exact ⟨_, .put_new hid rfl ⟨rfl, rfl⟩ (h.put (.newCorrection (I.allocates_of_ok hid) hnew
    rfl rfl hfree) huntouched (by simp [gain, childOf])
    (by simp [Emission.Regroups, group?]))⟩

theorem updateTranscriptCorrection_handles (h : Balanced I n es ps owed) {correctionID : ID}
    {update : Option (CaptionLanguage × Text)}
    (hop : n.updateTranscriptCorrection I correctionID update = .ok n') :
    Handles I n n' es ps owed [] [] := by
  simp only [updateTranscriptCorrection, steps_ok, markTouched_ok] at hop
  obtain ⟨s, hs, hlive, _, ⟨huntouched, rfl⟩, hrequire, hop⟩ := hop
  have hid := id_of_correction? hs
  rw [← hid] at hs
  have hput : ∀ language text tombstoned, (tombstoned = false → transcriptCorrectionOverlaps
      n.working.corrections s.artifactID language s.sourceRange (some s.id) = false) →
      Handles I n ((n.mark ⟨.transcriptCorrection, s.id⟩).put (some (.transcriptCorrection s))
        (.transcriptCorrection { s with
          revision := s.revision + 1, replacementText := text, language := language,
          tombstoned := tombstoned })) es ps owed [] [] := by
    intro language text tombstoned hfree
    rw [h.working] at hs hfree
    exact ⟨_, .put_other rfl ⟨rfl, rfl⟩
      (h.put (.changeCorrection hs hlive (I.requires_of_ok hrequire) hfree) huntouched
        (by simp [gain, childOf]) (by simp [Emission.Regroups, group?]))⟩
  cases update with
  | none =>
    rw [pure_ok] at hop
    subst hop
    exact hput s.language s.replacementText true (by simp)
  | some update =>
    simp only [steps_ok] at hop
    obtain ⟨hfree, rfl⟩ := hop
    exact hput update.1 update.2 s.tombstoned fun _ => hfree

/-! ## Alignments -/

variable {allowTouched : Bool}

theorem liveTarget_of_ok {input : AlignmentTargetInput} {target : AlignmentTarget}
    (hop : n.normalizeAlignmentTarget I allowTouched input = .ok target) :
    NormalizeEditInput.LiveTarget n.working target := by
  cases input with
  | caption reference range | clip =>
    simp only [normalizeAlignmentTarget, steps_ok] at hop
    obtain ⟨id, -, s, hs, hlive, hop⟩ := hop
    simp only [Bool.and_eq_true, Bool.not_eq_true'] at hlive
    split at hop
    · simp only [steps_ok] at hop
      obtain ⟨-, rfl⟩ := hop
      exact ⟨s, hs, hlive.1, rfl⟩
    · simp only [pure_ok] at hop
      subst hop
      exact ⟨s, hs, hlive.1, rfl⟩
  | timeline =>
    simp only [normalizeAlignmentTarget, steps_ok] at hop
    obtain ⟨-, -, rfl⟩ := hop
    trivial

theorem liveTargets_of_ok {inputs : List AlignmentTargetInput} {targets : List AlignmentTarget}
    (hop : n.normalizeAlignmentTargets I inputs allowTouched = .ok targets) :
    ∀ target ∈ targets, NormalizeEditInput.LiveTarget n.working target := by
  simp only [normalizeAlignmentTargets, steps_ok] at hop
  obtain ⟨_, hfound, -, rfl⟩ := hop
  intro target hmem
  rw [mem_insertionSort] at hmem
  obtain ⟨_, -, hinput⟩ := mapM_mem hfound hmem
  exact liveTarget_of_ok hinput

/-- An alignment that is new. -/
theorem newAlignment_handled (h : Balanced I n es ps owed) {s : AlignmentState}
    (hid : I.allocated name .alignment = .ok s.id) (hrevision : s.revision = 1)
    (huntouched : ⟨.alignment, s.id⟩ ∉ n.touched)
    (hnode : ∃ node, n.working.node? s.narrativeNodeID = some node ∧ node.tombstoned = false)
    (htargets : ∀ target ∈ s.targets, NormalizeEditInput.LiveTarget n.working target) :
    Handled I n ((n.mark ⟨.alignment, s.id⟩).put none
      (.alignment s)) es [⟨none, .alignment s, [], []⟩] ps owed [] [(name, .alignment)] := by
  rw [h.working] at hnode htargets
  exact .put_new hid rfl ⟨rfl, rfl⟩
    (h.put (.newAlignment (I.allocates_of_ok hid) hrevision hnode htargets)
    huntouched (by simp [gain, childOf])
    (by simp [Emission.Regroups, group?]))

theorem bindAlignment_handled (h : Balanced I n es ps owed) {narrativeNode : EditReference}
    {targets : List AlignmentTargetInput}
    (hop : n.bindAlignment I createAs narrativeNode targets = .ok n') :
    ∃ s, Handled I n n' es [⟨none, .alignment s, [], []⟩] ps owed [] [(createAs, .alignment)] := by
  simp only [bindAlignment, steps_ok, markTouched_ok] at hop
  obtain ⟨id, hid, -, _, ⟨huntouched, rfl⟩, nodeID, -, node, hnode, hlive, hop⟩ := hop
  simp only [Bool.and_eq_true, Bool.not_eq_true'] at hlive
  -- With and without a precondition on the node, the targets are found alike.
  obtain ⟨found, hfound, rfl⟩ : ∃ found, normalizeAlignmentTargets I
      (n.mark ⟨.alignment, id⟩) targets false = .ok found ∧
      (n.mark ⟨.alignment, id⟩).put none (.alignment {
        id, revision := 1, narrativeNodeID := nodeID, narrativeNodeRevision := node.revision,
        targets := found, status := .exact }) = n' := by
    split at hop
    · simp only [steps_ok] at hop
      obtain ⟨-, found⟩ := hop
      exact found
    · simpa only [steps_ok] using hop
  let s : AlignmentState := {
    id, revision := 1, narrativeNodeID := nodeID, narrativeNodeRevision := node.revision,
    targets := found, status := .exact }
  have htargets := liveTargets_of_ok hfound
  exact ⟨s, newAlignment_handled h hid rfl huntouched ⟨node, hnode, hlive.1⟩ htargets⟩

/-- A step that decides alignments, of those listed. -/
structure Decides (n n' : EditNormalizer) (ids : List ID) : Prop where
  changes : n'.changes = n.changes
  touched : n'.touched = n.touched
  members : n'.linkGroupClips = n.linkGroupClips
  effects : ∀ x, (n'.alignmentEffects.find? x).isSome → (n.alignmentEffects.find? x).isSome ∨
    x ∈ ids

namespace Decides

theorem refl (n : EditNormalizer) (ids : List ID) : Decides n n ids :=
  ⟨rfl, rfl, rfl, fun _ => .inl⟩

variable {ids : List ID}

theorem trans {n'' : EditNormalizer} (h : Decides n n' ids) (h' : Decides n' n'' ids) :
    Decides n n'' ids :=
  ⟨h'.changes.trans h.changes, h'.touched.trans h.touched, h'.members.trans h.members, fun x hx =>
    (h'.effects x hx).elim (h.effects x) .inr⟩

theorem setEffect (n : EditNormalizer) {id : ID} (status : AlignmentStatus)
    (hid : id ∈ ids) : Decides n (n.setEffect id status) ids := by
  refine ⟨rfl, rfl, rfl, fun x hx => ?_⟩
  by_cases hx' : x = id
  · exact .inr (hx' ▸ hid)
  · rw [EditNormalizer.setEffect, Table.find?_set, if_neg hx'] at hx
    exact .inl hx

end Decides

end EditNormalizer

/-- The alignment that the operation decides. -/
def EditOperationInput.decides : EditOperationInput → Option ID
  | .remapAlignment id _ | .markAlignmentStale id | .unbindAlignment id => some id
  | _ => none

namespace EditNormalizer

variable {I : NormalizeEditInput} {n n' : EditNormalizer} {es : List Emission} {ps owed : List ID}

/-- An alignment that was loaded is decided and put. -/
theorem changeAlignment_handled (h : Balanced I n es ps owed) {s : AlignmentState}
    (hs : n.working.alignment? s.id = some s) (huntouched : ⟨.alignment, s.id⟩ ∉ n.touched)
    (hrequire : I.Requires ⟨.alignment, s.id⟩ s.revision) {targets : List AlignmentTarget}
    {status : AlignmentStatus}
    (hexact : status = .exact → s.status = .exact ∧
      ⟨.narrativeNode, s.narrativeNodeID⟩ ∉ n.touched ∧
      ∀ target ∈ targets, NormalizeEditInput.LiveTarget n.working target) :
    ∃ m, Decides n m [s.id] ∧ Balanced I m es ps owed ∧ ∃ a,
      Handled I m (((n.mark ⟨.alignment, s.id⟩).setEffect s.id status).put (some (.alignment s))
        (.alignment { s with
          revision := s.revision + 1, targets := targets, status := status })) es
        [⟨some (.alignment s), .alignment a, [], []⟩] ps owed [] [] := by
  rw [h.working] at hs hexact
  refine ⟨n.setEffect s.id status, .setEffect n status mem_cons_self, h.setEffect s.id status, _,
    .put_other rfl ⟨rfl, rfl⟩ ((h.setEffect s.id status).put (.changeAlignment hs hrequire
    fun hstatus => ?_) huntouched (by simp [gain, childOf]) (by simp [Emission.Regroups, group?]))⟩
  obtain ⟨hbefore, hnode, htargets⟩ := hexact hstatus
  exact ⟨hbefore, fun hmem => hnode (h.mem_touched.2 hmem), htargets⟩

/-- An operation on alignments puts the alignment that it names, if any, which is decided before
    unless it is new. -/
theorem normalizeAlignmentOperation_handled (h : Balanced I n es ps owed) {op : EditOperationInput}
    (hop : n.normalizeAlignmentOperation I op = .ok n') :
    ∃ m, Decides n m op.decides.toList ∧ Balanced I m es ps owed ∧ ∃ es',
      Handled I m n' es es' ps owed [] [] ∧ ∀ e ∈ es', e.key.kind = .alignment := by
  have hupdate : ∀ {id status}, op.decides = some id → status ≠ .exact →
      n.updateAlignment I id status = .ok n' → ∃ m, Decides n m op.decides.toList ∧
        Balanced I m es ps owed ∧ ∃ es', Handled I m n' es es' ps owed [] [] ∧
          ∀ e ∈ es', e.key.kind = .alignment := by
    intro id status hdecides hstatus hop
    simp only [updateAlignment, steps_ok, markTouched_ok] at hop
    obtain ⟨s, hs, _, ⟨huntouched, rfl⟩, hrequire, rfl⟩ := hop
    obtain rfl := id_of_alignment? hs
    obtain ⟨m, hm, hbalanced, a, ha⟩ := changeAlignment_handled h hs huntouched
      (I.requires_of_ok hrequire) fun hexact => absurd hexact hstatus
    rw [hdecides]
    exact ⟨m, hm, hbalanced, _, ha, by simp [Emission.key, EntityState.key]⟩
  cases op with
  | bindAlignment =>
    obtain ⟨s, hs⟩ := bindAlignment_handled h hop
    exact ⟨n, .refl n _, h, _, { hs with created := by simp },
      by simp [Emission.key, EntityState.key]⟩
  | remapAlignment =>
    simp only [normalizeAlignmentOperation, remapAlignment, steps_ok, markTouched_ok, refuseAs_ok]
      at hop
    obtain ⟨s, hs, hexact, _, ⟨huntouched, rfl⟩, hnode, hrequire, _, hfound, -, -, rfl⟩ := hop
    obtain rfl := id_of_alignment? hs
    have htargets := liveTargets_of_ok hfound
    obtain ⟨m, hm, hbalanced, a, ha⟩ := changeAlignment_handled h hs huntouched
      (I.requires_of_ok hrequire) fun _ : AlignmentStatus.exact = .exact =>
        ⟨hexact.1, fun hmem => hnode (mem_cons_of_mem _ hmem), htargets⟩
    exact ⟨m, hm, hbalanced, _, ha, by simp [Emission.key, EntityState.key]⟩
  | markAlignmentStale => exact hupdate rfl (by simp) hop
  | unbindAlignment => exact hupdate rfl (by simp) hop
  | _ =>
    obtain ⟨⟩ := hop
    exact ⟨n, .refl n _, h, [], ⟨by rwa [append_nil], by simp, rfl, fun _ _ => rfl, by simp⟩,
      by simp⟩

end EditNormalizer

end OpenCut
