import OpenCut.Repository.Loaded

/-!
# What is loaded for the operations of a request

For every operation of a request, the loader takes down the stored nodes, captions and clips that
the operation acts on, and reads the members of the link groups that it relies on
(`loadOperation_covers`). In the end it reads the exact alignments that are anchored at what was
taken down. What the normalizer is given is then part of the stored content, and complete as far as
the request goes (`provided_of_load`).
-/

namespace OpenCut

open Outcome List EntityTable EditLoad Option AlignmentTarget

/-- The link groups whose members the operation relies on. -/
def EditOperationInput.groups (t : EntityTable) : EditOperationInput → List ID
  | .moveClip id scope _ _ | .trimClip id scope _ _ =>
    match scope with
    | .single => []
    | .linked => (t.groupOf id).toList
  | .splitClip id .. | .removeClip id _ => (t.groupOf id).toList
  | .unlinkClips group => [group]
  | _ => []

namespace EditLoad

variable {c : Content} {m : Media} {l l' : EditLoad}

/-! ## Operations on clips -/

variable {clipID : ID} {scope : ClipMutationScope}

/-- The clips that an operation on a clip acts on are marked, and, if who is in the group changes,
    all its members. -/
structure Acting (c : Content) (clipID : ID) (scope : ClipMutationScope) (membershipChange : Bool)
    (l : EditLoad) : Prop where
  marked : ∀ id ∈ scopeMembers c.entities (groupMembers c) clipID scope, l.Marked ⟨.clip, id⟩
  groups : ∀ g, c.entities.groupOf clipID = some g → (scope = .linked ∨ membershipChange = true) →
    (l.state.linkGroupClips.find? g).isSome ∧
    (membershipChange = true → ∀ id ∈ groupMembers c g, l.Marked ⟨.clip, id⟩)

theorem Acting.grow {membershipChange : Bool} (h : Acting c clipID scope membershipChange l)
    (hgrows : Grows c l l') :
    Acting c clipID scope membershipChange l' :=
  ⟨fun id hid => hgrows.marked _ (h.marked id hid), fun g hg hcase => (h.groups g hg hcase).imp
    hgrows.isSome_members fun hmarked hchange id hid => hgrows.marked _ (hmarked hchange id hid)⟩

/-- A clip that stays behind in its group is marked. -/
theorem Acting.leftBehind (h : Acting c clipID scope true l) {id : ID}
    (hid : id ∈ leftBehind c.entities (groupMembers c) clipID scope) :
    l.Marked ⟨.clip, id⟩ := by
  cases scope with
  | linked => exact absurd hid not_mem_nil
  | single =>
    rw [OpenCut.leftBehind] at hid
    cases hg : c.entities.groupOf clipID with
    | none =>
      rw [hg] at hid
      exact absurd hid not_mem_nil
    | some g =>
      rw [hg, elim_some] at hid
      split at hid
      · exact absurd hid not_mem_nil
      · exact (h.groups g hg (.inr rfl)).2 rfl id (mem_of_mem_filter hid)

namespace Grows

variable {clipID : ID} {scope : ClipMutationScope}

section

variable (hloaded : Loaded c l [] []) (hright : Right c l)
include hloaded hright

/-- The clips that the operation acts on are read. -/
theorem loadClipMutationMembers {membershipChange : Bool} {members : List ID}
    (h : l.loadClipMutationMembers c m clipID scope membershipChange = .ok (l', members)) :
    Grows c l l' ∧ Acting c clipID scope membershipChange l' := by
  simp only [EditLoad.loadClipMutationMembers, steps_ok] at h
  obtain ⟨_, hl₁, seed, hseed, l₂, hl₂, h⟩ := h
  have hclip := (ensureClipState hl₁).1
  have hstart : Grows c l l₂ := hclip.trans (ensureClipDependencies hl₂)
  have hstored : c.entities.clip? clipID = some seed :=
    clip?_eq_some.2 ((hclip.loaded hloaded).entities (clip?_eq_some.1 hseed))
  have hgroup : c.entities.groupOf clipID = seed.linkGroupID := by
    rw [groupOf, hstored]
    rfl
  cases hg : seed.linkGroupID with
  | none =>
    simp only [hg, steps_ok, exists_eq_left', Prod.mk.injEq] at h
    obtain ⟨l₃, hl₃, rfl, rfl⟩ := h
    obtain ⟨hmark, hmarked⟩ := mutateMembers hl₃
    refine ⟨hstart.trans hmark, fun id hid => ?_, fun g hg' => ?_⟩
    · cases scope with
      | single => exact hmarked id hid
      | linked =>
        rw [scopeMembers, hgroup, hg] at hid
        exact absurd hid not_mem_nil
    · rw [hgroup, hg] at hg'
      cases hg'
  | some g =>
    rw [hg] at hgroup
    simp only [hg] at h
    split at h
    · next hchange =>
      simp only [steps_ok, exists_eq_left', Prod.mk.injEq] at h
      obtain ⟨k, hk, l₃, hl₃, rfl, -⟩ := h
      obtain ⟨hread, hsome⟩ := loadLinkGroupMembers hk
      obtain ⟨ms, hms⟩ := isSome_iff_exists.1 hsome
      obtain rfl := (((hstart.trans hread).right hright) g ms hms).1
      rw [hms, getD_some] at hl₃
      obtain ⟨hmark, hmarked⟩ := mutateMembers hl₃
      obtain ⟨hall, hallMarked⟩ := foldl_mutateClip (c := c) k (groupMembers c g)
      have hmid : Grows c k l₃ := by
        split at hmark
        · exact hall.trans hmark
        · exact hmark
      refine ⟨(hstart.trans hread).trans hmid, fun id hid => ?_, fun g' hg' _ => ?_⟩
      · cases scope with
        | single => exact hmarked id hid
        | linked =>
          rw [scopeMembers, hgroup] at hid
          exact hmarked id hid
      · obtain rfl := mem_unique hgroup hg'
        refine ⟨hmid.isSome_members hsome, fun hmembership id hid => ?_⟩
        rw [if_pos hmembership] at hmark
        exact hmark.marked _ (hallMarked id hid)
    · next hchange =>
      simp only [steps_ok, exists_eq_left', Prod.mk.injEq] at h
      obtain ⟨_, hl₃, rfl, -⟩ := h
      obtain ⟨hmark, hmarked⟩ := mutateMembers hl₃
      refine ⟨hstart.trans hmark, fun id hid => ?_, fun g' hg' hcase => absurd hcase hchange⟩
      cases scope with
      | single => exact hmarked id hid
      | linked => exact absurd (.inl rfl) hchange

theorem loadMoveClip {trackID : ID} {timelineStart : RationalTime}
    (h : l.loadMoveClip c m clipID scope trackID timelineStart = .ok l') :
    Grows c l l' ∧ Acting c clipID scope false l' := by
  simp only [EditLoad.loadMoveClip, steps_ok] at h
  obtain ⟨⟨l₁, _⟩, hl₁, _, hl₂, _, -, _, -, h⟩ := h
  obtain ⟨hmembers, hacting⟩ := loadClipMutationMembers hloaded hright hl₁
  have hrest : Grows c l₁ l' := (ensureTrackState hl₂).trans (loop (fun id _ k k' hk => by
    simp only [steps_ok] at hk
    obtain ⟨_, -, _, -, hk⟩ := hk
    exact loadClipOverlaps hk) h)
  exact ⟨hmembers.trans hrest, hacting.grow hrest⟩

theorem loadTrimClip {timelineRange : TimeRange}
    (h : l.loadTrimClip c m clipID scope timelineRange = .ok l') :
    Grows c l l' ∧ Acting c clipID scope false l' := by
  simp only [EditLoad.loadTrimClip, steps_ok] at h
  obtain ⟨⟨l₁, _⟩, hl₁, _, -, ⟨_, _⟩, -, h⟩ := h
  obtain ⟨hmembers, hacting⟩ := loadClipMutationMembers hloaded hright hl₁
  have hrest : Grows c l₁ l' := loop (fun id _ k k' hk => by
    simp only [steps_ok] at hk
    obtain ⟨_, -, _, -, hk⟩ := hk
    exact loadClipOverlaps hk) h
  exact ⟨hmembers.trans hrest, hacting.grow hrest⟩

theorem loadMembershipChange (h : l.loadMembershipChange c m clipID scope = .ok l') :
    Grows c l l' ∧ Acting c clipID scope true l' := by
  simp only [EditLoad.loadMembershipChange, steps_ok] at h
  obtain ⟨⟨_, _⟩, hl₁, rfl⟩ := h
  exact loadClipMutationMembers hloaded hright hl₁

end

theorem loadUnlinkClipsInput {g : ID} (hright : Right c l)
    (h : l.loadUnlinkClipsInput c m g = .ok l') :
    Grows c l l' ∧ (∀ id ∈ groupMembers c g, l'.Marked ⟨.clip, id⟩) ∧
      (l'.state.linkGroupClips.find? g).isSome := by
  obtain ⟨_, hl₁, h⟩ := bind_ok.1 h
  obtain ⟨hread, hsome⟩ := loadLinkGroupMembers hl₁
  obtain ⟨ms, hms⟩ := isSome_iff_exists.1 hsome
  obtain rfl := (hread.right hright g ms hms).1
  rw [hms, getD_some] at h
  obtain ⟨hmark, hmarked⟩ := mutateMembers h
  exact ⟨hread.trans hmark, hmarked, hmark.isSome_members hsome⟩

end Grows

/-! ## The request -/

variable {op : EditOperationInput}

/-- What the operation acts on is marked, and the members of the groups it relies on are loaded. -/
structure Covers (c : Content) (op : EditOperationInput) (l : EditLoad) : Prop where
  marked : ∀ k ∈ op.acts c.entities (groupMembers c), l.Marked k
  groups : ∀ g ∈ op.groups c.entities, (l.state.linkGroupClips.find? g).isSome

theorem Covers.grow (h : Covers c op l) (hgrows : Grows c l l') : Covers c op l' :=
  ⟨fun k hk => hgrows.marked k (h.marked k hk), fun g hg => hgrows.isSome_members (h.groups g hg)⟩

/-- An operation that acts on nothing that is stored. -/
theorem Covers.of_nil (hacts : op.acts c.entities (groupMembers c) = [])
    (hgroups : op.groups c.entities = []) : Covers c op l := by
  constructor
  · rw [hacts]
    simp
  · rw [hgroups]
    simp

/-- An operation that acts on one thing that is stored. -/
theorem Covers.of_one {k : EntityKey} (hacts : op.acts c.entities (groupMembers c) = [k])
    (hgroups : op.groups c.entities = []) (hmarked : l.Marked k) : Covers c op l := by
  refine ⟨fun k' hk' => ?_, by simp [hgroups]⟩
  rw [hacts, mem_singleton] at hk'
  exact hk' ▸ hmarked

/-- An operation on a clip that leaves who is in the group as it is. -/
theorem Covers.of_acting (h : Acting c clipID scope false l)
    (hacts : op.acts c.entities (groupMembers c) =
      clipKeys (scopeMembers c.entities (groupMembers c) clipID scope))
    (hgroups : ∀ g ∈ op.groups c.entities, scope = .linked ∧ c.entities.groupOf clipID = some g) :
    Covers c op l := by
  refine ⟨fun k hk => ?_, fun g hg => ?_⟩
  · rw [hacts, mem_clipKeys] at hk
    obtain ⟨id, hid, rfl⟩ := hk
    exact h.marked id hid
  · obtain ⟨hlinked, hgroup⟩ := hgroups g hg
    exact (h.groups g hgroup (.inl hlinked)).1

theorem loadOperation_covers (hloaded : Loaded c l [] []) (hright : Right c l)
    (h : l.loadOperation c m op = .ok l') : Grows c l l' ∧ Covers c op l' := by
  cases op
  all_goals simp only [loadOperation, steps_ok] at h
  case insertNarrativeNode =>
    obtain ⟨l₁, hl₁, h⟩ := h
    exact ⟨(Grows.ensureSectionState hl₁).trans (.ensureAfter h), .of_nil rfl rfl⟩
  case updateNarrativeNode =>
    obtain ⟨l₁, hl₁, rfl⟩ := h
    exact ⟨(Grows.ensureNarrativeNodeState hl₁).trans (.mutateNode _ _),
      .of_one rfl rfl mem_insert_self⟩
  case moveNarrativeNode =>
    obtain ⟨l₁, hl₁, l₂, hl₂, l₃, hl₃, _, hl₄, rfl⟩ := h
    exact ⟨(Grows.ensureNarrativeNodeState hl₁).trans ((Grows.ensureParent hl₂).trans
      ((Grows.ensureSectionState hl₃).trans ((Grows.ensureAfter hl₄).trans
        (.mutateNode _ _)))), .of_one rfl rfl mem_insert_self⟩
  case removeNarrativeNode =>
    obtain ⟨l₁, hl₁, l₂, hl₂, rfl⟩ := h
    exact ⟨(Grows.ensureNarrativeNodeState hl₁).trans ((Grows.ensureParent hl₂).trans
      (.mutateNode _ _)), .of_one rfl rfl mem_insert_self⟩
  case addCaption =>
    obtain ⟨l₁, hl₁, h⟩ := h
    exact ⟨(Grows.ensureTrackState hl₁).trans (.loadCaptionOverlaps h), .of_nil rfl rfl⟩
  case updateCaption =>
    obtain ⟨l₁, hl₁, current, -, l₂, hl₂, l₃, hl₃, rfl⟩ := h
    exact ⟨(Grows.ensureCaptionState hl₁).1.trans ((Grows.ensureTrackState hl₂).trans
      ((Grows.loadCaptionOverlaps hl₃).trans (.mutateCaption _ _))),
      .of_one rfl rfl mem_insert_self⟩
  case removeCaption =>
    obtain ⟨l₁, hl₁, current, -, l₂, hl₂, rfl⟩ := h
    exact ⟨(Grows.ensureCaptionState hl₁).1.trans ((Grows.ensureTrackState hl₂).trans
      (.mutateCaption _ _)), .of_one rfl rfl mem_insert_self⟩
  case bindAlignment =>
    obtain ⟨l₁, hl₁, h⟩ := h
    exact ⟨(Grows.ensureAfter hl₁).trans (.loop (fun _ _ _ _ hk => Grows.ensureTargetInput hk) h),
      .of_nil rfl rfl⟩
  case remapAlignment => exact ⟨Grows.loadAlignmentRemapInput h, .of_nil rfl rfl⟩
  case markAlignmentStale => exact ⟨(Grows.ensureAlignmentState h).1, .of_nil rfl rfl⟩
  case unbindAlignment => exact ⟨(Grows.ensureAlignmentState h).1, .of_nil rfl rfl⟩
  case addClip =>
    obtain ⟨l₁, hl₁, l₂, hl₂, l₃, hl₃, h⟩ := h
    have hstart := (Grows.ensureTrackState hl₁).trans ((Grows.ensureSourceStreamState hl₂).trans
      (.loadClipOverlaps hl₃))
    split at h
    · exact ⟨hstart.trans (Grows.loadLinkGroupMembers h).1, .of_nil rfl rfl⟩
    · obtain rfl := pure_ok.1 h
      exact ⟨hstart, .of_nil rfl rfl⟩
  case moveClip _ scope _ _ =>
    obtain ⟨hgrows, hacting⟩ := Grows.loadMoveClip hloaded hright h
    exact ⟨hgrows, .of_acting hacting rfl (by cases scope <;> simp [EditOperationInput.groups])⟩
  case trimClip _ scope _ _ =>
    obtain ⟨hgrows, hacting⟩ := Grows.loadTrimClip hloaded hright h
    exact ⟨hgrows, .of_acting hacting rfl (by cases scope <;> simp [EditOperationInput.groups])⟩
  case splitClip | removeClip =>
    obtain ⟨hgrows, hacting⟩ := Grows.loadMembershipChange hloaded hright h
    refine ⟨hgrows, fun k hk => ?_, fun g hg => (hacting.groups g (mem_toList.1 hg) (.inr rfl)).1⟩
    obtain ⟨id, hid, rfl⟩ := mem_clipKeys.1 hk
    exact (mem_append.1 hid).elim (hacting.marked id) hacting.leftBehind
  case setClipPlacement =>
    obtain ⟨l₁, hl₁, _, -, l₂, hl₂, rfl⟩ := h
    exact ⟨(Grows.ensureClipState hl₁).1.trans ((Grows.ensureTrackState hl₂).trans
      (.mutateClip _ _)), .of_nil rfl rfl⟩
  case linkClips =>
    obtain ⟨hgrows, hmarked⟩ := Grows.mutateMembers h
    refine ⟨hgrows, fun k hk => ?_, fun _ hg => absurd hg not_mem_nil⟩
    obtain ⟨id, hid, rfl⟩ := mem_clipKeys.1 hk
    exact hmarked id hid
  case unlinkClips =>
    obtain ⟨hgrows, hmarked, hsome⟩ := Grows.loadUnlinkClipsInput hright h
    refine ⟨hgrows, fun k hk => ?_, fun g hg => ?_⟩
    · obtain ⟨id, hid, rfl⟩ := mem_clipKeys.1 hk
      exact hmarked id hid
    · obtain rfl := mem_singleton.1 hg
      exact hsome
  case addTranscriptCorrection =>
    obtain ⟨l₁, hl₁, h⟩ := h
    exact ⟨(Grows.ensureEditTranscriptArtifact hl₁).trans (.loadTranscriptCorrectionOverlaps h),
      .of_nil rfl rfl⟩
  case updateTranscriptCorrection =>
    obtain ⟨l₁, hl₁, _, -, h⟩ := h
    exact ⟨(Grows.ensureTranscriptCorrectionState hl₁).1.trans
      (.loadTranscriptCorrectionOverlaps h), .of_nil rfl rfl⟩
  case removeTranscriptCorrection =>
    exact ⟨(Grows.ensureTranscriptCorrectionState h).1, .of_nil rfl rfl⟩
  case insertSourceExcerpt =>
    obtain ⟨l₁, hl₁, _, hl₂, _, hl₃, h⟩ := h
    exact ⟨(Grows.ensureSectionState hl₁).trans ((Grows.ensureAfter hl₂).trans
      ((Grows.ensureEditTranscriptArtifact hl₃).trans (.loadTranscriptCorrectionOverlaps h))),
      .of_nil rfl rfl⟩
  case deriveCaptions => exact ⟨Grows.loadDeriveCaptions h, .of_nil rfl rfl⟩
  case deriveRoughCut =>
    obtain ⟨_, hl₁, h⟩ := h
    exact ⟨(Grows.loop (fun _ _ _ _ hk => Grows.loadRoughCutItem hk) hl₁).trans
      (.loop (fun _ _ _ _ hk => Grows.loadRoughCutOutput hk) h), .of_nil rfl rfl⟩

/-- All operations of a request are covered. -/
theorem loadOperations_covers {ops : List EditOperationInput} (hloaded : Loaded c l [] [])
    (hright : Right c l)
    (h : ops.foldlM (fun (l : EditLoad) op => l.loadOperation c m op) l = .ok l') :
    Grows c l l' ∧ ∀ op ∈ ops, Covers c op l' := by
  refine foldlM_progress (fun done k => Grows c l k ∧ ∀ op ∈ done, Covers c op k) ?_
    ⟨.refl l, by simp⟩ h
  rintro _ op k k' ⟨hk, hcovers⟩ hk'
  obtain ⟨hgrows, hcover⟩ := loadOperation_covers (hk.loaded hloaded) (hk.right hright) hk'
  refine ⟨hk.trans hgrows, fun op' hop' => ?_⟩
  rcases mem_append.1 hop' with hop' | hop'
  · exact (hcovers op' hop').grow hgrows
  · rw [mem_singleton.1 hop']
    exact hcover

/-! ## The exact alignments -/

/-- The table that a loop fills is right for every entity of the loop, and the rest is left
    alone. -/
theorem alignments_loop {R : Type} {f : EditLoad → ID → Except EditError EditLoad}
    (table : EditLoad → Table ID (List ID)) (rest : EditLoad → R)
    {value : ID → List ID} {ids : List ID}
    (hf : ∀ k k' id, f k id = .ok k' →
      Grows c k k' ∧ table k' = (table k).set id (value id) ∧ rest k' = rest k)
    (h : ids.foldlM f l = .ok l') :
    Grows c l l' ∧ (∀ id ∈ ids, (table l').find? id = some (value id)) ∧ rest l' = rest l := by
  refine ⟨.loop (fun id _ k k' hk => (hf k k' id hk).1) h, fun id hid => ?_,
    foldlM_invariant (fun k => rest k = rest l)
      (fun id _ k k' hk hk' => (hf k k' id hk').2.2.trans hk) rfl h⟩
  refine foldlM_establishes (fun l => (table l).find? id = some (value id)) hid (fun k k' hk => ?_)
    (fun other _ k k' hk hk' => ?_) h
  · rw [(hf k k' id hk).2.1, Table.find?_set_self]
  · rw [(hf k k' other hk').2.1, Table.find?_set]
    split
    · next heq => rw [heq]
    · exact hk

end EditLoad

/-- The entity that a target names. -/
def AlignmentTarget.anchor? : AlignmentTarget → Option EntityKey
  | .caption id .. => some ⟨.caption, id⟩
  | .clip id .. => some ⟨.clip, id⟩
  | .timeline .. => none

/-- What an alignment is anchored at: its node, and the captions or clips that it names. -/
def AlignmentState.anchors (a : AlignmentState) : List EntityKey :=
  ⟨.narrativeNode, a.narrativeNodeID⟩ :: a.targets.filterMap (·.anchor?)

variable {k : EntityKey}

theorem AlignmentState.anchors_of_mem (a : AlignmentState) (h : k ∈ a.anchors) :
    k.kind.anchors = true := by
  rcases mem_cons.1 h with rfl | h
  · rfl
  · obtain ⟨target, -, htarget⟩ := mem_filterMap.1 h
    cases target <;> cases htarget <;> rfl

variable {a : AlignmentState}

/-- The targets that name an entity are counted. -/
theorem AlignmentState.mem_anchors (hk : k.kind ≠ .narrativeNode)
    {p : AlignmentTarget → Bool} (hp : ∀ target, p target = true ↔ target.anchor? = some k) :
    k ∈ a.anchors ↔ 0 < a.targets.countP p := by
  rw [anchors, mem_cons, mem_filterMap, countP_pos_iff]
  simp only [hp]
  exact or_iff_right fun h => hk (congrArg EntityKey.kind h)

variable {id : ID}

theorem AlignmentState.mem_anchors_caption :
    ⟨.caption, id⟩ ∈ a.anchors ↔ 0 < a.targets.countP fun
      | .caption captionID .. => captionID == id
      | _ => false :=
  mem_anchors (by simp) fun target => by cases target <;> simp [anchor?]

theorem AlignmentState.mem_anchors_clip : ⟨.clip, id⟩ ∈ a.anchors ↔ 0 < EditLoad.clipCount id a :=
  mem_anchors (by simp) fun target => by cases target <;> simp [anchor?]

theorem AlignmentState.mem_anchors_node :
    ⟨.narrativeNode, id⟩ ∈ a.anchors ↔ a.narrativeNodeID = id := by
  rw [anchors, mem_cons, mem_filterMap]
  constructor
  · rintro (h | ⟨target, -, h⟩)
    · exact (congrArg EntityKey.id h).symm
    · cases target <;> simp [anchor?] at h
  · rintro rfl
    exact .inl rfl

/-- The alignment is stored as exact. -/
def Content.Exact (c : Content) (x : ID) (a : AlignmentState) : Prop :=
  c.entities.alignment? x = some a ∧ a.status = .exact

theorem EditLoad.mem_exactAlignments {c : Content} {count : AlignmentState → Nat} {x : ID} :
    x ∈ exactAlignments c count ↔ ∃ a, c.Exact x a ∧ 0 < count a := by
  rw [exactAlignments, mem_insertionSort, mem_flatMap]
  constructor
  · rintro ⟨s, hs, hx⟩
    cases s with
    | alignment a =>
      rw [mem_states] at hs
      dsimp only at hx
      split at hx
      · next hexact =>
        obtain ⟨hcount, rfl⟩ := mem_replicate.1 hx
        exact ⟨a, ⟨alignment?_eq_some.2 hs, hexact⟩, Nat.pos_of_ne_zero hcount⟩
      · exact absurd hx not_mem_nil
    | _ => exact absurd hx not_mem_nil
  · rintro ⟨a, ⟨ha, hexact⟩, hcount⟩
    have hid := id_of_alignment? ha
    refine ⟨.alignment a, ?_, ?_⟩
    · rw [mem_states]
      rw [← hid] at ha
      exact alignment?_eq_some.1 ha
    · dsimp only
      rw [if_pos hexact, ← hid]
      exact mem_replicate.2 ⟨Nat.ne_of_gt hcount, rfl⟩

/-- What the loaded state says of the request: the groups that it relies on, the alignments of what
    it acts on, and the alignments of clips that are to be placed. -/
structure Provided (c : Content) (I : NormalizeEditInput) : Prop where
  loaded : ∀ {k s}, I.base.find? k = some s → c.load? k = some s
  tracks : I.TracksKeyed
  members : ∀ {g s clip}, I.base.linkGroup? g = some s → c.entities.clip? clip.id = some clip →
    clip.tombstoned = false → clip.linkGroupID = some g → I.base.clip? clip.id = some clip
  groups : ∀ op ∈ I.input.operations, ∀ g ∈ op.groups c.entities,
    I.members g = EditLoad.groupMembers c g ∧ (I.base.linkGroup? g).isSome
  dependents : ∀ op ∈ I.input.operations, ∀ k ∈ op.acts c.entities (EditLoad.groupMembers c),
    ∀ x a, c.Exact x a → k ∈ a.anchors → x ∈ EditNormalizer.dependentAlignments I k
  placed : ∀ id x, x ∈ (I.state.clipAlignments.find? id).getD [] →
    ∃ a, c.Exact x a ∧ ⟨.clip, id⟩ ∈ a.anchors

theorem loaded_loadEditHeads (projectRevision : Revision) (c : Content) :
    Loaded c (loadEditHeads projectRevision c) [] [] ∧
      EditLoad.Right c (loadEditHeads projectRevision c) := by
  refine ⟨?_, by simp [EditLoad.Right, loadEditHeads]⟩
  constructor <;> simp [loadEditHeads, section?_eq_some]

variable {projectRevision : Revision} {state : EditNormalizationState} {input : EditProposeInput}

/-- After the operations, the alignments of what they act on are read. -/
theorem alignments_of_load {c : Content} {m : Media}
    (h : loadEditNormalizationState projectRevision c m input = .ok state) :
    ∃ l l' : EditLoad, l'.state = state ∧ EditLoad.Grows c (loadEditHeads projectRevision c) l ∧
      (∀ op ∈ input.operations, EditLoad.Covers c op l) ∧ EditLoad.Grows c l l' ∧
      ∀ I : NormalizeEditInput, I.state = state → ∀ k, l.Marked k → ∀ x a, c.Exact x a →
        k ∈ a.anchors → x ∈ EditNormalizer.dependentAlignments I k := by
  simp only [loadEditNormalizationState, steps_ok] at h
  obtain ⟨-, l₁, hl₁, _, hl₂, _, hl₃, l₄, hl₄, rfl⟩ := h
  obtain ⟨hstart, hright⟩ := loaded_loadEditHeads projectRevision c
  obtain ⟨h₁, hcovers⟩ := loadOperations_covers hstart hright hl₁
  obtain ⟨h₂, hnodes, -⟩ := alignments_loop (c := c) (·.state.nodeAlignments) (fun _ => ())
    (fun k k' id hk => by
      obtain ⟨hgrows, t, rfl⟩ := EditLoad.Grows.loadExactNodeAlignments hk
      exact ⟨hgrows, rfl, rfl⟩) hl₂
  obtain ⟨h₃, hcaptions, hframe₃⟩ := alignments_loop (c := c) (·.state.captionAlignments)
    (·.state.nodeAlignments) (fun k k' id hk => by
      obtain ⟨hgrows, t, rfl⟩ := EditLoad.Grows.loadExactCaptionAlignments hk
      exact ⟨hgrows, rfl, rfl⟩) hl₃
  obtain ⟨h₄, hclips, hframe₄⟩ := alignments_loop (c := c) (·.state.clipAlignments)
    (fun l => (l.state.nodeAlignments, l.state.captionAlignments)) (fun k k' id hk => by
      obtain ⟨hgrows, t, rfl⟩ := EditLoad.Grows.loadExactClipAlignments hk
      exact ⟨hgrows, rfl, rfl⟩) hl₄
  obtain ⟨hnodes₄, hcaptions₄⟩ := Prod.mk.inj hframe₄
  refine ⟨l₁, l₄, rfl, h₁, hcovers, h₂.trans (h₃.trans h₄), fun I hI k hk x a hx hanchor => ?_⟩
  obtain ⟨kind, id⟩ := k
  rw [EditNormalizer.dependentAlignments, hI]
  cases kind with
  | narrativeNode =>
    simp only [hnodes₄, hframe₃, hnodes id hk, getD_some, mem_exactAlignments]
    exact ⟨a, hx, by rw [if_pos (AlignmentState.mem_anchors_node.1 hanchor)]; exact Nat.one_pos⟩
  | caption =>
    simp only [hcaptions₄, hcaptions id (h₂.marked _ hk), getD_some, mem_exactAlignments]
    exact ⟨a, hx, AlignmentState.mem_anchors_caption.1 hanchor⟩
  | clip =>
    simp only [hclips id ((h₂.trans h₃).marked _ hk), getD_some, mem_exactAlignments]
    exact ⟨a, hx, AlignmentState.mem_anchors_clip.1 hanchor⟩
  | _ => exact hk.elim

/-- The state that a request is normalized against is part of the content, with nothing
    owed. -/
theorem loaded_of_loadEditNormalizationState {c : Content} {m : Media}
    (h : loadEditNormalizationState projectRevision c m input = .ok state) :
    ∃ l : EditLoad, l.state = state ∧ Loaded c l [] [] := by
  obtain ⟨l, l', hstate, hgrows, -, hgrows', -⟩ := alignments_of_load h
  exact ⟨l', hstate, (hgrows.trans hgrows').loaded (loaded_loadEditHeads projectRevision c).1⟩

theorem provided_of_load {c : Content} {m : Media} {I : NormalizeEditInput}
    (h : loadEditNormalizationState projectRevision c m I.input = .ok I.state) : Provided c I := by
  obtain ⟨l, l', hstate, hstarted, hcovers, hended, hdependents⟩ := alignments_of_load h
  obtain ⟨hstart, hright⟩ := loaded_loadEditHeads projectRevision c
  have hgrows := hstarted.trans hended
  have hloaded := hgrows.loaded hstart
  refine ⟨fun {k s} hk => hloaded.entities (by rwa [hstate]), fun id track htrack => ?_,
    fun {g s clip} hg hclip hlive hin => ?_, fun op hop g hg => ?_,
    fun op hop k hk => hdependents I rfl k ((hcovers op hop).marked k hk), fun id x hx => ?_⟩
  · rw [← hstate] at htrack
    exact (hloaded.tracks htrack).1
  · rw [NormalizeEditInput.base, ← hstate] at hg ⊢
    exact (hloaded.members hg hclip hlive hin).resolve_right not_mem_nil
  · obtain ⟨ms, hms⟩ := isSome_iff_exists.1 (hended.isSome_members ((hcovers op hop).groups g hg))
    obtain ⟨rfl, hgroup⟩ := hgrows.right hright g ms hms
    rw [hstate] at hms hgroup
    refine ⟨by rw [NormalizeEditInput.members, hms]; rfl, ?_⟩
    obtain ⟨s, hs⟩ := isSome_iff_exists.1 hgroup
    have hkey := key_of_find? hs
    cases s with
    | linkGroup s => exact isSome_iff_exists.2 ⟨s, linkGroup?_eq_some.2 hs⟩
    | _ => cases hkey
  · cases hfind : I.state.clipAlignments.find? id with
    | none =>
      rw [hfind] at hx
      exact absurd hx not_mem_nil
    | some ids =>
      rw [hfind, getD_some] at hx
      rw [← hstate] at hfind
      obtain rfl := (hgrows.placed id ids hfind).resolve_left (by simp [loadEditHeads])
      obtain ⟨a, ha, hcount⟩ := mem_exactAlignments.1 hx
      exact ⟨a, ha, AlignmentState.mem_anchors_clip.2 hcount⟩

end OpenCut
