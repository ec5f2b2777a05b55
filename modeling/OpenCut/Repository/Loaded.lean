import OpenCut.Application.Acts
import OpenCut.Repository.Load

/-!
# What is loaded for a request

The state that a request is normalized against is a part of the stored content
(`Loaded`): an entity or a track is loaded as it is stored, a section with the number of
its live children and with the sections above it, a link group with all its live members.
While the loader is at it, the members of a group and the section above a section are
still owed; at the end nothing is.

What a step of the loader does is said once (`Grows`): it loads more of the content, and
takes down more of the entities whose alignments are to be read.
-/

namespace OpenCut

open Outcome EntityTable List EditLoad EntityState Option

/-- What is loaded so far is as it is stored, and complete except for the members of the
    link groups `groups` and for the sections `sections`. -/
structure Loaded (c : Content) (l : EditLoad) (groups sections : List ID) : Prop where
  entities : ∀ {k s}, l.state.entities.find? k = some s → c.load? k = some s
  tracks : ∀ {id track}, l.state.tracks.find? id = some track → track.id = id ∧
    ∃ row, c.tracks.find? id = some row ∧ track.revision = row.revision ∧ track.type = row.type
  counts : ∀ {id s}, l.state.entities.section? id = some s →
    l.state.sectionChildCounts.find? id = some (EditLoad.childCount c id)
  parents : ∀ {id s parent}, l.state.entities.section? id = some s → s.parentID = some parent →
    (l.state.entities.section? parent).isSome ∨ parent ∈ sections
  members : ∀ {g s clip}, l.state.entities.linkGroup? g = some s →
    c.entities.clip? clip.id = some clip → clip.tombstoned = false → clip.linkGroupID = some g →
    l.state.entities.clip? clip.id = some clip ∨ g ∈ groups

namespace Loaded

variable {c : Content} {m : Media} {l l' : EditLoad} {groups sections : List ID}

/-! ## Entities -/

variable {s : EntityState} {id : ID}

section

variable (h : Loaded c l groups sections)
include h

/-- Only the entities and the tracks matter, and the numbers of children. -/
theorem of_same (hentities : l'.state.entities = l.state.entities)
    (htracks : l'.state.tracks = l.state.tracks)
    (hcounts : l'.state.sectionChildCounts = l.state.sectionChildCounts) :
    Loaded c l' groups sections where
  entities := hentities ▸ h.entities
  tracks := htracks ▸ h.tracks
  counts := hentities ▸ hcounts ▸ h.counts
  parents := hentities ▸ h.parents
  members := hentities ▸ h.members

section

variable (hs : c.load? s.key = some s)
include hs

/-- What is loaded stays when one more entity is. -/
theorem find?_put_of_stored {e : EntityState} {k : EntityKey}
    (he : l.state.entities.find? k = some e) : (l.state.entities.put s).find? k = some e := by
  rw [find?_put]
  split
  · next hk => rw [← hs, ← hk, h.entities he]
  · exact he

theorem section?_put_of_stored (hid : (l.state.entities.section? id).isSome) :
    ((l.state.entities.put s).section? id).isSome := by
  obtain ⟨node, hnode⟩ := isSome_iff_exists.1 hid
  rw [section?_eq_some, node?_eq_some] at hnode
  have hput := node?_eq_some.2 (h.find?_put_of_stored hs hnode.1)
  rw [section?_eq_some.2 ⟨hput, hnode.2⟩]
  rfl

/-- One more entity, with what is owed for it. -/
theorem put {groups' sections' : List ID} (hgroups : groups ⊆ groups')
    (hsections : sections ⊆ sections') (hgroup : s.key.kind = .linkGroup → s.key.id ∈ groups')
    (hsection : ∀ node, s = .narrativeNode node → node.kind = .section →
      l'.state.sectionChildCounts.find? node.id = some (EditLoad.childCount c node.id : Int) ∧
      ∀ parent ∈ node.parentID, parent ∈ sections')
    (hcounts : ∀ id, s.key ≠ ⟨.narrativeNode, id⟩ →
      l'.state.sectionChildCounts.find? id = l.state.sectionChildCounts.find? id)
    (hentities : l'.state.entities = l.state.entities.put s)
    (htracks : l'.state.tracks = l.state.tracks) : Loaded c l' groups' sections' := by
  -- A section of the new table is the new entity or was loaded before.
  have hcases : ∀ {id node}, l'.state.entities.section? id = some node →
      (s = .narrativeNode node ∧ node.id = id ∧ node.kind = .section) ∨
      (s.key ≠ ⟨.narrativeNode, id⟩ ∧ l.state.entities.section? id = some node) := by
    intro id node hnode
    rw [hentities, section?_eq_some, node?_eq_some, find?_put] at hnode
    obtain ⟨hnode, hkind⟩ := hnode
    split at hnode
    · next hk =>
      cases hnode
      exact .inl ⟨rfl, (congrArg EntityKey.id hk).symm, hkind⟩
    · next hk =>
      exact .inr ⟨Ne.symm hk, section?_eq_some.2 ⟨node?_eq_some.2 hnode, hkind⟩⟩
  refine ⟨fun {k e} he => ?_, htracks ▸ h.tracks, fun {id node} hnode => ?_,
    fun {id node parent} hnode hparent => ?_, fun {g e clip} hg hclip hlive hin => ?_⟩
  · rw [hentities, find?_put] at he
    split at he
    · next hk => rw [hk, ← he, hs]
    · exact h.entities he
  · rcases hcases hnode with ⟨heq, rfl, hkind⟩ | ⟨hne, hold⟩
    · exact (hsection node heq hkind).1
    · rw [hcounts id hne, h.counts hold]
  · rcases hcases hnode with ⟨heq, -, hkind⟩ | ⟨-, hold⟩
    · exact .inr ((hsection node heq hkind).2 parent hparent)
    · rw [hentities]
      exact (h.parents hold hparent).imp (h.section?_put_of_stored hs) (@hsections _)
  · rw [hentities, linkGroup?_eq_some, find?_put] at hg
    rw [hentities, clip?_eq_some]
    split at hg
    · next hk =>
      rw [← hk] at hgroup
      exact .inr (hgroup rfl)
    · refine (h.members (linkGroup?_eq_some.2 hg) hclip hlive hin).imp
        (fun hloaded => ?_) (@hgroups _)
      exact h.find?_put_of_stored hs (clip?_eq_some.1 hloaded)

/-- One more entity that is neither a section nor a link group. -/
theorem addEntity (hgroup : s.key.kind ≠ .linkGroup)
    (hsection : ∀ node, s = .narrativeNode node → node.kind ≠ .section) :
    Loaded c (l.addEntity s) groups sections :=
  h.put hs (Subset.refl _) (Subset.refl _) (fun hkind => absurd hkind hgroup)
    (fun node heq hkind => absurd hkind (hsection node heq)) (fun _ _ => rfl) rfl rfl

end

/-- A section with the number of its children; the section above it is owed. -/
theorem addSection {s : NarrativeNodeState} (hs : c.loadNode? s.id = some s) :
    Loaded c (l.addSection c s) groups (s.parentID.toList ++ sections) := by
  have hload : c.load? (narrativeNode s).key = some (.narrativeNode s) := by
    simp [key, Content.load?, hs]
  refine h.put hload (Subset.refl _) (subset_append_right _ _)
    (by simp [key]) (fun node heq _ => ?_) (fun id hne => Table.find?_set_ne _ _ ?_) rfl rfl
  · cases heq
    exact ⟨Table.find?_set_self _ _ _, fun parent hparent =>
      mem_append_left _ (mem_toList.2 hparent)⟩
  · rintro rfl
    exact hne rfl

theorem owe_section (id : ID) : Loaded c l groups (id :: sections) :=
  { h with parents := fun hs hparent => (h.parents hs hparent).imp_right (mem_cons_of_mem _) }

end

theorem pay_section (h : Loaded c l groups (id :: sections))
    (hid : (l.state.entities.section? id).isSome) : Loaded c l groups sections :=
  { h with
    parents := by
      intro id' s parent hs hparent
      rcases h.parents hs hparent with hsome | hmem
      · exact .inl hsome
      · rcases mem_cons.1 hmem with rfl | hmem
        · exact .inl hid
        · exact .inr hmem }

theorem ensureEntity (h : Loaded c l groups sections) {key : EntityKey} {missing : EditError}
    (hgroup : key.kind ≠ .linkGroup) (hnode : key.kind ≠ .narrativeNode)
    (hop : l.ensureEntity c key missing = .ok l') : Loaded c l' groups sections := by
  unfold EditLoad.ensureEntity at hop
  split at hop
  · cases hop
    exact h
  · simp only [steps_ok] at hop
    obtain ⟨s, hs, rfl⟩ := hop
    have hkey := c.key_of_load? hs
    refine h.addEntity (hkey ▸ hs) (hkey ▸ hgroup) fun node heq => ?_
    rw [heq] at hkey
    exact absurd (congrArg EntityKey.kind hkey).symm hnode

theorem ensureTrackState (h : Loaded c l groups sections) (hop : l.ensureTrackState c id = .ok l') :
    Loaded c l' groups sections := by
  unfold EditLoad.ensureTrackState at hop
  split at hop
  · cases hop
    exact h
  · simp only [steps_ok] at hop
    obtain ⟨row, hrow, rfl⟩ := hop
    refine { h with tracks := fun {id' track} htrack => ?_ }
    rcases Table.of_find?_set htrack with ⟨hid, rfl⟩ | htrack
    · exact ⟨hid.symm, row, hid ▸ hrow, rfl, rfl⟩
    · exact h.tracks htrack

/-! ## Narrative nodes -/

theorem ensureSectionStates {fuel : Nat} (h : Loaded c l groups (id :: sections))
    (hop : EditLoad.ensureSectionStates c fuel l id = .ok l') : Loaded c l' groups sections := by
  induction fuel generalizing l id with
  | zero => cases hop
  | succ fuel ih =>
    unfold ensureSectionStates at hop
    split at hop
    · next hloaded =>
      cases hop
      exact h.pay_section hloaded
    · simp only [steps_ok] at hop
      obtain ⟨s, hs, hkind, hop⟩ := hop
      obtain rfl : s.id = id := by
        simp only [Content.loadNode?, map_eq_some_iff] at hs
        obtain ⟨row, -, rfl⟩ := hs
        rfl
      have hself : ((l.addSection c s).state.entities.section? s.id).isSome := by
        have hput := find?_put_self l.state.entities (.narrativeNode s)
        exact isSome_iff_exists.2 ⟨s, section?_eq_some.2 ⟨node?_eq_some.2 hput, hkind⟩⟩
      have hadded := h.addSection hs
      split at hop
      · next hparent =>
        rw [pure_ok] at hop
        subst hop
        rw [hparent] at hadded
        exact hadded.pay_section hself
      · next parent hparent =>
        rw [hparent] at hadded
        have hswap : Loaded c (l.addSection c s) groups (s.id :: parent :: sections) :=
          { hadded with
            parents := fun hs hp => (hadded.parents hs hp).imp_right fun hmem => by
              simp only [toList_some, singleton_append, mem_cons] at hmem ⊢
              tauto }
        exact ih (hswap.pay_section hself) hop

section

variable (h : Loaded c l groups sections)
include h

theorem ensureSectionState
    (hop : l.ensureSectionState c id = .ok l') : Loaded c l' groups sections :=
  ensureSectionStates (h.owe_section id) hop

/-- A node that is no section. -/
theorem addNode {s : NarrativeNodeState}
    (hs : c.loadNode? id = some s) (hkind : s.kind ≠ .section) :
    Loaded c (l.addEntity (.narrativeNode s)) groups sections := by
  have hid : s.id = id := by
    simp only [Content.loadNode?, map_eq_some_iff] at hs
    obtain ⟨row, -, rfl⟩ := hs
    rfl
  refine h.addEntity ?_ (by simp [key]) fun node heq => ?_
  · simp [key, Content.load?, hid, hs]
  · cases heq
    exact hkind

/-- A link group, whose members are owed. -/
theorem ensureLinkGroupState
    (hop : l.ensureLinkGroupState c id = .ok l') : Loaded c l' (id :: groups) sections := by
  unfold EditLoad.ensureLinkGroupState EditLoad.ensureEntity at hop
  split at hop
  · cases hop
    exact { h with members := fun hg hclip hlive hin =>
              (h.members hg hclip hlive hin).imp_right (mem_cons_of_mem _) }
  · simp only [steps_ok] at hop
    obtain ⟨s, hs, rfl⟩ := hop
    have hkey := c.key_of_load? hs
    refine h.put (hkey ▸ hs) (subset_cons_self _ _) (Subset.refl _) (fun _ => ?_)
      (fun node heq => ?_) (fun _ _ => rfl) rfl rfl
    · rw [hkey]
      exact mem_cons_self
    · rw [heq] at hkey
      cases hkey

end

end Loaded

/-! ## Steps of the loader -/

namespace EditLoad

/-- The alignments of the entity are to be read. -/
def Marked (l : EditLoad) : EntityKey → Prop
  | ⟨.narrativeNode, id⟩ => id ∈ l.mutatedNodes
  | ⟨.caption, id⟩ => id ∈ l.mutatedCaptions
  | ⟨.clip, id⟩ => id ∈ l.mutatedClips
  | _ => False

/-- How often an alignment names a clip. -/
def clipCount (id : ID) (a : AlignmentState) : Nat :=
  a.targets.countP fun
    | .clip clipID .. => clipID == id
    | _ => false

/-- More is loaded, as it is stored, the members of link groups and the alignments of clips
    included, and nothing is owed for it. -/
structure Grows (c : Content) (l l' : EditLoad) : Prop where
  entities : ∀ k, (l.state.entities.find? k).isSome → (l'.state.entities.find? k).isSome
  members : ∀ g, l'.state.linkGroupClips.find? g = l.state.linkGroupClips.find? g ∨
    l'.state.linkGroupClips.find? g = some (groupMembers c g) ∧
      (l'.state.entities.find? ⟨.linkGroup, g⟩).isSome
  marked : ∀ k, l.Marked k → l'.Marked k
  placed : ∀ id found, l'.state.clipAlignments.find? id = some found →
    l.state.clipAlignments.find? id = some found ∨ found = exactAlignments c (clipCount id)
  loaded : ∀ {groups sections}, Loaded c l groups sections → Loaded c l' groups sections

/-- The members of the link groups that are loaded are those stored. -/
def Right (c : Content) (l : EditLoad) : Prop :=
  ∀ g ms, l.state.linkGroupClips.find? g = some ms →
    ms = groupMembers c g ∧ (l.state.entities.find? ⟨.linkGroup, g⟩).isSome

namespace Grows

variable {c : Content} {m : Media} {l l' l'' : EditLoad}

theorem refl (l : EditLoad) : Grows c l l :=
  ⟨fun _ h => h, fun _ => .inl rfl, fun _ h => h, fun _ _ => .inl, fun h => h⟩

theorem trans (h : Grows c l l') (h' : Grows c l' l'') : Grows c l l'' := by
  refine ⟨fun k hk => h'.entities k (h.entities k hk), fun g => ?_, fun k hk =>
    h'.marked k (h.marked k hk), fun id found hfound =>
      (h'.placed id found hfound).elim (h.placed id found) .inr, fun hl => h'.loaded (h.loaded hl)⟩
  rcases h'.members g with heq | hset
  · rcases h.members g with heq' | ⟨hset, hgroup⟩
    · exact .inl (heq.trans heq')
    · exact .inr ⟨heq.trans hset, h'.entities _ hgroup⟩
  · exact .inr hset

theorem right (h : Grows c l l') (hl : Right c l) : Right c l' := by
  intro g ms hms
  rcases h.members g with heq | ⟨hset, hgroup⟩
  · obtain ⟨hms, hgroup⟩ := hl g ms (heq ▸ hms)
    exact ⟨hms, h.entities _ hgroup⟩
  · exact ⟨mem_unique hms hset, hgroup⟩

/-- The members of a group stay loaded. -/
theorem isSome_members (h : Grows c l l') {g : ID} (hg : (l.state.linkGroupClips.find? g).isSome) :
    (l'.state.linkGroupClips.find? g).isSome := by
  rcases h.members g with heq | ⟨hset, -⟩
  · rwa [heq]
  · rw [hset]
    rfl

/-- A step that leaves entities, groups and marks alone, and the tracks. -/
theorem same (hentities : l'.state.entities = l.state.entities)
    (htracks : l'.state.tracks = l.state.tracks)
    (hcounts : l'.state.sectionChildCounts = l.state.sectionChildCounts)
    (hmembers : l'.state.linkGroupClips = l.state.linkGroupClips) (hmarked : l'.Marked = l.Marked)
    (hplaced : l'.state.clipAlignments = l.state.clipAlignments) : Grows c l l' :=
  ⟨fun k hk => hentities ▸ hk, fun g => .inl (by rw [hmembers]), fun k hk => hmarked ▸ hk,
    fun id found hfound => .inl (hplaced ▸ hfound), fun h => h.of_same hentities htracks hcounts⟩

/-- A step that only loads entities, and sections with the numbers of their children. -/
theorem of_entities {t : EntityTable} {counts : Table ID Int}
    (hl' : l' = { l with state := { l.state with entities := t, sectionChildCounts := counts } })
    (ht : ∀ k, (l.state.entities.find? k).isSome → (t.find? k).isSome)
    (hloaded : ∀ {groups sections}, Loaded c l groups sections → Loaded c l' groups sections) :
    Grows c l l' := by
  subst hl'
  exact ⟨ht, fun _ => .inl rfl, fun _ h => h, fun _ _ => .inl, hloaded⟩

/-- A step that only marks entities. -/
theorem of_marked (hl' : l'.state = l.state) (hmarked : ∀ k, l.Marked k → l'.Marked k) :
    Grows c l l' :=
  ⟨fun k hk => hl' ▸ hk, fun g => .inl (by rw [hl']), hmarked, fun id found hfound =>
    .inl (hl' ▸ hfound), fun h => h.of_same (by rw [hl']) (by rw [hl']) (by rw [hl'])⟩

theorem mutateNode (l : EditLoad) (id : ID) : Grows c l (l.mutateNode id) :=
  of_marked rfl fun k hk => by
    obtain ⟨kind, id'⟩ := k
    cases kind <;> first | exact hk | exact mem_insert_of_mem hk

theorem mutateCaption (l : EditLoad) (id : ID) : Grows c l (l.mutateCaption id) :=
  of_marked rfl fun k hk => by
    obtain ⟨kind, id'⟩ := k
    cases kind <;> first | exact hk | exact mem_insert_of_mem hk

theorem mutateClip (l : EditLoad) (id : ID) : Grows c l (l.mutateClip id) :=
  of_marked rfl fun k hk => by
    obtain ⟨kind, id'⟩ := k
    cases kind <;> first | exact hk | exact mem_insert_of_mem hk

/-- A loop of the loader. -/
theorem loop {α : Type} {f : EditLoad → α → Except EditError EditLoad} {items : List α}
    (hf : ∀ a ∈ items, ∀ l l', f l a = .ok l' → Grows c l l') (h : items.foldlM f l = .ok l') :
    Grows c l l' :=
  foldlM_invariant (Grows c l) (fun a ha k k' hk hk' => hk.trans (hf a ha k k' hk')) (refl l) h

/-! ## Entities -/

variable {id : ID}

theorem isSome_put (t : EntityTable) (s : EntityState) {k : EntityKey} (hk : (t.find? k).isSome) :
    ((t.put s).find? k).isSome := by
  rw [find?_put]
  split
  · rfl
  · exact hk

variable {missing : EditError} {key : EntityKey}

theorem ensureEntity_ok (h : l.ensureEntity c key missing = .ok l') :
    ∃ t, l' = { l with state := { l.state with entities := t } } ∧
      (∀ k, (l.state.entities.find? k).isSome → (t.find? k).isSome) ∧ (t.find? key).isSome := by
  unfold ensureEntity at h
  split at h
  · next s hs =>
    cases h
    exact ⟨_, rfl, fun _ h => h, by rw [hs]; rfl⟩
  · simp only [steps_ok] at h
    obtain ⟨s, hs, rfl⟩ := h
    refine ⟨_, rfl, fun k => isSome_put _ s, ?_⟩
    rw [find?_put, if_pos (c.key_of_load? hs).symm]
    rfl

theorem ensureEntity (hgroup : key.kind ≠ .linkGroup)
    (hnode : key.kind ≠ .narrativeNode) (h : l.ensureEntity c key missing = .ok l') :
    Grows c l l' ∧ (l'.state.entities.find? key).isSome := by
  have hloaded := fun {groups sections} (hl : Loaded c l groups sections) =>
    hl.ensureEntity hgroup hnode h
  obtain ⟨t, rfl, ht, hkey⟩ := ensureEntity_ok h
  exact ⟨of_entities rfl ht hloaded, hkey⟩

theorem ensureCaptionState (h : l.ensureCaptionState c id = .ok l') :
    Grows c l l' ∧ (l'.state.entities.find? ⟨.caption, id⟩).isSome :=
  ensureEntity (by simp) (by simp) h

theorem ensureClipState (h : l.ensureClipState c id = .ok l') :
    Grows c l l' ∧ (l'.state.entities.find? ⟨.clip, id⟩).isSome :=
  ensureEntity (by simp) (by simp) h

theorem ensureAlignmentState (h : l.ensureAlignmentState c id = .ok l') :
    Grows c l l' ∧ (l'.state.entities.find? ⟨.alignment, id⟩).isSome :=
  ensureEntity (by simp) (by simp) h

theorem ensureTranscriptCorrectionState (h : l.ensureTranscriptCorrectionState c id = .ok l') :
    Grows c l l' ∧ (l'.state.entities.find? ⟨.transcriptCorrection, id⟩).isSome :=
  ensureEntity (by simp) (by simp) h

theorem ensureTrackState (h : l.ensureTrackState c id = .ok l') : Grows c l l' := by
  have hloaded := fun {groups sections} (hl : Loaded c l groups sections) => hl.ensureTrackState h
  unfold EditLoad.ensureTrackState at h
  split at h
  · cases h
    exact refl l
  · simp only [steps_ok] at h
    obtain ⟨row, -, rfl⟩ := h
    exact ⟨fun _ h => h, fun _ => .inl rfl, fun _ h => h, fun _ _ => .inl, hloaded⟩

theorem ensureSectionStates_ok {fuel : Nat}
    (h : EditLoad.ensureSectionStates c fuel l id = .ok l') : ∃ t counts,
      l' = { l with state := { l.state with entities := t, sectionChildCounts := counts } } ∧
        ∀ k, (l.state.entities.find? k).isSome → (t.find? k).isSome := by
  induction fuel generalizing l id with
  | zero => cases h
  | succ fuel ih =>
    unfold ensureSectionStates at h
    split at h
    · cases h
      exact ⟨_, _, rfl, fun _ h => h⟩
    · simp only [steps_ok] at h
      obtain ⟨s, -, -, h⟩ := h
      split at h
      · obtain rfl := pure_ok.1 h
        exact ⟨_, _, rfl, fun k => isSome_put _ _⟩
      · obtain ⟨t, counts, rfl, ht⟩ := ih h
        exact ⟨t, counts, rfl, fun k hk => ht k (isSome_put _ _ hk)⟩

theorem ensureSectionState (h : l.ensureSectionState c id = .ok l') : Grows c l l' := by
  obtain ⟨t, _, hl', ht⟩ := ensureSectionStates_ok h
  exact of_entities hl' ht fun hl => hl.ensureSectionState h

/-- A node that is no section. -/
theorem addNode {s : NarrativeNodeState} (hs : c.loadNode? id = some s)
    (hkind : s.kind ≠ .section) : Grows c l (l.addEntity (.narrativeNode s)) :=
  of_entities rfl (fun _ => isSome_put _ _) fun hl => hl.addNode hs hkind

theorem ensureSourceExcerptState (h : l.ensureSourceExcerptState c id = .ok l') : Grows c l l' := by
  unfold EditLoad.ensureSourceExcerptState at h
  split at h
  · simp only [steps_ok] at h
    obtain ⟨-, rfl⟩ := h
    exact refl l
  · simp only [steps_ok] at h
    obtain ⟨s, hs, hkind, rfl⟩ := h
    exact addNode hs (by simp [hkind])

theorem ensureNarrativeNodeState (h : l.ensureNarrativeNodeState c id = .ok l') : Grows c l l' := by
  unfold EditLoad.ensureNarrativeNodeState at h
  split at h
  · cases h
    exact refl l
  · simp only [steps_ok] at h
    obtain ⟨s, hs, h⟩ := h
    split at h
    · exact ensureSectionState h
    · next hkind =>
      obtain rfl := pure_ok.1 h
      exact addNode hs hkind

theorem ensureAfter {after : Option EditReference} (h : l.ensureAfter c after = .ok l') :
    Grows c l l' := by
  unfold EditLoad.ensureAfter at h
  split at h
  · cases h
    exact refl l
  · exact ensureNarrativeNodeState h

theorem ensureParent (h : l.ensureParent c id = .ok l') : Grows c l l' := by
  obtain ⟨_, -, h⟩ := bind_ok.1 h
  exact ensureSectionState h

/-! ## Ranges, link groups and alignments -/

variable {range : TimeRange} {trackID : ID}

theorem loadOverlaps {rangeOf : EntityState → Option TimeRange} {limit : Nat}
    (hrange : ∀ s, (rangeOf s).isSome → s.key.kind ≠ .linkGroup ∧ s.key.kind ≠ .narrativeNode)
    (h : l.loadOverlaps c rangeOf range limit = .ok l') : Grows c l l' := by
  simp only [EditLoad.loadOverlaps, steps_ok] at h
  obtain ⟨-, -, h⟩ := h
  refine loop (fun s hs k k' hk => ?_) h
  obtain ⟨stored, hstored, -⟩ := (any_eq_true _ _).1 (mem_filter.1 hs).2
  obtain ⟨hgroup, hnode⟩ := hrange s (isSome_iff_exists.2 ⟨stored, hstored⟩)
  exact (ensureEntity hgroup hnode hk).1

theorem loadCaptionOverlaps {exclude : Option ID}
    (h : l.loadCaptionOverlaps c trackID range exclude = .ok l') : Grows c l l' :=
  loadOverlaps (fun s hs => by cases s <;> simp [EntityState.key] at hs ⊢) h

theorem loadClipOverlaps (h : l.loadClipOverlaps c trackID range = .ok l') : Grows c l l' :=
  loadOverlaps (fun s hs => by cases s <;> simp [EntityState.key] at hs ⊢) h

theorem loadTranscriptCorrectionOverlaps {artifactID : ID} {language : CaptionLanguage}
    (h : l.loadTranscriptCorrectionOverlaps c artifactID language range = .ok l') :
    Grows c l l' :=
  loadOverlaps (fun s hs => by cases s <;> simp [EntityState.key] at hs ⊢) h

variable {clip : ClipState}

/-- The live members of a group are the clips that name it. -/
theorem mem_groupMembers {g : ID} (hclip : c.entities.clip? clip.id = some clip)
    (hlive : clip.tombstoned = false) (hin : clip.linkGroupID = some g) :
    clip.id ∈ EditLoad.groupMembers c g := by
  rw [groupMembers, mem_insertionSort, mem_filterMap]
  refine ⟨clip, mem_filterMap.2 ⟨.clip clip, ?_, rfl⟩, if_pos ⟨hin, hlive⟩⟩
  exact mem_states.2 (clip?_eq_some.1 hclip)

theorem loadLinkGroupMembers (h : l.loadLinkGroupMembers c id = .ok l') :
    Grows c l l' ∧ (l'.state.linkGroupClips.find? id).isSome := by
  unfold EditLoad.loadLinkGroupMembers at h
  split at h
  · next ms hms =>
    cases h
    exact ⟨refl l, by rw [hms]; rfl⟩
  · simp only [steps_ok] at h
    obtain ⟨l₁, hl₁, -, l₂, hl₂, rfl⟩ := h
    have hclips : Grows c l₁ l₂ := loop (fun _ _ _ _ hk => (ensureClipState hk).1) hl₂
    have hmembers : ∀ member ∈ groupMembers c id,
        (l₂.state.entities.find? ⟨.clip, member⟩).isSome :=
      fun member hmem =>
        foldlM_establishes (fun l => (l.state.entities.find? ⟨.clip, member⟩).isSome) hmem
        (fun _ _ hk => (ensureClipState hk).2) (fun _ _ _ _ hk hk' =>
          (ensureClipState hk').1.entities _ hk)
        hl₂
    have howing := fun {groups sections} (hl : Loaded c l groups sections) =>
      hclips.loaded (hl.ensureLinkGroupState hl₁)
    obtain ⟨t, rfl, ht, hgroup⟩ := ensureEntity_ok hl₁
    refine ⟨⟨fun k hk => hclips.entities k (ht k hk), fun g => ?_, hclips.marked, hclips.placed,
      fun {groups sections} hl => ?_⟩, by rw [Table.find?_set_self]; rfl⟩
    · rw [Table.find?_set]
      split
      · next heq =>
        subst heq
        exact .inr ⟨rfl, hclips.entities _ hgroup⟩
      · exact hclips.members g
    · -- The members that were owed are loaded, and so as they are stored.
      refine (show Loaded c l₂ groups sections from { howing hl with
        members := fun {g s clip} hg hclip hlive hin => ?_ }).of_same rfl rfl rfl
      rcases (howing hl).members hg hclip hlive hin with hmem | howed
      · exact .inl hmem
      · rcases mem_cons.1 howed with rfl | howed
        · obtain ⟨s, hs⟩ := isSome_iff_exists.1 (hmembers _ (mem_groupMembers hclip hlive hin))
          obtain rfl := some.inj (((howing hl).entities hs).symm.trans (clip?_eq_some.1 hclip))
          exact .inl (clip?_eq_some.2 hs)
        · exact .inr howed

theorem ensureTarget {target : AlignmentTarget} (h : l.ensureTarget c target = .ok l') :
    Grows c l l' := by
  cases target with
  | caption => exact (ensureCaptionState h).1
  | clip => exact (ensureClipState h).1
  | timeline =>
    cases h
    exact refl l

theorem ensureTargetInput {target : AlignmentTargetInput}
    (h : l.ensureTargetInput c target = .ok l') : Grows c l l' := by
  unfold EditLoad.ensureTargetInput at h
  split at h
  · exact (ensureCaptionState h).1
  · exact (ensureClipState h).1
  · cases h
    exact refl l

theorem loadAlignmentRemapInput {targets : List AlignmentTargetInput}
    (h : l.loadAlignmentRemapInput c id targets = .ok l') : Grows c l l' := by
  simp only [EditLoad.loadAlignmentRemapInput, steps_ok] at h
  obtain ⟨_, hl₁, _, -, _, hl₂, h⟩ := h
  exact (ensureAlignmentState hl₁).1.trans ((loop (fun _ _ _ _ hk => ensureTarget hk) hl₂).trans
    (loop (fun _ _ _ _ hk => ensureTargetInput hk) h))

variable {ids : List ID}

/-- The exact alignments of an entity are read; nothing but entities is loaded for them. -/
theorem loadExactAlignments {count : AlignmentState → Nat}
    (h : l.loadExactAlignments c count = .ok (l', ids)) :
    Grows c l l' ∧ ids = exactAlignments c count ∧
      ∃ t, l' = { l with state := { l.state with entities := t } } := by
  simp only [EditLoad.loadExactAlignments, steps_ok, Prod.mk.injEq] at h
  obtain ⟨-, _, hl₁, rfl, rfl⟩ := h
  refine ⟨loop (fun _ _ _ _ hk => (ensureAlignmentState hk).1) hl₁, rfl, foldlM_invariant
    (fun k : EditLoad => ∃ t, k = { l with state := { l.state with entities := t } }) ?_
    ⟨l.state.entities, rfl⟩ hl₁⟩
  rintro id - k k' ⟨t, rfl⟩ hk
  obtain ⟨t', rfl, -⟩ := ensureEntity_ok hk
  exact ⟨t', rfl⟩

theorem loadExactNodeAlignments (h : l.loadExactNodeAlignments c id = .ok l') :
    Grows c l l' ∧ ∃ t, l' = { l with state := { l.state with
      entities := t, nodeAlignments := l.state.nodeAlignments.set id
        (exactAlignments c fun s => if s.narrativeNodeID = id then 1 else 0) } } := by
  simp only [EditLoad.loadExactNodeAlignments, steps_ok] at h
  obtain ⟨⟨_, ids⟩, hl₁, rfl⟩ := h
  obtain ⟨hgrows, rfl, t, rfl⟩ := loadExactAlignments hl₁
  exact ⟨hgrows.trans (.same rfl rfl rfl rfl rfl rfl), t, rfl⟩

theorem loadExactCaptionAlignments (h : l.loadExactCaptionAlignments c id = .ok l') :
    Grows c l l' ∧ ∃ t, l' = { l with state := { l.state with
      entities := t, captionAlignments := l.state.captionAlignments.set id
        (exactAlignments c fun s => s.targets.countP fun
          | .caption captionID .. => captionID == id
          | _ => false) } } := by
  simp only [EditLoad.loadExactCaptionAlignments, steps_ok] at h
  obtain ⟨⟨_, ids⟩, hl₁, rfl⟩ := h
  obtain ⟨hgrows, rfl, t, rfl⟩ := loadExactAlignments hl₁
  exact ⟨hgrows.trans (.same rfl rfl rfl rfl rfl rfl), t, rfl⟩

theorem loadExactClipAlignments (h : l.loadExactClipAlignments c id = .ok l') :
    Grows c l l' ∧ ∃ t, l' = { l with state := { l.state with
      entities := t, clipAlignments := l.state.clipAlignments.set id
        (exactAlignments c (clipCount id)) } } := by
  simp only [EditLoad.loadExactClipAlignments, steps_ok] at h
  obtain ⟨⟨_, ids⟩, hl₁, rfl⟩ := h
  obtain ⟨hgrows, rfl, t, rfl⟩ := loadExactAlignments hl₁
  refine ⟨hgrows.trans ⟨fun _ h => h, fun _ => .inl rfl, fun _ h => h, fun other found hfound => ?_,
    fun hl => hl.of_same rfl rfl rfl⟩, t, rfl⟩
  rcases Table.of_find?_set hfound with ⟨rfl, hstate⟩ | hfound
  · exact .inr hstate.symm
  · exact .inl hfound

/-! ## Media -/

theorem ensureSourceStreamState {assetID streamID : ID}
    (h : l.ensureSourceStreamState c m assetID streamID = .ok l') : Grows c l l' := by
  unfold EditLoad.ensureSourceStreamState at h
  split at h
  · simp only [steps_ok] at h
    obtain ⟨-, rfl⟩ := h
    exact refl l
  · simp only [steps_ok] at h
    obtain ⟨row, -, -, _, -, -, rfl⟩ := h
    exact .same rfl rfl rfl rfl rfl rfl

theorem ensureEditTranscriptArtifact {segmentIDs : List ID}
    (h : l.ensureEditTranscriptArtifact m id segmentIDs = .ok l') : Grows c l l' := by
  obtain ⟨row, -, h⟩ := bind_ok.1 h
  split at h <;> simp only [steps_ok] at h
  · obtain ⟨_, -, artifact, -, rfl⟩ := h
    exact .same rfl rfl rfl rfl rfl rfl
  · obtain ⟨_, -, _, -, _, -, rfl⟩ := h
    exact .same rfl rfl rfl rfl rfl rfl

theorem ensureSourceExcerptEvidenceStatus {value : SourceExcerptValue}
    (h : l.ensureSourceExcerptEvidenceStatus c m id value = .ok l') : Grows c l l' := by
  simp only [EditLoad.ensureSourceExcerptEvidenceStatus, steps_ok] at h
  obtain ⟨_, -, rfl⟩ := h
  exact .same rfl rfl rfl rfl rfl rfl

theorem ensureClipDependencies (h : l.ensureClipDependencies c m clip = .ok l') : Grows c l l' := by
  obtain ⟨_, hl₁, h⟩ := bind_ok.1 h
  exact (ensureTrackState hl₁).trans (ensureSourceStreamState h)

theorem mutateMember (h : l.mutateMember c m id = .ok l') :
    Grows c l l' ∧ l'.Marked ⟨.clip, id⟩ := by
  simp only [EditLoad.mutateMember, steps_ok] at h
  obtain ⟨_, hl₁, _, -, l₂, hl₂, rfl⟩ := h
  exact ⟨((ensureClipState hl₁).1.trans (ensureClipDependencies hl₂)).trans (mutateClip l₂ id),
    mem_insert_self⟩

theorem mutateMembers (h : ids.foldlM (fun l id => l.mutateMember c m id) l = .ok l') :
    Grows c l l' ∧ ∀ id ∈ ids, l'.Marked ⟨.clip, id⟩ := by
  refine ⟨loop (fun _ _ _ _ hk => (mutateMember hk).1) h, fun id hid => ?_⟩
  exact foldlM_establishes (fun l => l.Marked ⟨.clip, id⟩) hid (fun _ _ hk => (mutateMember hk).2)
    (fun _ _ _ _ hk hk' => (mutateMember hk').1.marked _ hk) h

theorem foldl_mutateClip (l : EditLoad) (ids : List ID) :
    Grows c l (ids.foldl EditLoad.mutateClip l) ∧
      ∀ id ∈ ids, (ids.foldl EditLoad.mutateClip l).Marked ⟨.clip, id⟩ := by
  induction ids generalizing l with
  | nil => exact ⟨refl l, by simp⟩
  | cons id ids ih =>
    obtain ⟨hgrows, hmarked⟩ := ih (l.mutateClip id)
    refine ⟨(mutateClip l id).trans hgrows, fun other hother => ?_⟩
    rcases mem_cons.1 hother with rfl | hother
    · exact hgrows.marked _ mem_insert_self
    · exact hmarked other hother

theorem loadDeriveCaptions {nodeID clipID : ID} {outputs : List DerivedCaptionOutputInput}
    (h : l.loadDeriveCaptions c m nodeID clipID trackID outputs = .ok l') : Grows c l l' := by
  simp only [EditLoad.loadDeriveCaptions, steps_ok] at h
  obtain ⟨_, hl₁, _, -, _, hl₂, _, hl₃, _, hl₄, _, hl₅, _, hl₆, h⟩ := h
  exact ((ensureSourceExcerptState hl₁).trans (ensureEditTranscriptArtifact hl₂)).trans
    ((loadTranscriptCorrectionOverlaps hl₃).trans ((ensureSourceStreamState hl₄).trans
      ((ensureClipState hl₅).1.trans ((ensureTrackState hl₆).trans
        (loop (fun _ _ _ _ hk => loadCaptionOverlaps hk) h)))))

theorem loadRoughCutItem {item : RoughCutDerivationItemInput}
    (h : l.loadRoughCutItem c m item = .ok l') : Grows c l l' := by
  simp only [EditLoad.loadRoughCutItem, steps_ok] at h
  obtain ⟨_, hl₁, _, -, _, hl₂, h⟩ := h
  refine (ensureSourceExcerptState hl₁).trans ((ensureSourceExcerptEvidenceStatus hl₂).trans
    (loop (fun lane _ k k' hk => ?_) h))
  obtain ⟨_, hk₁, hk⟩ := bind_ok.1 hk
  exact (ensureTrackState hk₁).trans (ensureSourceStreamState hk)

theorem loadRoughCutOutput {output : DerivedRoughCutOutputInput}
    (h : l.loadRoughCutOutput c output = .ok l') : Grows c l l' :=
  loop (fun _ _ _ _ hk => loadClipOverlaps hk) h

end Grows

end EditLoad

end OpenCut
