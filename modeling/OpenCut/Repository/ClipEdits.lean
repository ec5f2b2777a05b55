import OpenCut.Repository.TiedRuns

/-!
# Cutting clips

A clip shows, at every instant of its range on the timeline, the instant of its source that is
as far from the start of its source range (`ClipState.shows`). Cutting a clip, or all clips of a
link group, puts two halves for every clip, and what is shown stays the same (`splitClip_exact`).
This needs the ranges of a clip to be equally long, which is checked whenever a clip is stored
(`Content.Measured`).
-/

namespace OpenCut

open Outcome EntityTable List RationalTime EntityState ClipState Option

/-! ## Ranges and what clips show -/

/-- The range is cut in two at an instant. -/
structure TimeRange.CutAt (r : TimeRange) (t : ℚ) (left right : TimeRange) : Prop where
  union : left.instants ∪ right.instants = r.instants
  nonempty : left.instants.Nonempty ∧ right.instants.Nonempty
  lt : ∀ x ∈ left.instants, x < t
  le : ∀ x ∈ right.instants, t ≤ x

theorem TimeRange.CutAt.of_ends {r left right : TimeRange} {t : ℚ} (hstart : left.start = r.start)
    (hleft : r.start.toRat + left.duration.toRat = t) (hright : right.start.toRat = t)
    (hend : left.duration.toRat + right.duration.toRat = r.duration.toRat)
    (hpos : 0 < left.duration.toRat) (hpos' : 0 < right.duration.toRat) : r.CutAt t left right := by
  have hl : left.instants = Set.Ico r.start.toRat t := by rw [instants, hstart, hleft]
  have hr : right.instants = Set.Ico t (r.start.toRat + r.duration.toRat) := by
    rw [instants, hright, ← hend, ← add_assoc, hleft]
  refine ⟨?_, ⟨?_, ?_⟩, fun x hx => ?_, fun x hx => ?_⟩
  · rw [hl, hr, instants, Set.Ico_union_Ico_eq_Ico (by linarith) (by linarith)]
  · exact Set.nonempty_Ico.2 (by linarith)
  · exact Set.nonempty_Ico.2 (by linarith)
  · exact (hl ▸ hx).2
  · exact (hr ▸ hx).1

namespace ClipState

variable {c left right : ClipState} {t : ℚ}

/-- How far the clip on the timeline is ahead of its source. -/
def offset (c : ClipState) : ℚ := c.timelineRange.start.toRat - c.sourceRange.start.toRat

/-- What a live clip shows: its track, the instants of its range, and those of the source. -/
def shows (c : ClipState) : Set (ID × ℚ × ℚ) :=
  {x | c.tombstoned = false ∧ x.1 = c.trackID ∧ x.2.1 ∈ c.timelineRange.instants ∧
    x.2.1 - x.2.2 = c.offset}

/-- The halves of a clip that is cut at an instant of the timeline. -/
structure SplitInto (c : ClipState) (t : ℚ) (left right : ClipState) : Prop where
  timeline : c.timelineRange.CutAt t left.timelineRange right.timelineRange
  source : c.sourceRange.CutAt (t - c.offset) left.sourceRange right.sourceRange
  kept : ∀ half ∈ [left, right], half.offset = c.offset ∧ half.trackID = c.trackID ∧
    half.assetID = c.assetID ∧ half.sourceStreamID = c.sourceStreamID ∧ half.enabled = c.enabled ∧
    half.placement = c.placement ∧ half.tombstoned = false

/-- The clip when it is taken off the timeline. -/
def removed (c : ClipState) : ClipState := { c with revision := c.revision + 1, tombstoned := true }

theorem SplitInto.shows_eq (h : c.SplitInto t left right) (hlive : c.tombstoned = false) :
    c.shows = left.shows ∪ right.shows := by
  obtain ⟨hoffset, htrack, -, -, -, -, hleft⟩ := h.kept left (by simp)
  obtain ⟨hoffset', htrack', -, -, -, -, hright⟩ := h.kept right (by simp)
  ext x
  simp only [shows, Set.mem_union, Set.mem_ofPred_eq, hoffset, hoffset', htrack, htrack', hlive,
    hleft, hright, ← h.timeline.union]
  tauto

end ClipState

namespace EntityTable

/-- What the live clips of the table show. -/
def shown (t : EntityTable) : Set (ID × ℚ × ℚ) :=
  {x | ∃ id clip, t.clip? id = some clip ∧ x ∈ clip.shows}

theorem clip?_put (t : EntityTable) (s : ClipState) (id : ID) :
    (t.put (.clip s)).clip? id = if id = s.id then some s else t.clip? id := by
  unfold clip?
  rw [find?_put]
  by_cases hid : id = s.id <;> simp [hid, key]

theorem clip?_put_group (t : EntityTable) (s : LinkGroupState) (id : ID) :
    (t.put (.linkGroup s)).clip? id = t.clip? id := by
  unfold clip?
  rw [find?_put_ne]
  simp [key]

theorem shown_put_group (t : EntityTable) (s : LinkGroupState) :
    (t.put (.linkGroup s)).shown = t.shown := by
  simp only [shown, clip?_put_group]

/-- What is shown besides a clip that is put stays. -/
theorem shown_put (t : EntityTable) (s : ClipState) : ∃ rest,
    t.shown = (t.clip? s.id).elim ∅ ClipState.shows ∪ rest ∧
      (t.put (.clip s)).shown = s.shows ∪ rest := by
  refine ⟨{x | ∃ id clip, id ≠ s.id ∧ t.clip? id = some clip ∧ x ∈ clip.shows}, ?_, ?_⟩
  · ext x
    constructor
    · rintro ⟨id, clip, hclip, hx⟩
      by_cases hid : id = s.id
      · exact .inl (by rwa [← hid, hclip])
      · exact .inr ⟨id, clip, hid, hclip, hx⟩
    · rintro (hx | ⟨id, clip, -, hclip, hx⟩)
      · cases hclip : t.clip? s.id with
        | none => simp [hclip] at hx
        | some clip => exact ⟨s.id, clip, hclip, by simpa [hclip] using hx⟩
      · exact ⟨id, clip, hclip, hx⟩
  · ext x
    constructor
    · rintro ⟨id, clip, hclip, hx⟩
      rw [clip?_put] at hclip
      split at hclip
      · exact .inl (by rwa [some.inj hclip])
      · next hid => exact .inr ⟨id, clip, hid, hclip, hx⟩
    · rintro (hx | ⟨id, clip, hid, hclip, hx⟩)
      · exact ⟨s.id, s, by rw [clip?_put, if_pos rfl], hx⟩
      · exact ⟨id, clip, by rw [clip?_put, if_neg hid, hclip], hx⟩

end EntityTable

/-! ## What is put stays -/

namespace Balanced

variable {I : NormalizeEditInput} {n n' : EditNormalizer} {es es' : List Emission}
  {ps ps' owed owed' : List ID}

theorem find?_of_operation (h : Balanced I n es ps owed) {s : EntityState} (hs : s ∈ n.operations) :
    n.working.find? s.key = some s := by
  obtain ⟨ts, ht, -⟩ := h.trace
  rw [ht.operations] at hs
  obtain ⟨e, he, rfl⟩ := mem_map.1 hs
  rw [ht.working]
  exact find?_run_of_mem ht.nodup he

theorem operations_subset (h : Balanced I n es ps owed) (h' : Balanced I n' (es ++ es') ps' owed') :
    n.operations ⊆ n'.operations := by
  obtain ⟨ts, ht, -⟩ := h.trace
  obtain ⟨ts', ht', -⟩ := h'.trace
  rw [ht.operations, ht'.operations, map_append]
  exact subset_append_left _ _

end Balanced

/-! ## Splits -/

namespace EditNormalizer

variable {I : NormalizeEditInput} {n n' : EditNormalizer} {es : List Emission} {ps owed : List ID}
  {splitAt : RationalTime} {leftGroup rightGroup : Option ID}

theorem splitClipStates_cuts {current left right : ClipState} {output : ClipSplitOutputInput}
    (hlength : current.sourceRange.duration = current.timelineRange.duration)
    (h : splitClipStates I current splitAt output leftGroup rightGroup = .ok (left, right)) :
    current.SplitInto splitAt.toRat left right := by
  simp only [splitClipStates, newTimeRange, steps_ok, Prod.mk.injEq] at h
  obtain ⟨_, hbefore, hpos, -, _, hafter, hpos', _, hmiddle, _, ⟨-, -, rfl⟩, _, ⟨-, -,
      rfl⟩, _, ⟨-, -, rfl⟩, _, ⟨-, -, rfl⟩, _, -, _, -, rfl, rfl⟩ := h
  have hbefore := toRat_subtract hbefore
  have hafter := toRat_subtract hafter
  have hmiddle := toRat_add hmiddle
  rw [isPositive_iff] at hpos hpos'
  refine ⟨.of_ends rfl ?_ rfl ?_ hpos hpos', .of_ends rfl ?_ ?_ ?_ hpos hpos', fun half hhalf => ?_⟩
  · linarith
  · linarith
  · rw [offset]
    linarith
  · rw [offset]
    linarith
  · rw [hlength]
    linarith
  · simp only [mem_cons, not_mem_nil, or_false] at hhalf
    rcases hhalf with rfl | rfl
    · simp [offset]
    · refine ⟨?_, rfl, rfl, rfl, rfl, rfl, rfl⟩
      simp only [offset]
      linarith

/-- The halves of the clip are put, and the clip is taken off the timeline. -/
def Halved (n : EditNormalizer) (c : ClipState) (t : ℚ) (leftGroup rightGroup : Option ID) : Prop :=
  ∃ left right, c.SplitInto t left right ∧ left.linkGroupID = leftGroup ∧
    right.linkGroupID = rightGroup ∧ ∀ e ∈ [c.removed, left, right], .clip e ∈ n.operations

variable {outputs : List ClipSplitOutputInput}

theorem splitMember_cuts {c : ClipState} (hc : n.working.clip? c.id = some c)
    (hlive : c.tombstoned = false) (hlength : c.sourceRange.duration = c.timelineRange.duration)
    (h : n.splitMember I splitAt outputs leftGroup rightGroup c.id = .ok n') :
    n'.Halved c splitAt.toRat leftGroup rightGroup ∧ n'.working.shown = n.working.shown := by
  simp only [splitMember, steps_ok] at h
  obtain ⟨current, hcurrent, _, -, ⟨left, right⟩, hstates, m₁, h₁, m₂, h₂, h₃⟩ := h
  obtain rfl := mem_unique hcurrent hc
  have hsplit := splitClipStates_cuts hlength hstates
  obtain ⟨⟨-, -, -, hleft⟩, -, -, -, hright⟩ := splitClipStates_ok hstates
  obtain ⟨hworking₁, hoperations₁, -⟩ := putExistingClip_puts h₁
  obtain ⟨hnew₂, hworking₂, hoperations₂, -⟩ := putNewClip_puts h₂
  obtain ⟨hnew₃, hworking₃, hoperations₃, -⟩ := putNewClip_puts h₃
  refine ⟨⟨left, right, hsplit, hleft, hright, ?_⟩, ?_⟩
  · rw [hoperations₃, hoperations₂, hoperations₁]
    simp [removed]
  · -- The clip is replaced by nothing, and the halves come in addition.
    obtain ⟨_, hshown₁, hshown₁'⟩ := n.working.shown_put current.removed
    obtain ⟨_, hshown₂, hshown₂'⟩ := m₁.working.shown_put left
    obtain ⟨_, hshown₃, hshown₃'⟩ := m₂.working.shown_put right
    have hgone : current.removed.shows = ∅ := by
      ext x
      simp [shows, removed]
    rw [hnew₂, elim_none, Set.empty_union] at hshown₂
    rw [hnew₃, elim_none, Set.empty_union] at hshown₃
    change _ = (n.working.clip? current.id).elim _ _ ∪ _ at hshown₁
    rw [hc, elim_some, hsplit.shows_eq hlive] at hshown₁
    change m₁.working = n.working.put (.clip current.removed) at hworking₁
    rw [hworking₃, hshown₃', ← hshown₃, hworking₂, hshown₂', ← hshown₂, hworking₁, hshown₁', hgone,
      hshown₁, Set.empty_union, ← Set.union_assoc, Set.union_comm right.shows]

theorem createLinkGroup_puts {name : LocalID} {id : ID}
    (h : n.createLinkGroup I name = .ok (n', id)) : n.working.linkGroup? id = none ∧
      n'.working = n.working.put (.linkGroup { id, revision := 1, tombstoned := false }) ∧
      n'.operations = n.operations ++ [.linkGroup { id, revision := 1, tombstoned := false }] := by
  simp only [createLinkGroup, steps_ok, markTouched_ok, Prod.mk.injEq] at h
  obtain ⟨id, -, hnew, _, ⟨-, rfl⟩, rfl, rfl⟩ := h
  exact ⟨hnew, rfl, rfl⟩

variable {scope : ClipMutationScope} {leftAs rightAs : Option LocalID}

/-- The groups of the halves of a linked split are new. -/
theorem splitGroups_puts
    {left right : Option ID} (h : n.splitGroups I scope leftAs rightAs = .ok (n', left, right)) :
    n'.working.shown = n.working.shown ∧ (scope = .single → left = none ∧ right = none) ∧
      (scope = .linked → ∃ l r, left = some l ∧ right = some r ∧ l ≠ r ∧
        ∀ g ∈ [l, r], n.working.linkGroup? g = none ∧
          .linkGroup { id := g, revision := 1, tombstoned := false } ∈ n'.operations) := by
  cases scope with
  | single =>
    cases h
    exact ⟨rfl, by simp, by simp⟩
  | linked =>
    simp only [splitGroups, steps_ok, Prod.mk.injEq] at h
    obtain ⟨_, -, ⟨m, l⟩, hl, _, -, ⟨k, r⟩, hr, rfl, rfl, rfl⟩ := h
    obtain ⟨hnewL, hworkingL, hoperationsL⟩ := createLinkGroup_puts hl
    obtain ⟨hnewR, hworkingR, hoperationsR⟩ := createLinkGroup_puts hr
    rw [hworkingL] at hnewR
    have hne : l ≠ r := by
      rintro rfl
      exact absurd (linkGroup?_eq_some.2 (find?_put_self _ _)) (by rw [hnewR]; simp)
    have hold : n.working.linkGroup? r = none := by
      unfold linkGroup? at hnewR ⊢
      rwa [find?_put_ne] at hnewR
      simpa [key] using hne.symm
    refine ⟨?_, by simp, fun _ => ⟨l, r, rfl, rfl, hne, ?_⟩⟩
    · rw [hworkingR, hworkingL, shown_put_group, shown_put_group]
    · simp [hoperationsR, hoperationsL, hnewL, hold]

theorem putExistingLinkGroup_puts {id : ID} {tombstoned : Bool}
    (h : n.putExistingLinkGroup I id tombstoned = .ok n') : ∃ s : LinkGroupState,
      s.tombstoned = tombstoned ∧ n'.working = n.working.put (.linkGroup s) ∧
        n'.working.linkGroup? id = some s := by
  simp only [putExistingLinkGroup, steps_ok, markTouched_ok] at h
  obtain ⟨_, hcurrent, -, _, ⟨-, rfl⟩, -, rfl⟩ := h
  obtain rfl := id_of_linkGroup? hcurrent
  exact ⟨_, rfl, rfl, linkGroup?_eq_some.2 (find?_put_self _ _)⟩

/-- What becomes of the link group does not show. -/
theorem finishGroup_shown {g : ID} (h : n.finishGroup I scope g = .ok n') :
    n'.working.shown = n.working.shown := by
  have hgroup : ∀ {m m' : EditNormalizer} {tombstoned},
    m.putExistingLinkGroup I g tombstoned = .ok m' → m'.working.shown = m.working.shown := by
    intro m m' tombstoned hm
    obtain ⟨s, -, hworking, -⟩ := putExistingLinkGroup_puts hm
    rw [hworking, shown_put_group]
  cases scope with
  | linked => exact hgroup h
  | single =>
    simp only [finishGroup, finishSingleMembershipRemoval] at h
    split at h
    · simp only [advanceLinkGroup, steps_ok] at h
      obtain ⟨m, hm, rfl⟩ := h
      have hshown := hgroup hm
      exact hshown
    · obtain ⟨m, hm, h⟩ := bind_ok.1 h
      refine (hgroup h).trans ?_
      change m.working.shown = _
      refine foldlM_invariant (fun m : EditNormalizer => m.working.shown = n.working.shown)
        (fun id _ k k' hk hk' => ?_) rfl hm
      simp only [unlinkMember, steps_ok] at hk'
      obtain ⟨current, hcurrent, -, hput⟩ := hk'
      obtain rfl := id_of_clip? hcurrent
      obtain ⟨_, hshown, hshown'⟩ := k.working.shown_put
        { current with revision := current.revision + 1, linkGroupID := none }
      rw [(putExistingClip_puts hput).1, hshown', ← hk, hshown]
      rw [hcurrent]
      rfl

theorem Halved.mono {c : ClipState} {t : ℚ}
    (h : n.Halved c t leftGroup rightGroup) (hsub : n.operations ⊆ n'.operations) :
    n'.Halved c t leftGroup rightGroup := by
  obtain ⟨left, right, hsplit, hleft, hright, hputs⟩ := h
  exact ⟨left, right, hsplit, hleft, hright, fun e he => hsub (hputs e he)⟩

/-- The clips are cut at the instant, the left halves are in one group and the right halves in
    another, and what is shown stays the same. -/
structure Cuts (n n' : EditNormalizer) (ids : List ID) (t : ℚ) (leftGroup rightGroup : Option ID) :
    Prop where
  halves : ∀ id ∈ ids, ∃ c left right, n.working.clip? id = some c ∧ c.SplitInto t left right ∧
    left.linkGroupID = leftGroup ∧ right.linkGroupID = rightGroup ∧
    ∀ e ∈ [c.removed, left, right], n'.working.clip? e.id = some e
  shown : n'.working.shown = n.working.shown

/-- The groups of a linked split: two new ones in place of an old one. -/
def Regroups (n n' : EditNormalizer) (old left right : ID) : Prop :=
  left ≠ right ∧ (∀ g ∈ [left, right], n.working.linkGroup? g = none ∧
    n'.working.linkGroup? g = some { id := g, revision := 1, tombstoned := false }) ∧
  ∃ group, n'.working.linkGroup? old = some group ∧ group.tombstoned = true

theorem splitClip_cuts (hkeyed : I.TracksKeyed) (h : Balanced I n es ps owed)
    (hlengths : ∀ {id c}, ⟨.clip, id⟩ ∉ n.touched → n.working.clip? id = some c →
      c.sourceRange.duration = c.timelineRange.duration) {clipID : ID}
    (hop : n.splitClip I clipID scope splitAt outputs leftAs rightAs = .ok n') :
    ∃ leftGroup rightGroup,
      n.Cuts n' (scopeMembers n.working n.members clipID scope) splitAt.toRat leftGroup rightGroup ∧
      (scope = .single → leftGroup = none ∧ rightGroup = none) ∧
      (scope = .linked → ∃ old left right, n.working.groupOf clipID = some old ∧
        leftGroup = some left ∧ rightGroup = some right ∧ n.Regroups n' old left right) := by
  simp only [splitClip, steps_ok] at hop
  obtain ⟨⟨members, seed⟩, hmembers, -, ⟨m₀, left, right⟩, hgroups, k, hk, hop⟩ := hop
  obtain ⟨hseed, hperm⟩ := scopeMembers_of_ok hmembers
  have hstart := h.owe seed.linkGroupID.toList
  obtain ⟨hcreate, htouched⟩ := splitGroups_handles hstart hgroups
  obtain ⟨es₀, h₀⟩ := hcreate.emits
  let Inv := fun m : EditNormalizer => m.working.shown = n.working.shown ∧
    ∃ es', Balanced I m (es ++ es₀ ++ es') ps (seed.linkGroupID.toList ++ owed)
  have hturn : ∀ id ∈ members, ∀ m m', Inv m →
    m.splitMember I splitAt outputs left right id = .ok m' →
      (Inv m' ∧ m.operations ⊆ m'.operations) ∧
        ∃ c, n.working.clip? id = some c ∧ m'.Halved c splitAt.toRat left right := by
    rintro id hid m m' ⟨hshown, es', hm⟩ hm'
    have hes : es <+: es ++ es₀ ++ es' := (prefix_append _ _).trans (prefix_append _ _)
    obtain ⟨hhandles, c, rfl, huntouched, hc, hmc, hlive⟩ := splitMember_step hkeyed hstart hmembers
      (fun g hg => mem_append_left _ (mem_toList.2 hg)) hes hm
      (fun g hg => h₀.touched_mono hm (prefix_append _ _) (htouched g hg)) hid hm'
    obtain ⟨es'', h''⟩ := hhandles.emits
    have huntouched := fun hmem => huntouched (hstart.touched_mono hm hes hmem)
    obtain ⟨hhalved, hshown'⟩ := splitMember_cuts hmc hlive (hlengths huntouched hc) hm'
    exact ⟨⟨⟨hshown'.trans hshown, es' ++ es'', by rwa [← append_assoc]⟩, hm.operations_subset h''⟩,
      c, hc, hhalved⟩
  obtain ⟨hshown₀, hsingle, hlinked⟩ := splitGroups_puts hgroups
  -- The loop, and what becomes of the old group.
  have hinv₀ : Inv m₀ := ⟨hshown₀, [], by rwa [append_nil]⟩
  obtain ⟨hshown, es₁, h₁⟩ := foldlM_invariant Inv
    (fun id hid m m' hm hm' => (hturn id hid m m' hm hm').1.1) hinv₀ hk
  obtain ⟨es₂, h₂, hshown₂⟩ : ∃ es₂, Balanced I n' (es ++ es₀ ++ es₁ ++ es₂) ps owed ∧
      n'.working.shown = k.working.shown := by
    cases hgroup : seed.linkGroupID with
    | none =>
      simp only [hgroup, steps_ok] at hop
      obtain ⟨-, rfl⟩ := hop
      exact ⟨[], by simpa [hgroup] using h₁, rfl⟩
    | some g =>
      simp only [hgroup] at hop
      rw [hgroup] at h₁
      obtain ⟨es₂, h₂⟩ := finishGroup_emits h₁ hop
      exact ⟨es₂, h₂, finishGroup_shown hop⟩
  have hput : ∀ {s}, s ∈ k.operations → n'.working.find? s.key = some s := fun hs =>
    h₂.find?_of_operation (h₁.operations_subset h₂ hs)
  refine ⟨left, right, ⟨fun id hid => ?_, hshown₂.trans hshown⟩, hsingle, fun hscope => ?_⟩
  · obtain ⟨c, hc, l, r, hsplit, hl, hr, hputs⟩ : ∃ c, n.working.clip? id = some c ∧
        k.Halved c splitAt.toRat left right := by
      refine foldlM_establishes_under Inv _ (hperm.mem_iff.2 hid) hinv₀
        (fun m m' hm hm' => (hturn id (hperm.mem_iff.2 hid) m m' hm hm').2)
        (fun x hx m m' hm hm' => ?_) hk
      refine ⟨(hturn x hx m m' hm hm').1.1, ?_⟩
      rintro ⟨c, hc, hhalved⟩
      exact ⟨c, hc, hhalved.mono (hturn x hx m m' hm hm').1.2⟩
    exact ⟨c, l, r, hc, hsplit, hl, hr, fun e he => clip?_eq_some.2 (hput (hputs e he))⟩
  · obtain ⟨l, r, rfl, rfl, hne, hnew⟩ := hlinked hscope
    subst hscope
    cases hgroup : seed.linkGroupID with
    | none =>
      simp only [hgroup, steps_ok] at hop
      obtain ⟨hop, -⟩ := hop
      cases hop
    | some g =>
      simp only [hgroup] at hop
      obtain ⟨group, hdead, -, hfind⟩ := putExistingLinkGroup_puts hop
      refine ⟨g, l, r, by rw [groupOf, hseed, bind_some, hgroup], rfl, rfl, hne,
        fun g' hg' => ⟨(hnew g' hg').1, ?_⟩, group, hfind, hdead⟩
      exact linkGroup?_eq_some.2 (hput (h₀.operations_subset h₁ (hnew g' hg').2))

end EditNormalizer

/-! ## Stored clips -/

/-- The two ranges of every stored clip are equally long. -/
def Content.Measured (c : Content) : Prop :=
  ∀ id s, c.entities.clip? id = some s → s.sourceRange.duration = s.timelineRange.duration

theorem Content.Measured.write {c c' : Content} (h : c.Measured) (hwrite : c.Write c') :
    c'.Measured := by
  have hput : ∀ {s : EntityState}, (∀ clip, s = .clip clip →
      clip.sourceRange.duration = clip.timelineRange.duration) →
      Measured { c with entities := c.entities.put s } := by
    intro s hs id clip hclip
    rw [clip?_eq_some, find?_put] at hclip
    split at hclip
    · exact hs clip (some.inj hclip)
    · exact h id clip (clip?_eq_some.2 hclip)
  cases hwrite with
  | @put _ changes s happly =>
    rcases applyPut_cases happly with ⟨_, _, -, -, rfl⟩ | ⟨-, -, -, rfl⟩
    · exact h
    · refine hput fun clip hclip => ?_
      have hkey := congrArg key hclip
      rw [key_storedOver] at hkey
      cases s with
      | clip s =>
        have hsame : EntityState.storedOver (c.entities.find? (EntityState.clip s).key) (.clip s) =
            .clip s := by
          cases c.entities.find? (EntityState.clip s).key with
          | none => rfl
          | some old => cases old <;> rfl
        rw [hsame] at hclip
        cases hclip
        simp only [applyPut, applyClip, steps_ok] at happly
        obtain ⟨-, ⟨-, hlength, -⟩, -⟩ := happly
        exact hlength
      | _ => cases hkey
  | aggregate hchange =>
    rcases (applyAggregateRevision_cases hchange).2 with ⟨-, rfl⟩ | ⟨-, rfl⟩ | ⟨row, -, -, rfl⟩ |
      ⟨row, -, -, rfl⟩ <;> exact h
  | register => exact hput (by simp)
  | identify => exact hput (by simp)

/-- In every run, the ranges of stored clips stay equally long. -/
theorem Project.measured_of_reaches [Uniseg] {allowed : Project → Request → Prop} {p p' : Project}
    (h : Project.Reaches allowed p p') (hp : p.content.Measured) : p'.content.Measured :=
  h.invariant (fun p => p.content.Measured) (fun _ _ _ _ hp hserve =>
    (Project.writes_of_serve hserve).invariant Content.Measured (fun _ _ => Content.Measured.write)
      hp) hp

/-- In every run of a project whose clips are measured: whatever a request has done so far, the
    clips that it has not touched are measured. -/
theorem measured_of_done [Uniseg] {p₀ p : Project} (hp₀ : p₀.content.Measured)
    (hrun : Project.Reaches (fun _ _ => True) p₀ p) {I : NormalizeEditInput}
    (hload : loadEditNormalizationState p.revision p.content p.media I.input = .ok I.state)
    {n₀ n : EditNormalizer} (hn₀ : newEditNormalizer I = .ok n₀) {done : List EditOperationInput}
    (hdone : done.foldlM (fun n op => n.normalizeEntityOperation I op) n₀ = .ok n) :
    I.TracksKeyed ∧ ∃ es ps, Balanced I n es ps [] ∧ ∀ {id c}, ⟨.clip, id⟩ ∉ n.touched →
      n.working.clip? id = some c → c.sourceRange.duration = c.timelineRange.duration := by
  have hkeyed := tracksKeyed_of_load hload
  obtain ⟨es, ps, hbalanced⟩ : ∃ es ps, Balanced I n es ps [] := by
    refine foldlM_invariant (fun n => ∃ es ps, Balanced I n es ps []) (fun op _ m m' hm hm' => ?_)
      ⟨[], [], EditNormalizer.newEditNormalizer_balanced hn₀⟩ hdone
    obtain ⟨es, ps, hm⟩ := hm
    obtain ⟨es', hm'⟩ := EditNormalizer.normalizeEntityOperation_emits hkeyed hm hm'
    exact ⟨_, _, hm'⟩
  refine ⟨hkeyed, es, ps, hbalanced, fun {id c} huntouched hc => ?_⟩
  -- A clip that is not touched is as it is stored.
  obtain ⟨l, hl, hloaded⟩ := loaded_of_loadEditNormalizationState hload
  rw [clip?_eq_some, hbalanced.find?_of_untouched huntouched, NormalizeEditInput.base, ← hl] at hc
  exact Project.measured_of_reaches hrun hp₀ id c (clip?_eq_some.2 (hloaded.entities hc))

/-! ## The result -/

/-- In every run of a project whose clips are measured, such as a new one: whatever a request has
    done so far, a split that it then makes cuts every clip that it acts on, the clip it names or
    all members of its link group, exactly at the instant. -/
theorem splitClip_exact [Uniseg] {p₀ p : Project} (hp₀ : p₀.content.Measured)
    (hrun : Project.Reaches (fun _ _ => True) p₀ p) {I : NormalizeEditInput}
    (hload : loadEditNormalizationState p.revision p.content p.media I.input = .ok I.state)
    {n₀ n n' : EditNormalizer} (hn₀ : newEditNormalizer I = .ok n₀) {done : List EditOperationInput}
    (hdone : done.foldlM (fun n op => n.normalizeEntityOperation I op) n₀ = .ok n) {clipID : ID}
    {scope : ClipMutationScope} {splitAt : RationalTime} {outputs : List ClipSplitOutputInput}
    {leftAs rightAs : Option LocalID}
    (hop : n.splitClip I clipID scope splitAt outputs leftAs rightAs = .ok n') :
    ∃ leftGroup rightGroup,
      n.Cuts n' (scopeMembers n.working n.members clipID scope) splitAt.toRat leftGroup rightGroup ∧
      (scope = .single → leftGroup = none ∧ rightGroup = none) ∧
      (scope = .linked → ∃ old left right, n.working.groupOf clipID = some old ∧
        leftGroup = some left ∧ rightGroup = some right ∧ n.Regroups n' old left right) := by
  obtain ⟨hkeyed, es, ps, hbalanced, hlengths⟩ := measured_of_done hp₀ hrun hload hn₀ hdone
  exact EditNormalizer.splitClip_cuts hkeyed hbalanced hlengths hop

/-- The clips of a new project are measured: there are none. -/
theorem Content.Measured.genesis (ids : GenesisIDs) (createdAt : Nat) :
    (genesis ids createdAt).content.Measured := by
  intro id s hs
  simp [OpenCut.genesis, genesisContent] at hs

/-- The instant half a second after the start. -/
def sampleInstant : RationalTime := (RationalTime.new? 1 2).getD 0

/-- The first of the linked clips of `sampleGroup` is cut in the middle. -/
def sampleCut : EditProposeInput where
  requestID := ['s']
  intent := ['x']
  baseProjectRevision := 4
  preconditions := [⟨⟨.clip, 20⟩, 2⟩, ⟨⟨.clip, 21⟩, 2⟩, ⟨⟨.linkGroup, 22⟩, 1⟩, ⟨⟨.track, 4⟩, 2⟩]
  operations := [.splitClip 20 .single sampleInstant [⟨20, ['l'], ['r']⟩] none none]

/-- The request of the creator, with the state that is loaded for it. -/
def sampleNormalization (allocation : List LocalAllocation) (input : EditProposeInput)
    (state : EditNormalizationState) : NormalizeEditInput where
  proposalID := 500
  runID := none
  turnID := none
  actor := .creator 9
  allocation
  input
  state

theorem splitClip_exact_sample : ∃ p I n n', sampleAfter sampleGroup = some p ∧
    newEditNormalizer I = .ok n ∧
    n.splitClip I 20 .single sampleInstant [⟨20, ['l'], ['r']⟩] none none = .ok n' ∧
    n.Cuts n' [20] sampleInstant.toRat none none := by
  let I := sampleNormalization [⟨['l'], .clip, 30⟩, ⟨['r'], .clip, 31⟩] sampleCut
  obtain ⟨p, hp, state, hload, n, hn, n', hn'⟩ : ∃ p, sampleAfter sampleGroup = some p ∧
      ∃ state, loadEditNormalizationState p.revision p.content p.media sampleCut = .ok state ∧
        ∃ n, newEditNormalizer (I state) = .ok n ∧
          ∃ n', n.splitClip (I state) 20 .single sampleInstant [⟨20, ['l'], ['r']⟩] none none =
            .ok n' := by
    decide +kernel
  let _ := runeClusters
  have hdone : [].foldlM (fun n op => n.normalizeEntityOperation (I state) op) n = .ok n := rfl
  obtain ⟨_, _, hcuts, hgroups, -⟩ := splitClip_exact (Content.Measured.genesis _ _)
    (Machine.Reaches.of_play hp) hload hn hdone hn'
  obtain ⟨rfl, rfl⟩ := hgroups rfl
  exact ⟨p, I state, n, n', hp, hn, hn', hcuts⟩

end OpenCut
