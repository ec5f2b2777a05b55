import OpenCut.Repository.Discipline

/-!
# Alignments of what a request changes

An exact alignment whose node, captions or clips a request puts has to be remapped, marked stale or
unbound by the request. What the request puts can be read off its operations and the stored content
(`RequestActed`). The check at the end of normalization takes any entry for the alignment as a
decision, and setting the placement of a clip makes an entry for every alignment on the clip: under
its cover the request may put the node or another clip of the alignment. Apart from that every
alignment is decided (`dependents_decided`).
-/

namespace OpenCut

open Outcome EntityTable EditNormalizer List EditLoad EditOperationInput Option
open EditLoad (groupMembers)

variable {t : EntityTable}

theorem EntityTable.clip?_eq_none {id : ID} : t.clip? id = none ↔ t.find? ⟨.clip, id⟩ = none := by
  unfold clip?
  cases hfind : t.find? ⟨.clip, id⟩ with
  | none => simp
  | some s =>
    have hkey := key_of_find? hfind
    cases s with
    | clip s => simp
    | _ => cases hkey

/-- The live members of a loaded group are those stored. -/
theorem Provided.liveIn {c : Content} {I : NormalizeEditInput} (h : Provided c I) {g : ID}
    {s : LinkGroupState} (hs : I.base.linkGroup? g = some s) (id : ID) :
    I.base.liveIn g id = c.entities.liveIn g id := by
  unfold EntityTable.liveIn
  cases hbase : I.base.clip? id with
  | some clip =>
    have hstored : c.entities.clip? id = some clip :=
      clip?_eq_some.2 (h.loaded (clip?_eq_some.1 hbase))
    rw [hstored]
  | none =>
    cases hstored : c.entities.clip? id with
    | none => rfl
    | some clip =>
      -- A live member of a loaded group would be loaded.
      obtain rfl := id_of_clip? hstored
      rw [any_none, any_some, eq_comm, Bool.and_eq_false_imp]
      intro hlive
      rw [beq_eq_false_iff_ne]
      intro hin
      have hloaded := h.members hs hstored (by simpa using hlive) hin
      rw [hbase] at hloaded
      cases hloaded

namespace EditNormalizer

variable {c : Content} {I : NormalizeEditInput} {n n' : EditNormalizer} {es : List Emission}
  {ps : List ID}

/-! ## What operations act on, in the stored content -/

/-- A loaded link group that is required at its revision has not been touched. -/
theorem group_untouched (h : Balanced I n es ps []) {g : ID}
    (hloaded : (I.base.linkGroup? g).isSome)
    {s : LinkGroupState} (hs : n.working.linkGroup? g = some s)
    (hrequire : I.Requires ⟨.linkGroup, g⟩ s.revision) : ⟨.linkGroup, g⟩ ∉ n.touched := by
  intro htouched
  obtain ⟨e, he, hkey⟩ := mem_map.1 (h.settled _ htouched)
  obtain ⟨ts, ht, -⟩ := h.trace
  have hafter : e.after = .linkGroup s := by
    have hfind := find?_run_of_mem (t := I.base) ht.nodup he
    rw [← ht.working, hkey, linkGroup?_eq_some.1 hs] at hfind
    exact (some.inj hfind).symm
  obtain ⟨done, hlicensed, hnew⟩ := ht.exists_licensed he
  obtain ⟨_, _, _, _⟩ := e
  subst hafter
  have hid : s.id = g := congrArg EntityKey.id hkey
  subst hid
  cases hlicensed with
  | newGroup _ hnone =>
    have hbase : (I.base.run done).linkGroup? s.id = I.base.linkGroup? s.id := by
      unfold linkGroup?
      rw [find?_run_of_not_mem (k := ⟨.linkGroup, s.id⟩) hnew]
    rw [← hbase, hnone] at hloaded
    cases hloaded
  | changeGroup _ _ hrequired =>
    have hrevision := mem_unique hrequired hrequire
    exact absurd hrevision (Nat.ne_of_lt (Nat.lt_succ_self _))

/-- The live members of a group that has not been touched are those loaded. -/
theorem liveIn_of_untouched (h : Balanced I n es ps []) {g : ID} (hg : ⟨.linkGroup, g⟩ ∉ n.touched)
    (id : ID) : n.working.liveIn g id = I.base.liveIn g id := by
  have hlive : ∀ t : EntityTable, t.liveIn g id = true ↔
      (t.find? ⟨.clip, id⟩).bind (·.group?) = some g := by
    intro t
    unfold liveIn clip?
    cases hfind : t.find? ⟨.clip, id⟩ with
    | none => simp
    | some s =>
      have hkey := key_of_find? hfind
      cases s with
      | clip s => cases htombstoned : s.tombstoned <;> simp [EntityState.group?, htombstoned]
      | _ => cases hkey
  obtain ⟨ts, ht, -⟩ := h.trace
  rw [Bool.eq_iff_iff, hlive, hlive]
  by_cases hclip : ⟨.clip, id⟩ ∈ n.touched
  · -- A put that takes the clip into the group or out of it puts the group.
    obtain ⟨e, he, hkey⟩ := mem_map.1 (h.settled _ hclip)
    have hregroups : ¬e.Regroups g := by
      intro hre
      rcases h.groups e he g hre with hmem | hmem
      · obtain ⟨d, hd, hdkey⟩ := mem_map.1 hmem
        exact hg (hdkey ▸ ht.touched d hd)
      · exact absurd hmem not_mem_nil
    have hafter := find?_run_of_mem (t := I.base) ht.nodup he
    rw [← ht.working, hkey] at hafter
    have hbefore : I.base.find? ⟨.clip, id⟩ = e.before := by
      cases hb : e.before with
      | some b => exact hkey ▸ (ht.loaded_of_before he hb).1
      | none =>
        obtain ⟨_, hlicensed, hnew⟩ := ht.exists_licensed he
        obtain ⟨_, _, _, _⟩ := e
        subst hb
        cases hlicensed with
        | newClip _ hnone =>
          cases hkey
          exact (find?_run_of_not_mem hnew).symm.trans (clip?_eq_none.1 hnone)
        | insertNode | newCaption | newGroup | newCorrection | newAlignment => cases hkey
    rw [hafter, hbefore]
    exact (not_not.1 hregroups).symm
  · rw [ht.find?_of_untouched hclip]

/-- What an operation on clips has checked of the group of the clip that it names. -/
theorem group_of_clipMutationMembers {clipID : ID} {scope : ClipMutationScope}
    {membershipChange : Bool} {members : List ID} {seed : ClipState}
    (h : n.clipMutationMembers I clipID scope membershipChange = .ok (members, seed)) :
    clipID ∈ scopeMembers n.working n.members clipID scope ∧
      ∀ g, n.working.groupOf clipID = some g → (scope = .linked ∨ membershipChange = true) →
        ∃ s, n.working.linkGroup? g = some s ∧ I.Requires ⟨.linkGroup, g⟩ s.revision := by
  have hseed := (scopeMembers_of_ok h).1
  have hgroup : n.working.groupOf clipID = seed.linkGroupID := by rw [groupOf, hseed]; rfl
  simp only [clipMutationMembers, steps_ok] at h
  obtain ⟨s, hs, -, -, h⟩ := h
  obtain rfl := mem_unique hseed hs
  cases scope with
  | single =>
    refine ⟨mem_cons_self, fun g hg hchange => ?_⟩
    rw [hgroup] at hg
    simp only [hg, hchange.resolve_left (by simp), if_true, steps_ok] at h
    obtain ⟨group, hfind, -, hrequire, -⟩ := h
    have hid := id_of_linkGroup? hfind
    exact ⟨group, hfind, hid ▸ I.requires_of_ok hrequire⟩
  | linked =>
    simp only [steps_ok] at h
    obtain ⟨g, hg, group, hfind, -, hrequire, -, hmem, -⟩ := h
    have hid := id_of_linkGroup? hfind
    rw [id_of_clip? hseed] at hmem
    refine ⟨?_, fun g' hg' _ => ?_⟩
    · rw [scopeMembers, hgroup, hg]
      exact hmem
    · obtain rfl := mem_unique hg (hgroup.symm.trans hg')
      exact ⟨group, hfind, hid ▸ I.requires_of_ok hrequire⟩

section

variable (hprov : Provided c I) (h : Balanced I n es ps [])
  (hmembers : ∀ g, ⟨.linkGroup, g⟩ ∉ n.touched → n.members g = I.members g)
include hprov h hmembers

/-- The clips that an operation acts on are those stored. -/
theorem scope_stored {clipID : ID} {scope : ClipMutationScope} {membershipChange : Bool}
    {members : List ID} {seed : ClipState}
    (hok : n.clipMutationMembers I clipID scope membershipChange = .ok (members, seed))
    (hfresh : ⟨.clip, clipID⟩ ∉ n.touched)
    (hgroups : ∀ g, c.entities.groupOf clipID = some g →
      (scope = .linked ∨ membershipChange = true) →
      I.members g = groupMembers c g ∧ (I.base.linkGroup? g).isSome) :
    scopeMembers n.working n.members clipID scope =
        scopeMembers c.entities (groupMembers c) clipID scope ∧
      (membershipChange = true → leftBehind n.working n.members clipID scope =
        leftBehind c.entities (groupMembers c) clipID scope) := by
  have hseed := (scopeMembers_of_ok hok).1
  have hstored : c.entities.clip? clipID = some seed := by
    have hload : c.load? ⟨.clip, clipID⟩ = some (.clip seed) := by
      refine hprov.loaded ?_
      rw [← h.find?_of_untouched hfresh]
      exact clip?_eq_some.1 hseed
    exact clip?_eq_some.2 hload
  have hgroup : n.working.groupOf clipID = c.entities.groupOf clipID := by
    rw [groupOf, groupOf, hseed, hstored]
  -- The group has not been touched, so that its members are those stored.
  have huntouched : ∀ g, c.entities.groupOf clipID = some g →
    (scope = .linked ∨ membershipChange = true) →
      ⟨.linkGroup, g⟩ ∉ n.touched ∧ n.members g = groupMembers c g := by
    intro g hg hchange
    obtain ⟨s, hs, hrequire⟩ := (group_of_clipMutationMembers hok).2 g (hgroup.trans hg) hchange
    obtain ⟨hstoredMembers, hloaded⟩ := hgroups g hg hchange
    have hg := group_untouched h hloaded hs hrequire
    exact ⟨hg, (hmembers g hg).trans hstoredMembers⟩
  constructor
  · cases scope with
    | single => rfl
    | linked =>
      rw [scopeMembers, scopeMembers, hgroup]
      cases hg : c.entities.groupOf clipID with
      | none => rfl
      | some g => exact (huntouched g hg (.inl rfl)).2
  · intro hchange
    cases scope with
    | linked => rfl
    | single =>
      rw [leftBehind, leftBehind, hgroup]
      cases hg : c.entities.groupOf clipID with
      | none => rfl
      | some g =>
        obtain ⟨huntouched, hmembers⟩ := huntouched g hg (.inr hchange)
        obtain ⟨s, hs⟩ := isSome_iff_exists.1 (hgroups g hg (.inr hchange)).2
        have hothers : otherMembers n.working n.members clipID g =
            otherMembers c.entities (groupMembers c) clipID g := by
          rw [otherMembers, otherMembers, hmembers]
          refine filter_congr fun id _ => ?_
          rw [liveIn_of_untouched h huntouched, hprov.liveIn hs]
        simp only [elim_some, hothers]

section

variable [Uniseg]

/-- What an operation acts on can be read off the stored content. -/
theorem acts_stored {op : EditOperationInput} (hop : op ∈ I.input.operations)
    (hok : n.normalizeEntityOperation I op = .ok n') :
    op.acts n.working n.members = op.acts c.entities (groupMembers c) := by
  have hgroups := hprov.groups op hop
  -- The clip that the operation names is one of those it acts on.
  have hclip : op.places = none → ∀ id, ⟨.clip, id⟩ ∈ op.acts n.working n.members →
      ⟨.clip, id⟩ ∉ n.touched :=
    fun hplaces id hid =>
      ((normalizeEntityOperation_handles hprov.tracks h hplaces hok).act h).fresh _ hid
  cases op with
  | moveClip clipID scope | trimClip clipID =>
    simp only [normalizeEntityOperation, moveClip, trimClip, bind_ok] at hok
    obtain ⟨⟨members, seed⟩, hmutation, -⟩ := hok
    obtain ⟨hmem, -⟩ := group_of_clipMutationMembers hmutation
    refine congrArg clipKeys (scope_stored hprov h hmembers hmutation
      (hclip rfl clipID (mem_clipKeys.2 ⟨clipID, hmem, rfl⟩)) fun g hg hchange => hgroups g ?_).1
    obtain rfl := hchange.resolve_right (by simp)
    exact mem_toList.2 hg
  | splitClip clipID scope | removeClip clipID =>
    simp only [normalizeEntityOperation, splitClip, removeClip, bind_ok] at hok
    obtain ⟨⟨_, _⟩, hmutation, -⟩ := hok
    obtain ⟨hmem, -⟩ := group_of_clipMutationMembers hmutation
    obtain ⟨hscope, hleft⟩ := scope_stored hprov h hmembers hmutation
      (hclip rfl clipID (mem_clipKeys.2 ⟨clipID, mem_append_left _ hmem, rfl⟩))
      fun g hg _ => hgroups g (mem_toList.2 hg)
    rw [acts, hscope, hleft rfl]
    rfl
  | unlinkClips g =>
    simp only [normalizeEntityOperation, unlinkClips, steps_ok] at hok
    obtain ⟨s, hs, -, hrequire, -⟩ := hok
    obtain ⟨hstored, hloaded⟩ := hgroups g mem_cons_self
    exact congrArg clipKeys ((hmembers g (group_untouched h hloaded hs
      (I.requires_of_ok hrequire))).trans hstored)
  | _ => rfl

end

end

end EditNormalizer

variable {k : EntityKey}

/-- What operations act on, alignments are anchored at. -/
theorem EditOperationInput.anchors_of_acts {op : EditOperationInput}
    {members : ID → List ID} (h : k ∈ op.acts t members) : k.kind.anchors = true := by
  have hclips : ∀ {ids : List ID}, k ∈ clipKeys ids → k.kind.anchors = true := by
    intro ids hk
    obtain ⟨id, -, rfl⟩ := mem_clipKeys.1 hk
    rfl
  cases op with
  | updateNarrativeNode | moveNarrativeNode | removeNarrativeNode | updateCaption | removeCaption =>
    rw [mem_singleton.1 h]
    rfl
  | moveClip | trimClip | splitClip | removeClip | linkClips | unlinkClips => exact hclips h
  | _ => exact absurd h not_mem_nil

/-- The operation sets the placement of the clip. -/
def EditOperationInput.Places (op : EditOperationInput) (k : EntityKey) : Prop :=
  ∃ id, op.places = some id ∧ k = ⟨.clip, id⟩

/-- The puts and decisions of a normalizer after the operations `done`, read off these and the
    stored content. -/
structure RequestActed (c : Content) (I : NormalizeEditInput) (done : List EditOperationInput)
    (n : EditNormalizer) : Prop where
  balanced : ∃ es ps, Balanced I n es ps []
  members : ∀ g, ⟨.linkGroup, g⟩ ∉ n.touched → n.members g = I.members g
  puts : ∀ k, k.kind.anchors → ((∃ change ∈ n.changes, change.key = k ∧ change.before.isSome) ↔
    ∃ op ∈ done, k ∈ op.acts c.entities (groupMembers c) ∨ op.Places k)
  apart : ∀ op ∈ done, ∀ k ∈ op.acts c.entities (groupMembers c), ∀ op' ∈ done, ¬op'.Places k
  effects : ∀ x, (n.alignmentEffects.find? x).isSome → ∃ op ∈ done, ∃ id, op.places = some id ∧
    x ∈ (I.state.clipAlignments.find? id).getD []

namespace RequestActed

variable {c : Content} {I : NormalizeEditInput} {n n' : EditNormalizer}
  {done : List EditOperationInput}

/-- What has been put has been touched. -/
theorem touched (h : RequestActed c I done n) {k : EntityKey} (hanchors : k.kind.anchors = true)
    (hk : ∃ op ∈ done, k ∈ op.acts c.entities (groupMembers c) ∨ op.Places k) :
    k ∈ n.touched := by
  obtain ⟨_, hchange, rfl, -⟩ := (h.puts k hanchors).2 hk
  obtain ⟨es, ps, hbalanced⟩ := h.balanced
  obtain ⟨ts, ht, -⟩ := hbalanced.trace
  rw [ht.changes] at hchange
  obtain ⟨e, he, rfl⟩ := mem_map.1 hchange
  exact ht.touched e he

variable {op : EditOperationInput}

/-- An operation that puts `keys` and decides `ids`. -/
theorem grow (h : RequestActed c I done n) (hbalanced : ∃ es ps, Balanced I n' es ps [])
    {m : EditNormalizer}
    {ids : List ID} {keys : List EntityKey} (hdecides : n.Decides m ids) (hact : m.Act n' keys)
    (hkeys : ∀ k, k ∈ keys ↔ k ∈ op.acts c.entities (groupMembers c) ∨ op.Places k)
    (hone : ∀ k ∈ op.acts c.entities (groupMembers c), ¬op.Places k)
    (hids : ∀ x ∈ ids, ∃ id, op.places = some id ∧ x ∈ (I.state.clipAlignments.find? id).getD []) :
    RequestActed c I (done ++ [op]) n' := by
  have hfresh : ∀ k, k.kind.anchors = true →
      (∃ op ∈ done, k ∈ op.acts c.entities (groupMembers c) ∨ op.Places k) → k ∉ keys := by
    intro k hanchors hk hmem
    refine hact.fresh k hmem ?_
    rw [hdecides.touched]
    exact h.touched hanchors hk
  refine ⟨hbalanced, fun g hg => ?_, fun k hk => ?_, fun op₁ hop₁ k hk op₂ hop₂ hplaces => ?_,
    fun x hx => ?_⟩
  · have hgm : ⟨.linkGroup, g⟩ ∉ n.touched := fun hmem =>
      hg (hact.touched (by rwa [hdecides.touched]))
    rw [hact.members g hg, ← h.members g hgm, EditNormalizer.members, hdecides.members]
    rfl
  · obtain ⟨cs, hcs, hcs'⟩ := hact.changes
    have hnew := (hcs' k hk).trans (hkeys k)
    rw [hcs, hdecides.changes]
    simp only [mem_append, or_and_right, exists_or, h.puts k hk, hnew, mem_singleton,
      exists_eq_left]
  · have hanchors := anchors_of_acts hk
    rw [mem_append, mem_singleton] at hop₁ hop₂
    rcases hop₁ with hop₁ | rfl <;> rcases hop₂ with hop₂ | rfl
    · exact h.apart op₁ hop₁ k hk op₂ hop₂ hplaces
    · exact hfresh k hanchors ⟨op₁, hop₁, .inl hk⟩ ((hkeys k).2 (.inr hplaces))
    · exact hfresh k hanchors ⟨op₂, hop₂, .inr hplaces⟩ ((hkeys k).2 (.inl hk))
    · exact hone k hk hplaces
  · rw [hact.effects] at hx
    rcases hdecides.effects x hx with hx | hx
    · obtain ⟨op', hop', hx⟩ := h.effects x hx
      exact ⟨op', mem_append_left _ hop', hx⟩
    · exact ⟨op, mem_append_right _ mem_cons_self, hids x hx⟩

variable [Uniseg]

/-- One operation on entities. -/
theorem step (hprov : Provided c I) (h : RequestActed c I done n)
    (hop : op ∈ I.input.operations) (hok : n.normalizeEntityOperation I op = .ok n') :
    RequestActed c I (done ++ [op]) n' := by
  obtain ⟨es, ps, hbalanced⟩ := h.balanced
  obtain ⟨es', hbalanced'⟩ := normalizeEntityOperation_emits hprov.tracks hbalanced hok
  cases hplaces : op.places with
  | none =>
    have hact := (normalizeEntityOperation_handles hprov.tracks hbalanced hplaces hok).act hbalanced
    rw [acts_stored hprov hbalanced h.members hop hok] at hact
    have hnot : ∀ k, ¬op.Places k := by
      rintro k ⟨id, hid, -⟩
      cases hplaces.symm.trans hid
    exact h.grow ⟨_, _, hbalanced'⟩ (.refl n []) hact (fun k => by simp [hnot k])
      (fun k _ => hnot k) (by simp)
  | some id =>
    cases op with
    | setClipPlacement clipID =>
      obtain ⟨-, m, hdecides, hact⟩ := setClipPlacement_handled hprov.tracks hbalanced hok
      refine h.grow ⟨_, _, hbalanced'⟩ hdecides hact (fun k => ?_)
        (fun k hk => absurd hk not_mem_nil) fun x hx => ⟨clipID, rfl, hx⟩
      simp [acts, EditOperationInput.Places, places]
    | _ => cases hplaces

/-- The operations on entities of a request. -/
theorem of_operations (hprov : Provided c I) (hn : newEditNormalizer I = .ok n)
    (h : I.input.operations.foldlM (fun n op => n.normalizeEntityOperation I op) n = .ok n') :
    RequestActed c I I.input.operations n' := by
  have hstart : RequestActed c I [] n := by
    have hbalanced := newEditNormalizer_balanced hn
    simp only [newEditNormalizer, steps_ok] at hn
    obtain ⟨-, rfl⟩ := hn
    exact ⟨⟨[], [], hbalanced⟩, fun g _ => rfl, by simp, by simp, by simp⟩
  have hrun := foldlM_progress (fun done n => (∀ op ∈ done, op ∈ I.input.operations) →
    RequestActed c I done n)
    (fun done op n n' hn hn' hdone => ?_) (fun _ => hstart) h
  · exact hrun fun _ hop => hop
  · exact (hn fun op' hop' => hdone op' (mem_append_left _ hop')).step hprov
      (hdone op (mem_append_right _ mem_cons_self)) hn'

end RequestActed

/-! ## The request -/

variable (input : EditProposeInput)

/-- The request decides the alignment. -/
def EditProposeInput.Decides (x : ID) : Prop := ∃ op ∈ input.operations, op.decides = some x

/-- The request sets the placement of the clip. -/
def EditProposeInput.Places (k : EntityKey) : Prop := ∃ op ∈ input.operations, op.Places k

/-- The proposal puts an entity that is there. -/
def EditProposal.PutsStored (proposal : EditProposal) (k : EntityKey) : Prop :=
  (∃ s, .put s ∈ proposal.operations ∧ s.key = k) ∧
    ∃ change ∈ proposal.changes, change.key = k ∧ change.before.isSome

/-- The changes of what is put are those on record. -/
theorem putsStored_iff {I : NormalizeEditInput} {n : EditNormalizer} {es : List Emission}
    {ps ts : List ID} (ht : Trace I n es ps ts) (hk : k.kind.anchors = true) :
    (n.proposal I).PutsStored k ↔ ∃ change ∈ n.changes, change.key = k ∧ change.before.isSome := by
  have hoperations : (n.proposal I).operations = n.operations.map .put := rfl
  have hchanges : (n.proposal I).changes = sortChanges (n.changes ++ n.aggregateChanges) := rfl
  rw [EditProposal.PutsStored, hoperations, hchanges, sortChanges, ht.operations]
  simp only [mem_insertionSort, List.mem_map, mem_append]
  constructor
  · rintro ⟨⟨s, ⟨_, ⟨e, he, rfl⟩, hput⟩, hkey⟩, change, hchange | hchange, hchangeKey, hsome⟩
    · exact ⟨change, hchange, hchangeKey, hsome⟩
    · -- The aggregate changes are of sections that are not put, and of tracks.
      cases hput
      rw [aggregateChanges, mem_append] at hchange
      rcases hchange with hchange | hchange
      · obtain ⟨row, hrow, rfl⟩ := mem_map.1 hchange
        have huntouched := of_decide_eq_true (mem_filter.1 hrow).2
        have hrow : e.key = ⟨.narrativeNode, row.1⟩ := hkey.trans hchangeKey.symm
        exact absurd (hrow ▸ ht.touched e he) huntouched
      · obtain ⟨row, -, rfl⟩ := mem_map.1 hchange
        rw [← hchangeKey] at hk
        cases hk
  · rintro ⟨_, hchange, rfl, hsome⟩
    have hmem := hchange
    rw [ht.changes] at hmem
    obtain ⟨e, he, rfl⟩ := mem_map.1 hmem
    exact ⟨⟨e.after, ⟨e.after, ⟨e, he, rfl⟩, rfl⟩, rfl⟩, _, .inl hchange, rfl, hsome⟩

/-- What the run of a normalizer puts and decides. -/
theorem acted_of_run [Uniseg] {c : Content} {I : NormalizeEditInput} {n : EditNormalizer}
    (hprov : Provided c I) (h : runNormalizer I = .ok n) :
    (∀ k, k.kind.anchors → ((n.proposal I).PutsStored k ↔
      ∃ op ∈ I.input.operations, k ∈ op.acts c.entities (groupMembers c) ∨ op.Places k)) ∧
    (∀ op ∈ I.input.operations, ∀ k ∈ op.acts c.entities (groupMembers c),
      k ∈ n.touched ∧ ¬I.input.Places k) ∧
    ∀ x, (n.alignmentEffects.find? x).isSome → I.input.Decides x ∨ ∃ op ∈ I.input.operations,
      ∃ id, op.places = some id ∧ x ∈ (I.state.clipAlignments.find? id).getD [] := by
  obtain ⟨es, es', n', -, -, -, -, hbalanced, -, -⟩ := runNormalizer_emits hprov.tracks h
  obtain ⟨ts, ht, -⟩ := hbalanced.trace
  have hputs := fun key => putsStored_iff ht (k := key)
  simp only [runNormalizer, steps_ok] at h
  obtain ⟨_, hn₀, m, hm, -, -, -, k, hk, -, -, rfl⟩ := h
  have hacted := RequestActed.of_operations hprov hn₀ hm
  -- The operations on alignments put nothing that alignments are anchored at.
  obtain ⟨-, hchanges, htouched, heffects⟩ : (∃ es ps, Balanced I k es ps []) ∧
    (∀ key, key.kind.anchors → ((∃ change ∈ k.changes, change.key = key ∧ change.before.isSome) ↔
          ∃ change ∈ m.changes, change.key = key ∧ change.before.isSome)) ∧ m.touched ⊆ k.touched ∧
      ∀ x, (k.alignmentEffects.find? x).isSome → (m.alignmentEffects.find? x).isSome ∨
        I.input.Decides x := by
    refine foldlM_invariant (fun k : EditNormalizer => (∃ es ps, Balanced I k es ps []) ∧
      (∀ key, key.kind.anchors → ((∃ change ∈ k.changes, change.key = key ∧ change.before.isSome) ↔
          ∃ change ∈ m.changes, change.key = key ∧ change.before.isSome)) ∧ m.touched ⊆ k.touched ∧
      ∀ x, (k.alignmentEffects.find? x).isSome → (m.alignmentEffects.find? x).isSome ∨
        I.input.Decides x) ?_ ⟨hacted.balanced, fun _ _ => Iff.rfl, Subset.refl _, fun _ => .inl⟩ hk
    rintro op hop n n' ⟨⟨es, ps, hbalanced⟩, hchanges, htouched, heffects⟩ hok
    obtain ⟨_, hdecides, hn₁, es', hhandled, -⟩ := normalizeAlignmentOperation_handled hbalanced hok
    have hact := EditNormalizer.Handles.act hn₁ ⟨es', hhandled⟩
    refine ⟨⟨_, _, hhandled.balanced⟩, fun key hkey => ?_, ?_, fun x hx => ?_⟩
    · obtain ⟨cs, hcs, hcs'⟩ := hact.changes
      rw [← hchanges key hkey, hcs, hdecides.changes]
      simp only [mem_append, or_and_right, exists_or, hcs' key hkey, not_mem_nil, or_false]
    · rw [← hdecides.touched] at htouched
      exact List.Subset.trans htouched hact.touched
    · rw [hact.effects] at hx
      rcases hdecides.effects x hx with hx | hx
      · exact heffects x hx
      · exact .inr ⟨op, hop, mem_toList.1 hx⟩
  refine ⟨fun key hkey => ?_, fun op hop key hkey => ⟨?_, ?_⟩, fun x hx => ?_⟩
  · rw [← hacted.puts key hkey, ← hchanges key hkey]
    exact hputs key hkey
  · exact htouched (hacted.touched (anchors_of_acts hkey) ⟨op, hop, .inl hkey⟩)
  · rintro ⟨op', hop', hplaces⟩
    exact hacted.apart op hop key hkey op' hop' hplaces
  · exact (heffects x hx).symm.imp_right (hacted.effects x)

/-- In an accepted request, every exact alignment of which the node, a caption or a clip is put,
    other than by setting a placement, is remapped, marked stale or unbound, exactly if no operation
    acts on an anchor of an undecided exact alignment on a clip that the request places. -/
theorem dependents_decided [Uniseg] {p : Project} {proposalID : ID} {runID turnID : Option ID}
    {actor : ActorRef} {allocation : List LocalAllocation} {input : EditProposeInput}
    {proposal : EditProposal}
    (h : p.normalizeRequest proposalID runID turnID actor allocation input = .ok proposal) :
    (∀ x a, p.content.Exact x a →
      (∃ k ∈ a.anchors, proposal.PutsStored k ∧ ¬input.Places k) → input.Decides x) ↔
    ∀ op ∈ input.operations, ∀ id, op.places = some id → ∀ x a, p.content.Exact x a →
      ⟨.clip, id⟩ ∈ a.anchors → ¬input.Decides x → ∀ op' ∈ input.operations,
        ∀ k ∈ op'.acts p.content.entities (groupMembers p.content), k ∉ a.anchors := by
  simp only [Project.normalizeRequest, normalizeEditProposal, steps_ok] at h
  obtain ⟨state, hload, -, n, hn, rfl⟩ := h
  have hprov :=
    provided_of_load (I := { proposalID, runID, turnID, actor, allocation, input, state }) hload
  obtain ⟨hputs, hacts, heffects⟩ := acted_of_run hprov hn
  constructor
  · intro hall op hop id hplaces x a hx hclip hundecided op' hop' k hk hanchor
    refine hundecided (hall x a hx ⟨k, hanchor, ?_, (hacts op' hop' k hk).2⟩)
    exact (hputs k (anchors_of_acts hk)).2 ⟨op', hop', .inl hk⟩
  · rintro hcover x a hx ⟨k, hanchor, hput, hnot⟩
    by_contra hundecided
    obtain ⟨op, hop, hk | hplaces⟩ := (hputs k (a.anchors_of_mem hanchor)).1 hput
    · -- The check has found an entry for the alignment, which a placement has made.
      have hdependent := hprov.dependents op hop k hk x a hx hanchor
      have hentry : (n.alignmentEffects.find? x).isSome := by
        simp only [runNormalizer, steps_ok] at hn
        obtain ⟨-, -, -, -, -, -, -, n', -, -, hvalid, rfl⟩ := hn
        have hkey := forM_ok.1 (forM_ok.1 hvalid k (hacts op hop k hk).1) x hdependent
        exact ensure_ok.1 hkey
      rcases heffects x hentry with hdecided | ⟨op', hop', id, hplaces, hmem⟩
      · exact hundecided hdecided
      · obtain ⟨a', ha', hclip⟩ := hprov.placed id x hmem
        obtain rfl := mem_unique ha'.1 hx.1
        exact hcover op' hop' id hplaces x a' hx hclip hundecided op hop k hk hanchor
    · exact hnot ⟨op, hop, hplaces⟩

/-! ## Samples -/

/-- The creator's request to remove the second clip, with other operations. -/
def sampleRemoval (operations : List EditOperationInput) : EditProposeInput where
  requestID := ['l']
  intent := ['x']
  baseProjectRevision := 4
  preconditions := [⟨⟨.clip, 20⟩, 1⟩, ⟨⟨.clip, 21⟩, 1⟩, ⟨⟨.track, 4⟩, 2⟩, ⟨⟨.alignment, 60⟩, 1⟩]
  operations := .removeClip 21 .single :: operations

/-- What is accepted of the request. -/
def sampleRemove (p : Project) (operations : List EditOperationInput) :
    Except EditError EditProposal :=
  @Project.normalizeRequest p runeClusters 500 none none (.creator 9) [] (sampleRemoval operations)

/-- If the alignment is marked stale, every alignment of what is put is decided. -/
theorem dependents_decided_stale : ∃ p proposal,
    sampleAfter sampleAligned = some p ∧
    sampleRemove p [.markAlignmentStale 60] = .ok proposal ∧
    ∀ x a, p.content.Exact x a → (∃ k ∈ a.anchors, proposal.PutsStored k ∧
      ¬(sampleRemoval [.markAlignmentStale 60]).Places k) →
        (sampleRemoval [.markAlignmentStale 60]).Decides x := by
  obtain ⟨p, hp, proposal, hproposal⟩ : ∃ p, sampleAfter sampleAligned = some p ∧
      ∃ proposal, sampleRemove p [.markAlignmentStale 60] = .ok proposal := by
    decide +kernel
  let _ := runeClusters
  refine ⟨p, proposal, hp, hproposal, (dependents_decided hproposal).2 ?_⟩
  intro op hop id hplaces
  simp only [sampleRemoval, mem_cons, not_mem_nil, or_false] at hop
  rcases hop with rfl | rfl <;> cases hplaces

/-- If the request also sets the placement of the first clip, the second one is removed although the
    alignment stays exact and undecided. -/
theorem removed_under_placement : ∃ p proposal a,
    sampleAfter sampleAligned = some p ∧
    sampleRemove p [.setClipPlacement 20 none] = .ok proposal ∧
    p.content.Exact 60 a ∧ ⟨.clip, 21⟩ ∈ a.anchors ∧ proposal.PutsStored ⟨.clip, 21⟩ ∧
    ¬(sampleRemoval [.setClipPlacement 20 none]).Places ⟨.clip, 21⟩ ∧
    ¬(sampleRemoval [.setClipPlacement 20 none]).Decides 60 := by
  obtain ⟨p, hp, proposal, hproposal, ⟨a, ha, hstatus, hanchor⟩, hput, hchange⟩ : ∃ p,
      sampleAfter sampleAligned = some p ∧
      ∃ proposal, sampleRemove p [.setClipPlacement 20 none] = .ok proposal ∧
        (∃ a, p.content.entities.alignment? 60 = some a ∧ a.status = .exact ∧
          ⟨.clip, 21⟩ ∈ a.anchors) ∧
        (proposal.operations.any fun
          | .put s => s.key = ⟨.clip, 21⟩
          | _ => false) ∧
        ∃ change ∈ proposal.changes, change.key = ⟨.clip, 21⟩ ∧ change.before.isSome := by
    decide +kernel
  obtain ⟨op, hop, hkey⟩ := any_eq_true.1 hput
  refine ⟨p, proposal, a, hp, hproposal, ⟨ha, hstatus⟩, hanchor, ⟨?_, hchange⟩, ?_, ?_⟩
  · cases op with
    | put s => exact ⟨s, hop, of_decide_eq_true hkey⟩
    | restoreProjectVersion => cases hkey
  · rintro ⟨op, hop, id, hplaces, hk⟩
    simp only [sampleRemoval, mem_cons, not_mem_nil, or_false] at hop
    rcases hop with rfl | rfl <;> cases hplaces
    cases hk
  · rintro ⟨op, hop, hdecides⟩
    simp only [sampleRemoval, mem_cons, not_mem_nil, or_false] at hop
    rcases hop with rfl | rfl <;> cases hdecides

end OpenCut
