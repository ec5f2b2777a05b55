import OpenCut.Repository.Discipline
import OpenCut.Repository.Ties

/-!
# Edits keep the ties

A section with live children is live, and a live link group has from two to 64 live
members (`tieRule`). The normalizer checks neither of the project that it leaves: it keeps
count of the children of the sections that were loaded, and of the members of the link
groups that it touches. That this is enough is `EditProposal.MadeIn`, which holds of every
proposal that is normalized (`madeIn_of_normalizeRequest`): the changes name every section
and link group of which a part comes or goes, and all of them are good after the puts.
-/

namespace OpenCut

open Outcome Ties EntityTable EntityState EditNormalizer List Content Option Emission

/-! ## The rule -/

/-- What does not take parts has none, and a link group that does has from two to 64. -/
def tieRule (key : EntityKey) (tie : Tie EntityKey) (parts : Set EntityKey) : Prop :=
  (tie.holds = false → parts = ∅) ∧
    (key.kind = .linkGroup → tie.holds → 2 ≤ parts.ncard ∧ parts.ncard ≤ 64)

theorem tieRule_loose (key : EntityKey) (parts : Set EntityKey) (h : tieRule key .loose parts) :
    parts = ∅ := h.1 rfl

variable {key owner : EntityKey}

/-- What has a part takes parts. -/
theorem holds_of_part {ties : EntityKey → Tie EntityKey} (h : WellTied tieRule ties)
    (howner : (ties key).owner = some owner) : (ties owner).holds = true := by
  by_contra hnot
  have hempty := (h owner).1 (Bool.eq_false_of_not_eq_true hnot)
  exact absurd (hempty ▸ mem_parts.2 howner) (Set.notMem_empty _)

/-! ## Ties along a trace -/

/-- The ties of the content with those of the table. -/
def EntityTable.tiesOver (t : EntityTable) (c : Content) (key : EntityKey) : Tie EntityKey :=
  ((t.find? key).map (·.tie)).getD (c.tie key)

namespace EntityTable

variable {t : EntityTable} {c : Content}

theorem tiesOver_of_find? {s : EntityState} (h : t.find? key = some s) :
    t.tiesOver c key = s.tie := by
  rw [tiesOver, h, map_some, getD_some]

theorem tiesOver_put (t : EntityTable) (c : Content) (s : EntityState) :
    (t.put s).tiesOver c = Function.update (t.tiesOver c) s.key s.tie := by
  funext key
  rw [tiesOver, find?_put, Function.update_apply]
  split
  · rfl
  · rfl

/-- What was loaded has the ties of the content. -/
theorem tiesOver_of_loaded (h : ∀ {key s}, t.find? key = some s → c.load? key = some s) :
    t.tiesOver c = c.tie := by
  funext key
  cases hfind : t.find? key with
  | none => rw [tiesOver, hfind, map_none, getD_none]
  | some s => rw [tiesOver_of_find? hfind, tie_of_load? (h hfind)]

end EntityTable

/-- The tie before the put. -/
def Emission.tieBefore (e : Emission) : Tie EntityKey := (e.before.map (·.tie)).getD .loose

variable {e : Emission}

/-- What was part of a section was a live node. -/
theorem Emission.before_of_owner {id : ID} (h : e.tieBefore.owner = some ⟨.narrativeNode, id⟩) :
    ∃ node, e.before = some (.narrativeNode node) ∧ node.tombstoned = false ∧
      node.parentID = some id := by
  rw [tieBefore] at h
  cases hbefore : e.before with
  | none =>
    rw [hbefore] at h
    cases h
  | some b =>
    rw [hbefore] at h
    obtain ⟨node, rfl, hlive, hparent⟩ := owner_eq_node.1 h
    exact ⟨node, rfl, hlive, hparent⟩

/-- The put changes the number of live children as it changes the ties. -/
theorem Emission.gain_eq (e : Emission) (id : ID) :
    e.gain id = (if e.after.tie.owner = some ⟨.narrativeNode, id⟩ then 1 else 0) -
      if e.tieBefore.owner = some ⟨.narrativeNode, id⟩ then 1 else 0 := by
  have hchild : ∀ s : EntityState, s.childOf id =
      if s.tie.owner = some ⟨.narrativeNode, id⟩ then 1 else 0 := by
    intro s
    cases s <;> simp [EntityState.childOf, EntityState.tie, nodeTie, Tie.loose]
  rw [gain, hchild, tieBefore]
  cases e.before with
  | none => simp [Tie.loose]
  | some b => simp [hchild]

theorem Emission.regroups_iff {g : ID} : e.Regroups g ↔ ¬(e.tieBefore.owner = some ⟨.linkGroup, g⟩ ↔
      e.after.tie.owner = some ⟨.linkGroup, g⟩) := by
  have hgroup : ∀ s : EntityState, s.group? = some g ↔ s.tie.owner = some ⟨.linkGroup, g⟩ := by
    intro s
    cases s <;> simp [EntityState.group?, EntityState.tie, nodeTie, Tie.loose]
  rw [Emission.Regroups, hgroup, tieBefore]
  cases e.before with
  | none => simp [Tie.loose]
  | some b => simp [hgroup]

namespace Licensed

variable {I : NormalizeEditInput} {c : Content} {es : List Emission} {e : Emission}

/-- The tie before the put is the one that the earlier puts left. -/
theorem tiesOver_eq (h : Licensed I es e) (hnew : e.key ∉ es.map (·.key))
    (hbase : ∀ {key s}, I.base.find? key = some s → c.load? key = some s)
    (hfresh : e.before = none → c.tie e.key = .loose) :
    (I.base.run es).tiesOver c e.key = e.tieBefore := by
  rcases h.revision with ⟨hbefore, -, -⟩ | ⟨b, hbefore, hfind, -⟩
  · rw [tiesOver, find?_run_of_not_mem hnew, ← tiesOver,
      tiesOver_of_loaded hbase, hfresh hbefore, tieBefore, hbefore]
    rfl
  · rw [tiesOver_of_find? hfind, tieBefore, hbefore]
    rfl

variable {id : ID}

theorem holds_of_openSection (h : I.OpenSection (I.base.run es) id) :
    ((I.base.run es).tiesOver c ⟨.narrativeNode, id⟩).holds := by
  obtain ⟨⟨s, hs, hlive⟩, -⟩ := h
  obtain ⟨hnode, hkind⟩ := section?_eq_some.1 hs
  rw [tiesOver_of_find? (node?_eq_some.1 hnode)]
  simp [EntityState.tie, nodeTie, hlive, hkind]

section

variable (h : Licensed I es e)
include h

/-- A node is put under a section that takes parts, or stays where it was. -/
theorem section_of_owner (howner : e.after.tie.owner = some ⟨.narrativeNode, id⟩) :
    e.tieBefore.owner = some ⟨.narrativeNode, id⟩ ∨
      (id ∈ e.parents ∧ ((I.base.run es).tiesOver c ⟨.narrativeNode, id⟩).holds) := by
  obtain ⟨_, hafter, hlive, hparent⟩ := owner_eq_node.1 howner
  cases h with
  | insertNode _ _ _ _ hp hsection =>
    cases hafter
    obtain rfl := mem_unique hp hparent
    exact .inr ⟨mem_singleton_self _, holds_of_openSection hsection⟩
  | updateNode _ hs =>
    cases hafter
    exact .inl (owner_eq_node.2 ⟨_, rfl, hs, hparent⟩)
  | moveNode _ _ _ _ _ hnew =>
    cases hafter
    cases hparent
    exact .inr ⟨by simp, holds_of_openSection hnew⟩
  | removeNode =>
    cases hafter
    cases hlive
  | _ => cases hafter

/-- A node that does not stay is taken out of a section that is on record. -/
theorem section_of_before (hbefore : e.tieBefore.owner = some ⟨.narrativeNode, id⟩) :
    e.after.tie.owner = some ⟨.narrativeNode, id⟩ ∨ id ∈ e.parents := by
  obtain ⟨_, hnode, hlive, hparent⟩ := before_of_owner hbefore
  cases h with
  | updateNode =>
    cases hnode
    exact .inl (owner_eq_node.2 ⟨_, rfl, hlive, hparent⟩)
  | moveNode _ _ _ hold | removeNode _ _ _ hold =>
    cases hnode
    obtain rfl := mem_unique hold hparent
    exact .inr (by simp)
  | _ => cases hnode

/-- A section that stops taking parts is removed, with no children left. -/
theorem childless_of_holds (hnew : e.key ∉ es.map (·.key))
    (hkey : e.key = ⟨.narrativeNode, id⟩) (hbefore : e.tieBefore.holds)
    (hafter : e.after.tie.holds = false) :
    e.after.tie.owner = none ∧ I.childrenAfter es id = 0 ∧ ∃ s, I.base.section? id = some s := by
  cases h with
  | insertNode => cases hbefore
  | updateNode | moveNode => simp_all [tieBefore, EntityState.tie, nodeTie, NarrativeNodeState.kind]
  | @removeNode s _ hs hlive _ _ _ hempty =>
    obtain rfl : s.id = id := congrArg EntityKey.id hkey
    have hkind : s.kind = .section := by
      simpa [tieBefore, EntityState.tie, nodeTie, hlive] using hbefore
    refine ⟨rfl, hempty hkind, s, ?_⟩
    have hloaded := (find?_run_of_not_mem (t := I.base) (k := ⟨.narrativeNode, s.id⟩)
      hnew).symm.trans (node?_eq_some.1 hs)
    exact section?_eq_some.2 ⟨node?_eq_some.2 hloaded, hkind⟩
  | _ => cases hkey

end

end Licensed

/-! ## Sections -/

/-- The sections after the puts: those that do not take parts have none, and the
    normalizer has counted the children of those that were loaded. -/
structure SectionsTied (I : NormalizeEditInput) (c : Content) (es : List Emission) : Prop where
  finite : ∀ key, (parts ((I.base.run es).tiesOver c) key).Finite
  empty : ∀ id, ((I.base.run es).tiesOver c ⟨.narrativeNode, id⟩).holds = false →
    parts ((I.base.run es).tiesOver c) ⟨.narrativeNode, id⟩ = ∅
  count : ∀ id s, I.base.section? id = some s →
    ((parts ((I.base.run es).tiesOver c) ⟨.narrativeNode, id⟩).ncard : ℤ) = I.childrenAfter es id

/-- The live children of a section, as they are stored. -/
theorem Content.ncard_children (c : Content) (id : ID) : (parts c.tie ⟨.narrativeNode, id⟩).Finite ∧
      (parts c.tie ⟨.narrativeNode, id⟩).ncard = EditLoad.childCount c id := by
  have hkeys := c.nodes.rows_nodup.sublist
    (filter_sublist (p := fun row => row.2.liveUnder id) |>.map Prod.fst)
  obtain ⟨hfinite, hcard⟩ := ncard_parts_of_list c.tie ⟨.narrativeNode, id⟩
    (l := ((c.nodes.rows.filter fun row => row.2.liveUnder id).map Prod.fst).map
      fun id => ⟨.narrativeNode, id⟩)
    (hkeys.map fun a b hab => congrArg EntityKey.id hab) (by
      intro key
      simp only [List.mem_map, mem_filter, Prod.exists, Table.mem_rows]
      constructor
      · rintro ⟨_, ⟨_, row, ⟨hrow, hlive⟩, rfl⟩, rfl⟩
        obtain ⟨hparent, hlive⟩ := NarrativeTable.liveUnder_iff.1 hlive
        rw [tie_node, NarrativeTable.unplaced?_of_find? hrow]
        simp [NarrativeNodeRow.tie, nodeTie, hparent, hlive]
      · intro howner
        obtain ⟨s, hload, howner⟩ := load?_of_owner howner
        obtain ⟨node, rfl, hlive, hparent⟩ := owner_eq_node.1 howner
        obtain rfl := c.key_of_load? hload
        obtain ⟨row, hrow, hnode⟩ := loadNode?_eq_some.1 (load?_node.1 hload)
        refine ⟨_, ⟨node.id, row, ⟨hrow, NarrativeTable.liveUnder_iff.2 ?_⟩, rfl⟩, rfl⟩
        rw [← hnode] at hlive hparent
        exact ⟨hparent, hlive⟩)
  refine ⟨hfinite, hcard.trans ?_⟩
  rw [length_map, length_map, EditLoad.childCount]

/-- Only finitely many entities have ties. -/
theorem Content.finite_parts (c : Content) (key : EntityKey) : (parts c.tie key).Finite := by
  have hkeys : ∀ k, k ∈ parts c.tie key → k ∈
      (c.nodes.rows.map fun row => (⟨.narrativeNode, row.1⟩ : EntityKey)) ++
        c.entities.states.map (·.key) := by
    intro k hk
    obtain ⟨s, hload, -⟩ := load?_of_owner hk
    rw [mem_append, List.mem_map, List.mem_map]
    obtain rfl := c.key_of_load? hload
    by_cases hkind : s.key.kind = .narrativeNode
    · cases s with
      | narrativeNode node =>
        obtain ⟨row, hrow, -⟩ := loadNode?_eq_some.1 (load?_node.1 hload)
        exact .inl ⟨(node.id, row), Table.mem_rows.2 hrow, rfl⟩
      | _ => simp [EntityState.key] at hkind
    · rw [load?_entity hkind] at hload
      exact .inr ⟨s, mem_states.2 hload, rfl⟩
  exact (finite_toSet _).subset hkeys

namespace SectionsTied

variable {I : NormalizeEditInput} {c : Content} {es : List Emission} {e : Emission}

/-- What was loaded. -/
theorem nil {l : EditLoad} (hloaded : Loaded c l [] []) (hstate : l.state = I.state)
    (hwell : WellTied tieRule c.tie) : SectionsTied I c [] := by
  have hties : (I.base.run []).tiesOver c = c.tie := by
    refine tiesOver_of_loaded fun {key s} h => hloaded.entities ?_
    rw [hstate]
    exact h
  refine ⟨fun key => ?_, fun id => ?_, fun id s hs => ?_⟩
  · rw [hties]
    exact c.finite_parts key
  · rw [hties]
    exact (hwell _).1
  · rw [NormalizeEditInput.base, ← hstate] at hs
    rw [hties, (c.ncard_children id).2, NormalizeEditInput.childrenAfter, ← hstate,
      hloaded.counts hs]
    simp

/-- Every put that has its licence keeps count. -/
theorem concat (h : SectionsTied I c es) (hlicensed : Licensed I es e)
    (hnew : e.key ∉ es.map (·.key))
    (hbase : ∀ {key s}, I.base.find? key = some s → c.load? key = some s)
    (hfresh : e.before = none → c.tie e.key = .loose) : SectionsTied I c (es ++ [e]) := by
  have hbefore := hlicensed.tiesOver_eq hnew hbase hfresh
  have hties : (I.base.run (es ++ [e])).tiesOver c =
      Function.update ((I.base.run es).tiesOver c) e.key e.after.tie := by
    rw [run_concat, tiesOver_put]
    rfl
  -- Nothing is put under a section that does not take parts.
  have hclosed : ∀ id, ((I.base.run es).tiesOver c ⟨.narrativeNode, id⟩).holds = false →
      e.after.tie.owner ≠ some ⟨.narrativeNode, id⟩ := by
    intro id hholds howner
    rcases hlicensed.section_of_owner (c := c) howner with hsame | ⟨-, hheld⟩
    · rw [← hbefore] at hsame
      exact absurd (h.empty id hholds ▸ mem_parts.2 hsame) (Set.notMem_empty _)
    · rw [hholds] at hheld
      cases hheld
  refine ⟨fun key => ?_, fun id hholds => ?_, fun id s hs => ?_⟩
  · rw [hties]
    exact finite_parts_update (h.finite key) _ _
  · rw [hties] at hholds ⊢
    rw [Function.update_apply] at hholds
    rw [parts_update]
    by_cases hheld : ((I.base.run es).tiesOver c ⟨.narrativeNode, id⟩).holds
    · -- The section is removed, without any children.
      split at hholds
      · next hkey =>
        rw [hkey, hbefore] at hheld
        obtain ⟨hnone, hzero, s, hs⟩ := hlicensed.childless_of_holds hnew hkey.symm hheld hholds
        have hcount := h.count id s hs
        rw [hzero, Nat.cast_eq_zero, Set.ncard_eq_zero (h.finite _)] at hcount
        rw [if_neg (by simp [hnone]), hcount, Set.empty_sdiff]
      · rw [hheld] at hholds
        cases hholds
    · have hheld := Bool.eq_false_of_not_eq_true hheld
      rw [if_neg (hclosed id hheld), h.empty id hheld, Set.empty_sdiff]
  · rw [hties, ncard_parts_update (h.finite _), h.count id s hs, hbefore, ← e.gain_eq,
      I.childrenAfter_concat]

/-- A whole trace keeps count. -/
theorem of_trace {l : EditLoad} {n : EditNormalizer} {ps ts : List ID}
    (hloaded : Loaded c l [] []) (hstate : l.state = I.state) (hwell : WellTied tieRule c.tie)
    (htrace : Trace I n es ps ts) (hfresh : ∀ e ∈ es, e.before = none → c.tie e.key = .loose) :
    SectionsTied I c es := by
  have hbase : ∀ {key s}, I.base.find? key = some s → c.load? key = some s := fun {key s} h =>
    hloaded.entities (by rw [hstate]; exact h)
  suffices hprefix : ∀ done rest, es = done ++ rest → SectionsTied I c done from
    hprefix es [] (append_nil es).symm
  intro done
  induction done using reverseRecOn with
  | nil => exact fun _ _ => nil hloaded hstate hwell
  | append_singleton done e ih =>
    intro rest hsplit
    have hsplit' : es = done ++ e :: rest := by rw [hsplit, append_assoc]; rfl
    have hmem : e ∈ es := by rw [hsplit']; simp
    refine (ih (e :: rest) hsplit').concat (htrace.licensed done e rest hsplit') ?_ hbase
      (hfresh e hmem)
    have hnodup := htrace.nodup
    rw [hsplit', map_append, nodup_append'] at hnodup
    exact fun hin => hnodup.2.2 hin mem_cons_self

end SectionsTied

/-! ## Link groups -/

namespace EntityTable

variable {t : EntityTable}

theorem mem_clips {clip : ClipState} :
    clip ∈ t.clips ↔ t.find? ⟨.clip, clip.id⟩ = some (.clip clip) := by
  rw [clips, mem_filterMap]
  constructor
  · rintro ⟨s, hs, heq⟩
    split at heq
    · cases heq
      exact mem_states.1 hs
    · cases heq
  · exact fun h => ⟨.clip clip, mem_states.2 h, rfl⟩

theorem clips_nodup (t : EntityTable) :
    (t.clips.map fun clip => (⟨.clip, clip.id⟩ : EntityKey)).Nodup := by
  have hstates : t.states.Nodup := .of_map _ t.states_nodup
  refine List.Nodup.map_on (fun a ha b hb hab => ?_) (hstates.filterMap fun s s' clip hs hs' => ?_)
  · have ha := mem_clips.1 ha
    rw [hab, mem_clips.1 hb] at ha
    cases ha
    rfl
  · rw [mem_def] at hs hs'
    split at hs
    · split at hs'
      · cases hs
        cases hs'
        rfl
      · cases hs'
    · cases hs

end EntityTable

section

variable {I : NormalizeEditInput} {c : Content} {n : EditNormalizer} {es : List Emission}
  {ps ts : List ID}

section

variable {l : EditLoad} (hloaded : Loaded c l [] []) (hstate : l.state = I.state)
  (hwell : WellTied tieRule c.tie) (htrace : Trace I n es ps ts)
  (hfresh : ∀ e ∈ es, e.before = none → c.tie e.key = .loose)
include hloaded hstate hwell htrace hfresh

/-- The live members of a link group that is put are those that the normalizer counts. -/
theorem mem_members {g : ID} (hg : ⟨.linkGroup, g⟩ ∈ es.map (·.key)) (key : EntityKey) :
    key ∈ ((I.base.run es).clips.filter fun clip =>
        !clip.tombstoned && clip.linkGroupID == some g).map
        (fun clip => (⟨.clip, clip.id⟩ : EntityKey)) ↔
      ((I.base.run es).tiesOver c key).owner = some ⟨.linkGroup, g⟩ := by
  simp only [List.mem_map, mem_filter, mem_clips, Bool.and_eq_true, Bool.not_eq_true', beq_iff_eq]
  constructor
  · rintro ⟨clip, ⟨hfind, hlive, hgroup⟩, rfl⟩
    rw [tiesOver_of_find? hfind]
    exact owner_eq_linkGroup.2 ⟨clip, rfl, hlive, hgroup⟩
  · intro howner
    cases hfind : (I.base.run es).find? key with
    | some s =>
      rw [tiesOver_of_find? hfind] at howner
      obtain ⟨clip, rfl, hlive, hgroup⟩ := owner_eq_linkGroup.1 howner
      obtain rfl := key_of_find? hfind
      exact ⟨clip, ⟨hfind, hlive, hgroup⟩, rfl⟩
    | none =>
      -- A stored member would have been loaded with its group, and a new group has none.
      exfalso
      rw [tiesOver, hfind, map_none, getD_none] at howner
      have hnotin : key ∉ es.map (·.key) := by
        intro hmem
        obtain ⟨e, he, rfl⟩ := mem_map.1 hmem
        cases hfind.symm.trans (find?_run_of_mem htrace.nodup he)
      rw [find?_run_of_not_mem hnotin] at hfind
      obtain ⟨s, hload, hs⟩ := load?_of_owner howner
      obtain ⟨clip, rfl, hlive, hgroup⟩ := owner_eq_linkGroup.1 hs
      obtain rfl := c.key_of_load? hload
      obtain ⟨e, he, hkey⟩ := mem_map.1 hg
      cases hbefore : e.before with
      | none =>
        have hempty := tieRule_loose _ _ (hfresh e he hbefore ▸ hwell e.key)
        rw [hkey] at hempty
        exact absurd (hempty ▸ mem_parts.2 howner) (Set.notMem_empty _)
      | some b =>
        obtain ⟨hb, -⟩ := htrace.loaded_of_before he hbefore
        rw [hkey] at hb
        have hbkey := key_of_find? hb
        cases b with
        | linkGroup group =>
          have hgroup' : l.state.entities.linkGroup? g = some group := by
            rw [hstate]
            exact linkGroup?_eq_some.2 hb
          rcases hloaded.members hgroup' (clip?_eq_some.2 hload) hlive hgroup with
            hclip | hmem
          · rw [hstate, clip?_eq_some] at hclip
            cases hfind.symm.trans hclip
          · exact absurd hmem not_mem_nil
        | _ => cases hbkey

/-- A link group that is put is good after the puts. -/
theorem tieRule_of_group (hvalid : n.validateLinkGroups = .ok ()) {g : ID}
    (hg : ⟨.linkGroup, g⟩ ∈ es.map (·.key)) :
    tieRule ⟨.linkGroup, g⟩ ((I.base.run es).tiesOver c ⟨.linkGroup, g⟩)
      (parts ((I.base.run es).tiesOver c) ⟨.linkGroup, g⟩) := by
  obtain ⟨hfinite, hcard⟩ := ncard_parts_of_list _ _
    ((I.base.run es).clips_nodup.sublist (filter_sublist.map _))
    (mem_members hloaded hstate hwell htrace hfresh hg)
  rw [length_map] at hcard
  obtain ⟨e, he, hkey⟩ := mem_map.1 hg
  have hgroup := forM_ok.1 hvalid _ (hkey ▸ htrace.touched e he)
  rw [if_pos rfl, htrace.working] at hgroup
  rw [← hcard] at hgroup
  split at hgroup
  · next group hfind =>
    rw [tiesOver_of_find? (linkGroup?_eq_some.1 hfind)]
    have hcount := ensure_ok.1 hgroup
    refine ⟨fun hholds => ?_, fun _ hholds => ?_⟩
    · have htombstoned : group.tombstoned = true := by simpa [EntityState.tie] using hholds
      rw [if_pos htombstoned, Set.ncard_eq_zero hfinite] at hcount
      exact hcount
    · have hlive : ¬group.tombstoned = true := by simpa [EntityState.tie] using hholds
      rwa [if_neg hlive] at hcount
  · cases hgroup

end

end

/-! ## Proposals -/

/-- The proposal puts the states, and its inverse puts `back`; it was made in the world `w`,
    in which `back` has the ties that the states replace. -/
structure EditProposal.MadeIn (proposal : EditProposal) (states back : List EntityState)
    (w : World EntityKey) : Prop where
  puts : proposal.Puts states
  inverse : proposal.inversePreview = back.map .put
  distinct : (back.map (·.key)).Nodup
  keys : ∀ key, key ∈ back.map (·.key) ↔ key ∈ states.map (·.key)
  sound : (proposal.patch states).Sound tieRule w
  back : (proposal.patch states).Meets w → ∀ s ∈ back, s.tie = w.tie s.key

section

variable {I : NormalizeEditInput} {c : Content} {n : EditNormalizer} {es : List Emission}
  {ps ts : List ID}

/-- What has no ties has none after the puts. -/
theorem tiesOver_of_not_tied {t : EntityTable} (h : key.kind.tied = false) :
    t.tiesOver c key = .loose := by
  cases hfind : t.find? key with
  | none =>
    rw [tiesOver, hfind, map_none, getD_none]
    exact c.world.absent key (if_neg (by simp [h]))
  | some s =>
    rw [tiesOver_of_find? hfind]
    exact tie_of_not_tied (by rwa [key_of_find? hfind])

theorem kind_of_tiesOver {t : EntityTable} (h : (t.tiesOver c key).owner = some owner) :
    owner.kind = .narrativeNode ∨ owner.kind = .linkGroup := by
  cases hfind : t.find? key with
  | none =>
    rw [tiesOver, hfind, map_none, getD_none] at h
    obtain ⟨s, -, hs⟩ := load?_of_owner h
    exact kind_of_owner hs
  | some s =>
    rw [tiesOver_of_find? hfind] at h
    exact kind_of_owner h

section

variable (hbase : ∀ {key s}, I.base.find? key = some s → c.load? key = some s)
  (htrace : Trace I n es ps ts)
include hbase htrace

/-- The ties after the puts are those of the patch. -/
theorem ties_of_trace (proposal : EditProposal) :
    (proposal.patch (es.map (·.after))).ties c.world = (I.base.run es).tiesOver c := by
  have hdistinct : ((es.map (·.after)).map (·.key)).Nodup := by
    rw [List.map_map]
    exact htrace.nodup
  funext key
  by_cases htied : key.kind.tied
  · by_cases hkey : key ∈ es.map (·.key)
    · obtain ⟨e, he, rfl⟩ := mem_map.1 hkey
      rw [tiesOver_of_find? (find?_run_of_mem htrace.nodup he)]
      exact Patch.ties_of_put ((tiesOf_eq_some hdistinct).2
        ⟨htied, e.after, mem_map_of_mem he, rfl, rfl⟩)
    · rw [tiesOver, find?_run_of_not_mem hkey, ← tiesOver, tiesOver_of_loaded hbase]
      refine Patch.ties_of_not_put (tiesOf_eq_none.2 fun _ => ?_)
      rwa [List.map_map]
  · have hfalse : key.kind.tied = false := by simpa using htied
    rw [tiesOver_of_not_tied hfalse]
    refine (Patch.ties_of_not_put (tiesOf_eq_none.2 fun h => absurd h htied)).trans ?_
    exact c.world.absent key (if_neg htied)

/-- The stored tie of what is put. -/
theorem tieBefore_of_trace (hfresh : ∀ e ∈ es, e.before = none → c.tie e.key = .loose)
    (he : e ∈ es) : c.tie e.key = e.tieBefore := by
  rw [tieBefore]
  cases hbefore : e.before with
  | none => exact hfresh e he hbefore
  | some b => exact tie_of_load? (hbase (htrace.loaded_of_before he hbefore).1)

/-- The entries of the changes are at the revisions that are stored. -/
theorem revision_of_change {change : EntityRevisionChange}
    (hchange : change ∈ (n.proposal I).changes) (htied : change.key.kind.tied) {r : Revision}
    (hbefore : change.before = some r) :
    c.revision? change.key = some r ∧ change.after = r + 1 := by
  rcases mem_changes.1 hchange with hmem | hmem
  · rw [htrace.changes] at hmem
    obtain ⟨e, he, rfl⟩ := mem_map.1 hmem
    obtain ⟨b, hb, rfl⟩ := map_eq_some_iff.1 hbefore
    obtain ⟨hfind, hrevision⟩ := htrace.loaded_of_before he hb
    exact ⟨revision?_of_load? (hbase hfind), hrevision⟩
  · rcases mem_aggregateChanges.1 hmem with ⟨id, before, hfind, huntouched, rfl⟩ |
      ⟨id, before, hfind, rfl⟩
    · cases hbefore
      obtain ⟨-, s, hs, hrevision⟩ := (htrace.parents id huntouched r).1 hfind
      obtain ⟨hnode, -⟩ := section?_eq_some.1 hs
      have hload := hbase (node?_eq_some.1 hnode)
      exact ⟨(revision?_of_load? hload).trans (congrArg some hrevision), rfl⟩
    · cases htied

end

/-- What the inverse puts has the ties that the puts replace. -/
theorem tie_inverseOf (e : Emission) : (inverseOf e.before e.after).tie = e.tieBefore := by
  rw [inverseOf, tie_withRevision, tieBefore]
  cases e.before with
  | none => exact tie_retired _
  | some b => rfl

theorem key_inverseOf (htrace : Trace I n es ps ts) (he : e ∈ es) :
    (inverseOf e.before e.after).key = e.key := by
  rw [inverseOf, key_withRevision]
  cases hbefore : e.before with
  | none => cases h : e.after <;> simp [Emission.key, h, retired, EntityState.key]
  | some b => exact key_of_find? (htrace.loaded_of_before he hbefore).1

/-- The changes name every section and link group of which a part comes or goes. -/
theorem owner_of_balanced (hbase : ∀ {key s}, I.base.find? key = some s → c.load? key = some s)
    (hbalanced : Balanced I n es (I.input.operations.flatMap (·.changedSections I.base)) [])
    (hdisciplined : (n.proposal I).Disciplined I)
    (hfresh : ∀ e ∈ es, e.before = none → c.tie e.key = .loose) (he : e ∈ es)
    (howner : owner ∉ (n.proposal I).changes.map (·.key)) :
    (c.tie e.key).owner = some owner ↔ e.after.tie.owner = some owner := by
  obtain ⟨ts, htrace, -⟩ := hbalanced.trace
  rw [tieBefore_of_trace hbase htrace hfresh he]
  obtain ⟨_, hlicensed, -⟩ := htrace.exists_licensed he
  have hsection : ∀ {id}, id ∈ e.parents → owner ≠ ⟨.narrativeNode, id⟩ := by
    rintro id hid rfl
    obtain ⟨change, hchange, hkey⟩ :=
      hdisciplined.sections id ((hbalanced.parents id).2 ⟨e, he, hid⟩)
    exact howner (mem_map.2 ⟨change, hchange, hkey⟩)
  have hkind : (owner.kind = .narrativeNode ∨ owner.kind = .linkGroup) ∨
      (e.tieBefore.owner ≠ some owner ∧ e.after.tie.owner ≠ some owner) := by
    by_contra hnot
    rw [not_or, not_and_or, not_not, not_not, ← tieBefore_of_trace hbase htrace hfresh he] at hnot
    obtain ⟨hkind, hbefore | hafter⟩ := hnot
    · obtain ⟨s, -, hs⟩ := load?_of_owner hbefore
      exact hkind (kind_of_owner hs)
    · exact hkind (kind_of_owner hafter)
  rcases hkind with (hkind | hkind) | ⟨hbefore, hafter⟩
  · obtain ⟨kind, id⟩ := owner
    cases hkind
    constructor
    · intro hbefore
      exact (hlicensed.section_of_before hbefore).resolve_right fun hid => hsection hid rfl
    · intro hafter
      exact (hlicensed.section_of_owner (c := c) hafter).resolve_right fun h => hsection h.1 rfl
  · obtain ⟨_, id⟩ := owner
    cases hkind
    by_contra hregroups
    rcases hbalanced.groups e he id (regroups_iff.2 hregroups) with hmem | hmem
    · obtain ⟨d, hd, hkey⟩ := mem_map.1 hmem
      refine howner (mem_map.2 ⟨changeOf d.before d.after, ?_, hkey⟩)
      rw [mem_changes, htrace.changes]
      exact .inl (mem_map_of_mem hd)
    · exact absurd hmem not_mem_nil
  · exact iff_of_false hbefore hafter

/-- What the patch creates was not there, if the patch can be committed. -/
theorem fresh_of_meets (hbalanced : Balanced I n es ps [])
    (hmeets : ((n.proposal I).patch (es.map (·.after))).Meets c.world) :
    ∀ e ∈ es, e.before = none → c.tie e.key = .loose := by
  intro e he hnone
  obtain ⟨ts, htrace, -⟩ := hbalanced.trace
  refine c.world.absent e.key ?_
  by_cases htied : e.key.kind.tied
  · have hchange : changeOf e.before e.after ∈ (n.proposal I).changes := by
      rw [mem_changes, htrace.changes]
      exact .inl (mem_map_of_mem he)
    refine hmeets e.key (none, e.after.revision)
      ((change_eq_some (nodup_changes hbalanced)).2 ⟨htied, _, hchange, rfl, ?_⟩)
    rw [hnone]
    rfl
  · exact if_neg htied

/-- The patch names what it changes. -/
theorem covers_of_balanced (hbase : ∀ {key s}, I.base.find? key = some s → c.load? key = some s)
    (hbalanced : Balanced I n es (I.input.operations.flatMap (·.changedSections I.base)) [])
    (hdisciplined : (n.proposal I).Disciplined I)
    (hmeets : ((n.proposal I).patch (es.map (·.after))).Meets c.world) :
    ((n.proposal I).patch (es.map (·.after))).Covers c.world := by
  have hputs := puts_of_balanced hbalanced
  obtain ⟨ts, htrace, -⟩ := hbalanced.trace
  refine ⟨fun key r after hchange => ?_, fun key hnone => ?_, fun key t hput owner hnone => ?_⟩
  · obtain ⟨htied, change, hmem, rfl, heq⟩ := (change_eq_some hputs.nodup).1 hchange
    obtain ⟨hbefore, rfl⟩ := Prod.mk.inj heq
    rw [(revision_of_change hbase htrace hmem htied hbefore).2]
    exact Nat.lt_succ_self r
  · refine tiesOf_eq_none.2 fun htied hput => change_eq_none.1 hnone htied ?_
    obtain ⟨s, hs, rfl⟩ := mem_map.1 hput
    obtain ⟨change, hchange, hkey, -⟩ := hputs.entry s hs
    exact mem_map.2 ⟨change, hchange, hkey⟩
  · obtain ⟨-, s, hs, rfl, rfl⟩ := (tiesOf_eq_some hputs.distinct).1 hput
    obtain ⟨e, he, rfl⟩ := mem_map.1 hs
    by_cases htied : owner.kind.tied
    · exact owner_of_balanced hbase hbalanced hdisciplined (fresh_of_meets hbalanced hmeets) he
        (change_eq_none.1 hnone htied)
    · -- Only sections and link groups have parts.
      have hkind : owner.kind ≠ .narrativeNode ∧ owner.kind ≠ .linkGroup := by
        constructor <;> intro hkind <;> simp [hkind, EditEntityKind.tied] at htied
      refine iff_of_false (fun howner => ?_) fun howner => ?_
      · obtain ⟨s, -, hs⟩ := load?_of_owner howner
        exact (kind_of_owner hs).elim hkind.1 hkind.2
      · exact (kind_of_owner howner).elim hkind.1 hkind.2

/-- Everything with ties that is put, or is around what is put, is good after the puts. -/
theorem tieRule_of_trace {l : EditLoad} (hloaded : Loaded c l [] []) (hstate : l.state = I.state)
    (hwell : WellTied tieRule c.tie) (htrace : Trace I n es ps ts)
    (hfresh : ∀ e ∈ es, e.before = none → c.tie e.key = .loose)
    (hvalid : n.validateLinkGroups = .ok ())
    (hkey : key.kind = .linkGroup → key ∈ es.map (·.key)) (htied : key.kind.tied) :
    tieRule key ((I.base.run es).tiesOver c key) (parts ((I.base.run es).tiesOver c) key) := by
  obtain ⟨kind, id⟩ := key
  cases kind with
  | narrativeNode =>
    have hsections := SectionsTied.of_trace hloaded hstate hwell htrace hfresh
    exact ⟨hsections.empty id, fun hgroup => by cases hgroup⟩
  | linkGroup => exact tieRule_of_group hloaded hstate hwell htrace hfresh hvalid (hkey rfl)
  | clip =>
    refine ⟨fun _ => Set.eq_empty_of_forall_notMem fun j hj => ?_, fun hgroup => by cases hgroup⟩
    rcases kind_of_tiesOver hj with h | h <;> cases h
  | _ => cases htied

end

/-- Puts without ties change none. -/
theorem tiesOver_run_append {t : EntityTable} {c : Content} {es es' : List Emission}
    (h : ∀ e ∈ es', e.key.kind.tied = false) :
    (t.run (es ++ es')).tiesOver c = (t.run es).tiesOver c := by
  funext key
  by_cases hmem : key ∈ es'.map (·.key)
  · obtain ⟨e, he, rfl⟩ := mem_map.1 hmem
    rw [tiesOver_of_not_tied (h e he), tiesOver_of_not_tied (h e he)]
  · rw [tiesOver, run_append, find?_run_of_not_mem hmem, ← tiesOver]

/-- What is normalized was made in the project as it is. -/
theorem madeIn_of_normalizeRequest [Uniseg] {p : Project} {proposalID : ID}
    {runID turnID : Option ID} {actor : ActorRef} {allocation : List LocalAllocation}
    {input : EditProposeInput} {proposal : EditProposal}
    (h : p.normalizeRequest proposalID runID turnID actor allocation input = .ok proposal)
    (hwell : WellTied tieRule p.content.tie) :
    ∃ states back, proposal.MadeIn states back p.content.world := by
  simp only [Project.normalizeRequest, normalizeEditProposal, steps_ok] at h
  obtain ⟨state, hload, hvalid, n, hrun, rfl⟩ := h
  obtain ⟨l, hstate, hloaded⟩ := loaded_of_loadEditNormalizationState hload
  set I : NormalizeEditInput := { proposalID, runID, turnID, actor, allocation, input, state }
  have hkeyed : I.TracksKeyed := tracksKeyed_of_load hload
  have hbase : ∀ {key s}, I.base.find? key = some s → p.content.load? key = some s :=
    fun {key s} h => hloaded.entities (by rw [hstate]; exact h)
  obtain ⟨es, es', m, hm, hgroups, -, -, hbalanced, halignments, -⟩ :=
    runNormalizer_emits hkeyed hrun
  have hdisciplined := disciplined_of_balanced hbalanced fun key hkey =>
    created_of_allocates hkeyed hvalid hrun hkey
  have hputs := puts_of_balanced hbalanced
  obtain ⟨_, htrace, -⟩ := hbalanced.trace
  obtain ⟨_, hmtrace, -⟩ := hm.trace
  have hkeys : n.inverse.map (·.key) = (es ++ es').map (·.key) := by
    rw [htrace.inverse, List.map_map]
    exact map_congr_left fun e he => key_inverseOf htrace he
  have hstates : ((es ++ es').map (·.after)).map (·.key) = (es ++ es').map (·.key) := map_map
  refine ⟨(es ++ es').map (·.after), n.inverse.reverse, hputs, rfl, ?_, fun key => ?_,
    ⟨hwell, ?_, covers_of_balanced hbase hbalanced hdisciplined, ?_⟩, ?_⟩
  · rw [map_reverse, nodup_reverse, hkeys]
    exact htrace.nodup
  · rw [map_reverse, mem_reverse, hkeys, hstates]
  · intro key r after hchange
    obtain ⟨htied, change, hmem, rfl, heq⟩ := (change_eq_some hputs.nodup).1 hchange
    rw [revision?_world_of_tied htied]
    exact (revision_of_change hbase htrace hmem htied (congrArg Prod.fst heq)).1
  · intro hmeets key change hchange
    obtain ⟨htied, entry, hentry, rfl, -⟩ := (change_eq_some hputs.nodup).1 hchange
    have hfresh := fresh_of_meets hbalanced hmeets
    -- The alignments, which are put last, have no ties.
    have hlast : ∀ e ∈ es', e.key.kind.tied = false := fun e he => by rw [halignments e he]; rfl
    rw [ties_of_trace hbase htrace, tiesOver_run_append hlast]
    refine tieRule_of_trace hloaded hstate hwell hmtrace
      (fun e he => hfresh e (mem_append_left es' he)) hgroups (fun hkind => ?_) htied
    -- A link group is only among the changes if it is put.
    have hput : entry.key ∈ (es ++ es').map (·.key) := by
      rw [← hstates]
      by_contra hnot
      rcases hputs.around entry hentry hnot with h | h <;> cases hkind.symm.trans h
    rw [map_append, mem_append] at hput
    refine hput.resolve_right fun hmem => ?_
    obtain ⟨e, he, hekey⟩ := mem_map.1 hmem
    have halignment := halignments e he
    rw [hekey, hkind] at halignment
    cases halignment
  · intro hmeets s hs
    rw [mem_reverse, htrace.inverse] at hs
    obtain ⟨e, he, rfl⟩ := mem_map.1 hs
    rw [tie_inverseOf, key_inverseOf htrace he]
    exact (tieBefore_of_trace hbase htrace (fresh_of_meets hbalanced hmeets) he).symm

end OpenCut
