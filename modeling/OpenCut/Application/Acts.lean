import OpenCut.Application.CaptionCues
import OpenCut.Application.Emissions
import OpenCut.Lib.Keyed

/-!
# What the operations on clips do, and what a request does

An operation on clips puts the clip that it names, the other members of its link group if it is of
linked scope, and the last member that is left when a clip leaves its group: this can be read off
the operation and the loaded state (`EditOperationInput.acts`). The handlers go over the members in
a loop; in between, the group is owed, and the end of the operation puts it.

With these, every operation of a request has its lemma (`normalizeEntityOperation_handles`), and a
run of the normalizer leaves a trace (`runNormalizer_emits`).
-/

namespace OpenCut

open Outcome EntityTable List EditOperationInput Option Emission Subset
open EntityState (childOf group?)

/-- The keys of clips. -/
def clipKeys (ids : List ID) : List EntityKey := ids.map fun id => ⟨.clip, id⟩

@[simp]
theorem mem_clipKeys {ids : List ID} {k : EntityKey} : k ∈ clipKeys ids ↔
    ∃ id ∈ ids, k = ⟨.clip, id⟩ := by
  simp [clipKeys, eq_comm]

section Scope

variable (t : EntityTable) (members : ID → List ID) (clipID : ID)

/-- The link group of a clip. -/
def EntityTable.groupOf : Option ID := (t.clip? clipID).bind (·.linkGroupID)

/-- The clips that an operation acts on. -/
def scopeMembers : ClipMutationScope → List ID
  | .single => [clipID]
  | .linked => (t.groupOf clipID).elim [] members

/-- The clip is a live member of the group. -/
def EntityTable.liveIn (group id : ID) : Bool :=
  (t.clip? id).any fun clip => !clip.tombstoned && clip.linkGroupID == some group

/-- The live members of the group other than the clip. -/
def otherMembers (group : ID) : List ID :=
  (members group).filter fun id => id != clipID && t.liveIn group id

/-- The members that are taken out of a group of which too few are left. -/
def leftBehind : ClipMutationScope → List ID
  | .linked => []
  | .single => (t.groupOf clipID).elim [] fun group =>
    if 2 ≤ (otherMembers t members clipID group).length then []
    else otherMembers t members clipID group

end Scope

/-- The nodes, captions and clips of the table that the operation puts, other than by setting a
    placement. -/
def EditOperationInput.acts (t : EntityTable) (members : ID → List ID) :
    EditOperationInput → List EntityKey
  | .updateNarrativeNode id _ | .moveNarrativeNode id _ _ | .removeNarrativeNode id =>
    [⟨.narrativeNode, id⟩]
  | .updateCaption id _ _ _ | .removeCaption id => [⟨.caption, id⟩]
  | .moveClip id scope _ _ | .trimClip id scope _ _ => clipKeys (scopeMembers t members id scope)
  | .splitClip id scope _ _ _ _ | .removeClip id scope =>
    clipKeys (scopeMembers t members id scope ++ leftBehind t members id scope)
  | .linkClips _ clips => clipKeys clips
  | .unlinkClips group => clipKeys (members group)
  | _ => []

/-- The clip whose placement the operation sets. -/
def EditOperationInput.places : EditOperationInput → Option ID
  | .setClipPlacement id _ => some id
  | _ => none

/-- The members of the link groups, as they are loaded. -/
def NormalizeEditInput.members (I : NormalizeEditInput) (group : ID) : List ID :=
  (I.state.linkGroupClips.find? group).getD []

/-- The halves that are declared for a clip. -/
def ClipSplitOutputInput.halves (output : ClipSplitOutputInput) : List (LocalID × EditEntityKind) :=
  [(output.leftAs, .clip), (output.rightAs, .clip)]

/-- The link group that is declared for a clip. -/
def ClipLinkGroupInput.names : Option ClipLinkGroupInput → List (LocalID × EditEntityKind)
  | some (.create name) => [(name, .linkGroup)]
  | _ => []

/-- The local names whose entities an operation on entities creates. -/
def EditOperationInput.creations : EditOperationInput → List (LocalID × EditEntityKind)
  | .bindAlignment .. => []
  | .splitClip _ .single _ outputs _ _ => outputs.flatMap (·.halves)
  | op => op.createdLocals

namespace EditNormalizer

variable {I : NormalizeEditInput} {n m n' : EditNormalizer} {es es' : List Emission}
  {ps ps' owed owed' : List ID} {names : List (LocalID × EditEntityKind)}

/-! ## Clips -/

variable {id trackID : ID} {next s : ClipState} {sourceRange timelineRange : TimeRange}
  {tombstoned : Bool} {name : LocalID}

theorem requireTrack_ok (hkeyed : I.TracksKeyed) (h : n.requireTrack I id = .ok n') :
    I.HasTrack id ∧ ∃ track, I.state.tracks.find? id = some track ∧ n' = n.changeTrack track := by
  simp only [requireTrack, steps_ok] at h
  obtain ⟨track, htrack, hrequire, rfl⟩ := h
  exact ⟨⟨track, htrack, hkeyed _ _ htrack ▸ I.requires_of_ok hrequire⟩, track, htrack, rfl⟩

theorem requireTrack_kept (h : n.requireTrack I id = .ok n') :
    n'.working = n.working ∧ n'.operations = n.operations ∧ n'.changes = n.changes ∧
      n'.touched = n.touched := by
  simp only [requireTrack, steps_ok] at h
  obtain ⟨_, -, -, rfl⟩ := h
  exact ⟨rfl, rfl, rfl, rfl⟩

variable {current : ClipState}

/-- A clip is touched and put. -/
theorem putExistingClip_puts {trackChanged : Bool}
    (h : n.putExistingClip I current next trackChanged = .ok n') :
    n'.working = n.working.put (.clip next) ∧ n'.operations = n.operations ++ [.clip next] ∧
      n'.changes = n.changes ++ [changeOf (some (.clip current)) (.clip next)] ∧
      n'.touched = ⟨.clip, current.id⟩ :: n.touched ∧ ⟨.clip, current.id⟩ ∉ n.touched := by
  simp only [putExistingClip, steps_ok, markTouched_ok] at h
  obtain ⟨_, ⟨huntouched, rfl⟩, -, h⟩ := h
  split at h
  · obtain ⟨m, hm, h⟩ := bind_ok.1 h
    obtain ⟨hworking, hoperations, hchanges, htouched⟩ := requireTrack_kept hm
    obtain ⟨hworking', hoperations', hchanges', htouched'⟩ := requireTrack_kept h
    exact ⟨hworking'.trans hworking, hoperations'.trans hoperations, hchanges'.trans hchanges,
      htouched'.trans htouched, huntouched⟩
  · cases h
    exact ⟨rfl, rfl, rfl, rfl, huntouched⟩

/-- A clip is put that was not there. -/
theorem putNewClip_puts (h : n.putNewClip I s = .ok n') :
    n.working.clip? s.id = none ∧ n'.working = n.working.put (.clip s) ∧
      n'.operations = n.operations ++ [.clip s] ∧
      n'.changes = n.changes ++ [changeOf none (.clip s)] ∧
      n'.touched = ⟨.clip, s.id⟩ :: n.touched := by
  simp only [putNewClip, steps_ok, markTouched_ok] at h
  obtain ⟨hnone, _, ⟨-, rfl⟩, h⟩ := h
  exact ⟨hnone, requireTrack_kept h⟩

/-- The normalizer after a clip is put and both its tracks are recorded. -/
theorem putExistingClip_moved (hkeyed : I.TracksKeyed)
    (hop : n.putExistingClip I s next true = .ok n') :
    ⟨.clip, s.id⟩ ∉ n.touched ∧ I.HasTrack s.trackID ∧ I.HasTrack next.trackID ∧
      ∃ old new, I.state.tracks.find? s.trackID = some old ∧
        I.state.tracks.find? next.trackID = some new ∧
        n' = (((n.mark ⟨.clip, s.id⟩).put
          (some (.clip s)) (.clip next)).changeTrack old).changeTrack new := by
  simp only [putExistingClip, steps_ok, markTouched_ok, if_true] at hop
  obtain ⟨_, ⟨huntouched, rfl⟩, -, m, hm, hop⟩ := hop
  obtain ⟨hold, old, hfindOld, rfl⟩ := requireTrack_ok hkeyed hm
  obtain ⟨hnew, new, hfindNew, rfl⟩ := requireTrack_ok hkeyed hop
  exact ⟨huntouched, hold, hnew, old, new, hfindOld, hfindNew, rfl⟩

/-- The normalizer after a clip is put that stays on its track. -/
theorem putExistingClip_kept (hop : n.putExistingClip I s next false = .ok n') :
    ⟨.clip, s.id⟩ ∉ n.touched ∧ n' = (n.mark ⟨.clip, s.id⟩).put (some (.clip s)) (.clip next) := by
  simp only [putExistingClip, steps_ok, markTouched_ok] at hop
  obtain ⟨_, ⟨huntouched, rfl⟩, -, hop⟩ := hop
  exact ⟨huntouched, (pure_ok.1 hop).symm⟩

/-- A clip that is moved, trimmed or taken off the timeline; if it leaves its link group,
    the group is owed. Its new track may be on record already. -/
theorem changeClip_handles (hkeyed : I.TracksKeyed) (h : Balanced I n es ps owed)
    (hs : n.working.clip? s.id = some s) (hlive : s.tombstoned = false)
    (howed : tombstoned = true → ∀ g ∈ s.linkGroupID, g ∈ owed) {m : EditNormalizer}
    (hm : m = n ∨ ∃ track, I.state.tracks.find? trackID = some track ∧ m = n.changeTrack track)
    (hop : m.putExistingClip I s { s with
      revision := s.revision + 1, trackID := trackID, sourceRange := sourceRange,
      timelineRange := timelineRange, tombstoned := tombstoned } true = .ok n') :
    Handles I n n' es ps owed [⟨.clip, s.id⟩] [] := by
  obtain ⟨huntouched, hold, hnew, old, new, hfindOld, hfindNew, rfl⟩ :=
    putExistingClip_moved hkeyed hop
  let e : Emission := ⟨some (.clip s), .clip { s with
    revision := s.revision + 1, trackID := trackID, sourceRange := sourceRange,
    timelineRange := timelineRange, tombstoned := tombstoned }, [], [s.trackID, trackID]⟩
  have hput : ∀ ts, Trace I m es ps ts → m.working.clip? s.id = some s →
      Trace I (((({ m with touched := ⟨.clip, s.id⟩ :: m.touched } : EditNormalizer).put
        e.before e.after).changeTrack old).changeTrack new) (es ++ [e]) ps
        (ts ++ [s.trackID] ++ [trackID]) := by
    intro ts ht hs
    rw [ht.working] at hs
    exact (((ht.mark _).put_entity e mem_cons_self (ht.not_mem_keys huntouched)
      (.changeClip hs hlive hold hnew) fun id => by
        simp [e, gain, childOf]).changeTrack hfindOld
        (hkeyed _ _ hfindOld)).changeTrack hfindNew (hkeyed _ _ hfindNew)
  have hregroup : ∀ g, e.Regroups g → ⟨.linkGroup, g⟩ ∈ es.map (·.key) ∨ g ∈ owed := by
    intro g hg
    simp only [e, Emission.Regroups, group?, bind_some, hlive] at hg
    cases tombstoned with
    | false => simp at hg
    | true => exact .inr (howed rfl g (by simpa using hg))
  rcases hm with rfl | ⟨_, htrack, rfl⟩
  · refine ⟨_, .put_existing rfl rfl ⟨rfl, rfl⟩ (h.emit (e := e)
      (fun ts ht => ⟨[s.trackID, trackID], ?_, by simp [e]⟩) (refl _) rfl hregroup)⟩
    rw [append_cons ts]
    exact hput ts ht hs
  · refine ⟨_, .put_existing rfl rfl ⟨rfl, rfl⟩ (h.emit (e := e)
      (fun ts ht => ⟨[trackID, s.trackID, trackID], ?_, ?_⟩) (refl _) rfl hregroup)⟩
    · rw [append_cons ts, append_cons (ts ++ [trackID])]
      exact hput _ (ht.changeTrack htrack (hkeyed _ _ htrack)) hs
    · intro id
      simp only [e, mem_cons, not_mem_nil, or_false]
      tauto

variable {group : Option ID}

/-- A clip that changes its link group. -/
theorem relinkClip_handles (h : Balanced I n es ps owed) (hs : n.working.clip? s.id = some s)
    (hlive : s.tombstoned = false) (hgroup : group ≠ s.linkGroupID)
    (hleft : ∀ g ∈ s.linkGroupID, g ∈ owed) (hjoined : ∀ g ∈ group, ⟨.linkGroup, g⟩ ∈ n.touched)
    (hop : n.putExistingClip I s
      { s with revision := s.revision + 1, linkGroupID := group } false = .ok n') :
    Handles I n n' es ps owed [⟨.clip, s.id⟩] [] := by
  obtain ⟨huntouched, rfl⟩ := putExistingClip_kept hop
  rw [h.working] at hs
  refine ⟨_, .put_existing rfl rfl ⟨rfl, rfl⟩ (h.put (.relinkClip hs hlive hgroup) huntouched
    (by simp [gain, childOf]) fun g hg => ?_)⟩
  have hg : ¬(s.linkGroupID = some g ↔ group = some g) := by
    simpa [Emission.Regroups, group?, hlive] using hg
  by_cases hbefore : s.linkGroupID = some g
  · exact .inr (hleft g hbefore)
  · have hafter : group = some g := by
      by_contra hn
      exact hg ⟨fun hb => absurd hb hbefore, fun ha => absurd ha hn⟩
    exact .inl (h.settled _ (hjoined g hafter))

/-- A clip that is new. -/
theorem putNewClip_handles (hkeyed : I.TracksKeyed) (h : Balanced I n es ps owed)
    (hid : I.allocated name .clip = .ok s.id) (hrevision : s.revision = 1)
    (hlive : s.tombstoned = false) (hgroup : ∀ g ∈ s.linkGroupID, ⟨.linkGroup, g⟩ ∈ n.touched)
    (hop : n.putNewClip I s = .ok n') : Handles I n n' es ps owed [] [(name, .clip)] := by
  simp only [putNewClip, steps_ok, markTouched_ok] at hop
  obtain ⟨hnew, _, ⟨huntouched, rfl⟩, hop⟩ := hop
  obtain ⟨hhas, _, htrack, rfl⟩ := requireTrack_ok hkeyed hop
  let e : Emission := ⟨none, .clip s, [], [s.trackID]⟩
  refine ⟨_, .put_new hid rfl ⟨rfl, rfl⟩ (h.emit (e := e)
    (fun ts ht => ⟨[s.trackID], ?_, by simp [e]⟩) (refl _) rfl fun g hg => ?_)⟩
  · rw [ht.working] at hnew
    exact ((ht.mark _).put_entity e mem_cons_self (ht.not_mem_keys huntouched)
      (.newClip (I.allocates_of_ok hid) hnew hrevision hlive hhas
        fun g hg => h.settled _ (hgroup g hg)) fun id => by
        simp [e, gain, childOf]).changeTrack htrack (hkeyed _ _ htrack)
  · exact .inl (h.settled _ (hgroup g (by simpa [e, Emission.Regroups, group?, hlive] using hg)))

/-! ## Link groups -/

variable {g : ID} {members : List ID}

section

variable (h : Balanced I n es ps owed)
include h

/-- A link group that is new, without members. -/
theorem newLinkGroup_handles
    (hid : I.allocated name .linkGroup = .ok id) (hnew : n.working.linkGroup? id = none)
    (huntouched : ⟨.linkGroup, id⟩ ∉ n.touched) :
    Handles I n ((n.mark ⟨.linkGroup, id⟩).putNewLinkGroup id) es ps owed []
      [(name, .linkGroup)] := by
  rw [h.working] at hnew
  have hput : Handles I n ((n.mark ⟨.linkGroup, id⟩).put
      none (.linkGroup { id, revision := 1, tombstoned := false })) es ps owed []
      [(name, .linkGroup)] :=
    ⟨_, .put_new hid rfl ⟨rfl, rfl⟩
      (h.put (.newGroup (I.allocates_of_ok hid) hnew rfl rfl) huntouched
      (by simp [gain, childOf]) (by simp [Emission.Regroups, group?]))⟩
  exact hput.setMembers mem_cons_self []

theorem createLinkGroup_handles (hop : n.createLinkGroup I name = .ok (n', id)) :
    Handles I n n' es ps owed [] [(name, .linkGroup)] ∧ ⟨.linkGroup, id⟩ ∈ n'.touched := by
  simp only [createLinkGroup, steps_ok, markTouched_ok, Prod.mk.injEq] at hop
  obtain ⟨id, hid, hnew, _, ⟨huntouched, rfl⟩, rfl, rfl⟩ := hop
  exact ⟨newLinkGroup_handles h hid hnew huntouched, mem_cons_self⟩

/-- A link group that was there. -/
theorem changeLinkGroup_handles {s : LinkGroupState}
    (hs : n.working.linkGroup? s.id = some s) (hlive : s.tombstoned = false)
    (hrequire : I.Requires ⟨.linkGroup, s.id⟩ s.revision)
    (huntouched : ⟨.linkGroup, s.id⟩ ∉ n.touched)
    (tombstoned : Bool) :
    Handles I n ((n.mark ⟨.linkGroup, s.id⟩).put
      (some (.linkGroup s)) (.linkGroup { s with revision := s.revision + 1, tombstoned }))
      es ps owed [] [] := by
  rw [h.working] at hs
  exact ⟨_, .put_other rfl ⟨rfl, rfl⟩ (h.put (.changeGroup hs hlive hrequire) huntouched
    (by simp [gain, childOf]) (by simp [Emission.Regroups, group?]))⟩

end

/-- A link group is advanced or dissolved, and not owed any more. -/
theorem putExistingLinkGroup_handles (h : Balanced I n es ps (id :: owed))
    (hop : n.putExistingLinkGroup I id tombstoned = .ok n') :
    Handles I n n' es ps owed [] [] ∧ ⟨.linkGroup, id⟩ ∉ n.touched ∧
      ⟨.linkGroup, id⟩ ∈ n'.touched := by
  simp only [putExistingLinkGroup, steps_ok, markTouched_ok] at hop
  obtain ⟨s, hs, hlive, _, ⟨huntouched, rfl⟩, hrequire, rfl⟩ := hop
  obtain rfl := id_of_linkGroup? hs
  exact ⟨(changeLinkGroup_handles h hs hlive (I.requires_of_ok hrequire) huntouched
    tombstoned).pay mem_cons_self, huntouched, mem_cons_self⟩

theorem closeGroup_handles (h : Balanced I n es ps (g :: owed))
    (hop : (n.setMembers g members).putExistingLinkGroup I g tombstoned = .ok n') :
    Handles I n n' es ps owed [] [] ∧ ⟨.linkGroup, g⟩ ∉ n.touched := by
  simp only [putExistingLinkGroup, steps_ok, markTouched_ok] at hop
  obtain ⟨s, hs, hlive, _, ⟨huntouched, rfl⟩, hrequire, rfl⟩ := hop
  obtain rfl := id_of_linkGroup? hs
  have hput := (changeLinkGroup_handles h hs hlive (I.requires_of_ok hrequire)
    huntouched tombstoned).pay mem_cons_self
  exact ⟨hput.setMembers mem_cons_self members, huntouched⟩

/-! ## Operations on clips -/

variable {clipID : ID} {scope : ClipMutationScope} {membershipChange : Bool} {seed : ClipState}
  {splitAt : RationalTime} {outputs : List ClipSplitOutputInput}

section

variable (hop : n.clipMutationMembers I clipID scope membershipChange = .ok (members, seed))
include hop

/-- The clips that an operation acts on: the clip it names, or all members of its group. -/
theorem clipMutationMembers_cases : (n.working.clip? clipID = some seed ∧ seed.tombstoned = false) ∧
    ((scope = .single ∧ members = [clipID]) ∨
      (scope = .linked ∧ ∃ group, seed.linkGroupID = some group.id ∧
        n.working.linkGroup? group.id = some group ∧ members.Perm (n.members group.id) ∧
        (n.members group.id).forM (n.requireMember I group.id) = .ok ())) := by
  simp only [clipMutationMembers, steps_ok] at hop
  obtain ⟨s, hs, hlive, -, hop⟩ := hop
  cases scope with
  | single =>
    have hmembers : ([s.id], s) = (members, seed) := by
      cases hgroup : s.linkGroupID with
      | none => simpa only [hgroup, pure_ok] using hop
      | some g =>
        simp only [hgroup] at hop
        split at hop
        · simp only [steps_ok] at hop
          obtain ⟨-, -, -, -, hop⟩ := hop
          exact hop
        · simpa only [pure_ok] using hop
    cases hmembers
    exact ⟨⟨hs, hlive⟩, .inl ⟨rfl, by rw [id_of_clip? hs]⟩⟩
  | linked =>
    simp only [steps_ok, Prod.mk.injEq] at hop
    obtain ⟨g, hg, group, hgroup, -, -, hmembers, -, rfl, rfl⟩ := hop
    obtain rfl := id_of_linkGroup? hgroup
    exact ⟨⟨hs, hlive⟩, .inr ⟨rfl, group, hg, hgroup, perm_insertionSort _ _, hmembers⟩⟩

/-- The clips that an operation acts on are live members of one link group, or a single
    clip. -/
theorem clipMutationMembers_ok :
    ∀ id ∈ members, ∃ s, n.working.clip? id = some s ∧ s.tombstoned = false ∧
      s.linkGroupID = seed.linkGroupID := by
  obtain ⟨⟨hseed, hlive⟩, ⟨-, rfl⟩ | ⟨-, _, hg, -, hperm, hmembers⟩⟩ :=
    clipMutationMembers_cases hop
  · intro id hmem
    rw [mem_singleton.1 hmem]
    exact ⟨seed, hseed, hlive, rfl⟩
  · intro id hmem
    have hmember := forM_ok.1 hmembers id (hperm.mem_iff.1 hmem)
    simp only [requireMember, steps_ok] at hmember
    obtain ⟨member, hmember, hin, -⟩ := hmember
    simp only [Bool.and_eq_true, Bool.not_eq_true', beq_iff_eq] at hin
    exact ⟨member, hmember, hin.1, hin.2.trans hg.symm⟩

end

/-- The clips that an operation acts on, and the clip it names. -/
theorem scopeMembers_of_ok
    (h : n.clipMutationMembers I clipID scope membershipChange = .ok (members, seed)) :
    n.working.clip? clipID = some seed ∧
      members.Perm (scopeMembers n.working n.members clipID scope) := by
  obtain ⟨⟨hseed, -⟩, ⟨rfl, rfl⟩ | ⟨rfl, _, hg, -, _, -⟩⟩ := clipMutationMembers_cases h
  · exact ⟨hseed, List.Perm.refl _⟩
  · refine ⟨hseed, ?_⟩
    rwa [scopeMembers, groupOf, hseed, bind_some, hg]

/-- A clip that an operation acts on is, until it is touched, as at the beginning. -/
theorem member_of_start (h : Balanced I n es ps owed)
    (hmembers : n.clipMutationMembers I clipID scope membershipChange = .ok (members, seed))
    (hid : id ∈ members) (hes : es <+: es') (hm : Balanced I m es' ps' owed')
    (hs : m.working.clip? id = some s) (huntouched : ⟨.clip, id⟩ ∉ m.touched) :
    n.working.clip? id = some s ∧ s.tombstoned = false ∧ s.linkGroupID = seed.linkGroupID := by
  obtain ⟨s', hs', hlive⟩ := clipMutationMembers_ok hmembers id hid
  have hsame : n.working.clip? id = m.working.clip? id := by
    unfold clip?
    rw [hm.find?_of_untouched huntouched,
      h.find?_of_untouched fun hmem => huntouched (h.touched_mono hm hes hmem)]
  obtain rfl := mem_unique hs' (hsame.trans hs)
  exact ⟨hs', hlive⟩

/-- The loop of an operation over the clips that it acts on. -/
theorem members_handle {f : EditNormalizer → ID → Except EditError EditNormalizer}
    (h : Balanced I n es ps owed)
    (hf : ∀ id ∈ members, ∀ m m' es', es <+: es' → Balanced I m es' ps owed → f m id = .ok m' →
      Handles I m m' es' ps owed [⟨.clip, id⟩] []) (hop : members.foldlM f n = .ok n') :
    Handles I n n' es ps owed (clipKeys members) [] :=
  (Handles.loop h hf hop).congr (fun k => by simp) (nil_subset _)

variable {delta : RationalTime}

theorem moveMember_ok (hop : n.moveMember I seed trackID delta id = .ok n') :
    ∃ s start track k, n.working.clip? id = some s ∧ s.id = id ∧
      s.timelineRange.start.add? delta = some start ∧
      (k = n ∨ ∃ t, I.state.tracks.find? track = some t ∧ k = n.changeTrack t) ∧
      k.putExistingClip I s { s with
        revision := s.revision + 1, trackID := track,
        timelineRange := { s.timelineRange with start } } true = .ok n' := by
  simp only [moveMember, steps_ok] at hop
  obtain ⟨s, hs, start, hstart, -, hop⟩ := hop
  have hid := id_of_clip? hs
  split at hop
  · simp only [steps_ok] at hop
    obtain ⟨track, htrack, -, -, -, -, hop⟩ := hop
    exact ⟨s, start, trackID, _, hs, hid, hstart, .inr ⟨track, htrack, rfl⟩, hop⟩
  · exact ⟨s, start, s.trackID, n, hs, hid, hstart, .inl rfl, hop⟩

theorem moveMember_handles (hkeyed : I.TracksKeyed) (h : Balanced I n es ps owed)
    (hmembers : n.clipMutationMembers I clipID scope false = .ok (members, seed))
    (hid : id ∈ members) (hes : es <+: es') (hm : Balanced I m es' ps owed)
    (hop : m.moveMember I seed trackID delta id = .ok n') :
    Handles I m n' es' ps owed [⟨.clip, id⟩] [] := by
  obtain ⟨s, _, _, k, hs, rfl, -, hk, hput⟩ := moveMember_ok hop
  have huntouched : ⟨.clip, s.id⟩ ∉ m.touched := by
    rcases hk with rfl | ⟨t, -, rfl⟩ <;> exact (putExistingClip_moved hkeyed hput).1
  obtain ⟨-, hlive, -⟩ := member_of_start h hmembers hid hes hm hs huntouched
  exact changeClip_handles hkeyed hm hs hlive
    (fun htombstoned => absurd (hlive.symm.trans htombstoned) Bool.false_ne_true) hk hput

theorem moveClip_handles (hkeyed : I.TracksKeyed) (h : Balanced I n es ps owed)
    {timelineStart : RationalTime}
    (hop : n.moveClip I clipID scope trackID timelineStart = .ok n') :
    Handles I n n' es ps owed (clipKeys (scopeMembers n.working n.members clipID scope)) [] := by
  simp only [moveClip, steps_ok] at hop
  obtain ⟨⟨_, _⟩, hmembers, _, -, hop⟩ := hop
  exact (members_handle h (fun id hid m m' es' hes hm hm' =>
    moveMember_handles hkeyed h hmembers hid hes hm hm') hop).congr
    (fun k => by simp only [mem_clipKeys, (scopeMembers_of_ok hmembers).2.mem_iff]) (refl _)

theorem trimMember_ok {left right : RationalTime} (hop : n.trimMember I left right id = .ok n') :
    ∃ s source timeline stream, n.working.clip? id = some s ∧ s.id = id ∧
      rangeWithBoundaryDeltas s.sourceRange left right = .ok source ∧
      rangeWithBoundaryDeltas s.timelineRange left right = .ok timeline ∧
      I.state.sourceStreams.find? s.sourceStreamID = some stream ∧
      sourceRangeWithin source stream.descriptor ∧
      n.putExistingClip I s { s with
        revision := s.revision + 1, sourceRange := source
        timelineRange := timeline } true = .ok n' := by
  simp only [trimMember, steps_ok] at hop
  obtain ⟨s, hs, source, hsource, timeline, htimeline, -, stream, hstream, hwithin, hop⟩ := hop
  exact ⟨s, source, timeline, stream, hs, id_of_clip? hs, hsource, htimeline, hstream, hwithin, hop⟩

theorem trimMember_handles (hkeyed : I.TracksKeyed) (h : Balanced I n es ps owed)
    {left right : RationalTime}
    (hmembers : n.clipMutationMembers I clipID scope false = .ok (members, seed))
    (hid : id ∈ members) (hes : es <+: es') (hm : Balanced I m es' ps owed)
    (hop : m.trimMember I left right id = .ok n') :
    Handles I m n' es' ps owed [⟨.clip, id⟩] [] := by
  obtain ⟨s, _, _, -, hs, rfl, -, -, -, -, hput⟩ := trimMember_ok hop
  obtain ⟨-, hlive, -⟩ :=
    member_of_start h hmembers hid hes hm hs (putExistingClip_moved hkeyed hput).1
  exact changeClip_handles hkeyed hm hs hlive
    (fun htombstoned => absurd (hlive.symm.trans htombstoned) Bool.false_ne_true) (.inl rfl) hput

theorem trimClip_handles (hkeyed : I.TracksKeyed) (h : Balanced I n es ps owed)
    (hop : n.trimClip I clipID scope sourceRange timelineRange = .ok n') :
    Handles I n n' es ps owed (clipKeys (scopeMembers n.working n.members clipID scope)) [] := by
  simp only [trimClip, steps_ok] at hop
  obtain ⟨⟨_, _⟩, hmembers, _, -, -, -, -, -, _, -, -, hop⟩ := hop
  exact (members_handle h (fun id hid m m' es' hes hm hm' =>
    trimMember_handles hkeyed h hmembers hid hes hm hm') hop).congr
    (fun k => by simp only [mem_clipKeys, (scopeMembers_of_ok hmembers).2.mem_iff]) (refl _)

theorem unlinkMember_handles (h : Balanced I n es ps owed) (hs : n.working.clip? id = some s)
    (hlive : s.tombstoned = false) (hin : s.linkGroupID = some g) (howed : g ∈ owed)
    (hop : n.unlinkMember I id = .ok n') :
    Handles I n n' es ps owed [⟨.clip, id⟩] [] := by
  simp only [unlinkMember, steps_ok] at hop
  obtain ⟨_, hcurrent, -, hop⟩ := hop
  obtain rfl := mem_unique hcurrent hs
  obtain rfl := id_of_clip? hcurrent
  exact relinkClip_handles h hcurrent hlive (by simp [hin]) (by simpa [hin] using howed)
    (by simp) hop

/-- The end of an operation that takes one clip out of a group acts on the members that are left, if
    there are too few. -/
theorem finishSingle_handles (h : Balanced I n es ps (g :: owed))
    (hop : n.finishSingleMembershipRemoval I g = .ok n') :
    ⟨.linkGroup, g⟩ ∉ n.touched ∧ Handles I n n' es ps owed (
      if 2 ≤ ((n.members g).filter (n.working.liveIn g)).length then []
      else clipKeys ((n.members g).filter (n.working.liveIn g))) [] := by
  change (if 2 ≤ ((n.members g).filter (n.working.liveIn g)).length then _ else _) = _ at hop
  split at hop
  · next hlength =>
    simp only [advanceLinkGroup, steps_ok] at hop
    obtain ⟨m, hm, rfl⟩ := hop
    obtain ⟨hgroup, huntouched, htouched⟩ := putExistingLinkGroup_handles h hm
    rw [if_pos hlength]
    exact ⟨huntouched, hgroup.setMembers htouched _⟩
  · next hlength =>
    obtain ⟨m, hm, hop⟩ := bind_ok.1 hop
    rw [if_neg hlength]
    have hmembers := members_handle h (fun id hid k k' es' hes hk hk' => ?_) hm
    · refine ⟨fun hmem => ?_, (hmembers.trans fun es' _ h' => (closeGroup_handles h' hop).1).congr
        (fun k => by rw [append_nil]; rfl) (refl _)⟩
      obtain ⟨es', h'⟩ := hmembers.emits
      exact (closeGroup_handles h' hop).2 (h.touched_mono h' (prefix_append _ _) hmem)
    · -- A member that is left is in the group, and still as at the beginning.
      rw [mem_filter, Option.any_eq_true] at hid
      obtain ⟨-, s, hs, hin⟩ := hid
      simp only [Bool.and_eq_true, Bool.not_eq_true', beq_iff_eq] at hin
      have huntouched : ⟨.clip, id⟩ ∉ k.touched := by
        have hput := hk'
        simp only [unlinkMember, steps_ok] at hput
        obtain ⟨_, hcurrent, -, hput⟩ := hput
        rw [← id_of_clip? hcurrent]
        exact (putExistingClip_kept hput).1
      have hsame : k.working.clip? id = n.working.clip? id := by
        unfold clip?
        rw [hk.find?_of_untouched huntouched,
          h.find?_of_untouched fun hmem => huntouched (h.touched_mono hk hes hmem)]
      exact unlinkMember_handles hk (hsame.trans hs) hin.1 hin.2 mem_cons_self hk'

/-- A clip that is put outside the group is no member of it. -/
theorem liveIn_put_outside {t : EntityTable} (hs : s.tombstoned = true ∨ s.linkGroupID = none)
    (id : ID) :
    (t.put (.clip s)).liveIn g id = (id != s.id && t.liveIn g id) := by
  unfold liveIn clip?
  rw [find?_put]
  by_cases hid : id = s.id
  · subst hid
    rw [if_pos (show (⟨.clip, s.id⟩ : EntityKey) = (EntityState.clip s).key from rfl)]
    rcases hs with hs | hs <;> simp [hs]
  · rw [if_neg]
    · simp [hid]
    · intro hkey
      exact hid (congrArg EntityKey.id hkey)

theorem liveIn_removeMember (h : n.removeMember I id = .ok n') (other : ID) :
    n'.working.liveIn g other = (other != id && n.working.liveIn g other) := by
  simp only [removeMember, steps_ok] at h
  obtain ⟨_, hcurrent, h⟩ := h
  obtain rfl := id_of_clip? hcurrent
  rw [(putExistingClip_puts h).1]
  exact liveIn_put_outside (.inl rfl) other

theorem splitClipStates_ok {output : ClipSplitOutputInput}
    {leftGroupID rightGroupID : Option ID} {left right : ClipState}
    (hop : splitClipStates I current splitAt output leftGroupID rightGroupID = .ok (left, right)) :
    (I.allocated output.leftAs .clip = .ok left.id ∧ left.revision = 1 ∧ left.tombstoned = false ∧
      left.linkGroupID = leftGroupID) ∧
    I.allocated output.rightAs .clip = .ok right.id ∧ right.revision = 1 ∧
      right.tombstoned = false ∧ right.linkGroupID = rightGroupID := by
  simp only [splitClipStates, steps_ok, Prod.mk.injEq] at hop
  obtain ⟨_, -, -, -, _, -, -, _, -, _, -, _, -, _, -, _, -, _, hleft, _, hright, rfl, rfl⟩ := hop
  exact ⟨⟨hleft, rfl, rfl, rfl⟩, hright, rfl, rfl, rfl⟩

theorem liveIn_splitMember (h : n.splitMember I splitAt outputs none none id = .ok n')
    (other : ID) : n'.working.liveIn g other = (other != id && n.working.liveIn g other) := by
  simp only [splitMember, steps_ok] at h
  obtain ⟨_, hcurrent, _, -, ⟨_, _⟩, hstates, _, hm₁, _, hm₂, h⟩ := h
  obtain rfl := id_of_clip? hcurrent
  obtain ⟨⟨-, -, -, hleft⟩, -, -, -, hright⟩ := splitClipStates_ok hstates
  -- The halves are new, and in no group.
  have hnew : ∀ {k k' : EditNormalizer} {s : ClipState}, s.linkGroupID = none →
      k.putNewClip I s = .ok k' → k'.working.liveIn g other = k.working.liveIn g other := by
    intro k k' s hs hk
    obtain ⟨hnone, hput, -⟩ := putNewClip_puts hk
    rw [hput, liveIn_put_outside (.inr hs)]
    by_cases hid : other = s.id
    · simp [hid, liveIn, hnone]
    · simp [hid]
  rw [hnew hright h, hnew hleft hm₂, (putExistingClip_puts hm₁).1]
  exact liveIn_put_outside (.inl rfl) other

theorem finishGroup_emits (h : Balanced I n es ps (g :: owed))
    (hop : n.finishGroup I scope g = .ok n') : ∃ es', Balanced I n' (es ++ es') ps owed := by
  cases scope with
  | linked => exact (putExistingLinkGroup_handles h hop).1.emits
  | single => exact (finishSingle_handles h hop).2.emits

/-- The end of an operation that takes clips away acts on the member that is left behind. -/
theorem finish_handles (hseed : n.working.clip? clipID = some seed)
    (hloop : Handles I n m es ps (seed.linkGroupID.toList ++ owed)
      (clipKeys (scopeMembers n.working n.members clipID scope)) names)
    (hlive : ∀ g, scope = .single → ∀ other,
      m.working.liveIn g other = (other != clipID && n.working.liveIn g other))
    (hop : ∀ g, seed.linkGroupID = some g → m.finishGroup I scope g = .ok n')
    (hnone : seed.linkGroupID = none → m = n') :
    Handles I n n' es ps owed (clipKeys (scopeMembers n.working n.members clipID scope ++
      leftBehind n.working n.members clipID scope)) names := by
  have hgroup : n.working.groupOf clipID = seed.linkGroupID := by rw [groupOf, hseed]; rfl
  cases hg : seed.linkGroupID with
  | none =>
    rw [hg] at hloop hgroup
    obtain rfl := hnone hg
    refine hloop.congr (fun k => ?_) (refl _)
    cases scope <;> simp [leftBehind, hgroup]
  | some g =>
    rw [hg] at hloop hgroup
    cases scope with
    | linked =>
      refine (hloop.trans fun es' _ h' => (putExistingLinkGroup_handles h' (hop g hg)).1).congr
        (fun k => by simp [leftBehind]) (by simp)
    | single =>
      obtain ⟨es', hes'⟩ := hloop
      obtain ⟨huntouched, _⟩ := finishSingle_handles hes'.balanced (hop g hg)
      have hsurvivors : (m.members g).filter (m.working.liveIn g) =
          otherMembers n.working n.members clipID g := by
        rw [hes'.members g huntouched, otherMembers]
        exact filter_congr fun other _ => hlive g rfl other
      refine (Handles.trans ⟨es', hes'⟩ fun es₁ _ h₁ =>
        (finishSingle_handles h₁ (hop g hg)).2).congr (fun k => ?_) (by simp)
      rw [hsurvivors, leftBehind, hgroup]
      simp only [elim_some, clipKeys, map_append]
      split <;> rfl

theorem removeClip_handles (hkeyed : I.TracksKeyed) (h : Balanced I n es ps owed)
    (hop : n.removeClip I clipID scope = .ok n') :
    Handles I n n' es ps owed (clipKeys (scopeMembers n.working n.members clipID scope ++
      leftBehind n.working n.members clipID scope)) [] := by
  simp only [removeClip, bind_ok] at hop
  obtain ⟨⟨_, seed⟩, hmembers, m, hm, hop⟩ := hop
  obtain ⟨hseed, hscope⟩ := scopeMembers_of_ok hmembers
  have hstart := h.owe seed.linkGroupID.toList
  have hloop := members_handle hstart (fun id hid k k' es' hes hk hk' => ?_) hm
  · refine finish_handles hseed (hloop.congr (fun k => by
      simp only [mem_clipKeys, hscope.mem_iff]) (refl _)) (fun g hsingle other => ?_)
      (fun g hg => by simpa only [hg] using hop)
      fun hnone => by simpa only [hnone, pure_ok] using hop
    subst hsingle
    rw [perm_singleton.1 hscope, foldlM_cons, bind_ok] at hm
    obtain ⟨m', hm', hm⟩ := hm
    obtain rfl := pure_ok.1 hm
    exact liveIn_removeMember hm' other
  · simp only [removeMember, steps_ok] at hk'
    obtain ⟨s, hs, hk'⟩ := hk'
    obtain rfl := id_of_clip? hs
    obtain ⟨-, hlive, hgroup⟩ := member_of_start hstart hmembers hid hes hk hs
      (putExistingClip_moved hkeyed hk').1
    refine changeClip_handles hkeyed hk hs hlive (fun _ g hg => ?_) (.inl rfl) hk'
    rw [hgroup] at hg
    exact mem_append_left _ (mem_toList.2 hg)

/-! ## Splits -/

variable {left right : Option ID}

theorem splitGroups_handles (h : Balanced I n es ps owed) {leftAs rightAs : Option LocalID}
    (hop : n.splitGroups I scope leftAs rightAs = .ok (n', left, right)) :
    Handles I n n' es ps owed [] (if scope = .linked then
      (leftAs.toList ++ rightAs.toList).map fun name => (name, .linkGroup) else []) ∧
      ∀ g, g ∈ left ∨ g ∈ right → ⟨.linkGroup, g⟩ ∈ n'.touched := by
  cases scope with
  | single =>
    cases hop
    exact ⟨.refl h, by simp⟩
  | linked =>
    simp only [splitGroups, steps_ok, Prod.mk.injEq] at hop
    obtain ⟨_, rfl, ⟨m, _⟩, hleft, _, rfl, ⟨k, _⟩, hright, rfl, rfl, rfl⟩ := hop
    obtain ⟨hcreate, htouched⟩ := createLinkGroup_handles h hleft
    refine ⟨hcreate.trans fun es' _ h' => (createLinkGroup_handles h' hright).1, fun g hg => ?_⟩
    obtain ⟨es', h'⟩ := hcreate.emits
    obtain ⟨hcreate', htouched'⟩ := createLinkGroup_handles h' hright
    rcases hg with hg | hg <;> obtain ⟨⟩ := hg
    · exact (hcreate'.act h').touched htouched
    · exact htouched'

/-- The names of the halves of a clip. -/
def halvesOf (outputs : List ClipSplitOutputInput) (id : ID) : List (LocalID × EditEntityKind) :=
  (outputs.find? fun output => output.clip == id).elim [] (·.halves)

/-- A turn of the loop of a split acts on a live clip that is as at the beginning. -/
theorem splitMember_step (hkeyed : I.TracksKeyed) (h : Balanced I n es ps owed)
    (hmembers : n.clipMutationMembers I clipID scope true = .ok (members, seed))
    (howed : ∀ g ∈ seed.linkGroupID, g ∈ owed) (hes : es <+: es') (hm : Balanced I m es' ps owed)
    (hgroups : ∀ g, g ∈ left ∨ g ∈ right → ⟨.linkGroup, g⟩ ∈ m.touched) (hid : id ∈ members)
    (hop : m.splitMember I splitAt outputs left right id = .ok n') :
    Handles I m n' es' ps owed [⟨.clip, id⟩] (halvesOf outputs id) ∧ ∃ s : ClipState, s.id = id ∧
      ⟨.clip, id⟩ ∉ m.touched ∧ n.working.clip? id = some s ∧ m.working.clip? id = some s ∧
      s.tombstoned = false := by
  simp only [splitMember, steps_ok] at hop
  obtain ⟨s, hs, _, houtput, ⟨_, _⟩, hstates, _, hm₁, _, hm₂, hop⟩ := hop
  obtain rfl := id_of_clip? hs
  have huntouched := (putExistingClip_moved hkeyed hm₁).1
  obtain ⟨hs₀, hlive, hgroup⟩ := member_of_start h hmembers hid hes hm hs huntouched
  refine ⟨?_, s, rfl, huntouched, hs₀, hs, hlive⟩
  obtain ⟨⟨hleft, hrevision, hleftLive, rfl⟩, hright, hrevision', hrightLive, rfl⟩ :=
    splitClipStates_ok hstates
  have htouched : ∀ {k k' : EditNormalizer} {es₁ es₂ : List Emission}, es₁ <+: es₂ →
      Balanced I k es₁ ps owed → Balanced I k' es₂ ps owed → k.touched ⊆ k'.touched :=
    fun hes hk hk' => hk.touched_mono hk' hes
  rw [halvesOf, houtput]
  exact (changeClip_handles hkeyed hm hs hlive (fun _ g hg => howed g (hgroup ▸ hg)) (.inl rfl)
    hm₁).trans fun es₁ hes₁ h₁ => (putNewClip_handles hkeyed h₁ hleft hrevision hleftLive
      (fun g hg => htouched hes₁ hm h₁ (hgroups g (.inl hg))) hm₂).trans fun es₂ hes₂ h₂ =>
        putNewClip_handles hkeyed h₂ hright hrevision' hrightLive
          (fun g hg => htouched (hes₁.trans hes₂) hm h₂ (hgroups g (.inr hg))) hop

/-- No clip is split twice. -/
theorem splitMembers_nodup
    (h : members.foldlM (fun n id => splitMember I n splitAt outputs left right id) n = .ok n') :
    members.Nodup := by
  refine (foldlM_progress (fun done (m : EditNormalizer) =>
    done.Nodup ∧ ∀ id ∈ done, ⟨.clip, id⟩ ∈ m.touched) ?_ ⟨nodup_nil, by simp⟩ h).1
  rintro _ id m m' ⟨hnodup, hdone⟩ hm
  simp only [splitMember, steps_ok] at hm
  obtain ⟨s, hs, -, -, ⟨l, r⟩, -, _, hm₁, _, hm₂, hm⟩ := hm
  obtain rfl := id_of_clip? hs
  obtain ⟨-, -, -, htouched, huntouched⟩ := putExistingClip_puts hm₁
  refine ⟨hnodup.append (nodup_singleton _) (disjoint_singleton.2 fun hmem =>
    huntouched (hdone _ hmem)), fun id' hid' => ?_⟩
  rw [(putNewClip_puts hm).2.2.2.2, (putNewClip_puts hm₂).2.2.2.2, htouched]
  refine mem_cons_of_mem _ (mem_cons_of_mem _ ?_)
  rcases mem_append.1 hid' with hid' | hid'
  · exact mem_cons_of_mem _ (hdone id' hid')
  · rw [mem_singleton.1 hid']
    exact mem_cons_self

theorem splitClip_handles (hkeyed : I.TracksKeyed) (h : Balanced I n es ps owed)
    {leftAs rightAs : Option LocalID}
    (hop : n.splitClip I clipID scope splitAt outputs leftAs rightAs = .ok n') :
    Handles I n n' es ps owed (clipKeys (scopeMembers n.working n.members clipID scope ++
      leftBehind n.working n.members clipID scope))
      (EditOperationInput.splitClip clipID scope splitAt outputs leftAs rightAs).creations := by
  simp only [splitClip, steps_ok] at hop
  obtain ⟨⟨members, seed⟩, hmembers, ⟨hlength, hcovered⟩, ⟨_, _, _⟩, hgroups, k, hk, hop⟩ := hop
  obtain ⟨hseed, hscope⟩ := scopeMembers_of_ok hmembers
  have hstart := h.owe seed.linkGroupID.toList
  obtain ⟨hcreate, htouched⟩ := splitGroups_handles hstart hgroups
  have hloop := hcreate.trans fun es₀ hes₀ h₀ => Handles.loop h₀ (fun id hid m m' es' hes hm hm' =>
    (splitMember_step hkeyed hstart hmembers (fun g hg => mem_append_left _ (mem_toList.2 hg))
      (hes₀.trans hes) hm (fun g hg => h₀.touched_mono hm hes (htouched g hg)) hid hm').1) hk
  -- Every output is that of one of the members, for there are as many.
  have hperm : members.Perm (outputs.map (·.clip)) := by
    refine (subperm_of_subset (splitMembers_nodup hk) hcovered).perm_of_length_le ?_
    rw [length_map, hlength]
  have hclips : (outputs.map (·.clip)).Nodup := hperm.nodup_iff.1 (splitMembers_nodup hk)
  have hhalves : outputs.flatMap (·.halves) ⊆ members.flatMap (halvesOf outputs) := by
    intro named hnamed
    obtain ⟨output, hmem, hnamed⟩ := mem_flatMap.1 hnamed
    have hfound : (outputs.find? fun o => o.clip == output.clip) = some output := by
      simpa [Bool.beq_eq_decide_eq] using
        (Keyed.find?_key hclips (k := output.clip) (a := output)).2 ⟨hmem, rfl⟩
    refine mem_flatMap.2 ⟨output.clip, hperm.mem_iff.2 (mem_map_of_mem hmem), ?_⟩
    rwa [halvesOf, hfound]
  have hnames :
    (EditOperationInput.splitClip clipID scope splitAt outputs leftAs rightAs).creations ⊆
      (if scope = .linked then (leftAs.toList ++ rightAs.toList).map fun name => (name, .linkGroup)
        else []) ++ members.flatMap (halvesOf outputs) := by
    cases scope with
    | single => exact hhalves
    | linked => exact append_subset.2 ⟨subset_append_left _ _,
      subset_append_of_subset_right _ hhalves⟩
  refine finish_handles hseed (hloop.congr (fun k => ?_) hnames) (fun g hsingle other => ?_)
    (fun g hg => by simpa only [hg] using hop) fun hnone => ?_
  · simp [hscope.mem_iff]
  · subst hsingle
    cases hgroups
    rw [perm_singleton.1 hscope, foldlM_cons, bind_ok] at hk
    obtain ⟨m', hm', hk⟩ := hk
    obtain rfl := pure_ok.1 hk
    exact liveIn_splitMember hm' other
  · simp only [hnone, steps_ok] at hop
    obtain ⟨-, rfl⟩ := hop
    rfl

/-! ## Links and placements -/

theorem linkClips_handles (h : Balanced I n es ps owed) {createAs : LocalID} {clips : List ID}
    (hop : n.linkClips I createAs clips = .ok n') :
    Handles I n n' es ps owed (clipKeys clips) [(createAs, .linkGroup)] := by
  simp only [linkClips, steps_ok] at hop
  obtain ⟨⟨m₀, _⟩, hgroup, k, hk, rfl⟩ := hop
  obtain ⟨hcreate, htouched⟩ := createLinkGroup_handles h hgroup
  have hmembers : ∀ es₀, es <+: es₀ → Balanced I m₀ es₀ ps owed →
      Handles I m₀ k es₀ ps owed (clipKeys clips) [] := by
    refine fun es₀ _ h₀ => members_handle h₀ (fun id hid m m' es' hes hm hm' => ?_) hk
    simp only [linkMember, steps_ok] at hm'
    obtain ⟨s, hs, hfree, -, hm'⟩ := hm'
    simp only [Bool.and_eq_true, Bool.not_eq_true', isNone_iff_eq_none] at hfree
    obtain rfl := id_of_clip? hs
    refine relinkClip_handles hm hs hfree.1 (by simp [hfree.2]) (by simp [hfree.2])
      (fun g hg => ?_) hm'
    obtain ⟨⟩ := hg
    exact h₀.touched_mono hm hes htouched
  obtain ⟨es₀, h₀⟩ := hcreate.emits
  have htouched := ((hmembers _ (prefix_append es es₀) h₀).act h₀).touched htouched
  exact (hcreate.trans hmembers).setMembers htouched clips

theorem unlinkClips_handles (h : Balanced I n es ps owed) {group : ID}
    (hop : n.unlinkClips I group = .ok n') :
    Handles I n n' es ps owed (clipKeys (n.members group)) [] := by
  simp only [unlinkClips, steps_ok] at hop
  obtain ⟨-, -, -, -, k, hk, hop⟩ := hop
  have hloop := members_handle (h.owe [group]) (fun id hid m m' es' hes hm hm' => ?_) hk
  · exact (hloop.trans fun es' _ h' => (closeGroup_handles h' hop).1).congr
      (fun k => by rw [append_nil]) (refl _)
  · simp only [unlinkLiveMember, steps_ok] at hm'
    obtain ⟨s, hs, hin, hm'⟩ := hm'
    simp only [Bool.and_eq_true, Bool.not_eq_true', beq_iff_eq] at hin
    exact unlinkMember_handles hm hs hin.1 hin.2 (mem_append_left _ mem_cons_self) hm'

/-- Setting a placement decides what is loaded as anchored at the clip, and puts the clip. -/
theorem setClipPlacement_handled (hkeyed : I.TracksKeyed) (h : Balanced I n es ps owed)
    {placement : Option ClipPlacement} (hop : n.setClipPlacement I clipID placement = .ok n') :
    (∃ es', Balanced I n' (es ++ es') ps owed) ∧
      ∃ m, Decides n m ((I.state.clipAlignments.find? clipID).getD []) ∧
        Act m n' [⟨.clip, clipID⟩] := by
  simp only [setClipPlacement, steps_ok] at hop
  obtain ⟨s, hs, hlive, -, track, htrack, -, hrequire, placement, -, k, hk, hop⟩ := hop
  obtain rfl := id_of_clip? hs
  have hkey := hkeyed _ _ htrack
  have hhas : I.HasTrack s.trackID := ⟨track, htrack, hkey ▸ I.requires_of_ok hrequire⟩
  obtain ⟨huntouched, rfl⟩ := putExistingClip_kept hop
  -- The loop over the alignments only decides their fate.
  obtain ⟨hdecides, hworking, htrace⟩ : Decides n k ((I.state.clipAlignments.find? s.id).getD []) ∧
      k.working = n.working ∧
      ∀ ps ts, Trace I (n.changeTrack track) es ps ts → Trace I k es ps ts := by
    refine foldlM_invariant (b := n.changeTrack track) (fun k : EditNormalizer =>
      Decides n k ((I.state.clipAlignments.find? s.id).getD []) ∧ k.working = n.working ∧
        ∀ ps ts, Trace I (n.changeTrack track) es ps ts → Trace I k es ps ts)
      ?_ ⟨⟨rfl, rfl, rfl, fun _ => .inl⟩, rfl, fun _ _ ht => ht⟩ hk
    rintro id hid m m' ⟨hdecides, hworking, htrace⟩ hm'
    simp only [keepAlignment, steps_ok] at hm'
    obtain ⟨_, -, hm'⟩ := hm'
    split at hm' <;> obtain rfl := pure_ok.1 hm'
    · exact ⟨hdecides, hworking, htrace⟩
    · exact ⟨hdecides.trans (.setEffect m _ hid), hworking,
        fun ps ts ht => (htrace ps ts ht).setEffect id _⟩
  let e : Emission := ⟨some (.clip s), .clip { s with
    revision := s.revision + 1, trackID := s.trackID, sourceRange := s.sourceRange,
    timelineRange := s.timelineRange, placement := placement, tombstoned := s.tombstoned },
    [], [s.trackID, s.trackID]⟩
  refine ⟨⟨[e], h.emit (fun ts ht => ⟨[s.trackID], ?_, by simp [e]⟩) ?_ rfl fun g hg => ?_⟩, k,
    hdecides,
    ⟨⟨[_], rfl, fun key _ => ?_⟩, fun key hkey => ?_, rfl, subset_cons_self _ _, fun _ _ => rfl⟩⟩
  · have hk := htrace ps _ (ht.changeTrack htrack hkey)
    rw [ht.working] at hs
    exact (hk.mark _).put_entity e mem_cons_self (hk.not_mem_keys huntouched)
      (.changeClip hs hlive hhas hhas) fun id => by simp [e, gain, childOf]
  · rw [← hdecides.touched]
    exact refl _
  · simp [e, Emission.Regroups, group?] at hg
  · rw [mem_singleton, @eq_comm _ key]
    simp [changeOf, EntityState.key]
  · rwa [mem_singleton.1 hkey]

/-! ## New clips -/

variable {linkGroup : Option ClipLinkGroupInput}

/-- The group of a clip that is added is put by the request, now or before, beside the clip that is
    touched already. -/
theorem resolveClipLinkGroup_handles (h : Balanced I n es ps owed)
    (hop : (n.mark ⟨.clip, id⟩).resolveClipLinkGroup I linkGroup = .ok (n', group)) :
    ∃ m touched, n' = { m with touched } ∧ Handles I n m es ps owed []
    (ClipLinkGroupInput.names linkGroup) ∧ (∀ g ∈ group, ⟨.linkGroup, g⟩ ∈ m.touched) ∧
      (∀ k, k ∈ touched ↔ k = ⟨.clip, id⟩ ∨ k ∈ m.touched) ∧
      (⟨.clip, id⟩ ∈ m.touched → ⟨.clip, id⟩ ∈ n.touched) := by
  match linkGroup, hop with
  | none, hop =>
    cases hop
    exact ⟨n, _, rfl, .refl h, by simp, by simp, fun hk => hk⟩
  | some (.create name), hop =>
    simp only [resolveClipLinkGroup, steps_ok, markTouched_ok, Prod.mk.injEq] at hop
    obtain ⟨g, hg, hnew, _, ⟨huntouched, rfl⟩, rfl, rfl⟩ := hop
    have huntouched : ⟨.linkGroup, g⟩ ∉ n.touched := fun hmem => huntouched (mem_cons_of_mem _ hmem)
    have hnew : n.working.linkGroup? g = none := by
      unfold linkGroup? at hnew ⊢
      rw [h.find?_of_untouched huntouched]
      simpa using hnew
    refine ⟨_, _, rfl, newLinkGroup_handles h hg hnew huntouched, ?_, ?_, ?_⟩
    · rintro _ ⟨⟩
      exact mem_cons_self
    · simp [putNewLinkGroup, EditNormalizer.setMembers, put, or_left_comm]
    · simp [putNewLinkGroup, EditNormalizer.setMembers, put]
  | some (.existing reference), hop =>
    simp only [resolveClipLinkGroup, steps_ok] at hop
    obtain ⟨g, -, s, hs, hlive, hop⟩ := hop
    obtain rfl := id_of_linkGroup? hs
    split at hop
    · next htouched =>
      cases hop
      refine ⟨n, _, rfl, .refl h, ?_, by simp, fun hk => hk⟩
      rintro _ ⟨⟩
      simpa using htouched
    · simp only [steps_ok, markTouched_ok, Prod.mk.injEq] at hop
      obtain ⟨-, hrequire, _, ⟨huntouched, rfl⟩, rfl, rfl⟩ := hop
      refine ⟨_, _, rfl, changeLinkGroup_handles h hs hlive (I.requires_of_ok hrequire)
        (fun hmem => huntouched (mem_cons_of_mem _ hmem)) s.tombstoned, ?_, ?_, ?_⟩
      · rintro _ ⟨⟩
        exact mem_cons_self
      · simp [put, or_left_comm]
      · simp [put]

section

variable (hkeyed : I.TracksKeyed) (h : Balanced I n es ps owed)
include hkeyed h

theorem addClip_handles {createAs : LocalID} {assetID sourceStreamID : ID} {enabled : Bool}
    (hop : n.addClip I createAs trackID assetID sourceStreamID sourceRange timelineRange enabled
      linkGroup = .ok n') :
    Handles I n n' es ps owed [] ((createAs, .clip) :: ClipLinkGroupInput.names linkGroup) := by
  simp only [addClip, steps_ok, markTouched_ok] at hop
  obtain ⟨id, hid, hnew, _, ⟨huntouched, rfl⟩, track, htrack, -, stream, -, -, hrequire, -, -, -,
      ⟨m, group⟩, hgroup, rfl⟩ := hop
  obtain rfl := hkeyed _ _ htrack
  obtain ⟨m, touched, rfl, hm, hmem, htouched, hfresh⟩ := resolveClipLinkGroup_handles h hgroup
  let e : Emission := ⟨none, .clip {
    id, revision := 1, trackID := track.id, assetID := stream.assetID,
    sourceStreamID := stream.id, sourceRange, timelineRange, enabled, linkGroupID := group,
    placement := none, tombstoned := false }, [], [track.id]⟩
  have hfresh : ⟨.clip, id⟩ ∉ m.touched := fun hin => huntouched (hfresh hin)
  have hput : ∀ es', es <+: es' → Balanced I m es' ps owed →
      Handles I m ((({ m with touched } : EditNormalizer).put none e.after).changeTrack track) es'
        ps owed [] [(createAs, .clip)] := by
    intro es' _ h'
    refine ⟨_, .put_new hid rfl ⟨rfl, rfl⟩ (h'.emit (e := e)
      (fun ts ht => ⟨[track.id], ?_, by simp [e]⟩) (fun k hk => mem_cons.2 ((htouched k).1 hk)) rfl
      fun g hg => ?_)⟩
    · refine ((ht.touch fun k hk => (htouched k).2 (.inr hk)).put_entity e
        ((htouched _).2 (.inl rfl)) (ht.not_mem_keys hfresh)
        (.newClip (I.allocates_of_ok hid) ?_ rfl rfl
          ⟨track, htrack, I.requires_of_ok hrequire⟩ fun g hg => h'.settled _ (hmem g hg))
        fun id => ?_).changeTrack htrack rfl
      · rw [← h'.working]
        unfold clip? at hnew ⊢
        rw [h'.find?_of_untouched hfresh]
        simpa using hnew
      · simp [e, gain, childOf]
    · exact .inl (h'.settled _ (hmem g (by simpa [e, Emission.Regroups, group?] using hg)))
  have hclip := (hm.trans hput).congr (fun k => Iff.rfl) (perm_append_singleton _ _).symm.subset
  cases group with
  | none => exact hclip
  | some g => exact hclip.setMembers ((htouched _).2 (.inr (hmem g rfl))) _

/-! ## Derivations -/

variable {excerpt : NarrativeNodeState} {value : SourceExcerptValue} {clip : ClipState}
  {track : EditTrackState} {policy : CaptionDerivationPolicy} {output : DerivedRoughCutOutputInput}

theorem addRoughCutLane_handles {assetID : ID} {lane : Option DerivedRoughCutLaneOutputInput}
    (hop : n.addRoughCutLane I output assetID linkGroup lane = .ok n') :
    Handles I n n' es ps owed [] (lane.elim [] fun lane =>
      (lane.clipAs, .clip) :: ClipLinkGroupInput.names linkGroup) := by
  cases lane with
  | none =>
    cases hop
    exact .refl h
  | some lane => exact addClip_handles hkeyed h hop

/-- An output of a rough cut creates what it declares; its group comes with the video. -/
theorem putRoughCutOutput_handles (hgroup : output.linkGroupAs.isSome → output.video.isSome)
    (hop : n.putRoughCutOutput I output = .ok n') :
    Handles I n n' es ps owed [] (EditOperationInput.roughCutLocals output) := by
  obtain ⟨_, -, hop⟩ := bind_ok.1 hop
  split at hop
  · simp only [bind_ok] at hop
    obtain ⟨_, -, m, hm, k, hk, hop⟩ := hop
    refine ((addRoughCutLane_handles hkeyed h hm).trans fun es₁ _ h₁ =>
      (addRoughCutLane_handles hkeyed h₁ hk).trans fun es₂ _ h₂ =>
        (bindAlignment_handled h₂ hop).elim fun _ hs => ⟨_, hs⟩).congr (fun k => by simp) ?_
    intro named hnamed
    simp only [roughCutLocals, cons_append, mem_cons, mem_append,
      List.mem_map, mem_toList] at hnamed
    rcases hnamed with rfl | ⟨lane, hlane | hlane, rfl⟩ | ⟨name, hname, rfl⟩
    · simp
    · simp [mem_def.1 hlane]
    · simp [mem_def.1 hlane]
    · obtain ⟨_, hlane⟩ := isSome_iff_exists.1 (hgroup (isSome_iff_exists.2 ⟨name, hname⟩))
      simp [hlane, mem_def.1 hname, ClipLinkGroupInput.names]
  · cases hop

end

/-- A group is declared for two lanes only. -/
theorem video_of_linkGroupAs {state : EditNormalizationState} {start : RationalTime}
    {localPrefix : LocalID} {items : List RoughCutDerivationItemInput}
    {derivation : RoughCutDerivation}
    (h : buildRoughCutOperation state start localPrefix items = .ok derivation) :
    ∀ output ∈ derivation.outputs, output.linkGroupAs.isSome → output.video.isSome := by
  simp only [buildRoughCutOperation, steps_ok] at h
  obtain ⟨-, built, hbuilt, rfl⟩ := h
  refine foldlM_invariant (fun built : List DerivedRoughCutOutputInput × RationalTime =>
    ∀ output ∈ built.1, output.linkGroupAs.isSome → output.video.isSome) ?_ (by simp) hbuilt
  intro item _ built built' hall hitem
  simp only [roughCutItem, steps_ok] at hitem
  obtain ⟨excerpt, -, -, -, video, -, audio, -, range, -, name, -, hitem⟩ := hitem
  have hlast : ∀ {group cursor}, (group.isSome → video.isSome) → (built.1 ++ [({
        sourceExcerptID := item.sourceExcerptID, sourceRange := excerpt.sourceRange
        timelineRange := range, video, audio, linkGroupAs := group
        alignmentAs := name } : DerivedRoughCutOutputInput)], cursor) = built' →
      ∀ output ∈ built'.1, output.linkGroupAs.isSome → output.video.isSome := by
    rintro group cursor hgroup rfl output hmem
    rcases mem_append.1 hmem with hmem | hmem
    · exact hall output hmem
    · obtain rfl := mem_singleton.1 hmem
      exact hgroup
  split at hitem
  · next hboth =>
    simp only [steps_ok] at hitem
    obtain ⟨group, -, cursor, -, hitem⟩ := hitem
    exact hlast (fun _ => hboth.1) hitem
  · simp only [steps_ok] at hitem
    obtain ⟨_, rfl, _, -, hitem⟩ := hitem
    exact hlast (by simp) hitem

theorem deriveRoughCut_handles (hkeyed : I.TracksKeyed) (h : Balanced I n es ps owed)
    {derivation outputDigest : RoughCutDerivation}
    (hop : n.deriveRoughCut I derivation outputDigest = .ok n') :
    Handles I n n' es ps owed []
      (EditOperationInput.deriveRoughCut derivation outputDigest).createdLocals := by
  simp only [deriveRoughCut, steps_ok] at hop
  obtain ⟨_, hexpected, ⟨-, rfl⟩, hop⟩ := hop
  have hgroups := video_of_linkGroupAs hexpected
  exact (Handles.loop h (fun output hmem m m' es' _ hm hm' =>
    putRoughCutOutput_handles hkeyed hm (hgroups output hmem) hm') hop).congr (fun k => by simp)
    (refl _)

/-- One caption of a derivation, with the alignment to it. -/
theorem putDerivedCaption_ok {expected : CaptionDerivationCue × DerivedCaptionOutputInput}
    (hop : n.putDerivedCaption I excerpt value clip track policy expected = .ok n') :
    ∃ (c : CaptionState) (a : AlignmentState),
      (⟨.caption, c.id⟩ ∉ n.touched ∧ I.allocated expected.2.captionAs .caption = .ok c.id ∧
        c.revision = 1 ∧ c.tombstoned = false ∧ c.trackID = track.id) ∧
      (⟨.alignment, a.id⟩ ∉ ⟨.caption, c.id⟩ :: n.touched ∧
        I.allocated expected.2.alignmentAs .alignment = .ok a.id ∧ a.revision = 1 ∧
        a.narrativeNodeID = excerpt.id ∧ ∃ range, a.targets = [.caption c.id 1 range]) ∧
      n' = (((n.mark ⟨.caption, c.id⟩).mark ⟨.alignment, a.id⟩).put none (.caption c)).put none
        (.alignment a) := by
  simp only [putDerivedCaption, steps_ok, markTouched_ok] at hop
  obtain ⟨-, _, -, _, hcaption, _, halignment, _, ⟨hfreeCaption, rfl⟩, _,
      ⟨hfreeAlignment, rfl⟩, rfl⟩ := hop
  exact ⟨_, _, ⟨hfreeCaption, hcaption, rfl, rfl, rfl⟩,
    ⟨hfreeAlignment, halignment, rfl, rfl, _, rfl⟩, rfl⟩

theorem changeTrack_changeTrack (n : EditNormalizer) (track : EditTrackState) :
    (n.changeTrack track).changeTrack track = n.changeTrack track := by
  unfold changeTrack
  simp only [Table.set, AList.insert_insert]

section

variable (hkeyed : I.TracksKeyed) (hm : m = n ∨ m = n.changeTrack track)
  (h : Balanced I m es ps owed) (htrack : I.state.tracks.find? track.id = some track)
  (hrequire : I.Requires ⟨.track, track.id⟩ track.revision)
  (hnode : n.working.node? excerpt.id = some excerpt) (hlive : excerpt.tombstoned = false)
include hkeyed hm h htrack hrequire hnode hlive

/-- The caption is put on a track that may be on record already. -/
theorem putDerivedCaption_handles {expected : CaptionDerivationCue × DerivedCaptionOutputInput}
    (hop : n.putDerivedCaption I excerpt value clip track policy expected = .ok n') :
    Handles I m (n'.changeTrack track) es ps owed []
      [(expected.2.captionAs, .caption), (expected.2.alignmentAs, .alignment)] ∧
      n'.working.node? excerpt.id = some excerpt := by
  obtain ⟨c, a, ⟨hc, hcid, hcrevision, hclive, hctrack⟩, ⟨ha, haid, harevision, hanode, _,
    hatargets⟩, rfl⟩ := putDerivedCaption_ok hop
  obtain ⟨htouched, hworking⟩ : m.touched = n.touched ∧ m.working = n.working := by
    rcases hm with rfl | rfl <;> exact ⟨rfl, rfl⟩
  rw [← htouched] at hc ha
  rw [← hworking] at hnode
  have hcaption : (m.working.put (.caption c)).node? excerpt.id = some excerpt := by
    unfold node? at hnode ⊢
    rwa [find?_put_ne _ (by simp [EntityState.key])]
  have hput :=
    (newCaption_handles hkeyed h hcid hcrevision hclive hc (hctrack ▸ htrack) hrequire).trans
    fun es' _ h' =>
      ⟨_, newAlignment_handled h' haid harevision ha ⟨excerpt, hanode ▸ hcaption, hlive⟩
      fun target htarget => ?_⟩
  · constructor
    · rcases hm with rfl | rfl
      · exact hput
      · rw [← changeTrack_changeTrack (EditNormalizer.put _ _ (.alignment a))]
        exact hput
    · change ((n.working.put (.caption c)).put (.alignment a)).node? excerpt.id = _
      rw [← hworking]
      unfold node? at hcaption ⊢
      rwa [find?_put_ne _ (by simp [EntityState.key])]
  · rw [hatargets, mem_singleton] at htarget
    subst htarget
    exact ⟨c, caption?_eq_some.2 (find?_put_self _ (.caption c)), hclive, hcrevision⟩

/-- The captions of a derivation; their track is recorded at the end. -/
theorem derivedCaptions_handle {l : List (CaptionDerivationCue × DerivedCaptionOutputInput)}
    (hne : l ≠ [])
    (hop : l.foldlM (fun n expected =>
      n.putDerivedCaption I excerpt value clip track policy expected) n = .ok n') :
    Handles I m (n'.changeTrack track) es ps owed [] (l.flatMap fun expected =>
      [(expected.2.captionAs, .caption), (expected.2.alignmentAs, .alignment)]) := by
  induction l generalizing n m es with
  | nil => exact absurd rfl hne
  | cons expected l ih =>
    obtain ⟨k, hk, hop⟩ := bind_ok.1 hop
    obtain ⟨hfirst, hnode⟩ := putDerivedCaption_handles hkeyed hm h htrack hrequire hnode hlive hk
    cases l with
    | nil =>
      obtain rfl := pure_ok.1 hop
      exact hfirst
    | cons => exact hfirst.trans fun es' _ h' => ih (.inr rfl) h' hnode (cons_ne_nil _ _) hop

end

section

variable [Uniseg] {policy : CaptionDerivationPolicy}

section

variable (hkeyed : I.TracksKeyed) (h : Balanced I n es ps owed)
include hkeyed h

theorem deriveCaptions_handles {nodeID clipID trackID : ID}
    {outputs : List DerivedCaptionOutputInput}
    (hop : n.deriveCaptions I nodeID clipID trackID policy outputs = .ok n') :
    Handles I n n' es ps owed []
      (EditOperationInput.deriveCaptions nodeID clipID trackID policy outputs).createdLocals := by
  simp only [deriveCaptions, steps_ok] at hop
  obtain ⟨_, hexcerpt, _, -, hlive, -, _, -, -, -, _, htrack, -, hrequire,
      _, -, _, -, -, -, -, cues, hcues, hlength, m, hm, rfl⟩ := hop
  obtain rfl := id_of_node? hexcerpt
  obtain rfl := hkeyed _ _ htrack
  have hne : cues.zip outputs ≠ [] := by
    obtain ⟨_, _, _, -, -, -, hgroups, hgroup, -⟩ := deriveCaptionCues_ok hcues
    have hcues : cues ≠ [] := ne_nil_of_length_pos (hgroup.length_eq ▸ length_pos_of_ne_nil hgroups)
    have houtputs : outputs ≠ [] := ne_nil_of_length_pos (hlength ▸ length_pos_of_ne_nil hcues)
    simp [hcues, houtputs]
  have hcaptions :=
    derivedCaptions_handle hkeyed (.inl rfl) h htrack (I.requires_of_ok hrequire) hexcerpt
    hlive hne hm
  have hsnd : (cues.zip outputs).map Prod.snd = outputs := map_snd_zip hlength.ge
  rw [createdLocals, ← hsnd, flatMap_map]
  exact hcaptions

/-! ## Operations -/

variable {op : EditOperationInput}

/-- An operation puts what can be read off it, creates what it declares, and records the sections of
    which it inserts, moves or removes a child, unless it sets a placement. -/
theorem normalizeEntityOperation_handles (hplaces : op.places = none)
    (hop : n.normalizeEntityOperation I op = .ok n') :
    Handles I n n' es (ps ++ op.changedSections I.base) owed (op.acts n.working n.members)
      op.creations := by
  have hnone : ∀ {m keys names}, Handles I n m es ps owed keys names →
      Handles I n m es (ps ++ []) owed keys names := by
    intro m keys names hm
    rwa [append_nil]
  cases op with
  | insertNarrativeNode => exact insertNarrativeNode_handles h hop
  | updateNarrativeNode => exact hnone (updateNarrativeNode_handles h hop)
  | moveNarrativeNode => exact moveNarrativeNode_handles h hop
  | removeNarrativeNode => exact removeNarrativeNode_handles h hop
  | addCaption => exact hnone (addCaption_handles hkeyed h hop)
  | updateCaption | removeCaption =>
    rw [normalizeEntityOperation] at hop
    exact hnone (updateCaption_handles hkeyed h hop)
  | addClip _ _ _ _ _ _ _ linkGroup =>
    have hadd := hnone (addClip_handles hkeyed h hop)
    rcases linkGroup with - | _ | _ <;> exact hadd
  | moveClip => exact hnone (moveClip_handles hkeyed h hop)
  | trimClip => exact hnone (trimClip_handles hkeyed h hop)
  | splitClip => exact hnone (splitClip_handles hkeyed h hop)
  | setClipPlacement => cases hplaces
  | removeClip => exact hnone (removeClip_handles hkeyed h hop)
  | linkClips => exact hnone (linkClips_handles h hop)
  | unlinkClips => exact hnone (unlinkClips_handles h hop)
  | addTranscriptCorrection => exact hnone (addTranscriptCorrection_handles h hop)
  | updateTranscriptCorrection | removeTranscriptCorrection =>
    rw [normalizeEntityOperation] at hop
    exact hnone (updateTranscriptCorrection_handles h hop)
  | insertSourceExcerpt => exact insertSourceExcerpt_handles h hop
  | deriveCaptions => exact hnone (deriveCaptions_handles hkeyed h hop)
  | deriveRoughCut => exact hnone (deriveRoughCut_handles hkeyed h hop)
  | bindAlignment | remapAlignment | markAlignmentStale | unbindAlignment =>
    cases hop
    exact hnone (.refl h)

theorem normalizeEntityOperation_emits (hop : n.normalizeEntityOperation I op = .ok n') :
    ∃ es', Balanced I n' (es ++ es') (ps ++ op.changedSections I.base) owed := by
  cases hplaces : op.places with
  | none => exact (normalizeEntityOperation_handles hkeyed h hplaces hop).emits
  | some id =>
    cases op with
    | setClipPlacement =>
      have hemits := (setClipPlacement_handled hkeyed h hop).1
      rw [← append_nil ps] at hemits
      exact hemits
    | _ => cases hplaces

end

omit [Uniseg] in
/-- At first nothing is put. -/
theorem newEditNormalizer_balanced (h : newEditNormalizer I = .ok n) : Balanced I n [] [] [] := by
  simp only [newEditNormalizer, steps_ok] at h
  obtain ⟨-, rfl⟩ := h
  refine ⟨⟨[], ⟨rfl, rfl, rfl, rfl, nodup_nil, by simp, by simp, fun id => ?_, by simp,
    by simp⟩, by simp⟩, by simp, by simp, by simp⟩
  simp [NormalizeEditInput.childrenAfter]

/-- The trace of a run, and that of the run up to the checks of link groups and overlaps:
    what follows puts alignments only. -/
theorem runNormalizer_emits (hkeyed : I.TracksKeyed) (h : runNormalizer I = .ok n) :
    ∃ es es' m, Balanced I m es (I.input.operations.flatMap (·.changedSections I.base)) [] ∧
      m.validateLinkGroups = .ok () ∧ m.validateCaptionOverlaps = .ok () ∧
      m.validateClipOverlaps = .ok () ∧
      Balanced I n (es ++ es') (I.input.operations.flatMap (·.changedSections I.base)) [] ∧
      (∀ e ∈ es', e.key.kind = .alignment) ∧ n.validateAlignmentEffects I = .ok () := by
  simp only [runNormalizer, steps_ok] at h
  obtain ⟨_, hn₀, m, hm, hgroups, hcaptions, hclips, k, hk, -, heffects, rfl⟩ := h
  have hstart := newEditNormalizer_balanced hn₀
  obtain ⟨es, hes⟩ : ∃ es, Balanced I m es
      (I.input.operations.flatMap (·.changedSections I.base)) [] := by
    refine foldlM_progress (fun done m => ∃ es, Balanced I m es
      (done.flatMap (·.changedSections I.base)) []) ?_ ⟨[], hstart⟩ hm
    rintro _ op m m' ⟨es, h⟩ hop
    obtain ⟨es', h'⟩ := normalizeEntityOperation_emits hkeyed h hop
    exact ⟨es ++ es', by simpa using h'⟩
  obtain ⟨es', hes', halignments⟩ : ∃ es', Balanced I k (es ++ es')
      (I.input.operations.flatMap (·.changedSections I.base)) [] ∧
      ∀ e ∈ es', e.key.kind = .alignment := by
    refine foldlM_invariant (fun k => ∃ es', Balanced I k (es ++ es')
      (I.input.operations.flatMap (·.changedSections I.base)) [] ∧
      ∀ e ∈ es', e.key.kind = .alignment) ?_ ⟨[], by rwa [append_nil], by simp⟩ hk
    rintro op - k k' ⟨es', h, hkinds⟩ hop
    obtain ⟨m', -, h', es'', h'', hkinds'⟩ := normalizeAlignmentOperation_handled h hop
    refine ⟨es' ++ es'', by rw [← append_assoc]; exact h''.balanced, fun e he => ?_⟩
    rcases mem_append.1 he with he | he
    · exact hkinds e he
    · exact hkinds' e he
  exact ⟨es, es', m, hes, hgroups, hcaptions, hclips, hes', halignments, heffects⟩

end

end EditNormalizer

end OpenCut
