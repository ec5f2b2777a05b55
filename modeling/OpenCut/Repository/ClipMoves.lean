import OpenCut.Repository.ClipEdits

/-!
# Moving and trimming clips

The members of a link group are moved together and trimmed together: a move takes all of them
equally far along the timeline, and a trim moves the boundaries of all of them equally far, in their
sources as on the timeline (`clips_in_step`). Since a source range that is moved must not start
before zero, while the one of a new clip may, a clip can be trimmed to any part of it only if the
part does not start before zero in the source (`normalizeEditProposal_of_part`,
`moved_off_source`).
-/

namespace OpenCut

open Outcome RationalTime TimeRange EntityTable Option

/-! ## Ranges whose boundaries move -/

/-- The boundaries of the range move. -/
structure TimeRange.MovedBy (r : TimeRange) (left right : ℚ) (r' : TimeRange) : Prop where
  start : r'.start.toRat = r.start.toRat + left
  stop : r'.start.toRat + r'.duration.toRat = r.start.toRat + r.duration.toRat + right

/-- The clip is moved on the timeline, and nothing changes in its source. -/
structure ClipState.Moved (c : ClipState) (delta : ℚ) (c' : ClipState) : Prop where
  timeline : c.timelineRange.MovedBy delta delta c'.timelineRange
  source : c'.sourceRange = c.sourceRange ∧ c'.sourceStreamID = c.sourceStreamID
  lengths : c'.sourceRange.duration = c'.timelineRange.duration

/-- The boundaries of the clip are moved, in its source as on the timeline, and stay within the
    stream. -/
structure ClipState.Trimmed (c : ClipState) (left right : ℚ) (descriptor : SourceStreamDescriptor)
    (c' : ClipState) : Prop where
  timeline : c.timelineRange.MovedBy left right c'.timelineRange
  source : c.sourceRange.MovedBy left right c'.sourceRange
  offset : c'.offset = c.offset
  lengths : c'.sourceRange.duration = c'.timelineRange.duration
  within : c'.sourceStreamID = c.sourceStreamID ∧ sourceRangeWithin c'.sourceRange descriptor

section

variable {r r' : TimeRange} {left right stop stop' : RationalTime}

theorem rangeWithBoundaryDeltas_ok (h : rangeWithBoundaryDeltas r left right = .ok r') :
    r.MovedBy left.toRat right.toRat r' := by
  simp only [rangeWithBoundaryDeltas, newTimeRange, steps_ok] at h
  obtain ⟨_, hstart, -, e, he, e', he', _, hduration, -, -, rfl⟩ := h
  have he := toRat_end he
  have he' := toRat_add he'
  have hduration := toRat_subtract hduration
  refine ⟨toRat_add hstart, ?_⟩
  linarith

/-- Boundaries may move to where a range that does not start before zero has them. -/
theorem rangeWithBoundaryDeltas_of_movedBy (h : r.MovedBy left.toRat right.toRat r')
    (hstart : r'.start.isNegative = false) (hduration : r'.duration.isPositive)
    (hstop : r.end? = some stop) (hstop' : r'.end? = some stop') :
    rangeWithBoundaryDeltas r left right = .ok r' := by
  have hadd : stop'.toRat = stop.toRat + right.toRat := by
    rw [toRat_end hstop, toRat_end hstop', h.stop]
  have hsubtract : r'.duration.toRat = stop'.toRat - r'.start.toRat := by
    rw [toRat_end hstop']
    ring
  have hnonneg : r'.duration.isNegative = false := by
    rw [isPositive_iff] at hduration
    rw [Bool.eq_false_iff, ne_eq, isNegative_iff]
    linarith
  simp only [rangeWithBoundaryDeltas, newTimeRange, steps_ok]
  exact ⟨r'.start, add?_eq_some.2 h.start, hstart, stop, hstop, stop', add?_eq_some.2 hadd,
    r'.duration, subtract?_eq_some.2 hsubtract, hduration, hnonneg, rfl⟩

theorem sameBoundaryDelta_of_movedBy (h : r.MovedBy left.toRat right.toRat r')
    (hstop : r.end? = some stop) (hstop' : r'.end? = some stop') :
    sameBoundaryDelta r r' left right := by
  have hleft : r'.start.subtract? r.start = some left := by
    rw [subtract?_eq_some, h.start]
    ring
  have hright : stop'.subtract? stop = some right := by
    rw [subtract?_eq_some, toRat_end hstop, toRat_end hstop', h.stop]
    ring
  simp [sameBoundaryDelta, hstop, hstop', hleft, hright]

/-- A part of a range that is within a stream is so, too. -/
theorem sourceRangeWithin_of_movedBy {descriptor : SourceStreamDescriptor} {x y : ℚ}
    (h : r.MovedBy x y r') (hx : 0 ≤ x) (hy : y ≤ 0) (hduration : r'.duration.isPositive)
    (hstop' : r'.end? = some stop') (hwithin : sourceRangeWithin r descriptor) :
    sourceRangeWithin r' descriptor := by
  simp only [sourceRangeWithin, Bool.and_eq_true, any_eq_true, decide_eq_true_eq] at hwithin
  obtain ⟨-, _, hstop, hstart, hend⟩ := hwithin
  simp only [sourceRangeWithin, Bool.and_eq_true, any_eq_true, decide_eq_true_eq]
  refine ⟨hduration, stop', hstop', ?_, ?_⟩
  · rw [le_iff_toRat] at hstart ⊢
    linarith [h.start]
  · cases hd : descriptor.duration with
    | none => rfl
    | some d =>
      simp only [hd, Bool.and_eq_true, any_eq_true, decide_eq_true_eq] at hend ⊢
      obtain ⟨hnonneg, limit, hlimit, hle⟩ := hend
      refine ⟨hnonneg, limit, hlimit, ?_⟩
      rw [le_iff_toRat, toRat_end hstop] at hle
      rw [le_iff_toRat, toRat_end hstop']
      linarith [h.stop]

/-- A part of a range overlaps nothing that the range does not. -/
theorem rangesOverlap_of_movedBy {other : TimeRange} {x y : ℚ} (h : r.MovedBy x y r') (hx : 0 ≤ x)
    (hy : y ≤ 0) (hstop' : r'.end? = some stop') (hapart : rangesOverlap r other = false) :
    rangesOverlap r' other = false := by
  unfold rangesOverlap at hapart ⊢
  split at hapart
  · next stop otherStop hstop hother =>
    simp only [hstop', hother, Bool.and_eq_false_iff, decide_eq_false_iff_not, lt_iff_toRat,
      toRat_end hstop, toRat_end hstop', not_lt] at hapart ⊢
    refine hapart.imp (fun hle => ?_) fun hle => ?_
    · linarith [h.start]
    · linarith [h.stop]
  · cases hapart

end

/-! ## Linked moves and trims -/

namespace EditNormalizer

/-- The clips are all moved equally far. -/
def MovesInStep (n n' : EditNormalizer) (ids : List ID) : Prop :=
  ∃ delta, ∀ id ∈ ids, ∃ s s', n.working.clip? id = some s ∧ n'.working.clip? id = some s' ∧
    s.Moved delta s'

/-- The boundaries of the clips are all moved equally far, each clip staying within its stream. -/
def TrimsInStep (I : NormalizeEditInput) (n n' : EditNormalizer) (ids : List ID) : Prop :=
  ∃ left right, ∀ id ∈ ids, ∃ s s' stream, n.working.clip? id = some s ∧
    n'.working.clip? id = some s' ∧ I.state.sourceStreams.find? s.sourceStreamID = some stream ∧
    s.Trimmed left right stream.descriptor s'

variable {I : NormalizeEditInput} {n n' : EditNormalizer} {es : List Emission} {ps owed : List ID}

/-- The loop of an operation over the clips that it acts on puts each of them, from the state in
    which it was at the beginning. -/
theorem members_put {f : EditNormalizer → ID → Except EditError EditNormalizer} {clipID : ID}
    {scope : ClipMutationScope} {members : List ID} {seed : ClipState} {b : Bool}
    {P : ClipState → ClipState → Prop} (h : Balanced I n es ps owed)
    (hmembers : n.clipMutationMembers I clipID scope b = .ok (members, seed))
    (hf : ∀ id ∈ members, ∀ m m' es', es <+: es' → Balanced I m es' ps owed → f m id = .ok m' →
      Handles I m m' es' ps owed [⟨.clip, id⟩] [])
    (hput : ∀ m m' id, f m id = .ok m' → ∃ s s', m.working.clip? id = some s ∧
      m'.operations = m.operations ++ [.clip s'] ∧ s'.id = id ∧ ⟨.clip, id⟩ ∉ m.touched ∧ P s s')
    (hop : members.foldlM f n = .ok n') :
    ∀ id ∈ scopeMembers n.working n.members clipID scope, ∃ s s', n.working.clip? id = some s ∧
      n'.working.clip? id = some s' ∧ ⟨.clip, id⟩ ∉ n.touched ∧ P s s' := by
  let Inv := fun m : EditNormalizer => ∃ es', es <+: es' ∧ Balanced I m es' ps owed
  have hturn : ∀ id ∈ members, ∀ m m', Inv m → f m id = .ok m' →
      Inv m' ∧ m.operations ⊆ m'.operations := by
    rintro id hid m m' ⟨es', hes, hm⟩ hm'
    obtain ⟨_, h''⟩ := (hf id hid m m' es' hes hm hm').emits
    exact ⟨⟨_, hes.trans (List.prefix_append _ _), h''⟩, hm.operations_subset h''⟩
  have hinv : Inv n := ⟨es, List.prefix_rfl, h⟩
  obtain ⟨es', -, hn'⟩ := foldlM_invariant Inv
    (fun id hid m m' hm hm' => (hturn id hid m m' hm hm').1) hinv hop
  intro id hid
  rw [← (scopeMembers_of_ok hmembers).2.mem_iff] at hid
  let Put := fun m : EditNormalizer => ∃ s s', n.working.clip? id = some s ∧
    ⟨.clip, id⟩ ∉ n.touched ∧ s'.id = id ∧ .clip s' ∈ m.operations ∧ P s s'
  obtain ⟨s, s', hs, huntouched, rfl, hmem, hP⟩ : Put n' := by
    refine foldlM_establishes_under Inv Put hid hinv (fun m m' hm hm' => ?_)
      (fun x hx m m' hm hm' => ?_) hop
    · obtain ⟨es', hes, hm⟩ := hm
      obtain ⟨s, s', hs, hoperations, hs', huntouched, hP⟩ := hput m m' id hm'
      obtain ⟨hs, -⟩ := member_of_start h hmembers hid hes hm hs huntouched
      exact ⟨s, s', hs, fun hmem => huntouched (h.touched_mono hm hes hmem), hs',
        by simp [hoperations], hP⟩
    · obtain ⟨hm', hsub⟩ := hturn x hx m m' hm hm'
      refine ⟨hm', ?_⟩
      rintro ⟨s, s', hs, huntouched, hs', hmem, hP⟩
      exact ⟨s, s', hs, huntouched, hs', hsub hmem, hP⟩
  exact ⟨s, s', hs, clip?_eq_some.2 (hn'.find?_of_operation hmem), huntouched, hP⟩

variable (hkeyed : I.TracksKeyed) (h : Balanced I n es ps owed)
  (hlengths : ∀ {id c}, ⟨.clip, id⟩ ∉ n.touched → n.working.clip? id = some c →
    c.sourceRange.duration = c.timelineRange.duration) {clipID : ID} {scope : ClipMutationScope}

include hkeyed h hlengths

theorem moveClip_moves {trackID : ID} {start : RationalTime}
    (hop : n.moveClip I clipID scope trackID start = .ok n') :
    n.MovesInStep n' (scopeMembers n.working n.members clipID scope) := by
  simp only [moveClip, steps_ok] at hop
  obtain ⟨⟨_, _⟩, hmembers, delta, -, hop⟩ := hop
  refine ⟨delta.toRat, fun id hid => ?_⟩
  obtain ⟨s, s', hs, hs', huntouched, start, hstart, htimeline, hsource⟩ := members_put
    (P := fun s s' => ∃ start, s.timelineRange.start.add? delta = some start ∧
      s'.timelineRange = { s.timelineRange with start } ∧
      s'.sourceRange = s.sourceRange ∧ s'.sourceStreamID = s.sourceStreamID)
    h hmembers (fun id hid m m' es' hes hm hm' =>
      moveMember_handles hkeyed h hmembers hid hes hm hm')
    (fun m m' id hm' => by
      obtain ⟨s, start, _, k, hs, rfl, hstart, hk, hput⟩ := moveMember_ok hm'
      obtain ⟨-, hoperations, -, -, huntouched⟩ := putExistingClip_puts hput
      rcases hk with rfl | ⟨t, -, rfl⟩ <;>
        exact ⟨s, _, hs, hoperations, rfl, huntouched, start, hstart, rfl, rfl, rfl⟩) hop id hid
  have hstart := toRat_add hstart
  refine ⟨s, s', hs, hs', ⟨?_, ?_⟩, hsource, ?_⟩
  · rw [htimeline, hstart]
  · rw [htimeline, hstart]
    ring
  · rw [htimeline, hsource.1]
    exact hlengths huntouched hs

theorem trimClip_trims {source timeline : TimeRange}
    (hop : n.trimClip I clipID scope source timeline = .ok n') :
    TrimsInStep I n n' (scopeMembers n.working n.members clipID scope) := by
  simp only [trimClip, steps_ok] at hop
  obtain ⟨⟨_, _⟩, hmembers, left, -, -, -, -, -, right, -, -, hop⟩ := hop
  refine ⟨left.toRat, right.toRat, fun id hid => ?_⟩
  obtain ⟨s, s', hs, hs', huntouched, stream, hstream, htimeline, hsource, hwithin⟩ := members_put
    (P := fun s s' => ∃ stream, I.state.sourceStreams.find? s.sourceStreamID = some stream ∧
      s.timelineRange.MovedBy left.toRat right.toRat s'.timelineRange ∧
      s.sourceRange.MovedBy left.toRat right.toRat s'.sourceRange ∧
      s'.sourceStreamID = s.sourceStreamID ∧ sourceRangeWithin s'.sourceRange stream.descriptor)
    h hmembers (fun id hid m m' es' hes hm hm' =>
      trimMember_handles hkeyed h hmembers hid hes hm hm')
    (fun m m' id hm' => by
      obtain ⟨s, _, _, stream, hs, rfl, hsource, htimeline, hstream, hwithin, hput⟩ :=
        trimMember_ok hm'
      obtain ⟨-, hoperations, -, -, huntouched⟩ := putExistingClip_puts hput
      exact ⟨s, _, hs, hoperations, rfl, huntouched, stream, hstream,
        rangeWithBoundaryDeltas_ok htimeline, rangeWithBoundaryDeltas_ok hsource, rfl, hwithin⟩) hop
        id hid
  have hlength := congrArg toRat (hlengths huntouched hs)
  refine ⟨s, s', stream, hs, hs', hstream, htimeline, hsource, ?_, toRat_injective ?_, hwithin⟩
  · rw [ClipState.offset, ClipState.offset, htimeline.start, hsource.start]
    ring
  · linarith [htimeline.start, htimeline.stop, hsource.start, hsource.stop]

end EditNormalizer

open EditNormalizer

/-! ## Trims to a part of a clip -/

/-- The clip is loaded as the operation that adds clips accepts one: live, within its stream, with
    ranges of one length, and apart from the other clips of its track. -/
structure NormalizeEditInput.Holds (I : NormalizeEditInput) (s : ClipState) (track : EditTrackState)
    (stream : EditSourceStreamState) : Prop where
  clip : I.base.clip? s.id = some s ∧ s.tombstoned = false
  onTrack : I.state.tracks.find? s.trackID = some track
  ofStream : I.state.sourceStreams.find? s.sourceStreamID = some stream
  within : sourceRangeWithin s.sourceRange stream.descriptor
  timeline : validRange s.timelineRange
  lengths : s.sourceRange.duration = s.timelineRange.duration
  apart : ∀ other ∈ I.base.clips, other.id ≠ s.id → other.tombstoned = false →
    other.trackID = s.trackID → rangesOverlap s.timelineRange other.timelineRange = false

/-- Part of the range of the clip, and the same part of its source. -/
structure ClipState.Part (s : ClipState) (source timeline : TimeRange) : Prop where
  subset : timeline.instants ⊆ s.timelineRange.instants
  nonempty : timeline.instants.Nonempty
  offset : timeline.start.toRat - source.start.toRat = s.offset
  lengths : source.duration = timeline.duration

/-- The ends of the parts, and how far the boundaries of the clip move, are exact times. -/
structure ClipState.Representable (s : ClipState) (source timeline : TimeRange) : Prop where
  ends : timeline.end?.isSome ∧ source.end?.isSome
  left : ∃ left : RationalTime, left.toRat = timeline.start.toRat - s.timelineRange.start.toRat
  right : ∃ right : RationalTime, right.toRat = timeline.start.toRat + timeline.duration.toRat -
    (s.timelineRange.start.toRat + s.timelineRange.duration.toRat)

/-- The request is to trim the clip to these ranges. It has the preconditions, and no alignment
    depends on the clip. -/
structure NormalizeEditInput.TrimsTo (I : NormalizeEditInput) (s : ClipState)
    (track : EditTrackState) (source timeline : TimeRange) : Prop where
  operations : I.input.operations = [.trimClip s.id .single source timeline]
  clipCondition : I.conditions.find? ⟨.clip, s.id⟩ = some s.revision
  trackCondition : I.conditions.find? ⟨.track, track.id⟩ = some track.revision
  dependents : dependentAlignments I ⟨.clip, s.id⟩ = []

section

variable {I : NormalizeEditInput} {s : ClipState} {track : EditTrackState}
  {stream : EditSourceStreamState} {source timeline : TimeRange}

/-- How far the boundaries move to a part of a clip. -/
theorem ClipState.Part.movedBy (h : s.Part source timeline)
    (hlengths : s.sourceRange.duration = s.timelineRange.duration) {left right : ℚ}
    (hleft : left = timeline.start.toRat - s.timelineRange.start.toRat)
    (hright : right = timeline.start.toRat + timeline.duration.toRat -
      (s.timelineRange.start.toRat + s.timelineRange.duration.toRat)) :
    s.timelineRange.MovedBy left right timeline ∧ s.sourceRange.MovedBy left right source ∧
      0 ≤ left ∧ right ≤ 0 ∧ 0 < timeline.duration.toRat := by
  have hlt := Set.nonempty_Ico.1 h.nonempty
  obtain ⟨_, _⟩ := (Set.Ico_subset_Ico_iff hlt).1 h.subset
  have hoffset := h.offset
  rw [ClipState.offset] at hoffset
  refine ⟨⟨?_, ?_⟩, ⟨?_, ?_⟩, ?_, ?_, ?_⟩
  · linarith
  · linarith
  · linarith
  · rw [h.lengths, hlengths]
    linarith
  · linarith
  · linarith
  · linarith

/-- The trim to a part of a clip is a well-formed operation. -/
theorem valid_of_part (hpart : s.Part source timeline) (htimeline : validRange s.timelineRange)
    (hexact : s.Representable source timeline) :
    (EditOperationInput.trimClip s.id .single source timeline).valid := by
  have hlt := Set.nonempty_Ico.1 hpart.nonempty
  obtain ⟨hstart, -⟩ := (Set.Ico_subset_Ico_iff hlt).1 hpart.subset
  have hduration : timeline.duration.isPositive := isPositive_iff.2 (by linarith)
  simp only [validRange, Bool.and_eq_true, Bool.not_eq_true', Bool.eq_false_iff, ne_eq,
    isNegative_iff, not_lt] at htimeline
  simp only [EditOperationInput.valid, validRange, validSourceRange, hpart.lengths, hduration,
    hexact.ends, Bool.and_eq_true, Bool.not_eq_true', Bool.eq_false_iff, ne_eq,
    isNegative_iff, not_lt, and_true, true_and]
  linarith [htimeline.1]

section

variable (hclip : I.Holds s track stream) (hpart : s.Part source timeline)
  (hexact : s.Representable source timeline) (hstart : source.start.isNegative = false)
  (hop : I.TrimsTo s track source timeline)
include hclip hpart hexact hstart hop

/-- The trim to a part of a clip puts the clip with the part as its ranges. -/
theorem trimClip_of_part {n : EditNormalizer} (hn : n.working = I.base)
    (htouched : n.touched = []) :
    n.trimClip I s.id .single source timeline =
      .ok (((({ n with touched := [⟨.clip, s.id⟩] } : EditNormalizer).put (some (.clip s))
        (.clip { s with
        revision := s.revision + 1, sourceRange := source, timelineRange := timeline })).changeTrack
          track).changeTrack track) := by
  obtain ⟨left, hleft⟩ := hexact.left
  obtain ⟨right, hright⟩ := hexact.right
  obtain ⟨hmoved, hmoved', hnonneg, hnonpos, hpos⟩ := hpart.movedBy hclip.lengths hleft hright
  obtain ⟨stop', hstop'⟩ := isSome_iff_exists.1 hexact.ends.1
  obtain ⟨_, hsourceStop'⟩ := isSome_iff_exists.1 hexact.ends.2
  have hwithin := hclip.within
  simp only [sourceRangeWithin, Bool.and_eq_true, any_eq_true] at hwithin
  obtain ⟨-, _, hsourceStop, -⟩ := hwithin
  have hvalid := hclip.timeline
  have htimeline := hclip.timeline
  simp only [validRange, validSourceRange, Bool.and_eq_true, isSome_iff_exists] at htimeline
  obtain ⟨-, -, stop, hstop⟩ := htimeline
  have hduration : timeline.duration.isPositive := isPositive_iff.2 hpos
  have htimelineStart : timeline.start.isNegative = false := by
    simp only [validRange, Bool.and_eq_true, Bool.not_eq_true', Bool.eq_false_iff, ne_eq,
      isNegative_iff, not_lt] at hvalid ⊢
    linarith [hvalid.1, hmoved.start]
  have hrequire : ∀ {key : EntityKey} {revision : Revision},
      I.conditions.find? key = some revision → I.require key revision = .ok () := by
    intro key revision hfind
    simp only [NormalizeEditInput.require, steps_ok]
    exact ⟨revision, hfind, rfl⟩
  have hmembers : n.clipMutationMembers I s.id .single false = .ok ([s.id], s) := by
    simp only [clipMutationMembers, steps_ok, hn, hclip.clip]
    refine ⟨s, rfl, hclip.clip.2, hrequire hop.clipCondition, ?_⟩
    cases s.linkGroupID <;> rfl
  simp only [trimClip, steps_ok]
  refine ⟨([s.id], s), hmembers, left, subtract?_eq_some.2 hleft, stop, hstop, stop', hstop',
    right, ?_, sameBoundaryDelta_of_movedBy hmoved' hsourceStop hsourceStop', ?_⟩
  · rw [subtract?_eq_some, toRat_end hstop, toRat_end hstop', hright]
  · simp only [List.foldlM_cons, List.foldlM_nil, trimMember, steps_ok]
    refine ⟨_, ⟨s, by rw [hn]; exact hclip.clip.1, source, ?_, timeline, ?_, htimelineStart,
      stream, hclip.ofStream, ?_, ?_⟩, rfl⟩
    · exact rangeWithBoundaryDeltas_of_movedBy hmoved' hstart (hpart.lengths ▸ hduration)
        hsourceStop hsourceStop'
    · exact rangeWithBoundaryDeltas_of_movedBy hmoved htimelineStart hduration hstop hstop'
    · exact sourceRangeWithin_of_movedBy hmoved' hnonneg hnonpos (hpart.lengths ▸ hduration)
        hsourceStop' hclip.within
    · simp only [putExistingClip, markTouched, requireTrack, steps_ok, if_true, htouched]
      have htrack := hrequire hop.trackCondition
      exact ⟨_, ⟨List.not_mem_nil, rfl⟩, trivial, _, ⟨track, hclip.onTrack, htrack, rfl⟩, track,
        hclip.onTrack, htrack, rfl⟩

/-- A request to trim a clip to a part of it is accepted. -/
theorem normalizeEditProposal_of_part [Uniseg] (hinput : validateNormalizationInput I = .ok ()) :
    ∃ proposal, normalizeEditProposal I = .ok proposal := by
  obtain ⟨_, hleft⟩ := hexact.left
  obtain ⟨_, hright⟩ := hexact.right
  obtain ⟨hmoved, -, hnonneg, hnonpos, -⟩ := hpart.movedBy hclip.lengths hleft hright
  obtain ⟨_, hstop'⟩ := isSome_iff_exists.1 hexact.ends.1
  have hallocation : I.allocation = [] := by
    refine List.eq_nil_iff_forall_not_mem.2 fun a ha => ?_
    obtain ⟨op, hmem, hdeclared⟩ := declared_of_validateNormalizationInput hinput ha
    rw [hop.operations, List.mem_singleton] at hmem
    subst hmem
    exact absurd hdeclared List.not_mem_nil
  simp only [normalizeEditProposal, runNormalizer, newEditNormalizer, hallocation, hop.operations,
    steps_ok, List.foldlM_cons, List.foldlM_nil, normalizeEntityOperation,
    normalizeAlignmentOperation]
  refine ⟨_, hinput, _, ⟨_, ⟨List.nodup_nil, rfl⟩, _, ⟨_, trimClip_of_part hclip hpart hexact hstart
    hop rfl rfl, rfl⟩, ?_, ?_, ?_, _, ⟨_, rfl, rfl⟩, ?_, ?_, rfl⟩, rfl⟩
  · rfl
  · simp [validateCaptionOverlaps, ensure_ok, changeTrack, EditNormalizer.put]
  · simp only [validateClipOverlaps, ensure_ok, changeTrack,
      EditNormalizer.put, List.mem_singleton, EntityKey.mk.injEq, true_and]
    intro clip hmem hid hlive other hother hne hlive' hsame
    rw [mem_clips, hid, ← clip?_eq_some, clip?_put, if_pos rfl] at hmem
    obtain ⟨⟩ := hmem
    rw [mem_clips, ← clip?_eq_some, clip?_put, if_neg hne, clip?_eq_some, ← mem_clips] at hother
    exact rangesOverlap_of_movedBy hmoved hnonneg hnonpos hstop'
      (hclip.apart other hother hne hlive' hsame)
  · simp [changeTrack, EditNormalizer.put]
  · simp [validateAlignmentEffects, changeTrack, EditNormalizer.put, hop.dependents]

end

end

/-! ## The result -/

/-- In every run of a project whose clips are measured, and whatever a request has done so far: a
    linked move that it then makes moves all members equally far and leaves their sources alone, and
    a linked trim moves the boundaries of all members equally far, in their sources as on the
    timeline. A request to trim a clip to a part of it, not before the start of its source, is
    well formed and, if nothing else is wrong with it, accepted. -/
theorem clips_in_step [Uniseg] {p₀ p : Project} (hp₀ : p₀.content.Measured)
    (hrun : Project.Reaches (fun _ _ => True) p₀ p) {I : NormalizeEditInput}
    (hload : loadEditNormalizationState p.revision p.content p.media I.input = .ok I.state)
    {n₀ n : EditNormalizer} (hn₀ : newEditNormalizer I = .ok n₀) {done : List EditOperationInput}
    (hdone : done.foldlM (fun n op => n.normalizeEntityOperation I op) n₀ = .ok n) :
    (∀ clipID trackID start n', n.moveClip I clipID .linked trackID start = .ok n' →
      n.MovesInStep n' (scopeMembers n.working n.members clipID .linked)) ∧
    (∀ clipID source timeline n', n.trimClip I clipID .linked source timeline = .ok n' →
      EditNormalizer.TrimsInStep I n n' (scopeMembers n.working n.members clipID .linked)) ∧
    ∀ (J : NormalizeEditInput) s track stream source timeline, J.Holds s track stream →
      s.Part source timeline → s.Representable source timeline → source.start.isNegative = false →
      J.TrimsTo s track source timeline →
        (EditOperationInput.trimClip s.id .single source timeline).valid ∧
          (validateNormalizationInput J = .ok () →
            ∃ proposal, normalizeEditProposal J = .ok proposal) := by
  obtain ⟨hkeyed, es, ps, hbalanced, hlengths⟩ := measured_of_done hp₀ hrun hload hn₀ hdone
  refine ⟨fun clipID trackID start n' hop => ?_, fun clipID source timeline n' hop => ?_, ?_⟩
  · exact moveClip_moves hkeyed hbalanced hlengths hop
  · exact trimClip_trims hkeyed hbalanced hlengths hop
  · intro J s track stream source timeline hclip hpart hexact hstart hop
    exact ⟨valid_of_part hpart hclip.timeline hexact,
      normalizeEditProposal_of_part hclip hpart hexact hstart hop⟩

/-- The first of the linked clips of `sampleGroup`, or both, are trimmed to their first half. -/
def sampleTrim (scope : ClipMutationScope) : EditProposeInput :=
  { sampleCut with operations := [.trimClip 20 scope ⟨0, sampleInstant⟩ ⟨0, sampleInstant⟩] }

/-- A clip of a stream that starts before zero, from its first two seconds. -/
def sampleEarly : List Request := sampleAsset ++ [
  sampleStream (some (sampleTime (-2) 1)) (some (sampleTime 5 1)),
  sampleCommit 1 2 [⟨⟨.asset, 40⟩, 1⟩, ⟨⟨.track, 4⟩, 1⟩] [⟨['a'], .clip, 20⟩]
    [.addClip ['a'] 4 40 43 ⟨sampleTime (-2) 1, sampleTime 2 1⟩ ⟨0, sampleTime 2 1⟩ true none]]

/-- The clip is trimmed to its first half. -/
def sampleEarlyTrim : EditProposeInput :=
  { sampleCut with
    baseProjectRevision := 3
    preconditions := [⟨⟨.clip, 20⟩, 1⟩, ⟨⟨.track, 4⟩, 2⟩]
    operations := [.trimClip 20 .single ⟨sampleTime (-2) 1, 1⟩ ⟨0, 1⟩] }

/-- Linked clips that are moved do not stay where they were relative to their sources, and a clip
    that starts before zero in its source is not trimmed to its first half. -/
theorem moved_off_source :
    (∃ p I n n' s s', sampleAfter sampleGroup = some p ∧
      loadEditNormalizationState p.revision p.content p.media I.input = .ok I.state ∧
      newEditNormalizer I = .ok n ∧ n.moveClip I 20 .linked 4 1 = .ok n' ∧
      n.working.clip? 20 = some s ∧ n'.working.clip? 20 = some s' ∧ s'.offset ≠ s.offset) ∧
    ∃ p state s, sampleAfter sampleEarly = some p ∧
      loadEditNormalizationState p.revision p.content p.media sampleEarlyTrim = .ok state ∧
      let J := sampleNormalization [] sampleEarlyTrim state
      J.base.clip? 20 = some s ∧ validateNormalizationInput J = .ok () ∧
        ¬∃ proposal, @normalizeEditProposal runeClusters J = .ok proposal := by
  refine ⟨?_, by simp only [exists_and_left]; decide +kernel⟩
  let I := sampleNormalization [] (sampleTrim .linked)
  obtain ⟨p, hp, state, hload, n, hn, n', hn', s, hs, s', hs', hsource, hstart⟩ : ∃ p,
      sampleAfter sampleGroup = some p ∧ ∃ state,
        loadEditNormalizationState p.revision p.content p.media (sampleTrim .linked) = .ok state ∧
        ∃ n, newEditNormalizer (I state) = .ok n ∧
          ∃ n', n.moveClip (I state) 20 .linked 4 1 = .ok n' ∧
            ∃ s, n.working.clip? 20 = some s ∧ ∃ s', n'.working.clip? 20 = some s' ∧
              s'.sourceRange = s.sourceRange ∧ s'.timelineRange.start ≠ s.timelineRange.start := by
    decide +kernel
  refine ⟨p, I state, n, n', s, s', hp, hload, hn, hn', hs, hs', fun hoffset => hstart ?_⟩
  rw [ClipState.offset, ClipState.offset, hsource, sub_left_inj] at hoffset
  exact toRat_injective hoffset

theorem samplePart {s : ClipState} (hsource : s.sourceRange = ⟨0, 1⟩)
    (htimeline : s.timelineRange = ⟨0, 1⟩) :
    s.Part ⟨0, sampleInstant⟩ ⟨0, sampleInstant⟩ ∧
      s.Representable ⟨0, sampleInstant⟩ ⟨0, sampleInstant⟩ := by
  have hhalf : sampleInstant.toRat = 1 / 2 := by
    rw [show sampleInstant = ⟨1, 2, by decide⟩ by decide]
    simp [toRat]
  refine ⟨⟨?_, ?_, ?_, rfl⟩, ⟨by decide, ⟨0, ?_⟩, (new? (-1) 2).getD 0, ?_⟩⟩
  · rw [instants, instants, htimeline, hhalf, toRat_zero, toRat_one]
    exact Set.Ico_subset_Ico le_rfl (by norm_num)
  · rw [instants, hhalf, toRat_zero, Set.nonempty_Ico]
    norm_num
  · rw [ClipState.offset, hsource, htimeline]
  · rw [htimeline, toRat_zero, sub_zero]
  · rw [htimeline, hhalf, toRat_zero, toRat_one,
      show (new? (-1) 2).getD 0 = ⟨-1, 2, by decide⟩ by decide]
    norm_num [toRat]

theorem clips_in_step_sample : ∃ p I n m k J, sampleAfter sampleGroup = some p ∧
    newEditNormalizer I = .ok n ∧ n.moveClip I 20 .linked 4 1 = .ok m ∧
    n.trimClip I 20 .linked ⟨0, sampleInstant⟩ ⟨0, sampleInstant⟩ = .ok k ∧
    n.MovesInStep m [20, 21] ∧ EditNormalizer.TrimsInStep I n k [20, 21] ∧
    J.input = sampleTrim .single ∧
        ∃ proposal, @normalizeEditProposal runeClusters J = .ok proposal := by
  let I := sampleNormalization [] (sampleTrim .linked)
  let J := sampleNormalization [] (sampleTrim .single)
  obtain ⟨p, hp, state, hload, n, hn, m, hm, k, hk, hmembers, s, hs, track, htrack, stream, hstream,
      htest⟩ : ∃ p,
      sampleAfter sampleGroup = some p ∧ ∃ state,
        loadEditNormalizationState p.revision p.content p.media (sampleTrim .linked) = .ok state ∧
        ∃ n, newEditNormalizer (I state) = .ok n ∧
        ∃ m, n.moveClip (I state) 20 .linked 4 1 = .ok m ∧
        ∃ k, n.trimClip (I state) 20 .linked ⟨0, sampleInstant⟩ ⟨0, sampleInstant⟩ = .ok k ∧
        scopeMembers n.working n.members 20 .linked = [20, 21] ∧
        ∃ s, (J state).base.clip? 20 = some s ∧
        ∃ track, state.tracks.find? s.trackID = some track ∧
        ∃ stream, state.sourceStreams.find? s.sourceStreamID = some stream ∧
        decide (s.id = 20 ∧ s.tombstoned = false ∧ s.sourceRange = ⟨0, 1⟩ ∧
          s.timelineRange = ⟨0, 1⟩ ∧
        sourceRangeWithin ⟨0, 1⟩ stream.descriptor ∧
        (∀ other ∈ (J state).base.clips, other.id ≠ s.id → other.tombstoned = false →
          other.trackID = s.trackID → rangesOverlap s.timelineRange other.timelineRange = false) ∧
        (J state).conditions.find? ⟨.clip, s.id⟩ = some s.revision ∧
        (J state).conditions.find? ⟨.track, track.id⟩ = some track.revision ∧
        dependentAlignments (J state) ⟨.clip, s.id⟩ = [] ∧
        validateNormalizationInput (J state) = .ok ()) := by
    decide +kernel
  obtain ⟨hid, hlive, hsource, htimeline, _, hapart, hclip, htrack', hdependents, hvalid⟩ :=
    of_decide_eq_true htest
  let _ := runeClusters
  have hdone : [].foldlM (fun n op => n.normalizeEntityOperation (I state) op) n = .ok n := rfl
  obtain ⟨hmoves, htrims, haccepts⟩ := clips_in_step (Content.Measured.genesis _ _)
    (Machine.Reaches.of_play hp) hload hn hdone
  obtain ⟨hpart, hexact⟩ := samplePart hsource htimeline
  have hholds : (J state).Holds s track stream :=
    ⟨⟨by rwa [hid], hlive⟩, htrack, hstream, by rwa [hsource],
    by rw [htimeline]; decide, by rw [hsource, htimeline], hapart⟩
  have htrimsTo : (J state).TrimsTo s track ⟨0, sampleInstant⟩ ⟨0, sampleInstant⟩ :=
    ⟨by rw [hid]; rfl, hclip, htrack', hdependents⟩
  rw [← hmembers]
  exact ⟨p, I state, n, m, k, J state, hp, hn, hm, hk, hmoves _ _ _ _ hm, htrims _ _ _ _ hk, rfl,
    (haccepts _ _ _ _ _ _ hholds hpart hexact rfl htrimsTo).2 hvalid⟩

end OpenCut
