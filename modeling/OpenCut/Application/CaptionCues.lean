import OpenCut.Application.CaptionDerivation
import Mathlib.Data.Set.Lattice
import Mathlib.Order.CompletePartialOrder

/-!
# The captions that are derived from an excerpt

Captions are derived in loops: the words of the excerpt and the corrections in it become units
of evidence, the units are grouped, each group is wrapped into lines and given the time its
words take, prolonged so that it can be read. Every loop leaves the units as they are and in
their order (`groupCaptionUnits_ok`, `wrapCaptionUnits_ok`), so the captions say what the
excerpt says and rest on the same evidence (`deriveCaptionCues_complete`).

A caption is prolonged up to the next group at most. So the captions follow each other, and
each has the time that the policy asks for (`deriveCaptionCues_readable`). The lines that are
counted are those a group is wrapped into: a correction may have line breaks of its own, and
then there are more of them. The length of the evidence of a group may be no `RationalTime`, and
then its caption names no range of evidence (`caption_of_three_lines`).
-/

namespace OpenCut

open Outcome Unicode Uniseg RationalTime Option EvidenceUnit
open List hiding Disjoint pure_def

/-! ## Text without white space -/

theorem solid_appendTo (result : Text) (unit : EvidenceUnit) :
    solid (unit.appendTo result) = solid result ++ solid unit.text := by
  unfold appendTo appendTranscriptText
  split
  · rw [solid_append]
    exact congrArg _ (filter_cons_of_neg (by decide))
  · exact solid_append ..

theorem solid_foldl (units : List EvidenceUnit) (result : Text) :
    solid (units.foldl appendTo result) = solid result ++ units.flatMap (solid ·.text) := by
  induction units generalizing result with
  | nil => simp
  | cons unit units ih =>
    rw [foldl_cons, ih, solid_appendTo, flatMap_cons, append_assoc]

theorem solid_joinCaptionUnits (units : List EvidenceUnit) :
    solid (joinCaptionUnits units) = units.flatMap (solid ·.text) := by
  rw [joinCaptionUnits, solid_trimSpace, solid_foldl]
  rfl

theorem foldl_appendTo_prefix (units : List EvidenceUnit) (result : Text) :
    result <+: units.foldl appendTo result := by
  induction units generalizing result with
  | nil => exact prefix_rfl
  | cons unit units ih =>
    refine List.IsPrefix.trans ?_ (ih _)
    dsimp only [appendTo, appendTranscriptText]
    split <;> exact prefix_append _ _

theorem joinCaptionUnits_prefix (units rest : List EvidenceUnit) :
    joinCaptionUnits units <+: joinCaptionUnits (units ++ rest) := by
  obtain ⟨_, hmore⟩ := foldl_appendTo_prefix rest (units.foldl appendTo [])
  rw [joinCaptionUnits, joinCaptionUnits, foldl_append, ← hmore]
  exact trimSpace_prefix _ _

theorem mem_foldl_appendTo {units : List EvidenceUnit} {result : Text} {c : Char}
    (h : c ∈ units.foldl appendTo result) :
    c ∈ result ∨ c = ' ' ∨ ∃ unit ∈ units, c ∈ unit.text := by
  induction units generalizing result with
  | nil => exact .inl h
  | cons unit units ih =>
    rcases ih h with h | h | ⟨other, hother, h⟩
    · dsimp only [appendTo, appendTranscriptText] at h
      split at h <;> simp only [mem_append, mem_cons] at h
      · rcases h with h | h | h
        · exact .inl h
        · exact .inr (.inl h)
        · exact .inr (.inr ⟨unit, mem_cons_self, h⟩)
      · exact h.imp_right fun h => .inr ⟨unit, mem_cons_self, h⟩
    · exact .inr (.inl h)
    · exact .inr (.inr ⟨other, mem_cons_of_mem _ hother, h⟩)

/-! ## The evidence of an excerpt -/

/-- The evidence of an excerpt: its segments, and its words with the corrections in place. -/
def SourceExcerptValue.units? (value : SourceExcerptValue) (artifact : EditTranscriptArtifactState)
    (corrections : List TranscriptCorrectionState) :
    Option (List EditTranscriptSegmentState × List EvidenceUnit) := do
  let (segments, tokens) ←
    (transcriptEvidenceSpan artifact value.evidence.segmentIDs value.sourceRange).toOption
  let provided := value.evidence.correctionRevisions.map fun ref => (ref.id, ref.revision)
  let corrections ← (correctionsInRange corrections value.evidence.artifactID value.language
    value.sourceRange provided).toOption
  let units ← (evidenceUnits false none none corrections tokens).toOption
  return (segments, units)

/-- The segments that a unit is taken from: those of the correction, or that of the word. -/
def EvidenceUnit.segmentIDs (segments : List EditTranscriptSegmentState) (unit : EvidenceUnit) :
    List ID :=
  match unit.correction with
  | some correction => correction.segmentIDs
  | none => ((segments.find? fun s => s.ordinal == unit.segmentOrdinal).map (·.id)).toList

/-- The correction that a unit is. -/
def EvidenceUnit.correctionRevisions (unit : EvidenceUnit) : List TranscriptCorrectionRevisionRef :=
  correctionRevisionRefs unit.correction.toList

variable {segments : List EditTranscriptSegmentState}

theorem mem_captionGroupEvidence {group : List EvidenceUnit}
    {ids : List ID} {refs : List TranscriptCorrectionRevisionRef}
    (h : captionGroupEvidence segments group = (ids, refs)) :
    (∀ id, id ∈ ids ↔ ∃ unit ∈ group, id ∈ unit.segmentIDs segments) ∧
      ∀ ref, ref ∈ refs ↔ ∃ unit ∈ group, ref ∈ unit.correctionRevisions := by
  obtain ⟨rfl, rfl⟩ := Prod.mk.inj h
  refine ⟨fun id => ?_, fun ref => ?_⟩
  · rw [mem_eraseDups]
    exact mem_flatMap
  · simp only [mem_eraseDups, correctionRevisionRefs, correctionRevisions, List.mem_map,
      mem_filterMap, mem_toList]
    constructor
    · rintro ⟨c, ⟨unit, hunit, hc⟩, href⟩
      exact ⟨unit, hunit, c, hc, href⟩
    · rintro ⟨unit, hunit, c, hc, href⟩
      exact ⟨c, ⟨unit, hunit, hc⟩, href⟩

/-- What some caption has, some unit of some group has. -/
theorem exists_mem_flatten_iff {α β : Type} {p : α → Prop} {q : β → Prop} {groups : List (List α)}
    {bs : List β} (h : List.Forall₂ (fun group b => q b ↔ ∃ a ∈ group, p a) groups bs) :
    (∃ b ∈ bs, q b) ↔ ∃ a ∈ groups.flatten, p a := by
  induction h with
  | nil => simp
  | cons hb _ ih =>
    simp only [exists_mem_cons_iff, hb, ih, flatten_cons, mem_append, or_and_right, exists_or]

/-! ## Lines and groups -/

theorem lastCaptionWordBoundary_le (units : List EvidenceUnit) (unit : EvidenceUnit) :
    lastCaptionWordBoundary (units ++ [unit]) ≤ units.length := by
  dsimp only [lastCaptionWordBoundary]
  generalize hboundaries : filter _ _ = boundaries
  cases hlast : boundaries.getLast? with
  | none => exact Nat.zero_le _
  | some x =>
    obtain ⟨_, i⟩ := x
    rw [← hboundaries] at hlast
    have hmem := (mem_filter.1 (mem_of_getLast? hlast)).1
    have hlt := (mem_zipIdx hmem).2.1
    simp only [length_zip, length_append, length_tail, length_singleton] at hlt
    change i ≤ _
    omega

/-- What holds of all parts, if the last one counts only if there is something in it. -/
theorem forall_mem_parts {α : Type} {p : List α → Prop} {parts : List (List α)} {last : List α}
    (hparts : ∀ part ∈ parts, p part) (hlast : last ≠ [] → p last) :
    let all := if last.isEmpty then parts else parts ++ [last]
    all.flatten = parts.flatten ++ last ∧ ∀ part ∈ all, p part := by
  dsimp only
  split
  · next hempty =>
    rw [isEmpty_iff.1 hempty, append_nil]
    exact ⟨rfl, hparts⟩
  · next hempty =>
    refine ⟨by simp, forall_mem_append.2 ⟨hparts, forall_mem_singleton.2 (hlast ?_)⟩⟩
    simpa using hempty

theorem toRat_laterTime (a b : RationalTime) : (laterTime a b).toRat = max a.toRat b.toRat := by
  unfold laterTime
  split
  · next h => rw [max_eq_right (lt_iff_toRat.1 h).le]
  · next h => rw [max_eq_left (not_lt.1 fun hlt => h (lt_iff_toRat.2 hlt))]

/-! ## The time of the evidence -/

variable {group : List EvidenceUnit}

/-- The next unit starts when the unit has ended. -/
def EvidenceUnit.Before (unit next : EvidenceUnit) : Prop :=
  unit.range.start.toRat + unit.range.duration.toRat ≤ next.range.start.toRat

/-- The time of the evidence of a caption: from its first unit to its last. -/
def evidenceInstants (group : List EvidenceUnit) : Set ℚ :=
  {x | ∃ first ∈ group.head?, ∃ last ∈ group.getLast?, first.range.start.toRat ≤ x ∧
    x < last.range.start.toRat + last.range.duration.toRat}

/-- The units of a caption lie between its first and its last. -/
theorem between_of_isChain (h : group.IsChain EvidenceUnit.Before)
    (hnonneg : ∀ unit ∈ group, 0 ≤ unit.range.duration.toRat) :
    ∀ unit ∈ group, (∀ first ∈ group.head?, first.range.start.toRat ≤ unit.range.start.toRat) ∧
      ∀ last ∈ group.getLast?, unit.range.start.toRat + unit.range.duration.toRat ≤
        last.range.start.toRat + last.range.duration.toRat := by
  induction group with
  | nil => simp
  | cons first rest ih =>
    cases rest with
    | nil => simp
    | cons next rest =>
      obtain ⟨hbefore, h⟩ := isChain_cons_cons.1 h
      have ih := ih h fun unit hunit => hnonneg unit (mem_cons_of_mem _ hunit)
      have hfirst := hnonneg first mem_cons_self
      have hnext := hnonneg next (by simp)
      unfold EvidenceUnit.Before at hbefore
      simp only [head?_cons, mem_some_iff, forall_eq', getLast?_cons_cons] at ih ⊢
      intro unit hunit
      rcases mem_cons.1 hunit with rfl | hunit
      · refine ⟨le_rfl, fun last hlast => ?_⟩
        linarith [(ih next mem_cons_self).2 last hlast]
      · exact ⟨by linarith [(ih unit hunit).1], (ih unit hunit).2⟩

/-- The evidence of a caption is the time of all its units. -/
theorem instants_subset_evidenceInstants (h : group.IsChain EvidenceUnit.Before)
    (hnonneg : ∀ unit ∈ group, 0 ≤ unit.range.duration.toRat) {unit : EvidenceUnit}
    (hunit : unit ∈ group) : unit.range.instants ⊆ evidenceInstants group := by
  obtain ⟨hfirst, hlast⟩ := between_of_isChain h hnonneg unit hunit
  have hne := ne_nil_of_mem hunit
  rintro x ⟨hx, hx'⟩
  exact ⟨_, head?_eq_some_head hne, _, getLast?_eq_some_getLast hne,
    (hfirst _ (head?_eq_some_head hne)).trans hx,
    hx'.trans_le (hlast _ (getLast?_eq_some_getLast hne))⟩

/-! ## Grouping and wrapping -/

section

variable [Uniseg] {policy : CaptionDerivationPolicy} {units : List EvidenceUnit} {text : Text}

section

variable (h : wrapCaptionUnits policy units = some text)
include h

/-- The text of a caption: the units, in lines none of which is longer than a line that fits. -/
theorem wrapCaptionUnits_ok :
    ∃ lines : List (List EvidenceUnit), lines.flatten = units ∧ lines ≠ [] ∧
      lines.length ≤ policy.maximumLines ∧ text = ['\n'].intercalate (lines.map joinCaptionUnits) ∧
      ∀ line ∈ lines, ∃ rest,
        graphemeClusterCount (joinCaptionUnits (line ++ rest)) ≤ policy.maximumLineGraphemes := by
  let Fits := fun line => graphemeClusterCount (joinCaptionUnits line) ≤ policy.maximumLineGraphemes
  simp only [wrapCaptionUnits, bind_eq_bind, bind_eq_some_iff, guard_eq_some',
    pure_def, some.injEq, Prod.exists] at h
  obtain ⟨lines, current, hloop, -, hlength, -, -, rfl⟩ := h
  obtain ⟨hflatten, hcurrent, hlines⟩ := foldlM_some
    (fun done (s : List (List EvidenceUnit) × List EvidenceUnit) => s.1.flatten ++ s.2 = done ∧
      (s.2 ≠ [] → Fits s.2) ∧ ∀ line ∈ s.1, ∃ rest, Fits (line ++ rest)) (by
      rintro _ unit ⟨lines, current⟩ s ⟨rfl, hcurrent, hlines⟩ hs
      unfold wrapCaptionUnit at hs
      dsimp only at hs hcurrent hlines ⊢
      split at hs
      · next hfits =>
        cases hs
        exact ⟨by simp, fun _ => hfits, hlines⟩
      · split at hs
        · cases hs
        · next hbreak =>
          cases hs
          have hle := lastCaptionWordBoundary_le current unit
          generalize lastCaptionWordBoundary (current ++ [unit]) = i at hbreak hle ⊢
          rw [not_or, not_or, not_lt] at hbreak
          refine ⟨by simp [append_assoc], fun _ => hbreak.2.2,
            forall_mem_append.2 ⟨hlines, forall_mem_singleton.2 ⟨current.drop i, ?_⟩⟩⟩
          -- The line is the beginning of one that fits.
          rw [take_append_of_le_length hle, take_append_drop]
          refine hcurrent fun hnil => hbreak.1 ?_
          rw [hnil] at hle
          exact Nat.le_zero.1 hle) ⟨rfl, by simp, by simp⟩ hloop
  obtain ⟨hall, hfits⟩ := forall_mem_parts hlines fun hne =>
    ⟨[], by rw [append_nil]; exact hcurrent hne⟩
  exact ⟨_, hall.trans hflatten, ne_nil_of_length_pos hlength.1, hlength.2, rfl, hfits⟩

theorem solid_wrapCaptionUnits : solid text = units.flatMap (solid ·.text) := by
  obtain ⟨_, rfl, -, -, rfl, -⟩ := wrapCaptionUnits_ok h
  rw [solid_intercalate, flatMap_map, flatten_eq_flatMap, flatMap_assoc]
  congr 1
  funext line
  exact solid_joinCaptionUnits line

end

variable {groups : List (List EvidenceUnit)}

theorem breakBefore_ok {unit : EvidenceUnit} {breaks : Bool}
    (h : breakBefore policy group unit = some breaks) :
    (breaks → group ≠ []) ∧ ∀ previous ∈ group.getLast?, previous.Before unit := by
  unfold breakBefore at h
  split at h
  · next previous hfirst hlast =>
    simp only [bind_eq_bind, bind_eq_some_iff, guard_eq_some', Bool.not_eq_true',
      ← Bool.not_eq_true, isNegative_iff, not_lt] at h
    obtain ⟨_, hend, _, hgap, -, hnonneg, -⟩ := h
    refine ⟨fun _ hnil => by simp [hnil] at hfirst, fun _ hmem => ?_⟩
    obtain rfl := mem_unique hlast hmem
    have hgap := toRat_subtract hgap
    rw [TimeRange.toRat_end hend] at hgap
    unfold EvidenceUnit.Before
    linarith
  · next hnone =>
    cases group with
    | nil => simpa using h
    | cons first rest => exact (hnone first _ rfl (getLast?_eq_some_getLast (by simp))).elim

/-- The units are grouped as they come. -/
theorem groupCaptionUnits_ok (h : groupCaptionUnits policy units = some groups) :
    groups.flatten = units ∧ groups ≠ [] ∧
      ∀ group ∈ groups, group ≠ [] ∧ group.IsChain EvidenceUnit.Before := by
  simp only [groupCaptionUnits, bind_eq_bind, bind_eq_some_iff, pure_def,
    some.injEq, guard_eq_some', Prod.exists] at h
  obtain ⟨groups, current, hloop, -, hlength, rfl⟩ := h
  -- Invariant: the groups and the current one are the units so far, each one in order.
  obtain ⟨hflatten, hcurrent, hgroups⟩ := foldlM_some
    (fun done (s : List (List EvidenceUnit) × List EvidenceUnit) => s.1.flatten ++ s.2 = done ∧
      s.2.IsChain EvidenceUnit.Before ∧
      ∀ group ∈ s.1, group ≠ [] ∧ group.IsChain EvidenceUnit.Before) (by
      rintro _ _ ⟨_, _⟩ s ⟨rfl, hcurrent, hgroups⟩ hs
      simp only [groupCaptionUnit, bind_eq_bind, bind_eq_some_iff, pure_def,
        some.injEq, guard_eq_some'] at hs
      obtain ⟨-, -, _, hbreaks, -, -, rfl⟩ := hs
      obtain ⟨hne, hbefore⟩ := breakBefore_ok hbreaks
      split
      · next hbreak =>
        exact ⟨by simp, .singleton _,
          forall_mem_append.2 ⟨hgroups, forall_mem_singleton.2 ⟨hne hbreak, hcurrent⟩⟩⟩
      · refine ⟨by simp, hcurrent.append (.singleton _) fun previous hmem next hnext => ?_, hgroups⟩
        rw [← some.inj hnext]
        exact hbefore previous hmem) ⟨rfl, .nil, by simp⟩ hloop
  obtain ⟨hall, hchained⟩ := forall_mem_parts hgroups fun hne => ⟨hne, hcurrent⟩
  exact ⟨hall.trans hflatten, ne_nil_of_length_pos hlength.1, hchained⟩

/-! ## The captions of an excerpt -/

variable {artifact : EditTranscriptArtifactState} {excerpt : NarrativeNodeState}
  {value : SourceExcerptValue} {corrections : List TranscriptCorrectionState} {clip : ClipState}
  {cues : List CaptionDerivationCue}

/-- The caption of a group of units, which ends before `stop`. -/
structure CaptionDerivationCue.OfGroup (policy : CaptionDerivationPolicy)
    (segments : List EditTranscriptSegmentState) (clip : ClipState) (stop : RationalTime)
    (group : List EvidenceUnit) (cue : CaptionDerivationCue) : Prop where
  text : wrapCaptionUnits policy group = some cue.text
  evidence : captionGroupEvidence segments group = (cue.segmentIDs, cue.correctionRevisions)
  start : group.head?.map (·.range.start) = some cue.sourceRange.start
  stop : cue.sourceRange.start.toRat + cue.sourceRange.duration.toRat ≤ stop.toRat
  covers : ∀ last ∈ group.getLast?, last.range.start.toRat + last.range.duration.toRat ≤
    cue.sourceRange.start.toRat + cue.sourceRange.duration.toRat
  timeline : cue.timelineRange.duration = cue.sourceRange.duration ∧ cue.timelineRange.start.toRat =
      clip.timelineRange.start.toRat + (cue.sourceRange.start.toRat - clip.sourceRange.start.toRat)
  within : transcriptRangeContains clip.timelineRange cue.timelineRange
  durations : 0 < cue.sourceRange.duration.toRat ∧
    policy.minimumDuration.toRat ≤ cue.sourceRange.duration.toRat ∧
    cue.sourceRange.duration.toRat ≤ policy.maximumDuration.toRat
  reading : (graphemeClusterCount (cue.text.filter (· != '\n')) : ℚ) / policy.maximumReadingRate ≤
    cue.sourceRange.duration.toRat

variable {cue : CaptionDerivationCue} {stop : RationalTime}

theorem captionCue_ok (hrate : 0 < policy.maximumReadingRate)
    (h : captionCue policy segments clip stop group = some cue) :
    cue.OfGroup policy segments clip stop group := by
  simp only [captionCue, bind_eq_bind, bind_eq_some_iff, guard_eq_some',
    pure_def, some.injEq, Bool.and_eq_true, decide_eq_true_eq] at h
  obtain ⟨_, htext, _, hfirst, _, hlast, evidenceEnd, hevidence, minimumEnd, hminimum,
    _, hreading, readingEnd, hreadingEnd, -, hstop, _, hduration, -, ⟨hpos, hmax⟩, _,
    hoffset, _, hstart, -, hwithin, rfl⟩ := h
  rw [le_iff_toRat, toRat_laterTime, toRat_laterTime] at hstop
  have hduration := toRat_subtract hduration
  rw [toRat_laterTime, toRat_laterTime] at hduration
  have hminimum := toRat_add hminimum
  have hreadingEnd := toRat_add hreadingEnd
  have hreading := toRat_new? hrate hreading
  have hevidence := TimeRange.toRat_end hevidence
  have hoffset := toRat_subtract hoffset
  have hstart := toRat_add hstart
  have hend := le_max_left (max evidenceEnd.toRat minimumEnd.toRat) readingEnd.toRat
  refine ⟨htext, rfl, by rw [hfirst]; rfl, ?_, fun _ hmem => ?_, ⟨rfl, ?_⟩, hwithin,
    ⟨isPositive_iff.1 hpos, ?_, le_iff_toRat.1 hmax⟩, ?_⟩
  · linarith
  · obtain rfl := mem_unique hlast hmem
    linarith [le_max_left evidenceEnd.toRat minimumEnd.toRat]
  · linarith
  · linarith [le_max_right evidenceEnd.toRat minimumEnd.toRat]
  · have hle := le_max_right (max evidenceEnd.toRat minimumEnd.toRat) readingEnd.toRat
    rw [Int.cast_natCast] at hreading
    linarith

/-- A caption takes some time, and ends before the next one starts. -/
def CaptionDerivationCue.Before (cue next : CaptionDerivationCue) : Prop :=
  0 < cue.timelineRange.duration.toRat ∧ cue.timelineRange.start.toRat +
    cue.timelineRange.duration.toRat ≤ next.timelineRange.start.toRat

instance : Trans CaptionDerivationCue.Before CaptionDerivationCue.Before
    CaptionDerivationCue.Before where
  trans := fun h h' => ⟨h.1, h.2.trans ((le_add_of_nonneg_right h'.1.le).trans h'.2)⟩

/-- The captions of groups, each of which ends before the next group. -/
theorem cues_of_groups {lastEnd : RationalTime} (hrate : 0 < policy.maximumReadingRate)
    (hgroups : ∀ group ∈ groups, group ≠ [] ∧ group.IsChain EvidenceUnit.Before)
    (h : List.Forall₂ (fun p cue => captionCue policy segments clip p.2 p.1 = some cue)
      (groups.zip ((groups.tail.filterMap fun group => group.head?.map (·.range.start)) ++
        [lastEnd])) cues) :
    List.Forall₂ (fun group cue => group.IsChain EvidenceUnit.Before ∧
        ∃ stop, cue.OfGroup policy segments clip stop group) groups cues ∧
      cues.IsChain CaptionDerivationCue.Before := by
  induction groups generalizing cues with
  | nil =>
    cases h
    exact ⟨.nil, .nil⟩
  | cons group groups ih =>
    cases groups with
    | nil =>
      cases h with
      | cons hcue hnil =>
        cases hnil
        exact ⟨.cons ⟨(hgroups group (by simp)).2, _, captionCue_ok hrate hcue⟩ .nil, .singleton _⟩
    | cons next =>
      obtain ⟨_, _, rfl⟩ := exists_cons_of_ne_nil (hgroups next (by simp)).1
      cases h with
      | cons hcue h =>
        obtain ⟨hcues, hchain⟩ :=
          ih (fun group hgroup => hgroups group (mem_cons_of_mem _ hgroup)) h
        have hcue := captionCue_ok hrate hcue
        refine ⟨.cons ⟨(hgroups group (by simp)).2, _, hcue⟩ hcues, ?_⟩
        cases hcues with
        | cons hnext =>
          obtain ⟨-, _, hnext⟩ := hnext
          -- The caption ends before the next group, in the source and so on the timeline.
          obtain ⟨hduration, hstart⟩ := hcue.timeline
          have hstop := hcue.stop
          rw [some.inj hnext.start] at hstop
          refine .cons_cons ⟨hduration ▸ hcue.durations.1, ?_⟩ hchain
          rw [hduration, hstart, hnext.timeline.2]
          linarith

/-- The captions of an excerpt are those of the groups of its units. -/
theorem deriveCaptionCues_ok
    (h : deriveCaptionCues artifact excerpt value corrections clip policy = some cues) :
    ∃ segments units groups, value.units? artifact corrections = some (segments, units) ∧
      solid value.effectiveText = units.flatMap (solid ·.text) ∧ groups.flatten = units ∧
      groups ≠ [] ∧ List.Forall₂ (fun group cue => group.IsChain EvidenceUnit.Before ∧
        ∃ stop, cue.OfGroup policy segments clip stop group) groups cues ∧
      cues.IsChain CaptionDerivationCue.Before := by
  simp only [deriveCaptionCues, bind_eq_bind, bind_eq_some_iff, guard_eq_some', Prod.exists] at h
  obtain ⟨-, hvalid, segments, _, hspan, -, -, _, happlied, _, heffective, -, rfl,
    units, hunits, -, -, groups, hgroups, _, -, _, -, h⟩ := h
  obtain ⟨hflatten, hne, hgroup⟩ := groupCaptionUnits_ok hgroups
  have hrate : 0 < policy.maximumReadingRate := by
    rw [hvalid.1]
    decide
  refine ⟨segments, units, groups, ?_, ?_, hflatten, hne, cues_of_groups hrate hgroup (mapM_some h)⟩
  · simp [SourceExcerptValue.units?, hspan, happlied, hunits]
  · simp only [toOption_eq_some, effectiveTranscriptText, bind_ok, ensure_ok, pure_ok]
      at heffective hunits
    obtain ⟨units', hunits', -, -, heffective⟩ := heffective
    obtain rfl := Except.ok.inj (hunits'.symm.trans hunits)
    rw [← heffective]
    exact solid_joinCaptionUnits units'

/-- The captions of an excerpt say what the excerpt says, and rest on the same evidence: every unit
    of evidence is in the group of one caption. -/
theorem deriveCaptionCues_complete
    (h : deriveCaptionCues artifact excerpt value corrections clip policy = some cues) :
    solid (cues.flatMap (·.text)) = solid value.effectiveText ∧
    ∃ segments units groups, value.units? artifact corrections = some (segments, units) ∧
      groups.flatten = units ∧
      List.Forall₂ (fun group cue => solid cue.text = group.flatMap (solid ·.text) ∧
        (∀ id, id ∈ cue.segmentIDs ↔ ∃ unit ∈ group, id ∈ unit.segmentIDs segments) ∧
        ∀ ref, ref ∈ cue.correctionRevisions ↔ ∃ unit ∈ group, ref ∈ unit.correctionRevisions)
        groups cues ∧
      (∀ id, (∃ cue ∈ cues, id ∈ cue.segmentIDs) ↔ ∃ unit ∈ units, id ∈ unit.segmentIDs segments) ∧
      ∀ ref, (∃ cue ∈ cues, ref ∈ cue.correctionRevisions) ↔
        ∃ unit ∈ units, ref ∈ unit.correctionRevisions := by
  obtain ⟨segments, _, groups, hunits, htext, rfl, -, hcues, -⟩ := deriveCaptionCues_ok h
  replace hcues := hcues.imp fun group cue hcue => hcue.2.elim fun _ hcue =>
    And.intro (solid_wrapCaptionUnits hcue.text) (mem_captionGroupEvidence hcue.evidence)
  refine ⟨?_, segments, _, groups, hunits, rfl, hcues,
    fun id => exists_mem_flatten_iff (hcues.imp fun _ _ hcue => hcue.2.1 id),
    fun ref => exists_mem_flatten_iff (hcues.imp fun _ _ hcue => hcue.2.2 ref)⟩
  rw [htext]
  clear h hunits htext
  induction hcues with
  | nil => rfl
  | cons hcue _ ih =>
    rw [flatMap_cons, solid_append, hcue.1, ih, flatten_cons, flatMap_append]

/-! ## Captions that can be read -/

/-- The lines of a caption whose units have no line breaks are those it is wrapped into. -/
theorem lines_of_wrapCaptionUnits
    (hgrow : ∀ a b, graphemeClusterCount a ≤ graphemeClusterCount (a ++ b))
    (hunits : ∀ unit ∈ units, '\n' ∉ unit.text) (h : wrapCaptionUnits policy units = some text) :
    (text.splitOn '\n').length ≤ policy.maximumLines ∧
      ∀ line ∈ text.splitOn '\n', graphemeClusterCount line ≤ policy.maximumLineGraphemes := by
  obtain ⟨_, rfl, hne, hlength, rfl, hlines⟩ := wrapCaptionUnits_ok h
  rw [splitOn_intercalate, length_map]
  · refine ⟨hlength, fun line hline => ?_⟩
    obtain ⟨units, hmem, rfl⟩ := mem_map.1 hline
    obtain ⟨rest, hrest⟩ := hlines units hmem
    obtain ⟨_, hmore⟩ := joinCaptionUnits_prefix units rest
    rw [← hmore] at hrest
    exact (hgrow _ _).trans hrest
  · intro line hline hbreak
    obtain ⟨units, hmem, rfl⟩ := mem_map.1 hline
    rcases mem_foldl_appendTo (mem_of_mem_trimSpace hbreak) with h | h | ⟨unit, hunit, h⟩
    · exact absurd h not_mem_nil
    · exact absurd h (by decide)
    · exact hunits unit (mem_flatten.2 ⟨units, hmem, hunit⟩) h
  · simpa using hne

/-- The caption is shown while the clip is, and as long as its evidence; not too short, not too long
    and long enough to read. -/
structure CaptionDerivationCue.Timed (policy : CaptionDerivationPolicy) (clip : ClipState)
    (group : List EvidenceUnit) (cue : CaptionDerivationCue) : Prop where
  within : cue.timelineRange.instants ⊆ clip.timelineRange.instants
  evidence : ∀ x ∈ evidenceInstants group,
    x - clip.sourceRange.start.toRat + clip.timelineRange.start.toRat ∈ cue.timelineRange.instants
  durations : policy.minimumDuration ≤ cue.timelineRange.duration ∧
    cue.timelineRange.duration ≤ policy.maximumDuration
  reading : (graphemeClusterCount (cue.text.filter (· != '\n')) : ℚ) / policy.maximumReadingRate ≤
    cue.timelineRange.duration.toRat

theorem CaptionDerivationCue.OfGroup.timed
    (h : cue.OfGroup policy segments clip stop group) : cue.Timed policy clip group := by
  obtain ⟨hduration, hstart⟩ := h.timeline
  refine ⟨?_, fun x hx => ?_, ?_, ?_⟩
  · have hwithin := h.within
    unfold transcriptRangeContains at hwithin
    split at hwithin
    · next clipEnd cueEnd hclip hcue =>
      simp only [Bool.and_eq_true, decide_eq_true_eq, le_iff_toRat,
        TimeRange.toRat_end hclip, TimeRange.toRat_end hcue] at hwithin
      exact Set.Ico_subset_Ico hwithin.1 hwithin.2
    · cases hwithin
  · obtain ⟨first, hfirst, last, hlast, hx, hx'⟩ := hx
    have hle := h.covers last hlast
    have heq := h.start
    rw [mem_def.1 hfirst, map_some, some.injEq] at heq
    rw [heq] at hx
    constructor
    · linarith
    · rw [hduration]
      linarith
  · rw [hduration, le_iff_toRat, le_iff_toRat]
    exact h.durations.2
  · rw [hduration]
    exact h.reading

/-- The captions of an excerpt follow each other, and each is timed; if no word and no correction
    that it shows has a line break in it, it also keeps to the lines of the policy. Here a longer
    text does not have fewer clusters. -/
theorem deriveCaptionCues_readable
    (hgrow : ∀ a b, graphemeClusterCount a ≤ graphemeClusterCount (a ++ b))
    (h : deriveCaptionCues artifact excerpt value corrections clip policy = some cues) :
    cues.Pairwise (fun cue next => cue.timelineRange.start < next.timelineRange.start ∧
      Disjoint cue.timelineRange.instants next.timelineRange.instants) ∧
    ∃ segments units groups, value.units? artifact corrections = some (segments, units) ∧
      groups.flatten = units ∧
      List.Forall₂ (fun group cue => cue.Timed policy clip group ∧
        ((∀ unit ∈ group, 0 ≤ unit.range.duration.toRat) →
          ∀ unit ∈ group, unit.range.instants ⊆ evidenceInstants group) ∧
        ((∀ unit ∈ group, '\n' ∉ unit.text) →
          (cue.text.splitOn '\n').length ≤ policy.maximumLines ∧ ∀ line ∈ cue.text.splitOn '\n',
            graphemeClusterCount line ≤ policy.maximumLineGraphemes)) groups cues := by
  obtain ⟨segments, _, groups, hunits, -, rfl, -, hcues, hchain⟩ := deriveCaptionCues_ok h
  refine ⟨?_, segments, _, groups, hunits, rfl, hcues.imp fun group cue hcue => ?_⟩
  · refine (isChain_iff_pairwise.1 hchain).imp fun {cue next} hbefore => ?_
    obtain ⟨hpos, hle⟩ := hbefore
    refine ⟨lt_iff_toRat.2 (by linarith), Set.disjoint_left.2 fun x hx hx' => ?_⟩
    linarith [hx.2, hx'.1]
  · obtain ⟨hordered, _, hcue⟩ := hcue
    exact ⟨hcue.timed, fun hnonneg _ => instants_subset_evidenceInstants hordered hnonneg,
      fun hnewline => lines_of_wrapCaptionUnits hgrow hnewline hcue.text⟩

end

/-! ## A sample -/

/-- A time in seconds. -/
def sampleTime (value : Int) (scale : Nat) : RationalTime := (RationalTime.new? value scale).getD 0

/-- The captions of a transcript of some words. -/
def sampleDerivation (tokens : List TranscriptToken) (sourceRange : TimeRange)
    (effectiveText : Text) (corrections : List TranscriptCorrectionState) :
    Option (List CaptionDerivationCue) :=
  @deriveCaptionCues runeClusters
    { id := 70, assetID := 40, fingerprint := 42, sourceStreamID := 43
      segments := [{ id := 71, ordinal := 0, tokens }] }
    { id := 44, revision := 1, parentID := some 1, afterNodeID := none, value := .note ['e', 'n'] []
      tombstoned := false }
    { assetID := 40, acceptedFingerprint := 42, sourceRange, language := ['e', 'n'], effectiveText
      evidence := {
        artifactID := 70, sourceStreamID := 43, segmentIDs := [71]
        correctionRevisions := correctionRevisionRefs corrections } }
    corrections
    { id := 20, revision := 1, trackID := 4, assetID := 40, sourceStreamID := 43
      sourceRange := ⟨0, sampleTime 5 1⟩, timelineRange := ⟨0, sampleTime 5 1⟩, enabled := true
      linkGroupID := none, placement := none, tombstoned := false }
    readableCaptionPolicyV1

/-- The captions of two words, the second of which is corrected. -/
def sampleCues (text : Text) : Option (List CaptionDerivationCue) :=
  sampleDerivation [⟨⟨0, 1⟩, ['o', 'n', 'e']⟩, ⟨⟨1, 1⟩, ['t', 'o']⟩] ⟨0, sampleTime 2 1⟩
    (['o', 'n', 'e', ' '] ++ text) [{
      id := 72, revision := 1, assetID := 40, artifactID := 70, segmentIDs := [71]
      sourceRange := ⟨1, 1⟩, replacementText := text, language := ['e', 'n'], tombstoned := false }]

theorem deriveCaptionCues_complete_sample : ∃ cues, sampleCues ['t', 'w', 'o'] = some cues ∧
    solid (cues.flatMap (·.text)) = ['o', 'n', 'e', 't', 'w', 'o'] := by
  obtain ⟨cues, hcues⟩ := isSome_iff_exists.1
    (show (sampleCues ['t', 'w', 'o']).isSome by decide +kernel)
  exact ⟨cues, hcues, (@deriveCaptionCues_complete runeClusters _ _ _ _ _ _ _ hcues).1⟩

theorem deriveCaptionCues_readable_sample : ∃ cues, sampleCues ['t', 'w', 'o'] = some cues ∧
    cues.Pairwise fun cue next => cue.timelineRange.start < next.timelineRange.start ∧
      Disjoint cue.timelineRange.instants next.timelineRange.instants := by
  obtain ⟨cues, hcues⟩ := isSome_iff_exists.1
    (show (sampleCues ['t', 'w', 'o']).isSome by decide +kernel)
  exact ⟨cues, hcues, (@deriveCaptionCues_readable runeClusters _ _ _ _ _ _ _
    (fun a b => by simp [graphemeClusterCount]) hcues).1⟩

/-- The captions of three words, the first two of which take a time that is no rational time. -/
def sampleInexactCues : Option (List CaptionDerivationCue) :=
  sampleDerivation [⟨⟨sampleTime 1 65537, sampleTime 65536 65537⟩, ['a']⟩,
      ⟨⟨1, sampleTime 1 65539⟩, [' ', 'b']⟩,
      ⟨⟨sampleTime 131079 65539, sampleTime 131077 65539⟩, [' ', 'c']⟩]
    ⟨sampleTime 1 65537, sampleTime 262147 65537⟩ ['a', ' ', 'b', ' ', 'c'] []

/-- A correction with line breaks in it gives a caption of more than two lines, and a caption whose
    evidence takes a time that is no rational time has no evidence range. -/
theorem caption_of_three_lines :
    (∃ cues cue, sampleCues ['a', '\n', 'b', '\n', 'c'] = some cues ∧ cue ∈ cues ∧
      readableCaptionPolicyV1.maximumLines < (cue.text.splitOn '\n').length) ∧
    ∃ cues cue, sampleInexactCues = some cues ∧ cue ∈ cues ∧ cue.evidenceSourceRange = none := by
  simp only [exists_and_left]
  decide +kernel

end OpenCut
