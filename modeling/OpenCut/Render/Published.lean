import OpenCut.Render.Payload

/-!
# What a published plan is

`validateRenderPlanPayload` goes over the instructions of a plan one after another. This
module says what it accepts in terms of the whole plan (`validateRenderPlanPayload_ok`): the
instructions are in the order (layer, start, id), those of one track follow one another in
time, and the plan ends with the last of them.
-/

namespace OpenCut

open Outcome List RenderCaptionInstruction RenderVideoInstruction InstructionPlace

theorem laterRenderTime_eq_max (left right : RationalTime) :
    laterRenderTime left right = max left right := by
  rw [laterRenderTime]
  split
  · next h => rw [max_eq_right h.le]
  · next h => rw [max_eq_left (not_lt.1 h)]

variable {range : TimeRange}

theorem validatePositiveRange_iff {nonnegative : Bool} :
    validatePositiveRange range nonnegative = true ↔
      range.duration.isPositive ∧ (nonnegative → range.start.isNegative = false) ∧
        range.end?.isSome := by
  cases nonnegative <;> simp [validatePositiveRange, and_assoc]

/-! ## The order of the instructions -/

namespace InstructionPlace

/-- The place comes before the other one. -/
def Before (a b : InstructionPlace) : Prop :=
  a.layer < b.layer ∨ (a.layer = b.layer ∧
    (a.range.start < b.range.start ∨ (a.range.start = b.range.start ∧ a.id < b.id)))

theorem ordered_some {a b : InstructionPlace} : ordered (some a) b = true ↔ a.Before b := by
  rw [ordered, Before]
  split
  · next h => simp [h]
  · next h => simp [not_not.1 h]

theorem Before.trans {a b c : InstructionPlace} (hab : a.Before b) (hbc : b.Before c) :
    a.Before c := by
  rcases hab with hab | ⟨hl, hab⟩ <;> rcases hbc with hbc | ⟨hl', hbc⟩
  · exact .inl (hab.trans hbc)
  · exact .inl (hl' ▸ hab)
  · exact .inl (hl ▸ hbc)
  · refine .inr ⟨hl.trans hl', ?_⟩
    rcases hab with hab | ⟨hs, hab⟩ <;> rcases hbc with hbc | ⟨hs', hbc⟩
    · exact .inl (hab.trans hbc)
    · exact .inl (hs' ▸ hab)
    · exact .inl (hs ▸ hbc)
    · exact .inr ⟨hs.trans hs', Nat.lt_trans hab hbc⟩

/-- On one track, the place ends before the other one begins. -/
def Apart (a b : InstructionPlace) : Prop :=
  a.trackID = b.trackID → ∀ stop ∈ a.range.end?, stop ≤ b.range.start

end InstructionPlace

/-- A range that lasts ends after it begins. -/
theorem TimeRange.start_lt_end {stop : RationalTime}
    (hpos : range.duration.isPositive) (h : range.end? = some stop) : range.start < stop := by
  rw [RationalTime.lt_iff_toRat, TimeRange.toRat_end h]
  have := RationalTime.isPositive_iff.1 hpos
  linarith

/-! ## The loop over the instructions -/

section

variable {α : Type} (place : α → InstructionPlace) (check : α → Bool)

/-- The instructions that the loop accepts. -/
structure PublishedList (source : List α) : Prop where
  checked : ∀ a ∈ source, check a
  ends : ∀ a ∈ source, (place a).range.end?.isSome
  before : source.Pairwise fun a b => (place a).Before (place b)
  apart : source.Pairwise fun a b => (place a).Apart (place b)

/-- The latest end of an instruction. -/
def latestEnd (source : List α) : RationalTime :=
  (source.filterMap fun a => (place a).range.end?).foldl laterRenderTime 0

/-- What the loop keeps, after the instructions `done`. -/
structure Published.After (done : List α) (published : Published) : Prop where
  previous : published.previous = done.getLast?.map place
  last : ∀ a ∈ done, ∃ last, published.occupied.lastByTrack.find? (place a).trackID = some last ∧
    ∀ stop ∈ (place a).range.end?, stop ≤ last
  attained : ∀ trackID last, published.occupied.lastByTrack.find? trackID = some last →
    ∃ a ∈ done, (place a).trackID = trackID ∧ (place a).range.end? = some last
  duration : published.occupied.duration = latestEnd place done

variable {place check} {source : List α} {a : α} {stop : RationalTime}

theorem latestEnd_concat (h : (place a).range.end? = some stop) :
    latestEnd place (source ++ [a]) = laterRenderTime (latestEnd place source) stop := by
  simp [latestEnd, filterMap_append, h]

variable {published : Published} {published' : Published}

/-- An instruction is accepted if it passes its check, comes after the one before, and does
    not begin before the last one on its track ends. -/
theorem Published.step_ok : Published.step place check published a = .ok published' ↔
      (check a ∧ ordered published.previous (place a)) ∧
      ∃ stop, (place a).range.end? = some stop ∧
        (∀ last ∈ published.occupied.lastByTrack.find? (place a).trackID,
          last ≤ (place a).range.start) ∧
        published' = ⟨⟨published.occupied.lastByTrack.set (place a).trackID stop,
          laterRenderTime published.occupied.duration stop⟩, some (place a)⟩ := by
  simp only [step, Occupied.place, steps_ok]
  constructor
  · rintro ⟨hcheck, _, ⟨stop, hstop, hlast, rfl⟩, rfl⟩
    exact ⟨hcheck, stop, hstop, hlast, rfl⟩
  · rintro ⟨hcheck, stop, hstop, hlast, rfl⟩
    exact ⟨hcheck, _, ⟨stop, hstop, hlast, rfl⟩, rfl⟩

variable {done : List α}

/-- What the loop keeps after one more instruction. -/
theorem Published.After.step (h : published.After place done)
    (hpos : (place a).range.duration.isPositive) (hstop : (place a).range.end? = some stop)
    (hlast : ∀ last ∈ published.occupied.lastByTrack.find? (place a).trackID,
      last ≤ (place a).range.start) :
    Published.After place (done ++ [a]) ⟨⟨published.occupied.lastByTrack.set (place a).trackID stop,
      laterRenderTime published.occupied.duration stop⟩, some (place a)⟩ where
  previous := by simp
  last := by
    intro b hb
    rw [Table.find?_set]
    rcases mem_append.1 hb with hb | hb
    · obtain ⟨last, hfind, hle⟩ := h.last b hb
      split
      · next htrack =>
        -- The track of `b` now ends with `a`, which begins after `b` ends.
        refine ⟨stop, rfl, fun stop' hstop' => ?_⟩
        rw [htrack] at hfind
        exact (hle stop' hstop').trans
          ((hlast last hfind).trans (TimeRange.start_lt_end hpos hstop).le)
      · exact ⟨last, hfind, hle⟩
    · obtain rfl := mem_singleton.1 hb
      rw [if_pos rfl]
      refine ⟨stop, rfl, fun stop' hstop' => ?_⟩
      rw [Option.mem_def, hstop] at hstop'
      exact (Option.some.inj hstop').ge
  attained := by
    intro trackID last hfind
    rw [Table.find?_set] at hfind
    split at hfind
    · next htrack =>
      exact ⟨a, by simp, htrack.symm, hstop.trans hfind⟩
    · obtain ⟨b, hb, htrack, hend⟩ := h.attained trackID last hfind
      exact ⟨b, mem_append_left _ hb, htrack, hend⟩
  duration := by
    rw [latestEnd_concat hstop, ← h.duration]

/-- The last instruction is after all the others if it is after the one before it. -/
theorem pairwise_before_concat (hdone : done.Pairwise fun a b => (place a).Before (place b))
    (h : ordered (done.getLast?.map place) (place a)) :
    ∀ b ∈ done, (place b).Before (place a) := by
  intro b hb
  obtain ⟨_, last, rfl⟩ := eq_nil_or_concat done |>.resolve_left (ne_nil_of_mem hb)
  rw [concat_eq_append] at h hb hdone
  rw [getLast?_append_cons, getLast?_singleton, Option.map_some, ordered_some] at h
  rcases mem_append.1 hb with hb | hb
  · exact ((pairwise_append.1 hdone).2.2 b hb last (by simp)).trans h
  · obtain rfl := mem_singleton.1 hb
    exact h

theorem PublishedList.concat :
    PublishedList place check (done ++ [a]) ↔ PublishedList place check done ∧
      check a ∧ (place a).range.end?.isSome ∧
      ∀ b ∈ done, (place b).Before (place a) ∧ (place b).Apart (place a) := by
  constructor
  · rintro ⟨hcheck, hends, hbefore, hapart⟩
    rw [pairwise_append] at hbefore hapart
    refine ⟨⟨fun b hb => hcheck b (by simp [hb]), fun b hb => hends b (by simp [hb]), hbefore.1,
      hapart.1⟩, hcheck a (by simp), hends a (by simp), fun b hb => ?_⟩
    exact ⟨hbefore.2.2 b hb a (by simp), hapart.2.2 b hb a (by simp)⟩
  · rintro ⟨⟨hcheck, hends, hbefore, hapart⟩, ha, hend, hlast⟩
    refine ⟨?_, ?_, pairwise_append.2 ⟨hbefore, by simp, ?_⟩,
      pairwise_append.2 ⟨hapart, by simp, ?_⟩⟩
    · simpa [or_imp, forall_and] using ⟨hcheck, ha⟩
    · simpa only [mem_append, mem_singleton, or_imp, forall_and, forall_eq] using ⟨hends, hend⟩
    · intro b hb c hc
      obtain rfl := mem_singleton.1 hc
      exact (hlast b hb).1
    · intro b hb c hc
      obtain rfl := mem_singleton.1 hc
      exact (hlast b hb).2

section

variable (hpos : ∀ a, check a → (place a).range.duration.isPositive)
include hpos

/-- An accepted instruction extends the published ones. -/
theorem Published.After.of_step (hlist : PublishedList place check done)
    (h : published.After place done)
    (hstep : Published.step place check published a = .ok published') :
    PublishedList place check (done ++ [a]) ∧ published'.After place (done ++ [a]) := by
  obtain ⟨⟨hcheck, hordered⟩, _, hstop, hlast, rfl⟩ := Published.step_ok.1 hstep
  rw [h.previous] at hordered
  refine ⟨PublishedList.concat.2 ⟨hlist, hcheck, by simp [hstop], fun b hb => ?_⟩,
    h.step (hpos a hcheck) hstop hlast⟩
  refine ⟨pairwise_before_concat hlist.before hordered b hb, fun htrack stop' hstop' => ?_⟩
  obtain ⟨last, hfind, hle⟩ := h.last b hb
  exact (hle stop' hstop').trans (hlast last (htrack ▸ hfind))

/-- An instruction that extends the published ones is accepted. -/
theorem Published.After.exists_step
    (hlist : PublishedList place check (done ++ [a])) (h : published.After place done) :
    ∃ published', Published.step place check published a = .ok published' ∧
      published'.After place (done ++ [a]) := by
  obtain ⟨-, hcheck, hend, hbefore⟩ := PublishedList.concat.1 hlist
  obtain ⟨stop, hstop⟩ := Option.isSome_iff_exists.1 hend
  have htrack : ∀ last ∈ published.occupied.lastByTrack.find? (place a).trackID,
      last ≤ (place a).range.start := by
    intro last hfind
    obtain ⟨b, hb, htrack, hbend⟩ := h.attained _ _ hfind
    exact (hbefore b hb).2 htrack last hbend
  refine ⟨_, Published.step_ok.2 ⟨⟨hcheck, ?_⟩, stop, hstop, htrack, rfl⟩,
    h.step (hpos a hcheck) hstop htrack⟩
  rw [h.previous]
  cases hlast : done.getLast? with
  | none => rfl
  | some b => exact ordered_some.2 (hbefore b (mem_of_getLast? hlast)).1

end

theorem PublishedList.of_append {rest : List α} (h : PublishedList place check (source ++ rest)) :
    PublishedList place check source where
  checked a ha := h.checked a (mem_append_left _ ha)
  ends a ha := h.ends a (mem_append_left _ ha)
  before := (List.pairwise_append.1 h.before).1
  apart := (List.pairwise_append.1 h.apart).1

/-- What the loop accepts, and what it returns. -/
theorem validatePublished_ok (hpos : ∀ a, check a → (place a).range.duration.isPositive)
    {duration : RationalTime} :
    validatePublished place check source = .ok duration ↔
      PublishedList place check source ∧ duration = latestEnd place source := by
  have hnil : PublishedList place check [] := ⟨by simp, by simp, .nil, .nil⟩
  have hstart : Published.After place ([] : List α) ⟨.none, none⟩ :=
    ⟨rfl, by simp, by simp [Occupied.none], rfl⟩
  simp only [validatePublished, steps_ok]
  constructor
  · rintro ⟨published, hloop, rfl⟩
    have hafter := foldlM_progress
      (fun done published => PublishedList place check done ∧ published.After place done)
      (fun done a published published' h hstep => h.2.of_step hpos h.1 hstep) ⟨hnil, hstart⟩ hloop
    exact ⟨hafter.1, hafter.2.duration⟩
  · rintro ⟨hlist, rfl⟩
    have htotal := foldlM_total (l := source) (f := Published.step place check)
      (fun done published => published.After place done) ?_ hstart
    · obtain ⟨published, hloop, hafter⟩ := htotal
      exact ⟨published, hloop, hafter.duration⟩
    · intro done a rest published hsource hafter
      rw [← hsource, append_cons] at hlist
      exact hafter.exists_step hpos hlist.of_append

end

/-! ## The plan -/

variable {inputs : List RenderPlanInput}

theorem RenderVideoInstruction.ranges_of_valid
    {instruction : RenderVideoInstruction} (h : instruction.valid inputs) :
    validatePositiveRange instruction.sourceRange false ∧
      validatePositiveRange instruction.timelineRange true ∧
      instruction.sourceRange.duration = instruction.timelineRange.duration := by
  simp only [valid, wellFormed, Bool.and_eq_true, beq_iff_eq] at h
  exact ⟨h.1.1.1.2, h.1.1.2, h.1.2⟩

theorem RenderAudioInstruction.ranges_of_valid
    {instruction : RenderAudioInstruction} (h : instruction.valid inputs) :
    validatePositiveRange instruction.sourceRange false ∧
      validatePositiveRange instruction.timelineRange true ∧
      instruction.sourceRange.duration = instruction.timelineRange.duration := by
  simp only [valid, Bool.and_eq_true, beq_iff_eq] at h
  exact ⟨h.1.1.1.1.2, h.1.1.1.2, h.2⟩

theorem RenderCaptionInstruction.range_of_valid {fonts : List RenderFontResource}
    {instruction : RenderCaptionInstruction} (h : instruction.valid fonts) :
    validatePositiveRange instruction.range true := by
  simp only [valid, wellFormed, Bool.and_eq_true] at h
  exact h.1.1.2

/-- The plans that the render engine executes. -/
structure RenderPlanPayload.Published (plan : RenderPlanPayload) : Prop where
  revision : plan.sequenceRevision ≠ 0
  format : plan.sequenceFormat.valid
  positive : plan.duration.isPositive
  inputCount : plan.inputs.length ≤ maximumRenderPlanItems
  videoCount : plan.video.length ≤ maximumRenderPlanItems
  audioCount : plan.audio.length ≤ maximumRenderPlanItems
  captionCount : plan.captions.length ≤ maximumRenderPlanItems
  fontCount : plan.fontResources.length ≤ maximumRenderPlanItems
  output : plan.purpose.output plan.sequenceFormat plan.duration = .ok plan.output
  inputs : plan.inputs.Pairwise fun a b => a.artifactID < b.artifactID
  inputsValid : ∀ input ∈ plan.inputs, input.valid plan.purpose.requiredProfile
  fonts : plan.fontResources.Pairwise fun a b => a.resourceID < b.resourceID
  fontsValid : ∀ font ∈ plan.fontResources, font.valid
  video : PublishedList RenderVideoInstruction.place (RenderVideoInstruction.valid plan.inputs)
    plan.video
  audio : PublishedList RenderAudioInstruction.place (RenderAudioInstruction.valid plan.inputs)
    plan.audio
  captions : PublishedList RenderCaptionInstruction.place
    (RenderCaptionInstruction.valid plan.fontResources) plan.captions
  duration : max (max (latestEnd RenderVideoInstruction.place plan.video)
    (latestEnd RenderAudioInstruction.place plan.audio))
    (latestEnd RenderCaptionInstruction.place plan.captions) = plan.duration
  usedInputs : plan.usedInputs.length = plan.inputs.length
  usedFonts : plan.usedFonts.length = plan.fontResources.length

variable {plan : RenderPlanPayload}

theorem RenderPlanPayload.instructionDuration_ok {duration : RationalTime} :
    plan.instructionDuration = .ok duration ↔
      PublishedList RenderVideoInstruction.place (RenderVideoInstruction.valid plan.inputs)
        plan.video ∧
      PublishedList RenderAudioInstruction.place (RenderAudioInstruction.valid plan.inputs)
        plan.audio ∧
      PublishedList RenderCaptionInstruction.place
        (RenderCaptionInstruction.valid plan.fontResources) plan.captions ∧
      max (max (latestEnd RenderVideoInstruction.place plan.video)
        (latestEnd RenderAudioInstruction.place plan.audio))
        (latestEnd RenderCaptionInstruction.place plan.captions) = duration := by
  have hvideo : ∀ instruction, valid plan.inputs instruction →
      (place instruction).range.duration.isPositive := fun _ h =>
    (validatePositiveRange_iff.1 (ranges_of_valid h).2.1).1
  have haudio : ∀ instruction, RenderAudioInstruction.valid plan.inputs instruction →
      (RenderAudioInstruction.place instruction).range.duration.isPositive := fun _ h =>
    (validatePositiveRange_iff.1 (RenderAudioInstruction.ranges_of_valid h).2.1).1
  have hcaptions : ∀ instruction, valid plan.fontResources instruction →
      (place instruction).range.duration.isPositive := fun _ h =>
    (validatePositiveRange_iff.1 (range_of_valid h)).1
  simp only [instructionDuration, steps_ok, validatePublished_ok hvideo,
    validatePublished_ok haudio, validatePublished_ok hcaptions, laterRenderTime_eq_max]
  constructor
  · rintro ⟨_, ⟨hv, rfl⟩, _, ⟨ha, rfl⟩, _, ⟨hc, rfl⟩, rfl⟩
    exact ⟨hv, ha, hc, rfl⟩
  · rintro ⟨hv, ha, hc, rfl⟩
    exact ⟨_, ⟨hv, rfl⟩, _, ⟨ha, rfl⟩, _, ⟨hc, rfl⟩, rfl⟩

/-- The plans that `validateRenderPlanPayload` accepts. -/
theorem validateRenderPlanPayload_ok {u : Unit} :
    validateRenderPlanPayload plan = .ok u ↔ plan.Published := by
  simp only [validateRenderPlanPayload, validatePublishedRenderInputs,
    validatePublishedRenderFonts, bind_ok, ensure_ok, refuseAs_ok,
    RenderPlanPayload.instructionDuration_ok]
  constructor
  · rintro ⟨_, ⟨h₁, h₂, h₃, h₄, h₅, h₆, h₇, h₈⟩, _, houtput, _, rfl, _, ⟨hi, hi'⟩, _,
      ⟨hf, hf'⟩, _, ⟨hv, ha, hc, hd⟩, rfl, hu, hu'⟩
    exact ⟨h₁, h₂, h₃, h₄, h₅, h₆, h₇, h₈, houtput, hi, hi', hf, hf', hv, ha, hc, hd, hu, hu'⟩
  · rintro ⟨h₁, h₂, h₃, h₄, h₅, h₆, h₇, h₈, houtput, hi, hi', hf, hf', hv, ha, hc, hd, hu, hu'⟩
    exact ⟨(), ⟨h₁, h₂, h₃, h₄, h₅, h₆, h₇, h₈⟩, _, houtput, (), rfl, (), ⟨hi, hi'⟩, (),
      ⟨hf, hf'⟩, _, ⟨hv, ha, hc, hd⟩, rfl, hu, hu'⟩

end OpenCut
