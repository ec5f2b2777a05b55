import OpenCut.Engine.SourceTime
import OpenCut.Render.Counts
import OpenCut.Render.Renderable

/-!
# Settled frames

`renderengine/settle_plan.go`: one frame of a plan becomes the only frame of a plan of its own.
The settled plan draws what the plan draws at the frame, at the same source times, and there
is no such plan if the plan draws nothing there (`settled_frame`). It is a published plan if
the source time of every clip that it draws is still a time one frame later: the source range
of a settled instruction is as long as a frame, and nothing checks that it has an end.
-/

namespace OpenCut

open Outcome RationalTime List RenderVideoInstruction

/-! ## The model -/

/-- `oneFrameDuration`. -/
def oneFrameDuration (frameRate : RationalTime) : Except EngineError RationalTime := do
  ensure (0 < frameRate.value ∧ frameRate.value ≤ maxInt32) .settleFrameRate
  need (RationalTime.new? frameRate.scale frameRate.value.toNat) .time

/-- `settleOutputTime`. -/
def settleOutputTime (outputFrame : Nat) (frameRate : RationalTime) :
    Except EngineError RationalTime := do
  ensure (outputFrame * frameRate.scale ≤ maxInt64 ∧ frameRate.value ≤ maxInt32) .outputFrameTime
  need (RationalTime.new? (outputFrame * frameRate.scale : Nat) frameRate.value.toNat) .time

/-- `coversOutputTime`. -/
def coversOutputTime (value : TimeRange) (outputTime : RationalTime) : Except EngineError Bool := do
  ensure value.duration.isPositive .settleCaptionRange
  let stop ← need value.end? .time
  return value.start ≤ outputTime && outputTime < stop

variable (instruction : RenderVideoInstruction)

/-- The instruction for one frame from the source time. -/
def RenderVideoInstruction.settled
    (sourceTime frameDuration : RationalTime) : RenderVideoInstruction :=
  { instruction with
    timelineRange := ⟨0, frameDuration⟩
    sourceRange := ⟨sourceTime, frameDuration⟩ }

/-- The caption for one frame. -/
def RenderCaptionInstruction.settled (instruction : RenderCaptionInstruction)
    (frameDuration : RationalTime) : RenderCaptionInstruction :=
  { instruction with range := ⟨0, frameDuration⟩ }

/-- One turn of the loop of `SettlePlan` over the video instructions. -/
def settleVideo (outputFrame : Nat) (frameRate frameDuration : RationalTime)
    (settled : List RenderVideoInstruction) (instruction : RenderVideoInstruction) :
    Except EngineError (List RenderVideoInstruction) := do
  match ← videoInstructionSourceTime instruction outputFrame frameRate with
  | some sourceTime => return settled ++ [instruction.settled sourceTime frameDuration]
  | none => return settled

/-- One turn of the loop of `SettlePlan` over the captions. -/
def settleCaption (outputTime frameDuration : RationalTime)
    (settled : List RenderCaptionInstruction) (instruction : RenderCaptionInstruction) :
    Except EngineError (List RenderCaptionInstruction) := do
  let active ← coversOutputTime instruction.range outputTime
  return if active then settled ++ [instruction.settled frameDuration] else settled

/-- The plan for one frame that draws these instructions, with what they use. -/
def RenderPlanPayload.settledTo (plan : RenderPlanPayload) (frameDuration : RationalTime)
    (video : List RenderVideoInstruction) (captions : List RenderCaptionInstruction)
    (output : RenderOutputPolicy) : RenderPlanPayload :=
  { plan with
    duration := frameDuration, audio := [], video, captions, output
    inputs := plan.inputs.filter fun input =>
      video.any fun instruction => instruction.inputArtifactID == input.artifactID
    fontResources := plan.fontResources.filter fun font =>
      captions.any fun instruction => instruction.style.fontResourceID == font.resourceID }

/-- `SettlePlan`. -/
def settlePlan (plan : RenderPlanPayload) (outputFrame : Nat) :
    Except EngineError RenderPlanPayload := do
  let frameRate := plan.output.frameRate
  ensure (frameRate.isPositive ∧ outputFrame < plan.output.videoFrameCount) .settleOutputFrame
  let frameDuration ← oneFrameDuration frameRate
  let outputTime ← settleOutputTime outputFrame frameRate
  let video ← plan.video.foldlM (settleVideo outputFrame frameRate frameDuration) []
  let captions ← plan.captions.foldlM (settleCaption outputTime frameDuration) []
  ensure (video ≠ [] ∨ captions ≠ []) .settleInstantEmpty
  let output ← (plan.purpose.output plan.sequenceFormat frameDuration).mapError .contract
  return plan.settledTo frameDuration video captions output

/-! ## Frames of a published plan -/

/-- The frame of a plan that is asked for, of a rate that the engine can count. -/
structure RenderPlanPayload.Frame (plan : RenderPlanPayload) (outputFrame : Nat) : Prop where
  published : plan.Published
  lt : outputFrame < plan.output.videoFrameCount
  rate_le : plan.output.frameRate.value ≤ maxInt32

namespace RenderPlanPayload.Frame

variable {plan : RenderPlanPayload} {outputFrame : Nat}

section

variable (h : plan.Frame outputFrame)
include h

theorem rate_pos : plan.output.frameRate.isPositive := by
  rw [(output_counts h.published.output).frameRate]
  exact (output_counts h.published.output).rate_pos

theorem numerator_le : outputFrame * plan.output.frameRate.scale ≤ maxInt64 := by
  have hframe : outputFrame ≤ 10000000 := h.lt.le.trans (output_counts h.published.output).frames_le
  have hscale : plan.output.frameRate.scale ≤ 2147483647 := plan.output.frameRate.valid.scale_le
  exact (Nat.mul_le_mul hframe hscale).trans (by decide)

theorem value_pos : 0 < plan.output.frameRate.value := by
  simpa [isPositive] using h.rate_pos

/-- The time of the frame is computed. -/
theorem settleOutputTime_ok :
    ∃ outputTime, settleOutputTime outputFrame plan.output.frameRate = .ok outputTime ∧
      outputTime.toRat = frameTime plan.output.frameRate outputFrame := by
  have hpos := h.value_pos
  have hrate := h.rate_le
  obtain ⟨outputTime, hnew, htime⟩ := exists_new?
    (outputFrame * plan.output.frameRate.scale : Nat) plan.output.frameRate.value.toNat
    ((Int.natAbs_natCast _).trans_le h.numerator_le) (by omega) (by omega)
  refine ⟨outputTime, by rw [settleOutputTime, ensure_of _ ⟨h.numerator_le, hrate⟩, ok_bind, hnew,
    need], ?_⟩
  rw [htime, frameTime, toRat_of_pos hpos, div_div_eq_mul_div]
  push_cast
  rfl

/-- The duration of a frame is computed. -/
theorem oneFrameDuration_ok :
    ∃ frameDuration, oneFrameDuration plan.output.frameRate = .ok frameDuration ∧
      frameDuration.toRat = 1 / plan.output.frameRate.toRat := by
  have hpos := h.value_pos
  have hrate := h.rate_le
  have hscale : plan.output.frameRate.scale ≤ 2147483647 := plan.output.frameRate.valid.scale_le
  obtain ⟨frameDuration, hnew, htime⟩ := exists_new?
    plan.output.frameRate.scale plan.output.frameRate.value.toNat
    ((Int.natAbs_natCast _).trans_le (hscale.trans (by decide))) (by omega) (by omega)
  refine ⟨frameDuration, by rw [oneFrameDuration, ensure_of _ ⟨hpos, hrate⟩, ok_bind, hnew,
    need], ?_⟩
  rw [htime, toRat_of_pos hpos, one_div_div]
  rfl

/-- An instruction has a source time at the frame if it covers it; the time may be too fine. -/
theorem source {instruction : RenderVideoInstruction} (hmem : instruction ∈ plan.video) :
    (videoInstructionSourceTime instruction outputFrame plan.output.frameRate = .ok none ↔
      ¬instruction.timelineRange.Covers (frameTime plan.output.frameRate outputFrame)) ∧
    (∀ sourceTime, videoInstructionSourceTime instruction outputFrame plan.output.frameRate =
        .ok (some sourceTime) →
      instruction.timelineRange.Covers (frameTime plan.output.frameRate outputFrame) ∧
      sourceTime.toRat = instruction.sourceRange.sourceTime instruction.timelineRange
        (frameTime plan.output.frameRate outputFrame)) ∧
    ∀ e, videoInstructionSourceTime instruction outputFrame plan.output.frameRate = .error e →
      e = .time := by
  have hvalid := h.published.video.checked instruction hmem
  obtain ⟨-, htimeline, -⟩ := ranges_of_valid hvalid
  obtain ⟨-, hneg, hend⟩ := validatePositiveRange_iff.1 htimeline
  obtain ⟨_, htime, heq⟩ := videoInstructionSourceTime_eq hvalid h.rate_pos h.rate_le h.numerator_le
  rw [heq, ← htime]
  refine ⟨sourceTimeAt_eq_none hend, fun sourceTime hsource => ?_, fun e => sourceTimeAt_error hend⟩
  obtain ⟨hcovers, -, hat⟩ := (sourceTimeAt_eq_some hend (hneg rfl)).1 hsource
  exact ⟨hcovers, hat⟩

end

end RenderPlanPayload.Frame

/-! ## The loops -/

variable {captions : List RenderCaptionInstruction} {plan : RenderPlanPayload} {outputFrame : Nat}
  {frameDuration : RationalTime} {settled : List RenderVideoInstruction}

/-- A caption is asked whether it covers the frame. -/
theorem coversOutputTime_ok {range : TimeRange} (h : validatePositiveRange range true)
    (outputTime : RationalTime) :
    coversOutputTime range outputTime = .ok (decide (range.Covers outputTime.toRat)) := by
  obtain ⟨hpos, -, hend⟩ := validatePositiveRange_iff.1 h
  obtain ⟨_, hstop⟩ := Option.isSome_iff_exists.1 hend
  rw [coversOutputTime, ensure_of _ hpos, ok_bind, hstop, need, ok_bind, pure_ok, Bool.eq_iff_iff,
    decide_eq_true_iff]
  simp only [Bool.and_eq_true, decide_eq_true_iff, TimeRange.Covers, le_iff_toRat,
    lt_iff_toRat, TimeRange.toRat_end hstop]

/-- The captions that cover the frame are kept. -/
theorem settleCaptions_eq
    (h : ∀ instruction ∈ captions, validatePositiveRange instruction.range true)
    (outputTime frameDuration : RationalTime) (settled : List RenderCaptionInstruction) :
    captions.foldlM (settleCaption outputTime frameDuration) settled =
      .ok (settled ++ (captions.filter fun instruction =>
        decide (instruction.range.Covers outputTime.toRat)).map (·.settled frameDuration)) := by
  induction captions generalizing settled with
  | nil => simp [pure, Except.pure]
  | cons instruction captions ih =>
    rw [foldlM_cons, settleCaption, coversOutputTime_ok (h instruction (by simp)), ok_bind]
    change captions.foldlM (settleCaption outputTime frameDuration) _ = _
    rw [ih fun other hother => h other (mem_cons_of_mem _ hother)]
    by_cases hc : instruction.range.Covers outputTime.toRat <;> simp [hc]

/-- The settled instruction reads its source where the instruction does at the frame. -/
def SettledFrom (outputFrame : Nat) (frameRate frameDuration : RationalTime)
    (instruction settled : RenderVideoInstruction) : Prop :=
  ∃ sourceTime, videoInstructionSourceTime instruction outputFrame frameRate =
      .ok (some sourceTime) ∧ settled = instruction.settled sourceTime frameDuration

/-- The video instructions that cover the frame are kept, at their source times. -/
theorem settledVideo_of_loop (h : plan.Frame outputFrame)
    (hloop : plan.video.foldlM (settleVideo outputFrame plan.output.frameRate frameDuration) [] =
      .ok settled) :
    List.Forall₂ (SettledFrom outputFrame plan.output.frameRate frameDuration)
      (plan.video.filter fun instruction =>
        decide (instruction.timelineRange.Covers (frameTime plan.output.frameRate outputFrame)))
      settled := by
  refine foldlM_progress (fun done settled => (∀ instruction ∈ done, instruction ∈ plan.video) →
    List.Forall₂ (SettledFrom outputFrame plan.output.frameRate frameDuration)
      (done.filter fun instruction =>
        decide (instruction.timelineRange.Covers (frameTime plan.output.frameRate outputFrame)))
      settled) ?_ (fun _ => .nil) hloop fun _ hmem => hmem
  intro done instruction settled settled' ih hstep hdone
  have hsettled := ih fun other hother => hdone other (mem_append_left _ hother)
  obtain ⟨hnone, hsome, -⟩ := h.source (hdone instruction (by simp))
  obtain ⟨sourceTime, hsource, hstep⟩ := bind_ok.1 hstep
  rw [filter_append]
  cases sourceTime with
  | none =>
    obtain rfl := pure_ok.1 hstep
    simpa [hnone.1 hsource] using hsettled
  | some sourceTime =>
    obtain rfl := pure_ok.1 hstep
    rw [filter_cons_of_pos (by simpa using (hsome _ hsource).1)]
    exact rel_append hsettled (.cons ⟨sourceTime, hsource, rfl⟩ .nil)

/-! ## What is settled is published -/

variable {t : ℚ} {video : List RenderVideoInstruction} {frameRate : RationalTime} {α : Type}

/-- The items that are used, of items with keys of their own, are as many as the keys used. -/
theorem length_dedup_eq_filter {β κ : Type} [DecidableEq κ] [BEq κ] [LawfulBEq κ] (key : α → κ)
    {items : List α} (use : β → κ) {users : List β} (hnodup : (items.map key).Nodup)
    (hused : ∀ b ∈ users, use b ∈ items.map key) :
    (users.map use).dedup.length =
      (items.filter fun a => users.any fun b => use b == key a).length := by
  rw [← length_map key]
  refine List.Perm.length_eq ((perm_ext_iff_of_nodup (nodup_dedup _)
    (hnodup.sublist (filter_sublist.map key))).2 fun k => ?_)
  rw [mem_dedup, mem_map, mem_map]
  constructor
  · rintro ⟨b, hb, rfl⟩
    obtain ⟨a, ha, heq⟩ := mem_map.1 (hused b hb)
    exact ⟨a, mem_filter.2 ⟨ha, any_eq_true.2 ⟨b, hb, beq_iff_eq.2 heq.symm⟩⟩, heq⟩
  · rintro ⟨a, ha, rfl⟩
    obtain ⟨b, hb, heq⟩ := any_eq_true.1 (mem_filter.1 ha).2
    exact ⟨b, hb, beq_iff_eq.1 heq⟩

/-- Of two instructions in the order of a plan that are both active, the first is on a lower
    layer and on another track, if a layer belongs to one track. -/
theorem InstructionPlace.Before.layer_lt {a b : InstructionPlace} (h : a.Before b)
    (hapart : a.Apart b) (hlayer : a.layer = b.layer → a.trackID = b.trackID)
    (hend : a.range.end?.isSome) (ha : a.range.Covers t) (hb : b.range.Covers t) :
    a.layer < b.layer ∧ a.trackID ≠ b.trackID := by
  obtain ⟨stop, hstop⟩ := Option.isSome_iff_exists.1 hend
  have htrack : a.trackID ≠ b.trackID := by
    intro heq
    have hle := le_iff_toRat.1 (hapart heq stop hstop)
    rw [TimeRange.toRat_end hstop] at hle
    exact absurd (ha.2.trans_le (hle.trans hb.1)) (lt_irrefl t)
  rcases h with h | ⟨h, -⟩
  · exact ⟨h, htrack⟩
  · exact absurd (hlayer h) htrack

variable {place : α → InstructionPlace} {source : List α} {check : α → Bool}

/-- The active instructions of a plan are on layers and tracks of their own. -/
theorem PublishedList.active_pairwise (h : PublishedList place check source)
    (hlayer : ∀ a ∈ source, ∀ b ∈ source, (place a).layer = (place b).layer →
      (place a).trackID = (place b).trackID) :
    (source.filter fun a => decide ((place a).range.Covers t)).Pairwise fun a b =>
      (place a).layer < (place b).layer ∧ (place a).trackID ≠ (place b).trackID := by
  refine List.Pairwise.imp_of_mem ?_ ((h.before.and h.apart).sublist filter_sublist)
  intro a b ha hb hab
  rw [mem_filter, decide_eq_true_iff] at ha hb
  exact hab.1.layer_lt hab.2 (hlayer a ha.1 b hb.1) (h.ends a ha.1) ha.2 hb.2

/-- A range that begins with the plan ends after its duration. -/
theorem end?_zero_start (d : RationalTime) : (⟨0, d⟩ : TimeRange).end? = some d := by
  rw [TimeRange.end?, add?_eq_some, toRat_zero, zero_add]

variable {d : RationalTime}

theorem validatePositiveRange_zero_start (hd : d.isPositive) : validatePositiveRange ⟨0, d⟩ true :=
  validatePositiveRange_iff.2 ⟨hd, fun _ => rfl, by rw [end?_zero_start]; rfl⟩

theorem zero_le_of_isPositive (hd : d.isPositive) : 0 ≤ d := by
  rw [le_iff_toRat, toRat_zero]
  exact (isPositive_iff.1 hd).le

/-- Instructions that all last the one frame end with it. -/
theorem latestEnd_of_settled (hd : d.isPositive) (h : ∀ a ∈ source, (place a).range = ⟨0, d⟩) :
    latestEnd place source = if source = [] then 0 else d := by
  have hends : source.filterMap (fun a => (place a).range.end?) = source.map fun _ => d := by
    rw [← filterMap_eq_map]
    refine filterMap_congr fun a ha => ?_
    rw [h a ha, end?_zero_start]
    rfl
  have hfold : ∀ l : List α, (l.map fun _ => d).foldl laterRenderTime d = d := by
    intro l
    induction l with
    | nil => rfl
    | cons a l ih => rw [map_cons, foldl_cons, laterRenderTime_eq_max, max_self, ih]
  rw [latestEnd, hends]
  cases source with
  | nil => rfl
  | cons =>
    rw [map_cons, foldl_cons, laterRenderTime_eq_max, max_eq_right (zero_le_of_isPositive hd),
      hfold, if_neg (by simp)]

/-- Instructions that all last the one frame, on layers and tracks of their own. -/
theorem PublishedList.of_settled (hchecked : ∀ a ∈ source, check a)
    (hrange : ∀ a ∈ source, (place a).range = ⟨0, d⟩)
    (hpairwise : source.Pairwise fun a b =>
      (place a).layer < (place b).layer ∧ (place a).trackID ≠ (place b).trackID) :
    PublishedList place check source where
  checked := hchecked
  ends a ha := by
    rw [hrange a ha, end?_zero_start]
    rfl
  before := hpairwise.imp fun hab => .inl hab.1
  apart := hpairwise.imp fun hab htrack => absurd htrack hab.2

/-- Where the items that are used are kept, a user finds the same item. -/
theorem find?_filter_used {β κ : Type} [BEq κ] [LawfulBEq κ] (key : α → κ) (use : β → κ)
    (items : List α) {users : List β} {k : κ} (hk : ∃ b ∈ users, use b = k) :
    (items.filter fun a => users.any fun b => use b == key a).find? (fun a => key a == k) =
      items.find? fun a => key a == k := by
  rw [find?_filter]
  congr 1
  funext a
  by_cases heq : key a = k
  · have hany : (users.any fun b => use b == key a) := by simpa [heq] using hk
    simp [hany]
  · simp [heq]

variable {active : List RenderVideoInstruction}

section

variable (h : List.Forall₂ (SettledFrom outputFrame frameRate frameDuration) active settled)
include h

/-- What is settled keeps everything but its ranges. -/
theorem map_of_settledFrom {β : Type} (read : RenderVideoInstruction → β)
    (hread : ∀ instruction t d, read (instruction.settled t d) = read instruction) :
    settled.map read = active.map read := by
  induction h with
  | nil => rfl
  | cons hfrom _ ih =>
    obtain ⟨_, -, rfl⟩ := hfrom
    rw [map_cons, map_cons, hread, ih]

theorem mem_of_settledFrom :
    ∀ a ∈ settled, ∃ instruction ∈ active, SettledFrom outputFrame frameRate frameDuration
      instruction a := by
  induction h with
  | nil => simp
  | cons hfrom _ ih =>
    intro a ha
    rcases mem_cons.1 ha with rfl | ha
    · exact ⟨_, mem_cons_self, hfrom⟩
    · obtain ⟨instruction, hmem, hsettled⟩ := ih a ha
      exact ⟨instruction, mem_cons_of_mem _ hmem, hsettled⟩

end

/-- A settled instruction is valid if its source range has an end. -/
theorem RenderVideoInstruction.settled_valid {inputs : List RenderPlanInput}
    {instruction : RenderVideoInstruction} (h : instruction.valid inputs)
    {sourceTime : RationalTime} (hmem : instruction.settled sourceTime frameDuration ∈ video)
    (hd : frameDuration.isPositive) (hend : (⟨sourceTime, frameDuration⟩ : TimeRange).end?.isSome) :
    (instruction.settled sourceTime frameDuration).valid (inputs.filter fun input =>
      video.any fun other => other.inputArtifactID == input.artifactID) := by
  have hsource : validatePositiveRange ⟨sourceTime, frameDuration⟩ false :=
    validatePositiveRange_iff.2 ⟨hd, by simp, hend⟩
  have htimeline := validatePositiveRange_zero_start hd
  have hused : ∃ other ∈ video, other.inputArtifactID =
      (instruction.settled sourceTime frameDuration).inputArtifactID := ⟨_, hmem, rfl⟩
  simp only [valid, wellFormed, Bool.and_eq_true, decide_eq_true_iff,
    find?_filter_used RenderPlanInput.artifactID _ inputs hused] at h ⊢
  obtain ⟨⟨⟨⟨⟨⟨hinput, hclip⟩, htrack⟩, -⟩, -⟩, -⟩, hplacement⟩ := h
  exact ⟨⟨⟨⟨⟨⟨hinput, hclip⟩, htrack⟩, hsource⟩, htimeline⟩, beq_self_eq_true frameDuration⟩,
    hplacement⟩

/-- A settled caption is valid. -/
theorem RenderCaptionInstruction.settled_valid {fonts : List RenderFontResource}
    {instruction : RenderCaptionInstruction} (h : instruction.valid fonts)
    (hmem : instruction.settled frameDuration ∈ captions) (hd : frameDuration.isPositive) :
    (instruction.settled frameDuration).valid (fonts.filter fun font =>
      captions.any fun other => other.style.fontResourceID == font.resourceID) := by
  have hrange := validatePositiveRange_zero_start hd
  have hfont : (fonts.filter fun font => captions.any fun other =>
        other.style.fontResourceID == font.resourceID).any
      (fun font => font.resourceID == instruction.style.fontResourceID) =
      fonts.any fun font => font.resourceID == instruction.style.fontResourceID := by
    rw [← isSome_find?, ← isSome_find?]
    exact congrArg _ (find?_filter_used RenderFontResource.resourceID
      (fun other : RenderCaptionInstruction => other.style.fontResourceID) fonts ⟨_, hmem, rfl⟩)
  simp only [valid, wellFormed, Bool.and_eq_true] at h ⊢
  obtain ⟨⟨⟨⟨hcaption, htrack⟩, -⟩, hstyle⟩, htext⟩ := h
  refine ⟨⟨⟨⟨hcaption, htrack⟩, hrange⟩, ?_⟩, htext⟩
  simp only [RenderCaptionStyle.valid, settled, hfont] at hstyle ⊢
  exact hstyle

/-- The fonts and inputs of a published plan have identities of their own, and the captions
    and instructions use no others. -/
theorem RenderPlanPayload.Published.uses (h : plan.Published) :
    (plan.inputs.map (·.artifactID)).Nodup ∧ (plan.fontResources.map (·.resourceID)).Nodup ∧
    (∀ instruction ∈ plan.video, instruction.inputArtifactID ∈ plan.inputs.map (·.artifactID)) ∧
    ∀ instruction ∈ plan.captions,
      instruction.style.fontResourceID ∈ plan.fontResources.map (·.resourceID) := by
  refine ⟨?_, ?_, fun instruction hmem => ?_, fun instruction hmem => ?_⟩
  · exact pairwise_map.2 (h.inputs.imp ne_of_lt)
  · exact pairwise_map.2 (h.fonts.imp fun {a b} hlt (heq : a.resourceID = b.resourceID) =>
      List.lt_irrefl b.resourceID (heq ▸ hlt))
  · have hvalid := h.video.checked instruction hmem
    simp only [RenderVideoInstruction.valid, RenderVideoInstruction.wellFormed,
      Bool.and_eq_true] at hvalid
    obtain ⟨⟨⟨⟨⟨⟨hinput, -⟩, -⟩, -⟩, -⟩, -⟩, -⟩ := hvalid
    obtain ⟨_, hbind, -⟩ := Option.any_eq_true _ _ |>.1 hinput
    obtain ⟨input, hfind, -⟩ := Option.bind_eq_some_iff.1 hbind
    exact mem_map.2 ⟨input, mem_of_find?_eq_some hfind, by
      simpa using find?_some hfind⟩
  · have hvalid := h.captions.checked instruction hmem
    simp only [RenderCaptionInstruction.valid, RenderCaptionInstruction.wellFormed,
      RenderCaptionStyle.valid, Bool.and_eq_true, and_assoc, any_eq_true] at hvalid
    obtain ⟨-, -, -, ⟨font, hfont, heq⟩, -⟩ := hvalid
    exact mem_map.2 ⟨font, hfont, by simpa using heq⟩

/-- The settled plan is published if the source ranges of its instructions have ends. -/
theorem RenderPlanPayload.Frame.published_settledTo (h : plan.Frame outputFrame)
    (hcompiled : plan.Compiled) (hd : frameDuration.isPositive)
    (hvideo : List.Forall₂ (SettledFrom outputFrame plan.output.frameRate frameDuration)
      (plan.video.filter fun instruction => decide (instruction.timelineRange.Covers t)) video)
    {output : RenderOutputPolicy}
    (houtput : plan.purpose.output plan.sequenceFormat frameDuration = .ok output)
    (hends : ∀ instruction ∈ video, instruction.sourceRange.end?.isSome)
    (hcaptions : captions = (plan.captions.filter fun instruction =>
      decide (instruction.range.Covers t)).map (·.settled frameDuration))
    (hsome : video ≠ [] ∨ captions ≠ []) :
    (plan.settledTo frameDuration video captions output).Published := by
  obtain ⟨hinputs, hfonts, husedInputs, husedFonts⟩ := h.published.uses
  have hfrom := mem_of_settledFrom hvideo
  have hlength : video.length ≤ plan.video.length := by
    rw [← hvideo.length_eq]
    exact length_filter_le _ _
  have hlayers : video.map (fun instruction => (instruction.layer, instruction.trackID)) =
      (plan.video.filter fun instruction => decide (instruction.timelineRange.Covers t)).map
        fun instruction => (instruction.layer, instruction.trackID) :=
    map_of_settledFrom hvideo (fun instruction => (instruction.layer, instruction.trackID))
      fun _ _ _ => rfl
  -- The active instructions are on layers and tracks of their own, and so are the settled ones.
  have hpairwise : video.Pairwise fun a b => a.layer < b.layer ∧ a.trackID ≠ b.trackID := by
    have hactive := h.published.video.active_pairwise (t := t) hcompiled.video
    have hmap : (video.map fun instruction => (instruction.layer, instruction.trackID)).Pairwise
        fun a b => a.1 < b.1 ∧ a.2 ≠ b.2 := by
      rw [hlayers, pairwise_map]
      exact hactive
    exact pairwise_map.1 hmap
  have hcpairwise : captions.Pairwise fun a b => a.layer < b.layer ∧ a.trackID ≠ b.trackID := by
    rw [hcaptions, pairwise_map]
    exact h.published.captions.active_pairwise hcompiled.captions
  have hrange : ∀ instruction ∈ video, instruction.timelineRange = ⟨0, frameDuration⟩ := by
    intro instruction hmem
    obtain ⟨original, -, sourceTime, -, rfl⟩ := hfrom instruction hmem
    rfl
  have hcrange : ∀ instruction ∈ captions, instruction.range = ⟨0, frameDuration⟩ := by
    intro instruction hmem
    rw [hcaptions] at hmem
    obtain ⟨original, -, rfl⟩ := mem_map.1 hmem
    rfl
  refine
    { revision := h.published.revision
      format := h.published.format
      positive := hd
      inputCount := (length_filter_le _ _).trans h.published.inputCount
      videoCount := hlength.trans h.published.videoCount
      audioCount := Nat.zero_le _
      captionCount := ?_
      fontCount := (length_filter_le _ _).trans h.published.fontCount
      output := houtput
      inputs := h.published.inputs.sublist filter_sublist
      inputsValid := fun input hmem => h.published.inputsValid input (mem_of_mem_filter hmem)
      fonts := h.published.fonts.sublist filter_sublist
      fontsValid := fun font hmem => h.published.fontsValid font (mem_of_mem_filter hmem)
      video := .of_settled ?_ hrange hpairwise
      audio := ⟨by simp [settledTo], by simp [settledTo], .nil, .nil⟩
      captions := .of_settled ?_ hcrange hcpairwise
      duration := ?_
      usedInputs := ?_
      usedFonts := ?_ }
  · change captions.length ≤ _
    rw [hcaptions, length_map]
    exact (length_filter_le _ _).trans h.published.captionCount
  · intro instruction hmem
    have hend := hends instruction hmem
    obtain ⟨original, horiginal, sourceTime, -, rfl⟩ := hfrom instruction hmem
    exact settled_valid
      (h.published.video.checked original (mem_of_mem_filter horiginal)) hmem hd hend
  · intro instruction hmem
    have hmem' : instruction ∈ captions := hmem
    rw [hcaptions] at hmem'
    obtain ⟨original, horiginal, rfl⟩ := mem_map.1 hmem'
    exact RenderCaptionInstruction.settled_valid
      (h.published.captions.checked original (mem_of_mem_filter horiginal)) hmem hd
  · change max (max (latestEnd place video) 0)
      (latestEnd RenderCaptionInstruction.place captions) = frameDuration
    have hzero := zero_le_of_isPositive hd
    rw [latestEnd_of_settled hd hrange, latestEnd_of_settled hd hcrange]
    rcases hsome with hsome | hsome
    · rw [if_neg hsome, max_eq_left hzero]
      split
      · exact max_eq_left hzero
      · exact max_self _
    · rw [if_neg hsome]
      split
      · rw [max_self, max_eq_right hzero]
      · rw [max_eq_left hzero, max_self]
  · change (video.map inputArtifactID ++ []).dedup.length = _
    rw [append_nil]
    refine length_dedup_eq_filter RenderPlanInput.artifactID _ hinputs fun instruction hmem => ?_
    obtain ⟨original, horiginal, _, -, rfl⟩ := hfrom instruction hmem
    exact husedInputs original (mem_of_mem_filter horiginal)
  · refine length_dedup_eq_filter RenderFontResource.resourceID _ hfonts fun instruction hmem => ?_
    rw [hcaptions] at hmem
    obtain ⟨original, horiginal, rfl⟩ := mem_map.1 hmem
    exact husedFonts original (mem_of_mem_filter horiginal)

/-! ## The settled frame -/

/-- A settled instruction reads its only frame where its source range begins. -/
theorem RenderVideoInstruction.settled_sourceTime
    (sourceTime : RationalTime) (hd : frameDuration.isPositive) (hrate : frameRate.isPositive)
    (hvalue : frameRate.value ≤ maxInt32) :
    videoInstructionSourceTime (instruction.settled sourceTime frameDuration) 0 frameRate =
      .ok (some sourceTime) := by
  obtain ⟨outputTime, htime, heq⟩ := videoInstructionSourceTime_of_ranges
    (instruction.settled sourceTime frameDuration) 0 hd hd rfl rfl hrate hvalue
    (by rw [Nat.zero_mul]; exact Nat.zero_le _)
  have hzero : outputTime.toRat = 0 := by rw [htime, frameTime, Nat.cast_zero, zero_div]
  rw [heq, sourceTimeAt_eq_some (by rw [settled, end?_zero_start]; rfl) rfl, hzero]
  refine ⟨⟨?_, ?_⟩, ⟨0, ?_⟩, ?_⟩
  · exact toRat_zero.le
  · change 0 < (0 : RationalTime).toRat + frameDuration.toRat
    rw [toRat_zero, zero_add]
    exact isPositive_iff.1 hd
  · simp [settled, toRat_zero]
  · simp [settled, TimeRange.sourceTime, toRat_zero]

/-- What `SettlePlan` returns is the plan of the instructions that cover the frame. -/
theorem settlePlan_ok {settled : RenderPlanPayload} (hpublished : plan.Published)
    (h : settlePlan plan outputFrame = .ok settled) :
    plan.Frame outputFrame ∧ ∃ frameDuration video captions output,
      frameDuration.toRat = 1 / plan.output.frameRate.toRat ∧
      List.Forall₂ (SettledFrom outputFrame plan.output.frameRate frameDuration)
        (plan.video.filter fun instruction =>
          decide (instruction.timelineRange.Covers (frameTime plan.output.frameRate outputFrame)))
        video ∧
      captions = (plan.captions.filter fun instruction =>
        decide (instruction.range.Covers (frameTime plan.output.frameRate outputFrame))).map
          (·.settled frameDuration) ∧
      (video ≠ [] ∨ captions ≠ []) ∧
      plan.purpose.output plan.sequenceFormat frameDuration = .ok output ∧
      settled = plan.settledTo frameDuration video captions output := by
  simp only [settlePlan, steps_ok, mapError_ok] at h
  obtain ⟨⟨-, hlt⟩, frameDuration, hduration, _, houtputTime, video, hvideo, captions,
      hcaptions, hsome, output, houtput, rfl⟩ := h
  have hrate : plan.output.frameRate.value ≤ maxInt32 := by
    simp only [oneFrameDuration, steps_ok] at hduration
    obtain ⟨⟨-, hle⟩, -⟩ := hduration
    exact hle
  have hframe : plan.Frame outputFrame := ⟨hpublished, hlt, hrate⟩
  obtain ⟨_, hduration', hd⟩ := hframe.oneFrameDuration_ok
  obtain rfl := Except.ok.inj (hduration.symm.trans hduration')
  obtain ⟨_, houtputTime', htime⟩ := hframe.settleOutputTime_ok
  obtain rfl := Except.ok.inj (houtputTime.symm.trans houtputTime')
  rw [settleCaptions_eq fun instruction hmem => RenderCaptionInstruction.range_of_valid
    (hpublished.captions.checked instruction hmem), htime, nil_append] at hcaptions
  refine ⟨hframe, frameDuration, video, captions, output, hd, settledVideo_of_loop hframe hvideo,
    (Except.ok.inj hcaptions).symm, hsome, houtput, rfl⟩

/-- Nothing is settled exactly if nothing covers the frame. -/
theorem RenderPlanPayload.Frame.settlePlan_empty (h : plan.Frame outputFrame) :
    settlePlan plan outputFrame = .error .settleInstantEmpty ↔
      (∀ instruction ∈ plan.video,
        ¬instruction.timelineRange.Covers (frameTime plan.output.frameRate outputFrame)) ∧
      ∀ instruction ∈ plan.captions,
        ¬instruction.range.Covers (frameTime plan.output.frameRate outputFrame) := by
  obtain ⟨frameDuration, hduration, -⟩ := h.oneFrameDuration_ok
  obtain ⟨_, houtputTime, htime⟩ := h.settleOutputTime_ok
  rw [settlePlan, ensure_of _ ⟨h.rate_pos, h.lt⟩, ok_bind, hduration, ok_bind, houtputTime, ok_bind]
  simp only [settleCaptions_eq fun instruction hmem => RenderCaptionInstruction.range_of_valid
    (h.published.captions.checked instruction hmem), ok_bind, htime, nil_append]
  constructor
  · intro hempty
    rcases bind_error.1 hempty with hvideo | ⟨_, hvideo, hempty⟩
    · -- A source time that cannot be computed is another error.
      obtain ⟨instruction, hmem, _, hstep⟩ := foldlM_error hvideo
      rw [settleVideo, bind_error] at hstep
      rcases hstep with hstep | ⟨sourceTime, -, hstep⟩
      · exact absurd ((h.source hmem).2.2 _ hstep) (by simp)
      · cases sourceTime with
        | none => exact (pure_error.1 hstep).elim
        | some => exact (pure_error.1 hstep).elim
    · rcases bind_error.1 hempty with hnone | ⟨_, -, houtput⟩
      · obtain ⟨hnone, -⟩ := ensure_error.1 hnone
        rw [not_or, not_not, not_not, map_eq_nil_iff, filter_eq_nil_iff] at hnone
        obtain ⟨rfl, hcaptions⟩ := hnone
        have hall := settledVideo_of_loop h hvideo
        rw [forall₂_nil_right_iff, filter_eq_nil_iff] at hall
        exact ⟨fun instruction hmem => by simpa using hall instruction hmem,
          fun instruction hmem => by simpa using hcaptions instruction hmem⟩
      · rcases bind_error.1 houtput with houtput | ⟨_, -, houtput⟩
        · generalize plan.purpose.output plan.sequenceFormat frameDuration = outcome at houtput
          cases outcome <;> cases houtput
        · exact (pure_error.1 houtput).elim
  · rintro ⟨hvideo, hcaptions⟩
    have hloop : plan.video.foldlM
        (settleVideo outputFrame plan.output.frameRate frameDuration) [] = .ok [] := by
      refine foldlM_fixed fun instruction hmem => ?_
      rw [settleVideo, (h.source hmem).1.2 (hvideo instruction hmem)]
      rfl
    have hfilter : (plan.captions.filter fun instruction =>
        decide (instruction.range.Covers (frameTime plan.output.frameRate outputFrame))) = [] :=
      filter_eq_nil_iff.2 fun instruction hmem => by simpa using hcaptions instruction hmem
    rw [hloop, ok_bind, hfilter]
    rfl

/-- The source time of the instruction one frame later is a time. -/
def RenderVideoInstruction.NextFrame (frameRate : RationalTime) (outputFrame : Nat) : Prop :=
  RationalTime.Representable (instruction.sourceRange.sourceTime instruction.timelineRange
    (frameTime frameRate (outputFrame + 1)))

/-- A settled frame is the frame of the plan: it is the only frame of a plan of the same canvas
    that consists of what covers the frame, in the same order, and reads the same source times.
    That plan is valid if every clip that it draws has a source time one frame later. With a
    frame rate that the engine can count, there is none exactly if nothing covers the frame. -/
theorem settled_frame {purpose : RenderPlanPurpose} {input : CompileRenderPlanInput}
    (h : compileSequenceRenderPlan purpose input = .ok plan)
    (hframe : outputFrame < plan.output.videoFrameCount) :
    (∀ settled, settlePlan plan outputFrame = .ok settled →
      ((∀ instruction ∈ plan.video,
          instruction.timelineRange.Covers (frameTime plan.output.frameRate outputFrame) →
            instruction.NextFrame plan.output.frameRate outputFrame) →
        validateRenderPlanPayload settled = .ok ()) ∧
      settled.output.videoFrameCount = 1 ∧
      settled.output.canvasWidth = plan.output.canvasWidth ∧
      settled.output.canvasHeight = plan.output.canvasHeight ∧
      List.Forall₂ (fun instruction active =>
          (∃ sourceTime, active = instruction.settled sourceTime settled.duration) ∧
          videoInstructionSourceTime active 0 settled.output.frameRate =
            videoInstructionSourceTime instruction outputFrame plan.output.frameRate)
        (plan.video.filter fun instruction =>
          decide (instruction.timelineRange.Covers (frameTime plan.output.frameRate outputFrame)))
        settled.video ∧
      settled.captions = (plan.captions.filter fun instruction =>
        decide (instruction.range.Covers (frameTime plan.output.frameRate outputFrame))).map
          (·.settled settled.duration)) ∧
    (plan.output.frameRate.value ≤ maxInt32 →
      (settlePlan plan outputFrame = .error .settleInstantEmpty ↔
        (∀ instruction ∈ plan.video,
          ¬instruction.timelineRange.Covers (frameTime plan.output.frameRate outputFrame)) ∧
        ∀ instruction ∈ plan.captions,
          ¬instruction.range.Covers (frameTime plan.output.frameRate outputFrame))) := by
  simp only [compileSequenceRenderPlan, steps_ok] at h
  obtain ⟨plan, hbuild, hvalid, rfl⟩ := h
  have hcompiled := compiled_of_buildRenderPlan hbuild
  have hpublished := validateRenderPlanPayload_ok.1 hvalid
  refine ⟨fun settled hsettled => ?_, fun hrate =>
    RenderPlanPayload.Frame.settlePlan_empty ⟨hpublished, hframe, hrate⟩⟩
  obtain ⟨hframe, frameDuration, _, _, output, hd, hvideo, hcaptions, hsome, houtput,
    rfl⟩ := settlePlan_ok hpublished hsettled
  have hrate : 0 < plan.output.frameRate.toRat := isPositive_iff.1 hframe.rate_pos
  have hpos : frameDuration.isPositive := by
    rw [isPositive_iff, hd]
    exact one_div_pos.2 hrate
  have hcounts := output_counts houtput
  have hrates : output.frameRate = plan.output.frameRate :=
    hcounts.frameRate.trans (output_counts hpublished.output).frameRate.symm
  refine ⟨fun hnext => ?_, ?_, (output_canvas houtput hpublished.output).1,
    (output_canvas houtput hpublished.output).2, ?_, hcaptions⟩
  · refine validateRenderPlanPayload_ok.2 (hframe.published_settledTo hcompiled hpos hvideo houtput
      (fun active hactive => ?_) hcaptions hsome)
    obtain ⟨instruction, hmem, sourceTime, hsource, rfl⟩ := mem_of_settledFrom hvideo active hactive
    rw [mem_filter, decide_eq_true_iff] at hmem
    obtain ⟨t, ht⟩ := hnext instruction hmem.1 hmem.2
    obtain ⟨-, hat⟩ := (hframe.source hmem.1).2.1 _ hsource
    refine add?_isSome.2 ⟨t, ?_⟩
    change t.toRat = sourceTime.toRat + frameDuration.toRat
    rw [ht, hat, hd, TimeRange.sourceTime, TimeRange.sourceTime, frameTime, frameTime]
    push_cast
    ring
  · change output.videoFrameCount = 1
    rw [hcounts.frames, hd, ← hcounts.frameRate, hrates, one_div_mul_cancel hrate.ne', Nat.ceil_one]
  · refine hvideo.imp fun instruction active hfrom => ?_
    obtain ⟨sourceTime, hsource, rfl⟩ := hfrom
    refine ⟨⟨sourceTime, rfl⟩, ?_⟩
    change videoInstructionSourceTime _ 0 output.frameRate = _
    rw [hrates, hsource]
    exact instruction.settled_sourceTime sourceTime hpos hframe.rate_pos hframe.rate_le

/-- The first frame of the sample is settled, and the clip goes on. -/
theorem settled_frame_sample : ∃ plan settled, samplePlan = .ok plan ∧
    settlePlan plan 0 = .ok settled ∧ validateRenderPlanPayload settled = .ok () ∧
    settled.output.videoFrameCount = 1 := by
  obtain ⟨plan, hplan, hcount, ⟨settled, hsettled⟩, hrate, hvideo⟩ : ∃ plan, samplePlan = .ok plan ∧
      plan.output.videoFrameCount = 30 ∧ (∃ settled, settlePlan plan 0 = .ok settled) ∧
      plan.output.frameRate = .ofNat 30 (by decide) ∧ ∀ instruction ∈ plan.video,
        instruction.sourceRange = firstSecond ∧ instruction.timelineRange = firstSecond := by
    decide +kernel
  have hnext : ∀ instruction ∈ plan.video,
      instruction.timelineRange.Covers (frameTime plan.output.frameRate 0) →
        instruction.NextFrame plan.output.frameRate 0 := by
    intro instruction hmem _
    obtain ⟨hsource, htimeline⟩ := hvideo instruction hmem
    refine ⟨⟨1, 30, by decide⟩, ?_⟩
    rw [hsource, htimeline, hrate, TimeRange.sourceTime, frameTime, toRat_ofNat]
    norm_num [toRat]
  obtain ⟨hvalid, hone, -⟩ := (settled_frame hplan (hcount ▸ by decide)).1 settled hsettled
  exact ⟨plan, settled, hplan, hsettled, hvalid hnext, hone⟩

/-- The sample without its caption, at the frame rate and with the ranges of its clip. -/
def rangedInput (frameRate : RationalTime) (sourceRange timelineRange : TimeRange) :
    CompileRenderPlanInput :=
  { sampleInput identityClipPlacement ['x'] with
    sequence := ⟨3, 1, ⟨1920, 1080, 1, frameRate, 48000⟩, [⟨4, 1, .video, ['a']⟩]⟩
    clips := [⟨20, 1, 4, 30, 31, sourceRange, timelineRange, true, none,
      some identityClipPlacement, false⟩]
    captions := []
    fontResource := none }

/-- At a rate of (2^31 + 1) / 2^24 frames the frame before the clip is refused for its rate and
    not for being empty. A clip that begins at 1 / (2^31 - 1) of its source is settled to a plan
    that is not valid. -/
theorem settled_frame_fails :
    (∃ plan, compileSequenceRenderPlan .sequencePreview
        (rangedInput ⟨2147483649, 16777216, by decide⟩ ⟨0, 1⟩ ⟨1, 1⟩) = .ok plan ∧
      0 < plan.output.videoFrameCount ∧ plan.captions = [] ∧
      (∀ instruction ∈ plan.video,
        ¬instruction.timelineRange.Covers (frameTime plan.output.frameRate 0)) ∧
      settlePlan plan 0 = .error .settleFrameRate) ∧
    ∃ plan settled, compileSequenceRenderPlan .sequencePreview
        (rangedInput (.ofNat 30 (by decide)) ⟨⟨1, 2147483647, by decide⟩,
          ⟨1, 2147483647, by decide⟩⟩ ⟨0, ⟨1, 2147483647, by decide⟩⟩) = .ok plan ∧
      0 < plan.output.videoFrameCount ∧ settlePlan plan 0 = .ok settled ∧
      validateRenderPlanPayload settled = .error .planInvalid := by
  refine ⟨?_, ?_⟩
  · obtain ⟨plan, hplan, hcount, hcaptions, hvideo, hsettled⟩ : ∃ plan,
        compileSequenceRenderPlan .sequencePreview
          (rangedInput ⟨2147483649, 16777216, by decide⟩ ⟨0, 1⟩ ⟨1, 1⟩) = .ok plan ∧
        0 < plan.output.videoFrameCount ∧ plan.captions = [] ∧
        (∀ instruction ∈ plan.video, instruction.timelineRange.start = 1) ∧
        settlePlan plan 0 = .error .settleFrameRate := by
      decide +kernel
    refine ⟨plan, hplan, hcount, hcaptions, fun instruction hmem hcovers => ?_, hsettled⟩
    have hstart := hcovers.1
    rw [hvideo instruction hmem, toRat_one, frameTime, Nat.cast_zero, zero_div] at hstart
    norm_num at hstart
  · simp only [exists_and_left]
    decide +kernel

end OpenCut
