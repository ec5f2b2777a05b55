import OpenCut.Render.Compiled
import OpenCut.Render.Overlay
import OpenCut.Render.Redraw

/-!
# Committed values and the render contract

A placement is checked twice: by `ClipPlacement.Validate` when it is committed, and by
`validateRenderPlacement` when the sequence is rendered. The two have different limits,
and so have the two checks of a caption's text. This module says exactly which committed
values are rendered (`renderPlacementForClip_valid_iff`, `validCaptionText_iff`), which
placements of a draft can be committed (`creative_valid_iff`), and what this means for
the compilation of a whole sequence (`compileSequenceRenderPlan_of_plain`): where the
sequence compiles without its placements and texts, the limits are the only reason for
which it does not compile with them.
-/

namespace OpenCut

open Outcome List EditOperationInput RenderPlanPayload Except Published
open EditOperationInput (setClipPlacement)

/-! ## Single values -/

namespace ExactRational

variable (r : ExactRational)

theorem scale_pos : (0 : ℚ) < r.scale := Nat.cast_pos.2 r.valid.scale_pos

variable (n : Nat)

theorem toRat_le_natCast : r.toRat ≤ n ↔ r.value ≤ n * r.scale := by
  rw [toRat, div_le_iff₀ r.scale_pos]
  exact_mod_cast Iff.rfl

theorem neg_natCast_le_toRat : -(n : ℚ) ≤ r.toRat ↔ -(n : Int) * r.scale ≤ r.value := by
  rw [toRat, le_div_iff₀ r.scale_pos]
  exact_mod_cast Iff.rfl

theorem abs_toRat_le_natCast : |r.toRat| ≤ n ↔ r.value.natAbs ≤ n * r.scale := by
  rw [abs_le, neg_natCast_le_toRat, toRat_le_natCast]
  have h : (-(n : Int)) * r.scale = -((n * r.scale : Nat) : Int) := by push_cast; ring
  omega

theorem compare_ofNat_ne_gt {n : Nat} (h : n ≤ maxInt64) :
    r.compare (ofNat n h) ≠ .gt ↔ r.toRat ≤ n := by
  rw [compare, Ne, Int.compare_eq_gt, toRat_le_natCast]
  simp [ofNat]

theorem compare_negOfNat_ne_lt {n : Nat} (h : n ≤ maxInt64) :
    r.compare (negOfNat n h) ≠ .lt ↔ -(n : ℚ) ≤ r.toRat := by
  rw [compare, Ne, Int.compare_eq_lt, neg_natCast_le_toRat]
  simp [negOfNat]

end ExactRational

/-- The crop and the opacity are in range, and scales and translations are within the bounds. -/
def ClipPlacement.Within (p : ClipPlacement) (scale translation : ℚ) : Prop :=
  (1 ≤ p.cropWidthBasisPoints ∧ 1 ≤ p.cropHeightBasisPoints ∧
    p.cropXBasisPoints + p.cropWidthBasisPoints ≤ 10000 ∧
    p.cropYBasisPoints + p.cropHeightBasisPoints ≤ 10000 ∧ p.opacityBasisPoints ≤ 10000) ∧
  (0 < p.scaleX.value ∧ p.scaleX.toRat ≤ scale) ∧ (0 < p.scaleY.value ∧ p.scaleY.toRat ≤ scale) ∧
  |p.translateX.toRat| ≤ translation ∧ |p.translateY.toRat| ≤ translation

/-- What `ClipPlacement.Validate` accepts, in terms of rational numbers. -/
theorem ClipPlacement.valid_iff (p : ClipPlacement) : p.Valid ↔ p.Within 100 10 := by
  have hs (r : ExactRational) : r.value ≤ r.scale * clipPlacementScaleLimit ↔ r.toRat ≤ 100 := by
    rw [show (100 : ℚ) = (100 : Nat) by norm_num, r.toRat_le_natCast, mul_comm]
    rfl
  have ht (r : ExactRational) :
      r.value.natAbs ≤ r.scale * clipPlacementTranslateLimit ↔ |r.toRat| ≤ 10 := by
    rw [show (10 : ℚ) = (10 : Nat) by norm_num, r.abs_toRat_le_natCast, mul_comm]
    rfl
  constructor
  · intro h
    exact ⟨⟨h.cropWidth, h.cropHeight, h.cropX, h.cropY, h.opacity⟩,
      (h.scale _ (by simp)).imp_right (hs _).1, (h.scale _ (by simp)).imp_right (hs _).1,
      (ht _).1 (h.translate _ (by simp)), (ht _).1 (h.translate _ (by simp))⟩
  · rintro ⟨⟨h₁, h₂, h₃, h₄, h₅⟩, hx, hy, htx, hty⟩
    refine ⟨h₁, h₂, h₃, h₄, h₅, ?_, ?_⟩
    · simpa using ⟨hx.imp_right (hs _).2, hy.imp_right (hs _).2⟩
    · simpa using ⟨(ht _).2 htx, (ht _).2 hty⟩

/-- What `validateRenderPlacement` accepts, in terms of rational numbers. -/
theorem RenderPlacement.valid_iff (p : RenderPlacement) : p.Valid ↔
    (p.anchorXBasisPoints ≤ 10000 ∧ p.anchorYBasisPoints ≤ 10000) ∧ p.creative.Within 64 16 := by
  have hs (r : ExactRational) : r.compare maximumScale ≠ .gt ↔ r.toRat ≤ 64 := by
    rw [maximumScale, r.compare_ofNat_ne_gt]
    norm_num
  have ht (r : ExactRational) : (r.compare minimumTranslation ≠ .lt ∧
      r.compare maximumTranslation ≠ .gt) ↔ |r.toRat| ≤ 16 := by
    rw [minimumTranslation, maximumTranslation, r.compare_negOfNat_ne_lt, r.compare_ofNat_ne_gt,
      abs_le]
    norm_num
  dsimp only [ClipPlacement.Within, RenderPlacement.creative]
  constructor
  · intro h
    have h₁ := h.cropWidth
    have h₂ := h.cropHeight
    exact ⟨⟨h.anchorX, h.anchorY⟩, ⟨by omega, by omega, h.cropX, h.cropY, h.opacity⟩,
      (h.scale _ (by simp)).symm.imp_right (hs _).1, (h.scale _ (by simp)).symm.imp_right (hs _).1,
      (ht _).1 (h.translate _ (by simp)), (ht _).1 (h.translate _ (by simp))⟩
  · rintro ⟨⟨h₆, h₇⟩, ⟨_, _, h₃, h₄, h₅⟩, hx, hy, htx, hty⟩
    refine ⟨by omega, by omega, h₃, h₄, h₆, h₇, h₅, ?_, ?_⟩
    · simpa using ⟨(hx.imp_right (hs _).2).symm, (hy.imp_right (hs _).2).symm⟩
    · simpa using ⟨(ht _).2 htx, (ht _).2 hty⟩

/-- A committed placement is rendered if and only if its scales are at most 64. -/
theorem renderPlacementForClip_valid_iff {p : ClipPlacement} (h : p.Valid) :
    (renderPlacementForClip (some p)).Valid ↔ p.scaleX.toRat ≤ 64 ∧ p.scaleY.toRat ≤ 64 := by
  obtain ⟨hc, ⟨hx, -⟩, ⟨hy, -⟩, htx, hty⟩ := p.valid_iff.1 h
  rw [RenderPlacement.valid_iff]
  constructor
  · rintro ⟨-, -, ⟨-, hsx⟩, ⟨-, hsy⟩, -⟩
    exact ⟨hsx, hsy⟩
  · rintro ⟨hsx, hsy⟩
    exact ⟨by simp [renderPlacementForClip, defaultRenderPlacement], hc, ⟨hx, hsx⟩, ⟨hy, hsy⟩,
      htx.trans (by norm_num), hty.trans (by norm_num)⟩

/-- Without a stored placement a clip is rendered. -/
theorem defaultRenderPlacement_valid : defaultRenderPlacement.Valid := by decide

/-- A placement that a draft shows can be committed if and only if its translations are
    within 10 canvas units. -/
theorem creative_valid_iff {p : RenderPlacement} (h : p.Valid) :
    p.creative.Valid ↔ |p.translateX.toRat| ≤ 10 ∧ |p.translateY.toRat| ≤ 10 := by
  obtain ⟨-, hc, ⟨hx, hsx⟩, ⟨hy, hsy⟩, -⟩ := p.valid_iff.1 h
  rw [ClipPlacement.valid_iff]
  constructor
  · rintro ⟨-, -, -, ht⟩
    exact ht
  · intro ht
    exact ⟨hc, ⟨hx, hsx.trans (by norm_num)⟩, ⟨hy, hsy.trans (by norm_num)⟩, ht⟩

/-- A text that a caption edit accepts is rendered if and only if the renderer knows all
    its characters. -/
theorem validCaptionText_iff {text : Text} (h : validText text) :
    validCaptionText text ↔ ∀ c ∈ text, isRenderCaptionRune c := by
  rw [validText, Bool.and_eq_true] at h
  simp [validCaptionText, h.1, h.2, all_eq_true]

/-! ## The plain sequence -/

variable {tracks : List RenderTrack} {input : CompileRenderPlanInput} {duration : RationalTime}

/-- The clip without its placement. -/
def ClipState.plain (clip : ClipState) : ClipState := { clip with placement := none }

/-- The caption with a text that every renderer can set. -/
def CaptionState.plain (caption : CaptionState) : CaptionState := { caption with text := ['x'] }

/-- The input without the placements and the texts. -/
def CompileRenderPlanInput.plain (input : CompileRenderPlanInput) : CompileRenderPlanInput :=
  { input with clips := input.clips.map ClipState.plain
               captions := input.captions.map CaptionState.plain }

/-- The instruction without its placement. -/
def RenderVideoInstruction.plain (instruction : RenderVideoInstruction) : RenderVideoInstruction :=
  { instruction with placement := defaultRenderPlacement }

/-- The instruction with a text that every renderer can set. -/
def RenderCaptionInstruction.plain (instruction : RenderCaptionInstruction) :
    RenderCaptionInstruction :=
  { instruction with text := ['x'] }

/-- The plan without the placements and the texts. -/
def RenderPlanPayload.plain (plan : RenderPlanPayload) : RenderPlanPayload :=
  { plan with video := plan.video.map RenderVideoInstruction.plain
              captions := plan.captions.map RenderCaptionInstruction.plain }

theorem validateRenderPlanHead_plain (input : CompileRenderPlanInput) :
    validateRenderPlanHead input.plain = validateRenderPlanHead input := by
  simp [validateRenderPlanHead, CompileRenderPlanInput.plain]

/-- A sequence without its placements is a sequence with other placements. -/
theorem redraws_plain : Redraws ClipState.plain RenderVideoInstruction.plain where
  placement _ := ⟨none, rfl⟩
  instruction _ _ _ := rfl

theorem normalizeRenderBindings_plain (input : CompileRenderPlanInput) (tracks : List RenderTrack)
    (profile : MaterialProfile) :
    normalizeRenderBindings input.plain tracks profile =
      normalizeRenderBindings input tracks profile :=
  redraws_plain.normalizeRenderBindings_redraw input tracks profile

theorem liveCaptions_plain (tracks : List RenderTrack) (captions : List CaptionState) :
    liveCaptions tracks (captions.map CaptionState.plain) =
      (liveCaptions tracks captions).map CaptionState.plain := by
  rw [liveCaptions, renderCaptions, ← map_insertionSort _ _ CaptionState.plain captions
    fun _ _ _ _ => Iff.rfl, filter_map]
  rfl

/-- One turn of the loop over the captions, without the check of the text. -/
def checkRenderCaptionHead (tracks : List RenderTrack) (occupied : Occupied)
    (caption : CaptionState) : Except RenderError Occupied := do
  ensure (validateRenderCaptionHead tracks caption) .planInvalid
  occupied.place caption.trackID caption.range

theorem checkRenderCaption_plain (tracks : List RenderTrack) (occupied : Occupied)
    (caption : CaptionState) :
    checkRenderCaption tracks occupied caption.plain =
      (checkRenderCaptionHead tracks occupied caption).map id := by
  have h : validCaptionText caption.plain.text := by
    change validCaptionText ['x'] = true
    decide
  simp only [checkRenderCaption, checkRenderCaptionHead, h, and_true, Except.map_id]
  rfl

theorem checkRenderCaption_eq (tracks : List RenderTrack) (occupied : Occupied)
    (caption : CaptionState) :
    checkRenderCaption tracks occupied caption =
      if validCaptionText caption.text then checkRenderCaptionHead tracks occupied caption
      else .error .planInvalid := by
  simp only [checkRenderCaption, checkRenderCaptionHead]
  split
  · next h => simp only [h, and_true]
  · next h =>
    rw [ensure, if_neg fun hc => h hc.2]
    rfl

/-- Every live caption has a text that is rendered. -/
def CompileRenderPlanInput.TextsRender (input : CompileRenderPlanInput) : Prop :=
  ∀ caption ∈ input.captions, caption.tombstoned = false → validCaptionText caption.text

instance (input : CompileRenderPlanInput) : Decidable input.TextsRender :=
  inferInstanceAs (Decidable (∀ caption ∈ input.captions, _ → _))

theorem setRenderCaptions_plain (font : Option RenderFontResource) (tracks : List RenderTrack)
    (captions : List CaptionState) :
    setRenderCaptions font tracks (captions.map CaptionState.plain) =
      (setRenderCaptions font tracks captions).map
        (Prod.map id (List.map RenderCaptionInstruction.plain)) := by
  cases captions with
  | nil => rfl
  | cons =>
    cases font with
    | none => rfl
    | some font =>
      by_cases hv : font.valid
      · simp [setRenderCaptions, need, ensure, hv, ok_bind, Except.map, pure, Except.pure,
          captionInstruction, CaptionState.plain, RenderCaptionInstruction.plain]
      · simp [setRenderCaptions, need, ensure, hv, Except.map, bind, Except.bind]

variable {fonts : List RenderFontResource}

/-- The instructions carry the texts of the captions. -/
theorem text_of_setRenderCaptions {font : Option RenderFontResource} {captions : List CaptionState}
    {instructions : List RenderCaptionInstruction}
    (h : setRenderCaptions font tracks captions = .ok (fonts, instructions)) :
    ∀ instruction ∈ instructions, ∃ caption ∈ captions, instruction.text = caption.text := by
  unfold setRenderCaptions at h
  split at h
  · obtain ⟨-, rfl⟩ := Prod.mk.inj (ok.inj h)
    simp
  · simp only [steps_ok] at h
    obtain ⟨_, -, -, h⟩ := h
    obtain ⟨-, rfl⟩ := Prod.mk.inj h
    simp only [mem_map, forall_exists_index, and_imp]
    rintro _ caption hc rfl
    exact ⟨caption, hc, rfl⟩

/-- Where the captions compile without their texts, they compile with them if and only if
    the texts are rendered. -/
theorem compileRenderCaptions_of_plain {captions : List RenderCaptionInstruction}
    (h : compileRenderCaptions input.plain tracks = .ok (fonts, captions, duration)) :
    ∃ captions', captions'.map RenderCaptionInstruction.plain = captions ∧
      (input.TextsRender → ∀ caption ∈ captions', validCaptionText caption.text) ∧
      compileRenderCaptions input tracks =
        if input.TextsRender then .ok (fonts, captions', duration) else .error .planInvalid := by
  have htexts : (∀ caption ∈ liveCaptions tracks input.captions, validCaptionText caption.text) ↔
      input.TextsRender := by
    simp [liveCaptions, renderCaptions, CompileRenderPlanInput.TextsRender]
  obtain ⟨occupied, hloop, h⟩ := bind_ok.1 h
  simp only [CompileRenderPlanInput.plain, liveCaptions_plain, steps_ok, setRenderCaptions_plain]
    at hloop h
  obtain ⟨⟨_, _⟩, hset, h⟩ := h
  -- The loop without the checks of the texts is the one over the plain captions.
  have hhead : (liveCaptions tracks input.captions).foldlM (checkRenderCaptionHead tracks) .none =
      .ok occupied := by
    have hmap := foldlM_map_hom CaptionState.plain id (checkRenderCaption_plain tracks)
      (liveCaptions tracks input.captions) .none
    rw [Except.map_id] at hmap
    exact hmap.symm.trans hloop
  have hfull := foldlM_checked (checkRenderCaption_eq tracks) hhead
  simp only [htexts] at hfull
  cases hs : setRenderCaptions input.fontResource tracks (liveCaptions tracks input.captions) with
  | error e => simp [hs, Except.map] at hset
  | ok result =>
    obtain ⟨_, captions'⟩ := result
    rw [hs] at hset
    obtain ⟨rfl, rfl⟩ := Prod.mk.inj (ok.inj hset)
    obtain ⟨rfl, rfl, rfl⟩ := by simpa using h
    refine ⟨captions', rfl, fun ht caption hc => ?_, ?_⟩
    · obtain ⟨source, hsource, htext⟩ := text_of_setRenderCaptions hs caption hc
      rw [htext]
      exact htexts.2 ht source hsource
    · rw [compileRenderCaptions, hfull]
      by_cases ht : input.TextsRender
      · rw [if_pos ht, if_pos ht, ok_bind, hs]
        rfl
      · rw [if_neg ht, if_neg ht]
        rfl

/-! ## The clips that are drawn -/

/-- The tracks keep the states of the sequence, each under its own identity. -/
theorem states_of_normalizeRenderTracks {source : List Track}
    (h : normalizeRenderTracks source = .ok tracks) :
    (tracks.map (·.state)).Perm source ∧ (tracks.map (·.state.id)).Nodup := by
  have hloop := foldlM_progress (fun done tracks => tracks.map RenderTrack.state = done ∧
      (tracks.map (·.state.id)).Nodup) ?_ ⟨rfl, nodup_nil⟩ h
  · exact ⟨hloop.1 ▸ perm_insertionSort _ _, hloop.2⟩
  · rintro _ _ _ _ ⟨rfl, hnodup⟩ hstep
    obtain ⟨_, hchecks, hstep⟩ := bind_ok.1 hstep
    obtain ⟨-, -, -, hnew, -⟩ := ensure_ok.1 hchecks
    obtain rfl := pure_ok.1 hstep
    refine ⟨by simp, ?_⟩
    rw [map_append, nodup_append]
    refine ⟨hnodup, by simp, ?_⟩
    intro id hid id' hid' heq
    obtain ⟨other, hother, rfl⟩ := mem_map.1 hid
    obtain rfl := mem_singleton.1 hid'
    exact find?_eq_none.1 hnew other hother (by simpa using heq)

/-- Each track is found under its identity. -/
theorem renderTrack?_of_mem (hnodup : (tracks.map (·.state.id)).Nodup) {track : RenderTrack}
    (h : track ∈ tracks) : renderTrack? tracks track.state.id = some track := by
  rw [renderTrack?, find?_eq_some_iff_append]
  obtain ⟨before, after, rfl⟩ := append_of_mem h
  refine ⟨by simp, before, after, rfl, ?_⟩
  intro other hother
  rw [map_append, nodup_append] at hnodup
  have hne := hnodup.2.2 other.state.id (mem_map_of_mem hother) track.state.id (by simp)
  simpa using hne

/-- The clip is drawn: it is rendered, and on a video track. -/
def drawn (tracks : List RenderTrack) (clip : ClipState) : Bool :=
  rendered clip && (renderTrack? tracks clip.trackID).any fun track => track.state.type == .video

/-- The clip is on a video track of the sequence. -/
def Sequence.HasVideoTrack (sequence : Sequence) (trackID : ID) : Prop :=
  ∃ track ∈ sequence.tracks, track.id = trackID ∧ track.type = .video

theorem drawn_iff {sequence : Sequence} (h : normalizeRenderTracks sequence.tracks = .ok tracks)
    (clip : ClipState) :
    drawn tracks clip ↔ rendered clip ∧ sequence.HasVideoTrack clip.trackID := by
  obtain ⟨hperm, hnodup⟩ := states_of_normalizeRenderTracks h
  rw [drawn, Bool.and_eq_true, Option.any_eq_true]
  refine and_congr_right fun _ => ⟨?_, ?_⟩
  · rintro ⟨track, hfind, htype⟩
    have hmem := hperm.subset (mem_map_of_mem (mem_of_find?_eq_some hfind))
    exact ⟨track.state, hmem, by simpa using find?_some hfind, by simpa using htype⟩
  · rintro ⟨_, hmem, hid, htype⟩
    obtain ⟨track, htrack, rfl⟩ := mem_map.1 (hperm.symm.subset hmem)
    exact ⟨track, hid ▸ renderTrack?_of_mem hnodup htrack, by simpa using htype⟩

variable {compiled : CompiledClips} {bindings : RenderInputs}

/-- The placements in the plan are those of the clips that are drawn. -/
theorem placements_of_compileRenderClips {clips : List ClipState}
    (h : clips.foldlM (compileRenderClip tracks bindings) ⟨.none, [], []⟩ = .ok compiled) :
    compiled.video.map (·.placement) =
      (clips.filter (drawn tracks)).map fun clip => renderPlacementForClip clip.placement := by
  have hclip : ∀ clip, (videoInstruction? tracks bindings clip).map (·.placement) =
      if drawn tracks clip then some (renderPlacementForClip clip.placement) else none := by
    intro clip
    rw [videoInstruction?, drawn]
    cases renderTrack? tracks clip.trackID with
    | none => simp
    | some track =>
      by_cases htype : track.state.type = .video <;> simp [htype, apply_ite, videoInstruction]
  rw [compileRenderClips_video h, map_filterMap, ← filterMap_eq_map, filterMap_filter]
  exact filterMap_congr fun clip _ => hclip clip

/-! ## The validation of the plan -/

variable {plan : RenderPlanPayload}

/-- Where the instructions pass without what an additional check looks at, they pass with
    it if and only if they all pass the additional check. -/
theorem validatePublished_of_plain {α : Type} {place : α → InstructionPlace} (plain : α → α)
    (check wellFormed extra : α → Bool) (hcheck : ∀ a, check a = (wellFormed a && extra a))
    (hplain : ∀ a, check (plain a) = wellFormed a) (hplace : ∀ a, place (plain a) = place a)
    {source : List α} (h : validatePublished place check (source.map plain) = .ok duration) :
    validatePublished place check source =
      if ∀ a ∈ source, extra a then .ok duration else .error .planInvalid := by
  obtain ⟨published, hloop, h⟩ := bind_ok.1 h
  obtain rfl := pure_ok.1 h
  have hstep : ∀ published a, step place check (id published) (plain a) =
      (step place wellFormed published a).map id := by
    intro published a
    rw [Except.map_id, step, step, hplain, hplace]
    rfl
  have hhead : source.foldlM (step place wellFormed) ⟨.none, none⟩ = .ok published := by
    have hmap := foldlM_map_hom plain id hstep source ⟨.none, none⟩
    rw [Except.map_id] at hmap
    exact hmap.symm.trans hloop
  rw [validatePublished, foldlM_checked (p := fun a => extra a = true) (e := .planInvalid) ?_ hhead]
  · split <;> rfl
  · intro published a
    rw [step, step]
    by_cases ha : extra a = true
    · simp only [hcheck, ha, Bool.and_true, if_true]
    · rw [if_neg ha, ensure, if_neg (by simp [hcheck, ha])]
      rfl

/-- The placements and texts of the plan are within the contract. -/
structure RenderPlanPayload.Renders (plan : RenderPlanPayload) : Prop where
  placements : ∀ instruction ∈ plan.video, instruction.placement.Valid
  texts : ∀ instruction ∈ plan.captions, validCaptionText instruction.text

theorem RenderVideoInstruction.valid_plain (inputs : List RenderPlanInput)
    (instruction : RenderVideoInstruction) :
    instruction.plain.valid inputs = instruction.wellFormed inputs := by
  change (_ && decide defaultRenderPlacement.Valid) = _
  rw [decide_eq_true defaultRenderPlacement_valid, Bool.and_true]
  rfl

theorem RenderCaptionInstruction.valid_plain (fonts : List RenderFontResource)
    (instruction : RenderCaptionInstruction) :
    instruction.plain.valid fonts = instruction.wellFormed fonts := by
  change (_ && validCaptionText ['x']) = _
  rw [show validCaptionText ['x'] = true by decide, Bool.and_true]
  rfl

/-- Where the instructions are valid without the placements and the texts, they are valid
    with them if and only if these are within the contract. -/
theorem instructionDuration_of_plain (h : plan.plain.instructionDuration = .ok duration) :
    (plan.Renders → plan.instructionDuration = .ok duration) ∧
      (¬plan.Renders → plan.instructionDuration = .error .planInvalid) := by
  simp only [instructionDuration, steps_ok] at h
  obtain ⟨_, hvideo, _, haudio, _, hcaptions, rfl⟩ := h
  have hvideo' := validatePublished_of_plain RenderVideoInstruction.plain
    (RenderVideoInstruction.valid plan.inputs) (fun instruction =>
      instruction.wellFormed plan.inputs)
    (fun instruction => decide instruction.placement.Valid) (fun _ => rfl)
    (RenderVideoInstruction.valid_plain _) (fun _ => rfl) hvideo
  have hcaptions' := validatePublished_of_plain RenderCaptionInstruction.plain
    (RenderCaptionInstruction.valid plan.fontResources)
    (fun instruction => instruction.wellFormed plan.fontResources)
    (fun instruction => validCaptionText instruction.text) (fun _ => rfl)
    (RenderCaptionInstruction.valid_plain _) (fun _ => rfl) hcaptions
  simp only [decide_eq_true_iff] at hvideo'
  rw [instructionDuration]
  constructor
  · intro hr
    rw [if_pos hr.placements] at hvideo'
    rw [if_pos hr.texts] at hcaptions'
    exact bind_ok.2 ⟨_, hvideo', bind_ok.2 ⟨_, haudio, bind_ok.2 ⟨_, hcaptions', rfl⟩⟩⟩
  · intro hr
    by_cases hp : ∀ instruction ∈ plan.video, instruction.placement.Valid
    · rw [if_pos hp] at hvideo'
      rw [if_neg fun ht => hr ⟨hp, ht⟩] at hcaptions'
      simp only [plain] at haudio
      rw [hvideo', ok_bind, haudio, ok_bind, hcaptions']
      rfl
    · rw [if_neg hp] at hvideo'
      rw [hvideo']
      rfl

@[simp]
theorem RenderPlanPayload.usedInputs_plain (plan : RenderPlanPayload) :
    plan.plain.usedInputs = plan.usedInputs := by
  simp [usedInputs, plain, RenderVideoInstruction.plain, Function.comp_def]

@[simp]
theorem RenderPlanPayload.usedFonts_plain (plan : RenderPlanPayload) :
    plan.plain.usedFonts = plan.usedFonts := by
  simp [usedFonts, plain, RenderCaptionInstruction.plain, Function.comp_def]

/-- Where a plan is valid without its placements and texts, it is valid with them if and
    only if these are within the contract. -/
theorem validateRenderPlanPayload_of_plain (h : validateRenderPlanPayload plan.plain = .ok ()) :
    (plan.Renders → validateRenderPlanPayload plan = .ok ()) ∧
      (¬plan.Renders → validateRenderPlanPayload plan = .error .planInvalid) := by
  simp only [validateRenderPlanPayload, steps_ok, usedInputs_plain, usedFonts_plain] at h
  obtain ⟨hhead, _, houtput, heq, hinputs, hfonts, _, hduration, hend⟩ := h
  obtain ⟨hpos, hneg⟩ := instructionDuration_of_plain hduration
  simp only [plain, length_map] at hhead houtput heq hinputs hfonts hend
  rw [validateRenderPlanPayload, ensure_of _ hhead, ok_bind, houtput, ok_bind, ensure_of _ heq,
    ok_bind, hinputs, ok_bind, hfonts, ok_bind]
  constructor
  · intro hr
    rw [hpos hr, ok_bind, ensure_of _ hend]
  · intro hr
    rw [hneg hr]
    rfl

/-! ## The compilation -/

variable {purpose : RenderPlanPurpose} {plain : RenderPlanPayload}

/-- Every clip that is drawn has a placement that is rendered. -/
def CompileRenderPlanInput.PlacementsRender (input : CompileRenderPlanInput) : Prop :=
  ∀ clip ∈ input.clips, rendered clip → input.sequence.HasVideoTrack clip.trackID →
    (renderPlacementForClip clip.placement).Valid

/-- The placements of the plan are rendered if and only if those of the clips are. -/
theorem placementsRender_iff (htracks : normalizeRenderTracks input.sequence.tracks = .ok tracks)
    (h : (renderClips tracks input.clips).foldlM (compileRenderClip tracks bindings)
      ⟨.none, [], []⟩ = .ok compiled) :
    (∀ instruction ∈ compiled.video, instruction.placement.Valid) ↔ input.PlacementsRender := by
  have hvideo : (∀ instruction ∈ compiled.video, instruction.placement.Valid) ↔
      ∀ placement ∈ compiled.video.map (·.placement), RenderPlacement.Valid placement :=
    forall_mem_map.symm
  rw [hvideo, placements_of_compileRenderClips h, forall_mem_map]
  simp only [mem_filter, drawn_iff htracks, renderClips, mem_insertionSort, and_imp,
    CompileRenderPlanInput.PlacementsRender]

/-- Where a plan is built without the placements and the texts, one is built with them if
    the texts are rendered. Its placements and texts are those of the input. -/
theorem buildRenderPlan_of_plain (h : buildRenderPlan purpose input.plain = .ok plain) :
    (input.TextsRender → ∃ plan, buildRenderPlan purpose input = .ok plan ∧ plan.plain = plain ∧
      (plan.Renders ↔ input.PlacementsRender)) ∧
    (¬input.TextsRender → buildRenderPlan purpose input = .error .planInvalid) := by
  simp only [buildRenderPlan, steps_ok, validateRenderPlanHead_plain,
    normalizeRenderBindings_plain] at h
  obtain ⟨hhead, tracks, htracks, bindings, hbindings, _, hcompiled, ⟨_, _,
      _⟩, hcaptions, hduration, _, hinputs, _, houtput, rfl⟩ := h
  obtain ⟨_, rfl, htexts, hcaptions'⟩ := compileRenderCaptions_of_plain hcaptions
  have hclips := redraws_plain.compileRenderClips_redraw tracks bindings input.clips
  -- The clips compile alike; a turn of the loop does not look at the placement.
  cases hloop : (renderClips tracks input.clips).foldlM (compileRenderClip tracks bindings)
      ⟨.none, [], []⟩ with
  | error e =>
    rw [hloop] at hclips
    exact absurd (hcompiled.symm.trans hclips) (by simp [Except.map])
  | ok =>
    rw [hloop] at hclips
    obtain rfl := ok.inj (hcompiled.symm.trans hclips)
    simp only [CompileRenderPlanInput.plain] at htracks
    rw [buildRenderPlan, hhead, ok_bind, htracks, ok_bind, hbindings, ok_bind, hloop, ok_bind,
      hcaptions']
    constructor
    · intro ht
      rw [if_pos ht]
      refine ⟨_, bind_ok.2 ⟨_, rfl, bind_ok.2 ⟨_, ensure_of _ hduration, bind_ok.2 ⟨_, hinputs,
        bind_ok.2 ⟨_, houtput, rfl⟩⟩⟩⟩, rfl, ?_⟩
      have hplacements := placementsRender_iff htracks hloop
      exact ⟨fun hr => hplacements.1 hr.placements, fun hp => ⟨hplacements.2 hp, htexts ht⟩⟩
    · intro ht
      rw [if_neg ht]
      rfl

/-- Where a sequence compiles without its placements and texts, these decide whether it
    compiles with them: it does if all of them are rendered, and else the plan is refused
    as invalid. -/
theorem compileSequenceRenderPlan_of_plain
    (h : compileSequenceRenderPlan purpose input.plain = .ok plain) :
    (input.PlacementsRender ∧ input.TextsRender →
      ∃ plan, compileSequenceRenderPlan purpose input = .ok plan ∧ plan.plain = plain) ∧
    (¬(input.PlacementsRender ∧ input.TextsRender) →
      compileSequenceRenderPlan purpose input = .error .planInvalid) := by
  simp only [compileSequenceRenderPlan, steps_ok] at h
  obtain ⟨_, hbuild, hvalid, rfl⟩ := h
  obtain ⟨htexts, hnone⟩ := buildRenderPlan_of_plain hbuild
  by_cases ht : input.TextsRender
  · obtain ⟨plan, hplan, rfl, hrenders⟩ := htexts ht
    obtain ⟨hpos, hneg⟩ := validateRenderPlanPayload_of_plain hvalid
    rw [compileSequenceRenderPlan, hplan, ok_bind]
    constructor
    · rintro ⟨hp, -⟩
      exact ⟨plan, bind_ok.2 ⟨_, hpos (hrenders.2 hp), rfl⟩, rfl⟩
    · intro hn
      rw [hneg fun hr => hn ⟨hrenders.1 hr, ht⟩]
      rfl
  · refine ⟨fun hr => absurd hr.2 ht, fun _ => ?_⟩
    rw [compileSequenceRenderPlan, hnone ht]
    rfl

/-! ## Which committed values are rendered -/

variable {clipID : ID} {placement : Option ClipPlacement}

/-- Edits accepted the placements and the texts of the input. -/
structure CompileRenderPlanInput.Committed (input : CompileRenderPlanInput) : Prop where
  placements : ∀ clip ∈ input.clips, ∀ p ∈ clip.placement, (setClipPlacement clip.id (some p)).valid
  texts : ∀ caption ∈ input.captions, validText caption.text

/-- The clips that are drawn are scaled by at most 64, and the renderer knows all
    characters of the live captions. -/
structure CompileRenderPlanInput.WithinLimits (input : CompileRenderPlanInput) : Prop where
  scales : ∀ clip ∈ input.clips, rendered clip → input.sequence.HasVideoTrack clip.trackID →
    ∀ p ∈ clip.placement, p.scaleX.toRat ≤ 64 ∧ p.scaleY.toRat ≤ 64
  runes : ∀ caption ∈ input.captions, caption.tombstoned = false →
    ∀ c ∈ caption.text, isRenderCaptionRune c

/-- An edit sets valid placements. -/
theorem setClipPlacement_valid :
    (setClipPlacement clipID placement).valid ↔ ∀ p ∈ placement, p.Valid := by
  cases placement <;> simp [valid]

/-- A placement that an edit set, or none, is rendered if and only if its scales are at
    most 64. -/
theorem renderPlacementForClip_valid_iff_of_edit (h : (setClipPlacement clipID placement).valid) :
    (renderPlacementForClip placement).Valid ↔
      ∀ p ∈ placement, p.scaleX.toRat ≤ 64 ∧ p.scaleY.toRat ≤ 64 := by
  cases placement with
  | none => simpa [renderPlacementForClip] using defaultRenderPlacement_valid
  | some p => simpa using renderPlacementForClip_valid_iff (setClipPlacement_valid.1 h p rfl)

theorem CompileRenderPlanInput.Committed.withinLimits_iff (h : input.Committed) :
    input.WithinLimits ↔ input.PlacementsRender ∧ input.TextsRender := by
  have hp (clip : ClipState) (hclip : clip ∈ input.clips) :
      (renderPlacementForClip clip.placement).Valid ↔
        ∀ p ∈ clip.placement, p.scaleX.toRat ≤ 64 ∧ p.scaleY.toRat ≤ 64 := by
    have hset : (setClipPlacement clip.id clip.placement).valid :=
      setClipPlacement_valid.2 fun p hmem =>
        setClipPlacement_valid.1 (h.placements clip hclip p hmem) p rfl
    exact renderPlacementForClip_valid_iff_of_edit hset
  have ht (caption : CaptionState) (hcaption : caption ∈ input.captions) :=
    validCaptionText_iff (h.texts caption hcaption)
  constructor
  · rintro ⟨hscales, hrunes⟩
    exact ⟨fun clip hc hr hv => (hp clip hc).2 (hscales clip hc hr hv),
      fun caption hc hl => (ht caption hc).2 (hrunes caption hc hl)⟩
  · rintro ⟨hplacements, htexts⟩
    exact ⟨fun clip hc hr hv => (hp clip hc).1 (hplacements clip hc hr hv),
      fun caption hc hl => (ht caption hc).1 (htexts caption hc hl)⟩

/-- Which committed values are rendered, and which drafts can be committed: a placement
    that an edit accepts is rendered if and only if its scales are at most 64, a text if
    and only if the renderer knows its characters, and a sequence that compiles without
    them compiles with them if and only if all are such. A placement of a draft can be
    committed if and only if its translations are at most 10 canvas units. -/
theorem committed_values_render_iff {captionID trackID : ID} {createAs : LocalID}
    {range : TimeRange} {language : CaptionLanguage} {text : Text} {plan' : RenderPlanPayload}
    {overlay : Overlay} :
    ((setClipPlacement clipID placement).valid →
      ((renderPlacementForClip placement).Valid ↔
        ∀ p ∈ placement, p.scaleX.toRat ≤ 64 ∧ p.scaleY.toRat ≤ 64)) ∧
    ((EditOperationInput.addCaption createAs trackID range language text).valid ∨
      (EditOperationInput.updateCaption captionID range language text).valid →
      (validCaptionText text ↔ ∀ c ∈ text, isRenderCaptionRune c)) ∧
    (input.Committed → compileSequenceRenderPlan purpose input.plain = .ok plain →
      (compileSequenceRenderPlan purpose input ≠ .error .planInvalid ↔ input.WithinLimits)) ∧
    (overlay.apply plan = .ok plan' → ∀ operation ∈ overlay.placements,
      ((setClipPlacement operation.clipID
          (some operation.placement.creative)).valid ↔
        |operation.placement.translateX.toRat| ≤ 10 ∧
          |operation.placement.translateY.toRat| ≤ 10)) := by
  refine ⟨renderPlacementForClip_valid_iff_of_edit, fun htext => ?_, fun hinput hplain => ?_,
    fun hdraft operation hmem => ?_⟩
  · simp only [valid, or_self, Bool.and_eq_true] at htext
    exact validCaptionText_iff htext.2
  · obtain ⟨hpos, hneg⟩ := compileSequenceRenderPlan_of_plain hplain
    rw [hinput.withinLimits_iff]
    constructor
    · intro hne
      by_contra hn
      exact hne (hneg hn)
    · intro hr
      obtain ⟨_, hplan, -⟩ := hpos hr
      rw [hplan]
      exact nofun
  · rw [setClipPlacement_valid]
    simpa using creative_valid_iff (overlay.valid_of_apply hdraft operation hmem)

/-! ### A sequence of one clip and one caption -/

/-- The placement with the given scale and translation. -/
def samplePlacement (scale translate : ExactRational) : ClipPlacement :=
  { identityClipPlacement with scaleX := scale, translateX := translate }

/-- The range of the first second. -/
def firstSecond : TimeRange := ⟨0, 1⟩

/-- A video clip with the placement and a caption with the text, in the first second. -/
def sampleInput (placement : ClipPlacement) (text : Text) : CompileRenderPlanInput where
  observedProjectRevision := 1
  sequence := ⟨3, 1, ⟨1920, 1080, 1, .ofNat 30 (by decide), 48000⟩,
    [⟨4, 1, .video, ['a']⟩, ⟨6, 1, .caption, ['b']⟩]⟩
  clips := [⟨20, 1, 4, 30, 31, firstSecond, firstSecond, true, none, some placement, false⟩]
  captions := [⟨21, 1, 6, firstSecond, ['e', 'n'], text, .manual, false⟩]
  assets := [⟨30, 1, 99⟩]
  bindings := [⟨20, ⟨40, .proxy, ['p'], 99, true, 7, 8⟩,
    ⟨.proxy, 30, 99, ['p'], .sourceProxy, 0, 9, 8, 7, some ⟨31, 0, 0, 1, 1, 10, 640, 360⟩, none⟩⟩]
  fontResource := some ⟨['f'], ['1'], 11⟩

/-- The plan of the sample without its placement and text. -/
def samplePlan : Except RenderError RenderPlanPayload :=
  compileSequenceRenderPlan .sequencePreview (sampleInput identityClipPlacement ['x']).plain

/-- A draft that moves the clip of the sample. -/
def sampleOverlay (scale translate : ExactRational) : Overlay :=
  ⟨1, [⟨20, 1, renderPlacementForClip (some (samplePlacement scale translate))⟩]⟩

theorem committed_sampleInput : (sampleInput identityClipPlacement ['h', 'i']).Committed where
  placements := by
    intro clip hclip p hp
    obtain rfl := mem_singleton.1 hclip
    obtain ⟨⟩ := hp
    decide
  texts := by
    intro caption hcaption
    obtain rfl := mem_singleton.1 hcaption
    decide

theorem samplePlan_eq_ok : ∃ plan, samplePlan = .ok plan := by
  decide +kernel

/-- A draft that moves the clip of the sample by 12 canvas units is shown. -/
theorem sampleOverlay_applied (h : samplePlan = .ok plan) :
    ∃ plan', (sampleOverlay 1 (.ofNat 12 (by decide))).apply plan = .ok plan' := by
  obtain ⟨_, hplan, happlied⟩ : ∃ plan, samplePlan = .ok plan ∧
      ∃ plan', (sampleOverlay 1 (.ofNat 12 (by decide))).apply plan = .ok plan' := by
    decide +kernel
  cases h.symm.trans hplan
  exact happlied

theorem committed_values_render_iff_sample :
    ((renderPlacementForClip (some identityClipPlacement)).Valid ↔
      ∀ p ∈ some identityClipPlacement, p.scaleX.toRat ≤ 64 ∧ p.scaleY.toRat ≤ 64) ∧
    (validCaptionText ['h', 'i'] ↔ ∀ c ∈ ['h', 'i'], isRenderCaptionRune c) ∧
    (compileSequenceRenderPlan .sequencePreview (sampleInput identityClipPlacement ['h', 'i']) ≠
      .error .planInvalid ↔ (sampleInput identityClipPlacement ['h', 'i']).WithinLimits) ∧
    ∀ operation ∈ (sampleOverlay 1 (.ofNat 12 (by decide))).placements,
      ((setClipPlacement operation.clipID
          (some operation.placement.creative)).valid ↔
        |operation.placement.translateX.toRat| ≤ 10 ∧
          |operation.placement.translateY.toRat| ≤ 10) := by
  obtain ⟨_, hplan⟩ := samplePlan_eq_ok
  obtain ⟨_, hdraft⟩ := sampleOverlay_applied hplan
  have hplacement : (setClipPlacement 20 (some identityClipPlacement)).valid := by
    decide
  have htext : (addCaption ['c'] 6 firstSecond ['e', 'n'] ['h', 'i']).valid ∨
      (updateCaption 21 firstSecond ['e', 'n'] ['h', 'i']).valid :=
    .inl (by decide)
  obtain ⟨hscales, hrunes, hcompiles, hcommits⟩ := committed_values_render_iff
  exact ⟨hscales hplacement, hrunes htext, hcompiles committed_sampleInput hplan, hcommits hdraft⟩

/-- A scale of 80 is accepted when it is set, but no plan is compiled of the sequence any
    more; nor is one of a caption with a left-to-right mark. A draft may move a clip by 12
    canvas units, but this is not accepted when it is committed. -/
theorem committed_values_not_rendered :
    ((setClipPlacement 20
      (some (samplePlacement (.ofNat 80 (by decide)) 0))).valid ∧
      ¬(renderPlacementForClip (some (samplePlacement (.ofNat 80 (by decide)) 0))).Valid) ∧
    ((EditOperationInput.updateCaption 21 firstSecond ['e', 'n'] ['a', '\u200e']).valid ∧
      validCaptionText ['a', '\u200e'] = false) ∧
    (samplePlan.isOk ∧
      compileSequenceRenderPlan .sequencePreview
        (sampleInput (samplePlacement (.ofNat 80 (by decide)) 0) ['x']) = .error .planInvalid ∧
      compileSequenceRenderPlan .sequencePreview
        (sampleInput identityClipPlacement ['a', '\u200e']) = .error .planInvalid) ∧
    (samplePlan.map (fun plan => ((sampleOverlay 1 (.ofNat 12 (by decide))).apply plan).isOk) =
        .ok true ∧
      (setClipPlacement 20
        (some (samplePlacement 1 (.ofNat 12 (by decide))))).valid = false) := by
  decide +kernel

end OpenCut
