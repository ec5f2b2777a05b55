import OpenCut.Render.Plan

/-!
# Sequences with other placements

The compilation of a sequence copies the placement of a clip into its instruction and
reads it nowhere else. A change of placements can therefore be made before the compilation,
in the clips, or after it, in the instructions (`buildRenderPlan_redraw`).
-/

namespace OpenCut

open Outcome CompileRenderPlanInput

/-- `change` gives clips other placements, and `draw` gives their instructions the same. -/
structure Redraws (change : ClipState → ClipState)
    (draw : RenderVideoInstruction → RenderVideoInstruction) : Prop where
  placement : ∀ clip, ∃ placement, change clip = { clip with placement }
  instruction : ∀ track inputArtifactID clip, videoInstruction track inputArtifactID (change clip) =
    draw (videoInstruction track inputArtifactID clip)

variable (input : CompileRenderPlanInput)

/-- The input with the clips changed. -/
def CompileRenderPlanInput.redraw (change : ClipState → ClipState) : CompileRenderPlanInput :=
  { input with clips := input.clips.map change }

/-- What is compiled, with the video instructions changed. -/
def CompiledClips.redraw (compiled : CompiledClips)
    (draw : RenderVideoInstruction → RenderVideoInstruction) : CompiledClips :=
  { compiled with video := compiled.video.map draw }

/-- The plan with the video instructions changed. -/
def RenderPlanPayload.redraw (plan : RenderPlanPayload)
    (draw : RenderVideoInstruction → RenderVideoInstruction) : RenderPlanPayload :=
  { plan with video := plan.video.map draw }

theorem validateRenderPlanHead_redraw (change : ClipState → ClipState) :
    validateRenderPlanHead (input.redraw change) = validateRenderPlanHead input := by
  simp [validateRenderPlanHead, redraw]

namespace Redraws

variable {change : ClipState → ClipState} {draw : RenderVideoInstruction → RenderVideoInstruction}
  (h : Redraws change draw)

include h

theorem id_eq (clip : ClipState) : (change clip).id = clip.id := by
  obtain ⟨_, hp⟩ := h.placement clip
  rw [hp]

theorem rendered_eq (clip : ClipState) : rendered (change clip) = rendered clip := by
  obtain ⟨_, hp⟩ := h.placement clip
  rw [hp]
  rfl

variable (tracks : List RenderTrack)

theorem validateRenderClipHead_eq (clip : ClipState) :
    validateRenderClipHead tracks (change clip) = validateRenderClipHead tracks clip := by
  obtain ⟨_, hp⟩ := h.placement clip
  rw [hp]
  rfl

variable (input : CompileRenderPlanInput)

theorem addRenderBinding_redraw (tracks : List RenderTrack) (profile : MaterialProfile) :
    addRenderBinding (input.redraw change) tracks profile =
      addRenderBinding input tracks profile := by
  funext result binding
  have hfind : (input.redraw change).clips.find? (fun clip => clip.id == binding.clipID) =
      (input.clips.find? fun clip => clip.id == binding.clipID).map change := by
    rw [redraw, List.find?_map]
    simp only [Function.comp_def, h.id_eq]
  rw [addRenderBinding, addRenderBinding, hfind]
  cases input.clips.find? fun clip => clip.id == binding.clipID with
  | none => rfl
  | some clip =>
    obtain ⟨_, hp⟩ := h.placement clip
    rw [Option.map_some, hp]
    rfl

theorem normalizeRenderBindings_redraw (tracks : List RenderTrack) (profile : MaterialProfile) :
    normalizeRenderBindings (input.redraw change) tracks profile =
      normalizeRenderBindings input tracks profile := by
  have hids : (input.redraw change).clips.map (·.id) = input.clips.map (·.id) := by
    simp [redraw, Function.comp_def, h.id_eq]
  have hheads : (∀ clip ∈ (input.redraw change).clips, validateRenderClipHead tracks clip) ↔
      ∀ clip ∈ input.clips, validateRenderClipHead tracks clip := by
    simp only [redraw, List.forall_mem_map, h.validateRenderClipHead_eq]
  have hbound (result : RenderInputs) :
      (∀ clip ∈ (input.redraw change).clips, rendered clip → (result.lookup clip.id).isSome) ↔
        ∀ clip ∈ input.clips, rendered clip → (result.lookup clip.id).isSome := by
    simp only [redraw, List.forall_mem_map, h.rendered_eq, h.id_eq]
  simp only [normalizeRenderBindings, hids, hheads, hbound, h.addRenderBinding_redraw]
  rfl

theorem renderClips_redraw (clips : List ClipState) :
    renderClips tracks (clips.map change) = (renderClips tracks clips).map change := by
  rw [renderClips, renderClips]
  refine (List.map_insertionSort _ _ change clips fun a _ b _ => ?_).symm
  obtain ⟨pa, ha⟩ := h.placement a
  obtain ⟨pb, hb⟩ := h.placement b
  rw [ha, hb]

variable (bindings : RenderInputs)

/-- One turn of the loop over the clips does not look at the placement. -/
theorem compileRenderClip_redraw (compiled : CompiledClips) (clip : ClipState) :
    compileRenderClip tracks bindings (compiled.redraw draw) (change clip) =
      (compileRenderClip tracks bindings compiled clip).map (·.redraw draw) := by
  have hvideo := fun track artifact => h.instruction track artifact clip
  have haudio : ∀ track artifact, audioInstruction track artifact (change clip) =
      audioInstruction track artifact clip := by
    intro track artifact
    obtain ⟨placement, hp⟩ := h.placement clip
    rw [hp]
    rfl
  rw [compileRenderClip, compileRenderClip, h.rendered_eq, h.id_eq]
  simp only [hvideo, haudio]
  obtain ⟨_, hp⟩ := h.placement clip
  rw [hp]
  by_cases hr : (!rendered clip) = true
  · rw [if_pos hr, if_pos hr]
    rfl
  · rw [if_neg hr, if_neg hr]
    cases renderTrack? tracks clip.trackID with
    | none => rfl
    | some track =>
      change compiled.occupied.place clip.trackID clip.timelineRange >>= _ =
        Except.map _ (compiled.occupied.place clip.trackID clip.timelineRange >>= _)
      cases compiled.occupied.place clip.trackID clip.timelineRange with
      | error e => rfl
      | ok =>
        rw [ok_bind, ok_bind]
        cases track.state.type with
        | video => simp [CompiledClips.redraw, Except.map, pure, Except.pure]
        | audio => rfl
        | caption => rfl

/-- The loop over the clips does not look at the placements. -/
theorem compileRenderClips_redraw (clips : List ClipState) :
    (renderClips tracks (clips.map change)).foldlM (compileRenderClip tracks bindings)
        ⟨.none, [], []⟩ =
      ((renderClips tracks clips).foldlM (compileRenderClip tracks bindings) ⟨.none, [], []⟩).map
        (·.redraw draw) := by
  rw [h.renderClips_redraw]
  exact foldlM_map_hom change (CompiledClips.redraw · draw)
    (h.compileRenderClip_redraw tracks bindings) (renderClips tracks clips) ⟨.none, [], []⟩

/-- The plan of a sequence with other placements is the plan of the sequence with these
    placements in its instructions. -/
theorem buildRenderPlan_redraw (purpose : RenderPlanPurpose) (input : CompileRenderPlanInput) :
    buildRenderPlan purpose (input.redraw change) =
      (buildRenderPlan purpose input).map (·.redraw draw) := by
  rw [buildRenderPlan, buildRenderPlan, validateRenderPlanHead_redraw]
  refine bind_map fun _ => bind_map fun tracks => ?_
  rw [h.normalizeRenderBindings_redraw]
  refine bind_map fun bindings => ?_
  rw [show (input.redraw change).clips = input.clips.map change from rfl,
    h.compileRenderClips_redraw]
  cases (renderClips tracks input.clips).foldlM (compileRenderClip tracks bindings)
      ⟨.none, [], []⟩ with
  | error e => rfl
  | ok =>
    -- The rest reads the captions, the occupied time and the materials only.
    rw [ok_bind, Except.map, ok_bind]
    refine bind_map fun captions => bind_map fun _ => bind_map fun inputs =>
      bind_map fun output => ?_
    rfl

end Redraws

end OpenCut
