import OpenCut.Render.Renderable

/-!
# Drafts and what is committed

An overlay puts the placements of a gesture into a compiled plan; committing the gesture puts
them into the clips, from which the plan is compiled again. Both give the same plan
(`draft_eq_commit`), as long as the overlay keeps to what can be committed: a committed
placement has no fit policy and no anchor of its own.
-/

namespace OpenCut

open Outcome List RenderPlanPayload RenderVideoInstruction Overlay

/-! ## The placements of an overlay -/

namespace Overlay

variable (overlay : Overlay)

/-- What the overlay says of the clip. -/
def operation? (clipID : ID) : Option ClipPlacementOperation :=
  overlay.placements.find? fun operation => operation.clipID == clipID

/-- The instruction with the placement that the overlay has for its clip. -/
def draw (instruction : RenderVideoInstruction) : RenderVideoInstruction :=
  match overlay.operation? instruction.clipID with
  | some operation => { instruction with placement := operation.placement }
  | none => instruction

/-- The clip with the placement that the overlay has for it. -/
def commit (clip : ClipState) : ClipState :=
  match overlay.operation? clip.id with
  | some operation => { clip with placement := some operation.placement.creative }
  | none => clip

end Overlay

/-- The fit policy and the anchor are those of a committed placement. -/
structure RenderPlacement.DefaultFit (p : RenderPlacement) : Prop where
  anchorX : p.anchorXBasisPoints = defaultRenderPlacement.anchorXBasisPoints
  anchorY : p.anchorYBasisPoints = defaultRenderPlacement.anchorYBasisPoints
  fit : p.fitPolicy = defaultRenderPlacement.fitPolicy

/-- A placement that keeps to what can be committed is rendered as it is drawn. -/
theorem RenderPlacement.DefaultFit.renderPlacementForClip_creative {p : RenderPlacement}
    (h : p.DefaultFit) : renderPlacementForClip (some p.creative) = p := by
  obtain ⟨hx, hy, hf⟩ := h
  cases p
  simp_all [renderPlacementForClip, RenderPlacement.creative]

variable {overlay : Overlay}

/-- Committing the placements and drawing them is the same change. -/
theorem Overlay.redraws (h : ∀ operation ∈ overlay.placements, operation.placement.DefaultFit) :
    Redraws overlay.commit overlay.draw where
  placement clip := by
    rw [commit]
    cases overlay.operation? clip.id with
    | none => exact ⟨clip.placement, rfl⟩
    | some => exact ⟨_, rfl⟩
  instruction track inputArtifactID clip := by
    rw [commit, draw, show (videoInstruction track inputArtifactID clip).clipID = clip.id from rfl]
    cases hop : overlay.operation? clip.id with
    | none => rfl
    | some operation =>
      have hfit := h operation (mem_of_find?_eq_some hop)
      simp [videoInstruction, hfit.renderPlacementForClip_creative]

/-! ## What `Apply` does -/

variable {video : List RenderVideoInstruction} {plan : RenderPlanPayload}

/-- The target of a clip is an instruction of the clip. -/
theorem overlayTarget_some {clipID : ID} {index : Nat}
    (h : overlayTarget video clipID = some index) :
    ∃ instruction, video[index]? = some instruction ∧ instruction.clipID = clipID := by
  obtain ⟨⟨instruction, _⟩, hfind, rfl⟩ := Option.map_eq_some_iff.1 h
  have hmem := mem_of_find?_eq_some hfind
  rw [mem_reverse, mk_mem_zipIdx_iff_getElem?] at hmem
  exact ⟨instruction, hmem, by simpa using find?_some hfind⟩

/-- Every clip with an instruction has a target. -/
theorem overlayTarget_none {clipID : ID} (h : overlayTarget video clipID = none) :
    ∀ instruction ∈ video, instruction.clipID ≠ clipID := by
  intro instruction hmem heq
  obtain ⟨index, hindex⟩ := mem_iff_getElem?.1 hmem
  have hnone := find?_eq_none.1 (Option.map_eq_none_iff.1 h) (instruction, index)
    (mem_reverse.2 (mk_mem_zipIdx_iff_getElem?.2 hindex))
  exact hnone (by simpa using heq)

variable (operation : ClipPlacementOperation) (instruction : RenderVideoInstruction)

/-- One placement goes to the instruction of its clip, wherever it is. -/
def placed : RenderVideoInstruction :=
  if instruction.clipID = operation.clipID then
    { instruction with placement := operation.placement }
  else instruction

@[simp]
theorem clipID_placed : (placed operation instruction).clipID = instruction.clipID := by
  rw [placed]
  split <;> rfl

variable {targets : List RenderVideoInstruction}

/-- Where every clip has one instruction, the target is the only one to change. -/
theorem substitutePlacement_eq_map
    (hids : video.map (·.clipID) = targets.map (·.clipID)) (hnodup : (targets.map (·.clipID)).Nodup)
    (operation : ClipPlacementOperation) :
    substitutePlacement targets video operation = video.map (placed operation) := by
  rw [substitutePlacement]
  cases htarget : overlayTarget targets operation.clipID with
  | none =>
    refine ((map_congr_left fun instruction hmem => ?_).trans (map_id video)).symm
    have hid : instruction.clipID ∈ targets.map (·.clipID) := hids ▸ mem_map_of_mem hmem
    obtain ⟨target, htmem, heq⟩ := mem_map.1 hid
    rw [placed, if_neg (heq ▸ overlayTarget_none htarget target htmem)]
    rfl
  | some index =>
    obtain ⟨_, hindex, htid⟩ := overlayTarget_some htarget
    refine ext_getElem? fun k => ?_
    rw [getElem?_modify, getElem?_map]
    cases hk : video[k]? with
    | none => simp
    | some instruction =>
      -- The clip of the instruction is that of the operation if and only if it is the target.
      have hat : ∀ j : Nat, (targets.map (·.clipID))[j]? = (video.map (·.clipID))[j]? := fun j => by
        rw [hids]
      have hkid : (targets.map (·.clipID))[k]? = some instruction.clipID := by
        rw [hat, getElem?_map, hk]
        rfl
      have hiid : (targets.map (·.clipID))[index]? = some operation.clipID := by
        rw [getElem?_map, hindex, ← htid]
        rfl
      have hiff : index = k ↔ instruction.clipID = operation.clipID := by
        constructor
        · rintro rfl
          exact Option.mem_unique hkid hiid
        · intro heq
          obtain ⟨hi, hi'⟩ := List.getElem?_eq_some_iff.1 hiid
          obtain ⟨hj, hj'⟩ := List.getElem?_eq_some_iff.1 hkid
          exact (hnodup.getElem_inj_iff).1 (hi'.trans (heq.symm.trans hj'.symm))
      simp only [hiff, placed, Option.map_some]
      split <;> rfl

/-- The placements go to the instructions of their clips one after another. -/
theorem foldl_substitutePlacement
    (hnodup : (targets.map (·.clipID)).Nodup) (operations : List ClipPlacementOperation)
    (hids : video.map (·.clipID) = targets.map (·.clipID)) :
    operations.foldl (substitutePlacement targets) video =
      video.map fun instruction => operations.foldl (fun i o => placed o i) instruction := by
  induction operations generalizing video with
  | nil => simp
  | cons operation operations ih =>
    rw [foldl_cons, substitutePlacement_eq_map hids hnodup,
      ih (by simpa [Function.comp_def] using hids), map_map]
    rfl

/-- With one operation for each clip, the placements go to the instructions at once. -/
theorem foldl_placed {operations : List ClipPlacementOperation}
    (hnodup : (operations.map (·.clipID)).Nodup) (instruction : RenderVideoInstruction) :
    operations.foldl (fun i o => placed o i) instruction =
      (operations.find? fun operation => operation.clipID == instruction.clipID).elim instruction
        fun operation => { instruction with placement := operation.placement } := by
  induction operations generalizing instruction with
  | nil => rfl
  | cons operation operations ih =>
    rw [map_cons, nodup_cons] at hnodup
    rw [foldl_cons, ih hnodup.2, find?_cons, clipID_placed]
    by_cases hid : instruction.clipID = operation.clipID
    · -- The clip has no second operation.
      have hnone : operations.find? (fun operation => operation.clipID == instruction.clipID) =
          none := by
        refine find?_eq_none.2 fun other hother heq => hnodup.1 ?_
        exact mem_map.2 ⟨other, hother, (beq_iff_eq.1 heq).trans hid⟩
      rw [hnone, placed, if_pos hid, beq_iff_eq.2 hid.symm]
      rfl
    · rw [placed, if_neg hid, beq_false_of_ne (Ne.symm hid)]

/-- Where every clip has one instruction, an applied overlay changes the placements of the
    clips that it names and nothing else. -/
theorem Overlay.apply_eq_redraw {plan' : RenderPlanPayload}
    (hnodup : (plan.video.map (·.clipID)).Nodup) (h : overlay.apply plan = .ok plan') :
    plan' = plan.redraw overlay.draw := by
  obtain ⟨_, hvalid, h⟩ := bind_ok.1 h
  rw [validateOverlay, ensure_ok] at hvalid
  have hdraw : ∀ instruction, overlay.placements.foldl (fun i o => placed o i) instruction =
      overlay.draw instruction := by
    intro instruction
    rw [foldl_placed hvalid.2.1, draw, operation?]
    cases overlay.placements.find? fun operation => operation.clipID == instruction.clipID <;> rfl
  split at h
  · next hempty =>
    obtain rfl := pure_ok.1 h
    rw [List.isEmpty_iff] at hempty
    have hid : overlay.draw = id := funext fun instruction => by
      rw [← hdraw, hempty]
      rfl
    rw [redraw, hid, map_id]
  · simp only [steps_ok] at h
    obtain ⟨-, -, rfl⟩ := h
    rw [foldl_substitutePlacement hnodup _ rfl, redraw]
    simp only [hdraw]

/-- The overlay was made for another state of the sequence or of one of its clips. -/
def Overlay.Stale (overlay : Overlay) (plan : RenderPlanPayload) : Prop :=
  overlay.sequenceRevision ≠ plan.sequenceRevision ∨ ∃ operation ∈ overlay.placements,
    ∀ instruction ∈ plan.video, instruction.clipID = operation.clipID →
      instruction.clipRevision ≠ operation.clipRevision

/-- Where every clip has one instruction, the target has the revision of the operation if and
    only if an instruction of the clip has. -/
theorem overlayTarget_fresh (hnodup : (video.map (·.clipID)).Nodup)
    (operation : ClipPlacementOperation) :
    ((overlayTarget video operation.clipID).bind (video[·]?)).any
      (·.clipRevision == operation.clipRevision) = true ↔
      ∃ instruction ∈ video, instruction.clipID = operation.clipID ∧
        instruction.clipRevision = operation.clipRevision := by
  rw [Option.any_eq_true]
  constructor
  · rintro ⟨instruction, hbind, hrevision⟩
    obtain ⟨index, htarget, hindex⟩ := Option.bind_eq_some_iff.1 hbind
    obtain ⟨target, htindex, htid⟩ := overlayTarget_some htarget
    obtain rfl := Option.mem_unique hindex htindex
    exact ⟨instruction, mem_of_getElem? hindex, htid, by simpa using hrevision⟩
  · rintro ⟨instruction, hmem, hid, hrevision⟩
    cases htarget : overlayTarget video operation.clipID with
    | none => exact absurd hid (overlayTarget_none htarget instruction hmem)
    | some index =>
      obtain ⟨target, htindex, htid⟩ := overlayTarget_some htarget
      obtain rfl : target = instruction :=
        inj_on_of_nodup_map hnodup (mem_of_getElem? htindex) hmem (htid.trans hid.symm)
      exact ⟨target, htindex, by simpa using hrevision⟩

/-- A stale overlay is refused as a whole; one without placements is not stale. -/
theorem Overlay.apply_eq_stale (hnodup : (plan.video.map (·.clipID)).Nodup) :
    overlay.apply plan = .error .stale ↔
      validateOverlay overlay = .ok () ∧ overlay.placements ≠ [] ∧ overlay.Stale plan := by
  rw [apply]
  cases hvalid : validateOverlay overlay with
  | error e =>
    have he : e = .invalid := by
      rw [validateOverlay, ensure] at hvalid
      split at hvalid
      · cases hvalid
      · exact (Except.error.inj hvalid).symm
    simp [he, bind, Except.bind]
  | ok =>
    rw [ok_bind]
    by_cases hempty : overlay.placements = []
    · simp [hempty, pure, Except.pure]
    · have hfresh : (∀ operation ∈ overlay.placements,
          ((overlayTarget plan.video operation.clipID).bind (plan.video[·]?)).any
            (·.clipRevision == operation.clipRevision)) ↔
          ¬∃ operation ∈ overlay.placements, ∀ instruction ∈ plan.video,
            instruction.clipID = operation.clipID →
              instruction.clipRevision ≠ operation.clipRevision := by
        simp only [overlayTarget_fresh hnodup]
        push Not
        rfl
      rw [if_neg (by simpa using hempty), Stale]
      by_cases hrevision : overlay.sequenceRevision = plan.sequenceRevision
      · rw [ensure_of _ hrevision, ok_bind]
        by_cases hstale : ∃ operation ∈ overlay.placements, ∀ instruction ∈ plan.video,
            instruction.clipID = operation.clipID →
              instruction.clipRevision ≠ operation.clipRevision
        · rw [ensure, if_neg fun h => hfresh.1 h hstale]
          simp [hempty, hstale, bind, Except.bind]
        · rw [ensure_of _ (hfresh.2 hstale), ok_bind]
          simp [hrevision, hstale, pure, Except.pure]
      · rw [ensure, if_neg hrevision]
        simp [hempty, hrevision, bind, Except.bind]

/-! ## Drafts and commits -/

theorem Overlay.draw_placement (overlay : Overlay) (instruction : RenderVideoInstruction) :
    ∃ placement, overlay.draw instruction = { instruction with placement } ∧
      (placement = instruction.placement ∨
        ∃ operation ∈ overlay.placements, placement = operation.placement) := by
  rw [draw]
  cases hop : overlay.operation? instruction.clipID with
  | none => exact ⟨instruction.placement, rfl, .inl rfl⟩
  | some operation => exact ⟨_, rfl, .inr ⟨operation, mem_of_find?_eq_some hop, rfl⟩⟩

/-- A published plan stays one with valid placements drawn over it. -/
theorem RenderPlanPayload.Published.redraw (h : plan.Published)
    (hvalid : ∀ operation ∈ overlay.placements, operation.placement.Valid) :
    (plan.redraw overlay.draw).Published := by
  have hplace : ∀ instruction, (overlay.draw instruction).place = instruction.place := by
    intro instruction
    obtain ⟨placement, hp, -⟩ := overlay.draw_placement instruction
    rw [hp]
    rfl
  have hlatest : latestEnd place (plan.video.map overlay.draw) = latestEnd place plan.video := by
    simp only [latestEnd, filterMap_map, Function.comp_def, hplace]
  have hcheck : ∀ instruction ∈ plan.video, valid plan.inputs (overlay.draw instruction) := by
    intro instruction hmem
    have hold := h.video.checked instruction hmem
    obtain ⟨placement, hp, hplacement⟩ := overlay.draw_placement instruction
    rw [valid, Bool.and_eq_true, decide_eq_true_iff] at hold ⊢
    refine ⟨by rw [hp]; exact hold.1, ?_⟩
    rw [hp]
    rcases hplacement with rfl | ⟨operation, hop, rfl⟩
    · exact hold.2
    · exact hvalid operation hop
  have hused : (plan.redraw overlay.draw).usedInputs = plan.usedInputs := by
    have hinput : ∀ instruction, (overlay.draw instruction).inputArtifactID =
        instruction.inputArtifactID := by
      intro instruction
      obtain ⟨_, hp, -⟩ := overlay.draw_placement instruction
      rw [hp]
    simp [RenderPlanPayload.usedInputs, RenderPlanPayload.redraw, Function.comp_def, hinput]
  refine { h with
    videoCount := (length_map overlay.draw).trans_le h.videoCount
    video := ⟨?_, ?_, ?_, ?_⟩
    duration := Eq.trans (by rw [RenderPlanPayload.redraw, hlatest]) h.duration
    usedInputs := by rw [hused]; exact h.usedInputs }
  · exact forall_mem_map.2 hcheck
  · refine forall_mem_map.2 fun instruction hmem => ?_
    rw [hplace]
    exact h.video.ends instruction hmem
  · simp only [RenderPlanPayload.redraw, pairwise_map, hplace]
    exact h.video.before
  · simp only [RenderPlanPayload.redraw, pairwise_map, hplace]
    exact h.video.apart

/-- A draft shows what would be committed. An overlay that is applied to a compiled plan
    changes the placements of the clips it names and nothing else, and the result is a plan
    that the engine executes. If the overlay keeps to what can be committed, and the sequence
    with its placements committed compiles, this gives the same plan. An overlay is stale if
    and only if it is valid, names a clip, and was made for another revision of the sequence
    or of a clip it names; one that names no clip changes nothing. -/
theorem draft_eq_commit {purpose : RenderPlanPurpose} {input : CompileRenderPlanInput}
    (h : compileSequenceRenderPlan purpose input = .ok plan) (overlay : Overlay) :
    (∀ draft, overlay.apply plan = .ok draft →
      draft = plan.redraw overlay.draw ∧ validateRenderPlanPayload draft = .ok () ∧
      ((∀ operation ∈ overlay.placements, operation.placement.DefaultFit) →
        ∀ committed,
          compileSequenceRenderPlan purpose (input.redraw overlay.commit) = .ok committed →
            draft = committed)) ∧
    (overlay.apply plan = .error .stale ↔
      validateOverlay overlay = .ok () ∧ overlay.placements ≠ [] ∧ overlay.Stale plan) ∧
    (overlay.placements = [] → overlay.apply plan = .ok plan) := by
  simp only [compileSequenceRenderPlan, steps_ok] at h
  obtain ⟨_, hbuild, hvalid, rfl⟩ := h
  have hnodup := (compiled_of_buildRenderPlan hbuild).clips
  refine ⟨fun draft hdraft => ?_, apply_eq_stale hnodup,
    fun hempty => by simp [Overlay.apply, validateOverlay, ensure, hempty]⟩
  obtain rfl := apply_eq_redraw hnodup hdraft
  refine ⟨rfl, ?_, fun hfit committed hcommitted => ?_⟩
  · exact validateRenderPlanPayload_ok.2 ((validateRenderPlanPayload_ok.1 hvalid).redraw
      (overlay.valid_of_apply hdraft))
  · simp only [compileSequenceRenderPlan, steps_ok] at hcommitted
    obtain ⟨_, hcommit, -, rfl⟩ := hcommitted
    rw [(redraws hfit).buildRenderPlan_redraw, hbuild] at hcommit
    exact Except.ok.inj hcommit

/-- The sample sequence compiles with the placements of the sample draft committed. -/
theorem sampleOverlay_committed : ∃ committed, compileSequenceRenderPlan .sequencePreview
    ((sampleInput identityClipPlacement ['x']).plain.redraw
      (sampleOverlay 1 (.ofNat 12 (by decide))).commit) = .ok committed := by
  decide +kernel

theorem draft_eq_commit_sample : ∃ plan draft, samplePlan = .ok plan ∧
    (sampleOverlay 1 (.ofNat 12 (by decide))).apply plan = .ok draft ∧
    validateRenderPlanPayload draft = .ok () ∧
    compileSequenceRenderPlan .sequencePreview
      ((sampleInput identityClipPlacement ['x']).plain.redraw
        (sampleOverlay 1 (.ofNat 12 (by decide))).commit) = .ok draft := by
  obtain ⟨plan, hplan⟩ := samplePlan_eq_ok
  obtain ⟨draft, hdraft⟩ := sampleOverlay_applied hplan
  obtain ⟨committed, hcommitted⟩ := sampleOverlay_committed
  obtain ⟨-, hvalid, heq⟩ := (draft_eq_commit hplan _).1 draft hdraft
  have hfit : ∀ operation ∈ (sampleOverlay 1 (.ofNat 12 (by decide))).placements,
      operation.placement.DefaultFit := by
    intro operation hop
    obtain rfl := mem_singleton.1 hop
    exact ⟨rfl, rfl, rfl⟩
  refine ⟨plan, draft, hplan, hdraft, hvalid, ?_⟩
  rw [heq hfit committed hcommitted]
  exact hcommitted

/-- An overlay without placements is applied to a plan of another revision of the sequence. -/
theorem empty_draft_not_stale : ∃ plan, samplePlan = .ok plan ∧
    (Overlay.mk 2 []).sequenceRevision ≠ plan.sequenceRevision ∧
    (Overlay.mk 2 []).apply plan = .ok plan := by
  obtain ⟨plan, hplan, hrevision⟩ : ∃ plan, samplePlan = .ok plan ∧ 2 ≠ plan.sequenceRevision := by
    decide +kernel
  exact ⟨plan, hplan, hrevision, rfl⟩

end OpenCut
