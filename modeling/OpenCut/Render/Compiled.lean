import OpenCut.Render.Published
import OpenCut.Render.Plan

/-!
# The instructions of a compiled plan

Each instruction of a compiled plan comes from a clip or a caption of the sequence, and has
the layer of its track (`compileRenderClips_video`, `setRenderCaptions_instructions`).
Tracks of one type have layers of their own (`normalizeRenderTracks_layers`), so that in a
compiled plan a layer belongs to one track.
-/

namespace OpenCut

open Outcome List

/-! ## Tracks -/

variable {tracks : List RenderTrack}

/-- A track is on the layer that counts the tracks of its type before it. -/
theorem addRenderTrack_layers {tracks' : List RenderTrack} {track : Track}
    (h : tracks.Pairwise fun a b => a.state.type = b.state.type → a.layer < b.layer)
    (hbound : ∀ a ∈ tracks,
      a.layer < (tracks.filter fun other => other.state.type == a.state.type).length)
    (hstep : addRenderTrack tracks track = .ok tracks') :
    (tracks'.Pairwise fun a b => a.state.type = b.state.type → a.layer < b.layer) ∧ ∀ a ∈ tracks',
        a.layer < (tracks'.filter fun other => other.state.type == a.state.type).length := by
  obtain ⟨_, -, hstep⟩ := bind_ok.1 hstep
  obtain rfl := pure_ok.1 hstep
  refine ⟨pairwise_append.2 ⟨h, by simp, ?_⟩, ?_⟩
  · intro a ha b hb htype
    obtain rfl := mem_singleton.1 hb
    have hlt := hbound a ha
    rwa [htype] at hlt
  · intro a ha
    rw [filter_append, length_append]
    rcases mem_append.1 ha with ha | ha
    · exact Nat.lt_add_right _ (hbound a ha)
    · obtain rfl := mem_singleton.1 ha
      simp

/-- Tracks of one type have layers of their own. -/
theorem normalizeRenderTracks_layers {source : List Track}
    (h : normalizeRenderTracks source = .ok tracks) :
    tracks.Pairwise fun a b => a.state.type = b.state.type → a.layer < b.layer := by
  refine (foldlM_invariant (fun tracks : List RenderTrack =>
    (tracks.Pairwise fun a b => a.state.type = b.state.type → a.layer < b.layer) ∧ ∀ a ∈ tracks,
        a.layer < (tracks.filter fun other => other.state.type == a.state.type).length)
    (fun track _ tracks tracks' ht hstep => addRenderTrack_layers ht.1 ht.2 hstep)
    ⟨.nil, by simp⟩ h).1

theorem track_of_layer
    (h : tracks.Pairwise fun a b => a.state.type = b.state.type → a.layer < b.layer)
    {a b : RenderTrack} (ha : a ∈ tracks) (hb : b ∈ tracks) (htype : a.state.type = b.state.type)
    (hlayer : a.layer = b.layer) : a = b := by
  by_contra hne
  rcases pairwise_iff_getElem.1 h with h
  obtain ⟨i, hi, rfl⟩ := mem_iff_getElem.1 ha
  obtain ⟨j, hj, rfl⟩ := mem_iff_getElem.1 hb
  rcases Nat.lt_trichotomy i j with hij | rfl | hij
  · exact absurd (h i j hi hj hij htype) (by omega)
  · exact hne rfl
  · exact absurd (h j i hj hi hij htype.symm) (by omega)

/-! ## Clips -/

variable {bindings : RenderInputs}

/-- The video instruction of a clip, if it is drawn. -/
def videoInstruction? (tracks : List RenderTrack) (bindings : RenderInputs) (clip : ClipState) :
    Option RenderVideoInstruction :=
  if rendered clip then
    (renderTrack? tracks clip.trackID).bind fun track =>
      if track.state.type = .video then
        some (videoInstruction track (((bindings.lookup clip.id).map (·.artifactID)).getD 0) clip)
      else none
  else none

variable {instruction : RenderVideoInstruction} {clip : ClipState}

theorem videoInstruction?_eq_some : videoInstruction? tracks bindings clip = some instruction ↔
      rendered clip ∧ ∃ track, renderTrack? tracks clip.trackID = some track ∧
        track.state.type = .video ∧ instruction =
          videoInstruction track (((bindings.lookup clip.id).map (·.artifactID)).getD 0) clip := by
  rw [videoInstruction?]
  split
  · next hr =>
    rw [Option.bind_eq_some_iff]
    refine ⟨?_, ?_⟩
    · rintro ⟨track, htrack, h⟩
      split at h
      · next htype => exact ⟨hr, track, htrack, htype, (Option.some.inj h).symm⟩
      · exact absurd h (by simp)
    · rintro ⟨-, track, htrack, htype, rfl⟩
      exact ⟨track, htrack, if_pos htype⟩
  · next hr => simp [hr]

/-- The video instructions are those of the clips that are drawn, in their order. -/
theorem compileRenderClips_video {clips : List ClipState} {compiled : CompiledClips}
    (h : clips.foldlM (compileRenderClip tracks bindings) ⟨.none, [], []⟩ = .ok compiled) :
    compiled.video = clips.filterMap (videoInstruction? tracks bindings) := by
  refine foldlM_progress (fun done compiled =>
    compiled.video = done.filterMap (videoInstruction? tracks bindings)) ?_ rfl h
  intro done clip compiled compiled' hdone hstep
  rw [filterMap_append, ← hdone, filterMap_cons, filterMap_nil]
  rw [compileRenderClip] at hstep
  by_cases hr : rendered clip
  · simp only [hr, Bool.not_true, Bool.false_eq_true, if_false, steps_ok] at hstep
    obtain ⟨track, htrack, _, -, hstep⟩ := hstep
    rw [videoInstruction?, if_pos hr, htrack, Option.bind_some]
    cases htype : track.state.type with
    | video =>
      rw [htype] at hstep
      obtain rfl := pure_ok.1 hstep
      rfl
    | audio =>
      rw [htype] at hstep
      obtain rfl := pure_ok.1 hstep
      simp
    | caption =>
      rw [htype] at hstep
      exact (throw_ok.1 hstep).elim
  · simp only [hr] at hstep
    obtain rfl := pure_ok.1 hstep
    simp [videoInstruction?, hr]

variable {fonts : List RenderFontResource}

/-- The caption instructions are those of the live captions, in their order. -/
theorem setRenderCaptions_instructions {font : Option RenderFontResource}
    {captions : List CaptionState}
    {instructions : List RenderCaptionInstruction}
    (h : setRenderCaptions font tracks captions = .ok (fonts, instructions)) :
    ∀ instruction ∈ instructions, ∃ caption ∈ captions, ∃ font,
      instruction = captionInstruction tracks font caption := by
  rw [setRenderCaptions] at h
  split at h
  · obtain ⟨-, rfl⟩ := Prod.mk.inj (Except.ok.inj h)
    simp
  · simp only [steps_ok] at h
    obtain ⟨font, -, -, h⟩ := h
    obtain ⟨-, rfl⟩ := Prod.mk.inj h
    intro instruction hmem
    obtain ⟨caption, hc, rfl⟩ := mem_map.1 hmem
    exact ⟨caption, hc, font, rfl⟩

/-! ## Layers -/

/-- Every instruction stands on the layer of its track, which is a track of the type. -/
def OnLayers (tracks : List RenderTrack) (type : TrackType) (place : InstructionPlace) : Prop :=
  ∃ track ∈ tracks, track.state.type = type ∧ track.state.id = place.trackID ∧
    track.layer = place.layer

/-- Instructions on one layer are on one track. -/
theorem OnLayers.trackID_eq {type : TrackType} {a b : InstructionPlace}
    (hlayers : tracks.Pairwise fun a b => a.state.type = b.state.type → a.layer < b.layer)
    (ha : OnLayers tracks type a) (hb : OnLayers tracks type b) (h : a.layer = b.layer) :
    a.trackID = b.trackID := by
  obtain ⟨_, htrack, htype, hid, hlayer⟩ := ha
  obtain ⟨_, htrack', htype', hid', hlayer'⟩ := hb
  obtain rfl := track_of_layer hlayers htrack htrack' (htype.trans htype'.symm)
    (hlayer.trans (h.trans hlayer'.symm))
  exact hid.symm.trans hid'

theorem onLayers_video (h : videoInstruction? tracks bindings clip = some instruction) :
    OnLayers tracks .video instruction.place := by
  obtain ⟨-, track, htrack, htype, rfl⟩ := videoInstruction?_eq_some.1 h
  have hid : track.state.id = clip.trackID := by simpa using find?_some htrack
  exact ⟨track, mem_of_find?_eq_some htrack, htype, hid, rfl⟩

theorem onLayers_caption {caption : CaptionState} (font : RenderFontResource)
    (h : validateRenderCaptionHead tracks caption) :
    OnLayers tracks .caption (captionInstruction tracks font caption).place := by
  rw [validateRenderCaptionHead, Bool.and_eq_true, Bool.and_eq_true, Option.any_eq_true] at h
  obtain ⟨⟨-, track, htrack, htype⟩, -⟩ := h
  have hid : track.state.id = caption.trackID := by simpa using find?_some htrack
  refine ⟨track, mem_of_find?_eq_some htrack, by simpa using htype, hid, ?_⟩
  simp [captionInstruction, RenderCaptionInstruction.place, htrack]

/-- In a plan that was built, a layer belongs to one track, and every clip has at most one
    video instruction. -/
structure RenderPlanPayload.Compiled (plan : RenderPlanPayload) : Prop where
  video : ∀ a ∈ plan.video, ∀ b ∈ plan.video, a.layer = b.layer → a.trackID = b.trackID
  captions : ∀ a ∈ plan.captions, ∀ b ∈ plan.captions, a.layer = b.layer → a.trackID = b.trackID
  clips : (plan.video.map (·.clipID)).Nodup

variable {input : CompileRenderPlanInput}

/-- The captions that are set have passed their check. -/
theorem compileRenderCaptions_checked {captions : List RenderCaptionInstruction}
    {duration : RationalTime}
    (h : compileRenderCaptions input tracks = .ok (fonts, captions, duration)) :
    ∀ instruction ∈ captions, OnLayers tracks .caption instruction.place := by
  simp only [compileRenderCaptions, steps_ok] at h
  obtain ⟨occupied, hloop, ⟨fonts', captions'⟩, hset, h⟩ := h
  obtain ⟨-, rfl, -⟩ : fonts' = fonts ∧ captions' = captions ∧ occupied.duration = duration := by
    simpa using h
  have hchecked := foldlM_progress (fun done (_ : Occupied) =>
    ∀ caption ∈ done, validateRenderCaptionHead tracks caption) ?_ (by simp) hloop
  · intro instruction hmem
    obtain ⟨caption, hcaption, font, rfl⟩ := setRenderCaptions_instructions hset instruction hmem
    exact onLayers_caption font (hchecked caption hcaption)
  · intro done caption occupied occupied' hdone hstep
    obtain ⟨_, hcheck, -⟩ := bind_ok.1 hstep
    intro other hother
    rcases mem_append.1 hother with hother | hother
    · exact hdone other hother
    · obtain rfl := mem_singleton.1 hother
      exact (ensure_ok.1 hcheck).1

theorem compiled_of_buildRenderPlan {purpose : RenderPlanPurpose}
    {plan : RenderPlanPayload} (h : buildRenderPlan purpose input = .ok plan) : plan.Compiled := by
  simp only [buildRenderPlan, steps_ok] at h
  obtain ⟨-, tracks, htracks, bindings, hbindings, compiled, hcompiled, ⟨_, _,
      _⟩, hcaptions, -, _, -, _, -, rfl⟩ := h
  have hlayers := normalizeRenderTracks_layers htracks
  have hvideo := compileRenderClips_video hcompiled
  have hcaption := compileRenderCaptions_checked hcaptions
  refine ⟨fun a ha b hb hlayer => ?_, fun a ha b hb hlayer => ?_, ?_⟩
  · have hplace : ∀ instruction ∈ compiled.video, OnLayers tracks .video instruction.place := by
      intro instruction hmem
      rw [hvideo] at hmem
      obtain ⟨clip, -, hclip⟩ := mem_filterMap.1 hmem
      exact onLayers_video hclip
    exact (hplace a ha).trackID_eq hlayers (hplace b hb) hlayer
  · exact (hcaption a ha).trackID_eq hlayers (hcaption b hb) hlayer
  · -- The clips have identities of their own, and each instruction that of its clip.
    simp only [normalizeRenderBindings, steps_ok] at hbindings
    obtain ⟨⟨hnodup, -⟩, -⟩ := hbindings
    have hsorted : ((renderClips tracks input.clips).map (·.id)).Nodup :=
      ((perm_insertionSort _ input.clips).map (·.id)).nodup_iff.2 hnodup
    rw [hvideo, map_filterMap]
    refine (List.Sublist.nodup ?_ hsorted)
    have hid : ∀ clip, (videoInstruction? tracks bindings clip).map (·.clipID) =
        if (videoInstruction? tracks bindings clip).isSome then some clip.id else none := by
      intro clip
      cases hclip : videoInstruction? tracks bindings clip with
      | none => rfl
      | some =>
        obtain ⟨-, _, -, -, rfl⟩ := videoInstruction?_eq_some.1 hclip
        rfl
    simp only [hid]
    rw [← filterMap_eq_map, ← filterMap_filter]
    exact List.Sublist.filterMap _ filter_sublist

end OpenCut
