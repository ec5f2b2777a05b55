import Mathlib.Data.List.Sort
import OpenCut.Render.Payload

/-!
# Compilation of render plans

`application/render_plan.go` and `render_material.go`: the tracks, the live clips and the
live captions of a sequence become the instructions of a render plan, each clip reading
the material it is bound to. The maps of the source with keys taken from a list of
distinct entries are these lists, searched by key.
-/

namespace OpenCut

open Outcome

/-! ## What is compiled -/

/-- A track of the sequence. -/
structure Track where
  id : ID
  revision : Revision
  type : TrackType
  orderKey : Text
deriving DecidableEq

/-- The sequence that is rendered. -/
structure Sequence where
  id : ID
  revision : Revision
  format : SequenceFormat
  tracks : List Track

/-- What the plan needs to know of an asset. -/
structure RenderAssetSnapshot where
  id : ID
  revision : Revision
  acceptedFingerprint : Digest

/-- The kinds of artifacts. -/
inductive ArtifactKind
  | mediaFacts
  | frameSet
  | proxy
  | renderInput
  | waveform
  | transcript
deriving DecidableEq

/-- An artifact of the media work. -/
structure ArtifactSummary where
  id : ID
  kind : ArtifactKind
  producerVersion : Text
  inputFingerprint : Digest
  ready : Bool
  byteSize : Nat
  contentDigest : Digest

/-- `RenderMaterial`: what the manifest of an artifact says. -/
structure RenderMaterial where
  kind : ArtifactKind
  assetID : ID
  fingerprint : Digest
  producer : Text
  profile : MaterialProfile
  sourceEpoch : RationalTime
  mediaDigest : Digest
  manifestDigest : Digest
  byteSize : Nat
  video : Option RenderVideoInput
  audio : Option RenderAudioInput

/-- The material that a clip reads. -/
structure RenderClipInputBinding where
  clipID : ID
  artifact : ArtifactSummary
  material : RenderMaterial

/-- What a plan is compiled from. -/
structure CompileRenderPlanInput where
  observedProjectRevision : Revision
  sequence : Sequence
  clips : List ClipState
  captions : List CaptionState
  assets : List RenderAssetSnapshot
  bindings : List RenderClipInputBinding
  fontResource : Option RenderFontResource

/-! ## Tracks -/

/-- A track with its layer among the tracks of its type. -/
structure RenderTrack where
  state : Track
  layer : Nat
deriving DecidableEq

/-- The track with the identity. -/
def renderTrack? (tracks : List RenderTrack) (id : ID) : Option RenderTrack :=
  tracks.find? fun track => track.state.id == id

/-- `validateRenderPlanHead`. -/
def validateRenderPlanHead (input : CompileRenderPlanInput) : Except RenderError Unit :=
  ensure (input.observedProjectRevision ≠ 0 ∧ input.sequence.revision ≠ 0 ∧
    input.sequence.format.valid ∧ input.sequence.tracks ≠ [] ∧
    input.sequence.tracks.length ≤ maximumRenderPlanItems ∧
    input.clips.length ≤ maximumRenderPlanItems ∧
    input.captions.length ≤ maximumRenderPlanItems ∧
    input.bindings.length ≤ maximumRenderPlanItems) .planInvalid

/-- One turn of the loop of `normalizeRenderTracks`: the layers count the tracks of a
    type. -/
def addRenderTrack (tracks : List RenderTrack) (track : Track) :
    Except RenderError (List RenderTrack) := do
  let layer := (tracks.filter fun other => other.state.type == track.type).length
  ensure (track.revision ≠ 0 ∧ track.orderKey ≠ [] ∧
    (∀ previous ∈ tracks.getLast?, previous.state.orderKey ≠ track.orderKey) ∧
    renderTrack? tracks track.id = none ∧ layer ≠ 65535) .planInvalid
  return tracks ++ [⟨track, layer⟩]

/-- `normalizeRenderTracks`. -/
def normalizeRenderTracks (source : List Track) : Except RenderError (List RenderTrack) :=
  (source.insertionSort fun a b =>
    a.orderKey < b.orderKey ∨ (a.orderKey = b.orderKey ∧ a.id ≤ b.id)).foldlM addRenderTrack []

/-! ## Bindings -/

/-- `validateRenderClipHead`. -/
def validateRenderClipHead (tracks : List RenderTrack) (clip : ClipState) : Bool :=
  clip.revision != 0 && (renderTrack? tracks clip.trackID).any (fun track =>
      track.state.type == .video || track.state.type == .audio) &&
    validatePositiveRange clip.sourceRange false &&
    validatePositiveRange clip.timelineRange true &&
    clip.sourceRange.duration == clip.timelineRange.duration

/-- `RenderMaterial.planInput`: the material is that of the artifact and of the file that
    the asset was accepted as. -/
def RenderMaterial.planInput (material : RenderMaterial) (artifact : ArtifactSummary)
    (asset : RenderAssetSnapshot) : Except RenderError RenderPlanInput := do
  ensure (artifact.kind = material.kind ∧ artifact.ready ∧
    artifact.inputFingerprint = asset.acceptedFingerprint ∧ material.assetID = asset.id ∧
    material.fingerprint = asset.acceptedFingerprint ∧
    material.producer = artifact.producerVersion ∧
    material.manifestDigest = artifact.contentDigest ∧ material.byteSize = artifact.byteSize)
    .planInvalid
  return { artifactID := artifact.id, artifactDigest := artifact.contentDigest,
           producerVersion := artifact.producerVersion, profile := material.profile,
           assetID := asset.id, assetRevision := asset.revision,
           fingerprint := asset.acceptedFingerprint, sourceEpoch := material.sourceEpoch,
           mediaDigest := material.mediaDigest, video := material.video, audio := material.audio }

/-- `validateRenderBinding`: the material has the stream of the clip. -/
def validateRenderBinding (binding : RenderClipInputBinding) (sourceStreamID : ID)
    (trackType : TrackType) (asset : RenderAssetSnapshot) (requiredProfile : MaterialProfile) :
    Except RenderError RenderPlanInput := do
  ensure (binding.material.profile = requiredProfile) .inputRequired
  let result ← binding.material.planInput binding.artifact asset
  ensure (trackType = .video → result.video.any (·.sourceStreamID == sourceStreamID)) .inputRequired
  ensure (trackType = .audio → result.audio.any (·.sourceStreamID == sourceStreamID)) .inputRequired
  return result

/-- The clip is rendered. -/
def rendered (clip : ClipState) : Bool := !clip.tombstoned && clip.enabled

/-- The materials of the clips, by clip. -/
abbrev RenderInputs := List (ID × RenderPlanInput)

/-- One turn of the loop of `normalizeRenderBindings` over the bindings. -/
def addRenderBinding (input : CompileRenderPlanInput) (tracks : List RenderTrack)
    (requiredProfile : MaterialProfile) (result : RenderInputs) (binding : RenderClipInputBinding) :
    Except RenderError RenderInputs := do
  let clip ← need (input.clips.find? fun clip => clip.id == binding.clipID) .planInvalid
  ensure (rendered clip ∧ result.lookup binding.clipID = none) .planInvalid
  let asset ← need (input.assets.find? fun asset => asset.id == clip.assetID) .planInvalid
  ensure (asset.revision ≠ 0) .planInvalid
  let track ← need (renderTrack? tracks clip.trackID) .planInvalid
  let planInput ←
    validateRenderBinding binding clip.sourceStreamID track.state.type asset requiredProfile
  return (binding.clipID, planInput) :: result

/-- `normalizeRenderBindings`: every clip that is rendered has its material. -/
def normalizeRenderBindings (input : CompileRenderPlanInput) (tracks : List RenderTrack)
    (requiredProfile : MaterialProfile) : Except RenderError RenderInputs := do
  ensure ((input.clips.map (·.id)).Nodup ∧
    ∀ clip ∈ input.clips, validateRenderClipHead tracks clip) .planInvalid
  let result ← input.bindings.foldlM (addRenderBinding input tracks requiredProfile) []
  ensure (∀ clip ∈ input.clips, rendered clip → (result.lookup clip.id).isSome) .inputRequired
  return result

/-! ## Instructions -/

/-- `defaultRenderPlacement`. -/
def defaultRenderPlacement : RenderPlacement where
  cropXBasisPoints := 0
  cropYBasisPoints := 0
  cropWidthBasisPoints := 10000
  cropHeightBasisPoints := 10000
  scaleX := 1
  scaleY := 1
  translateX := 0
  translateY := 0
  anchorXBasisPoints := 5000
  anchorYBasisPoints := 5000
  opacityBasisPoints := 10000
  fitPolicy := .contain

/-- `renderPlacementForClip`: the stored placement over the default one. -/
def renderPlacementForClip (stored : Option ClipPlacement) : RenderPlacement :=
  match stored with
  | none => defaultRenderPlacement
  | some stored =>
    { defaultRenderPlacement with
      cropXBasisPoints := stored.cropXBasisPoints
      cropYBasisPoints := stored.cropYBasisPoints
      cropWidthBasisPoints := stored.cropWidthBasisPoints
      cropHeightBasisPoints := stored.cropHeightBasisPoints
      scaleX := stored.scaleX
      scaleY := stored.scaleY
      translateX := stored.translateX
      translateY := stored.translateY
      opacityBasisPoints := stored.opacityBasisPoints }

/-- `defaultRenderCaptionStyle`. -/
def defaultRenderCaptionStyle (resourceID : Text) : RenderCaptionStyle where
  fontResourceID := resourceID
  fontSizeBasisPoint := 550
  textColorRGBA := "#ffffffff".toList
  outlineColorRGBA := "#000000ff".toList
  outlineBasisPoints := 35
  lineHeightBasisPoints := 12000
  alignment := "bottom-center".toList
  positionYBasisPoint := 8800
  safeWidthBasisPoint := 9000
  wrapPolicy := "explicit-lines-clip-v1".toList

variable (tracks : List RenderTrack)

/-- The order key of a track, empty if there is no such track. -/
def renderOrderKey (trackID : ID) : Text :=
  ((renderTrack? tracks trackID).map (·.state.orderKey)).getD []

/-- The order of `renderClipLess` and `renderCaptionLess`: by track, start and identity. -/
def renderBefore (trackID : ID) (start : RationalTime) (id : ID) (otherTrackID : ID)
    (otherStart : RationalTime) (otherID : ID) : Prop :=
  let key := renderOrderKey tracks trackID
  let otherKey := renderOrderKey tracks otherTrackID
  key < otherKey ∨ (key = otherKey ∧ (start < otherStart ∨ (start = otherStart ∧ id ≤ otherID)))

instance (tracks : List RenderTrack) (trackID : ID) (start : RationalTime) (id : ID)
    (otherTrackID : ID) (otherStart : RationalTime) (otherID : ID) :
    Decidable (renderBefore tracks trackID start id otherTrackID otherStart otherID) :=
  inferInstanceAs (Decidable (_ ∨ _))

/-- The clips in the order of `renderClipLess`. -/
def renderClips (clips : List ClipState) : List ClipState :=
  clips.insertionSort fun a b =>
    renderBefore tracks a.trackID a.timelineRange.start a.id b.trackID b.timelineRange.start b.id

variable (captions : List CaptionState)

/-- The captions in the order of `renderCaptionLess`. -/
def renderCaptions : List CaptionState :=
  captions.insertionSort fun a b =>
    renderBefore tracks a.trackID a.range.start a.id b.trackID b.range.start b.id

/-- What the loop over the clips has compiled. -/
structure CompiledClips where
  occupied : Occupied
  video : List RenderVideoInstruction
  audio : List RenderAudioInstruction

/-- The video instruction of a clip. -/
def videoInstruction (track : RenderTrack) (inputArtifactID : ID) (clip : ClipState) :
    RenderVideoInstruction :=
  { clipID := clip.id, clipRevision := clip.revision, trackID := clip.trackID,
    trackRevision := track.state.revision, layer := track.layer, inputArtifactID,
    sourceStreamID := clip.sourceStreamID, sourceRange := clip.sourceRange,
    timelineRange := clip.timelineRange, placement := renderPlacementForClip clip.placement }

/-- The audio instruction of a clip. -/
def audioInstruction (track : RenderTrack) (inputArtifactID : ID) (clip : ClipState) :
    RenderAudioInstruction :=
  { clipID := clip.id, clipRevision := clip.revision, trackID := clip.trackID,
    trackRevision := track.state.revision, layer := track.layer, inputArtifactID,
    sourceStreamID := clip.sourceStreamID, sourceRange := clip.sourceRange,
    timelineRange := clip.timelineRange, gainMilliDB := 0 }

/-- One turn of the loop of `compileRenderInstructions`. -/
def compileRenderClip (bindings : RenderInputs) (compiled : CompiledClips) (clip : ClipState) :
    Except RenderError CompiledClips := do
  if !rendered clip then return compiled
  let track ← need (renderTrack? tracks clip.trackID) .planInvalid
  let occupied ← compiled.occupied.place clip.trackID clip.timelineRange
  let inputArtifactID := ((bindings.lookup clip.id).map (·.artifactID)).getD 0
  match track.state.type with
  | .video =>
    return { compiled with
      occupied, video := compiled.video ++ [videoInstruction track inputArtifactID clip] }
  | .audio =>
    return { compiled with
      occupied, audio := compiled.audio ++ [audioInstruction track inputArtifactID clip] }
  | .caption => throw .planInvalid

/-- What the first loop of `compileRenderCaptions` checks of a caption but its text. -/
def validateRenderCaptionHead (caption : CaptionState) : Bool :=
  caption.revision != 0 &&
    (renderTrack? tracks caption.trackID).any (fun track => track.state.type == .caption) &&
    validatePositiveRange caption.range true

/-- One turn of the first loop of `compileRenderCaptions`. -/
def checkRenderCaption (occupied : Occupied) (caption : CaptionState) :
    Except RenderError Occupied := do
  ensure (validateRenderCaptionHead tracks caption ∧ validCaptionText caption.text) .planInvalid
  occupied.place caption.trackID caption.range

/-- The caption instruction of a caption. -/
def captionInstruction (font : RenderFontResource) (caption : CaptionState) :
    RenderCaptionInstruction :=
  let track := renderTrack? tracks caption.trackID
  { captionID := caption.id, captionRevision := caption.revision, trackID := caption.trackID,
    trackRevision := (track.map (·.state.revision)).getD 0,
    layer := (track.map (·.layer)).getD 0, range := caption.range, language := caption.language,
    text := caption.text, style := defaultRenderCaptionStyle font.resourceID }

/-- The captions that are set, in the order of their instructions. -/
def liveCaptions : List CaptionState :=
  (renderCaptions tracks captions).filter fun caption => !caption.tombstoned

/-- The second half of `compileRenderCaptions`: the fonts and the instructions. -/
def setRenderCaptions (fontResource : Option RenderFontResource) (tracks : List RenderTrack)
    (captions : List CaptionState) :
    Except RenderError (List RenderFontResource × List RenderCaptionInstruction) :=
  if captions.isEmpty then .ok ([], []) else do
    let font ← need fontResource .fontRequired
    ensure font.valid .fontRequired
    return ([font], captions.map (captionInstruction tracks font))

/-- `compileRenderCaptions`: the fonts, the instructions and the latest end. -/
def compileRenderCaptions (input : CompileRenderPlanInput) (tracks : List RenderTrack) :
    Except RenderError
      (List RenderFontResource × List RenderCaptionInstruction × RationalTime) := do
  let captions := liveCaptions tracks input.captions
  let occupied ← captions.foldlM (checkRenderCaption tracks) .none
  let (fonts, instructions) ← setRenderCaptions input.fontResource tracks captions
  return (fonts, instructions, occupied.duration)

/-- `uniqueRenderInputs`: the materials by artifact; two clips that read one artifact read
    the same of it. -/
def uniqueRenderInputs (bindings : RenderInputs) : Except RenderError (List RenderPlanInput) := do
  let inputs := bindings.map Prod.snd
  ensure (∀ a ∈ inputs, ∀ b ∈ inputs, a.artifactID = b.artifactID → a = b) .planInvalid
  return inputs.dedup.insertionSort fun a b => a.artifactID ≤ b.artifactID

variable (purpose : RenderPlanPurpose) (input : CompileRenderPlanInput)

/-- The plan that `compileSequenceRenderPlan` builds, before it is validated. -/
def buildRenderPlan : Except RenderError RenderPlanPayload := do
  validateRenderPlanHead input
  let tracks ← normalizeRenderTracks input.sequence.tracks
  let bindings ← normalizeRenderBindings input tracks purpose.requiredProfile
  let compiled ← (renderClips tracks input.clips).foldlM (compileRenderClip tracks bindings)
    ⟨.none, [], []⟩
  let (fontResources, captions, captionDuration) ← compileRenderCaptions input tracks
  let duration := laterRenderTime compiled.occupied.duration captionDuration
  ensure duration.isPositive .sequenceEmpty
  let inputs ← uniqueRenderInputs bindings
  let output ← purpose.output input.sequence.format duration
  return { purpose, sequenceID := input.sequence.id, sequenceRevision := input.sequence.revision,
           sequenceFormat := input.sequence.format, duration, inputs, video := compiled.video,
           audio := compiled.audio, captions, fontResources, output }

/-- `compileSequenceRenderPlan`. -/
def compileSequenceRenderPlan : Except RenderError RenderPlanPayload := do
  let plan ← buildRenderPlan purpose input
  validateRenderPlanPayload plan
  return plan

/-- `CompileSequencePreviewPlan`. -/
def compileSequencePreviewPlan := compileSequenceRenderPlan .sequencePreview

/-- `CompileSequenceExportPlan`. -/
def compileSequenceExportPlan := compileSequenceRenderPlan .export

end OpenCut
