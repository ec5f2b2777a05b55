import OpenCut.Render.Output

/-!
# Render plans and their validation

`rendercontract/validation.go`: a plan lists its inputs, the video, audio and caption
instructions in the order (layer, start, id), and the fonts. `validateRenderPlanPayload`
is what the engine checks before it executes a plan.

The three lists of instructions are checked by one loop (`validatePublished`): besides
its own check, every instruction has to come after the one before it and must not begin
before the last one on its track ends (`Occupied.place`).
-/

namespace OpenCut

open Outcome

/-! ## Inputs -/

/-- The profile of the material an instruction reads. -/
inductive MaterialProfile
  /-- `SourceProxyProfile`. -/
  | sourceProxy
  /-- `RenderInputProfile`. -/
  | renderInput
deriving DecidableEq

/-- The video stream of a material. -/
structure RenderVideoInput where
  sourceStreamID : ID
  sourceStart : RationalTime
  materialStart : RationalTime
  sourceTimeBase : RationalTime
  materialTimeBase : RationalTime
  timeMapDigest : Digest
  width : Nat
  height : Nat
deriving DecidableEq

/-- The audio stream of a material. Its channel layout is stereo. -/
structure RenderAudioInput where
  sourceStreamID : ID
  sourceStart : RationalTime
  materialStart : RationalTime
  sourceTimeBase : RationalTime
  materialTimeBase : RationalTime
  sampleRate : Nat
  decodedSampleCount : Nat
deriving DecidableEq

/-- A material that instructions read. -/
structure RenderPlanInput where
  artifactID : ID
  artifactDigest : Digest
  producerVersion : Text
  profile : MaterialProfile
  assetID : ID
  assetRevision : Revision
  fingerprint : Digest
  sourceEpoch : RationalTime
  mediaDigest : Digest
  video : Option RenderVideoInput
  audio : Option RenderAudioInput
deriving DecidableEq

/-- `validatePublishedRenderVideoInput`. -/
def RenderVideoInput.valid (input : RenderVideoInput) : Bool :=
  input.sourceTimeBase.isPositive && input.materialTimeBase.isPositive && input.width != 0 &&
    input.height != 0 && input.width ≤ maximumRenderDimension &&
    input.height ≤ maximumRenderDimension

/-- `validatePublishedRenderAudioInput`. -/
def RenderAudioInput.valid (input : RenderAudioInput) : Bool :=
  input.sourceTimeBase.isPositive && input.materialTimeBase.isPositive &&
    input.sampleRate == sequencePreviewAudioSampleRate && input.decodedSampleCount != 0 &&
    input.decodedSampleCount ≤ maximumSourceProxySamples

/-- What `validatePublishedRenderInputs` checks of each input. -/
def RenderPlanInput.valid (input : RenderPlanInput) (requiredProfile : MaterialProfile) : Bool :=
  input.assetRevision != 0 && input.profile == requiredProfile &&
    !input.producerVersion.isEmpty && input.producerVersion.byteLength ≤ 256 &&
    (input.video.isSome || input.audio.isSome) && input.video.all RenderVideoInput.valid &&
    input.audio.all RenderAudioInput.valid

/-- `validatePublishedRenderInputs`: the inputs are in the order of their artifacts. -/
def validatePublishedRenderInputs (source : List RenderPlanInput)
    (requiredProfile : MaterialProfile) : Except RenderError Unit :=
  ensure (source.Pairwise (fun a b => a.artifactID < b.artifactID) ∧
    ∀ input ∈ source, input.valid requiredProfile) .planInvalid

/-- `validatePublishedRenderFonts`: the fonts are in the order of their names. -/
def validatePublishedRenderFonts (source : List RenderFontResource) : Except RenderError Unit :=
  ensure (source.Pairwise (fun a b => a.resourceID < b.resourceID) ∧
    ∀ font ∈ source, font.valid) .planInvalid

/-! ## Instructions -/

/-- A clip that is drawn. -/
structure RenderVideoInstruction where
  clipID : ID
  clipRevision : Revision
  trackID : ID
  trackRevision : Revision
  layer : Nat
  inputArtifactID : ID
  sourceStreamID : ID
  sourceRange : TimeRange
  timelineRange : TimeRange
  placement : RenderPlacement

/-- A clip that is heard. -/
structure RenderAudioInstruction where
  clipID : ID
  clipRevision : Revision
  trackID : ID
  trackRevision : Revision
  layer : Nat
  inputArtifactID : ID
  sourceStreamID : ID
  sourceRange : TimeRange
  timelineRange : TimeRange
  gainMilliDB : Int

/-- A caption that is set. -/
structure RenderCaptionInstruction where
  captionID : ID
  captionRevision : Revision
  trackID : ID
  trackRevision : Revision
  layer : Nat
  range : TimeRange
  language : CaptionLanguage
  text : Text
  style : RenderCaptionStyle

/-- What a plan is for. -/
inductive RenderPlanPurpose
  | sequencePreview
  | export

/-- The material that plans of the purpose read. -/
def RenderPlanPurpose.requiredProfile : RenderPlanPurpose → MaterialProfile
  | sequencePreview => .sourceProxy
  | «export» => .renderInput

/-- What plans of the purpose write. -/
def RenderPlanPurpose.output : RenderPlanPurpose → SequenceFormat → RationalTime →
    Except RenderError RenderOutputPolicy
  | sequencePreview => sequencePreviewOutput
  | «export» => sequenceExportOutput

/-- A render plan. -/
structure RenderPlanPayload where
  purpose : RenderPlanPurpose
  sequenceID : ID
  sequenceRevision : Revision
  sequenceFormat : SequenceFormat
  duration : RationalTime
  inputs : List RenderPlanInput
  video : List RenderVideoInstruction
  audio : List RenderAudioInstruction
  captions : List RenderCaptionInstruction
  fontResources : List RenderFontResource
  output : RenderOutputPolicy

/-! ## The checks of the instructions -/

/-- The time taken so far on each track (`lastByTrack`), and the latest of all. -/
structure Occupied where
  lastByTrack : Table ID RationalTime
  duration : RationalTime

/-- No time is taken. -/
def Occupied.none : Occupied := ⟨∅, 0⟩

/-- Take the range on the track: it must not begin before what is there ends. -/
def Occupied.place (occupied : Occupied) (trackID : ID) (range : TimeRange) :
    Except RenderError Occupied := do
  let stop ← need range.end? .planInvalid
  ensure (∀ last ∈ occupied.lastByTrack.find? trackID, last ≤ range.start) .planInvalid
  return ⟨occupied.lastByTrack.set trackID stop, laterRenderTime occupied.duration stop⟩

/-- Where an instruction stands: what `renderInstructionOrder` and the overlap check read
    of it. -/
structure InstructionPlace where
  layer : Nat
  id : ID
  trackID : ID
  range : TimeRange

/-- `renderInstructionOrdered`. -/
def InstructionPlace.ordered (previous : Option InstructionPlace) (current : InstructionPlace) :
    Bool :=
  match previous with
  | none => true
  | some previous =>
    if previous.layer ≠ current.layer then previous.layer < current.layer
    else previous.range.start < current.range.start ||
      (previous.range.start == current.range.start && previous.id < current.id)

/-- What the loop over the instructions keeps. -/
structure Published where
  occupied : Occupied
  previous : Option InstructionPlace

/-- One turn of the loop over the instructions. -/
def Published.step {α : Type} (place : α → InstructionPlace) (check : α → Bool)
    (published : Published) (instruction : α) : Except RenderError Published := do
  ensure (check instruction ∧ InstructionPlace.ordered published.previous (place instruction))
    .planInvalid
  let occupied ← published.occupied.place (place instruction).trackID (place instruction).range
  return ⟨occupied, some (place instruction)⟩

/-- The loop over the instructions: their latest end. -/
def validatePublished {α : Type} (place : α → InstructionPlace) (check : α → Bool)
    (source : List α) : Except RenderError RationalTime := do
  let published ← source.foldlM (Published.step place check) ⟨.none, none⟩
  return published.occupied.duration

/-- Where a video instruction stands. -/
def RenderVideoInstruction.place (instruction : RenderVideoInstruction) : InstructionPlace :=
  ⟨instruction.layer, instruction.clipID, instruction.trackID, instruction.timelineRange⟩

/-- Where an audio instruction stands. -/
def RenderAudioInstruction.place (instruction : RenderAudioInstruction) : InstructionPlace :=
  ⟨instruction.layer, instruction.clipID, instruction.trackID, instruction.timelineRange⟩

/-- Where a caption instruction stands. -/
def RenderCaptionInstruction.place (instruction : RenderCaptionInstruction) : InstructionPlace :=
  ⟨instruction.layer, instruction.captionID, instruction.trackID, instruction.range⟩

/-- What `validatePublishedRenderVideo` checks of each instruction but its placement. -/
def RenderVideoInstruction.wellFormed (instruction : RenderVideoInstruction)
    (inputs : List RenderPlanInput) : Bool :=
  ((inputs.find? fun input => input.artifactID == instruction.inputArtifactID).bind
      (·.video)).any (fun video => video.sourceStreamID == instruction.sourceStreamID) &&
    instruction.clipRevision != 0 && instruction.trackRevision != 0 &&
    validatePositiveRange instruction.sourceRange false &&
    validatePositiveRange instruction.timelineRange true &&
    instruction.sourceRange.duration == instruction.timelineRange.duration

/-- What `validatePublishedRenderVideo` checks of each instruction. -/
def RenderVideoInstruction.valid (inputs : List RenderPlanInput)
    (instruction : RenderVideoInstruction) : Bool :=
  instruction.wellFormed inputs && decide instruction.placement.Valid

/-- What `validatePublishedRenderAudio` checks of each instruction. -/
def RenderAudioInstruction.valid (inputs : List RenderPlanInput)
    (instruction : RenderAudioInstruction) : Bool :=
  ((inputs.find? fun input => input.artifactID == instruction.inputArtifactID).bind
      (·.audio)).any (fun audio => audio.sourceStreamID == instruction.sourceStreamID) &&
    instruction.clipRevision != 0 && instruction.trackRevision != 0 &&
    validatePositiveRange instruction.sourceRange false &&
    validatePositiveRange instruction.timelineRange true &&
    -96000 ≤ instruction.gainMilliDB && instruction.gainMilliDB ≤ 24000 &&
    instruction.sourceRange.duration == instruction.timelineRange.duration

/-- What `validatePublishedRenderCaptions` checks of each instruction but its text. -/
def RenderCaptionInstruction.wellFormed (instruction : RenderCaptionInstruction)
    (fonts : List RenderFontResource) : Bool :=
  instruction.captionRevision != 0 && instruction.trackRevision != 0 &&
    validatePositiveRange instruction.range true && instruction.style.valid fonts

/-- What `validatePublishedRenderCaptions` checks of each instruction. -/
def RenderCaptionInstruction.valid (fonts : List RenderFontResource)
    (instruction : RenderCaptionInstruction) : Bool :=
  instruction.wellFormed fonts && validCaptionText instruction.text

variable (plan : RenderPlanPayload)

/-- The inputs that the instructions of the plan read (`used`). -/
def RenderPlanPayload.usedInputs : List ID :=
  (plan.video.map (·.inputArtifactID) ++ plan.audio.map (·.inputArtifactID)).dedup

/-- The fonts that the captions of the plan are set in (`usedFonts`). -/
def RenderPlanPayload.usedFonts : List Text := (plan.captions.map (·.style.fontResourceID)).dedup

/-- The latest end of an instruction of the plan, which is refused unless all its
    instructions are valid. -/
def RenderPlanPayload.instructionDuration : Except RenderError RationalTime := do
  let video ← validatePublished RenderVideoInstruction.place
    (RenderVideoInstruction.valid plan.inputs) plan.video
  let audio ← validatePublished RenderAudioInstruction.place
    (RenderAudioInstruction.valid plan.inputs) plan.audio
  let captions ← validatePublished RenderCaptionInstruction.place
    (RenderCaptionInstruction.valid plan.fontResources) plan.captions
  return laterRenderTime (laterRenderTime video audio) captions

/-- `validateRenderPlanPayload`. -/
def validateRenderPlanPayload : Except RenderError Unit := do
  ensure (plan.sequenceRevision ≠ 0 ∧ plan.sequenceFormat.valid ∧ plan.duration.isPositive ∧
    plan.inputs.length ≤ maximumRenderPlanItems ∧ plan.video.length ≤ maximumRenderPlanItems ∧
    plan.audio.length ≤ maximumRenderPlanItems ∧ plan.captions.length ≤ maximumRenderPlanItems ∧
    plan.fontResources.length ≤ maximumRenderPlanItems) .planInvalid
  let expectedOutput ← refuseAs (plan.purpose.output plan.sequenceFormat plan.duration) .planInvalid
  ensure (plan.output = expectedOutput) .planInvalid
  validatePublishedRenderInputs plan.inputs plan.purpose.requiredProfile
  validatePublishedRenderFonts plan.fontResources
  let duration ← plan.instructionDuration
  ensure (duration = plan.duration ∧ plan.usedInputs.length = plan.inputs.length ∧
    plan.usedFonts.length = plan.fontResources.length) .planInvalid

end OpenCut
