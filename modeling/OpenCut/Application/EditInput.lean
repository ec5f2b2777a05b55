import OpenCut.Domain.Edit

/-!
# Edit requests

`application/edits.go`: what a writer asks for. The source has one record for all
operations, with an optional field for everything any of them needs, and refuses
a record that misses a field of its type or has one of another type
(`validateEditOperation`). Here an operation is an inductive type and such records
do not exist; references that the source only admits by identity are identities.
-/

namespace OpenCut

/-! ## Errors -/

/-- Why a request was refused. A malformed request has no reason. -/
inductive EditError
  | invalid (reason : String)
  | conflict (detail : String)
  | staleTurn
  | proposalNotFound
  | proposalStale
  | proposalTerminal
  | transactionNotFound
  | requestReused
  | projectVersionNotFound
  | projectVersionInvalid
  | projectVersionRequestReused
  | assetInvalid
  | assetConflict
  | mediaLeaseLost
  | runNotFound
  /-- A constraint of the database refuses a write. -/
  | storage
deriving DecidableEq

/-- `ErrEditInvalid`. -/
def errEditInvalid : EditError := .invalid ""

/-- `ErrEditConflict`. -/
def errEditConflict : EditError := .conflict ""

/-! ## References -/

/-- A stored entity by its identity, or one that the same request creates by its
    local name. -/
inductive EditReference
  | byID (id : ID)
  | byLocal (name : LocalID)
deriving DecidableEq

/-- The identity, if the reference gives one. -/
def EditReference.id? : EditReference → Option ID
  | .byID id => some id
  | .byLocal _ => none

/-- A correction that an excerpt relies on: a stored one at a revision, or one
    that the same request creates. -/
structure TranscriptCorrectionReferenceInput where
  correction : EditReference
  revision : Option Revision

/-- What an alignment is bound to. -/
inductive AlignmentTargetInput
  | caption (caption : EditReference) (localRange : TimeRange)
  | clip (clip : EditReference) (localRange : TimeRange)
  | timeline (range : TimeRange) (sequenceRevision : Revision)

/-! ## Operations -/

/-- What a writing operation says, by the kind of its node. -/
inductive NarrativeWriting
  | section (title : Text) (language : CaptionLanguage)
  | authoredText (purpose : AuthoredTextPurpose) (language : CaptionLanguage) (text : Text)
  | visualIntent (purpose : VisualIntentPurpose) (language : CaptionLanguage) (description : Text)
  | note (language : CaptionLanguage) (text : Text)

/-- The node value that says it. -/
def NarrativeWriting.value : NarrativeWriting → NarrativeNodeValue
  | .section title language => .section title language
  | .authoredText purpose language text => .authoredText purpose language text
  | .visualIntent purpose language description => .visualIntent purpose language description
  | .note language text => .note language text

/-- The text of the writing. -/
def NarrativeWriting.text : NarrativeWriting → Text
  | .section title _ => title
  | .authoredText _ _ text => text
  | .visualIntent _ _ description => description
  | .note _ text => text

/-- A caption that a derivation is expected to give. -/
structure DerivedCaptionOutputInput where
  captionAs : LocalID
  alignmentAs : LocalID
  sourceRange : TimeRange
  timelineRange : TimeRange
  text : Text

/-- Whether an operation on a clip also acts on the clips linked to it. -/
inductive ClipMutationScope
  | linked
  | single
deriving DecidableEq

/-- The two halves of a clip that is split. -/
structure ClipSplitOutputInput where
  clip : ID
  leftAs : LocalID
  rightAs : LocalID

/-- The link group of a clip that is added: a new one, or one that exists. -/
inductive ClipLinkGroupInput
  | create (localID : LocalID)
  | existing (group : EditReference)

/-- The track and the stream of a lane of a rough cut. -/
structure RoughCutLaneBindingInput where
  trackID : ID
  sourceStreamID : ID
deriving DecidableEq

/-- A source excerpt to be laid on the timeline. -/
structure RoughCutDerivationItemInput where
  sourceExcerptID : ID
  video : Option RoughCutLaneBindingInput
  audio : Option RoughCutLaneBindingInput
deriving DecidableEq

/-- A clip that a rough cut is expected to give. -/
structure DerivedRoughCutLaneOutputInput where
  clipAs : LocalID
  trackID : ID
  sourceStreamID : ID
deriving DecidableEq

/-- What a rough cut is expected to give for an excerpt. -/
structure DerivedRoughCutOutputInput where
  sourceExcerptID : ID
  sourceRange : TimeRange
  timelineRange : TimeRange
  video : Option DerivedRoughCutLaneOutputInput
  audio : Option DerivedRoughCutLaneOutputInput
  linkGroupAs : Option LocalID
  alignmentAs : LocalID
deriving DecidableEq

/-- How a rough cut is laid out. -/
structure RoughCutDerivationPolicy where
  id : String
  ordering : String
  interExcerptGap : RationalTime
  sourceHandles : String
  rate : String
  overwrite : String
  avGrouping : String
deriving DecidableEq

/-- `PaperEditRoughCutPolicyV1`: the only policy that passes `Validate`. -/
def paperEditRoughCutPolicyV1 : RoughCutDerivationPolicy where
  id := "paper-edit-rough-cut-v1"
  ordering := "request-order"
  interExcerptGap := 0
  sourceHandles := "zero"
  rate := "1:1"
  overwrite := "forbidden"
  avGrouping := "one-link-group-per-two-lane-excerpt"

/-- Everything that the digest of a rough cut is taken over
    (`roughCutOperationDigest`). A digest of it is represented by it. -/
structure RoughCutDerivation where
  policy : RoughCutDerivationPolicy
  timelineStart : RationalTime
  localPrefix : LocalID
  items : List RoughCutDerivationItemInput
  outputs : List DerivedRoughCutOutputInput
deriving DecidableEq

/-- An operation of an edit request. -/
inductive EditOperationInput
  | insertNarrativeNode (createAs : LocalID) (parentID : ID) (after : Option EditReference)
      (writing : NarrativeWriting)
  | updateNarrativeNode (nodeID : ID) (writing : NarrativeWriting)
  | moveNarrativeNode (nodeID parentID : ID) (after : Option EditReference)
  | removeNarrativeNode (nodeID : ID)
  | insertSourceExcerpt (createAs : LocalID) (parentID : ID) (after : Option EditReference)
      (assetID : ID) (acceptedFingerprint : Digest) (artifactID : ID) (segmentIDs : List ID)
      (corrections : List TranscriptCorrectionReferenceInput) (sourceRange : TimeRange)
      (language : CaptionLanguage)
  | addTranscriptCorrection (createAs : LocalID) (artifactID assetID : ID) (segmentIDs : List ID)
      (sourceRange : TimeRange) (language : CaptionLanguage) (text : Text)
  | updateTranscriptCorrection (correctionID : ID) (language : CaptionLanguage) (text : Text)
  | removeTranscriptCorrection (correctionID : ID)
  | addCaption (createAs : LocalID) (trackID : ID) (range : TimeRange)
      (language : CaptionLanguage) (text : Text)
  | updateCaption (captionID : ID) (range : TimeRange) (language : CaptionLanguage) (text : Text)
  | removeCaption (captionID : ID)
  | deriveCaptions (nodeID clipID trackID : ID) (policy : CaptionDerivationPolicy)
      (outputs : List DerivedCaptionOutputInput)
  | deriveRoughCut (derivation outputDigest : RoughCutDerivation)
  | addClip (createAs : LocalID) (trackID assetID sourceStreamID : ID)
      (sourceRange timelineRange : TimeRange) (enabled : Bool)
      (linkGroup : Option ClipLinkGroupInput)
  | moveClip (clipID : ID) (scope : ClipMutationScope) (trackID : ID) (timelineStart : RationalTime)
  | trimClip (clipID : ID) (scope : ClipMutationScope) (sourceRange timelineRange : TimeRange)
  | splitClip (clipID : ID) (scope : ClipMutationScope) (splitAt : RationalTime)
      (outputs : List ClipSplitOutputInput) (leftLinkGroupAs rightLinkGroupAs : Option LocalID)
  | removeClip (clipID : ID) (scope : ClipMutationScope)
  | setClipPlacement (clipID : ID) (placement : Option ClipPlacement)
  | linkClips (createLinkGroupAs : LocalID) (clips : List ID)
  | unlinkClips (linkGroupID : ID)
  | bindAlignment (createAs : LocalID) (narrativeNode : EditReference)
      (targets : List AlignmentTargetInput)
  | remapAlignment (alignmentID : ID) (targets : List AlignmentTargetInput)
  | markAlignmentStale (alignmentID : ID)
  | unbindAlignment (alignmentID : ID)

/-- A request to edit. -/
structure EditProposeInput where
  requestID : RequestID
  intent : Text
  baseProjectRevision : Revision
  preconditions : List EntityPrecondition
  operations : List EditOperationInput

end OpenCut
