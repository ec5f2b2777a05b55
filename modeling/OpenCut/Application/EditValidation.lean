import OpenCut.Application.EditInput
import OpenCut.Lib.Outcome
import OpenCut.Lib.Table
import OpenCut.Lib.Unicode

/-!
# Validation of edit requests

`application/edits_validation*.go` and the allocation check of
`edit_normalize_helpers.go`: what is checked of a request before any state is
looked at. `validateEditProposeInput` goes over the request in the order of the
source, so that the first fault is the one that is reported.
-/

namespace OpenCut

open Outcome

/-! ## Values -/

/-- `MaximumAuthoredTextBytes`. -/
def maximumAuthoredTextBytes : Nat := 262144

/-- `MaximumEditIntentBytes`. -/
def maximumEditIntentBytes : Nat := 4000

/-- `ParseLocalID`: a lower-case letter, then letters, digits, `_` and `-`; at
    most 64 of them. -/
def validLocalID (value : LocalID) : Bool :=
  match value with
  | [] => false
  | first :: rest =>
    'a' ≤ first && first ≤ 'z' && rest.length ≤ 63 &&
      rest.all fun c => ('a' ≤ c && c ≤ 'z') || ('0' ≤ c && c ≤ '9') || c == '_' || c == '-'

/-- An ASCII letter or digit. -/
def isAlphanumeric (c : Char) : Bool :=
  ('A' ≤ c && c ≤ 'Z') || ('a' ≤ c && c ≤ 'z') || ('0' ≤ c && c ≤ '9')

/-- `ParseRequestID`. -/
def validRequestID (value : RequestID) : Bool :=
  match value with
  | [] => false
  | first :: rest =>
    isAlphanumeric first && rest.length ≤ 127 &&
      rest.all fun c => isAlphanumeric c || c == '.' || c == '_' || c == ':' || c == '-'

/-- `validText`. -/
def validText (value : Text) : Bool := !value.isEmpty && value.byteLength ≤ maximumAuthoredTextBytes

/-- `validCorrectionText`: the text has no white space around it. -/
def validCorrectionText (value : Text) : Bool := validText value && Unicode.trimSpace value == value

/-- `validateEditIntent`. -/
def validEditIntent (value : Text) (optional : Bool) : Bool :=
  (value.isEmpty && optional) || (!value.isEmpty && value.byteLength ≤ maximumEditIntentBytes)

/-- `validSourceRange`: a source range may start before zero. -/
def validSourceRange (range : TimeRange) : Bool := range.duration.isPositive && range.end?.isSome

/-- `validRange`. -/
def validRange (range : TimeRange) : Bool := !range.start.isNegative && validSourceRange range

/-- `validTime`. -/
def validTime (time : RationalTime) : Bool := !time.isNegative

/-- `validTranscriptSegmentIDs`. -/
def validTranscriptSegmentIDs (ids : List ID) : Bool :=
  1 ≤ ids.length && ids.length ≤ 256 && ids.Nodup

/-- `validCorrectionRefs`. -/
def validCorrectionRefs (refs : List TranscriptCorrectionReferenceInput) : Bool :=
  refs.length ≤ 256 && (refs.map (·.correction)).Nodup

/-- The type of an alignment target on the wire. -/
def AlignmentTargetInput.typeRank : AlignmentTargetInput → Nat
  | .caption .. => 0
  | .clip .. => 1
  | .timeline .. => 2

/-- `validAlignmentTargetInputs`. -/
def validAlignmentTargetInputs (targets : List AlignmentTargetInput) : Bool :=
  1 ≤ targets.length && targets.length ≤ 64 && targets.all fun target =>
      some target.typeRank == targets.head?.map (·.typeRank) && match target with
        | .caption _ localRange => validRange localRange
        | .clip _ localRange => validRange localRange
        | .timeline range sequenceRevision => validRange range && 1 ≤ sequenceRevision

/-- `validDerivedCaptionOutputs`. -/
def validDerivedCaptionOutputs (outputs : List DerivedCaptionOutputInput) : Bool :=
  1 ≤ outputs.length && outputs.length ≤ 128 &&
    (outputs.flatMap fun output => [output.captionAs, output.alignmentAs]).Nodup &&
    outputs.all fun output =>
      validLocalID output.captionAs && validLocalID output.alignmentAs &&
        validSourceRange output.sourceRange && validRange output.timelineRange &&
        validCorrectionText output.text

/-- `validSplitOutputs`. -/
def validSplitOutputs (outputs : List ClipSplitOutputInput) : Bool :=
  1 ≤ outputs.length && outputs.length ≤ 64 && (outputs.map (·.clip)).Nodup &&
    (outputs.flatMap fun output => [output.leftAs, output.rightAs]).Nodup &&
    outputs.all fun output => validLocalID output.leftAs && validLocalID output.rightAs

/-- `validateRoughCutOperation`. -/
def validRoughCutDerivation (derivation : RoughCutDerivation) : Bool :=
  derivation.policy == paperEditRoughCutPolicyV1 && validTime derivation.timelineStart &&
    derivation.localPrefix.byteLength ≤ 40 && 1 ≤ derivation.items.length &&
    derivation.items.length ≤ 128 && derivation.outputs.length == derivation.items.length &&
    validLocalID derivation.localPrefix &&
    (derivation.items.all fun item => item.video.isSome || item.audio.isSome) &&
    derivation.outputs.all fun output =>
      validSourceRange output.sourceRange && validRange output.timelineRange &&
        (output.video.isSome || output.audio.isSome) &&
        (output.video.all fun lane => validLocalID lane.clipAs) &&
        (output.audio.all fun lane => validLocalID lane.clipAs) &&
        validLocalID output.alignmentAs &&
        (output.video.isSome && output.audio.isSome) == output.linkGroupAs.isSome &&
        output.linkGroupAs.all validLocalID

/-! ## Operations -/

namespace EditOperationInput

/-- `validateEditOperation`. -/
def valid : EditOperationInput → Bool
  | insertNarrativeNode _ _ _ writing => validText writing.text
  | updateNarrativeNode _ writing => validText writing.text
  | moveNarrativeNode .. => true
  | removeNarrativeNode _ => true
  | insertSourceExcerpt _ _ _ _ _ _ segmentIDs corrections sourceRange _ =>
    validTranscriptSegmentIDs segmentIDs && validCorrectionRefs corrections &&
      validSourceRange sourceRange
  | addTranscriptCorrection _ _ _ segmentIDs sourceRange _ text =>
    validSourceRange sourceRange && validTranscriptSegmentIDs segmentIDs && validCorrectionText text
  | updateTranscriptCorrection _ _ text => validCorrectionText text
  | removeTranscriptCorrection _ => true
  | addCaption _ _ range _ text => validRange range && validText text
  | updateCaption _ range _ text => validRange range && validText text
  | removeCaption _ => true
  | deriveCaptions _ _ _ policy outputs => policy.Valid && validDerivedCaptionOutputs outputs
  | deriveRoughCut derivation _ => validRoughCutDerivation derivation
  | addClip _ _ _ _ sourceRange timelineRange _ _ =>
    validSourceRange sourceRange && validRange timelineRange
  | moveClip _ _ _ timelineStart => validTime timelineStart
  | trimClip _ _ sourceRange timelineRange =>
    validSourceRange sourceRange && validRange timelineRange
  | splitClip _ scope splitAt outputs left right =>
    validTime splitAt && validSplitOutputs outputs && match scope with
      | .single => outputs.length == 1 && left.isNone && right.isNone
      | .linked => 2 ≤ outputs.length && left.isSome && right.isSome && left != right
  | removeClip .. => true
  | setClipPlacement _ placement => placement.all fun p => decide p.Valid
  | linkClips _ clips => 2 ≤ clips.length && clips.length ≤ 64 && clips.Nodup
  | unlinkClips _ => true
  | bindAlignment _ _ targets => validAlignmentTargetInputs targets
  | remapAlignment _ targets => validAlignmentTargetInputs targets
  | markAlignmentStale _ => true
  | unbindAlignment _ => true

/-- The type of the operation on the wire. -/
def typeName : EditOperationInput → String
  | insertNarrativeNode _ _ _ (.section ..) => "insert-section"
  | insertNarrativeNode _ _ _ (.authoredText ..) => "insert-authored-text"
  | insertNarrativeNode _ _ _ (.visualIntent ..) => "insert-visual-intent"
  | insertNarrativeNode _ _ _ (.note ..) => "insert-note"
  | updateNarrativeNode _ (.section ..) => "update-section"
  | updateNarrativeNode _ (.authoredText ..) => "update-authored-text"
  | updateNarrativeNode _ (.visualIntent ..) => "update-visual-intent"
  | updateNarrativeNode _ (.note ..) => "update-note"
  | moveNarrativeNode .. => "move-narrative-node"
  | removeNarrativeNode _ => "remove-narrative-node"
  | insertSourceExcerpt .. => "insert-source-excerpt"
  | addTranscriptCorrection .. => "add-transcript-correction"
  | updateTranscriptCorrection .. => "update-transcript-correction"
  | removeTranscriptCorrection _ => "remove-transcript-correction"
  | addCaption .. => "add-caption"
  | updateCaption .. => "update-caption"
  | removeCaption _ => "remove-caption"
  | deriveCaptions .. => "derive-captions"
  | deriveRoughCut .. => "derive-rough-cut"
  | addClip .. => "add-clip"
  | moveClip .. => "move-clip"
  | trimClip .. => "trim-clip"
  | splitClip .. => "split-clip"
  | removeClip .. => "remove-clip"
  | setClipPlacement .. => "set-clip-placement"
  | linkClips .. => "link-clips"
  | unlinkClips _ => "unlink-clips"
  | bindAlignment .. => "bind-alignment"
  | remapAlignment .. => "remap-alignment"
  | markAlignmentStale _ => "mark-alignment-stale"
  | unbindAlignment _ => "unbind-alignment"

/-- `operationShapeHint`. -/
def shapeHint : EditOperationInput → String
  | moveClip .. => "; move-clip requires clip, scope (linked|single), trackId, and " ++
      "timelineStart, with no range fields"
  | trimClip .. => "; trim-clip requires clip, scope (linked|single), sourceRange, and " ++
      "timelineRange, with no trackId or timelineStart"
  | splitClip .. => "; split-clip requires clip, scope (linked|single), splitAt, and " ++
      "splitOutputs (linked scope also needs leftLinkGroupAs/rightLinkGroupAs)"
  | removeClip .. => "; remove-clip requires clip and scope (linked|single) only"
  | addCaption .. => "; add-caption requires createAs, trackId, range, language, and text"
  | updateCaption .. =>
    "; update-caption requires captionId, range, language, and text, with no trackId"
  | removeCaption _ => "; remove-caption requires captionId only"
  | setClipPlacement .. => "; set-clip-placement requires clip (by id) and an optional complete " ++
      "placement; omitting placement resets to identity"
  | unbindAlignment _ => "; unbind-alignment requires alignmentId only"
  | markAlignmentStale _ => "; mark-alignment-stale requires alignmentId only"
  | _ => ""

/-- The local names of an output of a rough cut. The source lets an output use a
    name twice here and refuses it when identities are allocated, as malformed too. -/
def roughCutLocals (output : DerivedRoughCutOutputInput) : List (LocalID × EditEntityKind) :=
  (output.alignmentAs, .alignment) ::
    ((output.video.toList ++ output.audio.toList).map fun lane => (lane.clipAs, .clip)) ++
    output.linkGroupAs.toList.map fun name => (name, .linkGroup)

/-- The local names that the operation creates, in the order in which identities
    are allocated for them (`allocateProposal`). -/
def createdLocals : EditOperationInput → List (LocalID × EditEntityKind)
  | insertNarrativeNode createAs .. => [(createAs, .narrativeNode)]
  | insertSourceExcerpt createAs .. => [(createAs, .narrativeNode)]
  | addTranscriptCorrection createAs .. => [(createAs, .transcriptCorrection)]
  | addCaption createAs .. => [(createAs, .caption)]
  | deriveCaptions _ _ _ _ outputs =>
    outputs.flatMap fun output => [(output.captionAs, .caption), (output.alignmentAs, .alignment)]
  | deriveRoughCut derivation _ => derivation.outputs.flatMap roughCutLocals
  | addClip createAs _ _ _ _ _ _ (some (.create group)) => [(createAs, .clip), (group, .linkGroup)]
  | addClip createAs .. => [(createAs, .clip)]
  | splitClip _ _ _ outputs left right =>
    ((left.toList ++ right.toList).map fun name => (name, .linkGroup)) ++
      outputs.flatMap fun output => [(output.leftAs, .clip), (output.rightAs, .clip)]
  | linkClips createLinkGroupAs _ => [(createLinkGroupAs, .linkGroup)]
  | bindAlignment createAs .. => [(createAs, .alignment)]
  | _ => []

/-- The references of the operation, each with the kind it must have. -/
def references : EditOperationInput → List (EditReference × EditEntityKind)
  | insertNarrativeNode _ _ after _ => after.toList.map fun ref => (ref, .narrativeNode)
  | moveNarrativeNode _ _ after => after.toList.map fun ref => (ref, .narrativeNode)
  | insertSourceExcerpt _ _ after _ _ _ _ corrections _ _ =>
    (after.toList.map fun ref => (ref, .narrativeNode)) ++
      corrections.map fun ref => (ref.correction, .transcriptCorrection)
  | addClip _ _ _ _ _ _ _ (some (.existing group)) => [(group, .linkGroup)]
  | bindAlignment _ node targets => (node, .narrativeNode) :: targets.flatMap targetReferences
  | remapAlignment _ targets => targets.flatMap targetReferences
  | _ => []
where
  /-- The reference of an alignment target. -/
  targetReferences : AlignmentTargetInput → List (EditReference × EditEntityKind)
    | .caption caption _ => [(caption, .caption)]
    | .clip clip _ => [(clip, .clip)]
    | .timeline .. => []

/-- The corrections of an excerpt are stored ones at a revision, or created ones
    without. -/
def validCorrectionRevisions : EditOperationInput → Bool
  | insertSourceExcerpt _ _ _ _ _ _ _ corrections _ _ => corrections.all fun ref =>
    match ref.correction, ref.revision with
    | .byID _, some revision => 1 ≤ revision
    | .byID _, none => false
    | .byLocal _, revision => revision.isNone
  | _ => true

/-- The edge of a node that is inserted after one that the request inserts too. -/
def afterEdge : EditOperationInput → Option (LocalID × LocalID)
  | insertNarrativeNode createAs _ (some (.byLocal after)) _ => some (createAs, after)
  | insertSourceExcerpt createAs _ (some (.byLocal after)) .. => some (createAs, after)
  | _ => none

end EditOperationInput

/-! ## Requests -/

variable (created : Table LocalID EditEntityKind)

/-- `validateReference`. -/
def validReference (reference : EditReference × EditEntityKind) : Bool :=
  match reference with
  | (.byID _, _) => true
  | (.byLocal name, kind) => validLocalID name && created.find? name == some kind

/-- Whether following the edges from a node meets a node of `seen` or one twice. -/
def meetsAgain (edges : Table LocalID LocalID) : Nat → List LocalID → LocalID → Bool
  | 0, _, _ => false
  | fuel + 1, seen, node =>
    node ∈ seen || match edges.find? node with
      | some next => meetsAgain edges fuel (node :: seen) next
      | none => false

/-- `hasLocalReferenceCycle`: a node has one edge at most, so a cycle is met by
    following the edges from each node; one edge more than there are is enough. -/
def hasLocalReferenceCycle (edges : Table LocalID LocalID) : Bool :=
  edges.rows.any fun (node, _) => meetsAgain edges (edges.rows.length + 1) [] node

/-- Names a local of an operation; every name is new. -/
def createLocal (named : LocalID × EditEntityKind) :
    Except EditError (Table LocalID EditEntityKind) := do
  ensure (validLocalID named.1 ∧ created.find? named.1 = none) errEditInvalid
  return created.set named.1 named.2

variable (indexed : EditOperationInput × Nat)

/-- The checks of one operation, and the names it creates. -/
def validateOperationAt : Except EditError (Table LocalID EditEntityKind) := do
  let (operation, index) := indexed
  ensure operation.valid (.invalid
    s!"operation {index} ({operation.typeName}) is malformed{operation.shapeHint}")
  operation.createdLocals.foldlM createLocal created

/-- The checks of one precondition after those before it. -/
def validatePrecondition (seen : List EntityKey) (precondition : EntityPrecondition) :
    Except EditError (List EntityKey) := do
  let kind := precondition.key.kind.name
  let id := precondition.key.id.text
  ensure (1 ≤ precondition.revision) (.invalid s!"precondition on {kind} \"{id}\" is malformed")
  ensure (precondition.key ∉ seen) (.invalid s!"duplicate precondition on {kind} \"{id}\"")
  return precondition.key :: seen

/-- The checks of the references of one operation. -/
def validateEditReferences : Except EditError Unit :=
  let (operation, index) := indexed
  ensure (operation.references.all (validReference created) && operation.validCorrectionRevisions)
    (.invalid
      s!"operation {index} ({operation.typeName}) references an unknown or mistyped local id")

/-- `validateEditProposeInput`. -/
def validateEditProposeInput (input : EditProposeInput) : Except EditError Unit := do
  ensure (validRequestID input.requestID) (.invalid "requestId is missing or malformed")
  ensure (validEditIntent input.intent false)
    (.invalid "intent is missing or exceeds its length bound")
  ensure (1 ≤ input.baseProjectRevision)
    (.invalid "baseProjectRevision must be a positive revision")
  let operations := input.operations.length
  ensure (1 ≤ operations ∧ operations ≤ 512)
    (.invalid s!"a proposal carries 1 to 512 operations, got {operations}")
  let preconditions := input.preconditions.length
  ensure (preconditions ≤ 2048)
    (.invalid s!"a proposal carries at most 2048 preconditions, got {preconditions}")
  let _ ← input.preconditions.foldlM validatePrecondition []
  let created ← input.operations.zipIdx.foldlM validateOperationAt ∅
  ensure (created.rows.length ≤ 1024) errEditInvalid
  input.operations.zipIdx.forM (validateEditReferences created)
  let edges := (input.operations.filterMap (·.afterEdge)).foldl
    (fun edges (node, after) => edges.set node after) ∅
  ensure (!hasLocalReferenceCycle edges) (.invalid "operations form an `after` reference cycle")

/-- `validateAllocationMatchesOperations`. -/
def validateAllocationMatchesOperations (allocation : List LocalAllocation)
    (operations : List EditOperationInput) : Except EditError Unit := do
  let expected := (operations.flatMap (·.createdLocals)).foldl
    (fun expected (name, kind) => expected.set name kind) (∅ : Table LocalID EditEntityKind)
  ensure (expected.rows.length = allocation.length) errEditInvalid
  ensure (∀ current ∈ allocation, expected.find? current.localID = some current.kind) errEditInvalid

end OpenCut
