import OpenCut.Application.NormalizeClips
import OpenCut.Application.NormalizeTranscript

/-!
# Captions derived from a transcript

`application/edit_normalize_caption_derivation.go`: the words of a source excerpt are
grouped into captions that can be read, and placed where a clip shows the excerpt.
The request states the captions it expects, and each one is put together with an
alignment from the excerpt to it.

Lines are measured in grapheme clusters, which the source counts with the package
`uniseg`; the count is a parameter here (`Uniseg`).
-/

namespace OpenCut

open Outcome

/-- What the source takes from the package `uniseg`. -/
class Uniseg where
  /-- `uniseg.GraphemeClusterCount`. -/
  graphemeClusterCount : Text → Nat

/-- Every rune is a cluster. -/
@[reducible]
def runeClusters : Uniseg := ⟨List.length⟩

open Uniseg

/-- A caption that a derivation gives. -/
structure CaptionDerivationCue where
  sourceRange : TimeRange
  timelineRange : TimeRange
  /-- `none` is the zero range, which is not a valid one. -/
  evidenceSourceRange : Option TimeRange
  text : Text
  segmentIDs : List ID
  correctionRevisions : List TranscriptCorrectionRevisionRef

variable (units : List EvidenceUnit)

/-- `joinCaptionUnits`. -/
def joinCaptionUnits : Text := Unicode.trimSpace (units.foldl EvidenceUnit.appendTo [])

/-- The second unit may start a line after the first. -/
def captionWordBoundary (previous unit : EvidenceUnit) : Bool :=
  previous.text.getLast?.any Unicode.isSpace || unit.text.head?.any Unicode.isSpace ||
    (unit.ensureBoundary && needsTranscriptSpace previous.text unit.text)

/-- `lastCaptionWordBoundary`: the last place for a line break, or `0`. -/
def lastCaptionWordBoundary : Nat :=
  let boundaries := ((units.zip units.tail).zipIdx 1).filter fun ((previous, unit), _) =>
    captionWordBoundary previous unit
  (boundaries.getLast?.map Prod.snd).getD 0

/-- `captionUnitEndsTerminal`. -/
def captionUnitEndsTerminal (unit : EvidenceUnit) : Bool :=
  (Unicode.trimSpace unit.text).getLast?.any fun last =>
    ['.', '!', '?', '。', '！', '？', '…'].contains last

/-- `captionGroupEvidence`. -/
def captionGroupEvidence (segments : List EditTranscriptSegmentState) (group : List EvidenceUnit) :
    List ID × List TranscriptCorrectionRevisionRef :=
  let segmentIDs := group.flatMap fun unit =>
    match unit.correction with
    | some correction => correction.segmentIDs
    | none => ((segments.find? fun s => s.ordinal == unit.segmentOrdinal).map (·.id)).toList
  let corrections := group.filterMap (·.correction)
  (segmentIDs.eraseDups, (correctionRevisionRefs corrections).eraseDups)

section

variable [Uniseg] (policy : CaptionDerivationPolicy)
  (state : List (List EvidenceUnit) × List EvidenceUnit) (unit : EvidenceUnit)

/-- One unit of `wrapCaptionUnits`: on the line, or on the next one. -/
def wrapCaptionUnit : Option (List (List EvidenceUnit) × List EvidenceUnit) :=
  let (lines, current) := state
  let candidate := current ++ [unit]
  if graphemeClusterCount (joinCaptionUnits candidate) ≤ policy.maximumLineGraphemes then
    some (lines, candidate)
  else
    let breakIndex := lastCaptionWordBoundary candidate
    let lines := lines ++ [candidate.take breakIndex]
    let current := candidate.drop breakIndex
    if breakIndex = 0 ∨ policy.maximumLines ≤ lines.length ∨
        policy.maximumLineGraphemes < graphemeClusterCount (joinCaptionUnits current) then
      none
    else
      some (lines, current)

/-- `wrapCaptionUnits`: the text of a caption, in lines. -/
def wrapCaptionUnits (units : List EvidenceUnit) : Option Text := do
  let (lines, current) ← units.foldlM (wrapCaptionUnit policy) ([], [])
  let lines := if current.isEmpty then lines else lines ++ [current]
  guard (1 ≤ lines.length ∧ lines.length ≤ policy.maximumLines)
  let value : Text := ['\n'].intercalate (lines.map joinCaptionUnits)
  guard (value ≠ [] ∧ value.byteLength ≤ maximumAuthoredTextBytes)
  return value

/-- Whether a unit starts a new caption after the units of the last one. -/
def breakBefore (current : List EvidenceUnit) (unit : EvidenceUnit) : Option Bool :=
  match current.head?, current.getLast? with
  | some first, some previous => do
    let previousEnd ← previous.range.end?
    let gap ← unit.range.start.subtract? previousEnd
    guard (!gap.isNegative)
    -- The errors of the durations are ignored, and a time that is not valid compares as equal.
    let candidateDuration := unit.range.end?.bind (·.subtract? first.range.start)
    let currentDuration := previousEnd.subtract? first.range.start
    return policy.maximumGap < gap || candidateDuration.any (policy.maximumDuration < ·) ||
      (captionUnitEndsTerminal previous && currentDuration.all (policy.minimumDuration ≤ ·)) ||
      (wrapCaptionUnits policy (current ++ [unit])).isNone
  | _, _ => some false

/-- One unit of `groupCaptionUnits`. -/
def groupCaptionUnit : Option (List (List EvidenceUnit) × List EvidenceUnit) := do
  let (groups, current) := state
  guard (graphemeClusterCount (Unicode.trimSpace unit.text) ≤ policy.maximumLineGraphemes)
  let breaks ← breakBefore policy current unit
  let (groups, current) := if breaks then (groups ++ [current], [unit])
    else (groups, current ++ [unit])
  guard (wrapCaptionUnits policy current).isSome
  return (groups, current)

/-- `groupCaptionUnits`. -/
def groupCaptionUnits (units : List EvidenceUnit) : Option (List (List EvidenceUnit)) := do
  let (groups, current) ← units.foldlM (groupCaptionUnit policy) ([], [])
  let groups := if current.isEmpty then groups else groups ++ [current]
  guard (1 ≤ groups.length ∧ groups.length ≤ 128)
  return groups

/-- The later of two times. -/
def laterTime (a b : RationalTime) : RationalTime := if a < b then b else a

/-- The caption of one group: it stays at least the minimum duration and as long as
    it takes to read, and ends before `capEnd`. -/
def captionCue (segments : List EditTranscriptSegmentState) (clip : ClipState)
    (capEnd : RationalTime) (group : List EvidenceUnit) : Option CaptionDerivationCue := do
  let text ← wrapCaptionUnits policy group
  let first ← group.head?
  let last ← group.getLast?
  let evidenceStart := first.range.start
  let evidenceEnd ← last.range.end?
  let minimumEnd ← evidenceStart.add? policy.minimumDuration
  let readingDuration ← RationalTime.new?
    (graphemeClusterCount (text.filter (· != '\n'))) policy.maximumReadingRate
  let readingEnd ← evidenceStart.add? readingDuration
  let desiredEnd := laterTime (laterTime evidenceEnd minimumEnd) readingEnd
  guard (desiredEnd ≤ capEnd)
  let duration ← desiredEnd.subtract? evidenceStart
  guard (duration.isPositive && duration ≤ policy.maximumDuration)
  let sourceOffset ← evidenceStart.subtract? clip.sourceRange.start
  let timelineStart ← clip.timelineRange.start.add? sourceOffset
  let timelineRange : TimeRange := ⟨timelineStart, duration⟩
  guard (transcriptRangeContains clip.timelineRange timelineRange)
  -- The error is ignored: the caption then has the zero range.
  let evidenceSourceRange := (evidenceEnd.subtract? evidenceStart).bind fun evidenceDuration =>
    (newTimeRange evidenceStart evidenceDuration).toOption
  let (segmentIDs, correctionRevisions) := captionGroupEvidence segments group
  return {
    sourceRange := ⟨evidenceStart, duration⟩, timelineRange, evidenceSourceRange, text
    segmentIDs, correctionRevisions }

/-- `DeriveCaptionCues`. The normalizer reports every failure of it alike, so it has
    no error of its own here. -/
def deriveCaptionCues (artifact : EditTranscriptArtifactState) (excerpt : NarrativeNodeState)
    (value : SourceExcerptValue) (corrections : List TranscriptCorrectionState) (clip : ClipState)
    (policy : CaptionDerivationPolicy) : Option (List CaptionDerivationCue) := do
  guard (policy.Valid ∧ excerpt.tombstoned = false ∧ clip.tombstoned = false ∧ clip.enabled ∧
    artifact.id = value.evidence.artifactID ∧ artifact.assetID = value.assetID ∧
    artifact.fingerprint = value.acceptedFingerprint ∧
    artifact.sourceStreamID = value.evidence.sourceStreamID ∧ clip.assetID = value.assetID ∧
    transcriptRangeContains clip.sourceRange value.sourceRange)
  let (segments, tokens) ←
    (transcriptEvidenceSpan artifact value.evidence.segmentIDs value.sourceRange).toOption
  let provided := value.evidence.correctionRevisions.map fun ref => (ref.id, ref.revision)
  guard (provided.map Prod.fst).Nodup
  let corrections ← (correctionsInRange corrections value.evidence.artifactID value.language
    value.sourceRange provided).toOption
  let effective ← (effectiveTranscriptText tokens corrections).toOption
  guard (effective = value.effectiveText)
  let units ← (evidenceUnits false none none corrections tokens).toOption
  guard (units ≠ [])
  let groups ← groupCaptionUnits policy units
  let excerptEnd ← value.sourceRange.end?
  let clipEnd ← clip.sourceRange.end?
  let lastEnd := if clipEnd < excerptEnd then clipEnd else excerptEnd
  let nextStarts := groups.tail.filterMap fun group => group.head?.map (·.range.start)
  (groups.zip (nextStarts ++ [lastEnd])).mapM fun (group, capEnd) =>
    captionCue policy segments clip capEnd group

namespace EditNormalizer

variable (I : NormalizeEditInput) (n : EditNormalizer)

/-- A correction that the excerpt relies on is still as it was. -/
def requireCorrection (reference : TranscriptCorrectionRevisionRef) : Except EditError Unit := do
  let correction ← need (n.working.correction? reference.id) errEditInvalid
  ensure (correction.revision = reference.revision ∧ correction.tombstoned = false) errEditInvalid
  I.require ⟨.transcriptCorrection, reference.id⟩ reference.revision

/-- One caption of `deriveCaptions`, with the alignment to it. -/
def putDerivedCaption (excerpt : NarrativeNodeState) (value : SourceExcerptValue) (clip : ClipState)
    (track : EditTrackState) (policy : CaptionDerivationPolicy)
    (expected : CaptionDerivationCue × DerivedCaptionOutputInput) :
    Except EditError EditNormalizer := do
  let (cue, output) := expected
  ensure (output.text = cue.text ∧ output.sourceRange = cue.sourceRange ∧
    output.timelineRange = cue.timelineRange) errEditInvalid
  -- The zero range cannot be encoded, so in the end the proposal has no digest.
  let evidenceSourceRange ← need cue.evidenceSourceRange errEditInvalid
  let captionID ← I.allocated output.captionAs .caption
  let alignmentID ← I.allocated output.alignmentAs .alignment
  let n ← n.markTouched ⟨.caption, captionID⟩
  let n ← n.markTouched ⟨.alignment, alignmentID⟩
  let caption : CaptionState := {
    id := captionID, revision := 1, trackID := track.id, range := cue.timelineRange
    language := value.language, text := cue.text
    provenance := .transcriptDerivation {
      sourceExcerptID := excerpt.id, sourceExcerptRevision := excerpt.revision
      assetID := value.assetID, acceptedFingerprint := value.acceptedFingerprint
      artifactID := value.evidence.artifactID, sourceStreamID := value.evidence.sourceStreamID
      segmentIDs := cue.segmentIDs, correctionRevisions := cue.correctionRevisions
      clipID := clip.id, clipRevision := clip.revision, clipSourceRange := clip.sourceRange
      clipTimelineRange := clip.timelineRange, evidenceSourceRange, policy
      derivedRange := cue.timelineRange, derivedLanguage := value.language
      derivedText := cue.text }
    tombstoned := false }
  let alignment : AlignmentState := {
    id := alignmentID, revision := 1, narrativeNodeID := excerpt.id
    narrativeNodeRevision := excerpt.revision
    targets := [.caption captionID 1 ⟨0, cue.timelineRange.duration⟩], status := .exact }
  return (n.put none (.caption caption)).put none (.alignment alignment)

/-- `deriveCaptions`. -/
def deriveCaptions (nodeID clipID trackID : ID) (policy : CaptionDerivationPolicy)
    (outputs : List DerivedCaptionOutputInput) : Except EditError EditNormalizer := do
  let excerpt ← need (n.working.node? nodeID) errEditInvalid
  let value ← need (excerptValue excerpt) errEditInvalid
  ensure (!excerpt.tombstoned) errEditInvalid
  I.require ⟨.narrativeNode, nodeID⟩ excerpt.revision
  let clip ← need (n.working.clip? clipID) errEditInvalid
  ensure (!clip.tombstoned) errEditInvalid
  I.require ⟨.clip, clip.id⟩ clip.revision
  let track ← need (I.state.tracks.find? trackID) errEditInvalid
  ensure (track.type = .caption) errEditInvalid
  I.require ⟨.track, track.id⟩ track.revision
  let artifact ← need (I.state.transcriptArtifacts.find? value.evidence.artifactID) errEditInvalid
  let stream ← need (I.state.sourceStreams.find? value.evidence.sourceStreamID) errEditInvalid
  ensure (stream.assetID = value.assetID ∧ 1 ≤ stream.assetRevision) errEditInvalid
  I.require ⟨.asset, value.assetID⟩ stream.assetRevision
  value.evidence.correctionRevisions.forM (n.requireCorrection I)
  let cues ← need (deriveCaptionCues artifact excerpt value n.working.corrections clip policy)
    errEditInvalid
  ensure (cues.length = outputs.length) errEditInvalid
  let n ← (cues.zip outputs).foldlM
    (fun n expected => n.putDerivedCaption I excerpt value clip track policy expected) n
  return n.changeTrack track
where
  /-- The value of a source excerpt. -/
  excerptValue (node : NarrativeNodeState) : Option SourceExcerptValue :=
    match node.value with
    | .sourceExcerpt value => some value
    | _ => none

end EditNormalizer

end

end OpenCut
