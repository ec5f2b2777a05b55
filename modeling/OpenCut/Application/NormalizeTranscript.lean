import OpenCut.Application.NormalizeNarrative
import Mathlib.Data.List.Sort

/-!
# Transcript operations

`application/edit_normalize_transcript.go`: corrections of a transcript, and source
excerpts, whose text is that of the transcript with the corrections in its range.
-/

namespace OpenCut

open Outcome

/-- A word of a transcript with the segment it is in. -/
structure TranscriptEvidenceToken where
  segmentOrdinal : Nat
  token : TranscriptToken

/-- Each segment comes right after the one before it. -/
def consecutive : List EditTranscriptSegmentState → Bool
  | first :: second :: rest => second.ordinal == first.ordinal + 1 && consecutive (second :: rest)
  | _ => true

/-- The words of a segment in a range; a word may not be cut by it. -/
def segmentTokens (range : TimeRange) (rangeEnd : RationalTime)
    (segment : EditTranscriptSegmentState) : Except EditError (List TranscriptEvidenceToken) :=
  segment.tokens.foldlM (fun tokens token => do
    let tokenEnd ← need token.sourceRange.end? errEditInvalid
    if rangeEnd ≤ token.sourceRange.start ∨ tokenEnd ≤ range.start then
      return tokens
    else
      ensure (range.start ≤ token.sourceRange.start ∧ tokenEnd ≤ rangeEnd) errEditInvalid
      return tokens ++ [⟨segment.ordinal, token⟩]) []

/-- `transcriptEvidenceSpan`: the segments and the words of a range, which begins
    with the first word and ends with the last. -/
def transcriptEvidenceSpan (artifact : EditTranscriptArtifactState) (ids : List ID)
    (range : TimeRange) :
    Except EditError (List EditTranscriptSegmentState × List TranscriptEvidenceToken) := do
  ensure (1 ≤ ids.length ∧ ids.length ≤ 256 ∧ range.duration.isPositive) errEditInvalid
  let segments ← ids.mapM fun id => need (artifact.segment? id) errEditInvalid
  ensure (ids.Nodup ∧ consecutive segments) errEditInvalid
  let rangeEnd ← need range.end? errEditInvalid
  let bySegment ← segments.mapM (segmentTokens range rangeEnd)
  let tokens := bySegment.flatten
  let first ← need tokens.head? errEditInvalid
  let last ← need tokens.getLast? errEditInvalid
  ensure (first.token.sourceRange.start = range.start ∧
    last.token.sourceRange.end? = some rangeEnd) errEditInvalid
  ensure (bySegment.all fun tokens => !tokens.isEmpty) errEditInvalid
  return (segments, tokens)

variable (corrections : List TranscriptCorrectionState) (artifactID : ID)
  (language : CaptionLanguage) (range : TimeRange)

/-- `transcriptCorrectionOverlaps`. -/
def transcriptCorrectionOverlaps (exclude : Option ID) : Bool :=
  corrections.any fun correction =>
    some correction.id != exclude && !correction.tombstoned &&
      correction.artifactID == artifactID && correction.language == language &&
      rangesOverlap correction.sourceRange range

/-- `transcriptRangeContains`. -/
def transcriptRangeContains (parent child : TimeRange) : Bool :=
  match parent.end?, child.end? with
  | some parentEnd, some childEnd => parent.start ≤ child.start && childEnd ≤ parentEnd
  | _, _ => false

/-- `needsTranscriptSpace`. -/
def needsTranscriptSpace (existing next : Text) : Bool :=
  match existing.getLast?, next.head? with
  | some left, some right =>
    !Unicode.isSpace left && !Unicode.isSpace right && !Unicode.isPunct right
  | _, _ => false

/-- `appendTranscriptText`. -/
def appendTranscriptText (result value : Text) (ensureBoundary : Bool) : Text :=
  if !result.isEmpty && ensureBoundary && needsTranscriptSpace result value then
    result ++ ' ' :: value
  else
    result ++ value

/-- A stretch of evidence: a word as the transcript has it, or a correction. -/
structure EvidenceUnit where
  range : TimeRange
  text : Text
  ensureBoundary : Bool
  segmentOrdinal : Nat
  correction : Option TranscriptCorrectionState

/-- The text with the stretch at its end. -/
def EvidenceUnit.appendTo (result : Text) (unit : EvidenceUnit) : Text :=
  appendTranscriptText result unit.text unit.ensureBoundary

/-- The words of a range with the corrections in place of those they cover: the
    loop of `effectiveTranscriptText` and `captionEvidenceUnits`. -/
def evidenceUnits : Bool → Option Nat → Option RationalTime → List TranscriptCorrectionState →
    List TranscriptEvidenceToken → Except EditError (List EvidenceUnit)
  | _, _, _, corrections, [] => do
    ensure (corrections = []) errEditInvalid
    return []
  | later, previous, skippedUntil, corrections, current :: rest =>
    if skippedUntil.any fun skipEnd => decide (current.token.sourceRange.start < skipEnd) then
      evidenceUnits true previous skippedUntil corrections rest
    else
      let word : EvidenceUnit := {
        range := current.token.sourceRange, text := current.token.text
        ensureBoundary := later && previous != some current.segmentOrdinal
        segmentOrdinal := current.segmentOrdinal, correction := none }
      match corrections with
      | [] => do
        let units ← evidenceUnits true (some current.segmentOrdinal) none [] rest
        return word :: units
      | correction :: others =>
        match current.token.sourceRange.start.compare correction.sourceRange.start with
        | .gt => .error errEditInvalid
        | .lt => do
          let units ← evidenceUnits true (some current.segmentOrdinal) none corrections rest
          return word :: units
        | .eq => do
          let correctionEnd ← need correction.sourceRange.end? errEditInvalid
          let units ← evidenceUnits true (some current.segmentOrdinal) (some correctionEnd) others
            rest
          return {
            range := correction.sourceRange, text := correction.replacementText
            ensureBoundary := later, segmentOrdinal := current.segmentOrdinal
            correction := some correction } :: units

/-- `effectiveTranscriptText`. -/
def effectiveTranscriptText (tokens : List TranscriptEvidenceToken)
    (corrections : List TranscriptCorrectionState) : Except EditError Text := do
  let units ← evidenceUnits false none none corrections tokens
  let value := Unicode.trimSpace (units.foldl EvidenceUnit.appendTo [])
  ensure (value ≠ [] ∧ Text.byteLength value ≤ maximumAuthoredTextBytes) errEditInvalid
  return value

/-- The corrections in a range, in its order, which have to be just those that are
    `provided`, at the revisions provided: the end of `sourceExcerptCorrections` and
    `captionExcerptCorrections`. -/
def correctionsInRange (provided : List (ID × Revision)) :
    Except EditError (List TranscriptCorrectionState) := do
  let inRange := corrections.filter fun correction =>
    !correction.tombstoned && correction.artifactID == artifactID &&
      correction.language == language && rangesOverlap correction.sourceRange range
  ensure (inRange.all fun correction => transcriptRangeContains range correction.sourceRange &&
    decide ((correction.id, correction.revision) ∈ provided)) errEditInvalid
  ensure (∀ reference ∈ provided, reference.1 ∈ inRange.map (·.id)) errEditInvalid
  let sorted := inRange.insertionSort fun left right =>
    left.sourceRange.start ≤ right.sourceRange.start
  ensure ((sorted.zip sorted.tail).all fun (left, right) =>
    !rangesOverlap left.sourceRange right.sourceRange) errEditInvalid
  return sorted

/-- `correctionRevisionRefs`. -/
def correctionRevisionRefs : List TranscriptCorrectionRevisionRef :=
  corrections.map fun correction => ⟨correction.id, correction.revision⟩

namespace EditNormalizer

variable (I : NormalizeEditInput) (n : EditNormalizer) (createAs : LocalID)

/-- `addTranscriptCorrection`. It needs no precondition. -/
def addTranscriptCorrection (artifactID assetID : ID) (segmentIDs : List ID)
    (sourceRange : TimeRange) (language : CaptionLanguage) (text : Text) :
    Except EditError EditNormalizer := do
  let id ← I.allocated createAs .transcriptCorrection
  ensure (n.working.correction? id).isNone errEditInvalid
  let n ← n.markTouched ⟨.transcriptCorrection, id⟩
  let artifact ← need (I.state.transcriptArtifacts.find? artifactID) errEditInvalid
  ensure (artifact.assetID = assetID) errEditInvalid
  let (segments, _) ← refuseAs (transcriptEvidenceSpan artifact segmentIDs sourceRange)
    errEditInvalid
  ensure (!transcriptCorrectionOverlaps n.working.corrections artifact.id language sourceRange none)
    errEditInvalid
  return n.put none (.transcriptCorrection {
    id, revision := 1, assetID := artifact.assetID, artifactID := artifact.id
    segmentIDs := segments.map (·.id), sourceRange, replacementText := text, language
    tombstoned := false })

/-- `updateTranscriptCorrection`: with a language and a text, or removing the
    correction without. -/
def updateTranscriptCorrection (correctionID : ID) (update : Option (CaptionLanguage × Text)) :
    Except EditError EditNormalizer := do
  let current ← need (n.working.correction? correctionID) errEditInvalid
  ensure (!current.tombstoned) errEditInvalid
  let n ← n.markTouched ⟨.transcriptCorrection, current.id⟩
  I.require ⟨.transcriptCorrection, current.id⟩ current.revision
  match update with
  | none =>
    return n.put (some (.transcriptCorrection current)) (.transcriptCorrection
      { current with revision := current.revision + 1, tombstoned := true })
  | some (language, text) =>
    ensure (!transcriptCorrectionOverlaps n.working.corrections current.artifactID language
      current.sourceRange (some current.id)) errEditInvalid
    return n.put (some (.transcriptCorrection current)) (.transcriptCorrection
      { current with revision := current.revision + 1, replacementText := text, language })

/-- The correction that an excerpt names, with its revision. -/
def providedCorrection (reference : TranscriptCorrectionReferenceInput) :
    Except EditError (ID × Revision) := do
  let id ← I.resolveReference reference.correction .transcriptCorrection
  let correction ← need (n.working.correction? id) errEditInvalid
  ensure (!correction.tombstoned) errEditInvalid
  match reference.correction with
  | .byID _ => do
    ensure (reference.revision = some correction.revision) errEditConflict
    I.require ⟨.transcriptCorrection, id⟩ correction.revision
  | .byLocal _ => ensure (reference.revision = none) errEditInvalid
  return (id, correction.revision)

/-- `sourceExcerptCorrections`. -/
def sourceExcerptCorrections (artifactID : ID) (language : CaptionLanguage) (range : TimeRange)
    (references : List TranscriptCorrectionReferenceInput) :
    Except EditError (List TranscriptCorrectionState) := do
  let provided ← references.mapM (n.providedCorrection I)
  ensure (provided.map Prod.fst).Nodup errEditInvalid
  correctionsInRange n.working.corrections artifactID language range provided

/-- `insertSourceExcerpt`. -/
def insertSourceExcerpt (parentID : ID) (after : Option EditReference)
    (assetID : ID) (acceptedFingerprint : Digest) (artifactID : ID) (segmentIDs : List ID)
    (corrections : List TranscriptCorrectionReferenceInput) (sourceRange : TimeRange)
    (language : CaptionLanguage) : Except EditError EditNormalizer := do
  let id ← I.allocated createAs .narrativeNode
  ensure (n.working.node? id).isNone errEditInvalid
  let n ← n.markTouched ⟨.narrativeNode, id⟩
  let parent ← n.requireNarrativeParent I parentID
  let after ← n.resolveNarrativeNodeReference I after
  ensure (∀ a ∈ after, n.working.narrativeNodeParent a = some parent.id) errEditInvalid
  let artifact ← need (I.state.transcriptArtifacts.find? artifactID) errEditInvalid
  ensure (artifact.assetID = assetID ∧ artifact.fingerprint = acceptedFingerprint) errEditInvalid
  let (segments, tokens) ← transcriptEvidenceSpan artifact segmentIDs sourceRange
  let corrections ← n.sourceExcerptCorrections I artifact.id language sourceRange corrections
  let effectiveText ← effectiveTranscriptText tokens corrections
  let state : NarrativeNodeState := {
    id, revision := 1, parentID := some parent.id, afterNodeID := after
    value := .sourceExcerpt {
      assetID := artifact.assetID, acceptedFingerprint := artifact.fingerprint, sourceRange
      language, effectiveText
      evidence := {
        artifactID := artifact.id, sourceStreamID := artifact.sourceStreamID
        segmentIDs := segments.map (·.id)
        correctionRevisions := correctionRevisionRefs corrections } }
    tombstoned := false }
  let n := n.put none (.narrativeNode state)
  return (n.markNarrativeParentChanged I parent.id).addChildren parent.id 1

end EditNormalizer

end OpenCut
