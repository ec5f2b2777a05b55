import OpenCut.Application.Normalizer
import Mathlib.Data.List.Sort

/-!
# Clip operations

`application/edit_normalize_clips.go` and `edit_normalize_clip_mutations.go`: adding,
moving, trimming, splitting, removing, placing, linking and unlinking clips. An
operation of linked scope acts on every member of the clip's link group; one of
single scope that takes the clip out of its group either advances the group or
dissolves it, when fewer than two members are left.
-/

namespace OpenCut

open Outcome

/-- `trackAcceptsStream`. -/
def trackAcceptsStream (track : EditTrackState) (stream : EditSourceStreamState) : Bool :=
  (track.type == .video && stream.descriptor.mediaType == .video) ||
    (track.type == .audio && stream.descriptor.mediaType == .audio)

/-- `NewTimeRange`. -/
def newTimeRange (start duration : RationalTime) : Except EditError TimeRange := do
  ensure (!duration.isNegative) errEditInvalid
  return ⟨start, duration⟩

/-- `rangeWithBoundaryDeltas`. -/
def rangeWithBoundaryDeltas (current : TimeRange) (left right : RationalTime) :
    Except EditError TimeRange := do
  let start ← need (current.start.add? left) errEditInvalid
  ensure (!start.isNegative) errEditInvalid
  let currentEnd ← need current.end? errEditInvalid
  let newEnd ← need (currentEnd.add? right) errEditInvalid
  let duration ← need (newEnd.subtract? start) errEditInvalid
  ensure duration.isPositive errEditInvalid
  newTimeRange start duration

/-- `sameBoundaryDelta`. -/
def sameBoundaryDelta (current next : TimeRange) (left right : RationalTime) : Bool :=
  match current.end?, next.end? with
  | some currentEnd, some nextEnd =>
    next.start.subtract? current.start == some left && nextEnd.subtract? currentEnd == some right
  | _, _ => false

namespace EditNormalizer

variable (I : NormalizeEditInput) (n : EditNormalizer)

/-! ## Steps -/

/-- Requires a precondition on a track and records that its contents change. -/
def requireTrack (trackID : ID) : Except EditError EditNormalizer := do
  let track ← need (I.state.tracks.find? trackID) errEditInvalid
  I.require ⟨.track, track.id⟩ track.revision
  return n.changeTrack track

/-- `putExistingClip`. -/
def putExistingClip (current next : ClipState) (trackChanged : Bool) :
    Except EditError EditNormalizer := do
  let n ← n.markTouched ⟨.clip, current.id⟩
  ensure (next.revision = current.revision + 1) errEditInvalid
  let n := n.put (some (.clip current)) (.clip next)
  if trackChanged then
    let n ← n.requireTrack I current.trackID
    n.requireTrack I next.trackID
  else
    return n

/-- `putNewClip`. -/
def putNewClip (state : ClipState) : Except EditError EditNormalizer := do
  ensure (n.working.clip? state.id).isNone errEditInvalid
  let n ← n.markTouched ⟨.clip, state.id⟩
  (n.put none (.clip state)).requireTrack I state.trackID

/-- Puts a new link group without members. -/
def putNewLinkGroup (id : ID) : EditNormalizer :=
  (n.put none (.linkGroup { id, revision := 1, tombstoned := false })).setMembers id []

/-- `createLinkGroup`. -/
def createLinkGroup (name : LocalID) : Except EditError (EditNormalizer × ID) := do
  let id ← I.allocated name .linkGroup
  ensure (n.working.linkGroup? id).isNone errEditInvalid
  let n ← n.markTouched ⟨.linkGroup, id⟩
  return (n.putNewLinkGroup id, id)

/-- Advances a link group that exists: `advanceLinkGroup` and `tombstoneLinkGroup`
    before they set its members. -/
def putExistingLinkGroup (id : ID) (tombstoned : Bool) : Except EditError EditNormalizer := do
  let current ← need (n.working.linkGroup? id) errEditInvalid
  ensure (!current.tombstoned) errEditInvalid
  let n ← n.markTouched ⟨.linkGroup, id⟩
  I.require ⟨.linkGroup, id⟩ current.revision
  return n.put (some (.linkGroup current))
    (.linkGroup { current with revision := current.revision + 1, tombstoned })

/-- `tombstoneLinkGroup`. -/
def tombstoneLinkGroup (id : ID) : Except EditError EditNormalizer :=
  n.putExistingLinkGroup I id true

/-- `advanceLinkGroup`. -/
def advanceLinkGroup (id : ID) (members : List ID) : Except EditError EditNormalizer := do
  let n ← n.putExistingLinkGroup I id false
  return n.setMembers id members

/-- Takes a clip out of its link group. -/
def unlinkMember (memberID : ID) : Except EditError EditNormalizer := do
  let current ← need (n.working.clip? memberID) errEditInvalid
  I.require ⟨.clip, memberID⟩ current.revision
  n.putExistingClip I current
    { current with revision := current.revision + 1, linkGroupID := none } false

/-- `finishSingleMembershipRemoval`. -/
def finishSingleMembershipRemoval (id : ID) : Except EditError EditNormalizer := do
  let survivors := (n.members id).filter fun memberID => (n.working.clip? memberID).any fun clip =>
    !clip.tombstoned && clip.linkGroupID == some id
  if 2 ≤ survivors.length then
    n.advanceLinkGroup I id survivors
  else
    let n ← survivors.foldlM (fun n memberID => n.unlinkMember I memberID) n
    (n.setMembers id []).tombstoneLinkGroup I id

/-- The check of a member of the group of a linked operation. -/
def requireMember (groupID memberID : ID) : Except EditError Unit := do
  let member ← need (n.working.clip? memberID) errEditInvalid
  ensure (!member.tombstoned && member.linkGroupID == some groupID) errEditInvalid
  I.require ⟨.clip, member.id⟩ member.revision

/-- `clipMutationMembers`: the clips an operation acts on, in the order of their
    identities, and the clip it names. -/
def clipMutationMembers (clipID : ID) (scope : ClipMutationScope) (membershipChange : Bool) :
    Except EditError (List ID × ClipState) := do
  let seed ← need (n.working.clip? clipID) errEditInvalid
  ensure (!seed.tombstoned) errEditInvalid
  I.require ⟨.clip, seed.id⟩ seed.revision
  match scope with
  | .single =>
    match seed.linkGroupID with
    | some groupID =>
      if membershipChange then
        let group ← need (n.working.linkGroup? groupID) errEditInvalid
        ensure (!group.tombstoned) errEditInvalid
        I.require ⟨.linkGroup, group.id⟩ group.revision
      return ([seed.id], seed)
    | none => return ([seed.id], seed)
  | .linked =>
    let groupID ← need seed.linkGroupID errEditInvalid
    let group ← need (n.working.linkGroup? groupID) errEditInvalid
    let members := n.members groupID
    ensure (!group.tombstoned && 2 ≤ members.length && members.length ≤ 64) errEditInvalid
    I.require ⟨.linkGroup, group.id⟩ group.revision
    members.forM (n.requireMember I group.id)
    ensure (seed.id ∈ members) errEditInvalid
    return (members.insertionSort (· ≤ ·), seed)

/-! ## Operations -/

/-- `resolveClipLinkGroup`: the group of a clip that is added, created, advanced or
    already put by the request. -/
def resolveClipLinkGroup (linkGroup : Option ClipLinkGroupInput) :
    Except EditError (EditNormalizer × Option ID) :=
  match linkGroup with
  | none => .ok (n, none)
  | some (.create name) => do
    let id ← I.allocated name .linkGroup
    ensure (I.base.linkGroup? id).isNone errEditInvalid
    let n ← n.markTouched ⟨.linkGroup, id⟩
    return (n.putNewLinkGroup id, some id)
  | some (.existing reference) => do
    let id ← I.resolveReference reference .linkGroup
    let group ← need (n.working.linkGroup? id) errEditInvalid
    ensure (!group.tombstoned) errEditInvalid
    if ⟨.linkGroup, id⟩ ∈ n.touched then
      return (n, some id)
    else
      ensure reference.id?.isSome errEditInvalid
      I.require ⟨.linkGroup, id⟩ group.revision
      let n ← n.markTouched ⟨.linkGroup, id⟩
      return (n.put (some (.linkGroup group))
        (.linkGroup { group with revision := group.revision + 1 }), some id)

/-- `addClip`. -/
def addClip (createAs : LocalID) (trackID assetID sourceStreamID : ID)
    (sourceRange timelineRange : TimeRange) (enabled : Bool)
    (linkGroup : Option ClipLinkGroupInput) : Except EditError EditNormalizer := do
  let id ← I.allocated createAs .clip
  ensure (I.base.clip? id).isNone errEditInvalid
  let n ← n.markTouched ⟨.clip, id⟩
  let track ← need (I.state.tracks.find? trackID) errEditInvalid
  ensure (track.type = .video ∨ track.type = .audio) errEditInvalid
  let stream ← need (I.state.sourceStreams.find? sourceStreamID) errEditInvalid
  ensure (stream.assetID = assetID ∧ trackAcceptsStream track stream) errEditInvalid
  I.require ⟨.track, track.id⟩ track.revision
  I.require ⟨.asset, stream.assetID⟩ stream.assetRevision
  ensure (sourceRange.duration.compare timelineRange.duration = .eq) errEditInvalid
  ensure (sourceRangeWithin sourceRange stream.descriptor) errEditInvalid
  let (n, linkGroupID) ← n.resolveClipLinkGroup I linkGroup
  let state : ClipState := {
    id, revision := 1, trackID := track.id, assetID := stream.assetID,
    sourceStreamID := stream.id, sourceRange, timelineRange, enabled, linkGroupID,
    placement := none, tombstoned := false }
  let n := n.put none (.clip state)
  let n := match linkGroupID with
    | some groupID => n.setMembers groupID (n.members groupID ++ [id])
    | none => n
  return n.changeTrack track

/-- One member of `moveClip`: only the clip that is named changes its track. -/
def moveMember (seed : ClipState) (trackID : ID) (delta : RationalTime) (memberID : ID) :
    Except EditError EditNormalizer := do
  let current ← need (n.working.clip? memberID) errEditInvalid
  let start ← need (current.timelineRange.start.add? delta) errEditInvalid
  ensure (!start.isNegative) errEditInvalid
  let next := { current with
    revision := current.revision + 1
    timelineRange := { current.timelineRange with start } }
  if current.id = seed.id then
    let track ← need (I.state.tracks.find? trackID) errEditInvalid
    let stream ← need (I.state.sourceStreams.find? current.sourceStreamID) errEditInvalid
    ensure (trackAcceptsStream track stream) errEditInvalid
    I.require ⟨.track, track.id⟩ track.revision
    (n.changeTrack track).putExistingClip I current { next with trackID } true
  else
    n.putExistingClip I current next true

variable (clipID : ID) (scope : ClipMutationScope)

/-- `moveClip`. -/
def moveClip (trackID : ID) (timelineStart : RationalTime) : Except EditError EditNormalizer := do
  let (members, seed) ← n.clipMutationMembers I clipID scope false
  let delta ← need (timelineStart.subtract? seed.timelineRange.start) errEditInvalid
  members.foldlM (fun n memberID => n.moveMember I seed trackID delta memberID) n

/-- One member of `trimClip`. -/
def trimMember (left right : RationalTime) (memberID : ID) : Except EditError EditNormalizer := do
  let current ← need (n.working.clip? memberID) errEditInvalid
  let nextSource ← rangeWithBoundaryDeltas current.sourceRange left right
  let nextTimeline ← rangeWithBoundaryDeltas current.timelineRange left right
  ensure (!nextTimeline.start.isNegative) errEditInvalid
  let stream ← need (I.state.sourceStreams.find? current.sourceStreamID) errEditInvalid
  ensure (sourceRangeWithin nextSource stream.descriptor) errEditInvalid
  n.putExistingClip I current { current with
    revision := current.revision + 1
    sourceRange := nextSource
    timelineRange := nextTimeline } true

/-- `trimClip`: the ranges of the named clip give how far its boundaries move, and
    the boundaries of every member move as far. -/
def trimClip (sourceRange timelineRange : TimeRange) : Except EditError EditNormalizer := do
  let (members, seed) ← n.clipMutationMembers I clipID scope false
  let left ← need (timelineRange.start.subtract? seed.timelineRange.start) errEditInvalid
  let seedOldEnd ← need seed.timelineRange.end? errEditInvalid
  let seedNewEnd ← need timelineRange.end? errEditInvalid
  let right ← need (seedNewEnd.subtract? seedOldEnd) errEditInvalid
  ensure (sameBoundaryDelta seed.sourceRange sourceRange left right) errEditInvalid
  members.foldlM (fun n memberID => n.trimMember I left right memberID) n

/-- `splitClipStates`: the two halves of a clip. -/
def splitClipStates (current : ClipState) (splitAt : RationalTime) (output : ClipSplitOutputInput)
    (leftGroupID rightGroupID : Option ID) : Except EditError (ClipState × ClipState) := do
  let offset ← need (splitAt.subtract? current.timelineRange.start) errEditInvalid
  ensure offset.isPositive errEditInvalid
  ensure (offset < current.timelineRange.duration) errEditInvalid
  let rightDuration ← need (current.timelineRange.duration.subtract? offset) errEditInvalid
  ensure rightDuration.isPositive errEditInvalid
  let sourceSplit ← need (current.sourceRange.start.add? offset) errEditInvalid
  let leftRange ← newTimeRange current.timelineRange.start offset
  let rightRange ← newTimeRange splitAt rightDuration
  let leftSource ← newTimeRange current.sourceRange.start offset
  let rightSource ← newTimeRange sourceSplit rightDuration
  let leftID ← I.allocated output.leftAs .clip
  let rightID ← I.allocated output.rightAs .clip
  return ({ current with
      id := leftID, revision := 1, sourceRange := leftSource, timelineRange := leftRange
      linkGroupID := leftGroupID, tombstoned := false },
    { current with
      id := rightID, revision := 1, sourceRange := rightSource, timelineRange := rightRange
      linkGroupID := rightGroupID, tombstoned := false })

/-- One member of `splitClip`. -/
def splitMember (splitAt : RationalTime) (outputs : List ClipSplitOutputInput)
    (leftGroupID rightGroupID : Option ID) (memberID : ID) : Except EditError EditNormalizer := do
  let current ← need (n.working.clip? memberID) errEditInvalid
  let output ← need (outputs.find? fun output => output.clip == memberID) errEditInvalid
  let (leftState, rightState) ← splitClipStates I current splitAt output leftGroupID rightGroupID
  let n ← n.putExistingClip I current
    { current with revision := current.revision + 1, tombstoned := true } true
  let n ← n.putNewClip I leftState
  n.putNewClip I rightState

/-- The new link groups of the halves of a linked split. -/
def splitGroups (leftLinkGroupAs rightLinkGroupAs : Option LocalID) :
    Except EditError (EditNormalizer × Option ID × Option ID) :=
  match scope with
  | .single => .ok (n, none, none)
  | .linked => do
    let left ← need leftLinkGroupAs errEditInvalid
    let (n, leftID) ← n.createLinkGroup I left
    let right ← need rightLinkGroupAs errEditInvalid
    let (n, rightID) ← n.createLinkGroup I right
    return (n, some leftID, some rightID)

variable (groupID : ID)

/-- What becomes of the link group of clips that are gone: with all its members,
    or with one. -/
def finishGroup : Except EditError EditNormalizer :=
  match scope with
  | .linked => n.tombstoneLinkGroup I groupID
  | .single => n.finishSingleMembershipRemoval I groupID

/-- `splitClip`. -/
def splitClip (splitAt : RationalTime) (outputs : List ClipSplitOutputInput)
    (leftLinkGroupAs rightLinkGroupAs : Option LocalID) : Except EditError EditNormalizer := do
  let (members, seed) ← n.clipMutationMembers I clipID scope true
  ensure (outputs.length = members.length ∧
    ∀ memberID ∈ members, memberID ∈ outputs.map (·.clip)) errEditInvalid
  let (n, leftGroupID, rightGroupID) ← n.splitGroups I scope leftLinkGroupAs rightLinkGroupAs
  let n ← members.foldlM (fun n memberID =>
    n.splitMember I splitAt outputs leftGroupID rightGroupID memberID) n
  match seed.linkGroupID with
  | some groupID => n.finishGroup I scope groupID
  | none => do
    ensure (scope = .single) errEditInvalid
    return n

variable (memberID : ID)

/-- One member of `removeClip`. -/
def removeMember : Except EditError EditNormalizer := do
  let current ← need (n.working.clip? memberID) errEditInvalid
  n.putExistingClip I current
    { current with revision := current.revision + 1, tombstoned := true } true

/-- `removeClip`. -/
def removeClip : Except EditError EditNormalizer := do
  let (members, seed) ← n.clipMutationMembers I clipID scope true
  let n ← members.foldlM (fun n memberID => n.removeMember I memberID) n
  match seed.linkGroupID with
  | some groupID => n.finishGroup I scope groupID
  | none => return n

/-- One clip of `linkClips`. -/
def linkMember : Except EditError EditNormalizer := do
  let current ← need (n.working.clip? memberID) errEditInvalid
  ensure (!current.tombstoned && current.linkGroupID.isNone) errEditInvalid
  I.require ⟨.clip, memberID⟩ current.revision
  n.putExistingClip I current
    { current with revision := current.revision + 1, linkGroupID := some groupID } false

/-- `linkClips`. -/
def linkClips (createLinkGroupAs : LocalID) (clips : List ID) :
    Except EditError EditNormalizer := do
  let (n, groupID) ← n.createLinkGroup I createLinkGroupAs
  let n ← clips.foldlM (fun n memberID => n.linkMember I groupID memberID) n
  return n.setMembers groupID clips

/-- One clip of `unlinkClips`. -/
def unlinkLiveMember : Except EditError EditNormalizer := do
  let current ← need (n.working.clip? memberID) errEditInvalid
  ensure (!current.tombstoned && current.linkGroupID == some groupID) errEditInvalid
  n.unlinkMember I memberID

/-- `unlinkClips`. -/
def unlinkClips : Except EditError EditNormalizer := do
  let group ← need (n.working.linkGroup? groupID) errEditInvalid
  ensure (!group.tombstoned) errEditInvalid
  I.require ⟨.linkGroup, groupID⟩ group.revision
  let n ← (n.members groupID).foldlM (fun n memberID => n.unlinkLiveMember I groupID memberID) n
  (n.setMembers groupID []).tombstoneLinkGroup I groupID

/-- An alignment on a clip whose placement changes keeps its status, unless the
    request has decided otherwise. -/
def keepAlignment (alignmentID : ID) : Except EditError EditNormalizer := do
  let alignment ← need (I.base.alignment? alignmentID) errEditInvalid
  match n.alignmentEffects.find? alignmentID with
  | some _ => return n
  | none => return n.setEffect alignmentID alignment.status

/-- The placement that is stored: none for the identity. -/
def storedPlacement (placement : Option ClipPlacement) : Except EditError (Option ClipPlacement) :=
  match placement with
  | none => .ok none
  | some placement =>
    if placement = identityClipPlacement then .ok none
    else do
      ensure placement.Valid (.invalid placement.fault)
      return some placement

/-- `setClipPlacement`. Every alignment on the clip counts as dealt with, whether or
    not the request also touches its node. -/
def setClipPlacement (clipID : ID) (placement : Option ClipPlacement) :
    Except EditError EditNormalizer := do
  let current ← need (n.working.clip? clipID)
    (.invalid s!"clip {clipID.text} is not a live clip in this sequence")
  ensure (!current.tombstoned) (.invalid s!"clip {clipID.text} is not a live clip in this sequence")
  I.require ⟨.clip, current.id⟩ current.revision
  let track ← need (I.state.tracks.find? current.trackID) errEditInvalid
  ensure (track.type = .video) (.invalid (s!"clip {clipID.text} sits on {track.type.name} track " ++
    s!"{track.id.text}; placement applies to video clips only"))
  I.require ⟨.track, track.id⟩ track.revision
  let n := n.changeTrack track
  let placement ← storedPlacement placement
  let alignments := (I.state.clipAlignments.find? current.id).getD []
  let n ← alignments.foldlM (fun n alignmentID => n.keepAlignment I alignmentID) n
  n.putExistingClip I current { current with revision := current.revision + 1, placement } false

/-! ## Checks at the end -/

/-- `validateLinkGroups`. -/
def validateLinkGroups : Except EditError Unit :=
  n.touched.forM fun key =>
    if key.kind = .linkGroup then
      let live := (n.working.clips.filter fun clip =>
        !clip.tombstoned && clip.linkGroupID == some key.id).length
      match n.working.linkGroup? key.id with
      | some group => ensure
        (if group.tombstoned then live = 0 else 2 ≤ live ∧ live ≤ 64) errEditInvalid
      | none => .error errEditInvalid
    else .ok ()

/-- `validateClipOverlaps`. -/
def validateClipOverlaps : Except EditError Unit :=
  ensure (∀ clip ∈ n.working.clips, ⟨.clip, clip.id⟩ ∈ n.touched →
    clip.tombstoned = false → ∀ other ∈ n.working.clips, other.id ≠ clip.id →
      other.tombstoned = false → other.trackID = clip.trackID →
        rangesOverlap clip.timelineRange other.timelineRange = false) errEditInvalid

end EditNormalizer

end OpenCut
