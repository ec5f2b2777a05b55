import OpenCut.Repository.Capture
import OpenCut.Repository.Steps

/-!
# Snapshots that are taken again

`insertProjectVersionSnapshot` takes an automatic snapshot of the current project revision
instead of capturing the project, on the understanding that nothing a version captures
changes within a revision. Edits and registrations advance the revision. A media
identification does not: when it accepts the first fingerprint of an asset while there is
a snapshot of the revision, the snapshot is out of date (`reused_snapshot_outdated`).
Otherwise snapshots that are taken again are what would be captured
(`reused_snapshot_faithful`).
-/

namespace OpenCut

open Outcome

namespace Project

/-- No fingerprint is accepted for the first time while an automatic snapshot of the
    revision is stored. -/
def identifiesUncaptured (p : Project) (request : Request) : Prop :=
  match request with
  | .completeMediaIdentification input =>
    ∀ asset ∈ p.content.entities.asset? input.assetID, asset.acceptedFingerprint = none →
      ∀ version ∈ p.versions.rows.map Prod.snd, version.source ≠ .manual →
        version.capturedProjectRevision ≠ p.revision
  | _ => True

instance (p : Project) (request : Request) : Decidable (p.identifiesUncaptured request) := by
  unfold identifiesUncaptured
  split <;> infer_instance

/-- No version is ahead of the project, and an automatic one of the current revision is
    what would be captured now. -/
structure SnapshotsCurrent (p : Project) : Prop where
  captured_le : ∀ {id version}, p.versions.find? id = some version →
    version.capturedProjectRevision ≤ p.revision
  current : ∀ {id version}, p.versions.find? id = some version → version.source ≠ .manual →
    version.capturedProjectRevision = p.revision →
    loadProjectVersionState p.revision p.content = .ok version.state

namespace SnapshotsCurrent

variable {p p' : Project}

theorem genesis (ids : GenesisIDs) (createdAt : Nat) :
    SnapshotsCurrent (genesis ids createdAt) where
  captured_le h := by
    rcases Table.of_find?_set h with ⟨-, rfl⟩ | h
    · exact le_rfl
    · cases h
  current h _ _ := by
    rcases Table.of_find?_set h with ⟨-, rfl⟩ | h
    · exact loadProjectVersionState_genesis ids createdAt
    · cases h

/-- A request that captures the project as it is, and changes neither revision nor what
    would be captured. -/
theorem of_same (hp : p.SnapshotsCurrent) (hrevision : p'.revision = p.revision)
    (hcontent : loadProjectVersionState p.revision p'.content =
      loadProjectVersionState p.revision p.content)
    (hversions : ∀ {id version}, p'.versions.find? id = some version →
      p.versions.find? id = some version ∨ p.Captured version) :
    p'.SnapshotsCurrent where
  captured_le h := by
    rw [hrevision]
    rcases hversions h with h | hcaptured
    · exact hp.captured_le h
    · exact hcaptured.1.le
  current h hsource hcurrent := by
    rw [hrevision] at hcurrent ⊢
    rw [hcontent]
    rcases hversions h with h | hcaptured
    · exact hp.current h hsource hcurrent
    · exact hcaptured.2

/-- The versions are left behind when the project advances. -/
theorem of_advance (hp : p.SnapshotsCurrent) (hrevision : p'.revision = p.revision + 1)
    (hversions : ∀ {id version}, p'.versions.find? id = some version →
      p.versions.find? id = some version ∨ p.Captured version) :
    p'.SnapshotsCurrent := by
  have hbehind : ∀ {id version}, p'.versions.find? id = some version →
      version.capturedProjectRevision < p'.revision := by
    intro id version h
    rw [hrevision, Nat.lt_succ_iff]
    rcases hversions h with h | hcaptured
    · exact hp.captured_le h
    · exact hcaptured.1.le
  exact ⟨fun h => (hbehind h).le, fun h _ hcurrent => absurd hcurrent (hbehind h).ne⟩

variable [Uniseg]

theorem serve {request : Request} (hallowed : p.identifiesUncaptured request)
    (hp : p.SnapshotsCurrent) (h : p.serve request = .ok p') : p'.SnapshotsCurrent := by
  have hversions : ∀ {id version}, p'.versions.find? id = some version →
      p.versions.find? id = some version ∨ p.Captured version := versions_of_serve h
  rcases serve_cases h with hquiet | ⟨_, t, -, hcommits⟩ | ⟨_, -, hregisters⟩ |
    ⟨input, asset, rfl, hidentifies⟩
  · exact hp.of_same hquiet.revision (by rw [hquiet.content]) hversions
  · exact hp.of_advance hcommits.revision hversions
  · exact hp.of_advance (by rw [hregisters.result]) hversions
  · cases hfingerprint : asset.acceptedFingerprint with
    | none =>
      -- The content changes, but there is no automatic snapshot to be out of date.
      have huncaptured := hallowed asset hidentifies.found hfingerprint
      rw [hidentifies.result]
      refine ⟨hp.captured_le, fun {id version} h hsource hcurrent => ?_⟩
      exact absurd hcurrent (huncaptured version
        (List.mem_map.2 ⟨(id, version), Table.mem_rows.2 h, rfl⟩) hsource)
    | some fingerprint =>
      have hsame : { asset with acceptedFingerprint := some input.fingerprint } = asset := by
        rw [← hidentifies.accepted fingerprint hfingerprint, ← hfingerprint]
      refine hp.of_same (by rw [hidentifies.result]) ?_ hversions
      rw [hidentifies.result, hsame]
      refine loadProjectVersionState_congr fun key => ?_
      rw [EntityTable.find?_put]
      split
      · next hkey =>
        rw [hkey]
        exact EntityTable.find?_key (EntityTable.asset?_eq_some.1 hidentifies.found)
      · rfl

end SnapshotsCurrent

theorem existingSnapshot?_eq_some {p : Project} {source : ProjectVersionSource} {id : ID}
    {version : ProjectVersion} (h : p.existingSnapshot? source = some (id, version)) :
    p.versions.find? id = some version ∧ version.source = source ∧ source ≠ .manual ∧
      version.capturedProjectRevision = p.revision := by
  unfold existingSnapshot? at h
  split at h
  · cases h
  · next hsource =>
    have hfound := List.find?_some h
    simp only [Bool.and_eq_true, beq_iff_eq] at hfound
    exact ⟨Table.mem_rows.1 (List.mem_of_find?_eq_some h), hfound.2, hsource, hfound.1⟩

end Project

/-- In a project whose identifications came before its snapshots of the same revision, a
    snapshot that is taken again has the state that would be captured now. -/
theorem reused_snapshot_faithful [Uniseg] {ids : GenesisIDs} {createdAt : Nat} {p : Project}
    (hrun : Project.Reaches Project.identifiesUncaptured (genesis ids createdAt) p)
    {source : ProjectVersionSource} {id : ID} {version : ProjectVersion}
    (hfound : p.existingSnapshot? source = some (id, version)) :
    loadProjectVersionState p.revision p.content = .ok version.state := by
  have hinv : p.SnapshotsCurrent := Machine.Reaches.invariant Project.SnapshotsCurrent hrun
    (fun _ _ _ hallowed hp h => hp.serve hallowed h) (.genesis ids createdAt)
  obtain ⟨hstored, rfl, hsource, hcurrent⟩ := Project.existingSnapshot?_eq_some hfound
  exact hinv.current hstored hsource hcurrent

/-- A turn begins when the asset is identified. -/
theorem reused_snapshot_faithful_sample :
    ∃ p id version, samplePlay Project.identifiesUncaptured
        (sampleAsset ++ [.snapshotAgentTurn 60 1]) = some p ∧
      p.existingSnapshot? .agentTurn = some (id, version) ∧
      loadProjectVersionState p.revision p.content = .ok version.state := by
  obtain ⟨p, hp, ⟨id, version⟩, hfound⟩ : ∃ p, samplePlay Project.identifiesUncaptured
      (sampleAsset ++ [.snapshotAgentTurn 60 1]) = some p ∧
      ∃ row, p.existingSnapshot? .agentTurn = some row := by
    decide +kernel
  let _ := runeClusters
  exact ⟨p, id, version, hp, hfound, reused_snapshot_faithful (Machine.Reaches.of_play hp) hfound⟩

/-- An asset is registered and a turn begins, with a snapshot of the second revision. -/
def sampleSnapshotRun : List Request := [.registerAsset {
    actor := .creator 9, requestID := ['r'], inputDigest := 0, expectedProjectRevision := 1
    sourceGrantID := 30, displayName := ['a'], assetID := 20, proposalID := 100
    transactionID := 200 },
  .snapshotAgentTurn 60 1]

/-- After the asset is identified, the snapshot is still taken for the next turn of the
    second revision, but its asset has no fingerprint. -/
theorem reused_snapshot_outdated :
    ∃ p id version,
      sampleAfter (sampleSnapshotRun ++
        [.completeMediaIdentification ⟨20, 30, 77⟩]) = some p ∧
      p.existingSnapshot? .agentTurn = some (id, version) ∧
      p.insertProjectVersionSnapshot 61 .agentTurn .automatic 2 = .ok (p, id, version) ∧
      loadProjectVersionState p.revision p.content ≠ .ok version.state := by
  obtain ⟨p, hp, ⟨id, version⟩, hfound, hstate⟩ : ∃ p, sampleAfter (sampleSnapshotRun ++
        [.completeMediaIdentification ⟨20, 30, 77⟩]) = some p ∧
      ∃ row, p.existingSnapshot? .agentTurn = some row ∧
        loadProjectVersionState p.revision p.content ≠ .ok row.2.state := by
    decide +kernel
  refine ⟨p, id, version, hp, hfound, ?_, hstate⟩
  rw [Project.insertProjectVersionSnapshot, hfound]

end OpenCut
