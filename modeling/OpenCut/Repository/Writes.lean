import OpenCut.Repository.Siblings
import OpenCut.Repository.Steps

/-!
# What is written to the content

However a request changes the content of a project, it does so by a chain of single writes
(`Content.Write`): an entity is put, the revision of something around it advances, an asset
is registered or its fingerprint is accepted. So what every write keeps is kept by every
request. No write takes a row away, and a row keeps the columns that updates do not write
(`Content.has_write`).
-/

namespace OpenCut

open Outcome EntityTable EntityState

/-! ## Writing the row of an entity -/

variable (old : Option EntityState) (new : EntityState)

/-- The state that is stored when an entity is put over an old one, or none. -/
def EntityState.storedOver : EntityState :=
  match old with
  | none => new
  | some old => old.updating new

@[simp]
theorem EntityState.key_storedOver : (EntityState.storedOver old new).key = new.key := by
  cases old with
  | none => rfl
  | some old => exact old.key_updating new

@[simp]
theorem EntityState.revision_storedOver :
    (EntityState.storedOver old new).revision = new.revision := by
  cases old with
  | none => rfl
  | some old => exact old.revision_updating new

theorem EntityTable.write_ok {t t' : EntityTable} {before : Option Revision} {s : EntityState} :
    t.write before s = .ok t' ↔ (t.find? s.key).map (·.revision) = before ∧
      t' = t.put (EntityState.storedOver (t.find? s.key) s) := by
  cases before with
  | none =>
    simp only [write, steps_ok, Option.map_eq_none_iff]
    refine and_congr_right fun h => ?_
    rw [h, storedOver, eq_comm]
  | some =>
    simp only [write, steps_ok, Option.map_eq_some_iff]
    constructor
    · rintro ⟨old, hold, hrevision, rfl⟩
      exact ⟨⟨old, hold, hrevision⟩, by rw [hold]; rfl⟩
    · rintro ⟨⟨old, hold, hrevision⟩, rfl⟩
      exact ⟨old, hold, hrevision, by rw [hold]; rfl⟩

namespace Content

variable {c c' : Content} {changes : List EntityRevisionChange} {s : EntityState}

/-- A put writes the row of a node or of another entity. -/
theorem applyPut_cases (h : c.applyPut changes s = .ok c') :
    (∃ node nodes, s = .narrativeNode node ∧
      c.nodes.applyNarrativeNode (changeIndex changes s.key) node = .ok nodes ∧
      c' = { c with nodes }) ∨
    (s.key.kind ≠ .narrativeNode ∧
      (c.entities.find? s.key).map (·.revision) = (changeIndex changes s.key).bind (·.before) ∧
      (∀ a, s = .alignment a → (c.nodes.find? a.narrativeNodeID).isSome) ∧
      c' = { c with
        entities := c.entities.put (EntityState.storedOver (c.entities.find? s.key) s) }) := by
  cases s with
  | narrativeNode node =>
    simp only [applyPut, steps_ok] at h
    obtain ⟨nodes, hnodes, rfl⟩ := h
    exact .inl ⟨node, nodes, rfl, hnodes, rfl⟩
  | transcriptCorrection s | asset s =>
    simp only [applyPut, applyTranscriptCorrection, applyAsset, steps_ok, write_ok] at h
    obtain ⟨_, ⟨-, hbefore, rfl⟩, rfl⟩ := h
    exact .inr ⟨by simp [key], hbefore, by simp, rfl⟩
  | caption s =>
    simp only [applyPut, applyCaption, steps_ok, write_ok] at h
    obtain ⟨_, ⟨-, _, ⟨hbefore, rfl⟩, _, -, rfl⟩, rfl⟩ := h
    exact .inr ⟨by simp [key], hbefore, by simp, rfl⟩
  | alignment s =>
    simp only [applyPut, applyAlignment, steps_ok, write_ok] at h
    obtain ⟨_, ⟨_, ⟨hbefore, rfl⟩, _, -, rfl⟩, hnode, rfl⟩ := h
    exact .inr ⟨by simp [key], hbefore, by simpa using hnode, rfl⟩
  | clip s =>
    simp only [applyPut, applyClip, steps_ok, write_ok] at h
    obtain ⟨_, ⟨-, -, -, hbefore, rfl⟩, rfl⟩ := h
    exact .inr ⟨by simp [key], hbefore, by simp, rfl⟩
  | linkGroup s =>
    simp only [applyPut, applyLinkGroup, steps_ok, write_ok] at h
    obtain ⟨_, ⟨hbefore, rfl⟩, rfl⟩ := h
    exact .inr ⟨by simp [key], hbefore, by simp, rfl⟩

variable {change : EntityRevisionChange}

/-- An aggregate change advances the revision of one thing, which is where it expects it. -/
theorem applyAggregateRevision_cases (h : c.applyAggregateRevision change = .ok c') :
    (change.before.isSome ∧ c.revision? change.key = change.before) ∧
    ((change.key.kind = .narrativeDocument ∧ c' = { c with documentRevision := change.after }) ∨
    (change.key.kind = .sequence ∧ c' = { c with sequenceRevision := change.after }) ∨
    (∃ row, change.key.kind = .narrativeNode ∧ c.nodes.find? change.key.id = some row ∧
      c' = { c with nodes := c.nodes.set change.key.id { row with revision := change.after } }) ∨
    (∃ row, change.key.kind = .track ∧ c.tracks.find? change.key.id = some row ∧ c' = { c with
        tracks := c.tracks.set change.key.id { row with revision := change.after } })) := by
  simp only [applyAggregateRevision, steps_ok] at h
  obtain ⟨_, hbefore, h⟩ := h
  rw [hbefore]
  split at h
  · next hkind =>
    simp only [steps_ok] at h
    obtain ⟨⟨hid, rfl⟩, rfl⟩ := h
    exact ⟨⟨rfl, by simp [revision?, hkind, hid]⟩, .inl ⟨hkind, rfl⟩⟩
  · next hkind =>
    simp only [steps_ok] at h
    obtain ⟨⟨hid, rfl⟩, rfl⟩ := h
    exact ⟨⟨rfl, by simp [revision?, hkind, hid]⟩, .inr (.inl ⟨hkind, rfl⟩)⟩
  · next hkind =>
    simp only [steps_ok] at h
    obtain ⟨row, hrow, rfl, rfl⟩ := h
    exact ⟨⟨rfl, by simp [revision?, hkind, hrow]⟩, .inr (.inr (.inl ⟨row, hkind, hrow, rfl⟩))⟩
  · next hkind =>
    simp only [steps_ok] at h
    obtain ⟨row, hrow, rfl, rfl⟩ := h
    exact ⟨⟨rfl, by simp [revision?, hkind, hrow]⟩, .inr (.inr (.inr ⟨row, hkind, hrow, rfl⟩))⟩
  · exact (throw_ok.1 h).elim

/-! ## Chains of writes -/

/-- A single write. -/
inductive Write : Content → Content → Prop
  /-- An entity is put. -/
  | put {c c' : Content} {changes : List EntityRevisionChange} {s : EntityState}
      (h : c.applyPut changes s = .ok c') : Write c c'
  /-- The revision of a head, a section or a track advances. -/
  | aggregate {c c' : Content} {change : EntityRevisionChange}
      (h : c.applyAggregateRevision change = .ok c') : Write c c'
  /-- An asset is registered. -/
  | register {c : Content} {asset : AssetState}
      (fresh : c.entities.find? ⟨.asset, asset.id⟩ = none) :
      Write c { c with entities := c.entities.put (.asset asset) }
  /-- The fingerprint of an asset is accepted. -/
  | identify {c : Content} {asset : AssetState} {fingerprint : Digest}
      (found : c.entities.find? ⟨.asset, asset.id⟩ = some (.asset asset)) :
      Write c { c with
        entities := c.entities.put (.asset { asset with acceptedFingerprint := some fingerprint }) }

/-- A chain of writes. -/
abbrev Writes : Content → Content → Prop := Relation.ReflTransGen Write

theorem Writes.invariant (Inv : Content → Prop) (hwrite : ∀ c c', Inv c → Write c c' → Inv c')
    (h : Writes c c') (hc : Inv c) : Inv c' := by
  induction h with
  | refl => exact hc
  | tail _ hlast ih => exact hwrite _ _ ih hlast

theorem Writes.of_foldlM {α : Type} {f : Content → α → Except EditError Content} {l : List α}
    (hf : ∀ c a c', f c a = .ok c' → Writes c c') (h : l.foldlM f c = .ok c') : Writes c c' :=
  foldlM_invariant (Writes c) (fun a _ d d' hd h => hd.trans (hf d a d' h)) .refl h

theorem writes_of_applyVersionEntities {current target : ProjectVersionState}
    {kind : EditEntityKind} (h : c.applyVersionEntities current target changes kind = .ok c') :
    Writes c c' := by
  refine Writes.of_foldlM (fun d s d' hd => ?_) h
  obtain ⟨_, -, hd⟩ := bind_ok.1 hd
  exact .single (.put hd)

variable {node : NarrativeNodeState}

theorem writes_of_applyVersionNode
    (h : c.applyVersionNode changes node = .ok c') : Writes c c' := by
  obtain ⟨_, -, h⟩ := bind_ok.1 h
  exact .single (.put h)

theorem writes_of_applyVersionNarrative {current target : ProjectVersionState}
    (h : c.applyVersionNarrative current target changes = .ok c') : Writes c c' := by
  obtain ⟨d, hd, h⟩ := bind_ok.1 h
  exact (Writes.of_foldlM (fun _ _ _ => writes_of_applyVersionNode) hd).trans
    (Writes.of_foldlM (fun _ _ _ => writes_of_applyVersionNode) h)

theorem writes_of_restoreVersionState {target : ProjectVersionState} {revision : Revision}
    (h : c.restoreVersionState target revision = .ok c') : Writes c c' := by
  simp only [restoreVersionState, bind_ok] at h
  obtain ⟨_, -, _, -, _, -, _, h₁, _, h₂, _, h₃, _, h₄, _, h₅, _, h₆, h⟩ := h
  exact (writes_of_applyVersionEntities h₁).trans <|
    (writes_of_applyVersionEntities h₂).trans <| (writes_of_applyVersionNarrative h₃).trans <|
    (writes_of_applyVersionEntities h₄).trans <| (writes_of_applyVersionEntities h₅).trans <|
    (writes_of_applyVersionEntities h₆).trans (writes_of_applyVersionEntities h)

/-! ## What writes keep -/

variable {root : ID}

/-- The nodes keep hanging together. -/
theorem rooted_write (h : c.nodes.Rooted root) (hwrite : Write c c') : c'.nodes.Rooted root := by
  cases hwrite with
  | put hput =>
    rcases applyPut_cases hput with ⟨_, _, -, hnodes, rfl⟩ | ⟨-, -, -, rfl⟩
    · exact (h.applyNarrativeNode hnodes).1
    · exact h
  | aggregate hchange =>
    rcases (applyAggregateRevision_cases hchange).2 with ⟨-, rfl⟩ | ⟨-, rfl⟩ | ⟨row, -, hrow, rfl⟩ |
      ⟨row, -, -, rfl⟩
    · exact h
    · exact h
    · exact (h.setRevision hrow _).1
    · exact h
  | register => exact h
  | identify => exact h

/-- The content has a row of the entity, of which an update to this state would write
    everything: the columns that updates do not write are the same. -/
def Has (c : Content) : EntityState → Prop
  | .narrativeNode node => ∃ row, c.nodes.find? node.id = some row ∧ row.value.kind = node.kind ∧
    node.updatedValue row.value = node.value
  | s => ∃ old, c.entities.find? s.key = some old ∧ old.updating s = s

theorem has_iff (hs : s.key.kind ≠ .narrativeNode) :
    c.Has s ↔ ∃ old, c.entities.find? s.key = some old ∧ old.updating s = s := by
  cases s with
  | narrativeNode => exact absurd rfl hs
  | _ => rfl

/-- The entities as they are loaded. -/
theorem has_of_load? {key : EntityKey} (h : c.load? key = some s) : c.Has s := by
  unfold load? at h
  split at h
  · simp only [loadNode?, Option.map_map, Option.map_eq_some_iff] at h
    obtain ⟨row, hrow, rfl⟩ := h
    exact ⟨row, hrow, rfl, (c.nodeState key.id row).updatedValue_self⟩
  · next hkind =>
    have hkey := key_of_find? h
    exact (has_iff (by rwa [hkey])).2 ⟨s, find?_key h, s.updating_self⟩

theorem has_entities {entities : EntityTable}
    (h : s.key.kind ≠ .narrativeNode → ∀ old, c.entities.find? s.key = some old →
      old.updating s = s → ∃ old, entities.find? s.key = some old ∧ old.updating s = s)
    (hs : c.Has s) : Has { c with entities } s := by
  by_cases hkind : s.key.kind = .narrativeNode
  · cases s with
    | narrativeNode => exact hs
    | _ => simp [key] at hkind
  · obtain ⟨old, hold, hsame⟩ := (has_iff hkind).1 hs
    exact (has_iff hkind).2 (h hkind old hold hsame)

theorem has_putNode
    {nodes : NarrativeTable} (hput : c.nodes.PutNode change node nodes) (hs : c.Has s) :
    Has { c with nodes } s := by
  cases s with
  | narrativeNode n =>
    obtain ⟨row, hrow, hkind, hvalue⟩ := hs
    have hrows := hput.rows n.id
    split at hrows
    · next hid =>
      rw [hid] at hrow
      obtain ⟨index, hindex⟩ := NarrativeTable.find?_of_unplaced? hrows
      have hnode := hput.kind row hrow
      refine ⟨_, hindex, ?_, ?_⟩
      · rw [hrow]
        exact (NarrativeNodeState.kind_updatedValue hnode).trans hkind
      · rw [hrow]
        exact (NarrativeNodeState.updatedValue_updatedValue hnode hkind).trans hvalue
    · rw [NarrativeTable.unplaced?_of_find? hrow] at hrows
      obtain ⟨_, hindex⟩ := NarrativeTable.find?_of_unplaced? hrows
      exact ⟨_, hindex, hkind, hvalue⟩
  | _ => exact hs

/-- No write takes a row away or changes a column that updates do not write. -/
theorem has_write (hrooted : c.nodes.Rooted root) (hs : c.Has s) (hwrite : Write c c') :
    c'.Has s := by
  cases hwrite with
  | put hput =>
    rcases applyPut_cases hput with ⟨_, _, -, hnodes, rfl⟩ | ⟨-, -, -, rfl⟩
    · obtain ⟨change, -, -, hput⟩ := hrooted.putNode hnodes
      exact has_putNode hput hs
    · refine has_entities (fun hkind old hold hsame => ?_) hs
      rw [find?_put, key_storedOver]
      split
      · next s' hkey =>
        rw [hkey] at hold
        have hkeys := key_of_find? hold
        refine ⟨_, rfl, ?_⟩
        rw [hold, storedOver, updating_updating hkeys.symm (hkey.trans hkeys.symm), hsame]
      · exact ⟨old, hold, hsame⟩
  | @aggregate _ change hchange =>
    rcases (applyAggregateRevision_cases hchange).2 with ⟨-, rfl⟩ | ⟨-, rfl⟩ | ⟨row, -, hrow, rfl⟩ |
      ⟨row, -, -, rfl⟩
    · exact hs
    · exact hs
    · cases s with
      | narrativeNode n =>
        obtain ⟨old, hold, hkind, hvalue⟩ := hs
        by_cases hid : n.id = change.key.id
        · rw [hid, hrow] at hold
          obtain ⟨⟩ := hold
          refine ⟨{ row with revision := change.after }, ?_, hkind, hvalue⟩
          rw [hid]
          exact Table.find?_set_self _ _ _
        · exact ⟨old, (Table.find?_set_ne _ _ hid).trans hold, hkind, hvalue⟩
      | _ => exact hs
    · exact hs
  | @register asset fresh =>
    refine has_entities (fun _ old hold hsame => ⟨old, ?_, hsame⟩) hs
    rw [find?_put_ne, hold]
    rintro hkey
    rw [hkey] at hold
    exact absurd (fresh.symm.trans hold) (by simp)
  | @identify asset fingerprint found =>
    refine has_entities (fun hkind old hold hsame => ?_) hs
    rw [find?_put]
    split
    · next hkey =>
      refine ⟨_, rfl, ?_⟩
      cases s <;> rfl
    · exact ⟨old, hold, hsame⟩

theorem has_writes (hrooted : c.nodes.Rooted root) (hs : c.Has s) (h : Writes c c') : c'.Has s :=
  (h.invariant (fun c => c.nodes.Rooted root ∧ c.Has s)
    (fun _ _ hc hwrite => ⟨rooted_write hc.1 hwrite, has_write hc.1 hc.2 hwrite⟩)
    ⟨hrooted, hs⟩).2

end Content

namespace Project

variable {p p' : Project}

theorem writes_of_applyNormalizedOperation {changes : List EntityRevisionChange} {c c' : Content}
    {operation : NormalizedEditOperation}
    (h : p.applyNormalizedOperation changes c operation = .ok c') : Content.Writes c c' := by
  cases operation with
  | put s => exact .single (.put h)
  | restoreProjectVersion =>
    simp only [applyNormalizedOperation, applyProjectVersionRestore, bind_ok] at h
    obtain ⟨_, -, _, -, h⟩ := h
    exact Content.writes_of_restoreVersionState h

theorem writes_of_applyTransaction {t : EditTransaction} {c' : Content}
    (h : p.applyTransaction t = .ok c') : Content.Writes p.content c' := by
  obtain ⟨c, hc, h⟩ := bind_ok.1 h
  exact (Content.Writes.of_foldlM (fun _ _ _ => writes_of_applyNormalizedOperation) hc).trans
    (Content.Writes.of_foldlM (fun _ _ _ h => .single (.aggregate h)) h)

variable [Uniseg]

/-- A request changes the content by a chain of writes. -/
theorem writes_of_serve {request : Request} (h : p.serve request = .ok p') :
    Content.Writes p.content p'.content := by
  rcases serve_cases h with hquiet | ⟨_, t, -, hcommits⟩ | ⟨_, -, hregisters⟩ |
    ⟨input, asset, -, hidentifies⟩
  · rw [hquiet.content]
  · have hwrites := writes_of_applyTransaction hcommits.applied
    exact hwrites
  · rw [hregisters.result]
    exact .single (.register hregisters.fresh)
  · rw [hidentifies.result]
    have hfound := asset?_eq_some.1 hidentifies.found
    have hid : input.assetID = asset.id := (congrArg EntityKey.id (key_of_find? hfound)).symm
    rw [hid] at hfound
    exact .single (.identify hfound)

end Project

end OpenCut
