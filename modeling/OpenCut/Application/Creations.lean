import OpenCut.Application.Acts

/-!
# What a run of the normalizer creates

Every local name of a request stands for an entity that the request creates: the operation
that declares the name puts the entity, as a new one (`runNormalizer_creates`). Since an
entity is put once, what is allocated is never put as an entity that was there.
-/

namespace OpenCut

open Outcome List

/-- A well-formed operation on entities creates what it declares; an alignment is bound when the
    alignments are dealt with. -/
theorem EditOperationInput.creations_of_createdLocals {op : EditOperationInput} (hvalid : op.valid)
    {named : LocalID × EditEntityKind} (hnamed : named ∈ op.createdLocals) :
    named ∈ op.creations ∨ ∃ createAs node targets,
      op = .bindAlignment createAs node targets ∧ named = (createAs, .alignment) := by
  cases op with
  | bindAlignment createAs node targets =>
    exact .inr ⟨createAs, node, targets, rfl, mem_singleton.1 hnamed⟩
  | splitClip clipID scope =>
    cases scope with
    | single =>
      simp only [EditOperationInput.valid, Bool.and_eq_true, Option.isNone_iff_eq_none] at hvalid
      obtain ⟨-, ⟨-, rfl⟩, rfl⟩ := hvalid
      exact .inl hnamed
    | linked => exact .inl hnamed
  | _ => exact .inl hnamed

namespace EditNormalizer

variable {I : NormalizeEditInput} {n n' : EditNormalizer} [Uniseg]

/-- A run creates all that its operations declare. -/
theorem runNormalizer_creates (hkeyed : I.TracksKeyed)
    (hvalid : ∀ op ∈ I.input.operations, op.valid) (h : runNormalizer I = .ok n) :
    ∀ op ∈ I.input.operations, ∀ named ∈ op.createdLocals, I.Created n.changes named := by
  simp only [runNormalizer, steps_ok] at h
  obtain ⟨_, hn₀, m, hm, -, -, -, k, hk, -, -, rfl⟩ := h
  -- What is created stays created; an alignment to be bound waits for the second loop.
  obtain ⟨⟨es, ps, hes⟩, hcreated⟩ := foldlM_progress (fun done (m : EditNormalizer) =>
    (∃ es ps, Balanced I m es ps []) ∧ ∀ op ∈ done, ∀ named ∈ op.creations,
      I.Created m.changes named) (by
      rintro done op m m' ⟨⟨es, ps, h⟩, hdone⟩ hop
      obtain ⟨es', h'⟩ := normalizeEntityOperation_emits hkeyed h hop
      refine ⟨⟨_, _, h'⟩, fun other hother named hnamed => ?_⟩
      rcases mem_append.1 hother with hother | hother
      · exact (hdone other hother named hnamed).mono (h.changes_mono h' (prefix_append _ _))
      · obtain rfl := mem_singleton.1 hother
        cases hplaces : other.places with
        | none =>
          obtain ⟨_, hhandled⟩ := normalizeEntityOperation_handles hkeyed h hplaces hop
          exact hhandled.created named hnamed
        | some id =>
          cases other with
          | setClipPlacement => exact absurd hnamed not_mem_nil
          | _ => cases hplaces)
    ⟨⟨[], [], newEditNormalizer_balanced hn₀⟩, by simp⟩ hm
  obtain ⟨⟨es', hes'⟩, hbound⟩ := foldlM_progress (fun done (k : EditNormalizer) =>
    (∃ es', Balanced I k (es ++ es') ps []) ∧ ∀ createAs node targets,
      .bindAlignment createAs node targets ∈ done → I.Created k.changes (createAs, .alignment)) (by
      rintro _ op k k' ⟨⟨es', h⟩, hdone⟩ hop
      obtain ⟨_, -, -, es'', h'', -⟩ := normalizeAlignmentOperation_handled h hop
      refine ⟨⟨es' ++ es'', by rw [← append_assoc]; exact h''.balanced⟩,
        fun createAs node targets hmem => ?_⟩
      rcases mem_append.1 hmem with hmem | hmem
      · exact (hdone createAs node targets hmem).mono
          (h.changes_mono h''.balanced (prefix_append _ _))
      · obtain rfl := mem_singleton.1 hmem
        obtain ⟨s, hs⟩ := bindAlignment_handled h hop
        exact hs.created _ mem_cons_self)
    ⟨⟨[], by rwa [append_nil]⟩, by simp⟩ hk
  intro op hop named hnamed
  rcases op.creations_of_createdLocals (hvalid op hop) hnamed with hdone | ⟨createAs, node, targets,
    rfl, rfl⟩
  · exact (hcreated op hop named hdone).mono (hes.changes_mono hes' (prefix_append _ _))
  · exact hbound createAs node targets hop

variable {u : Unit}

omit [Uniseg] in
theorem validateNormalizationInput_ok (h : validateNormalizationInput I = .ok u) :
    validateEditProposeInput I.input = .ok () ∧
      validateAllocationMatchesOperations I.allocation I.input.operations = .ok () := by
  unfold validateNormalizationInput at h
  obtain ⟨-, -, h⟩ := bind_ok.1 h
  split at h
  · simp only [bind_ok] at h
    obtain ⟨-, -, _, hinput, hallocation⟩ := h
    exact ⟨hinput, hallocation⟩
  · simp only [bind_ok] at h
    obtain ⟨-, -, _, hinput, hallocation⟩ := h
    exact ⟨hinput, hallocation⟩

omit [Uniseg] in
/-- What is allocated is declared by an operation. -/
theorem declared_of_validateNormalizationInput
    (h : validateNormalizationInput I = .ok u) {a : LocalAllocation} (ha : a ∈ I.allocation) :
    ∃ op ∈ I.input.operations, (a.localID, a.kind) ∈ op.createdLocals := by
  have hallocation := (validateNormalizationInput_ok h).2
  simp only [validateAllocationMatchesOperations, steps_ok] at hallocation
  obtain ⟨-, hexpected⟩ := hallocation
  rcases Table.find?_foldl_set (f := Prod.fst) (g := Prod.snd) (hexpected a ha) with
    ⟨named, hnamed, hname, hkind⟩ | hempty
  · rw [← hname, ← hkind]
    exact mem_flatMap.1 hnamed
  · rw [Table.find?_empty] at hempty
    cases hempty

omit [Uniseg] in
/-- The operations of a request that is accepted are well formed. -/
theorem valid_of_validateNormalizationInput (h : validateNormalizationInput I = .ok u) :
    ∀ op ∈ I.input.operations, op.valid := by
  have hinput := (validateNormalizationInput_ok h).1
  simp only [validateEditProposeInput, bind_ok] at hinput
  obtain ⟨-, -, -, -, -, -, -, -, -, -, -, -, _, hcreated, -⟩ := hinput
  intro op hop
  obtain ⟨i, hi, rfl⟩ := getElem_of_mem hop
  have hmem : (I.input.operations[i], i) ∈ I.input.operations.zipIdx := by
    rw [mem_zipIdx_iff_getElem?]
    exact getElem?_eq_getElem hi
  refine foldlM_establishes (fun _ => (I.input.operations[i]).valid) hmem (fun c c' hc => ?_)
    (fun _ _ _ _ hvalid _ => hvalid) hcreated
  simp only [validateOperationAt, steps_ok] at hc
  obtain ⟨hvalid, -⟩ := hc
  exact hvalid

/-- What is allocated is created by the run. -/
theorem created_of_allocates (hkeyed : I.TracksKeyed)
    (hvalid : validateNormalizationInput I = .ok u) (h : runNormalizer I = .ok n) {key : EntityKey}
    (hkey : I.Allocates key) : ∃ change ∈ n.changes, change.key = key ∧ change.before = none := by
  obtain ⟨a, ha, hkind, hid⟩ := hkey
  have hoperations := valid_of_validateNormalizationInput hvalid
  obtain ⟨op, hop, hdeclared⟩ := declared_of_validateNormalizationInput hvalid ha
  obtain ⟨id, hallocated, change, hmem, hchange, hnew⟩ :=
    runNormalizer_creates hkeyed hoperations h op hop _ hdeclared
  have hnodup : (I.allocation.map (·.localID)).Nodup := by
    simp only [runNormalizer, newEditNormalizer, bind_ok, ensure_ok] at h
    obtain ⟨_, ⟨-, hnodup, -⟩, -⟩ := h
    exact hnodup
  -- A local name has one allocation.
  simp only [NormalizeEditInput.allocated, steps_ok] at hallocated
  obtain ⟨b, hb, -, rfl⟩ := hallocated
  have hfound : I.allocations.find? a.localID = some a :=
    Table.find?_foldl_set_of_mem (g := fun a => a) hnodup ha
  obtain rfl := Option.mem_unique hfound hb
  exact ⟨change, hmem, hchange.trans (EntityKey.ext hkind hid), hnew⟩

end EditNormalizer

end OpenCut
