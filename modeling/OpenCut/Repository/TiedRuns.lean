import OpenCut.Repository.TiedEdits
import OpenCut.Repository.Undone

/-!
# Sections and link groups in every run

Whatever is proposed, applied, undone and restored, in whatever order, the ties of a project
stay good (`Project.Tied.reaches`). So in every project that is reached from a new one, a
live node is under a live section, and the live children of a section have the indices from
zero on (`narrative_placed`); and in every project that is reached from one in order, a live
link group has from two to 64 live members, and every live clip that names a link group
names a live one (`linkGroups_wellformed`).
-/

namespace OpenCut

open Outcome Ties Content List EntityState RegisterAssetRecord

/-! ## Records -/

/-- The transaction put the states, which made `w'` of the world `w`, and its inverse puts
    back the ties that they replaced. -/
structure EditTransaction.Recorded (t : EditTransaction) (states back : List EntityState)
    (w w' : World EntityKey) : Prop where
  puts : t.Puts states back
  record : (tiesPatch t.changes states).Record tieRule (tiesOf back) w w'

section

variable {proposal : EditProposal} {states back : List EntityState} {p p' : Project}
  {t : EditTransaction} {w w' : World EntityKey} {root : ID}

/-- The heads above a proposal have no ties. -/
theorem tiesPatch_transactionChanges (h : proposal.Puts states) (c : Content) :
    tiesPatch (c.transactionChanges proposal) states = proposal.patch states := by
  have hchange : (tiesPatch (c.transactionChanges proposal) states).change =
      (proposal.patch states).change := by
    funext key
    refine Option.ext fun entry => ?_
    rw [change_eq_some (h.nodup_transactionChanges c), change_eq_some h.nodup]
    refine and_congr_right fun htied => exists_congr fun change => and_congr_left ?_
    rintro ⟨rfl, -⟩
    rw [EditProposal.Puts.mem_transactionChanges]
    refine or_iff_left ?_
    rintro (⟨-, rfl⟩ | ⟨-, rfl⟩)
    · cases htied
    · cases htied
  exact congrArg (Patch.mk · (tiesOf states)) hchange

/-- What is committed is on record. -/
theorem EditProposal.MadeIn.recorded (h : proposal.MadeIn states back w)
    (hfollows : w.Follows p.content.world) (hwell : WellTied tieRule p.content.tie)
    (hrooted : p.content.nodes.Rooted root) (hcommits : p.Commits proposal t p') :
    t.Recorded states back p.content.world p'.content.world := by
  have hpatch := h.puts.commits_patch hrooted hcommits
  have hsound := h.sound.later tieRule_loose hfollows hwell hpatch.meets
  obtain ⟨id, _, rfl⟩ := hcommits.transaction
  refine ⟨⟨h.puts.operations, h.inverse, h.puts.distinct, h.distinct, h.keys,
    h.puts.nodup_transactionChanges p.content, fun s hs => ?_,
    fun change hchange hinner hnot => ?_⟩,
    ?_⟩
  · obtain ⟨change, hchange, hkey, -⟩ := h.puts.entry s hs
    exact ⟨change, EditProposal.Puts.mem_transactionChanges.2 (.inl hchange), hkey⟩
  · rcases EditProposal.Puts.mem_transactionChanges.1 hchange with hchange | ⟨-, rfl⟩ | ⟨-, rfl⟩
    · exact h.puts.around change hchange hnot
    · cases hinner
    · cases hinner
  · change (tiesPatch (p.content.transactionChanges proposal) states).Record _ _ _ _
    rw [tiesPatch_transactionChanges h.puts]
    refine ⟨hsound, hpatch, fun key => ?_⟩
    change tiesOf back key = (tiesOf states key).map fun _ => p.content.tie key
    cases hput : tiesOf states key with
    | none =>
      rw [Option.map_none, tiesOf_eq_none]
      intro htied hmem
      exact tiesOf_eq_none.1 hput htied ((h.keys key).1 hmem)
    | some tie =>
      -- What is put is named, so it has had its tie since the proposal was made.
      obtain ⟨htied, s, hs, rfl, -⟩ := (tiesOf_eq_some h.puts.distinct).1 hput
      obtain ⟨b, hb, hkey⟩ := mem_map.1 ((h.keys s.key).2 (mem_map_of_mem hs))
      obtain ⟨c, hc⟩ := (hsound.covers hpatch.meets).change_of_put hput
      have htie := World.tie_of_view (h.sound.view_eq tieRule_loose hfollows hwell hpatch.meets hc)
      rw [Option.map_some, (tiesOf_eq_some h.distinct)]
      refine ⟨htied, b, hb, hkey, ?_⟩
      rw [h.back (h.sound.meets hfollows hpatch.meets) b hb, hkey]
      exact htie.symm

end

/-! ## Undoing -/

section

variable {states back result : List EntityState} {c : Content} {t : EditTransaction}
  {proposal : EditProposal} {w w' : World EntityKey}

theorem tiesOf_rebased (h : Rebased states result) : tiesOf result = tiesOf states := by
  funext key
  have hfind : ∀ l : List EntityState, (l.find? fun s => s.key = key).map (·.tie) =
      ((l.map fun s => (s.key, s.unrevised)).find? fun s => s.1 = key).map fun s => s.2.tie := by
    intro l
    rw [find?_map, Option.map_map]
    exact congrArg (Option.map · _) (funext fun s => s.tie_unrevised.symm)
  rw [tiesOf, tiesOf, hfind, hfind, h]

/-- An undo is made in the project as it is. -/
theorem EditTransaction.Recorded.undo (h : t.Recorded states back w w')
    (hfollows : w'.Follows c.world) (hwell : WellTied tieRule c.tie)
    (hcurrent : c.validateUndoTargetCurrent t = .ok ())
    (hundoes : proposal.Undoes c t states back) :
    ∃ operations inverse, proposal.MadeIn operations inverse c.world := by
  obtain ⟨operations, hputs, hoperations⟩ := hundoes.puts
  obtain ⟨inverse, hinverse, hstates⟩ := hundoes.inverse
  have htied : ∀ {change : EntityRevisionChange}, change.key.kind.tied → change.isInner := by
    intro change htied
    refine EntityRevisionChange.isInner_iff.2 ⟨fun hkind => ?_, fun hkind => ?_⟩
    · rw [hkind] at htied
      cases htied
    · rw [hkind] at htied
      cases htied
  have hrebases : (proposal.patch operations).Rebases (tiesPatch t.changes states) c.world := by
    refine ⟨fun key => ?_, fun key entry hentry => ?_, fun key n m hentry => ?_⟩
    · rw [change_eq_none, change_eq_none]
      refine imp_congr_right fun hkey => not_congr ?_
      rw [hundoes.names, mem_map]
      constructor
      · rintro ⟨change, hchange, -, hchangeKey⟩
        exact ⟨change, hchange, hchangeKey⟩
      · rintro ⟨change, hchange, rfl⟩
        exact ⟨change, hchange, htied hkey, rfl⟩
    · obtain ⟨hkey, change, hchange, rfl, rfl⟩ := (change_eq_some h.puts.nodup).1 hentry
      rw [revision?_world_of_tied hkey]
      exact ensure_ok.1 hcurrent change hchange (htied hkey)
    · obtain ⟨hkey, change, hchange, rfl, heq⟩ := (change_eq_some hputs.nodup).1 hentry
      obtain ⟨r, hr, hbefore, hafter⟩ := hundoes.made change hchange
      rw [hbefore, hafter] at heq
      cases heq
      rw [revision?_world_of_tied hkey]
      exact ⟨hr, Nat.lt_succ_self _⟩
  obtain ⟨hsound, hback⟩ := h.record.undo_sound tieRule_loose hfollows hwell
    (Q := proposal.patch operations) (tiesOf_rebased hoperations) hrebases
  refine ⟨operations, inverse, hputs, hinverse, ?_, fun key => ?_, hsound, fun _ s hs => ?_⟩
  · rw [hstates.keys]
    exact h.puts.distinct
  · rw [hstates.keys, hoperations.keys, h.puts.keys]
  · have hdistinct : (inverse.map (·.key)).Nodup := by
      rw [hstates.keys]
      exact h.puts.distinct
    by_cases hkey : s.key.kind.tied
    · have hput : tiesOf states s.key = some s.tie := by
        rw [← tiesOf_rebased hstates]
        exact (tiesOf_eq_some hdistinct).2 ⟨hkey, s, hs, rfl, rfl⟩
      have hsame := hput.symm.trans (hback s.key)
      obtain ⟨_, -, htie⟩ := Option.map_eq_some_iff.1 hsame.symm
      exact htie.symm
    · rw [tie_of_not_tied (by simpa using hkey)]
      exact (c.world.absent s.key (if_neg hkey)).symm

end

/-! ## Projects in order -/

/-- The project is in order: its ties are good, and so are those of every version; an open
    proposal was made in a world that the project has followed since, and so has every
    transaction that can be undone. -/
structure Project.Tied (root : ID) (p : Project) : Prop where
  wellformed : p.Wellformed root
  ties : WellTied tieRule p.content.tie
  versions : ∀ id version, p.versions.find? id = some version → WellTied tieRule version.state.tie
  proposals : ∀ id proposal, p.proposals.find? id = some proposal → proposal.status = .open →
    ∃ states back w, proposal.MadeIn states back w ∧ w.Follows p.content.world
  transactions : ∀ id t, p.transactions.find? id = some t →
    (∃ operation ∈ t.inverseOperations, operation.entity? = none) ∨
    ∃ states back w w', t.Recorded states back w w' ∧ w'.Follows p.content.world

/-- A restore cannot be undone. -/
theorem entity?_of_buildUndoProposal {p : Project} {record : UndoEditRecord}
    {target : EditTransaction} {proposal : EditProposal}
    (h : p.buildUndoProposal record target = .ok proposal) :
    ∀ operation ∈ target.inverseOperations, operation.entity? ≠ none := by
  obtain ⟨_, hcurrent, -⟩ := bind_ok.1 h
  intro operation hoperation hnone
  refine (foldlM_establishes (fun _ => False) hoperation (fun base base' hop => ?_)
    (fun _ _ _ _ hfalse _ => hfalse) hcurrent)
  simp only [NormalizedEditOperation.needEntity, hnone, steps_ok] at hop
  obtain ⟨s, hs, -⟩ := hop
  cases hs

section

variable {p p' : Project} {root : ID} {t : EditTransaction} {proposal : EditProposal}

/-- A restore ties everything as the version has it, and everything advances. -/
theorem ties_of_restore {reference : ProjectVersionRestoreRef} {version : ProjectVersion} {id : ID}
    (hp : p.Wellformed root) (hversion : p.versions.find? id = some version)
    (hoperations : proposal.operations = [.restoreProjectVersion reference])
    (hreference : reference.digest = version.state) (hchanges : proposal.changes = [])
    (hcommits : p.Commits proposal t p') :
    p'.content.tie = version.state.tie ∧ p.content.world.Follows p'.content.world := by
  obtain ⟨_, _, rfl⟩ := hcommits.transaction
  obtain ⟨c, hc, hcontent⟩ := applyTransaction_of_restore
    (q := { p with versions := p'.versions }) hoperations hchanges hcommits.applied
  have hv := hp.versions hversion
  rw [hreference] at hc
  obtain ⟨_, _, hcurrent, hadvances, hnodes, hentities⟩ :=
    restored_of_restoreVersionState hp.rooted hv hc
  refine ⟨?_, World.Follows.of_advance fun key n hn => ?_⟩
  · have htie := tie_of_restored hv hcurrent hnodes hentities
    rw [hcontent]
    exact htie
  · obtain ⟨htied, hn⟩ := Option.ite_none_right_eq_some.1 hn
    have hkind : key.kind ≠ .track := by
      intro hkind
      rw [hkind] at htied
      cases htied
    refine ⟨n + 1, ?_, Nat.lt_succ_self n⟩
    rw [revision?_world_of_tied htied, hcontent]
    exact revision?_of_restored hv hcurrent hadvances hnodes hentities hkind hn

end

namespace Project.Tied

variable {p p' : Project} {root : ID} {t : EditTransaction} {proposal : EditProposal}
  {request : Request}

/-- What a commit does to a project in order. -/
theorem commits [Uniseg] (hp : p.Tied root) (hsource : p.Source request proposal)
    (hcommits : p.Commits proposal t p') :
    WellTied tieRule p'.content.tie ∧ p.content.world.Follows p'.content.world ∧
      ((∃ operation ∈ t.inverseOperations, operation.entity? = none) ∨
        ∃ states back, t.Recorded states back p.content.world p'.content.world) := by
  have hrecorded : ∀ {states back w}, proposal.MadeIn states back w →
      w.Follows p.content.world → WellTied tieRule p'.content.tie ∧
        p.content.world.Follows p'.content.world ∧
        ((∃ operation ∈ t.inverseOperations, operation.entity? = none) ∨
          ∃ states back, t.Recorded states back p.content.world p'.content.world) := by
    intro states back w hmade hfollows
    have hrecord := hmade.recorded hfollows hp.ties hp.wellformed.rooted hcommits
    obtain ⟨hwell, hlater⟩ := hrecord.record.result
    exact ⟨hwell, hlater, .inr ⟨states, back, hrecord⟩⟩
  cases hsource with
  | stored found status =>
    obtain ⟨states, back, w, hmade, hfollows⟩ := hp.proposals _ _ found status
    have hputs := hmade.puts
    exact hrecorded ⟨⟨hputs.operations, hputs.distinct, hputs.nodup, hputs.entry, hputs.around⟩,
      hmade.inverse, hmade.distinct, hmade.keys, hmade.sound, hmade.back⟩ hfollows
  | normalized normalized =>
    obtain ⟨states, back, hmade⟩ := madeIn_of_normalizeRequest normalized hp.ties
    exact hrecorded hmade (.refl _)
  | undo _ found current built =>
    rcases hp.transactions _ _ found with ⟨operation, hoperation, hnone⟩ |
      ⟨states, back, w, w', hrecord, hfollows⟩
    · exact absurd hnone (entity?_of_buildUndoProposal built operation hoperation)
    · obtain ⟨operations, inverse, hmade⟩ := hrecord.undo hfollows hp.ties current
        (undoes_of_buildUndoProposal hrecord.puts built)
      exact hrecorded hmade (.refl _)
  | @restore record version _ found _ operations inverse _ changes =>
    simp only [Project.loadStoredProjectVersionState, steps_ok] at found
    obtain ⟨_, hversion, -, rfl⟩ := found
    obtain ⟨htie, hfollows⟩ :=
      ties_of_restore hp.wellformed hversion operations rfl changes hcommits
    refine ⟨htie ▸ hp.versions _ _ hversion, hfollows, .inl ?_⟩
    obtain ⟨_, _, rfl⟩ := hcommits.transaction
    obtain ⟨safety, hsafety⟩ := inverse
    exact ⟨.restoreProjectVersion safety, by simp [transactionOf, hsafety], rfl⟩

/-- Putting an asset leaves the world as it is. -/
theorem world_putAsset (c : Content) (asset : AssetState) :
    Content.world { c with entities := c.entities.put (.asset asset) } = c.world := by
  refine world_congr (fun key htied => ?_) (c.tie_putAsset asset)
  rw [revision?_putEntity c (s := .asset asset) (by simp [EntityState.key]), if_neg]
  rintro rfl
  cases htied

/-- A registration is on record: its asset has no ties. -/
theorem recorded_of_registers {record : RegisterAssetRecord} (hp : p.Tied root)
    (hregisters : p.Registers record p') :
    record.transaction.Recorded [.asset record.asset]
      [.asset { record.asset with revision := 2, tombstoned := true }]
      p.content.world p'.content.world := by
  have hworld : p'.content.world = p.content.world := by
    rw [hregisters.result]
    exact world_putAsset p.content record.asset
  have hputs : record.transaction.Puts [.asset record.asset]
      [.asset { record.asset with revision := 2, tombstoned := true }] := by
    refine ⟨rfl, rfl, by simp, by simp, fun key => Iff.rfl, by simp [transaction], ?_, ?_⟩
    · simp [transaction, key, RegisterAssetRecord.asset]
    · simp [transaction, key, RegisterAssetRecord.asset]
  have hchange : ∀ key, (tiesPatch record.transaction.changes [.asset record.asset]).change key =
      none := by
    refine fun key => change_eq_none.2 fun htied hmem => ?_
    rw [mem_singleton.1 hmem] at htied
    cases htied
  have hput : ∀ asset key, tiesOf [.asset asset] key = none := by
    refine fun asset key => tiesOf_eq_none.2 fun htied hmem => ?_
    rw [mem_singleton.1 hmem] at htied
    cases htied
  rw [hworld]
  refine ⟨hputs, ⟨hp.ties, ?_, fun _ => ⟨?_, fun key _ => hput _ key, ?_⟩, ?_⟩,
    ⟨?_, ?_, ?_, ?_⟩, ?_⟩
  · exact fun key n m h => by cases (hchange key).symm.trans h
  · exact fun key n m h => by cases (hchange key).symm.trans h
  · exact fun key tie h => by cases (hput _ key).symm.trans h
  · exact fun _ key entry h => by cases (hchange key).symm.trans h
  · exact fun key entry h => by cases (hchange key).symm.trans h
  · exact fun key entry h => by cases (hchange key).symm.trans h
  · exact fun key _ => rfl
  · exact funext fun key => (Patch.ties_of_not_put (hput _ key)).symm
  · exact fun key => (hput _ key).trans (congrArg (Option.map _) (hput _ key)).symm

/-- What a request does to the ties of a project in order. -/
theorem follows_of_serve [Uniseg] (hp : p.Tied root) (h : p.serve request = .ok p') :
    WellTied tieRule p'.content.tie ∧ p.content.world.Follows p'.content.world := by
  rcases serve_cases h with hquiet | ⟨_, t, hsource, hcommits⟩ | ⟨_, -, hregisters⟩ |
    ⟨input, asset, -, hidentifies⟩
  · rw [hquiet.content]
    exact ⟨hp.ties, .refl _⟩
  · obtain ⟨hwell, hfollows, -⟩ := hp.commits hsource hcommits
    exact ⟨hwell, hfollows⟩
  · exact (hp.recorded_of_registers hregisters).record.result
  · rw [hidentifies.result]
    have hworld := world_putAsset p.content
      { asset with acceptedFingerprint := some input.fingerprint }
    have htie := p.content.tie_putAsset { asset with acceptedFingerprint := some input.fingerprint }
    refine ⟨?_, ?_⟩
    · dsimp only
      rw [htie]
      exact hp.ties
    · dsimp only
      rw [hworld]

/-- Every request leaves a project in order. -/
theorem serve [Uniseg] (hp : p.Tied root) (h : p.serve request = .ok p') : p'.Tied root := by
  obtain ⟨hwell, hfollows⟩ := hp.follows_of_serve h
  refine ⟨hp.wellformed.serve h, hwell, fun id version hversion => ?_,
    fun id proposal hproposal hopen => ?_,
    fun id t ht => ?_⟩
  · rcases versions_of_serve h hversion with hold | hcaptured
    · exact hp.versions id version hold
    · rw [(captures_of_load hcaptured.2).tie_eq]
      exact hp.ties
  · rcases proposals_of_serve h hproposal hopen with hold | ⟨⟨record, -, hnormalized⟩, _, -⟩
    · obtain ⟨states, back, w, hmade, hw⟩ := hp.proposals id proposal hold hopen
      exact ⟨states, back, w, hmade, hw.trans hfollows⟩
    · obtain ⟨states, back, hmade⟩ := madeIn_of_normalizeRequest hnormalized hp.ties
      exact ⟨states, back, _, hmade, hfollows⟩
  · rcases transactions_of_serve h ht with hold | ⟨_, hsource, hcommits⟩ |
      ⟨record, -, hregisters, rfl⟩
    · refine (hp.transactions id t hold).imp_right ?_
      rintro ⟨states, back, w, w', hrecord, hw⟩
      exact ⟨states, back, w, w', hrecord, hw.trans hfollows⟩
    · obtain ⟨-, -, hrestore | ⟨states, back, hrecord⟩⟩ := hp.commits hsource hcommits
      · exact .inl hrestore
      · exact .inr ⟨states, back, _, _, hrecord, .refl _⟩
    · exact .inr ⟨_, _, _, _, hp.recorded_of_registers hregisters, .refl _⟩

variable (ids : GenesisIDs)

/-- A new project has a root section and no other ties. -/
theorem ties_genesis : WellTied tieRule (genesisContent ids).tie := by
  have hload : ∀ {key s}, (genesisContent ids).load? key = some s →
      ∃ node, s = .narrativeNode node ∧ node.parentID = none := by
    intro key s hs
    by_cases hkind : key.kind = .narrativeNode
    · rw [load?, if_pos hkind] at hs
      obtain ⟨node, hnode, rfl⟩ := Option.map_eq_some_iff.1 hs
      obtain ⟨row, hrow, rfl⟩ := loadNode?_eq_some.1 hnode
      refine ⟨_, rfl, ?_⟩
      rcases Table.of_find?_set hrow with ⟨-, rfl⟩ | hrow
      · rfl
      · simp at hrow
    · rw [load?_entity hkind] at hs
      simp [genesisContent] at hs
  have howner : ∀ key, parts (genesisContent ids).tie key = ∅ := by
    refine fun key => Set.eq_empty_of_forall_notMem fun j hj => ?_
    obtain ⟨s, hs, howner⟩ := load?_of_owner hj
    obtain ⟨node, rfl, hparent⟩ := hload hs
    simp [EntityState.tie, nodeTie, hparent] at howner
  refine fun key => ⟨fun _ => howner key, fun hkind hholds => ?_⟩
  cases hs : (genesisContent ids).load? key with
  | none =>
    rw [tie_of_load?_none hs] at hholds
    cases hholds
  | some s =>
    obtain ⟨_, rfl, -⟩ := hload hs
    have hkey := (genesisContent ids).key_of_load? hs
    rw [← hkey] at hkind
    cases hkind

/-- A new project is in order. -/
theorem genesis (createdAt : Nat) : Project.Tied ids.rootSection (genesis ids createdAt) := by
  refine ⟨.genesis ids createdAt, ties_genesis ids, fun id version hversion => ?_, ?_, ?_⟩
  · rcases Table.of_find?_set hversion with ⟨-, rfl⟩ | hversion
    · rw [(captures_of_load (loadProjectVersionState_genesis ids createdAt)).tie_eq]
      exact ties_genesis ids
    · cases hversion
  · simp [OpenCut.genesis]
  · simp [OpenCut.genesis]

/-- A project in order stays in order. -/
theorem reaches [Uniseg] {allowed : Project → Request → Prop} (hp : p.Tied root)
    (h : Project.Reaches allowed p p') : p'.Tied root :=
  Machine.Reaches.invariant (Project.Tied root) h (fun _ _ _ _ hs hserve => hs.serve hserve) hp

end Project.Tied

/-! ## The narrative document -/

/-- The indices of the live children of a section are those from zero on. -/
theorem NarrativeTable.Ordered.perm_range {t : NarrativeTable} {children : Children}
    (h : t.Ordered children) (parent : ID) :
    ((t.rows.filter fun row => row.2.liveUnder parent).map (·.2.orderIndex)).Perm
      (List.range (t.rows.filter fun row => row.2.liveUnder parent).length) := by
  set rows := t.rows.filter fun row => row.2.liveUnder parent with hrows
  set sorted := rows.insertionSort fun a b => a.2.orderIndex ≤ b.2.orderIndex with hsorted
  have hperm : sorted.Perm rows := perm_insertionSort _ _
  have hlist : Ranking.Lists (t.rank parent) (sorted.map Prod.fst) := by
    have hchildren := h parent
    rwa [← h.children_eq] at hchildren
  have hranks : (sorted.map Prod.fst).map (t.rank parent) =
      (sorted.map (·.2.orderIndex)).map some := by
    rw [map_map, map_map]
    refine map_congr_left fun row hrow => ?_
    obtain ⟨hmem, hlive⟩ := mem_filter.1 (hperm.mem_iff.1 hrow)
    exact rank_eq_some.2 ⟨row.2, Table.mem_rows.1 hmem, hlive, rfl⟩
  rw [hlist.map_rank, length_map] at hranks
  have hindices := map_injective_iff.2 (Option.some_injective ℕ) hranks
  rw [← hperm.length_eq, hindices]
  exact (hperm.map _).symm

/-- In every run of a new project a live node other than the root is under a live section,
    and the live children of a section are numbered from zero, without gaps. -/
theorem narrative_placed [Uniseg] {ids : GenesisIDs} {createdAt : Nat} {p : Project}
    (hp : Project.Reaches (fun _ _ => True) (genesis ids createdAt) p) :
    (∀ id row, p.content.nodes.find? id = some row → row.tombstoned = false →
      id ≠ ids.rootSection → ∃ parent above, row.parentID = some parent ∧
        p.content.nodes.find? parent = some above ∧ above.tombstoned = false ∧
        above.value.kind = .section) ∧
    ∀ parent,
      ((p.content.nodes.rows.filter fun row => row.2.liveUnder parent).map (·.2.orderIndex)).Perm
        (List.range (p.content.nodes.rows.filter fun row => row.2.liveUnder parent).length) := by
  have htied := (Project.Tied.genesis ids createdAt).reaches hp
  have hrooted := htied.wellformed.rooted
  refine ⟨fun id row hrow hlive hid => ?_, hrooted.ordered.perm_range⟩
  have hplaced := NarrativeTable.unplaced?_of_find? hrow
  cases hparent : row.parentID with
  | none => exact absurd (hrooted.rooted hplaced hparent) hid
  | some parent =>
    have howner : (p.content.tie ⟨.narrativeNode, id⟩).owner = some ⟨.narrativeNode, parent⟩ := by
      rw [tie_node, hplaced]
      simp [NarrativeNodeRow.tie, nodeTie, hparent, hlive]
    have hholds := holds_of_part htied.ties howner
    rw [tie_node] at hholds
    cases habove : p.content.nodes.find? parent with
    | none => simp [NarrativeTable.unplaced?, habove, Tie.loose] at hholds
    | some above =>
      rw [NarrativeTable.unplaced?_of_find? habove] at hholds
      simp only [Option.map_some, Option.getD_some, NarrativeNodeRow.tie, nodeTie, Bool.and_eq_true,
        Bool.not_eq_true', beq_iff_eq] at hholds
      exact ⟨parent, above, rfl, habove, hholds.1, hholds.2⟩

/-- The creator inserts two sections, and removes the first. -/
def sampleSections : List Request := [sampleCommit 1 1 [⟨⟨.narrativeNode, 1⟩, 1⟩]
    [⟨['a'], .narrativeNode, 10⟩, ⟨['b'], .narrativeNode, 11⟩] [
    .insertNarrativeNode ['a'] 1 none (.section ['a'] "en".toList),
    .insertNarrativeNode ['b'] 1 (some (.byLocal ['a'])) (.section ['b'] "en".toList)],
  sampleCommit 2 2 [⟨⟨.narrativeNode, 1⟩, 2⟩, ⟨⟨.narrativeNode, 10⟩, 1⟩] []
    [.removeNarrativeNode 10]]

theorem narrative_placed_sample :
    ∃ p row, sampleAfter sampleSections = some p ∧
      p.content.nodes.find? 11 = some row ∧ row.orderIndex = 0 ∧
      ∃ parent above, row.parentID = some parent ∧ p.content.nodes.find? parent = some above ∧
        above.tombstoned = false ∧ above.value.kind = .section := by
  obtain ⟨p, hp, row, hrow, hindex, hlive⟩ : ∃ p, sampleAfter sampleSections = some p ∧
      ∃ row, p.content.nodes.find? 11 = some row ∧ row.orderIndex = 0 ∧ row.tombstoned = false := by
    decide +kernel
  let _ := runeClusters
  exact ⟨p, row, hp, hrow, hindex,
    (narrative_placed (Machine.Reaches.of_play hp)).1 11 row hrow hlive (by decide)⟩

/-! ## Link groups -/

/-- The link groups of the content are well formed. -/
structure Content.LinkGroupsWellformed (c : Content) : Prop where
  /-- A live link group has from two to 64 live members. -/
  live : ∀ id group, c.entities.linkGroup? id = some group → group.tombstoned = false →
    2 ≤ (EditLoad.groupMembers c id).length ∧ (EditLoad.groupMembers c id).length ≤ 64
  /-- A tombstoned link group has none. -/
  tombstoned : ∀ id group, c.entities.linkGroup? id = some group → group.tombstoned = true →
    EditLoad.groupMembers c id = []
  /-- A live clip names no other than a live link group. -/
  named : ∀ id clip g, c.entities.clip? id = some clip → clip.tombstoned = false →
    clip.linkGroupID = some g → ∃ group, c.entities.linkGroup? g = some group ∧
      group.tombstoned = false

/-- The live members of a link group are its parts. -/
theorem Content.ncard_members (c : Content) (id : ID) : (parts c.tie ⟨.linkGroup, id⟩).Finite ∧
      (parts c.tie ⟨.linkGroup, id⟩).ncard = (EditLoad.groupMembers c id).length := by
  obtain ⟨hfinite, hcard⟩ := ncard_parts_of_list c.tie ⟨.linkGroup, id⟩
    (l := (c.entities.clips.filter fun clip => clip.linkGroupID = some id ∧
      clip.tombstoned = false).map fun clip => (⟨.clip, clip.id⟩ : EntityKey))
    (c.entities.clips_nodup.sublist (filter_sublist.map _)) (by
      intro key
      simp only [mem_map, mem_filter, EntityTable.mem_clips, decide_eq_true_eq]
      constructor
      · rintro ⟨clip, ⟨hfind, hgroup, hlive⟩, rfl⟩
        rw [tie_entity (by simp), hfind]
        exact owner_eq_linkGroup.2 ⟨clip, rfl, hlive, hgroup⟩
      · intro howner
        obtain ⟨s, hload, hs⟩ := load?_of_owner howner
        obtain ⟨clip, rfl, hlive, hgroup⟩ := owner_eq_linkGroup.1 hs
        obtain rfl := c.key_of_load? hload
        exact ⟨clip, ⟨hload, hgroup, hlive⟩, rfl⟩)
  refine ⟨hfinite, hcard.trans ?_⟩
  rw [EditLoad.groupMembers, (perm_insertionSort _ _).length_eq, length_map,
    length_filterMap_eq_countP, countP_eq_length_filter]
  refine congrArg length (filter_congr fun clip _ => ?_)
  by_cases hin : clip.linkGroupID = some id ∧ clip.tombstoned = false <;> simp [hin]

/-- In every run of a project in order, such as a new one (`Project.Tied.genesis`), the link
    groups stay well formed. -/
theorem linkGroups_wellformed [Uniseg] {root : ID} {p p' : Project} (hp : p.Tied root)
    (h : Project.Reaches (fun _ _ => True) p p') : p'.content.LinkGroupsWellformed := by
  have hties := (hp.reaches h).ties
  have hcard := p'.content.ncard_members
  have htie : ∀ {id group}, p'.content.entities.linkGroup? id = some group →
      p'.content.tie ⟨.linkGroup, id⟩ = ⟨none, !group.tombstoned⟩ := by
    intro id group hgroup
    rw [tie_entity (by simp), EntityTable.linkGroup?_eq_some.1 hgroup]
    rfl
  refine ⟨fun id group hgroup hlive => ?_, fun id group hgroup hdead => ?_,
    fun id clip g hclip hlive hg => ?_⟩
  · have hrule := (hties ⟨.linkGroup, id⟩).2 rfl (by rw [htie hgroup, hlive]; rfl)
    rwa [(hcard id).2] at hrule
  · have hempty := (hties ⟨.linkGroup, id⟩).1 (by rw [htie hgroup, hdead]; rfl)
    rw [← Set.ncard_eq_zero (hcard id).1, (hcard id).2] at hempty
    exact eq_nil_of_length_eq_zero hempty
  · have howner : (p'.content.tie ⟨.clip, id⟩).owner = some ⟨.linkGroup, g⟩ := by
      rw [tie_entity (by simp), EntityTable.clip?_eq_some.1 hclip]
      exact owner_eq_linkGroup.2 ⟨clip, rfl, hlive, hg⟩
    have hholds := holds_of_part hties howner
    cases hload : p'.content.load? ⟨.linkGroup, g⟩ with
    | none =>
      rw [tie_of_load?_none hload] at hholds
      cases hholds
    | some s =>
      have hkey := p'.content.key_of_load? hload
      cases s with
      | linkGroup group =>
        have hgroup := EntityTable.linkGroup?_eq_some.2 hload
        rw [htie hgroup] at hholds
        exact ⟨group, hgroup, by simpa using hholds⟩
      | _ => cases hkey

/-- The creator links the two clips of `sampleClips`. -/
def sampleGroup : List Request := sampleClips ++ [
  sampleCommit 2 3 [⟨⟨.clip, 20⟩, 1⟩, ⟨⟨.clip, 21⟩, 1⟩] [⟨['g'], .linkGroup, 22⟩]
    [.linkClips ['g'] [20, 21]]]

theorem linkGroups_wellformed_sample :
    ∃ p group, sampleAfter sampleGroup = some p ∧
      p.content.entities.linkGroup? 22 = some group ∧ group.tombstoned = false ∧
      p.content.LinkGroupsWellformed := by
  obtain ⟨p, hp, group, hgroup, hlive⟩ : ∃ p, sampleAfter sampleGroup = some p ∧
      ∃ group, p.content.entities.linkGroup? 22 = some group ∧ group.tombstoned = false := by
    decide +kernel
  let _ := runeClusters
  exact ⟨p, group, hp, hgroup, hlive,
    linkGroups_wellformed (Project.Tied.genesis _ _) (Machine.Reaches.of_play hp)⟩

end OpenCut
