import OpenCut.Agent.Runs
import OpenCut.Lib.Fencing

/-!
# Agent runs stay consistent

The turns of a run are fenced attempts (`Fencing.Fenced`): their generations are 1, 2, 3, …, only
the latest one may be live, and only while its run is. Each operation keeps this, the runs that are
over and the turns that have ended, if it does not bind a run to an agent or complete it after its
current turn has ended (`AgentDatabase.timely`); then every run is consistent
(`agent_runs_consistent`).

`BindAuthorizedAgentRun` and `TransitionAgentRun` look at the status of the run but not at that of
the turn: after a creator has interrupted a turn, the agent of that turn makes the run active again,
or completes it (`interrupted_run_changes`).
-/

namespace OpenCut.Agents

open Outcome Fencing List AgentRunStatus AgentTurn Option

/-- Whether turns may be added to a run, one of its turns is live, or it is over. -/
def AgentRunStatus.phase : AgentRunStatus → Fencing.Phase
  | .authorizing | .active => .held
  | .waiting | .paused => .waiting
  | .completed | .failed | .cancelled => .closed

theorem AgentRunStatus.terminal_iff {status : AgentRunStatus} :
    status.terminal ↔ status.phase = .closed := by
  cases status <;> decide

namespace AgentDatabase

variable {db db' : AgentDatabase} {id : ID} {run run' : AgentRun} {turn : AgentTurn}

/-! ## The invariant -/

variable {turnID : ID}

/-- The turns of a run are fenced, its current turn is the latest one, and this is live if the run
    is, or if no bridge manages it and it is not over. -/
structure RunSound (turns : List AgentTurn) (run : AgentRun) : Prop where
  fenced : Fenced AgentTurn.live AgentTurn.generation ⟨run.status.phase, turns⟩
  current : ∃ turn, turns.getLast? = some turn ∧ turn.id = run.currentTurn
  live : run.status.phase = .held ∨ (run.bridge = false ∧ run.status.phase ≠ .closed) →
    ∀ turn, turns.getLast? = some turn → turn.live
  bridge : ∀ turn ∈ turns, turn.bridge = run.bridge

/-- Turns have ids of their own and belong to runs, every run is sound, and the turns that were
    interrupted are cancelled. -/
structure Sound (db : AgentDatabase) : Prop where
  ids : (db.turns.map (·.id)).Nodup
  owned : ∀ turn ∈ db.turns, (db.runs.find? turn.run).isSome
  runs : ∀ id run, db.runs.find? id = some run → RunSound (db.turnsOf id) run
  interrupted : ∀ turnID ∈ db.interrupted, ∃ turn ∈ db.turns,
    turn.id = turnID ∧ turn.status = .cancelled

/-- What an operation does not change: runs that are over, and turns that have ended. -/
structure Keeps (db db' : AgentDatabase) : Prop where
  closed : ∀ id run, db.runs.find? id = some run → run.status.terminal →
    db'.runs.find? id = some run
  ended : ∀ turn ∈ db.turns, ¬turn.live → turn ∈ db'.turns

theorem mem_turnsOf : turn ∈ db.turnsOf id ↔ turn ∈ db.turns ∧ turn.run = id := by
  rw [turnsOf, mem_filter, decide_eq_true_eq]

/-- The turn with an id is the only one. -/
theorem Sound.turn?_eq_some (hdb : db.Sound) :
    db.turn? turnID = some turn ↔ turn ∈ db.turns ∧ turn.id = turnID := by
  constructor
  · intro h
    exact ⟨mem_of_find?_eq_some h, by simpa using find?_some h⟩
  · rintro ⟨hmem, rfl⟩
    cases hfind : db.turns.find? fun other => decide (other.id = turn.id) with
    | none =>
      have hnone := List.find?_eq_none.1 hfind turn hmem
      simp at hnone
    | some other =>
      have hother := mem_of_find?_eq_some hfind
      have hid : other.id = turn.id := by simpa using find?_some hfind
      rw [turn?, hfind, inj_on_of_nodup_map hdb.ids hother hmem hid]

/-- The current turn of a run is the latest of its turns. -/
theorem Sound.current (hdb : db.Sound) (hrun : db.runs.find? id = some run) :
    ∃ turn, db.turn? run.currentTurn = some turn ∧ (db.turnsOf id).getLast? = some turn ∧
      turn ∈ db.turns ∧ turn.run = id ∧ turn.id = run.currentTurn := by
  obtain ⟨turn, hlast, hid⟩ := (hdb.runs id run hrun).current
  obtain ⟨hmem, hof⟩ := mem_turnsOf.1 (mem_of_getLast? hlast)
  exact ⟨turn, hdb.turn?_eq_some.2 ⟨hmem, hid⟩, hlast, hmem, hof, hid⟩

/-- A turn that was interrupted is cancelled. -/
theorem Sound.cancelled_of_interrupted (hdb : db.Sound) (hmem : turn ∈ db.turns)
    (hinterrupted : turn.id ∈ db.interrupted) : turn.status = .cancelled := by
  obtain ⟨_, hother, hid, hstatus⟩ := hdb.interrupted turn.id hinterrupted
  rwa [inj_on_of_nodup_map hdb.ids hother hmem hid] at hstatus

theorem not_live_of_cancelled (h : turn.status = .cancelled) : ¬turn.live := by
  rw [live, h]
  decide

/-- A turn that was interrupted has ended. -/
theorem Sound.ended_of_interrupted (hdb : db.Sound) (hmem : turn ∈ db.turns)
    (hinterrupted : turn.id ∈ db.interrupted) : ¬turn.live :=
  not_live_of_cancelled (hdb.cancelled_of_interrupted hmem hinterrupted)

theorem Keeps.refl (db : AgentDatabase) : Keeps db db := ⟨fun _ _ h _ => h, fun _ h _ => h⟩

/-! ## Turns that change their status -/

/-- Turns change their status, and nothing else. -/
def Restates (change : AgentTurn → AgentTurn) : Prop :=
  ∀ turn, change turn = { turn with status := (change turn).status }

namespace Restates

variable {change : AgentTurn → AgentTurn}

section

variable (h : Restates change)
include h

theorem id_eq (turn : AgentTurn) : (change turn).id = turn.id := by
  rw [h turn]

theorem run_eq (turn : AgentTurn) : (change turn).run = turn.run := by
  rw [h turn]

theorem bridge_eq (turn : AgentTurn) : (change turn).bridge = turn.bridge := by
  rw [h turn]

theorem turnsOf (hturns : db'.turns = db.turns.map change) :
    db'.turnsOf id = (db.turnsOf id).map change := by
  rw [AgentDatabase.turnsOf, hturns, List.filter_map, AgentDatabase.turnsOf]
  congr 1
  refine filter_congr fun turn _ => ?_
  rw [Function.comp_apply, h.run_eq]

theorem ids {turns : List AgentTurn} (hids : (turns.map (·.id)).Nodup) :
    ((turns.map change).map (·.id)).Nodup := by
  have hsame : ((fun turn : AgentTurn => turn.id) ∘ change) = (·.id) := funext h.id_eq
  rw [List.map_map, hsame]
  exact hids

/-- A turn that is not started again only ages. -/
theorem ages (turns : List AgentTurn) (hlive : ∀ turn ∈ turns, (change turn).live → turn.live) :
    turns.Forall₂ (Ages AgentTurn.live AgentTurn.generation) (turns.map change) := by
  rw [forall₂_map_right_iff, forall₂_same]
  exact fun turn hmem => ⟨by rw [h turn], hlive turn hmem⟩

end

end Restates

/-- A turn with another status. -/
def withStatus (turnID : ID) (status : AgentTurnStatus) (turn : AgentTurn) : AgentTurn :=
  if turn.id = turnID then { turn with status } else turn

section WithStatus

variable {turnID : ID} {status : AgentTurnStatus}

theorem withStatus_restates : Restates (withStatus turnID status) := by
  intro turn
  unfold withStatus
  split <;> rfl

theorem withStatus_of_ne (h : turn.id ≠ turnID) : withStatus turnID status turn = turn := if_neg h

theorem turnsOf_setTurnStatus :
    (db.setTurnStatus turnID status).turnsOf id = (db.turnsOf id).map (withStatus turnID status) :=
  withStatus_restates.turnsOf rfl

/-- The turns of the other runs stay. -/
theorem turnsOf_setTurnStatus_of_ne (hdb : db.Sound) (hmem : turn ∈ db.turns)
    (hne : id ≠ turn.run) : (db.setTurnStatus turn.id status).turnsOf id = db.turnsOf id := by
  rw [turnsOf_setTurnStatus]
  refine (map_congr_left fun other hother => ?_).trans (map_id _)
  obtain ⟨hother, hof⟩ := mem_turnsOf.1 hother
  refine withStatus_of_ne fun hid => hne ?_
  rw [← hof, inj_on_of_nodup_map hdb.ids hother hmem hid]

/-- Turns that have ended stay as they are while a live one changes. -/
theorem ended_setTurnStatus (hdb : db.Sound) (hmem : turn ∈ db.turns) (hlive : turn.live)
    {other : AgentTurn} (hother : other ∈ db.turns) (hended : ¬other.live) :
    other ∈ (db.setTurnStatus turn.id status).turns := by
  refine mem_map.2 ⟨other, hother, withStatus_of_ne fun hid => hended ?_⟩
  rw [inj_on_of_nodup_map hdb.ids hother hmem hid]
  exact hlive

end WithStatus

variable {status : AgentTurnStatus}

theorem owned_setTurnStatus (hdb : db.Sound)
    (hmem : turn ∈ (db.setTurnStatus turnID status).turns) : (db.runs.find? turn.run).isSome := by
  obtain ⟨before, hbefore, rfl⟩ := mem_map.1 hmem
  change (db.runs.find? (withStatus turnID status before).run).isSome
  rw [withStatus_restates.run_eq]
  exact hdb.owned before hbefore

/-! ## One run changes -/

variable {base : AgentDatabase}

/-- The row of a run is put, and only its turns have changed. -/
theorem Sound.touch (hdb : db.Sound) (hopen : ∀ run ∈ db.runs.find? id, ¬run.status.terminal)
    (hruns : ∀ other, db'.runs.find? other = if other = id then some run' else db.runs.find? other)
    (hids : (db'.turns.map (·.id)).Nodup)
    (howned : ∀ turn ∈ db'.turns, (db.runs.find? turn.run).isSome ∨ turn.run = id)
    (hothers : ∀ other, other ≠ id → db'.turnsOf other = db.turnsOf other)
    (hended : ∀ turn ∈ db.turns, ¬turn.live → turn ∈ db'.turns)
    (hinterrupted : ∀ turnID ∈ db'.interrupted, turnID ∈ db.interrupted ∨
      ∃ turn ∈ db'.turns, turn.id = turnID ∧ turn.status = .cancelled)
    (hsound : RunSound (db'.turnsOf id) run') : db'.Sound ∧ Keeps db db' := by
  refine ⟨⟨hids, fun turn hmem => ?_, fun other row hrow => ?_, fun turnID hmem => ?_⟩,
    fun other row hrow hterminal => ?_, hended⟩
  · rw [hruns]
    split
    · rfl
    · next hne => exact (howned turn hmem).resolve_right hne
  · rw [hruns] at hrow
    split at hrow
    · next heq =>
      obtain ⟨⟩ := hrow
      exact heq ▸ hsound
    · next hne =>
      rw [hothers other hne]
      exact hdb.runs other row hrow
  · rcases hinterrupted turnID hmem with hmem | hturn
    · obtain ⟨turn, hturn, hid, hstatus⟩ := hdb.interrupted turnID hmem
      exact ⟨turn, hended turn hturn (not_live_of_cancelled hstatus), hid, hstatus⟩
    · exact hturn
  · rw [hruns, if_neg]
    · exact hrow
    · rintro rfl
      exact hopen row hrow hterminal

theorem open_of_find? (hrun : db.runs.find? id = some run) (hopen : ¬run.status.terminal) :
    ∀ run ∈ db.runs.find? id, ¬run.status.terminal := by
  rw [hrun]
  rintro _ ⟨⟩
  exact hopen

variable {turns : List AgentTurn} {last : AgentTurn}

/-- Of the turns of a run, only the latest may be live. -/
theorem RunSound.eq_last (h : RunSound turns run)
    (hlast : turns.getLast? = some last) (hmem : turn ∈ turns) (hlive : turn.live) : turn = last :=
  mem_unique (h.fenced.getLast? hmem hlive) hlast

/-- The generation of the latest turn is the number of turns. -/
theorem RunSound.generation_last (h : RunSound turns run) (hlast : turns.getLast? = some last) :
    last.generation = turns.length := by
  have hgeneration : (turns.map generation).getLast? = some last.generation := by
    rw [getLast?_map, hlast]
    rfl
  have hgenerations : turns.map generation = range' 1 turns.length := h.fenced.generations
  have hne : turns.length ≠ 0 := by
    intro hzero
    rw [length_eq_zero_iff.1 hzero] at hlast
    cases hlast
  rw [hgenerations, getLast?_range', if_neg hne, some.injEq] at hgeneration
  omega

/-- The turns of one run are at rest: none of them is live. -/
structure Rested (db base : AgentDatabase) (id : ID) : Prop where
  ids : (base.turns.map (·.id)).Nodup
  owned : ∀ turn ∈ base.turns, (db.runs.find? turn.run).isSome
  others : ∀ other, other ≠ id → base.turnsOf other = db.turnsOf other
  ended : ∀ turn ∈ db.turns, ¬turn.live → turn ∈ base.turns
  fenced : Fenced AgentTurn.live AgentTurn.generation ⟨.waiting, base.turnsOf id⟩

section

variable (hdb : db.Sound)
include hdb

/-- The current turn of a run has ended. -/
theorem Sound.rested (hrun : db.runs.find? id = some run)
    (hturn : db.turn? run.currentTurn = some turn) (hlive : ¬turn.live) : Rested db db id := by
  obtain ⟨_, hlast?, hlast, -⟩ := hdb.current hrun
  obtain rfl := mem_unique hturn hlast?
  refine ⟨hdb.ids, hdb.owned, fun _ _ => rfl, fun _ h _ => h, ?_⟩
  have hsound := hdb.runs id run hrun
  refine hsound.fenced.age (forall₂_same.2 fun _ _ => ⟨rfl, fun h => h⟩) fun other hmem hother => ?_
  exact absurd (hsound.eq_last hlast hmem hother ▸ hother) hlive

/-- There is no such run yet. -/
theorem Sound.rested_new (hrun : db.runs.find? id = none) :
    Rested db db id ∧ db.turnsOf id = [] := by
  have hnone : db.turnsOf id = [] := by
    refine eq_nil_iff_forall_not_mem.2 fun turn hmem => ?_
    obtain ⟨hmem, hof⟩ := mem_turnsOf.1 hmem
    have howned := hdb.owned turn hmem
    rw [hof, hrun] at howned
    cases howned
  refine ⟨⟨hdb.ids, hdb.owned, fun _ _ => rfl, fun _ h _ => h, ?_⟩, hnone⟩
  rw [hnone]
  exact ⟨rfl, by simp, by simp⟩

/-- The current turn of a run ends. -/
theorem Sound.rest (hrun : db.runs.find? id = some run)
    (hturn : db.turn? run.currentTurn = some turn) (hlive : turn.live) (hstatus : ¬status.live) :
    Rested db (db.setTurnStatus turn.id status) id := by
  obtain ⟨_, hlast?, hlast, hmem, hof, -⟩ := hdb.current hrun
  obtain rfl := mem_unique hturn hlast?
  refine ⟨withStatus_restates.ids hdb.ids, fun other hother => owned_setTurnStatus hdb hother,
    fun other hne => turnsOf_setTurnStatus_of_ne hdb hmem (hof ▸ hne),
    fun other hother hended => ended_setTurnStatus hdb hmem hlive hother hended, ?_⟩
  have hsound := hdb.runs id run hrun
  rw [turnsOf_setTurnStatus]
  -- a turn that is live now is another one
  have hother : ∀ other, (withStatus turn.id status other).live → other.live ∧
      other.id ≠ turn.id := by
    intro other
    rw [withStatus]
    split
    · exact fun h => absurd h hstatus
    · next hid => exact fun h => ⟨h, hid⟩
  refine hsound.fenced.age (withStatus_restates.ages _ fun other _ h => (hother other h).1)
    fun after hafter hlive' => ?_
  obtain ⟨before, hbefore, rfl⟩ := mem_map.1 hafter
  obtain ⟨hlive', hid⟩ := hother before hlive'
  exact absurd (by rw [hsound.eq_last hlast hbefore hlive']) hid

/-- The last turn of the run after the change, and that all of them are like the run. -/
theorem Sound.rest_last (hrun : db.runs.find? id = some run)
    (hturn : db.turn? run.currentTurn = some turn) (status : AgentTurnStatus) :
    (∃ last, ((db.setTurnStatus turn.id status).turnsOf id).getLast? = some last ∧
      last.id = run.currentTurn) ∧
    (∀ other ∈ (db.setTurnStatus turn.id status).turnsOf id, other.bridge = run.bridge) ∧
    ((db.setTurnStatus turn.id status).turnsOf id).length = turn.generation := by
  obtain ⟨_, hlast?, hlast, -, -, hid⟩ := hdb.current hrun
  obtain rfl := mem_unique hturn hlast?
  have hsound := hdb.runs id run hrun
  rw [turnsOf_setTurnStatus]
  refine ⟨⟨withStatus turn.id status turn, ?_, ?_⟩, ?_, ?_⟩
  · rw [getLast?_map, hlast]
    rfl
  · rw [withStatus_restates.id_eq, hid]
  · intro other hother
    obtain ⟨before, hbefore, rfl⟩ := mem_map.1 hother
    rw [withStatus_restates.bridge_eq]
    exact hsound.bridge before hbefore
  · rw [length_map, hsound.generation_last hlast]

end

section

variable (h : Rested db base id) (hdb : db.Sound)
  (hopen : ∀ run ∈ db.runs.find? id, ¬run.status.terminal)
  (hruns : db'.runs = db.runs.set id run')
include h hdb hopen hruns

/-- A run whose turns are at rest pauses or is over. -/
theorem Rested.settle (hturns : db'.turns = base.turns)
    (hinterrupted : ∀ turnID ∈ db'.interrupted, turnID ∈ db.interrupted ∨
      ∃ turn ∈ base.turns, turn.id = turnID ∧ turn.status = .cancelled)
    (hlast : ∃ last, (base.turnsOf id).getLast? = some last ∧ last.id = run'.currentTurn)
    (hbridge : ∀ turn ∈ base.turnsOf id, turn.bridge = run'.bridge)
    (hphase : run'.status.phase = .closed ∨ (run'.status.phase = .waiting ∧ run'.bridge)) :
    db'.Sound ∧ Keeps db db' := by
  have hof : ∀ other, db'.turnsOf other = base.turnsOf other := by
    intro other
    rw [turnsOf, hturns]
    rfl
  have hheld : run'.status.phase ≠ .held := by
    rcases hphase with hphase | hphase
    · rw [hphase]
      decide
    · rw [hphase.1]
      decide
  refine hdb.touch hopen (fun other => by rw [hruns, Table.find?_set]) (hturns ▸ h.ids)
    (fun turn hmem => .inl (h.owned turn (hturns ▸ hmem)))
    (fun other hne => (hof other).trans (h.others other hne)) (hturns ▸ h.ended)
    (hturns ▸ hinterrupted) ?_
  rw [hof]
  refine ⟨h.fenced.move (.settle hheld), hlast, ?_, hbridge⟩
  rintro (hphase' | ⟨hown, hphase'⟩)
  · exact absurd hphase' hheld
  · rcases hphase with hphase | hphase
    · exact absurd hphase hphase'
    · rw [hphase.2] at hown
      cases hown

/-- A turn is added to a run whose turns are at rest. -/
theorem Rested.take (hturns : db'.turns = base.turns ++ [turn])
    (hinterrupted : db'.interrupted = db.interrupted)
    (hfresh : ∀ other ∈ base.turns, other.id ≠ turn.id) (hof : turn.run = id)
    (hgeneration : turn.generation = (base.turnsOf id).length + 1) (hlive : turn.live)
    (hcurrent : turn.id = run'.currentTurn)
    (hbridge : ∀ other ∈ base.turnsOf id, other.bridge = run'.bridge)
    (hbridge' : turn.bridge = run'.bridge) (hphase : run'.status.phase = .held) :
    db'.Sound ∧ Keeps db db' := by
  have hofs : db'.turnsOf id = base.turnsOf id ++ [turn] := by
    rw [turnsOf, hturns, filter_append, filter_singleton]
    simp only [hof, decide_true, Bool.cond_true]
    rfl
  have hothers : ∀ other, other ≠ id → db'.turnsOf other = db.turnsOf other := by
    intro other hne
    rw [← h.others other hne, turnsOf, hturns, filter_append, filter_singleton]
    simp only [hof, hne.symm, decide_false, Bool.cond_false, append_nil]
    rfl
  refine hdb.touch hopen (fun other => by rw [hruns, Table.find?_set]) ?_ ?_ hothers ?_
    (fun turnID hmem => .inl (hinterrupted ▸ hmem)) ?_
  · rw [hturns, map_append, nodup_append]
    refine ⟨h.ids, nodup_singleton _, ?_⟩
    intro a ha b hb
    obtain ⟨other, hother, rfl⟩ := mem_map.1 ha
    obtain rfl := mem_singleton.1 hb
    exact hfresh other hother
  · intro other hother
    rw [hturns, mem_append, mem_singleton] at hother
    rcases hother with hother | rfl
    · exact .inl (h.owned other hother)
    · exact .inr hof
  · intro other hother hended
    rw [hturns]
    exact mem_append_left _ (h.ended other hother hended)
  · rw [hofs]
    refine ⟨?_, ⟨turn, getLast?_concat, hcurrent⟩, fun _ last hlast => ?_, fun other hother => ?_⟩
    · rw [hphase]
      exact h.fenced.move (.take hgeneration)
    · rw [getLast?_concat] at hlast
      exact some.inj hlast ▸ hlive
    · rcases mem_append.1 hother with hother | hother
      · exact hbridge other hother
      · exact mem_singleton.1 hother ▸ hbridge'

end

/-! ## The operations -/

variable {project actor creator runID : ID} {requestID input : Text} {result : BridgeResult}
  {expectedGeneration : Nat} {base' : AgentDatabase}

theorem insertTurn_ok (h : base.insertTurn turn = .ok base') :
    base' = { base with turns := base.turns ++ [turn] } ∧
      ∀ other ∈ base.turns, other.id ≠ turn.id := by
  simp only [insertTurn, steps_ok] at h
  obtain ⟨hfresh, -, -, rfl⟩ := h
  exact ⟨rfl, by simpa using hfresh⟩

theorem insertRun_ok (h : base.insertRun id run = .ok base') :
    base' = { base with runs := base.runs.set id run } ∧ base.runs.find? id = none := by
  simp only [insertRun, steps_ok] at h
  obtain ⟨hnone, rfl⟩ := h
  exact ⟨rfl, hnone⟩

theorem loadAgentBridge_ok (h : db.loadAgentBridge project id = .ok (run, turn)) :
    db.runs.find? id = some run ∧ db.turn? run.currentTurn = some turn ∧ run.bridge := by
  simp only [loadAgentBridge, steps_ok, Prod.mk.injEq] at h
  obtain ⟨_, hrun, _, hturn, ⟨-, hbridge, -⟩, rfl, rfl⟩ := h
  exact ⟨hrun, hturn, hbridge⟩

theorem loadAgentRun_ok (h : db.loadAgentRun project id = .ok (run, actor, turn)) :
    db.runs.find? id = some run ∧ db.turn? run.currentTurn = some turn := by
  simp only [loadAgentRun, steps_ok, Prod.mk.injEq] at h
  obtain ⟨_, hrun, _, hturn, -, _, -, rfl, rfl, rfl⟩ := h
  exact ⟨hrun, hturn⟩

section

variable (hdb : db.Sound)
include hdb

/-- A new run, with its first turn. -/
theorem Sound.begin {base' : AgentDatabase} (hrun : db.insertRun id run' = .ok base)
    (hturn : base.insertTurn turn = .ok base') (hruns : db'.runs = base'.runs)
    (hturns : db'.turns = base'.turns) (hinterrupted : db'.interrupted = base'.interrupted)
    (hof : turn.run = id) (hgeneration : turn.generation = 1) (hlive : turn.live)
    (hcurrent : turn.id = run'.currentTurn) (hbridge : turn.bridge = run'.bridge)
    (hphase : run'.status.phase = .held) : db'.Sound ∧ Keeps db db' := by
  obtain ⟨rfl, hnew⟩ := insertRun_ok hrun
  obtain ⟨rfl, hfresh⟩ := insertTurn_ok hturn
  obtain ⟨hrested, hnone⟩ := hdb.rested_new hnew
  refine hrested.take hdb (by simp [hnew]) hruns hturns hinterrupted hfresh hof ?_ hlive hcurrent ?_
    hbridge hphase
  · rw [hgeneration, hnone]
    rfl
  · rw [hnone]
    simp

variable {admissible : Bool}

/-- `BeginAgentBridge`. -/
theorem beginAgentBridge_sound
    (h : db.beginAgentBridge creator requestID project input runID turnID admissible =
      .ok (db', result)) : db'.Sound ∧ Keeps db db' := by
  obtain ⟨replay, -, h⟩ := bind_ok.1 h
  cases replay with
  | some _ =>
    cases h
    exact ⟨hdb, .refl db⟩
  | none =>
    simp only [steps_ok, Prod.mk.injEq] at h
    obtain ⟨-, -, _, hrun, _, hturn, rfl, -⟩ := h
    exact hdb.begin hrun hturn rfl rfl rfl rfl rfl rfl rfl rfl rfl

/-- `ContinueAgentBridge`. -/
theorem continueAgentBridge_sound
    (h : db.continueAgentBridge creator requestID project runID expectedGeneration input turnID
      admissible = .ok (db', result)) : db'.Sound ∧ Keeps db db' := by
  obtain ⟨replay, -, h⟩ := bind_ok.1 h
  cases replay with
  | some _ =>
    simp only [steps_ok, Prod.mk.injEq] at h
    obtain ⟨-, rfl, -⟩ := h
    exact ⟨hdb, .refl db⟩
  | none =>
    simp only [steps_ok, Prod.mk.injEq] at h
    obtain ⟨⟨run, _⟩, hload, -, hopen, -, hlive, -, _, hinsert, -, rfl, -⟩ := h
    obtain ⟨hrun, hturn, hbridge⟩ := loadAgentBridge_ok hload
    obtain ⟨rfl, hfresh⟩ := insertTurn_ok hinsert
    obtain ⟨_, hlast?, hlast, -⟩ := hdb.current hrun
    obtain rfl := mem_unique hturn hlast?
    have hsound := hdb.runs runID run hrun
    refine (hdb.rested hrun hturn hlive).take hdb (open_of_find? hrun hopen) rfl rfl rfl hfresh
      rfl ?_ rfl rfl ?_ ?_ ?_
    · exact congrArg (· + 1) (hsound.generation_last hlast)
    · exact hsound.bridge
    · exact hbridge.symm
    · change phase (if _ then _ else _) = _
      split <;> rfl

/-- A run may be settled after its current turn has ended, at once or before. -/
theorem Sound.endTurn (hrun : db.runs.find? id = some run) (hopen : ¬run.status.terminal)
    (hturn : db.turn? run.currentTurn = some turn) (status : AgentTurnStatus)
    (hstatus : ¬status.live)
    (hbase : (turn.live ∧ base = db.setTurnStatus turn.id status) ∨ (¬turn.live ∧ base = db))
    (hruns : db'.runs = db.runs.set id run') (hturns : db'.turns = base.turns)
    (hinterrupted : ∀ turnID ∈ db'.interrupted, turnID ∈ db.interrupted ∨
      (turnID = turn.id ∧ turn.live ∧ status = .cancelled))
    (hcurrent : run'.currentTurn = run.currentTurn) (hbridge : run'.bridge = run.bridge)
    (hphase : run'.status.phase = .closed ∨ (run'.status.phase = .waiting ∧ run.bridge)) :
    db'.Sound ∧ Keeps db db' := by
  have hopen' := open_of_find? hrun hopen
  obtain ⟨_, hlast?, hlast, hmem, -, hid⟩ := hdb.current hrun
  obtain rfl := mem_unique hturn hlast?
  rcases hbase with ⟨hlive, rfl⟩ | ⟨hlive, rfl⟩
  · obtain ⟨hlast', hbridges, -⟩ := hdb.rest_last hrun hturn status
    refine (hdb.rest hrun hturn hlive hstatus).settle hdb hopen' hruns hturns
      (fun turnID hturnID => (hinterrupted turnID hturnID).imp_right ?_)
      (hcurrent ▸ hlast') (hbridge ▸ hbridges) (hbridge ▸ hphase)
    rintro ⟨rfl, -, rfl⟩
    refine ⟨withStatus turn.id .cancelled turn, mem_map_of_mem hmem,
      withStatus_restates.id_eq turn, ?_⟩
    rw [withStatus, if_pos rfl]
  · exact (hdb.rested hrun hturn hlive).settle hdb hopen' hruns hturns
      (fun turnID hturnID => (hinterrupted turnID hturnID).imp_right fun hnew =>
        absurd hnew.2.1 hlive)
      ⟨turn, hlast, hid.trans hcurrent.symm⟩ (hbridge ▸ (hdb.runs id run hrun).bridge)
      (hbridge ▸ hphase)

/-- `TransitionAgentBridge`. -/
theorem transitionAgentBridge_sound {expectedTurn : ID} {transition : AgentBridgeTransition}
    (h : db.transitionAgentBridge creator requestID transition project runID expectedTurn
      expectedGeneration = .ok (db', result)) : db'.Sound ∧ Keeps db db' := by
  obtain ⟨replay, -, h⟩ := bind_ok.1 h
  cases replay with
  | some _ =>
    simp only [steps_ok, Prod.mk.injEq] at h
    obtain ⟨-, rfl, -⟩ := h
    exact ⟨hdb, .refl db⟩
  | none =>
    simp only [steps_ok, Prod.mk.injEq] at h
    obtain ⟨⟨run, turn⟩, hload, -, hopen, -, hbusy, -, rfl, -⟩ := h
    obtain ⟨hrun, hturn, hbridge⟩ := loadAgentBridge_ok hload
    have hbase : (turn.live ∧ (if turn.live then db.setTurnStatus turn.id .cancelled else db) =
          db.setTurnStatus turn.id .cancelled) ∨
        (¬turn.live ∧ (if turn.live then db.setTurnStatus turn.id .cancelled else db) = db) := by
      by_cases hlive : turn.live
      · exact .inl ⟨hlive, if_pos hlive⟩
      · exact .inr ⟨hlive, if_neg hlive⟩
    have hruns : (if turn.live then db.setTurnStatus turn.id .cancelled else db).runs =
        db.runs := by
      split <;> rfl
    have hinterrupted :
        (if turn.live then db.setTurnStatus turn.id .cancelled else db).interrupted =
          db.interrupted := by
      split <;> rfl
    cases transition with
    | interrupt =>
      have hput := congrArg (·.set runID { run with
        status := .paused, waitingReason := some .creatorInterrupted }) hruns
      refine hdb.endTurn hrun hopen hturn .cancelled (by decide) hbase hput rfl
        (fun turnID hmem => ?_) rfl rfl (.inr ⟨rfl, hbridge⟩)
      rcases mem_cons.1 hmem with rfl | hmem
      · exact .inr ⟨rfl, hbusy.resolve_left (by decide), rfl⟩
      · exact .inl (hinterrupted ▸ hmem)
    | cancel =>
      have hput :=
        congrArg (·.set runID { run with status := .cancelled, waitingReason := none }) hruns
      exact hdb.endTurn hrun hopen hturn .cancelled (by decide) hbase hput rfl
        (fun turnID hmem => .inl (hinterrupted ▸ hmem)) rfl rfl (.inl rfl)

/-- `FinishAgentBridgeTurn`. -/
theorem finishAgentBridgeTurn_sound {outcome : RuntimeOutcome}
    (h : db.finishAgentBridgeTurn project runID turnID outcome = .ok db') :
    db'.Sound ∧ Keeps db db' := by
  simp only [finishAgentBridgeTurn, steps_ok] at h
  obtain ⟨⟨run, turn⟩, hload, hcurrent, h⟩ := h
  obtain ⟨hrun, hturn, hbridge⟩ := loadAgentBridge_ok hload
  split at h
  · obtain rfl := pure_ok.1 h
    exact ⟨hdb, .refl db⟩
  · next hopen =>
    simp only [steps_ok] at h
    obtain ⟨hlive, rfl⟩ := h
    have hid : turn.id = turnID := by
      rw [← hcurrent]
      exact (hdb.turn?_eq_some.1 hturn).2
    subst hid
    refine hdb.endTurn hrun (fun hterminal => hopen (.inl hterminal)) hturn outcome.status.1
      ?_ (.inl ⟨hlive, rfl⟩) rfl rfl (fun _ => .inl) rfl rfl (.inr ⟨rfl, hbridge⟩)
    cases outcome <;> decide

/-- Only a run that is held has a live turn. -/
theorem Sound.held (hrun : db.runs.find? id = some run) (hmem : turn ∈ db.turnsOf id)
    (hlive : turn.live) : run.status.phase = .held :=
  (hdb.runs id run hrun).fenced.held turn hmem hlive

/-- `ActivateAgentBridgeTurn`. -/
theorem activateAgentBridgeTurn_sound
    (h : db.activateAgentBridgeTurn project runID turnID = .ok db') : db'.Sound ∧ Keeps db db' := by
  simp only [activateAgentBridgeTurn, steps_ok] at h
  obtain ⟨hany, rfl⟩ := h
  obtain ⟨turn, hmem, hturn⟩ := any_eq_true.1 hany
  obtain ⟨rfl, hof, -, hstarting, -⟩ := of_decide_eq_true hturn
  have hlive : turn.live := by
    rw [live, hstarting]
    rfl
  obtain ⟨run, hrun⟩ := isSome_iff_exists.1 (hdb.owned turn hmem)
  have hsound := hdb.runs _ run hrun
  have hmem' : turn ∈ db.turnsOf turn.run := mem_turnsOf.2 ⟨hmem, rfl⟩
  have hlast : (db.turnsOf turn.run).getLast? = some turn := hsound.fenced.getLast? hmem' hlive
  have hturn : db.turn? run.currentTurn = some turn := by
    obtain ⟨_, hlast?, hlast', -⟩ := hdb.current hrun
    rw [hlast?, ← hlast', hlast]
  obtain ⟨hcurrent, hbridges, -⟩ := hdb.rest_last hrun hturn .active
  have hput : ∀ other, (db.setTurnStatus turn.id .active).runs.find? other =
      if other = turn.run then some run else db.runs.find? other := by
    intro other
    split
    · next heq => exact heq ▸ hrun
    · rfl
  refine hdb.touch (open_of_find? hrun ?_) hput (withStatus_restates.ids hdb.ids)
    (fun other hother => .inl (owned_setTurnStatus hdb hother))
    (fun other hne => turnsOf_setTurnStatus_of_ne hdb hmem hne)
    (fun other hother hended => ended_setTurnStatus hdb hmem hlive hother hended)
    (fun _ => .inl) ⟨?_, hcurrent, fun _ after hafter => ?_, hbridges⟩
  · rw [terminal_iff, hdb.held hrun hmem' hlive]
    decide
  · rw [turnsOf_setTurnStatus]
    refine hsound.fenced.age (withStatus_restates.ages _ fun other hother h => ?_) fun _ _ _ h => h
    by_cases hid : other.id = turn.id
    · rwa [inj_on_of_nodup_map hdb.ids (mem_turnsOf.1 hother).1 hmem hid]
    · rwa [withStatus_of_ne hid] at h
  · rw [turnsOf_setTurnStatus, getLast?_map, hlast] at hafter
    obtain ⟨⟩ := hafter
    rw [withStatus, if_pos rfl]
    rfl

/-- Binds and completions come in time: while the current turn of the run is live. A run that is
    bound may be bound again, and completed as well after its turn is. -/
def timely (db : AgentDatabase) : AgentOperation → Bool
  | .bind runID _ _ _ _ => (db.runs.find? runID).all fun run =>
    run.actor.isSome || (db.turn? run.currentTurn).any (·.live)
  | .transitionRun _ _ .complete _ runID _ _ _ => (db.runs.find? runID).all fun run =>
    !run.bridge || run.status.terminal ||
      (db.turn? run.currentTurn).any fun turn => turn.live || turn.status = .completed
  | _ => true

/-- `BindAuthorizedAgentRun`, in time. Only a turn that is live is bound to. -/
theorem bindAuthorizedAgentRun_sound {agent : ID} {grant : Text} {grantRevision : Nat}
    (htimely : db.timely (.bind runID turnID agent grant grantRevision))
    (h : db.bindAuthorizedAgentRun runID turnID agent grant grantRevision = .ok db') :
    (db'.Sound ∧ Keeps db db') ∧ (turnID ∈ db.interrupted → db' = db) := by
  simp only [bindAuthorizedAgentRun, steps_ok] at h
  obtain ⟨_, -, -, run, hrun, -, ⟨hcurrent, hopen⟩, h⟩ := h
  cases hactor : run.actor with
  | some actor =>
    simp only [hactor, steps_ok] at h
    obtain ⟨-, rfl⟩ := h
    exact ⟨⟨hdb, .refl db⟩, fun _ => rfl⟩
  | none =>
    simp only [hactor, steps_ok] at h
    obtain ⟨-, rfl⟩ := h
    obtain ⟨turn, hturn, _, hmem, hof, hid⟩ := hdb.current hrun
    have hlive : turn.live := by
      simpa [timely, hrun, hactor, hturn] using htimely
    have hsound := hdb.runs runID run hrun
    have hmem' : turn ∈ db.turnsOf runID := mem_turnsOf.2 ⟨hmem, hof⟩
    have hheld := hdb.held hrun hmem' hlive
    have hfenced : Fenced live generation ⟨.held, db.turnsOf runID⟩ := hheld ▸ hsound.fenced
    refine ⟨?_, fun hinterrupted => ?_⟩
    · exact hdb.touch (open_of_find? hrun hopen) (Table.find?_set _ _ · _) hdb.ids
        (fun turn hmem => .inl (hdb.owned turn hmem)) (fun _ _ => rfl) (fun _ h _ => h)
        (fun _ => .inl) ⟨hfenced, hsound.current, fun _ => hsound.live (.inl hheld), hsound.bridge⟩
    · rw [← hcurrent, ← hid] at hinterrupted
      exact absurd hlive (hdb.ended_of_interrupted hmem hinterrupted)

/-- `BeginAgentRun`. -/
theorem beginAgentRun_sound
    (h : db.beginAgentRun actor requestID project input runID turnID = .ok db') :
    db'.Sound ∧ Keeps db db' := by
  obtain ⟨replay, -, h⟩ := bind_ok.1 h
  cases replay with
  | some _ =>
    simp only [steps_ok] at h
    obtain ⟨_, -, rfl⟩ := h
    exact ⟨hdb, .refl db⟩
  | none =>
    simp only [steps_ok] at h
    obtain ⟨-, _, hrun, _, hturn, rfl⟩ := h
    exact hdb.begin hrun hturn rfl rfl rfl rfl rfl rfl rfl rfl rfl

/-- The agent of a run that is its own ends the current turn of it, which is live. -/
theorem Sound.live_of_own (hrun : db.runs.find? id = some run) (hopen : ¬run.status.terminal)
    (hturn : db.turn? run.currentTurn = some turn) (hown : run.bridge = false) : turn.live := by
  obtain ⟨_, hlast?, hlast, -⟩ := hdb.current hrun
  obtain rfl := mem_unique hturn hlast?
  rw [terminal_iff] at hopen
  exact (hdb.runs id run hrun).live (.inr ⟨hown, hopen⟩) turn hlast

/-- A turn with the status it has. -/
theorem turns_setTurnStatus_self (hmem : turn ∈ db.turns) :
    (db.setTurnStatus turn.id turn.status).turns = db.turns := by
  change db.turns.map (withStatus turn.id turn.status) = _
  refine (map_congr_left fun other hother => ?_).trans (map_id _)
  by_cases hid : other.id = turn.id
  · rw [inj_on_of_nodup_map hdb.ids hother hmem hid, withStatus, if_pos rfl]
    rfl
  · exact withStatus_of_ne hid

/-- `TransitionAgentRun`, in time. An agent does nothing in a turn that was interrupted. -/
theorem transitionAgentRun_sound {expectedTurn newTurn : ID} {transition : RunTransition}
    (htimely : db.timely (.transitionRun actor requestID transition project runID expectedTurn
      expectedGeneration newTurn))
    (h : db.transitionAgentRun actor requestID transition project runID expectedTurn
      expectedGeneration newTurn = .ok db') :
    (db'.Sound ∧ Keeps db db') ∧ (expectedTurn ∈ db.interrupted → db' = db) := by
  obtain ⟨replay, -, h⟩ := bind_ok.1 h
  cases replay with
  | some _ =>
    simp only [steps_ok] at h
    obtain ⟨-, _, -, rfl⟩ := h
    exact ⟨⟨hdb, .refl db⟩, fun _ => rfl⟩
  | none =>
    simp only [steps_ok] at h
    obtain ⟨⟨run, _, turn⟩, hload, -, hmanaged, hopen, ⟨rfl, -⟩, -, h⟩ := h
    obtain ⟨hrun, hturn⟩ := loadAgentRun_ok hload
    have hmem := (hdb.turn?_eq_some.1 hturn).1
    have hown : transition ≠ .complete → run.bridge = false := by
      intro hne
      simpa using hmanaged.resolve_right hne
    cases transition with
    | resume =>
      simp only [steps_ok] at h
      obtain ⟨_, hinsert, _, rfl, rfl⟩ := h
      obtain ⟨rfl, hfresh⟩ := insertTurn_ok hinsert
      have hlive := hdb.live_of_own hrun hopen hturn (hown (by decide))
      obtain ⟨-, hbridges, hlength⟩ := hdb.rest_last hrun hturn .superseded
      refine ⟨?_, fun hinterrupted => absurd hlive (hdb.ended_of_interrupted hmem hinterrupted)⟩
      exact (hdb.rest hrun hturn hlive (by decide)).take hdb (open_of_find? hrun hopen) rfl rfl rfl
        hfresh rfl (congrArg (· + 1) hlength.symm) rfl rfl hbridges (hown (by decide)).symm rfl
    | complete =>
      simp only [steps_ok] at h
      obtain ⟨-, _, rfl, rfl⟩ := h
      have hstatus : turn.live ∨ turn.status = .completed := by
        cases hbridge : run.bridge with
        | false => exact .inl (hdb.live_of_own hrun hopen hturn hbridge)
        | true => simpa [timely, hrun, hturn, hbridge, hopen] using htimely
      refine ⟨?_, fun hinterrupted => ?_⟩
      · rcases hstatus with hlive | hcompleted
        · exact hdb.endTurn hrun hopen hturn .completed (by decide) (.inl ⟨hlive, rfl⟩) rfl rfl
            (fun _ => .inl) rfl rfl (.inl rfl)
        · have hended : ¬turn.live := by
            rw [live, hcompleted]
            decide
          refine hdb.endTurn hrun hopen hturn .completed (by decide) (.inr ⟨hended, rfl⟩) rfl ?_
            (fun _ => .inl) rfl rfl (.inl rfl)
          exact hcompleted ▸ turns_setTurnStatus_self hdb hmem
      · have hcancelled := hdb.cancelled_of_interrupted hmem hinterrupted
        rw [hcancelled] at hstatus
        exact absurd (hstatus.resolve_right (by decide)) (not_live_of_cancelled hcancelled)
    | cancel =>
      obtain ⟨_, rfl, rfl⟩ := h
      have hlive := hdb.live_of_own hrun hopen hturn (hown (by decide))
      refine ⟨?_, fun hinterrupted => absurd hlive (hdb.ended_of_interrupted hmem hinterrupted)⟩
      exact hdb.endTurn hrun hopen hturn .cancelled (by decide) (.inl ⟨hlive, rfl⟩) rfl rfl
        (fun _ => .inl) rfl rfl (.inl rfl)

end

/-- A turn as `RecoverAgentBridgeTurns` leaves it. -/
def detached (turn : AgentTurn) : AgentTurn :=
  if turn.live ∧ turn.bridge then { turn with status := .detached } else turn

theorem detached_restates : Restates detached := by
  intro turn
  unfold detached
  split <;> rfl

theorem detached_of_not (h : ¬(turn.live ∧ turn.bridge)) : detached turn = turn := if_neg h

theorem live_detached : (detached turn).live → turn.live ∧ turn.bridge = false := by
  rw [detached]
  split
  · intro h
    cases h
  · next hnot =>
    intro hlive
    exact ⟨hlive, by simpa using fun hbridge => hnot ⟨hlive, hbridge⟩⟩

theorem turn?_detachTurns : db.detachTurns.turn? turnID = (db.turn? turnID).map detached := by
  change (db.turns.map detached).find? _ = _
  rw [find?_map, turn?]
  congr 2
  funext turn
  rw [Function.comp_apply, detached_restates.id_eq]

theorem find?_recover : db.recoverAgentBridgeTurns.runs.find? id = (db.runs.find? id).map fun run =>
    if ¬run.status.terminal ∧ run.bridge ∧
        (db.detachTurns.turn? run.currentTurn).any (·.status = .detached) then
      { run with status := .paused, waitingReason := some .agentDetached }
    else run :=
  Table.find?_mapRows _ db.runs id

/-- A run is paused, or stays as it is, and then is not held if the bridge manages it. -/
theorem run_recover (hdb : db.Sound) (hrun : db.recoverAgentBridgeTurns.runs.find? id = some run') :
    ∃ run, db.runs.find? id = some run ∧ ((¬run.status.terminal ∧ run.bridge ∧
          run' = { run with status := .paused, waitingReason := some .agentDetached }) ∨
        (run' = run ∧ (run.bridge → run.status.phase ≠ .held))) := by
  rw [find?_recover] at hrun
  obtain ⟨run, hrow, hrun'⟩ := map_eq_some_iff.1 hrun
  refine ⟨run, hrow, ?_⟩
  split at hrun'
  · next hpaused => exact .inl ⟨hpaused.1, hpaused.2.1, hrun'.symm⟩
  · next hnot =>
    refine .inr ⟨hrun'.symm, fun hbridge hheld => hnot ?_⟩
    obtain ⟨turn, hturn, hlast, hmem, hof, -⟩ := hdb.current hrow
    have hsound := hdb.runs id run hrow
    have hlive := hsound.live (.inl hheld) turn hlast
    have hturn' := hsound.bridge turn (mem_turnsOf.2 ⟨hmem, hof⟩)
    refine ⟨?_, hbridge, ?_⟩
    · rw [terminal_iff, hheld]
      decide
    · rw [turn?_detachTurns, hturn, map_some, any_some, detached,
        if_pos ⟨hlive, hturn'.trans hbridge⟩]
      rfl

theorem runSound_recover (hdb : db.Sound)
    (hrun : db.recoverAgentBridgeTurns.runs.find? id = some run') :
    RunSound ((db.turnsOf id).map detached) run' := by
  obtain ⟨run, hrow, hrun'⟩ := run_recover hdb hrun
  have hsound := hdb.runs id run hrow
  cases hbridge : run.bridge with
  | false =>
    have hsame : (db.turnsOf id).map detached = db.turnsOf id := by
      refine (map_congr_left fun turn hmem => detached_of_not fun h => ?_).trans (map_id _)
      rw [hsound.bridge turn hmem, hbridge] at h
      cases h.2
    rw [hsame]
    rcases hrun' with ⟨-, hmanaged, -⟩ | ⟨rfl, -⟩
    · rw [hbridge] at hmanaged
      cases hmanaged
    · exact hsound
  | true =>
    -- no turn is live any more, and the run is not held
    have hidle : ∀ turn ∈ (db.turnsOf id).map detached, ¬turn.live := by
      intro turn hmem hlive
      obtain ⟨before, hbefore, rfl⟩ := mem_map.1 hmem
      have hown := (live_detached hlive).2
      rw [hsound.bridge before hbefore, hbridge] at hown
      cases hown
    have hlike : run'.currentTurn = run.currentTurn ∧ run'.bridge = true ∧
        run'.status.phase ≠ .held := by
      rcases hrun' with ⟨-, -, rfl⟩ | ⟨rfl, hheld⟩
      · exact ⟨rfl, hbridge, by simp [phase]⟩
      · exact ⟨rfl, hbridge, hheld hbridge⟩
    obtain ⟨hcurrent, hmanaged, hphase⟩ := hlike
    refine ⟨hsound.fenced.age (detached_restates.ages _ fun _ _ h => (live_detached h).1)
      fun turn hmem hlive => absurd hlive (hidle turn hmem),
      ?_, ?_, fun turn hmem => ?_⟩
    · obtain ⟨last, hlast, hid⟩ := hsound.current
      refine ⟨detached last, ?_, ?_⟩
      · rw [getLast?_map, hlast]
        rfl
      · rw [detached_restates.id_eq, hid, hcurrent]
    · rintro (hheld | ⟨hown, -⟩)
      · exact absurd hheld hphase
      · rw [hmanaged] at hown
        cases hown
    · obtain ⟨before, hbefore, rfl⟩ := mem_map.1 hmem
      rw [detached_restates.bridge_eq, hsound.bridge before hbefore, hbridge, hmanaged]

/-- `RecoverAgentBridgeTurns`. -/
theorem recoverAgentBridgeTurns_sound (hdb : db.Sound) :
    db.recoverAgentBridgeTurns.Sound ∧ Keeps db db.recoverAgentBridgeTurns := by
  have hended : ∀ turn ∈ db.turns, ¬turn.live → turn ∈ db.recoverAgentBridgeTurns.turns :=
    fun turn hmem hlive => mem_map.2 ⟨turn, hmem, detached_of_not fun h => hlive h.1⟩
  refine ⟨⟨?_, fun turn hmem => ?_, fun id run hrun => ?_, fun turnID hmem => ?_⟩,
    fun id run hrun hterminal => ?_, hended⟩
  · exact detached_restates.ids hdb.ids
  · obtain ⟨before, hbefore, rfl⟩ := mem_map.1 (show turn ∈ db.turns.map detached from hmem)
    rw [detached_restates.run_eq, find?_recover, isSome_map]
    exact hdb.owned before hbefore
  · rw [detached_restates.turnsOf rfl]
    exact runSound_recover hdb hrun
  · obtain ⟨turn, hturn, hid, hstatus⟩ := hdb.interrupted turnID hmem
    exact ⟨turn, hended turn hturn (not_live_of_cancelled hstatus), hid, hstatus⟩
  · rw [find?_recover, hrun, map_some, if_neg fun h => h.1 hterminal]

/-! ## Runs -/

/-- The turn in which an agent issues a command. -/
def issuedIn : AgentOperation → Option ID
  | .bind _ turnID _ _ _ => some turnID
  | .transitionRun _ _ _ _ _ expectedTurn _ _ => some expectedTurn
  | _ => none

/-- An operation in time keeps the database sound, and does nothing for the agent of a turn that was
    interrupted. -/
theorem serve_sound (hdb : db.Sound) {op : AgentOperation} (htimely : db.timely op)
    (h : db.serve op = .ok db') :
    (db'.Sound ∧ Keeps db db') ∧ (∀ turnID ∈ issuedIn op, turnID ∈ db.interrupted → db' = db) := by
  cases op with
  | beginBridge =>
    obtain ⟨⟨_, result⟩, hbridge, rfl⟩ := map_ok.1 h
    exact ⟨beginAgentBridge_sound hdb hbridge, by simp [issuedIn]⟩
  | continueBridge =>
    obtain ⟨⟨_, result⟩, hbridge, rfl⟩ := map_ok.1 h
    exact ⟨continueAgentBridge_sound hdb hbridge, by simp [issuedIn]⟩
  | transitionBridge =>
    obtain ⟨⟨_, _⟩, hbridge, rfl⟩ := map_ok.1 h
    exact ⟨transitionAgentBridge_sound hdb hbridge, by simp [issuedIn]⟩
  | bind =>
    obtain ⟨hsound, hsame⟩ := bindAuthorizedAgentRun_sound hdb htimely h
    refine ⟨hsound, ?_⟩
    rintro _ ⟨⟩
    exact hsame
  | activate => exact ⟨activateAgentBridgeTurn_sound hdb h, by simp [issuedIn]⟩
  | finish => exact ⟨finishAgentBridgeTurn_sound hdb h, by simp [issuedIn]⟩
  | recover =>
    obtain ⟨⟩ := h
    exact ⟨recoverAgentBridgeTurns_sound hdb, by simp [issuedIn]⟩
  | beginRun => exact ⟨beginAgentRun_sound hdb h, by simp [issuedIn]⟩
  | transitionRun =>
    obtain ⟨hsound, hsame⟩ := transitionAgentRun_sound hdb htimely h
    refine ⟨hsound, ?_⟩
    rintro _ ⟨⟩
    exact hsame
  | others =>
    obtain ⟨⟩ := h
    exact ⟨⟨⟨hdb.ids, hdb.owned, hdb.runs, hdb.interrupted⟩, fun _ _ h _ => h, fun _ h _ => h⟩,
      by simp [issuedIn]⟩

/-- There is nothing yet. -/
structure Fresh (db : AgentDatabase) : Prop where
  runs : ∀ id, db.runs.find? id = none
  turns : db.turns = []
  interrupted : db.interrupted = []

theorem Fresh.sound (h : db.Fresh) : db.Sound := by
  refine ⟨?_, ?_, ?_, ?_⟩
  · rw [h.turns]
    exact nodup_nil
  · rw [h.turns]
    simp
  · intro id run hrun
    rw [h.runs] at hrun
    cases hrun
  · rw [h.interrupted]
    simp

end AgentDatabase

open AgentDatabase

/-- In every run of operations that are in time, the turns of a run carry the generations 1, …, n
    and its current turn is the one of generation n; no other turn is live; the current turn of a
    run that is authorizing or active is live, and no turn of a run that is over. A run that is over
    never changes again, nor does a turn that has ended, and the agent of a turn that was
    interrupted changes no run. -/
theorem agent_runs_consistent {start db : AgentDatabase} (hstart : start.Fresh)
    (hrun : Machine.Reaches AgentDatabase.serve (fun db op => db.timely op) start db) :
    (∀ id run, db.runs.find? id = some run →
      (db.turnsOf id).map (·.generation) = List.range' 1 (db.turnsOf id).length ∧
      (∃ turn ∈ db.turnsOf id, turn.id = run.currentTurn ∧
        turn.generation = (db.turnsOf id).length ∧
        (run.status = .authorizing ∨ run.status = .active → turn.live)) ∧
      (∀ turn ∈ db.turnsOf id, turn.id ≠ run.currentTurn → ¬turn.live) ∧
      (run.status.terminal → ∀ turn ∈ db.turnsOf id, ¬turn.live)) ∧
    ∀ op db', db.timely op → db.serve op = .ok db' →
      (∀ id run, db.runs.find? id = some run → run.status.terminal →
        db'.runs.find? id = some run) ∧
      (∀ turnID turn, db.turn? turnID = some turn → ¬turn.live → db'.turn? turnID = some turn) ∧
      (∀ turnID ∈ issuedIn op, turnID ∈ db.interrupted →
        ∀ id, db'.runs.find? id = db.runs.find? id) := by
  have hdb : db.Sound := hrun.invariant AgentDatabase.Sound
    (fun s op s' htimely hs hserve => (serve_sound hs htimely hserve).1.1) hstart.sound
  refine ⟨fun id run hrow => ?_, fun op db' htimely hserve => ?_⟩
  · obtain ⟨turn, hturn, hlast, hmem, hof, hid⟩ := hdb.current hrow
    have hsound := hdb.runs id run hrow
    refine ⟨hsound.fenced.generations, ⟨turn, mem_turnsOf.2 ⟨hmem, hof⟩, hid,
      hsound.generation_last hlast, fun hstatus => hsound.live (.inl ?_) turn hlast⟩,
      fun other hother hne hlive => hne ?_, fun hterminal other hother hlive => ?_⟩
    · rcases hstatus with hstatus | hstatus <;> rw [hstatus] <;> rfl
    · rw [hsound.eq_last hlast hother hlive, hid]
    · rw [terminal_iff, hdb.held hrow hother hlive] at hterminal
      cases hterminal
  · obtain ⟨⟨hdb', hkeeps⟩, hsame⟩ := serve_sound hdb htimely hserve
    refine ⟨hkeeps.closed, fun turnID turn hturn hended => ?_,
      fun turnID hissued hinterrupted id => ?_⟩
    · obtain ⟨hmem, hid⟩ := hdb.turn?_eq_some.1 hturn
      exact hdb'.turn?_eq_some.2 ⟨hkeeps.ended turn hmem hended, hid⟩
    · rw [hsame turnID hissued hinterrupted]

/-! ## A turn that is interrupted -/

/-- No table has rows. -/
def emptyDatabase : AgentDatabase := ⟨∅, ∅, ∅, [], ∅, ∅, ∅, []⟩

theorem emptyDatabase_fresh : emptyDatabase.Fresh := ⟨fun _ => rfl, rfl, rfl⟩

/-- There are a project and a grant of an agent, and a creator begins a run. -/
def sampleBegin : List AgentOperation :=
  [.others ((∅ : Table ID Bool).set 1 true) ((∅ : Table Text GrantColumns).set [] ⟨true, 7, 1⟩) ∅,
    .beginBridge 5 ['a'] 1 [] 10 11 true]

/-- The agent binds the run. -/
def sampleBind : AgentOperation := .bind 10 11 7 [] 1

/-- The creator interrupts the first turn. -/
def sampleInterrupt : AgentOperation := .transitionBridge 5 ['b'] .interrupt 1 10 11 1

/-- The agent completes the run. -/
def sampleComplete : AgentOperation := .transitionRun 7 ['c'] .complete 1 10 11 1 12

/-- The run is bound in time, and then interrupted. -/
theorem agent_runs_consistent_interrupted : ∃ (db : AgentDatabase) (run : AgentRun),
    db.runs.find? 10 = some run ∧ run.status = .paused ∧ 11 ∈ db.interrupted ∧
    (db.turnsOf 10).map (·.generation) = List.range' 1 (db.turnsOf 10).length := by
  obtain ⟨db, hreaches, run, hrun, hstatus, hinterrupted⟩ : ∃ db,
      Machine.Reaches serve (fun db op => db.timely op) emptyDatabase db ∧
      ∃ run, db.runs.find? 10 = some run ∧ run.status = .paused ∧ 11 ∈ db.interrupted :=
    Machine.exists_of_play (sampleBegin ++ [sampleBind, sampleInterrupt]) (by decide +kernel)
  have hconsistent := agent_runs_consistent emptyDatabase_fresh hreaches
  exact ⟨db, run, hrun, hstatus, hinterrupted, (hconsistent.1 10 run hrun).1⟩

/-- The agent of a turn that was interrupted binds its run, which is active then without a live
    turn; and, where it was bound before, completes the run and the turn. -/
theorem interrupted_run_changes :
    (∃ (db db' : AgentDatabase) (run : AgentRun) (turn : AgentTurn),
      Machine.Reaches AgentDatabase.serve (fun _ _ => True) emptyDatabase db ∧
      11 ∈ db.interrupted ∧ issuedIn sampleBind = some 11 ∧ db.serve sampleBind = .ok db' ∧
      db'.runs.find? 10 = some run ∧ run.status = .active ∧ run.currentTurn = 11 ∧
      db'.turn? 11 = some turn ∧ ¬turn.live) ∧
    ∃ (db db' : AgentDatabase) (run : AgentRun) (turn : AgentTurn),
      Machine.Reaches AgentDatabase.serve (fun _ _ => True) emptyDatabase db ∧
      11 ∈ db.interrupted ∧ issuedIn sampleComplete = some 11 ∧
      (db.turn? 11).map (·.status) = some .cancelled ∧ db.serve sampleComplete = .ok db' ∧
      db'.runs.find? 10 = some run ∧ run.status = .completed ∧
      db'.turn? 11 = some turn ∧ turn.status = .completed := by
  constructor
  · simp only [exists_and_left]
    exact Machine.exists_of_play (sampleBegin ++ [sampleInterrupt]) (by decide +kernel)
  · simp only [exists_and_left]
    exact Machine.exists_of_play (sampleBegin ++ [sampleBind, sampleInterrupt]) (by decide +kernel)

end OpenCut.Agents
