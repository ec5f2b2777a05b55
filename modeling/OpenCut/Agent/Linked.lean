import OpenCut.Agent.Consistent

/-!
# What every operation on agent runs keeps

Whatever operations come, in time or not: turns have ids of their own, the current turn of a run is
one of its turns (`AgentDatabase.Linked`), and a turn that does not start any more never starts
again (`AgentDatabase.serve_extends`). For the operations of the bridge this also says which turns
they create or stop.
-/

namespace OpenCut.Agents

open Outcome List

namespace AgentDatabase

variable {db db' db'' : AgentDatabase} {id : ID} {run run' : AgentRun} {turn : AgentTurn}

/-- A turn of the run that does not start any more. -/
def Begun (db : AgentDatabase) (runID turnID : ID) : Prop :=
  ∃ turn ∈ db.turns, turn.id = turnID ∧ turn.run = runID ∧ turn.status ≠ .starting

/-- Turns have ids of their own, the current turn of a run is one of it, and the turns that were
    interrupted or cancelled do not start any more. -/
structure Linked (db : AgentDatabase) : Prop where
  ids : (db.turns.map (·.id)).Nodup
  current : ∀ id run, db.runs.find? id = some run →
    ∃ turn ∈ db.turns, turn.id = run.currentTurn ∧ turn.run = id
  served : ∀ key transition project runID turnID generation run, db.bridgeRequests.find? key =
    some ⟨.transition transition project runID turnID generation, run⟩ → db.Begun runID turnID

/-- Turns stay, and do not start again. -/
def Later (db db' : AgentDatabase) : Prop :=
  ∀ turn ∈ db.turns, ∃ turn' ∈ db'.turns, turn'.id = turn.id ∧ turn'.run = turn.run ∧
    (turn'.status = .starting → turn.status = .starting)

/-- What every operation does. -/
structure Extends (db db' : AgentDatabase) : Prop where
  linked : db'.Linked
  later : Later db db'

theorem Later.refl (db : AgentDatabase) : Later db db :=
  fun turn hmem => ⟨turn, hmem, rfl, rfl, fun hstarting => hstarting⟩

variable {runID turnID : ID}

theorem Begun.later (h : db.Begun runID turnID) (hlater : Later db db') :
    db'.Begun runID turnID := by
  obtain ⟨turn, hmem, hid, hrun, hstatus⟩ := h
  obtain ⟨turn', hmem', hid', hrun', hstarting⟩ := hlater turn hmem
  exact ⟨turn', hmem', hid'.trans hid, hrun'.trans hrun, fun h => hstatus (hstarting h)⟩

theorem Linked.extends_self (h : db.Linked) : Extends db db := ⟨h, .refl db⟩

/-- The requests on record are still right. -/
theorem Linked.extend (h : db.Linked) (hids : (db'.turns.map (·.id)).Nodup)
    (hcurrent : ∀ id run, db'.runs.find? id = some run →
      ∃ turn ∈ db'.turns, turn.id = run.currentTurn ∧ turn.run = id)
    (hrequests : db'.bridgeRequests = db.bridgeRequests) (hlater : Later db db') :
    Extends db db' := by
  refine ⟨⟨hids, hcurrent, fun key transition project runID turnID generation run hserved => ?_⟩,
    hlater⟩
  rw [hrequests] at hserved
  exact (h.served key transition project runID turnID generation run hserved).later hlater

theorem Extends.trans (h : Extends db db') (h' : Extends db' db'') : Extends db db'' := by
  refine ⟨h'.linked, fun turn hmem => ?_⟩
  obtain ⟨turn', hmem', hid, hrun, hstarting⟩ := h.later turn hmem
  obtain ⟨turn'', hmem'', hid', hrun', hstarting'⟩ := h'.later turn' hmem'
  exact ⟨turn'', hmem'', hid'.trans hid, hrun'.trans hrun, fun h => hstarting (hstarting' h)⟩

/-- Other tables do not matter. -/
theorem Extends.same (h : Extends db db') (hruns : db''.runs = db'.runs)
    (hturns : db''.turns = db'.turns) (hrequests : db''.bridgeRequests = db'.bridgeRequests) :
    Extends db db'' := by
  refine h.trans (h.linked.extend ?_ ?_ hrequests ?_)
  · rw [hturns]
    exact h.linked.ids
  · rw [hturns, hruns]
    exact h.linked.current
  · rw [Later, hturns]
    exact Later.refl db'

variable {creator : ID} {requestID : Text} {command : BridgeCommand}

/-- A request is put on record. -/
theorem Extends.insertBridgeRequest (h : Extends db db')
    (hbegun : ∀ transition project runID turnID generation,
      command = .transition transition project runID turnID generation → db'.Begun runID turnID) :
    Extends db (db'.insertBridgeRequest creator requestID command runID) := by
  refine ⟨⟨h.linked.ids, h.linked.current, ?_⟩, h.later⟩
  intro key transition project runID turnID generation run hserved
  rcases Table.of_find?_set hserved with ⟨-, ⟨⟩⟩ | hserved
  · exact hbegun _ _ _ _ _ rfl
  · exact h.linked.served key transition project runID turnID generation run hserved

variable {status : AgentTurnStatus}

theorem later_withStatus (hstatus : status ≠ .starting) :
    (withStatus turnID status turn).status = .starting → turn.status = .starting := by
  rw [withStatus]
  split
  · exact fun h => absurd h hstatus
  · exact fun h => h

section

variable (h : db.Linked)
include h

theorem Linked.setTurnStatus (turnID : ID) (hstatus : status ≠ .starting) :
    Extends db (db.setTurnStatus turnID status) := by
  refine h.extend (withStatus_restates.ids h.ids) (fun id run hrun => ?_) rfl fun turn hmem => ?_
  · obtain ⟨turn, hmem, hid, hof⟩ := h.current id run hrun
    exact ⟨withStatus turnID status turn, mem_map_of_mem hmem,
      (withStatus_restates.id_eq turn).trans hid, (withStatus_restates.run_eq turn).trans hof⟩
  · exact ⟨withStatus turnID status turn, mem_map_of_mem hmem, withStatus_restates.id_eq turn,
      withStatus_restates.run_eq turn,
      later_withStatus hstatus⟩

theorem Linked.insertTurn (hinsert : db.insertTurn turn = .ok db') : Extends db db' := by
  obtain ⟨rfl, hfresh⟩ := insertTurn_ok hinsert
  refine h.extend ?_ (fun id run hrun => ?_) rfl fun other hmem => ?_
  · rw [map_append, nodup_append]
    refine ⟨h.ids, nodup_singleton _, ?_⟩
    intro a ha b hb
    obtain ⟨other, hother, rfl⟩ := mem_map.1 ha
    obtain rfl := mem_singleton.1 hb
    exact hfresh other hother
  · obtain ⟨turn, hmem, hturn⟩ := h.current id run hrun
    exact ⟨turn, mem_append_left _ hmem, hturn⟩
  · exact ⟨other, mem_append_left _ hmem, rfl, rfl, fun hstarting => hstarting⟩

theorem Linked.setRun (hturn : ∃ turn ∈ db.turns, turn.id = run'.currentTurn ∧ turn.run = id) :
    Extends db (db.setRun id run') := by
  refine h.extend h.ids (fun other row hrow => ?_) rfl (Later.refl db)
  rcases Table.of_find?_set hrow with ⟨heq, rfl⟩ | hrow
  · exact heq ▸ hturn
  · exact h.current other row hrow

/-- A turn changes its status, and its run is put with the same current turn. -/
theorem Linked.endTurn (hrun : db.runs.find? id = some run) (turnID : ID) (run' : AgentRun)
    (hstatus : status ≠ .starting) (hcurrent : run'.currentTurn = run.currentTurn) :
    Extends db ((db.setTurnStatus turnID status).setRun id run') := by
  have hset := h.setTurnStatus turnID hstatus
  refine hset.trans (hset.linked.setRun ?_)
  rw [hcurrent]
  exact hset.linked.current id run hrun

/-- A turn is added and becomes the current one of its run. -/
theorem Linked.take (hinsert : db.insertTurn turn = .ok db')
    (hcurrent : run'.currentTurn = turn.id) : Extends db (db'.setRun turn.run run') := by
  have hadd := h.insertTurn hinsert
  refine hadd.trans (hadd.linked.setRun ⟨turn, ?_, hcurrent.symm, rfl⟩)
  obtain ⟨rfl, -⟩ := insertTurn_ok hinsert
  exact mem_append_right _ mem_cons_self

/-- A run is inserted, and its first turn. -/
theorem Linked.begin {base base' : AgentDatabase} (hrun : db.insertRun id run' = .ok base)
    (hturn : base.insertTurn turn = .ok base') (hof : turn.run = id)
    (hcurrent : run'.currentTurn = turn.id) : Extends db base' := by
  obtain ⟨rfl, -⟩ := insertRun_ok hrun
  obtain ⟨rfl, _⟩ := insertTurn_ok hturn
  subst hof
  have hinsert : db.insertTurn turn = .ok { db with turns := db.turns ++ [turn] } := by
    simp only [AgentDatabase.insertTurn, steps_ok] at hturn ⊢
    exact ⟨hturn.1, hturn.2.1, hturn.2.2.1, trivial⟩
  exact (h.take hinsert hcurrent).same rfl rfl rfl

end

variable {project : ID} {result : BridgeResult}

/-- A request that was served before is answered with the run as it is now. -/
theorem loadAgentBridgeReplay_ok
    (h : db.loadAgentBridgeReplay creator requestID command project = .ok (some result)) :
    db.bridgeRequests.find? (creator, requestID) = some ⟨command, result.run⟩ ∧ result.replayed ∧
      ∃ run, db.runs.find? result.run = some run ∧ run.currentTurn = result.turn := by
  rw [loadAgentBridgeReplay] at h
  split at h
  · cases h
  · next served hserved =>
    simp only [steps_ok, Option.some.injEq] at h
    obtain ⟨hcommand, ⟨run, _⟩, hload, rfl⟩ := h
    rw [hserved, ← hcommand]
    exact ⟨rfl, rfl, run, (loadAgentBridge_ok hload).1, rfl⟩

/-- The turn of a result that is not replayed is new. -/
structure Creates (db db' : AgentDatabase) (result : BridgeResult) : Prop where
  fresh : ∀ turn ∈ db.turns, turn.id ≠ result.turn
  added : ∃ turn ∈ db'.turns, turn.id = result.turn ∧ turn.run = result.run

variable {input : Text} {admissible : Bool}

theorem beginAgentBridge_extends (h : db.Linked)
    (hbegin : db.beginAgentBridge creator requestID project input runID turnID admissible =
      .ok (db', result)) :
    Extends db db' ∧ (result.replayed = false → Creates db db' result) := by
  obtain ⟨replay, hreplay, hbegin⟩ := bind_ok.1 hbegin
  cases replay with
  | some =>
    cases hbegin
    refine ⟨h.extends_self, fun hfirst => ?_⟩
    rw [(loadAgentBridgeReplay_ok hreplay).2.1] at hfirst
    cases hfirst
  | none =>
    simp only [steps_ok, Prod.mk.injEq] at hbegin
    obtain ⟨-, -, _, hrun, _, hturn, rfl, rfl⟩ := hbegin
    refine ⟨(h.begin hrun hturn rfl rfl).insertBridgeRequest (by simp), fun _ => ?_⟩
    obtain ⟨rfl, -⟩ := insertRun_ok hrun
    obtain ⟨rfl, hfresh⟩ := insertTurn_ok hturn
    exact ⟨hfresh, _, mem_append_right _ mem_cons_self, rfl, rfl⟩

variable {expectedGeneration : Nat}

theorem continueAgentBridge_extends (h : db.Linked)
    (hcontinue : db.continueAgentBridge creator requestID project runID expectedGeneration input
      turnID admissible = .ok (db', result)) :
    Extends db db' ∧ (result.replayed = false → Creates db db' result) := by
  obtain ⟨replay, hreplay, hcontinue⟩ := bind_ok.1 hcontinue
  cases replay with
  | some =>
    simp only [steps_ok, Prod.mk.injEq] at hcontinue
    obtain ⟨-, rfl, rfl⟩ := hcontinue
    refine ⟨h.extends_self, fun hfirst => ?_⟩
    rw [(loadAgentBridgeReplay_ok hreplay).2.1] at hfirst
    cases hfirst
  | none =>
    simp only [steps_ok, Prod.mk.injEq] at hcontinue
    obtain ⟨⟨run, _⟩, _, -, -, -, -, -, base, hinsert, -, rfl, rfl⟩ := hcontinue
    have htake : Extends db (base.setRun runID { run with
        currentTurn := turnID
        status := if run.actor = none then .authorizing else .active
        waitingReason := none }) := h.take hinsert rfl
    refine ⟨htake.insertBridgeRequest (by simp), fun _ => ?_⟩
    obtain ⟨rfl, hfresh⟩ := insertTurn_ok hinsert
    exact ⟨hfresh, _, mem_append_right _ mem_cons_self, rfl, rfl⟩

theorem turn?_ok (h : db.turn? turnID = some turn) : turn ∈ db.turns ∧ turn.id = turnID :=
  ⟨mem_of_find?_eq_some h, by simpa using find?_some h⟩

variable (h : db.Linked)
include h

/-- The current turn that is loaded with a run belongs to it. -/
theorem Linked.loaded (hload : db.loadAgentBridge project id = .ok (run, turn)) :
    db.runs.find? id = some run ∧ turn ∈ db.turns ∧ turn.id = run.currentTurn ∧ turn.run = id := by
  obtain ⟨hrun, hturn, -⟩ := loadAgentBridge_ok hload
  obtain ⟨hmem, hid⟩ := turn?_ok hturn
  obtain ⟨_, hother, hid', hof⟩ := h.current id run hrun
  rw [inj_on_of_nodup_map h.ids hother hmem (hid'.trans hid.symm)] at hof
  exact ⟨hrun, hmem, hid, hof⟩

/-- A live turn is cancelled. -/
theorem Linked.cancelTurn (hmem : turn ∈ db.turns) (hof : turn.run = id) :
    Extends db (if turn.live then db.setTurnStatus turn.id .cancelled else db) ∧
      Begun (if turn.live then db.setTurnStatus turn.id .cancelled else db) id turn.id := by
  split
  · refine ⟨h.setTurnStatus turn.id (by decide), withStatus turn.id .cancelled turn,
      mem_map_of_mem hmem, withStatus_restates.id_eq turn,
      (withStatus_restates.run_eq turn).trans hof, ?_⟩
    rw [withStatus, if_pos rfl]
    simp
  · next hended =>
    refine ⟨h.extends_self, turn, hmem, rfl, hof, fun hstarting => hended ?_⟩
    rw [AgentTurn.live, hstarting]
    rfl

/-- Interrupt and Cancel: the turn that the request names does not start any more. Unless the
    request was served before, it is the current turn of the run. -/
theorem transitionAgentBridge_extends {transition : AgentBridgeTransition} {generation : Nat}
    (htransition : db.transitionAgentBridge creator requestID transition project runID turnID
      generation = .ok (db', result)) :
    Extends db db' ∧ result.run = runID ∧ db'.Begun runID turnID ∧
      (result.turn = turnID ∨ (db.bridgeRequests.find? (creator, requestID)).isSome ∧
        ∃ run, db.runs.find? runID = some run ∧ run.currentTurn = result.turn) := by
  obtain ⟨replay, hreplay, htransition⟩ := bind_ok.1 htransition
  cases replay with
  | some =>
    simp only [steps_ok, Prod.mk.injEq] at htransition
    obtain ⟨hrun, rfl, rfl⟩ := htransition
    obtain ⟨hserved, -, hcurrent⟩ := loadAgentBridgeReplay_ok hreplay
    refine ⟨h.extends_self, hrun, h.served _ _ _ _ _ _ _ hserved, .inr ⟨?_, hrun ▸ hcurrent⟩⟩
    rw [hserved]
    rfl
  | none =>
    simp only [steps_ok, Prod.mk.injEq] at htransition
    obtain ⟨⟨run, turn⟩, hload, -, -, ⟨rfl, -⟩, -, -, rfl, rfl⟩ := htransition
    obtain ⟨hrun, hmem, hid, hof⟩ := h.loaded hload
    obtain ⟨hended, hbegun⟩ := h.cancelTurn hmem hof
    have hruns : (if turn.live then db.setTurnStatus turn.id .cancelled else db).runs =
        db.runs := by
      split <;> rfl
    have hcurrent : ∀ run', run'.currentTurn = run.currentTurn → Extends db
        ((if turn.live then db.setTurnStatus turn.id .cancelled else db).setRun runID run') := by
      intro run' heq
      refine hended.trans (hended.linked.setRun ?_)
      rw [heq]
      exact hended.linked.current runID run (hruns ▸ hrun)
    cases transition with
    | interrupt =>
      have hput := hcurrent { run with
        status := .paused, waitingReason := some .creatorInterrupted } rfl
      refine ⟨Extends.insertBridgeRequest ?_ ?_, rfl, hbegun, .inl rfl⟩
      · exact hput.same rfl rfl rfl
      · rintro _ _ _ _ _ ⟨⟩
        exact hbegun
    | cancel =>
      have hput := hcurrent { run with status := .cancelled, waitingReason := none } rfl
      refine ⟨hput.insertBridgeRequest ?_, rfl, hbegun, .inl rfl⟩
      rintro _ _ _ _ _ ⟨⟩
      exact hbegun

theorem activateAgentBridgeTurn_extends
    (hactivate : db.activateAgentBridgeTurn project runID turnID = .ok db') :
    Extends db db' ∧ ∃ turn ∈ db.turns, turn.id = turnID ∧ turn.status = .starting := by
  simp only [activateAgentBridgeTurn, steps_ok] at hactivate
  obtain ⟨hany, rfl⟩ := hactivate
  obtain ⟨turn, hmem, hturn⟩ := any_eq_true.1 hany
  obtain ⟨hid, -, -, hstarting, -⟩ := of_decide_eq_true hturn
  exact ⟨h.setTurnStatus turnID (by decide), turn, hmem, hid, hstarting⟩

theorem finishAgentBridgeTurn_extends {outcome : RuntimeOutcome}
    (hfinish : db.finishAgentBridgeTurn project runID turnID outcome = .ok db') :
    Extends db db' := by
  simp only [finishAgentBridgeTurn, steps_ok] at hfinish
  obtain ⟨⟨run, _⟩, hload, -, hfinish⟩ := hfinish
  split at hfinish
  · obtain rfl := pure_ok.1 hfinish
    exact h.extends_self
  · simp only [steps_ok] at hfinish
    obtain ⟨-, rfl⟩ := hfinish
    refine h.endTurn (h.loaded hload).1 turnID _ ?_ rfl
    cases outcome <;> decide

theorem bindAuthorizedAgentRun_extends {agent : ID} {grant : Text} {grantRevision : Nat}
    (hbind : db.bindAuthorizedAgentRun runID turnID agent grant grantRevision = .ok db') :
    Extends db db' := by
  simp only [bindAuthorizedAgentRun, steps_ok] at hbind
  obtain ⟨_, -, -, run, hrun, -, -, hbind⟩ := hbind
  split at hbind
  · simp only [steps_ok] at hbind
    obtain ⟨-, rfl⟩ := hbind
    exact h.extends_self
  · simp only [steps_ok] at hbind
    obtain ⟨-, rfl⟩ := hbind
    exact h.setRun (h.current runID run hrun)

theorem transitionAgentRun_extends {actor expectedTurn newTurn : ID} {transition : RunTransition}
    (htransition : db.transitionAgentRun actor requestID transition project runID expectedTurn
      expectedGeneration newTurn = .ok db') : Extends db db' := by
  obtain ⟨replay, -, htransition⟩ := bind_ok.1 htransition
  cases replay with
  | some _ =>
    simp only [steps_ok] at htransition
    obtain ⟨-, _, -, rfl⟩ := htransition
    exact h.extends_self
  | none =>
    simp only [steps_ok] at htransition
    obtain ⟨⟨run, _, _⟩, hload, -, -, -, -, -, htransition⟩ := htransition
    obtain ⟨hrun, -⟩ := loadAgentRun_ok hload
    cases transition with
    | resume =>
      simp only [steps_ok] at htransition
      obtain ⟨base, hinsert, _, rfl, rfl⟩ := htransition
      have hset :=
        h.setTurnStatus expectedTurn (show .superseded ≠ AgentTurnStatus.starting by decide)
      have htake : Extends (db.setTurnStatus expectedTurn .superseded) (base.setRun runID { run with
          status := .active, waitingReason := none, currentTurn := newTurn }) :=
        hset.linked.take hinsert rfl
      exact (hset.trans htake).same rfl rfl rfl
    | complete =>
      simp only [steps_ok] at htransition
      obtain ⟨-, _, rfl, rfl⟩ := htransition
      exact (h.endTurn hrun expectedTurn { run with status := .completed } (by decide) rfl).same
        rfl rfl rfl
    | cancel =>
      obtain ⟨_, rfl, rfl⟩ := htransition
      exact (h.endTurn hrun expectedTurn { run with status := .cancelled } (by decide) rfl).same
        rfl rfl rfl

theorem beginAgentRun_extends {actor : ID}
    (hbegin : db.beginAgentRun actor requestID project input runID turnID = .ok db') :
    Extends db db' := by
  obtain ⟨replay, -, hbegin⟩ := bind_ok.1 hbegin
  cases replay with
  | some _ =>
    simp only [steps_ok] at hbegin
    obtain ⟨_, -, rfl⟩ := hbegin
    exact h.extends_self
  | none =>
    simp only [steps_ok] at hbegin
    obtain ⟨-, _, hrun, _, hturn, rfl⟩ := hbegin
    exact (h.begin hrun hturn rfl rfl).same rfl rfl rfl

theorem recoverAgentBridgeTurns_extends : Extends db db.recoverAgentBridgeTurns := by
  refine h.extend (detached_restates.ids h.ids) (fun id run hrun => ?_) rfl fun turn hmem => ?_
  · rw [find?_recover] at hrun
    obtain ⟨row, hrow, hrun⟩ := Option.map_eq_some_iff.1 hrun
    obtain ⟨turn, hmem, hid, hof⟩ := h.current id row hrow
    refine ⟨detached turn, mem_map_of_mem hmem, (detached_restates.id_eq turn).trans (hid.trans ?_),
      (detached_restates.run_eq turn).trans hof⟩
    rw [← hrun]
    split <;> rfl
  · refine ⟨detached turn, mem_map_of_mem hmem, detached_restates.id_eq turn,
      detached_restates.run_eq turn, ?_⟩
    rw [detached]
    split
    · rintro ⟨⟩
    · exact fun hstarting => hstarting

/-- Every operation leaves the turns where they are. -/
theorem serve_extends {op : AgentOperation} (hserve : db.serve op = .ok db') : Extends db db' := by
  cases op with
  | beginBridge =>
    obtain ⟨⟨_, result⟩, hbridge, rfl⟩ := map_ok.1 hserve
    exact (beginAgentBridge_extends h hbridge).1
  | continueBridge =>
    obtain ⟨⟨_, result⟩, hbridge, rfl⟩ := map_ok.1 hserve
    exact (continueAgentBridge_extends h hbridge).1
  | transitionBridge =>
    obtain ⟨⟨_, _⟩, hbridge, rfl⟩ := map_ok.1 hserve
    exact (transitionAgentBridge_extends h hbridge).1
  | bind => exact bindAuthorizedAgentRun_extends h hserve
  | activate => exact (activateAgentBridgeTurn_extends h hserve).1
  | finish => exact finishAgentBridgeTurn_extends h hserve
  | recover =>
    obtain ⟨⟩ := hserve
    exact recoverAgentBridgeTurns_extends h
  | beginRun => exact beginAgentRun_extends h hserve
  | transitionRun => exact transitionAgentRun_extends h hserve
  | others =>
    obtain ⟨⟩ := hserve
    exact h.extends_self.same rfl rfl rfl

end AgentDatabase

end OpenCut.Agents
