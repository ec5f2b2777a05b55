import OpenCut.Domain.Edit
import OpenCut.Lib.Machine
import OpenCut.Lib.Outcome
import OpenCut.Lib.Table

/-!
# Agent runs and their turns

`apps/api/repository`: `agent_bridge.go`, `agent_conversation.go`, `agent_run_binding.go` and
`runs.go`. An agent works on a project in a run, and on a run in turns, one at a time. A run that a
creator began is managed by the bridge; a run that an agent began is its own.

Every operation is one transaction (`AgentDatabase.serve`). Whether a request was served before is
decided by what it asks for: equal digests are taken for equal content. Checks of other tables (the
sequence, the attachments, the snapshot of the project) are given with the request.
-/

namespace OpenCut.Agents

open Outcome

/-! ## Rows -/

/-- `AgentRunStatus`. -/
inductive AgentRunStatus
  | authorizing
  | active
  | waiting
  | paused
  | completed
  | failed
  | cancelled
deriving DecidableEq

/-- `AgentTurnStatus`. -/
inductive AgentTurnStatus
  | starting
  | active
  | detached
  | completed
  | failed
  | cancelled
  | superseded
deriving DecidableEq

/-- Why a run waits. -/
inductive WaitingReason
  | creatorInterrupted
  | awaitingCreator
  | agentDetached
  | adapterFailed
  | resourceLimit

/-- A row of `agent_runs`; `bridge` if it has a row in `agent_bridge_runs`. The actor of a run is
    missing until it is bound. -/
structure AgentRun where
  project : ID
  initiator : ID
  actor : Option ID
  status : AgentRunStatus
  waitingReason : Option WaitingReason
  currentTurn : ID
  bridge : Bool

/-- A row of `agent_turns`; `bridge` if it has a row in `agent_bridge_turns`. -/
structure AgentTurn where
  id : ID
  run : ID
  project : ID
  generation : Nat
  status : AgentTurnStatus
  bridge : Bool

/-- `terminalAgentRun` and `isTerminalRun`. -/
def AgentRunStatus.terminal : AgentRunStatus → Bool
  | .completed | .failed | .cancelled => true
  | .authorizing | .active | .waiting | .paused => false

/-- The agent is at work. -/
def AgentTurnStatus.live : AgentTurnStatus → Bool
  | .starting | .active => true
  | .detached | .completed | .failed | .cancelled | .superseded => false

/-- The agent is at work in the turn. -/
def AgentTurn.live (turn : AgentTurn) : Bool := turn.status.live

/-- `AgentBridgeTransition`. -/
inductive AgentBridgeTransition
  | interrupt
  | cancel
deriving DecidableEq

/-- `RunTransition`. -/
inductive RunTransition
  | resume
  | complete
  | cancel
deriving DecidableEq

/-- What a creator asks of the bridge. The input is the message, with the sequence and the
    attachments. -/
inductive BridgeCommand
  | begin (project : ID) (input : Text)
  | continue (project run : ID) (expectedGeneration : Nat) (input : Text)
  | transition (transition : AgentBridgeTransition) (project run expectedTurn : ID)
      (expectedGeneration : Nat)
deriving DecidableEq

/-- What an agent asks for. -/
inductive RunCommand
  | begin (project : ID) (input : Text)
  | transition (transition : RunTransition) (project run expectedTurn : ID)
      (expectedGeneration : Nat)
deriving DecidableEq

/-- A request that was served, with its run. -/
structure ServedRequest (κ : Type) where
  command : κ
  run : ID

/-- The columns of `installation_grants` that are read here. -/
structure GrantColumns where
  active : Bool
  agent : ID
  revision : Nat

/-- The tables. The turns are in the order of their insertion. Which turns a creator interrupted
    is on record. -/
structure AgentDatabase where
  projects : Table ID Bool
  grants : Table Text GrantColumns
  runs : Table ID AgentRun
  turns : List AgentTurn
  associations : Table ID (Text × Nat)
  bridgeRequests : Table (ID × Text) (ServedRequest BridgeCommand)
  runRequests : Table (ID × Text) (ServedRequest RunCommand)
  interrupted : List ID

/-- Why an operation is refused. -/
inductive AgentError
  | projectNotFound
  | projectNotActive
  | bridgeInvalid
  | bridgeNotFound
  | bridgeTerminal
  | bridgeStaleTurn
  | bridgeBusy
  | bridgeRequestReused
  | bindingDenied
  | runNotFound
  | runTerminal
  | runBlocked
  | runStaleTurn
  | runActorMismatch
  | runBridgeManaged
  | runRequestReused
  | constraint

namespace AgentDatabase

variable (db : AgentDatabase)

/-! ## Reading and writing -/

/-- The turns of a run. -/
def turnsOf (run : ID) : List AgentTurn := db.turns.filter (·.run = run)

/-- The turn with an id. -/
def turn? (id : ID) : Option AgentTurn := db.turns.find? (·.id = id)

/-- `UPDATE agent_turns SET status`. -/
def setTurnStatus (id : ID) (status : AgentTurnStatus) : AgentDatabase :=
  { db with turns := db.turns.map fun turn => if turn.id = id then { turn with status } else turn }

/-- `INSERT INTO agent_turns`: ids are unique, a run has one turn of a generation, and one turn in
    which the agent is at work. -/
def insertTurn (turn : AgentTurn) : Except AgentError AgentDatabase := do
  ensure (¬db.turns.any (·.id = turn.id)) .constraint
  ensure (¬(db.turnsOf turn.run).any (·.generation = turn.generation)) .constraint
  ensure (¬(turn.live ∧ (db.turnsOf turn.run).any (·.live))) .constraint
  return { db with turns := db.turns ++ [turn] }

/-- `INSERT INTO agent_runs`. -/
def insertRun (id : ID) (run : AgentRun) : Except AgentError AgentDatabase := do
  ensure (db.runs.find? id).isNone .constraint
  return { db with runs := db.runs.set id run }

/-- `UPDATE agent_runs`. -/
def setRun (id : ID) (run : AgentRun) : AgentDatabase := { db with runs := db.runs.set id run }

/-- `activeProjectRevision`, as far as it is checked. -/
def checkProject (project : ID) : Except AgentError Unit := do
  let active ← need (db.projects.find? project) .projectNotFound
  ensure active .projectNotActive

/-- `loadAgentBridgeTx`: the run, if the bridge manages it, and its current turn. -/
def loadAgentBridge (project id : ID) : Except AgentError (AgentRun × AgentTurn) := do
  let run ← need (db.runs.find? id) .bridgeNotFound
  let turn ← need (db.turn? run.currentTurn) .bridgeNotFound
  ensure (run.project = project ∧ run.bridge ∧ turn.bridge) .bridgeNotFound
  return (run, turn)

/-- `loadAgentRun`: the run, if it is bound, with its actor and its current turn. -/
def loadAgentRun (project id : ID) : Except AgentError (AgentRun × ID × AgentTurn) := do
  let run ← need (db.runs.find? id) .runNotFound
  let turn ← need (db.turn? run.currentTurn) .runNotFound
  ensure (run.project = project) .runNotFound
  let actor ← need run.actor .runNotFound
  return (run, actor, turn)

/-- What the bridge answers: the run, its current turn, and whether the request was served
    before. -/
structure BridgeResult where
  run : ID
  turn : ID
  replayed : Bool

variable (creator : ID) (actor : ID) (requestID : Text)

/-- `loadAgentBridgeReplay`. The run is loaded as it is now. -/
def loadAgentBridgeReplay (command : BridgeCommand) (project : ID) :
    Except AgentError (Option BridgeResult) :=
  match db.bridgeRequests.find? (creator, requestID) with
  | none => .ok none
  | some served => do
    ensure (served.command = command) .bridgeRequestReused
    let (run, _) ← db.loadAgentBridge project served.run
    return some ⟨served.run, run.currentTurn, true⟩

/-- `insertAgentBridgeRequest`. -/
def insertBridgeRequest (command : BridgeCommand) (run : ID) : AgentDatabase :=
  { db with bridgeRequests := db.bridgeRequests.set (creator, requestID) ⟨command, run⟩ }

/-- `loadExistingRunRequest`. -/
def loadRunReplay (command : RunCommand) : Except AgentError (Option ID) :=
  match db.runRequests.find? (actor, requestID) with
  | none => .ok none
  | some served => do
    ensure (served.command = command) .runRequestReused
    return some served.run

/-- The row of `run_request_identities`. -/
def insertRunRequest (command : RunCommand) (run : ID) : AgentDatabase :=
  { db with runRequests := db.runRequests.set (actor, requestID) ⟨command, run⟩ }

/-! ## Requests of creators -/

variable (project : ID)

/-- `BeginAgentBridge`. -/
def beginAgentBridge (input : Text) (runID turnID : ID) (admissible : Bool) :
    Except AgentError (AgentDatabase × BridgeResult) := do
  let command := BridgeCommand.begin project input
  match ← db.loadAgentBridgeReplay creator requestID command project with
  | some result => return (db, result)
  | none =>
    db.checkProject project
    ensure admissible .bridgeInvalid
    let db ← db.insertRun runID ⟨project, creator, none, .authorizing, none, turnID, true⟩
    let db ← db.insertTurn ⟨turnID, runID, project, 1, .starting, true⟩
    return (db.insertBridgeRequest creator requestID command runID, ⟨runID, turnID, false⟩)

variable (runID : ID)

/-- `ContinueAgentBridge`. -/
def continueAgentBridge (expectedGeneration : Nat) (input : Text) (turnID : ID)
    (admissible : Bool) : Except AgentError (AgentDatabase × BridgeResult) := do
  let command := BridgeCommand.continue project runID expectedGeneration input
  match ← db.loadAgentBridgeReplay creator requestID command project with
  | some result =>
    ensure (result.run = runID) .bridgeRequestReused
    return (db, result)
  | none =>
    let (run, turn) ← db.loadAgentBridge project runID
    ensure (run.initiator = creator) .bridgeNotFound
    ensure (¬run.status.terminal) .bridgeTerminal
    ensure (turn.generation = expectedGeneration) .bridgeStaleTurn
    ensure (¬turn.live) .bridgeBusy
    ensure admissible .bridgeInvalid
    let db ← db.insertTurn ⟨turnID, runID, project, turn.generation + 1, .starting, true⟩
    let db := db.setRun runID { run with
      currentTurn := turnID
      status := if run.actor.isNone then .authorizing else .active
      waitingReason := none }
    db.checkProject project
    return (db.insertBridgeRequest creator requestID command runID, ⟨runID, turnID, false⟩)

/-- `TransitionAgentBridge`. -/
def transitionAgentBridge (transition : AgentBridgeTransition) (project runID expectedTurn : ID)
    (expectedGeneration : Nat) : Except AgentError (AgentDatabase × BridgeResult) := do
  let command := BridgeCommand.transition transition project runID expectedTurn expectedGeneration
  match ← db.loadAgentBridgeReplay creator requestID command project with
  | some result =>
    ensure (result.run = runID) .bridgeRequestReused
    return (db, result)
  | none =>
    let (run, turn) ← db.loadAgentBridge project runID
    ensure (run.initiator = creator) .bridgeNotFound
    ensure (¬run.status.terminal) .bridgeTerminal
    ensure (turn.id = expectedTurn ∧ turn.generation = expectedGeneration) .bridgeStaleTurn
    ensure (transition = .cancel ∨ turn.live) .bridgeBusy
    let db := if turn.live then db.setTurnStatus turn.id .cancelled else db
    let db :=
      match transition with
      | .interrupt => { db.setRun runID { run with
          status := .paused, waitingReason := some .creatorInterrupted } with
          interrupted := turn.id :: db.interrupted }
      | .cancel => db.setRun runID { run with status := .cancelled, waitingReason := none }
    db.checkProject project
    return (db.insertBridgeRequest creator requestID command runID, ⟨runID, turn.id, false⟩)

/-! ## The runtime of the bridge -/

/-- `AgentBridgeRuntimeOutcome`. -/
inductive RuntimeOutcome
  | completed
  | detached
  | failed
  | resourceLimit
deriving DecidableEq

/-- The status of the turn and why its run waits. -/
def RuntimeOutcome.status : RuntimeOutcome → AgentTurnStatus × WaitingReason
  | .completed => (.completed, .awaitingCreator)
  | .detached => (.detached, .agentDetached)
  | .failed => (.failed, .adapterFailed)
  | .resourceLimit => (.failed, .resourceLimit)

variable (turnID : ID)

/-- `ActivateAgentBridgeTurn`. -/
def activateAgentBridgeTurn : Except AgentError AgentDatabase := do
  ensure (db.turns.any fun turn => turn.id = turnID ∧ turn.run = runID ∧ turn.project = project ∧
    turn.status = .starting ∧ turn.bridge) .bridgeStaleTurn
  return db.setTurnStatus turnID .active

/-- `FinishAgentBridgeTurn`. -/
def finishAgentBridgeTurn (outcome : RuntimeOutcome) : Except AgentError AgentDatabase := do
  let (run, turn) ← db.loadAgentBridge project runID
  ensure (run.currentTurn = turnID) .bridgeStaleTurn
  if run.status.terminal ∨ turn.status = .cancelled ∨ turn.status = .superseded then return db
  ensure turn.live .bridgeStaleTurn
  let db := db.setTurnStatus turnID outcome.status.1
  return db.setRun runID { run with
    status := .paused, waitingReason := some outcome.status.2 }

/-- The first statement of `RecoverAgentBridgeTurns`. -/
def detachTurns : AgentDatabase :=
  { db with
    turns := db.turns.map fun turn =>
      if turn.live ∧ turn.bridge then { turn with status := .detached } else turn }

/-- The second statement of `RecoverAgentBridgeTurns`. -/
def pauseDetachedRuns : AgentDatabase :=
  { db with
    runs := db.runs.mapRows fun _ run =>
      if ¬run.status.terminal ∧ run.bridge ∧
          (db.turn? run.currentTurn).any (·.status = .detached) then
        { run with status := .paused, waitingReason := some .agentDetached }
      else run }

/-- `RecoverAgentBridgeTurns`. -/
def recoverAgentBridgeTurns : AgentDatabase := db.detachTurns.pauseDetachedRuns

/-! ## Requests of agents -/

/-- `BindAuthorizedAgentRun`. -/
def bindAuthorizedAgentRun (agent : ID) (grant : Text) (grantRevision : Nat) :
    Except AgentError AgentDatabase := do
  let columns ← need (db.grants.find? grant) .bindingDenied
  ensure (columns.active ∧ columns.agent = agent ∧ columns.revision = grantRevision) .bindingDenied
  let run ← need (db.runs.find? runID) .bridgeNotFound
  ensure (run.bridge ∧ (db.projects.find? run.project).isSome) .bridgeNotFound
  ensure (run.currentTurn = turnID ∧ ¬run.status.terminal) .bindingDenied
  match run.actor with
  | some actor =>
    ensure (actor = agent) .bindingDenied
    return db
  | none =>
    ensure ((db.associations.find? runID).all fun associated =>
      associated = (grant, grantRevision)) .bindingDenied
    return db.setRun runID
      { run with actor := some agent, status := .active, waitingReason := none }

/-- `BeginAgentRun`. -/
def beginAgentRun (input : Text) (runID turnID : ID) : Except AgentError AgentDatabase := do
  let command := RunCommand.begin project input
  match ← db.loadRunReplay actor requestID command with
  | some run =>
    let _ ← db.loadAgentRun project run
    return db
  | none =>
    db.checkProject project
    let db ← db.insertRun runID ⟨project, actor, some actor, .active, none, turnID, false⟩
    let db ← db.insertTurn ⟨turnID, runID, project, 1, .active, false⟩
    return db.insertRunRequest actor requestID command runID

/-- `TransitionAgentRun`. The bridge manages its runs, but its agents complete them. -/
def transitionAgentRun (transition : RunTransition) (project runID expectedTurn : ID)
    (expectedGeneration : Nat) (newTurn : ID) : Except AgentError AgentDatabase := do
  let command := RunCommand.transition transition project runID expectedTurn expectedGeneration
  match ← db.loadRunReplay actor requestID command with
  | some run =>
    ensure (run = runID) .runRequestReused
    let _ ← db.loadAgentRun project runID
    return db
  | none =>
    let (run, runActor, turn) ← db.loadAgentRun project runID
    ensure (runActor = actor) .runActorMismatch
    ensure (¬run.bridge ∨ transition = .complete) .runBridgeManaged
    ensure (¬run.status.terminal) .runTerminal
    ensure (turn.id = expectedTurn ∧ turn.generation = expectedGeneration) .runStaleTurn
    ensure (db.projects.find? project).isSome .projectNotFound
    let db ← match transition with
      | .resume => do
        let db ← (db.setTurnStatus expectedTurn .superseded).insertTurn
          ⟨newTurn, runID, project, turn.generation + 1, .active, false⟩
        pure (db.setRun runID { run with
          status := .active, waitingReason := none, currentTurn := newTurn })
      | .complete => do
        ensure (run.status ≠ .waiting) .runBlocked
        pure ((db.setTurnStatus expectedTurn .completed).setRun runID { run with
          status := .completed })
      | .cancel =>
        pure ((db.setTurnStatus expectedTurn .cancelled).setRun runID { run with
          status := .cancelled })
    return db.insertRunRequest actor requestID command runID

end AgentDatabase

/-! ## Operations -/

/-- The operations, and what others do to the projects, the grants and the pairings. -/
inductive AgentOperation
  | beginBridge (creator : ID) (requestID : Text) (project : ID) (input : Text) (runID turnID : ID)
      (admissible : Bool)
  | continueBridge (creator : ID) (requestID : Text) (project runID : ID) (expectedGeneration : Nat)
      (input : Text) (turnID : ID) (admissible : Bool)
  | transitionBridge (creator : ID) (requestID : Text) (transition : AgentBridgeTransition)
      (project runID expectedTurn : ID) (expectedGeneration : Nat)
  | bind (runID turnID agent : ID) (grant : Text) (grantRevision : Nat)
  | activate (project runID turnID : ID)
  | finish (project runID turnID : ID) (outcome : AgentDatabase.RuntimeOutcome)
  | recover
  | beginRun (actor : ID) (requestID : Text) (project : ID) (input : Text) (runID turnID : ID)
  | transitionRun (actor : ID) (requestID : Text) (transition : RunTransition)
      (project runID expectedTurn : ID) (expectedGeneration : Nat) (newTurn : ID)
  | others (projects : Table ID Bool) (grants : Table Text GrantColumns)
      (associations : Table ID (Text × Nat))

/-- One operation. -/
def AgentDatabase.serve (db : AgentDatabase) : AgentOperation → Except AgentError AgentDatabase
  | .beginBridge creator requestID project input runID turnID admissible =>
    (db.beginAgentBridge creator requestID project input runID turnID admissible).map (·.1)
  | .continueBridge creator requestID project runID expectedGeneration input turnID admissible =>
    (db.continueAgentBridge creator requestID project runID expectedGeneration input turnID
      admissible).map (·.1)
  | .transitionBridge creator requestID transition project runID expectedTurn expectedGeneration =>
    (db.transitionAgentBridge creator requestID transition project runID expectedTurn
      expectedGeneration).map (·.1)
  | .bind runID turnID agent grant grantRevision =>
    db.bindAuthorizedAgentRun runID turnID agent grant grantRevision
  | .activate project runID turnID => db.activateAgentBridgeTurn project runID turnID
  | .finish project runID turnID outcome => db.finishAgentBridgeTurn project runID turnID outcome
  | .recover => .ok db.recoverAgentBridgeTurns
  | .beginRun actor requestID project input runID turnID =>
    db.beginAgentRun actor requestID project input runID turnID
  | .transitionRun actor requestID transition project runID expectedTurn expectedGeneration
      newTurn =>
    db.transitionAgentRun actor requestID transition project runID expectedTurn expectedGeneration
      newTurn
  | .others projects grants associations => .ok { db with projects, grants, associations }

end OpenCut.Agents
