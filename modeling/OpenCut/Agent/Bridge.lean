import OpenCut.Agent.Runs

/-!
# The agent bridge service

`apps/api/service/agent_bridge.go`. A creator's Begin or Continue launches the adapter on a new turn
in a goroutine, with a context of its own; Interrupt and Cancel cancel the context of a turn. The
transaction of a call, the entry in the table of running turns, and every step of a goroutine are
events of their own (`BridgeService.serve`), in any order; the other operations on the database may
come at any moment.

Which contexts were cancelled for which turn, which turns were named by an Interrupt or a Cancel
that has returned, and which calls of `adapter.Execute` were made are on record.
-/

namespace OpenCut.Agents

open Outcome

/-- Where a launch stands: its transaction is done; then it runs the steps of `execute`, and at last
    it has left the table of running turns. -/
inductive LaunchPhase
  | committed
  | preparing
  | activating
  | prompting
  | executing
  | finishing (outcome : AgentDatabase.RuntimeOutcome)
  | leaving
  | ended
deriving DecidableEq

/-- The turn that a call of Begin or Continue launches. -/
structure Launch where
  project : ID
  run : ID
  turn : ID
  phase : LaunchPhase
deriving DecidableEq

/-- `stop`: it looks for the cancel function of the turn, and calls it. -/
inductive StopPhase
  | looking
  | cancelling (found : Option ID)
deriving DecidableEq

/-- A call of Interrupt or Cancel after its transaction: the turn it names, and the run and the turn
    of the result. -/
structure Stop where
  named : ID
  run : ID
  turn : ID
  phase : StopPhase

/-- A call of `adapter.Execute`: whether its context was live, and whether an Interrupt or a Cancel
    that names the turn had returned. -/
structure Execution where
  launch : ID
  turn : ID
  live : Bool
  stopped : Bool

/-- `AgentBridgeService`, with its calls and goroutines. The context of a launch goes by the number
    of the launch; where a `stop` cancelled it, the turn is recorded that its call named. -/
structure BridgeService where
  db : AgentDatabase
  launches : Table ID Launch
  active : Table (ID × ID) ID
  cancelled : List (ID × Option ID)
  rootCancelled : Bool
  stops : Table ID Stop
  returned : List ID
  executions : List Execution

/-- Why an event does not happen. -/
inductive BridgeError
  | refused (error : AgentError)
  | notDue

/-- `PrepareAgentBridgeInvocation`, as far as it is checked. -/
def AgentDatabase.prepareAgentBridgeInvocation (db : AgentDatabase) (project runID turnID : ID) :
    Except AgentError Unit := do
  let (run, turn) ← db.loadAgentBridge project runID
  ensure (run.currentTurn = turnID ∧ turn.status = .starting) .bridgeStaleTurn

namespace BridgeService

variable (s : BridgeService) (call : ID)

/-- The launch is in the phase. -/
def due (phase : LaunchPhase) : Except BridgeError Launch := do
  let launch ← need (s.launches.find? call) .notDue
  ensure (launch.phase = phase) .notDue
  return launch

/-- The launch goes on to a phase. -/
def advance (launch : Launch) (phase : LaunchPhase) : BridgeService :=
  { s with launches := s.launches.set call { launch with phase } }

/-- The context of the launch is live. -/
def live : Bool := !s.rootCancelled && !s.cancelled.any (·.1 = call)

/-- Begin and Continue after their transaction: a result that is not replayed is launched. -/
def launched (call project : ID) (db : AgentDatabase) (result : AgentDatabase.BridgeResult) :
    Except BridgeError BridgeService :=
  if result.replayed then .ok { s with db }
  else do
    ensure (s.launches.find? call).isNone .notDue
    return { s with
      db, launches := s.launches.set call ⟨project, result.run, result.turn, .committed⟩ }

/-- `start`. -/
def start : Except BridgeError BridgeService := do
  let launch ← s.due call .committed
  match s.active.find? (launch.run, launch.turn) with
  | some _ => return { s.advance call launch .ended with cancelled := (call, none) :: s.cancelled }
  | none =>
    return { s.advance call launch .preparing with
      active := s.active.set (launch.run, launch.turn) call }

variable (fails : Bool)

/-- `execute` prepares the invocation; the transaction may also fail for other reasons. -/
def prepare : Except BridgeError BridgeService := do
  let launch ← s.due call .preparing
  if !fails && (s.db.prepareAgentBridgeInvocation launch.project launch.run launch.turn).isOk then
    return s.advance call launch .activating
  else return s.advance call launch (.finishing .failed)

/-- `execute` activates the turn. -/
def activate : Except BridgeError BridgeService := do
  let launch ← s.due call .activating
  match s.db.activateAgentBridgeTurn launch.project launch.run launch.turn, fails with
  | .ok db, false => return { s.advance call launch .prompting with db }
  | _, _ => return s.advance call launch .leaving

/-- `execute` calls `adapter.Execute`, unless the prompts are too large. -/
def execute (tooLarge : Bool) : Except BridgeError BridgeService := do
  let launch ← s.due call .prompting
  if tooLarge then return s.advance call launch (.finishing .resourceLimit)
  else return { s.advance call launch .executing with
    executions := s.executions ++ [⟨call, launch.turn, s.live call,
      s.returned.any (· = launch.turn)⟩] }

/-- `finish`: a turn that cannot be finished is left as it is. -/
def finish (outcome : AgentDatabase.RuntimeOutcome) (fails : Bool) :
    Except BridgeError BridgeService := do
  let launch ← s.due call (.finishing outcome)
  match s.db.finishAgentBridgeTurn launch.project launch.run launch.turn outcome, fails with
  | .ok db, false => return { s.advance call launch .leaving with db }
  | _, _ => return s.advance call launch .leaving

/-- The deferred end of `execute`. -/
def leave : Except BridgeError BridgeService := do
  let launch ← s.due call .leaving
  return { s.advance call launch .ended with
    active := s.active.erase (launch.run, launch.turn) }

/-- The first half of `stop`, under the lock. -/
def look : Except BridgeError BridgeService := do
  let stop ← need (s.stops.find? call) .notDue
  ensure (stop.phase = .looking) .notDue
  return { s with stops := s.stops.set call { stop with
    phase := .cancelling (s.active.find? (stop.run, stop.turn)) } }

/-- The second half of `stop`. Then the call returns. -/
def cancel : Except BridgeError BridgeService := do
  let stop ← need (s.stops.find? call) .notDue
  match stop.phase with
  | .looking => .error .notDue
  | .cancelling found =>
    return { s with
      cancelled := (found.toList.map fun launch => (launch, some stop.named)) ++ s.cancelled
      stops := s.stops.erase call
      returned := stop.named :: s.returned }

/-- The transaction of Interrupt and Cancel. -/
def transition (call creator : ID) (requestID : Text) (transition : AgentBridgeTransition)
    (project runID turnID : ID) (generation : Nat) : Except BridgeError BridgeService := do
  let (db, result) ← (s.db.transitionAgentBridge creator requestID transition project runID turnID
    generation).mapError .refused
  ensure (s.stops.find? call).isNone .notDue
  return { s with db, stops := s.stops.set call ⟨turnID, result.run, result.turn, .looking⟩ }

end BridgeService

/-- What happens. Calls are told apart by numbers. -/
inductive BridgeEvent
  | beginRun (call creator : ID) (requestID : Text) (project : ID) (input : Text)
      (runID turnID : ID) (admissible : Bool)
  | continueRun (call creator : ID) (requestID : Text) (project runID : ID)
      (expectedGeneration : Nat) (input : Text) (turnID : ID) (admissible : Bool)
  | transition (call creator : ID) (requestID : Text) (transition : AgentBridgeTransition)
      (project runID turnID : ID) (generation : Nat)
  | start (call : ID)
  | prepare (call : ID) (fails : Bool)
  | activate (call : ID) (fails : Bool)
  | execute (call : ID) (tooLarge : Bool)
  | returns (call : ID) (outcome : AgentDatabase.RuntimeOutcome)
  | finish (call : ID) (outcome : AgentDatabase.RuntimeOutcome) (fails : Bool)
  | leave (call : ID)
  | look (call : ID)
  | cancel (call : ID)
  | cancelRoot
  | others (op : AgentOperation)

/-- One event. -/
def BridgeService.serve (s : BridgeService) : BridgeEvent → Except BridgeError BridgeService
  | .beginRun call creator requestID project input runID turnID admissible => do
    let (db, result) ← (s.db.beginAgentBridge creator requestID project input runID turnID
      admissible).mapError .refused
    s.launched call project db result
  | .continueRun call creator requestID project runID expectedGeneration input turnID
      admissible => do
    let (db, result) ← (s.db.continueAgentBridge creator requestID project runID expectedGeneration
      input turnID admissible).mapError .refused
    s.launched call project db result
  | .transition call creator requestID transition project runID turnID generation =>
    s.transition call creator requestID transition project runID turnID generation
  | .start call => s.start call
  | .prepare call fails => s.prepare call fails
  | .activate call fails => s.activate call fails
  | .execute call tooLarge => s.execute call tooLarge
  | .returns call outcome => do
    let launch ← s.due call .executing
    return s.advance call launch (.finishing outcome)
  | .finish call outcome fails => s.finish call outcome fails
  | .leave call => s.leave call
  | .look call => s.look call
  | .cancel call => s.cancel call
  | .cancelRoot => .ok { s with rootCancelled := true }
  | .others op => do
    let db ← (s.db.serve op).mapError .refused
    return { s with db }

end OpenCut.Agents
