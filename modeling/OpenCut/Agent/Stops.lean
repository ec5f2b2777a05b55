import OpenCut.Agent.Bridge
import OpenCut.Agent.Linked

/-!
# Stopping a turn

A turn is executed at most once. If a call of Interrupt or Cancel that is served again still names
the current turn of its run (`BridgeService.current`), it stops exactly the turn it names
(`stops_hit_their_turn`): no other context is cancelled, and after the call has returned the turn is
not executed with a live context.

A call that is served again stops the current turn of the run as it is now: later, this is another
turn than the one it names, and the named turn may still be at work (`other_turn_stopped`).
-/

namespace OpenCut.Agents

open Outcome AgentDatabase Table List Option LaunchPhase

/-- The launch is in the table of running turns. -/
def LaunchPhase.running : LaunchPhase → Bool
  | .preparing | .activating | .prompting | .executing | .finishing _ | .leaving => true
  | .committed | .ended => false

/-- The turn is activated, and `adapter.Execute` is about to be called or has been. -/
def LaunchPhase.working : LaunchPhase → Bool
  | .prompting | .executing => true
  | _ => false

theorem LaunchPhase.running_of_working {phase : LaunchPhase} (h : phase.working) :
    phase.running := by
  cases phase with
  | prompting | executing => rfl
  | committed | preparing | activating | finishing _ | leaving | ended => cases h

/-- `adapter.Execute` may have been called. -/
def LaunchPhase.called : LaunchPhase → Bool
  | .executing | .finishing _ | .leaving | .ended => true
  | _ => false

namespace BridgeService

variable {s s' : BridgeService} {call : ID} {launch : Launch}

/-! ## The invariant -/

/-- The context of the launch is cancelled. -/
def Cancelled (s : BridgeService) (call : ID) : Prop := ∃ cause, (call, cause) ∈ s.cancelled

/-- The turn does not start any more, and if a launch is at work on it, then one that was hit. -/
def Stopped (s : BridgeService) (turn : ID) (hit : ID → Prop) : Prop :=
  (∃ run, s.db.Begun run turn) ∧ ∀ call launch, s.launches.find? call = some launch →
    launch.turn = turn → launch.phase.working → hit call

/-- A call of Interrupt or Cancel after its transaction. -/
structure StopSound (s : BridgeService) (stop : Stop) : Prop where
  turn : stop.turn = stop.named
  begun : s.db.Begun stop.run stop.named
  found : ∀ found, stop.phase = .cancelling found → s.Stopped stop.named (found = some ·) ∧
    ∀ call ∈ found, ∃ launch, s.launches.find? call = some launch ∧ launch.turn = stop.named

/-- A turn is launched once; the launches that run are in the table; a turn is executed once; only
    the contexts of the turns that a call names are cancelled; and turns named by calls that have
    returned are stopped. -/
structure Sound (s : BridgeService) : Prop where
  linked : s.db.Linked
  launched : ∀ call launch, s.launches.find? call = some launch →
    ∃ turn ∈ s.db.turns, turn.id = launch.turn ∧ turn.run = launch.run
  alone : ∀ call call' launch launch', s.launches.find? call = some launch →
    s.launches.find? call' = some launch' → launch.turn = launch'.turn → call = call'
  active : ∀ key call, s.active.find? key = some call ↔
    ∃ launch, s.launches.find? call = some launch ∧ launch.phase.running ∧
      key = (launch.run, launch.turn)
  once : (s.executions.map (·.turn)).Nodup
  executed : ∀ execution ∈ s.executions, ∃ launch, s.launches.find? execution.launch = some launch ∧
    launch.turn = execution.turn ∧ launch.phase.called
  dead : ∀ execution ∈ s.executions, execution.stopped → ¬execution.live
  cancelled : ∀ call cause, (call, cause) ∈ s.cancelled → ∃ launch,
    s.launches.find? call = some launch ∧ cause = some launch.turn
  stops : ∀ call stop, s.stops.find? call = some stop → s.StopSound stop
  returned : ∀ turn ∈ s.returned, s.Stopped turn s.Cancelled

/-! ## What every event does -/

/-- What every event does to the launches: they stay, and a launch gets to work on a turn that is
    starting only. -/
structure Follows (s s' : BridgeService) : Prop where
  db : Extends s.db s'.db
  kept : ∀ call launch, s.launches.find? call = some launch → ∃ phase,
    s'.launches.find? call = some { launch with phase } ∧ (launch.phase.called → phase.called)
  working : ∀ call launch', s'.launches.find? call = some launch' → launch'.phase.working →
    ∃ launch, s.launches.find? call = some launch ∧ launch.turn = launch'.turn ∧
      (launch.phase.working ∨ ∃ turn ∈ s.db.turns, turn.id = launch.turn ∧ turn.status = .starting)

theorem Stopped.mono {turn : ID} {hit hit' : ID → Prop} (h : s.Stopped turn hit)
    (hhit : ∀ call, hit call → hit' call) : s.Stopped turn hit' :=
  ⟨h.1, fun call launch hlaunch hturn hworking =>
    hhit call (h.2 call launch hlaunch hturn hworking)⟩

/-- Nobody gets to work on a turn that is stopped. -/
theorem Stopped.follows {turn : ID} {hit : ID → Prop} (h : s.Stopped turn hit) (hdb : s.db.Linked)
    (hfollows : Follows s s') : s'.Stopped turn hit := by
  obtain ⟨⟨run, hbegun⟩, hhit⟩ := h
  refine ⟨⟨run, hbegun.later hfollows.db.later⟩, fun call launch' hlaunch' hturn hworking => ?_⟩
  obtain ⟨launch, hlaunch, hsame, hbefore⟩ := hfollows.working call launch' hlaunch' hworking
  rcases hbefore with hbefore | ⟨_, hother, hid, hstarting⟩
  · exact hhit call launch hlaunch (hsame.trans hturn) hbefore
  · obtain ⟨row, hmem, hrow, -, hstatus⟩ := hbegun
    rw [inj_on_of_nodup_map hdb.ids hother hmem (hid.trans (hsame.trans (hturn.trans hrow.symm)))]
      at hstarting
    exact absurd hstarting hstatus

theorem StopSound.follows {stop : Stop} (h : s.StopSound stop) (hdb : s.db.Linked)
    (hfollows : Follows s s') : s'.StopSound stop := by
  refine ⟨h.turn, h.begun.later hfollows.db.later, fun found hphase => ?_⟩
  obtain ⟨hstopped, hfound⟩ := h.found found hphase
  refine ⟨hstopped.follows hdb hfollows, fun call hcall => ?_⟩
  obtain ⟨launch, hlaunch, hturn⟩ := hfound call hcall
  obtain ⟨_, hlaunch', -⟩ := hfollows.kept call launch hlaunch
  exact ⟨_, hlaunch', hturn⟩

/-- A call of `adapter.Execute` is added, for a turn that was not executed before. -/
def Executes (s s' : BridgeService) : Prop := ∃ execution,
  s'.executions = s.executions ++ [execution] ∧
  (∀ earlier ∈ s.executions, earlier.turn ≠ execution.turn) ∧
  (∃ launch, s'.launches.find? execution.launch = some launch ∧ launch.turn = execution.turn ∧
    launch.phase.called) ∧ (execution.stopped → ¬execution.live)

/-- What every event does to the calls of Interrupt and Cancel: their contexts stay cancelled, and
    what is new is sound. -/
structure Calls (s s' : BridgeService) : Prop where
  cancelled : ∀ call cause, (call, cause) ∈ s'.cancelled → (call, cause) ∈ s.cancelled ∨
    ∃ launch, s'.launches.find? call = some launch ∧ cause = some launch.turn
  kept : ∀ cancelled ∈ s.cancelled, cancelled ∈ s'.cancelled
  stops : ∀ call stop, s'.stops.find? call = some stop →
    s.stops.find? call = some stop ∨ s'.StopSound stop
  returned : ∀ turn ∈ s'.returned, turn ∈ s.returned ∨ s'.Stopped turn s'.Cancelled

theorem Calls.same (hcancelled : s'.cancelled = s.cancelled) (hstops : s'.stops = s.stops)
    (hreturned : s'.returned = s.returned) : Calls s s' :=
  ⟨fun _ _ h => .inl (hcancelled ▸ h), fun _ h => hcancelled ▸ h, fun _ _ h => .inl (hstops ▸ h),
    fun _ h => .inl (hreturned ▸ h)⟩

/-- What is new has to be shown of an event; the rest follows. -/
theorem Sound.step (hs : s.Sound) (hfollows : Follows s s')
    (hlaunched : ∀ call launch, s'.launches.find? call = some launch →
      ∃ turn ∈ s'.db.turns, turn.id = launch.turn ∧ turn.run = launch.run)
    (halone : ∀ call call' launch launch', s'.launches.find? call = some launch →
      s'.launches.find? call' = some launch' → launch.turn = launch'.turn → call = call')
    (hactive : ∀ key call, s'.active.find? key = some call ↔
      ∃ launch, s'.launches.find? call = some launch ∧ launch.phase.running ∧
        key = (launch.run, launch.turn))
    (hexecutions : s'.executions = s.executions ∨ Executes s s')
    (hcalls : Calls s s') : s'.Sound := by
  have hearlier : ∀ execution ∈ s.executions, ∃ launch,
      s'.launches.find? execution.launch = some launch ∧ launch.turn = execution.turn ∧
        launch.phase.called := by
    intro execution hmem
    obtain ⟨launch, hlaunch, hturn, hcalled⟩ := hs.executed execution hmem
    obtain ⟨phase, hlaunch', hphase⟩ := hfollows.kept _ launch hlaunch
    exact ⟨_, hlaunch', hturn, hphase hcalled⟩
  refine ⟨hfollows.db.linked, hlaunched, halone, hactive, ?_, ?_, ?_, fun call cause hmem => ?_,
    fun call stop hstop => ?_, fun turn hmem => ?_⟩
  · rcases hexecutions with hsame | ⟨execution, hadd, hnew, -⟩
    · rw [hsame]
      exact hs.once
    · rw [hadd, map_append, nodup_append]
      refine ⟨hs.once, nodup_singleton _, fun a ha b hb => ?_⟩
      obtain ⟨earlier, hearlier, rfl⟩ := mem_map.1 ha
      obtain rfl := mem_singleton.1 hb
      exact hnew earlier hearlier
  · rcases hexecutions with hsame | ⟨execution, hadd, -, hlaunch, -⟩
    · rw [hsame]
      exact hearlier
    · rw [hadd, forall_mem_append, forall_mem_singleton]
      exact ⟨hearlier, hlaunch⟩
  · rcases hexecutions with hsame | ⟨_, hadd, -, -, hdead⟩
    · rw [hsame]
      exact hs.dead
    · rw [hadd, forall_mem_append, forall_mem_singleton]
      exact ⟨hs.dead, hdead⟩
  · rcases hcalls.cancelled call cause hmem with hmem | hnew
    · obtain ⟨launch, hlaunch, hcause⟩ := hs.cancelled call cause hmem
      obtain ⟨_, hlaunch', -⟩ := hfollows.kept call launch hlaunch
      exact ⟨_, hlaunch', hcause⟩
    · exact hnew
  · rcases hcalls.stops call stop hstop with hstop | hnew
    · exact (hs.stops call stop hstop).follows hs.linked hfollows
    · exact hnew
  · rcases hcalls.returned turn hmem with hmem | hnew
    · refine ((hs.returned turn hmem).follows hs.linked hfollows).mono ?_
      rintro _ ⟨cause, hcause⟩
      exact ⟨cause, hcalls.kept _ hcause⟩
    · exact hnew

/-! ## Launches -/

/-- The launches are the same, in other phases perhaps. -/
def Same (s s' : BridgeService) : Prop := ∀ call launch', s'.launches.find? call = some launch' →
  ∃ launch, s.launches.find? call = some launch ∧ launch'.turn = launch.turn ∧
    launch'.run = launch.run

theorem Sound.launched_of_same (hs : s.Sound) (hsame : Same s s') (hlater : Later s.db s'.db)
    (call : ID) (launch' : Launch) (hlaunch' : s'.launches.find? call = some launch') :
    ∃ turn ∈ s'.db.turns, turn.id = launch'.turn ∧ turn.run = launch'.run := by
  obtain ⟨launch, hlaunch, hturn, hrun⟩ := hsame call launch' hlaunch'
  obtain ⟨turn, hmem, hid, hof⟩ := hs.launched call launch hlaunch
  obtain ⟨turn', hmem', hid', hof', -⟩ := hlater turn hmem
  exact ⟨turn', hmem', by rw [hid', hid, hturn], by rw [hof', hof, hrun]⟩

theorem Sound.alone_of_same (hs : s.Sound) (hsame : Same s s') (call call' : ID)
    (launch launch' : Launch) (h : s'.launches.find? call = some launch)
    (h' : s'.launches.find? call' = some launch') (hturn : launch.turn = launch'.turn) :
    call = call' := by
  obtain ⟨before, hbefore, heq, -⟩ := hsame call launch h
  obtain ⟨before', hbefore', heq', -⟩ := hsame call' launch' h'
  exact hs.alone call call' before before' hbefore hbefore' (by rw [← heq, ← heq', hturn])

theorem due_ok {phase : LaunchPhase} (h : s.due call phase = .ok launch) :
    s.launches.find? call = some launch ∧ launch.phase = phase := by
  simp only [due, steps_ok] at h
  obtain ⟨_, hlaunch, hphase, rfl⟩ := h
  exact ⟨hlaunch, hphase⟩

section Advance

variable {before after : LaunchPhase}

theorem find?_advance (hlaunches : s'.launches = s.launches.set call { launch with phase := after })
    (other : ID) : s'.launches.find? other =
      if other = call then some { launch with phase := after } else s.launches.find? other := by
  rw [hlaunches, find?_set]

variable (hdue : s.due call before = .ok launch)

include hdue

section

variable (hlaunches : s'.launches = s.launches.set call { launch with phase := after })
include hlaunches

theorem same_advance : Same s s' := by
  intro other launch' hlaunch'
  rw [find?_advance hlaunches] at hlaunch'
  split at hlaunch'
  · next heq =>
    obtain ⟨⟩ := hlaunch'
    exact ⟨launch, heq ▸ (due_ok hdue).1, rfl, rfl⟩
  · exact ⟨launch', hlaunch', rfl, rfl⟩

theorem follows_advance (hdb : Extends s.db s'.db) (hcalled : before.called → after.called)
    (hworking : after.working → before.working ∨
      ∃ turn ∈ s.db.turns, turn.id = launch.turn ∧ turn.status = .starting) : Follows s s' := by
  obtain ⟨hlaunch, rfl⟩ := due_ok hdue
  refine ⟨hdb, fun other row hrow => ?_, fun other row hrow hphase => ?_⟩
  · rw [find?_advance hlaunches]
    split
    · next heq =>
      obtain rfl := mem_unique hlaunch (heq ▸ hrow)
      exact ⟨after, rfl, hcalled⟩
    · exact ⟨row.phase, hrow, fun h => h⟩
  · rw [find?_advance hlaunches] at hrow
    split at hrow
    · next heq =>
      obtain ⟨⟩ := hrow
      exact ⟨launch, heq ▸ hlaunch, rfl, hworking hphase⟩
    · exact ⟨row, hrow, rfl, .inl hphase⟩

end

variable (hs : s.Sound) {db : AgentDatabase} {executions : List Execution}
  (hdb : Extends s.db db) (hcalled : before.called → after.called)
  (hworking : after.working → before.working ∨
    ∃ turn ∈ s.db.turns, turn.id = launch.turn ∧ turn.status = .starting)
  (hexecutions : executions = s.executions ∨
    Executes s { s.advance call launch after with executions })

include hs hdb hcalled hworking hexecutions

/-- A launch goes on, and is in the table of running turns as long as it runs. -/
theorem move_sound {active : Table (ID × ID) ID}
    (hactive : ∀ key other, active.find? key = some other ↔
      if key = (launch.run, launch.turn) then other = call ∧ after.running
      else s.active.find? key = some other) :
    { s.advance call launch after with db, active, executions }.Sound := by
  have hsame : Same s { s.advance call launch after with db, active, executions } :=
    same_advance hdue rfl
  refine hs.step (follows_advance hdue rfl hdb hcalled hworking)
    (hs.launched_of_same hsame hdb.later) (hs.alone_of_same hsame) (fun key other => ?_) hexecutions
    (.same rfl rfl rfl)
  obtain ⟨hlaunch, rfl⟩ := due_ok hdue
  rw [hactive, find?_advance rfl]
  split
  · next hkey =>
    constructor
    · rintro ⟨rfl, hrunning⟩
      exact ⟨_, if_pos rfl, hrunning, hkey⟩
    · rintro ⟨row, hrow, hrunning, hkey'⟩
      split at hrow
      · next heq =>
        obtain ⟨⟩ := hrow
        exact ⟨heq, hrunning⟩
      · next hne =>
        -- the turns of the launches tell them apart, so their keys do
        have hturn := (Prod.mk.inj (hkey'.symm.trans hkey)).2
        exact absurd (hs.alone _ _ _ _ hrow hlaunch hturn) hne
  · next hkey =>
    rw [hs.active]
    split
    · next heq =>
      constructor
      · rintro ⟨row, hrow, -, hkey'⟩
        obtain rfl := mem_unique hlaunch (heq ▸ hrow)
        exact absurd hkey' hkey
      · rintro ⟨row, hrow, -, hkey'⟩
        obtain ⟨⟩ := hrow
        exact absurd hkey' hkey
    · rfl

/-- A launch that runs goes on. -/
theorem advance_sound (hrunning : before.running ∧ after.running) :
    { s.advance call launch after with db, executions }.Sound := by
  refine move_sound hdue hs hdb hcalled hworking hexecutions fun key other => ?_
  obtain ⟨hlaunch, rfl⟩ := due_ok hdue
  split
  · next hkey =>
    have hcall := (hs.active key call).2 ⟨launch, hlaunch, hrunning.1, hkey⟩
    exact ⟨fun h => ⟨mem_unique h hcall, hrunning.2⟩, fun h => h.1 ▸ hcall⟩
  · rfl

end Advance

/-- Nothing happens to the launches. -/
theorem follows_same (hdb : Extends s.db s'.db) (hlaunches : s'.launches = s.launches) :
    Follows s s' := by
  refine ⟨hdb, ?_, ?_⟩
  · rw [hlaunches]
    exact fun call launch hlaunch => ⟨launch.phase, hlaunch, fun h => h⟩
  · rw [hlaunches]
    exact fun call launch hlaunch hworking => ⟨launch, hlaunch, rfl, .inl hworking⟩

theorem not_live_of_cancelled (h : s.Cancelled call) : ¬s.live call := by
  obtain ⟨_, hmem⟩ := h
  have hany : s.cancelled.any (·.1 = call) := any_eq_true.2 ⟨_, hmem, decide_eq_true rfl⟩
  rw [live, hany]
  simp

section Steps

variable (hs : s.Sound)

include hs

variable {fails : Bool}

theorem prepare_sound (h : s.prepare call fails = .ok s') : s'.Sound := by
  obtain ⟨_, hdue, h⟩ := bind_ok.1 h
  have hself := hs.linked.extends_self
  split at h
  · obtain rfl := pure_ok.1 h
    exact advance_sound hdue hs hself (by rintro ⟨⟩) (by rintro ⟨⟩) (.inl rfl) ⟨rfl, rfl⟩
  · obtain rfl := pure_ok.1 h
    exact advance_sound hdue hs hself (by rintro ⟨⟩) (by rintro ⟨⟩) (.inl rfl) ⟨rfl, rfl⟩

/-- Only a turn that is starting is activated. -/
theorem activate_sound (h : s.activate call fails = .ok s') : s'.Sound := by
  simp only [activate, bind_ok] at h
  obtain ⟨_, hdue, h⟩ := h
  split at h
  · next db hactivate =>
    obtain rfl := pure_ok.1 h
    obtain ⟨hdb, hstarting⟩ := activateAgentBridgeTurn_extends hs.linked hactivate
    exact advance_sound hdue hs hdb (by rintro ⟨⟩) (fun _ => .inr hstarting) (.inl rfl) ⟨rfl, rfl⟩
  · obtain rfl := pure_ok.1 h
    exact advance_sound hdue hs hs.linked.extends_self (fun _ => rfl) (by rintro ⟨⟩) (.inl rfl)
      ⟨rfl, rfl⟩

/-- The turn was not executed before: it has one launch, which has not come so far. -/
theorem execute_sound {tooLarge : Bool} (h : s.execute call tooLarge = .ok s') : s'.Sound := by
  obtain ⟨launch, hdue, h⟩ := bind_ok.1 h
  have hself := hs.linked.extends_self
  split at h
  · obtain rfl := pure_ok.1 h
    exact advance_sound hdue hs hself (by rintro ⟨⟩) (by rintro ⟨⟩) (.inl rfl) ⟨rfl, rfl⟩
  · obtain rfl := pure_ok.1 h
    obtain ⟨hlaunch, hphase⟩ := due_ok hdue
    refine advance_sound hdue hs hself (fun _ => rfl) (fun _ => .inl rfl)
      (.inr ⟨_, rfl, fun earlier hearlier hturn => ?_, ⟨_, find?_set_self _ _ _, rfl, rfl⟩,
        fun hstopped => ?_⟩) ⟨rfl, rfl⟩
    · obtain ⟨_, hother, hsame, hcalled⟩ := hs.executed earlier hearlier
      have heq := hs.alone _ _ _ _ hother hlaunch (hsame.trans hturn)
      obtain rfl := mem_unique hlaunch (heq ▸ hother)
      rw [hphase] at hcalled
      cases hcalled
    · obtain ⟨_, hmem, hturn⟩ := any_eq_true.1 hstopped
      obtain rfl := of_decide_eq_true hturn
      have hworking : launch.phase.working := by rw [hphase]; rfl
      exact not_live_of_cancelled ((hs.returned _ hmem).2 call launch hlaunch rfl hworking)

theorem finish_sound {outcome : RuntimeOutcome}
    (h : s.finish call outcome fails = .ok s') : s'.Sound := by
  simp only [finish, bind_ok] at h
  obtain ⟨_, hdue, h⟩ := h
  split at h
  · next db hfinish =>
    obtain rfl := pure_ok.1 h
    exact advance_sound hdue hs (finishAgentBridgeTurn_extends hs.linked hfinish) (fun _ => rfl)
      (by rintro ⟨⟩) (.inl rfl) ⟨rfl, rfl⟩
  · obtain rfl := pure_ok.1 h
    exact advance_sound hdue hs hs.linked.extends_self (fun _ => rfl) (by rintro ⟨⟩) (.inl rfl)
      ⟨rfl, rfl⟩

/-- A launch finds no other one of its turn in the table. -/
theorem start_sound (h : s.start call = .ok s') : s'.Sound := by
  obtain ⟨_, hdue, h⟩ := bind_ok.1 h
  split at h
  · next other hother =>
    obtain ⟨hlaunch, hphase⟩ := due_ok hdue
    obtain ⟨row, hrow, hrunning, hkey⟩ := (hs.active _ _).1 hother
    obtain rfl := hs.alone _ _ _ _ hlaunch hrow (Prod.mk.inj hkey).2
    obtain rfl := mem_unique hlaunch hrow
    rw [hphase] at hrunning
    cases hrunning
  · obtain rfl := pure_ok.1 h
    refine move_sound hdue hs hs.linked.extends_self (by rintro ⟨⟩) (by rintro ⟨⟩) (.inl rfl)
      fun key other => ?_
    rw [find?_set]
    split
    · simp [running, eq_comm]
    · rfl

theorem leave_sound (h : s.leave call = .ok s') : s'.Sound := by
  simp only [leave, steps_ok] at h
  obtain ⟨_, hdue, rfl⟩ := h
  refine move_sound hdue hs hs.linked.extends_self (fun _ => rfl) (by rintro ⟨⟩) (.inl rfl)
    fun key other => ?_
  rw [find?_erase]
  split
  · simp [running]
  · rfl

/-! ## Calls -/

/-- Only calls, contexts and the database have changed. -/
theorem calls_sound (hdb : Extends s.db s'.db) (hlaunches : s'.launches = s.launches)
    (hactive : s'.active = s.active) (hexecutions : s'.executions = s.executions)
    (hcalls : Calls s s') : s'.Sound := by
  have hsame : Same s s' := by
    rw [Same, hlaunches]
    exact fun call launch hlaunch => ⟨launch, hlaunch, rfl, rfl⟩
  refine hs.step (follows_same hdb hlaunches) (hs.launched_of_same hsame hdb.later)
    (hs.alone_of_same hsame) ?_ (.inl hexecutions) hcalls
  rw [hactive, hlaunches]
  exact hs.active

/-- The turn that a call of Interrupt or Cancel names is the current one of its run, if the call was
    served before. -/
def current (s : BridgeService) : BridgeEvent → Bool
  | .transition _ creator requestID _ _ runID turnID _ =>
    (s.db.bridgeRequests.find? (creator, requestID)).isNone ||
      (s.db.runs.find? runID).all (·.currentTurn = turnID)
  | _ => true

/-- A call of Interrupt or Cancel goes for the turn it names. -/
theorem transition_sound {creator : ID} {requestID : Text}
    {transition : AgentBridgeTransition} {project runID turnID : ID} {generation : Nat}
    (hcurrent : s.current (.transition call creator requestID transition project runID turnID
      generation))
    (h : s.transition call creator requestID transition project runID turnID generation = .ok s') :
    s'.Sound := by
  simp only [BridgeService.transition, steps_ok, mapError_ok] at h
  obtain ⟨⟨db, result⟩, htransition, -, rfl⟩ := h
  obtain ⟨hdb, hrun, hbegun, hresult⟩ := transitionAgentBridge_extends hs.linked htransition
  have hturn : result.turn = turnID := by
    rcases hresult with hresult | ⟨hserved, run, hrow, hcurrent'⟩
    · exact hresult
    · rw [current, hrow, ← not_isSome, hserved] at hcurrent
      exact hcurrent'.symm.trans (by simpa using hcurrent)
  refine calls_sound hs hdb rfl rfl rfl ⟨fun _ _ => .inl, fun _ h => h, fun other stop hstop => ?_,
    fun _ => .inl⟩
  rcases of_find?_set hstop with ⟨-, rfl⟩ | hstop
  · exact .inr ⟨hturn, hrun ▸ hbegun, by simp⟩
  · exact .inl hstop

/-- What `stop` finds in the table is the launch that works on the turn. -/
theorem look_sound (h : s.look call = .ok s') : s'.Sound := by
  simp only [look, steps_ok] at h
  obtain ⟨stop, hstop, -, rfl⟩ := h
  have hsound := hs.stops call stop hstop
  have hself := hs.linked.extends_self
  refine calls_sound hs hself rfl rfl rfl ⟨fun _ _ => .inl, fun _ h => h,
    fun other stop' hstop' => ?_, fun _ => .inl⟩
  rcases of_find?_set hstop' with ⟨-, rfl⟩ | hstop'
  · refine .inr ⟨hsound.turn, hsound.begun, ?_⟩
    rintro _ ⟨⟩
    refine ⟨⟨⟨_, hsound.begun⟩, fun other launch hlaunch hturn hworking => ?_⟩,
      fun other hother => ?_⟩
    · refine (hs.active _ _).2 ⟨launch, hlaunch, ?_, ?_⟩
      · exact running_of_working hworking
      · -- the turn has one run, so the keys are the same
        obtain ⟨_, hmem, hid, hof⟩ := hs.launched other launch hlaunch
        obtain ⟨row, hmem', hid', hof', -⟩ := hsound.begun
        rw [inj_on_of_nodup_map hs.linked.ids hmem hmem' (hid.trans (hturn.trans hid'.symm))] at hof
        rw [hsound.turn, ← hturn, ← hof', hof]
    · obtain ⟨launch, hlaunch, -, hkey⟩ := (hs.active _ _).1 hother
      exact ⟨launch, hlaunch, (Prod.mk.inj hkey).2.symm.trans hsound.turn⟩
  · exact .inl hstop'

theorem cancel_sound (h : s.cancel call = .ok s') : s'.Sound := by
  simp only [cancel, steps_ok] at h
  obtain ⟨stop, hstop, h⟩ := h
  have hsound := hs.stops call stop hstop
  split at h
  · cases h
  · next found hphase =>
    obtain rfl := pure_ok.1 h
    obtain ⟨hstopped, hfound⟩ := hsound.found found hphase
    have hself := hs.linked.extends_self
    refine calls_sound hs hself rfl rfl rfl ⟨fun other cause hmem => ?_,
      fun _ h => mem_append_right _ h, fun other stop' hstop' => ?_, fun turn hmem => ?_⟩
    · rcases mem_append.1 hmem with hmem | hmem
      · obtain ⟨launch, hlaunch, heq⟩ := mem_map.1 hmem
        obtain ⟨rfl, rfl⟩ := Prod.mk.inj heq
        obtain ⟨row, hrow, hturn⟩ := hfound launch (mem_toList.1 hlaunch)
        exact .inr ⟨row, hrow, congrArg some hturn.symm⟩
      · exact .inl hmem
    · exact .inl (of_find?_erase hstop').2
    · rcases mem_cons.1 hmem with rfl | hmem
      · refine .inr ((hstopped.follows hs.linked (follows_same hself rfl)).mono ?_)
        rintro _ rfl
        exact ⟨_, mem_append_left _ (mem_map_of_mem (mem_toList.2 rfl))⟩
      · exact .inl hmem

/-- A turn that is new is launched. -/
theorem launched_sound {project : ID} {db : AgentDatabase} {result : BridgeResult}
    (hdb : Extends s.db db) (hcreates : result.replayed = false → Creates s.db db result)
    (h : s.launched call project db result = .ok s') : s'.Sound := by
  rw [launched] at h
  split at h
  · obtain ⟨⟩ := h
    exact calls_sound hs hdb rfl rfl rfl (.same rfl rfl rfl)
  · next hfirst =>
    simp only [steps_ok] at h
    obtain ⟨hnew, rfl⟩ := h
    obtain ⟨hfresh, hadded⟩ := hcreates (by simpa using hfirst)
    have hother : ∀ other launch, s.launches.find? other = some launch →
        launch.turn ≠ result.turn := by
      intro other launch hlaunch heq
      obtain ⟨turn, hmem, hid, -⟩ := hs.launched other launch hlaunch
      exact hfresh turn hmem (hid.trans heq)
    have hfollows : Follows s { s with
        db, launches := s.launches.set call ⟨project, result.run, result.turn, .committed⟩ } := by
      refine ⟨hdb, fun other launch hlaunch => ⟨launch.phase, ?_, fun h => h⟩,
        fun other launch hlaunch hworking => ?_⟩
      · rw [find?_set, if_neg]
        · exact hlaunch
        · rintro rfl
          rw [hnew] at hlaunch
          cases hlaunch
      · rcases of_find?_set hlaunch with ⟨-, rfl⟩ | hlaunch
        · cases hworking
        · exact ⟨launch, hlaunch, rfl, .inl hworking⟩
    refine hs.step hfollows (fun other launch hlaunch => ?_)
      (fun first second launch launch' hlaunch hlaunch' heq => ?_) (fun key other => ?_) (.inl rfl)
      (.same rfl rfl rfl)
    · rcases of_find?_set hlaunch with ⟨-, rfl⟩ | hlaunch
      · exact hadded
      · obtain ⟨turn, hmem, hid, hof⟩ := hs.launched other launch hlaunch
        obtain ⟨turn', hmem', hid', hof', -⟩ := hdb.later turn hmem
        exact ⟨turn', hmem', hid'.trans hid, hof'.trans hof⟩
    · rw [find?_set] at hlaunch hlaunch'
      split at hlaunch <;> split at hlaunch'
      · next hfirst hsecond => exact hfirst.trans hsecond.symm
      · obtain ⟨⟩ := hlaunch
        exact absurd heq.symm (hother second launch' hlaunch')
      · obtain ⟨⟩ := hlaunch'
        exact absurd heq (hother first launch hlaunch)
      · exact hs.alone first second launch launch' hlaunch hlaunch' heq
    · rw [hs.active, find?_set]
      split
      · next heq =>
        rw [heq, hnew]
        refine ⟨?_, ?_⟩
        · rintro ⟨_, ⟨⟩, -⟩
        · rintro ⟨_, ⟨⟩, ⟨⟩, -⟩
      · rfl

/-! ## Runs -/

/-- Every event keeps the service sound, if a call that is served again names the current turn. -/
theorem serve_sound {event : BridgeEvent} (hcurrent : s.current event)
    (h : s.serve event = .ok s') : s'.Sound := by
  cases event with
  | beginRun =>
    simp only [serve, bind_ok, mapError_ok] at h
    obtain ⟨⟨db, result⟩, hbegin, h⟩ := h
    obtain ⟨hdb, hcreates⟩ := beginAgentBridge_extends hs.linked hbegin
    exact launched_sound hs hdb hcreates h
  | continueRun =>
    simp only [serve, bind_ok, mapError_ok] at h
    obtain ⟨⟨db, _⟩, hcontinue, h⟩ := h
    obtain ⟨hdb, hcreates⟩ := continueAgentBridge_extends hs.linked hcontinue
    exact launched_sound hs hdb hcreates h
  | transition => exact transition_sound hs hcurrent h
  | start call => exact start_sound hs h
  | prepare => exact prepare_sound hs h
  | activate => exact activate_sound hs h
  | execute => exact execute_sound hs h
  | returns =>
    simp only [serve, steps_ok] at h
    obtain ⟨_, hdue, rfl⟩ := h
    exact advance_sound hdue hs hs.linked.extends_self (fun _ => rfl) (by rintro ⟨⟩) (.inl rfl)
      ⟨rfl, rfl⟩
  | finish => exact finish_sound hs h
  | leave call => exact leave_sound hs h
  | look call => exact look_sound hs h
  | cancel call => exact cancel_sound hs h
  | cancelRoot =>
    obtain ⟨⟩ := h
    exact calls_sound hs hs.linked.extends_self rfl rfl rfl (.same rfl rfl rfl)
  | others op =>
    simp only [serve, steps_ok, mapError_ok] at h
    obtain ⟨db, hserve, rfl⟩ := h
    exact calls_sound hs (serve_extends hs.linked hserve) rfl rfl rfl (.same rfl rfl rfl)

end Steps

/-- The service has just been made. -/
def init (db : AgentDatabase) : BridgeService := ⟨db, ∅, ∅, [], false, ∅, [], []⟩

theorem init_sound {db : AgentDatabase} (hdb : db.Linked) : (init db).Sound := by
  refine ⟨hdb, by simp [init], by simp [init], fun key call => by simp [init], nodup_nil,
    by simp [init], by simp [init], by simp [init], by simp [init], by simp [init]⟩

end BridgeService

open BridgeService

/-- In every run in which calls of Interrupt and Cancel that are served again name the current turn
    of their run: a turn is executed once; the context of a turn is cancelled only by a call that
    names it (or with the root); after a call that names it has returned, a turn is not executed
    with a live context, and one that is at work has its context cancelled. -/
theorem stops_hit_their_turn {db : AgentDatabase} (hdb : db.Linked) {s : BridgeService}
    (hrun : Machine.Reaches BridgeService.serve (fun s event => s.current event) (init db) s) :
    (s.executions.map (·.turn)).Nodup ∧
    (∀ call cause, (call, cause) ∈ s.cancelled → ∃ launch, s.launches.find? call = some launch ∧
      cause = some launch.turn) ∧
    (∀ execution ∈ s.executions, execution.stopped → ¬execution.live) ∧
    ∀ call launch, s.launches.find? call = some launch → launch.phase = .executing →
      launch.turn ∈ s.returned → ¬s.live call := by
  have hs : s.Sound := hrun.invariant BridgeService.Sound
    (fun s event s' hcurrent hs hserve => serve_sound hs hcurrent hserve) (init_sound hdb)
  refine ⟨hs.once, hs.cancelled, hs.dead, fun call launch hlaunch hphase hreturned => ?_⟩
  refine not_live_of_cancelled ((hs.returned _ hreturned).2 call launch hlaunch rfl ?_)
  rw [hphase]
  rfl

/-! ## A call that is served again -/

theorem emptyDatabase_linked : emptyDatabase.Linked :=
  ⟨nodup_nil, by simp [emptyDatabase], by simp [emptyDatabase]⟩

/-- There is a project, and a creator begins a run. Its first turn is executed. -/
def sampleLaunch : List BridgeEvent :=
  [.others (.others ((∅ : Table ID Bool).set 1 true) ∅ ∅), .beginRun 1 5 ['a'] 1 [] 10 11 true,
    .start 1, .prepare 1 false, .activate 1 false, .execute 1 false]

/-- The first turn is interrupted. -/
def sampleStop (call : ID) : BridgeEvent := .transition call 5 ['b'] .interrupt 1 10 11 1

/-- The run goes on with a second turn. -/
def sampleContinue : BridgeEvent := .continueRun 3 5 ['c'] 1 10 1 [] 12 true

/-- The turn is interrupted while it is executed. -/
theorem stops_hit_their_turn_interrupted : ∃ s : BridgeService,
    11 ∈ s.returned ∧ (s.launches.find? 1).map (·.phase) = some .executing ∧ ¬s.live 1 := by
  obtain ⟨s, hreaches, hreturned, launch, hlaunch, hturn, hphase⟩ : ∃ s,
      Machine.Reaches BridgeService.serve (fun s event => s.current event) (init emptyDatabase) s ∧
      11 ∈ s.returned ∧ ∃ launch, s.launches.find? 1 = some launch ∧ launch.turn = 11 ∧
        launch.phase = .executing :=
    Machine.exists_of_play (sampleLaunch ++ [sampleStop 2, .look 2, .cancel 2]) (by decide +kernel)
  have hstopped := stops_hit_their_turn emptyDatabase_linked hreaches
  refine ⟨s, hreturned, ?_, hstopped.2.2.2 1 launch hlaunch hphase (hturn ▸ hreturned)⟩
  rw [hlaunch, ← hphase]
  rfl

/-- The interrupt of turn 11 is served again while turn 12 is executed, and stops this turn. Where
    it is served again before the first call has looked for the turn, it returns while turn 11 is
    executed with a live context. -/
theorem other_turn_stopped :
    (∃ s : BridgeService,
      Machine.Reaches BridgeService.serve (fun _ _ => True) (init emptyDatabase) s ∧
      (3, some 11) ∈ s.cancelled ∧
      s.launches.find? 3 = some ⟨1, 10, 12, .executing⟩ ∧ ¬s.live 3) ∧
    ∃ s : BridgeService,
      Machine.Reaches BridgeService.serve (fun _ _ => True) (init emptyDatabase) s ∧
      11 ∈ s.returned ∧ s.launches.find? 1 = some ⟨1, 10, 11, .executing⟩ ∧ s.live 1 := by
  constructor
  · exact Machine.exists_of_play (sampleLaunch ++ [sampleStop 2, .look 2, .cancel 2,
      .returns 1 .detached, .finish 1 .detached false, .leave 1, sampleContinue, .start 3,
      .prepare 3 false, .activate 3 false, .execute 3 false, sampleStop 4, .look 4, .cancel 4])
      (by decide +kernel)
  · exact Machine.exists_of_play (sampleLaunch ++ [sampleStop 2, sampleContinue, sampleStop 4,
      .look 4, .cancel 4]) (by decide +kernel)

end OpenCut.Agents
