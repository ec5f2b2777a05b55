import Mathlib.Data.List.Sort
import OpenCut.Domain.Text
import OpenCut.Sidecar.Capabilities

/-!
# The runtime host

`internal/runtimehost/runtimehost.go` with the parts of `sidecar/client/client.go` that it uses:
the host starts the apps of its plan, each with a delegated token, restarts those that exit, and
renews its own token.

The token is copied into two clients. `Session.Renew` replaces the copy of the session; the
control client, which asks for the delegated tokens, keeps the token that the host was started
with (`Host.Holds`). So a delegation is authorized exactly if it is asked for before that token
expires (`delegation_authorized_iff`), however often the session was renewed.

Commands reach the loop of the host through a channel of one place, and a shutdown is dropped if
another command waits there (`CommandChannel.shutdown_kept_iff`).
-/

namespace OpenCut

open Outcome

variable {S : Signing Claims}

/-! ## The model -/

/-- `initialRestartDelay`. -/
def initialRestartDelay : Duration := 100000000

/-- `maximumRestartDelay`. -/
def maximumRestartDelay : Duration := 5 * second

/-- `stableProcessWindow`. -/
def stableProcessWindow : Duration := 30 * second

/-- `consecutiveFailureLimit`. -/
def consecutiveFailureLimit : Nat := 5

/-- `sessionCapabilityTTL`. -/
def sessionCapabilityTTL : Duration := 7 * 24 * 3600 * second

/-- `runtimetopology.ResolvedProcess`, as far as its token depends on it. -/
structure ResolvedProcess where
  app : Text
  capabilities : List Capability

/-- `managedProcess`; of its command and its timer, whether there is one. -/
structure ManagedProcess where
  definition : ResolvedProcess
  running : Bool
  startedAt : Instant
  generation : Nat
  backoff : Duration
  restart : Bool
  failures : Nat

/-- A `DelegateSidecar` request: when the broker verified its token, and whether it did so with
    success. -/
structure Delegation where
  at_ : Instant
  authorized : Bool

/-- The state of `Run`: the clock, the tokens of its two clients, the apps it has not yet
    started for the first time, its processes, and what it asked of the broker so far. -/
structure Host (S : Signing Claims) where
  now : Instant
  session : S.Token
  control : S.Token
  starting : List Text
  processes : Text → Option ManagedProcess
  confirmed : Bool
  delegations : List Delegation
  renewals : List Bool

/-- What the outside contributes to a `startProcess`: the clock and the nonce of the broker, and
    whether the process could be started. -/
structure StartAttempt where
  clock : Readings
  nonce : Option Text
  launched : Bool

/-- What `Run` waits for. -/
inductive HostEvent
  /-- Time passes. -/
  | advance (d : Nat)
  /-- The next app is started for the first time. -/
  | start (attempt : StartAttempt)
  /-- The context is done. -/
  | done
  /-- A command: to show the window, or to shut down. -/
  | command (show_ : Bool)
  /-- A process exited. -/
  | exited (app : Text) (generation : Nat)
  /-- The timer of a restart fired. -/
  | restart (app : Text) (generation : Nat) (attempt : StartAttempt)
  /-- The status ticker, with what it finds. -/
  | status (allReady : Bool) (marked : Bool)
  /-- The renew ticker. -/
  | renew (clock : Readings) (nonce : Option Text) (sessions : Text → Bool)
  /-- The deadline to be ready. -/
  | deadline

/-- Why `Run` returned. -/
inductive HostStop
  | context
  | shutdown
  | gaveUp (app : Text) (failures : Nat)
  | markReady
  | readyTimeout

/-- `scheduleRestart`. -/
def ManagedProcess.scheduleRestart (managed : ManagedProcess) : ManagedProcess :=
  if managed.restart then managed
  else
    let delay := if managed.backoff ≤ 0 then initialRestartDelay else managed.backoff
    { managed with backoff := min (delay * 2) maximumRestartDelay, restart := true }

namespace Host

variable (manager : Manager S) (host : Host S)

/-- The host with the process in the place of its app. -/
def put (managed : ManagedProcess) : Host S :=
  { host with processes := Function.update host.processes managed.definition.app (some managed) }

variable (attempt : StartAttempt)

/-- `Client.DelegateSidecar` of the control client. -/
def delegateSidecar (definition : ResolvedProcess) : Except Refusal (TokenResponse S) :=
  manager.handleDelegateSidecar attempt.clock attempt.nonce (some (some host.control))
    (some ⟨definition.app, sessionCapabilityTTL / second, definition.capabilities⟩)

/-- The host after it asked for a delegated token. -/
def asked : Host S :=
  { host with
    now := attempt.clock.answered
    delegations := host.delegations ++ [⟨attempt.clock.verified, (manager.authorize
      attempt.clock.verified (some (some host.control)) .delegateSidecar).isOk⟩] }

/-- `startProcess`: the host after it, and the process if it was started. -/
def startProcess (managed : ManagedProcess) (attempt : StartAttempt) :
    Host S × Option ManagedProcess :=
  let started := (host.delegateSidecar manager attempt managed.definition).isOk && attempt.launched
  (host.asked manager attempt, if started then
    some { managed with
      generation := managed.generation + 1, running := true, startedAt := attempt.clock.answered }
  else none)

/-- The first start of the next app. -/
def startNext : Host S :=
  match host.starting with
  | [] => host
  | app :: starting =>
    match host.processes app with
    | none => { host with starting }
    | some managed =>
      let (host, started) := { host with starting }.startProcess manager managed attempt
      match started with
      | some managed => host.put managed
      | none => host.put { managed with failures := managed.failures + 1 }.scheduleRestart

/-- The process of an app exited. -/
def handleExit (app : Text) (generation : Nat) : Except HostStop (Host S) := do
  match host.processes app with
  | none => return host
  | some managed =>
    if managed.generation ≠ generation then return host
    let managed := { managed with running := false }
    let managed := if stableProcessWindow ≤ host.now - managed.startedAt then
      { managed with backoff := initialRestartDelay, failures := 0 } else managed
    let managed := { managed with failures := managed.failures + 1 }
    ensure (managed.failures < consecutiveFailureLimit) (.gaveUp app managed.failures)
    return host.put managed.scheduleRestart

/-- The timer of an app fired. -/
def handleRestart (app : Text) (generation : Nat) (attempt : StartAttempt) :
    Except HostStop (Host S) := do
  match host.processes app with
  | none => return host
  | some managed =>
    if managed.generation ≠ generation ∨ managed.running then return host
    let managed := { managed with restart := false }
    let (host, started) := host.startProcess manager managed attempt
    match started with
    | some managed => return host.put managed
    | none =>
      let managed := { managed with failures := managed.failures + 1 }
      ensure (managed.failures < consecutiveFailureLimit) (.gaveUp app managed.failures)
      return host.put managed.scheduleRestart

/-- `Session.Renew`: the token of the session is replaced. -/
def renew (clock : Readings) (nonce : Option Text) (sessions : Text → Bool) : Host S :=
  match manager.handleRenewCapability clock nonce sessions (some (some host.session))
      (some ⟨sessionCapabilityTTL / second⟩) with
  | .ok response => { host with
    now := clock.answered, session := response.token, renewals := host.renewals ++ [true] }
  | .error _ => { host with now := clock.answered, renewals := host.renewals ++ [false] }

/-- One turn of the loop of `Run`. -/
def serve : HostEvent → Except HostStop (Host S)
  | .advance d => .ok { host with now := host.now + d }
  | .start attempt => .ok (host.startNext manager attempt)
  | .done => .error .context
  | .command show_ => if show_ then .ok host else .error .shutdown
  | .exited app generation => host.handleExit app generation
  | .restart app generation attempt => host.handleRestart manager app generation attempt
  | .status allReady marked =>
    if host.confirmed ∨ ¬allReady then .ok host
    else if marked then .ok { host with confirmed := true } else .error .markReady
  | .renew clock nonce sessions => .ok (host.renew manager clock nonce sessions)
  | .deadline => if host.confirmed then .ok host else .error .readyTimeout

end Host

/-- The clock does not go back while a request is handled. -/
def Readings.From (clock : Readings) (now : Instant) : Prop :=
  now ≤ clock.verified ∧ clock.verified ≤ clock.remaining ∧ clock.remaining ≤ clock.minted ∧
    clock.minted ≤ clock.answered

instance (clock : Readings) (now : Instant) : Decidable (clock.From now) :=
  inferInstanceAs (Decidable (_ ∧ _))

/-- The apps are started first, and the clock does not go back. -/
def Host.Allowed (host : Host S) : HostEvent → Prop
  | .advance _ => True
  | .start attempt => host.starting ≠ [] ∧ attempt.clock.From host.now
  | .restart _ _ attempt => host.starting = [] ∧ attempt.clock.From host.now
  | .renew clock _ _ => host.starting = [] ∧ clock.From host.now
  | _ => host.starting = []

instance (host : Host S) : (event : HostEvent) → Decidable (host.Allowed event)
  | .advance _ => inferInstanceAs (Decidable True)
  | .start attempt => inferInstanceAs (Decidable (host.starting ≠ [] ∧ attempt.clock.From host.now))
  | .restart _ _ attempt =>
    inferInstanceAs (Decidable (host.starting = [] ∧ attempt.clock.From host.now))
  | .renew clock _ _ => inferInstanceAs (Decidable (host.starting = [] ∧ clock.From host.now))
  | .done => inferInstanceAs (Decidable (host.starting = []))
  | .command _ => inferInstanceAs (Decidable (host.starting = []))
  | .exited _ _ => inferInstanceAs (Decidable (host.starting = []))
  | .status _ _ => inferInstanceAs (Decidable (host.starting = []))
  | .deadline => inferInstanceAs (Decidable (host.starting = []))

/-- The state in which `Run` begins to start its apps, at `now` and with `token`. -/
def Host.begin (plan : List ResolvedProcess) (token : S.Token) (now : Instant) : Host S where
  now := now
  session := token
  control := token
  starting := (plan.map (·.app)).insertionSort fun a b => textLE a b
  processes := fun app => (plan.find? (·.app == app)).map fun definition =>
    ⟨definition, false, 0, 0, initialRestartDelay, false, 0⟩
  confirmed := false
  delegations := []
  renewals := []

/-! ## Which delegations are authorized -/

/-- The control client holds the token that `claims` are the claims of. What it asked for since
    `start` was authorized exactly if the token had not expired. -/
structure Host.Holds (manager : Manager S) (claims : Claims) (start : Instant) (host : Host S) :
    Prop where
  control : host.control = S.signed manager.key claims
  since : start ≤ host.now
  delegations : ∀ d ∈ host.delegations, d.authorized ↔ unix d.at_ < claims.expiresAt

namespace Host.Holds

variable {manager : Manager S} {claims : Claims} {start : Instant} {host : Host S}
  (h : host.Holds manager claims start)
include h

theorem put (managed : ManagedProcess) : (host.put managed).Holds manager claims start :=
  ⟨h.control, h.since, h.delegations⟩

/-- Asking once more. -/
theorem asked (howns : manager.Owns claims) (hissued : claims.issuedAt ≤ unix start)
    (hcapability : claims.has .delegateSidecar) {attempt : StartAttempt}
    (hclock : attempt.clock.From host.now) :
    (host.asked manager attempt).Holds manager claims start := by
  have hverified : start ≤ attempt.clock.verified := h.since.trans hclock.1
  refine ⟨h.control, ?_, List.forall_mem_append.2 ⟨h.delegations, ?_⟩⟩
  · exact hverified.trans (hclock.2.1.trans (hclock.2.2.1.trans hclock.2.2.2))
  · refine List.forall_mem_singleton.2 ?_
    rw [isOk_iff]
    constructor
    · rintro ⟨_, hauthorize⟩
      obtain ⟨⟨_, htoken, hread⟩, -, hexpires, -⟩ := Manager.authorize_ok.1 hauthorize
      obtain rfl := Option.some.inj (Option.some.inj htoken)
      rw [h.control, S.read?_signed] at hread
      obtain ⟨⟩ := hread
      exact hexpires
    · intro hexpires
      refine ⟨claims, Manager.authorize_ok.2 ⟨⟨host.control, rfl, ?_⟩, howns, hexpires, ?_,
        hcapability⟩⟩
      · rw [h.control, S.read?_signed]
      · exact hissued.trans ((unix_mono hverified).trans (by omega))

section

variable (howns : manager.Owns claims) (hissued : claims.issuedAt ≤ unix start)
  (hcapability : claims.has .delegateSidecar)

include howns hissued hcapability

theorem startNext {attempt : StartAttempt} (hclock : attempt.clock.From host.now) :
    (host.startNext manager attempt).Holds manager claims start := by
  rw [Host.startNext]
  split
  · exact h
  · next app starting _ =>
    split
    · exact ⟨h.control, h.since, h.delegations⟩
    · next managed _ =>
      have hnext : ({ host with starting } : Host S).Holds manager claims start :=
        ⟨h.control, h.since, h.delegations⟩
      have hasked := hnext.asked howns hissued hcapability hclock
      dsimp only [Host.startProcess]
      split
      · exact hasked.put _
      · exact hasked.put _

variable {host' : Host S}

theorem handleRestart {app : Text} {generation : Nat} {attempt : StartAttempt}
    (hclock : attempt.clock.From host.now)
    (hserve : host.handleRestart manager app generation attempt = .ok host') :
    host'.Holds manager claims start := by
  have hasked := h.asked howns hissued hcapability hclock
  rw [Host.handleRestart] at hserve
  split at hserve
  · exact pure_ok.1 hserve ▸ h
  · next managed _ =>
    split at hserve
    · exact pure_ok.1 hserve ▸ h
    · dsimp only [Host.startProcess] at hserve
      split at hserve
      · exact pure_ok.1 hserve ▸ hasked.put _
      · obtain ⟨_, -, hserve⟩ := bind_ok.1 hserve
        exact pure_ok.1 hserve ▸ hasked.put _

/-- One turn of the loop. -/
theorem serve {event : HostEvent} (hallowed : host.Allowed event)
    (hserve : host.serve manager event = .ok host') : host'.Holds manager claims start := by
  cases event with
  | advance d =>
    obtain ⟨⟩ := hserve
    exact ⟨h.control, h.since.trans (by simp), h.delegations⟩
  | start =>
    obtain ⟨⟩ := hserve
    exact h.startNext howns hissued hcapability hallowed.2
  | done => cases hserve
  | command | deadline =>
    rw [Host.serve] at hserve
    split at hserve
    · exact Except.ok.inj hserve ▸ h
    · cases hserve
  | exited =>
    rw [Host.serve, Host.handleExit] at hserve
    split at hserve
    · exact pure_ok.1 hserve ▸ h
    · split at hserve
      · exact pure_ok.1 hserve ▸ h
      · obtain ⟨_, -, hserve⟩ := bind_ok.1 hserve
        exact pure_ok.1 hserve ▸ h.put _
  | restart => exact h.handleRestart howns hissued hcapability hallowed.2 hserve
  | status =>
    rw [Host.serve] at hserve
    split at hserve
    · exact Except.ok.inj hserve ▸ h
    · split at hserve
      · obtain ⟨⟩ := hserve
        exact ⟨h.control, h.since, h.delegations⟩
      · cases hserve
  | renew clock =>
    obtain ⟨⟩ := hserve
    obtain ⟨-, h1, h2, h3, h4⟩ := hallowed
    have hsince : start ≤ clock.answered := h.since.trans (h1.trans (h2.trans (h3.trans h4)))
    -- The token of the session is replaced, the token of the control client is not.
    rw [Host.renew]
    split
    · exact ⟨h.control, hsince, h.delegations⟩
    · exact ⟨h.control, hsince, h.delegations⟩

end

end Host.Holds

/-- A delegation that a runtime host asks for is authorized exactly if the token that the host
    was started with has not expired, in every run of the host. -/
theorem delegation_authorized_iff {manager : Manager S} {minted start : Instant}
    {nonce : Option Text} {subject : Text} {ttl : Duration} {token : S.Token}
    (hmint : manager.mintRuntimeToken minted nonce subject ttl = .ok token)
    (hstart : minted ≤ start)
    {plan : List ResolvedProcess} {host : Host S}
    (hrun : Machine.Reaches (Host.serve manager) Host.Allowed (Host.begin plan token start) host) :
    ∀ d ∈ host.delegations, d.authorized ↔ unix d.at_ < unix (minted + ttl) := by
  obtain ⟨-, n, -, rfl⟩ := Manager.mintDelegated_ok.1 hmint
  have hholds := hrun.invariant (Host.Holds manager _ start)
    (fun _ _ _ hallowed h hserve => h.serve (Manager.owns_claims ..) (unix_mono hstart) rfl
      hallowed hserve) ⟨rfl, le_rfl, by simp [Host.begin]⟩
  exact hholds.delegations

/-- The clock of a request that is handled at once. -/
def Readings.at_ (t : Instant) : Readings := ⟨t, t, t, t⟩

theorem delegation_authorized_iff_sample : ∃ host,
    Machine.Reaches (Host.serve sampleManager) Host.Allowed
      (Host.begin [⟨"api".toList, []⟩] sampleRuntime 0) host ∧
    host.delegations.length = 1 ∧
    ∀ d ∈ host.delegations, d.authorized ↔ unix d.at_ < unix (0 + maximumSessionTokenTTL) := by
  have hmint : sampleManager.mintRuntimeToken 0 (some ['n']) "payload".toList
      maximumSessionTokenTTL = .ok sampleRuntime := rfl
  have hrun : Machine.Reaches (Host.serve sampleManager) Host.Allowed
      (Host.begin [⟨"api".toList, []⟩] sampleRuntime 0) _ :=
    (Machine.Reaches.refl _).serve_ok (r := .start ⟨.at_ 0, some ['n'], true⟩) (by decide) rfl
  exact ⟨_, hrun, rfl, delegation_authorized_iff hmint le_rfl hrun⟩

/-- Half a day passes, and the session is renewed. -/
def halfDay (n : Nat) : List HostEvent :=
  [.advance (12 * 3600 * 1000000000),
    .renew (.at_ (12 * 3600 * second * n)) (some ['r']) fun _ => true]

/-- A week with one app, which then exits and is restarted. -/
def sampleWeek : List HostEvent :=
  [.start ⟨.at_ 0, some ['n'], true⟩] ++ (List.range 14).flatMap (fun n => halfDay (n + 1)) ++
    [.exited "api".toList 1, .advance 100000000,
      .restart "api".toList 1 ⟨.at_ (7 * 24 * 3600 * second + 100000000), some ['n'], true⟩]

/-- After a week in which the session was renewed twice a day, an app that exited is not
    restarted: its token is not delegated. The token of the session would still do. -/
theorem delegation_refused_after_week : ∃ host,
    Machine.Reaches (Host.serve sampleManager) Host.Allowed
      (Host.begin [⟨"api".toList, []⟩] sampleRuntime 0) host ∧
    host.renewals.length = 14 ∧ (∀ renewal ∈ host.renewals, renewal = true) ∧
    (sampleManager.verify host.now (some host.session) (some .delegateSidecar)).isOk ∧
    ∃ d ∈ host.delegations, d.authorized = false :=
  Machine.exists_of_play sampleWeek (by decide +kernel)

/-! ## Commands -/

/-- `protocol.ControlCommand`. -/
inductive ControlCommand
  | show_
  | shutdown
deriving DecidableEq

/-- The channel `commands` of `Run`, which has one place; whether a shutdown was forwarded to it,
    and whether the loop received one and is gone. -/
structure CommandChannel where
  waiting : Option ControlCommand
  forwarded : Bool
  received : Bool

/-- The reader forwards what `ReadCommand` returned, or the loop receives what is waiting. -/
inductive CommandEvent
  | forward (command : ControlCommand)
  | receive

namespace CommandChannel

/-- One step of the reader, which does not wait for the place to become free, or of the loop. -/
def serve (channel : CommandChannel) : CommandEvent → Except Unit CommandChannel
  | .forward command => .ok { channel with
      waiting := some (channel.waiting.getD command)
      forwarded := channel.forwarded || command == .shutdown }
  | .receive =>
    match channel.received, channel.waiting with
    | false, some command => .ok { channel with waiting := none, received := command == .shutdown }
    | _, _ => .error ()

/-- A shutdown that was forwarded was received or is waiting. -/
def Kept (channel : CommandChannel) : Prop :=
  channel.forwarded → channel.received ∨ channel.waiting = some .shutdown

instance : DecidablePred Kept := fun _ => inferInstanceAs (Decidable (_ → _))

/-- A shutdown finds no other command waiting, unless one was received before. -/
def Clear (channel : CommandChannel) (event : CommandEvent) : Prop :=
  event = .forward .shutdown → channel.received ∨ channel.waiting ≠ some .show_

variable {channel channel' : CommandChannel} {event : CommandEvent}

/-- One step loses a shutdown exactly if it is forwarded while another command waits. -/
theorem kept_serve_iff (h : channel.Kept) (hserve : channel.serve event = .ok channel') :
    channel'.Kept ↔ channel.Clear event := by
  obtain ⟨waiting, _, received⟩ := channel
  cases event with
  | forward command =>
    obtain ⟨⟩ := hserve
    cases command <;> rcases waiting with _ | _ | _ <;> simp_all [Kept, Clear]
  | receive =>
    rcases received with _ | _ <;> rcases waiting with _ | command <;> cases hserve
    cases command <;> simp_all [Kept, Clear]

/-- In a run in which a shutdown always finds the channel clear, none is lost; and a step loses
    one exactly if it does not. -/
theorem shutdown_kept_iff
    (hrun : Machine.Reaches serve Clear ⟨none, false, false⟩ channel)
    (hserve : channel.serve event = .ok channel') :
    channel.Kept ∧ (channel'.Kept ↔ channel.Clear event) := by
  have hkept :=
    hrun.invariant Kept (fun _ _ _ hclear h hserve => (kept_serve_iff h hserve).2 hclear)
    (by simp [Kept])
  exact ⟨hkept, kept_serve_iff hkept hserve⟩

theorem shutdown_kept_iff_first : Kept ⟨some .shutdown, true, false⟩ :=
  have hserve : serve ⟨none, false, false⟩ (.forward .shutdown) =
    .ok ⟨some .shutdown, true, false⟩ := rfl
  (shutdown_kept_iff (.refl _) hserve).2.2 (by simp [Clear])

/-- A shutdown that is forwarded while a show waits is lost. -/
theorem shutdown_lost : ∃ channel,
    Machine.Reaches serve (fun _ _ => True) ⟨none, false, false⟩ channel ∧ ¬channel.Kept :=
  Machine.exists_of_play [.forward .show_, .forward .shutdown] (by decide)

end CommandChannel

end OpenCut
