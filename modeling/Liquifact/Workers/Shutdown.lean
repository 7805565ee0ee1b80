import Liquifact.Lib.Run
import Liquifact.Workers.Worker

/-!
# Coordinated shutdown (`src/utils/shutdownCoordinator.js`)

`executeShutdown` (68-156) closes the HTTP server, stops the registered worker and destroys the
connection pool, each after the one before has settled; a timer armed at its start forces the
exit. `stop` (`worker.js` 135-154) looks every 100 ms, for ten seconds, whether jobs are in
hand. `start` (101-124) awaits the restoration of jobs where the queue has an adapter, and then
sets `isRunning` without another look at it.

A `Process` is the coordinator with the server, the worker and its callers, and the clock. The
part of the code between two `await`s is one step.
-/

namespace Liquifact.Workers.Shutdown
open Liquifact.Lib

structure HttpServer where
  listening : Bool
  connections : ℕ

/- Where `executeShutdown` waits; `startTime` is the variable of `stop`. -/
inductive Stage where
  | serving
  | closingServer
  | stoppingWorker (startTime wakeAt : ℕ)
  | destroyingPool
  | exited

inductive Milestone where
  | closeServer
  | stopWorker
  | destroyPool
  | exit (code : ℕ)
  deriving DecidableEq

/- The delay that the timer makes of `SHUTDOWN_TIMEOUT_MS`, and whether there is a pool. -/
structure Setup where
  shutdownTimeoutMs : ℕ
  hasPool : Bool

structure Process where
  clock : ℕ
  system : System
  restoring : ℕ
  server : HttpServer
  serverInstance : Bool
  registeredWorker : Bool
  stage : Stage
  forceExitAt : ℕ
  trace : List (ℕ × Milestone)

namespace Process

def initial (system : System) : Process where
  clock := 0
  system := system
  restoring := 0
  server := ⟨true, 0⟩
  serverInstance := false
  registeredWorker := false
  stage := .serving
  forceExitAt := 0
  trace := []

def isShuttingDown (s : Process) : Bool :=
  match s.stage with
  | .serving => false
  | _ => true

def reach (s : Process) (m : Milestone) (stage : Stage) : Process :=
  { s with stage := stage, trace := s.trace ++ [(s.clock, m)] }

def exit (s : Process) (code : ℕ) : Process := s.reach (.exit code) .exited

/- Phase 4. -/
def destroyPool (c : Setup) (s : Process) : Process :=
  if c.hasPool then s.reach .destroyPool .destroyingPool else s.exit 0

/- The condition of the loop of `stop`. -/
def look (c : Setup) (startTime : ℕ) (s : Process) : Process :=
  if 0 < s.system.worker.processingCount ∧ s.clock - startTime < 10000 then
    { s with stage := .stoppingWorker startTime (s.clock + 100) }
  else s.destroyPool c

/- Phase 3. -/
def stopWorker (c : Setup) (s : Process) : Process :=
  if s.registeredWorker then
    look c s.clock ({ s with system := s.system.step .stop }.reach .stopWorker
      (.stoppingWorker s.clock s.clock))
  else s.destroyPool c

/- Phase 1. -/
def closeServer (c : Setup) (s : Process) : Process :=
  if s.serverInstance then
    { s with server := { s.server with listening := false } }.reach .closeServer .closingServer
  else s.stopWorker c

def executeShutdown (c : Setup) (s : Process) : Process :=
  if s.isShuttingDown then s
  else closeServer c { s with forceExitAt := s.clock + c.shutdownTimeoutMs }

/- `_poll`: a loop that a call enters if the worker runs, with what its jobs do in between. -/
def poll (s : Process) (turns : List Workers.Action) : Process :=
  if s.system.worker.isRunning then { s with system := run System.step s.system turns } else s

def goOn (s : Process) (turns : List Workers.Action) : Process :=
  { s with system :=
    { s.system with worker := { s.system.worker with isRunning := true } } }.poll turns

def start (s : Process) (turns : List Workers.Action) : Process :=
  match s.system.worker.start with
  | .error _ => s
  | .ok _ =>
    if s.system.queueOf.persistence.isSome then { s with restoring := s.restoring + 1 }
    else s.goOn turns

/- The restoration that a call of `start` awaits has settled; `none` is a failed one. -/
def restored (s : Process) (recovered : Option (List Job)) (turns : List Workers.Action) : Process :=
  match s.restoring, recovered with
  | 0, _ => s
  | n + 1, none => { s with restoring := n }.goOn turns
  | n + 1, some jobs =>
    { s with
      restoring := n
      system := s.system.withQueue (s.system.queueOf.restoreFromPersistence jobs).2 }.goOn turns

end Process

inductive Action where
  | elapse (ms : ℕ)
  | register (server worker : Bool)
  | signal
  | connect
  | disconnect
  | serverClosed
  | wake
  | poolDestroyed (rejected : Bool)
  | forceExit
  | start (turns : List Workers.Action)
  | restored (recovered : Option (List Job)) (turns : List Workers.Action)
  | poll (turns : List Workers.Action)
  | work (a : Workers.Action)

/- `start` and the loop of `_poll` have actions of their own. -/
def isWork : Workers.Action → Bool
  | .start | .poll _ _ _ _ => false
  | _ => true

namespace Process

def step (c : Setup) (s : Process) (a : Action) : Process :=
  match s.stage, a with
  | .exited, _ => s
  | _, .elapse ms => { s with clock := s.clock + ms }
  | _, .register server worker =>
    { s with
      serverInstance := s.serverInstance || server
      registeredWorker := s.registeredWorker || worker }
  | _, .signal => s.executeShutdown c
  | _, .connect =>
    if s.server.listening then
      { s with server := { s.server with connections := s.server.connections + 1 } }
    else s
  | _, .disconnect =>
    { s with server := { s.server with connections := s.server.connections - 1 } }
  | .closingServer, .serverClosed => if s.server.connections = 0 then s.stopWorker c else s
  | .stoppingWorker startTime wakeAt, .wake =>
    if wakeAt ≤ s.clock then s.look c startTime else s
  | .destroyingPool, .poolDestroyed rejected => s.exit (if rejected then 1 else 0)
  | .serving, .forceExit => s
  | _, .forceExit => if s.forceExitAt ≤ s.clock then s.exit 1 else s
  | _, .start turns => s.start turns
  | _, .restored recovered turns => s.restored recovered turns
  | _, .poll turns => s.poll turns
  | _, .work a => if isWork a then { s with system := s.system.step a } else s
  | _, _ => s

def milestones (s : Process) : List Milestone := s.trace.map Prod.snd

/-- The server is closed where there was one to close. -/
def Drained (s : Process) : Prop :=
  .closeServer ∈ s.milestones → s.server.listening = false ∧ s.server.connections = 0

/-- The phases are taken in their order and none twice, whatever ends the process: code 0 after
the last connection, code 1 at the time of the forced exit or after the pool was told. -/
structure Orderly (s : Process) : Prop where
  order : s.milestones.Sublist [.closeServer, .stopWorker, .destroyPool, .exit 0] ∨
    ∃ before, s.milestones = before ++ [.exit 1] ∧
      before.Sublist [.closeServer, .stopWorker, .destroyPool]
  drained : .exit 0 ∈ s.milestones → s.Drained
  forced : ∀ t, (t, .exit 1) ∈ s.trace → .destroyPool ∉ s.milestones → s.forceExitAt ≤ t

/- What has been done when the coordinator waits at a stage. -/
def Reached (s : Process) : Prop :=
  match s.stage with
  | .serving => s.milestones = []
  | .closingServer => s.milestones.Sublist [.closeServer] ∧ s.server.listening = false
  | .stoppingWorker _ _ => s.milestones.Sublist [.closeServer, .stopWorker] ∧ s.Drained
  | .destroyingPool => s.milestones.Sublist [.closeServer, .stopWorker, .destroyPool] ∧ s.Drained ∧
    .destroyPool ∈ s.milestones
  | .exited => s.Orderly

section Order
variable {c : Setup} {s t : Process}

@[simp] theorem milestones_reach (s : Process) (m : Milestone) (stage : Stage) :
    (s.reach m stage).milestones = s.milestones ++ [m] := by
  simp [milestones, reach]

/- Only the last milestone is an exit. -/
theorem not_exited (h : s.milestones.Sublist [.closeServer, .stopWorker, .destroyPool])
    (t code : ℕ) : (t, .exit code) ∉ s.trace := by
  intro hmem
  have hphase := h.subset (List.mem_map_of_mem hmem)
  simp at hphase

theorem drained_reach (h : s.Drained) {m : Milestone} (hm : m ≠ .closeServer) (stage : Stage) :
    (s.reach m stage).Drained := by
  intro hmem
  rw [milestones_reach] at hmem
  rcases List.mem_append.mp hmem with hmem | hmem
  · exact h hmem
  · exact absurd (List.mem_singleton.mp hmem).symm hm

theorem reached_exit (hphases : s.milestones.Sublist [.closeServer, .stopWorker, .destroyPool])
    (h : s.Drained) : (s.exit 0).Reached := by
  have horder := hphases.append (List.Sublist.refl [Milestone.exit 0])
  refine ⟨.inl ?_, fun _ => drained_reach h (by decide) _, fun t ht => ?_⟩
  · rw [exit, milestones_reach]
    exact horder
  · rcases List.mem_append.mp ht with ht | ht
    · exact absurd ht (not_exited hphases t 1)
    · cases List.mem_singleton.mp ht

theorem reached_exit_one (hphases : s.milestones.Sublist [.closeServer, .stopWorker, .destroyPool])
    (h : .destroyPool ∈ s.milestones ∨ s.forceExitAt ≤ s.clock) : (s.exit 1).Reached := by
  refine ⟨.inr ⟨s.milestones, milestones_reach .., hphases⟩, fun hzero => ?_, fun t ht hpool => ?_⟩
  · rw [exit, milestones_reach] at hzero
    rcases List.mem_append.mp hzero with hzero | hzero
    · exact absurd (hphases.subset hzero) (by decide)
    · cases List.mem_singleton.mp hzero
  · rw [exit, milestones_reach] at hpool
    rcases List.mem_append.mp ht with ht | ht
    · exact absurd ht (not_exited hphases t 1)
    · cases List.mem_singleton.mp ht
      rcases h with h | h
      · exact absurd (List.mem_append_left _ h) hpool
      · exact h

theorem reached_destroyPool (hphases : s.milestones.Sublist [.closeServer, .stopWorker])
    (h : s.Drained) : (s.destroyPool c).Reached := by
  unfold destroyPool
  split
  · refine ⟨?_, drained_reach h (by decide) _, ?_⟩
    · rw [milestones_reach]
      exact hphases.append (List.Sublist.refl [Milestone.destroyPool])
    · rw [milestones_reach]
      exact List.mem_append_right _ (List.mem_singleton_self _)
  · exact reached_exit (hphases.trans (by decide)) h

theorem reached_look (hphases : s.milestones.Sublist [.closeServer, .stopWorker]) (h : s.Drained)
    (startTime : ℕ) : (s.look c startTime).Reached := by
  unfold look
  split
  · exact ⟨hphases, h⟩
  · exact reached_destroyPool hphases h

theorem reached_stopWorker (hphases : s.milestones.Sublist [.closeServer]) (h : s.Drained) :
    (s.stopWorker c).Reached := by
  unfold stopWorker
  split
  · have hstopped : Drained { s with system := s.system.step .stop } := h
    refine reached_look ?_ (drained_reach hstopped ?_ _) _
    · rw [milestones_reach]
      exact hphases.append (List.Sublist.refl [Milestone.stopWorker])
    · decide
  · exact reached_destroyPool (hphases.trans (by decide)) h

theorem reached_closeServer (hphases : s.milestones = []) : (s.closeServer c).Reached := by
  unfold closeServer
  split
  · refine ⟨?_, rfl⟩
    rw [milestones_reach]
    have hnone : s.milestones.Sublist [] := by rw [hphases]
    exact hnone.append (List.Sublist.refl [Milestone.closeServer])
  · refine reached_stopWorker ?_ fun hmem => ?_
    · rw [hphases]
      exact List.nil_sublist _
    · rw [hphases] at hmem
      cases hmem

theorem Reached.phases (hs : s.Reached) (h : s.stage ≠ .exited) :
    s.milestones.Sublist [.closeServer, .stopWorker, .destroyPool] := by
  unfold Reached at hs
  split at hs
  · rw [hs]
    exact List.nil_sublist _
  · exact hs.1.trans (by decide)
  · exact hs.1.trans (by decide)
  · exact hs.1
  · next hexited => exact absurd hexited h

theorem Reached.orderly (hs : s.Reached) : s.Orderly := by
  cases hstage : s.stage with
  | exited =>
    simp only [Reached, hstage] at hs
    exact hs
  | _ =>
    have hphases := hs.phases (by rw [hstage]; rintro ⟨⟩)
    refine ⟨.inl (hphases.trans (by decide)), fun hzero => ?_, fun t ht => ?_⟩
    · exact absurd (hphases.subset hzero) (by decide)
    · exact absurd ht (not_exited hphases t 1)

/- The coordinator stays where it is. -/
structure Quiet (s t : Process) : Prop where
  stage : t.stage = s.stage
  trace : t.trace = s.trace
  forceExitAt : t.forceExitAt = s.forceExitAt
  listening : t.server.listening = s.server.listening
  connections : s.server.listening = false → s.server.connections = 0 → t.server.connections = 0

theorem Quiet.refl (s : Process) : Quiet s s := ⟨rfl, rfl, rfl, rfl, fun _ h => h⟩

theorem quiet_system (s : Process) (system : System) (restoring : ℕ) :
    Quiet s { s with system := system, restoring := restoring } :=
  ⟨rfl, rfl, rfl, rfl, fun _ h => h⟩

theorem quiet_poll (s : Process) (turns : List Workers.Action) : Quiet s (s.poll turns) := by
  unfold poll
  split
  · exact quiet_system s _ _
  · exact .refl s

theorem Quiet.trans {s₁ s₂ s₃ : Process} (h : Quiet s₁ s₂) (h' : Quiet s₂ s₃) : Quiet s₁ s₃ where
  stage := h'.stage.trans h.stage
  trace := h'.trace.trans h.trace
  forceExitAt := h'.forceExitAt.trans h.forceExitAt
  listening := h'.listening.trans h.listening
  connections hl hc := h'.connections (h.listening.trans hl) (h.connections hl hc)

theorem quiet_goOn (s : Process) (system : System) (restoring : ℕ) (turns : List Workers.Action) :
    Quiet s ({ s with system := system, restoring := restoring }.goOn turns) :=
  (quiet_system s _ restoring).trans (quiet_poll _ turns)

theorem quiet_start (s : Process) (turns : List Workers.Action) : Quiet s (s.start turns) := by
  unfold start
  split
  · exact .refl s
  · split
    · exact quiet_system s _ _
    · exact quiet_goOn s s.system s.restoring turns

theorem quiet_restored (s : Process) (recovered : Option (List Job))
    (turns : List Workers.Action) : Quiet s (s.restored recovered turns) := by
  unfold restored
  split
  · exact .refl s
  · exact quiet_goOn s _ _ turns
  · exact quiet_goOn s _ _ turns

theorem Quiet.drained (h : Quiet s t) (hs : s.Drained) : t.Drained := by
  unfold Drained milestones at hs ⊢
  rw [h.trace, h.listening]
  intro hmem
  exact ⟨(hs hmem).1, h.connections (hs hmem).1 (hs hmem).2⟩

theorem Quiet.reached (h : Quiet s t) (hs : s.Reached) : t.Reached := by
  have hms : t.milestones = s.milestones := congrArg (List.map Prod.snd) h.trace
  unfold Reached at hs ⊢
  rw [h.stage]
  cases hstage : s.stage with
  | serving =>
    rw [hstage] at hs
    exact hms.trans hs
  | closingServer =>
    rw [hstage] at hs
    exact ⟨hms ▸ hs.1, h.listening.trans hs.2⟩
  | stoppingWorker startTime wakeAt =>
    rw [hstage] at hs
    exact ⟨hms ▸ hs.1, h.drained hs.2⟩
  | destroyingPool =>
    rw [hstage] at hs
    exact ⟨hms ▸ hs.1, h.drained hs.2.1, hms ▸ hs.2.2⟩
  | exited =>
    rw [hstage] at hs
    refine ⟨hms ▸ hs.order, fun hzero => h.drained (hs.drained (hms ▸ hzero)), fun t ht hpool => ?_⟩
    rw [h.forceExitAt]
    exact hs.forced t (h.trace ▸ ht) (hms ▸ hpool)

/- What a step is to the coordinator. -/
inductive Move (c : Setup) (s : Process) : Process → Prop where
  | quiet {t : Process} (h : Quiet s t) : Move c s t
  | begun (h : s.stage = .serving) :
    Move c s (closeServer c { s with forceExitAt := s.clock + c.shutdownTimeoutMs })
  | serverClosed (h : s.stage = .closingServer) (hnone : s.server.connections = 0) :
    Move c s (s.stopWorker c)
  | woke {startTime wakeAt : ℕ} (h : s.stage = .stoppingWorker startTime wakeAt) :
    Move c s (s.look c startTime)
  | poolDestroyed (h : s.stage = .destroyingPool) (rejected : Bool) :
    Move c s (s.exit (if rejected then 1 else 0))
  | forced (h : s.stage ≠ .serving) (h' : s.stage ≠ .exited) (hdue : s.forceExitAt ≤ s.clock) :
    Move c s (s.exit 1)

theorem step_move (c : Setup) (s : Process) (a : Action) : Move c s (s.step c a) := by
  unfold step
  split
  · exact .quiet (.refl s)
  · exact .quiet ⟨rfl, rfl, rfl, rfl, fun _ h => h⟩
  · exact .quiet ⟨rfl, rfl, rfl, rfl, fun _ h => h⟩
  · unfold executeShutdown
    split
    · exact .quiet (.refl s)
    · next hidle =>
      refine .begun ?_
      unfold isShuttingDown at hidle
      split at hidle
      · next hstage => exact hstage
      · cases hidle rfl
  · split
    · next hlistening =>
      refine .quiet ⟨rfl, rfl, rfl, rfl, fun hl _ => ?_⟩
      rw [hl] at hlistening
      cases hlistening
    · exact .quiet (.refl s)
  · refine .quiet ⟨rfl, rfl, rfl, rfl, fun _ h => ?_⟩
    dsimp only
    omega
  · next hstage =>
    split
    · next hnone => exact .serverClosed hstage hnone
    · exact .quiet (.refl s)
  · next hstage =>
    split
    · exact .woke hstage
    · exact .quiet (.refl s)
  · next hstage => exact .poolDestroyed hstage _
  · exact .quiet (.refl s)
  · next hexited hserving =>
    split
    · next hdue => exact .forced hserving hexited hdue
    · exact .quiet (.refl s)
  · exact .quiet (quiet_start s _)
  · exact .quiet (quiet_restored s _ _)
  · exact .quiet (quiet_poll s _)
  · split
    · exact .quiet (quiet_system s _ _)
    · exact .quiet (.refl s)
  · exact .quiet (.refl s)

theorem reached_step (hs : s.Reached) (a : Action) : (s.step c a).Reached := by
  have hmove := step_move c s a
  generalize s.step c a = t at hmove ⊢
  cases hmove with
  | quiet h => exact h.reached hs
  | begun h =>
    simp only [Reached, h] at hs
    exact reached_closeServer hs
  | serverClosed h hnone =>
    simp only [Reached, h] at hs
    exact reached_stopWorker hs.1 fun _ => ⟨hs.2, hnone⟩
  | woke h =>
    simp only [Reached, h] at hs
    exact reached_look hs.1 hs.2 _
  | poolDestroyed h rejected =>
    simp only [Reached, h] at hs
    cases rejected with
    | false => exact reached_exit hs.1 hs.2.1
    | true => exact reached_exit_one hs.1 (.inl hs.2.2)
  | forced h h' hdue => exact reached_exit_one (hs.phases h') (.inr hdue)

/-- Over every run, of any signals, registrations, connections, calls of the worker, timers and
answers of the pool. -/
theorem shutdown_orderly (c : Setup) (system : System) (as : List Action) :
    Orderly (run (step c) (initial system) as) := by
  have hend := run_keeps (step c) Reached (fun s a hs => reached_step hs a) (initial system) as rfl
  exact hend.orderly

end Order

/-! ### The jobs in hand -/

/-- The worker takes no job out, and none was in hand when the pool was told to close unless
`stop` had waited its ten seconds. -/
structure Stopped (c : Setup) (s : Process) : Prop where
  still : s.system.worker.isRunning = false
  idle : ∀ t, (t, .destroyPool) ∈ s.trace → s.system.worker.running = [] ∨
    ∃ t₀, (t₀, .stopWorker) ∈ s.trace ∧ t₀ + 10000 ≤ t ∧ s.forceExitAt ≤ t₀ + c.shutdownTimeoutMs

def Counted (system : System) : Prop :=
  system.worker.processingCount = system.worker.running.length

/- What the drain of the worker rests on. -/
structure Draining (c : Setup) (s : Process) : Prop where
  reached : s.Reached
  counted : Counted s.system
  due : s.forceExitAt ≤ s.clock + c.shutdownTimeoutMs
  waiting : ∀ startTime wakeAt, s.stage = .stoppingWorker startTime wakeAt →
    (startTime, .stopWorker) ∈ s.trace ∧ s.forceExitAt ≤ startTime + c.shutdownTimeoutMs
  stopped : .stopWorker ∈ s.milestones → Stopped c s

section Drain
variable {c : Setup} {s : Process}

variable {t : Process} {starts : Prop}

theorem mem_milestones {m : Milestone} : m ∈ s.milestones ↔ ∃ t, (t, m) ∈ s.trace := by
  unfold milestones
  rw [List.mem_map]
  constructor
  · rintro ⟨⟨t, m'⟩, hmem, rfl⟩
    exact ⟨t, hmem⟩
  · rintro ⟨t, hmem⟩
    exact ⟨(t, m), hmem, rfl⟩

theorem Draining.quiet (h : Draining c s) {t : Process} (hquiet : Quiet s t)
    (hcounted : Counted t.system) (hclock : s.clock ≤ t.clock)
    (hstill : .stopWorker ∈ s.milestones → t.system.worker.isRunning = false ∧
      (s.system.worker.running = [] → t.system.worker.running = [])) : Draining c t := by
  have hms : t.milestones = s.milestones := congrArg (List.map Prod.snd) hquiet.trace
  refine ⟨hquiet.reached h.reached, hcounted, ?_, fun startTime wakeAt hstage => ?_, fun hmem => ?_⟩
  · rw [hquiet.forceExitAt]
    exact h.due.trans (Nat.add_le_add_right hclock _)
  · rw [hquiet.trace, hquiet.forceExitAt]
    exact h.waiting startTime wakeAt (hquiet.stage.symm.trans hstage)
  · rw [hms] at hmem
    obtain ⟨hrunning, hempty⟩ := hstill hmem
    refine ⟨hrunning, fun t₁ ht₁ => ?_⟩
    rw [hquiet.trace, hquiet.forceExitAt] at *
    exact ((h.stopped hmem).idle t₁ ht₁).imp_left hempty

/- Nothing changes for the worker when another milestone is reached. -/
theorem Stopped.reach (h : Stopped c s) {m : Milestone} (hpool : m ≠ .destroyPool)
    (stage : Stage) : Stopped c (s.reach m stage) := by
  refine ⟨h.still, fun t ht => ?_⟩
  rcases List.mem_append.mp ht with ht | ht
  · refine (h.idle t ht).imp_right ?_
    rintro ⟨t₀, ht₀, hlong⟩
    exact ⟨t₀, List.mem_append_left _ ht₀, hlong⟩
  · cases List.mem_singleton.mp ht
    exact absurd rfl hpool

theorem mem_milestones_reach {m m' : Milestone} {stage : Stage}
    (hmem : m' ∈ (s.reach m stage).milestones) (hne : m' ≠ m) : m' ∈ s.milestones := by
  rw [milestones_reach] at hmem
  rcases List.mem_append.mp hmem with hmem | hmem
  · exact hmem
  · exact absurd (List.mem_singleton.mp hmem) hne

theorem draining_exit (hreached : (s.exit code).Reached) (hcounted : Counted s.system)
    (hdue : s.forceExitAt ≤ s.clock + c.shutdownTimeoutMs)
    (hstopped : .stopWorker ∈ s.milestones → Stopped c s) : Draining c (s.exit code) := by
  refine ⟨hreached, hcounted, hdue, ?_, fun hmem => ?_⟩
  · rintro startTime wakeAt ⟨⟩
  · exact (hstopped (mem_milestones_reach hmem (by rintro ⟨⟩))).reach (by rintro ⟨⟩) _

/- What is true of the worker when the pool is told to close. -/
theorem draining_destroyPool (hreached : (s.destroyPool c).Reached) (hcounted : Counted s.system)
    (hdue : s.forceExitAt ≤ s.clock + c.shutdownTimeoutMs)
    (hfirst : .destroyPool ∉ s.milestones)
    (hstopped : .stopWorker ∈ s.milestones → s.system.worker.isRunning = false ∧
      (s.system.worker.running = [] ∨ ∃ t₀, (t₀, .stopWorker) ∈ s.trace ∧ t₀ + 10000 ≤ s.clock ∧
        s.forceExitAt ≤ t₀ + c.shutdownTimeoutMs)) : Draining c (s.destroyPool c) := by
  have hnone : ∀ t, (t, Milestone.destroyPool) ∉ s.trace :=
    fun t ht => hfirst (mem_milestones.mpr ⟨t, ht⟩)
  unfold destroyPool at hreached ⊢
  split at hreached
  · next hpool =>
    rw [if_pos hpool]
    refine ⟨hreached, hcounted, hdue, ?_, fun hmem => ?_⟩
    · rintro startTime wakeAt ⟨⟩
    · obtain ⟨hstill, hidle⟩ := hstopped (mem_milestones_reach hmem (by rintro ⟨⟩))
      refine ⟨hstill, fun t ht => ?_⟩
      rcases List.mem_append.mp ht with ht | ht
      · exact absurd ht (hnone t)
      · cases List.mem_singleton.mp ht
        refine hidle.imp_right ?_
        rintro ⟨t₀, ht₀, hlong⟩
        exact ⟨t₀, List.mem_append_left _ ht₀, hlong⟩
  · next hpool =>
    rw [if_neg hpool]
    refine draining_exit hreached hcounted hdue fun hmem => ⟨(hstopped hmem).1, fun t ht => ?_⟩
    exact absurd ht (hnone t)

/- The loop of `stop` goes on, or it has ended. -/
theorem draining_look {startTime : ℕ} (hreached : (s.look c startTime).Reached)
    (hcounted : Counted s.system) (hdue : s.forceExitAt ≤ s.clock + c.shutdownTimeoutMs)
    (hfirst : .destroyPool ∉ s.milestones) (hstart : (startTime, .stopWorker) ∈ s.trace)
    (hforce : s.forceExitAt ≤ startTime + c.shutdownTimeoutMs)
    (hstill : s.system.worker.isRunning = false) : Draining c (s.look c startTime) := by
  unfold look at hreached ⊢
  split at hreached
  · next hbusy =>
    rw [if_pos hbusy]
    refine ⟨hreached, hcounted, hdue, ?_, fun _ => ⟨hstill, fun t ht => ?_⟩⟩
    · rintro _ _ ⟨⟩
      exact ⟨hstart, hforce⟩
    · exact absurd (mem_milestones.mpr ⟨t, ht⟩) hfirst
  · next hover =>
    rw [if_neg hover]
    refine draining_destroyPool hreached hcounted hdue hfirst fun _ => ⟨hstill, ?_⟩
    by_cases hempty : s.system.worker.running = []
    · exact .inl hempty
    · have hpos := List.length_pos_of_ne_nil hempty
      rw [← hcounted] at hpos
      exact .inr ⟨startTime, hstart, by omega, hforce⟩

theorem draining_stopWorker (hreached : (s.stopWorker c).Reached) (hcounted : Counted s.system)
    (hdue : s.forceExitAt ≤ s.clock + c.shutdownTimeoutMs)
    (hphases : s.milestones.Sublist [.closeServer]) : Draining c (s.stopWorker c) := by
  unfold stopWorker at hreached ⊢
  split at hreached
  · next hworker =>
    rw [if_pos hworker]
    refine draining_look hreached hcounted hdue ?_ ?_ hdue rfl
    · intro hmem
      rw [milestones_reach] at hmem
      rcases List.mem_append.mp hmem with hmem | hmem
      · exact absurd (hphases.subset hmem) (by decide)
      · cases List.mem_singleton.mp hmem
    · exact List.mem_append_right _ (List.mem_singleton_self _)
  · next hworker =>
    rw [if_neg hworker]
    refine draining_destroyPool hreached hcounted hdue (fun hmem => ?_) fun hmem => ?_
    · exact absurd (hphases.subset hmem) (by decide)
    · exact absurd (hphases.subset hmem) (by decide)

theorem draining_closeServer (hfirst : s.milestones = []) (hcounted : Counted s.system)
    (hdue : s.forceExitAt ≤ s.clock + c.shutdownTimeoutMs) : Draining c (s.closeServer c) := by
  have hreached := reached_closeServer (c := c) hfirst
  unfold closeServer at hreached ⊢
  split at hreached
  · next hserver =>
    rw [if_pos hserver]
    refine ⟨hreached, hcounted, hdue, ?_, fun hmem => ?_⟩
    · rintro startTime wakeAt ⟨⟩
    · rw [milestones_reach] at hmem
      rcases List.mem_append.mp hmem with hmem | hmem
      · exact absurd (hfirst ▸ hmem : _ ∈ ([] : List Milestone)) (List.not_mem_nil)
      · cases List.mem_singleton.mp hmem
  · next hserver =>
    rw [if_neg hserver]
    refine draining_stopWorker hreached hcounted hdue ?_
    rw [hfirst]
    exact List.nil_sublist _

theorem Draining.move (h : Draining c s) {t : Process} (hmove : Move c s t) (hreached : t.Reached) :
    Quiet s t ∨ Draining c t := by
  have hbefore := h.reached
  cases hmove with
  | quiet hquiet => exact .inl hquiet
  | begun hstage =>
    simp only [Reached, hstage] at hbefore
    exact .inr (draining_closeServer hbefore h.counted (le_refl _))
  | serverClosed hstage hnone =>
    simp only [Reached, hstage] at hbefore
    exact .inr (draining_stopWorker hreached h.counted h.due hbefore.1)
  | woke hstage =>
    simp only [Reached, hstage] at hbefore
    obtain ⟨hstart, hforce⟩ := h.waiting _ _ hstage
    have hstopped := h.stopped (mem_milestones.mpr ⟨_, hstart⟩)
    refine .inr (draining_look hreached h.counted h.due (fun hmem => ?_) hstart hforce hstopped.still)
    exact absurd (hbefore.1.subset hmem) (by decide)
  | poolDestroyed hstage rejected => exact .inr (draining_exit hreached h.counted h.due h.stopped)
  | forced hserving hexited hdue => exact .inr (draining_exit hreached h.counted h.due h.stopped)

end Drain

end Process

end Liquifact.Workers.Shutdown
