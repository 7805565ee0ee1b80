import Liquifact.Lib.Run
import Liquifact.Workers.JobQueue

/-!
# The background worker (`src/workers/worker.js`) and its environment

`registerHandler` (82-90), `start` (103-127, after crash recovery) and `stop` (138-157)
switch the worker. `_poll` (199-211) takes jobs out while fewer than `maxConcurrency`
are in hand; `_processJob` (220-244) runs the handler and then acknowledges or retries.
A handler is asynchronous: the identifiers whose handler has been called and has not
settled are `running`.

`System` adds what surrounds the worker: other callers of the same queue, who may
enqueue, cancel, clear and also take jobs out themselves (`held` are the jobs they
took and have neither acknowledged nor retried), the identifiers drawn so far, and
a log of executions.
-/

namespace Liquifact.Workers
open Liquifact.Lib

structure BackgroundWorker where
  jobQueue : JobQueue
  handlers : List String
  isRunning : Bool
  processingCount : ℕ
  maxConcurrency : ℕ
  running : List String

namespace BackgroundWorker

/-- The constructor (`worker.js:47-68`); concurrency is at least one. -/
def new (jobQueue : JobQueue) (maxConcurrency : Option ℕ) : BackgroundWorker where
  jobQueue := jobQueue
  handlers := []
  isRunning := false
  processingCount := 0
  maxConcurrency := max (maxConcurrency.getD 2) 1
  running := []

def registerHandler (w : BackgroundWorker) (jobType : String) : Except String BackgroundWorker := do
  require (trim jobType ≠ "") "Job type must be a non-empty string"
  .ok { w with handlers := if jobType ∈ w.handlers then w.handlers else w.handlers ++ [jobType] }

def start (w : BackgroundWorker) : Except String BackgroundWorker := do
  require (w.isRunning = false) "Worker is already running"
  require (w.handlers ≠ []) "No job handlers registered"
  .ok { w with isRunning := true }

/- `stop` (`worker.js:138-157`): no new jobs; running handlers go on. -/
def stop (w : BackgroundWorker) : BackgroundWorker := { w with isRunning := false }

def admitted (w : BackgroundWorker) (job : Job) : Except String Unit := do
  require (job.id ≠ "" ∧ job.type ≠ "") "Invalid job structure"
  require (job.type ∈ w.handlers) ("No handler for job type \"" ++ job.type ++ "\"")

/-- The `catch` clause of `_processJob`; an error of `retry` itself is only logged. -/
def retryJob (q : JobQueue) (jobId : String) (error : Thrown) (now : ℕ) : JobQueue :=
  match q.retry jobId error now with
  | .ok q' => q'
  | .error _ => q

/-- The end of `_processJob` (`worker.js:233-243`): `none` is a handler that resolved.
An error of `ack` falls into the same `catch`. -/
def conclude (q : JobQueue) (jobId : String) (outcome : Option Thrown) (now : ℕ) : JobQueue :=
  match outcome with
  | some error => retryJob q jobId error now
  | none =>
    match q.ack jobId now with
    | .ok q' => q'
    | .error m => retryJob q jobId (.ofMessage m) now

/-- One turn of the loop of `_poll` (`worker.js:199-211`) with the synchronous part of
`_processJob`: a job that is not admitted goes to `retry` at once. `isRunning` is tested
on entry only, so a handler that calls `stop` does not end a loop it was `entered` from. -/
def poll (w : BackgroundWorker) (entered : Bool) (clock : ℕ → ℕ) (fuel now : ℕ) :
    Option Job × BackgroundWorker :=
  if (entered = true ∨ w.isRunning = true) ∧ w.processingCount < w.maxConcurrency then
    match w.jobQueue.dequeue clock fuel with
    | none => (none, w)
    | some (none, q) => (none, { w with jobQueue := q })
    | some (some job, q) =>
      match w.admitted job with
      | .ok _ => (some job, { w with
          jobQueue := q
          processingCount := w.processingCount + 1
          running := w.running ++ [job.id] })
      | .error m => (some job, { w with
          jobQueue := retryJob q job.id (.ofMessage m) now
          processingCount := w.processingCount + 1 - 1 })
  else (none, w)

def settle (w : BackgroundWorker) (jobId : String) (outcome : Option Thrown) (now : ℕ) :
    BackgroundWorker :=
  { w with
    jobQueue := conclude w.jobQueue jobId outcome now
    processingCount := w.processingCount - 1
    running := w.running.erase jobId }

inductive Polled (w : BackgroundWorker) (clock : ℕ → ℕ) (fuel now : ℕ) :
    Option Job → BackgroundWorker → Prop where
  | idle : Polled w clock fuel now none w
  | empty {q : JobQueue} (hd : w.jobQueue.dequeue clock fuel = some (none, q)) :
      Polled w clock fuel now none { w with jobQueue := q }
  | admitted {q : JobQueue} {job : Job} (hc : w.processingCount < w.maxConcurrency)
      (hd : w.jobQueue.dequeue clock fuel = some (some job, q)) (ha : w.admitted job = .ok ()) :
      Polled w clock fuel now (some job) { w with
        jobQueue := q
        processingCount := w.processingCount + 1
        running := w.running ++ [job.id] }
  | refused {q : JobQueue} {job : Job} {m : String}
      (hd : w.jobQueue.dequeue clock fuel = some (some job, q)) (ha : w.admitted job = .error m) :
      Polled w clock fuel now (some job) { w with
        jobQueue := retryJob q job.id (.ofMessage m) now
        processingCount := w.processingCount + 1 - 1 }

theorem poll_polled (w : BackgroundWorker) (entered : Bool) (clock : ℕ → ℕ) (fuel now : ℕ) :
    Polled w clock fuel now (w.poll entered clock fuel now).1 (w.poll entered clock fuel now).2 := by
  unfold poll
  split
  · rename_i hgo
    cases hd : w.jobQueue.dequeue clock fuel with
    | none => exact .idle
    | some r =>
      obtain ⟨found, q⟩ := r
      cases found with
      | none => exact .empty hd
      | some job =>
        cases ha : w.admitted job with
        | ok u =>
          simp only [ha]
          exact .admitted hgo.2 hd ha
        | error m =>
          simp only [ha]
          exact .refused hd ha
  · exact .idle

end BackgroundWorker

/-- One entry of the execution log. The last three are of the other callers of the
queue: a job taken out, acknowledged, or given back with `retry`. -/
inductive Execution where
  | started (jobId : String)
  | handled (jobId : String)
  | succeeded (jobId : String)
  | failed (jobId : String)
  | taken (jobId : String)
  | acked (jobId : String)
  | returned (jobId : String)
  deriving DecidableEq

namespace Execution

def jobId : Execution → String
  | started x | handled x | succeeded x | failed x | taken x | acked x | returned x => x

def begins : Execution → Bool
  | started _ => true
  | _ => false

def ends : Execution → Bool
  | succeeded _ | failed _ => true
  | _ => false

def isHandled : Execution → Bool
  | handled _ => true
  | _ => false

def isExecution : Execution → Bool
  | started _ | taken _ => true
  | _ => false

def isFailure : Execution → Bool
  | failed _ | returned _ => true
  | _ => false

def isSuccess : Execution → Bool
  | succeeded _ | acked _ => true
  | _ => false

def tally (kind : Execution → Bool) (x : String) (log : List Execution) : ℕ :=
  log.countP fun e => kind e && e.jobId = x

@[simp] theorem tally_append (kind : Execution → Bool) (x : String) (l₁ l₂ : List Execution) :
    tally kind x (l₁ ++ l₂) = tally kind x l₁ + tally kind x l₂ :=
  List.countP_append

theorem tally_eq_zero {kind : Execution → Bool} {x : String} {log : List Execution}
    (h : ∀ e ∈ log, e.jobId ≠ x) : tally kind x log = 0 := by
  apply List.countP_eq_zero.mpr
  intro e he
  simp [h e he]

end Execution

structure System where
  worker : BackgroundWorker
  held : List String
  drawn : List String
  log : List Execution

inductive Action where
  | registerHandler (jobType : String)
  | start
  | stop
  | enqueue (jobId : String) (now : ℕ) (type : String) (payload : Except String Json)
      (options : EnqueueOptions)
  | poll (entered : Bool) (clock : ℕ → ℕ) (fuel now : ℕ)
  | settle (jobId : String) (outcome : Option Thrown) (now : ℕ)
  | cancel (jobId : String)
  | clear
  | dequeue (clock : ℕ → ℕ) (fuel : ℕ)
  | ack (jobId : String) (now : ℕ)
  | retry (jobId : String) (error : Thrown) (now : ℕ)

/- The reading of the clock that a `retry` made by the action would take. -/
def Action.reading : Action → ℕ
  | poll _ _ _ now | settle _ _ now | retry _ _ now => now
  | _ => 0

namespace System

def initial (w : BackgroundWorker) : System := ⟨w, [], [], []⟩

abbrev queueOf (s : System) : JobQueue := s.worker.jobQueue

def withQueue (s : System) (q : JobQueue) : System :=
  { s with worker := { s.worker with jobQueue := q } }

def started (w : BackgroundWorker) (job : Job) : List Execution :=
  match w.admitted job with
  | .ok _ => [.started job.id, .handled job.id]
  | .error _ => [.started job.id, .failed job.id]

def step (s : System) : Action → System
  | .registerHandler t =>
    match s.worker.registerHandler t with
    | .ok w => { s with worker := w }
    | .error _ => s
  | .start =>
    match s.worker.start with
    | .ok w => { s with worker := w }
    | .error _ => s
  | .stop => { s with worker := s.worker.stop }
  | .enqueue jobId now type payload options =>
    match s.queueOf.enqueue jobId now type payload options with
    | .ok r => { s.withQueue r.2 with drawn := jobId :: s.drawn }
    | .error _ => s
  | .poll entered clock fuel now =>
    match s.worker.poll entered clock fuel now with
    | (none, w) => { s with worker := w }
    | (some job, w) => { s with worker := w, log := s.log ++ started s.worker job }
  | .settle jobId outcome now =>
    if jobId ∈ s.worker.running then
      { s with
        worker := s.worker.settle jobId outcome now
        log := s.log ++ [if outcome = none then .succeeded jobId else .failed jobId] }
    else s
  | .cancel jobId => s.withQueue (s.queueOf.cancel jobId).2
  | .clear => s.withQueue s.queueOf.clear.2
  | .dequeue clock fuel =>
    match s.queueOf.dequeue clock fuel with
    | none => s
    | some (none, q) => s.withQueue q
    | some (some job, q) =>
      { s.withQueue q with held := s.held ++ [job.id], log := s.log ++ [.taken job.id] }
  | .ack jobId now =>
    match s.queueOf.ack jobId now with
    | .ok q => { s.withQueue q with held := s.held.erase jobId, log := s.log ++ [.acked jobId] }
    | .error _ => s
  | .retry jobId error now =>
    match s.queueOf.retry jobId error now with
    | .ok q => { s.withQueue q with held := s.held.erase jobId, log := s.log ++ [.returned jobId] }
    | .error _ => s

/-- What the callers promise: an identifier is drawn once, and `ack` and `retry` are
called for a job the caller has in hand. -/
def Disciplined (s : System) : Action → Prop
  | .enqueue jobId _ _ _ _ => jobId ∉ s.drawn
  | .ack jobId _ => jobId ∈ s.held
  | .retry jobId _ _ => jobId ∈ s.held
  | _ => True

/-- What a step does: `still` is a refused call, an idle turn or a switch of the worker,
`emptied` a `dequeue` that found nothing ready. -/
inductive Effect (s : System) : Action → System → Prop where
  | still {a : Action} {w : BackgroundWorker} (hqueue : w.jobQueue = s.worker.jobQueue)
      (hcount : w.processingCount = s.worker.processingCount)
      (hmax : w.maxConcurrency = s.worker.maxConcurrency)
      (hrunning : w.running = s.worker.running) : Effect s a { s with worker := w }
  | enqueued {jobId j type : String} {now : ℕ} {payload : Except String Json}
      {options : EnqueueOptions} {q : JobQueue}
      (he : s.queueOf.enqueue jobId now type payload options = .ok (j, q)) :
      Effect s (.enqueue jobId now type payload options)
        { s.withQueue q with drawn := jobId :: s.drawn }
  | emptied {a : Action} {clock : ℕ → ℕ} {fuel : ℕ} {q : JobQueue}
      (hd : s.queueOf.dequeue clock fuel = some (none, q)) : Effect s a (s.withQueue q)
  | admitted {entered : Bool} {clock : ℕ → ℕ} {fuel now : ℕ} {q : JobQueue} {job : Job}
      (hroom : s.worker.processingCount < s.worker.maxConcurrency)
      (hd : s.queueOf.dequeue clock fuel = some (some job, q)) :
      Effect s (.poll entered clock fuel now) { s with
        worker := { s.worker with
          jobQueue := q
          processingCount := s.worker.processingCount + 1
          running := s.worker.running ++ [job.id] }
        log := s.log ++ [.started job.id, .handled job.id] }
  | turnedAway {entered : Bool} {clock : ℕ → ℕ} {fuel now : ℕ} {q : JobQueue} {job : Job}
      {m : String}
      (hd : s.queueOf.dequeue clock fuel = some (some job, q)) :
      Effect s (.poll entered clock fuel now) { s with
        worker := { s.worker with
          jobQueue := BackgroundWorker.retryJob q job.id (.ofMessage m) now }
        log := s.log ++ [.started job.id, .failed job.id] }
  | settled {jobId : String} {outcome : Option Thrown} {now : ℕ}
      (hrun : jobId ∈ s.worker.running) :
      Effect s (.settle jobId outcome now) { s with
        worker := s.worker.settle jobId outcome now
        log := s.log ++ [if outcome = none then .succeeded jobId else .failed jobId] }
  | cancelled {jobId : String} :
      Effect s (.cancel jobId) (s.withQueue (s.queueOf.cancel jobId).2)
  | cleared : Effect s .clear (s.withQueue s.queueOf.clear.2)
  | taken {clock : ℕ → ℕ} {fuel : ℕ} {q : JobQueue} {job : Job}
      (hd : s.queueOf.dequeue clock fuel = some (some job, q)) :
      Effect s (.dequeue clock fuel)
        { s.withQueue q with held := s.held ++ [job.id], log := s.log ++ [.taken job.id] }
  | acked {jobId : String} {now : ℕ} {q : JobQueue} (hk : s.queueOf.ack jobId now = .ok q) :
      Effect s (.ack jobId now)
        { s.withQueue q with held := s.held.erase jobId, log := s.log ++ [.acked jobId] }
  | returned {jobId : String} {error : Thrown} {now : ℕ} {q : JobQueue}
      (hr : s.queueOf.retry jobId error now = .ok q) :
      Effect s (.retry jobId error now)
        { s.withQueue q with held := s.held.erase jobId, log := s.log ++ [.returned jobId] }

theorem effect_poll (s : System) (entered : Bool) (clock : ℕ → ℕ) (fuel now : ℕ) :
    Effect s (.poll entered clock fuel now) (s.step (.poll entered clock fuel now)) := by
  have hpolled := s.worker.poll_polled entered clock fuel now
  simp only [step]
  generalize s.worker.poll entered clock fuel now = out at hpolled ⊢
  obtain ⟨r, w⟩ := out
  cases hpolled with
  | idle => exact .still rfl rfl rfl rfl
  | empty hd => exact .emptied hd
  | admitted hc hd ha =>
    simp only [started, ha]
    exact .admitted hc hd
  | refused hd ha =>
    simp only [started, ha]
    exact .turnedAway hd

theorem step_effect (s : System) (a : Action) : Effect s a (s.step a) := by
  have hsame : Effect s a s := .still rfl rfl rfl rfl
  cases a with
  | registerHandler t =>
    simp only [step]
    cases hr : s.worker.registerHandler t with
    | error m => exact hsame
    | ok w =>
      obtain ⟨_, _, hw⟩ := bind_ok hr
      cases hw
      exact .still rfl rfl rfl rfl
  | start =>
    simp only [step]
    cases hs : s.worker.start with
    | error m => exact hsame
    | ok w =>
      obtain ⟨_, _, hw⟩ := bind_ok hs
      obtain ⟨_, _, hw⟩ := bind_ok hw
      cases hw
      exact .still rfl rfl rfl rfl
  | stop => exact .still rfl rfl rfl rfl
  | enqueue jobId now type payload options =>
    simp only [step]
    cases he : s.queueOf.enqueue jobId now type payload options with
    | error m => exact hsame
    | ok r => exact .enqueued he
  | poll entered clock fuel now => exact effect_poll s entered clock fuel now
  | settle jobId outcome now =>
    simp only [step]
    split
    · rename_i hrun
      exact .settled hrun
    · exact hsame
  | cancel jobId => exact .cancelled
  | clear => exact .cleared
  | dequeue clock fuel =>
    simp only [step]
    cases hd : s.queueOf.dequeue clock fuel with
    | none => exact hsame
    | some r =>
      obtain ⟨found, q⟩ := r
      cases found with
      | none => exact .emptied hd
      | some job => exact .taken hd
  | ack jobId now =>
    simp only [step]
    cases hk : s.queueOf.ack jobId now with
    | error m => exact hsame
    | ok q => exact .acked hk
  | retry jobId error now =>
    simp only [step]
    cases hr : s.queueOf.retry jobId error now with
    | error m => exact hsame
    | ok q => exact .returned hr

end System

end Liquifact.Workers
