import Liquifact.Lib.Fallible
import Liquifact.Lib.JsValue
import Liquifact.Lib.OrdMap
import Mathlib.Data.List.Perm.Subperm

/-!
# The in-memory job queue (`src/workers/jobQueue.js`)

`JobQueue` with its job map, the main queue and the retry queue: `JOB_STATUS` (10-16),
`enqueue` (50-82), `dequeue` (88-121), `ack` (127-136), `cancel` (143-145), `retry`
(153-170), `getJob` (173-175), `clear` (193-199), `restoreFromPersistence` (209-229)
and `_isReadyToProcess` (233-239).

`Date.now()` is read by the caller's clock: an operation that reads it once takes the
reading as an argument, `dequeue` takes the whole sequence of readings. The calls made
on the persistence adapter are fire-and-forget; `issue` is the guarded call, and
`issued` lists them in the order issued, each with the job as it was at the call.
-/

namespace Liquifact.Workers
open Liquifact.Lib

inductive JobStatus where
  | pending
  | processing
  | completed
  | failed
  | retrying
  deriving DecidableEq

def JobStatus.text : JobStatus → String
  | pending => "pending"
  | processing => "processing"
  | completed => "completed"
  | failed => "failed"
  | retrying => "retrying"

structure Job where
  id : String
  type : String
  payload : Json
  status : JobStatus
  priority : JsNumber
  delayMs : Numeric
  createdAt : Numeric
  startedAt : Option ℕ
  completedAt : Option ℕ
  attempts : ℕ
  lastError : Option String

inductive AdapterCall where
  | persistJob (job : Job)
  | updateJobStatus (job : Job)
  | ackJob (jobId : String) (ackedAt : ℕ)

/- The adapter, as far as the queue's own behaviour depends on it. -/
structure JobPersistence where
  maxRecoveryRows : ℕ

structure QueueOptions where
  maxRetries : Option JsNumber
  maxQueueSize : Option ℕ
  persistence : Option JobPersistence

structure JobQueue where
  maxRetries : JsNumber
  maxQueueSize : ℕ
  jobs : OrdMap String Job
  queue : List String
  retryQueue : List String
  persistence : Option JobPersistence
  issued : List AdapterCall

structure EnqueueOptions where
  priority : JsNumber
  delayMs : JsNumber

namespace JobQueue

/-- The constructor (`jobQueue.js:25-39`). It reads `maxRetries` and `maxQueueSize`
of its options; no statement of it assigns `_persistence`. -/
def new (o : QueueOptions) : JobQueue where
  maxRetries := JsNumber.min (o.maxRetries.getD (.fin 3)) (.fin 10)
  maxQueueSize := match o.maxQueueSize with
    | none => 10000
    | some n => if n = 0 then 10000 else n
  jobs := .empty
  queue := []
  retryQueue := []
  persistence := none
  issued := []

def attach (q : JobQueue) (p : JobPersistence) : JobQueue := { q with persistence := some p }

def issue (q : JobQueue) (c : AdapterCall) : JobQueue :=
  if q.persistence.isSome then { q with issued := q.issued ++ [c] } else q

def newJob (jobId : String) (now : ℕ) (type : String) (payload : Json) (o : EnqueueOptions) :
    Job where
  id := jobId
  type := type
  payload := payload
  status := .pending
  priority := o.priority.orZero
  delayMs := .number o.delayMs.orZero
  createdAt := .number (.ofNat now)
  startedAt := none
  completedAt := none
  attempts := 0
  lastError := none

/-- `enqueue` (`jobQueue.js:50-82`). `jobId` is the fresh `job-<hex>` identifier;
`payload` is the value, or the message with which `JSON.stringify` refuses it. -/
def enqueue (q : JobQueue) (jobId : String) (now : ℕ) (type : String)
    (payload : Except String Json) (o : EnqueueOptions) : Except String (String × JobQueue) := do
  require (trim type ≠ "") "Job type must be a non-empty string"
  let body ← payload.mapError fun m => "Job payload must be JSON-serializable: " ++ m
  require (q.queue.length + q.retryQueue.length < q.maxQueueSize)
    ("Queue is full (max " ++ toString q.maxQueueSize ++ " jobs)")
  let job := newJob jobId now type body o
  let q' := { q with jobs := q.jobs.set jobId job, queue := q.queue ++ [jobId] }
  .ok (jobId, q'.issue (.persistJob job))

def isReadyToProcess (job : Job) (now : ℕ) : Bool :=
  if job.status ≠ .pending ∧ job.status ≠ .retrying then false
  else if job.delayMs.isNumber then JsNumber.le job.delayMs.toNumber (.ofNat now)
  else job.delayMs.isZero

def started (job : Job) (now : ℕ) : Job :=
  { job with status := .processing, startedAt := some now, attempts := job.attempts + 1 }

def handOut (q : JobQueue) (jobId : String) (job : Job) (now : ℕ) : Option Job × JobQueue :=
  (some (started job now),
    { q with jobs := q.jobs.set jobId (started job now) }.issue
      (.updateJobStatus (started job now)))

/-- The loop over the main queue (`jobQueue.js:105-118`), one identifier an
iteration; the list is the queue at the head of the iteration and `clock i` the
next reading. It ends with the ready record and the index of its reading, or with
an empty queue; the outer `none` means that it has not ended within `fuel` iterations. -/
def scanQueue (jobs : OrdMap String Job) (clock : ℕ → ℕ) :
    ℕ → ℕ → List String → Option (Option (String × Job × ℕ) × List String)
  | 0, _, _ => none
  | _ + 1, _, [] => some (none, [])
  | fuel + 1, i, jobId :: rest =>
    match jobs.get jobId with
    | none => scanQueue jobs clock fuel i rest
    | some job =>
      if isReadyToProcess job (clock i) then some (some (jobId, job, i), rest)
      else if JsNumber.lt (.fin 0) job.delayMs.toNumber then
        scanQueue jobs clock fuel (i + 1) (rest ++ [jobId])
      else scanQueue jobs clock fuel (i + 1) rest

def dequeueMain (q : JobQueue) (clock : ℕ → ℕ) (fuel i : ℕ) : Option (Option Job × JobQueue) :=
  match scanQueue q.jobs clock fuel i q.queue with
  | none => none
  | some (none, rest) => some (none, { q with queue := rest })
  | some (some (jobId, job, k), rest) =>
    some ({ q with queue := rest }.handOut jobId job (clock (k + 1)))

/-- `dequeue` (`jobQueue.js:88-121`): the head of the retry queue first. -/
def dequeue (q : JobQueue) (clock : ℕ → ℕ) (fuel : ℕ) : Option (Option Job × JobQueue) :=
  match q.retryQueue with
  | [] => dequeueMain q clock fuel 0
  | jobId :: rest =>
    match q.jobs.get jobId with
    | none => dequeueMain { q with retryQueue := rest } clock fuel 0
    | some job =>
      if isReadyToProcess job (clock 0) then
        some ({ q with retryQueue := rest }.handOut jobId job (clock 1))
      else dequeueMain { q with retryQueue := rest ++ [jobId] } clock fuel 1

def ack (q : JobQueue) (jobId : String) (now : ℕ) : Except String JobQueue := do
  let job ← expect ("Job " ++ jobId ++ " not found") (q.jobs.get jobId)
  require (job.status = .processing)
    ("Cannot ack job " ++ jobId ++ ": status is " ++ job.status.text ++ ", expected processing")
  let job' : Job := { job with status := .completed, completedAt := some now }
  .ok ({ q with jobs := q.jobs.set jobId job' }.issue (.ackJob jobId now))

/-- `cancel` (`jobQueue.js:143-145`): the record only, not the queues. -/
def cancel (q : JobQueue) (jobId : String) : Bool × JobQueue :=
  (q.jobs.has jobId, { q with jobs := q.jobs.delete jobId })

def backoff (attempts : ℕ) : ℚ := min ((2 : ℚ) ^ ((attempts : ℤ) - 1) * 1000) 60000

def retried (q : JobQueue) (job : Job) (error : Thrown) (now : ℕ) : Job :=
  if JsNumber.le (.ofNat job.attempts) q.maxRetries then
    { job with
      lastError := some error.describe
      status := .retrying
      delayMs := .number (.fin (now + backoff job.attempts)) }
  else
    { job with lastError := some error.describe, status := .failed, completedAt := some now }

def retry (q : JobQueue) (jobId : String) (error : Thrown) (now : ℕ) :
    Except String JobQueue := do
  let job ← expect ("Job " ++ jobId ++ " not found") (q.jobs.get jobId)
  let job' := q.retried job error now
  let q' := { q with
    jobs := q.jobs.set jobId job'
    retryQueue := if JsNumber.le (.ofNat job.attempts) q.maxRetries
      then q.retryQueue ++ [jobId] else q.retryQueue }
  .ok (q'.issue (.updateJobStatus job'))

def getJob (q : JobQueue) (jobId : String) : Option Job := q.jobs.get jobId

def clear (q : JobQueue) : ℕ × JobQueue :=
  (q.jobs.size, { q with jobs := .empty, queue := [], retryQueue := [] })

def restoreLoop : List Job → JobQueue → ℕ × JobQueue
  | [], q => (0, q)
  | job :: rest, q =>
    if q.jobs.has job.id then restoreLoop rest q
    else if q.maxQueueSize ≤ q.queue.length + q.retryQueue.length then (0, q)
    else
      let q' := { q with
        jobs := q.jobs.set job.id job
        queue := if 0 < job.attempts then q.queue else q.queue ++ [job.id]
        retryQueue := if 0 < job.attempts then q.retryQueue ++ [job.id] else q.retryQueue }
      let r := restoreLoop rest q'
      (r.1 + 1, r.2)

/-- `restoreFromPersistence` (`jobQueue.js:209-229`); `recovered` is what the
adapter's `recoverUnackedJobs` returned. -/
def restoreFromPersistence (q : JobQueue) (recovered : List Job) : ℕ × JobQueue :=
  if q.persistence.isSome then restoreLoop recovered q else (0, q)

/-! ### What each operation does -/

section Spec
variable (q : JobQueue) (c : AdapterCall)

@[simp] theorem issue_jobs : (q.issue c).jobs = q.jobs := by
  unfold issue
  split <;> rfl

@[simp] theorem issue_queue : (q.issue c).queue = q.queue := by
  unfold issue
  split <;> rfl

@[simp] theorem issue_retryQueue : (q.issue c).retryQueue = q.retryQueue := by
  unfold issue
  split <;> rfl

@[simp] theorem issue_maxRetries : (q.issue c).maxRetries = q.maxRetries := by
  unfold issue
  split <;> rfl

@[simp] theorem issue_persistence : (q.issue c).persistence = q.persistence := by
  unfold issue
  split <;> rfl

end Spec

theorem enqueue_ok {q q' : JobQueue} {jobId j : String} {now : ℕ} {type : String}
    {payload : Except String Json} {o : EnqueueOptions}
    (h : q.enqueue jobId now type payload o = .ok (j, q')) :
    ∃ body, payload = .ok body ∧ j = jobId ∧
      q' = { q with
        jobs := q.jobs.set jobId (newJob jobId now type body o)
        queue := q.queue ++ [jobId] }.issue (.persistJob (newJob jobId now type body o)) := by
  unfold enqueue at h
  obtain ⟨_, _, h⟩ := bind_ok h
  obtain ⟨body, hbody, h⟩ := bind_ok h
  obtain ⟨_, _, h⟩ := bind_ok h
  cases h
  cases payload with
  | error m => cases hbody
  | ok b =>
    cases hbody
    exact ⟨body, rfl, rfl, rfl⟩

theorem ack_ok {q q' : JobQueue} {jobId : String} {now : ℕ} (h : q.ack jobId now = .ok q') :
    ∃ job, q.jobs.get jobId = some job ∧ job.status = .processing ∧
      q' = { q with
        jobs := q.jobs.set jobId { job with status := .completed, completedAt := some now } }.issue
          (.ackJob jobId now) := by
  unfold ack at h
  obtain ⟨job, hget, h⟩ := bind_ok h
  obtain ⟨_, hst, h⟩ := bind_ok h
  cases h
  exact ⟨job, expect_ok hget, require_ok hst, rfl⟩

theorem retry_ok {q q' : JobQueue} {jobId : String} {error : Thrown} {now : ℕ}
    (h : q.retry jobId error now = .ok q') :
    ∃ job, q.jobs.get jobId = some job ∧
      q' = { q with
        jobs := q.jobs.set jobId (q.retried job error now)
        retryQueue := if JsNumber.le (.ofNat job.attempts) q.maxRetries
          then q.retryQueue ++ [jobId] else q.retryQueue }.issue
            (.updateJobStatus (q.retried job error now)) := by
  unfold retry at h
  obtain ⟨job, hget, h⟩ := bind_ok h
  cases h
  exact ⟨job, expect_ok hget, rfl⟩

theorem retry_error {q : JobQueue} {jobId m : String} {error : Thrown} {now : ℕ}
    (h : q.retry jobId error now = .error m) : q.jobs.get jobId = none := by
  cases hget : q.jobs.get jobId with
  | none => rfl
  | some job =>
    simp only [retry, hget, expect] at h
    cases h

theorem ack_error {q : JobQueue} {jobId m : String} {now : ℕ} {job : Job}
    (h : q.ack jobId now = .error m) (hget : q.jobs.get jobId = some job) :
    job.status ≠ .processing := by
  intro hs
  simp [ack, hget, expect, require, hs, bind, Except.bind] at h

theorem cancel_getJob {q : JobQueue} {x y : String} {job : Job}
    (h : (q.cancel x).2.getJob y = some job) : q.getJob y = some job := by
  have hget : (q.jobs.delete x).get y = some job := h
  rw [OrdMap.get_delete] at hget
  split at hget
  · cases hget
  · exact hget

theorem retried_id (q : JobQueue) (job : Job) (error : Thrown) (now : ℕ) :
    (q.retried job error now).id = job.id := by
  unfold retried
  split <;> rfl

theorem retried_attempts (q : JobQueue) (job : Job) (error : Thrown) (now : ℕ) :
    (q.retried job error now).attempts = job.attempts := by
  unfold retried
  split <;> rfl

/- The main loop never drops `job`: whenever it is not ready its delay is positive. -/
def Keeps (job : Job) : Prop :=
  ∀ now, isReadyToProcess job now = true ∨ JsNumber.lt (.fin 0) job.delayMs.toNumber = true

/- The loop takes at most one identifier out, loses none that it must keep, and
hands out a recorded, ready job. -/
theorem scanQueue_spec {jobs : OrdMap String Job} {clock : ℕ → ℕ} {fuel i : ℕ}
    {ids rest : List String} {found : Option (String × Job × ℕ)}
    (h : scanQueue jobs clock fuel i ids = some (found, rest)) :
    ((found.map Prod.fst).toList ++ rest).Subperm ids ∧
    (∀ x ∈ ids, found.map Prod.fst ≠ some x → ∀ job, jobs.get x = some job → Keeps job →
      x ∈ rest) ∧
    ∀ x job k, found = some (x, job, k) → jobs.get x = some job ∧
      isReadyToProcess job (clock k) = true ∧ i ≤ k := by
  induction fuel generalizing i ids with
  | zero => cases h
  | succ fuel ih =>
    cases ids with
    | nil =>
      simp only [scanQueue, Option.some.injEq, Prod.mk.injEq] at h
      obtain ⟨rfl, rfl⟩ := h
      refine ⟨List.Subperm.refl _, ?_, ?_⟩
      · intro x hx
        cases hx
      · intro x job k hf
        cases hf
    | cons jobId tail =>
      simp only [scanQueue] at h
      cases hget : jobs.get jobId with
      | none =>
        -- cancelled meanwhile: the identifier is shifted off and forgotten
        simp only [hget] at h
        obtain ⟨hsub, hkeep, hfound⟩ := ih h
        refine ⟨hsub.trans (List.sublist_cons_self ..).subperm, ?_, hfound⟩
        intro x hx hne job hj hk
        rcases List.mem_cons.mp hx with hxe | hxt
        · rw [hxe, hget] at hj
          cases hj
        · exact hkeep x hxt hne job hj hk
      | some job =>
        simp only [hget] at h
        split at h
        · rename_i hready
          simp only [Option.some.injEq, Prod.mk.injEq] at h
          obtain ⟨rfl, rfl⟩ := h
          refine ⟨List.Subperm.refl _, ?_, ?_⟩
          · intro x hx hne _ _ _
            rcases List.mem_cons.mp hx with hxe | hxt
            · exact absurd (by rw [hxe]; rfl) hne
            · exact hxt
          · intro x job' k hf
            cases hf
            exact ⟨hget, hready, le_rfl⟩
        · rename_i hnot
          split at h
          · -- pushed back: the rest of the loop runs on a rotation of the queue
            obtain ⟨hsub, hkeep, hfound⟩ := ih h
            have hperm : (tail ++ [jobId]).Perm (jobId :: tail) := List.perm_append_singleton ..
            refine ⟨hsub.trans hperm.subperm, ?_, ?_⟩
            · intro x hx
              exact hkeep x (hperm.mem_iff.mpr hx)
            · intro x job' k hf
              obtain ⟨hj, hr, hk⟩ := hfound x job' k hf
              exact ⟨hj, hr, by omega⟩
          · -- dropped although recorded; `Keeps` excludes this branch
            rename_i hdelay
            obtain ⟨hsub, hkeep, hfound⟩ := ih h
            refine ⟨hsub.trans (List.sublist_cons_self ..).subperm, ?_, ?_⟩
            · intro x hx hne job' hj hk
              rcases List.mem_cons.mp hx with hxe | hxt
              · rw [hxe, hget] at hj
                cases hj
                rcases hk (clock i) with hr | hd
                · exact absurd hr hnot
                · exact absurd hd hdelay
              · exact hkeep x hxt hne job' hj hk
            · intro x job' k hf
              obtain ⟨hj, hr, hk⟩ := hfound x job' k hf
              exact ⟨hj, hr, by omega⟩

/-- What a `dequeue` that returned did: which identifier it handed out, at which
reading of the clock, and where the other identifiers stand. -/
structure Dequeued (q : JobQueue) (clock : ℕ → ℕ) (handed : Option String) (r : Option Job)
    (q' : JobQueue) : Prop where
  places : (handed.toList ++ (q'.queue ++ q'.retryQueue)).Subperm (q.queue ++ q.retryQueue)
  main_sub : q'.queue ⊆ q.queue
  retry_sub : q'.retryQueue ⊆ q.retryQueue
  main_keeps : ∀ x ∈ q.queue, handed ≠ some x → ∀ job, q.jobs.get x = some job → Keeps job →
    x ∈ q'.queue
  retry_keeps : ∀ x ∈ q.retryQueue, handed ≠ some x → ∀ job, q.jobs.get x = some job →
    x ∈ q'.retryQueue
  none_eq : handed = none → r = none ∧
    q' = { q with queue := q'.queue, retryQueue := q'.retryQueue }
  some_eq : ∀ x, handed = some x → ∃ job k, q.jobs.get x = some job ∧
    isReadyToProcess job (clock k) = true ∧
    (r, q') = { q with queue := q'.queue, retryQueue := q'.retryQueue }.handOut x job
      (clock (k + 1))

theorem Dequeued.of_some {q q' : JobQueue} {clock : ℕ → ℕ} {x : String} {r : Option Job}
    (h : Dequeued q clock (some x) r q') :
    ∃ job k, q.jobs.get x = some job ∧ isReadyToProcess job (clock k) = true ∧
      r = some (started job (clock (k + 1))) ∧
      q' = { q with
        jobs := q.jobs.set x (started job (clock (k + 1)))
        queue := q'.queue
        retryQueue := q'.retryQueue }.issue (.updateJobStatus (started job (clock (k + 1)))) := by
  obtain ⟨job, k, hget, hready, hout⟩ := h.some_eq x rfl
  exact ⟨job, k, hget, hready, congrArg Prod.fst hout, congrArg Prod.snd hout⟩

theorem handOut_queue (q : JobQueue) (x : String) (job : Job) (now : ℕ) :
    (q.handOut x job now).2.queue = q.queue := by
  simp [handOut]

theorem handOut_retryQueue (q : JobQueue) (x : String) (job : Job) (now : ℕ) :
    (q.handOut x job now).2.retryQueue = q.retryQueue := by
  simp [handOut]

/- The main loop under any retry queue `rq` that the first part of `dequeue` leaves. -/
theorem dequeueMain_spec {clock : ℕ → ℕ} {fuel i : ℕ} (q : JobQueue) {q' : JobQueue}
    (rq : List String) {r : Option Job}
    (h : dequeueMain { q with retryQueue := rq } clock fuel i = some (r, q'))
    (hsub : rq.Subperm q.retryQueue)
    (hkeeps : ∀ x ∈ q.retryQueue, ∀ job, q.jobs.get x = some job → x ∈ rq) :
    ∃ handed, Dequeued q clock handed r q' := by
  unfold dequeueMain at h
  cases hscan : scanQueue q.jobs clock fuel i q.queue with
  | none =>
    simp only [hscan] at h
    cases h
  | some out =>
    obtain ⟨found, rest⟩ := out
    obtain ⟨hperm, hmain, hfound⟩ := scanQueue_spec hscan
    have hall : ((found.map Prod.fst).toList ++ (rest ++ rq)).Subperm (q.queue ++ q.retryQueue) := by
      rw [← List.append_assoc]
      exact hperm.append hsub
    have hrest : rest ⊆ q.queue := fun x hx => hperm.subset (List.mem_append_right _ hx)
    cases found with
    | none =>
      simp only [hscan, Option.some.injEq, Prod.mk.injEq] at h
      obtain ⟨rfl, rfl⟩ := h
      exact ⟨none, hall, hrest, hsub.subset, hmain, fun x hx _ => hkeeps x hx,
        fun _ => ⟨rfl, rfl⟩, fun x hx => by cases hx⟩
    | some f =>
      obtain ⟨jobId, job, k⟩ := f
      obtain ⟨hget, hready, _⟩ := hfound jobId job k rfl
      simp only [hscan, Option.some.injEq] at h
      have hq' := (congrArg Prod.snd h).symm
      have hqq : q'.queue = rest := (congrArg JobQueue.queue hq').trans (handOut_queue ..)
      have hrr : q'.retryQueue = rq := (congrArg JobQueue.retryQueue hq').trans
        (handOut_retryQueue ..)
      rw [← hqq, ← hrr] at hall
      rw [← hqq] at hrest hmain
      rw [← hrr] at hsub hkeeps
      refine ⟨some jobId, hall, hrest, hsub.subset, hmain, fun x hx _ => hkeeps x hx, ?_, ?_⟩
      · intro hx
        cases hx
      · intro x hx
        cases hx
        exact ⟨job, k, hget, hready, by rw [hqq, hrr]; exact h.symm⟩

theorem dequeue_spec {clock : ℕ → ℕ} {fuel : ℕ} {q q' : JobQueue} {r : Option Job}
    (h : q.dequeue clock fuel = some (r, q')) : ∃ handed, Dequeued q clock handed r q' := by
  unfold dequeue at h
  cases hrq : q.retryQueue with
  | nil =>
    simp only [hrq] at h
    exact dequeueMain_spec q q.retryQueue h (List.Subperm.refl _)
      (fun x hx _ _ => hx)
  | cons jobId rest =>
    simp only [hrq] at h
    cases hget : q.jobs.get jobId with
    | none =>
      simp only [hget] at h
      apply dequeueMain_spec q rest h
      · rw [hrq]
        exact (List.sublist_cons_self ..).subperm
      · intro x hx job hj
        rw [hrq] at hx
        rcases List.mem_cons.mp hx with hxe | hxt
        · rw [hxe, hget] at hj
          cases hj
        · exact hxt
    | some job =>
      simp only [hget] at h
      split at h
      · rename_i hready
        have hh := (Option.some.inj h).symm
        have hq' := congrArg Prod.snd hh
        have hqq : q'.queue = q.queue := (congrArg JobQueue.queue hq').trans (handOut_queue ..)
        have hrr : q'.retryQueue = rest := (congrArg JobQueue.retryQueue hq').trans
          (handOut_retryQueue ..)
        refine ⟨some jobId, ?_, ?_, ?_, ?_, ?_, ?_, ?_⟩
        · rw [hqq, hrr, hrq]
          have hmid : (jobId :: (q.queue ++ rest)).Perm (q.queue ++ jobId :: rest) :=
            List.perm_middle.symm
          exact hmid.subperm
        · rw [hqq]
          exact fun _ hx => hx
        · rw [hrr, hrq]
          exact fun x hx => List.mem_cons_of_mem _ hx
        · intro x hx _ _ _ _
          rw [hqq]
          exact hx
        · intro x hx hne _ _
          rw [hrq] at hx
          rw [hrr]
          exact (List.mem_cons.mp hx).resolve_left fun he => hne (by rw [he])
        · intro hx
          cases hx
        · intro x hx
          cases hx
          exact ⟨job, 0, hget, hready, by rw [hqq, hrr]; exact hh⟩
      · apply dequeueMain_spec q (rest ++ [jobId]) h
        · rw [hrq]
          exact (List.perm_append_singleton ..).subperm
        · intro x hx _ _
          rw [hrq] at hx
          exact (List.perm_append_singleton ..).mem_iff.mpr hx

theorem dequeue_none_ok {clock : ℕ → ℕ} {fuel : ℕ} {q q' : JobQueue}
    (h : q.dequeue clock fuel = some (none, q')) :
    q' = { q with queue := q'.queue, retryQueue := q'.retryQueue } := by
  obtain ⟨handed, hspec⟩ := dequeue_spec h
  cases handed with
  | none => exact (hspec.none_eq rfl).2
  | some x =>
    obtain ⟨_, _, _, _, hr, _⟩ := hspec.of_some
    cases hr

theorem dequeue_some_ok {clock : ℕ → ℕ} {fuel : ℕ} {q q' : JobQueue} {job : Job}
    (h : q.dequeue clock fuel = some (some job, q')) :
    ∃ x job₀ k, q.jobs.get x = some job₀ ∧ isReadyToProcess job₀ (clock k) = true ∧
      job = started job₀ (clock (k + 1)) ∧ q'.jobs = q.jobs.set x job ∧
      q'.maxRetries = q.maxRetries ∧ x ∈ q.queue ++ q.retryQueue := by
  obtain ⟨handed, hspec⟩ := dequeue_spec h
  cases handed with
  | none => cases (hspec.none_eq rfl).1
  | some x =>
    obtain ⟨job₀, k, hget, hready, hr, hq'⟩ := hspec.of_some
    have hjob := Option.some.inj hr
    have hx : x ∈ q.queue ++ q.retryQueue :=
      hspec.places.subset (List.mem_append_left _ (List.mem_singleton_self x))
    exact ⟨x, job₀, k, hget, hready, hjob, by rw [hq', issue_jobs, hjob],
      by rw [hq', issue_maxRetries], hx⟩

end JobQueue

end Liquifact.Workers
