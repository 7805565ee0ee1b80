import Liquifact.Lib.Run
import Liquifact.Workers.PayloadFingerprint
import Liquifact.Workers.Worker

/-!
# The durable queue (`src/workers/jobQueue.js:314-506`)

`DurableJobQueue.enqueue` (344-366) puts the job in memory first, then sanitises the payload
(269-291), computes its fingerprint (299-302) and awaits the insert of the row. Nothing takes
the job out again when one of these fails. `SECRET_KEY_PATTERN` and `REDACTED`, which the
sanitiser names, are not declared in the module. While the insert is awaited the worker and
other callers go on.

The updates that `ack`, `retry` and `dequeue` issue to the table do not touch the memory and
are left out; `restore` names an undeclared constant too and rejects before it reads a row.
-/

namespace Liquifact.Workers
open Liquifact.Lib

/-! ### Sanitising and the fingerprint -/

/-- A payload: `undefined` is every value for which `JSON.stringify` has no text (also a
function or a symbol), `refused` one on which it throws (a BigInt, a cycle). -/
inductive Payload where
  | undefined
  | refused (message : String)
  | null
  | bool (b : Bool)
  | num (x : JsNumber)
  | str (s : String)
  | arr (items : List Payload)
  | obj (members : List (String × Payload))

namespace Payload

mutual

/- The value whose text `JSON.stringify` gives; `none` is undefined. -/
def json : Payload → Except String (Option Json)
  | .undefined => .ok none
  | .refused message => .error message
  | .null => .ok (some .null)
  | .bool b => .ok (some (.bool b))
  | .num x => .ok (some (.num x))
  | .str s => .ok (some (.str s))
  | .arr items => (jsonItems items).map fun vs => some (.arr vs)
  | .obj members => (jsonMembers members).map fun ms => some (.obj ms)

def jsonItems : List Payload → Except String (List Json)
  | [] => .ok []
  | p :: rest => do
    let v ← json p
    let vs ← jsonItems rest
    .ok (v.getD .null :: vs)

def jsonMembers : List (String × Payload) → Except String (List (String × Json))
  | [] => .ok []
  | (key, p) :: rest => do
    let v ← json p
    let ms ← jsonMembers rest
    .ok ((v.map fun v => (key, v)).toList ++ ms)

end

mutual

/- No object in the payload has a member. -/
def memberless : Payload → Bool
  | .arr items => memberlessItems items
  | .obj members => members.isEmpty
  | _ => true

def memberlessItems : List Payload → Bool
  | [] => true
  | p :: rest => p.memberless && memberlessItems rest

end

/- What the queue records; undefined stands there as null, nothing in the queue reads it. -/
def recorded (p : Payload) : Except String Json := p.json.map fun v => v.getD .null

end Payload

/- Reading a name that is not declared throws. -/
def undeclared {α : Type} (name : String) : Except String α := .error (name ++ " is not defined")

section Sanitise
variable (secretKeyPattern : Except String (String → Bool)) (redacted : Except String Payload)

mutual

def sanitizeWith : Payload → Except String Payload
  | .arr items => (sanitizeItems items).map .arr
  | .obj members => (sanitizeMembers members).map .obj
  | p => .ok p

def sanitizeItems : List Payload → Except String (List Payload)
  | [] => .ok []
  | p :: rest => do
    let p' ← sanitizeWith p
    let rest' ← sanitizeItems rest
    .ok (p' :: rest')

def sanitizeMembers : List (String × Payload) → Except String (List (String × Payload))
  | [] => .ok []
  | (key, p) :: rest => do
    let test ← secretKeyPattern
    let p' ← if test key then redacted else sanitizeWith p
    let rest' ← sanitizeMembers rest
    .ok ((key, p') :: rest')

end

end Sanitise

/-- `sanitizePayloadForPersistence` with the two names as the module has them. -/
def sanitizePayloadForPersistence (p : Payload) : Except String Payload :=
  sanitizeWith (undeclared "SECRET_KEY_PATTERN") (undeclared "REDACTED") p

/- `update` refuses undefined. -/
def Payload.computePayloadFingerprint (sha256 : String → String) (p : Payload) :
    Except String String := do
  let v ← p.json
  let canonical ← expect "The \"data\" argument must be of type string. Received undefined" v
  .ok (Workers.computePayloadFingerprint sha256 canonical)

/-! ### One call -/

structure TxRow where
  id : String
  jobType : String
  payloadFingerprint : String
  payload : Option String
  status : JobStatus
  attempts : ℕ
  priority : JsNumber
  delayUntilMs : Numeric
  lastError : Option String
  createdAt : Numeric

/- The row that the call inserts, once the job is in memory. -/
def txRow (sha256 : String → String) (job : Job) (payload : Payload) : Except String TxRow := do
  let sanitized ← sanitizePayloadForPersistence payload
  let fingerprint ← sanitized.computePayloadFingerprint sha256
  let body ← sanitized.json
  .ok {
    id := job.id
    jobType := job.type
    payloadFingerprint := fingerprint
    payload := body.map Json.stringify
    status := job.status
    attempts := job.attempts
    priority := job.priority
    delayUntilMs := job.delayMs
    lastError := job.lastError
    createdAt := job.createdAt }

/- How a call stands at its first `await`, or at its end if it throws before. -/
inductive Started where
  | refused (message : String)
  | threw (message : String) (q : JobQueue)
  | inserting (row : TxRow) (q : JobQueue)

/-- `DurableJobQueue.enqueue` up to the awaited insert. -/
def durableEnqueue (sha256 : String → String) (q : JobQueue) (jobId : String) (now : ℕ)
    (type : String) (payload : Payload) (o : EnqueueOptions) : Started :=
  match q.enqueue jobId now type payload.recorded o with
  | .error message => .refused message
  | .ok (_, q') =>
    match expect "Cannot read properties of null (reading 'status')" (q'.getJob jobId) with
    | .error message => .threw message q'
    | .ok job =>
      match txRow sha256 job payload with
      | .error message => .threw message q'
      | .ok row => .inserting row q'

/-! ### Calls, inserts and the worker in any order -/

/- The in-memory queue. -/
structure Memory where
  jobs : OrdMap String Job
  queue : List String
  retryQueue : List String

def JobQueue.memory (q : JobQueue) : Memory := ⟨q.jobs, q.queue, q.retryQueue⟩

/- `inserting` are the rows of the calls that wait, `rejected` the identifiers of the jobs
whose call has rejected, `executed` those `dequeue` has handed out, and `ended` the memory
before and after each call that rejected without waiting. -/
structure Submissions where
  queue : JobQueue
  table : List TxRow
  inserting : List TxRow
  drawn : List String
  rejected : List String
  executed : List String
  ended : List (Memory × Memory)

inductive SubmissionStep where
  | enqueue (jobId : String) (now : ℕ) (type : String) (payload : Payload) (options : EnqueueOptions)
  | insertSettles (jobId : String) (accepted : Bool)
  | dequeue (clock : ℕ → ℕ) (fuel : ℕ)
  | ack (jobId : String) (now : ℕ)
  | retry (jobId : String) (error : Thrown) (now : ℕ)
  | cancel (jobId : String)
  | clear

namespace Submissions

def initial (q : JobQueue) : Submissions := ⟨q, [], [], [], [], [], []⟩

def settle (s : Submissions) (row : TxRow) (accepted : Bool) : Submissions :=
  let rest := { s with inserting := s.inserting.filter fun r => decide (r.id ≠ row.id) }
  if accepted then { rest with table := s.table ++ [row] }
  else { rest with rejected := row.id :: s.rejected }

def step (sha256 : String → String) (s : Submissions) : SubmissionStep → Submissions
  | .enqueue jobId now type payload o =>
    match durableEnqueue sha256 s.queue jobId now type payload o with
    | .refused _ => { s with ended := s.ended ++ [(s.queue.memory, s.queue.memory)] }
    | .threw _ q => { s with
        queue := q
        drawn := jobId :: s.drawn
        rejected := jobId :: s.rejected
        ended := s.ended ++ [(s.queue.memory, q.memory)] }
    | .inserting row q => { s with
        queue := q
        drawn := jobId :: s.drawn
        inserting := s.inserting ++ [row] }
  | .insertSettles jobId accepted =>
    match s.inserting.find? fun r => decide (r.id = jobId) with
    | none => s
    | some row => s.settle row accepted
  | .dequeue clock fuel =>
    match s.queue.dequeue clock fuel with
    | none => s
    | some (r, q) => { s with queue := q, executed := s.executed ++ (r.map Job.id).toList }
  | .ack jobId now =>
    match s.queue.ack jobId now with
    | .ok q => { s with queue := q }
    | .error _ => s
  | .retry jobId error now =>
    match s.queue.retry jobId error now with
    | .ok q => { s with queue := q }
    | .error _ => s
  | .cancel jobId => { s with queue := (s.queue.cancel jobId).2 }
  | .clear => { s with queue := s.queue.clear.2 }

/- Identifiers are drawn once. -/
def Drawn (s : Submissions) : SubmissionStep → Prop
  | .enqueue jobId _ _ _ _ => jobId ∉ s.drawn
  | _ => True

def NoTrace (s : Submissions) (x : String) : Prop :=
  s.queue.jobs.get x = none ∧ x ∉ s.queue.queue ∧ x ∉ s.queue.retryQueue ∧ x ∉ s.executed

/-- Every call that rejected left the memory as it was if it did not wait, and no trace of
its job; the job is not executed. -/
structure Atomic (s : Submissions) : Prop where
  same : ∀ m ∈ s.ended, m.1 = m.2
  gone : ∀ x ∈ s.rejected, s.NoTrace x

/- `super.enqueue` throws before it touches the memory. -/
def Refuses (q : JobQueue) (type : String) (payload : Payload) : Prop :=
  trim type = "" ∨ (∃ m, payload.json = .error m) ∨
    q.maxQueueSize ≤ q.queue.length + q.retryQueue.length

/-- A call is refused before it touches the memory, or its payload is not undefined and has
no object with a member; an insert that fails is of a job that has left the memory meanwhile
without having been handed out. -/
def Storable (s : Submissions) : SubmissionStep → Prop
  | .enqueue _ _ type payload _ =>
      Refuses s.queue type payload ∨ (payload ≠ .undefined ∧ payload.memberless = true)
  | .insertSettles jobId false => ∀ row ∈ s.inserting, row.id = jobId → s.NoTrace jobId
  | _ => True

end Submissions

/-! ### Which payloads give a row -/

section Payloads

mutual

/- The first member of an object is the first thing that throws. -/
theorem sanitize_memberless (p : Payload) (h : p.memberless = true) :
    sanitizePayloadForPersistence p = .ok p := by
  unfold sanitizePayloadForPersistence
  cases p with
  | arr items =>
    rw [Payload.memberless] at h
    rw [sanitizeWith, sanitizeItems_memberless items h]
    rfl
  | obj members =>
    rw [Payload.memberless, List.isEmpty_iff] at h
    rw [h]
    rfl
  | _ => rfl

theorem sanitizeItems_memberless (items : List Payload) (h : Payload.memberlessItems items = true) :
    sanitizeItems (undeclared "SECRET_KEY_PATTERN") (undeclared "REDACTED") items = .ok items := by
  cases items with
  | nil => rfl
  | cons p rest =>
    rw [Payload.memberlessItems, Bool.and_eq_true] at h
    have hp := sanitize_memberless p h.1
    rw [sanitizePayloadForPersistence] at hp
    rw [sanitizeItems, hp, sanitizeItems_memberless rest h.2]
    rfl

end

mutual

theorem memberless_of_sanitize (p : Payload) {p' : Payload}
    (h : sanitizePayloadForPersistence p = .ok p') : p.memberless = true := by
  unfold sanitizePayloadForPersistence at h
  cases p with
  | arr items =>
    rw [sanitizeWith] at h
    obtain ⟨items', hitems, -⟩ := map_ok h
    exact memberless_of_sanitizeItems items hitems
  | obj members =>
    rw [sanitizeWith] at h
    obtain ⟨members', hmembers, -⟩ := map_ok h
    cases members with
    | nil => rfl
    | cons m rest =>
      rw [sanitizeMembers] at hmembers
      obtain ⟨_, hname, -⟩ := bind_ok hmembers
      cases hname
  | _ => rfl

theorem memberless_of_sanitizeItems (items : List Payload) {items' : List Payload}
    (h : sanitizeItems (undeclared "SECRET_KEY_PATTERN") (undeclared "REDACTED") items = .ok items') :
    Payload.memberlessItems items = true := by
  cases items with
  | nil => rfl
  | cons p rest =>
    rw [sanitizeItems] at h
    obtain ⟨p', hp, h⟩ := bind_ok h
    obtain ⟨rest', hrest, -⟩ := bind_ok h
    rw [Payload.memberlessItems, memberless_of_sanitize p hp, memberless_of_sanitizeItems rest hrest]
    rfl

end

theorem json_eq_none {p : Payload} (h : p.json = .ok none) : p = .undefined := by
  cases p with
  | undefined => rfl
  | arr items =>
    rw [Payload.json] at h
    obtain ⟨_, _, h⟩ := map_ok h
    cases h
  | obj members =>
    rw [Payload.json] at h
    obtain ⟨_, _, h⟩ := map_ok h
    cases h
  | _ => simp [Payload.json] at h

variable {sha256 : String → String} {job : Job} {p : Payload}

theorem txRow_ok {row : TxRow} (h : txRow sha256 job p = .ok row) :
    row.id = job.id ∧ p ≠ .undefined ∧ p.memberless = true := by
  unfold txRow at h
  obtain ⟨p', hsanitized, h⟩ := bind_ok h
  obtain ⟨fingerprint, hprint, h⟩ := bind_ok h
  obtain ⟨body, _, hrow⟩ := bind_ok h
  have hless := memberless_of_sanitize p hsanitized
  rw [sanitize_memberless p hless] at hsanitized
  cases hsanitized
  cases hrow
  refine ⟨rfl, ?_, hless⟩
  rintro rfl
  cases hprint

theorem txRow_of_memberless {v : Option Json} (hjson : p.json = .ok v) (hne : p ≠ .undefined)
    (hless : p.memberless = true) : ∃ row, txRow sha256 job p = .ok row := by
  cases v with
  | none => exact absurd (json_eq_none hjson) hne
  | some v =>
    simp only [txRow, sanitize_memberless p hless, Payload.computePayloadFingerprint, hjson, expect, bind,
      Except.bind]
    exact ⟨_, rfl⟩

end Payloads

/-! ### What a call does -/

theorem JobQueue.enqueue_error_iff {q : JobQueue} {jobId : String} {now : ℕ} {type : String}
    {payload : Except String Json} {o : EnqueueOptions} :
    (∃ m, q.enqueue jobId now type payload o = .error m) ↔
      trim type = "" ∨ (∃ m, payload = .error m) ∨
        q.maxQueueSize ≤ q.queue.length + q.retryQueue.length := by
  unfold JobQueue.enqueue
  by_cases htype : trim type = ""
  · simp [require, htype, bind, Except.bind]
  · cases payload with
    | error m => simp [require, htype, bind, Except.bind, Except.mapError]
    | ok body =>
      by_cases hfull : q.queue.length + q.retryQueue.length < q.maxQueueSize
      · simp [require, htype, hfull, bind, Except.bind, Except.mapError]
      · simp [require, htype, hfull, bind, Except.bind, Except.mapError, not_lt.mp hfull]

namespace Submissions

theorem refuses_iff {q : JobQueue} {jobId : String} {now : ℕ} {type : String} {payload : Payload}
    {o : EnqueueOptions} :
    (∃ m, q.enqueue jobId now type payload.recorded o = .error m) ↔ Refuses q type payload := by
  rw [JobQueue.enqueue_error_iff, Refuses]
  have hjson : (∃ m, payload.recorded = .error m) ↔ ∃ m, payload.json = .error m := by
    unfold Payload.recorded
    cases payload.json <;> simp [Except.map]
  rw [hjson]

/- The job that a call puts in memory, whatever becomes of the row. -/
def Put (q : JobQueue) (jobId : String) (q' : JobQueue) : Prop :=
  ∃ job : Job, job.id = jobId ∧ q'.jobs = q.jobs.set jobId job ∧ q'.queue = q.queue ++ [jobId] ∧
    q'.retryQueue = q.retryQueue

inductive Called (q : JobQueue) (jobId type : String) (payload : Payload) : Started → Prop where
  | refused (message : String) (h : Refuses q type payload) :
      Called q jobId type payload (.refused message)
  | threw (message : String) (q' : JobQueue) (h : ¬ Refuses q type payload) (hput : Put q jobId q')
      (hp : ¬ (payload ≠ .undefined ∧ payload.memberless = true)) :
      Called q jobId type payload (.threw message q')
  | inserting (row : TxRow) (q' : JobQueue) (h : ¬ Refuses q type payload) (hput : Put q jobId q')
      (hp : payload ≠ .undefined ∧ payload.memberless = true) (hid : row.id = jobId) :
      Called q jobId type payload (.inserting row q')

theorem durableEnqueue_called (sha256 : String → String) (q : JobQueue) (jobId : String) (now : ℕ)
    (type : String) (payload : Payload) (o : EnqueueOptions) :
    Called q jobId type payload (durableEnqueue sha256 q jobId now type payload o) := by
  unfold durableEnqueue
  cases hcall : q.enqueue jobId now type payload.recorded o with
  | error m => exact .refused m (refuses_iff.mp ⟨m, hcall⟩)
  | ok out =>
    obtain ⟨j, q'⟩ := out
    obtain ⟨body, hbody, -, hq'⟩ := JobQueue.enqueue_ok hcall
    have hnot : ¬ Refuses q type payload := by
      intro hr
      obtain ⟨m, hm⟩ := refuses_iff.mpr hr
      rw [hcall] at hm
      cases hm
    have hput : Put q jobId q' := by
      refine ⟨JobQueue.newJob jobId now type body o, rfl, ?_, ?_, ?_⟩ <;> rw [hq'] <;> simp
    have hget : q'.getJob jobId = some (JobQueue.newJob jobId now type body o) := by
      rw [hq']
      simp [JobQueue.getJob]
    obtain ⟨v, hjson, -⟩ := map_ok hbody
    simp only [hget, expect]
    cases hrow : txRow sha256 (JobQueue.newJob jobId now type body o) payload with
    | error m =>
      refine .threw m q' hnot hput ?_
      rintro ⟨hne, hless⟩
      have hok : ∃ row, txRow sha256 (JobQueue.newJob jobId now type body o) payload = .ok row :=
        txRow_of_memberless hjson hne hless
      rw [hrow] at hok
      obtain ⟨row, hok⟩ := hok
      cases hok
    | ok row =>
      obtain ⟨hid, hp⟩ := txRow_ok hrow
      exact .inserting row q' hnot hput hp hid

/-! ### The other steps put nothing new in memory -/

/-- The step keeps the bookkeeping; what it leaves in memory or hands out was recorded or
queued before. -/
structure Moves (s s' : Submissions) : Prop where
  inserting : s'.inserting = s.inserting
  drawn : s'.drawn = s.drawn
  rejected : s'.rejected = s.rejected
  ended : s'.ended = s.ended
  jobs : ∀ x job', s'.queue.jobs.get x = some job' →
    ∃ job, s.queue.jobs.get x = some job ∧ job'.id = job.id
  queue : ∀ x ∈ s'.queue.queue, x ∈ s.queue.queue
  retryQueue : ∀ x ∈ s'.queue.retryQueue,
    x ∈ s.queue.retryQueue ∨ ∃ job, s.queue.jobs.get x = some job
  executed : ∀ x ∈ s'.executed, x ∈ s.executed ∨
    ∃ y job, s.queue.jobs.get y = some job ∧ job.id = x

theorem Moves.refl (s : Submissions) : Moves s s :=
  ⟨rfl, rfl, rfl, rfl, fun _ job h => ⟨job, h, rfl⟩, fun _ h => h, fun _ h => .inl h,
    fun _ h => .inl h⟩

section Moves
variable {s : Submissions} {q : JobQueue}

/- One record is rewritten, its identifier kept. -/
theorem moves_of_set {x : String} {job job' : Job} (hget : s.queue.jobs.get x = some job)
    (hid : job'.id = job.id) (hjobs : q.jobs = s.queue.jobs.set x job')
    (hqueue : ∀ y ∈ q.queue, y ∈ s.queue.queue)
    (hretry : ∀ y ∈ q.retryQueue, y ∈ s.queue.retryQueue ∨ y = x) (out : List String)
    (hout : ∀ y ∈ out, y = job.id) :
    Moves s { s with queue := q, executed := s.executed ++ out } := by
  refine ⟨rfl, rfl, rfl, rfl, ?_, hqueue, ?_, ?_⟩
  · intro y j hj
    simp only [hjobs, OrdMap.get_set] at hj
    split at hj
    · rename_i hxy
      cases hj
      exact ⟨job, hxy ▸ hget, hid⟩
    · exact ⟨j, hj, rfl⟩
  · intro y hy
    rcases hretry y hy with h | rfl
    · exact .inl h
    · exact .inr ⟨job, hget⟩
  · intro y hy
    rcases List.mem_append.mp hy with h | h
    · exact .inl h
    · exact .inr ⟨x, job, hget, (hout y h).symm⟩

theorem moves_dequeue {clock : ℕ → ℕ} {fuel : ℕ} {r : Option Job}
    (h : s.queue.dequeue clock fuel = some (r, q)) :
    Moves s { s with queue := q, executed := s.executed ++ (r.map Job.id).toList } := by
  obtain ⟨handed, hspec⟩ := JobQueue.dequeue_spec h
  cases handed with
  | none =>
    obtain ⟨hr, hq⟩ := hspec.none_eq rfl
    have hjobs : q.jobs = s.queue.jobs := by rw [hq]
    subst hr
    refine ⟨rfl, rfl, rfl, rfl, ?_, hspec.main_sub, fun x hx => .inl (hspec.retry_sub hx), ?_⟩
    · intro x job hj
      simp only [hjobs] at hj
      exact ⟨job, hj, rfl⟩
    · intro x hx
      simp only [Option.map_none, Option.toList_none, List.append_nil] at hx
      exact .inl hx
  | some x =>
    obtain ⟨job, k, hget, -, hr, hq⟩ := hspec.of_some
    have hjobs : q.jobs = s.queue.jobs.set x (JobQueue.started job (clock (k + 1))) := by
      rw [hq, JobQueue.issue_jobs]
    have hid : (JobQueue.started job (clock (k + 1))).id = job.id := rfl
    refine moves_of_set hget hid hjobs hspec.main_sub (fun y hy => .inl (hspec.retry_sub hy)) _ ?_
    intro y hy
    rw [hr] at hy
    exact List.mem_singleton.mp hy

theorem moves_ack {jobId : String} {now : ℕ} (h : s.queue.ack jobId now = .ok q) :
    Moves s { s with queue := q } := by
  obtain ⟨job, hget, -, hq⟩ := JobQueue.ack_ok h
  have hid : ({ job with status := .completed, completedAt := some now } : Job).id = job.id := rfl
  have hjobs := congrArg JobQueue.jobs hq
  have hqueue := congrArg JobQueue.queue hq
  have hretry := congrArg JobQueue.retryQueue hq
  rw [JobQueue.issue_jobs] at hjobs
  rw [JobQueue.issue_queue] at hqueue
  rw [JobQueue.issue_retryQueue] at hretry
  have hmoves := moves_of_set hget hid hjobs (fun y hy => hqueue ▸ hy)
    (fun y hy => .inl (hretry ▸ hy)) [] (fun y hy => by cases hy)
  rwa [List.append_nil] at hmoves

theorem moves_retry {jobId : String} {error : Thrown} {now : ℕ}
    (h : s.queue.retry jobId error now = .ok q) : Moves s { s with queue := q } := by
  obtain ⟨job, hget, hq⟩ := JobQueue.retry_ok h
  have hid := JobQueue.retried_id s.queue job error now
  have hjobs := congrArg JobQueue.jobs hq
  have hqueue := congrArg JobQueue.queue hq
  have hretry : ∀ y ∈ q.retryQueue, y ∈ s.queue.retryQueue ∨ y = jobId := by
    intro y hy
    rw [hq, JobQueue.issue_retryQueue] at hy
    split at hy
    · exact (List.mem_append.mp hy).imp id List.mem_singleton.mp
    · exact .inl hy
  rw [JobQueue.issue_jobs] at hjobs
  rw [JobQueue.issue_queue] at hqueue
  have hmoves := moves_of_set hget hid hjobs (fun y hy => hqueue ▸ hy) hretry []
    (fun y hy => by cases hy)
  rwa [List.append_nil] at hmoves

theorem moves_cancel (jobId : String) : Moves s { s with queue := (s.queue.cancel jobId).2 } := by
  refine ⟨rfl, rfl, rfl, rfl, ?_, fun _ h => h, fun _ h => .inl h, fun _ h => .inl h⟩
  intro x job hj
  exact ⟨job, JobQueue.cancel_getJob hj, rfl⟩

theorem moves_clear : Moves s { s with queue := s.queue.clear.2 } := by
  refine ⟨rfl, rfl, rfl, rfl, ?_, ?_, ?_, fun _ h => .inl h⟩
  · intro x job hj
    cases hj
  · intro x hx
    cases hx
  · intro x hx
    cases hx

end Moves

/-! ### Every run -/

/-- Besides the property: what the state speaks of are identifiers that have been drawn, and a
record stands under its own. -/
structure Books (s : Submissions) : Prop where
  atomic : s.Atomic
  ids : ∀ x job, s.queue.jobs.get x = some job → job.id = x ∧ x ∈ s.drawn
  queue : ∀ x ∈ s.queue.queue, x ∈ s.drawn
  retryQueue : ∀ x ∈ s.queue.retryQueue, x ∈ s.drawn
  executed : ∀ x ∈ s.executed, x ∈ s.drawn
  rejected : ∀ x ∈ s.rejected, x ∈ s.drawn
  inserting : ∀ row ∈ s.inserting, row.id ∈ s.drawn

section Steps
variable {s s' : Submissions}

theorem books_initial (o : QueueOptions) : Books (.initial (.new o)) where
  atomic := by
    constructor
    · intro m h
      cases h
    · intro x h
      cases h
  ids _ _ h := by cases h
  queue _ h := by cases h
  retryQueue _ h := by cases h
  executed _ h := by cases h
  rejected _ h := by cases h
  inserting _ h := by cases h

theorem Books.recorded (h : Books s) {x y : String} {job : Job}
    (hget : s.queue.jobs.get y = some job) (hid : job.id = x) : s.queue.jobs.get x = some job := by
  rw [← hid, (h.ids y job hget).1, hget]

theorem Moves.noTrace (hm : Moves s s') (h : Books s) {x : String} (hx : s.NoTrace x) :
    s'.NoTrace x := by
  obtain ⟨hjob, hqueue, hretry, hexec⟩ := hx
  refine ⟨?_, fun hm' => hqueue (hm.queue x hm'), ?_, ?_⟩
  · cases hget : s'.queue.jobs.get x with
    | none => rfl
    | some job' =>
      obtain ⟨job, hold, -⟩ := hm.jobs x job' hget
      rw [hjob] at hold
      cases hold
  · intro hx'
    rcases hm.retryQueue x hx' with hold | ⟨job, hold⟩
    · exact hretry hold
    · rw [hjob] at hold
      cases hold
  · intro hx'
    rcases hm.executed x hx' with hold | ⟨y, job, hold, hid⟩
    · exact hexec hold
    · rw [h.recorded hold hid] at hjob
      cases hjob

theorem Books.moves (h : Books s) (hm : Moves s s') : Books s' where
  atomic := by
    refine ⟨fun m hmem => h.atomic.same m (hm.ended ▸ hmem), fun x hx => ?_⟩
    rw [hm.rejected] at hx
    exact hm.noTrace h (h.atomic.gone x hx)
  ids x job' hget := by
    obtain ⟨job, hold, hid⟩ := hm.jobs x job' hget
    rw [hid, hm.drawn]
    exact h.ids x job hold
  queue x hx := hm.drawn ▸ h.queue x (hm.queue x hx)
  retryQueue x hx := by
    rw [hm.drawn]
    rcases hm.retryQueue x hx with hold | ⟨job, hold⟩
    · exact h.retryQueue x hold
    · exact (h.ids x job hold).2
  executed x hx := by
    rw [hm.drawn]
    rcases hm.executed x hx with hold | ⟨y, job, hold, hid⟩
    · exact h.executed x hold
    · exact (h.ids x job (h.recorded hold hid)).2
  rejected x hx := hm.drawn ▸ h.rejected x (hm.rejected ▸ hx)
  inserting row hrow := hm.drawn ▸ h.inserting row (hm.inserting ▸ hrow)

theorem books_settle_accepted (h : Books s) (row : TxRow) : Books (s.settle row true) where
  atomic := ⟨h.atomic.same, h.atomic.gone⟩
  ids := h.ids
  queue := h.queue
  retryQueue := h.retryQueue
  executed := h.executed
  rejected := h.rejected
  inserting r hr := h.inserting r (List.mem_of_mem_filter hr)

theorem books_settle_rejected (h : Books s) {row : TxRow} (hrow : row ∈ s.inserting)
    (hnone : s.NoTrace row.id) : Books (s.settle row false) where
  atomic := by
    refine ⟨h.atomic.same, fun x hx => ?_⟩
    rcases List.mem_cons.mp hx with rfl | hold
    · exact hnone
    · exact h.atomic.gone x hold
  ids := h.ids
  queue := h.queue
  retryQueue := h.retryQueue
  executed := h.executed
  rejected x hx := by
    rcases List.mem_cons.mp hx with rfl | hold
    · exact h.inserting row hrow
    · exact h.rejected x hold
  inserting r hr := h.inserting r (List.mem_of_mem_filter hr)

/- The rows of calls that wait are not of jobs whose call has rejected, so a call in memory
does not disturb `gone`. -/
theorem books_inserting (h : Books s) {jobId : String} {q' : JobQueue} {row : TxRow}
    (hfresh : jobId ∉ s.drawn) (hput : Put s.queue jobId q') (hid : row.id = jobId) :
    Books { s with queue := q', drawn := jobId :: s.drawn, inserting := s.inserting ++ [row] } := by
  obtain ⟨job, hjob, hjobs, hqueue, hretry⟩ := hput
  have hother : ∀ x ∈ s.rejected, x ≠ jobId := by
    rintro x hx rfl
    exact hfresh (h.rejected x hx)
  refine ⟨⟨h.atomic.same, fun x hx => ?_⟩, fun x job' hget => ?_, fun x hx => ?_, fun x hx => ?_,
    fun x hx => .tail _ (h.executed x hx), fun x hx => .tail _ (h.rejected x hx), fun r hr => ?_⟩
  · obtain ⟨hnone, hq, hr, he⟩ := h.atomic.gone x hx
    refine ⟨?_, ?_, ?_, he⟩
    · rw [hjobs, OrdMap.get_set_of_ne _ _ (hother x hx).symm]
      exact hnone
    · rw [hqueue, List.mem_append, List.mem_singleton]
      exact not_or.mpr ⟨hq, hother x hx⟩
    · rw [hretry]
      exact hr
  · simp only [hjobs, OrdMap.get_set] at hget
    split at hget
    · rename_i hx
      cases hget
      exact ⟨hjob.trans hx, hx ▸ List.mem_cons_self ..⟩
    · exact ⟨(h.ids x job' hget).1, .tail _ (h.ids x job' hget).2⟩
  · rw [hqueue, List.mem_append, List.mem_singleton] at hx
    rcases hx with hx | rfl
    · exact .tail _ (h.queue x hx)
    · exact List.mem_cons_self ..
  · rw [hretry] at hx
    exact .tail _ (h.retryQueue x hx)
  · rcases List.mem_append.mp hr with hr | hr
    · exact .tail _ (h.inserting r hr)
    · rw [List.mem_singleton.mp hr, hid]
      exact List.mem_cons_self ..

theorem put_changes (h : Books s) {jobId : String} {q' : JobQueue} (hfresh : jobId ∉ s.drawn)
    (hput : Put s.queue jobId q') : s.queue.memory ≠ q'.memory := by
  obtain ⟨job, -, hjobs, -, -⟩ := hput
  intro heq
  have hsame : s.queue.jobs = q'.jobs := congrArg Memory.jobs heq
  have hget : s.queue.jobs.get jobId = some job := by rw [hsame, hjobs, OrdMap.get_set_self]
  exact hfresh (h.ids jobId job hget).2

theorem books_ended (h : Books s) :
    Books { s with ended := s.ended ++ [(s.queue.memory, s.queue.memory)] } := by
  refine ⟨⟨fun m hm => ?_, h.atomic.gone⟩, h.ids, h.queue, h.retryQueue, h.executed, h.rejected,
    h.inserting⟩
  rcases List.mem_append.mp hm with hm | hm
  · exact h.atomic.same m hm
  · rw [List.mem_singleton.mp hm]

end Steps

section Run
variable {sha256 : String → String}

theorem step_moves (s : Submissions) (a : SubmissionStep)
    (ha : ∀ jobId now type payload o, a ≠ .enqueue jobId now type payload o)
    (hs : ∀ jobId accepted, a ≠ .insertSettles jobId accepted) : Moves s (s.step sha256 a) := by
  cases a with
  | enqueue jobId now type payload o => exact absurd rfl (ha jobId now type payload o)
  | insertSettles jobId accepted => exact absurd rfl (hs jobId accepted)
  | dequeue clock fuel =>
    simp only [step]
    cases hd : s.queue.dequeue clock fuel with
    | none => exact .refl s
    | some out => exact moves_dequeue hd
  | ack jobId now =>
    simp only [step]
    cases hack : s.queue.ack jobId now with
    | error m => exact .refl s
    | ok q => exact moves_ack hack
  | retry jobId error now =>
    simp only [step]
    cases hretry : s.queue.retry jobId error now with
    | error m => exact .refl s
    | ok q => exact moves_retry hretry
  | cancel jobId => exact moves_cancel jobId
  | clear => exact moves_clear

theorem step_books (s : Submissions) (a : SubmissionStep) (h : Books s) (hd : s.Drawn a)
    (hok : s.Storable a) : Books (s.step sha256 a) := by
  cases a with
  | enqueue jobId now type payload o =>
    simp only [step]
    have hcalled := durableEnqueue_called sha256 s.queue jobId now type payload o
    cases hstart : durableEnqueue sha256 s.queue jobId now type payload o with
    | refused m => exact books_ended h
    | threw m q' =>
      rw [hstart] at hcalled
      cases hcalled with
      | threw _ _ hnot hput hp => exact absurd hok (not_or.mpr ⟨hnot, hp⟩)
    | inserting row q' =>
      rw [hstart] at hcalled
      cases hcalled with
      | inserting _ _ hnot hput hp hid => exact books_inserting h hd hput hid
  | insertSettles jobId accepted =>
    simp only [step]
    cases hfind : s.inserting.find? fun r => decide (r.id = jobId) with
    | none => exact h
    | some row =>
      have hrow := List.mem_of_find?_eq_some hfind
      have hid : row.id = jobId := by simpa using List.find?_some hfind
      cases accepted with
      | true => exact books_settle_accepted h row
      | false => exact books_settle_rejected h hrow (hid ▸ hok row hrow hid)
  | _ => exact h.moves (step_moves s _ (by simp) (by simp))

theorem storable_of_atomic (s : Submissions) (a : SubmissionStep) (h : Books s) (hd : s.Drawn a)
    (hatomic : (s.step sha256 a).Atomic) : s.Storable a := by
  cases a with
  | enqueue jobId now type payload o =>
    simp only [step] at hatomic
    have hcalled := durableEnqueue_called sha256 s.queue jobId now type payload o
    cases hstart : durableEnqueue sha256 s.queue jobId now type payload o with
    | refused m =>
      rw [hstart] at hcalled
      cases hcalled with
      | refused _ hr => exact .inl hr
    | threw m q' =>
      rw [hstart] at hcalled hatomic
      cases hcalled with
      | threw _ _ hnot hput hp =>
        have hsame := hatomic.same (s.queue.memory, q'.memory) (by simp)
        exact absurd hsame (put_changes h hd hput)
    | inserting row q' =>
      rw [hstart] at hcalled
      cases hcalled with
      | inserting _ _ hnot hput hp hid => exact .inr hp
  | insertSettles jobId accepted =>
    cases accepted with
    | true => trivial
    | false =>
      intro row hrow hid
      simp only [step] at hatomic
      cases hfind : s.inserting.find? fun r => decide (r.id = jobId) with
      | none => simpa [hid] using List.find?_eq_none.mp hfind row hrow
      | some found =>
        rw [hfind] at hatomic
        have hfound : found.id = jobId := by simpa using List.find?_some hfind
        rw [← hfound]
        exact hatomic.gone found.id (List.mem_cons_self ..)
  | _ => trivial

/-- In every run, a call that rejects leaves the memory as it was and its job is never
executed, exactly when each call is refused at once or has a payload without object members,
and each insert that fails finds its job gone. -/
theorem rejected_leaves_memory_iff (o : QueueOptions) (as : List SubmissionStep)
    (hdrawn : Along (step sha256) Drawn (.initial (.new o)) as) :
    (∀ pre, pre <+: as → (run (step sha256) (.initial (.new o)) pre).Atomic) ↔
      Along (step sha256) Storable (.initial (.new o)) as :=
  forall_prefix_iff_along_of (step sha256) Drawn Storable Books Atomic (fun _ h => h.atomic)
    step_books storable_of_atomic _ as (books_initial o) hdrawn

end Run

def sampleQueueOptions : QueueOptions := ⟨some (.fin 0), none, none⟩

def sampleEnqueueOptions : EnqueueOptions := ⟨.fin 0, .fin 0⟩

/- A submission as `txSubmitter.js` makes it. -/
def sampleSubmission : SubmissionStep :=
  .enqueue "job-1" 5 "submit_soroban_tx" (.obj [("signedTransactionXdr", .str "AAAA")])
    sampleEnqueueOptions

theorem rejected_leaves_memory_sample :
    (run (step fun _ => "") (.initial (.new sampleQueueOptions))
      [.enqueue "job-1" 5 "submit_soroban_tx" (.str "AAAA") sampleEnqueueOptions,
        .insertSettles "job-1" true]).Atomic := by
  have hdrawn : Along (step fun _ => "") Drawn (.initial (.new sampleQueueOptions))
      [.enqueue "job-1" 5 "submit_soroban_tx" (.str "AAAA") sampleEnqueueOptions,
        .insertSettles "job-1" true] := ⟨by simp [Drawn, initial], trivial, trivial⟩
  refine (rejected_leaves_memory_iff sampleQueueOptions _ hdrawn).mpr ⟨.inr ⟨?_, rfl⟩, trivial, trivial⟩
    _ (List.prefix_refl _)
  intro h
  cases h

/- `SECRET_KEY_PATTERN` is not defined, the call rejects, and the worker gets the job. -/
theorem rejected_submission_executed : ¬ ∀ (sha256 : String → String) (o : QueueOptions)
    (as : List SubmissionStep), Along (step sha256) Drawn (.initial (.new o)) as →
    ∀ pre, pre <+: as → (run (step sha256) (.initial (.new o)) pre).Atomic := by
  intro h
  have hatomic := h (fun _ => "") sampleQueueOptions [sampleSubmission, .dequeue (fun _ => 6) 3]
    ⟨by simp [Drawn, initial, sampleSubmission], trivial, trivial⟩ _ (List.prefix_refl _)
  have hgone := (hatomic.gone "job-1" (by decide)).2.2.2
  exact hgone (by decide)

end Submissions

end Liquifact.Workers
