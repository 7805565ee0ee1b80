import Liquifact.Workers.JobQueue

/-!
# The schedulers of delayed jobs

`scheduleReminder` and `cancelReminder` (`src/jobs/maturityReminders.js:233-269`),
`schedulePurge` (`src/jobs/idempotencyPurge.js:242-254`), `scheduleRetentionPurge` and
`cancelRetentionJob` (`src/jobs/retentionPurge.js:429-479`), each on a queue of its own
module. The delay handed to `enqueue` is relative to the call.
-/

namespace Liquifact.Jobs
open Liquifact.Lib Liquifact.Workers

inductive QueueName where
  | email
  | purge
  | retention
  deriving DecidableEq

structure JobExecution where
  tenantId : Json
  policyId : Json
  dryRun : Json
  payload : Json

structure Schedules where
  queues : QueueName → JobQueue
  invoiceJobs : OrdMap String String
  jobExecutions : OrdMap String JobExecution

/-- A `Date`: its `getTime()` and its `toISOString()`, which refuses an invalid date. -/
structure JsDate where
  getTime : JsNumber
  toISOString : Except String String

structure Invoice where
  id : String
  customer : Json
  amount : Json

structure RetentionOptions where
  tenantId : Json
  policyId : Json
  dryRun : Option Json
  retentionDays : Json
  piiFields : Option (List String)
  performedBy : Json
  batchSize : Option Json
  delayMs : Option JsNumber

namespace Schedules

def initial (o : QueueName → QueueOptions) : Schedules :=
  ⟨fun n => JobQueue.new (o n), .empty, .empty⟩

def withQueue (s : Schedules) (n : QueueName) (q : JobQueue) : Schedules :=
  { s with queues := fun m => if m = n then q else s.queues m }

@[simp] theorem withQueue_self (s : Schedules) (n : QueueName) (q : JobQueue) :
    (s.withQueue n q).queues n = q := if_pos rfl

theorem withQueue_of_ne (s : Schedules) {n m : QueueName} (q : JobQueue) (h : m ≠ n) :
    (s.withQueue n q).queues m = s.queues m := if_neg h

def cancelReminder (s : Schedules) (invoiceId : String) : Bool × Schedules :=
  match s.invoiceJobs.get invoiceId with
  | none => (false, s)
  | some jobId =>
    let r := (s.queues .email).cancel jobId
    (r.1, { s.withQueue .email r.2 with invoiceJobs := s.invoiceJobs.delete invoiceId })

def reminderDelay (target : JsNumber) (now : ℕ) : JsNumber :=
  JsNumber.max (JsNumber.add target (.fin (-now))) (.fin 0)

/-- `scheduleReminder` (`maturityReminders.js:233-251`); `now` is read for the delay,
`now'` by `enqueue`. -/
def scheduleReminder (s : Schedules) (jobId : String) (now now' : ℕ) (invoice : Invoice)
    (targetDate : JsDate) (email : Json) : Except String (String × Schedules) := do
  let iso ← targetDate.toISOString
  let payload := Json.obj [("invoiceId", .str invoice.id), ("customer", invoice.customer),
    ("amount", invoice.amount), ("email", email), ("targetDate", .str iso)]
  let r ← (s.queues .email).enqueue jobId now' "maturity_reminder" (.ok payload)
    ⟨.fin 0, reminderDelay targetDate.getTime now⟩
  let s' := s.withQueue .email r.2
  let s'' := if s'.invoiceJobs.has invoice.id then (s'.cancelReminder invoice.id).2 else s'
  .ok (r.1, { s'' with invoiceJobs := s''.invoiceJobs.set invoice.id r.1 })

/-- `getIntervalMs` (`idempotencyPurge.js:84-91`) on the parsed variable, `none` for `NaN`. -/
def getIntervalMs (parsed : Option ℤ) : ℤ :=
  match parsed with
  | none => 3600000
  | some n => if n < 60000 then 3600000 else n

def purgeDelay (parsed : Option ℤ) (delayMs : Option JsNumber) : JsNumber :=
  delayMs.getD (.fin (getIntervalMs parsed))

def schedulePurge (s : Schedules) (jobId : String) (now : ℕ) (parsed : Option ℤ)
    (delayMs : Option JsNumber) : Except String (String × Schedules) := do
  let r ← (s.queues .purge).enqueue jobId now "idempotency_purge" (.ok (.obj []))
    ⟨.fin 0, purgeDelay parsed delayMs⟩
  .ok (r.1, s.withQueue .purge r.2)

/-- `validatePiiFields` (`retentionPurge.js:46-52`); `message` is the schema library's. -/
def validatePiiFields (message : List String → String) (fields : List String) :
    Except String (List String) := do
  require (∀ f ∈ fields, f ∈ ["customer_name", "customer_email", "customer_tax_id"])
    ("Invalid PII fields: " ++ message fields)
  .ok fields

/- The payload of a retention purge, with the defaults of the parameter pattern. -/
def retentionPayload (o : RetentionOptions) : Json :=
  .obj [("tenantId", o.tenantId), ("policyId", o.policyId),
    ("dryRun", o.dryRun.getD (.bool false)), ("retentionDays", o.retentionDays),
    ("piiFields", (o.piiFields.map fun fs => Json.arr (fs.map .str)).getD .null),
    ("performedBy", o.performedBy), ("batchSize", o.batchSize.getD (.num (.fin 100)))]

def retentionDelay (o : RetentionOptions) : JsNumber := o.delayMs.getD (.fin 0)

def scheduleRetentionPurge (s : Schedules) (jobId : String) (now : ℕ)
    (message : List String → String) (o : RetentionOptions) :
    Except String (String × Schedules) := do
  let _ ← (o.piiFields.map (validatePiiFields message)).getD (.ok [])
  let r ← (s.queues .retention).enqueue jobId now "retention_purge" (.ok (retentionPayload o))
    ⟨.fin 0, retentionDelay o⟩
  .ok (r.1, { s.withQueue .retention r.2 with
    jobExecutions := s.jobExecutions.set r.1
      ⟨o.tenantId, o.policyId, o.dryRun.getD (.bool false), retentionPayload o⟩ })

def cancelRetentionJob (s : Schedules) (jobId : String) : Bool × Schedules :=
  let r := (s.queues .retention).cancel jobId
  (r.1, { s.withQueue .retention r.2 with
    jobExecutions := if r.1 then s.jobExecutions.delete jobId else s.jobExecutions })

/-! ### What each scheduler does to its queue -/

/- The queue `n` was left with one new job `x`, waiting for the number `delay`; records
of other jobs may only have gone. -/
structure Scheduled (s s' : Schedules) (n : QueueName) (x : String) (delay : JsNumber) : Prop where
  added : ∀ job, (s'.queues n).getJob x = some job →
    job.id = x ∧ job.status = .pending ∧ job.delayMs = .number delay.orZero
  kept : ∀ m y job, (s'.queues m).getJob y = some job → (m = n ∧ y = x) ∨
    (s.queues m).getJob y = some job

theorem cancelReminder_getJob {s : Schedules} {invoiceId y : String} {m : QueueName} {job : Job}
    (h : ((s.cancelReminder invoiceId).2.queues m).getJob y = some job) :
    (s.queues m).getJob y = some job := by
  unfold cancelReminder at h
  cases hid : s.invoiceJobs.get invoiceId with
  | none =>
    simp only [hid] at h
    exact h
  | some jobId =>
    simp only [hid] at h
    by_cases hm : m = .email
    · subst hm
      rw [withQueue_self] at h
      exact JobQueue.cancel_getJob h
    · rw [withQueue_of_ne _ _ hm] at h
      exact h

theorem scheduled_of_enqueue {s : Schedules} {n : QueueName} {x j type : String} {now : ℕ}
    {payload : Except String Json} {priority delay : JsNumber} {q : JobQueue}
    (h : (s.queues n).enqueue x now type payload ⟨priority, delay⟩ = .ok (j, q)) :
    j = x ∧ Scheduled s (s.withQueue n q) n x delay := by
  obtain ⟨body, -, hj, hq⟩ := JobQueue.enqueue_ok h
  have hjobs : q.jobs = (s.queues n).jobs.set x
      (JobQueue.newJob x now type body ⟨priority, delay⟩) := by rw [hq, JobQueue.issue_jobs]
  refine ⟨hj, ?_, ?_⟩
  · intro job hget
    rw [withQueue_self, JobQueue.getJob, hjobs, OrdMap.get_set_self] at hget
    cases hget
    exact ⟨rfl, rfl, rfl⟩
  · intro m y job hget
    by_cases hm : m = n
    · subst hm
      rw [withQueue_self, JobQueue.getJob, hjobs, OrdMap.get_set] at hget
      split at hget
      · rename_i hxy
        exact .inl ⟨rfl, hxy.symm⟩
      · exact .inr hget
    · rw [withQueue_of_ne _ _ hm] at hget
      exact .inr hget

theorem schedulePurge_ok {s s' : Schedules} {x j : String} {now : ℕ} {parsed : Option ℤ}
    {delayMs : Option JsNumber} (h : s.schedulePurge x now parsed delayMs = .ok (j, s')) :
    j = x ∧ Scheduled s s' .purge x (purgeDelay parsed delayMs) := by
  obtain ⟨⟨j', q⟩, he, h⟩ := bind_ok h
  cases h
  exact scheduled_of_enqueue he

theorem scheduleRetentionPurge_ok {s s' : Schedules} {x j : String} {now : ℕ}
    {message : List String → String} {o : RetentionOptions}
    (h : s.scheduleRetentionPurge x now message o = .ok (j, s')) :
    j = x ∧ Scheduled s s' .retention x (retentionDelay o) := by
  obtain ⟨_, -, h⟩ := bind_ok h
  obtain ⟨⟨j', q⟩, he, h⟩ := bind_ok h
  cases h
  obtain ⟨hj, hs⟩ := scheduled_of_enqueue he
  exact ⟨hj, hs.added, hs.kept⟩

theorem scheduleReminder_ok {s s' : Schedules} {x j : String} {now now' : ℕ} {invoice : Invoice}
    {targetDate : JsDate} {email : Json}
    (h : s.scheduleReminder x now now' invoice targetDate email = .ok (j, s')) :
    j = x ∧ Scheduled s s' .email x (reminderDelay targetDate.getTime now) := by
  obtain ⟨iso, -, h⟩ := bind_ok h
  obtain ⟨⟨j', q⟩, he, h⟩ := bind_ok h
  cases h
  obtain ⟨hj, hs⟩ := scheduled_of_enqueue he
  refine ⟨hj, ?_, ?_⟩
  · intro job hget
    simp only at hget
    split at hget
    · exact hs.added job (cancelReminder_getJob hget)
    · exact hs.added job hget
  · intro m y job hget
    simp only at hget
    split at hget
    · exact hs.kept m y job (cancelReminder_getJob hget)
    · exact hs.kept m y job hget

end Schedules

end Liquifact.Jobs
