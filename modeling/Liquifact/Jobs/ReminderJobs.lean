import Liquifact.Jobs.Scheduling
import Liquifact.Workers.Worker

/-!
# Reminders and the map that finds them

`invoiceJobs` is to lead from an invoice to the job of its pending reminder. Three places
write it: `scheduleReminder`, `cancelReminder`, and the handler of the job
(`src/jobs/maturityReminders.js:174-221`), which sends the mail and then, in its `finally`
block, deletes the entry of its invoice. Between the start of a handler and that block any
other call may come, another `scheduleReminder` for the same invoice among them.
-/

namespace Liquifact.Jobs
open Liquifact.Lib Liquifact.Workers

/-- The module's queues and map with the handlers of the email worker: `handling` are the
jobs whose handler was called and has not reached its `finally` block, `handled` those it
has passed and `_processJob` has not concluded. -/
structure Reminders where
  schedules : Schedules
  handling : List Job
  handled : List Job

inductive ReminderStep where
  | scheduleReminder (jobId : String) (now now' : ℕ) (invoice : Invoice) (targetDate : JsDate)
      (email : Json)
  | cancelReminder (invoiceId : String)
  | poll (clock : ℕ → ℕ) (fuel : ℕ)
  | handlerEnds (k : ℕ)
  | conclude (k : ℕ) (now : ℕ)

/- `const { invoiceId } = job.payload`, as a key of the map. -/
def invoiceIdOf (job : Job) : Option String :=
  match job.payload.member "invoiceId" with
  | some (.str i) => some i
  | _ => none

namespace Reminders

def initial (o : QueueName → QueueOptions) : Reminders := ⟨.initial o, [], []⟩

abbrev emailQueue (s : Reminders) : JobQueue := s.schedules.queues .email

/- `invoiceJobs.delete(invoiceId)` in the `finally` block, whether or not the mail was sent. -/
def forget (s : Schedules) (job : Job) : Schedules :=
  match invoiceIdOf job with
  | some i => { s with invoiceJobs := s.invoiceJobs.delete i }
  | none => s

/-- One step. A turn of the worker takes a ready job out and calls the handler, which runs to
its first `await`; errors of the mail transport are caught inside it, so `conclude`
acknowledges. Whether the worker is switched on and how many jobs it may have in hand only
leaves out some of these runs. -/
def step (s : Reminders) : ReminderStep → Reminders
  | .scheduleReminder x now now' invoice targetDate email =>
    match s.schedules.scheduleReminder x now now' invoice targetDate email with
    | .ok r => { s with schedules := r.2 }
    | .error _ => s
  | .cancelReminder i => { s with schedules := (s.schedules.cancelReminder i).2 }
  | .poll clock fuel =>
    match s.emailQueue.dequeue clock fuel with
    | none => s
    | some (none, q) => { s with schedules := s.schedules.withQueue .email q }
    | some (some job, q) => { s with
        schedules := s.schedules.withQueue .email q
        handling := s.handling ++ [job] }
  | .handlerEnds k =>
    match s.handling[k]? with
    | none => s
    | some job =>
      ⟨forget s.schedules job, s.handling.eraseIdx k, s.handled ++ [job]⟩
  | .conclude k now =>
    match s.handled[k]? with
    | none => s
    | some job => { s with
        schedules := s.schedules.withQueue .email
          (BackgroundWorker.conclude s.emailQueue job.id none now)
        handled := s.handled.eraseIdx k }

end Reminders

/-! ### What the map is for -/

def PendingReminder (s : Schedules) (invoiceId x : String) : Prop :=
  ∃ job, (s.queues .email).getJob x = some job ∧ job.type = "maturity_reminder" ∧
    job.status = .pending ∧ invoiceIdOf job = some invoiceId

/-- The reminders of an invoice are under control: at most one is pending, the map leads to
it, and cancelling reports success and leaves none pending. -/
structure Cancellable (s : Schedules) (invoiceId : String) : Prop where
  one : ∀ x y, PendingReminder s invoiceId x → PendingReminder s invoiceId y → x = y
  mapped : ∀ x, PendingReminder s invoiceId x → s.invoiceJobs.get invoiceId = some x
  removed : (∃ x, PendingReminder s invoiceId x) →
    (s.cancelReminder invoiceId).1 = true ∧
      ∀ x, ¬ PendingReminder (s.cancelReminder invoiceId).2 invoiceId x

def Mapped (s : Schedules) : Prop :=
  ∀ i x, PendingReminder s i x → s.invoiceJobs.get i = some x

theorem cancelReminder_of_get {s : Schedules} {i x : String} (h : s.invoiceJobs.get i = some x) :
    s.cancelReminder i = ((s.queues .email).jobs.has x,
      { s.withQueue .email ((s.queues .email).cancel x).2 with
        invoiceJobs := s.invoiceJobs.delete i }) := by
  simp only [Schedules.cancelReminder, h]
  rfl

theorem pending_of_cancelReminder {s : Schedules} {i j x : String}
    (h : PendingReminder (s.cancelReminder i).2 j x) : PendingReminder s j x := by
  obtain ⟨job, hget, hrest⟩ := h
  exact ⟨job, Schedules.cancelReminder_getJob hget, hrest⟩

/- The job that the map names for the invoice is gone after `cancelReminder`. -/
theorem not_pending_of_cancelReminder {s : Schedules} {i j x : String}
    (hmap : s.invoiceJobs.get i = some x) : ¬ PendingReminder (s.cancelReminder i).2 j x := by
  rintro ⟨job, hget, -⟩
  rw [cancelReminder_of_get hmap] at hget
  have hgone : ((s.queues .email).jobs.delete x).get x = some job := by
    simpa [JobQueue.getJob, JobQueue.cancel, Schedules.withQueue] using hget
  rw [OrdMap.get_delete, if_pos rfl] at hgone
  cases hgone

theorem cancelReminder_map (s : Schedules) (i j : String) :
    (s.cancelReminder i).2.invoiceJobs.get j = if i = j then none else s.invoiceJobs.get j := by
  cases h : s.invoiceJobs.get i with
  | none =>
    simp only [Schedules.cancelReminder, h]
    split
    · rename_i hij
      rw [← hij, h]
    · rfl
  | some x =>
    rw [cancelReminder_of_get h]
    exact OrdMap.get_delete ..

theorem mapped_iff_cancellable (s : Schedules) : Mapped s ↔ ∀ i, Cancellable s i := by
  constructor
  · intro h i
    refine ⟨?_, h i, ?_⟩
    · intro x y hx hy
      exact Option.some.inj ((h i x hx).symm.trans (h i y hy))
    · rintro ⟨x, hx⟩
      have hmap := h i x hx
      obtain ⟨job, hget, -⟩ := hx
      refine ⟨?_, ?_⟩
      · rw [cancelReminder_of_get hmap]
        simp only [OrdMap.has]
        rw [show (s.queues .email).jobs.get x = some job from hget]
        rfl
      · intro y hy
        have hyx : y = x :=
          Option.some.inj ((h i y (pending_of_cancelReminder hy)).symm.trans hmap)
        subst hyx
        exact not_pending_of_cancelReminder hmap hy
  · intro h i x hx
    exact (h i).mapped x hx

/-! ### One step -/

/- Enqueuing a reminder makes its own job pending, for the invoice in its payload, and no other. -/
theorem pending_of_enqueue {s : Schedules} {q : JobQueue} {x j i z : String} {now : ℕ}
    {invoiceId : String} {fields : List (String × Json)} {o : EnqueueOptions}
    (h : (s.queues .email).enqueue x now "maturity_reminder"
      (.ok (.obj (("invoiceId", .str invoiceId) :: fields))) o = .ok (j, q))
    (hz : PendingReminder (s.withQueue .email q) i z) :
    (z = x ∧ invoiceId = i) ∨ PendingReminder s i z := by
  obtain ⟨body, hbody, -, hq⟩ := JobQueue.enqueue_ok h
  cases hbody
  obtain ⟨job, hget, hrest⟩ := hz
  rw [Schedules.withQueue_self, hq, JobQueue.getJob, JobQueue.issue_jobs] at hget
  by_cases hzx : z = x
  · subst hzx
    rw [OrdMap.get_set_self] at hget
    cases hget
    exact .inl ⟨rfl, Option.some.inj hrest.2.2⟩
  · rw [OrdMap.get_set_of_ne _ _ (Ne.symm hzx)] at hget
    exact .inr ⟨job, hget, hrest⟩

theorem mapped_set {s : Schedules} {i x : String}
    (h : ∀ j z, PendingReminder s j z → (z = x ∧ i = j) ∨ (i ≠ j ∧ s.invoiceJobs.get j = some z)) :
    Mapped { s with invoiceJobs := s.invoiceJobs.set i x } := by
  intro j z hz
  rw [OrdMap.get_set]
  rcases h j z hz with ⟨rfl, hij⟩ | ⟨hij, hmap⟩
  · rw [if_pos hij]
  · rw [if_neg hij]
    exact hmap

theorem mapped_scheduleReminder {s s' : Schedules} {x j : String} {now now' : ℕ}
    {invoice : Invoice} {targetDate : JsDate} {email : Json}
    (h : s.scheduleReminder x now now' invoice targetDate email = .ok (j, s'))
    (hs : Mapped s) : Mapped s' := by
  obtain ⟨iso, -, h⟩ := bind_ok h
  obtain ⟨⟨j', q⟩, he, h⟩ := bind_ok h
  cases h
  obtain ⟨-, -, rfl, -⟩ := JobQueue.enqueue_ok he
  apply mapped_set
  intro i z hz
  by_cases hhas : (s.withQueue .email q).invoiceJobs.has invoice.id = true
  · rw [if_pos hhas] at hz ⊢
    rcases pending_of_enqueue he (pending_of_cancelReminder hz) with hnew | hold
    · exact .inl hnew
    · have hmap := hs i z hold
      have hi : invoice.id ≠ i := by
        rintro rfl
        -- the map named `z`, and that record was deleted
        exact not_pending_of_cancelReminder (s := s.withQueue .email q) hmap hz
      rw [cancelReminder_map, if_neg hi]
      exact .inr ⟨hi, hmap⟩
  · rw [if_neg hhas] at hz ⊢
    rcases pending_of_enqueue he hz with hnew | hold
    · exact .inl hnew
    · have hmap := hs i z hold
      refine .inr ⟨?_, hmap⟩
      rintro rfl
      have hsome : (s.withQueue .email q).invoiceJobs.has invoice.id = true := by
        simp only [OrdMap.has, Schedules.withQueue, hmap, Option.isSome_some]
      exact hhas hsome

theorem mapped_cancelReminder {s : Schedules} (i : String) (hs : Mapped s) :
    Mapped (s.cancelReminder i).2 := by
  intro j z hz
  have hold := hs j z (pending_of_cancelReminder hz)
  have hij : i ≠ j := by
    rintro rfl
    exact not_pending_of_cancelReminder hold hz
  rw [cancelReminder_map, if_neg hij]
  exact hold

/- Queue operations that add no pending record keep what the map is for. -/
theorem mapped_withQueue {s : Schedules} {q : JobQueue} (hs : Mapped s)
    (hq : ∀ z job, q.getJob z = some job → job.status = .pending →
      (s.queues .email).getJob z = some job) : Mapped (s.withQueue .email q) := by
  rintro i z ⟨job, hget, htype, hst, hid⟩
  rw [Schedules.withQueue_self] at hget
  exact hs i z ⟨job, hq z job hget hst, htype, hst, hid⟩

theorem dequeue_pending {q q' : JobQueue} {clock : ℕ → ℕ} {fuel : ℕ} {r : Option Job}
    (hd : q.dequeue clock fuel = some (r, q')) {z : String} {job : Job}
    (hget : q'.getJob z = some job) (hst : job.status = .pending) : q.getJob z = some job := by
  cases r with
  | none =>
    have hjobs : q'.jobs = q.jobs := by rw [JobQueue.dequeue_none_ok hd]
    rw [JobQueue.getJob, hjobs] at hget
    exact hget
  | some out =>
    obtain ⟨x, job₀, k, -, -, hout, hjobs, -, -⟩ := JobQueue.dequeue_some_ok hd
    rw [JobQueue.getJob, hjobs, OrdMap.get_set] at hget
    split at hget
    · -- the record handed out is being processed
      cases hget
      rw [hout] at hst
      cases hst
    · exact hget

theorem retryJob_pending {q : JobQueue} {x z : String} {error : Thrown} {now : ℕ} {job : Job}
    (hget : (BackgroundWorker.retryJob q x error now).getJob z = some job)
    (hst : job.status = .pending) : q.getJob z = some job := by
  unfold BackgroundWorker.retryJob at hget
  cases hr : q.retry x error now with
  | error m =>
    simp only [hr] at hget
    exact hget
  | ok q' =>
    simp only [hr] at hget
    obtain ⟨job₀, -, hq'⟩ := JobQueue.retry_ok hr
    rw [JobQueue.getJob, hq', JobQueue.issue_jobs, OrdMap.get_set] at hget
    split at hget
    · cases hget
      unfold JobQueue.retried at hst
      split at hst <;> cases hst
    · exact hget

theorem conclude_pending {q : JobQueue} {x z : String} {outcome : Option Thrown} {now : ℕ}
    {job : Job} (hget : (BackgroundWorker.conclude q x outcome now).getJob z = some job)
    (hst : job.status = .pending) : q.getJob z = some job := by
  unfold BackgroundWorker.conclude at hget
  cases outcome with
  | some error => exact retryJob_pending hget hst
  | none =>
    cases ha : q.ack x now with
    | error m =>
      simp only [ha] at hget
      exact retryJob_pending hget hst
    | ok q' =>
      simp only [ha] at hget
      obtain ⟨job₀, -, -, hq'⟩ := JobQueue.ack_ok ha
      rw [JobQueue.getJob, hq', JobQueue.issue_jobs, OrdMap.get_set] at hget
      split at hget
      · cases hget
        cases hst
      · exact hget

/- Deleting an entry is harmless exactly when nothing of its invoice is pending. -/
theorem mapped_forget_iff {s : Schedules} {job : Job} (hs : Mapped s) :
    Mapped (Reminders.forget s job) ↔
      ∀ i, invoiceIdOf job = some i → ∀ x, ¬ PendingReminder s i x := by
  cases hid : invoiceIdOf job with
  | none =>
    simp only [Reminders.forget, hid]
    exact ⟨fun _ i hi => (by cases hi), fun _ => hs⟩
  | some i =>
    simp only [Reminders.forget, hid, Option.some.injEq]
    constructor
    · rintro h j rfl x hx
      have hmap := h i x hx
      rw [OrdMap.get_delete, if_pos rfl] at hmap
      cases hmap
    · intro h j x hx
      have hij : i ≠ j := by
        rintro rfl
        exact h i rfl x hx
      rw [OrdMap.get_delete, if_neg hij]
      exact hs j x hx

/-! ### Whole runs -/

/-- When a handler reaches its `finally` block, no reminder of its invoice is pending: none
was scheduled while it ran, or it was cancelled again or taken out meanwhile. -/
def HandlerAlone (s : Reminders) : ReminderStep → Prop
  | .handlerEnds k => ∀ job, s.handling[k]? = some job → ∀ i, invoiceIdOf job = some i →
      ∀ x, ¬ PendingReminder s.schedules i x
  | _ => True

theorem mapped_step_iff (s : Reminders) (a : ReminderStep) (hs : Mapped s.schedules) :
    Mapped (s.step a).schedules ↔ HandlerAlone s a := by
  cases a with
  | scheduleReminder x now now' invoice targetDate email =>
    refine ⟨fun _ => trivial, fun _ => ?_⟩
    simp only [Reminders.step]
    cases hr : s.schedules.scheduleReminder x now now' invoice targetDate email with
    | error m => exact hs
    | ok r => exact mapped_scheduleReminder hr hs
  | cancelReminder i => exact ⟨fun _ => trivial, fun _ => mapped_cancelReminder i hs⟩
  | poll clock fuel =>
    refine ⟨fun _ => trivial, fun _ => ?_⟩
    simp only [Reminders.step]
    cases hd : s.emailQueue.dequeue clock fuel with
    | none => exact hs
    | some out =>
      obtain ⟨r, q⟩ := out
      have hq := mapped_withQueue (q := q) hs fun z job hget hst => dequeue_pending hd hget hst
      cases r with
      | none => exact hq
      | some job => exact hq
  | handlerEnds k =>
    simp only [Reminders.step, HandlerAlone]
    cases hk : s.handling[k]? with
    | none => exact ⟨fun _ job hjob => (by cases hjob), fun _ => hs⟩
    | some job =>
      simp only [Option.some.injEq, forall_eq']
      exact mapped_forget_iff hs
  | conclude k now =>
    refine ⟨fun _ => trivial, fun _ => ?_⟩
    simp only [Reminders.step]
    cases hk : s.handled[k]? with
    | none => exact hs
    | some job => exact mapped_withQueue hs fun z job hget hst => conclude_pending hget hst

theorem mapped_initial (o : QueueName → QueueOptions) : Mapped (Reminders.initial o).schedules := by
  rintro i x ⟨job, hget, -⟩
  cases hget

/-- In every run the reminders of all invoices stay under control exactly when no handler
deletes an entry that a reminder scheduled while it ran depends on. -/
theorem reminders_cancellable_iff (o : QueueName → QueueOptions) (as : List ReminderStep) :
    (∀ pre, pre <+: as → ∀ i, Cancellable (run Reminders.step (.initial o) pre).schedules i) ↔
      Along Reminders.step HandlerAlone (.initial o) as := by
  have hiff := forall_prefix_iff_along Reminders.step HandlerAlone (fun s => Mapped s.schedules)
    mapped_step_iff (.initial o) as (mapped_initial o)
  rw [← hiff]
  exact forall₂_congr fun pre _ => (mapped_iff_cancellable _).symm

def sampleSchedule (jobId : String) (now : ℕ) (target : ℚ) (iso : String) : ReminderStep :=
  .scheduleReminder jobId now now ⟨"inv-1", .str "Acme", .num (.fin 10)⟩ ⟨.fin target, .ok iso⟩
    (.str "a@b.c")

def sampleOverlap : List ReminderStep :=
  [sampleSchedule "job-1" 1000 1500 "1970-01-01T00:00:01.500Z", .poll (fun _ => 1600) 3,
    sampleSchedule "job-2" 1700 2500 "1970-01-01T00:00:02.500Z", .handlerEnds 0]

/-- The first reminder is being sent when the second is scheduled; the end of the first
handler takes the second out of the map, and `cancelReminder` no longer finds it. -/
theorem pending_reminder_lost :
    ¬ ∀ (o : QueueName → QueueOptions) (as pre : List ReminderStep), pre <+: as →
      ∀ i, Cancellable (run Reminders.step (.initial o) pre).schedules i := by
  intro hall
  have hrun := hall (fun _ => ⟨none, none, none⟩) sampleOverlap _ (List.prefix_refl _) "inv-1"
  have hpending : (((run Reminders.step (.initial fun _ => ⟨none, none, none⟩)
      sampleOverlap).schedules.queues .email).getJob "job-2").map
      (fun job => (job.type, job.status, invoiceIdOf job)) =
      some ("maturity_reminder", .pending, some "inv-1") := by
    decide +kernel
  obtain ⟨job, hget, hjob⟩ := Option.map_eq_some_iff.mp hpending
  simp only [Prod.mk.injEq] at hjob
  have hmap := hrun.mapped "job-2" ⟨job, hget, hjob⟩
  revert hmap
  decide +kernel

end Liquifact.Jobs
