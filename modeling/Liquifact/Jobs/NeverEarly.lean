import Liquifact.Jobs.Scheduling
import Liquifact.Lib.Run

/-!
# When a scheduled job may run

A `Timetable` is the three queues under one wall clock, with what was promised when
each job was scheduled or sent back: not before a target date, not before the call
plus its delay, not before the retry plus its backoff. `dequeue` compares the clock
with the stored `delayMs` as an absolute time; the schedulers store a relative one.
-/

namespace Liquifact.Jobs
open Liquifact.Lib Liquifact.Workers

structure Due where
  queue : QueueName
  jobId : String
  notBefore : JsNumber

structure Timetable where
  schedules : Schedules
  clock : ℕ
  drawn : List String
  dues : List Due

inductive Call where
  | scheduleReminder (jobId : String) (now now' : ℕ) (invoice : Invoice) (targetDate : JsDate)
      (email : Json)
  | cancelReminder (invoiceId : String)
  | reminderHandled (invoiceId : String)
  | schedulePurge (jobId : String) (now : ℕ) (parsed : Option ℤ) (delayMs : Option JsNumber)
  | scheduleRetentionPurge (jobId : String) (now : ℕ) (message : List String → String)
      (options : RetentionOptions)
  | cancelRetentionJob (jobId : String)
  | dequeue (n : QueueName) (clock : ℕ → ℕ) (fuel : ℕ)
  | ack (n : QueueName) (jobId : String) (now : ℕ)
  | retry (n : QueueName) (jobId : String) (error : Thrown) (now : ℕ)
  | cancel (n : QueueName) (jobId : String)
  | clear (n : QueueName)

def retryDue (q : JobQueue) (n : QueueName) (x : String) (now : ℕ) : List Due :=
  match q.getJob x with
  | none => []
  | some job =>
    if job.status = .retrying then [⟨n, x, .fin (now + JobQueue.backoff job.attempts)⟩] else []

namespace Timetable

def initial (o : QueueName → QueueOptions) : Timetable := ⟨.initial o, 0, [], []⟩

/- A scheduler's answer, the last reading it made and what it promised. -/
def scheduled (t : Timetable) (r : Except String (String × Schedules)) (x : String) (now : ℕ)
    (due : Due) : Timetable :=
  match r with
  | .ok (_, s) => ⟨s, now, x :: t.drawn, t.dues ++ [due]⟩
  | .error _ => t

def withQueue (t : Timetable) (n : QueueName) (q : JobQueue) (now : ℕ) (dues : List Due) :
    Timetable :=
  { t with schedules := t.schedules.withQueue n q, clock := now, dues := t.dues ++ dues }

def step (t : Timetable) : Call → Timetable
  | .scheduleReminder x now now' invoice targetDate email =>
    t.scheduled (t.schedules.scheduleReminder x now now' invoice targetDate email) x now'
      ⟨.email, x, targetDate.getTime⟩
  | .cancelReminder invoiceId =>
    { t with schedules := (t.schedules.cancelReminder invoiceId).2 }
  | .reminderHandled invoiceId =>
    { t with schedules :=
      { t.schedules with invoiceJobs := t.schedules.invoiceJobs.delete invoiceId } }
  | .schedulePurge x now parsed delayMs =>
    t.scheduled (t.schedules.schedulePurge x now parsed delayMs) x now
      ⟨.purge, x, JsNumber.add (.ofNat now) (Schedules.purgeDelay parsed delayMs)⟩
  | .scheduleRetentionPurge x now message options =>
    t.scheduled (t.schedules.scheduleRetentionPurge x now message options) x now
      ⟨.retention, x, JsNumber.add (.ofNat now) (Schedules.retentionDelay options)⟩
  | .cancelRetentionJob x =>
    { t with schedules := (t.schedules.cancelRetentionJob x).2 }
  | .dequeue n clock fuel =>
    match (t.schedules.queues n).dequeue clock fuel with
    | none => t
    | some (none, q) => t.withQueue n q t.clock []
    | some (some job, q) => t.withQueue n q (job.startedAt.getD t.clock) []
  | .ack n x now =>
    match (t.schedules.queues n).ack x now with
    | .ok q => t.withQueue n q now []
    | .error _ => t
  | .retry n x error now =>
    match (t.schedules.queues n).retry x error now with
    | .ok q => t.withQueue n q now (retryDue q n x now)
    | .error _ => t
  | .cancel n x => t.withQueue n ((t.schedules.queues n).cancel x).2 t.clock []
  | .clear n => t.withQueue n (t.schedules.queues n).clear.2 t.clock []

/-- The wall clock does not go back, identifiers are drawn once, and `retry` is called for
a job that was handed out. -/
def Ordinary (t : Timetable) : Call → Prop
  | .scheduleReminder x now now' _ _ _ => t.clock ≤ now ∧ now ≤ now' ∧ x ∉ t.drawn
  | .schedulePurge x now _ _ => t.clock ≤ now ∧ x ∉ t.drawn
  | .scheduleRetentionPurge x now _ _ => t.clock ≤ now ∧ x ∉ t.drawn
  | .dequeue _ clock _ => t.clock ≤ clock 0 ∧ Monotone clock
  | .ack _ _ now => t.clock ≤ now
  | .retry n x _ now => t.clock ≤ now ∧
    ∀ job, (t.schedules.queues n).getJob x = some job → job.status = .processing
  | _ => True

/- The delay is not a positive, finite amount of time counted from a clock past zero. -/
def Immediate (now : ℕ) (delay : JsNumber) : Prop :=
  now = 0 ∨ JsNumber.lt (.fin 0) delay = false ∨ delay = .posInf

/-- Relative and absolute delay agree: the target is reached already or never will be, or
the clock stands at zero. -/
def Aligned : Call → Prop
  | .scheduleReminder _ now _ _ targetDate _ =>
    now = 0 ∨ JsNumber.lt (.ofNat now) targetDate.getTime = false ∨ targetDate.getTime = .posInf
  | .schedulePurge _ now parsed delayMs => Immediate now (Schedules.purgeDelay parsed delayMs)
  | .scheduleRetentionPurge _ now _ options => Immediate now (Schedules.retentionDelay options)
  | _ => True

end Timetable

/-! ### Readiness against the promise -/

/- A job waiting for `delay` from `now` on is not ready before `notBefore`. -/
def Covers (now : ℕ) (delay notBefore : JsNumber) : Prop :=
  ∀ r, now ≤ r → JsNumber.le delay (.ofNat r) = true → JsNumber.lt (.ofNat r) notBefore = false

theorem covers_reminder {now now' : ℕ} {target : JsNumber} (hle : now ≤ now')
    (h : now = 0 ∨ JsNumber.lt (.ofNat now) target = false ∨ target = .posInf) :
    Covers now' (Schedules.reminderDelay target now).orZero target := by
  intro r hr hready
  rcases h with hzero | hpast | hinf
  · -- at clock zero the relative delay is the target itself
    subst hzero
    cases target with
    | nan => rfl
    | negInf => rfl
    | posInf => simp [Schedules.reminderDelay, JsNumber.add, JsNumber.max, JsNumber.le,
        JsNumber.orZero, JsNumber.ofNat] at hready
    | fin q =>
      simp only [Schedules.reminderDelay, JsNumber.add, JsNumber.max, JsNumber.le_fin,
        JsNumber.ofNat, reduceCtorEq, or_self, if_false, Nat.cast_zero, neg_zero, add_zero,
        decide_eq_true_eq] at hready
      simp only [JsNumber.ofNat, JsNumber.lt_fin, decide_eq_false_iff_not, not_lt]
      split at hready
      · rename_i hq
        have hnat : (0 : ℚ) ≤ r := Nat.cast_nonneg r
        exact hq.trans hnat
      · simpa [JsNumber.orZero] using hready
  · exact JsNumber.not_lt_of_le_of_not_lt hpast (JsNumber.le_ofNat (hle.trans hr))
  · subst hinf
    simp [Schedules.reminderDelay, JsNumber.add, JsNumber.max, JsNumber.le, JsNumber.orZero,
      JsNumber.ofNat] at hready

theorem covers_delay {now : ℕ} {delay : JsNumber} (h : Timetable.Immediate now delay) :
    Covers now delay.orZero (JsNumber.add (.ofNat now) delay) := by
  intro r hr hready
  have hcast : (now : ℚ) ≤ r := by exact_mod_cast hr
  cases delay with
  | nan => rfl
  | negInf => rfl
  | posInf => simp [JsNumber.le, JsNumber.orZero, JsNumber.ofNat] at hready
  | fin d =>
    simp only [JsNumber.orZero, JsNumber.ofNat, JsNumber.le_fin, decide_eq_true_eq] at hready
    simp only [JsNumber.add, JsNumber.ofNat, JsNumber.lt_fin, decide_eq_false_iff_not, not_lt]
    rcases h with hzero | hneg | hinf
    · subst hzero
      simpa using hready
    · simp only [JsNumber.lt_fin, decide_eq_false_iff_not, not_lt] at hneg
      linarith
    · cases hinf

/-- A promise is kept: the time is reached, or the job waits for a delay that covers it. -/
def Kept (now : ℕ) (job : Job) (notBefore : JsNumber) : Prop :=
  JsNumber.lt (.ofNat now) notBefore = false ∨
    (job.status = .pending ∨ job.status = .retrying) ∧
      ∃ d, job.delayMs = .number d ∧ Covers now d notBefore

theorem Kept.later {now now' : ℕ} {job : Job} {y : JsNumber} (h : Kept now job y)
    (hle : now ≤ now') : Kept now' job y := by
  rcases h with hpast | ⟨hst, d, hd, hcov⟩
  · exact .inl (JsNumber.not_lt_of_le_of_not_lt hpast (JsNumber.le_ofNat hle))
  · exact .inr ⟨hst, d, hd, fun r hr => hcov r (hle.trans hr)⟩

theorem Kept.ready {now r : ℕ} {job : Job} {y : JsNumber} (h : Kept now job y) (hr : now ≤ r)
    (hready : JobQueue.isReadyToProcess job r = true) : JsNumber.lt (.ofNat r) y = false := by
  rcases h with hpast | ⟨hst, d, hd, hcov⟩
  · exact JsNumber.not_lt_of_le_of_not_lt hpast (JsNumber.le_ofNat hr)
  · apply hcov r hr
    have hguard : ¬ (job.status ≠ .pending ∧ job.status ≠ .retrying) := by
      rcases hst with hst | hst <;> simp [hst]
    simpa only [JobQueue.isReadyToProcess, if_neg hguard, hd, Numeric.isNumber, Numeric.toNumber,
      if_true] using hready

/- A job in hand has left the waiting: its promises are due already. -/
theorem Kept.past {now : ℕ} {job : Job} {y : JsNumber} (h : Kept now job y)
    (hst : job.status = .processing) : JsNumber.lt (.ofNat now) y = false := by
  rcases h with hpast | ⟨hwait, -⟩
  · exact hpast
  · rcases hwait with hwait | hwait <;> rw [hst] at hwait <;> cases hwait

/-! ### Whole runs -/

structure OnTime (t : Timetable) : Prop where
  kept : ∀ due ∈ t.dues, ∀ job, (t.schedules.queues due.queue).getJob due.jobId = some job →
    Kept t.clock job due.notBefore
  dues_drawn : ∀ due ∈ t.dues, due.jobId ∈ t.drawn
  recorded : ∀ n x job, (t.schedules.queues n).getJob x = some job → x ∈ t.drawn ∧ job.id = x

section Steps
variable {t : Timetable}

theorem onTime_initial (o : QueueName → QueueOptions) : OnTime (.initial o) := by
  refine ⟨?_, ?_, ?_⟩
  · intro due hdue
    cases hdue
  · intro due hdue
    cases hdue
  · intro n x job hj
    cases hj

theorem OnTime.fewer {s : Schedules} (h : OnTime t)
    (hs : ∀ n x job, (s.queues n).getJob x = some job →
      (t.schedules.queues n).getJob x = some job) : OnTime { t with schedules := s } :=
  ⟨fun due hdue job hj => h.kept due hdue job (hs _ _ _ hj), h.dues_drawn,
    fun n x job hj => h.recorded n x job (hs n x job hj)⟩

theorem OnTime.scheduled {r : Except String (String × Schedules)} {n : QueueName} {x : String}
    {now : ℕ} {delay y : JsNumber} (h : OnTime t) (hfresh : x ∉ t.drawn) (hclock : t.clock ≤ now)
    (hr : ∀ j s, r = .ok (j, s) → j = x ∧ Schedules.Scheduled t.schedules s n x delay)
    (hcov : Covers now delay.orZero y) : OnTime (t.scheduled r x now ⟨n, x, y⟩) := by
  unfold Timetable.scheduled
  cases hres : r with
  | error e => exact h
  | ok out =>
    obtain ⟨j, s⟩ := out
    obtain ⟨-, hs⟩ := hr j s hres
    refine ⟨?_, ?_, ?_⟩
    · intro due hdue job hj
      rcases List.mem_append.mp hdue with hdue | hdue
      · rcases hs.kept due.queue due.jobId job hj with ⟨-, hx⟩ | hj
        · exact absurd (hx ▸ h.dues_drawn due hdue) hfresh
        · exact (h.kept due hdue job hj).later hclock
      · rw [List.mem_singleton.mp hdue] at hj ⊢
        obtain ⟨-, hst, hdel⟩ := hs.added job hj
        exact .inr ⟨.inl hst, delay.orZero, hdel, hcov⟩
    · intro due hdue
      rcases List.mem_append.mp hdue with hdue | hdue
      · exact List.mem_cons_of_mem _ (h.dues_drawn due hdue)
      · rw [List.mem_singleton.mp hdue]
        exact List.mem_cons_self ..
    · intro m z job hj
      rcases hs.kept m z job hj with ⟨rfl, rfl⟩ | hj
      · exact ⟨List.mem_cons_self .., (hs.added job hj).1⟩
      · obtain ⟨hdr, hid⟩ := h.recorded m z job hj
        exact ⟨List.mem_cons_of_mem _ hdr, hid⟩

/- One record of the queue `n` is rewritten; its promises, old and new, must be kept. -/
theorem OnTime.rewrite {n : QueueName} {x : String} {job job' : Job} {q : JobQueue} {now : ℕ}
    {dues : List Due} (h : OnTime t) (hget : (t.schedules.queues n).getJob x = some job)
    (hjobs : q.jobs = (t.schedules.queues n).jobs.set x job') (hid : job'.id = job.id)
    (hclock : t.clock ≤ now)
    (hold : ∀ y, Kept t.clock job y → Kept now job' y)
    (hnew : ∀ due ∈ dues, due.queue = n ∧ due.jobId = x ∧ Kept now job' due.notBefore) :
    OnTime (t.withQueue n q now dues) := by
  obtain ⟨hdrawn, hjid⟩ := h.recorded n x job hget
  -- a record of the new state is the rewritten one or an old one of another key
  have hrecord : ∀ m z job'', ((t.schedules.withQueue n q).queues m).getJob z = some job'' →
      (m = n ∧ z = x ∧ job'' = job') ∨ (t.schedules.queues m).getJob z = some job'' ∧
        ¬ (m = n ∧ z = x) := by
    intro m z job'' hj
    by_cases hm : m = n
    · subst hm
      rw [Schedules.withQueue_self, JobQueue.getJob, hjobs, OrdMap.get_set] at hj
      split at hj
      · rename_i hxz
        cases hj
        exact .inl ⟨rfl, hxz.symm, rfl⟩
      · rename_i hxz
        exact .inr ⟨hj, fun hc => hxz hc.2.symm⟩
    · rw [Schedules.withQueue_of_ne _ _ hm] at hj
      exact .inr ⟨hj, fun hc => hm hc.1⟩
  refine ⟨?_, ?_, ?_⟩
  · intro due hdue job'' hj
    rcases List.mem_append.mp hdue with hdue | hdue
    · rcases hrecord _ _ _ hj with ⟨hn, hx, rfl⟩ | ⟨hj, -⟩
      · exact hold _ (h.kept due hdue job (by rw [hn, hx]; exact hget))
      · exact (h.kept due hdue job'' hj).later hclock
    · obtain ⟨hn, hx, hkept⟩ := hnew due hdue
      rcases hrecord _ _ _ hj with ⟨-, -, rfl⟩ | ⟨-, hother⟩
      · exact hkept
      · exact absurd ⟨hn, hx⟩ hother
  · intro due hdue
    rcases List.mem_append.mp hdue with hdue | hdue
    · exact h.dues_drawn due hdue
    · rw [(hnew due hdue).2.1]
      exact hdrawn
  · intro m z job'' hj
    rcases hrecord m z job'' hj with ⟨-, rfl, rfl⟩ | ⟨hj, -⟩
    · exact ⟨hdrawn, hid.trans hjid⟩
    · exact h.recorded m z job'' hj

theorem OnTime.handed {n : QueueName} {clock : ℕ → ℕ} {fuel : ℕ} {job : Job} {q : JobQueue}
    (h : OnTime t) (hclock : t.clock ≤ clock 0) (hmono : Monotone clock)
    (hd : (t.schedules.queues n).dequeue clock fuel = some (some job, q)) :
    ∃ r, job.startedAt = some r ∧ t.clock ≤ r ∧ OnTime (t.withQueue n q r []) ∧
      ∀ due ∈ t.dues, due.queue = n → due.jobId = job.id →
        JsNumber.lt (.ofNat r) due.notBefore = false := by
  obtain ⟨x, job₀, k, hget, hready, rfl, hjobs, -⟩ := JobQueue.dequeue_some_ok hd
  have hk : t.clock ≤ clock k := hclock.trans (hmono (Nat.zero_le k))
  have hk' : clock k ≤ clock (k + 1) := hmono (Nat.le_succ k)
  have hpast : ∀ y, Kept t.clock job₀ y → JsNumber.lt (.ofNat (clock (k + 1))) y = false :=
    fun y hy => JsNumber.not_lt_of_le_of_not_lt (hy.ready hk hready) (JsNumber.le_ofNat hk')
  have hid : job₀.id = x := (h.recorded n x job₀ hget).2
  refine ⟨clock (k + 1), rfl, hk.trans hk', ?_, ?_⟩
  · apply h.rewrite hget hjobs rfl (hk.trans hk')
    · exact fun y hy => .inl (hpast y hy)
    · intro due hdue
      cases hdue
  · intro due hdue hn hx
    have hx' : due.jobId = x := hx.trans hid
    exact hpast _ (h.kept due hdue job₀ (by rw [hn, hx']; exact hget))

theorem OnTime.retry {n : QueueName} {x : String} {error : Thrown} {now : ℕ} {q : JobQueue}
    (h : OnTime t) (hclock : t.clock ≤ now)
    (hst : ∀ job, (t.schedules.queues n).getJob x = some job → job.status = .processing)
    (hr : (t.schedules.queues n).retry x error now = .ok q) :
    OnTime (t.withQueue n q now (retryDue q n x now)) := by
  obtain ⟨job, hget, hq⟩ := JobQueue.retry_ok hr
  have hjobs : q.jobs = (t.schedules.queues n).jobs.set x
      ((t.schedules.queues n).retried job error now) := by rw [hq, JobQueue.issue_jobs]
  have hrec : q.getJob x = some ((t.schedules.queues n).retried job error now) := by
    rw [JobQueue.getJob, hjobs, OrdMap.get_set_self]
  have hid := JobQueue.retried_id (t.schedules.queues n) job error now
  apply h.rewrite hget hjobs hid hclock
  · intro y hy
    have hpast := hy.past (hst job hget)
    exact .inl (JsNumber.not_lt_of_le_of_not_lt hpast (JsNumber.le_ofNat hclock))
  · intro due hdue
    simp only [retryDue, hrec] at hdue
    split at hdue
    · rename_i hretry
      rw [List.mem_singleton.mp hdue]
      refine ⟨rfl, rfl, .inr ⟨.inr hretry, ?_⟩⟩
      unfold JobQueue.retried at hretry ⊢
      split
      · exact ⟨_, rfl, fun r _ hle => JsNumber.not_lt_of_le hle⟩
      · rename_i hstop
        rw [if_neg hstop] at hretry
        cases hretry
    · cases hdue

theorem withQueue_getJob {s : Schedules} {n m : QueueName} {q : JobQueue} {x : String} {job : Job}
    (hq : ∀ y job', q.getJob y = some job' → (s.queues n).getJob y = some job')
    (h : ((s.withQueue n q).queues m).getJob x = some job) : (s.queues m).getJob x = some job := by
  by_cases hm : m = n
  · subst hm
    rw [Schedules.withQueue_self] at h
    exact hq x job h
  · rw [Schedules.withQueue_of_ne _ _ hm] at h
    exact h

theorem OnTime.lessQueue {n : QueueName} {q : JobQueue} (h : OnTime t)
    (hq : ∀ y job, q.getJob y = some job → (t.schedules.queues n).getJob y = some job) :
    OnTime (t.withQueue n q t.clock []) := by
  have hless := h.fewer (fun m x job hj => withQueue_getJob hq hj)
  exact ⟨by simpa [Timetable.withQueue] using hless.kept,
    by simpa [Timetable.withQueue] using hless.dues_drawn, hless.recorded⟩

theorem OnTime.step (h : OnTime t) {a : Call} (ho : t.Ordinary a) (ha : Timetable.Aligned a) :
    OnTime (t.step a) := by
  cases a with
  | scheduleReminder x now now' invoice targetDate email =>
    obtain ⟨hclock, hnow, hfresh⟩ := ho
    exact h.scheduled hfresh (hclock.trans hnow) (fun _ _ hr => Schedules.scheduleReminder_ok hr)
      (covers_reminder hnow ha)
  | cancelReminder invoiceId => exact h.fewer fun _ _ _ hj => Schedules.cancelReminder_getJob hj
  | reminderHandled invoiceId => exact h.fewer fun _ _ _ hj => hj
  | schedulePurge x now parsed delayMs =>
    exact h.scheduled ho.2 ho.1 (fun _ _ hr => Schedules.schedulePurge_ok hr) (covers_delay ha)
  | scheduleRetentionPurge x now message options =>
    exact h.scheduled ho.2 ho.1 (fun _ _ hr => Schedules.scheduleRetentionPurge_ok hr)
      (covers_delay ha)
  | cancelRetentionJob x =>
    exact h.fewer fun m _ _ hj => withQueue_getJob (fun _ _ hc => JobQueue.cancel_getJob hc) hj
  | dequeue n clock fuel =>
    simp only [Timetable.step]
    cases hd : (t.schedules.queues n).dequeue clock fuel with
    | none => exact h
    | some r =>
      obtain ⟨found, q⟩ := r
      cases found with
      | none =>
        apply h.lessQueue
        intro y job hj
        rw [JobQueue.dequeue_none_ok hd] at hj
        exact hj
      | some job =>
        obtain ⟨r, hr, -, hnext, -⟩ := h.handed ho.1 ho.2 hd
        simp only [hr, Option.getD_some]
        exact hnext
  | ack n x now =>
    simp only [Timetable.step]
    cases hk : (t.schedules.queues n).ack x now with
    | error e => exact h
    | ok q =>
      obtain ⟨job, hget, hst, hq⟩ := JobQueue.ack_ok hk
      have hjobs : q.jobs = (t.schedules.queues n).jobs.set x
          { job with status := .completed, completedAt := some now } := by
        rw [hq, JobQueue.issue_jobs]
      apply h.rewrite hget hjobs rfl ho
      · intro y hy
        exact .inl (JsNumber.not_lt_of_le_of_not_lt (hy.past hst) (JsNumber.le_ofNat ho))
      · intro due hdue
        cases hdue
  | retry n x error now =>
    simp only [Timetable.step]
    cases hr : (t.schedules.queues n).retry x error now with
    | error e => exact h
    | ok q => exact h.retry ho.1 ho.2 hr
  | cancel n x => exact h.lessQueue fun _ _ hj => JobQueue.cancel_getJob hj
  | clear n =>
    apply h.lessQueue
    intro y job hj
    cases hj

end Steps

/-- In a run whose every scheduling is aligned, `dequeue` hands out no job before the time
it was scheduled for or, after a `retry`, before the end of its backoff. -/
theorem scheduled_never_early (o : QueueName → QueueOptions) (as : List Call)
    (h : Along Timetable.step (fun t a => t.Ordinary a ∧ Timetable.Aligned a) (.initial o) as) :
    let t := run Timetable.step (.initial o) as
    ∀ n clock fuel job q, t.Ordinary (.dequeue n clock fuel) →
      (t.schedules.queues n).dequeue clock fuel = some (some job, q) →
      ∀ due ∈ t.dues, due.queue = n → due.jobId = job.id →
        ∃ r, job.startedAt = some r ∧ JsNumber.lt (.ofNat r) due.notBefore = false := by
  intro t n clock fuel job q hclock hd due hdue hn hx
  have ht : OnTime t := run_invariant Timetable.step _ OnTime
    (fun _ _ hs ha => hs.step ha.1 ha.2) _ as (onTime_initial o) h
  obtain ⟨r, hr, -, -, hlate⟩ := ht.handed hclock.1 hclock.2 hd
  exact ⟨r, hr, hlate due hdue hn hx⟩

def sampleQueues : QueueName → QueueOptions := fun _ => ⟨none, none, none⟩

def sampleReminder (now : ℕ) : Call :=
  .scheduleReminder "job-1" now now ⟨"inv-1", .str "Acme", .num (.fin 10)⟩
    ⟨.fin 1500, .ok "1970-01-01T00:00:01.500Z"⟩ (.str "a@b.c")

theorem scheduled_never_early_sample :
    ∃ r, ((((run Timetable.step (.initial sampleQueues) [sampleReminder 1600]).schedules.queues
        .email).dequeue (fun _ => 1600) 3).bind fun out => out.1.bind Job.startedAt) = some r ∧
      JsNumber.lt (.ofNat r) (.fin 1500) = false := by
  have halong : Along Timetable.step (fun t a => t.Ordinary a ∧ Timetable.Aligned a)
      (.initial sampleQueues) [sampleReminder 1600] := by
    refine ⟨⟨⟨Nat.zero_le _, le_rfl, List.not_mem_nil⟩, .inr (.inl ?_)⟩, trivial⟩
    decide
  have hsome : ((((run Timetable.step (.initial sampleQueues) [sampleReminder 1600]).schedules.queues
      .email).dequeue (fun _ => 1600) 3).bind fun out => out.1.map Job.id) = some "job-1" := by
    decide +kernel
  obtain ⟨⟨found, q⟩, hd, hfound⟩ := Option.bind_eq_some_iff.mp hsome
  obtain ⟨job, rfl, hid⟩ := Option.map_eq_some_iff.mp hfound
  obtain ⟨r, hr, hlate⟩ := scheduled_never_early sampleQueues [sampleReminder 1600] halong .email
    (fun _ => 1600) 3 job q ⟨le_rfl, monotone_const⟩ hd ⟨.email, "job-1", .fin 1500⟩
    (List.mem_singleton_self _) rfl hid.symm
  exact ⟨r, by rw [hd]; exact hr, hlate⟩

/-- Asked for at time 1000, the reminder for time 1500 is handed out at once: the stored
delay 500 is below the clock. -/
theorem reminder_handed_out_early :
    ¬ ∀ (o : QueueName → QueueOptions) (as : List Call),
      Along Timetable.step Timetable.Ordinary (.initial o) as →
      let t := run Timetable.step (.initial o) as
      ∀ n clock fuel job q, t.Ordinary (.dequeue n clock fuel) →
        (t.schedules.queues n).dequeue clock fuel = some (some job, q) →
        ∀ due ∈ t.dues, due.queue = n → due.jobId = job.id →
          ∃ r, job.startedAt = some r ∧ JsNumber.lt (.ofNat r) due.notBefore = false := by
  intro hall
  have halong : Along Timetable.step Timetable.Ordinary (.initial sampleQueues)
      [sampleReminder 1000] := ⟨⟨Nat.zero_le _, le_rfl, List.not_mem_nil⟩, trivial⟩
  have hsome : ((((run Timetable.step (.initial sampleQueues) [sampleReminder 1000]).schedules.queues
      .email).dequeue (fun _ => 1000) 3).bind fun out => out.1.map fun job =>
        (job.id, job.startedAt)) = some ("job-1", some 1000) := by
    decide +kernel
  obtain ⟨⟨found, q⟩, hd, hfound⟩ := Option.bind_eq_some_iff.mp hsome
  obtain ⟨job, rfl, hid⟩ := Option.map_eq_some_iff.mp hfound
  obtain ⟨r, hr, hlate⟩ := hall sampleQueues [sampleReminder 1000] halong .email (fun _ => 1000) 3
    job q ⟨le_rfl, monotone_const⟩ hd ⟨.email, "job-1", .fin 1500⟩ (List.mem_singleton_self _) rfl
    (congrArg Prod.fst hid).symm
  have hthousand : r = 1000 := by
    rw [show job.startedAt = some 1000 from congrArg Prod.snd hid] at hr
    exact (Option.some.inj hr).symm
  rw [hthousand] at hlate
  exact absurd hlate (by decide)

end Liquifact.Jobs
