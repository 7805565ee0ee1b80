import Liquifact.Workers.Placement

/-!
# How often a job runs

The attempt counter is advanced by `dequeue`, compared by `retry` and drives the
backoff. For a recorded job it is the number of its executions in the log, and the
status tells how these ended: at most `limit` of them failed while the job is still
to run, `limit + 1` of them when it has failed for good.
-/

namespace Liquifact.Workers
open Liquifact.Lib JobQueue Execution

/-- The executions, failures and successes behind a record. -/
def Delivered (limit : ℕ) (job : Job) (executions failures successes : ℕ) : Prop :=
  job.attempts = executions ∧
  match job.status with
  | .pending => executions = 0 ∧ failures = 0 ∧ successes = 0
  | .processing => failures + 1 = executions ∧ failures ≤ limit ∧ successes = 0
  | .retrying => failures = executions ∧ 1 ≤ failures ∧ failures ≤ limit ∧ successes = 0
  | .failed => failures = executions ∧ failures = limit + 1 ∧ successes = 0
  | .completed => failures + 1 = executions ∧ failures ≤ limit ∧ successes = 1

theorem status_of_ready {job : Job} {now : ℕ} (h : isReadyToProcess job now = true) :
    job.status = .pending ∨ job.status = .retrying := by
  unfold isReadyToProcess at h
  split at h
  · cases h
  · rename_i hs
    by_contra hn
    rw [not_or] at hn
    exact hs hn

section Record
variable {limit executions failures successes now : ℕ} {job : Job}

theorem Delivered.started (h : Delivered limit job executions failures successes)
    (hs : job.status = .pending ∨ job.status = .retrying) :
    Delivered limit (JobQueue.started job now) (executions + 1) failures successes := by
  obtain ⟨hatt, hst⟩ := h
  refine ⟨by simp [JobQueue.started, hatt], ?_⟩
  rcases hs with hs | hs
  · rw [hs] at hst
    obtain ⟨he, hf, hu⟩ := hst
    exact ⟨by omega, by omega, hu⟩
  · rw [hs] at hst
    obtain ⟨hf, -, hle, hu⟩ := hst
    exact ⟨by omega, hle, hu⟩

theorem Delivered.bounds (h : Delivered limit job executions failures successes) :
    executions ≤ limit + 1 ∧ (job.status = .failed ↔ failures = limit + 1) ∧
      (job.status = .completed ↔ successes = 1) ∧ successes ≤ 1 := by
  obtain ⟨-, hcount⟩ := h
  cases hst : job.status <;> rw [hst] at hcount <;>
    simp only [reduceCtorEq, false_iff, true_iff] at hcount ⊢ <;> omega

theorem Delivered.acked (h : Delivered limit job executions failures successes)
    (hs : job.status = .processing) :
    Delivered limit { job with status := .completed, completedAt := some now } executions failures
      (successes + 1) := by
  obtain ⟨hatt, hst⟩ := h
  rw [hs] at hst
  obtain ⟨he, hle, hu⟩ := hst
  exact ⟨hatt, he, hle, by omega⟩

theorem le_limit_iff {m : ℚ} (hm : 0 ≤ m) (n : ℕ) :
    JsNumber.le (.ofNat n) (.fin m) = true ↔ n ≤ ⌊m⌋₊ := by
  simp only [JsNumber.ofNat, JsNumber.le_fin, decide_eq_true_eq]
  exact (Nat.le_floor_iff hm).symm

theorem Delivered.retried {m : ℚ} {q : JobQueue} {error : Thrown} (hm : 0 ≤ m)
    (hq : q.maxRetries = .fin m) (h : Delivered ⌊m⌋₊ job executions failures successes)
    (hs : job.status = .processing) :
    Delivered ⌊m⌋₊ (q.retried job error now) executions (failures + 1) successes := by
  obtain ⟨hatt, hst⟩ := h
  rw [hs] at hst
  obtain ⟨he, hle, hu⟩ := hst
  -- `attempts` is an integer, so comparing it with `m` is comparing it with the floor
  have hiff := le_limit_iff hm job.attempts
  rw [← hq] at hiff
  unfold JobQueue.retried
  split
  · rename_i hgo
    have hbound := hiff.mp hgo
    exact ⟨hatt, by omega, by omega, by omega, hu⟩
  · rename_i hstop
    have hbound : ¬ job.attempts ≤ ⌊m⌋₊ := fun hc => hstop (hiff.mpr hc)
    exact ⟨hatt, by omega, by omega, hu⟩

theorem retried_backoff (q : JobQueue) (job : Job) (error : Thrown) (now : ℕ) :
    (q.retried job error now).status = .failed ∨ (q.retried job error now).status = .retrying ∧
      (q.retried job error now).delayMs = .number (.fin (now + backoff job.attempts)) := by
  unfold JobQueue.retried
  split
  · exact .inr ⟨rfl, rfl⟩
  · exact .inl rfl

end Record

/-! ### The queue's records against the log -/

structure Accounts (m : ℚ) (q : JobQueue) (log : List Execution) : Prop where
  limit : q.maxRetries = .fin m
  delivered : ∀ x job, q.jobs.get x = some job → Delivered ⌊m⌋₊ job (tally isExecution x log)
    (tally isFailure x log) (tally isSuccess x log)

section Accounts
variable {m : ℚ} {q q' : JobQueue} {log : List Execution} {out drawn : List String}

/- One entry is added; only the job it names may have changed its record. -/
theorem Accounts.record (h : Accounts m q log) (e : Execution)
    (hlimit : q'.maxRetries = q.maxRetries)
    (hother : ∀ y, e.jobId ≠ y → q'.jobs.get y = q.jobs.get y)
    (hself : ∀ job, q'.jobs.get e.jobId = some job →
      Delivered ⌊m⌋₊ job (tally isExecution e.jobId log + (isExecution e).toNat)
        (tally isFailure e.jobId log + (isFailure e).toNat)
        (tally isSuccess e.jobId log + (isSuccess e).toNat)) :
    Accounts m q' (log ++ [e]) := by
  refine ⟨hlimit.trans h.limit, ?_⟩
  intro x job hj
  simp only [tally_append]
  by_cases hx : e.jobId = x
  · subst hx
    have hone : ∀ kind : Execution → Bool, tally kind e.jobId [e] = (kind e).toNat := by
      intro kind
      cases hk : kind e <;> simp [tally, hk]
    rw [hone, hone, hone]
    exact hself job hj
  · have hzero : ∀ kind : Execution → Bool, tally kind x [e] = 0 := by
      intro kind
      apply tally_eq_zero
      intro e' he'
      rw [List.mem_singleton.mp he']
      exact hx
    rw [hzero, hzero, hzero]
    rw [hother x hx] at hj
    exact h.delivered x job hj

theorem Accounts.fewer (h : Accounts m q log)
    (hjobs : ∀ x job, q'.jobs.get x = some job → q.jobs.get x = some job)
    (hlimit : q'.maxRetries = q.maxRetries) : Accounts m q' log :=
  ⟨hlimit.trans h.limit, fun x job hj => h.delivered x job (hjobs x job hj)⟩

theorem Accounts.enqueue {jobId j type : String} {now : ℕ} {payload : Except String Json}
    {o : EnqueueOptions} (h : Accounts m q log) (hfresh : ∀ e ∈ log, e.jobId ≠ jobId)
    (he : q.enqueue jobId now type payload o = .ok (j, q')) : Accounts m q' log := by
  obtain ⟨body, -, -, rfl⟩ := enqueue_ok he
  refine ⟨by rw [issue_maxRetries]; exact h.limit, ?_⟩
  intro x job hj
  rw [issue_jobs, OrdMap.get_set] at hj
  split at hj
  · rename_i hx
    cases hj
    rw [← hx, tally_eq_zero hfresh, tally_eq_zero hfresh, tally_eq_zero hfresh]
    exact ⟨rfl, rfl, rfl, rfl⟩
  · exact h.delivered x job hj

theorem Accounts.dequeue {clock : ℕ → ℕ} {fuel : ℕ} {job : Job} (h : Accounts m q log)
    (hp : Placed q out drawn) (hd : q.dequeue clock fuel = some (some job, q')) (e : Execution)
    (hid : e.jobId = job.id) (hk : isExecution e = true) (hf : isFailure e = false)
    (hs : isSuccess e = false) : Accounts m q' (log ++ [e]) := by
  obtain ⟨x, job₀, k, hget, hready, rfl, hjobs, hlimit, -⟩ := dequeue_some_ok hd
  have hex : e.jobId = x := hid.trans (hp.recorded x job₀ hget).2.1
  apply h.record e hlimit
  · intro y hy
    rw [hjobs, OrdMap.get_set_of_ne _ _ (hex ▸ hy)]
  · intro job' hj
    rw [hjobs, hex, OrdMap.get_set_self] at hj
    cases hj
    rw [hex, hk, hf, hs]
    exact (h.delivered x job₀ hget).started (status_of_ready hready)

theorem Accounts.ack {x : String} {now : ℕ} (h : Accounts m q log) (ha : q.ack x now = .ok q')
    (e : Execution) (hid : e.jobId = x) (hk : isExecution e = false) (hf : isFailure e = false)
    (hs : isSuccess e = true) : Accounts m q' (log ++ [e]) := by
  obtain ⟨job, hget, hst, rfl⟩ := ack_ok ha
  apply h.record e (by rw [issue_maxRetries])
  · intro y hy
    rw [issue_jobs, OrdMap.get_set_of_ne _ _ (hid ▸ hy)]
  · intro job' hj
    rw [issue_jobs, hid, OrdMap.get_set_self] at hj
    cases hj
    rw [hid, hk, hf, hs]
    exact (h.delivered x job hget).acked hst

theorem Accounts.retry {x : String} {error : Thrown} {now : ℕ} (hm : 0 ≤ m) (h : Accounts m q log)
    (hp : Placed q out drawn) (hx : x ∈ out) (hr : q.retry x error now = .ok q') (e : Execution)
    (hid : e.jobId = x) (hk : isExecution e = false) (hf : isFailure e = true)
    (hs : isSuccess e = false) : Accounts m q' (log ++ [e]) := by
  obtain ⟨job, hget, rfl⟩ := retry_ok hr
  apply h.record e (by rw [issue_maxRetries])
  · intro y hy
    rw [issue_jobs, OrdMap.get_set_of_ne _ _ (hid ▸ hy)]
  · intro job' hj
    rw [issue_jobs, hid, OrdMap.get_set_self] at hj
    cases hj
    rw [hid, hk, hf, hs]
    exact (h.delivered x job hget).retried hm h.limit (hp.status_of_out hx hget)

theorem Accounts.absent (h : Accounts m q log) (e : Execution)
    (hnone : q.jobs.get e.jobId = none) : Accounts m q (log ++ [e]) := by
  apply h.record e rfl (fun _ _ => rfl)
  intro job hj
  rw [hnone] at hj
  cases hj

theorem Accounts.retryJob {x : String} (hm : 0 ≤ m) (h : Accounts m q log)
    (hp : Placed q out drawn) (hx : x ∈ out) (error : Thrown) (now : ℕ) :
    Accounts m (BackgroundWorker.retryJob q x error now) (log ++ [.failed x]) := by
  unfold BackgroundWorker.retryJob
  cases hr : q.retry x error now with
  | ok q' => exact h.retry hm hp hx hr _ rfl rfl rfl rfl
  | error _ => exact h.absent (.failed x) (retry_error hr)

/- In hand and not acknowledged: the record is gone, and `retry` finds none either. -/
theorem conclude_absent {x msg : String} {now : ℕ} (hp : Placed q out drawn) (hx : x ∈ out)
    (ha : q.ack x now = .error msg) :
    q.jobs.get x = none ∧ BackgroundWorker.retryJob q x (.ofMessage msg) now = q := by
  have hnone : q.jobs.get x = none := by
    cases hget : q.jobs.get x with
    | none => rfl
    | some job => exact absurd (hp.status_of_out hx hget) (ack_error ha hget)
  refine ⟨hnone, ?_⟩
  simp only [BackgroundWorker.retryJob, JobQueue.retry, hnone, expect]
  rfl

theorem Accounts.conclude {x : String} (hm : 0 ≤ m) (h : Accounts m q log)
    (hp : Placed q out drawn) (hx : x ∈ out) (outcome : Option Thrown) (now : ℕ) :
    Accounts m (BackgroundWorker.conclude q x outcome now)
      (log ++ [if outcome = none then .succeeded x else .failed x]) := by
  unfold BackgroundWorker.conclude
  cases outcome with
  | some error => exact h.retryJob hm hp hx error now
  | none =>
    cases ha : q.ack x now with
    | ok q' => exact h.ack ha _ rfl rfl rfl rfl
    | error msg =>
      obtain ⟨hnone, hsame⟩ := conclude_absent hp hx ha
      simp only [hsame]
      exact h.absent (.succeeded x) hnone

end Accounts

/-! ### Whole runs -/

structure Bounded (m : ℚ) (s : System) : Prop where
  sound : Sound s
  accounts : Accounts m s.queueOf s.log
  named : ∀ e ∈ s.log, e.jobId ∈ s.drawn
  handled : ∀ x, tally isHandled x s.log ≤ tally isExecution x s.log

section Steps
variable {m : ℚ} {s : System}

theorem bounded_initial {o : QueueOptions} {maxConcurrency : Option ℕ}
    (hm : (JobQueue.new o).maxRetries = .fin m) :
    Bounded m (.initial (.new (.new o) maxConcurrency)) := by
  refine ⟨sound_initial o maxConcurrency, ⟨hm, ?_⟩, ?_, fun _ => le_rfl⟩
  · intro x job hj
    cases hj
  · intro e he
    cases he

theorem Bounded.accounts_step (hm : 0 ≤ m) (h : Bounded m s) {a : Action}
    (ha : s.Disciplined a) : Accounts m (s.step a).queueOf (s.step a).log := by
  have heff := s.step_effect a
  have hplaced := h.sound.placed
  generalize s.step a = t at heff ⊢
  cases heff with
  | still hqueue =>
    simp only [System.queueOf, hqueue]
    exact h.accounts
  | enqueued he =>
    refine h.accounts.enqueue ?_ he
    intro e hmem hid
    exact ha (hid ▸ h.named e hmem)
  | emptied hd =>
    have hq := dequeue_none_ok hd
    exact h.accounts.fewer (fun x job hj => by rw [hq] at hj; exact hj) (by rw [hq]; rfl)
  | @admitted entered clock fuel now q job hroom hd =>
    have hacc := h.accounts.dequeue hplaced hd (.started job.id) rfl rfl rfl rfl
    have hhand : Accounts m q (s.log ++ [.started job.id] ++ [.handled job.id]) :=
      hacc.record (.handled job.id) rfl (fun _ _ => rfl) fun job' hj => hacc.delivered _ job' hj
    rw [List.append_assoc, List.singleton_append] at hhand
    exact hhand
  | @turnedAway entered clock fuel now q job msg hd =>
    have hacc := h.accounts.dequeue hplaced hd (.started job.id) rfl rfl rfl rfl
    have hfail := hacc.retryJob hm (hplaced.dequeue hd) (x := job.id) (by simp) (.ofMessage msg) now
    rw [List.append_assoc, List.singleton_append] at hfail
    exact hfail
  | settled hrun => exact h.accounts.conclude hm hplaced (List.mem_append_left _ hrun) _ _
  | cancelled => exact h.accounts.fewer (fun _ _ hj => cancel_getJob hj) rfl
  | cleared =>
    refine h.accounts.fewer ?_ rfl
    intro y job hj
    cases hj
  | @taken clock fuel q job hd =>
    exact h.accounts.dequeue hplaced hd (.taken job.id) rfl rfl rfl rfl
  | @acked x now q hk => exact h.accounts.ack hk (.acked x) rfl rfl rfl rfl
  | @returned x error now q hr =>
    exact h.accounts.retry hm hplaced (List.mem_append_right _ ha) hr (.returned x) rfl rfl rfl rfl

theorem Bounded.step (hm : 0 ≤ m) (h : Bounded m s) {a : Action} (ha : s.Disciplined a) :
    Bounded m (s.step a) := by
  obtain ⟨new, hext⟩ := step_extends h.sound ha
  refine ⟨h.sound.step ha, h.accounts_step hm ha, ?_, ?_⟩
  · intro e he
    rw [hext.log] at he
    rcases List.mem_append.mp he with he | he
    · exact hext.drawn (h.named e he)
    · exact hext.drawn (h.sound.placed.drawn_sub (hext.named e he))
  · intro x
    rw [hext.log, tally_append, tally_append]
    exact Nat.add_le_add (h.handled x) (hext.handled x)

/-! ### Jobs that will not run again -/

/- Drawn once, and neither waiting nor in anybody's hands. -/
def Gone (s : System) (x : String) : Prop :=
  x ∈ s.drawn ∧ x ∉ s.queueOf.queue ++ s.queueOf.retryQueue ++ (s.worker.running ++ s.held)

theorem Gone.step {x : String} (hs : Sound s) (h : Gone s x) {a : Action}
    (ha : s.Disciplined a) :
    Gone (s.step a) x ∧ tally isExecution x (s.step a).log = tally isExecution x s.log ∧
      tally isHandled x (s.step a).log = tally isHandled x s.log := by
  obtain ⟨new, hext⟩ := step_extends hs ha
  have hnew : ∀ e ∈ new, e.jobId ≠ x := by
    intro e he hid
    exact h.2 (hid ▸ hext.named e he)
  refine ⟨⟨hext.drawn h.1, ?_⟩, ?_, ?_⟩
  · intro hx
    rcases hext.places x hx with hx | hx
    · exact h.2 hx
    · exact hx h.1
  · rw [hext.log, tally_append, tally_eq_zero hnew, Nat.add_zero]
  · rw [hext.log, tally_append, tally_eq_zero hnew, Nat.add_zero]

/-! ### The backoff -/

theorem retryJob_record {q : JobQueue} {x : String} {error : Thrown} {now : ℕ} {job : Job}
    (h : (BackgroundWorker.retryJob q x error now).jobs.get x = some job) :
    ∃ job₀, job = q.retried job₀ error now := by
  unfold BackgroundWorker.retryJob at h
  cases hr : q.retry x error now with
  | ok q' =>
    simp only [hr] at h
    obtain ⟨job₀, -, rfl⟩ := retry_ok hr
    rw [issue_jobs, OrdMap.get_set_self] at h
    cases h
    exact ⟨job₀, rfl⟩
  | error e =>
    simp only [hr] at h
    rw [retry_error hr] at h
    cases h

theorem Bounded.backoff_of_retried {t : System} {q : JobQueue} {x : String} {job job₀ : Job}
    {error : Thrown} {now : ℕ} (h : Bounded m t) (hj : t.queueOf.getJob x = some job)
    (hr : job = q.retried job₀ error now) :
    job.status = .failed ∨ job.status = .retrying ∧
      job.delayMs = .number (.fin (now + backoff (tally isFailure x t.log))) := by
  have hback := retried_backoff q job₀ error now
  rw [← hr] at hback
  apply hback.imp id
  rintro ⟨hst, hdelay⟩
  obtain ⟨hatt, hcount⟩ := h.accounts.delivered x job hj
  rw [hst] at hcount
  have hatt₀ : job₀.attempts = tally isFailure x t.log := by
    rw [hcount.1, ← hatt, hr, retried_attempts]
  exact ⟨hst, by rw [hdelay, hatt₀]⟩

theorem Bounded.backoff_step (hm : 0 ≤ m) (h : Bounded m s) {a : Action} (ha : s.Disciplined a)
    {x : String} {job : Job} (hj : (s.step a).queueOf.getJob x = some job)
    (hf : tally isFailure x (s.step a).log ≠ tally isFailure x s.log) :
    job.status = .failed ∨ job.status = .retrying ∧ job.delayMs =
      .number (.fin (a.reading + backoff (tally isFailure x (s.step a).log))) := by
  have ht := h.step hm ha
  -- Only an entry `failed` or `returned` for `x` changes the tally.
  have hid : ∀ e : Execution, tally isFailure x (s.log ++ [e]) ≠ tally isFailure x s.log →
      e.jobId = x := by
    intro e hne
    by_contra hx
    have hzero : tally isFailure x [e] = 0 := by
      apply tally_eq_zero
      intro e' he'
      rw [List.mem_singleton.mp he']
      exact hx
    exact hne (by rw [tally_append, hzero, Nat.add_zero])
  have heff := s.step_effect a
  generalize s.step a = t at heff hj hf ht ⊢
  cases heff with
  | still => exact absurd rfl hf
  | enqueued => exact absurd rfl hf
  | emptied => exact absurd rfl hf
  | admitted =>
    apply absurd _ hf
    simp [tally, isFailure]
  | @turnedAway entered clock fuel now q job' msg hd =>
    have hx : job'.id = x := by
      apply hid (.failed job'.id)
      simpa [tally, isFailure] using hf
    obtain ⟨job₀, hret⟩ := retryJob_record (hx ▸ hj)
    exact ht.backoff_of_retried hj hret
  | @settled y outcome now hrun =>
    cases outcome with
    | none =>
      apply absurd _ hf
      simp [tally, isFailure]
    | some error =>
      have hx : y = x := hid _ hf
      obtain ⟨job₀, hret⟩ := retryJob_record (hx ▸ hj)
      exact ht.backoff_of_retried hj hret
  | cancelled => exact absurd rfl hf
  | cleared => exact absurd rfl hf
  | taken =>
    apply absurd _ hf
    simp [tally, isFailure]
  | acked =>
    apply absurd _ hf
    simp [tally, isFailure]
  | @returned y error now q hr =>
    have hx : y = x := hid (.returned y) hf
    have hsame : BackgroundWorker.retryJob s.queueOf y error now = q := by
      simp only [BackgroundWorker.retryJob, hr]
    obtain ⟨job₀, hret⟩ := retryJob_record (x := x) (by rw [← hx, hsame, hx]; exact hj)
    exact ht.backoff_of_retried hj hret

/-! ### Records stay until they are cancelled -/

def Retains (q q' : JobQueue) : Prop := ∀ x, (q.getJob x).isSome → (q'.getJob x).isSome

theorem retains_set {q q' : JobQueue} {x : String} {job : Job}
    (h : q'.jobs = q.jobs.set x job) : Retains q q' := by
  intro y hy
  unfold getJob at hy ⊢
  rw [h, OrdMap.get_set]
  split
  · rfl
  · exact hy

theorem retains_dequeue {q q' : JobQueue} {clock : ℕ → ℕ} {fuel : ℕ} {r : Option Job}
    (hd : q.dequeue clock fuel = some (r, q')) : Retains q q' := by
  cases r with
  | none =>
    rw [dequeue_none_ok hd]
    exact fun _ hx => hx
  | some job =>
    obtain ⟨x, job₀, k, -, -, -, hjobs, -⟩ := dequeue_some_ok hd
    exact retains_set hjobs

theorem retains_retryJob (q : JobQueue) (x : String) (error : Thrown) (now : ℕ) :
    Retains q (BackgroundWorker.retryJob q x error now) := by
  unfold BackgroundWorker.retryJob
  cases hr : q.retry x error now with
  | error e => exact fun _ hy => hy
  | ok q' =>
    obtain ⟨job, -, rfl⟩ := retry_ok hr
    exact retains_set (issue_jobs ..)

theorem retains_ack {q q' : JobQueue} {x : String} {now : ℕ} (ha : q.ack x now = .ok q') :
    Retains q q' := by
  obtain ⟨job, -, -, rfl⟩ := ack_ok ha
  exact retains_set (issue_jobs ..)

theorem retains_conclude (q : JobQueue) (x : String) (outcome : Option Thrown) (now : ℕ) :
    Retains q (BackgroundWorker.conclude q x outcome now) := by
  unfold BackgroundWorker.conclude
  cases outcome with
  | some error => exact retains_retryJob q x error now
  | none =>
    cases ha : q.ack x now with
    | error msg => exact retains_retryJob q x (.ofMessage msg) now
    | ok q' => exact retains_ack ha

theorem recorded_step {x : String} {a : Action} (h : (s.queueOf.getJob x).isSome)
    (hcancel : a ≠ .cancel x) (hclear : a ≠ .clear) : ((s.step a).queueOf.getJob x).isSome := by
  have heff := s.step_effect a
  generalize s.step a = t at heff ⊢
  cases heff with
  | still hqueue =>
    simp only [System.queueOf, hqueue]
    exact h
  | enqueued he =>
    obtain ⟨body, -, -, rfl⟩ := enqueue_ok he
    exact retains_set (issue_jobs ..) x h
  | emptied hd => exact retains_dequeue hd x h
  | admitted hroom hd => exact retains_dequeue hd x h
  | turnedAway hd => exact retains_retryJob _ _ _ _ x (retains_dequeue hd x h)
  | settled hrun => exact retains_conclude _ _ _ _ x h
  | @cancelled y =>
    have hy : y ≠ x := fun hy => hcancel (by rw [hy])
    show ((s.queueOf.jobs.delete y).get x).isSome
    rw [OrdMap.get_delete, if_neg hy]
    exact h
  | cleared => exact absurd rfl hclear
  | taken hd => exact retains_dequeue hd x h
  | acked hk => exact retains_ack hk x h
  | returned hr =>
    obtain ⟨job, -, rfl⟩ := retry_ok hr
    exact retains_set (issue_jobs ..) x h

theorem recorded_run {x : String} (s : System) (bs : List Action)
    (h : (s.queueOf.getJob x).isSome) (hbs : ∀ a ∈ bs, a ≠ .cancel x ∧ a ≠ .clear) :
    ((run System.step s bs).queueOf.getJob x).isSome :=
  run_invariant System.step (fun _ a => a ≠ .cancel x ∧ a ≠ .clear)
    (fun t => (t.queueOf.getJob x).isSome) (fun _ _ ht ha => recorded_step ht ha.1 ha.2) s bs h
    (along_of_mem System.step s bs hbs)

theorem Gone.run {x : String} (hs : Sound s) (h : Gone s x) (bs : List Action)
    (hbs : Along System.step System.Disciplined s bs) :
    tally isExecution x (run System.step s bs).log = tally isExecution x s.log ∧
      tally isHandled x (run System.step s bs).log = tally isHandled x s.log := by
  have hrel := run_relation System.step System.Disciplined Sound
    (fun u v => Gone u x → Gone v x ∧ tally isExecution x v.log = tally isExecution x u.log ∧
      tally isHandled x v.log = tally isHandled x u.log)
    (fun u hu => ⟨hu, rfl, rfl⟩)
    (fun u v w huv hvw hu => by
      obtain ⟨hv, he, hh⟩ := huv hu
      obtain ⟨hw, he', hh'⟩ := hvw hv
      exact ⟨hw, he'.trans he, hh'.trans hh⟩)
    (fun u a hu ha => hu.step ha) (fun u a hu ha hg => hg.step hu ha) s bs hs hbs
  exact (hrel h).2

end Steps

theorem backoff_pos {k : ℕ} (hk : 1 ≤ k) : backoff k = min ((2 : ℚ) ^ (k - 1) * 1000) 60000 := by
  have hcast : ((k : ℤ) - 1) = ((k - 1 : ℕ) : ℤ) := by omega
  rw [backoff, hcast, zpow_natCast]

/-- `m` is the effective retry limit. A recorded job is one that was enqueued and not
cancelled or cleared since; its `k`-th failure is the step that brings the tally to `k`. -/
theorem bounded_delivery (o : QueueOptions) (maxConcurrency : Option ℕ) (m : ℚ) (h0 : 0 ≤ m)
    (hm : (JobQueue.new o).maxRetries = .fin m) (as : List Action)
    (h : Along System.step System.Disciplined (.initial (.new (.new o) maxConcurrency)) as) :
    let s := run System.step (.initial (.new (.new o) maxConcurrency)) as
    (∀ x job, s.queueOf.getJob x = some job →
      (tally isHandled x s.log : ℚ) ≤ m + 1 ∧
      (job.status = .failed ↔ tally isFailure x s.log = ⌊m⌋₊ + 1) ∧
      (job.status = .completed ↔ tally isSuccess x s.log = 1) ∧
      tally isSuccess x s.log ≤ 1 ∧
      (job.status = .failed ∨ job.status = .completed → ∀ bs,
        Along System.step System.Disciplined s bs →
        tally isExecution x (run System.step s bs).log = tally isExecution x s.log ∧
        tally isHandled x (run System.step s bs).log = tally isHandled x s.log) ∧
      ∀ bs, (∀ a ∈ bs, a ≠ .cancel x ∧ a ≠ .clear) →
        ((run System.step s bs).queueOf.getJob x).isSome) ∧
    ∀ a x job, s.Disciplined a → (s.step a).queueOf.getJob x = some job →
      let k := tally isFailure x (s.step a).log
      k ≠ tally isFailure x s.log →
      job.status = .failed ∨ job.status = .retrying ∧
        job.delayMs = .number (.fin (a.reading + min ((2 : ℚ) ^ (k - 1) * 1000) 60000)) := by
  intro s
  have hs : Bounded m s := run_invariant System.step System.Disciplined (Bounded m)
    (fun _ _ hb ha => hb.step h0 ha) _ as (bounded_initial hm) h
  refine ⟨?_, ?_⟩
  · intro x job hj
    obtain ⟨hruns, hfailed, hcompleted, honce⟩ := (hs.accounts.delivered x job hj).bounds
    have hhand : (tally isHandled x s.log : ℚ) ≤ m + 1 := by
      calc (tally isHandled x s.log : ℚ) ≤ ((⌊m⌋₊ + 1 : ℕ) : ℚ) := by
            exact_mod_cast (hs.handled x).trans hruns
        _ = ⌊m⌋₊ + 1 := by push_cast; rfl
        _ ≤ m + 1 := by linarith [Nat.floor_le h0]
    refine ⟨hhand, hfailed, hcompleted, honce, ?_, ?_⟩
    · intro hend bs hbs
      obtain ⟨hdrawn, -, -, hplace⟩ := hs.sound.placed.recorded x job hj
      have hgone : Gone s x := by
        rcases hend with hst | hst <;> rw [hst] at hplace <;> exact ⟨hdrawn, hplace⟩
      exact hgone.run hs.sound bs hbs
    · intro bs hbs
      exact recorded_run s bs (by rw [hj]; rfl) hbs
  · intro a x job ha hj k hk
    have hback := hs.backoff_step h0 ha hj hk
    -- the failure just logged counts, so `k - 1` does not truncate
    have hpos : 1 ≤ k := by
      obtain ⟨-, hcount⟩ := (hs.step h0 ha).accounts.delivered x job hj
      rcases hback with hst | ⟨hst, -⟩ <;> rw [hst] at hcount <;> simp only at hcount <;> omega
    rw [← backoff_pos hpos]
    exact hback

theorem bounded_delivery_sample :
    ((run System.step (.initial (.new (.new sampleOptions) none)) sampleRun).queueOf.getJob
        "job-b").map Job.status = some .retrying ∧
      (tally isHandled "job-b"
        (run System.step (.initial (.new (.new sampleOptions) none)) sampleRun).log : ℚ) ≤
        3 + 1 := by
  have hm : (JobQueue.new sampleOptions).maxRetries = .fin 3 := by decide
  obtain ⟨hrecords, _⟩ := bounded_delivery sampleOptions none 3 (by norm_num) hm sampleRun
    sampleRun_disciplined
  have hst : ((run System.step (.initial (.new (.new sampleOptions) none))
      sampleRun).queueOf.getJob "job-b").map Job.status = some .retrying := by decide
  obtain ⟨job, hget, -⟩ := Option.map_eq_some_iff.mp hst
  exact ⟨hst, (hrecords "job-b" job hget).1⟩

end Liquifact.Workers
