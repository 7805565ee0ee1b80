import Liquifact.Lib.Run
import Liquifact.Workers.JobPersistence

/-!
# The queue across a crash

A `Session` is one life of a queue, from its construction to the crash: the queue,
the identifiers drawn for it, the jobs it accepted and which of them were
acknowledged, failed for good, or dropped by `cancel` and `clear`. What survives the
crash is the table on which the calls issued so far have landed.
-/

namespace Liquifact.Workers
open Liquifact.Lib JobQueue

structure Session where
  queue : JobQueue
  drawn : List String
  accepted : List Job
  acked : List String
  failed : List String
  dropped : List String

inductive QueueCall where
  | enqueue (jobId : String) (now : ℕ) (type : String) (payload : Except String Json)
      (options : EnqueueOptions)
  | dequeue (clock : ℕ → ℕ) (fuel : ℕ)
  | ack (jobId : String) (now : ℕ)
  | retry (jobId : String) (error : Thrown) (now : ℕ)
  | cancel (jobId : String)
  | clear

namespace Session

def initial (q : JobQueue) : Session := ⟨q, [], [], [], [], []⟩

def hasFailed (q : JobQueue) (x : String) : Bool :=
  (q.getJob x).any fun job => job.status = .failed

def step (s : Session) : QueueCall → Session
  | .enqueue jobId now type payload options =>
    match s.queue.enqueue jobId now type payload options with
    | .ok r => { s with
        queue := r.2
        drawn := jobId :: s.drawn
        accepted := s.accepted ++ (r.2.getJob jobId).toList }
    | .error _ => s
  | .dequeue clock fuel =>
    match s.queue.dequeue clock fuel with
    | none => s
    | some r => { s with queue := r.2 }
  | .ack jobId now =>
    match s.queue.ack jobId now with
    | .ok q => { s with queue := q, acked := s.acked ++ [jobId] }
    | .error _ => s
  | .retry jobId error now =>
    match s.queue.retry jobId error now with
    | .ok q => { s with
        queue := q
        failed := if hasFailed q jobId then s.failed ++ [jobId] else s.failed }
    | .error _ => s
  | .cancel jobId => { s with
      queue := (s.queue.cancel jobId).2
      dropped := if (s.queue.cancel jobId).1 then s.dropped ++ [jobId] else s.dropped }
  | .clear => { s with
      queue := s.queue.clear.2
      dropped := s.dropped ++ s.queue.jobs.entries.map Prod.fst }

def outstanding (s : Session) : List Job :=
  s.accepted.filter fun job => job.id ∉ s.acked ++ s.failed ++ s.dropped

/-- What the random draw and the database give: a fresh identifier for each job, and
no write refused for its values. -/
def Backing (s : Session) (a : QueueCall) : Prop :=
  (match a with
    | .enqueue jobId _ _ _ _ => jobId ∉ s.drawn
    | _ => True) ∧
  ∀ c ∈ (s.step a).queue.issued, c.fits = true

end Session

/-! ### What a call does -/

/- `q'` has issued `c` on top of what `q` had, if an adapter is there. -/
structure Wrote (q q' : JobQueue) (c : AdapterCall) : Prop where
  maxRetries : q'.maxRetries = q.maxRetries
  persistence : q'.persistence = q.persistence
  issued : q'.issued = if q.persistence.isSome then q.issued ++ [c] else q.issued

theorem wrote_issue {q q' base : JobQueue} {c : AdapterCall} (hq : q' = base.issue c)
    (hmax : base.maxRetries = q.maxRetries) (hper : base.persistence = q.persistence)
    (hissued : base.issued = q.issued) : Wrote q q' c := by
  subst hq
  refine ⟨(issue_maxRetries base c).trans hmax, (issue_persistence base c).trans hper, ?_⟩
  rw [← hper, ← hissued]
  unfold issue
  split <;> rfl

inductive Effect (s : Session) (a : QueueCall) : Session → Prop where
  | refused : Effect s a s
  | idle {q : JobQueue} (hjobs : q.jobs = s.queue.jobs) (hmax : q.maxRetries = s.queue.maxRetries)
      (hper : q.persistence = s.queue.persistence) (hissued : q.issued = s.queue.issued) :
      Effect s a { s with queue := q }
  | enqueued {q : JobQueue} (x : String) (job : Job) (hid : job.id = x)
      (ha : ∃ now type payload options, a = .enqueue x now type payload options)
      (hjobs : q.jobs = s.queue.jobs.set x job) (hw : Wrote s.queue q (.persistJob job)) :
      Effect s a { s with queue := q, drawn := x :: s.drawn, accepted := s.accepted ++ [job] }
  | taken {q : JobQueue} (x : String) (job : Job) (now now' : ℕ)
      (hget : s.queue.jobs.get x = some job) (hready : isReadyToProcess job now = true)
      (hjobs : q.jobs = s.queue.jobs.set x (started job now'))
      (hw : Wrote s.queue q (.updateJobStatus (started job now'))) :
      Effect s a { s with queue := q }
  | acked {q : JobQueue} (x : String) (job : Job) (now : ℕ)
      (hget : s.queue.jobs.get x = some job) (hst : job.status = .processing)
      (hjobs : q.jobs = s.queue.jobs.set x { job with status := .completed, completedAt := some now })
      (hw : Wrote s.queue q (.ackJob x now)) :
      Effect s a { s with queue := q, acked := s.acked ++ [x] }
  | retried {q : JobQueue} (x : String) (job : Job) (error : Thrown) (now : ℕ)
      (hget : s.queue.jobs.get x = some job)
      (hjobs : q.jobs = s.queue.jobs.set x (s.queue.retried job error now))
      (hw : Wrote s.queue q (.updateJobStatus (s.queue.retried job error now))) :
      Effect s a { s with
        queue := q
        failed := if (s.queue.retried job error now).status = .failed then s.failed ++ [x]
          else s.failed }
  | dropped {q : JobQueue} {gone : List String}
      (hjobs : ∀ x job, q.jobs.get x = some job → s.queue.jobs.get x = some job)
      (hmax : q.maxRetries = s.queue.maxRetries)
      (hper : q.persistence = s.queue.persistence) (hissued : q.issued = s.queue.issued) :
      Effect s a { s with queue := q, dropped := gone }

theorem effect_enqueue (s : Session) (jobId : String) (now : ℕ) (type : String)
    (payload : Except String Json) (options : EnqueueOptions) :
    Effect s (.enqueue jobId now type payload options)
      (s.step (.enqueue jobId now type payload options)) := by
  unfold Session.step
  dsimp only
  cases he : s.queue.enqueue jobId now type payload options with
  | error e => exact .refused
  | ok r =>
    obtain ⟨body, -, -, hq⟩ := enqueue_ok he
    have hjobs : r.2.jobs = s.queue.jobs.set jobId (newJob jobId now type body options) := by
      rw [hq, issue_jobs]
    have hget : r.2.getJob jobId = some (newJob jobId now type body options) := by
      rw [getJob, hjobs, OrdMap.get_set_self]
    have hw : Wrote s.queue r.2 (.persistJob (newJob jobId now type body options)) :=
      wrote_issue hq rfl rfl rfl
    simp only [hget, Option.toList_some]
    exact .enqueued jobId _ rfl ⟨now, type, payload, options, rfl⟩ hjobs hw

theorem effect_dequeue (s : Session) (clock : ℕ → ℕ) (fuel : ℕ) :
    Effect s (.dequeue clock fuel) (s.step (.dequeue clock fuel)) := by
  unfold Session.step
  dsimp only
  cases hd : s.queue.dequeue clock fuel with
  | none => exact .refused
  | some r =>
    obtain ⟨found, q⟩ := r
    obtain ⟨handed, hspec⟩ := dequeue_spec hd
    cases handed with
    | none =>
      obtain ⟨-, hq⟩ := hspec.none_eq rfl
      exact .idle (by rw [hq]) (by rw [hq]) (by rw [hq]) (by rw [hq])
    | some x =>
      obtain ⟨job, k, hget, hready, -, hq⟩ := hspec.of_some
      have hjobs : q.jobs = s.queue.jobs.set x (started job (clock (k + 1))) := by
        rw [hq, issue_jobs]
      exact .taken x job _ (clock (k + 1)) hget hready hjobs (wrote_issue hq rfl rfl rfl)

theorem effect_ack (s : Session) (x : String) (now : ℕ) :
    Effect s (.ack x now) (s.step (.ack x now)) := by
  unfold Session.step
  dsimp only
  cases ha : s.queue.ack x now with
  | error e => exact .refused
  | ok q =>
    obtain ⟨job, hget, hst, hq⟩ := ack_ok ha
    exact .acked x job now hget hst (by rw [hq, issue_jobs]) (wrote_issue hq rfl rfl rfl)

theorem effect_retry (s : Session) (x : String) (error : Thrown) (now : ℕ) :
    Effect s (.retry x error now) (s.step (.retry x error now)) := by
  unfold Session.step
  dsimp only
  cases hr : s.queue.retry x error now with
  | error e => exact .refused
  | ok q =>
    obtain ⟨job, hget, hq⟩ := retry_ok hr
    have hjobs : q.jobs = s.queue.jobs.set x (s.queue.retried job error now) := by
      rw [hq, issue_jobs]
    have hfailed : Session.hasFailed q x =
        decide ((s.queue.retried job error now).status = .failed) := by
      simp [Session.hasFailed, getJob, hjobs]
    have hw : Wrote s.queue q (.updateJobStatus (s.queue.retried job error now)) :=
      wrote_issue hq rfl rfl rfl
    simp only [hfailed, decide_eq_true_eq]
    exact .retried x job error now hget hjobs hw

theorem step_effect (s : Session) (a : QueueCall) : Effect s a (s.step a) := by
  cases a with
  | enqueue jobId now type payload options => exact effect_enqueue s jobId now type payload options
  | dequeue clock fuel => exact effect_dequeue s clock fuel
  | ack x now => exact effect_ack s x now
  | retry x error now => exact effect_retry s x error now
  | cancel x =>
    exact .dropped (fun y job hj => cancel_getJob hj) rfl rfl rfl
  | clear =>
    refine .dropped ?_ rfl rfl rfl
    intro y job hj
    cases hj

def Available (q : JobQueue) (x : String) : Prop :=
  (q.getJob x).isSome ∧ x ∈ q.queue ++ q.retryQueue

/-! ### Restoring -/

section Restore

theorem restoreLoop_from {x : String} (recovered : List Job) (q : JobQueue)
    (h : (((restoreLoop recovered q).2.getJob x).isSome ∨
      x ∈ (restoreLoop recovered q).2.queue ++ (restoreLoop recovered q).2.retryQueue)) :
    ((q.getJob x).isSome ∨ x ∈ q.queue ++ q.retryQueue) ∨ ∃ job ∈ recovered, job.id = x := by
  induction recovered generalizing q with
  | nil => exact .inl h
  | cons job rest ih =>
    have htail : (∃ job' ∈ rest, job'.id = x) → ∃ job' ∈ job :: rest, job'.id = x := by
      rintro ⟨job', hmem, hid⟩
      exact ⟨job', List.mem_cons_of_mem _ hmem, hid⟩
    simp only [restoreLoop] at h
    split at h
    · exact (ih q h).imp id htail
    · split at h
      · exact .inl h
      · rcases ih _ h with hq | hrest
        · by_cases hx : job.id = x
          · exact .inr ⟨job, List.mem_cons_self .., hx⟩
          · refine .inl ?_
            rcases hq with hq | hq
            · unfold getJob at hq
              rw [OrdMap.get_set_of_ne _ _ hx] at hq
              exact .inl hq
            · refine .inr ?_
              simp only [List.mem_append] at hq ⊢
              split at hq
              · simp only [List.mem_append, List.mem_singleton, Ne.symm hx, or_false] at hq
                exact hq
              · simp only [List.mem_append, List.mem_singleton, Ne.symm hx, or_false] at hq
                exact hq
        · exact .inr (htail hrest)

theorem restoreLoop_record {x : String} {job : Job} (recovered : List Job) (q : JobQueue)
    (h : (restoreLoop recovered q).2.getJob x = some job) :
    q.getJob x = some job ∨ job ∈ recovered := by
  induction recovered generalizing q with
  | nil => exact .inl h
  | cons job' rest ih =>
    simp only [restoreLoop] at h
    split at h
    · exact (ih q h).imp id (List.mem_cons_of_mem _)
    · split at h
      · exact .inl h
      · rcases ih _ h with hq | hrest
        · unfold getJob at hq
          rw [OrdMap.get_set] at hq
          split at hq
          · cases hq
            exact .inr (List.mem_cons_self ..)
          · exact .inl hq
        · exact .inr (List.mem_cons_of_mem _ hrest)

theorem restored_from {o : QueueOptions} {p : JobPersistence} {recovered : List Job} {x : String}
    (h : ((((JobQueue.new o).attach p).restoreFromPersistence recovered).2.getJob x).isSome ∨
      x ∈ (((JobQueue.new o).attach p).restoreFromPersistence recovered).2.queue ++
        (((JobQueue.new o).attach p).restoreFromPersistence recovered).2.retryQueue) :
    ∃ job ∈ recovered, job.id = x := by
  have hloop : ((JobQueue.new o).attach p).restoreFromPersistence recovered =
      restoreLoop recovered ((JobQueue.new o).attach p) := rfl
  rw [hloop] at h
  apply (restoreLoop_from recovered _ h).resolve_left
  rintro (hnone | hnil)
  · cases hnone
  · cases hnil

end Restore

/-! ### A queue that was given the adapter in its options -/

/-- A restart finds every outstanding job with an object payload again, unless there are
more of them than the row limit or the queue admits. -/
def SurvivesCrash (js : JsonColumn) (o : QueueOptions) (p : JobPersistence) (s : Session) : Prop :=
  s.outstanding.length ≤ p.maxRecoveryRows →
  s.outstanding.length ≤ (JobQueue.new o).maxQueueSize →
  ∀ rows, AnswersRecovery (landed js s.queue.issued) p.maxRecoveryRows rows →
  ∀ job ∈ s.outstanding, job.payload.isPlainObject = true →
    Available ((JobQueue.new o).restoreFromPersistence
      (recoverUnackedJobs js (some rows))).2 job.id

/- The constructor leaves `_persistence` unset, so nothing is ever issued. -/
def Unbacked (s : Session) : Prop := s.queue.persistence = none ∧ s.queue.issued = []

theorem Unbacked.wrote {q q' : JobQueue} {c : AdapterCall} (hp : q.persistence = none)
    (hi : q.issued = []) (hw : Wrote q q' c) : q'.persistence = none ∧ q'.issued = [] := by
  refine ⟨hw.persistence.trans hp, ?_⟩
  rw [hw.issued, hp]
  exact hi

theorem Unbacked.step {s : Session} (h : Unbacked s) (a : QueueCall) : Unbacked (s.step a) := by
  obtain ⟨hp, hi⟩ := h
  have heff := step_effect s a
  generalize s.step a = t at heff ⊢
  cases heff with
  | refused => exact ⟨hp, hi⟩
  | idle _ _ hper hissued => exact ⟨hper.trans hp, hissued.trans hi⟩
  | enqueued x job _ _ _ hw => exact Unbacked.wrote hp hi hw
  | taken x job now now' _ _ _ hw => exact Unbacked.wrote hp hi hw
  | acked x job now _ _ _ hw => exact Unbacked.wrote hp hi hw
  | retried x job error now _ _ hw => exact Unbacked.wrote hp hi hw
  | dropped _ _ hper hissued => exact ⟨hper.trans hp, hissued.trans hi⟩

theorem unbacked_run (o : QueueOptions) (as : List QueueCall) :
    Unbacked (run Session.step (.initial (.new o)) as) :=
  run_keeps Session.step Unbacked (fun _ a h => h.step a) _ as ⟨rfl, rfl⟩

theorem Unbacked.not_survives {js : JsonColumn} {o : QueueOptions} {p : JobPersistence}
    {s : Session} {job : Job} (h : Unbacked s) (hrows : s.outstanding.length ≤ p.maxRecoveryRows)
    (hsize : s.outstanding.length ≤ (JobQueue.new o).maxQueueSize) (hjob : job ∈ s.outstanding)
    (hobj : job.payload.isPlainObject = true) : ¬ SurvivesCrash js o p s := by
  intro hsurv
  have hanswer : AnswersRecovery (landed js s.queue.issued) p.maxRecoveryRows [] := by
    rw [h.2]
    exact ⟨[], List.Perm.refl _, List.Pairwise.nil, by simp⟩
  have hav := hsurv hrows hsize [] hanswer job hjob hobj
  exact absurd hav.2 (by simp [restoreFromPersistence, JobQueue.new])

/-- With the adapter in the constructor's options a restart finds nothing: the promise
holds exactly when it promises nothing. -/
theorem survivesCrash_iff (js : JsonColumn) (maxRetries : Option JsNumber) (maxQueueSize : Option ℕ)
    (p : JobPersistence) (as : List QueueCall) :
    let o : QueueOptions := ⟨maxRetries, maxQueueSize, some p⟩
    let s := run Session.step (.initial (.new o)) as
    SurvivesCrash js o p s ↔
      (∀ job ∈ s.outstanding, job.payload.isPlainObject = false) ∨
      p.maxRecoveryRows < s.outstanding.length ∨
      (JobQueue.new o).maxQueueSize < s.outstanding.length := by
  intro o s
  refine ⟨?_, ?_⟩
  · intro hsurv
    by_contra hcon
    rw [not_or, not_or] at hcon
    obtain ⟨hobj, hrows, hsize⟩ := hcon
    apply hobj
    intro job hjob
    by_contra hpay
    exact (unbacked_run o as).not_survives (not_lt.mp hrows) (not_lt.mp hsize) hjob
      (by simpa using hpay) hsurv
  · rintro (hobj | hrows | hsize) hle hsz rows - job hjob hpay
    · rw [hobj job hjob] at hpay
      cases hpay
    · exact absurd hle (not_le.mpr hrows)
    · exact absurd hsz (not_le.mpr hsize)

/- A `JSONB` column on values it stores as they are; no text is parsed. -/
def plainColumn : JsonColumn := ⟨id, fun _ => .error "Unexpected token", fun _ => rfl⟩

def sampleEnqueue : QueueCall := .enqueue "job-1" 5 "mail" (.ok (.obj [])) ⟨.fin 0, .fin 0⟩

theorem enqueued_job_lost :
    ¬ SurvivesCrash plainColumn ⟨none, none, some ⟨1000⟩⟩ ⟨1000⟩
      (run Session.step (.initial (.new ⟨none, none, some ⟨1000⟩⟩)) [sampleEnqueue]) := by
  have hjob : newJob "job-1" 5 "mail" (.obj []) ⟨.fin 0, .fin 0⟩ ∈
      (run Session.step (.initial (.new ⟨none, none, some ⟨1000⟩⟩)) [sampleEnqueue]).outstanding :=
    List.mem_singleton_self _
  exact (unbacked_run _ _).not_survives (Nat.le_of_ble_eq_true rfl) (Nat.le_of_ble_eq_true rfl)
    hjob rfl

end Liquifact.Workers
