import Liquifact.Lib.SqlLogic
import Liquifact.Workers.Replay

/-!
# Pruning the table (`jobPersistence.js:200-212`)

`pruneCompleted` deletes the rows of finished jobs by their `completed_at`. That column is
written by the insert and by `updateJobStatus`; `ackJob` sets `status` and `acked_at` only.
The rows are compared with the times at which the jobs were acknowledged or became failed,
over every run of the queue with the adapter attached.
-/

namespace Liquifact.Workers
open Liquifact.Lib JobQueue

/- `status IN ('completed', 'failed') AND completed_at < cutoff`. -/
def JobRow.prunable (cutoff : ℤ) (row : JobRow) : Bool :=
  holds (sqlAnd (some (decide (row.status = .completed ∨ row.status = .failed)))
    (sqlCompare (fun a b => decide (a < b)) (row.completedAt.map Int.ofNat) (some cutoff)))

/-- `pruneCompleted`: the number of rows deleted and the table without them. -/
def pruneCompleted (t : JobTable) (now : ℕ) (olderThanMs : ℤ) : ℕ × JobTable :=
  let cutoff := now - olderThanMs
  ((t.values.filter (JobRow.prunable cutoff)).length, t.removeWhere (JobRow.prunable cutoff))

inductive Operation where
  | enqueue (jobId : String) (now : ℕ) (type : String) (payload : Except String Json)
      (options : EnqueueOptions)
  | dequeue (clock : ℕ → ℕ) (fuel : ℕ)
  | ack (jobId : String) (now : ℕ)
  | retry (jobId : String) (error : Thrown) (now : ℕ)

/- The queue, the identifiers drawn for it, and which job was acknowledged or became failed
when. -/
structure Upkeep where
  queue : JobQueue
  drawn : List String
  finished : List (String × ℕ)

namespace Upkeep

def initial (q : JobQueue) : Upkeep := ⟨q, [], []⟩

def failedBefore (q : JobQueue) (x : String) : Bool :=
  (q.getJob x).any fun job => job.status = .failed

def step (s : Upkeep) : Operation → Upkeep
  | .enqueue jobId now type payload options =>
    match s.queue.enqueue jobId now type payload options with
    | .ok r => { s with queue := r.2, drawn := jobId :: s.drawn }
    | .error _ => s
  | .dequeue clock fuel =>
    match s.queue.dequeue clock fuel with
    | none => s
    | some r => { s with queue := r.2 }
  | .ack jobId now =>
    match s.queue.ack jobId now with
    | .ok q => { s with queue := q, finished := s.finished ++ [(jobId, now)] }
    | .error _ => s
  | .retry jobId error now =>
    match s.queue.retry jobId error now with
    | .ok q => { s with
        queue := q
        finished := if failedBefore q jobId && !failedBefore s.queue jobId
          then s.finished ++ [(jobId, now)] else s.finished }
    | .error _ => s

/-- Each job gets an identifier of its own, and no write is refused for its values. -/
def Applied (s : Upkeep) (a : Operation) : Prop :=
  (match a with
    | .enqueue jobId _ _ _ _ => jobId ∉ s.drawn
    | _ => True) ∧
  ∀ c ∈ (s.step a).queue.issued, c.fits = true

def table (js : JsonColumn) (s : Upkeep) : JobTable := landed js s.queue.issued

def FinishedBefore (s : Upkeep) (x : String) (cutoff : ℤ) : Prop :=
  ∃ t, (x, t) ∈ s.finished ∧ (t : ℤ) < cutoff

/-- Pruning at any time and for any age deletes the rows of the jobs that were acknowledged
or became failed longer ago, no other row, and none of a job that is not finished. -/
structure PrunesExactly (js : JsonColumn) (s : Upkeep) : Prop where
  deleted : ∀ (now : ℕ) (age : ℤ) x, ((s.table js).get x).isSome →
    ((pruneCompleted (s.table js) now age).2.get x = none ↔ s.FinishedBefore x (now - age))
  retained : ∀ (now : ℕ) (age : ℤ) x row, (pruneCompleted (s.table js) now age).2.get x = some row →
    (s.table js).get x = some row
  spared : ∀ (now : ℕ) (age : ℤ) x job, s.queue.getJob x = some job →
    job.status ≠ .completed → job.status ≠ .failed →
    (pruneCompleted (s.table js) now age).2.get x = (s.table js).get x

/-- No job is acknowledged, and a job that has failed is not failed again at another time. -/
def EndsOnce (s : Upkeep) : Operation → Prop
  | .ack jobId now => ∀ q, s.queue.ack jobId now ≠ .ok q
  | .retry jobId _ now => ∀ job, s.queue.getJob jobId = some job → job.status = .failed →
      job.completedAt = some now
  | _ => True

theorem step_ack_ok {s : Upkeep} {x : String} {now : ℕ} {q : JobQueue}
    (ha : s.queue.ack x now = .ok q) :
    s.step (.ack x now) = { s with queue := q, finished := s.finished ++ [(x, now)] } := by
  unfold step
  dsimp only
  rw [ha]

theorem step_retry_ok {s : Upkeep} {x : String} {error : Thrown} {now : ℕ} {q : JobQueue}
    (hr : s.queue.retry x error now = .ok q) :
    s.step (.retry x error now) = { s with
      queue := q
      finished := if failedBefore q x && !failedBefore s.queue x
        then s.finished ++ [(x, now)] else s.finished } := by
  unfold step
  dsimp only
  rw [hr]

end Upkeep

/-! ### What the condition of the query sees -/

/- The two columns the query reads. -/
def JobRow.ending (row : JobRow) : JobStatus × Option ℕ := (row.status, row.completedAt)

def Job.ending (job : Job) : JobStatus × Option ℕ := (job.status, job.completedAt)

theorem prunable_iff (cutoff : ℤ) (row : JobRow) : row.prunable cutoff = true ↔
    (row.status = .completed ∨ row.status = .failed) ∧
      ∃ t : ℕ, row.completedAt = some t ∧ (t : ℤ) < cutoff := by
  unfold JobRow.prunable
  cases row.completedAt with
  | none => simp [sqlCompare]
  | some t => simp [sqlCompare]

theorem pruned_none_iff {t : JobTable} {now : ℕ} {age : ℤ} {x : String} {row : JobRow}
    (h : t.get x = some row) :
    (pruneCompleted t now age).2.get x = none ↔ row.prunable (now - age) = true := by
  rw [Option.eq_none_iff_forall_ne_some]
  simp only [pruneCompleted, ne_eq, OrdMap.get_removeWhere, h, Option.some.injEq]
  constructor
  · intro hall
    by_contra hp
    exact hall row ⟨rfl, by simpa using hp⟩
  · rintro hp _ ⟨rfl, hf⟩
    rw [hp] at hf
    cases hf

theorem pruned_sub {t : JobTable} {now : ℕ} {age : ℤ} {x : String} {row : JobRow}
    (h : (pruneCompleted t now age).2.get x = some row) : t.get x = some row :=
  ((OrdMap.get_removeWhere ..).mp h).1

/-! ### The table mirrors the queue while nothing is acknowledged -/

/- How a recorded job stands in the history: failed once, or not finished. -/
def Upkeep.History (s : Upkeep) (x : String) (job : Job) : Prop :=
  (Buried s.queue job ∧ ∃ t, job.completedAt = some t ∧ ∀ t', (x, t') ∈ s.finished ↔ t' = t) ∨
  (job.status ≠ .failed ∧ job.status ≠ .completed ∧ job.completedAt = none ∧
    ∀ t, (x, t) ∉ s.finished)

structure Mirrored (js : JsonColumn) (s : Upkeep) : Prop where
  attached : s.queue.persistence.isSome = true
  rows : ∀ x, ((s.table js).get x).map JobRow.ending = (s.queue.getJob x).map Job.ending
  drawn : ∀ x, (s.queue.getJob x).isSome → x ∈ s.drawn
  finished : ∀ x t, (x, t) ∈ s.finished → x ∈ s.drawn
  ids : ∀ x job, s.queue.getJob x = some job → job.id = x
  history : ∀ x job, s.queue.getJob x = some job → s.History x job

section Mirror
variable {js : JsonColumn} {s : Upkeep}

theorem mirrored_initial (o : QueueOptions) (p : JobPersistence) :
    Mirrored js (.initial ((JobQueue.new o).attach p)) := by
  refine ⟨rfl, fun x => rfl, ?_, ?_, ?_, ?_⟩
  · intro x hx
    cases hx
  · intro x t ht
    cases ht
  · intro x job hj
    cases hj
  · intro x job hj
    cases hj

theorem Mirrored.job_of_row (h : Mirrored js s) {x : String} {row : JobRow}
    (hrow : (s.table js).get x = some row) :
    ∃ job, s.queue.getJob x = some job ∧ job.status = row.status ∧
      job.completedAt = row.completedAt := by
  have hx := h.rows x
  rw [hrow, Option.map_some, eq_comm] at hx
  obtain ⟨job, hjob, hending⟩ := Option.map_eq_some_iff.mp hx
  obtain ⟨hst, hdone⟩ := Prod.mk.inj hending
  exact ⟨job, hjob, hst, hdone⟩

theorem Mirrored.row_of_job (h : Mirrored js s) {x : String} {job : Job}
    (hjob : s.queue.getJob x = some job) :
    ∃ row, (s.table js).get x = some row ∧ row.status = job.status ∧
      row.completedAt = job.completedAt := by
  have hx := h.rows x
  rw [hjob, Option.map_some] at hx
  obtain ⟨row, hrow, hending⟩ := Option.map_eq_some_iff.mp hx
  obtain ⟨hst, hdone⟩ := Prod.mk.inj hending
  exact ⟨row, hrow, hst, hdone⟩

theorem Mirrored.prunesExactly (h : Mirrored js s) : s.PrunesExactly js := by
  refine ⟨?_, ?_, ?_⟩
  · intro now age x hsome
    obtain ⟨row, hrow⟩ := Option.isSome_iff_exists.mp hsome
    obtain ⟨job, hjob, hst, hdone⟩ := h.job_of_row hrow
    rw [pruned_none_iff hrow, prunable_iff, ← hst, ← hdone]
    rcases h.history x job hjob with ⟨hbur, t, ht, hfin⟩ | ⟨hnf, hnc, -, hfin⟩
    · simp [hbur.1, ht, Upkeep.FinishedBefore, hfin]
    · simp [hnf, hnc, Upkeep.FinishedBefore, hfin]
  · intro now age x row hrow
    exact pruned_sub hrow
  · intro now age x job hjob hnc hnf
    obtain ⟨row, hrow, hst, -⟩ := h.row_of_job hjob
    rw [hrow]
    refine (OrdMap.get_removeWhere ..).mpr ⟨hrow, ?_⟩
    rw [← Bool.not_eq_true, prunable_iff, hst]
    simp [hnc, hnf]

theorem Upkeep.History.congr {s s' : Upkeep} {x : String} {job : Job} (h : s.History x job)
    (hmax : s'.queue.maxRetries = s.queue.maxRetries)
    (hfin : ∀ t, (x, t) ∈ s'.finished ↔ (x, t) ∈ s.finished) : s'.History x job := by
  rcases h with ⟨⟨hst, hle⟩, t, ht, honly⟩ | ⟨hnf, hnc, hdone, hnone⟩
  · refine .inl ⟨⟨hst, by rw [hmax]; exact hle⟩, t, ht, fun t' => ?_⟩
    rw [hfin, honly]
  · refine .inr ⟨hnf, hnc, hdone, fun t => ?_⟩
    rw [hfin]
    exact hnone t

/- A call that rewrites the record of `x` and updates its row. -/
theorem Mirrored.update {q : JobQueue} {x : String} {job job' : Job} {finished : List (String × ℕ)}
    (h : Mirrored js s) (hget : s.queue.jobs.get x = some job) (hid : job'.id = x)
    (hjobs : q.jobs = s.queue.jobs.set x job') (hw : Wrote s.queue q (.updateJobStatus job'))
    (hfits : ∀ c ∈ q.issued, c.fits = true)
    (hother : ∀ y t, x ≠ y → ((y, t) ∈ finished ↔ (y, t) ∈ s.finished))
    (hself : Upkeep.History ⟨q, s.drawn, finished⟩ x job') :
    Mirrored js ⟨q, s.drawn, finished⟩ := by
  have hland : landed js q.issued =
      AdapterCall.write js (landed js s.queue.issued) (.updateJobStatus job') :=
    landed_of_wrote h.attached hw hfits
  have hdrawn : x ∈ s.drawn := h.drawn x (by rw [JobQueue.getJob, hget]; rfl)
  have hnew : ∀ y, q.getJob y = if x = y then some job' else s.queue.getJob y := by
    intro y
    rw [JobQueue.getJob, hjobs, OrdMap.get_set]
    rfl
  refine ⟨by rw [hw.persistence]; exact h.attached, ?_, ?_, ?_, ?_, ?_⟩
  · intro y
    simp only [Upkeep.table, hland, AdapterCall.write, OrdMap.get_modify, hid, hnew]
    by_cases hy : x = y
    · subst hy
      obtain ⟨row, hrow, -, -⟩ := h.row_of_job hget
      have hrow' : (landed js s.queue.issued).get x = some row := hrow
      simp [hrow', JobRow.ending, Job.ending]
    · simp only [if_neg hy]
      exact h.rows y
  · intro y hy
    rw [hnew] at hy
    by_cases hxy : x = y
    · rw [← hxy]
      exact hdrawn
    · rw [if_neg hxy] at hy
      exact h.drawn y hy
  · intro y t ht
    by_cases hxy : x = y
    · rw [← hxy]
      exact hdrawn
    · exact h.finished y t ((hother y t hxy).mp ht)
  · intro y j hj
    rw [hnew] at hj
    by_cases hxy : x = y
    · rw [if_pos hxy] at hj
      cases hj
      exact hid.trans hxy
    · rw [if_neg hxy] at hj
      exact h.ids y j hj
  · intro y j hj
    rw [hnew] at hj
    by_cases hxy : x = y
    · subst hxy
      rw [if_pos rfl] at hj
      cases hj
      exact hself
    · rw [if_neg hxy] at hj
      exact (h.history y j hj).congr hw.maxRetries fun t => hother y t hxy

theorem Mirrored.enqueue (h : Mirrored js s) {x j type : String} {now : ℕ}
    {payload : Except String Json} {o : EnqueueOptions} {q : JobQueue}
    (he : s.queue.enqueue x now type payload o = .ok (j, q)) (hfresh : x ∉ s.drawn)
    (hfits : ∀ c ∈ q.issued, c.fits = true) :
    Mirrored js { s with queue := q, drawn := x :: s.drawn } := by
  obtain ⟨body, -, -, hq⟩ := enqueue_ok he
  have hw : Wrote s.queue q (.persistJob (newJob x now type body o)) := wrote_issue hq rfl rfl rfl
  have hnone : s.queue.getJob x = none := by
    rw [← Option.not_isSome_iff_eq_none]
    exact fun hsome => hfresh (h.drawn x hsome)
  have hnew : ∀ y, q.getJob y = if x = y then some (newJob x now type body o)
      else s.queue.getJob y := by
    intro y
    rw [JobQueue.getJob, hq, issue_jobs, OrdMap.get_set]
    rfl
  -- no row stands under the fresh identifier, so the insert is not refused
  have hhas : (s.table js).has x = false := by
    have hx := h.rows x
    rw [hnone, Option.map_none, Option.map_eq_none_iff] at hx
    rw [OrdMap.has, hx]
    rfl
  have hland : landed js q.issued = (s.table js).set x (toRow js (newJob x now type body o)) := by
    rw [landed_of_wrote h.attached hw hfits, AdapterCall.write]
    exact if_neg (by rw [← Bool.not_eq_true] at hhas; exact hhas)
  refine ⟨by rw [hw.persistence]; exact h.attached, ?_, ?_, ?_, ?_, ?_⟩
  · intro y
    simp only [Upkeep.table, hland, OrdMap.get_set, hnew]
    by_cases hxy : x = y
    · simp only [if_pos hxy]
      rfl
    · simp only [if_neg hxy]
      exact h.rows y
  · intro y hy
    rw [hnew] at hy
    by_cases hxy : x = y
    · rw [hxy]
      exact List.mem_cons_self ..
    · rw [if_neg hxy] at hy
      exact List.mem_cons_of_mem _ (h.drawn y hy)
  · intro y t ht
    exact List.mem_cons_of_mem _ (h.finished y t ht)
  · intro y job hj
    rw [hnew] at hj
    by_cases hxy : x = y
    · rw [if_pos hxy] at hj
      cases hj
      exact hxy
    · rw [if_neg hxy] at hj
      exact h.ids y job hj
  · intro y job hj
    rw [hnew] at hj
    by_cases hxy : x = y
    · subst hxy
      rw [if_pos rfl] at hj
      cases hj
      exact .inr ⟨by simp [newJob], by simp [newJob], rfl, fun t ht => hfresh (h.finished x t ht)⟩
    · rw [if_neg hxy] at hj
      exact (h.history y job hj).congr hw.maxRetries fun t => Iff.rfl

theorem Mirrored.dequeue (h : Mirrored js s) {clock : ℕ → ℕ} {fuel : ℕ} {r : Option Job}
    {q : JobQueue} (hd : s.queue.dequeue clock fuel = some (r, q))
    (hfits : ∀ c ∈ q.issued, c.fits = true) : Mirrored js { s with queue := q } := by
  obtain ⟨handed, hspec⟩ := dequeue_spec hd
  cases handed with
  | none =>
    obtain ⟨-, hq⟩ := hspec.none_eq rfl
    rw [hq]
    exact ⟨h.attached, h.rows, h.drawn, h.finished, h.ids, h.history⟩
  | some x =>
    obtain ⟨job, k, hget, hready, -, hq⟩ := hspec.of_some
    have hw : Wrote s.queue q (.updateJobStatus (started job (clock (k + 1)))) :=
      wrote_issue hq rfl rfl rfl
    have hid : (started job (clock (k + 1))).id = x := h.ids x job hget
    -- a job that is handed out was pending or retrying
    have hopen : job.status ≠ .failed := by
      intro hst
      simp [isReadyToProcess, hst] at hready
    refine h.update hget hid (by rw [hq, issue_jobs]) hw hfits (fun y t _ => Iff.rfl) (.inr ?_)
    rcases h.history x job hget with ⟨hbur, -⟩ | ⟨-, -, hdone, hnone⟩
    · exact absurd hbur.1 hopen
    · exact ⟨by simp [started], by simp [started], hdone, hnone⟩

theorem retried_failed {q : JobQueue} {job : Job} (error : Thrown) (now : ℕ)
    (h : JsNumber.le (.ofNat job.attempts) q.maxRetries = false) :
    (q.retried job error now).status = .failed ∧
      (q.retried job error now).completedAt = some now := by
  simp [JobQueue.retried, h]

theorem retried_open {q : JobQueue} {job : Job} (error : Thrown) (now : ℕ)
    (h : JsNumber.le (.ofNat job.attempts) q.maxRetries = true) :
    (q.retried job error now).status = .retrying ∧
      (q.retried job error now).completedAt = job.completedAt := by
  simp [JobQueue.retried, h]

theorem failedBefore_iff {q : JobQueue} {x : String} {job : Job} (h : q.getJob x = some job) :
    Upkeep.failedBefore q x = decide (job.status = .failed) := by
  rw [Upkeep.failedBefore, h]
  rfl

theorem Mirrored.retry (h : Mirrored js s) {x : String} {error : Thrown} {now : ℕ} {q : JobQueue}
    (hr : s.queue.retry x error now = .ok q) (hfits : ∀ c ∈ q.issued, c.fits = true)
    (honce : s.EndsOnce (.retry x error now)) :
    Mirrored js (s.step (.retry x error now)) := by
  obtain ⟨job, hget, hq⟩ := retry_ok hr
  have hw : Wrote s.queue q (.updateJobStatus (s.queue.retried job error now)) :=
    wrote_issue hq rfl rfl rfl
  have hid : (s.queue.retried job error now).id = x := (retried_id ..).trans (h.ids x job hget)
  have hjobs : q.jobs = s.queue.jobs.set x (s.queue.retried job error now) := by
    rw [hq, issue_jobs]
  have hafter : q.getJob x = some (s.queue.retried job error now) := by
    rw [JobQueue.getJob, hjobs, OrdMap.get_set_self]
  rw [Upkeep.step_retry_ok hr, failedBefore_iff hafter, failedBefore_iff hget]
  cases hle : JsNumber.le (.ofNat job.attempts) s.queue.maxRetries with
  | true =>
    -- the job goes to the retry queue; it had not failed
    obtain ⟨hst, hdone⟩ := retried_open error now hle
    have hfin : (decide ((s.queue.retried job error now).status = .failed) &&
        !decide (job.status = .failed)) = false := by simp [hst]
    rw [hfin]
    refine h.update hget hid hjobs hw hfits (fun y t _ => Iff.rfl) (.inr ?_)
    rcases h.history x job hget with ⟨hbur, -⟩ | ⟨-, -, hnone, hfresh⟩
    · exact absurd hle (by rw [hbur.2]; decide)
    · exact ⟨by simp [hst], by simp [hst], hdone.trans hnone, hfresh⟩
  | false =>
    obtain ⟨hst, hdone⟩ := retried_failed error now hle
    have hburied : Buried q (s.queue.retried job error now) :=
      ⟨hst, by rw [retried_attempts, hw.maxRetries]; exact hle⟩
    by_cases hbefore : job.status = .failed
    · have hfin : (decide ((s.queue.retried job error now).status = .failed) &&
          !decide (job.status = .failed)) = false := by simp [hbefore]
      rw [hfin]
      refine h.update hget hid hjobs hw hfits (fun y t _ => Iff.rfl) (.inl ⟨hburied, ?_⟩)
      rcases h.history x job hget with ⟨-, t, ht, honly⟩ | ⟨hnf, -⟩
      · obtain rfl : t = now := Option.some.inj (ht.symm.trans (honce job hget hbefore))
        exact ⟨t, hdone, honly⟩
      · exact absurd hbefore hnf
    · have hfin : (decide ((s.queue.retried job error now).status = .failed) &&
          !decide (job.status = .failed)) = true := by simp [hst, hbefore]
      rw [hfin]
      refine h.update hget hid hjobs hw hfits ?_ (.inl ⟨hburied, now, hdone, ?_⟩)
      · intro y t hxy
        simp [Ne.symm hxy]
      · intro t
        rcases h.history x job hget with ⟨hbur, -⟩ | ⟨-, -, -, hfresh⟩
        · exact absurd hbur.1 hbefore
        · simp [hfresh]

theorem Mirrored.step (h : Mirrored js s) {a : Operation} (hback : s.Applied a)
    (honce : s.EndsOnce a) : Mirrored js (s.step a) := by
  obtain ⟨hfresh, hfits⟩ := hback
  cases a with
  | enqueue x now type payload o =>
    simp only [Upkeep.step] at hfits ⊢
    cases he : s.queue.enqueue x now type payload o with
    | error m => exact h
    | ok r =>
      simp only [he] at hfits
      exact h.enqueue he hfresh hfits
  | dequeue clock fuel =>
    simp only [Upkeep.step] at hfits ⊢
    cases hd : s.queue.dequeue clock fuel with
    | none => exact h
    | some r =>
      simp only [hd] at hfits
      exact h.dequeue hd hfits
  | ack x now =>
    simp only [Upkeep.step]
    cases ha : s.queue.ack x now with
    | error m => exact h
    | ok q => exact absurd ha (honce q)
  | retry x error now =>
    cases hr : s.queue.retry x error now with
    | error m =>
      simp only [Upkeep.step, hr]
      exact h
    | ok q =>
      rw [Upkeep.step_retry_ok hr] at hfits
      exact h.retry hr hfits honce

/-! ### The steps that break it -/

/- An acknowledged job keeps a row without `completed_at`. -/
theorem Mirrored.not_prunes_of_ack (h : Mirrored js s) {x : String} {now : ℕ} {q : JobQueue}
    (ha : s.queue.ack x now = .ok q) (hfits : ∀ c ∈ q.issued, c.fits = true) :
    ¬ (s.step (.ack x now)).PrunesExactly js := by
  intro hp
  obtain ⟨job, hget, hst, hq⟩ := ack_ok ha
  obtain ⟨row, hrow, -, hdone⟩ := h.row_of_job hget
  have hland : landed js q.issued = AdapterCall.write js (s.table js) (.ackJob x now) :=
    landed_of_wrote h.attached (wrote_issue hq rfl rfl rfl) hfits
  have hnone : row.completedAt = none := by
    rcases h.history x job hget with ⟨hbur, -⟩ | ⟨-, -, hopen, -⟩
    · rw [hbur.1] at hst
      cases hst
    · exact hdone.trans hopen
  rw [Upkeep.step_ack_ok ha] at hp
  have hrow' : (Upkeep.table js { s with queue := q, finished := s.finished ++ [(x, now)] }).get x =
      some { row with status := .completed, ackedAt := some now } := by
    rw [Upkeep.table, hland, AdapterCall.write, OrdMap.get_modify, if_pos rfl, hrow]
    rfl
  have hdel := (hp.deleted (now + 1) 0 x (by rw [hrow']; rfl)).mpr
    ⟨now, List.mem_append_right _ (List.mem_singleton_self _), by push_cast; omega⟩
  rw [pruned_none_iff hrow', prunable_iff] at hdel
  obtain ⟨-, t, ht, -⟩ := hdel
  rw [hnone] at ht
  cases ht

/- A second `retry` of a failed job moves its `completed_at`. -/
theorem Mirrored.not_prunes_of_retry (h : Mirrored js s) {x : String} {error : Thrown} {now : ℕ}
    {q : JobQueue} {job : Job} (hr : s.queue.retry x error now = .ok q)
    (hfits : ∀ c ∈ q.issued, c.fits = true) (hget : s.queue.getJob x = some job)
    (hst : job.status = .failed) (hne : job.completedAt ≠ some now) :
    ¬ (s.step (.retry x error now)).PrunesExactly js := by
  intro hp
  obtain ⟨job', hget', hq⟩ := retry_ok hr
  obtain rfl : job' = job := Option.some.inj (hget'.symm.trans hget)
  obtain ⟨row, hrow, -, -⟩ := h.row_of_job hget
  rcases h.history x job' hget with ⟨hbur, t, ht, honly⟩ | ⟨hnf, -⟩
  swap
  · exact hnf hst
  obtain ⟨hst', hdone'⟩ := retried_failed error now hbur.2
  have hid : (s.queue.retried job' error now).id = x := (retried_id ..).trans (h.ids x job' hget)
  have hland : landed js q.issued = AdapterCall.write js (s.table js)
      (.updateJobStatus (s.queue.retried job' error now)) :=
    landed_of_wrote h.attached (wrote_issue hq rfl rfl rfl) hfits
  have hstep : s.step (.retry x error now) = { s with queue := q } := by
    simp [Upkeep.step_retry_ok hr, failedBefore_iff hget, hst]
  rw [hstep] at hp
  obtain ⟨row', hrow', hfailed, hmoved⟩ : ∃ row', (Upkeep.table js { s with queue := q }).get x =
      some row' ∧ row'.status = .failed ∧ row'.completedAt = some now := by
    rw [Upkeep.table, hland, AdapterCall.write, OrdMap.get_modify, if_pos hid, hrow]
    exact ⟨_, rfl, hst', hdone'⟩
  have hiff : ∀ (now' : ℕ), ((now : ℤ) < now' ↔ (t : ℤ) < now') := by
    intro now'
    have hdel := hp.deleted now' 0 x (by rw [hrow']; rfl)
    rw [pruned_none_iff hrow', prunable_iff] at hdel
    simpa [hfailed, hmoved, Upkeep.FinishedBefore, honly] using hdel
  have hlow := hiff now
  have hhigh := hiff t
  have hnt : t ≠ now := by
    rintro rfl
    exact hne ht
  omega

theorem Mirrored.endsOnce_of_prunes (h : Mirrored js s) {a : Operation} (hback : s.Applied a)
    (hp : (s.step a).PrunesExactly js) : s.EndsOnce a := by
  obtain ⟨-, hfits⟩ := hback
  cases a with
  | enqueue x now type payload o => trivial
  | dequeue clock fuel => trivial
  | ack x now =>
    intro q ha
    rw [Upkeep.step_ack_ok ha] at hfits
    exact h.not_prunes_of_ack ha hfits hp
  | retry x error now =>
    intro job hget hst
    by_contra hne
    cases hr : s.queue.retry x error now with
    | error m =>
      rw [JobQueue.getJob, retry_error hr] at hget
      cases hget
    | ok q =>
      rw [Upkeep.step_retry_ok hr] at hfits
      exact h.not_prunes_of_retry hr hfits hget hst hne hp

end Mirror

/-- In every run of the queue with the adapter attached and its writes applied, pruning is
exact in every state reached exactly when no job is acknowledged and none that has failed is
failed again at another time. -/
theorem prunes_exactly_iff (js : JsonColumn) (o : QueueOptions) (p : JobPersistence)
    (as : List Operation)
    (happlied : Along Upkeep.step Upkeep.Applied (.initial ((JobQueue.new o).attach p)) as) :
    (∀ pre, pre <+: as → (run Upkeep.step (.initial ((JobQueue.new o).attach p)) pre).PrunesExactly js) ↔
      Along Upkeep.step Upkeep.EndsOnce (.initial ((JobQueue.new o).attach p)) as :=
  forall_prefix_iff_along_of Upkeep.step Upkeep.Applied Upkeep.EndsOnce (Mirrored js)
    (Upkeep.PrunesExactly js) (fun _ h => h.prunesExactly) (fun _ _ h hback honce => h.step hback honce)
    (fun _ _ h hback hp => h.endsOnce_of_prunes hback hp) _ as (mirrored_initial o p) happlied

def attachedQueue : JobQueue := (JobQueue.new ⟨some (.fin 0), none, none⟩).attach ⟨1000⟩

def sampleSubmit : Operation := .enqueue "job-1" 5 "mail" (.ok (.obj [])) ⟨.fin 0, .fin 0⟩

def failingRun : List Operation :=
  [sampleSubmit, .dequeue (fun _ => 6) 2, .retry "job-1" (.ofMessage "refused") 7]

def ackedRun : List Operation := [sampleSubmit, .dequeue (fun _ => 6) 2, .ack "job-1" 7]

theorem ackedRun_applied :
    Along Upkeep.step Upkeep.Applied (.initial attachedQueue) ackedRun := by
  refine ⟨⟨List.not_mem_nil, by decide⟩, ⟨trivial, by decide⟩, ⟨trivial, by decide⟩,
    trivial⟩

theorem prunes_exactly_sample :
    (run Upkeep.step (.initial attachedQueue) failingRun).PrunesExactly plainColumn := by
  refine (prunes_exactly_iff plainColumn ⟨some (.fin 0), none, none⟩ ⟨1000⟩ failingRun ?_).mpr ?_
    failingRun (List.prefix_refl _)
  · exact ⟨⟨List.not_mem_nil, by decide⟩, ⟨trivial, by decide⟩,
      ⟨trivial, by decide⟩, trivial⟩
  · refine ⟨trivial, trivial, ?_, trivial⟩
    intro job hget hst
    cases hget
    cases hst

theorem acked_row_stays : ¬ ∀ (js : JsonColumn) (o : QueueOptions) (p : JobPersistence)
    (as : List Operation),
    Along Upkeep.step Upkeep.Applied (.initial ((JobQueue.new o).attach p)) as →
    ∀ pre, pre <+: as →
      (run Upkeep.step (.initial ((JobQueue.new o).attach p)) pre).PrunesExactly js := by
  intro h
  have hp := h plainColumn ⟨some (.fin 0), none, none⟩ ⟨1000⟩ ackedRun ackedRun_applied ackedRun
    (List.prefix_refl _)
  have hdel := (hp.deleted 1000 0 "job-1" (by decide)).mpr
    ⟨7, by decide, by decide⟩
  exact absurd hdel (by decide)

end Liquifact.Workers
