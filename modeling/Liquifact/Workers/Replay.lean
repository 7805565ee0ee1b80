import Liquifact.Workers.Durability

/-!
# What comes back after a restart

With the adapter attached, every call of the queue but `cancel` and `clear` writes to
the table. `Backed` relates the queue in memory to the table while the writes land in
the order issued; the last section lets them land in any order.
-/

namespace Liquifact.Workers
open Liquifact.Lib JobQueue

def AdapterCall.jobId : AdapterCall → String
  | persistJob job => job.id
  | updateJobStatus job => job.id
  | ackJob jobId _ => jobId

def Stamped (t : JobTable) (x : String) : Prop := ∃ row, t.get x = some row ∧ row.ackedAt.isSome

section Table
variable {js : JsonColumn} {t : JobTable} {x : String}

theorem write_get_of_ne {c : AdapterCall} (h : c.jobId ≠ x) : (c.write js t).get x = t.get x := by
  cases c with
  | persistJob job =>
    simp only [AdapterCall.write]
    split
    · rfl
    · exact OrdMap.get_set_of_ne _ _ h
  | updateJobStatus job =>
    have hne : job.id ≠ x := h
    simp only [AdapterCall.write, OrdMap.get_modify, if_neg hne]
  | ackJob y now =>
    have hne : y ≠ x := h
    simp only [AdapterCall.write, OrdMap.get_modify, if_neg hne]

theorem write_isSome (c : AdapterCall) (h : (t.get x).isSome) :
    ((c.write js t).get x).isSome := by
  cases c with
  | persistJob job =>
    simp only [AdapterCall.write]
    split
    · exact h
    · rw [OrdMap.get_set]
      split
      · rfl
      · exact h
  | updateJobStatus job =>
    simp only [AdapterCall.write, OrdMap.get_modify]
    split
    · simpa using h
    · exact h
  | ackJob y now =>
    simp only [AdapterCall.write, OrdMap.get_modify]
    split
    · simpa using h
    · exact h

theorem write_new {c : AdapterCall} (h : ((c.write js t).get x).isSome)
    (hc : ∀ job, c ≠ .persistJob job) : (t.get x).isSome := by
  cases c with
  | persistJob job => exact absurd rfl (hc job)
  | updateJobStatus job =>
    simp only [AdapterCall.write, OrdMap.get_modify] at h
    split at h
    · simpa using h
    · exact h
  | ackJob y now =>
    simp only [AdapterCall.write, OrdMap.get_modify] at h
    split at h
    · simpa using h
    · exact h

/- No write clears the stamp: a second insert of one key is refused and an update
leaves the column alone. -/
theorem Stamped.write (c : AdapterCall) (h : Stamped t x) : Stamped (c.write js t) x := by
  obtain ⟨row, hget, hack⟩ := h
  by_cases hx : c.jobId = x
  · cases c with
    | persistJob job =>
      have hid : job.id = x := hx
      have hhas : t.has job.id = true := by rw [OrdMap.has, hid, hget]; rfl
      simp only [AdapterCall.write, if_pos hhas]
      exact ⟨row, hget, hack⟩
    | updateJobStatus job =>
      have hid : job.id = x := hx
      simp only [AdapterCall.write, Stamped, OrdMap.get_modify, if_pos hid, hget, Option.map_some]
      exact ⟨_, rfl, hack⟩
    | ackJob y now =>
      have hid : y = x := hx
      simp only [AdapterCall.write, Stamped, OrdMap.get_modify, if_pos hid, hget, Option.map_some]
      exact ⟨_, rfl, rfl⟩
  · exact ⟨row, by rw [write_get_of_ne hx, hget], hack⟩

theorem land_eq_write {c : AdapterCall} (h : c.fits = true) : c.land js t = c.write js t := by
  rw [AdapterCall.land, if_pos h]

theorem Stamped.land (c : AdapterCall) (h : Stamped t x) : Stamped (c.land js t) x := by
  unfold AdapterCall.land
  split
  · exact h.write c
  · exact h

theorem land_isSome (c : AdapterCall) (h : (t.get x).isSome) : ((c.land js t).get x).isSome := by
  unfold AdapterCall.land
  split
  · exact write_isSome c h
  · exact h

end Table

/-! ### Writes in the order issued -/

theorem landed_of_wrote {js : JsonColumn} {q q' : JobQueue} {c : AdapterCall}
    (hattached : q.persistence.isSome = true) (hw : Wrote q q' c)
    (hfits : ∀ c ∈ q'.issued, c.fits = true) :
    landed js q'.issued = c.write js (landed js q.issued) := by
  have hissued : q'.issued = q.issued ++ [c] := by rw [hw.issued, if_pos hattached]
  have hc : c.fits = true := hfits c (by rw [hissued]; exact List.mem_append_right _ (by simp))
  rw [hissued, landed_append, land_eq_write hc]

theorem retried_failed_iff (q : JobQueue) (job : Job) (error : Thrown) (now : ℕ) :
    (q.retried job error now).status = .failed ↔
      JsNumber.le (.ofNat job.attempts) q.maxRetries = false := by
  unfold JobQueue.retried
  split
  · rename_i hle
    simp [hle]
  · rename_i hle
    simp [hle]

/- The record of a job that failed: no later `retry` revives it. -/
def Buried (q : JobQueue) (job : Job) : Prop :=
  job.status = .failed ∧ JsNumber.le (.ofNat job.attempts) q.maxRetries = false

structure Backed (js : JsonColumn) (s : Session) : Prop where
  attached : s.queue.persistence.isSome = true
  rows_drawn : ∀ x, ((landed js s.queue.issued).get x).isSome → x ∈ s.drawn
  recorded : ∀ x job, s.queue.jobs.get x = some job →
    job.id = x ∧ ((landed js s.queue.issued).get x).isSome
  acked : ∀ x ∈ s.acked, Stamped (landed js s.queue.issued) x
  failed : ∀ x ∈ s.failed,
    (∃ row, (landed js s.queue.issued).get x = some row ∧ row.status = .failed) ∧
    ∀ job, s.queue.jobs.get x = some job → Buried s.queue job

section Backed
variable {js : JsonColumn} {s : Session}

theorem backed_initial (o : QueueOptions) (p : JobPersistence) :
    Backed js (.initial ((JobQueue.new o).attach p)) := by
  refine ⟨rfl, ?_, ?_, ?_, ?_⟩
  · intro x hx
    cases hx
  · intro x job hj
    cases hj
  · intro x hx
    cases hx
  · intro x hx
    cases hx

theorem Backed.landed_wrote {q : JobQueue} {c : AdapterCall} (h : Backed js s)
    (hw : Wrote s.queue q c) (hfits : ∀ c ∈ q.issued, c.fits = true) :
    landed js q.issued = c.write js (landed js s.queue.issued) :=
  landed_of_wrote h.attached hw hfits

/- A call that rewrites the record of `x` and updates its row. -/
theorem Backed.rewrite {q : JobQueue} {c : AdapterCall} {x : String} {job : Job} {t : Session}
    (h : Backed js s) (hw : Wrote s.queue q c) (hfits : ∀ c ∈ q.issued, c.fits = true)
    (hc : c.jobId = x) (hnew : ∀ job, c ≠ .persistJob job) (hget : (s.queue.jobs.get x).isSome)
    (hjobs : q.jobs = s.queue.jobs.set x job) (hid : job.id = x)
    (hqueue : t.queue = q) (hdrawn : t.drawn = s.drawn)
    (hacked : ∀ y ∈ t.acked, Stamped (c.write js (landed js s.queue.issued)) y)
    (hother : ∀ y ∈ t.failed, x ≠ y → y ∈ s.failed)
    (hself : x ∈ t.failed →
      (∃ row, (c.write js (landed js s.queue.issued)).get x = some row ∧ row.status = .failed) ∧
      Buried s.queue job) : Backed js t := by
  have hland := h.landed_wrote hw hfits
  rw [← hqueue] at hland hw hjobs
  refine ⟨by rw [hw.persistence]; exact h.attached, ?_, ?_, ?_, ?_⟩
  · intro y hy
    rw [hland] at hy
    rw [hdrawn]
    exact h.rows_drawn y (write_new hy hnew)
  · intro y job' hj
    rw [hjobs, OrdMap.get_set] at hj
    rw [hland]
    by_cases hy : x = y
    · subst hy
      rw [if_pos rfl] at hj
      cases hj
      obtain ⟨job₀, hjob₀⟩ := Option.isSome_iff_exists.mp hget
      exact ⟨hid, write_isSome c (h.recorded x job₀ hjob₀).2⟩
    · rw [if_neg hy] at hj
      obtain ⟨hid', hrow⟩ := h.recorded y job' hj
      exact ⟨hid', write_isSome c hrow⟩
  · rw [hland]
    exact hacked
  · intro y hy
    rw [hland]
    by_cases hxy : x = y
    · subst hxy
      obtain ⟨hrow, hbur⟩ := hself hy
      refine ⟨hrow, ?_⟩
      intro job' hj
      rw [hjobs, OrdMap.get_set_self] at hj
      cases hj
      rw [Buried, hw.maxRetries]
      exact hbur
    · obtain ⟨⟨row, hrow, hst⟩, hbur⟩ := h.failed y (hother y hy hxy)
      refine ⟨⟨row, ?_, hst⟩, ?_⟩
      · rw [write_get_of_ne (fun he => hxy (hc.symm.trans he)), hrow]
      · intro job' hj
        rw [hjobs, OrdMap.get_set_of_ne _ _ hxy] at hj
        rw [Buried, hw.maxRetries]
        exact hbur job' hj

theorem Backed.enqueued {q : JobQueue} {x : String} {job : Job} (h : Backed js s)
    (hid : job.id = x) (hfresh : x ∉ s.drawn) (hjobs : q.jobs = s.queue.jobs.set x job)
    (hw : Wrote s.queue q (.persistJob job)) (hfits : ∀ c ∈ q.issued, c.fits = true) :
    Backed js { s with queue := q, drawn := x :: s.drawn, accepted := s.accepted ++ [job] } := by
  -- the insert is not refused: rows stand under drawn identifiers only
  have hnone : (landed js s.queue.issued).has job.id = false := by
    cases hhas : (landed js s.queue.issued).has job.id with
    | false => rfl
    | true => exact absurd (h.rows_drawn x (hid ▸ hhas)) hfresh
  have hland : landed js q.issued = (landed js s.queue.issued).set x (toRow js job) := by
    rw [h.landed_wrote hw hfits, AdapterCall.write, if_neg (by simp [hnone]), hid]
  refine ⟨by rw [hw.persistence]; exact h.attached, ?_, ?_, ?_, ?_⟩
  · intro y hy
    rw [hland, OrdMap.get_set] at hy
    split at hy
    · rename_i hxy
      rw [hxy]
      exact List.mem_cons_self ..
    · exact List.mem_cons_of_mem _ (h.rows_drawn y hy)
  · intro y job' hj
    rw [hjobs, OrdMap.get_set] at hj
    rw [hland, OrdMap.get_set]
    by_cases hxy : x = y
    · rw [if_pos hxy] at hj ⊢
      cases hj
      exact ⟨hid.trans hxy, rfl⟩
    · rw [if_neg hxy] at hj ⊢
      exact h.recorded y job' hj
  · intro y hy
    obtain ⟨row, hrow, hack⟩ := h.acked y hy
    have hxy : x ≠ y := by
      intro hxy
      exact hfresh (h.rows_drawn x (by rw [hxy, hrow]; rfl))
    exact ⟨row, by rw [hland, OrdMap.get_set_of_ne _ _ hxy, hrow], hack⟩
  · intro y hy
    obtain ⟨⟨row, hrow, hst⟩, hbur⟩ := h.failed y hy
    have hxy : x ≠ y := by
      intro hxy
      exact hfresh (h.rows_drawn x (by rw [hxy, hrow]; rfl))
    refine ⟨⟨row, by rw [hland, OrdMap.get_set_of_ne _ _ hxy, hrow], hst⟩, ?_⟩
    intro job' hj
    rw [hjobs, OrdMap.get_set_of_ne _ _ hxy] at hj
    rw [Buried, hw.maxRetries]
    exact hbur job' hj

theorem Backed.retried {q : JobQueue} {x : String} {job : Job} {error : Thrown} {now : ℕ}
    (h : Backed js s) (hget : s.queue.jobs.get x = some job)
    (hjobs : q.jobs = s.queue.jobs.set x (s.queue.retried job error now))
    (hw : Wrote s.queue q (.updateJobStatus (s.queue.retried job error now)))
    (hfits : ∀ c ∈ q.issued, c.fits = true) :
    Backed js { s with
      queue := q
      failed := if (s.queue.retried job error now).status = .failed then s.failed ++ [x]
        else s.failed } := by
  have hx : (s.queue.retried job error now).id = x :=
    (retried_id ..).trans (h.recorded x job hget).1
  refine h.rewrite hw hfits hx (by simp) (by rw [hget]; rfl) hjobs hx rfl rfl
    (fun y hy => (h.acked y hy).write _) ?_ ?_
  · intro y hy hxy
    simp only at hy
    split at hy
    · simpa [Ne.symm hxy] using hy
    · exact hy
  · intro hmem
    -- failed in this call, or before: then the attempts are past the limit already
    have hfail : (s.queue.retried job error now).status = .failed := by
      simp only at hmem
      split at hmem
      · assumption
      · exact (retried_failed_iff ..).mpr ((h.failed x hmem).2 job hget).2
    refine ⟨?_, hfail, ?_⟩
    · obtain ⟨row, hrow⟩ := Option.isSome_iff_exists.mp (h.recorded x job hget).2
      simp only [AdapterCall.write, OrdMap.get_modify, if_pos hx, hrow, Option.map_some]
      exact ⟨_, rfl, hfail⟩
    · rw [retried_attempts]
      exact (retried_failed_iff ..).mp hfail

theorem Backed.same {q : JobQueue} {gone : List String} (h : Backed js s)
    (hjobs : ∀ x job, q.jobs.get x = some job → s.queue.jobs.get x = some job)
    (hmax : q.maxRetries = s.queue.maxRetries) (hper : q.persistence = s.queue.persistence)
    (hissued : q.issued = s.queue.issued) :
    Backed js { s with queue := q, dropped := gone } := by
  refine ⟨by rw [hper]; exact h.attached, ?_, ?_, ?_, ?_⟩
  · rw [hissued]
    exact h.rows_drawn
  · rw [hissued]
    exact fun x job hj => h.recorded x job (hjobs x job hj)
  · rw [hissued]
    exact h.acked
  · intro x hx
    rw [hissued]
    obtain ⟨hrow, hbur⟩ := h.failed x hx
    refine ⟨hrow, ?_⟩
    intro job hj
    rw [Buried, hmax]
    exact hbur job (hjobs x job hj)

theorem Backed.step (h : Backed js s) {a : QueueCall} (ha : s.Backing a) : Backed js (s.step a) := by
  obtain ⟨hfresh, hfits⟩ := ha
  have heff := step_effect s a
  generalize s.step a = t at heff hfits ⊢
  cases heff with
  | refused => exact h
  | idle hjobs hmax hper hissued =>
    exact h.same (fun x job hj => hjobs ▸ hj) hmax hper hissued
  | enqueued x job hid hact hjobs hw =>
    obtain ⟨now, type, payload, options, rfl⟩ := hact
    exact h.enqueued hid hfresh hjobs hw hfits
  | taken x job now now' hget hready hjobs hw =>
    have hid : job.id = x := (h.recorded x job hget).1
    refine h.rewrite hw hfits hid (by simp) (by rw [hget]; rfl) hjobs hid rfl rfl
      (fun y hy => (h.acked y hy).write _) (fun y hy _ => hy) ?_
    -- a job on the failed list is not ready, so `dequeue` did not take it
    intro hx
    have hfail := ((h.failed x hx).2 job hget).1
    simp [isReadyToProcess, hfail] at hready
  | acked x job now hget hst hjobs hw =>
    have hid : job.id = x := (h.recorded x job hget).1
    have hsome : (s.queue.jobs.get x).isSome := by rw [hget]; rfl
    refine h.rewrite hw hfits rfl (by simp) hsome hjobs hid rfl rfl ?_
      (fun y hy _ => hy) ?_
    · intro y hy
      rcases List.mem_append.mp hy with hy | hy
      · exact (h.acked y hy).write _
      · rw [List.mem_singleton.mp hy]
        obtain ⟨row, hrow⟩ := Option.isSome_iff_exists.mp (h.recorded x job hget).2
        simp only [AdapterCall.write, Stamped, OrdMap.get_modify, if_true, hrow, Option.map_some]
        exact ⟨_, rfl, rfl⟩
    · intro hx
      have hfail := ((h.failed x hx).2 job hget).1
      rw [hst] at hfail
      cases hfail
  | retried x job error now hget hjobs hw => exact h.retried hget hjobs hw hfits
  | dropped hjobs hmax hper hissued => exact h.same hjobs hmax hper hissued

theorem backed_run (o : QueueOptions) (p : JobPersistence) (as : List QueueCall)
    (h : Along Session.step Session.Backing (.initial ((JobQueue.new o).attach p)) as) :
    Backed js (run Session.step (.initial ((JobQueue.new o).attach p)) as) :=
  run_invariant Session.step Session.Backing (Backed js) (fun _ _ hs ha => hs.step ha) _ as
    (backed_initial o p) h

end Backed

/-- A job that was acknowledged or failed for good before the crash is not in the queue
restored after it. -/
theorem finished_not_restored (js : JsonColumn) (o o' : QueueOptions) (p p' : JobPersistence)
    (as : List QueueCall)
    (h : Along Session.step Session.Backing (.initial ((JobQueue.new o).attach p)) as) :
    let s := run Session.step (.initial ((JobQueue.new o).attach p)) as
    ∀ rows, AnswersRecovery (landed js s.queue.issued) p'.maxRecoveryRows rows →
      let q := (((JobQueue.new o').attach p').restoreFromPersistence
        (recoverUnackedJobs js (some rows))).2
      ∀ x ∈ s.acked ++ s.failed, q.getJob x = none ∧ x ∉ q.queue ++ q.retryQueue := by
  intro s rows hrows q x hx
  have hs : Backed js s := backed_run o p as h
  have habsent : ¬ ((q.getJob x).isSome ∨ x ∈ q.queue ++ q.retryQueue) := by
    intro hin
    obtain ⟨job, hjob, hid⟩ := restored_from hin
    obtain ⟨row, hrow, hun⟩ := recovered_row (keyed_landed _) hrows hjob
    rw [hid] at hrow
    simp only [JobRow.unacked, Bool.and_eq_true, Bool.or_eq_true, decide_eq_true_eq] at hun
    rcases List.mem_append.mp hx with hx | hx
    · obtain ⟨row', hrow', hack⟩ := hs.acked x hx
      rw [hrow] at hrow'
      cases hrow'
      rw [Option.isNone_iff_eq_none.mp hun.2] at hack
      cases hack
    · obtain ⟨⟨row', hrow', hst⟩, -⟩ := hs.failed x hx
      rw [hrow] at hrow'
      cases hrow'
      simp [hst] at hun
  rw [not_or] at habsent
  exact ⟨Option.not_isSome_iff_eq_none.mp habsent.1, habsent.2⟩

def sampleAcked : List QueueCall := [sampleEnqueue, .dequeue (fun _ => 6) 3, .ack "job-1" 7]

def sampleQueue : JobQueue := (JobQueue.new ⟨none, none, none⟩).attach ⟨1000⟩

theorem sampleAcked_backing : Along Session.step Session.Backing (.initial sampleQueue)
    sampleAcked := by
  refine ⟨⟨?_, ?_⟩, ⟨trivial, ?_⟩, ⟨trivial, ?_⟩, trivial⟩
  · exact List.not_mem_nil
  · decide
  · decide
  · decide

theorem finished_not_restored_sample :
    "job-1" ∈ (run Session.step (.initial sampleQueue) sampleAcked).acked ∧
      (sampleQueue.restoreFromPersistence (recoverUnackedJobs plainColumn (some []))).2.getJob
        "job-1" = none := by
  have hanswer : AnswersRecovery (landed plainColumn (run Session.step (.initial sampleQueue)
      sampleAcked).queue.issued) 1000 [] := ⟨[], List.Perm.refl _, List.Pairwise.nil, rfl⟩
  have hack : "job-1" ∈ (run Session.step (.initial sampleQueue) sampleAcked).acked := by
    decide
  exact ⟨hack, (finished_not_restored plainColumn _ ⟨none, none, none⟩ _ ⟨1000⟩ sampleAcked
    sampleAcked_backing [] hanswer "job-1" (List.mem_append_left _ hack)).1⟩

/-- `cancel` writes nothing, so a job cancelled before the crash is restored after it. -/
theorem cancelled_job_restored :
    ¬ ∀ (js : JsonColumn) (o o' : QueueOptions) (p p' : JobPersistence) (as : List QueueCall),
      Along Session.step Session.Backing (.initial ((JobQueue.new o).attach p)) as →
      let s := run Session.step (.initial ((JobQueue.new o).attach p)) as
      ∀ rows, AnswersRecovery (landed js s.queue.issued) p'.maxRecoveryRows rows →
        let q := (((JobQueue.new o').attach p').restoreFromPersistence
          (recoverUnackedJobs js (some rows))).2
        ∀ x ∈ s.acked ++ s.failed ++ s.dropped,
          q.getJob x = none ∧ x ∉ q.queue ++ q.retryQueue := by
  intro hall
  have hback : Along Session.step Session.Backing (.initial sampleQueue)
      [sampleEnqueue, .cancel "job-1"] := by
    refine ⟨⟨List.not_mem_nil, ?_⟩, ⟨trivial, ?_⟩, trivial⟩
    · decide
    · decide
  have hanswer : AnswersRecovery (landed plainColumn (run Session.step (.initial sampleQueue)
      [sampleEnqueue, .cancel "job-1"]).queue.issued) 1000
      [toRow plainColumn (newJob "job-1" 5 "mail" (.obj []) ⟨.fin 0, .fin 0⟩)] :=
    ⟨[toRow plainColumn (newJob "job-1" 5 "mail" (.obj []) ⟨.fin 0, .fin 0⟩)],
      List.Perm.refl _, List.pairwise_singleton .., rfl⟩
  have hnot := (hall plainColumn ⟨none, none, none⟩ ⟨none, none, none⟩ ⟨1000⟩ ⟨1000⟩ _ hback _
    hanswer "job-1" (by decide)).2
  exact hnot (by decide)

/-! ### Writes in any order -/

/-- In this landing order the insert of `x` comes before an acknowledgement of `x`. -/
def InsertedFirst (calls : List AdapterCall) (x : String) : Prop :=
  ∃ pre ackedAt post, calls = pre ++ .ackJob x ackedAt :: post ∧
    ∃ job, .persistJob job ∈ pre ∧ job.id = x

section Order
variable {js : JsonColumn} {x : String}

theorem foldl_land_isSome (calls : List AdapterCall) (t : JobTable) (h : (t.get x).isSome) :
    ((calls.foldl (AdapterCall.land js) t).get x).isSome := by
  induction calls generalizing t with
  | nil => exact h
  | cons c calls ih => exact ih _ (land_isSome c h)

theorem foldl_land_stamped (calls : List AdapterCall) (t : JobTable) (h : Stamped t x) :
    Stamped (calls.foldl (AdapterCall.land js) t) x := by
  induction calls generalizing t with
  | nil => exact h
  | cons c calls ih => exact ih _ (h.land c)

theorem landed_inserted {pre : List AdapterCall} {job : Job} (hmem : .persistJob job ∈ pre)
    (hid : job.id = x) (hfits : ∀ c ∈ pre, c.fits = true) : ((landed js pre).get x).isSome := by
  obtain ⟨before, after, rfl⟩ := List.append_of_mem hmem
  unfold landed
  rw [List.foldl_append, List.foldl_cons]
  apply foldl_land_isSome after _
  rw [land_eq_write (hfits _ hmem), AdapterCall.write]
  split
  · rename_i hhas
    rw [OrdMap.has, hid] at hhas
    exact hhas
  · rw [hid, OrdMap.get_set_self]
    rfl

theorem landed_stamped {calls : List AdapterCall} (hfits : ∀ c ∈ calls, c.fits = true)
    (h : InsertedFirst calls x) : Stamped (landed js calls) x := by
  obtain ⟨pre, ackedAt, post, rfl, job, hmem, hid⟩ := h
  have hpre : ((landed js pre).get x).isSome :=
    landed_inserted hmem hid fun c hc => hfits c (List.mem_append_left _ hc)
  obtain ⟨row, hrow⟩ := Option.isSome_iff_exists.mp hpre
  have hack : Stamped ((AdapterCall.ackJob x ackedAt).land js (landed js pre)) x := by
    rw [land_eq_write (hfits _ (List.mem_append_right _ (List.mem_cons_self ..)))]
    simp only [AdapterCall.write, Stamped, OrdMap.get_modify, if_true, hrow, Option.map_some]
    exact ⟨_, rfl, rfl⟩
  unfold landed at hack ⊢
  rw [List.foldl_append, List.foldl_cons]
  exact foldl_land_stamped post _ hack

end Order

theorem fits_run (o : QueueOptions) (p : JobPersistence) (as : List QueueCall)
    (h : Along Session.step Session.Backing (.initial ((JobQueue.new o).attach p)) as) :
    ∀ c ∈ (run Session.step (.initial ((JobQueue.new o).attach p)) as).queue.issued,
      c.fits = true :=
  run_invariant Session.step Session.Backing (fun s => ∀ c ∈ s.queue.issued, c.fits = true)
    (fun _ _ _ ha => ha.2) _ as (fun _ hc => absurd hc List.not_mem_nil) h

/-- However the writes of a run are reordered: if each acknowledged job's insert lands
before its acknowledgement, recovery returns none of them. -/
theorem acked_not_recovered (js : JsonColumn) (o : QueueOptions) (p : JobPersistence)
    (as : List QueueCall)
    (h : Along Session.step Session.Backing (.initial ((JobQueue.new o).attach p)) as)
    (calls : List AdapterCall) :
    let s := run Session.step (.initial ((JobQueue.new o).attach p)) as
    calls.Perm s.queue.issued → (∀ x ∈ s.acked, InsertedFirst calls x) →
    ∀ rows, AnswersRecovery (landed js calls) p.maxRecoveryRows rows →
      ∀ job ∈ recoverUnackedJobs js (some rows), job.id ∉ s.acked := by
  intro s hperm hfirst rows hrows job hjob hx
  have hfits : ∀ c ∈ calls, c.fits = true := fun c hc => fits_run o p as h c (hperm.mem_iff.mp hc)
  have hstamped : Stamped (landed js calls) job.id := landed_stamped hfits (hfirst job.id hx)
  obtain ⟨row, hrow, hack⟩ := hstamped
  obtain ⟨row', hrow', hun⟩ := recovered_row (keyed_landed _) hrows hjob
  rw [hrow] at hrow'
  cases hrow'
  simp only [JobRow.unacked, Bool.and_eq_true] at hun
  rw [Option.isNone_iff_eq_none.mp hun.2] at hack
  cases hack

theorem acked_not_recovered_sample :
    InsertedFirst (run Session.step (.initial sampleQueue) sampleAcked).queue.issued "job-1" ∧
      ∀ job ∈ recoverUnackedJobs plainColumn (some []),
        job.id ∉ (run Session.step (.initial sampleQueue) sampleAcked).acked := by
  have hfirst : InsertedFirst (run Session.step (.initial sampleQueue) sampleAcked).queue.issued
      "job-1" := by
    refine ⟨(run Session.step (.initial sampleQueue) sampleAcked).queue.issued.take 2, 7, [], rfl,
      newJob "job-1" 5 "mail" (.obj []) ⟨.fin 0, .fin 0⟩, ?_, rfl⟩
    exact List.mem_cons_self ..
  have hanswer : AnswersRecovery (landed plainColumn (run Session.step (.initial sampleQueue)
      sampleAcked).queue.issued) 1000 [] := ⟨[], List.Perm.refl _, List.Pairwise.nil, rfl⟩
  refine ⟨hfirst, acked_not_recovered plainColumn _ _ sampleAcked sampleAcked_backing _
    (List.Perm.refl _) ?_ [] hanswer⟩
  intro x hx
  have hone : x = "job-1" := List.mem_singleton.mp hx
  rw [hone]
  exact hfirst

/-- The same three writes in the opposite order: update and acknowledgement find no row,
then the insert makes one that recovery returns. -/
theorem acked_job_replayed :
    ¬ ∀ (js : JsonColumn) (o : QueueOptions) (p : JobPersistence) (as : List QueueCall),
      Along Session.step Session.Backing (.initial ((JobQueue.new o).attach p)) as →
      ∀ calls : List AdapterCall,
      let s := run Session.step (.initial ((JobQueue.new o).attach p)) as
      calls.Perm s.queue.issued →
      ∀ rows, AnswersRecovery (landed js calls) p.maxRecoveryRows rows →
        ∀ job ∈ recoverUnackedJobs js (some rows), job.id ∉ s.acked := by
  intro hall
  have hanswer : AnswersRecovery (landed plainColumn (run Session.step (.initial sampleQueue)
      sampleAcked).queue.issued.reverse) 1000
      [toRow plainColumn (newJob "job-1" 5 "mail" (.obj []) ⟨.fin 0, .fin 0⟩)] :=
    ⟨[toRow plainColumn (newJob "job-1" 5 "mail" (.obj []) ⟨.fin 0, .fin 0⟩)],
      List.Perm.refl _, List.pairwise_singleton .., rfl⟩
  have hnot := hall plainColumn ⟨none, none, none⟩ ⟨1000⟩ sampleAcked sampleAcked_backing _
    (List.reverse_perm _) _ hanswer _ (List.mem_singleton_self _)
  exact hnot (by decide)

end Liquifact.Workers
