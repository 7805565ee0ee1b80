import Liquifact.Workers.Durability

/-!
# One job through the table and back

The value of `delayMs` is a number in memory, a `BIGINT` in the table and a decimal
string in the recovered object. `_isReadyToProcess` asks for a number, or for the
number zero, so no recovered job is ever ready.
-/

namespace Liquifact.Workers
open Liquifact.Lib JobQueue

def reload (js : JsonColumn) (o : QueueOptions) (p : JobPersistence) (rows : List JobRow) :
    JobQueue :=
  (((JobQueue.new o).attach p).restoreFromPersistence (recoverUnackedJobs js (some rows))).2

/-- `job`, written with `toRow`, comes back as the same job and is handed out once its
delay has elapsed. Delays are compared as numbers. -/
def RoundTrips (js : JsonColumn) (o : QueueOptions) (p : JobPersistence) (job : Job) : Prop :=
  ∃ rows, AnswersRecovery (landed js [.persistJob job]) p.maxRecoveryRows rows ∧
    ∃ job', (reload js o p rows).getJob job.id = some job' ∧ job'.id = job.id ∧
      job'.type = job.type ∧ job'.payload = job.payload ∧ job'.priority = job.priority ∧
      job'.attempts = job.attempts ∧ job'.delayMs.toNumber = job.delayMs.toNumber ∧
      ∀ clock : ℕ → ℕ, (∀ i, JsNumber.le job.delayMs.toNumber (.ofNat (clock i)) = true) →
        ∃ fuel taken q', (reload js o p rows).dequeue clock fuel = some (some taken, q') ∧
          taken.id = job.id

section Reload
variable {js : JsonColumn} {o : QueueOptions} {p : JobPersistence} {rows : List JobRow}

theorem reload_delay {x : String} {job : Job} (h : (reload js o p rows).getJob x = some job) :
    ∃ n, job.delayMs = .decimal n := by
  have hloop : reload js o p rows =
      (restoreLoop (recoverUnackedJobs js (some rows)) ((JobQueue.new o).attach p)).2 := rfl
  rw [hloop] at h
  rcases restoreLoop_record _ _ h with hnew | hrec
  · cases hnew
  · obtain ⟨row, -, payload, -, rfl⟩ := mem_recoverUnackedJobs hrec
    exact ⟨row.delayMs, rfl⟩

theorem not_ready_of_decimal {job : Job} {n : ℤ} (h : job.delayMs = .decimal n) (now : ℕ) :
    isReadyToProcess job now = false := by
  unfold isReadyToProcess
  split
  · rfl
  · rw [h]
    rfl

theorem reload_dequeue {clock : ℕ → ℕ} {fuel : ℕ} {r : Option Job} {q' : JobQueue}
    (h : (reload js o p rows).dequeue clock fuel = some (r, q')) : r = none := by
  obtain ⟨handed, hspec⟩ := dequeue_spec h
  cases handed with
  | none => exact (hspec.none_eq rfl).1
  | some x =>
    obtain ⟨job, k, hget, hready, -, -⟩ := hspec.of_some
    obtain ⟨n, hn⟩ := reload_delay hget
    rw [not_ready_of_decimal hn] at hready
    cases hready

theorem not_roundTrips_of_delay {job : Job} (h : RoundTrips js o p job) : False := by
  obtain ⟨rows, -, job', hget, -, -, -, -, -, hdelay, hout⟩ := h
  obtain ⟨n, hn⟩ := reload_delay hget
  -- a clock that always reads the delay itself, or zero if that is negative
  have helapsed : ∀ i : ℕ, JsNumber.le job.delayMs.toNumber (.ofNat n.toNat) = true := by
    intro _
    rw [← hdelay, hn]
    simp only [Numeric.toNumber, JsNumber.ofNat, JsNumber.le_fin, decide_eq_true_eq]
    exact_mod_cast Int.self_le_toNat n
  obtain ⟨fuel, taken, q', hdeq, -⟩ := hout (fun _ => n.toNat) helapsed
  cases reload_dequeue hdeq

end Reload

/-- No job survives the round trip, and no restored job is ever handed out. -/
theorem job_never_roundTrips (js : JsonColumn) (o : QueueOptions) (p : JobPersistence) (job : Job) :
    ¬ RoundTrips js o p job ∧
      ∀ rows clock fuel r q', (reload js o p rows).dequeue clock fuel = some (r, q') → r = none :=
  ⟨not_roundTrips_of_delay, fun _ _ _ _ _ h => reload_dequeue h⟩

/-- A job without delay, enqueued at time 5 and loaded again: it is dropped unread. -/
theorem undelayed_job_lost :
    ¬ RoundTrips plainColumn ⟨none, none, none⟩ ⟨1000⟩
        (newJob "job-1" 5 "mail" (.obj []) ⟨.fin 0, .fin 0⟩) ∧
      ((reload plainColumn ⟨none, none, none⟩ ⟨1000⟩
        [toRow plainColumn (newJob "job-1" 5 "mail" (.obj []) ⟨.fin 0, .fin 0⟩)]).dequeue
          (fun _ => 10) 5).map (fun r => (r.1.map Job.id, r.2.queue)) = some (none, []) :=
  ⟨not_roundTrips_of_delay, by decide⟩

end Liquifact.Workers
