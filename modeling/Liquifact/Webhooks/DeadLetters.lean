import Liquifact.Webhooks.WebhookDelivery
import Liquifact.Workers.Delivery

/-!
# The dead letters of a job

With the modules as they are linked, no `webhook_delivery` job is ever delivered or
dead-lettered: each of its executions throws before the first request, and it fails with no
row. With a defined import each execution that fails would leave a row, and the queue runs
a job that has failed again.
-/

namespace Liquifact.Webhooks
open Liquifact.Lib Liquifact.Workers Liquifact.Workers.Execution

/-! ### The records of the jobs -/

/- A record keeps the type and the payload its job was given, and no delivery is completed. -/
def Undelivered (q : JobQueue) (given : String → Option (String × Json)) : Prop :=
  ∀ x job, q.jobs.get x = some job → given x = some (job.type, job.payload) ∧
    (job.type = "webhook_delivery" → job.status ≠ .completed)

section Records
variable {q q' : JobQueue} {given : String → Option (String × Json)} {x : String}

theorem Undelivered.set (h : Undelivered q given) {job job' : Job}
    (hjobs : q'.jobs = q.jobs.set x job') (hget : q.jobs.get x = some job)
    (htype : job'.type = job.type) (hpayload : job'.payload = job.payload)
    (hstatus : job.type = "webhook_delivery" → job'.status ≠ .completed) :
    Undelivered q' given := by
  intro y job₁ hj
  rw [hjobs, OrdMap.get_set] at hj
  split at hj
  · next heq =>
    cases hj
    rw [← heq, htype, hpayload]
    exact ⟨(h x job hget).1, hstatus⟩
  · exact h y job₁ hj

theorem Undelivered.dequeue (h : Undelivered q given) {clock : ℕ → ℕ} {fuel : ℕ} {r : Option Job}
    (hd : q.dequeue clock fuel = some (r, q')) : Undelivered q' given := by
  cases r with
  | none =>
    rw [JobQueue.dequeue_none_ok hd]
    exact h
  | some job =>
    obtain ⟨x, job₀, k, hget, -, rfl, hjobs, -⟩ := JobQueue.dequeue_some_ok hd
    refine h.set hjobs hget rfl rfl ?_
    intro _ hs
    cases hs

theorem Undelivered.retryJob (h : Undelivered q given) (x : String) (error : Thrown) (now : ℕ) :
    Undelivered (BackgroundWorker.retryJob q x error now) given := by
  unfold BackgroundWorker.retryJob
  cases hr : q.retry x error now with
  | error m => exact h
  | ok q' =>
    obtain ⟨job, hget, rfl⟩ := JobQueue.retry_ok hr
    refine h.set (JobQueue.issue_jobs ..) hget ?_ ?_ ?_
    · unfold JobQueue.retried
      split <;> rfl
    · unfold JobQueue.retried
      split <;> rfl
    · intro _
      unfold JobQueue.retried
      split <;> simp

theorem Undelivered.conclude (h : Undelivered q given) {outcome : Option Thrown} {now : ℕ}
    (hother : outcome = none → ∀ type payload, given x = some (type, payload) →
      type ≠ "webhook_delivery") :
    Undelivered (BackgroundWorker.conclude q x outcome now) given := by
  unfold BackgroundWorker.conclude
  cases outcome with
  | some error => exact h.retryJob x error now
  | none =>
    cases ha : q.ack x now with
    | error m => exact h.retryJob x (.ofMessage m) now
    | ok q' =>
      obtain ⟨job, hget, -, rfl⟩ := JobQueue.ack_ok ha
      refine h.set (JobQueue.issue_jobs ..) hget rfl rfl ?_
      intro htype
      exact absurd htype (hother rfl _ _ (h x job hget).1)

end Records

/- What the worker does to a job it was not given just now. -/
def LeavesOpen (given : String → Option (String × Json)) : Action → Prop
  | .enqueue _ _ _ _ _ => False
  | .ack _ _ => False
  | .retry _ _ _ => False
  | .settle jobId outcome _ => outcome = none →
      ∀ type payload, given jobId = some (type, payload) → type ≠ "webhook_delivery"
  | _ => True

theorem Undelivered.step {s : System} {given : String → Option (String × Json)}
    (h : Undelivered s.queueOf given) {a : Action} (ha : LeavesOpen given a) :
    Undelivered (s.step a).queueOf given := by
  have heff := s.step_effect a
  generalize s.step a = t at heff ⊢
  cases heff with
  | still hqueue =>
    simp only [System.queueOf, hqueue]
    exact h
  | enqueued he => cases ha
  | emptied hd => exact h.dequeue hd
  | admitted hroom hd => exact h.dequeue hd
  | turnedAway hd => exact (h.dequeue hd).retryJob _ _ _
  | settled hrun => exact h.conclude ha
  | cancelled => exact fun x job hj => h x job (JobQueue.cancel_getJob hj)
  | cleared =>
    intro x job hj
    cases hj
  | taken hd => exact h.dequeue hd
  | acked hk => cases ha
  | returned hr => cases ha

/-! ### No delivery is ever made -/

/- The import is undefined, so the handler throws before it sends anything. -/
theorem linkedHandler_throws (env : DeliveryEnv) (d : Delivery) (payload : Json) :
    ∃ err, linkedHandler env d payload = ⟨some err, none, 0⟩ := by
  have hundefined : importedFrom webhooksExports "sortKeys" sortKeys = none :=
    if_neg (by decide)
  unfold linkedHandler
  rw [hundefined]
  unfold webhookDeliveryHandler
  split
  · exact ⟨_, rfl⟩
  · split
    · exact ⟨_, rfl⟩
    · exact ⟨_, rfl⟩

namespace Deliveries
variable {env : DeliveryEnv} {s : Deliveries}

structure Silent (s : Deliveries) : Prop where
  records : Undelivered s.system.queueOf s.given
  rows : ∀ r ∈ s.results, r.2.row = none

theorem silent_initial (o : QueueOptions) (maxConcurrency : Option ℕ) :
    (initial (.new (.new o) maxConcurrency)).Silent := by
  refine ⟨?_, ?_⟩
  · intro x job hj
    cases hj
  · intro r hr
    cases hr

theorem not_delivery {jobId type : String} {payload : Json} (h : s.isDelivery jobId = false)
    (hgiven : s.given jobId = some (type, payload)) : type ≠ "webhook_delivery" := by
  unfold isDelivery at h
  rw [hgiven] at h
  simpa using h

theorem Silent.enqueue (h : s.Silent) {jobId : String} {now : ℕ} {type : String}
    {payload : Except String Json} {options : EnqueueOptions} :
    (s.step (linkedHandler env) (.other (.enqueue jobId now type payload options))).Silent := by
  rcases step_enqueue s (linkedHandler env) jobId now type payload options with
    hsame | ⟨body, j, q, he, hstep⟩
  · rw [hsame]
    exact h
  · rw [hstep]
    obtain ⟨_, hbody, -, hq⟩ := JobQueue.enqueue_ok he
    cases hbody
    refine ⟨?_, h.rows⟩
    intro x job hj
    simp only [System.queueOf, System.withQueue, hq, JobQueue.issue_jobs] at hj
    rw [OrdMap.get_set] at hj
    dsimp only
    split at hj
    · next heq =>
      cases hj
      rw [if_pos heq.symm]
      exact ⟨rfl, fun _ hs => by cases hs⟩
    · next hne =>
      rw [if_neg (Ne.symm hne)]
      exact h.records x job hj

theorem Silent.other (h : s.Silent) {a : Action} (henqueue : enqueues a = false)
    (ha : LeavesOpen s.given a) : (s.step (linkedHandler env) (.other a)).Silent := by
  have hrecords : Undelivered (s.system.step a).queueOf s.given := h.records.step ha
  rw [step_other s _ henqueue]
  exact ⟨hrecords, h.rows⟩

theorem Silent.step (h : s.Silent) {a : DeliveryAction} (ha : s.RunByWorker a) :
    (s.step (linkedHandler env) a).Silent := by
  cases a with
  | deliver jobId d now =>
    simp only [Deliveries.step]
    split
    · next payload hgiven =>
      split
      · obtain ⟨err, herr⟩ := linkedHandler_throws env d payload
        rw [herr]
        refine ⟨h.records.step (fun hnone => by cases hnone), ?_⟩
        intro r hr
        rcases List.mem_append.mp hr with hr | hr
        · exact h.rows r hr
        · rw [List.mem_singleton.mp hr]
      · exact h
    · exact h
  | other a =>
    cases a with
    | enqueue jobId now type payload options => exact h.enqueue
    | settle jobId outcome now =>
      exact h.other rfl fun _ type payload hgiven => not_delivery ha hgiven
    | ack jobId now => cases ha
    | retry jobId error now => cases ha
    | dequeue clock fuel => cases ha
    | _ => exact h.other rfl trivial

end Deliveries

/-! ### What a defined import would give -/

/- The properties the handler reads before its `try` can be read. -/
def Readable (payload : Json) : Prop :=
  payload ≠ .null ∧ (payload.member "transition").getD (.obj []) ≠ .null

/- Every execution that throws leaves a row, if the table takes it. -/
theorem webhookDeliveryHandler_row (f : Json → Json) (env : DeliveryEnv) {d : Delivery}
    {payload : Json} (hread : Readable payload) (haccepts : d.accepts = true) :
    (webhookDeliveryHandler (some f) env d payload).row.isSome =
      (webhookDeliveryHandler (some f) env d payload).outcome.isSome := by
  unfold webhookDeliveryHandler
  split
  · exact absurd rfl hread.1
  · split
    · next hnull => exact absurd hnull hread.2
    · unfold deliver
      dsimp only
      split
      · rfl
      · rw [if_pos haccepts]
        rfl

namespace Deliveries
variable {s : Deliveries} {handler : Delivery → Json → Handled} {m : ℚ}

/- The executions of a job's handler that threw. -/
def thrownIn (results : List (String × Handled)) (x : String) : ℕ :=
  results.countP fun r => decide (r.1 = x) && r.2.outcome.isSome

def OnlyDelivery (s : Deliveries) (x : String) : Prop :=
  ∀ type payload, s.given x = some (type, payload) → type = "webhook_delivery"

/- An execution that has begun was refused or handed to the handler; one that has failed
was refused, or the handler threw. -/
structure Tallied (m : ℚ) (s : Deliveries) : Prop where
  bounded : Bounded m s.system
  given : ∀ x, (s.given x).isSome ↔ x ∈ s.system.drawn
  counted : ∀ x, s.OnlyDelivery x →
    thrownIn s.results x + tally isExecution x s.system.log =
      tally isFailure x s.system.log + tally isHandled x s.system.log

theorem disciplined_of_run {a : Action} (ha : s.RunByWorker (.other a)) : s.system.Disciplined a := by
  cases a with
  | settle jobId outcome now => trivial
  | dequeue clock fuel => cases ha
  | ack jobId now => cases ha
  | retry jobId error now => cases ha
  | _ => exact ha

theorem tallied_initial {o : QueueOptions} {maxConcurrency : Option ℕ}
    (hm : (JobQueue.new o).maxRetries = .fin m) :
    (initial (.new (.new o) maxConcurrency)).Tallied m := by
  refine ⟨bounded_initial hm, ?_, fun _ _ => rfl⟩
  intro x
  simp [initial, System.initial]

theorem Tallied.enqueue (hm : 0 ≤ m) (h : s.Tallied m) {jobId : String} {now : ℕ} {type : String}
    {payload : Except String Json} {options : EnqueueOptions} (ha : jobId ∉ s.system.drawn) :
    (s.step handler (.other (.enqueue jobId now type payload options))).Tallied m := by
  have hdisciplined : s.system.Disciplined (.enqueue jobId now type payload options) := ha
  have hbounded : Bounded m
      (s.step handler (.other (.enqueue jobId now type payload options))).system := by
    rw [step_other_system]
    exact h.bounded.step hm hdisciplined
  rcases step_enqueue s handler jobId now type payload options with hsame | ⟨body, j, q, -, hstep⟩
  · rw [hsame]
    exact h
  · rw [hstep] at hbounded ⊢
    refine ⟨hbounded, ?_, ?_⟩
    · intro x
      by_cases hx : x = jobId
      · simp [hx]
      · simpa [hx] using h.given x
    · intro x hx
      -- a job given before keeps what it was given
      have honly : s.OnlyDelivery x := by
        intro type' payload' hgiven
        have hdrawn : x ∈ s.system.drawn := (h.given x).mp (by rw [hgiven]; rfl)
        have hne : x ≠ jobId := fun heq => ha (heq ▸ hdrawn)
        exact hx type' payload' (by simpa [hne] using hgiven)
      exact h.counted x honly

/- The calls of the worker in which no execution ends but those it refuses. -/
def startsOnly : Action → Bool
  | .settle _ _ _ => false
  | .dequeue _ _ => false
  | .ack _ _ => false
  | .retry _ _ _ => false
  | _ => true

theorem log_balanced {s : System} {a : Action} (ha : startsOnly a = true) :
    ∃ new, (s.step a).log = s.log ++ new ∧
      ∀ x, tally isExecution x new = tally isFailure x new + tally isHandled x new := by
  have heff := s.step_effect a
  generalize s.step a = t at heff ⊢
  cases heff with
  | still hqueue => exact ⟨[], (List.append_nil _).symm, fun _ => rfl⟩
  | enqueued he => exact ⟨[], (List.append_nil _).symm, fun _ => rfl⟩
  | emptied hd => exact ⟨[], (List.append_nil _).symm, fun _ => rfl⟩
  | @admitted entered clock fuel now q job hroom hd =>
    refine ⟨_, rfl, fun x => ?_⟩
    by_cases hx : job.id = x <;>
      simp [tally, isExecution, isFailure, isHandled, Execution.jobId, hx]
  | @turnedAway entered clock fuel now q job m hd =>
    refine ⟨_, rfl, fun x => ?_⟩
    by_cases hx : job.id = x <;>
      simp [tally, isExecution, isFailure, isHandled, Execution.jobId, hx]
  | settled hrun => cases ha
  | cancelled => exact ⟨[], (List.append_nil _).symm, fun _ => rfl⟩
  | cleared => exact ⟨[], (List.append_nil _).symm, fun _ => rfl⟩
  | taken hd => cases ha
  | acked hk => cases ha
  | returned hr => cases ha

theorem step_drawn {s : System} {a : Action} (ha : enqueues a = false) :
    (s.step a).drawn = s.drawn := by
  have heff := s.step_effect a
  generalize s.step a = t at heff ⊢
  cases heff with
  | enqueued he => cases ha
  | _ => rfl

/- A step that enqueues nothing keeps the account when its entries balance. -/
theorem Tallied.extend (hm : 0 ≤ m) (h : s.Tallied m) {a : Action}
    (henqueue : enqueues a = false) (ha : s.system.Disciplined a) {new : List Execution}
    (hlog : (s.system.step a).log = s.system.log ++ new) {results : List (String × Handled)}
    (hnew : ∀ x, s.OnlyDelivery x →
      thrownIn results x + tally isExecution x new =
        tally isFailure x new + tally isHandled x new) :
    Tallied m ⟨s.system.step a, s.given, s.results ++ results⟩ := by
  refine ⟨h.bounded.step hm ha, ?_, ?_⟩
  · intro x
    rw [step_drawn henqueue]
    exact h.given x
  · intro x hx
    have hbefore := h.counted x hx
    have hhere := hnew x hx
    have hthrown : thrownIn (s.results ++ results) x = thrownIn s.results x + thrownIn results x :=
      List.countP_append
    rw [hlog, tally_append, tally_append, tally_append, hthrown]
    omega

theorem Tallied.starts (hm : 0 ≤ m) (h : s.Tallied m) {a : Action} (hstarts : startsOnly a = true)
    (henqueue : enqueues a = false) (ha : s.system.Disciplined a) :
    (s.step handler (.other a)).Tallied m := by
  obtain ⟨new, hlog, hbalance⟩ := log_balanced (s := s.system) hstarts
  have hnew : ∀ x, s.OnlyDelivery x → thrownIn [] x + tally isExecution x new =
      tally isFailure x new + tally isHandled x new := by
    intro x _
    rw [← hbalance x]
    exact Nat.zero_add _
  have hext := h.extend hm henqueue ha hlog hnew
  rw [List.append_nil] at hext
  rw [step_other s handler henqueue]
  exact hext

theorem settle_log {s : System} {jobId : String} (hrun : jobId ∈ s.worker.running)
    (outcome : Option Thrown) (now : ℕ) : (s.step (.settle jobId outcome now)).log =
      s.log ++ [if outcome = none then .succeeded jobId else .failed jobId] := by
  simp only [System.step, if_pos hrun]

theorem Tallied.settle (hm : 0 ≤ m) (h : s.Tallied m) {jobId : String} {outcome : Option Thrown}
    {now : ℕ} (ha : s.isDelivery jobId = false) :
    (s.step handler (.other (.settle jobId outcome now))).Tallied m := by
  by_cases hrun : jobId ∈ s.system.worker.running
  · have hnew : ∀ x, s.OnlyDelivery x →
        thrownIn [] x + tally isExecution x
            [if outcome = none then .succeeded jobId else .failed jobId] =
          tally isFailure x [if outcome = none then .succeeded jobId else .failed jobId] +
            tally isHandled x [if outcome = none then .succeeded jobId else .failed jobId] := by
      intro x hx
      have hne : jobId ≠ x := by
        rintro rfl
        have hplaced := h.bounded.sound.placed.drawn_sub
        have hdrawn : jobId ∈ s.system.drawn :=
          hplaced (List.mem_append_right _ (List.mem_append_left _ hrun))
        obtain ⟨⟨type, payload⟩, hgiven⟩ := Option.isSome_iff_exists.mp ((h.given jobId).mpr hdrawn)
        exact not_delivery ha hgiven (hx type payload hgiven)
      have hnamed : ∀ e ∈ [if outcome = none then Execution.succeeded jobId else .failed jobId],
          e.jobId ≠ x := by
        intro e he
        rw [List.mem_singleton.mp he]
        split <;> exact hne
      rw [tally_eq_zero hnamed, tally_eq_zero hnamed, tally_eq_zero hnamed]
      rfl
    have hdisciplined : s.system.Disciplined (.settle jobId outcome now) := trivial
    have hext := h.extend hm rfl hdisciplined (settle_log hrun outcome now) hnew
    rw [List.append_nil] at hext
    rw [step_other s handler rfl]
    exact hext
  · have hsame : s.system.step (.settle jobId outcome now) = s.system := if_neg hrun
    rw [step_other s handler rfl, hsame]
    exact h

theorem Tallied.deliver (hm : 0 ≤ m) (h : s.Tallied m) {jobId : String} {d : Delivery} {now : ℕ} :
    (s.step handler (.deliver jobId d now)).Tallied m := by
  simp only [step]
  split
  · next payload hgiven =>
    split
    · next hrun =>
      have ha : s.system.Disciplined (.settle jobId (handler d payload).outcome now) := trivial
      refine h.extend hm rfl ha (settle_log hrun _ now) ?_
      intro x _
      by_cases hx : jobId = x <;> cases hout : (handler d payload).outcome <;>
        simp [thrownIn, tally, isExecution, isFailure, isHandled, Execution.jobId, hx, hout]
    · exact h
  · exact h

theorem Tallied.step (hm : 0 ≤ m) (h : s.Tallied m) {a : DeliveryAction} (ha : s.RunByWorker a) :
    (s.step handler a).Tallied m := by
  cases a with
  | deliver jobId d now => exact h.deliver hm
  | other a =>
    have hdisciplined := disciplined_of_run ha
    cases a with
    | enqueue jobId now type payload options => exact h.enqueue hm ha
    | settle jobId outcome now => exact h.settle hm ha
    | dequeue clock fuel => cases ha
    | ack jobId now => cases ha
    | retry jobId error now => cases ha
    | _ => exact h.starts hm rfl rfl hdisciplined

/- The table takes the row of this execution, and its payload can be read. -/
def Recordable (s : Deliveries) : DeliveryAction → Prop
  | .deliver jobId d _ => d.accepts = true ∧
      ∀ type payload, s.given jobId = some (type, payload) → Readable payload
  | .other _ => True

def Recorded (s : Deliveries) (a : DeliveryAction) : Prop := s.RunByWorker a ∧ s.Recordable a

def RowPerThrow (s : Deliveries) : Prop := ∀ r ∈ s.results, r.2.row.isSome = r.2.outcome.isSome

theorem RowPerThrow.step {f : Json → Json} {env : DeliveryEnv} (h : s.RowPerThrow)
    {a : DeliveryAction} (ha : s.Recordable a) :
    (s.step (webhookDeliveryHandler (some f) env) a).RowPerThrow := by
  cases a with
  | other a => exact h
  | deliver jobId d now =>
    simp only [Deliveries.step]
    split
    · next payload hgiven =>
      split
      · intro r hr
        rcases List.mem_append.mp hr with hr | hr
        · exact h r hr
        · rw [List.mem_singleton.mp hr]
          exact webhookDeliveryHandler_row f env (ha.2 _ _ hgiven) ha.1
      · exact h
    · exact h

theorem RowPerThrow.length_deadLetters (h : s.RowPerThrow) (x : String) :
    (s.deadLetters x).length = thrownIn s.results x := by
  unfold deadLetters thrownIn
  rw [List.length_filterMap_eq_countP]
  refine List.countP_congr fun r hr => ?_
  by_cases hx : r.1 = x
  · simp only [hx, if_true, decide_true, Bool.true_and, h r hr]
  · simp [hx]

end Deliveries

/-- Were `sortKeys` exported, a job whose executions all reach the handler would have one
dead letter for each that failed, and one that failed for good `⌊m⌋₊ + 1` of them: the
handler writes a row each time before it throws, and the queue then runs it again. -/
theorem dead_letters_of_import (f : Json → Json) (o : QueueOptions) (maxConcurrency : Option ℕ)
    (m : ℚ) (h0 : 0 ≤ m) (hm : (JobQueue.new o).maxRetries = .fin m) (env : DeliveryEnv)
    (as : List DeliveryAction)
    (h : Along (Deliveries.step (webhookDeliveryHandler (some f) env)) Deliveries.Recorded
      (.initial (.new (.new o) maxConcurrency)) as) :
    let s := run (Deliveries.step (webhookDeliveryHandler (some f) env))
      (.initial (.new (.new o) maxConcurrency)) as
    ∀ x job, s.system.queueOf.getJob x = some job → s.isDelivery x = true →
      tally isHandled x s.system.log = tally isExecution x s.system.log →
      (s.deadLetters x).length = tally isFailure x s.system.log ∧
        (job.status = .failed → (s.deadLetters x).length = ⌊m⌋₊ + 1) := by
  intro s x job hj hdelivery hreached
  obtain ⟨htallied, hrows⟩ : s.Tallied m ∧ s.RowPerThrow :=
    run_invariant _ Deliveries.Recorded (fun t => t.Tallied m ∧ t.RowPerThrow)
      (fun _ _ ht ha => ⟨ht.1.step h0 ha.1, ht.2.step ha.2⟩) _ as
      ⟨Deliveries.tallied_initial hm, List.forall_mem_nil _⟩ h
  have honly : s.OnlyDelivery x := by
    intro type payload hgiven
    unfold Deliveries.isDelivery at hdelivery
    rw [hgiven] at hdelivery
    simpa using hdelivery
  have hcount : (s.deadLetters x).length = tally isFailure x s.system.log := by
    have hbalance := htallied.counted x honly
    rw [hrows.length_deadLetters]
    omega
  refine ⟨hcount, fun hfailed => ?_⟩
  obtain ⟨-, hlimit, -⟩ := (htallied.bounded.accounts.delivered x job hj).bounds
  rw [hcount]
  exact hlimit.mp hfailed

/-! ### The property as it is -/

/-- In every run of the worker, whatever the endpoints answer and whatever the database
accepts: a `webhook_delivery` job that has ended has failed, and no dead letter was
written for it. -/
theorem never_dead_lettered (o : QueueOptions) (maxConcurrency : Option ℕ) (env : DeliveryEnv)
    (as : List DeliveryAction)
    (h : Along (Deliveries.step (linkedHandler env)) Deliveries.RunByWorker
      (.initial (.new (.new o) maxConcurrency)) as) :
    let s := run (Deliveries.step (linkedHandler env)) (.initial (.new (.new o) maxConcurrency)) as
    ∀ x job, s.system.queueOf.getJob x = some job → job.type = "webhook_delivery" →
      job.status = .failed ∨ job.status = .completed → ¬ s.OneDeadLetter x job := by
  intro s x job hj htype hend hone
  have hsilent : s.Silent := run_invariant _ Deliveries.RunByWorker Deliveries.Silent
    (fun _ _ hs ha => hs.step ha) _ as (Deliveries.silent_initial o maxConcurrency) h
  have hfailed : job.status = .failed :=
    hend.resolve_right ((hsilent.records x job hj).2 htype)
  have hnone : s.deadLetters x = [] := by
    refine List.filterMap_eq_nil_iff.mpr fun r hr => ?_
    dsimp only
    rw [hsilent.rows r hr]
    exact ite_self _
  have hlength := hone.1 hfailed
  rw [hnone] at hlength
  cases hlength

/- A job of the default queue whose endpoint would answer every request with 200, taken out
and handled four times. -/
def sampleDelivery : Delivery :=
  ⟨"2025-01-01T00:00:00.000Z", fun _ => ⟨0, fun _ => .ok 200⟩, fun _ => 0, true, 0⟩

def sampleAttempt (now : ℕ) : List DeliveryAction :=
  [.other (.poll false (fun _ => now) 5 now), .deliver "job-1" sampleDelivery now]

def sampleDeliveries : List DeliveryAction :=
  [.other (.registerHandler "webhook_delivery"), .other .start,
    .other (.enqueue "job-1" 0 "webhook_delivery"
      (.ok (.obj [("invoiceId", .str "inv_1"), ("webhookSecret", .str "secret")]))
      ⟨.fin 0, .fin 0⟩)] ++
    (sampleAttempt 0 ++ (sampleAttempt 10000 ++ (sampleAttempt 20000 ++ sampleAttempt 30000)))

def sampleEnv : DeliveryEnv := ⟨fun _ _ => .ok [], ⟨.fin 3, .fin 500, .fin 10000⟩⟩

def sampleOutcome : Deliveries :=
  run (Deliveries.step (linkedHandler sampleEnv)) (.initial (.new (.new ⟨none, none, none⟩) none))
    sampleDeliveries

theorem sampleDeliveries_run : Along (Deliveries.step (linkedHandler sampleEnv))
    Deliveries.RunByWorker (.initial (.new (.new ⟨none, none, none⟩) none)) sampleDeliveries := by
  refine ⟨trivial, trivial, ?_, trivial, ?_, trivial, ?_, trivial, ?_, trivial, ?_, trivial⟩
  · show "job-1" ∉ _
    decide
  all_goals
    show Deliveries.isDelivery _ _ = true
    decide +kernel

theorem sampleOutcome_failed :
    (sampleOutcome.system.queueOf.getJob "job-1").map (fun job => (job.type, job.status)) =
      some ("webhook_delivery", .failed) := by
  decide +kernel

theorem never_dead_lettered_sample :
    (sampleOutcome.system.queueOf.getJob "job-1").map Job.status = some .failed ∧
      ∀ job, sampleOutcome.system.queueOf.getJob "job-1" = some job →
        ¬ sampleOutcome.OneDeadLetter "job-1" job := by
  obtain ⟨job, hget, hjob⟩ := Option.map_eq_some_iff.mp sampleOutcome_failed
  obtain ⟨htype, hstatus⟩ := Prod.mk.inj hjob
  refine ⟨by rw [hget, Option.map_some, hstatus], ?_⟩
  intro job' hget'
  cases hget.symm.trans hget'
  exact never_dead_lettered ⟨none, none, none⟩ none sampleEnv sampleDeliveries sampleDeliveries_run
    "job-1" job hget htype (.inl hstatus)

theorem failed_without_dead_letter : ¬ ∀ (o : QueueOptions) (maxConcurrency : Option ℕ)
    (env : DeliveryEnv) (as : List DeliveryAction),
    Along (Deliveries.step (linkedHandler env)) Deliveries.RunByWorker
      (.initial (.new (.new o) maxConcurrency)) as →
    ∀ x job, (run (Deliveries.step (linkedHandler env)) (.initial (.new (.new o) maxConcurrency))
        as).system.queueOf.getJob x = some job →
      job.type = "webhook_delivery" → job.status = .failed ∨ job.status = .completed →
      (run (Deliveries.step (linkedHandler env)) (.initial (.new (.new o) maxConcurrency))
        as).OneDeadLetter x job := by
  intro h
  obtain ⟨job, hget, hjob⟩ := Option.map_eq_some_iff.mp sampleOutcome_failed
  obtain ⟨htype, hstatus⟩ := Prod.mk.inj hjob
  have hone := (h ⟨none, none, none⟩ none sampleEnv sampleDeliveries sampleDeliveries_run "job-1"
    job hget htype (.inl hstatus)).1 hstatus
  have hnone : (sampleOutcome.deadLetters "job-1").length = 0 := by decide +kernel
  exact absurd (hnone.symm.trans hone) (by decide)

end Liquifact.Webhooks
