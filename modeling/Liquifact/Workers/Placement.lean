import Liquifact.Workers.Worker
import Mathlib.Data.List.Nodup

/-!
# Where the jobs are

A recorded job stands in exactly one place: pending in the main queue, retrying in
the retry queue, processing in somebody's hands, completed or failed nowhere. `out`
lists the identifiers in hand, of the worker and of other callers.
-/

namespace Liquifact.Workers
open Liquifact.Lib JobQueue Execution

def InPlace (q : JobQueue) (out : List String) (x : String) : JobStatus → Prop
  | .pending => x ∈ q.queue
  | .retrying => x ∈ q.retryQueue
  | .processing => x ∈ out
  | .completed => x ∉ q.queue ++ q.retryQueue ++ out
  | .failed => x ∉ q.queue ++ q.retryQueue ++ out

structure Placed (q : JobQueue) (out drawn : List String) : Prop where
  nodup : (q.queue ++ q.retryQueue ++ out).Nodup
  drawn_sub : q.queue ++ q.retryQueue ++ out ⊆ drawn
  recorded : ∀ x job, q.jobs.get x = some job →
    x ∈ drawn ∧ job.id = x ∧ (∃ d, job.delayMs = .number d ∧ d ≠ .nan) ∧ InPlace q out x job.status

theorem placed_new (o : QueueOptions) : Placed (JobQueue.new o) [] [] := by
  refine ⟨by simp [JobQueue.new], by simp [JobQueue.new], ?_⟩
  intro x job h
  cases h

theorem keeps_of_number {job : Job} {d : JsNumber} (hd : job.delayMs = .number d) (hn : d ≠ .nan)
    (hs : job.status = .pending ∨ job.status = .retrying) : Keeps job := by
  intro now
  have hguard : ¬ (job.status ≠ .pending ∧ job.status ≠ .retrying) := by
    rcases hs with hs | hs <;> simp [hs]
  simp only [isReadyToProcess, if_neg hguard, hd, Numeric.isNumber, Numeric.toNumber, if_true]
  cases hle : JsNumber.le d (.ofNat now) with
  | true => exact .inl rfl
  | false =>
    have hlt := JsNumber.lt_of_not_le hn (by simp [JsNumber.ofNat]) hle
    have hzero : JsNumber.le (.fin 0) (.ofNat now) = true := by simp [JsNumber.ofNat]
    exact .inr (JsNumber.lt_of_le_of_lt hzero hlt)

section Places
variable {q q' : JobQueue} {out out' drawn : List String}

theorem Placed.perm (h : Placed q out drawn) (hp : out.Perm out') : Placed q out' drawn := by
  have hall : (q.queue ++ q.retryQueue ++ out).Perm (q.queue ++ q.retryQueue ++ out') :=
    hp.append_left _
  refine ⟨hall.nodup_iff.mp h.nodup, fun x hx => h.drawn_sub (hall.mem_iff.mpr hx), ?_⟩
  intro x job hj
  obtain ⟨hd, hid, hnum, hplace⟩ := h.recorded x job hj
  refine ⟨hd, hid, hnum, ?_⟩
  cases hs : job.status with
  | pending => rw [hs] at hplace; exact hplace
  | retrying => rw [hs] at hplace; exact hplace
  | processing => rw [hs] at hplace; exact hp.mem_iff.mp hplace
  | completed => rw [hs] at hplace; exact fun hx => hplace (hall.mem_iff.mpr hx)
  | failed => rw [hs] at hplace; exact fun hx => hplace (hall.mem_iff.mpr hx)

theorem Placed.status_of_out (h : Placed q out drawn) {x : String} {job : Job} (hx : x ∈ out)
    (hj : q.jobs.get x = some job) : job.status = .processing := by
  have hplace := (h.recorded x job hj).2.2.2
  have hdis := (List.nodup_append.mp h.nodup).2.2
  cases hs : job.status with
  | processing => rfl
  | pending =>
    rw [hs] at hplace
    exact absurd rfl (hdis x (List.mem_append_left _ hplace) x hx)
  | retrying =>
    rw [hs] at hplace
    exact absurd rfl (hdis x (List.mem_append_right _ hplace) x hx)
  | completed =>
    rw [hs] at hplace
    exact absurd (List.mem_append_right _ hx) hplace
  | failed =>
    rw [hs] at hplace
    exact absurd (List.mem_append_right _ hx) hplace

theorem InPlace.transfer {y : String} {st : JobStatus} (h : InPlace q out y st)
    (hmain : st = .pending → y ∈ q.queue → y ∈ q'.queue)
    (hretry : st = .retrying → y ∈ q.retryQueue → y ∈ q'.retryQueue)
    (hout : y ∈ out → y ∈ out')
    (hnew : y ∈ q'.queue ++ q'.retryQueue ++ out' → y ∈ q.queue ++ q.retryQueue ++ out) :
    InPlace q' out' y st := by
  cases st with
  | pending => exact hmain rfl h
  | retrying => exact hretry rfl h
  | processing => exact hout h
  | completed => exact fun hy => h (hnew hy)
  | failed => exact fun hy => h (hnew hy)

theorem nodup_of_subperm {l₁ l₂ : List String} (h : l₁.Subperm l₂) (hn : l₂.Nodup) : l₁.Nodup := by
  obtain ⟨l, hperm, hsub⟩ := h
  exact hperm.nodup_iff.mp (hn.sublist hsub)

theorem Placed.enqueue {jobId j type : String} {now : ℕ} {payload : Except String Json}
    {o : EnqueueOptions} (h : Placed q out drawn) (hfresh : jobId ∉ drawn)
    (he : q.enqueue jobId now type payload o = .ok (j, q')) : Placed q' out (jobId :: drawn) := by
  obtain ⟨body, -, -, rfl⟩ := enqueue_ok he
  have hnew : jobId ∉ q.queue ++ q.retryQueue ++ out := fun hx => hfresh (h.drawn_sub hx)
  have hperm : (q.queue ++ [jobId] ++ q.retryQueue ++ out).Perm
      (jobId :: (q.queue ++ q.retryQueue ++ out)) := by
    simp only [List.append_assoc, List.singleton_append]
    exact List.perm_middle
  refine ⟨?_, ?_, ?_⟩
  · simp only [issue_queue, issue_retryQueue]
    exact hperm.nodup_iff.mpr (List.nodup_cons.mpr ⟨hnew, h.nodup⟩)
  · simp only [issue_queue, issue_retryQueue]
    intro x hx
    rcases List.mem_cons.mp (hperm.mem_iff.mp hx) with hxe | hxo
    · rw [hxe]
      exact List.mem_cons_self ..
    · exact List.mem_cons_of_mem _ (h.drawn_sub hxo)
  · intro x job hj
    rw [issue_jobs, OrdMap.get_set] at hj
    by_cases hx : jobId = x
    · rw [if_pos hx] at hj
      cases hj
      subst hx
      refine ⟨List.mem_cons_self .., rfl, ⟨_, rfl, JsNumber.orZero_ne_nan _⟩, ?_⟩
      simp [InPlace, newJob]
    · rw [if_neg hx] at hj
      obtain ⟨hd, hid, hnum, hplace⟩ := h.recorded x job hj
      refine ⟨List.mem_cons_of_mem _ hd, hid, hnum, hplace.transfer ?_ ?_ id ?_⟩
      · intro _ hm
        rw [issue_queue]
        exact List.mem_append_left _ hm
      · intro _ hm
        rw [issue_retryQueue]
        exact hm
      · intro hm
        rw [issue_queue, issue_retryQueue] at hm
        exact (List.mem_cons.mp (hperm.mem_iff.mp hm)).resolve_left (Ne.symm hx)

/- A job leaves somebody's hands, its record rewritten or gone. -/
theorem Placed.release {x : String} (h : Placed q out drawn) (hx : x ∈ out)
    (hq : q'.queue = q.queue)
    (hrq : q'.retryQueue = q.retryQueue ∨ q'.retryQueue = q.retryQueue ++ [x])
    (hother : ∀ y, x ≠ y → q'.jobs.get y = q.jobs.get y)
    (hself : ∀ job, q'.jobs.get x = some job → job.id = x ∧
      (∃ d, job.delayMs = .number d ∧ d ≠ .nan) ∧
      ((job.status = .retrying ∧ q'.retryQueue = q.retryQueue ++ [x]) ∨
        ((job.status = .completed ∨ job.status = .failed) ∧ q'.retryQueue = q.retryQueue))) :
    Placed q' (out.erase x) drawn := by
  obtain ⟨hqn, hon, hdis⟩ := List.nodup_append.mp h.nodup
  have hnot : x ∉ q.queue ++ q.retryQueue := fun hm => hdis x hm x hx rfl
  have herase : x ∉ out.erase x := hon.not_mem_erase
  have hperm : (x :: out.erase x).Perm out := (List.perm_cons_erase hx).symm
  -- `x` moves from the hands to the retry queue, or leaves every place
  have hplaces : (q'.queue ++ q'.retryQueue ++ out.erase x).Subperm
      (q.queue ++ q.retryQueue ++ out) := by
    rw [hq]
    rcases hrq with hrq | hrq
    · rw [hrq]
      exact (List.subperm_append_left _).mpr (List.erase_subperm x out)
    · rw [hrq]
      have := hperm.append_left (q.queue ++ q.retryQueue)
      simpa only [List.append_assoc, List.singleton_append] using this.subperm
  refine ⟨nodup_of_subperm hplaces h.nodup, fun y hy => h.drawn_sub (hplaces.subset hy), ?_⟩
  intro y job hj
  by_cases hy : x = y
  · subst hy
    obtain ⟨hid, hnum, hplace⟩ := hself job hj
    refine ⟨h.drawn_sub (List.mem_append_right _ hx), hid, hnum, ?_⟩
    rcases hplace with ⟨hs, hr⟩ | ⟨hs, hr⟩
    · rw [hs]
      show x ∈ q'.retryQueue
      rw [hr]
      exact List.mem_append_right _ (List.mem_singleton_self x)
    · have hout : x ∉ q'.queue ++ q'.retryQueue ++ out.erase x := by
        rw [hq, hr]
        intro hm
        exact (List.mem_append.mp hm).elim hnot herase
      rcases hs with hs | hs
      · rw [hs]
        exact hout
      · rw [hs]
        exact hout
  · rw [hother y hy] at hj
    obtain ⟨hd, hid, hnum, hplace⟩ := h.recorded y job hj
    refine ⟨hd, hid, hnum, hplace.transfer ?_ ?_ ?_ fun hm => hplaces.subset hm⟩
    · intro _ hm
      rw [hq]
      exact hm
    · intro _ hm
      rcases hrq with hrq | hrq
      · rw [hrq]
        exact hm
      · rw [hrq]
        exact List.mem_append_left _ hm
    · exact (List.mem_erase_of_ne (Ne.symm hy)).mpr

theorem Placed.ack {x : String} {now : ℕ} (h : Placed q out drawn) (hx : x ∈ out)
    (ha : q.ack x now = .ok q') : Placed q' (out.erase x) drawn := by
  obtain ⟨job, hget, -, rfl⟩ := ack_ok ha
  apply h.release hx (by simp) (.inl (by simp))
  · intro y hy
    rw [issue_jobs, OrdMap.get_set_of_ne _ _ hy]
  · intro job' hj
    rw [issue_jobs, OrdMap.get_set_self] at hj
    cases hj
    obtain ⟨-, hid, hnum, -⟩ := h.recorded x job hget
    exact ⟨hid, hnum, .inr ⟨.inl rfl, by simp⟩⟩

theorem Placed.retry {x : String} {error : Thrown} {now : ℕ} (h : Placed q out drawn)
    (hx : x ∈ out) (hr : q.retry x error now = .ok q') : Placed q' (out.erase x) drawn := by
  obtain ⟨job, hget, rfl⟩ := retry_ok hr
  obtain ⟨-, hid, hnum, -⟩ := h.recorded x job hget
  cases hle : JsNumber.le (.ofNat job.attempts) q.maxRetries with
  | true =>
    apply h.release hx (by simp) (.inr (by simp))
    · intro y hy
      rw [issue_jobs, OrdMap.get_set_of_ne _ _ hy]
    · intro job' hj
      rw [issue_jobs, OrdMap.get_set_self] at hj
      cases hj
      rw [retried, if_pos hle]
      exact ⟨hid, ⟨_, rfl, by simp⟩, .inl ⟨rfl, by simp⟩⟩
  | false =>
    apply h.release hx (by simp) (.inl (by simp))
    · intro y hy
      rw [issue_jobs, OrdMap.get_set_of_ne _ _ hy]
    · intro job' hj
      rw [issue_jobs, OrdMap.get_set_self] at hj
      cases hj
      rw [retried, if_neg (by simp [hle])]
      exact ⟨hid, hnum, .inr ⟨.inr rfl, by simp⟩⟩

theorem Placed.forget {x : String} (h : Placed q out drawn) (hx : x ∈ out)
    (hj : q.jobs.get x = none) : Placed q (out.erase x) drawn := by
  apply h.release hx rfl (.inl rfl) (fun _ _ => rfl)
  intro job hget
  rw [hj] at hget
  cases hget

/- The part common to a `dequeue` that hands a job out and one that does not. -/
theorem Placed.moved {clock : ℕ → ℕ} {handed : Option String} {r : Option Job}
    (h : Placed q out drawn) (hd : Dequeued q clock handed r q')
    (hjobs : ∀ y, handed ≠ some y → q'.jobs.get y = q.jobs.get y)
    (hself : ∀ x, handed = some x → ∃ job, q'.jobs.get x = some job ∧ job.id = x ∧
      (∃ d, job.delayMs = .number d ∧ d ≠ .nan) ∧ job.status = .processing) :
    Placed q' (handed.toList ++ out) drawn := by
  have hplaces : (q'.queue ++ q'.retryQueue ++ (handed.toList ++ out)).Subperm
      (q.queue ++ q.retryQueue ++ out) := by
    rw [← List.append_assoc]
    have hperm : (q'.queue ++ q'.retryQueue ++ handed.toList).Perm
        (handed.toList ++ (q'.queue ++ q'.retryQueue)) := List.perm_append_comm
    exact (List.subperm_append_right out).mpr (hperm.subperm.trans hd.places)
  refine ⟨nodup_of_subperm hplaces h.nodup, fun y hy => h.drawn_sub (hplaces.subset hy), ?_⟩
  intro y job hj
  by_cases hy : handed = some y
  · obtain ⟨job', hget, hid, hnum, hs⟩ := hself y hy
    rw [hget] at hj
    cases hj
    have hmem : y ∈ handed.toList ++ out := by simp [hy]
    rw [hs]
    exact ⟨h.drawn_sub (hplaces.subset (List.mem_append_right _ hmem)), hid, hnum, hmem⟩
  · rw [hjobs y hy] at hj
    obtain ⟨hdr, hid, ⟨d, hdel, hnan⟩, hplace⟩ := h.recorded y job hj
    refine ⟨hdr, hid, ⟨d, hdel, hnan⟩, hplace.transfer ?_ ?_ ?_ fun hm => hplaces.subset hm⟩
    · intro hs hm
      exact hd.main_keeps y hm hy job hj (keeps_of_number hdel hnan (.inl hs))
    · intro _ hm
      exact hd.retry_keeps y hm hy job hj
    · exact List.mem_append_right _

theorem Placed.dequeue {clock : ℕ → ℕ} {fuel : ℕ} {r : Option Job} (h : Placed q out drawn)
    (hd : q.dequeue clock fuel = some (r, q')) :
    Placed q' ((r.map Job.id).toList ++ out) drawn := by
  obtain ⟨handed, hspec⟩ := dequeue_spec hd
  cases handed with
  | none =>
    obtain ⟨hr, hq'⟩ := hspec.none_eq rfl
    rw [hr]
    apply h.moved hspec
    · intro y _
      rw [hq']
    · intro x hx
      cases hx
  | some x =>
    obtain ⟨job, k, hget, -, hr, hq'⟩ := hspec.of_some
    obtain ⟨-, hid, hnum, -⟩ := h.recorded x job hget
    have hjobs : q'.jobs = q.jobs.set x (started job (clock (k + 1))) := by
      rw [hq', issue_jobs]
    have hlist : (r.map Job.id).toList = (some x).toList := by
      rw [hr]
      simp [JobQueue.started, hid]
    rw [hlist]
    apply h.moved hspec
    · intro y hy
      rw [hjobs, OrdMap.get_set_of_ne _ _ fun he => hy (by rw [he])]
    · intro y hy
      cases hy
      exact ⟨started job (clock (k + 1)), by rw [hjobs, OrdMap.get_set_self], hid, hnum, rfl⟩

theorem Placed.cancel (h : Placed q out drawn) (x : String) :
    Placed (q.cancel x).2 out drawn := by
  refine ⟨h.nodup, h.drawn_sub, ?_⟩
  intro y job hj
  obtain ⟨hd, hid, hnum, hplace⟩ := h.recorded y job (cancel_getJob hj)
  exact ⟨hd, hid, hnum, hplace.transfer (fun _ hm => hm) (fun _ hm => hm) id id⟩

theorem Placed.clear (h : Placed q out drawn) : Placed q.clear.2 out drawn := by
  have hsub : out.Sublist (q.queue ++ q.retryQueue ++ out) := List.sublist_append_right ..
  refine ⟨h.nodup.sublist hsub, fun x hx => h.drawn_sub (hsub.subset hx), ?_⟩
  intro x job hj
  cases hj

theorem Placed.retryJob {x : String} (h : Placed q out drawn) (hx : x ∈ out) (error : Thrown)
    (now : ℕ) : Placed (BackgroundWorker.retryJob q x error now) (out.erase x) drawn := by
  unfold BackgroundWorker.retryJob
  cases hr : q.retry x error now with
  | ok q' => exact h.retry hx hr
  | error m => exact h.forget hx (retry_error hr)

theorem Placed.conclude {x : String} (h : Placed q out drawn) (hx : x ∈ out)
    (outcome : Option Thrown) (now : ℕ) :
    Placed (BackgroundWorker.conclude q x outcome now) (out.erase x) drawn := by
  unfold BackgroundWorker.conclude
  cases outcome with
  | some error => exact h.retryJob hx _ now
  | none =>
    cases ha : q.ack x now with
    | ok q' =>
      simp only
      exact h.ack hx ha
    | error m =>
      simp only
      exact h.retryJob hx _ now

end Places

/-! ### The worker and the other callers -/

structure Sound (s : System) : Prop where
  placed : Placed s.queueOf (s.worker.running ++ s.held) s.drawn
  counted : s.worker.processingCount = s.worker.running.length
  bounded : s.worker.processingCount ≤ s.worker.maxConcurrency
  logged : s.log.countP Execution.ends + s.worker.processingCount = s.log.countP Execution.begins

theorem sound_initial (o : QueueOptions) (maxConcurrency : Option ℕ) :
    Sound (.initial (.new (.new o) maxConcurrency)) :=
  ⟨placed_new o, rfl, Nat.zero_le _, rfl⟩

section Steps
variable {s : System}

theorem Sound.withQueue {q : JobQueue} (h : Sound s)
    (hp : Placed q (s.worker.running ++ s.held) s.drawn) : Sound (s.withQueue q) :=
  ⟨hp, h.counted, h.bounded, h.logged⟩

/- The identifiers in hand are distinct, so one held by a caller is not the worker's. -/
theorem Sound.release_held {x : String} {q : JobQueue} {e : Execution} (h : Sound s)
    (hx : x ∈ s.held) (hp : Placed q ((s.worker.running ++ s.held).erase x) s.drawn)
    (he : e.begins = false ∧ e.ends = false) :
    Sound { s.withQueue q with held := s.held.erase x, log := s.log ++ [e] } := by
  -- one identifier in two hands would be a repetition in the list of places
  have hon := (List.nodup_append.mp h.placed.nodup).2.1
  have hnot : x ∉ s.worker.running := fun hr => (List.nodup_append.mp hon).2.2 x hr x hx rfl
  rw [List.erase_append_right _ hnot] at hp
  exact ⟨hp, h.counted, h.bounded, by simpa [he, System.withQueue] using h.logged⟩

theorem Sound.settle {x : String} (h : Sound s) (hx : x ∈ s.worker.running)
    (outcome : Option Thrown) (now : ℕ) :
    Sound { s with
      worker := s.worker.settle x outcome now
      log := s.log ++ [if outcome = none then .succeeded x else .failed x] } := by
  have hp := h.placed.conclude (List.mem_append_left _ hx) outcome now
  rw [List.erase_append_left _ hx] at hp
  have hpos : 0 < s.worker.running.length := List.length_pos_of_mem hx
  have hcount := h.counted
  have hbound := h.bounded
  have hlog := h.logged
  refine ⟨hp, ?_, ?_, ?_⟩
  · simp only [BackgroundWorker.settle, List.length_erase_of_mem hx, hcount]
  · simp only [BackgroundWorker.settle]
    omega
  · cases outcome with
    | none =>
      simp only [BackgroundWorker.settle, if_true, List.countP_append, List.countP_singleton,
        Execution.ends, Execution.begins, Bool.false_eq_true, if_false]
      omega
    | some error =>
      simp only [BackgroundWorker.settle, reduceCtorEq, if_true, if_false, List.countP_append,
        List.countP_singleton, Execution.ends, Execution.begins, Bool.false_eq_true]
      omega

theorem Sound.step (h : Sound s) {a : Action} (ha : s.Disciplined a) : Sound (s.step a) := by
  have heff := s.step_effect a
  generalize s.step a = t at heff ⊢
  cases heff with
  | still hqueue hcount hmax hrunning =>
    refine ⟨?_, ?_, ?_, ?_⟩
    · simp only [System.queueOf, hqueue, hrunning]
      exact h.placed
    · simp only [hcount, hrunning]
      exact h.counted
    · simp only [hcount, hmax]
      exact h.bounded
    · simp only [hcount]
      exact h.logged
  | enqueued he => exact ⟨h.placed.enqueue ha he, h.counted, h.bounded, h.logged⟩
  | emptied hd => exact h.withQueue (h.placed.dequeue hd)
  | @admitted entered clock fuel now q job hroom hd =>
    have hp := h.placed.dequeue hd
    have hlog := h.logged
    refine ⟨hp.perm ?_, ?_, hroom, ?_⟩
    · simp only [Option.map_some, Option.toList_some, List.append_assoc, List.singleton_append]
      exact List.perm_middle.symm
    · simp [h.counted]
    · simp only [List.countP_append, List.countP_cons, List.countP_nil, Execution.begins,
        Execution.ends, Bool.false_eq_true, if_true, if_false]
      omega
  | @turnedAway entered clock fuel now q job m hd =>
    have hret := (h.placed.dequeue hd).retryJob (x := job.id) (by simp) (.ofMessage m) now
    have hlog := h.logged
    simp only [Option.map_some, Option.toList_some, List.singleton_append,
      List.erase_cons_head] at hret
    refine ⟨hret, h.counted, h.bounded, ?_⟩
    simp only [List.countP_append, List.countP_cons, List.countP_nil, Execution.begins,
      Execution.ends, Bool.false_eq_true, if_true, if_false]
    omega
  | settled hrun => exact h.settle hrun _ _
  | cancelled => exact h.withQueue (h.placed.cancel _)
  | cleared => exact h.withQueue h.placed.clear
  | @taken clock fuel q job hd =>
    have hp := h.placed.dequeue hd
    refine ⟨hp.perm ?_, h.counted, h.bounded, ?_⟩
    · simp only [Option.map_some, Option.toList_some, System.withQueue, List.singleton_append,
        ← List.append_assoc]
      exact (List.perm_append_singleton ..).symm
    · simpa [Execution.begins, Execution.ends, System.withQueue] using h.logged
  | acked hk =>
    exact h.release_held ha (h.placed.ack (List.mem_append_right _ ha) hk) ⟨rfl, rfl⟩
  | returned hr =>
    exact h.release_held ha (h.placed.retry (List.mem_append_right _ ha) hr) ⟨rfl, rfl⟩

end Steps

/-! ### Where an identifier can come from -/

abbrev System.places (s : System) : List String :=
  s.queueOf.queue ++ s.queueOf.retryQueue ++ (s.worker.running ++ s.held)

theorem dequeue_places {q q' : JobQueue} {out drawn : List String} {clock : ℕ → ℕ} {fuel : ℕ}
    {r : Option Job} (hp : Placed q out drawn) (hd : q.dequeue clock fuel = some (r, q')) :
    q'.queue ++ q'.retryQueue ⊆ q.queue ++ q.retryQueue ∧
      ∀ job, r = some job → job.id ∈ q.queue ++ q.retryQueue := by
  obtain ⟨handed, hspec⟩ := dequeue_spec hd
  refine ⟨fun y hy => hspec.places.subset (List.mem_append_right _ hy), ?_⟩
  rintro job rfl
  obtain ⟨x, job₀, k, hget, -, rfl, -, -, hx⟩ := dequeue_some_ok hd
  have hid : job₀.id = x := (hp.recorded x job₀ hget).2.1
  rw [← hid] at hx
  exact hx

theorem enqueue_places {q q' : JobQueue} {jobId j type : String} {now : ℕ}
    {payload : Except String Json} {o : EnqueueOptions}
    (he : q.enqueue jobId now type payload o = .ok (j, q')) :
    ∀ y ∈ q'.queue ++ q'.retryQueue, y ∈ q.queue ++ q.retryQueue ∨ y = jobId := by
  obtain ⟨body, -, -, rfl⟩ := enqueue_ok he
  intro y hy
  simp only [issue_queue, issue_retryQueue, List.mem_append, List.mem_singleton] at hy
  rcases hy with (hy | hy) | hy
  · exact .inl (List.mem_append_left _ hy)
  · exact .inr hy
  · exact .inl (List.mem_append_right _ hy)

theorem ack_places {q q' : JobQueue} {x : String} {now : ℕ} (ha : q.ack x now = .ok q') :
    q'.queue ++ q'.retryQueue = q.queue ++ q.retryQueue := by
  obtain ⟨job, -, -, rfl⟩ := ack_ok ha
  rw [issue_queue, issue_retryQueue]

theorem retry_places {q q' : JobQueue} {x : String} {error : Thrown} {now : ℕ}
    (hr : q.retry x error now = .ok q') :
    ∀ y ∈ q'.queue ++ q'.retryQueue, y ∈ q.queue ++ q.retryQueue ∨ y = x := by
  obtain ⟨job, -, rfl⟩ := retry_ok hr
  intro y hy
  simp only [issue_queue, issue_retryQueue] at hy
  split at hy
  · rw [← List.append_assoc] at hy
    exact (List.mem_append.mp hy).imp id List.mem_singleton.mp
  · exact .inl hy

theorem retryJob_places (q : JobQueue) (x : String) (error : Thrown) (now : ℕ) :
    ∀ y ∈ (BackgroundWorker.retryJob q x error now).queue ++
      (BackgroundWorker.retryJob q x error now).retryQueue,
      y ∈ q.queue ++ q.retryQueue ∨ y = x := by
  unfold BackgroundWorker.retryJob
  cases hr : q.retry x error now with
  | ok q' => exact retry_places hr
  | error _ => exact fun y hy => .inl hy

theorem conclude_places (q : JobQueue) (x : String) (outcome : Option Thrown) (now : ℕ) :
    ∀ y ∈ (BackgroundWorker.conclude q x outcome now).queue ++
      (BackgroundWorker.conclude q x outcome now).retryQueue,
      y ∈ q.queue ++ q.retryQueue ∨ y = x := by
  unfold BackgroundWorker.conclude
  cases outcome with
  | some error => exact retryJob_places q x error now
  | none =>
    cases ha : q.ack x now with
    | error msg => exact retryJob_places q x (.ofMessage msg) now
    | ok q' => exact fun y hy => .inl (ack_places ha ▸ hy)

/-- From `s` to `t` the log grew by entries about jobs that had a place, and only an
identifier not drawn before got one. -/
structure Extends (s t : System) (new : List Execution) : Prop where
  drawn : s.drawn ⊆ t.drawn
  places : ∀ y ∈ t.places, y ∈ s.places ∨ y ∉ s.drawn
  log : t.log = s.log ++ new
  named : ∀ e ∈ new, e.jobId ∈ s.places
  handled : ∀ x, tally isHandled x new ≤ tally isExecution x new

section Extension
variable {s : System}

theorem extends_nil {t : System} (hdrawn : s.drawn ⊆ t.drawn) (hlog : t.log = s.log)
    (hwait : ∀ y ∈ t.queueOf.queue ++ t.queueOf.retryQueue,
      y ∈ s.queueOf.queue ++ s.queueOf.retryQueue ∨ y ∉ s.drawn)
    (hrunning : t.worker.running = s.worker.running) (hheld : t.held = s.held) :
    Extends s t [] := by
  refine ⟨hdrawn, ?_, ?_, ?_, fun _ => le_rfl⟩
  · intro y hy
    rcases List.mem_append.mp hy with hy | hy
    · exact (hwait y hy).imp (fun hw => List.mem_append_left _ hw) id
    · rw [hrunning, hheld] at hy
      exact .inl (List.mem_append_right _ hy)
  · rw [hlog, List.append_nil]
  · intro e he
    cases he

/- One job `x` that had a place is the subject; the others stay where they were. -/
theorem extends_about {t : System} {x : String} {new : List Execution} (hx : x ∈ s.places)
    (hdrawn : t.drawn = s.drawn) (hlog : t.log = s.log ++ new) (hnew : ∀ e ∈ new, e.jobId = x)
    (hwait : ∀ y ∈ t.queueOf.queue ++ t.queueOf.retryQueue,
      y ∈ s.queueOf.queue ++ s.queueOf.retryQueue ∨ y = x)
    (hhand : ∀ y ∈ t.worker.running ++ t.held, y ∈ s.worker.running ++ s.held ∨ y = x)
    (hhandled : ∀ y, tally isHandled y new ≤ tally isExecution y new) : Extends s t new := by
  refine ⟨fun y hy => hdrawn ▸ hy, ?_, hlog, fun e he => (hnew e he).symm ▸ hx, hhandled⟩
  intro y hy
  rcases List.mem_append.mp hy with hy | hy
  · rcases hwait y hy with hy | rfl
    · exact .inl (List.mem_append_left _ hy)
    · exact .inl hx
  · rcases hhand y hy with hy | rfl
    · exact .inl (List.mem_append_right _ hy)
    · exact .inl hx

theorem step_extends (hs : Sound s) {a : Action} (ha : s.Disciplined a) :
    ∃ new, Extends s (s.step a) new := by
  have heff := s.step_effect a
  generalize s.step a = t at heff ⊢
  cases heff with
  | still hqueue hcount hmax hrunning =>
    refine ⟨[], extends_nil (fun _ hy => hy) rfl ?_ hrunning rfl⟩
    intro y hy
    simp only [System.queueOf, hqueue] at hy
    exact .inl hy
  | enqueued he =>
    -- the only step that gives a place to an identifier without one
    refine ⟨[], extends_nil (fun _ hy => List.mem_cons_of_mem _ hy) rfl ?_ rfl rfl⟩
    intro y hy
    rcases enqueue_places he y hy with hy | rfl
    · exact .inl hy
    · exact .inr ha
  | emptied hd =>
    have hsub := (dequeue_places hs.placed hd).1
    exact ⟨[], extends_nil (fun _ hy => hy) rfl (fun y hy => .inl (hsub hy)) rfl rfl⟩
  | @admitted entered clock fuel now q job hroom hd =>
    obtain ⟨hsub, hid⟩ := dequeue_places hs.placed hd
    refine ⟨_, extends_about (List.mem_append_left _ (hid job rfl)) rfl rfl ?_
      (fun y hy => .inl (hsub hy)) ?_ ?_⟩
    · intro e he
      simp only [List.mem_cons, List.not_mem_nil, or_false] at he
      rcases he with rfl | rfl <;> rfl
    · intro y hy
      simp only [List.mem_append, List.mem_singleton] at hy ⊢
      rcases hy with (hy | hy) | hy
      · exact .inl (.inl hy)
      · exact .inr hy
      · exact .inl (.inr hy)
    · intro y
      by_cases hy : job.id = y <;> simp [tally, isHandled, isExecution, Execution.jobId, hy]
  | @turnedAway entered clock fuel now q job m hd =>
    obtain ⟨hsub, hid⟩ := dequeue_places hs.placed hd
    refine ⟨_, extends_about (List.mem_append_left _ (hid job rfl)) rfl rfl ?_ ?_
      (fun y hy => .inl hy) fun y => by simp [tally, isHandled]⟩
    · intro e he
      simp only [List.mem_cons, List.not_mem_nil, or_false] at he
      rcases he with rfl | rfl <;> rfl
    · intro y hy
      exact (retryJob_places q job.id (.ofMessage m) now y hy).imp (fun hw => hsub hw) id
  | @settled x outcome now hrun =>
    refine ⟨_, extends_about (List.mem_append_right _ (List.mem_append_left _ hrun)) rfl rfl ?_
      (conclude_places s.queueOf x outcome now) ?_ ?_⟩
    · intro e he
      rw [List.mem_singleton.mp he]
      split <;> rfl
    · intro y hy
      exact .inl (List.mem_append.mpr ((List.mem_append.mp hy).imp List.mem_of_mem_erase id))
    · intro y
      split <;> simp [tally, isHandled]
  | cancelled => exact ⟨[], extends_nil (fun _ hy => hy) rfl (fun _ hy => .inl hy) rfl rfl⟩
  | cleared =>
    refine ⟨[], extends_nil (fun _ hy => hy) rfl ?_ rfl rfl⟩
    intro y hy
    cases hy
  | @taken clock fuel q job hd =>
    obtain ⟨hsub, hid⟩ := dequeue_places hs.placed hd
    refine ⟨_, extends_about (List.mem_append_left _ (hid job rfl)) rfl rfl ?_
      (fun y hy => .inl (hsub hy)) ?_ fun y => by simp [tally, isHandled]⟩
    · intro e he
      rw [List.mem_singleton.mp he]
      rfl
    · intro y hy
      simp only [System.withQueue, List.mem_append, List.mem_singleton] at hy ⊢
      rcases hy with hy | hy | hy
      · exact .inl (.inl hy)
      · exact .inl (.inr hy)
      · exact .inr hy
  | acked hk =>
    refine ⟨_, extends_about (List.mem_append_right _ (List.mem_append_right _ ha)) rfl rfl ?_ ?_ ?_
      fun y => by simp [tally, isHandled]⟩
    · intro e he
      rw [List.mem_singleton.mp he]
      rfl
    · exact fun y hy => .inl (ack_places hk ▸ hy)
    · intro y hy
      exact .inl (List.mem_append.mpr ((List.mem_append.mp hy).imp id List.mem_of_mem_erase))
  | returned hr =>
    refine ⟨_, extends_about (List.mem_append_right _ (List.mem_append_right _ ha)) rfl rfl ?_
      (retry_places hr) ?_ fun y => by simp [tally, isHandled]⟩
    · intro e he
      rw [List.mem_singleton.mp he]
      rfl
    · intro y hy
      exact .inl (List.mem_append.mpr ((List.mem_append.mp hy).imp id List.mem_of_mem_erase))

end Extension

def sampleRun : List Action :=
  [.registerHandler "mail", .start,
    .enqueue "job-a" 10 "mail" (.ok .null) ⟨.fin 0, .fin 0⟩,
    .enqueue "job-b" 11 "mail" (.ok .null) ⟨.fin 0, .fin 0⟩,
    .poll false (fun _ => 20) 5 20, .cancel "job-a",
    .poll false (fun _ => 21) 5 21, .settle "job-b" (some (.ofMessage "down")) 22]

def sampleOptions : QueueOptions := ⟨some (.fin 3), none, none⟩

theorem sampleRun_disciplined :
    Along System.step System.Disciplined (.initial (.new (.new sampleOptions) none)) sampleRun := by
  refine ⟨trivial, trivial, ?_, ?_, trivial, trivial, trivial, trivial, trivial⟩
  · show "job-a" ∉ _
    decide
  · show "job-b" ∉ _
    decide

end Liquifact.Workers
