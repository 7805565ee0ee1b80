import Liquifact.Lib.Rotation
import Liquifact.Workers.JobQueue

/-!
# When `dequeue` returns

The loop over the main queue (`jobQueue.js:105-118`) pushes a job that is not ready and has
a positive `delayMs` back on the list whose length is its guard. `Date.now()` is read again
at each job; here it does not advance during the call.
-/

namespace Liquifact.Workers.JobQueue
open Liquifact.Lib

/- What the loop does with an identifier at the time `now`. -/
def judge (jobs : OrdMap String Job) (now : ℕ) (x : String) : Verdict :=
  match jobs.get x with
  | none => .drop
  | some job =>
    if isReadyToProcess job now then .take
    else if JsNumber.lt (.fin 0) job.delayMs.toNumber then .putBack
    else .drop

/- The identifiers a call shifts off, those of its first `fuel` turns of the loop. -/
def examined (q : JobQueue) (now fuel : ℕ) : List String :=
  match q.retryQueue with
  | [] => visited (judge q.jobs now) fuel q.queue
  | x :: _ =>
    match q.jobs.get x with
    | none => x :: visited (judge q.jobs now) fuel q.queue
    | some job =>
      if isReadyToProcess job now then [x] else x :: visited (judge q.jobs now) fuel q.queue

def Ready (q : JobQueue) (now : ℕ) (x : String) : Prop :=
  ∃ job, q.jobs.get x = some job ∧ isReadyToProcess job now = true

/-- A call with the clock at `now` returns; it examines each queued identifier at most once,
returns null if no queued job is ready, and leaves the jobs that are not ready queued. -/
structure DequeueReturns (q : JobQueue) (now : ℕ) : Prop where
  returns : ∃ fuel out, q.dequeue (fun _ => now) fuel = some out
  once : ∀ fuel, (q.examined now fuel).Subperm (q.retryQueue ++ q.queue)
  null : (∀ x ∈ q.retryQueue ++ q.queue, ¬ q.Ready now x) →
    ∃ fuel q', q.dequeue (fun _ => now) fuel = some (none, q')
  stays : ∀ fuel r q', q.dequeue (fun _ => now) fuel = some (r, q') →
    ∀ x ∈ q.retryQueue ++ q.queue, ∀ job, q.jobs.get x = some job →
      isReadyToProcess job now = false → x ∈ q'.retryQueue ++ q'.queue

/-- The head of the retry queue is ready; or a job in the main queue is, and those before the
first one have a positive delay or are queued again elsewhere; or no identifier in the main
queue has a record, unless it has no positive delay and is in the retry queue too. -/
inductive Escapes (q : JobQueue) (now : ℕ) : Prop where
  | retryHead (x : String) (rest : List String) (hq : q.retryQueue = x :: rest)
      (hready : q.Ready now x)
  | mainReady (pre : List String) (x : String) (post : List String)
      (hq : q.queue = pre ++ x :: post) (hready : q.Ready now x)
      (hpre : ∀ y ∈ pre, ¬ q.Ready now y ∧ ∀ job, q.jobs.get y = some job →
        JsNumber.lt (.fin 0) job.delayMs.toNumber = true ∨ y ∈ q.retryQueue ++ post)
  | mainEmpty (hq : ∀ y ∈ q.queue, ¬ q.Ready now y ∧ ∀ job, q.jobs.get y = some job →
        JsNumber.lt (.fin 0) job.delayMs.toNumber = false ∧ y ∈ q.retryQueue)

section Judge
variable {q : JobQueue} {now : ℕ} {x : String} {job : Job}

theorem judge_of_none (h : q.jobs.get x = none) : judge q.jobs now x = .drop := by
  simp only [judge, h]

theorem judge_take_iff : judge q.jobs now x = .take ↔ q.Ready now x := by
  unfold judge Ready
  cases q.jobs.get x with
  | none => simp
  | some job =>
    simp only [Option.some.injEq, exists_eq_left']
    split
    · simp [*]
    · split <;> simp [*]

theorem judge_of_not_ready (h : q.jobs.get x = some job) (hnot : isReadyToProcess job now = false) :
    judge q.jobs now x = if JsNumber.lt (.fin 0) job.delayMs.toNumber then .putBack else .drop := by
  simp [judge, h, hnot]

theorem not_ready_of_get (h : q.jobs.get x = some job) (hnot : ¬ q.Ready now x) :
    isReadyToProcess job now = false := by
  rw [← Bool.not_eq_true]
  intro hr
  exact hnot ⟨job, h, hr⟩

end Judge

/-! ### The loop is a rotation -/

theorem scanQueue_rotate (jobs : OrdMap String Job) (now fuel i : ℕ) (ids : List String) :
    (scanQueue jobs (fun _ => now) fuel i ids).map (fun out => (out.1.map Prod.fst, out.2)) =
      rotate (judge jobs now) fuel ids := by
  induction fuel generalizing i ids with
  | zero => rfl
  | succ fuel ih =>
    cases ids with
    | nil => rfl
    | cons x rest =>
      rw [scanQueue, rotate]
      cases hget : jobs.get x with
      | none => simp [judge, hget, ih]
      | some job =>
        simp only [judge, hget]
        cases isReadyToProcess job now with
        | true => rfl
        | false =>
          cases JsNumber.lt (.fin 0) job.delayMs.toNumber with
          | true => exact ih ..
          | false => exact ih ..

theorem dequeueMain_of_rotate_some {q : JobQueue} {now fuel i : ℕ} {x : String} {rest : List String}
    (h : rotate (judge q.jobs now) fuel q.queue = some (some x, rest)) :
    ∃ job, q.jobs.get x = some job ∧ dequeueMain q (fun _ => now) fuel i =
      some ({ q with queue := rest }.handOut x job now) := by
  rw [← scanQueue_rotate q.jobs now fuel i] at h
  obtain ⟨⟨found, left⟩, hscan, hout⟩ := Option.map_eq_some_iff.mp h
  obtain ⟨hfound, rfl⟩ := Prod.mk.inj hout
  obtain ⟨⟨y, job, k⟩, rfl, rfl⟩ := Option.map_eq_some_iff.mp hfound
  refine ⟨job, ((scanQueue_spec hscan).2.2 y job k rfl).1, ?_⟩
  rw [dequeueMain, hscan]

theorem dequeueMain_of_rotate_none {q : JobQueue} {now fuel i : ℕ} {rest : List String}
    (h : rotate (judge q.jobs now) fuel q.queue = some (none, rest)) :
    dequeueMain q (fun _ => now) fuel i = some (none, { q with queue := rest }) := by
  rw [← scanQueue_rotate q.jobs now fuel i] at h
  obtain ⟨⟨found, left⟩, hscan, hout⟩ := Option.map_eq_some_iff.mp h
  obtain ⟨hfound, rfl⟩ := Prod.mk.inj hout
  rw [Option.map_eq_none_iff] at hfound
  subst hfound
  rw [dequeueMain, hscan]

theorem rotate_of_dequeueMain {q q' : JobQueue} {now fuel i : ℕ} {r : Option Job}
    (h : dequeueMain q (fun _ => now) fuel i = some (r, q')) :
    ∃ found, rotate (judge q.jobs now) fuel q.queue = some (found, q'.queue) ∧
      q'.retryQueue = q.retryQueue ∧ (found = none ↔ r = none) := by
  rw [← scanQueue_rotate q.jobs now fuel i]
  unfold dequeueMain at h
  cases hscan : scanQueue q.jobs (fun _ => now) fuel i q.queue with
  | none =>
    simp only [hscan] at h
    cases h
  | some out =>
    obtain ⟨found, rest⟩ := out
    cases found with
    | none =>
      simp only [hscan, Option.some.injEq, Prod.mk.injEq] at h
      obtain ⟨rfl, rfl⟩ := h
      exact ⟨none, rfl, rfl, by simp⟩
    | some f =>
      obtain ⟨x, job, k⟩ := f
      simp only [hscan, Option.some.injEq, handOut, Prod.mk.injEq] at h
      obtain ⟨rfl, rfl⟩ := h
      exact ⟨some x, by simp, by simp, by simp⟩

/-! ### The retry queue comes first -/

/- What the call hands to the loop over the main queue: the retry queue `rq`, after the
identifiers `head` were examined. -/
structure PassesOn (q : JobQueue) (now : ℕ) (rq head : List String) : Prop where
  dequeue_eq : ∃ i, ∀ fuel, q.dequeue (fun _ => now) fuel =
    dequeueMain { q with retryQueue := rq } (fun _ => now) fuel i
  examined_eq : ∀ fuel, q.examined now fuel = head ++ visited (judge q.jobs now) fuel q.queue
  head_sub : head.Subperm q.retryQueue
  keeps : ∀ x ∈ q.retryQueue, ∀ job, q.jobs.get x = some job → x ∈ rq
  sub : ∀ x ∈ rq, x ∈ q.retryQueue

theorem dequeue_of_head {q : JobQueue} {now : ℕ} {x : String} {rest : List String} {job : Job}
    (hq : q.retryQueue = x :: rest) (hget : q.jobs.get x = some job)
    (hready : isReadyToProcess job now = true) (fuel : ℕ) :
    q.dequeue (fun _ => now) fuel = some ({ q with retryQueue := rest }.handOut x job now) := by
  simp only [dequeue, hq, hget, hready, if_true]

theorem ready_or_passesOn (q : JobQueue) (now : ℕ) :
    (∃ x rest, q.retryQueue = x :: rest ∧ q.Ready now x) ∨ ∃ rq head, PassesOn q now rq head := by
  cases hq : q.retryQueue with
  | nil =>
    refine .inr ⟨[], [], ⟨0, fun fuel => ?_⟩, fun fuel => ?_, ?_, ?_, ?_⟩
    · simp only [dequeue, hq]
      congr 1
      rw [← hq]
    · simp only [examined, hq, List.nil_append]
    · exact List.nil_subperm
    · intro x hx
      rw [hq] at hx
      cases hx
    · intro x hx
      cases hx
  | cons x rest =>
    cases hget : q.jobs.get x with
    | none =>
      refine .inr ⟨rest, [x], ⟨0, fun fuel => ?_⟩, fun fuel => ?_, ?_, ?_, ?_⟩
      · simp only [dequeue, hq, hget]
      · simp only [examined, hq, hget, List.singleton_append]
      · rw [hq]
        exact (List.singleton_sublist.mpr (List.mem_cons_self ..)).subperm
      · intro y hy job hj
        rw [hq] at hy
        rcases List.mem_cons.mp hy with rfl | hy
        · rw [hget] at hj
          cases hj
        · exact hy
      · intro y hy
        rw [hq]
        exact List.mem_cons_of_mem _ hy
    | some job =>
      cases hready : isReadyToProcess job now with
      | true => exact .inl ⟨x, rest, rfl, job, hget, hready⟩
      | false =>
        have hperm : (rest ++ [x]).Perm (x :: rest) := List.perm_append_singleton ..
        refine .inr ⟨rest ++ [x], [x], ⟨1, fun fuel => ?_⟩, fun fuel => ?_, ?_, ?_, ?_⟩
        · simp only [dequeue, hq, hget, hready, Bool.false_eq_true, if_false]
        · simp only [examined, hq, hget, hready, Bool.false_eq_true, if_false,
            List.singleton_append]
        · rw [hq]
          exact (List.singleton_sublist.mpr (List.mem_cons_self ..)).subperm
        · intro y hy _ _
          rw [hq] at hy
          exact hperm.mem_iff.mpr hy
        · intro y hy
          rw [hq]
          exact hperm.mem_iff.mp hy

/-! ### Exactly when it returns -/

section Returns
variable {q : JobQueue} {now : ℕ} {rq head : List String}

theorem returns_of_head {x : String} {rest : List String} (hq : q.retryQueue = x :: rest)
    (hready : q.Ready now x) : DequeueReturns q now := by
  obtain ⟨job, hget, hr⟩ := hready
  have hdeq := dequeue_of_head hq hget hr
  refine ⟨⟨0, _, hdeq 0⟩, ?_, ?_, ?_⟩
  · intro fuel
    simp only [examined, hq, hget, hr, if_true]
    exact (List.singleton_sublist.mpr (List.mem_cons_self ..)).subperm
  · intro hnone
    exact absurd ⟨job, hget, hr⟩ (hnone x (by simp [hq]))
  · intro fuel r q' h y hy job' hj hnot
    have hout := Option.some.inj ((hdeq fuel).symm.trans h)
    obtain rfl : _ = q' := congrArg Prod.snd hout
    rw [handOut_queue, handOut_retryQueue]
    rw [hq, List.cons_append] at hy
    rcases List.mem_cons.mp hy with rfl | hy
    · rw [hget] at hj
      cases hj
      rw [hr] at hnot
      cases hnot
    · exact hy

theorem PassesOn.run (h : PassesOn q now rq head) {fuel : ℕ} {found : Option String}
    {rest : List String} (hrot : rotate (judge q.jobs now) fuel q.queue = some (found, rest)) :
    ∃ r q', q.dequeue (fun _ => now) fuel = some (r, q') ∧ q'.queue = rest ∧ q'.retryQueue = rq ∧
      (found = none → r = none) := by
  obtain ⟨i, hdeq⟩ := h.dequeue_eq
  cases found with
  | none =>
    exact ⟨none, _, (hdeq fuel).trans (dequeueMain_of_rotate_none hrot), rfl, rfl, fun _ => rfl⟩
  | some x =>
    obtain ⟨job, -, hmain⟩ := dequeueMain_of_rotate_some (q := { q with retryQueue := rq })
      (i := i) hrot
    refine ⟨_, _, (hdeq fuel).trans hmain, ?_, ?_, fun hx => by cases hx⟩
    · exact handOut_queue ..
    · exact handOut_retryQueue ..

theorem PassesOn.back (h : PassesOn q now rq head) {fuel : ℕ} {r : Option Job} {q' : JobQueue}
    (hdeq : q.dequeue (fun _ => now) fuel = some (r, q')) :
    ∃ found, rotate (judge q.jobs now) fuel q.queue = some (found, q'.queue) ∧
      q'.retryQueue = rq := by
  obtain ⟨i, heq⟩ := h.dequeue_eq
  rw [heq fuel] at hdeq
  obtain ⟨found, hrot, hretry, -⟩ := rotate_of_dequeueMain hdeq
  exact ⟨found, hrot, hretry⟩

/- The loop ends with `found` and `rest`, and visits a part of the main queue once. -/
theorem PassesOn.returns (h : PassesOn q now rq head) {fuel : ℕ} {found : Option String}
    {rest : List String} (hrot : rotate (judge q.jobs now) fuel q.queue = some (found, rest))
    (hvisit : ∀ fuel, (visited (judge q.jobs now) fuel q.queue).Subperm q.queue)
    (hnull : found ≠ none → ∃ x ∈ q.queue, q.Ready now x)
    (hstay : ∀ x ∈ q.queue, ∀ job, q.jobs.get x = some job → isReadyToProcess job now = false →
      x ∈ q.retryQueue ∨ x ∈ rest) : DequeueReturns q now := by
  obtain ⟨r, q₁, hdeq, -, -, hr⟩ := h.run hrot
  refine ⟨⟨fuel, _, hdeq⟩, ?_, ?_, ?_⟩
  · intro fuel
    rw [h.examined_eq]
    exact h.head_sub.append (hvisit fuel)
  · intro hnone
    have hfound : found = none := by
      by_contra hne
      obtain ⟨x, hx, hready⟩ := hnull hne
      exact hnone x (List.mem_append_right _ hx) hready
    exact ⟨fuel, q₁, by rw [hdeq, hr hfound]⟩
  · intro fuel' r' q' hdeq' x hx job hget hnot
    obtain ⟨found', hrot', hretry⟩ := h.back hdeq'
    have hqueue : q'.queue = rest := congrArg Prod.snd (rotate_unique hrot' hrot)
    rw [hretry, hqueue]
    rcases List.mem_append.mp hx with hx | hx
    · exact List.mem_append_left _ (h.keeps x hx job hget)
    · rcases hstay x hx job hget hnot with hin | hin
      · exact List.mem_append_left _ (h.keeps x hin job hget)
      · exact List.mem_append_right _ hin

theorem PassesOn.returns_of_ready (h : PassesOn q now rq head) {pre post : List String} {x : String}
    (hq : q.queue = pre ++ x :: post) (hready : q.Ready now x)
    (hpre : ∀ y ∈ pre, ¬ q.Ready now y ∧ ∀ job, q.jobs.get y = some job →
      JsNumber.lt (.fin 0) job.delayMs.toNumber = true ∨ y ∈ q.retryQueue ++ post) :
    DequeueReturns q now := by
  have htake : judge q.jobs now x = .take := judge_take_iff.mpr hready
  have hbefore : ∀ y ∈ pre, judge q.jobs now y ≠ .take := fun y hy =>
    fun hj => (hpre y hy).1 (judge_take_iff.mp hj)
  have hrot := rotate_of_take post hbefore htake
  rw [← hq] at hrot
  refine h.returns hrot ?_ ?_ ?_
  · intro fuel
    have hvis := visited_of_take post hbefore htake fuel
    rw [← hq] at hvis
    have hsub : pre ++ [x] <+: q.queue := by
      rw [hq]
      exact ⟨post, by simp⟩
    exact (hvis.trans hsub).sublist.subperm
  · intro _
    exact ⟨x, by rw [hq]; simp, hready⟩
  · intro y hy job hget hnot
    rw [hq] at hy
    rcases List.mem_append.mp hy with hy | hy
    · rcases (hpre y hy).2 job hget with hdelay | hin
      · -- pushed back behind the main queue
        refine .inr (List.mem_append_right _ (mem_returned.mpr ⟨hy, ?_⟩))
        rw [judge_of_not_ready hget hnot, if_pos hdelay]
      · rcases List.mem_append.mp hin with hin | hin
        · exact .inl hin
        · exact .inr (List.mem_append_left _ hin)
    · rcases List.mem_cons.mp hy with rfl | hy
      · obtain ⟨job', hget', hr⟩ := hready
        rw [hget] at hget'
        cases hget'
        rw [hr] at hnot
        cases hnot
      · exact .inr (List.mem_append_left _ hy)

theorem PassesOn.returns_of_none (h : PassesOn q now rq head)
    (hq : ∀ y ∈ q.queue, ¬ q.Ready now y ∧ ∀ job, q.jobs.get y = some job →
      JsNumber.lt (.fin 0) job.delayMs.toNumber = false ∧ y ∈ q.retryQueue) :
    DequeueReturns q now := by
  have hdrop : ∀ y ∈ q.queue, judge q.jobs now y = .drop := by
    intro y hy
    cases hget : q.jobs.get y with
    | none => exact judge_of_none hget
    | some job =>
      have hnot := not_ready_of_get hget (hq y hy).1
      rw [judge_of_not_ready hget hnot, ((hq y hy).2 job hget).1]
      rfl
  refine h.returns (rotate_of_drop hdrop) ?_ ?_ ?_
  · intro fuel
    exact (visited_of_drop hdrop fuel).sublist.subperm
  · intro hne
    exact absurd rfl hne
  · intro y hy job hget _
    exact .inl ((hq y hy).2 job hget).2

theorem PassesOn.escapes (h : PassesOn q now rq head) (hret : DequeueReturns q now) :
    Escapes q now := by
  rcases exists_first_take (judge q.jobs now) q.queue with hnone | ⟨pre, x, post, hq, htake, hpre⟩
  · refine .mainEmpty fun y hy => ?_
    have hnot : ¬ q.Ready now y := fun hr => hnone y hy (judge_take_iff.mpr hr)
    refine ⟨hnot, fun job hget => ?_⟩
    have hjudge := judge_of_not_ready hget (not_ready_of_get hget hnot)
    obtain ⟨fuel, ⟨r, q'⟩, hdeq⟩ := hret.returns
    obtain ⟨found, hrot, hretry⟩ := h.back hdeq
    -- whatever is put back is met again and again
    have hall : ∀ z ∈ q.queue, judge q.jobs now z = .drop := by
      intro z hz
      cases hz' : judge q.jobs now z with
      | drop => rfl
      | take => exact absurd hz' (hnone z hz)
      | putBack =>
        rw [rotate_diverges hnone hz hz'] at hrot
        cases hrot
    have hdelay : JsNumber.lt (.fin 0) job.delayMs.toNumber = false := by
      rw [← Bool.not_eq_true]
      intro hd
      rw [hall y hy, if_pos hd] at hjudge
      cases hjudge
    have hempty : q'.queue = [] := congrArg Prod.snd (rotate_unique hrot (rotate_of_drop hall))
    have hstay := hret.stays fuel r q' hdeq y (List.mem_append_right _ hy) job hget
      (not_ready_of_get hget hnot)
    rw [hempty, List.append_nil, hretry] at hstay
    exact ⟨hdelay, h.sub y hstay⟩
  · refine .mainReady pre x post hq (judge_take_iff.mp htake) fun y hy => ?_
    have hnot : ¬ q.Ready now y := fun hr => hpre y hy (judge_take_iff.mpr hr)
    refine ⟨hnot, fun job hget => ?_⟩
    have hjudge := judge_of_not_ready hget (not_ready_of_get hget hnot)
    have hrot := rotate_of_take post hpre htake
    rw [← hq] at hrot
    obtain ⟨r, q', hdeq, hqueue, hretry, -⟩ := h.run hrot
    have hstay := hret.stays _ r q' hdeq y (by rw [hq]; simp [hy]) job hget
      (not_ready_of_get hget hnot)
    rw [hretry, hqueue] at hstay
    rcases List.mem_append.mp hstay with hin | hin
    · exact .inr (List.mem_append_left _ (h.sub y hin))
    · rcases List.mem_append.mp hin with hin | hin
      · exact .inr (List.mem_append_right _ hin)
      · left
        rw [(mem_returned.mp hin).2] at hjudge
        by_contra hd
        rw [if_neg hd] at hjudge
        cases hjudge

end Returns

/-- For every content of the queue: with the clock at rest a call returns as it should
exactly if it finds a ready job before it has to go round, or has nothing to go round with. -/
theorem dequeue_returns_iff (q : JobQueue) (now : ℕ) : DequeueReturns q now ↔ Escapes q now := by
  rcases ready_or_passesOn q now with ⟨x, rest, hq, hready⟩ | ⟨rq, head, hpass⟩
  · exact ⟨fun _ => .retryHead x rest hq hready, fun _ => returns_of_head hq hready⟩
  · refine ⟨fun hret => hpass.escapes hret, fun hesc => ?_⟩
    cases hesc with
    | retryHead x rest hq hready => exact returns_of_head hq hready
    | mainReady pre x post hq hready hpre => exact hpass.returns_of_ready hq hready hpre
    | mainEmpty hq => exact hpass.returns_of_none hq

/- One job enqueued at 1000 to run at 61000. -/
def delayedQueue : JobQueue :=
  match (JobQueue.new ⟨none, none, none⟩).enqueue "job-1" 1000 "t" (.ok (.obj []))
    ⟨.fin 0, .fin 61000⟩ with
  | .ok r => r.2
  | .error _ => .new ⟨none, none, none⟩

theorem delayed_job_spins : ¬ ∀ (q : JobQueue) (now : ℕ), DequeueReturns q now := by
  intro h
  obtain ⟨fuel, out, hdeq⟩ := (h delayedQueue 1000).returns
  have hnone : rotate (judge delayedQueue.jobs 1000) fuel delayedQueue.queue = none := by
    apply rotate_of_putBack
    · decide
    · decide
  rw [← scanQueue_rotate _ _ _ 0] at hnone
  rw [Option.map_eq_none_iff] at hnone
  have hstop : delayedQueue.dequeue (fun _ => 1000) fuel = none := by
    change dequeueMain delayedQueue (fun _ => 1000) fuel 0 = none
    rw [dequeueMain, hnone]
  rw [hstop] at hdeq
  cases hdeq

end Liquifact.Workers.JobQueue
