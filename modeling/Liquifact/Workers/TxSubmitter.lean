import Liquifact.Utils.BackoffCeilings
import Liquifact.Workers.Delivery

/-!
# The transaction submitter (`src/workers/txSubmitter.js`)

`createTxSubmitterWorker` (124-171) gives a worker to a queue whose jobs are not retried; the
retries are those of `submitWithRetry` (64-86), inside the handler of a job. The handler
(`handleTxSubmitJob`, 96-110) is a loop here that goes on when a submission is answered or a
timer fires, beside the loops of the other jobs and whoever else uses the queue.

The queue is the one in memory (`durable: false`); the log is left out.
-/

namespace Liquifact.Workers
open Liquifact.Lib JobQueue Execution

/-! ### Errors of a submission -/

/- What is read of a thrown value: `typeof err === 'object'` of one that is not falsy,
`String(err.code || '')`, `String(err.message || err)`, and
`err.result?.code || err.result?.result?.code` when it is a string. -/
structure SubmitError where
  isObject : Bool
  code : String
  message : String
  resultCode : Option String
  thrown : Thrown

/- Only the letters of ASCII have a lower case that occurs in the texts looked for. -/
def lowerCase (s : String) : List Char := s.toList.map Char.toLower

def includesText (text : List Char) (part : String) : Bool := text.tails.any part.toList.isPrefixOf

def isRetryableSubmitError (err : SubmitError) : Bool :=
  if err.isObject = false then false
  else if ["etimedout", "econnreset", "eai_again", "enotfound"].any fun code =>
      lowerCase err.code == code.toList then true
  else if ["tx_bad_seq", "timeout", "timed out", "transaction_timeout"].any
      (includesText (lowerCase err.message)) then true
  else match err.resultCode with
    | some resultCode => includesText (lowerCase resultCode) "tx_bad_seq"
    | none => false

/-! ### One handler -/

structure TxConfig where
  maxRetries : JsNumber
  baseDelayMs : JsNumber
  maxDelayMs : JsNumber
  feeBumpMultiplier : JsNumber

/- Where a handler is: its submission is under way, its timer runs, or it has settled; the
worker learns of that in a later turn. -/
inductive LoopPhase where
  | awaiting
  | sleeping (delayMs : JsNumber)
  | ended (outcome : Option Thrown)
  | told (outcome : Option Thrown)

/- `answers` are those of its submissions, `none` for one that resolved. -/
structure SubmitLoop where
  payload : Json
  answers : List (Option SubmitError)
  phase : LoopPhase

/- A call of `submitTransactionFn`. -/
structure Submission where
  jobId : String
  payload : Json
  attempt : ℕ
  feeBumpMultiplier : JsNumber

def LoopPhase.isAwaiting : LoopPhase → Bool
  | awaiting => true
  | _ => false

namespace SubmitLoop

/- The value thrown after the loop. -/
def lastError (answers : List (Option SubmitError)) : Thrown :=
  match answers.getLast? with
  | some (some err) => err.thrown
  | _ => ⟨none, "undefined"⟩

/- The test of the `for` loop: `answers` were given to the attempts before. -/
def attempt (cfg : TxConfig) (payload : Json) (answers : List (Option SubmitError)) : SubmitLoop :=
  if JsNumber.le (.ofNat answers.length) cfg.maxRetries then ⟨payload, answers, .awaiting⟩
  else ⟨payload, answers, .ended (some (lastError answers))⟩

def checkPayload (payload : Json) : Except String Unit :=
  match payload with
  | .obj _ | .arr _ =>
    match payload.member "signedTransactionXdr" with
    | some (.str xdr) => require (trim xdr ≠ "") "signedTransactionXdr is required for transaction submission"
    | _ => .error "signedTransactionXdr is required for transaction submission"
  | _ => .error "Invalid tx submit job payload"

def handleTxSubmitJob (cfg : TxConfig) (payload : Json) : SubmitLoop :=
  match checkPayload payload with
  | .error m => ⟨payload, [], .ended (some (.ofMessage m))⟩
  | .ok _ => attempt cfg payload []

def answered (cfg : TxConfig) (l : SubmitLoop) (r : Option SubmitError) : SubmitLoop :=
  match r with
  | none => { l with answers := l.answers ++ [none], phase := .ended none }
  | some err =>
    let isLastAttempt := decide (JsNumber.ofNat l.answers.length = cfg.maxRetries)
    { l with
      answers := l.answers ++ [some err]
      phase := if isLastAttempt || !isRetryableSubmitError err then .ended (some err.thrown)
        else .sleeping (Utils.computeTxBackoff l.answers.length cfg.baseDelayMs cfg.maxDelayMs) }

end SubmitLoop

/-! ### The handlers beside the queue -/

structure TxSubmitter where
  system : System
  loops : String → Option SubmitLoop
  sent : List Submission

/- `queue` is anything that happens to the queue and its worker but the end of a submission. -/
inductive TxAction where
  | queue (a : Action)
  | answer (jobId : String) (r : Option SubmitError)
  | timer (jobId : String)
  | settled (jobId : String) (now : ℕ)

def txJobType : String := "submit_soroban_tx"

namespace TxSubmitter

/- A loop that awaits an answer has just made its submission. -/
def enter (cfg : TxConfig) (s : TxSubmitter) (jobId : String) (l : SubmitLoop) : TxSubmitter :=
  { s with
    loops := Function.update s.loops jobId (some l)
    sent := if l.phase.isAwaiting then
      s.sent ++ [⟨jobId, l.payload, l.answers.length, cfg.feeBumpMultiplier⟩] else s.sent }

/- The job that a turn of the worker gives to the handler. -/
def accepted (w : BackgroundWorker) : Action → Option Job
  | .poll entered clock fuel now =>
    match (w.poll entered clock fuel now).1 with
    | some job => if w.admitted job = .ok () ∧ job.type = txJobType then some job else none
    | none => none
  | _ => none

def step (cfg : TxConfig) (s : TxSubmitter) : TxAction → TxSubmitter
  | .queue a =>
    match a with
    | .settle jobId outcome now =>
      if (s.loops jobId).isSome then s
      else { s with system := s.system.step (.settle jobId outcome now) }
    | a =>
      match accepted s.system.worker a with
      | some job => enter cfg { s with system := s.system.step a } job.id
          (SubmitLoop.handleTxSubmitJob cfg job.payload)
      | none => { s with system := s.system.step a }
  | .answer jobId r =>
    match s.loops jobId with
    | some l => if l.phase.isAwaiting then
        { s with loops := Function.update s.loops jobId (some (l.answered cfg r)) } else s
    | none => s
  | .timer jobId =>
    match s.loops jobId with
    | some ⟨payload, answers, .sleeping _⟩ =>
      enter cfg s jobId (SubmitLoop.attempt cfg payload answers)
    | _ => s
  | .settled jobId now =>
    match s.loops jobId with
    | some ⟨payload, answers, .ended outcome⟩ =>
      { s with
        system := s.system.step (.settle jobId outcome now)
        loops := Function.update s.loops jobId (some ⟨payload, answers, .told outcome⟩) }
    | _ => s

def Disciplined (s : TxSubmitter) : TxAction → Prop
  | .queue a => s.system.Disciplined a
  | _ => True

/-- `createTxSubmitterWorker` without persistence. -/
def create (maxConcurrency : Option ℕ) : TxSubmitter where
  system := (System.initial (.new (.new ⟨some (.fin 0), none, none⟩)
    (some (maxConcurrency.getD 1)))).step (.registerHandler txJobType)
  loops := fun _ => none
  sent := []

def sentFor (s : TxSubmitter) (jobId : String) : List Submission :=
  s.sent.filter fun p => p.jobId = jobId

end TxSubmitter

/-! ### One loop -/

def Retryable (a : Option SubmitError) : Prop :=
  ∃ err, a = some err ∧ isRetryableSubmitError err = true

namespace SubmitLoop
variable {cfg : TxConfig} {l : SubmitLoop}

/- The number of its submissions. -/
def made (l : SubmitLoop) : ℕ := l.answers.length + if l.phase.isAwaiting then 1 else 0

structure Sound (cfg : TxConfig) (l : SubmitLoop) : Prop where
  within : ∀ i < l.made, JsNumber.le (.ofNat i) cfg.maxRetries = true
  retried : ∀ a ∈ l.answers.dropLast, Retryable a
  goesOn : (∀ o, l.phase ≠ .ended o ∧ l.phase ≠ .told o) → ∀ a ∈ l.answers, Retryable a
  outcome : ∀ o, l.phase = .ended o ∨ l.phase = .told o → (o = none ↔ l.answers.getLast? = some none)

theorem sound_attempt {payload : Json} {answers : List (Option SubmitError)}
    (hwithin : ∀ i < answers.length, JsNumber.le (.ofNat i) cfg.maxRetries = true)
    (hall : ∀ a ∈ answers, Retryable a) : (attempt cfg payload answers).Sound cfg := by
  have hlast : answers.getLast? ≠ some none := by
    intro hnone
    obtain ⟨err, herr, -⟩ := hall none (List.mem_of_getLast? hnone)
    cases herr
  have hdrop : ∀ a ∈ answers.dropLast, Retryable a := fun a ha => hall a (List.mem_of_mem_dropLast ha)
  unfold attempt
  split
  · next hle =>
    refine ⟨?_, hdrop, fun _ => hall, ?_⟩
    · intro i hi
      simp only [made, LoopPhase.isAwaiting, if_true] at hi
      rcases Nat.lt_succ_iff_lt_or_eq.mp hi with hlt | rfl
      · exact hwithin i hlt
      · exact hle
    · rintro o (ho | ho) <;> cases ho
  · refine ⟨?_, hdrop, fun _ => hall, ?_⟩
    · intro i hi
      simp only [made, LoopPhase.isAwaiting, Bool.false_eq_true, if_false, Nat.add_zero] at hi
      exact hwithin i hi
    · rintro o (ho | ho)
      · cases ho
        simp [hlast]
      · cases ho

theorem sound_handle (cfg : TxConfig) (payload : Json) :
    (handleTxSubmitJob cfg payload).Sound cfg := by
  unfold handleTxSubmitJob
  split
  · refine ⟨?_, by simp, by simp, ?_⟩
    · intro i hi
      simp [made, LoopPhase.isAwaiting] at hi
    · rintro o (ho | ho)
      · cases ho
        simp
      · cases ho
  · exact sound_attempt (by simp) (by simp)

variable (cfg) in
theorem made_answered (hphase : l.phase.isAwaiting = true) (r : Option SubmitError) :
    (l.answered cfg r).made = l.made ∧ (l.answered cfg r).payload = l.payload := by
  have hbefore : l.made = l.answers.length + 1 := by rw [made, if_pos hphase]
  rw [hbefore]
  cases r with
  | none => simp [answered, made, LoopPhase.isAwaiting]
  | some err =>
    simp only [answered, made, List.length_append, List.length_singleton]
    split <;> simp [LoopPhase.isAwaiting]

theorem Sound.answered (h : l.Sound cfg) (hphase : l.phase.isAwaiting = true)
    (r : Option SubmitError) : (l.answered cfg r).Sound cfg := by
  have hopen : ∀ o, l.phase ≠ .ended o ∧ l.phase ≠ .told o := by
    intro o
    refine ⟨fun ho => ?_, fun ho => ?_⟩ <;> rw [ho] at hphase <;> cases hphase
  have hwithin : ∀ i < (l.answered cfg r).made, JsNumber.le (.ofNat i) cfg.maxRetries = true := by
    rw [(made_answered cfg hphase r).1]
    exact h.within
  cases r with
  | none =>
    refine ⟨hwithin, ?_, ?_, ?_⟩
    · simpa [SubmitLoop.answered] using h.goesOn hopen
    · intro hgo
      exact absurd rfl (hgo none).1
    · rintro o (ho | ho)
      · cases ho
        simp [SubmitLoop.answered]
      · cases ho
  | some err =>
    refine ⟨hwithin, ?_, ?_, ?_⟩
    · simpa [SubmitLoop.answered] using h.goesOn hopen
    · intro hgo a ha
      simp only [SubmitLoop.answered, List.mem_append, List.mem_singleton] at ha
      rcases ha with ha | rfl
      · exact h.goesOn hopen a ha
      · refine ⟨err, rfl, ?_⟩
        have hphase' := (hgo (some err.thrown)).1
        simp only [SubmitLoop.answered] at hphase'
        split at hphase'
        · exact absurd rfl hphase'
        · next hkeep =>
          rw [Bool.or_eq_true, not_or, Bool.not_eq_true', Bool.not_eq_false] at hkeep
          exact hkeep.2
    · intro o ho
      have hlast : (l.answered cfg (some err)).answers.getLast? = some (some err) := by
        simp [SubmitLoop.answered]
      rw [hlast]
      simp only [SubmitLoop.answered] at ho
      split at ho
      · rcases ho with ho | ho <;> cases ho
        simp
      · rcases ho with ho | ho <;> cases ho

end SubmitLoop

/-! ### What a step of the queue does to one job -/

section Queue
variable {s : System} {a : Action} {x : String} {m : ℚ}

/- A job that has just begun is recorded. -/
theorem executions_step (h : Bounded m s) :
    tally isExecution x (s.step a).log = tally isExecution x s.log ∨
      ((s.step a).queueOf.getJob x).isSome := by
  have hrecorded : ∀ {clock : ℕ → ℕ} {fuel : ℕ} {q : JobQueue} {job : Job},
      s.queueOf.dequeue clock fuel = some (some job, q) → job.id = x → (q.getJob x).isSome := by
    intro clock fuel q job hd hid
    obtain ⟨y, job₀, k, hget, -, hjob, hjobs, -, -⟩ := dequeue_some_ok hd
    have hy : y = x := by
      rw [← hid, hjob]
      exact (h.sound.placed.recorded y job₀ hget).2.1.symm
    rw [getJob, hjobs, OrdMap.get_set, if_pos hy]
    rfl
  have hother : ∀ e : Execution, e.isExecution = false →
      tally isExecution x (s.log ++ [e]) = tally isExecution x s.log := by
    intro e he
    simp [tally, he]
  have heff := s.step_effect a
  generalize s.step a = t at heff ⊢
  cases heff with
  | still => exact .inl rfl
  | enqueued => exact .inl rfl
  | emptied => exact .inl rfl
  | @admitted entered clock fuel now q job hroom hd =>
    by_cases hid : job.id = x
    · exact .inr (hrecorded hd hid)
    · exact .inl (by simp [tally, Execution.jobId, hid])
  | @turnedAway entered clock fuel now q job msg hd =>
    by_cases hid : job.id = x
    · exact .inr (retains_retryJob _ _ _ _ _ (hrecorded hd hid))
    · exact .inl (by simp [tally, Execution.jobId, hid])
  | settled => exact .inl (hother _ (by split <;> rfl))
  | cancelled => exact .inl rfl
  | cleared => exact .inl rfl
  | @taken clock fuel q job hd =>
    by_cases hid : job.id = x
    · exact .inr (hrecorded hd hid)
    · exact .inl (by simp [tally, Execution.jobId, hid])
  | acked => exact .inl (hother _ rfl)
  | returned => exact .inl (hother _ rfl)

/- The bound on the executions of a job outlives its record. -/
theorem executions_le_step (hm : 0 ≤ m) (h : Bounded m s) (ha : s.Disciplined a)
    (hx : tally isExecution x s.log ≤ ⌊m⌋₊ + 1) :
    tally isExecution x (s.step a).log ≤ ⌊m⌋₊ + 1 := by
  rcases executions_step (a := a) (x := x) h with hsame | hjob
  · rw [hsame]
    exact hx
  · obtain ⟨job, hget⟩ := Option.isSome_iff_exists.mp hjob
    exact ((h.step hm ha).accounts.delivered x job hget).bounds.1

theorem successes_step : tally isSuccess x (s.step a).log = tally isSuccess x s.log ∨
    (∃ now, a = .settle x none now) ∨ ∃ now, a = .ack x now := by
  have heff := s.step_effect a
  generalize s.step a = t at heff ⊢
  cases heff with
  | still => exact .inl rfl
  | enqueued => exact .inl rfl
  | emptied => exact .inl rfl
  | admitted => exact .inl (by simp [tally, isSuccess])
  | turnedAway => exact .inl (by simp [tally, isSuccess])
  | @settled y outcome now hrun =>
    by_cases hy : y = x ∧ outcome = none
    · exact .inr (.inl ⟨now, by rw [hy.1, hy.2]⟩)
    · left
      rw [tally_append]
      split
      · next hnone =>
        have hne : y ≠ x := fun hyx => hy ⟨hyx, hnone⟩
        simp [tally, Execution.jobId, hne]
      · simp [tally, isSuccess]
  | cancelled => exact .inl rfl
  | cleared => exact .inl rfl
  | taken => exact .inl (by simp [tally, isSuccess])
  | @acked y now q hk =>
    by_cases hy : y = x
    · exact .inr (.inr ⟨now, by rw [hy]⟩)
    · exact .inl (by simp [tally, Execution.jobId, hy])
  | returned => exact .inl (by simp [tally, isSuccess])

theorem running_step (hx : x ∈ s.worker.running) :
    x ∈ (s.step a).worker.running ∨ ∃ outcome now, a = .settle x outcome now := by
  have heff := s.step_effect a
  generalize s.step a = t at heff ⊢
  cases heff with
  | still _ _ _ hrunning => exact .inl (by rw [hrunning]; exact hx)
  | admitted => exact .inl (List.mem_append_left _ hx)
  | @settled y outcome now hrun =>
    by_cases hy : x = y
    · exact .inr ⟨outcome, now, by rw [hy]⟩
    · exact .inl ((List.mem_erase_of_ne hy).mpr hx)
  | _ => exact .inl hx

theorem held_step (hx : x ∈ (s.step a).held) : x ∈ s.held ∨
    tally isExecution x (s.step a).log = tally isExecution x s.log + 1 := by
  have heff := s.step_effect a
  generalize s.step a = t at heff hx ⊢
  cases heff with
  | @taken clock fuel q job hd =>
    rcases List.mem_append.mp hx with hx | hx
    · exact .inl hx
    · rw [List.mem_singleton.mp hx]
      exact .inr (by simp [tally, isExecution, Execution.jobId])
  | acked => exact .inl (List.mem_of_mem_erase hx)
  | returned => exact .inl (List.mem_of_mem_erase hx)
  | _ => exact .inl hx

end Queue

namespace TxSubmitter
variable {cfg : TxConfig} {s : TxSubmitter} {a : Action} {job : Job}

/- What the turn did that gave the job to the handler. -/
theorem accepted_ok (h : accepted s.system.worker a = some job) :
    ∃ clock fuel, s.system.queueOf.dequeue clock fuel =
        some (some job, (s.system.step a).queueOf) ∧
      (s.system.step a).worker.running = s.system.worker.running ++ [job.id] ∧
      (s.system.step a).held = s.system.held ∧
      (s.system.step a).log = s.system.log ++ [.started job.id, .handled job.id] := by
  cases a with
  | poll entered clock fuel now =>
    have hpolled := s.system.worker.poll_polled entered clock fuel now
    simp only [accepted] at h
    simp only [System.step]
    generalize s.system.worker.poll entered clock fuel now = out at hpolled h ⊢
    obtain ⟨found, w⟩ := out
    cases hpolled with
    | idle => cases h
    | empty => cases h
    | admitted hc hd ha =>
      simp only [ha, true_and] at h
      split at h
      · cases h
        refine ⟨clock, fuel, hd, rfl, rfl, ?_⟩
        simp only [System.started, ha]
      · cases h
    | refused hd ha => simp [ha] at h
  | _ => cases h

/-! ### The invariant -/

structure Tracked (cfg : TxConfig) (s : TxSubmitter) (x : String) (l : SubmitLoop) : Prop where
  sound : l.Sound cfg
  sent : s.sentFor x = (List.range l.made).map fun i => ⟨x, l.payload, i, cfg.feeBumpMultiplier⟩
  executed : 1 ≤ tally isExecution x s.system.log
  running : (∀ o, l.phase ≠ .told o) → x ∈ s.system.worker.running
  successes : tally isSuccess x s.system.log = match l.phase with
    | .told none => 1
    | _ => 0

structure Sound (cfg : TxConfig) (s : TxSubmitter) : Prop where
  bounded : Bounded 0 s.system
  once : ∀ x, tally isExecution x s.system.log ≤ 1
  held : ∀ x ∈ s.system.held, s.loops x = none
  idle : ∀ x, s.loops x = none → s.sentFor x = []
  tracked : ∀ x l, s.loops x = some l → Tracked cfg s x l

theorem Tracked.congr {t : TxSubmitter} {x : String} {l : SubmitLoop} (h : Tracked cfg s x l)
    (hsystem : t.system = s.system) (hsent : t.sentFor x = s.sentFor x) : Tracked cfg t x l := by
  obtain ⟨hsound, hmade, hexecuted, hrunning, hsuccesses⟩ := h
  rw [← hsystem] at hexecuted hrunning hsuccesses
  exact ⟨hsound, hsent.trans hmade, hexecuted, hrunning, hsuccesses⟩

theorem Sound.once_after (h : s.Sound cfg) (ha : s.system.Disciplined a) (x : String) :
    tally isExecution x (s.system.step a).log ≤ 1 := by
  have hle := executions_le_step le_rfl h.bounded ha (x := x) (by simpa using h.once x)
  simpa using hle

theorem Sound.executions_mono (h : s.Sound cfg) (ha : s.system.Disciplined a) (x : String) :
    tally isExecution x s.system.log ≤ tally isExecution x (s.system.step a).log := by
  obtain ⟨new, hext⟩ := step_extends h.bounded.sound ha
  rw [hext.log, tally_append]
  exact Nat.le_add_right _ _

/- Another caller takes out no job that has been with the handler. -/
theorem Sound.held_after (h : s.Sound cfg) (ha : s.system.Disciplined a) {x : String}
    (hx : x ∈ (s.system.step a).held) : s.loops x = none := by
  rcases held_step hx with hheld | htaken
  · exact h.held x hheld
  · cases hl : s.loops x with
    | none => rfl
    | some l =>
      have hexecuted := (h.tracked x l hl).executed
      have hle := h.once_after ha x
      omega

/- The queue goes on while the loop of `x` stands still. -/
theorem Sound.tracked_after (h : s.Sound cfg) (ha : s.system.Disciplined a) {x : String}
    {l : SubmitLoop} (hloop : s.loops x = some l) (hsettle : ∀ outcome now, a ≠ .settle x outcome now) :
    Tracked cfg { s with system := s.system.step a } x l := by
  obtain ⟨hsound, hsent, hexecuted, hrunning, hsuccesses⟩ := h.tracked x l hloop
  refine ⟨hsound, hsent, hexecuted.trans (h.executions_mono ha x), ?_, ?_⟩
  · intro htold
    rcases running_step (hrunning htold) with hstay | ⟨outcome, now, hact⟩
    · exact hstay
    · exact absurd hact (hsettle outcome now)
  · rcases successes_step (s := s.system) (a := a) (x := x) with hsame | ⟨now, hact⟩ | ⟨now, hact⟩
    · rw [hsame]
      exact hsuccesses
    · exact absurd hact (hsettle none now)
    · subst hact
      rw [h.held x ha] at hloop
      cases hloop

theorem Sound.other (h : s.Sound cfg) (ha : s.system.Disciplined a)
    (hsettle : ∀ x outcome now, a = .settle x outcome now → s.loops x = none) :
    ({ s with system := s.system.step a } : TxSubmitter).Sound cfg := by
  refine ⟨h.bounded.step le_rfl ha, h.once_after ha, fun x hx => h.held_after ha hx, h.idle, ?_⟩
  intro x l hl
  refine h.tracked_after ha hl fun outcome now hact => ?_
  rw [hsettle x outcome now hact] at hl
  cases hl

/- The loop of `x` is replaced, and the submissions for other jobs stay. -/
theorem Sound.replace (h : s.Sound cfg) {t : TxSubmitter} {x : String} {l : SubmitLoop}
    (hsystem : t.system = s.system) (hloops : t.loops = Function.update s.loops x (some l))
    (hsent : ∀ y, y ≠ x → t.sentFor y = s.sentFor y) (hheld : x ∉ s.system.held)
    (hx : Tracked cfg t x l) : t.Sound cfg := by
  have hother : ∀ y, y ≠ x → t.loops y = s.loops y := by
    intro y hy
    rw [hloops, Function.update_of_ne hy]
  have hhere : t.loops x = some l := by rw [hloops, Function.update_self]
  refine ⟨hsystem ▸ h.bounded, fun y => hsystem ▸ h.once y, ?_, ?_, ?_⟩
  · intro y hy
    rw [hsystem] at hy
    have hne : y ≠ x := fun hyx => hheld (hyx ▸ hy)
    exact (hother y hne).trans (h.held y hy)
  · intro y hy
    have hne : y ≠ x := by
      rintro rfl
      rw [hhere] at hy
      cases hy
    exact (hsent y hne).trans (h.idle y ((hother y hne).symm.trans hy))
  · intro y l' hl'
    by_cases hyx : y = x
    · subst hyx
      rw [hhere] at hl'
      cases hl'
      exact hx
    · exact (h.tracked y l' ((hother y hyx).symm.trans hl')).congr hsystem (hsent y hyx)

/-! ### The steps of a loop -/

theorem sentFor_append (x : String) (p : Submission) (t : TxSubmitter) (ht : t.sent = s.sent ++ [p]) :
    t.sentFor x = s.sentFor x ++ if p.jobId = x then [p] else [] := by
  rw [sentFor, ht, List.filter_append, sentFor]
  split
  · next hp => simp [hp]
  · next hp => simp [hp]

theorem enter_sentFor (x y : String) (l : SubmitLoop) :
    (s.enter cfg x l).sentFor y = s.sentFor y ++ if x = y ∧ l.phase.isAwaiting = true then
      [⟨x, l.payload, l.answers.length, cfg.feeBumpMultiplier⟩] else [] := by
  cases hphase : l.phase.isAwaiting with
  | true =>
    have hsent : (s.enter cfg x l).sent =
        s.sent ++ [⟨x, l.payload, l.answers.length, cfg.feeBumpMultiplier⟩] := by
      simp only [enter, hphase, if_true]
    rw [sentFor_append y _ _ hsent]
    simp
  | false =>
    have hsent : (s.enter cfg x l).sent = s.sent := by
      simp only [enter, hphase, Bool.false_eq_true, if_false]
    rw [sentFor, hsent, sentFor]
    simp

/- A loop goes on, or begins; its submissions follow those it made before. -/
theorem Sound.enter (h : s.Sound cfg) {x : String} {l : SubmitLoop} (hl : l.Sound cfg)
    (hsent : s.sentFor x =
      (List.range l.answers.length).map fun i => ⟨x, l.payload, i, cfg.feeBumpMultiplier⟩)
    (hexecuted : 1 ≤ tally isExecution x s.system.log) (hrunning : x ∈ s.system.worker.running)
    (hsuccesses : tally isSuccess x s.system.log = 0) (htold : ∀ o, l.phase ≠ .told o)
    (hheld : x ∉ s.system.held) : (s.enter cfg x l).Sound cfg := by
  refine h.replace rfl rfl ?_ hheld ⟨hl, ?_, hexecuted, fun _ => hrunning, ?_⟩
  · intro y hy
    rw [enter_sentFor, if_neg (fun hx => hy hx.1.symm), List.append_nil]
  · rw [enter_sentFor, hsent, SubmitLoop.made]
    cases l.phase.isAwaiting <;> simp [List.range_succ]
  · rw [show (s.enter cfg x l).system = s.system from rfl, hsuccesses]
    split
    · next htold' => exact absurd htold' (htold none)
    · rfl

/- A job that the worker took out is in nobody else's hands, and was not taken before. -/
theorem Sound.accept (h : s.Sound cfg) (ha : s.system.Disciplined a)
    (hjob : accepted s.system.worker a = some job) :
    (({ s with system := s.system.step a } : TxSubmitter).enter cfg job.id
      (SubmitLoop.handleTxSubmitJob cfg job.payload)).Sound cfg := by
  obtain ⟨clock, fuel, hd, hrunning, hheld, hlog⟩ := accepted_ok hjob
  have hsettle : ∀ x outcome now, a = .settle x outcome now → s.loops x = none := by
    rintro x outcome now rfl
    cases hjob
  have hafter := h.other ha hsettle
  have hcount : tally isExecution job.id (s.system.step a).log =
      tally isExecution job.id s.system.log + 1 := by
    rw [hlog]
    simp [tally, isExecution, Execution.jobId]
  have hle : tally isExecution job.id (s.system.step a).log ≤ 1 := hafter.once job.id
  have hnew : s.loops job.id = none := by
    cases hl : s.loops job.id with
    | none => rfl
    | some l =>
      have hexecuted := (h.tracked _ l hl).executed
      omega
  have hmine : job.id ∈ (s.system.step a).worker.running := by
    rw [hrunning]
    exact List.mem_append_right _ (List.mem_singleton_self _)
  have hhands := (List.nodup_append.mp hafter.bounded.sound.placed.nodup).2.1
  have hnotheld : job.id ∉ (s.system.step a).held := fun hx =>
    (List.nodup_append.mp hhands).2.2 _ hmine _ hx rfl
  have hphase : ∀ o, (SubmitLoop.handleTxSubmitJob cfg job.payload).phase ≠ .told o := by
    intro o
    unfold SubmitLoop.handleTxSubmitJob SubmitLoop.attempt
    split
    · simp
    · split <;> simp
  have hanswers : (SubmitLoop.handleTxSubmitJob cfg job.payload).answers = [] := by
    unfold SubmitLoop.handleTxSubmitJob SubmitLoop.attempt
    split
    · rfl
    · split <;> rfl
  refine hafter.enter (SubmitLoop.sound_handle cfg job.payload) ?_ (by rw [hcount]; omega) hmine ?_
    hphase hnotheld
  · rw [hanswers]
    exact h.idle _ hnew
  · -- its record is that of a job in hand
    obtain ⟨y, job₀, k, hget, hready, hstarted, hjobs, -, -⟩ := dequeue_some_ok hd
    have hid : job.id = y := by
      rw [hstarted]
      exact (h.bounded.sound.placed.recorded y job₀ hget).2.1
    have hrecord : (s.system.step a).queueOf.jobs.get job.id = some job := by
      rw [hjobs, OrdMap.get_set, if_pos hid.symm]
    have hprocessing : job.status = .processing := by rw [hstarted]; rfl
    have hdelivered := (hafter.bounded.accounts.delivered _ job hrecord).2
    rw [hprocessing] at hdelivered
    exact hdelivered.2.2

theorem Tracked.no_success {x : String} {l : SubmitLoop} (h : Tracked cfg s x l)
    (htold : ∀ o, l.phase ≠ .told o) : tally isSuccess x s.system.log = 0 := by
  rw [h.successes]
  split
  · next hphase => exact absurd hphase (htold none)
  · rfl

/- A job with a loop is in no other caller's hands. -/
theorem Sound.not_held (h : s.Sound cfg) {x : String} {l : SubmitLoop} (hloop : s.loops x = some l) :
    x ∉ s.system.held := by
  intro hx
  rw [h.held x hx] at hloop
  cases hloop

/- An answer makes no submission. -/
theorem Sound.answer (h : s.Sound cfg) {x : String} {l : SubmitLoop} (hloop : s.loops x = some l)
    (hphase : l.phase.isAwaiting = true) (r : Option SubmitError) :
    ({ s with loops := Function.update s.loops x (some (l.answered cfg r)) } :
      TxSubmitter).Sound cfg := by
  have htracked := h.tracked x l hloop
  have hopen : ∀ o, l.phase ≠ .told o := by
    intro o ho
    rw [ho] at hphase
    cases hphase
  have hopen' : ∀ o, (l.answered cfg r).phase ≠ .told o := by
    intro o
    cases r with
    | none => simp [SubmitLoop.answered]
    | some err =>
      simp only [SubmitLoop.answered]
      split <;> simp
  obtain ⟨hmade, hpayload⟩ := SubmitLoop.made_answered cfg hphase r
  refine h.replace rfl rfl (fun _ _ => rfl) (h.not_held hloop)
    ⟨htracked.sound.answered hphase r, ?_, htracked.executed, fun _ => htracked.running hopen, ?_⟩
  · rw [hmade, hpayload]
    exact htracked.sent
  · refine (htracked.no_success hopen).trans ?_
    split
    · next htold => exact absurd htold (hopen' none)
    · rfl

theorem Sound.timer (h : s.Sound cfg) {x : String} {payload : Json}
    {answers : List (Option SubmitError)} {delay : JsNumber}
    (hloop : s.loops x = some ⟨payload, answers, .sleeping delay⟩) :
    (s.enter cfg x (SubmitLoop.attempt cfg payload answers)).Sound cfg := by
  have htracked := h.tracked x _ hloop
  have hopen : ∀ o, (LoopPhase.sleeping delay) ≠ .told o := by simp
  have hmade : SubmitLoop.made ⟨payload, answers, .sleeping delay⟩ = answers.length := rfl
  have hsent := htracked.sent
  have hwithin := htracked.sound.within
  rw [hmade] at hsent hwithin
  have hall : ∀ a ∈ answers, Retryable a := htracked.sound.goesOn fun o => by simp
  have hsame : (SubmitLoop.attempt cfg payload answers).answers = answers ∧
      (SubmitLoop.attempt cfg payload answers).payload = payload := by
    unfold SubmitLoop.attempt
    split <;> exact ⟨rfl, rfl⟩
  refine h.enter (SubmitLoop.sound_attempt hwithin hall) ?_ htracked.executed
    (htracked.running hopen) (htracked.no_success hopen) ?_ (h.not_held hloop)
  · rw [hsame.1, hsame.2]
    exact hsent
  · intro o
    unfold SubmitLoop.attempt
    split <;> simp

/- The worker learns how the handler ended. -/
theorem Sound.settled (h : s.Sound cfg) {x : String} {payload : Json}
    {answers : List (Option SubmitError)} {outcome : Option Thrown} (now : ℕ)
    (hloop : s.loops x = some ⟨payload, answers, .ended outcome⟩) :
    ({ s with
      system := s.system.step (.settle x outcome now)
      loops := Function.update s.loops x (some ⟨payload, answers, .told outcome⟩) } :
        TxSubmitter).Sound cfg := by
  have htracked := h.tracked x _ hloop
  have hopen : ∀ o, (LoopPhase.ended outcome) ≠ .told o := by simp
  have hsettle : s.system.Disciplined (.settle x outcome now) := trivial
  have hlog : (s.system.step (.settle x outcome now)).log =
      s.system.log ++ [if outcome = none then .succeeded x else .failed x] := by
    rw [System.step, if_pos (htracked.running hopen)]
  refine ⟨h.bounded.step le_rfl hsettle, h.once_after hsettle, ?_, ?_, ?_⟩
  · intro y hy
    have hnone := h.held_after hsettle hy
    have hne : y ≠ x := by
      rintro rfl
      rw [hloop] at hnone
      cases hnone
    exact (Function.update_of_ne hne _ _).trans hnone
  · intro y hy
    by_cases hyx : y = x
    · subst hyx
      simp at hy
    · exact h.idle y ((Function.update_of_ne hyx _ _).symm.trans hy)
  · intro y l' hl'
    by_cases hyx : y = x
    · subst hyx
      have heq : SubmitLoop.mk payload answers (.told outcome) = l' := by simpa using hl'
      subst heq
      obtain ⟨hwithin, hretried, -, hend⟩ := htracked.sound
      refine ⟨⟨hwithin, hretried, ?_, ?_⟩, htracked.sent,
        htracked.executed.trans (h.executions_mono hsettle y), ?_, ?_⟩
      · intro hgo
        exact absurd rfl (hgo outcome).2
      · intro o ho
        rcases ho with ho | ho
        · cases ho
        · cases ho
          exact hend outcome (.inl rfl)
      · intro htold
        exact absurd rfl (htold outcome)
      · rw [hlog, tally_append, htracked.no_success hopen]
        cases outcome with
        | none => simp [tally, isSuccess, Execution.jobId]
        | some error => simp [tally, isSuccess]
    · have hl : s.loops y = some l' := (Function.update_of_ne hyx _ _).symm.trans hl'
      refine (h.tracked_after hsettle hl fun o t hact => ?_).congr rfl rfl
      cases hact
      exact hyx rfl

theorem Sound.step (h : s.Sound cfg) {b : TxAction} (hb : s.Disciplined b) : (s.step cfg b).Sound cfg := by
  cases b with
  | queue a =>
    have hqueue : (∀ x outcome now, a ≠ .settle x outcome now) →
        (s.step cfg (.queue a)).Sound cfg := by
      intro hne
      have hstep : s.step cfg (.queue a) = match accepted s.system.worker a with
          | some job => ({ s with system := s.system.step a } : TxSubmitter).enter cfg job.id
              (SubmitLoop.handleTxSubmitJob cfg job.payload)
          | none => { s with system := s.system.step a } := by
        cases a with
        | settle x outcome now => exact absurd rfl (hne x outcome now)
        | _ => rfl
      rw [hstep]
      split
      · next job hjob => exact h.accept hb hjob
      · exact h.other hb fun x outcome now hact => absurd hact (hne x outcome now)
    cases a with
    | settle x outcome now =>
      simp only [TxSubmitter.step]
      split
      · exact h
      · next hloop =>
        refine h.other hb ?_
        rintro y o t hact
        cases hact
        exact Option.not_isSome_iff_eq_none.mp hloop
    | _ => exact hqueue (by simp)
  | answer x r =>
    simp only [TxSubmitter.step]
    cases hloop : s.loops x with
    | none => exact h
    | some l =>
      dsimp only
      split
      · next hphase => exact h.answer hloop hphase r
      · exact h
  | timer x =>
    simp only [TxSubmitter.step]
    split
    · next hloop => exact h.timer hloop
    · exact h
  | settled x now =>
    simp only [TxSubmitter.step]
    split
    · next hloop => exact h.settled now hloop
    · exact h

/-! ### The jobs of the submitter -/

/- `answers` are of `n` submissions, the last of which may be under way: only after a retryable
error was there another one. -/
def InTurn (n : ℕ) (answers : List (Option SubmitError)) : Prop :=
  answers.length ≤ n ∧ n ≤ answers.length + 1 ∧
    ∀ i, i + 1 < n → ∃ err, answers[i]? = some (some err) ∧ isRetryableSubmitError err = true

/- A finished job ended as its last submission did. -/
theorem Sound.finished (h : s.Sound cfg) {x : String} {l : SubmitLoop} (hloop : s.loops x = some l)
    (hjob : s.system.queueOf.getJob x = some job) :
    (job.status = .completed → l.answers.getLast? = some none) ∧
      (job.status = .failed → none ∉ l.answers) := by
  have htracked := h.tracked x l hloop
  have hdelivered := (h.bounded.accounts.delivered x job hjob).2
  have htold : job.status ≠ .processing → ∃ o, l.phase = .told o := by
    intro hst
    by_contra hopen
    have hrunning := htracked.running fun o ho => hopen ⟨o, ho⟩
    exact hst (h.bounded.sound.placed.status_of_out (List.mem_append_left _ hrunning) hjob)
  have hsuccesses := htracked.successes
  refine ⟨?_, ?_⟩
  · intro hst
    obtain ⟨o, ho⟩ := htold (by rw [hst]; simp)
    rw [hst] at hdelivered
    rw [hdelivered.2.2, ho] at hsuccesses
    cases o with
    | none => exact (htracked.sound.outcome none (.inr ho)).mp rfl
    | some error => cases hsuccesses
  · intro hst hmem
    obtain ⟨o, ho⟩ := htold (by rw [hst]; simp)
    rw [hst] at hdelivered
    rw [hdelivered.2.2, ho] at hsuccesses
    cases o with
    | none => cases hsuccesses
    | some error =>
      have hlast : l.answers.getLast? ≠ some none := fun hlast =>
        absurd ((htracked.sound.outcome _ (.inr ho)).mpr hlast) (by simp)
      have hne : l.answers ≠ [] := List.ne_nil_of_mem hmem
      rw [← List.dropLast_append_getLast hne, List.mem_append, List.mem_singleton] at hmem
      rcases hmem with hmem | hmem
      · obtain ⟨err, herr, -⟩ := htracked.sound.retried none hmem
        cases herr
      · exact hlast (by rw [List.getLast?_eq_getLast_of_ne_nil hne, ← hmem])

end TxSubmitter

end Liquifact.Workers
