import Liquifact.Soroban.RetryLoop
import Liquifact.Utils.CircuitBreaker

/-!
# Soroban calls behind the shared breaker (`src/services/soroban.js`)

`callSorobanContract` (404-430) runs `withRetry` as one operation of `sharedBreaker` (177-181).
Here the calls overlap: an event is a call, the answer to the RPC a call waits for, the end of
a call's sleep, or a `reset` of the breaker, with the clock at that moment. The loop of a call
is that of `RetryLoop`, cut at its two `await`s.

`journal` remembers what a call was answered. A continuation that only settles a promise runs
at the clock of the event that settles it. `sharedBreaker` has no fallback, so that `onFailure`
throws the error again. The metrics are not here (see `CircuitBreaker`).
-/

namespace Liquifact.Soroban
open Liquifact.Lib Liquifact.Utils

/- What a call rejects with: the error of the breaker, or that of the last attempt. -/
inductive CallError where
  | circuit (error : BreakerError)
  | thrown (err : JsValue)

/- An attempt that was answered: the clock when it began and when its answer came, and the draw
of `Math.random()` that follows it. -/
structure Answered (α : Type) where
  begun : ℕ
  answer : Except JsValue α
  answeredAt : ℕ
  draw : ℚ

/- A call that the breaker let through: what it passes to `withRetry`, and its attempts so far. -/
structure Journal (α : Type) where
  cfg : RetryConfig
  startTime : ℕ
  answered : List (Answered α)

def RetryConfig.asOverrides (cfg : RetryConfig) : RetryOverrides :=
  ⟨some cfg.maxRetries, some cfg.baseDelay, some cfg.maxDelay, some cfg.maxElapsedMs⟩

@[simp] theorem RetryConfig.assign_asOverrides (defaults cfg : RetryConfig) :
    defaults.assign cfg.asOverrides = cfg := rfl

/- Where the loop of a call waits: for the RPC begun at `begun`, or for its timer. -/
inductive Waiting where
  | rpc (begun : ℕ)
  | timer (lastErr : JsValue)

structure SorobanCalls (ι α : Type) where
  traffic : Traffic ι α
  journal : ι → Option (Journal α)
  waiting : ι → Option Waiting
  outcome : ι → Option (Except CallError α)

inductive CallAct (ι α : Type) where
  | call (op : ι) (config : RetryOverrides)
  | answer (op : ι) (answer : Except JsValue α) (draw : ℚ)
  | wake (op : ι)
  | reset

structure CallEvent (ι α : Type) where
  now : ℕ
  act : CallAct ι α

/- `err.message` and `err.code`, for what the breaker would pass to a fallback. -/
def breakerError (err : JsValue) : BreakerError where
  message := (err.get "message").asString.getD ""
  code := (err.get "code").asString

def sharedBreakerOptions (α : Type) (failureThreshold recoveryTimeout : JsNumber) :
    CircuitBreakerOptions α where
  name := some "soroban"
  failureThreshold := some failureThreshold
  recoveryTimeout := some recoveryTimeout
  fallbackLogic := none

namespace SorobanCalls

section Model
variable {ι α : Type} [DecidableEq ι] (defaults : RetryConfig)

def start (failureThreshold recoveryTimeout : JsNumber) (created : ℕ) : SorobanCalls ι α where
  traffic := Traffic.start (sharedBreakerOptions α failureThreshold recoveryTimeout) created
  journal := fun _ => none
  waiting := fun _ => none
  outcome := fun _ => none

/- The promise of `withRetry` settles, and with it the operation of the breaker. -/
def settle (s : SorobanCalls ι α) (op : ι) (now : ℕ) (result : Except JsValue α) :
    SorobanCalls ι α where
  traffic := s.traffic.step ⟨now, match result with
    | .ok value => .succeed op value
    | .error err => .fail op (breakerError err)⟩
  journal := s.journal
  waiting := Function.update s.waiting op none
  outcome := Function.update s.outcome op (some (result.mapError .thrown))

/- The head of the loop, with `attempt` answers so far. -/
def tryAttempt (s : SorobanCalls ι α) (op : ι) (now : ℕ) (j : Journal α) (lastErr : JsValue) :
    SorobanCalls ι α :=
  if attemptAllowed j.cfg j.answered.length then
    { s with waiting := Function.update s.waiting op (some (.rpc now)) }
  else s.settle op now (.error lastErr)

def callSorobanContract (s : SorobanCalls ι α) (op : ι) (now : ℕ) (config : RetryOverrides) :
    SorobanCalls ι α :=
  let traffic := s.traffic.step ⟨now, .execute op⟩
  match (s.traffic.breaker.execute now).2 with
  | some refused =>
    { s with
      traffic := traffic
      outcome := Function.update s.outcome op (some (refused.mapError .circuit)) }
  | none =>
    let j : Journal α := ⟨defaults.assign config, now, []⟩
    let s := { s with traffic := traffic, journal := Function.update s.journal op (some j) }
    s.tryAttempt op now j .undefined

/- The answer to the RPC of a call, up to the next `await`. -/
def answered (s : SorobanCalls ι α) (op : ι) (now : ℕ) (j : Journal α) (a : Answered α) :
    SorobanCalls ι α :=
  let attempt := j.answered.length
  let s := { s with
    journal := Function.update s.journal op (some { j with answered := j.answered ++ [a] }) }
  match a.answer with
  | .ok value => s.settle op now (.ok value)
  | .error err =>
    if JsNumber.ofNat attempt = JsNumber.min j.cfg.maxRetries (.fin 10) ∨
        (classifySorobanError err).retryable = false then s.settle op now (.error err)
    else if JsNumber.le (JsNumber.min j.cfg.maxElapsedMs (.fin 120000))
        (.fin ((now - j.startTime : ℤ) : ℚ)) then s.settle op now (.error err)
    else { s with waiting := Function.update s.waiting op (some (.timer err)) }

/- A call has a name of its own; only the RPC it waits for is answered, only its timer ends. -/
def step (s : SorobanCalls ι α) (e : CallEvent ι α) : SorobanCalls ι α :=
  match e.act with
  | .call op config =>
    match s.journal op, s.outcome op with
    | none, none => s.callSorobanContract defaults op e.now config
    | _, _ => s
  | .answer op answer draw =>
    match s.journal op, s.waiting op with
    | some j, some (.rpc begun) => s.answered op e.now j ⟨begun, answer, e.now, draw⟩
    | _, _ => s
  | .wake op =>
    match s.journal op, s.waiting op with
    | some j, some (.timer lastErr) => s.tryAttempt op e.now j lastErr
    | _, _ => s
  | .reset => { s with traffic := s.traffic.step ⟨e.now, .reset⟩ }

/- The state after a run from the start of the process. -/
def reached (failureThreshold recoveryTimeout : JsNumber) (created : ℕ)
    (es : List (CallEvent ι α)) : SorobanCalls ι α :=
  run (step defaults) (start failureThreshold recoveryTimeout created) es

end Model
end SorobanCalls

/-! ### A call ends as `withRetry` alone -/

namespace Journal
variable {α : Type}

def snoc (j : Journal α) (a : Answered α) : Journal α := { j with answered := j.answered ++ [a] }

/- Outcomes, clock and draws that continue what the call has met. -/
structure Explains (j : Journal α) (operation : ℕ → Except JsValue α) (clock : Clock)
    (draw : ℕ → ℚ) : Prop where
  start : clock.start = j.startTime
  entry : ∀ i a, j.answered[i]? = some a →
    operation i = a.answer ∧ clock.failed i = a.answeredAt ∧ draw i = a.draw

def operation (j : Journal α) (i : ℕ) : Except JsValue α :=
  (j.answered[i]?.map (·.answer)).getD (.error .undefined)

def clock (j : Journal α) : Clock where
  start := j.startTime
  begins := fun i => (j.answered[i]?.map (·.begun)).getD 0
  failed := fun i => ((j.answered[i]?.map (·.answeredAt)).getD 0 : ℕ)

def draw (j : Journal α) (i : ℕ) : ℚ := (j.answered[i]?.map (·.draw)).getD 0

theorem explains_self (j : Journal α) : j.Explains j.operation j.clock j.draw := by
  refine ⟨rfl, fun i a hi => ?_⟩
  simp [operation, clock, draw, hi]

variable {j : Journal α} {a : Answered α} {operation : ℕ → Except JsValue α} {clock : Clock}
  {draw : ℕ → ℚ}

theorem Explains.of_snoc (h : (j.snoc a).Explains operation clock draw) :
    j.Explains operation clock draw := by
  refine ⟨h.start, fun i b hi => h.entry i b ?_⟩
  have hlt : i < j.answered.length := (List.getElem?_eq_some_iff.mp hi).1
  rw [snoc, List.getElem?_append_left hlt]
  exact hi

theorem Explains.last (h : (j.snoc a).Explains operation clock draw) :
    operation j.answered.length = a.answer ∧ clock.failed j.answered.length = a.answeredAt ∧
      draw j.answered.length = a.draw :=
  h.entry _ a (by simp [snoc])

variable (defaults : RetryConfig)

/- Whatever comes next, `withRetry` goes on as its loop does after these attempts. -/
def Reaches (j : Journal α) (lastErr : JsValue) : Prop :=
  ∀ operation clock draw, j.Explains operation clock draw →
    (withRetry operation clock draw defaults j.cfg.asOverrides).result =
        (retryFrom j.cfg operation clock draw (11 - j.answered.length) j.answered.length
          lastErr).result ∧
      (withRetry operation clock draw defaults j.cfg.asOverrides).calls =
        (retryFrom j.cfg operation clock draw (11 - j.answered.length) j.answered.length
          lastErr).calls

/- `withRetry` ends after these attempts. -/
def Ends (j : Journal α) (result : Except JsValue α) : Prop :=
  ∀ operation clock draw, j.Explains operation clock draw →
    (withRetry operation clock draw defaults j.cfg.asOverrides).result = result ∧
      (withRetry operation clock draw defaults j.cfg.asOverrides).calls = j.answered.length

variable {defaults} {lastErr err : JsValue}

theorem reaches_start (cfg : RetryConfig) (startTime : ℕ) :
    (⟨cfg, startTime, []⟩ : Journal α).Reaches defaults .undefined :=
  fun _ _ _ _ => ⟨rfl, rfl⟩

/- Below the cap there is fuel for one more attempt. -/
theorem fuel_of_allowed (h : attemptAllowed j.cfg j.answered.length = true) :
    11 - j.answered.length = 10 - j.answered.length + 1 := by
  have hle := (attemptAllowed_iff.mp h).2
  omega

theorem Reaches.refused (h : j.Reaches defaults lastErr)
    (hrefused : attemptAllowed j.cfg j.answered.length = false) :
    j.Ends defaults (.error lastErr) := by
  intro operation clock draw hexplains
  obtain ⟨hresult, hcalls⟩ := h operation clock draw hexplains
  have hrest : retryFrom j.cfg operation clock draw (11 - j.answered.length) j.answered.length
      lastErr = ⟨.error lastErr, j.answered.length, []⟩ := by
    cases 11 - j.answered.length with
    | zero => rfl
    | succ fuel => rw [retryFrom, hrefused, if_neg Bool.false_ne_true]
  rw [hresult, hcalls, hrest]
  exact ⟨rfl, rfl⟩

theorem Reaches.succeeded {value : α} (h : j.Reaches defaults lastErr)
    (hallowed : attemptAllowed j.cfg j.answered.length = true) (hanswer : a.answer = .ok value) :
    (j.snoc a).Ends defaults (.ok value) := by
  intro operation clock draw hexplains
  obtain ⟨hresult, hcalls⟩ := h operation clock draw hexplains.of_snoc
  have hop := hexplains.last.1.trans hanswer
  rw [fuel_of_allowed hallowed, retryFrom, if_pos hallowed, hop] at hresult hcalls
  exact ⟨hresult, hcalls.trans (by simp [snoc])⟩

/- The answer ends the loop with its error. -/
theorem Reaches.failed (h : j.Reaches defaults lastErr)
    (hallowed : attemptAllowed j.cfg j.answered.length = true) (hanswer : a.answer = .error err)
    (hends : (JsNumber.ofNat j.answered.length = JsNumber.min j.cfg.maxRetries (.fin 10) ∨
        (classifySorobanError err).retryable = false) ∨
      JsNumber.le (JsNumber.min j.cfg.maxElapsedMs (.fin 120000))
        (.fin ((a.answeredAt - j.startTime : ℤ) : ℚ)) = true) :
    (j.snoc a).Ends defaults (.error err) := by
  intro operation clock draw hexplains
  obtain ⟨hresult, hcalls⟩ := h operation clock draw hexplains.of_snoc
  obtain ⟨hlast, hfailed, -⟩ := hexplains.last
  have hbudget : budgetUsedUp j.cfg clock (clock.failed j.answered.length) =
      JsNumber.le (JsNumber.min j.cfg.maxElapsedMs (.fin 120000))
        (.fin ((a.answeredAt - j.startTime : ℤ) : ℚ)) := by
    rw [budgetUsedUp, hfailed, hexplains.start]
    rfl
  rw [fuel_of_allowed hallowed, retryFrom, if_pos hallowed, hlast.trans hanswer] at hresult hcalls
  dsimp only at hresult hcalls
  rw [hbudget] at hresult hcalls
  have hlength : (j.snoc a).answered.length = j.answered.length + 1 := by simp [snoc]
  rcases hends with hstop | hused
  · rw [if_pos hstop] at hresult hcalls
    exact ⟨hresult, hcalls.trans hlength.symm⟩
  · rw [if_pos hused, ite_self] at hresult hcalls
    exact ⟨hresult, hcalls.trans hlength.symm⟩

/- The answer is retried. -/
theorem Reaches.retried (h : j.Reaches defaults lastErr)
    (hallowed : attemptAllowed j.cfg j.answered.length = true) (hanswer : a.answer = .error err)
    (hgo : ¬ (JsNumber.ofNat j.answered.length = JsNumber.min j.cfg.maxRetries (.fin 10) ∨
        (classifySorobanError err).retryable = false))
    (hleft : ¬ JsNumber.le (JsNumber.min j.cfg.maxElapsedMs (.fin 120000))
        (.fin ((a.answeredAt - j.startTime : ℤ) : ℚ)) = true) :
    (j.snoc a).Reaches defaults err := by
  intro operation clock draw hexplains
  obtain ⟨hresult, hcalls⟩ := h operation clock draw hexplains.of_snoc
  obtain ⟨hlast, hfailed, -⟩ := hexplains.last
  have hbudget : ¬ budgetUsedUp j.cfg clock (clock.failed j.answered.length) = true := by
    rw [budgetUsedUp, hfailed, hexplains.start]
    exact hleft
  rw [fuel_of_allowed hallowed, retryFrom, if_pos hallowed, hlast.trans hanswer] at hresult hcalls
  dsimp only at hresult hcalls
  rw [if_neg hgo, if_neg hbudget] at hresult hcalls
  have hlength : (j.snoc a).answered.length = j.answered.length + 1 := by simp [snoc]
  have hfuel : 11 - (j.answered.length + 1) = 10 - j.answered.length := by omega
  rw [hlength, hfuel]
  exact ⟨hresult, hcalls⟩

end Journal

namespace SorobanCalls

section Runs
variable {ι α : Type} [DecidableEq ι] {defaults : RetryConfig} {s : SorobanCalls ι α} {op : ι}

/- What is known of one call: its journal, where it waits, and its outcome. -/
inductive Sound (defaults : RetryConfig) :
    Option (Journal α) → Option Waiting → Option (Except CallError α) → Prop
  | fresh : Sound defaults none none none
  | refused (error : BreakerError) : Sound defaults none none (some (.error (.circuit error)))
  | asking (j : Journal α) (begun : ℕ) (lastErr : JsValue)
      (hallowed : attemptAllowed j.cfg j.answered.length = true)
      (hreaches : j.Reaches defaults lastErr) : Sound defaults (some j) (some (.rpc begun)) none
  | sleeping (j : Journal α) (lastErr : JsValue) (hlength : j.answered.length ≤ 11)
      (hreaches : j.Reaches defaults lastErr) :
      Sound defaults (some j) (some (.timer lastErr)) none
  | ended (j : Journal α) (result : Except JsValue α) (hends : j.Ends defaults result) :
      Sound defaults (some j) none (some (result.mapError .thrown))

def SoundAt (defaults : RetryConfig) (s : SorobanCalls ι α) (op : ι) : Prop :=
  Sound defaults (s.journal op) (s.waiting op) (s.outcome op)

omit [DecidableEq ι] in
theorem Sound.at {j : Option (Journal α)} {w : Option Waiting} {o : Option (Except CallError α)}
    (h : Sound defaults j w o) (hj : s.journal op = j) (hw : s.waiting op = w)
    (ho : s.outcome op = o) : s.SoundAt defaults op := by
  rw [SoundAt, hj, hw, ho]
  exact h

theorem Sound.not_waiting {w : Option Waiting} {o : Option (Except CallError α)}
    (h : Sound defaults none w o) : w = none := by
  cases h <;> rfl

theorem Sound.not_ended {j : Journal α} {w : Waiting} {o : Option (Except CallError α)}
    (h : Sound defaults (some j) (some w) o) : o = none := by
  cases h <;> rfl

/- The two states show the same of every call but `op`. -/
def SameBut (op : ι) (s s' : SorobanCalls ι α) : Prop :=
  ∀ other, other ≠ op → s'.journal other = s.journal other ∧
    s'.waiting other = s.waiting other ∧ s'.outcome other = s.outcome other

theorem sameBut_settle (s : SorobanCalls ι α) (op : ι) (now : ℕ) (result : Except JsValue α) :
    SameBut op s (s.settle op now result) := fun _ hne =>
  ⟨rfl, Function.update_of_ne hne .., Function.update_of_ne hne ..⟩

theorem sameBut_tryAttempt (s : SorobanCalls ι α) (op : ι) (now : ℕ) (j : Journal α)
    (lastErr : JsValue) : SameBut op s (s.tryAttempt op now j lastErr) := by
  unfold tryAttempt
  split
  · exact fun _ hne => ⟨rfl, Function.update_of_ne hne .., rfl⟩
  · exact sameBut_settle s op now _

omit [DecidableEq ι] in
theorem SameBut.trans {s s' s'' : SorobanCalls ι α} (h : SameBut op s s') (h' : SameBut op s' s'') :
    SameBut op s s'' := by
  intro other hne
  obtain ⟨hj, hw, ho⟩ := h other hne
  obtain ⟨hj', hw', ho'⟩ := h' other hne
  exact ⟨hj'.trans hj, hw'.trans hw, ho'.trans ho⟩

theorem sameBut_journal (s : SorobanCalls ι α) (op : ι) (traffic : Traffic ι α)
    (j : Option (Journal α)) :
    SameBut op s { s with traffic := traffic, journal := Function.update s.journal op j } :=
  fun _ hne => ⟨Function.update_of_ne hne .., rfl, rfl⟩

theorem sameBut_callSorobanContract (s : SorobanCalls ι α) (op : ι) (now : ℕ)
    (config : RetryOverrides) : SameBut op s (s.callSorobanContract defaults op now config) := by
  unfold callSorobanContract
  split
  · exact fun _ hne => ⟨rfl, rfl, Function.update_of_ne hne ..⟩
  · exact (sameBut_journal s op _ _).trans (sameBut_tryAttempt _ op now _ _)

theorem sameBut_answered (s : SorobanCalls ι α) (op : ι) (now : ℕ) (j : Journal α)
    (a : Answered α) : SameBut op s (s.answered op now j a) := by
  have hjournal := sameBut_journal s op s.traffic (some { j with answered := j.answered ++ [a] })
  unfold answered
  dsimp only
  split
  · exact hjournal.trans (sameBut_settle _ op now _)
  · split_ifs
    · exact hjournal.trans (sameBut_settle _ op now _)
    · exact hjournal.trans (sameBut_settle _ op now _)
    · exact hjournal.trans fun _ hne => ⟨rfl, Function.update_of_ne hne .., rfl⟩

theorem soundAt_settle {now : ℕ} {j : Journal α} {result : Except JsValue α}
    (hj : s.journal op = some j) (hends : j.Ends defaults result) :
    (s.settle op now result).SoundAt defaults op := by
  exact (Sound.ended j result hends).at hj (Function.update_self ..) (Function.update_self ..)

theorem soundAt_tryAttempt {now : ℕ} {j : Journal α} {lastErr : JsValue}
    (hj : s.journal op = some j) (ho : s.outcome op = none) (h : j.Reaches defaults lastErr) :
    (s.tryAttempt op now j lastErr).SoundAt defaults op := by
  unfold tryAttempt
  split
  · next hallowed =>
    exact (Sound.asking j now lastErr hallowed h).at hj (Function.update_self ..) ho
  · next hrefused =>
    rw [Bool.not_eq_true] at hrefused
    exact soundAt_settle hj (h.refused hrefused)

theorem soundAt_answered {now : ℕ} {j : Journal α} {a : Answered α} {lastErr : JsValue}
    (hat : a.answeredAt = now) (ho : s.outcome op = none)
    (hallowed : attemptAllowed j.cfg j.answered.length = true) (h : j.Reaches defaults lastErr) :
    (s.answered op now j a).SoundAt defaults op := by
  unfold answered
  dsimp only
  cases hanswer : a.answer with
  | ok value => exact soundAt_settle (Function.update_self ..) (h.succeeded hallowed hanswer)
  | error err =>
    dsimp only
    split_ifs with hstop hused
    · exact soundAt_settle (Function.update_self ..) (h.failed hallowed hanswer (.inl hstop))
    · rw [← hat] at hused
      exact soundAt_settle (Function.update_self ..) (h.failed hallowed hanswer (.inr hused))
    · rw [← hat] at hused
      have hlength : (j.snoc a).answered.length ≤ 11 := by
        have hle := (attemptAllowed_iff.mp hallowed).2
        simp only [Journal.snoc, List.length_append, List.length_singleton]
        omega
      exact (Sound.sleeping (j.snoc a) err hlength (h.retried hallowed hanswer hstop hused)).at
        (Function.update_self ..) (Function.update_self ..) ho

/- The breaker has no fallback, and every call is sound. -/
structure Sane (defaults : RetryConfig) (s : SorobanCalls ι α) : Prop where
  fallback : s.traffic.breaker.fallbackLogic = none
  sound : ∀ op, s.SoundAt defaults op

theorem fallback_step {t : Traffic ι α} (e : BreakerEvent ι α)
    (h : t.breaker.fallbackLogic = none) : (t.step e).breaker.fallbackLogic = none := by
  have hmoves := t.step_moves e
  generalize (t.step e).breaker = cb at hmoves
  cases hmoves <;> exact h

theorem refused_of_fallback {cb : CircuitBreaker α} {now : ℕ} {refused : Except BreakerError α}
    (h : cb.fallbackLogic = none) (hrefused : (cb.execute now).2 = some refused) :
    ∃ error, refused = .error error := by
  unfold CircuitBreaker.execute CircuitBreaker.failFast at hrefused
  rw [h] at hrefused
  split_ifs at hrefused
  exact ⟨_, (Option.some.inj hrefused).symm⟩

omit [DecidableEq ι] in
theorem SoundAt.of_sameBut {s' : SorobanCalls ι α} {other : ι} (h : s.SoundAt defaults other)
    (hsame : SameBut op s s') (hne : other ≠ op) : s'.SoundAt defaults other := by
  obtain ⟨hj, hw, ho⟩ := hsame other hne
  exact Sound.at h hj hw ho

/- All calls are sound when the one that moved is. -/
theorem sound_of_moved {s' : SorobanCalls ι α} (h : ∀ op, s.SoundAt defaults op) {op : ι}
    (hsame : SameBut op s s') (hop : s'.SoundAt defaults op) : ∀ op, s'.SoundAt defaults op := by
  intro other
  by_cases hne : other = op
  · rw [hne]
    exact hop
  · exact (h other).of_sameBut hsame hne

theorem sound_step (e : CallEvent ι α) (h : Sane defaults s) :
    ∀ op, (s.step defaults e).SoundAt defaults op := by
  unfold step
  cases e.act with
  | call op config =>
    dsimp only
    have hop := h.sound op
    split
    · next hj ho =>
      refine sound_of_moved h.sound (sameBut_callSorobanContract s op e.now config) ?_
      have hw : s.waiting op = none := by
        rw [SoundAt, hj] at hop
        exact hop.not_waiting
      unfold callSorobanContract
      split
      · next refused hrefused =>
        obtain ⟨error, rfl⟩ := refused_of_fallback h.fallback hrefused
        exact (Sound.refused error).at hj hw (Function.update_self ..)
      · exact soundAt_tryAttempt (Function.update_self ..) ho (Journal.reaches_start _ _)
    · exact h.sound
  | answer op answer draw =>
    dsimp only
    have hop := h.sound op
    split
    · next j begun hj hw =>
      refine sound_of_moved h.sound (sameBut_answered s op e.now j _) ?_
      rw [SoundAt, hj, hw] at hop
      generalize ho : s.outcome op = o at hop
      cases hop with
      | asking _ _ lastErr hallowed hreaches => exact soundAt_answered rfl ho hallowed hreaches
    · exact h.sound
  | wake op =>
    dsimp only
    have hop := h.sound op
    split
    · next j lastErr hj hw =>
      refine sound_of_moved h.sound (sameBut_tryAttempt s op e.now j lastErr) ?_
      rw [SoundAt, hj, hw] at hop
      generalize ho : s.outcome op = o at hop
      cases hop with
      | sleeping _ _ _ hreaches => exact soundAt_tryAttempt hj ho hreaches
    · exact h.sound
  | reset => exact h.sound

variable (defaults) in
/- What one event asks of the breaker, in order. -/
theorem traffic_step (s : SorobanCalls ι α) (e : CallEvent ι α) :
    ∃ bs, (s.step defaults e).traffic = run Traffic.step s.traffic bs ∧
      ∀ b ∈ bs, b.now = e.now ∧ (b.act = .reset → e.act = .reset) := by
  have hnothing : ∃ bs, s.traffic = run Traffic.step s.traffic bs ∧
      ∀ b ∈ bs, b.now = e.now ∧ (b.act = .reset → e.act = .reset) := ⟨[], rfl, by simp⟩
  have hsettle : ∀ (t : SorobanCalls ι α) (op : ι) (result : Except JsValue α),
      ∃ b, (t.settle op e.now result).traffic = t.traffic.step b ∧ b.now = e.now ∧
        b.act ≠ .reset := by
    intro t op result
    refine ⟨_, rfl, rfl, ?_⟩
    cases result <;> simp
  have htry : ∀ (t : SorobanCalls ι α) (op : ι) (j : Journal α) (lastErr : JsValue),
      ∃ bs, (t.tryAttempt op e.now j lastErr).traffic = run Traffic.step t.traffic bs ∧
        ∀ b ∈ bs, b.now = e.now ∧ b.act ≠ .reset := by
    intro t op j lastErr
    unfold tryAttempt
    split
    · exact ⟨[], rfl, by simp⟩
    · obtain ⟨b, htraffic, hnow, hact⟩ := hsettle t op (.error lastErr)
      exact ⟨[b], htraffic, by simp [hnow, hact]⟩
  unfold step
  cases hact : e.act with
  | call op config =>
    dsimp only
    split
    · unfold callSorobanContract
      dsimp only
      split
      · exact ⟨[⟨e.now, .execute op⟩], rfl, by simp⟩
      · obtain ⟨bs, htraffic, hbs⟩ := htry _ op _ _
        refine ⟨⟨e.now, .execute op⟩ :: bs, htraffic, ?_⟩
        intro b hb
        rcases List.mem_cons.mp hb with rfl | hb
        · exact ⟨rfl, by simp⟩
        · exact ⟨(hbs b hb).1, fun h => absurd h (hbs b hb).2⟩
    · rw [hact] at hnothing
      exact hnothing
  | answer op answer draw =>
    dsimp only
    split
    · unfold answered
      dsimp only
      split
      · obtain ⟨b, htraffic, hnow, hb⟩ := hsettle _ op _
        exact ⟨[b], htraffic, by simp [hnow, hb]⟩
      · split_ifs
        · obtain ⟨b, htraffic, hnow, hb⟩ := hsettle _ op _
          exact ⟨[b], htraffic, by simp [hnow, hb]⟩
        · obtain ⟨b, htraffic, hnow, hb⟩ := hsettle _ op _
          exact ⟨[b], htraffic, by simp [hnow, hb]⟩
        · exact ⟨[], rfl, by simp⟩
    · rw [hact] at hnothing
      exact hnothing
  | wake op =>
    dsimp only
    split
    · obtain ⟨bs, htraffic, hbs⟩ := htry s op _ _
      exact ⟨bs, htraffic, fun b hb => ⟨(hbs b hb).1, fun h => absurd h (hbs b hb).2⟩⟩
    · rw [hact] at hnothing
      exact hnothing
  | reset => exact ⟨[⟨e.now, .reset⟩], rfl, by simp⟩

omit [DecidableEq ι] in
theorem sane_start (failureThreshold recoveryTimeout : JsNumber) (created : ℕ) :
    (start failureThreshold recoveryTimeout created : SorobanCalls ι α).Sane defaults :=
  ⟨rfl, fun _ => .fresh⟩

theorem Sane.step (h : s.Sane defaults) (e : CallEvent ι α) : (s.step defaults e).Sane defaults := by
  refine ⟨?_, sound_step e h⟩
  obtain ⟨bs, htraffic, -⟩ := traffic_step defaults s e
  rw [htraffic]
  exact run_keeps Traffic.step (fun t => t.breaker.fallbackLogic = none)
    (fun t b => fallback_step b) s.traffic bs h.fallback

theorem sane_reached (failureThreshold recoveryTimeout : JsNumber) (created : ℕ)
    (es : List (CallEvent ι α)) :
    (reached defaults failureThreshold recoveryTimeout created es).Sane defaults :=
  run_keeps _ (Sane defaults) (fun _ e h => h.step e) _ es
    (sane_start failureThreshold recoveryTimeout created)

/-! ### While the breaker is open -/

/- The RPCs that a call has sent. -/
def sent (s : SorobanCalls ι α) (op : ι) : ℕ :=
  match s.journal op, s.waiting op with
  | none, _ => 0
  | some j, some (.rpc _) => j.answered.length + 1
  | some j, _ => j.answered.length

theorem retryFrom_calls_le {β : Type} (cfg : RetryConfig) (operation : ℕ → Except JsValue β)
    (clock : Clock) (draw : ℕ → ℚ) (fuel attempt : ℕ) (lastErr : JsValue) :
    (retryFrom cfg operation clock draw fuel attempt lastErr).calls ≤ attempt + fuel := by
  induction fuel generalizing attempt lastErr with
  | zero => exact le_rfl
  | succ fuel ih =>
    rw [retryFrom]
    split
    · split
      · exact Nat.add_le_add_left (Nat.succ_le_succ (Nat.zero_le fuel)) attempt
      · split_ifs
        · exact Nat.add_le_add_left (Nat.succ_le_succ (Nat.zero_le fuel)) attempt
        · exact Nat.add_le_add_left (Nat.succ_le_succ (Nat.zero_le fuel)) attempt
        · have hrest := ih (attempt + 1) ‹_›
          dsimp only
          omega
    · exact Nat.le_add_right attempt _

omit [DecidableEq ι] in
theorem sent_le (h : s.Sane defaults) (op : ι) : s.sent op ≤ 11 := by
  have hop := h.sound op
  unfold sent
  rw [SoundAt] at hop
  generalize s.journal op = j at hop
  generalize s.waiting op = w at hop
  generalize s.outcome op = o at hop
  cases hop with
  | fresh => exact Nat.zero_le 11
  | refused error => exact Nat.zero_le 11
  | asking j begun lastErr hallowed hreaches =>
    exact Nat.succ_le_succ (attemptAllowed_iff.mp hallowed).2
  | sleeping j lastErr hlength hreaches => exact hlength
  | ended j result hends =>
    dsimp only
    rw [← (hends _ _ _ j.explains_self).2]
    exact retryFrom_calls_le _ _ _ _ 11 0 .undefined

/- The breaker is open, and its next attempt is not before `t + recoveryTimeout`. -/
structure Shut (t : ℕ) (recoveryTimeout : JsNumber) (traffic : Traffic ι α) : Prop where
  opened : traffic.breaker.state = .opened
  timeout : traffic.breaker.recoveryTimeout = recoveryTimeout
  next : JsNumber.le (JsNumber.add (.ofNat t) recoveryTimeout) traffic.breaker.nextAttemptTime = true

variable {t now : ℕ} {recoveryTimeout : JsNumber}

omit [DecidableEq ι] in
theorem Shut.not_due {traffic : Traffic ι α} (h : Shut t recoveryTimeout traffic)
    (hwithin : JsNumber.le (JsNumber.add (.ofNat t) recoveryTimeout) (.ofNat now) = false) :
    JsNumber.le traffic.breaker.nextAttemptTime (.ofNat now) = false := by
  rw [← Bool.not_eq_true]
  intro hdue
  rw [JsNumber.le_trans h.next hdue] at hwithin
  cases hwithin

theorem Shut.step {traffic : Traffic ι α} {b : BreakerEvent ι α}
    (h : Shut t recoveryTimeout traffic) (htimeout : recoveryTimeout ≠ .nan) (hlater : t ≤ b.now)
    (hwithin : JsNumber.le (JsNumber.add (.ofNat t) recoveryTimeout) (.ofNat b.now) = false)
    (hreset : b.act ≠ .reset) : Shut t recoveryTimeout (traffic.step b) := by
  have hconfig := (traffic.step_moves b).config.2.trans h.timeout
  rcases (traffic.step_moves b).of_opened h.opened hreset with ⟨hopened, hnext⟩ | hdue
  · refine ⟨hopened, hconfig, ?_⟩
    rcases hnext with hsame | hanew
    · rw [hsame]
      exact h.next
    · rw [hanew, h.timeout]
      exact JsNumber.add_ofNat_le htimeout hlater
  · rw [h.not_due hwithin] at hdue
    cases hdue

/- What opens the breaker at `t` sets the time of its next attempt. -/
theorem shut_of_opens {traffic : Traffic ι α} (bs : List (BreakerEvent ι α))
    (hnow : ∀ b ∈ bs, b.now = t) (htimeout : traffic.breaker.recoveryTimeout ≠ .nan)
    (hbefore : traffic.breaker.state ≠ .opened)
    (hafter : (run Traffic.step traffic bs).breaker.state = .opened) :
    Shut t traffic.breaker.recoveryTimeout (run Traffic.step traffic bs) := by
  have hkept := run_invariant Traffic.step (fun _ b => b.now = t)
    (fun u => u.breaker.recoveryTimeout = traffic.breaker.recoveryTimeout ∧
      (u.breaker.state = .opened →
        JsNumber.le (JsNumber.add (.ofNat t) traffic.breaker.recoveryTimeout)
          u.breaker.nextAttemptTime = true)) ?_ traffic bs ⟨rfl, fun h => absurd h hbefore⟩
    (along_of_mem _ _ _ hnow)
  · exact ⟨hafter, hkept.1, hkept.2 hafter⟩
  · intro u b hu hb
    refine ⟨(u.step_moves b).config.2.trans hu.1, fun hopened => ?_⟩
    have hmoves := u.step_moves b
    generalize (u.step b).breaker = cb at hmoves hopened
    cases hmoves with
    | stays => exact hu.2 hopened
    | probes hopened' hdue => cases hopened
    | recovers op response hact hhalf => cases hopened
    | clears hhalf => exact hu.2 hopened
    | trips =>
      rw [hb, hu.1]
      exact JsNumber.add_ofNat_le htimeout le_rfl
    | counts hbelow => exact hu.2 hopened
    | resets hact => cases hopened

variable (defaults) in
/- A call that waits for nothing sends nothing while the breaker is shut: it has ended, or is
refused. -/
theorem idle_step (e : CallEvent ι α) (h : Shut t recoveryTimeout s.traffic)
    (hwithin : JsNumber.le (JsNumber.add (.ofNat t) recoveryTimeout) (.ofNat e.now) = false)
    (op : ι) (hidle : s.waiting op = none) :
    (s.step defaults e).waiting op = none ∧ (s.step defaults e).journal op = s.journal op := by
  have hother : ∀ {moved : ι} {s' : SorobanCalls ι α}, SameBut moved s s' → op ≠ moved →
      s'.waiting op = none ∧ s'.journal op = s.journal op := by
    intro moved s' hsame hne
    obtain ⟨hj, hw, -⟩ := hsame op hne
    exact ⟨hw.trans hidle, hj⟩
  unfold SorobanCalls.step
  cases e.act with
  | call moved config =>
    dsimp only
    split
    · by_cases hne : op = moved
      · have hrefused : (s.traffic.breaker.execute e.now).2 = some s.traffic.breaker.failFast := by
          rw [CircuitBreaker.execute, if_pos h.opened, h.not_due hwithin, if_neg Bool.false_ne_true]
        unfold callSorobanContract
        rw [hrefused]
        exact ⟨hidle, rfl⟩
      · exact hother (sameBut_callSorobanContract s moved e.now config) hne
    · exact ⟨hidle, rfl⟩
  | answer moved answer draw =>
    dsimp only
    split
    · next j begun hj hw =>
      by_cases hne : op = moved
      · rw [← hne, hidle] at hw
        cases hw
      · exact hother (sameBut_answered s moved e.now j _) hne
    · exact ⟨hidle, rfl⟩
  | wake moved =>
    dsimp only
    split
    · next j lastErr hj hw =>
      by_cases hne : op = moved
      · rw [← hne, hidle] at hw
        cases hw
      · exact hother (sameBut_tryAttempt s moved e.now j lastErr) hne
    · exact ⟨hidle, rfl⟩
  | reset => exact ⟨hidle, rfl⟩

theorem shut_step (e : CallEvent ι α) (h : Shut t recoveryTimeout s.traffic)
    (htimeout : recoveryTimeout ≠ .nan) (hlater : t ≤ e.now)
    (hwithin : JsNumber.le (JsNumber.add (.ofNat t) recoveryTimeout) (.ofNat e.now) = false)
    (hreset : ∀ b : BreakerEvent ι α, (b.act = .reset → e.act = .reset) → b.act ≠ .reset) :
    Shut t recoveryTimeout (s.step defaults e).traffic := by
  obtain ⟨bs, htraffic, hbs⟩ := traffic_step defaults s e
  rw [htraffic]
  refine run_invariant Traffic.step (fun _ b => b.now = e.now ∧ b.act ≠ .reset)
    (Shut t recoveryTimeout) (fun u b hu hb => ?_) s.traffic bs h
    (along_of_mem _ _ _ fun b hb => ⟨(hbs b hb).1, hreset b (hbs b hb).2⟩)
  rw [← hb.1] at hlater hwithin
  exact hu.step htimeout hlater hwithin hb.2

theorem run_timeout (s : SorobanCalls ι α) (es : List (CallEvent ι α)) :
    (run (SorobanCalls.step defaults) s es).traffic.breaker.recoveryTimeout =
      s.traffic.breaker.recoveryTimeout := by
  refine run_keeps _
    (fun u => u.traffic.breaker.recoveryTimeout = s.traffic.breaker.recoveryTimeout) ?_ s es rfl
  intro u e hu
  obtain ⟨bs, htraffic, -⟩ := traffic_step defaults u e
  rw [htraffic]
  exact (Traffic.run_config u.traffic bs).2.trans hu

/- The breaker is shut, and the idle calls are as they were in `s`. -/
structure Quiet (t : ℕ) (recoveryTimeout : JsNumber) (s s' : SorobanCalls ι α) : Prop where
  shut : Shut t recoveryTimeout s'.traffic
  idle : ∀ op, s.waiting op = none → s'.waiting op = none ∧ s'.journal op = s.journal op

omit [DecidableEq ι] in
theorem Quiet.sent {s' : SorobanCalls ι α} (h : Quiet t recoveryTimeout s s') {op : ι}
    (hidle : s.waiting op = none) : s'.sent op = s.sent op := by
  obtain ⟨hw, hj⟩ := h.idle op hidle
  rw [SorobanCalls.sent, SorobanCalls.sent, hj, hw, hidle]

/-! ### Failed calls, not failed attempts, open the breaker -/

/- `n` failures are enough for the count and the state of the breaker. -/
structure Covers (cb : CircuitBreaker α) (n : ℕ) : Prop where
  count : cb.failureCount ≤ n
  opened : cb.state ≠ .closed → JsNumber.le cb.failureThreshold (.ofNat n) = true

theorem Covers.execute {cb : CircuitBreaker α} {n : ℕ} (h : Covers cb n) (now : ℕ) :
    Covers (cb.execute now).1 n := by
  unfold CircuitBreaker.execute
  split_ifs with hopened hdue
  · exact ⟨h.count, fun _ => h.opened (by rw [hopened]; rintro ⟨⟩)⟩
  · exact h
  · exact h

theorem Covers.onSuccess {cb : CircuitBreaker α} {n : ℕ} (h : Covers cb n) (value : α) :
    Covers (cb.onSuccess value).1 n := by
  unfold CircuitBreaker.onSuccess
  dsimp only
  split_ifs with hhalf
  · exact ⟨Nat.zero_le n, fun hclosed => absurd rfl hclosed⟩
  · exact ⟨Nat.zero_le n, h.opened⟩

theorem Covers.onFailure {cb : CircuitBreaker α} {n : ℕ} (h : Covers cb n) (now : ℕ)
    (error : BreakerError) : Covers (cb.onFailure now error).1 (n + 1) := by
  have hcount : cb.failureCount + 1 ≤ n + 1 := Nat.succ_le_succ h.count
  have hmore : JsNumber.le cb.failureThreshold (.ofNat n) = true →
      JsNumber.le cb.failureThreshold (.ofNat (n + 1)) = true := fun hle =>
    JsNumber.le_trans hle (JsNumber.le_ofNat (Nat.le_succ n))
  unfold CircuitBreaker.onFailure
  dsimp only
  split_ifs with htrips
  · refine ⟨hcount, fun _ => ?_⟩
    rcases htrips with hhalf | hreached
    · exact hmore (h.opened (by rw [hhalf]; rintro ⟨⟩))
    · exact JsNumber.le_trans hreached (JsNumber.le_ofNat hcount)
  · exact ⟨hcount, fun hopened => hmore (h.opened hopened)⟩

theorem Covers.succ {cb : CircuitBreaker α} {n : ℕ} (h : Covers cb n) : Covers cb (n + 1) :=
  ⟨Nat.le_succ_of_le h.count, fun hopened =>
    JsNumber.le_trans (h.opened hopened) (JsNumber.le_ofNat (Nat.le_succ n))⟩

/- The calls that were rejected by their own loop cover the breaker. -/
def Counted (s : SorobanCalls ι α) : Prop :=
  ∃ ops : Finset ι, (∀ op ∈ ops, ∃ err, s.outcome op = some (.error (.thrown err))) ∧
    Covers s.traffic.breaker ops.card

theorem counted_settle {now : ℕ} {result : Except JsValue α} (h : s.Counted)
    (ho : s.outcome op = none) : (s.settle op now result).Counted := by
  obtain ⟨ops, hops, hcovers⟩ := h
  have hfresh : op ∉ ops := by
    intro hmem
    obtain ⟨err, herr⟩ := hops op hmem
    rw [ho] at herr
    cases herr
  have hkept : ∀ other ∈ ops, ∃ err,
      (s.settle op now result).outcome other = some (.error (.thrown err)) := by
    intro other hmem
    have hne : other ≠ op := fun heq => hfresh (heq ▸ hmem)
    obtain ⟨err, herr⟩ := hops other hmem
    exact ⟨err, (Function.update_of_ne hne ..).trans herr⟩
  cases result with
  | ok value =>
    refine ⟨ops, hkept, ?_⟩
    show Covers (s.traffic.step ⟨now, .succeed op value⟩).breaker ops.card
    unfold Traffic.step
    dsimp only
    split
    · exact hcovers
    · exact hcovers.onSuccess value
  | error err =>
    refine ⟨insert op ops, ?_, ?_⟩
    · intro other hmem
      rcases Finset.mem_insert.mp hmem with rfl | hmem
      · exact ⟨err, Function.update_self ..⟩
      · exact hkept other hmem
    · rw [Finset.card_insert_of_notMem hfresh]
      show Covers (s.traffic.step ⟨now, .fail op (breakerError err)⟩).breaker (ops.card + 1)
      unfold Traffic.step
      dsimp only
      split
      · exact hcovers.succ
      · exact hcovers.onFailure now (breakerError err)

theorem counted_tryAttempt {now : ℕ} {j : Journal α} {lastErr : JsValue} (h : s.Counted)
    (ho : s.outcome op = none) : (s.tryAttempt op now j lastErr).Counted := by
  unfold tryAttempt
  split
  · exact h
  · exact counted_settle h ho

theorem counted_execute {now : ℕ} {outcome : ι → Option (Except CallError α)}
    {journal : ι → Option (Journal α)} (h : s.Counted)
    (hkept : ∀ op err, s.outcome op = some (.error (.thrown err)) →
      outcome op = some (.error (.thrown err))) :
    Counted { s with
      traffic := s.traffic.step ⟨now, .execute op⟩
      journal := journal
      outcome := outcome } := by
  obtain ⟨ops, hops, hcovers⟩ := h
  refine ⟨ops, fun other hmem => ?_, ?_⟩
  · obtain ⟨err, herr⟩ := hops other hmem
    exact ⟨err, hkept other err herr⟩
  · show Covers (s.traffic.step ⟨now, .execute op⟩).breaker ops.card
    have hentered := hcovers.execute now
    unfold Traffic.step Traffic.enter
    dsimp only
    split
    · split
      · next heq =>
        rw [heq] at hentered
        exact hentered
      · next heq =>
        rw [heq] at hentered
        exact hentered
    · exact hcovers

theorem Counted.step (h : s.Counted) (hsane : s.Sane defaults) (e : CallEvent ι α) :
    (s.step defaults e).Counted := by
  unfold SorobanCalls.step
  cases e.act with
  | call op config =>
    dsimp only
    split
    · next hj ho =>
      unfold callSorobanContract
      dsimp only
      split
      · refine counted_execute h fun other err herr => ?_
        have hne : other ≠ op := by
          rintro rfl
          rw [ho] at herr
          cases herr
        exact (Function.update_of_ne hne ..).trans herr
      · exact counted_tryAttempt (counted_execute h fun _ _ herr => herr) ho
    · exact h
  | answer op answer draw =>
    dsimp only
    have hop := hsane.sound op
    split
    · next j begun hj hw =>
      have ho : s.outcome op = none := by
        rw [SoundAt, hj, hw] at hop
        exact hop.not_ended
      unfold answered
      dsimp only
      split
      · exact counted_settle h ho
      · split_ifs
        · exact counted_settle h ho
        · exact counted_settle h ho
        · exact h
    · exact h
  | wake op =>
    dsimp only
    have hop := hsane.sound op
    split
    · next j lastErr hj hw =>
      have ho : s.outcome op = none := by
        rw [SoundAt, hj, hw] at hop
        exact hop.not_ended
      exact counted_tryAttempt h ho
    · exact h
  | reset =>
    obtain ⟨ops, hops, -⟩ := h
    exact ⟨ops, hops, ⟨Nat.zero_le _, fun hclosed => absurd rfl hclosed⟩⟩

end Runs
end SorobanCalls

/-- However the calls overlap: a call that the breaker lets through ends exactly as `withRetry`
does alone on the answers, the clock and the draws it met, each RPC answered once; a call that
the breaker refuses sends none; and a call that was let through has ended unless it waits. -/
theorem call_ends_as_alone {ι α : Type} [DecidableEq ι] (defaults : RetryConfig)
    (failureThreshold recoveryTimeout : JsNumber) (created : ℕ) (es : List (CallEvent ι α))
    (op : ι) :
    let s := SorobanCalls.reached defaults failureThreshold recoveryTimeout created es
    (∀ j, s.journal op = some j → s.waiting op = none →
      s.outcome op = some ((withRetry j.operation j.clock j.draw defaults
          j.cfg.asOverrides).result.mapError .thrown) ∧
        (withRetry j.operation j.clock j.draw defaults j.cfg.asOverrides).calls =
          j.answered.length ∧ s.sent op = j.answered.length) ∧
      (∀ j, s.journal op = some j → s.waiting op ≠ none → s.outcome op = none) ∧
      (s.journal op = none → s.sent op = 0 ∧ ∀ result, s.outcome op = some result →
        ∃ error, result = .error (.circuit error)) := by
  intro s
  have hop : s.SoundAt defaults op :=
    (SorobanCalls.sane_reached failureThreshold recoveryTimeout created es).sound op
  unfold SorobanCalls.sent
  rw [SorobanCalls.SoundAt] at hop
  generalize s.journal op = j at hop
  generalize s.waiting op = w at hop
  generalize s.outcome op = o at hop
  refine ⟨?_, ?_, ?_⟩
  · rintro j rfl rfl
    cases hop with
    | ended _ result hends =>
      obtain ⟨hresult, hcalls⟩ := hends _ _ _ j.explains_self
      exact ⟨by rw [hresult], hcalls, rfl⟩
  · rintro j rfl hwaiting
    cases hop with
    | asking => rfl
    | sleeping => rfl
    | ended => exact absurd rfl hwaiting
  · rintro rfl
    cases hop with
    | fresh => exact ⟨rfl, fun _ h => by cases h⟩
    | refused error => exact ⟨rfl, fun _ h => ⟨error, (Option.some.inj h).symm⟩⟩

/-- After the event `e` opens the breaker, until `recoveryTimeout` has passed or it is reset:
the calls that were not in flight send no RPC, and the others have sent eleven at most in all. -/
theorem no_rpc_while_open {ι α : Type} [DecidableEq ι] (defaults : RetryConfig)
    (failureThreshold recoveryTimeout : JsNumber) (created : ℕ) (pre mid : List (CallEvent ι α))
    (e : CallEvent ι α) (s s' : SorobanCalls ι α)
    (hs : s = SorobanCalls.reached defaults failureThreshold recoveryTimeout created pre)
    (hs' : s' = SorobanCalls.reached defaults failureThreshold recoveryTimeout created (pre ++ [e]))
    (hbefore : s.traffic.breaker.state ≠ .opened) (hopens : s'.traffic.breaker.state = .opened)
    (hclock : ∀ a ∈ mid, e.now ≤ a.now)
    (hwithin : ∀ a ∈ mid, JsNumber.le
      (JsNumber.add (.ofNat e.now) s.traffic.breaker.recoveryTimeout) (.ofNat a.now) = false)
    (hreset : ∀ a ∈ mid, a.act ≠ .reset) (op : ι) :
    (run (SorobanCalls.step defaults) s' mid).sent op ≤ 11 ∧
      (s'.waiting op = none → (run (SorobanCalls.step defaults) s' mid).sent op = s'.sent op) := by
  have hsane : s'.Sane defaults := by
    rw [hs']
    exact SorobanCalls.sane_reached failureThreshold recoveryTimeout created (pre ++ [e])
  have htimeout : s.traffic.breaker.recoveryTimeout ≠ .nan := by
    rw [hs, SorobanCalls.reached, SorobanCalls.run_timeout]
    exact recoveryTimeout_ne_nan _ created
  have hstep : s' = s.step defaults e := by
    rw [hs', SorobanCalls.reached, run_append, hs]
    rfl
  have hquiet : SorobanCalls.Quiet e.now s.traffic.breaker.recoveryTimeout s'
      (run (SorobanCalls.step defaults) s' mid) := by
    refine run_invariant _ (fun _ a => e.now ≤ a.now ∧ JsNumber.le (JsNumber.add (.ofNat e.now)
        s.traffic.breaker.recoveryTimeout) (.ofNat a.now) = false ∧ a.act ≠ .reset)
      (SorobanCalls.Quiet e.now s.traffic.breaker.recoveryTimeout s') ?_ _ mid ?_
      (along_of_mem _ _ _ fun a ha => ⟨hclock a ha, hwithin a ha, hreset a ha⟩)
    · rintro u a ⟨hshut, hidle⟩ ⟨hlater, hin, hact⟩
      refine ⟨SorobanCalls.shut_step a hshut htimeout hlater hin fun b hb h => hact (hb h), ?_⟩
      intro op hop
      obtain ⟨hw, hj⟩ := hidle op hop
      obtain ⟨hw', hj'⟩ := SorobanCalls.idle_step defaults a hshut hin op hw
      exact ⟨hw', hj'.trans hj⟩
    · obtain ⟨bs, htraffic, hbs⟩ := SorobanCalls.traffic_step defaults s e
      rw [hstep, htraffic] at hopens
      refine ⟨?_, fun op hop => ⟨hop, rfl⟩⟩
      rw [hstep, htraffic]
      exact SorobanCalls.shut_of_opens bs (fun b hb => (hbs b hb).1) htimeout hbefore hopens
  have hlast : (run (SorobanCalls.step defaults) s' mid).Sane defaults :=
    run_keeps _ (SorobanCalls.Sane defaults) (fun _ a h => h.step a) _ mid hsane
  exact ⟨SorobanCalls.sent_le hlast op, fun hidle => hquiet.sent hidle⟩

/- The retries of a call count once: the first of two calls is refused at once, the second is
answered twice; while the breaker is open a third is refused. -/
def twoCalls : List (CallEvent ℕ Bool) :=
  [⟨0, .call 0 ⟨none, none, none, none⟩⟩, ⟨1, .call 1 ⟨none, none, none, none⟩⟩,
    ⟨2, .answer 1 (.error (.object [("status", .number (.fin 503))])) 0⟩]

def openedBy : CallEvent ℕ Bool := ⟨5, .answer 0 (.error .null) 0⟩

def whileOpen : List (CallEvent ℕ Bool) :=
  [⟨6, .call 2 ⟨none, none, none, none⟩⟩, ⟨200, .wake 1⟩, ⟨210, .answer 1 (.ok true) 0⟩]

def sampleCalls (es : List (CallEvent ℕ Bool)) : SorobanCalls ℕ Bool :=
  SorobanCalls.reached sampleConfig (.fin 1) (.fin 1000) 0 es

theorem no_rpc_while_open_sample :
    (run (SorobanCalls.step sampleConfig) (sampleCalls (twoCalls ++ [openedBy])) whileOpen).sent 2 =
      0 := by
  have hidle : (sampleCalls (twoCalls ++ [openedBy])).waiting 2 = none := by decide
  exact (no_rpc_while_open sampleConfig (.fin 1) (.fin 1000) 0 twoCalls whileOpen openedBy
    (sampleCalls twoCalls) (sampleCalls (twoCalls ++ [openedBy])) rfl rfl (by decide)
    (by decide +kernel) (by decide) (by decide +kernel) (by simp [whileOpen]) 2).2 hidle

/-- Whatever calls overlap and however often each is retried: when the breaker is not closed, as
many different calls as its threshold have been rejected with the error of their last attempt. -/
theorem not_closed_after_threshold {ι α : Type} [DecidableEq ι] (defaults : RetryConfig)
    (failureThreshold recoveryTimeout : JsNumber) (created : ℕ) (es : List (CallEvent ι α))
    (s : SorobanCalls ι α)
    (hs : s = SorobanCalls.reached defaults failureThreshold recoveryTimeout created es)
    (hstate : s.traffic.breaker.state ≠ .closed) :
    ∃ ops : Finset ι, JsNumber.le s.traffic.breaker.failureThreshold (.ofNat ops.card) = true ∧
      ∀ op ∈ ops, ∃ err, s.outcome op = some (.error (.thrown err)) := by
  have hkept : s.Sane defaults ∧ s.Counted := by
    rw [hs]
    refine run_keeps _ (fun u => SorobanCalls.Sane defaults u ∧ u.Counted)
      (fun u e hu => ⟨hu.1.step e, hu.2.step hu.1 e⟩) _ es
      ⟨SorobanCalls.sane_start failureThreshold recoveryTimeout created, ∅, by simp, ?_⟩
    exact ⟨le_rfl, fun hclosed => absurd rfl hclosed⟩
  obtain ⟨ops, hops, hcovers⟩ := hkept.2
  exact ⟨ops, hcovers.opened hstate, hops⟩

theorem not_closed_after_threshold_sample :
    ∃ ops : Finset ℕ, JsNumber.le (.fin 1) (.ofNat ops.card) = true ∧
      ∀ op ∈ ops, ∃ err, (sampleCalls (twoCalls ++ [openedBy])).outcome op =
        some (.error (.thrown err)) :=
  not_closed_after_threshold sampleConfig (.fin 1) (.fin 1000) 0 (twoCalls ++ [openedBy])
    (sampleCalls (twoCalls ++ [openedBy])) rfl (by decide)

end Liquifact.Soroban
