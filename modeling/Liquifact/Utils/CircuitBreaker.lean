import Liquifact.Lib.JsValue
import Liquifact.Lib.Run

/-!
# The circuit breaker (`src/utils/circuitBreaker.js`)

`execute` (119-141) is two steps with the operation between them: the check of the state,
which refuses the call or starts its operation, and `onSuccess` or `onFailure`, which runs
when the operation ends, in whatever state the breaker has by then.

`Traffic` is one breaker with the operations that are in flight. `onStateChange` and the
transition counter only observe the breaker; at this commit `src/metrics.js` exports a name
it does not define, so that `getMetrics` has no counter to increment.
-/

namespace Liquifact.Utils
open Liquifact.Lib

inductive CircuitBreakerState where
  | closed
  | opened
  | halfOpen
  deriving DecidableEq

structure BreakerError where
  message : String
  code : Option String

structure CircuitBreakerOptions (ρ : Type) where
  name : Option String
  failureThreshold : Option JsNumber
  recoveryTimeout : Option JsNumber
  fallbackLogic : Option (Option BreakerError → Except BreakerError ρ)

structure CircuitBreaker (ρ : Type) where
  name : String
  failureThreshold : JsNumber
  recoveryTimeout : JsNumber
  fallbackLogic : Option (Option BreakerError → Except BreakerError ρ)
  state : CircuitBreakerState
  failureCount : ℕ
  nextAttemptTime : JsNumber

/- `options.x || value` for a number. -/
def numberOr (x : Option JsNumber) (value : JsNumber) : JsNumber :=
  match x with
  | some n => if n.truthy then n else value
  | none => value

namespace CircuitBreaker
variable {ρ : Type}

def construct (options : CircuitBreakerOptions ρ) (now : ℕ) : CircuitBreaker ρ where
  name := (truthy options.name).getD "default"
  failureThreshold := numberOr options.failureThreshold (.fin 5)
  recoveryTimeout := numberOr options.recoveryTimeout (.fin 10000)
  fallbackLogic := options.fallbackLogic
  state := .closed
  failureCount := 0
  nextAttemptTime := .ofNat now

def transitionState (cb : CircuitBreaker ρ) (newState : CircuitBreakerState) : CircuitBreaker ρ :=
  { cb with state := newState }

def reset (cb : CircuitBreaker ρ) (now : ℕ) : CircuitBreaker ρ :=
  { cb.transitionState .closed with failureCount := 0, nextAttemptTime := .ofNat now }

def failFast (cb : CircuitBreaker ρ) : Except BreakerError ρ :=
  match cb.fallbackLogic with
  | some fallback => fallback none
  | none => .error ⟨"Circuit Breaker is OPEN. Operation failed fast.", some "CIRCUIT_OPEN"⟩

/-- `execute` up to the operation: the breaker and, when the operation is not started, what
the caller gets instead. -/
def execute (cb : CircuitBreaker ρ) (now : ℕ) :
    CircuitBreaker ρ × Option (Except BreakerError ρ) :=
  if cb.state = .opened then
    if JsNumber.le cb.nextAttemptTime (.ofNat now) then (cb.transitionState .halfOpen, none)
    else (cb, some cb.failFast)
  else (cb, none)

def onSuccess (cb : CircuitBreaker ρ) (response : ρ) : CircuitBreaker ρ × Except BreakerError ρ :=
  let cb := { cb with failureCount := 0 }
  (if cb.state = .halfOpen then cb.transitionState .closed else cb, .ok response)

def onFailure (cb : CircuitBreaker ρ) (now : ℕ) (error : BreakerError) :
    CircuitBreaker ρ × Except BreakerError ρ :=
  let cb := { cb with failureCount := cb.failureCount + 1 }
  let cb :=
    if cb.state = .halfOpen ∨ JsNumber.le cb.failureThreshold (.ofNat cb.failureCount) then
      { cb.transitionState .opened with
        nextAttemptTime := JsNumber.add (.ofNat now) cb.recoveryTimeout }
    else cb
  (cb, match cb.state, cb.fallbackLogic with
    | .opened, some fallback => fallback (some error)
    | _, _ => .error error)

end CircuitBreaker

/-! ### Calls in flight -/

/-- An operation in flight: how often the breaker had opened when it was started, and
whether it was started as a probe, in the half-open state. -/
structure Started where
  openings : ℕ
  probe : Bool
  deriving DecidableEq

structure Traffic (ι ρ : Type) where
  breaker : CircuitBreaker ρ
  openings : ℕ
  inFlight : ι → Option Started

inductive BreakerAct (ι ρ : Type) where
  | execute (op : ι)
  | succeed (op : ι) (response : ρ)
  | fail (op : ι) (error : BreakerError)
  | reset

/-- What happens, and the clock at that moment. -/
structure BreakerEvent (ι ρ : Type) where
  now : ℕ
  act : BreakerAct ι ρ

namespace Traffic

section Model
variable {ι ρ : Type} [DecidableEq ι]

def start (options : CircuitBreakerOptions ρ) (now : ℕ) : Traffic ι ρ :=
  ⟨CircuitBreaker.construct options now, 0, fun _ => none⟩

def enter (s : Traffic ι ρ) (op : ι) (now : ℕ) : Traffic ι ρ :=
  match s.breaker.execute now with
  | (cb, some _) => { s with breaker := cb }
  | (cb, none) => ⟨cb, s.openings,
      Function.update s.inFlight op (some ⟨s.openings, decide (cb.state = .halfOpen)⟩)⟩

def leave (s : Traffic ι ρ) (op : ι) (cb : CircuitBreaker ρ) : Traffic ι ρ where
  breaker := cb
  openings := if s.breaker.state ≠ .opened ∧ cb.state = .opened then s.openings + 1 else s.openings
  inFlight := Function.update s.inFlight op none

/-- An operation is started once and ends at most once. -/
def step (s : Traffic ι ρ) (e : BreakerEvent ι ρ) : Traffic ι ρ :=
  match e.act with
  | .execute op => if s.inFlight op = none then s.enter op e.now else s
  | .succeed op response =>
    if s.inFlight op = none then s else s.leave op (s.breaker.onSuccess response).1
  | .fail op error =>
    if s.inFlight op = none then s else s.leave op (s.breaker.onFailure e.now error).1
  | .reset => { s with breaker := s.breaker.reset e.now }

end Model

/-! ### What one event does to the breaker -/

section Moves
variable {ι ρ : Type}

inductive Moves (cb : CircuitBreaker ρ) (e : BreakerEvent ι ρ) : CircuitBreaker ρ → Prop
  | stays : Moves cb e cb
  | probes (hopened : cb.state = .opened)
      (hdue : JsNumber.le cb.nextAttemptTime (.ofNat e.now) = true) :
      Moves cb e { cb with state := .halfOpen }
  | recovers (op : ι) (response : ρ) (hact : e.act = .succeed op response)
      (hhalf : cb.state = .halfOpen) : Moves cb e { cb with state := .closed, failureCount := 0 }
  | clears (hhalf : cb.state ≠ .halfOpen) : Moves cb e { cb with failureCount := 0 }
  | trips : Moves cb e { cb with
      state := .opened
      failureCount := cb.failureCount + 1
      nextAttemptTime := JsNumber.add (.ofNat e.now) cb.recoveryTimeout }
  | counts (hbelow : JsNumber.le cb.failureThreshold (.ofNat (cb.failureCount + 1)) = false) :
      Moves cb e { cb with failureCount := cb.failureCount + 1 }
  | resets (hact : e.act = .reset) : Moves cb e (cb.reset e.now)

variable {cb cb' : CircuitBreaker ρ} {e : BreakerEvent ι ρ}

theorem Moves.config (h : Moves cb e cb') : cb'.failureThreshold = cb.failureThreshold ∧
    cb'.recoveryTimeout = cb.recoveryTimeout := by
  cases h <;> exact ⟨rfl, rfl⟩

/- Only a failure opens the breaker, and it sets the time of the next attempt. -/
theorem Moves.opens (h : Moves cb e cb') (hbefore : cb.state ≠ .opened)
    (hafter : cb'.state = .opened) :
    cb'.nextAttemptTime = JsNumber.add (.ofNat e.now) cb.recoveryTimeout := by
  cases h with
  | stays => exact absurd hafter hbefore
  | probes hopened hdue => cases hafter
  | recovers op response hact hhalf => cases hafter
  | clears hhalf => exact absurd hafter hbefore
  | trips => rfl
  | counts hbelow => exact absurd hafter hbefore
  | resets hact => cases hafter

/- From the open state: it stays open, its next attempt the same or counted anew, or the
next attempt is due. -/
theorem Moves.of_opened (h : Moves cb e cb') (hopened : cb.state = .opened)
    (hreset : e.act ≠ .reset) :
    (cb'.state = .opened ∧ (cb'.nextAttemptTime = cb.nextAttemptTime ∨
      cb'.nextAttemptTime = JsNumber.add (.ofNat e.now) cb.recoveryTimeout)) ∨
    JsNumber.le cb.nextAttemptTime (.ofNat e.now) = true := by
  cases h with
  | stays => exact .inl ⟨hopened, .inl rfl⟩
  | probes hopened hdue => exact .inr hdue
  | recovers op response hact hhalf =>
    rw [hopened] at hhalf
    cases hhalf
  | clears hhalf => exact .inl ⟨hopened, .inl rfl⟩
  | trips => exact .inl ⟨rfl, .inr rfl⟩
  | counts hbelow => exact .inl ⟨hopened, .inl rfl⟩
  | resets hact => exact absurd hact hreset

end Moves

section Runs
variable {ι ρ : Type} [DecidableEq ι]

theorem step_moves (s : Traffic ι ρ) (e : BreakerEvent ι ρ) :
    Moves s.breaker e (s.step e).breaker := by
  unfold step
  cases hact : e.act with
  | execute op =>
    dsimp only [enter, CircuitBreaker.execute]
    split_ifs with hfresh hopened hdue
    · exact .probes hopened hdue
    · exact .stays
    · exact .stays
    · exact .stays
  | succeed op response =>
    dsimp only
    split
    · exact .stays
    · show Moves s.breaker e (s.breaker.onSuccess response).1
      unfold CircuitBreaker.onSuccess
      dsimp only
      split_ifs with hhalf
      · exact .recovers op response hact hhalf
      · exact .clears hhalf
  | fail op error =>
    dsimp only
    split
    · exact .stays
    · show Moves s.breaker e (s.breaker.onFailure e.now error).1
      unfold CircuitBreaker.onFailure
      dsimp only
      split_ifs with hopens
      · exact .trips
      · push Not at hopens
        exact .counts (by simpa using hopens.2)
  | reset => exact .resets hact

theorem run_config (s : Traffic ι ρ) (es : List (BreakerEvent ι ρ)) :
    (run step s es).breaker.failureThreshold = s.breaker.failureThreshold ∧
      (run step s es).breaker.recoveryTimeout = s.breaker.recoveryTimeout := by
  induction es generalizing s with
  | nil => exact ⟨rfl, rfl⟩
  | cons e es ih =>
    obtain ⟨hthreshold, htimeout⟩ := ih (s.step e)
    obtain ⟨hthreshold', htimeout'⟩ := (s.step_moves e).config
    exact ⟨hthreshold.trans hthreshold', htimeout.trans htimeout'⟩

end Runs

/-! ### The half-open state -/

section HalfOpen
variable {ι ρ : Type} [DecidableEq ι]

/- Other than by `reset`, the breaker is closed by an operation started after it last opened. -/
def ClosedByFresh (s : Traffic ι ρ) (e : BreakerEvent ι ρ) : Prop :=
  s.breaker.state ≠ .closed → (s.step e).breaker.state = .closed → e.act ≠ .reset →
    ∃ op response a, e.act = .succeed op response ∧ s.inFlight op = some a ∧
      a.openings = s.openings

def OneProbe (s : Traffic ι ρ) : Prop :=
  ∀ i j a b, s.inFlight i = some a → s.inFlight j = some b → a.probe = true → b.probe = true →
    i = j

/-- No call starts a probe while one is unfinished, and no operation from before the last
opening succeeds in the half-open state. -/
def Disciplined (s : Traffic ι ρ) (e : BreakerEvent ι ρ) : Prop :=
  match e.act with
  | .execute op => s.inFlight op = none →
    (s.breaker.state = .halfOpen ∨ s.breaker.state = .opened ∧
      JsNumber.le s.breaker.nextAttemptTime (.ofNat e.now) = true) →
    ∀ i a, s.inFlight i = some a → a.probe = false
  | .succeed op _ => s.breaker.state = .halfOpen →
    ∀ a, s.inFlight op = some a → a.openings = s.openings
  | _ => True

variable {s : Traffic ι ρ} {e : BreakerEvent ι ρ}

theorem closedByFresh_of_disciplined (h : s.Disciplined e) : s.ClosedByFresh e := by
  intro hbefore hafter hreset
  have hmoves := s.step_moves e
  generalize hcb : (s.step e).breaker = cb at hmoves hafter
  cases hmoves with
  | stays => exact absurd hafter hbefore
  | probes hopened hdue => cases hafter
  | recovers op response hact hhalf =>
    cases hflight : s.inFlight op with
    | none =>
      -- a completion of an operation that is not in flight is no event
      rw [step, hact] at hcb
      dsimp only at hcb
      rw [if_pos hflight] at hcb
      rw [hcb] at hbefore
      exact absurd rfl hbefore
    | some a =>
      rw [Disciplined, hact] at h
      exact ⟨op, response, a, hact, hflight, h hhalf a hflight⟩
  | clears hhalf => exact absurd hafter hbefore
  | trips => cases hafter
  | counts hbelow => exact absurd hafter hbefore
  | resets hact => exact absurd hact hreset

/- What is in flight after an event was in flight before, or is the operation it starts. -/
theorem inFlight_step {i : ι} {a : Started} (h : (s.step e).inFlight i = some a) :
    s.inFlight i = some a ∨ (e.act = .execute i ∧ s.inFlight i = none ∧
      (a.probe = true → s.breaker.state = .halfOpen ∨ s.breaker.state = .opened ∧
        JsNumber.le s.breaker.nextAttemptTime (.ofNat e.now) = true)) := by
  unfold step at h
  cases hact : e.act with
  | execute op =>
    simp only [hact] at h
    split_ifs at h with hfresh
    · unfold enter CircuitBreaker.execute at h
      split_ifs at h with hopened hdue
      all_goals
        simp only [Function.update_apply] at h
      · split_ifs at h with hi
        · subst hi
          exact .inr ⟨rfl, hfresh, fun _ => .inr ⟨hopened, hdue⟩⟩
        · exact .inl h
      · exact .inl h
      · split_ifs at h with hi
        · subst hi
          cases h
          exact .inr ⟨rfl, hfresh, fun hprobe => .inl (of_decide_eq_true hprobe)⟩
        · exact .inl h
    · exact .inl h
  | succeed op response =>
    simp only [hact] at h
    split_ifs at h
    · exact .inl h
    · simp only [leave, Function.update_apply] at h
      split_ifs at h
      exact .inl h
  | fail op error =>
    simp only [hact] at h
    split_ifs at h
    · exact .inl h
    · simp only [leave, Function.update_apply] at h
      split_ifs at h
      exact .inl h
  | reset =>
    simp only [hact] at h
    exact .inl h

theorem OneProbe.step (h : s.OneProbe) (hok : s.Disciplined e) : (s.step e).OneProbe := by
  -- a probe that the event starts finds no other one
  have hstarted : ∀ i j a b, s.inFlight i = some a → a.probe = true → e.act = .execute j →
      s.inFlight j = none → (b = true → s.breaker.state = .halfOpen ∨ s.breaker.state = .opened ∧
        JsNumber.le s.breaker.nextAttemptTime (.ofNat e.now) = true) → b = true → False := by
    intro i j a b hi ha hact hj hstate hb
    rw [Disciplined, hact] at hok
    rw [hok hj (hstate hb) i a hi] at ha
    cases ha
  intro i j a b hi hj ha hb
  rcases inFlight_step hi with hi | ⟨hacti, hfreshi, hstatei⟩
  · rcases inFlight_step hj with hj | ⟨hactj, hfreshj, hstatej⟩
    · exact h i j a b hi hj ha hb
    · exact (hstarted i j a _ hi ha hactj hfreshj hstatej hb).elim
  · rcases inFlight_step hj with hj | ⟨hactj, hfreshj, hstatej⟩
    · exact (hstarted j i b _ hj hb hacti hfreshi hstatei ha).elim
    · rw [hacti] at hactj
      cases hactj
      rfl

/- A probe that starts while another one is in flight makes two. -/
theorem disciplined_of_oneProbe (hclosed : s.ClosedByFresh e)
    (hone : (s.step e).breaker.state = .halfOpen → (s.step e).OneProbe) : s.Disciplined e := by
  unfold Disciplined
  split
  · rename_i op hact
    intro hfresh hstate i a hi
    by_contra hprobe
    have hstep : (s.step e).breaker.state = .halfOpen ∧
        (s.step e).inFlight = Function.update s.inFlight op (some ⟨s.openings, true⟩) := by
      simp only [step, hact, if_pos hfresh, enter, CircuitBreaker.execute]
      rcases hstate with hhalf | ⟨hopened, hdue⟩
      · simp [hhalf]
      · simp [hopened, hdue, CircuitBreaker.transitionState]
    obtain ⟨hhalf, hflight⟩ := hstep
    have hne : i ≠ op := by
      intro heq
      rw [heq, hfresh] at hi
      cases hi
    refine hne (hone hhalf i op a ⟨s.openings, true⟩ ?_ ?_ ?_ rfl)
    · rw [hflight, Function.update_of_ne hne]
      exact hi
    · rw [hflight, Function.update_self]
    · simpa using hprobe
  · rename_i op response hact
    intro hhalf a hflight
    have hafter : (s.step e).breaker.state = .closed := by
      simp [step, hact, hflight, leave, CircuitBreaker.onSuccess, hhalf,
        CircuitBreaker.transitionState]
    obtain ⟨op', response', a', hact', hflight', heq⟩ :=
      hclosed (by rw [hhalf]; rintro ⟨⟩) hafter (by rw [hact]; rintro ⟨⟩)
    rw [hact] at hact'
    cases hact'
    rw [hflight] at hflight'
    cases hflight'
    exact heq
  · trivial

end HalfOpen

end Traffic

theorem recoveryTimeout_ne_nan {ρ : Type} (options : CircuitBreakerOptions ρ) (now : ℕ) :
    (CircuitBreaker.construct options now).recoveryTimeout ≠ .nan := by
  unfold CircuitBreaker.construct numberOr
  intro h
  dsimp only at h
  split at h
  · split_ifs at h with htruthy
    rw [h] at htruthy
    cases htruthy
  · cases h

def sampleOptions : CircuitBreakerOptions Unit := ⟨some "soroban", some (.fin 1), some (.fin 1000), none⟩

/- Operations 0 and 1 overlap, 0 fails, 2 is the probe, 3 comes beside it and 1 succeeds. -/
def overlapping : List (BreakerEvent ℕ Unit) :=
  [⟨0, .execute 0⟩, ⟨1, .execute 1⟩, ⟨5, .fail 0 ⟨"timeout", none⟩⟩, ⟨1005, .execute 2⟩,
    ⟨1006, .execute 3⟩, ⟨1007, .succeed 1 ()⟩]

/-- Over every interleaving: the breaker is closed only by operations started after it last
opened and has one probe in flight at most while half-open, exactly when no probe is started
beside another and no operation from before the opening succeeds in the half-open state. -/
theorem half_open_discipline_iff {ι ρ : Type} [DecidableEq ι] (options : CircuitBreakerOptions ρ)
    (created : ℕ) (es : List (BreakerEvent ι ρ)) :
    ((∀ pre e post, es = pre ++ e :: post →
        (run Traffic.step (Traffic.start options created) pre).ClosedByFresh e) ∧
      ∀ pre, pre <+: es →
        (run Traffic.step (Traffic.start options created) pre).breaker.state = .halfOpen →
        (run Traffic.step (Traffic.start options created) pre).OneProbe) ↔
    Along Traffic.step Traffic.Disciplined (Traffic.start options created) es := by
  rw [along_iff_forall]
  constructor
  · intro h pre e post hes
    refine Traffic.disciplined_of_oneProbe (h.1 pre e post hes) ?_
    have hprefix : pre ++ [e] <+: es := ⟨post, by rw [hes]; simp⟩
    have hone := h.2 (pre ++ [e]) hprefix
    rw [run_append] at hone
    exact hone
  · intro hok
    refine ⟨fun pre e post hes => Traffic.closedByFresh_of_disciplined (hok pre e post hes), ?_⟩
    intro pre hpre _
    obtain ⟨post, rfl⟩ := hpre
    refine run_invariant Traffic.step Traffic.Disciplined Traffic.OneProbe
      (fun s e h hoke => h.step hoke) _ pre ?_ ?_
    · intro i j a b hi
      cases hi
    · rw [along_iff_forall]
      intro pre' e mid hpre
      exact hok pre' e (mid ++ post) (by rw [hpre]; simp)

theorem overlapping_breaks_discipline :
    ¬ ((∀ pre e post, overlapping = pre ++ e :: post →
        (run Traffic.step (Traffic.start sampleOptions 0) pre).ClosedByFresh e) ∧
      ∀ pre, pre <+: overlapping →
        (run Traffic.step (Traffic.start sampleOptions 0) pre).breaker.state = .halfOpen →
        (run Traffic.step (Traffic.start sampleOptions 0) pre).OneProbe) := by
  intro h
  have hone := h.2 (overlapping.take 5) (List.take_prefix 5 _) (by decide +kernel)
  exact absurd (hone 2 3 ⟨1, true⟩ ⟨1, true⟩ (by decide +kernel) (by decide +kernel) rfl rfl)
    (by decide)

end Liquifact.Utils
