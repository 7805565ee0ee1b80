import Liquifact.Lib.Interaction
import Liquifact.Lib.Run

/-!
# Programs that share a store

Each of any number of programs asks its queries of one store, which executes a query at once.
A step is the next query of one program, with what the store does not determine itself; a run
is any interleaving of the programs.

What is said of one program is said by `Meets`, about a record of its own answers. `Accounted`
joins these records with the store, and `run_alone` compares a run with the run of some of the
programs alone.
-/

namespace Liquifact.Lib

structure Concurrent (π σ Q : Type) (R : Q → Type) (α : Type) where
  store : σ
  program : π → Interaction Q R α

namespace Concurrent

section Steps
variable {π σ ε Q α : Type} {R : Q → Type}

/- The query a program stands at. -/
def asked (s : Concurrent π σ Q R α) (p : π) : Option Q :=
  match s.program p with
  | .done _ => none
  | .ask q _ => some q

theorem asked_ask {s : Concurrent π σ Q R α} {p : π} {q : Q}
    {next : Except String (R q) → Interaction Q R α} (h : s.program p = .ask q next) :
    s.asked p = some q := by
  simp only [asked, h]

variable [DecidableEq π] (execute : ε → σ → (q : Q) → Except String (R q) × σ)

def step (s : Concurrent π σ Q R α) (a : π × ε) : Concurrent π σ Q R α :=
  match s.program a.1 with
  | .done _ => s
  | .ask q next =>
    { store := (execute a.2 s.store q).2
      program := Function.update s.program a.1 (next (execute a.2 s.store q).1) }

variable {execute} {s : Concurrent π σ Q R α} {a : π × ε}

theorem step_done {r : Except String α} (h : s.program a.1 = .done r) : s.step execute a = s := by
  simp only [step, h]

theorem step_ask {q : Q} {next : Except String (R q) → Interaction Q R α}
    (h : s.program a.1 = .ask q next) : s.step execute a =
      ⟨(execute a.2 s.store q).2,
        Function.update s.program a.1 (next (execute a.2 s.store q).1)⟩ := by
  simp only [step, h]

theorem store_step {q : Q} (h : s.asked a.1 = some q) :
    (s.step execute a).store = (execute a.2 s.store q).2 := by
  unfold asked at h
  cases hp : s.program a.1 with
  | done r =>
    rw [hp] at h
    cases h
  | ask q' next =>
    rw [hp] at h
    cases h
    rw [step_ask hp]

end Steps

section Rules
variable {π σ ε γ Q α : Type} {R : Q → Type} [DecidableEq π]
  (execute : ε → σ → (q : Q) → Except String (R q) × σ)
  (allowed : π → γ → Q → Prop) (answers : γ → (q : Q) → Except String (R q) → γ → Prop)
  (J : (π → γ) → σ → Prop) (ok : σ → π → ε → Q → Prop)

/-- Each program asks what its record allows, and the records agree with the store. -/
def Accounted (s : Concurrent π σ Q R α) : Prop :=
  ∃ record : π → γ, (∀ p, (s.program p).Meets (allowed p) answers (fun _ _ => True) (record p)) ∧
    J record s.store

def Admissible (s : Concurrent π σ Q R α) (a : π × ε) : Prop :=
  ∀ q, s.asked a.1 = some q → ok s.store a.1 a.2 q

/- What one query does to the store and to the record of the program that asks it. -/
def Recorded : Prop :=
  ∀ record p e t q, J record t → allowed p (record p) q → ok t p e q →
    ∃ g, answers (record p) q (execute e t q).1 g ∧
      J (Function.update record p g) (execute e t q).2

variable {execute allowed answers J ok} {s : Concurrent π σ Q R α}

theorem Accounted.step (hrecorded : Recorded execute allowed answers J ok)
    (h : s.Accounted allowed answers J) {a : π × ε} (ha : s.Admissible ok a) :
    (s.step execute a).Accounted allowed answers J := by
  obtain ⟨record, hprogram, hstore⟩ := h
  cases hp : s.program a.1 with
  | done r =>
    rw [step_done hp]
    exact ⟨record, hprogram, hstore⟩
  | ask q next =>
    have hmeets := hprogram a.1
    rw [hp] at hmeets
    obtain ⟨g, hanswer, hstore'⟩ :=
      hrecorded record a.1 a.2 s.store q hstore hmeets.1 (ha q (asked_ask hp))
    rw [step_ask hp]
    refine ⟨Function.update record a.1 g, fun p => ?_, hstore'⟩
    by_cases hpa : p = a.1
    · subst hpa
      simp only [Function.update_self]
      exact hmeets.2 _ g hanswer
    · simp only [Function.update_of_ne hpa]
      exact hprogram p

/-- Invariant rule: what one query keeps, every interleaving keeps. -/
theorem run_accounted (hrecorded : Recorded execute allowed answers J ok)
    (h : s.Accounted allowed answers J) (as : List (π × ε))
    (ha : Along (step execute) (Admissible ok) s as) :
    (run (step execute) s as).Accounted allowed answers J :=
  run_invariant (step execute) (Admissible ok) (Accounted allowed answers J)
    (fun _ _ hs ha => hs.step hrecorded ha) s as h ha

variable (own : π → Prop) (alike : σ → σ → Prop)

/- The stores are alike and the own programs stand at the same point. -/
def Alike (s s' : Concurrent π σ Q R α) : Prop :=
  alike s.store s'.store ∧ ∀ p, own p → s.program p = s'.program p

/- A query of an own program is answered alike by stores that are alike, and leaves them alike. -/
def Private (execute : ε → σ → (q : Q) → Except String (R q) × σ) (allowed : π → γ → Q → Prop)
    (J : (π → γ) → σ → Prop) (ok : σ → π → ε → Q → Prop) : Prop :=
  ∀ record p e t t' q, own p → J record t → allowed p (record p) q → ok t p e q → alike t t' →
    (execute e t q).1 = (execute e t' q).1 ∧ alike (execute e t q).2 (execute e t' q).2

/- A query of another program is not noticed. -/
def Unnoticed (execute : ε → σ → (q : Q) → Except String (R q) × σ) (allowed : π → γ → Q → Prop)
    (J : (π → γ) → σ → Prop) (ok : σ → π → ε → Q → Prop) : Prop :=
  ∀ record p e t t' q, ¬ own p → J record t → allowed p (record p) q → ok t p e q → alike t t' →
    alike (execute e t q).2 t'

variable {own alike} {s' : Concurrent π σ Q R α}

theorem Alike.own_step (hprivate : Private own alike execute allowed J ok)
    (h : s.Accounted allowed answers J) {a : π × ε} (hown : own a.1) (ha : s.Admissible ok a)
    (halike : Alike own alike s s') :
    Alike own alike (s.step execute a) (s'.step execute a) := by
  obtain ⟨record, hprogram, hstore⟩ := h
  obtain ⟨hstores, hsame⟩ := halike
  cases hp : s.program a.1 with
  | done r =>
    rw [step_done hp, step_done ((hsame a.1 hown).symm.trans hp)]
    exact ⟨hstores, hsame⟩
  | ask q next =>
    have hmeets := hprogram a.1
    rw [hp] at hmeets
    obtain ⟨hanswer, hstores'⟩ := hprivate record a.1 a.2 s.store s'.store q hown hstore hmeets.1
      (ha q (asked_ask hp)) hstores
    rw [step_ask hp, step_ask ((hsame a.1 hown).symm.trans hp)]
    refine ⟨hstores', fun p hpo => ?_⟩
    by_cases hpa : p = a.1
    · subst hpa
      simp only [Function.update_self]
      rw [hanswer]
    · simp only [Function.update_of_ne hpa]
      exact hsame p hpo

theorem Alike.other_step (hunnoticed : Unnoticed own alike execute allowed J ok)
    (h : s.Accounted allowed answers J) {a : π × ε} (hown : ¬ own a.1) (ha : s.Admissible ok a)
    (halike : Alike own alike s s') : Alike own alike (s.step execute a) s' := by
  obtain ⟨record, hprogram, hstore⟩ := h
  obtain ⟨hstores, hsame⟩ := halike
  cases hp : s.program a.1 with
  | done r =>
    rw [step_done hp]
    exact ⟨hstores, hsame⟩
  | ask q next =>
    have hmeets := hprogram a.1
    rw [hp] at hmeets
    rw [step_ask hp]
    refine ⟨hunnoticed record a.1 a.2 s.store s'.store q hown hstore hmeets.1
      (ha q (asked_ask hp)) hstores, fun p hpo => ?_⟩
    have hpa : p ≠ a.1 := fun heq => hown (heq ▸ hpo)
    simp only [Function.update_of_ne hpa]
    exact hsame p hpo

variable [DecidablePred own]

/-- Every program of the own ones is, after any interleaving with the others, where it is after
the own steps alone. -/
theorem run_alone (hrecorded : Recorded execute allowed answers J ok)
    (hprivate : Private own alike execute allowed J ok)
    (hunnoticed : Unnoticed own alike execute allowed J ok) (as : List (π × ε))
    (h : s.Accounted allowed answers J) (ha : Along (step execute) (Admissible ok) s as)
    (halike : Alike own alike s s') :
    Alike own alike (run (step execute) s as)
      (run (step execute) s' (as.filter fun a => decide (own a.1))) := by
  induction as generalizing s s' with
  | nil => exact halike
  | cons a as ih =>
    have hnext := h.step hrecorded ha.1
    rw [run_cons]
    by_cases hown : own a.1
    · rw [List.filter_cons_of_pos (by simpa using hown), run_cons]
      exact ih hnext ha.2 (halike.own_step hprivate h hown ha.1)
    · rw [List.filter_cons_of_neg (by simpa using hown)]
      exact ih hnext ha.2 (halike.other_step hunnoticed h hown ha.1)

end Rules

end Concurrent

end Liquifact.Lib
