import Mathlib.Tactic.Common

/-!
# Programs that ask and are answered

A program has ended, with a value or with an error, or it asks a query and goes on with the
answer, which may be an error too. `attempt` goes on with the way a program ended, as
`try … catch` does; `>>=` goes on with its value and lets an error through, as `await` does.

`Meets` says of a program that every query it asks is allowed where it is asked and that it
ends as it should, for all answers that `answers` describes; the state it speaks about is a
database, or a record of the answers so far. `Runs` are the finished conversations.
-/

namespace Liquifact.Lib

inductive Interaction (Q : Type) (R : Q → Type) (α : Type) where
  | done (r : Except String α)
  | ask (q : Q) (next : Except String (R q) → Interaction Q R α)

namespace Interaction

section Programs
variable {Q : Type} {R : Q → Type} {α β : Type}

def query (q : Q) : Interaction Q R (R q) := .ask q .done

def attempt (p : Interaction Q R α) (f : Except String α → Interaction Q R β) : Interaction Q R β :=
  match p with
  | .done r => f r
  | .ask q next => .ask q fun r => (next r).attempt f

def onValue (f : α → Interaction Q R β) : Except String α → Interaction Q R β
  | .ok a => f a
  | .error e => .done (.error e)

instance instMonad : Monad (Interaction Q R) where
  pure a := .done (.ok a)
  bind p f := p.attempt (onValue f)

/- A loop over a list, whose variables are the accumulator. -/
def forEach (body : β → α → Interaction Q R α) : List β → α → Interaction Q R α
  | [], a => .done (.ok a)
  | b :: bs, a => body b a >>= forEach body bs

def finished : Interaction Q R α → Bool
  | .done _ => true
  | .ask _ _ => false

end Programs

section Specifications
variable {Q : Type} {R : Q → Type} {σ α β : Type} (allowed : σ → Q → Prop)
  (answers : σ → (q : Q) → Except String (R q) → σ → Prop)

def Meets (post : σ → Except String α → Prop) : Interaction Q R α → σ → Prop
  | .done r, s => post s r
  | .ask q next, s => allowed s q ∧ ∀ r s', answers s q r s' → (next r).Meets post s'

/- A condition on the value or on the error. -/
def either (returned : σ → α → Prop) (thrown : σ → String → Prop) (s : σ) : Except String α → Prop
  | .ok a => returned s a
  | .error e => thrown s e

variable {allowed answers}

theorem meets_query {post : σ → Except String α → Prop} {q : Q}
    {f : Except String (R q) → Interaction Q R α} {s : σ} (hq : allowed s q)
    (h : ∀ r s', answers s q r s' → (f r).Meets allowed answers post s') :
    ((query q).attempt f).Meets allowed answers post s :=
  ⟨hq, h⟩

theorem meets_attempt {post : σ → Except String β → Prop} {f : Except String α → Interaction Q R β}
    (p : Interaction Q R α) (s : σ)
    (h : p.Meets allowed answers (fun s' r => (f r).Meets allowed answers post s') s) :
    (p.attempt f).Meets allowed answers post s := by
  induction p generalizing s with
  | done r => exact h
  | ask q next ih => exact ⟨h.1, fun r s' hr => ih r s' (h.2 r s' hr)⟩

theorem meets_mono {post post' : σ → Except String α → Prop} (hpost : ∀ s r, post s r → post' s r)
    (p : Interaction Q R α) (s : σ) (h : p.Meets allowed answers post s) :
    p.Meets allowed answers post' s := by
  induction p generalizing s with
  | done r => exact hpost s r h
  | ask q next ih => exact ⟨h.1, fun r s' hr => ih r s' (h.2 r s' hr)⟩

theorem meets_bind {post : σ → Except String β → Prop} {f : α → Interaction Q R β}
    (p : Interaction Q R α) (s : σ)
    (h : p.Meets allowed answers (either (fun s' a => (f a).Meets allowed answers post s')
      (fun s' e => post s' (.error e))) s) :
    (p >>= f).Meets allowed answers post s := by
  refine meets_attempt p s (meets_mono ?_ p s h)
  intro s' r hr
  cases r with
  | ok a => exact hr
  | error e => exact hr

theorem meets_query_bind {post : σ → Except String α → Prop} {q : Q} {f : R q → Interaction Q R α}
    {s : σ} (hq : allowed s q)
    (hok : ∀ a s', answers s q (.ok a) s' → (f a).Meets allowed answers post s')
    (herror : ∀ e s', answers s q (.error e) s' → post s' (.error e)) :
    (query q >>= f).Meets allowed answers post s := by
  refine ⟨hq, fun r s' hr => ?_⟩
  cases r with
  | ok a => exact hok a s' hr
  | error e => exact herror e s' hr

/- Loop rule: the body keeps the invariant when it returns, and says what it throws. -/
theorem meets_forEach {body : β → α → Interaction Q R α} (I : List β → σ → α → Prop)
    (thrown : σ → String → Prop)
    (hbody : ∀ b bs a s, I (b :: bs) s a →
      (body b a).Meets allowed answers (either (I bs) thrown) s)
    (bs : List β) (a : α) (s : σ) (h : I bs s a) :
    (forEach body bs a).Meets allowed answers (either (I []) thrown) s := by
  induction bs generalizing a s with
  | nil => exact h
  | cons b bs ih =>
    refine meets_bind (body b a) s (meets_mono ?_ _ _ (hbody b bs a s h))
    intro s' r hr
    cases r with
    | ok a' => exact ih a' s' hr
    | error e => exact hr

theorem Meets.of_finished {post : σ → Except String α → Prop} {p : Interaction Q R α} {s : σ}
    (h : p.Meets allowed answers post s) (hp : p.finished = true) : ∃ r, p = .done r ∧ post s r := by
  cases p with
  | done r => exact ⟨r, rfl, h⟩
  | ask q next => cases hp

/- The finished conversations of a program. -/
inductive Runs (answers : σ → (q : Q) → Except String (R q) → σ → Prop) :
    Interaction Q R α → σ → Except String α → σ → Prop where
  | done (r : Except String α) (s : σ) : Runs answers (.done r) s r s
  | ask {q : Q} {next : Except String (R q) → Interaction Q R α} {s s' s'' : σ}
      {r : Except String (R q)} {result : Except String α} (hr : answers s q r s')
      (hrest : Runs answers (next r) s' result s'') : Runs answers (.ask q next) s result s''

theorem Runs.mono {answers' : σ → (q : Q) → Except String (R q) → σ → Prop}
    (h : ∀ s q r s', answers s q r s' → answers' s q r s') {p : Interaction Q R α} {s s' : σ}
    {result : Except String α} (hruns : Runs answers p s result s') : Runs answers' p s result s' := by
  induction hruns with
  | done r s => exact .done r s
  | ask hr _ ih => exact .ask (h _ _ _ _ hr) ih

theorem post_of_runs {post : σ → Except String α → Prop} {p : Interaction Q R α} {s s' : σ}
    {result : Except String α} (hruns : Runs answers p s result s')
    (h : p.Meets allowed answers post s) : post s' result := by
  induction hruns with
  | done r s => exact h
  | ask hr _ ih => exact ih (h.2 _ _ hr)

theorem exists_runs (htotal : ∀ s q, ∃ r s', answers s q r s') (p : Interaction Q R α) (s : σ) :
    ∃ result s', Runs answers p s result s' := by
  induction p generalizing s with
  | done r => exact ⟨r, s, .done r s⟩
  | ask q next ih =>
    obtain ⟨r, s', hr⟩ := htotal s q
    obtain ⟨result, s'', hrest⟩ := ih r s'
    exact ⟨result, s'', .ask hr hrest⟩

end Specifications

end Interaction

end Liquifact.Lib
