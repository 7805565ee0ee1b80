import Mathlib.Tactic.Common

/-!
# Runs of a deterministic step function

Everything a run does not determine itself (arguments, clock readings, random
draws, the database's choices) is carried by the action, so that one run is one
list of actions. `Along ok` says that each action of the run is admissible in
the state in which it is taken.
-/

namespace Liquifact.Lib

section Run
variable {σ α : Type} (step : σ → α → σ)

def run (s : σ) (as : List α) : σ := as.foldl step s

def Along (ok : σ → α → Prop) : σ → List α → Prop
  | _, [] => True
  | s, a :: as => ok s a ∧ Along ok (step s a) as

@[simp] theorem run_cons (s : σ) (a : α) (as : List α) :
    run step s (a :: as) = run step (step s a) as := rfl

theorem run_append (s : σ) (as bs : List α) :
    run step s (as ++ bs) = run step (run step s as) bs :=
  List.foldl_append

theorem along_of_mem {P : α → Prop} (s : σ) (as : List α) (h : ∀ a ∈ as, P a) :
    Along step (fun _ a => P a) s as := by
  induction as generalizing s with
  | nil => trivial
  | cons a as ih =>
    have hrest : ∀ b ∈ as, P b := fun b hb => h b (List.mem_cons_of_mem _ hb)
    exact ⟨h a (List.mem_cons_self ..), ih (step s a) hrest⟩

theorem along_iff_forall (ok : σ → α → Prop) (s : σ) (as : List α) :
    Along step ok s as ↔ ∀ pre a post, as = pre ++ a :: post → ok (run step s pre) a := by
  induction as generalizing s with
  | nil =>
    refine ⟨fun _ pre a post h => ?_, fun _ => trivial⟩
    simp at h
  | cons b as ih =>
    constructor
    · rintro ⟨hok, hrest⟩ pre a post h
      cases pre with
      | nil =>
        obtain ⟨rfl, -⟩ := List.cons.inj h
        exact hok
      | cons c pre =>
        obtain ⟨rfl, htail⟩ := List.cons.inj h
        exact (ih (step s b)).mp hrest pre a post htail
    · intro h
      refine ⟨h [] b as rfl, (ih (step s b)).mpr fun pre a post htail => ?_⟩
      exact h (b :: pre) a post (by rw [htail, List.cons_append])

/- Invariant rule: what every admissible step keeps, every admissible run keeps. -/
theorem run_invariant (ok : σ → α → Prop) (I : σ → Prop)
    (hstep : ∀ s a, I s → ok s a → I (step s a)) (s : σ) (as : List α)
    (h0 : I s) (ha : Along step ok s as) : I (run step s as) := by
  induction as generalizing s with
  | nil => exact h0
  | cons a as ih => exact ih (step s a) (hstep s a h0 ha.1) ha.2

/- The rule for what every step keeps. -/
theorem run_keeps (I : σ → Prop) (hstep : ∀ s a, I s → I (step s a)) (s : σ) (as : List α)
    (h0 : I s) : I (run step s as) :=
  run_invariant step (fun _ _ => True) I (fun s a hs _ => hstep s a hs) s as h0
    (along_of_mem step s as fun _ _ => trivial)

/- Frame rule: a reflexive and transitive relation that every admissible step
from an invariant state respects relates the two ends of every admissible run. -/
theorem run_relation (ok : σ → α → Prop) (I : σ → Prop) (R : σ → σ → Prop)
    (hrefl : ∀ s, R s s) (htrans : ∀ s t u, R s t → R t u → R s u)
    (hinv : ∀ s a, I s → ok s a → I (step s a)) (hstep : ∀ s a, I s → ok s a → R s (step s a))
    (s : σ) (as : List α) (h0 : I s) (ha : Along step ok s as) : R s (run step s as) := by
  induction as generalizing s with
  | nil => exact hrefl s
  | cons a as ih =>
    have hone := hstep s a h0 ha.1
    have hrest := ih (step s a) (hinv s a h0 ha.1) ha.2
    exact htrans s (step s a) _ hone hrest

/- A property that turns from false to true along a run turns at one of its steps. -/
theorem run_turns (P : σ → Prop) (s : σ) (as : List α) (h0 : ¬ P s) (h1 : P (run step s as)) :
    ∃ pre a post, as = pre ++ a :: post ∧ ¬ P (run step s pre) ∧ P (step (run step s pre) a) := by
  induction as generalizing s with
  | nil => exact absurd h1 h0
  | cons a as ih =>
    by_cases hp : P (step s a)
    · exact ⟨[], a, as, rfl, h0, hp⟩
    · obtain ⟨pre, b, post, has, hn, hb⟩ := ih (step s a) hp h1
      exact ⟨a :: pre, b, post, by rw [has, List.cons_append], hn, hb⟩

/- What each step keeps exactly when it is admissible holds in every state of a run exactly
when the run is admissible. -/
theorem forall_prefix_iff_along (ok : σ → α → Prop) (P : σ → Prop)
    (hstep : ∀ s a, P s → (P (step s a) ↔ ok s a)) (s : σ) (as : List α) (h0 : P s) :
    (∀ pre, pre <+: as → P (run step s pre)) ↔ Along step ok s as := by
  induction as generalizing s with
  | nil =>
    refine ⟨fun _ => trivial, fun _ pre hpre => ?_⟩
    rw [List.prefix_nil.mp hpre]
    exact h0
  | cons a as ih =>
    constructor
    · intro h
      have h1 : P (step s a) := h [a] ((List.prefix_cons_inj a).mpr List.nil_prefix)
      refine ⟨(hstep s a h0).mp h1, (ih (step s a) h1).mp fun pre hpre => ?_⟩
      exact h (a :: pre) ((List.prefix_cons_inj a).mpr hpre)
    · rintro ⟨hok, hrest⟩ pre hpre
      have h1 : P (step s a) := (hstep s a h0).mpr hok
      cases pre with
      | nil => exact h0
      | cons b pre =>
        obtain ⟨rfl, htail⟩ := List.cons_prefix_cons.mp hpre
        exact (ih (step s b) h1).mpr hrest pre htail

/- The same along runs that satisfy a premise, with an invariant that implies the property:
a step that is not admissible breaks the property. -/
theorem forall_prefix_iff_along_of (premise ok : σ → α → Prop) (I P : σ → Prop)
    (himp : ∀ s, I s → P s) (hkeep : ∀ s a, I s → premise s a → ok s a → I (step s a))
    (hbreak : ∀ s a, I s → premise s a → P (step s a) → ok s a) (s : σ) (as : List α) (h0 : I s)
    (hpre : Along step premise s as) :
    (∀ pre, pre <+: as → P (run step s pre)) ↔ Along step ok s as := by
  induction as generalizing s with
  | nil =>
    refine ⟨fun _ => trivial, fun _ pre hprefix => ?_⟩
    rw [List.prefix_nil.mp hprefix]
    exact himp s h0
  | cons a as ih =>
    constructor
    · intro h
      have h1 : P (step s a) := h [a] ((List.prefix_cons_inj a).mpr List.nil_prefix)
      have hok := hbreak s a h0 hpre.1 h1
      refine ⟨hok, (ih (step s a) (hkeep s a h0 hpre.1 hok) hpre.2).mp fun pre hprefix => ?_⟩
      exact h (a :: pre) ((List.prefix_cons_inj a).mpr hprefix)
    · rintro ⟨hok, hrest⟩ pre hprefix
      cases pre with
      | nil => exact himp s h0
      | cons b pre =>
        obtain ⟨rfl, htail⟩ := List.cons_prefix_cons.mp hprefix
        exact (ih (step s b) (hkeep s b h0 hpre.1 hok) hpre.2).mpr hrest pre htail

/- Two conditions that agree on admissible steps from invariant states, one of which keeps
the invariant, hold along the same admissible runs. -/
theorem along_iff_along (I : σ → Prop) (premise P Q : σ → α → Prop)
    (hiff : ∀ s a, I s → premise s a → (P s a ↔ Q s a))
    (hkeep : ∀ s a, I s → premise s a → P s a → I (step s a)) (s : σ) (as : List α) (h0 : I s)
    (hpre : Along step premise s as) : Along step P s as ↔ Along step Q s as := by
  induction as generalizing s with
  | nil => exact Iff.rfl
  | cons a as ih =>
    constructor
    · intro h
      have hnext := hkeep s a h0 hpre.1 h.1
      exact ⟨(hiff s a h0 hpre.1).mp h.1, (ih (step s a) hnext hpre.2).mp h.2⟩
    · intro h
      have hhere := (hiff s a h0 hpre.1).mpr h.1
      exact ⟨hhere, (ih (step s a) (hkeep s a h0 hpre.1 hhere) hpre.2).mpr h.2⟩

theorem along_iff_of_invariant (I : σ → Prop) (P Q : σ → α → Prop)
    (hiff : ∀ s a, I s → (P s a ↔ Q s a)) (hkeep : ∀ s a, I s → I (step s a)) (s : σ) (as : List α)
    (h0 : I s) : Along step P s as ↔ Along step Q s as :=
  along_iff_along step I (fun _ _ => True) P Q (fun s a hs _ => hiff s a hs)
    (fun s a hs _ _ => hkeep s a hs) s as h0 (along_of_mem step s as fun _ _ => trivial)

/- A run seen through a projection that the steps respect. -/
theorem run_map {τ : Type} {step' : τ → α → τ} {f : σ → τ}
    (h : ∀ s a, f (step s a) = step' (f s) a) (s : σ) (as : List α) :
    f (run step s as) = run step' (f s) as := by
  induction as generalizing s with
  | nil => rfl
  | cons a as ih => rw [run_cons, run_cons, ih, h]

end Run

end Liquifact.Lib
