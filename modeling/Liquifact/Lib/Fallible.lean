import Mathlib.Tactic.Common

/-!
# Computations that may be refused

A refusal (a panic, a thrown error) is the `error` side of `Except` with its
text; the inversion rules below peel an accepted computation apart.
-/

namespace Liquifact.Lib

/-- `assert!` and guard clauses: go on when `c` holds, else refuse with `message`. -/
def require (c : Prop) [Decidable c] (message : String) : Except String Unit :=
  if c then .ok () else .error message

theorem require_ok {c : Prop} [Decidable c] {message : String} {u : Unit}
    (h : require c message = .ok u) : c := by
  unfold require at h
  split at h
  · assumption
  · cases h

theorem require_of {c : Prop} [Decidable c] {message : String} (h : c) : require c message = .ok () :=
  if_pos h

theorem bind_ok {ε α β : Type} {x : Except ε α} {f : α → Except ε β} {b : β}
    (h : (x >>= f) = .ok b) : ∃ a, x = .ok a ∧ f a = .ok b := by
  cases x with
  | error e => cases h
  | ok a => exact ⟨a, rfl, h⟩

theorem bind_of {ε α β : Type} {x : Except ε α} {f : α → Except ε β} {a : α} (h : x = .ok a) :
    (x >>= f) = f a := by
  rw [h]
  rfl

theorem map_ok {α β : Type} {f : α → β} {x : Except String α} {b : β} (h : x.map f = .ok b) :
    ∃ a, x = .ok a ∧ f a = b := by
  cases x with
  | error e => cases h
  | ok a =>
    cases h
    exact ⟨a, rfl, rfl⟩

def expect {α : Type} (message : String) : Option α → Except String α
  | none => .error message
  | some a => .ok a

theorem expect_ok {α : Type} {message : String} {o : Option α} {a : α}
    (h : expect message o = .ok a) : o = some a := by
  cases o with
  | none => cases h
  | some b =>
    cases h
    rfl

theorem expect_of {α : Type} {message : String} {o : Option α} {a : α} (h : o = some a) :
    expect message o = .ok a := by
  rw [h]
  rfl

end Liquifact.Lib
