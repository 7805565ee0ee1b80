import Mathlib.Algebra.BigOperators.Group.List.Basic
import Mathlib.Algebra.GroupWithZero.Nat
import Mathlib.Data.List.Basic
import Mathlib.Tactic.Common

/-!
# Texts joined by a separator

Segments joined by a separator that they may contain themselves can be cut in another way.
`Recuts` describes how two lists of segments of one length come to the same text without
being the same: at the first place where they differ, one segment is the other followed by
the separator and some text `d`, and what follows the shorter one begins with `d` and the
separator.
-/

namespace Liquifact.Lib

def joined (sep : Char) : List String → String
  | [] => ""
  | [s] => s
  | s :: t :: rest => s ++ (String.singleton sep ++ joined sep (t :: rest))

/- `a` and `x`, `b` and `y` are joined to the same text, and `b` is the longer one. -/
def Recut (sep : Char) (a x b y : String) : Prop :=
  ∃ d, b = a ++ (String.singleton sep ++ d) ∧ x = d ++ (String.singleton sep ++ y)

def Recuts (sep : Char) : List String → List String → Prop
  | a :: x :: as, b :: y :: bs =>
    Recut sep a (joined sep (x :: as)) b (joined sep (y :: bs)) ∨
      Recut sep b (joined sep (y :: bs)) a (joined sep (x :: as)) ∨
      a = b ∧ Recuts sep (x :: as) (y :: bs)
  | _, _ => False

theorem append_sep_toList (sep : Char) (a x : String) :
    (a ++ (String.singleton sep ++ x)).toList = a.toList ++ sep :: x.toList := by
  simp

/- The longer of two first segments is the other one, or it reaches past the separator. -/
theorem recut_of_append {sep : Char} {a x b y : String} {d : List Char}
    (hb : b.toList = a.toList ++ d) (hx : sep :: x.toList = d ++ sep :: y.toList) :
    (a = b ∧ x = y) ∨ Recut sep a x b y := by
  cases d with
  | nil =>
    rw [List.append_nil] at hb
    obtain ⟨-, hxy⟩ := List.cons.inj hx
    exact .inl ⟨String.toList_inj.mp hb.symm, String.toList_inj.mp hxy⟩
  | cons c d =>
    obtain ⟨rfl, hx'⟩ := List.cons.inj hx
    refine .inr ⟨String.ofList d, ?_, ?_⟩
    · apply String.toList_inj.mp
      rw [append_sep_toList, String.toList_ofList]
      exact hb
    · apply String.toList_inj.mp
      rw [append_sep_toList, String.toList_ofList]
      exact hx'

theorem append_sep_eq_iff (sep : Char) (a x b y : String) :
    a ++ (String.singleton sep ++ x) = b ++ (String.singleton sep ++ y) ↔
      (a = b ∧ x = y) ∨ Recut sep a x b y ∨ Recut sep b y a x := by
  constructor
  · intro h
    have hl := congrArg String.toList h
    rw [append_sep_toList, append_sep_toList, List.append_eq_append_iff] at hl
    rcases hl with ⟨d, hb, hx⟩ | ⟨d, ha, hy⟩
    · rcases recut_of_append hb hx with heq | hcut
      · exact .inl heq
      · exact .inr (.inl hcut)
    · rcases recut_of_append ha hy with heq | hcut
      · exact .inl ⟨heq.1.symm, heq.2.symm⟩
      · exact .inr (.inr hcut)
  · rintro (⟨rfl, rfl⟩ | ⟨d, rfl, rfl⟩ | ⟨d, rfl, rfl⟩)
    · rfl
    · simp only [String.append_assoc]
    · simp only [String.append_assoc]

/- What a recut changes is one of the texts. -/
theorem not_recuts_self (sep : Char) (as : List String) : ¬ Recuts sep as as := by
  induction as with
  | nil => exact id
  | cons a as ih =>
    cases as with
    | nil => exact id
    | cons x as =>
      have hnot : ∀ y, ¬ Recut sep a y a y := by
        rintro y ⟨d, ha, -⟩
        have hlen := congrArg (fun s => s.toList.length) ha
        simp only [append_sep_toList, List.length_append, List.length_cons] at hlen
        omega
      rintro (hcut | hcut | ⟨-, hrest⟩)
      · exact hnot _ hcut
      · exact hnot _ hcut
      · exact ih hrest

theorem joined_eq_iff (sep : Char) (as bs : List String) (h : as.length = bs.length) :
    joined sep as = joined sep bs ↔ as = bs ∨ Recuts sep as bs := by
  induction as generalizing bs with
  | nil =>
    cases bs with
    | nil => simp
    | cons b bs => simp at h
  | cons a as ih =>
    cases bs with
    | nil => simp at h
    | cons b bs =>
      have hlen : as.length = bs.length := by simpa using h
      cases as with
      | nil =>
        cases bs with
        | nil => simp [joined, Recuts]
        | cons y bs => simp at hlen
      | cons x as =>
        cases bs with
        | nil => simp at hlen
        | cons y bs =>
          have hrest := ih (y :: bs) hlen
          simp only [joined, Recuts]
          rw [append_sep_eq_iff, hrest, List.cons.injEq a]
          constructor
          · rintro (⟨hab, hsame | hcuts⟩ | hcut | hcut)
            · exact .inl ⟨hab, hsame⟩
            · exact .inr (.inr (.inr ⟨hab, hcuts⟩))
            · exact .inr (.inl hcut)
            · exact .inr (.inr (.inl hcut))
          · rintro (⟨hab, hsame⟩ | hcut | hcut | ⟨hab, hcuts⟩)
            · exact .inl ⟨hab, .inl hsame⟩
            · exact .inr (.inl hcut)
            · exact .inr (.inr hcut)
            · exact .inl ⟨hab, .inr hcuts⟩

/- A segment without the separator ends at the first one. -/
theorem append_sep_inj {sep : Char} {a x b y : String} (ha : sep ∉ a.toList) (hb : sep ∉ b.toList)
    (h : a ++ (String.singleton sep ++ x) = b ++ (String.singleton sep ++ y)) : a = b ∧ x = y := by
  rcases (append_sep_eq_iff sep a x b y).mp h with hsame | ⟨d, rfl, -⟩ | ⟨d, rfl, -⟩
  · exact hsame
  · exact absurd (by rw [append_sep_toList]; simp) hb
  · exact absurd (by rw [append_sep_toList]; simp) ha

/- A last segment without the separator begins after the last one. -/
theorem append_sep_inj_last {sep : Char} {a x b y : String} (hx : sep ∉ x.toList)
    (hy : sep ∉ y.toList) (h : a ++ (String.singleton sep ++ x) = b ++ (String.singleton sep ++ y)) :
    a = b ∧ x = y := by
  rcases (append_sep_eq_iff sep a x b y).mp h with hsame | ⟨d, -, rfl⟩ | ⟨d, -, rfl⟩
  · exact hsame
  · exact absurd (by rw [append_sep_toList]; simp) hx
  · exact absurd (by rw [append_sep_toList]; simp) hy

end Liquifact.Lib
