import Liquifact.Lib.JsonText
import Mathlib.Data.List.Perm.Basic

/-!
# JSON values up to the order of object members

`Json.Alike` relates values that differ only in the order in which their objects, at any
depth, list their members. Values over finite numbers are determined by their text.
-/

namespace Liquifact.Lib

section Over

variable {P : JsNumber → Prop}

/-- Values whose numbers are finite and read back are determined by their text. -/
theorem Json.stringify_inj (hfin : ∀ x, P x → ∃ q, x = .fin q)
    (hread : ∀ q, P (.fin q) → ReadsBack (.fin q)) {v w : Json} (hv : v.Over P) (hw : w.Over P)
    (h : v.stringify = w.stringify) : v = w := by
  have hparse := Json.parse_stringify_normal hread v hv
  rw [h, Json.parse_stringify_normal hread w hw, normal_of_finite hfin v hv,
    normal_of_finite hfin w hw] at hparse
  exact (Option.some.inj hparse).symm

end Over

/-! ### Values that differ in the order of members only -/

mutual

def Json.Alike : Json → Json → Prop
  | .arr vs, w => ∃ ws, w = .arr ws ∧ AlikeItems vs ws
  | .obj ms, w => ∃ ns ns', w = .obj ns ∧ ns'.Perm ns ∧ AlikeMembers ms ns'
  | v, w => v = w

def AlikeItems : List Json → List Json → Prop
  | [], ws => ws = []
  | v :: vs, ws => ∃ w ws', ws = w :: ws' ∧ v.Alike w ∧ AlikeItems vs ws'

/- The same names in the same order, with values that are alike. -/
def AlikeMembers : List (String × Json) → List (String × Json) → Prop
  | [], ns => ns = []
  | (k, v) :: ms, ns => ∃ w ns', ns = (k, w) :: ns' ∧ v.Alike w ∧ AlikeMembers ms ns'

end

theorem alikeItems_iff (vs ws : List Json) : AlikeItems vs ws ↔ List.Forall₂ Json.Alike vs ws := by
  induction vs generalizing ws with
  | nil => rw [AlikeItems, List.forall₂_nil_left_iff]
  | cons v vs ih =>
    rw [AlikeItems, List.forall₂_cons_left_iff]
    constructor
    · rintro ⟨w, ws', rfl, hv, hvs⟩
      exact ⟨w, ws', hv, (ih ws').mp hvs, rfl⟩
    · rintro ⟨w, ws', hv, hvs, rfl⟩
      exact ⟨w, ws', rfl, hv, (ih ws').mpr hvs⟩

theorem alikeMembers_iff (ms ns : List (String × Json)) :
    AlikeMembers ms ns ↔ List.Forall₂ (fun m n => m.1 = n.1 ∧ m.2.Alike n.2) ms ns := by
  induction ms generalizing ns with
  | nil => rw [AlikeMembers, List.forall₂_nil_left_iff]
  | cons m ms ih =>
    rw [AlikeMembers, List.forall₂_cons_left_iff]
    constructor
    · rintro ⟨w, ns', rfl, hv, hvs⟩
      exact ⟨(m.1, w), ns', ⟨rfl, hv⟩, (ih ns').mp hvs, rfl⟩
    · rintro ⟨n, ns', ⟨hname, hv⟩, hvs, rfl⟩
      exact ⟨n.2, ns', by rw [hname], hv, (ih ns').mpr hvs⟩

theorem alike_arr {vs ws : List Json} :
    (Json.arr vs).Alike (.arr ws) ↔ List.Forall₂ Json.Alike vs ws := by
  rw [Json.Alike]
  constructor
  · rintro ⟨ws', hws, h⟩
    cases hws
    exact (alikeItems_iff vs ws).mp h
  · intro h
    exact ⟨ws, rfl, (alikeItems_iff vs ws).mpr h⟩

theorem alike_obj {ms ns : List (String × Json)} :
    (Json.obj ms).Alike (.obj ns) ↔
      ∃ ns', ns'.Perm ns ∧ List.Forall₂ (fun m n => m.1 = n.1 ∧ m.2.Alike n.2) ms ns' := by
  rw [Json.Alike]
  constructor
  · rintro ⟨ns₀, ns', hns, hperm, h⟩
    cases hns
    exact ⟨ns', hperm, (alikeMembers_iff ms ns').mp h⟩
  · rintro ⟨ns', hperm, h⟩
    exact ⟨ns, ns', rfl, hperm, (alikeMembers_iff ms ns').mpr h⟩

/- A rearrangement of what a function makes of a list is made of a rearrangement. -/
theorem perm_map_iff {α β : Type} {f : α → β} {l : List β} {xs : List α} :
    l.Perm (xs.map f) ↔ ∃ ys : List α, ys.Perm xs ∧ l = ys.map f := by
  constructor
  · intro h
    have hmap : List.Forall₂ (fun b a => b = f a) (xs.map f) xs :=
      List.forall₂_map_left_iff.mpr (List.forall₂_same.mpr fun _ _ => rfl)
    obtain ⟨ys, hys, hperm⟩ := List.perm_comp_forall₂ h hmap
    refine ⟨ys, hperm, ?_⟩
    clear hperm hmap h
    induction hys with
    | nil => rfl
    | cons hhead _ ih => rw [hhead, ih, List.map_cons]
  · rintro ⟨ys, hperm, rfl⟩
    exact hperm.map f

end Liquifact.Lib
