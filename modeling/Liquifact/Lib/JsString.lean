import Mathlib.Data.List.Lex
import Mathlib.Tactic.Common

/-!
# ECMAScript strings and their order

`<` on strings compares UTF-16 code units, not code points: a character outside the
basic plane is two surrogates, which lie below U+E000. Equal code units are equal
strings, so the comparison is total.
-/

namespace Liquifact.Lib

def codeUnits (c : Char) : List ℕ :=
  if c.toNat < 0x10000 then [c.toNat]
  else [0xD800 + (c.toNat - 0x10000) / 0x400, 0xDC00 + (c.toNat - 0x10000) % 0x400]

def utf16 (s : String) : List ℕ := s.toList.flatMap codeUnits

def jsLt (s t : String) : Bool := decide (utf16 s < utf16 t)

theorem toNat_bounds (c : Char) : (c.toNat < 0xD800 ∨ 0xDFFF < c.toNat) ∧ c.toNat < 0x110000 := by
  have hvalid := c.valid
  simp only [UInt32.isValidChar, Nat.isValidChar] at hvalid
  have hnat : c.toNat = c.val.toNat := rfl
  omega

/- The code is prefix-free: what follows it is determined. -/
theorem codeUnits_append_inj {c d : Char} {l m : List ℕ}
    (h : codeUnits c ++ l = codeUnits d ++ m) : c = d ∧ l = m := by
  obtain ⟨hc, hcm⟩ := toNat_bounds c
  obtain ⟨hd, hdm⟩ := toNat_bounds d
  unfold codeUnits at h
  split at h <;> split at h <;>
    simp only [List.cons_append, List.nil_append, List.cons.injEq] at h
  · exact ⟨Char.toNat_inj.mp h.1, h.2⟩
  · omega
  · omega
  · obtain ⟨hhigh, hlow, hrest⟩ := h
    exact ⟨Char.toNat_inj.mp (by omega), hrest⟩

theorem codeUnits_ne_nil (c : Char) : codeUnits c ≠ [] := by
  unfold codeUnits
  split <;> simp

theorem flatMap_codeUnits_inj {cs ds : List Char}
    (h : cs.flatMap codeUnits = ds.flatMap codeUnits) : cs = ds := by
  induction cs generalizing ds with
  | nil =>
    cases ds with
    | nil => rfl
    | cons d ds =>
      simp only [List.flatMap_nil, List.flatMap_cons] at h
      exact absurd (List.append_eq_nil_iff.mp h.symm).1 (codeUnits_ne_nil d)
  | cons c cs ih =>
    cases ds with
    | nil =>
      simp only [List.flatMap_nil, List.flatMap_cons] at h
      exact absurd (List.append_eq_nil_iff.mp h).1 (codeUnits_ne_nil c)
    | cons d ds =>
      simp only [List.flatMap_cons] at h
      obtain ⟨hcd, hrest⟩ := codeUnits_append_inj h
      rw [hcd, ih hrest]

theorem utf16_injective {s t : String} (h : utf16 s = utf16 t) : s = t :=
  String.toList_injective (flatMap_codeUnits_inj h)

end Liquifact.Lib
