import Liquifact.Lib.JsString
import Mathlib.Tactic.Linarith
import Mathlib.Tactic.Ring

/-!
# Decimal numerals in string order

Digit strings of any length, leading zeros allowed, compared as strings: the order is that
of the numbers after both strings are filled up with zeros on the right to one length, and
of two strings that are then equal the shorter one comes first.
-/

namespace Liquifact.Lib

def IsNumeral (s : String) : Prop := s ≠ "" ∧ ∀ c ∈ s.toList, c.isDigit = true

theorem isNumeral_repr (n : ℕ) : IsNumeral n.repr := by
  refine ⟨Nat.repr_ne_empty, fun c hc => ?_⟩
  rw [Nat.toList_repr] at hc
  exact Nat.isDigit_of_mem_toDigits (by omega) (by omega) hc

def numeralValue (s : String) : ℕ := Nat.ofDigitChars 10 s.toList 0

theorem ofDigitChars_repr (n : ℕ) : Nat.ofDigitChars 10 n.repr.toList 0 = n := by
  rw [Nat.toList_repr, Nat.ofDigitChars_ten_toDigits]

theorem numeralValue_repr (n : ℕ) : numeralValue n.repr = n := ofDigitChars_repr n

theorem repr_injective {m n : ℕ} (h : m.repr = n.repr) : m = n := by
  rw [← numeralValue_repr m, h, numeralValue_repr]

/- `s` has at most the leading digits of `t`. -/
def LeadsBelow (s t : String) : Prop :=
  numeralValue s * 10 ^ t.length < numeralValue t * 10 ^ s.length ∨
    (numeralValue s * 10 ^ t.length = numeralValue t * 10 ^ s.length ∧ s.length < t.length)

instance (s t : String) : Decidable (LeadsBelow s t) := by
  unfold LeadsBelow
  infer_instance

theorem digit_bounds {c : Char} (h : c.isDigit = true) : 48 ≤ c.toNat ∧ c.toNat ≤ 57 := by
  simpa [Char.isDigit, UInt32.le_iff_toNat_le] using h

theorem ofDigitChars_cons_zero (c : Char) (cs : List Char) :
    Nat.ofDigitChars 10 (c :: cs) 0 =
      10 ^ cs.length * (c.toNat - 48) + Nat.ofDigitChars 10 cs 0 := by
  rw [Nat.ofDigitChars_cons, Nat.ofDigitChars_eq_ofDigitChars_zero, Nat.mul_zero, Nat.zero_add]
  rfl

theorem ofDigitChars_lt {cs : List Char} (h : ∀ c ∈ cs, c.isDigit = true) :
    Nat.ofDigitChars 10 cs 0 < 10 ^ cs.length := by
  induction cs with
  | nil => simp
  | cons c cs ih =>
    have hc := digit_bounds (h c (List.mem_cons_self ..))
    have htail := ih fun d hd => h d (List.mem_cons_of_mem _ hd)
    have hd : 10 ^ cs.length * (c.toNat - 48) ≤ 10 ^ cs.length * 9 :=
      Nat.mul_le_mul_left _ (by omega)
    rw [ofDigitChars_cons_zero, List.length_cons, pow_succ]
    omega

/- One digit each, the rest below its place: the digits decide, or else the rests do. -/
theorem scaled_lt_iff {x y a b m n : ℕ} (ha : a < 10 ^ m) (hb : b < 10 ^ n) :
    ((10 ^ m * x + a) * 10 ^ (n + 1) < (10 ^ n * y + b) * 10 ^ (m + 1) ↔
      x < y ∨ x = y ∧ a * 10 ^ n < b * 10 ^ m) ∧
    ((10 ^ m * x + a) * 10 ^ (n + 1) = (10 ^ n * y + b) * 10 ^ (m + 1) ↔
      x = y ∧ a * 10 ^ n = b * 10 ^ m) := by
  have hleft : (10 ^ m * x + a) * 10 ^ (n + 1) = 10 * (10 ^ m * 10 ^ n * x + a * 10 ^ n) := by ring
  have hright : (10 ^ n * y + b) * 10 ^ (m + 1) = 10 * (10 ^ m * 10 ^ n * y + b * 10 ^ m) := by ring
  have ha' : a * 10 ^ n < 10 ^ m * 10 ^ n := Nat.mul_lt_mul_of_pos_right ha (by positivity)
  have hb' : b * 10 ^ m < 10 ^ m * 10 ^ n := by
    rw [Nat.mul_comm (10 ^ m)]
    exact Nat.mul_lt_mul_of_pos_right hb (by positivity)
  rw [hleft, hright]
  generalize a * 10 ^ n = A at ha' ⊢
  generalize b * 10 ^ m = B at hb' ⊢
  generalize 10 ^ m * 10 ^ n = K at ha' hb' ⊢
  rcases Nat.lt_trichotomy x y with h | rfl | h
  · have hstep : K * x + K ≤ K * y := by
      rw [← Nat.mul_succ]
      exact Nat.mul_le_mul_left K h
    constructor
    · exact ⟨fun _ => .inl h, fun _ => by omega⟩
    · exact ⟨fun he => by omega, fun he => by omega⟩
  · constructor
    · exact ⟨fun hlt => .inr ⟨rfl, by omega⟩, fun hlt => by omega⟩
    · exact ⟨fun he => ⟨rfl, by omega⟩, fun he => by omega⟩
  · have hstep : K * y + K ≤ K * x := by
      rw [← Nat.mul_succ]
      exact Nat.mul_le_mul_left K h
    constructor
    · exact ⟨fun hlt => by omega, fun hlt => by omega⟩
    · exact ⟨fun he => by omega, fun he => by omega⟩

theorem map_toNat_lt_iff {cs ds : List Char} (hcs : ∀ c ∈ cs, c.isDigit = true)
    (hds : ∀ c ∈ ds, c.isDigit = true) :
    cs.map Char.toNat < ds.map Char.toNat ↔
      Nat.ofDigitChars 10 cs 0 * 10 ^ ds.length < Nat.ofDigitChars 10 ds 0 * 10 ^ cs.length ∨
      (Nat.ofDigitChars 10 cs 0 * 10 ^ ds.length = Nat.ofDigitChars 10 ds 0 * 10 ^ cs.length ∧
        cs.length < ds.length) := by
  induction cs generalizing ds with
  | nil =>
    cases ds with
    | nil => simp
    | cons d ds =>
      simp only [List.map_nil, List.map_cons, List.nil_lt_cons, Nat.ofDigitChars_nil,
        List.length_nil, List.length_cons, true_iff]
      omega
  | cons c cs ih =>
    cases ds with
    | nil => simp
    | cons d ds =>
      have hc := digit_bounds (hcs c (List.mem_cons_self ..))
      have hd := digit_bounds (hds d (List.mem_cons_self ..))
      have hcs' : ∀ c ∈ cs, c.isDigit = true := fun e he => hcs e (List.mem_cons_of_mem _ he)
      have hds' : ∀ c ∈ ds, c.isDigit = true := fun e he => hds e (List.mem_cons_of_mem _ he)
      obtain ⟨hlt, heq⟩ := scaled_lt_iff (x := c.toNat - 48) (y := d.toNat - 48)
        (ofDigitChars_lt hcs') (ofDigitChars_lt hds')
      rw [List.map_cons, List.map_cons, List.cons_lt_cons_iff, ih hcs' hds', ofDigitChars_cons_zero,
        ofDigitChars_cons_zero, List.length_cons, List.length_cons, hlt, heq]
      have hdigit : c.toNat - 48 < d.toNat - 48 ↔ c.toNat < d.toNat := by omega
      have hsame : c.toNat - 48 = d.toNat - 48 ↔ c.toNat = d.toNat := by omega
      rw [hdigit, hsame]
      simp only [Nat.add_lt_add_iff_right, and_or_left, or_assoc, and_assoc]

theorem utf16_numeral {s : String} (h : IsNumeral s) : utf16 s = s.toList.map Char.toNat := by
  rw [utf16, List.map_eq_flatMap]
  refine List.flatMap_congr fun c hc => ?_
  have hb := digit_bounds (h.2 c hc)
  exact if_pos (by omega)

theorem jsLt_numeral_iff {s t : String} (hs : IsNumeral s) (ht : IsNumeral t) :
    utf16 s < utf16 t ↔ LeadsBelow s t := by
  rw [utf16_numeral hs, utf16_numeral ht, map_toNat_lt_iff hs.2 ht.2]
  rfl

end Liquifact.Lib
