import Liquifact.Lib.JsonText
import Mathlib.Tactic.IntervalCases

/-!
# Conversions of text to numbers

`stringToNumber` and `Json.toNumber` are `Number(v)` of a string and of a JSON value;
`stringToBigInt` is `BigInt(s)` of a string, `none` where it throws a `SyntaxError`. Both
ignore surrounding white space, read the empty text as zero and know the prefixes `0x`,
`0o` and `0b`; only the first knows fractions, exponents and `Infinity`. `parseInt` is
`parseInt(s, 10)`, which reads the digits in front and passes over what follows them.
-/

namespace Liquifact.Lib

def radixDigits (base : ℕ) (cs : List Char) : Option ℕ :=
  if cs = [] then none
  else cs.foldlM (fun acc c => do
    let d ← hexValue c
    if d < base then some (acc * base + d) else none) 0

/- `0x1F`, `0o17` and `0b11`, without a sign. -/
def readRadix : List Char → Option ℕ
  | '0' :: p :: ds =>
    if p = 'x' ∨ p = 'X' then radixDigits 16 ds
    else if p = 'o' ∨ p = 'O' then radixDigits 8 ds
    else if p = 'b' ∨ p = 'B' then radixDigits 2 ds
    else none
  | _ => none

/- Digits on at least one side of an optional point, then an optional exponent. -/
def readDecimal (cs : List Char) : Option ℚ :=
  let (whole, r) := cs.span Char.isDigit
  let (fraction, r) := match r with
    | '.' :: r => r.span Char.isDigit
    | r => ([], r)
  if whole = [] ∧ fraction = [] then none
  else match readExponent r with
    | some (e, []) =>
      some ((Nat.ofDigitChars 10 (whole ++ fraction) 0 : ℚ) * 10 ^ (e - fraction.length))
    | _ => none

def unsignedNumber (cs : List Char) : JsNumber :=
  if cs = "Infinity".toList then .posInf
  else match readDecimal cs with
    | some q => roundDouble q
    | none => .nan

def stringToNumber (s : String) : JsNumber :=
  let cs := (trim s).toList
  if cs = [] then .fin 0
  else match readRadix cs with
    | some n => roundDouble n
    | none =>
      match cs with
      | '+' :: r => unsignedNumber r
      | '-' :: r => (unsignedNumber r).neg
      | r => unsignedNumber r

def stringToBigInt (s : String) : Option ℤ :=
  let cs := (trim s).toList
  if cs = [] then some 0
  else match readRadix cs with
    | some n => some n
    | none =>
      let (sign, ds) := readSign cs
      if ds ≠ [] ∧ ds.all Char.isDigit then some (sign * Nat.ofDigitChars 10 ds 0) else none

def parseInt (cs : List Char) : JsNumber :=
  let (sign, r) := readSign (cs.dropWhile isJsSpace)
  let ds := r.takeWhile Char.isDigit
  if ds = [] then .nan else roundDouble ((sign * Nat.ofDigitChars 10 ds 0 : ℤ) : ℚ)

def Json.toNumber : Json → JsNumber
  | .null => .fin 0
  | .bool b => .fin (if b then 1 else 0)
  | .num x => x
  | v => stringToNumber v.text

/-! ### Integers -/

/- A character that may open an integer is no white space. -/
theorem isJsSpace_of_number {c : Char} (hc : c = '-' ∨ c.isDigit = true) : isJsSpace c = false := by
  have hcode : 45 ≤ c.toNat ∧ c.toNat ≤ 57 := by
    rcases hc with rfl | hc
    · decide
    · have hdigit := isDigit_toNat hc
      omega
  have hval : c.toNat = c.val.toNat := rfl
  rw [isJsSpace, Bool.or_eq_false_iff]
  constructor
  · rw [decide_eq_false_iff_not]
    intro hmem
    have hne : ∀ u : UInt32, u.toNat < 45 ∨ 57 < u.toNat → c.val ≠ u := by
      rintro u hu rfl
      omega
    simp only [List.mem_cons, List.not_mem_nil, or_false] at hmem
    rcases hmem with h | h | h | h | h | h | h | h | h | h | h | h | h | h <;>
      exact hne _ (by decide) h
  · rw [Bool.and_eq_false_iff]
    left
    rw [decide_eq_false_iff_not, UInt32.le_iff_toNat_le]
    show ¬ 8192 ≤ c.val.toNat
    omega

theorem parseInt_signed {sign : ℤ} {n : ℕ} {cs : List Char} (hspace : cs.dropWhile isJsSpace = cs)
    (hsign : readSign cs = (sign, Nat.toDigits 10 n)) (h : (sign * n).natAbs < 2 ^ 53) :
    parseInt cs = .fin ((sign * n : ℤ) : ℚ) := by
  have hdigits : (Nat.toDigits 10 n).takeWhile Char.isDigit = Nat.toDigits 10 n := by
    have hall : (Nat.toDigits 10 n ++ []).takeWhile Char.isDigit = Nat.toDigits 10 n ++ [] :=
      List.takeWhile_append_of_pos (isDigit_toDigits n)
    rwa [List.append_nil] at hall
  have hvalue : Nat.ofDigitChars 10 (Nat.toDigits 10 n) 0 = n := by simp
  unfold parseInt
  rw [hspace, hsign]
  simp only [hdigits, Nat.toDigits_ne_nil, if_false, hvalue]
  exact roundDouble_intCast h

/- The text of an integer is read as that integer. -/
theorem parseInt_writeNumber {z : ℤ} (h : z.natAbs < 2 ^ 53) :
    parseInt (writeNumber (.fin z)) = .fin z := by
  have hspace : (writeNumber (.fin z)).dropWhile isJsSpace = writeNumber (.fin z) := by
    obtain ⟨c, cs, hcs, hc⟩ := exists_writeNumber_cons h
    rw [hcs, List.dropWhile_cons_of_neg (by simp [isJsSpace_of_number hc])]
  rcases lt_or_ge z 0 with hneg | hpos
  · obtain ⟨n, rfl⟩ : ∃ n : ℕ, z = -(n : ℤ) := ⟨z.natAbs, by omega⟩
    have htext : writeNumber (.fin ((-(n : ℤ) : ℤ) : ℚ)) = '-' :: Nat.toDigits 10 n := by
      push_cast
      exact writeNumber_neg (by omega) (by omega)
    have hsign : readSign (writeNumber (.fin ((-(n : ℤ) : ℤ) : ℚ))) = (-1, Nat.toDigits 10 n) := by
      rw [htext]
      rfl
    rw [parseInt_signed hspace hsign (by omega)]
    congr 2
    omega
  · obtain ⟨n, rfl⟩ : ∃ n : ℕ, z = (n : ℤ) := ⟨z.natAbs, by omega⟩
    have htext : writeNumber (.fin (((n : ℤ) : ℤ) : ℚ)) = Nat.toDigits 10 n := by
      rw [Int.cast_natCast]
      exact writeNumber_natCast (by omega)
    have hsign : readSign (writeNumber (.fin (((n : ℤ) : ℤ) : ℚ))) = (1, Nat.toDigits 10 n) := by
      rw [htext]
      obtain ⟨c, ds, hds, hc⟩ := exists_toDigits_cons n
      have hdigit := isDigit_toNat hc
      rw [hds, readSign.eq_def]
      split
      · next heq =>
        cases (List.cons.inj heq).1
        cases hc
      · next heq =>
        cases (List.cons.inj heq).1
        cases hc
      · rfl
    rw [parseInt_signed hspace hsign (by omega)]
    congr 2
    omega

/-! ### Numerals -/

theorem digitChar_of_isDigit {c : Char} (h : c.isDigit = true) :
    c.toNat - '0'.toNat < 10 ∧ (c.toNat - '0'.toNat).digitChar = c := by
  obtain ⟨n, hn, rfl⟩ : ∃ n < 10, c = Nat.digitChar n := by
    have hrange : 48 ≤ c.toNat ∧ c.toNat ≤ 57 := by
      simpa [Char.isDigit, UInt32.le_iff_toNat_le] using h
    refine ⟨c.toNat - 48, by omega, ?_⟩
    have hc : c = Char.ofNat c.toNat := (Char.ofNat_toNat c).symm
    obtain ⟨hlow, hhigh⟩ := hrange
    generalize c.toNat = m at hc hlow hhigh
    rw [hc]
    interval_cases m <;> rfl
  have hvalue : n.digitChar.toNat - '0'.toNat = n := Nat.toNat_digitChar_sub_48_of_lt_ten hn
  rw [hvalue]
  exact ⟨hn, rfl⟩

/- A digit string without a leading zero is the numeral of its value. -/
theorem toDigits_ofDigitChars {cs : List Char} (hdigits : ∀ c ∈ cs, c.isDigit = true)
    (hne : cs ≠ []) (hzero : cs.head? = some '0' → cs.length = 1) :
    Nat.toDigits 10 (Nat.ofDigitChars 10 cs 0) = cs := by
  induction cs using List.reverseRecOn with
  | nil => exact absurd rfl hne
  | append_singleton ds c ih =>
    obtain ⟨hlt, hchar⟩ := digitChar_of_isDigit (hdigits c (by simp))
    rw [Nat.ofDigitChars_append, Nat.ofDigitChars_cons, Nat.ofDigitChars_nil]
    by_cases hds : ds = []
    · subst hds
      rw [Nat.ofDigitChars_nil, Nat.mul_zero, Nat.zero_add, Nat.toDigits_of_lt_base hlt, hchar]
      rfl
    · have hhead : ds.head? ≠ some '0' := by
        intro h
        have hlen := hzero (by rw [List.head?_append_of_ne_nil _ hds, h])
        have hpos := List.length_pos_iff.mpr hds
        rw [List.length_append, List.length_singleton] at hlen
        omega
      have hprefix := ih (fun d hd => hdigits d (List.mem_append_left _ hd)) hds
        fun h => absurd h hhead
      have hpos : 0 < Nat.ofDigitChars 10 ds 0 := by
        rcases Nat.eq_zero_or_pos (Nat.ofDigitChars 10 ds 0) with h | h
        · rw [h, Nat.toDigits_zero] at hprefix
          rw [← hprefix] at hhead
          exact absurd rfl hhead
        · exact h
      rw [← Nat.toDigits_append_toDigits (by omega) hpos hlt, hprefix,
        Nat.toDigits_of_lt_base hlt, hchar]

end Liquifact.Lib
