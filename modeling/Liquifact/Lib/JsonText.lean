import Liquifact.Lib.Double
import Liquifact.Lib.JsString
import Liquifact.Lib.JsValue
import Liquifact.Lib.OrdMap

/-!
# JSON text

`Json.stringify` and `Json.parse` are `JSON.stringify` and `JSON.parse`. A string is read
as UTF-16 code units, as its escapes write them; a lone surrogate, which no `String`
holds, is read as U+FFFD. Of a repeated member name the last value counts, at the first
place. A value whose numbers are read back and whose objects repeat no name is read back
from its text, with null for the numbers that are not finite; integers below 2^53 are such
numbers.
-/

namespace Liquifact.Lib

/-! ### Writing -/

def hexDigit (n : ℕ) : Char := if n < 10 then Char.ofNat (48 + n) else Char.ofNat (87 + n)

def escapeChar (c : Char) : List Char :=
  if c = '"' then ['\\', '"']
  else if c = '\\' then ['\\', '\\']
  else if c.toNat = 8 then ['\\', 'b']
  else if c.toNat = 9 then ['\\', 't']
  else if c.toNat = 10 then ['\\', 'n']
  else if c.toNat = 12 then ['\\', 'f']
  else if c.toNat = 13 then ['\\', 'r']
  else if c.toNat < 32 then
    ['\\', 'u', '0', '0', hexDigit (c.toNat / 16), hexDigit (c.toNat % 16)]
  else [c]

def quote (s : String) : List Char := '"' :: (s.toList.flatMap escapeChar ++ ['"'])

def writeNumber : JsNumber → List Char
  | .fin q => (numberText (.fin q)).toList
  | _ => ['n', 'u', 'l', 'l']

mutual

def Json.write : Json → List Char
  | .null => ['n', 'u', 'l', 'l']
  | .bool true => ['t', 'r', 'u', 'e']
  | .bool false => ['f', 'a', 'l', 's', 'e']
  | .num x => writeNumber x
  | .str s => quote s
  | .arr [] => ['[', ']']
  | .arr (v :: vs) => '[' :: (v.write ++ writeItems vs)
  | .obj [] => ['\x7b', '\x7d']
  | .obj ((k, v) :: ms) => '\x7b' :: (quote k ++ ':' :: (v.write ++ writeMembers ms))

def writeItems : List Json → List Char
  | [] => [']']
  | v :: vs => ',' :: (v.write ++ writeItems vs)

def writeMembers : List (String × Json) → List Char
  | [] => ['\x7d']
  | (k, v) :: ms => ',' :: (quote k ++ ':' :: (v.write ++ writeMembers ms))

end

def Json.stringify (v : Json) : String := String.ofList v.write

mutual

/-- `String(v)`: an array joins its elements with commas and shows null as nothing. -/
def Json.text : Json → String
  | .null => "null"
  | .bool b => if b then "true" else "false"
  | .num x => numberText x
  | .str s => s
  | .arr vs => String.ofList (joinItems vs)
  | .obj _ => "[object Object]"

def joinItems : List Json → List Char
  | [] => []
  | .null :: vs => joinRest vs
  | v :: vs => v.text.toList ++ joinRest vs

def joinRest : List Json → List Char
  | [] => []
  | .null :: vs => ',' :: joinRest vs
  | v :: vs => ',' :: (v.text.toList ++ joinRest vs)

end

/-! ### Reading -/

def hexValue (c : Char) : Option ℕ :=
  if c.isDigit then some (c.toNat - 48)
  else if 97 ≤ c.toNat ∧ c.toNat ≤ 102 then some (c.toNat - 87)
  else if 65 ≤ c.toNat ∧ c.toNat ≤ 70 then some (c.toNat - 55)
  else none

def hexUnit (a b c d : Char) : Option ℕ := do
  let a ← hexValue a
  let b ← hexValue b
  let c ← hexValue c
  let d ← hexValue d
  some (((a * 16 + b) * 16 + c) * 16 + d)

def unescape (c : Char) : Option ℕ :=
  if c = '"' ∨ c = '\\' ∨ c = '/' then some c.toNat
  else if c = 'b' then some 8
  else if c = 't' then some 9
  else if c = 'n' then some 10
  else if c = 'f' then some 12
  else if c = 'r' then some 13
  else none

/- The code units of a string up to its closing quote, and the text after it. -/
def readUnits : List Char → Option (List ℕ × List Char)
  | [] => none
  | '"' :: r => some ([], r)
  | '\\' :: 'u' :: a :: b :: c :: d :: r => do
    let unit ← hexUnit a b c d
    let (units, rest) ← readUnits r
    some (unit :: units, rest)
  | '\\' :: e :: r => do
    let unit ← unescape e
    let (units, rest) ← readUnits r
    some (unit :: units, rest)
  | c :: r =>
    if c.toNat < 32 then none
    else do
      let (units, rest) ← readUnits r
      some (codeUnits c ++ units, rest)

def isHighSurrogate (u : ℕ) : Bool := decide (0xD800 ≤ u ∧ u ≤ 0xDBFF)

def isLowSurrogate (u : ℕ) : Bool := decide (0xDC00 ≤ u ∧ u ≤ 0xDFFF)

def charOfUnits : List ℕ → List Char
  | [] => []
  | [u] => [if isHighSurrogate u || isLowSurrogate u then Char.ofNat 0xFFFD else Char.ofNat u]
  | u :: v :: us =>
    if isHighSurrogate u && isLowSurrogate v then
      Char.ofNat (0x10000 + (u - 0xD800) * 0x400 + (v - 0xDC00)) :: charOfUnits us
    else if isHighSurrogate u || isLowSurrogate u then Char.ofNat 0xFFFD :: charOfUnits (v :: us)
    else Char.ofNat u :: charOfUnits (v :: us)

def readString (r : List Char) : Option (String × List Char) := do
  let (units, rest) ← readUnits r
  some (String.ofList (charOfUnits units), rest)

def readFraction : List Char → Option (List Char × List Char)
  | '.' :: r => if (r.span Char.isDigit).1 = [] then none else some (r.span Char.isDigit)
  | r => some ([], r)

def readSign : List Char → ℤ × List Char
  | '+' :: r => (1, r)
  | '-' :: r => (-1, r)
  | r => (1, r)

def readExponent : List Char → Option (ℤ × List Char)
  | c :: r =>
    if c = 'e' ∨ c = 'E' then
      let (sign, r) := readSign r
      let (ds, rest) := r.span Char.isDigit
      if ds = [] then none else some (sign * Nat.ofDigitChars 10 ds 0, rest)
    else some (0, c :: r)
  | [] => some (0, [])

def readUnsigned (cs : List Char) : Option (ℚ × List Char) := do
  let (whole, r) := cs.span Char.isDigit
  if whole = [] ∨ (whole.head? = some '0' ∧ 1 < whole.length) then none
  let (fraction, r) ← readFraction r
  let (exponent, r) ← readExponent r
  some ((Nat.ofDigitChars 10 (whole ++ fraction) 0 : ℚ) * 10 ^ (exponent - fraction.length), r)

def readNumber : List Char → Option (JsNumber × List Char)
  | '-' :: r => (readUnsigned r).map fun (q, rest) => (roundDouble (-q), rest)
  | r => (readUnsigned r).map fun (q, rest) => (roundDouble q, rest)

def skipSpace : List Char → List Char
  | c :: r => if c.toNat = 32 ∨ c.toNat = 9 ∨ c.toNat = 10 ∨ c.toNat = 13 then skipSpace r else c :: r
  | [] => []

def uniqueMembers (ms : List (String × Json)) : List (String × Json) :=
  ms.foldl (fun acc m => OrdMap.setL m.1 m.2 acc) []

def expectChar (c : Char) (cs : List Char) : Option (List Char) :=
  match skipSpace cs with
  | d :: r => if d = c then some r else none
  | [] => none

mutual

def readValue : ℕ → List Char → Option (Json × List Char)
  | 0, _ => none
  | fuel + 1, cs =>
    match skipSpace cs with
    | [] => none
    | c :: r =>
      if c = 'n' then if r.take 3 = ['u', 'l', 'l'] then some (.null, r.drop 3) else none
      else if c = 't' then if r.take 3 = ['r', 'u', 'e'] then some (.bool true, r.drop 3) else none
      else if c = 'f' then
        if r.take 4 = ['a', 'l', 's', 'e'] then some (.bool false, r.drop 4) else none
      else if c = '"' then (readString r).map fun (s, rest) => (.str s, rest)
      else if c = '[' then
        match expectChar ']' r with
        | some rest => some (.arr [], rest)
        | none => do
          let (v, rest) ← readValue fuel r
          let (vs, rest) ← readItems fuel rest
          some (.arr (v :: vs), rest)
      else if c = '\x7b' then
        match expectChar '\x7d' r with
        | some rest => some (.obj [], rest)
        | none => do
          let (m, rest) ← readMember fuel r
          let (ms, rest) ← readMembers fuel rest
          some (.obj (uniqueMembers (m :: ms)), rest)
      else (readNumber (c :: r)).map fun (x, rest) => (.num x, rest)

def readItems : ℕ → List Char → Option (List Json × List Char)
  | 0, _ => none
  | fuel + 1, cs =>
    match skipSpace cs with
    | [] => none
    | c :: r =>
      if c = ']' then some ([], r)
      else if c = ',' then do
        let (v, rest) ← readValue fuel r
        let (vs, rest) ← readItems fuel rest
        some (v :: vs, rest)
      else none

def readMember : ℕ → List Char → Option ((String × Json) × List Char)
  | 0, _ => none
  | fuel + 1, cs => do
    let r ← expectChar '"' cs
    let (k, rest) ← readString r
    let rest ← expectChar ':' rest
    let (v, rest) ← readValue fuel rest
    some ((k, v), rest)

def readMembers : ℕ → List Char → Option (List (String × Json) × List Char)
  | 0, _ => none
  | fuel + 1, cs =>
    match skipSpace cs with
    | [] => none
    | c :: r =>
      if c = '\x7d' then some ([], r)
      else if c = ',' then do
        let (m, rest) ← readMember fuel r
        let (ms, rest) ← readMembers fuel rest
        some (m :: ms, rest)
      else none

end

/-- `JSON.parse`; each nested value takes at least one character, so the length is fuel. -/
def Json.parse (s : String) : Option Json :=
  match readValue (2 * s.toList.length + 1) s.toList with
  | some (v, rest) => if skipSpace rest = [] then some v else none
  | none => none

/-! ### Strings are read back -/

theorem hexValue_hexDigit : ∀ n < 16, hexValue (hexDigit n) = some n := by
  decide

theorem readUnits_plain {c : Char} (hquote : c ≠ '"') (hslash : c ≠ '\\') (hspace : ¬ c.toNat < 32)
    (r : List Char) :
    readUnits (c :: r) = (readUnits r).map fun p => (codeUnits c ++ p.1, p.2) := by
  rw [readUnits.eq_def]
  split
  · simp_all
  · simp_all
  · simp_all
  · simp_all
  · rename_i d rest _ _ _ heq
    obtain ⟨rfl, rfl⟩ := List.cons.inj heq
    rw [if_neg hspace]
    cases readUnits r <;> rfl

theorem readUnits_short {e : Char} {u : ℕ} (h : unescape e = some u) (r : List Char) :
    readUnits ('\\' :: e :: r) = (readUnits r).map fun p => (u :: p.1, p.2) := by
  have hu : e ≠ 'u' := by
    rintro rfl
    simp [unescape] at h
  rw [readUnits.eq_def]
  split
  · simp_all
  · simp_all
  · simp_all
  · rename_i e' rest _ heq
    obtain ⟨rfl, rfl⟩ := List.cons.inj (List.cons.inj heq).2
    rw [h]
    cases readUnits r <;> rfl
  · rename_i hno heq
    obtain ⟨rfl, rfl⟩ := List.cons.inj heq
    exact absurd rfl (hno e r rfl)

theorem readUnits_control {n : ℕ} (h : n < 256) (r : List Char) :
    readUnits ('\\' :: 'u' :: '0' :: '0' :: hexDigit (n / 16) :: hexDigit (n % 16) :: r) =
      (readUnits r).map fun p => (n :: p.1, p.2) := by
  have hunit : hexUnit '0' '0' (hexDigit (n / 16)) (hexDigit (n % 16)) = some n := by
    have hzero : hexValue '0' = some 0 := by decide
    simp only [hexUnit, hzero, hexValue_hexDigit (n / 16) (by omega),
      hexValue_hexDigit (n % 16) (by omega), bind, Option.bind]
    congr 1
    omega
  rw [readUnits, hunit]
  cases readUnits r <;> rfl

theorem readUnits_escapeChar (c : Char) (r : List Char) :
    readUnits (escapeChar c ++ r) =
      (readUnits r).map fun p => (codeUnits c ++ p.1, p.2) := by
  have hbmp : c.toNat < 128 → codeUnits c = [c.toNat] := fun h => if_pos (by omega)
  unfold escapeChar
  by_cases hquote : c = '"'
  · rw [if_pos hquote, hquote]
    exact readUnits_short (by decide) r
  by_cases hslash : c = '\\'
  · rw [if_neg hquote, if_pos hslash, hslash]
    exact readUnits_short (by decide) r
  rw [if_neg hquote, if_neg hslash]
  by_cases h8 : c.toNat = 8
  · rw [if_pos h8, hbmp (by omega), h8]
    exact readUnits_short (by decide) r
  by_cases h9 : c.toNat = 9
  · rw [if_neg h8, if_pos h9, hbmp (by omega), h9]
    exact readUnits_short (by decide) r
  by_cases h10 : c.toNat = 10
  · rw [if_neg h8, if_neg h9, if_pos h10, hbmp (by omega), h10]
    exact readUnits_short (by decide) r
  rw [if_neg h8, if_neg h9, if_neg h10]
  by_cases h12 : c.toNat = 12
  · rw [if_pos h12, hbmp (by omega), h12]
    exact readUnits_short (by decide) r
  by_cases h13 : c.toNat = 13
  · rw [if_neg h12, if_pos h13, hbmp (by omega), h13]
    exact readUnits_short (by decide) r
  rw [if_neg h12, if_neg h13]
  by_cases hcontrol : c.toNat < 32
  · rw [if_pos hcontrol, hbmp (by omega)]
    exact readUnits_control (by omega) r
  · rw [if_neg hcontrol]
    exact readUnits_plain hquote hslash hcontrol r

theorem readUnits_quoted (cs r : List Char) :
    readUnits (cs.flatMap escapeChar ++ '"' :: r) = some (cs.flatMap codeUnits, r) := by
  induction cs with
  | nil => rfl
  | cons c cs ih =>
    rw [List.flatMap_cons, List.append_assoc, readUnits_escapeChar, ih]
    rfl

theorem charOfUnits_codeUnits (c : Char) (us : List ℕ) :
    charOfUnits (codeUnits c ++ us) = c :: charOfUnits us := by
  obtain ⟨hgap, hmax⟩ := toNat_bounds c
  unfold codeUnits
  split
  · have hhigh : isHighSurrogate c.toNat = false := by
      simp only [isHighSurrogate, decide_eq_false_iff_not]
      omega
    have hlow : isLowSurrogate c.toNat = false := by
      simp only [isLowSurrogate, decide_eq_false_iff_not]
      omega
    cases us with
    | nil => simp [charOfUnits, hhigh, hlow]
    | cons v us => simp [charOfUnits, hhigh, hlow]
  · have hhigh : isHighSurrogate (0xD800 + (c.toNat - 0x10000) / 0x400) = true := by
      simp only [isHighSurrogate, decide_eq_true_eq]
      omega
    have hlow : isLowSurrogate (0xDC00 + (c.toNat - 0x10000) % 0x400) = true := by
      simp only [isLowSurrogate, decide_eq_true_eq]
      omega
    have hcode : 0x10000 + (0xD800 + (c.toNat - 0x10000) / 0x400 - 0xD800) * 0x400 +
        (0xDC00 + (c.toNat - 0x10000) % 0x400 - 0xDC00) = c.toNat := by
      omega
    simp only [List.cons_append, List.nil_append, charOfUnits, hhigh, hlow, Bool.and_self, if_true,
      hcode, Char.ofNat_toNat]

theorem charOfUnits_flatMap (cs : List Char) : charOfUnits (cs.flatMap codeUnits) = cs := by
  induction cs with
  | nil => rfl
  | cons c cs ih => rw [List.flatMap_cons, charOfUnits_codeUnits, ih]

theorem readString_quote (s : String) (r : List Char) :
    readString (s.toList.flatMap escapeChar ++ '"' :: r) = some (s, r) := by
  simp only [readString, readUnits_quoted, charOfUnits_flatMap, bind, Option.bind, String.ofList_toList]

/-! ### Integers are read back -/

/- The text after a value does not go on with a number. -/
def EndsNumber (r : List Char) : Prop :=
  ∀ c ∈ r.head?, c.isDigit = false ∧ c ≠ '.' ∧ c ≠ 'e' ∧ c ≠ 'E'

theorem span_isDigit_append {ds r : List Char} (hds : ∀ c ∈ ds, c.isDigit = true)
    (hr : ∀ c ∈ r.head?, c.isDigit = false) : (ds ++ r).span Char.isDigit = (ds, r) := by
  rw [List.span_eq_takeWhile_dropWhile, List.takeWhile_append_of_pos hds,
    List.dropWhile_append_of_pos hds]
  cases r with
  | nil => simp
  | cons c r => simp [hr c rfl]

theorem EndsNumber.stops {r : List Char} (hr : EndsNumber r) : ∀ c ∈ r.head?, c.isDigit = false :=
  fun c hc => (hr c hc).1

theorem readFraction_of_ne {r : List Char} (hr : r.head? ≠ some '.') : readFraction r = some ([], r) := by
  rw [readFraction.eq_def]
  split
  · exact absurd rfl hr
  · rfl

theorem EndsNumber.no_fraction {r : List Char} (hr : EndsNumber r) :
    readFraction r = some ([], r) :=
  readFraction_of_ne fun h => (hr '.' h).2.1 rfl

theorem EndsNumber.no_exponent {r : List Char} (hr : EndsNumber r) :
    readExponent r = some (0, r) := by
  cases r with
  | nil => rfl
  | cons c r =>
    have hc := hr c rfl
    rw [readExponent, if_neg (by simp [hc])]

/- A number is its digits, its fraction and its exponent, read one after the other. -/
theorem readUnsigned_parts {whole fraction tail rest r : List Char} {e : ℤ}
    (hdigits : ∀ c ∈ whole, c.isDigit = true) (hne : whole ≠ [])
    (hzero : whole.head? = some '0' → whole.length = 1) (hstop : ∀ c ∈ tail.head?, c.isDigit = false)
    (hfraction : readFraction tail = some (fraction, rest))
    (hexponent : readExponent rest = some (e, r)) :
    readUnsigned (whole ++ tail) =
      some ((Nat.ofDigitChars 10 (whole ++ fraction) 0 : ℚ) * 10 ^ (e - fraction.length), r) := by
  have hcanonical : ¬ (whole = [] ∨ (whole.head? = some '0' ∧ 1 < whole.length)) := by
    rintro (hnil | ⟨hhead, hlen⟩)
    · exact hne hnil
    · rw [hzero hhead] at hlen
      exact absurd hlen (lt_irrefl 1)
  simp only [readUnsigned, span_isDigit_append hdigits hstop, if_neg hcanonical, hfraction, hexponent,
    bind, Option.bind]

theorem toDigits_head (n : ℕ) (h : 0 < n) : (Nat.toDigits 10 n).head? ≠ some '0' := by
  induction n using Nat.strongRecOn with
  | ind n ih =>
    by_cases hlt : n < 10
    · rw [Nat.toDigits_of_lt_base hlt, List.head?_singleton, Ne, Option.some.injEq]
      have hall : ∀ m < 10, 0 < m → Nat.digitChar m ≠ '0' := by decide
      exact hall n hlt h
    · rw [Nat.toDigits_of_base_le (by omega) (by omega), List.head?_append_of_ne_nil _ Nat.toDigits_ne_nil]
      exact ih (n / 10) (by omega) (by omega)

theorem isDigit_toDigits (n : ℕ) : ∀ c ∈ Nat.toDigits 10 n, c.isDigit = true :=
  fun _ hc => Nat.isDigit_of_mem_toDigits (by omega) (by omega) hc

theorem readUnsigned_toDigits (n : ℕ) {r : List Char} (hr : EndsNumber r) :
    readUnsigned (Nat.toDigits 10 n ++ r) = some ((n : ℚ), r) := by
  have hzero : (Nat.toDigits 10 n).head? = some '0' → (Nat.toDigits 10 n).length = 1 := by
    intro hhead
    rcases Nat.eq_zero_or_pos n with rfl | hpos
    · rfl
    · exact absurd hhead (toDigits_head n hpos)
  rw [readUnsigned_parts (isDigit_toDigits n) Nat.toDigits_ne_nil hzero hr.stops hr.no_fraction
    hr.no_exponent]
  simp

theorem positiveText_natCast {n : ℕ} (h : n < 2 ^ 53) : positiveText n = Nat.repr n := by
  unfold positiveText
  rw [Rat.num_natCast, Rat.den_natCast, if_pos ⟨rfl, by exact_mod_cast h⟩, Int.toNat_natCast]

theorem writeNumber_natCast {n : ℕ} (h : n < 2 ^ 53) : writeNumber (.fin n) = Nat.toDigits 10 n := by
  rw [writeNumber, numberText, if_neg (by simp), positiveText_natCast h, Nat.toList_repr]

theorem writeNumber_neg {n : ℕ} (h0 : 0 < n) (h : n < 2 ^ 53) :
    writeNumber (.fin (-(n : ℚ))) = '-' :: Nat.toDigits 10 n := by
  rw [writeNumber, numberText, if_pos (by simpa using h0), neg_neg, positiveText_natCast h,
    String.toList_append, Nat.toList_repr]
  rfl

theorem readNumber_of_digit {c : Char} (hc : c.isDigit = true) (r : List Char) :
    readNumber (c :: r) = (readUnsigned (c :: r)).map fun p => (roundDouble p.1, p.2) := by
  rw [readNumber.eq_def]
  split
  · rename_i heq
    rw [(List.cons.inj heq).1] at hc
    exact absurd hc (by decide)
  · rfl

theorem exists_toDigits_cons (n : ℕ) :
    ∃ c ds, Nat.toDigits 10 n = c :: ds ∧ c.isDigit = true := by
  obtain ⟨c, ds, hds⟩ := List.exists_cons_of_ne_nil (Nat.toDigits_ne_nil (n := n) (b := 10))
  exact ⟨c, ds, hds, isDigit_toDigits n c (hds ▸ List.mem_cons_self ..)⟩

theorem readNumber_writeNumber {z : ℤ} (hz : z.natAbs < 2 ^ 53) {r : List Char} (hr : EndsNumber r) :
    readNumber (writeNumber (.fin z) ++ r) = some (.fin z, r) := by
  rcases lt_or_ge z 0 with hneg | hpos
  · obtain ⟨n, rfl⟩ : ∃ n : ℕ, z = -(n : ℤ) := ⟨z.natAbs, by omega⟩
    have hround := roundDouble_intCast hz
    push_cast at hround ⊢
    rw [writeNumber_neg (by omega) (by omega), List.cons_append, readNumber,
      readUnsigned_toDigits n hr]
    show some (roundDouble (-(n : ℚ)), r) = _
    rw [hround]
  · obtain ⟨n, rfl⟩ : ∃ n : ℕ, z = (n : ℤ) := ⟨z.natAbs, by omega⟩
    have hround := roundDouble_intCast hz
    obtain ⟨c, ds, hds, hc⟩ := exists_toDigits_cons n
    have hread := readUnsigned_toDigits n hr
    rw [hds, List.cons_append] at hread
    rw [Int.cast_natCast] at hround ⊢
    rw [writeNumber_natCast (by omega), hds, List.cons_append, readNumber_of_digit hc, hread,
      Option.map_some, hround]

/-! ### Values are read back -/

mutual

/- Numbers are integers below 2^53 and no object repeats a name. -/
def Json.Plain : Json → Prop
  | .null => True
  | .bool _ => True
  | .num x => ∃ z : ℤ, x = .fin z ∧ z.natAbs < 2 ^ 53
  | .str _ => True
  | .arr vs => PlainItems vs
  | .obj ms => PlainMembers ms ∧ (ms.map Prod.fst).Nodup

def PlainItems : List Json → Prop
  | [] => True
  | v :: vs => v.Plain ∧ PlainItems vs

def PlainMembers : List (String × Json) → Prop
  | [] => True
  | (_, v) :: ms => v.Plain ∧ PlainMembers ms

end

mutual

/- Every number satisfies `P` and no object repeats a name. -/
def Json.Over (P : JsNumber → Prop) : Json → Prop
  | .null => True
  | .bool _ => True
  | .num x => P x
  | .str _ => True
  | .arr vs => OverItems P vs
  | .obj ms => OverMembers P ms ∧ (ms.map Prod.fst).Nodup

def OverItems (P : JsNumber → Prop) : List Json → Prop
  | [] => True
  | v :: vs => v.Over P ∧ OverItems P vs

def OverMembers (P : JsNumber → Prop) : List (String × Json) → Prop
  | [] => True
  | (_, v) :: ms => v.Over P ∧ OverMembers P ms

end

mutual

/- What the text keeps of a value: a number that is not finite is written as null. -/
def Json.normal : Json → Json
  | .null => .null
  | .bool b => .bool b
  | .num (.fin q) => .num (.fin q)
  | .num _ => .null
  | .str s => .str s
  | .arr vs => .arr (normalItems vs)
  | .obj ms => .obj (normalMembers ms)

def normalItems : List Json → List Json
  | [] => []
  | v :: vs => v.normal :: normalItems vs

def normalMembers : List (String × Json) → List (String × Json)
  | [] => []
  | (k, v) :: ms => (k, v.normal) :: normalMembers ms

end

theorem normalMembers_names (ms : List (String × Json)) :
    (normalMembers ms).map Prod.fst = ms.map Prod.fst := by
  induction ms with
  | nil => rfl
  | cons m ms ih => rw [normalMembers, List.map_cons, List.map_cons, ih]

/- The number is read back from its text, which opens as a number does. -/
structure ReadsBack (x : JsNumber) : Prop where
  opens : ∃ c cs, writeNumber x = c :: cs ∧ (c = '-' ∨ c.isDigit = true)
  read : ∀ r, EndsNumber r → readNumber (writeNumber x ++ r) = some (x, r)

theorem uniqueMembers_of_nodup (ms : List (String × Json)) (h : (ms.map Prod.fst).Nodup) :
    uniqueMembers ms = ms := by
  have happend : ∀ (ms acc : List (String × Json)), ((acc ++ ms).map Prod.fst).Nodup →
      ms.foldl (fun acc m => OrdMap.setL m.1 m.2 acc) acc = acc ++ ms := by
    intro ms
    induction ms with
    | nil => intro acc _; simp
    | cons m ms ih =>
      intro acc hnodup
      have hnew : m.1 ∉ acc.map Prod.fst := by
        rw [List.map_append, List.map_cons] at hnodup
        intro hmem
        exact (List.nodup_append.mp hnodup).2.2 _ hmem _ (List.mem_cons_self ..) rfl
      rw [List.foldl_cons, OrdMap.setL_of_not_mem _ _ _ hnew, ih]
      · simp
      · simpa using hnodup
  exact happend ms [] h

theorem skipSpace_cons {c : Char} (h : 32 < c.toNat) (r : List Char) : skipSpace (c :: r) = c :: r := by
  rw [skipSpace, if_neg (by omega)]

theorem expectChar_self {c : Char} (h : 32 < c.toNat) (r : List Char) :
    expectChar c (c :: r) = some r := by
  rw [expectChar, skipSpace_cons h]
  exact if_pos rfl

theorem quote_append (k : String) (r : List Char) :
    quote k ++ r = '"' :: (k.toList.flatMap escapeChar ++ '"' :: r) := by
  simp [quote]

theorem exists_writeNumber_cons {z : ℤ} (hz : z.natAbs < 2 ^ 53) :
    ∃ c cs, writeNumber (.fin z) = c :: cs ∧ (c = '-' ∨ c.isDigit = true) := by
  rcases lt_or_ge z 0 with hneg | hpos
  · obtain ⟨n, rfl⟩ : ∃ n : ℕ, z = -(n : ℤ) := ⟨z.natAbs, by omega⟩
    refine ⟨'-', Nat.toDigits 10 n, ?_, .inl rfl⟩
    push_cast
    exact writeNumber_neg (by omega) (by omega)
  · obtain ⟨n, rfl⟩ : ∃ n : ℕ, z = (n : ℤ) := ⟨z.natAbs, by omega⟩
    obtain ⟨c, ds, hds, hc⟩ := exists_toDigits_cons n
    refine ⟨c, ds, ?_, .inr hc⟩
    rw [Int.cast_natCast, writeNumber_natCast (by omega), hds]

theorem isDigit_toNat {c : Char} (h : c.isDigit = true) : 48 ≤ c.toNat ∧ c.toNat ≤ 57 := by
  simp only [Char.isDigit, Bool.and_eq_true, decide_eq_true_eq] at h
  exact ⟨h.1, h.2⟩

/- A character that may open a number opens nothing else. -/
theorem readValue_number {c : Char} (hc : c = '-' ∨ c.isDigit = true) (fuel : ℕ) (r : List Char) :
    readValue (fuel + 1) (c :: r) = (readNumber (c :: r)).map fun p => (.num p.1, p.2) := by
  have hcode : c.toNat = 45 ∨ (48 ≤ c.toNat ∧ c.toNat ≤ 57) := by
    rcases hc with rfl | hc
    · exact .inl rfl
    · exact .inr (isDigit_toNat hc)
  have hne : ∀ d : Char, 57 < d.toNat ∨ d.toNat < 45 → c ≠ d := by
    rintro d hd rfl
    omega
  rw [readValue, skipSpace_cons (by omega)]
  simp only [if_neg (hne 'n' (by decide)), if_neg (hne 't' (by decide)), if_neg (hne 'f' (by decide)),
    if_neg (hne '"' (by decide)), if_neg (hne '[' (by decide)), if_neg (hne '\x7b' (by decide))]

theorem endsNumber_cons {c : Char} (h : c = ',' ∨ c = ']' ∨ c = '\x7d') (r : List Char) :
    EndsNumber (c :: r) := by
  intro d hd
  cases hd
  rcases h with rfl | rfl | rfl <;> decide

theorem endsNumber_writeItems (vs : List Json) (r : List Char) : EndsNumber (writeItems vs ++ r) := by
  cases vs with
  | nil => exact endsNumber_cons (.inr (.inl rfl)) _
  | cons v vs => exact endsNumber_cons (.inl rfl) _

theorem endsNumber_writeMembers (ms : List (String × Json)) (r : List Char) :
    EndsNumber (writeMembers ms ++ r) := by
  cases ms with
  | nil => exact endsNumber_cons (.inr (.inr rfl)) _
  | cons m ms => exact endsNumber_cons (.inl rfl) _

theorem readMember_of_value {k : String} {v w : Json} {fuel : ℕ} {r : List Char}
    (hv : readValue fuel (v.write ++ r) = some (w, r)) :
    readMember (fuel + 1) (quote k ++ ':' :: (v.write ++ r)) = some ((k, w), r) := by
  rw [readMember, quote_append, expectChar_self (by decide)]
  simp only [Option.bind_eq_bind, Option.bind_some, readString_quote, expectChar_self (c := ':') (by decide),
    hv]

section ReadBack
variable {P : JsNumber → Prop}

theorem expectChar_write (hP : ∀ q, P (.fin q) → ReadsBack (.fin q)) (v : Json) (hv : v.Over P)
    (r : List Char) : expectChar ']' (v.write ++ r) = none := by
  have hopen : ∃ c cs, v.write = c :: cs ∧ 32 < c.toNat ∧ c ≠ ']' := by
    cases v with
    | null => exact ⟨'n', _, rfl, by decide, by decide⟩
    | bool b => cases b <;> exact ⟨_, _, rfl, by decide, by decide⟩
    | num x =>
      cases x with
      | fin q =>
        obtain ⟨c, cs, hcs, hc⟩ := (hP q hv).opens
        refine ⟨c, cs, hcs, ?_⟩
        rcases hc with rfl | hc
        · exact ⟨by decide, by decide⟩
        · have hcode := isDigit_toNat hc
          refine ⟨by omega, ?_⟩
          rintro rfl
          exact absurd hc (by decide)
      | nan => exact ⟨'n', _, rfl, by decide, by decide⟩
      | negInf => exact ⟨'n', _, rfl, by decide, by decide⟩
      | posInf => exact ⟨'n', _, rfl, by decide, by decide⟩
    | str s => exact ⟨'"', _, rfl, by decide, by decide⟩
    | arr vs => cases vs <;> exact ⟨'[', _, rfl, by decide, by decide⟩
    | obj ms => rcases ms with _ | ⟨⟨k, v⟩, ms⟩ <;> exact ⟨'\x7b', _, rfl, by decide, by decide⟩
  obtain ⟨c, cs, hcs, hspace, hne⟩ := hopen
  rw [hcs, List.cons_append, expectChar, skipSpace_cons hspace]
  exact if_neg hne

theorem readValue_writeNumber (hP : ∀ q, P (.fin q) → ReadsBack (.fin q)) {x : JsNumber} (hx : P x)
    {fuel : ℕ} {r : List Char} (hfuel : (writeNumber x).length ≤ fuel) (hr : EndsNumber r) :
    readValue fuel (writeNumber x ++ r) = some ((Json.num x).normal, r) := by
  have hnull : ∀ fuel, 4 ≤ fuel → readValue fuel (['n', 'u', 'l', 'l'] ++ r) = some (.null, r) := by
    intro fuel hfuel
    obtain ⟨n, rfl⟩ : ∃ n, fuel = n + 1 := ⟨fuel - 1, by omega⟩
    rfl
  cases x with
  | fin q =>
    obtain ⟨c, cs, hcs, hc⟩ := (hP q hx).opens
    have hread := (hP q hx).read r hr
    rw [hcs] at hfuel hread ⊢
    obtain ⟨n, rfl⟩ : ∃ n, fuel = n + 1 := ⟨fuel - 1, by simp at hfuel; omega⟩
    rw [List.cons_append] at hread ⊢
    rw [readValue_number hc, hread]
    rfl
  | nan => exact hnull fuel hfuel
  | negInf => exact hnull fuel hfuel
  | posInf => exact hnull fuel hfuel

mutual

theorem readValue_write (hP : ∀ q, P (.fin q) → ReadsBack (.fin q)) : (v : Json) → v.Over P →
    ∀ fuel r, v.write.length ≤ fuel → EndsNumber r →
    readValue fuel (v.write ++ r) = some (v.normal, r)
  | .null, _, fuel, r, hfuel, _ => by
    obtain ⟨n, rfl⟩ : ∃ n, fuel = n + 1 := ⟨fuel - 1, by simp [Json.write] at hfuel; omega⟩
    rfl
  | .bool b, _, fuel, r, hfuel, _ => by
    obtain ⟨n, rfl⟩ : ∃ n, fuel = n + 1 := ⟨fuel - 1, by cases b <;> simp [Json.write] at hfuel <;> omega⟩
    cases b <;> rfl
  | .num x, hv, fuel, r, hfuel, hr => by
    rw [Json.write] at hfuel ⊢
    exact readValue_writeNumber hP hv hfuel hr
  | .str s, _, fuel, r, hfuel, _ => by
    obtain ⟨n, rfl⟩ : ∃ n, fuel = n + 1 := ⟨fuel - 1, by simp [Json.write, quote] at hfuel; omega⟩
    rw [Json.write, quote_append, readValue, skipSpace_cons (by decide)]
    simp [readString_quote, Json.normal]
  | .arr [], _, fuel, r, hfuel, _ => by
    obtain ⟨n, rfl⟩ : ∃ n, fuel = n + 1 := ⟨fuel - 1, by simp [Json.write] at hfuel; omega⟩
    rfl
  | .arr (v :: vs), hv, fuel, r, hfuel, _ => by
    simp only [Json.Over, OverItems] at hv
    obtain ⟨n, rfl⟩ : ∃ n, fuel = n + 1 := ⟨fuel - 1, by simp [Json.write] at hfuel; omega⟩
    simp only [Json.write, List.length_cons, List.length_append] at hfuel
    have hhead := readValue_write hP v hv.1 n (writeItems vs ++ r) (by omega)
      (endsNumber_writeItems vs r)
    have htail := readItems_write hP vs hv.2 n r (by omega)
    rw [Json.write, List.cons_append, List.append_assoc, readValue, skipSpace_cons (by decide)]
    simp [expectChar_write hP v hv.1, hhead, htail, Json.normal, normalItems]
  | .obj [], _, fuel, r, hfuel, _ => by
    obtain ⟨n, rfl⟩ : ∃ n, fuel = n + 1 := ⟨fuel - 1, by simp [Json.write] at hfuel; omega⟩
    rfl
  | .obj ((k, v) :: ms), hv, fuel, r, hfuel, _ => by
    simp only [Json.Over, OverMembers] at hv
    obtain ⟨n, rfl⟩ : ∃ n, fuel = n + 2 :=
      ⟨fuel - 2, by simp [Json.write, quote] at hfuel; omega⟩
    simp only [Json.write, quote, List.length_cons, List.length_append] at hfuel
    have hvalue := readValue_write hP v hv.1.1 n (writeMembers ms ++ r) (by omega)
      (endsNumber_writeMembers ms r)
    have htail := readMembers_write hP ms hv.1.2 (n + 1) r (by omega)
    have hmember := readMember_of_value (k := k) hvalue
    have hopen : expectChar '\x7d' (quote k ++ ':' :: (v.write ++ (writeMembers ms ++ r))) = none := by
      rw [quote_append, expectChar, skipSpace_cons (by decide)]
      exact if_neg (by decide)
    have hunique : uniqueMembers ((k, v.normal) :: normalMembers ms) =
        (k, v.normal) :: normalMembers ms := by
      refine uniqueMembers_of_nodup _ ?_
      have hnames := normalMembers_names ((k, v) :: ms)
      rw [normalMembers] at hnames
      rw [hnames]
      exact hv.2
    rw [Json.write, List.cons_append, List.append_assoc, List.cons_append, List.append_assoc,
      readValue, skipSpace_cons (by decide)]
    simp [hopen, hmember, htail, hunique, Json.normal, normalMembers]

theorem readItems_write (hP : ∀ q, P (.fin q) → ReadsBack (.fin q)) : (vs : List Json) →
    OverItems P vs → ∀ fuel r, (writeItems vs).length ≤ fuel →
    readItems fuel (writeItems vs ++ r) = some (normalItems vs, r)
  | [], _, fuel, r, hfuel => by
    obtain ⟨n, rfl⟩ : ∃ n, fuel = n + 1 := ⟨fuel - 1, by simp [writeItems] at hfuel; omega⟩
    rfl
  | v :: vs, hv, fuel, r, hfuel => by
    simp only [OverItems] at hv
    obtain ⟨n, rfl⟩ : ∃ n, fuel = n + 1 := ⟨fuel - 1, by simp [writeItems] at hfuel; omega⟩
    simp only [writeItems, List.length_cons, List.length_append] at hfuel
    have hhead := readValue_write hP v hv.1 n (writeItems vs ++ r) (by omega)
      (endsNumber_writeItems vs r)
    have htail := readItems_write hP vs hv.2 n r (by omega)
    rw [writeItems, List.cons_append, List.append_assoc, readItems, skipSpace_cons (by decide)]
    simp [hhead, htail, normalItems]

theorem readMembers_write (hP : ∀ q, P (.fin q) → ReadsBack (.fin q)) :
    (ms : List (String × Json)) → OverMembers P ms → ∀ fuel r, (writeMembers ms).length ≤ fuel →
    readMembers fuel (writeMembers ms ++ r) = some (normalMembers ms, r)
  | [], _, fuel, r, hfuel => by
    obtain ⟨n, rfl⟩ : ∃ n, fuel = n + 1 := ⟨fuel - 1, by simp [writeMembers] at hfuel; omega⟩
    rfl
  | (k, v) :: ms, hv, fuel, r, hfuel => by
    simp only [OverMembers] at hv
    obtain ⟨n, rfl⟩ : ∃ n, fuel = n + 2 :=
      ⟨fuel - 2, by simp [writeMembers, quote] at hfuel; omega⟩
    simp only [writeMembers, quote, List.length_cons, List.length_append] at hfuel
    have hvalue := readValue_write hP v hv.1 n (writeMembers ms ++ r) (by omega)
      (endsNumber_writeMembers ms r)
    have htail := readMembers_write hP ms hv.2 (n + 1) r (by omega)
    have hmember := readMember_of_value (k := k) hvalue
    rw [writeMembers, List.cons_append, List.append_assoc, List.cons_append, List.append_assoc,
      readMembers, skipSpace_cons (by decide)]
    simp [hmember, htail, normalMembers]

end

/-- A value whose finite numbers are read back is read back from its text, up to the numbers
that JSON writes as null. -/
theorem Json.parse_stringify_normal (hP : ∀ q, P (.fin q) → ReadsBack (.fin q)) (v : Json)
    (hv : v.Over P) : Json.parse v.stringify = some v.normal := by
  have hread := readValue_write hP v hv (2 * v.write.length + 1) [] (by omega)
    (by intro c hc; cases hc)
  rw [List.append_nil] at hread
  rw [Json.parse, Json.stringify, String.toList_ofList, hread]
  rfl

end ReadBack

/-! ### Induction on a value -/

section Induction
variable {P : Json → Prop}

mutual

/- Induction on a value; what is neither an array nor an object is a leaf. -/
theorem Json.induct_tree
    (leaf : ∀ v, (∀ vs, v ≠ .arr vs) → (∀ ms, v ≠ .obj ms) → P v)
    (arr : ∀ vs, (∀ v ∈ vs, P v) → P (.arr vs))
    (obj : ∀ ms : List (String × Json), (∀ m ∈ ms, P m.2) → P (.obj ms)) (v : Json) : P v := by
  cases v with
  | arr vs => exact arr vs (Json.induct_items leaf arr obj vs)
  | obj ms => exact obj ms (Json.induct_members leaf arr obj ms)
  | _ => exact leaf _ (fun _ => Json.noConfusion) (fun _ => Json.noConfusion)

theorem Json.induct_items
    (leaf : ∀ v, (∀ vs, v ≠ .arr vs) → (∀ ms, v ≠ .obj ms) → P v)
    (arr : ∀ vs, (∀ v ∈ vs, P v) → P (.arr vs))
    (obj : ∀ ms : List (String × Json), (∀ m ∈ ms, P m.2) → P (.obj ms)) :
    (vs : List Json) → ∀ v ∈ vs, P v
  | [] => fun _ hv => absurd hv List.not_mem_nil
  | w :: vs => by
    have hw := Json.induct_tree leaf arr obj w
    have hvs := Json.induct_items leaf arr obj vs
    intro v hv
    rcases List.mem_cons.mp hv with rfl | hv
    · exact hw
    · exact hvs v hv

theorem Json.induct_members
    (leaf : ∀ v, (∀ vs, v ≠ .arr vs) → (∀ ms, v ≠ .obj ms) → P v)
    (arr : ∀ vs, (∀ v ∈ vs, P v) → P (.arr vs))
    (obj : ∀ ms : List (String × Json), (∀ m ∈ ms, P m.2) → P (.obj ms)) :
    (ms : List (String × Json)) → ∀ m ∈ ms, P m.2
  | [] => fun _ hm => absurd hm List.not_mem_nil
  | (_, w) :: ms => by
    have hw := Json.induct_tree leaf arr obj w
    have hms := Json.induct_members leaf arr obj ms
    intro m hm
    rcases List.mem_cons.mp hm with rfl | hm
    · exact hw
    · exact hms m hm

end

end Induction

/-! ### Values over a class of numbers -/

section Over
variable {P : JsNumber → Prop}

theorem overItems_iff (vs : List Json) : OverItems P vs ↔ ∀ v ∈ vs, v.Over P := by
  induction vs with
  | nil => simp [OverItems]
  | cons v vs ih => simp [OverItems, ih]

theorem overMembers_iff (ms : List (String × Json)) : OverMembers P ms ↔ ∀ m ∈ ms, m.2.Over P := by
  induction ms with
  | nil => simp [OverMembers]
  | cons m ms ih => simp [OverMembers, ih]

theorem over_arr {vs : List Json} : (Json.arr vs).Over P ↔ ∀ v ∈ vs, v.Over P := by
  rw [Json.Over, overItems_iff]

theorem over_obj {ms : List (String × Json)} :
    (Json.obj ms).Over P ↔ (∀ m ∈ ms, m.2.Over P) ∧ (ms.map Prod.fst).Nodup := by
  rw [Json.Over, overMembers_iff]

theorem normalItems_eq_map (vs : List Json) : normalItems vs = vs.map Json.normal := by
  induction vs with
  | nil => rfl
  | cons v vs ih => rw [normalItems, ih, List.map_cons]

theorem normalMembers_eq_map (ms : List (String × Json)) :
    normalMembers ms = ms.map fun m => (m.1, m.2.normal) := by
  induction ms with
  | nil => rfl
  | cons m ms ih => rw [normalMembers, ih, List.map_cons]

/- Finite numbers are written as they are. -/
theorem normal_of_finite (hfin : ∀ x, P x → ∃ q, x = .fin q) (v : Json) (hv : v.Over P) :
    v.normal = v := by
  induction v using Json.induct_tree with
  | leaf v harr hobj =>
    cases v with
    | num x =>
      obtain ⟨q, rfl⟩ := hfin x hv
      rfl
    | arr vs => exact absurd rfl (harr vs)
    | obj ms => exact absurd rfl (hobj ms)
    | _ => rfl
  | arr vs ih =>
    have hvs := over_arr.mp hv
    rw [Json.normal, normalItems_eq_map, List.map_congr_left fun v hv => ih v hv (hvs v hv),
      List.map_id']
  | obj ms ih =>
    have hms := (over_obj.mp hv).1
    have hmap : ms.map (fun m => (m.1, m.2.normal)) = ms.map id :=
      List.map_congr_left fun m hm => Prod.ext rfl (ih m hm (hms m hm))
    rw [Json.normal, normalMembers_eq_map, hmap, List.map_id]

end Over

/-! ### Plain values -/

def IsPlainNumber (x : JsNumber) : Prop := ∃ z : ℤ, x = .fin z ∧ z.natAbs < 2 ^ 53

theorem readsBack_of_plain (q : ℚ) (h : IsPlainNumber (.fin q)) : ReadsBack (.fin q) := by
  obtain ⟨z, hq, hz⟩ := h
  rw [hq]
  exact ⟨exists_writeNumber_cons hz, fun r hr => readNumber_writeNumber hz hr⟩

theorem finite_of_plain (x : JsNumber) (h : IsPlainNumber x) : ∃ q, x = .fin q := by
  obtain ⟨z, hx, -⟩ := h
  exact ⟨z, hx⟩

mutual

theorem plain_over : (v : Json) → v.Plain → v.Over IsPlainNumber
  | .null, _ => trivial
  | .bool _, _ => trivial
  | .num x, hv => by
    simp only [Json.Plain] at hv
    obtain ⟨z, rfl, hz⟩ := hv
    exact ⟨z, rfl, hz⟩
  | .str _, _ => trivial
  | .arr vs, hv => by
    simp only [Json.Plain] at hv
    rw [Json.Over]
    exact plainItems_over vs hv
  | .obj ms, hv => by
    simp only [Json.Plain] at hv
    rw [Json.Over]
    exact ⟨plainMembers_over ms hv.1, hv.2⟩

theorem plainItems_over : (vs : List Json) → PlainItems vs → OverItems IsPlainNumber vs
  | [], _ => trivial
  | v :: vs, hv => by
    simp only [PlainItems] at hv
    rw [OverItems]
    exact ⟨plain_over v hv.1, plainItems_over vs hv.2⟩

theorem plainMembers_over : (ms : List (String × Json)) → PlainMembers ms →
    OverMembers IsPlainNumber ms
  | [], _ => trivial
  | (_, v) :: ms, hv => by
    simp only [PlainMembers] at hv
    rw [OverMembers]
    exact ⟨plain_over v hv.1, plainMembers_over ms hv.2⟩

end

/-- A plain value is read back from its text. -/
theorem Json.parse_stringify (v : Json) (hv : v.Plain) : Json.parse v.stringify = some v := by
  have hover := plain_over v hv
  rw [Json.parse_stringify_normal readsBack_of_plain v hover,
    normal_of_finite finite_of_plain v hover]

end Liquifact.Lib
