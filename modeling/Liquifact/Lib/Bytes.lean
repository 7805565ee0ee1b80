import Liquifact.Lib.JsonText
import Mathlib.Data.List.TakeWhile

/-!
# Byte buffers and their texts

Hexadecimal, base64url and UTF-8 as a `Buffer` writes and reads them. Reading is lenient:
hexadecimal stops at the first pair that is none, base64 takes both alphabets, passes over
other characters and stops at the padding, and a malformed UTF-8 sequence becomes U+FFFD.
What a buffer wrote it reads back.
-/

namespace Liquifact.Lib

def byte (n : ℕ) : UInt8 := UInt8.ofNat n

theorem byte_toNat {n : ℕ} (h : n < 256) : (byte n).toNat = n := by
  rw [byte, UInt8.toNat_ofNat', Nat.mod_eq_of_lt h]

theorem byte_eq {b : UInt8} {n : ℕ} (h : n = b.toNat) : byte n = b := by
  rw [h, byte, UInt8.ofNat_toNat]

/-! ### Hexadecimal -/

def hexText (bs : List UInt8) : List Char :=
  bs.flatMap fun b => [hexDigit (b.toNat / 16), hexDigit (b.toNat % 16)]

def hexBytes : List Char → List UInt8
  | a :: b :: r =>
    match hexValue a, hexValue b with
    | some x, some y => byte (16 * x + y) :: hexBytes r
    | _, _ => []
  | _ => []

theorem mem_hexText {c : Char} {bs : List UInt8} (h : c ∈ hexText bs) : ∃ n < 16, c = hexDigit n := by
  obtain ⟨b, -, hb⟩ := List.mem_flatMap.mp h
  have hlt := b.toNat_lt
  rcases List.mem_cons.mp hb with rfl | hb
  · exact ⟨_, by omega, rfl⟩
  · exact ⟨_, by omega, List.mem_singleton.mp hb⟩

/- The text opens with two hexadecimal digits. -/
def opensHex : List Char → Bool
  | a :: b :: _ => (hexValue a).isSome && (hexValue b).isSome
  | _ => false

theorem toNat_toLower (c : Char) :
    c.toLower.toNat = if 65 ≤ c.toNat ∧ c.toNat ≤ 90 then c.toNat + 32 else c.toNat := by
  have hupper : (c.val ≥ 'A'.val ∧ c.val ≤ 'Z'.val) ↔ (65 ≤ c.toNat ∧ c.toNat ≤ 90) := by
    simp only [ge_iff_le, UInt32.le_iff_toNat_le]
    rfl
  unfold Char.toLower
  split
  · rename_i h
    have hcode := hupper.mp h
    have hval : c.val.toNat = c.toNat := rfl
    have hshift : ('a'.val - 'A'.val).toNat = 32 := rfl
    rw [if_pos hcode]
    show (c.val + ('a'.val - 'A'.val)).toNat = c.toNat + 32
    rw [UInt32.toNat_add, hval, hshift]
    exact Nat.mod_eq_of_lt (by omega)
  · rename_i h
    rw [if_neg fun hcode => h (hupper.mpr hcode)]

theorem toNat_hexDigit : ∀ n < 16, (hexDigit n).toNat = if n < 10 then 48 + n else 87 + n := by
  decide

/- A digit is read in either case. -/
theorem hexValue_eq_some_iff {c : Char} {n : ℕ} :
    hexValue c = some n ↔ n < 16 ∧ c.toLower = hexDigit n := by
  have hdigit : c.isDigit = true ↔ 48 ≤ c.toNat ∧ c.toNat ≤ 57 := by
    simp only [Char.isDigit, Bool.and_eq_true, decide_eq_true_eq, ge_iff_le, UInt32.le_iff_toNat_le]
    rfl
  have hcode : c.toLower = hexDigit n ↔ c.toLower.toNat = (hexDigit n).toNat := by
    rw [Char.toNat_inj]
  unfold hexValue
  by_cases hn : n < 16
  · rw [hcode, toNat_toLower, toNat_hexDigit n hn]
    simp only [hdigit]
    grind
  · simp only [hdigit]
    grind

theorem hexBytes_eq_nil_iff (cs : List Char) : hexBytes cs = [] ↔ opensHex cs = false := by
  match cs with
  | [] => simp [hexBytes, opensHex]
  | [_] => simp [hexBytes, opensHex]
  | a :: b :: r =>
    rw [hexBytes, opensHex]
    cases hexValue a <;> cases hexValue b <;> simp

theorem hexBytes_eq_cons_iff {cs : List Char} {b : UInt8} {bs : List UInt8} :
    hexBytes cs = b :: bs ↔ ∃ x y r, cs = x :: y :: r ∧ x.toLower = hexDigit (b.toNat / 16) ∧
      y.toLower = hexDigit (b.toNat % 16) ∧ hexBytes r = bs := by
  have hb := b.toNat_lt
  constructor
  · intro h
    match cs with
    | [] => simp [hexBytes] at h
    | [_] => simp [hexBytes] at h
    | x :: y :: r =>
      rw [hexBytes] at h
      split at h
      · rename_i m n hm hn
        obtain ⟨hm16, hx⟩ := hexValue_eq_some_iff.mp hm
        obtain ⟨hn16, hy⟩ := hexValue_eq_some_iff.mp hn
        obtain ⟨rfl, hr⟩ := List.cons.inj h
        rw [byte_toNat (by omega)]
        refine ⟨x, y, r, rfl, ?_, ?_, hr⟩
        · rw [hx, show (16 * m + n) / 16 = m by omega]
        · rw [hy, show (16 * m + n) % 16 = n by omega]
      · cases h
  · rintro ⟨x, y, r, rfl, hx, hy, rfl⟩
    rw [hexBytes, hexValue_eq_some_iff.mpr ⟨by omega, hx⟩, hexValue_eq_some_iff.mpr ⟨by omega, hy⟩]
    simp only
    rw [byte_eq (b := b) (by omega)]

/-- The texts read as some bytes are their hexadecimal in either case, with any text after it
that does not open with two further digits. -/
theorem hexBytes_eq_iff {cs : List Char} {bs : List UInt8} :
    hexBytes cs = bs ↔ (cs.take (hexText bs).length).map Char.toLower = hexText bs ∧
      opensHex (cs.drop (hexText bs).length) = false := by
  induction bs generalizing cs with
  | nil => simp [hexText, hexBytes_eq_nil_iff]
  | cons b bs ih =>
    have htext : hexText (b :: bs) = hexDigit (b.toNat / 16) :: hexDigit (b.toNat % 16) :: hexText bs :=
      rfl
    rw [hexBytes_eq_cons_iff, htext]
    match cs with
    | [] => simp
    | [_] => simp
    | x :: y :: r =>
      simp only [List.length_cons, List.take_succ_cons, List.drop_succ_cons, List.map_cons,
        List.cons.injEq, and_assoc, ← ih]
      constructor
      · rintro ⟨x, y, r, rfl, rfl, rfl, hrest⟩
        exact hrest
      · intro hrest
        exact ⟨x, y, r, rfl, rfl, rfl, hrest⟩

theorem hexBytes_hexText (bs : List UInt8) : hexBytes (hexText bs) = bs := by
  induction bs with
  | nil => rfl
  | cons b bs ih =>
    have hb := b.toNat_lt
    rw [hexText, List.flatMap_cons, List.cons_append, List.cons_append, List.nil_append, hexBytes,
      hexValue_hexDigit _ (by omega), hexValue_hexDigit _ (by omega)]
    simp only
    rw [byte_eq (b := b) (by omega)]
    congr 1

/-! ### base64url -/

def sixChar (n : ℕ) : Char :=
  if n < 26 then Char.ofNat (65 + n)
  else if n < 52 then Char.ofNat (71 + n)
  else if n < 62 then Char.ofNat (n - 4)
  else if n = 62 then '-' else '_'

def sixBits (c : Char) : Option ℕ :=
  let n := c.toNat
  if 65 ≤ n ∧ n ≤ 90 then some (n - 65)
  else if 97 ≤ n ∧ n ≤ 122 then some (n - 71)
  else if 48 ≤ n ∧ n ≤ 57 then some (n + 4)
  else if c = '-' ∨ c = '+' then some 62
  else if c = '_' ∨ c = '/' then some 63
  else none

def sextets : List UInt8 → List ℕ
  | x :: y :: z :: r =>
    x.toNat / 4 :: (x.toNat % 4 * 16 + y.toNat / 16) :: (y.toNat % 16 * 4 + z.toNat / 64) ::
      z.toNat % 64 :: sextets r
  | [x, y] => [x.toNat / 4, x.toNat % 4 * 16 + y.toNat / 16, y.toNat % 16 * 4]
  | [x] => [x.toNat / 4, x.toNat % 4 * 16]
  | [] => []

def octets : List ℕ → List UInt8
  | a :: b :: c :: d :: r =>
    byte (a * 4 + b / 16) :: byte (b % 16 * 16 + c / 4) :: byte (c % 4 * 64 + d) :: octets r
  | [a, b, c] => [byte (a * 4 + b / 16), byte (b % 16 * 16 + c / 4)]
  | [a, b] => [byte (a * 4 + b / 16)]
  | _ => []

def base64urlText (bs : List UInt8) : List Char := (sextets bs).map sixChar

def base64Bytes (cs : List Char) : List UInt8 :=
  octets ((cs.takeWhile (· ≠ '=')).filterMap sixBits)

theorem sixBits_sixChar : ∀ n < 64, sixBits (sixChar n) = some n := by
  decide

theorem sixChar_plain : ∀ n < 64, sixChar n ≠ '=' ∧ sixChar n ≠ '.' := by
  decide

theorem sextets_lt (bs : List UInt8) : ∀ n ∈ sextets bs, n < 64 := by
  induction bs using sextets.induct with
  | case1 x y z r ih =>
    have hx := x.toNat_lt
    have hy := y.toNat_lt
    have hz := z.toNat_lt
    simp only [sextets, List.mem_cons, forall_eq_or_imp]
    exact ⟨by omega, by omega, by omega, by omega, ih⟩
  | case2 x y =>
    have hx := x.toNat_lt
    have hy := y.toNat_lt
    simp only [sextets, List.mem_cons, forall_eq_or_imp]
    exact ⟨by omega, by omega, by omega, by simp⟩
  | case3 x =>
    have hx := x.toNat_lt
    simp only [sextets, List.mem_cons, forall_eq_or_imp]
    exact ⟨by omega, by omega, by simp⟩
  | case4 => simp [sextets]

theorem octets_sextets (bs : List UInt8) : octets (sextets bs) = bs := by
  induction bs using sextets.induct with
  | case1 x y z r ih =>
    have hx := x.toNat_lt
    have hy := y.toNat_lt
    have hz := z.toNat_lt
    simp only [sextets, octets, ih]
    rw [byte_eq (b := x) (by omega), byte_eq (b := y) (by omega), byte_eq (b := z) (by omega)]
  | case2 x y =>
    have hx := x.toNat_lt
    have hy := y.toNat_lt
    simp only [sextets, octets]
    rw [byte_eq (b := x) (by omega), byte_eq (b := y) (by omega)]
  | case3 x =>
    have hx := x.toNat_lt
    simp only [sextets, octets]
    rw [byte_eq (b := x) (by omega)]
  | case4 => rfl

theorem base64Bytes_base64urlText (bs : List UInt8) : base64Bytes (base64urlText bs) = bs := by
  have hpad : (base64urlText bs).takeWhile (· ≠ '=') = base64urlText bs := by
    rw [List.takeWhile_eq_self_iff]
    intro c hc
    obtain ⟨n, hn, rfl⟩ := List.mem_map.mp hc
    simpa using (sixChar_plain n (sextets_lt bs n hn)).1
  have hback : (base64urlText bs).filterMap sixBits = sextets bs := by
    rw [base64urlText, List.filterMap_map]
    calc (sextets bs).filterMap (sixBits ∘ sixChar) = (sextets bs).filterMap some :=
          List.filterMap_congr fun n hn => sixBits_sixChar n (sextets_lt bs n hn)
      _ = sextets bs := List.filterMap_some
  rw [base64Bytes, hpad, hback, octets_sextets]

/-! ### UTF-8 -/

def utf8Char (c : Char) : List UInt8 :=
  let n := c.toNat
  if n < 0x80 then [byte n]
  else if n < 0x800 then [byte (0xC0 + n / 64), byte (0x80 + n % 64)]
  else if n < 0x10000 then
    [byte (0xE0 + n / 4096), byte (0x80 + n / 64 % 64), byte (0x80 + n % 64)]
  else
    [byte (0xF0 + n / 262144), byte (0x80 + n / 4096 % 64), byte (0x80 + n / 64 % 64),
      byte (0x80 + n % 64)]

def utf8Bytes (s : String) : List UInt8 := s.toList.flatMap utf8Char

/- A leading byte: how many bytes follow, its payload, and the range of the next byte. -/
def leadByte (b : ℕ) : Option (ℕ × ℕ × ℕ × ℕ) :=
  if b < 0x80 then some (0, b, 0x80, 0xBF)
  else if 0xC2 ≤ b ∧ b ≤ 0xDF then some (1, b - 0xC0, 0x80, 0xBF)
  else if 0xE0 ≤ b ∧ b ≤ 0xEF then
    some (2, b - 0xE0, if b = 0xE0 then 0xA0 else 0x80, if b = 0xED then 0x9F else 0xBF)
  else if 0xF0 ≤ b ∧ b ≤ 0xF4 then
    some (3, b - 0xF0, if b = 0xF0 then 0x90 else 0x80, if b = 0xF4 then 0x8F else 0xBF)
  else none

def tailBytes : ℕ → ℕ → ℕ → ℕ → List UInt8 → Option ℕ × List UInt8
  | 0, _, _, code, r => (some code, r)
  | _ + 1, _, _, _, [] => (none, [])
  | count + 1, low, high, code, b :: r =>
    if low ≤ b.toNat ∧ b.toNat ≤ high then
      tailBytes count 0x80 0xBF (code * 64 + (b.toNat - 0x80)) r
    else (none, b :: r)

def decodeUtf8 : ℕ → List UInt8 → List Char
  | _, [] => []
  | 0, _ => []
  | fuel + 1, b :: r =>
    match leadByte b.toNat with
    | none => Char.ofNat 0xFFFD :: decodeUtf8 fuel r
    | some (count, code, low, high) =>
      match tailBytes count low high code r with
      | (none, rest) => Char.ofNat 0xFFFD :: decodeUtf8 fuel rest
      | (some code, rest) => Char.ofNat code :: decodeUtf8 fuel rest

def utf8Text (bs : List UInt8) : String := String.ofList (decodeUtf8 bs.length bs)

theorem tailBytes_step {count low high code n : ℕ} {r : List UInt8} (hn : n < 64)
    (hlow : low ≤ 0x80 + n) (hhigh : 0x80 + n ≤ high) :
    tailBytes (count + 1) low high code (byte (0x80 + n) :: r) =
      tailBytes count 0x80 0xBF (code * 64 + n) r := by
  rw [tailBytes, byte_toNat (by omega), if_pos ⟨hlow, hhigh⟩, Nat.add_sub_cancel_left]

theorem decodeUtf8_char (c : Char) (fuel : ℕ) (r : List UInt8) :
    decodeUtf8 (fuel + 1) (utf8Char c ++ r) = c :: decodeUtf8 fuel r := by
  obtain ⟨hgap, hmax⟩ := toNat_bounds c
  unfold utf8Char
  dsimp only
  split
  · have hlead : leadByte c.toNat = some (0, c.toNat, 0x80, 0xBF) := if_pos (by omega)
    rw [List.singleton_append, decodeUtf8, byte_toNat (by omega), hlead]
    simp [tailBytes]
  split
  · have hlead : leadByte (0xC0 + c.toNat / 64) = some (1, c.toNat / 64, 0x80, 0xBF) := by
      rw [leadByte, if_neg (by omega), if_pos (by omega), Nat.add_sub_cancel_left]
    have hcode : c.toNat / 64 * 64 + c.toNat % 64 = c.toNat := by omega
    rw [List.cons_append, List.singleton_append, decodeUtf8, byte_toNat (by omega), hlead]
    simp only
    rw [tailBytes_step (by omega) (by omega) (by omega), hcode]
    simp [tailBytes]
  split
  · have hlead : leadByte (0xE0 + c.toNat / 4096) = some (2, c.toNat / 4096,
        if 0xE0 + c.toNat / 4096 = 0xE0 then 0xA0 else 0x80,
        if 0xE0 + c.toNat / 4096 = 0xED then 0x9F else 0xBF) := by
      rw [leadByte, if_neg (by omega), if_neg (by omega), if_pos (by omega), Nat.add_sub_cancel_left]
    have hcode : (c.toNat / 4096 * 64 + c.toNat / 64 % 64) * 64 + c.toNat % 64 = c.toNat := by omega
    rw [List.cons_append, List.cons_append, List.singleton_append, decodeUtf8, byte_toNat (by omega),
      hlead]
    simp only
    rw [tailBytes_step (by omega) (by split <;> omega) (by split <;> omega),
      tailBytes_step (by omega) (by omega) (by omega), hcode]
    simp [tailBytes]
  · have hlead : leadByte (0xF0 + c.toNat / 262144) = some (3, c.toNat / 262144,
        if 0xF0 + c.toNat / 262144 = 0xF0 then 0x90 else 0x80,
        if 0xF0 + c.toNat / 262144 = 0xF4 then 0x8F else 0xBF) := by
      rw [leadByte, if_neg (by omega), if_neg (by omega), if_neg (by omega), if_pos (by omega),
        Nat.add_sub_cancel_left]
    have hcode : ((c.toNat / 262144 * 64 + c.toNat / 4096 % 64) * 64 + c.toNat / 64 % 64) * 64 +
        c.toNat % 64 = c.toNat := by omega
    rw [List.cons_append, List.cons_append, List.cons_append, List.singleton_append, decodeUtf8,
      byte_toNat (by omega), hlead]
    simp only
    rw [tailBytes_step (by omega) (by split <;> omega) (by split <;> omega),
      tailBytes_step (by omega) (by omega) (by omega), tailBytes_step (by omega) (by omega) (by omega),
      hcode]
    simp [tailBytes]

theorem utf8Char_length (c : Char) : 1 ≤ (utf8Char c).length := by
  unfold utf8Char
  dsimp only
  split
  · simp
  split
  · simp
  split
  · simp
  · simp

theorem decodeUtf8_flatMap (cs : List Char) (fuel : ℕ) (h : (cs.flatMap utf8Char).length ≤ fuel) :
    decodeUtf8 fuel (cs.flatMap utf8Char) = cs := by
  induction cs generalizing fuel with
  | nil => cases fuel <;> rfl
  | cons c cs ih =>
    have hpos := utf8Char_length c
    rw [List.flatMap_cons, List.length_append] at h
    obtain ⟨n, rfl⟩ : ∃ n, fuel = n + 1 := ⟨fuel - 1, by omega⟩
    rw [List.flatMap_cons, decodeUtf8_char, ih n (by omega)]

theorem utf8Text_utf8Bytes (s : String) : utf8Text (utf8Bytes s) = s := by
  rw [utf8Text, utf8Bytes, decodeUtf8_flatMap _ _ le_rfl, String.ofList_toList]

end Liquifact.Lib
