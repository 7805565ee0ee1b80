import Liquifact.Lib.ToNumber
import Liquifact.Webhooks.WebhookService

/-!
# Verifying a signature header (`src/services/webhooks.js`)

`verifySignature` (276-320) splits the header at commas, keeps the last part that opens with
`t=` as a timestamp and the last that opens with `v1=` as a signature, and compares the bytes
that the signature denotes with the HMAC of the timestamp, a dot and the body.
`parseInt` passes over what follows the digits, `Buffer.from(signature, 'hex')` reads letters
of either case and stops at the first pair that is no digit, and `crypto.timingSafeEqual`
throws on buffers of different lengths. `now` is `Date.now()` and `sha256` is HMAC-SHA256.
-/

namespace Liquifact.Webhooks
open Liquifact.Lib

abbrev Digest := { bs : List UInt8 // bs.length = 32 }

abbrev Hmac := String → String → Digest

def TOLERANCE_MS : JsNumber := .fin 300000

def MAX_SIGNATURE_HEADER_LENGTH : ℕ := 256

def MAX_SIGNATURE_HEADER_PARTS : ℕ := 10

/-! ### The header -/

def headerParts (header : String) : List (List Char) := header.toList.splitOn ','

def withinLimits (header : String) : Bool :=
  decide ((utf16 header).length ≤ MAX_SIGNATURE_HEADER_LENGTH ∧
    (headerParts header).length ≤ MAX_SIGNATURE_HEADER_PARTS)

structure SignatureHeader where
  timestamp : Option JsNumber
  signature : Option (List Char)

def readPart (h : SignatureHeader) (part : List Char) : SignatureHeader :=
  match ['t', '='].isPrefixOf? part with
  | some text => { h with timestamp := some (parseInt text) }
  | none =>
    match ['v', '1', '='].isPrefixOf? part with
    | some text => { h with signature := some text }
    | none => h

def readHeader (header : String) : SignatureHeader := (headerParts header).foldl readPart ⟨none, none⟩

/-! ### Verification -/

structure Verified where
  valid : Bool
  error : Option String

def refusedWith (error : String) : Except String Verified := .ok ⟨false, some error⟩

/- `Math.abs(now - timestamp * 1000)`. -/
def skew (now : ℤ) (timestamp : JsNumber) : JsNumber :=
  let timestampMs := match timestamp with
    | .fin q => roundDouble (q * 1000)
    | x => x
  match JsNumber.add (.fin now) timestampMs.neg with
  | .fin q => roundDouble |q|
  | .negInf => .posInf
  | x => x

def timingSafeEqual (a b : List UInt8) : Except String Bool :=
  if a.length = b.length then .ok (decide (a = b))
  else .error "Input buffers must have the same byte length"

section Verify
variable (sha256 : Hmac) (secret rawBody : String)

/- `createSignature` with any number for a timestamp. -/
def signatureDigest (timestamp : JsNumber) : Digest :=
  sha256 secret (numberText timestamp ++ "." ++ rawBody)

def verifySignature (toleranceMs : JsNumber) (now : ℤ) (header : String) : Except String Verified :=
  if withinLimits header = false then refusedWith "Invalid signature header format"
  else match (readHeader header).timestamp, (readHeader header).signature with
    | some timestamp, some signature =>
      if timestamp.truthy = false ∨ signature = [] then refusedWith "Invalid signature header format"
      else if JsNumber.lt toleranceMs (skew now timestamp) then
        refusedWith "Timestamp outside tolerance window"
      else do
        let expected := hexText (signatureDigest sha256 secret rawBody timestamp).1
        let valid ← timingSafeEqual (hexBytes signature) (hexBytes expected)
        .ok ⟨valid, if valid then none else some "Signature mismatch"⟩
    | _, _ => refusedWith "Invalid signature header format"

end Verify

/-! ### What a header carries -/

/- The text of the last part that opens with `name`. -/
def lastPart (name : List Char) (header : String) : Option (List Char) :=
  ((headerParts header).filterMap name.isPrefixOf?).getLast?

def timestampPart : String → Option (List Char) := lastPart ['t', '=']

def signaturePart : String → Option (List Char) := lastPart ['v', '1', '=']

/- The key of a signature is a string here. -/
def keyed (sha256 : Hmac) (key : Json) (text : String) : Except String (List UInt8) :=
  .ok (sha256 key.text text).1

section Exactness
variable (sha256 : Hmac) (secret rawBody : String) (toleranceMs : JsNumber) (now : ℤ) (header : String)

def InTolerance (timestamp : JsNumber) : Prop := JsNumber.lt toleranceMs (skew now timestamp) = false

/- Within the limits of the format: the text of a timestamp that is in tolerance, and the
hexadecimal of the HMAC of that timestamp, a dot and the body. -/
def Carries : Prop :=
  withinLimits header = true ∧ ∃ q : ℚ, timestampPart header = some (numberText (.fin q)).toList ∧
    parseInt (numberText (.fin q)).toList = .fin q ∧ InTolerance toleranceMs now (.fin q) ∧
    signaturePart header = some (hexText (signatureDigest sha256 secret rawBody (.fin q)).1)

structure VerifiedExactly : Prop where
  returns : ∃ r, verifySignature sha256 secret rawBody toleranceMs now header = .ok r
  valid_iff : (∃ r, verifySignature sha256 secret rawBody toleranceMs now header = .ok r ∧
    r.valid = true) ↔ Carries sha256 secret rawBody toleranceMs now header
  issued : ∀ at' : ℤ, at'.natAbs ≤ 8640000000000000 →
    createSignatureHeader (keyed sha256) (.str secret) rawBody at' = .ok header →
    InTolerance toleranceMs now (.fin (at' / 1000 : ℤ)) →
    ∃ r, verifySignature sha256 secret rawBody toleranceMs now header = .ok r ∧ r.valid = true

/- What the comparison is reached with: a timestamp in tolerance that is not zero, and a
signature that is not empty. -/
structure Presents (timestamp : JsNumber) (signature : List Char) : Prop where
  limits : withinLimits header = true
  timestamp_eq : (timestampPart header).map parseInt = some timestamp
  signature_eq : signaturePart header = some signature
  truthy : timestamp.truthy = true
  nonempty : signature ≠ []
  timely : InTolerance toleranceMs now timestamp

/- The signature does not denote 32 bytes. -/
def Undecodable : Prop :=
  ∃ timestamp signature, Presents toleranceMs now header timestamp signature ∧
    (hexBytes signature).length ≠ 32

/- The signature denotes the HMAC of the timestamp that is read, and one of the two is written
in another way than `createSignatureHeader` writes it. -/
def Respelt : Prop :=
  ∃ timestamp signature, Presents toleranceMs now header timestamp signature ∧
    hexBytes signature = (signatureDigest sha256 secret rawBody timestamp).1 ∧
    (timestampPart header ≠ some (numberText timestamp).toList ∨
      signature ≠ hexText (signatureDigest sha256 secret rawBody timestamp).1)

/- The header is right and its timestamp is zero. -/
def AtEpoch : Prop :=
  withinLimits header = true ∧ timestampPart header = some ['0'] ∧
    InTolerance toleranceMs now (.fin 0) ∧
    signaturePart header = some (hexText (signatureDigest sha256 secret rawBody (.fin 0)).1)

end Exactness

theorem foldl_readPart (parts : List (List Char)) :
    parts.foldl readPart ⟨none, none⟩ =
      ⟨((parts.filterMap (['t', '='].isPrefixOf? ·)).getLast?).map parseInt,
        (parts.filterMap (['v', '1', '='].isPrefixOf? ·)).getLast?⟩ := by
  induction parts using List.reverseRecOn with
  | nil => rfl
  | append_singleton parts part ih =>
    rw [List.foldl_append, ih, List.foldl_cons, List.foldl_nil, List.filterMap_append,
      List.filterMap_append, readPart]
    cases ht : ['t', '='].isPrefixOf? part with
    | some text =>
      have hv : ['v', '1', '='].isPrefixOf? part = none := by
        match part with
        | [] => rfl
        | c :: cs =>
          rw [List.isPrefixOf?.eq_def] at ht ⊢
          simp only at ht ⊢
          split at ht
          · next hc =>
            rw [beq_iff_eq] at hc
            subst hc
            rfl
          · cases ht
      simp [ht, hv]
    | none =>
      cases hv : ['v', '1', '='].isPrefixOf? part with
      | some text => simp [ht, hv]
      | none => simp [ht, hv]

theorem readHeader_eq (header : String) :
    readHeader header = ⟨(timestampPart header).map parseInt, signaturePart header⟩ :=
  foldl_readPart (headerParts header)

section Spec
variable {sha256 : Hmac} {secret rawBody : String} {toleranceMs : JsNumber} {now : ℤ} {header : String}
  {timestamp : JsNumber} {signature : List Char}

theorem verifySignature_presents (h : Presents toleranceMs now header timestamp signature) :
    verifySignature sha256 secret rawBody toleranceMs now header =
      if (hexBytes signature).length = 32 then
        if hexBytes signature = (signatureDigest sha256 secret rawBody timestamp).1 then .ok ⟨true, none⟩
        else .ok ⟨false, some "Signature mismatch"⟩
      else .error "Input buffers must have the same byte length" := by
  have hlimits : ¬ withinLimits header = false := by simp [h.limits]
  have hparts : ¬ (timestamp.truthy = false ∨ signature = []) := by simp [h.truthy, h.nonempty]
  have htimely : JsNumber.lt toleranceMs (skew now timestamp) = false := h.timely
  have hlen := (signatureDigest sha256 secret rawBody timestamp).2
  rw [verifySignature, if_neg hlimits, readHeader_eq, h.timestamp_eq, h.signature_eq]
  simp only [if_neg hparts, htimely, Bool.false_eq_true, if_false, hexBytes_hexText, timingSafeEqual,
    hlen]
  by_cases h32 : (hexBytes signature).length = 32
  · rw [if_pos h32, if_pos h32]
    by_cases heq : hexBytes signature = (signatureDigest sha256 secret rawBody timestamp).1
    · simp [heq, bind, Except.bind]
    · simp [heq, bind, Except.bind]
  · rw [if_neg h32, if_neg h32]
    rfl

variable (sha256 secret rawBody) in
/- Before the comparison every header is refused. -/
theorem verifySignature_refused
    (h : ∀ timestamp signature, ¬ Presents toleranceMs now header timestamp signature) :
    ∃ error, verifySignature sha256 secret rawBody toleranceMs now header = refusedWith error := by
  unfold verifySignature
  split
  · exact ⟨_, rfl⟩
  · next hlimits =>
    rw [Bool.not_eq_false] at hlimits
    split
    · next timestamp signature ht hs =>
      rw [readHeader_eq] at ht hs
      split
      · exact ⟨_, rfl⟩
      · next hparts =>
        rw [not_or, Bool.not_eq_false] at hparts
        split
        · exact ⟨_, rfl⟩
        · next htimely =>
          rw [Bool.not_eq_true] at htimely
          exact absurd ⟨hlimits, ht, hs, hparts.1, hparts.2, htimely⟩ (h timestamp signature)
    · exact ⟨_, rfl⟩

theorem Presents.unique (h : Presents toleranceMs now header timestamp signature)
    {timestamp' : JsNumber} {signature' : List Char}
    (h' : Presents toleranceMs now header timestamp' signature') :
    timestamp' = timestamp ∧ signature' = signature := by
  have ht := h'.timestamp_eq.symm.trans h.timestamp_eq
  have hs := h'.signature_eq.symm.trans h.signature_eq
  exact ⟨Option.some.inj ht, Option.some.inj hs⟩

/- A header that carries both parts reaches the comparison, unless its timestamp is zero. -/
theorem Carries.presents (h : Carries sha256 secret rawBody toleranceMs now header)
    (hepoch : ¬ AtEpoch sha256 secret rawBody toleranceMs now header) :
    ∃ timestamp, Presents toleranceMs now header timestamp
        (hexText (signatureDigest sha256 secret rawBody timestamp).1) ∧
      timestampPart header = some (numberText timestamp).toList := by
  obtain ⟨hlimits, q, htext, hparse, htimely, hsig⟩ := h
  refine ⟨.fin q, ⟨hlimits, by rw [htext, Option.map_some, hparse], hsig, ?_, ?_, htimely⟩, htext⟩
  · rw [JsNumber.truthy, decide_eq_true_eq]
    rintro rfl
    exact hepoch ⟨hlimits, htext, htimely, hsig⟩
  · intro hnil
    have hlen := (signatureDigest sha256 secret rawBody (.fin q)).2
    rw [← hexBytes_hexText (signatureDigest sha256 secret rawBody (.fin q)).1, hnil] at hlen
    cases hlen

theorem valid_of_carries (h : Carries sha256 secret rawBody toleranceMs now header)
    (hepoch : ¬ AtEpoch sha256 secret rawBody toleranceMs now header) :
    ∃ r, verifySignature sha256 secret rawBody toleranceMs now header = .ok r ∧ r.valid = true := by
  obtain ⟨timestamp, hpresents, -⟩ := h.presents hepoch
  refine ⟨⟨true, none⟩, ?_, rfl⟩
  rw [verifySignature_presents hpresents, hexBytes_hexText, if_pos (signatureDigest ..).2, if_pos rfl]

/- A valid header reached the comparison, with the bytes of the HMAC. -/
theorem presents_of_valid {r : Verified}
    (h : verifySignature sha256 secret rawBody toleranceMs now header = .ok r) (hvalid : r.valid = true) :
    ∃ timestamp signature, Presents toleranceMs now header timestamp signature ∧
      hexBytes signature = (signatureDigest sha256 secret rawBody timestamp).1 := by
  by_cases hex : ∃ timestamp signature, Presents toleranceMs now header timestamp signature
  · obtain ⟨timestamp, signature, hpresents⟩ := hex
    refine ⟨timestamp, signature, hpresents, ?_⟩
    rw [verifySignature_presents hpresents] at h
    split at h
    · split at h
      · assumption
      · cases h
        cases hvalid
    · cases h
  · obtain ⟨error, hrefused⟩ := verifySignature_refused sha256 secret rawBody
      fun timestamp signature hp => hex ⟨timestamp, signature, hp⟩
    rw [hrefused] at h
    cases h
    cases hvalid

theorem carries_of_presents (h : Presents toleranceMs now header timestamp signature)
    (hdigest : hexBytes signature = (signatureDigest sha256 secret rawBody timestamp).1)
    (hspelt : ¬ Respelt sha256 secret rawBody toleranceMs now header) :
    Carries sha256 secret rawBody toleranceMs now header := by
  have hplain : timestampPart header = some (numberText timestamp).toList ∧
      signature = hexText (signatureDigest sha256 secret rawBody timestamp).1 := by
    by_contra hne
    rw [Classical.not_and_iff_not_or_not] at hne
    exact hspelt ⟨timestamp, signature, h, hdigest, hne⟩
  obtain ⟨htext, hsig⟩ := hplain
  have hparse := h.timestamp_eq
  rw [htext, Option.map_some, Option.some.injEq] at hparse
  cases timestamp with
  | nan => cases h.truthy
  | posInf =>
    have hnan : parseInt (numberText .posInf).toList = .nan := by rfl
    rw [hnan] at hparse
    cases hparse
  | negInf =>
    have hnan : parseInt (numberText .negInf).toList = .nan := by rfl
    rw [hnan] at hparse
    cases hparse
  | fin q => exact ⟨h.limits, q, htext, hparse, h.timely, h.signature_eq.trans (congrArg some hsig)⟩

/-! ### What `createSignatureHeader` wrote -/

theorem utf16_length_ascii {s : String} (h : ∀ c ∈ s.toList, c.toNat < 128) :
    (utf16 s).length = s.toList.length := by
  have hunit : ∀ c ∈ s.toList, (codeUnits c).length = 1 := by
    intro c hc
    have hlt := h c hc
    rw [codeUnits, if_pos (by omega), List.length_singleton]
  rw [utf16, List.length_flatMap, List.map_congr_left hunit]
  simp

theorem toString_toList {z : ℤ} (h : z.natAbs < 2 ^ 53) :
    (toString z).toList = writeNumber (.fin z) := by
  rcases lt_or_ge z 0 with hneg | hpos
  · obtain ⟨n, rfl⟩ : ∃ n : ℕ, z = Int.negSucc n := ⟨z.natAbs - 1, by omega⟩
    rw [Int.cast_negSucc, writeNumber_neg (by omega) (by omega)]
    show ("-" ++ Nat.repr (n + 1)).toList = _
    rw [String.toList_append, Nat.toList_repr]
    rfl
  · obtain ⟨n, rfl⟩ : ∃ n : ℕ, z = (n : ℤ) := ⟨z.natAbs, by omega⟩
    rw [Int.cast_natCast, writeNumber_natCast (by omega)]
    exact Nat.toList_repr

theorem writeNumber_chars {z : ℤ} (h : z.natAbs < 10 ^ 14) :
    (∀ c ∈ writeNumber (.fin z), c.toNat < 128 ∧ c ≠ ',') ∧ (writeNumber (.fin z)).length ≤ 15 := by
  have hdigit : ∀ c : Char, c.isDigit = true → c.toNat < 128 ∧ c ≠ ',' := by
    intro c hc
    have hcode := isDigit_toNat hc
    refine ⟨by omega, ?_⟩
    rintro rfl
    cases hc
  have hlen : ∀ n < 10 ^ 14, (Nat.toDigits 10 n).length ≤ 14 := fun n hn =>
    (Nat.length_toDigits_le_iff (by omega) (by omega)).mpr hn
  rcases lt_or_ge z 0 with hneg | hpos
  · obtain ⟨n, rfl⟩ : ∃ n : ℕ, z = -(n : ℤ) := ⟨z.natAbs, by omega⟩
    push_cast
    rw [writeNumber_neg (by omega) (by omega), List.forall_mem_cons, List.length_cons]
    have hn := hlen n (by omega)
    exact ⟨⟨by decide, fun c hc => hdigit c (isDigit_toDigits n c hc)⟩, by omega⟩
  · obtain ⟨n, rfl⟩ : ∃ n : ℕ, z = (n : ℤ) := ⟨z.natAbs, by omega⟩
    rw [Int.cast_natCast, writeNumber_natCast (by omega)]
    have hn := hlen n (by omega)
    exact ⟨fun c hc => hdigit c (isDigit_toDigits n c hc), by omega⟩

theorem hexText_chars (bs : List UInt8) : ∀ c ∈ hexText bs, c.toNat < 128 ∧ c ≠ ',' := by
  have hall : ∀ n < 16, (hexDigit n).toNat < 128 ∧ hexDigit n ≠ ',' := by decide
  intro c hc
  obtain ⟨n, hn, rfl⟩ := mem_hexText hc
  exact hall n hn

theorem hexText_length (bs : List UInt8) : (hexText bs).length = 2 * bs.length := by
  induction bs with
  | nil => rfl
  | cons b bs ih =>
    have htext : hexText (b :: bs) = hexDigit (b.toNat / 16) :: hexDigit (b.toNat % 16) :: hexText bs :=
      rfl
    rw [htext, List.length_cons, List.length_cons, List.length_cons, ih]
    omega

/- The header of a timestamp and a signature that hold no comma. -/
theorem header_parts {t sig : List Char} (ht : ∀ c ∈ t, c.toNat < 128 ∧ c ≠ ',')
    (hsig : ∀ c ∈ sig, c.toNat < 128 ∧ c ≠ ',') (hlen : t.length + sig.length ≤ 250)
    (hheader : header.toList = 't' :: '=' :: (t ++ ',' :: 'v' :: '1' :: '=' :: sig)) :
    withinLimits header = true ∧ timestampPart header = some t ∧ signaturePart header = some sig := by
  have hsplit : headerParts header = ['t' :: '=' :: t, 'v' :: '1' :: '=' :: sig] := by
    have hfirst : ',' ∉ 't' :: '=' :: t := by
      have hmem : ',' ∉ t := fun hc => (ht _ hc).2 rfl
      simp [hmem]
    have hsecond : ',' ∉ 'v' :: '1' :: '=' :: sig := by
      have hmem : ',' ∉ sig := fun hc => (hsig _ hc).2 rfl
      simp [hmem]
    rw [headerParts, hheader]
    exact (List.splitOn_append_cons_self_of_not_mem hfirst _).trans
      (congrArg _ (List.splitOn_eq_singleton hsecond))
  refine ⟨?_, ?_, ?_⟩
  · have hascii : ∀ c ∈ header.toList, c.toNat < 128 := by
      simp only [hheader, List.forall_mem_cons, List.forall_mem_append]
      exact ⟨by decide, by decide, fun c hc => (ht c hc).1, by decide, by decide, by decide, by decide,
        fun c hc => (hsig c hc).1⟩
    rw [withinLimits, decide_eq_true_eq, utf16_length_ascii hascii, hsplit, hheader]
    simp [MAX_SIGNATURE_HEADER_LENGTH, MAX_SIGNATURE_HEADER_PARTS]
    omega
  · rw [timestampPart, lastPart, hsplit]
    rfl
  · rw [signaturePart, lastPart, hsplit]
    rfl

/- A header that was issued for the secret and the body carries its timestamp. -/
theorem carries_issued {at' : ℤ} (hrange : at'.natAbs ≤ 8640000000000000)
    (h : createSignatureHeader (keyed sha256) (.str secret) rawBody at' = .ok header)
    (htimely : InTolerance toleranceMs now (.fin (at' / 1000 : ℤ))) :
    Carries sha256 secret rawBody toleranceMs now header := by
  have hseconds : (at' / 1000).natAbs < 10 ^ 14 := by omega
  have hsafe : (at' / 1000).natAbs < 2 ^ 53 := by omega
  have hnumber : (numberText (.fin (at' / 1000 : ℤ))).toList = writeNumber (.fin (at' / 1000 : ℤ)) :=
    rfl
  have htext : toString (at' / 1000) = numberText (.fin (at' / 1000 : ℤ)) :=
    String.toList_injective ((toString_toList hsafe).trans hnumber.symm)
  obtain ⟨hchars, hlen⟩ := writeNumber_chars hseconds
  have hdigest := hexText_length (signatureDigest sha256 secret rawBody (.fin (at' / 1000 : ℤ))).1
  rw [(signatureDigest ..).2] at hdigest
  have hheader : header.toList = 't' :: '=' :: (writeNumber (.fin (at' / 1000 : ℤ)) ++
      ',' :: 'v' :: '1' :: '=' ::
        hexText (signatureDigest sha256 secret rawBody (.fin (at' / 1000 : ℤ))).1) := by
    simp only [createSignatureHeader, createSignature, keyed, Json.text, Except.map, htext] at h
    cases h
    simp only [String.toList_append, String.toList_ofList, hnumber]
    simp [signatureDigest]
  obtain ⟨hlimits, ht, hs⟩ := header_parts hchars (hexText_chars _) (by omega) hheader
  exact ⟨hlimits, ((at' / 1000 : ℤ) : ℚ), ht, parseInt_writeNumber hsafe, htimely, hs⟩

end Spec

/-- For every secret, body, tolerance, clock and header: the verification returns, accepts
exactly the headers that carry a timestamp in tolerance and the signature of it, and accepts
what `createSignatureHeader` wrote, if and only if the signature of a header that is compared
denotes 32 bytes, neither of its two parts is spelt in another way, and its timestamp is not
the epoch. -/
theorem verified_exactly_iff (sha256 : Hmac) (secret rawBody : String) (toleranceMs : JsNumber)
    (now : ℤ) (header : String) :
    VerifiedExactly sha256 secret rawBody toleranceMs now header ↔
      ¬ Undecodable toleranceMs now header ∧
      ¬ Respelt sha256 secret rawBody toleranceMs now header ∧
      ¬ AtEpoch sha256 secret rawBody toleranceMs now header := by
  constructor
  · intro h
    refine ⟨?_, ?_, ?_⟩
    · rintro ⟨timestamp, signature, hpresents, hlen⟩
      obtain ⟨r, hr⟩ := h.returns
      rw [verifySignature_presents hpresents, if_neg hlen] at hr
      cases hr
    · rintro ⟨timestamp, signature, hpresents, hdigest, hspelt⟩
      have hvalid : verifySignature sha256 secret rawBody toleranceMs now header = .ok ⟨true, none⟩ := by
        rw [verifySignature_presents hpresents, if_pos hdigest, hdigest, if_pos (signatureDigest ..).2]
      obtain ⟨-, q, htext, hparse, -, hsig⟩ := h.valid_iff.mp ⟨_, hvalid, rfl⟩
      have ht := hpresents.timestamp_eq
      rw [htext, Option.map_some, hparse, Option.some.injEq] at ht
      subst ht
      rcases hspelt with hspelt | hspelt
      · exact hspelt htext
      · exact hspelt (Option.some.inj (hpresents.signature_eq.symm.trans hsig))
    · rintro ⟨hlimits, htext, htimely, hsig⟩
      have hzero : parseInt ['0'] = .fin 0 := by rfl
      obtain ⟨r, hr, hvalid⟩ := h.valid_iff.mpr ⟨hlimits, 0, htext, hzero, htimely, hsig⟩
      obtain ⟨timestamp, signature, hpresents, -⟩ := presents_of_valid hr hvalid
      have ht := hpresents.timestamp_eq
      rw [htext, Option.map_some, hzero, Option.some.injEq] at ht
      subst ht
      cases hpresents.truthy
  · rintro ⟨hdecodes, hspelt, hepoch⟩
    refine ⟨?_, ⟨?_, fun hcarries => valid_of_carries hcarries hepoch⟩, ?_⟩
    · by_cases hex : ∃ timestamp signature, Presents toleranceMs now header timestamp signature
      · obtain ⟨timestamp, signature, hpresents⟩ := hex
        have hlen : (hexBytes signature).length = 32 := by
          by_contra hne
          exact hdecodes ⟨timestamp, signature, hpresents, hne⟩
        rw [verifySignature_presents hpresents, if_pos hlen]
        split
        · exact ⟨_, rfl⟩
        · exact ⟨_, rfl⟩
      · obtain ⟨error, hrefused⟩ := verifySignature_refused sha256 secret rawBody
          fun timestamp signature hp => hex ⟨timestamp, signature, hp⟩
        exact ⟨_, hrefused⟩
    · rintro ⟨r, hr, hvalid⟩
      obtain ⟨timestamp, signature, hpresents, hdigest⟩ := presents_of_valid hr hvalid
      exact carries_of_presents hpresents hdigest hspelt
    · intro at' hrange hissued htimely
      exact valid_of_carries (carries_issued hrange hissued htimely) hepoch

def shortSignatureHeader : String := "t=1700000000,v1=abc123"

theorem skew_now : skew 1700000000000 (.fin 1700000000) = .fin 0 := by
  have hms : (1700000000 : ℚ) * 1000 = ((1700000000000 : ℤ) : ℚ) := by norm_num
  have hround : roundDouble ((1700000000000 : ℤ) : ℚ) = .fin ((1700000000000 : ℤ) : ℚ) :=
    roundDouble_intCast (by decide)
  simp only [skew, hms, hround, JsNumber.neg, JsNumber.add, add_neg_cancel, abs_zero]
  exact roundDouble_intCast (z := 0) (by decide)

/- A signature of three bytes, with a timestamp that is on time. -/
theorem shortSignature_presents : Presents TOLERANCE_MS 1700000000000 shortSignatureHeader
    (.fin 1700000000) ['a', 'b', 'c', '1', '2', '3'] := by
  have hdigits : Nat.toDigits 10 1700000000 = ['1', '7', '0', '0', '0', '0', '0', '0', '0', '0'] := by
    decide
  have hparse : parseInt (Nat.toDigits 10 1700000000) = .fin ((1 * (1700000000 : ℕ) : ℤ) : ℚ) := by
    refine parseInt_signed ?_ ?_ (by decide)
    · rw [hdigits]
      decide
    · rw [hdigits]
      rfl
  have hvalue : ((1 * (1700000000 : ℕ) : ℤ) : ℚ) = 1700000000 := by norm_num
  have hheader : shortSignatureHeader.toList = 't' :: '=' :: (Nat.toDigits 10 1700000000 ++
      ',' :: 'v' :: '1' :: '=' :: ['a', 'b', 'c', '1', '2', '3']) := by
    rw [hdigits, shortSignatureHeader, String.toList_ofList]
    rfl
  have hplain : ∀ c ∈ Nat.toDigits 10 1700000000, c.toNat < 128 ∧ c ≠ ',' := by
    rw [hdigits]
    simp
  have hsigned : ∀ c ∈ ['a', 'b', 'c', '1', '2', '3'], c.toNat < 128 ∧ c ≠ ',' := by simp
  obtain ⟨hlimits, ht, hs⟩ := header_parts hplain hsigned (by rw [hdigits]; decide) hheader
  refine ⟨hlimits, ?_, hs, ?_, by decide, ?_⟩
  · rw [ht, Option.map_some, hparse, hvalue]
  · rw [JsNumber.truthy, decide_eq_true_eq]
    norm_num
  · rw [InTolerance, skew_now, TOLERANCE_MS, JsNumber.lt_fin, decide_eq_false_iff_not]
    norm_num

theorem short_signature_throws : ¬ ∀ (sha256 : Hmac) (secret rawBody : String) (toleranceMs : JsNumber)
    (now : ℤ) (header : String), VerifiedExactly sha256 secret rawBody toleranceMs now header := by
  intro h
  obtain ⟨r, hr⟩ := (h (fun _ _ => ⟨List.replicate 32 0, rfl⟩) "secret" "{}" TOLERANCE_MS 1700000000000
    shortSignatureHeader).returns
  have hshort : (hexBytes ['a', 'b', 'c', '1', '2', '3']).length ≠ 32 := by decide
  rw [verifySignature_presents shortSignature_presents, if_neg hshort] at hr
  cases hr

end Liquifact.Webhooks
