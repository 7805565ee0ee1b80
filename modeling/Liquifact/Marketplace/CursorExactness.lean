import Liquifact.Lib.ShortestDigits
import Liquifact.Marketplace.CursorPagination

/-!
# Which strings are cursors (`src/utils/cursorPagination.js`)

A call of `encodeCursor` (55-73) may have any sort value; JSON leaves an undefined one out.
`decodeCursor` (83-137) compares the bytes that the signature denotes, and
`Buffer.from(sig, 'hex')` reads letters of either case and stops at the first pair that is
no digit. So it takes the strings that were issued for the sort field, and each of these
with its signature respelled.
-/

namespace Liquifact.Marketplace
open Liquifact.Lib

/- A call at a time of the `Date` range. The sort value is the one `JSON.stringify` writes:
its numbers are doubles, its objects have each name once, and `none` is undefined. -/
structure CursorCall where
  now : ℤ
  sortField : String
  sortValue : Option Json
  id : String
  inRange : now.natAbs ≤ 8640000000000000
  isValue : ∀ v ∈ sortValue, v.Over IsDouble

namespace CursorCall
variable (call : CursorCall)

def payload : Json :=
  .obj (("sortField", .str call.sortField) :: (call.sortValue.toList.map fun v => ("sortValue", v)) ++
    [("id", .str call.id), ("iat", .num (.fin (seconds call.now)))])

/- The part before the signature. -/
def text : List Char := base64urlText (utf8Bytes call.payload.stringify)

def encodeCursor (hmacSha256 : String → String → List UInt8) (env : CursorEnv) :
    Except Failure String := do
  demand (call.sortField ∈ allowedSortFields)
    (.error ("encodeCursor: unsupported sortField \"" ++ call.sortField ++ "\""))
  demand (call.id ≠ "") (.error "encodeCursor: id must be a non-empty string")
  let sig ← sign hmacSha256 env (String.ofList call.text)
  .ok (String.ofList (call.text ++ '.' :: sig))

/- With a sort value the call is the one of `CursorPagination`. -/
theorem encodeCursor_eq {v : Json} (hv : call.sortValue = some v)
    (hmacSha256 : String → String → List UInt8) (env : CursorEnv) :
    call.encodeCursor hmacSha256 env =
      Marketplace.encodeCursor hmacSha256 env call.now call.sortField v call.id := by
  have hpayload : call.payload = cursorPayload call.sortField v call.id call.now := by
    rw [payload, hv]
    rfl
  rw [encodeCursor, Marketplace.encodeCursor, text, hpayload]

end CursorCall

section Exactness
variable (hmacSha256 : String → String → List UInt8) (env : CursorEnv) (issued : CursorCall → Prop)

def IssuedFor (f c : String) : Prop :=
  ∃ call, issued call ∧ call.sortField = f ∧ call.encodeCursor hmacSha256 env = .ok c

/- Decoding for `f` takes exactly the strings issued for `f`, gives back what the call was
made with, and rejects every other string as a bad cursor. -/
structure Exact (now : ℤ) (f c : String) : Prop where
  accepted : (∃ cursor, decodeCursor hmacSha256 env now c (some f) = .ok cursor) ↔
    IssuedFor hmacSha256 env issued f c
  returned : ∀ call cursor, issued call → call.sortField = f →
    call.encodeCursor hmacSha256 env = .ok c →
    decodeCursor hmacSha256 env now c (some f) = .ok cursor →
    cursor.sortValue = call.sortValue.map Json.normal ∧ cursor.id = call.id
  rejected : ¬ IssuedFor hmacSha256 env issued f c →
    ∃ message, decodeCursor hmacSha256 env now c (some f) = .error (.cursorError message)

/- The hash of a payload stands in a string only when a call has signed that payload. -/
def Unforged (secret c : String) : Prop :=
  ∀ b64 sig, splitLastDot c.toList = some (b64, sig) →
    hexBytes sig = hmacSha256 secret (String.ofList b64) →
    ∃ call c', issued call ∧ call.encodeCursor hmacSha256 env = .ok c' ∧ call.text = b64

/- Other letters' case, or text after the signature that does not go on in hexadecimal. -/
def Respells (sig sig' : List Char) : Prop :=
  sig' ≠ sig ∧ (sig'.take sig.length).map Char.toLower = sig ∧ opensHex (sig'.drop sig.length) = false

/- A string issued for the sort field, with its signature respelled. -/
def Respelled (f c : String) : Prop :=
  ∃ c' b64 sig sig', IssuedFor hmacSha256 env issued f c' ∧
    splitLastDot c'.toList = some (b64, sig) ∧ splitLastDot c.toList = some (b64, sig') ∧
    Respells sig sig'

end Exactness

/-! ### Issued strings -/

theorem eq_append_of_splitLastDot {cs a b : List Char} (h : splitLastDot cs = some (a, b)) :
    cs = a ++ '.' :: b := by
  have hrev := List.takeWhile_append_dropWhile (p := (· ≠ '.')) (l := cs.reverse)
  unfold splitLastDot at h
  split at h
  · cases h
  · rename_i dot before hdrop
    have hdot : dot = '.' := by
      have := List.head?_dropWhile_not (· ≠ '.') cs.reverse
      rw [hdrop] at this
      simpa using this
    cases h
    rw [hdrop, hdot] at hrev
    have hback := congrArg List.reverse hrev
    rw [List.reverse_reverse, List.reverse_append, List.reverse_cons, List.append_assoc] at hback
    exact hback.symm

section Issued
variable {hmacSha256 : String → String → List UInt8} {env : CursorEnv} {secret : String}

theorem sign_ok (hsecret : resolveCursorSecret env = .ok secret) (payload : String) :
    sign hmacSha256 env payload = .ok (hexText (hmacSha256 secret payload)) := by
  simp only [sign, hsecret, bind, Except.bind]

namespace CursorCall
variable {call : CursorCall} {c : String}

theorem encodeCursor_ok_iff (hsecret : resolveCursorSecret env = .ok secret) :
    call.encodeCursor hmacSha256 env = .ok c ↔
      call.sortField ∈ allowedSortFields ∧ call.id ≠ "" ∧
        c = String.ofList (call.text ++ '.' :: hexText (hmacSha256 secret (String.ofList call.text))) := by
  unfold encodeCursor demand
  by_cases hfield : call.sortField ∈ allowedSortFields
  · by_cases hid : call.id = ""
    · simp [hfield, hid, bind, Except.bind]
    · simp [hfield, hid, sign_ok hsecret, bind, Except.bind, eq_comm]
  · simp [hfield, bind, Except.bind]

theorem split_encodeCursor (hsecret : resolveCursorSecret env = .ok secret)
    (h : call.encodeCursor hmacSha256 env = .ok c) :
    splitLastDot c.toList =
      some (call.text, hexText (hmacSha256 secret (String.ofList call.text))) := by
  obtain ⟨-, -, rfl⟩ := (encodeCursor_ok_iff hsecret).mp h
  rw [String.toList_ofList, splitLastDot_append _ _ (dot_not_mem_hexText _)]

theorem parts_eq (hsecret : resolveCursorSecret env = .ok secret)
    (h : call.encodeCursor hmacSha256 env = .ok c) {b64 sig : List Char}
    (hsplit : splitLastDot c.toList = some (b64, sig)) :
    b64 = call.text ∧ sig = hexText (hmacSha256 secret (String.ofList b64)) := by
  have hparts := hsplit.symm.trans (split_encodeCursor hsecret h)
  rw [Option.some.injEq, Prod.mk.injEq] at hparts
  obtain ⟨hb64, hsig⟩ := hparts
  exact ⟨hb64, by rw [hsig, hb64]⟩

theorem text_eq (call : CursorCall) :
    call.text = base64urlText (call.payload.write.flatMap utf8Char) := by
  rw [text, utf8Bytes, Json.stringify, String.toList_ofList]

/- The seconds of a time in the `Date` range are a double. -/
theorem iat_isDouble (call : CursorCall) : IsDouble (.fin (seconds call.now)) := by
  have hrange := call.inRange
  intro q hq
  cases hq
  refine roundDouble_intCast ?_
  unfold seconds
  omega

theorem payload_over (call : CursorCall) : call.payload.Over IsDouble := by
  have hiat := call.iat_isDouble
  have hvalue := call.isValue
  unfold payload
  cases hsort : call.sortValue with
  | none =>
    simp [Json.Over, OverMembers, hiat]
  | some v =>
    simp [Json.Over, OverMembers, hiat, hvalue v hsort]

/- What the payload is parsed to. -/
theorem parse_text (call : CursorCall) : Json.parse (utf8Text (base64Bytes call.text)) =
    some (.obj (("sortField", .str call.sortField) ::
      ((call.sortValue.map Json.normal).toList.map fun v => ("sortValue", v)) ++
      [("id", .str call.id), ("iat", .num (.fin (seconds call.now)))])) := by
  rw [text, base64Bytes_base64urlText, utf8Text_utf8Bytes,
    Json.parse_stringify_normal readsBack_of_double _ call.payload_over, payload]
  cases call.sortValue <;> rfl

end CursorCall

theorem validateCursor_fields (httl : env.ttlEnabled = false) {parsed : Json} {sortField id f : String}
    {iat : JsNumber} (now : ℤ) (hfield : property "sortField" parsed = some (.str sortField))
    (hallowed : sortField ∈ allowedSortFields) (hid : property "id" parsed = some (.str id))
    (hne : id ≠ "") (hiat : property "iat" parsed = some (.num iat)) :
    validateCursor env now (some f) parsed =
      if sortField = f then .ok ⟨f, property "sortValue" parsed, id, iat⟩
      else .error (.cursorError ("Cursor sort field \"" ++ sortField ++
        "\" does not match requested sort field \"" ++ f ++ "\"")) := by
  have hreadField : readSortField parsed = .ok sortField := by
    rw [readSortField, hfield]
    exact if_pos hallowed
  have hreadId : readId parsed = .ok id := by
    rw [readId, hid]
    exact if_neg hne
  have hreadIat : readIssuedAt parsed = .ok iat := by
    rw [readIssuedAt, hiat]
  have hfresh : expired env now iat = false := by
    rw [expired, httl]
    rfl
  simp only [validateCursor, hreadField, hreadId, hreadIat, demand_of hfresh, bind, Except.bind]
  by_cases hf : sortField = f
  · subst hf
    simp [demand]
  · simp [demand, hf]

/- A string with the payload of an issued call is decided by its signature and its field. -/
theorem decodeCursor_signed (hsecret : resolveCursorSecret env = .ok secret)
    (httl : env.ttlEnabled = false) {call : CursorCall} {c c' f : String} {sig : List Char} (now : ℤ)
    (hcall : call.encodeCursor hmacSha256 env = .ok c')
    (hsplit : splitLastDot c.toList = some (call.text, sig))
    (hsig : hexBytes sig = hmacSha256 secret (String.ofList call.text)) :
    decodeCursor hmacSha256 env now c (some f) =
      if call.sortField = f then
        .ok ⟨f, call.sortValue.map Json.normal, call.id, .fin (seconds call.now)⟩
      else .error (.cursorError ("Cursor sort field \"" ++ call.sortField ++
        "\" does not match requested sort field \"" ++ f ++ "\"")) := by
  obtain ⟨hfield, hid, -⟩ := (CursorCall.encodeCursor_ok_iff hsecret).mp hcall
  rw [decodeCursor, hsplit]
  simp only [sign_ok hsecret, hexBytes_hexText, demand_of hsig, call.parse_text, bind, Except.bind]
  cases call.sortValue with
  | none => exact validateCursor_fields httl now rfl hfield rfl hid rfl
  | some v => exact validateCursor_fields httl now rfl hfield rfl hid rfl

theorem decodeCursor_unsigned (hsecret : resolveCursorSecret env = .ok secret) {c : String}
    {b64 sig : List Char} (now : ℤ) (f : Option String)
    (hsplit : splitLastDot c.toList = some (b64, sig))
    (hsig : hexBytes sig ≠ hmacSha256 secret (String.ofList b64)) :
    decodeCursor hmacSha256 env now c f = .error (.cursorError "Invalid cursor signature") := by
  rw [decodeCursor, hsplit]
  simp only [sign_ok hsecret, hexBytes_hexText, demand, if_neg hsig, bind, Except.bind]

theorem decodeCursor_issued (hsecret : resolveCursorSecret env = .ok secret)
    (httl : env.ttlEnabled = false) {call : CursorCall} {c : String} (now : ℤ)
    (hcall : call.encodeCursor hmacSha256 env = .ok c) :
    decodeCursor hmacSha256 env now c (some call.sortField) =
      .ok ⟨call.sortField, call.sortValue.map Json.normal, call.id, .fin (seconds call.now)⟩ := by
  rw [decodeCursor_signed hsecret httl now hcall (CursorCall.split_encodeCursor hsecret hcall)
    (hexBytes_hexText _), if_pos rfl]

end Issued

/-! ### The strings that are taken -/

section Taken
variable {hmacSha256 : String → String → List UInt8} {env : CursorEnv} {issued : CursorCall → Prop}
  {secret f c : String}

theorem respells_iff {sig' : List Char} {bs : List UInt8} :
    Respells (hexText bs) sig' ↔ sig' ≠ hexText bs ∧ hexBytes sig' = bs := by
  rw [Respells, hexBytes_eq_iff]

theorem not_issuedFor_of_respelled (hsecret : resolveCursorSecret env = .ok secret)
    (h : Respelled hmacSha256 env issued f c) : ¬ IssuedFor hmacSha256 env issued f c := by
  obtain ⟨c', b64, sig, sig', ⟨call', -, -, hcall'⟩, hsplit', hsplit, hre⟩ := h
  rintro ⟨call, -, -, hcall⟩
  have hsig := (CursorCall.parts_eq hsecret hcall' hsplit').2
  have hsig' := (CursorCall.parts_eq hsecret hcall hsplit).2
  exact hre.1 (hsig'.trans hsig.symm)

theorem decodeCursor_respelled (hsecret : resolveCursorSecret env = .ok secret)
    (httl : env.ttlEnabled = false) (now : ℤ) (h : Respelled hmacSha256 env issued f c) :
    ∃ cursor, decodeCursor hmacSha256 env now c (some f) = .ok cursor := by
  obtain ⟨c', b64, sig, sig', ⟨call, -, hfield, hcall⟩, hsplit', hsplit, hre⟩ := h
  obtain ⟨hb64, hsig⟩ := CursorCall.parts_eq hsecret hcall hsplit'
  rw [hb64] at hsplit hsig
  rw [hsig] at hre
  have hdenotes := (respells_iff.mp hre).2
  have hdecode := decodeCursor_signed (f := f) hsecret httl now hcall hsplit hdenotes
  rw [if_pos hfield] at hdecode
  exact ⟨_, hdecode⟩

/- A string that was not issued and is no respelling is refused. -/
theorem decodeCursor_rejects (hsecret : resolveCursorSecret env = .ok secret)
    (httl : env.ttlEnabled = false) (now : ℤ) (hc : Unforged hmacSha256 env issued secret c)
    (hissued : ¬ IssuedFor hmacSha256 env issued f c)
    (hre : ¬ Respelled hmacSha256 env issued f c) :
    ∃ message, decodeCursor hmacSha256 env now c (some f) = .error (.cursorError message) := by
  cases hsplit : splitLastDot c.toList with
  | none => exact ⟨_, by rw [decodeCursor, hsplit]⟩
  | some parts =>
    obtain ⟨b64, sig⟩ := parts
    by_cases hsig : hexBytes sig = hmacSha256 secret (String.ofList b64)
    · obtain ⟨call, c', hmem, hcall, rfl⟩ := hc b64 sig hsplit hsig
      have hdecode := decodeCursor_signed (f := f) hsecret httl now hcall hsplit hsig
      by_cases hfield : call.sortField = f
      · -- the payload was signed for this field: the signature must be spelled as issued
        exfalso
        have hsplit' := CursorCall.split_encodeCursor hsecret hcall
        by_cases hspelled : sig = hexText (hmacSha256 secret (String.ofList call.text))
        · refine hissued ⟨call, hmem, hfield, ?_⟩
          rw [hcall, ← String.ofList_toList (s := c'), ← String.ofList_toList (s := c),
            eq_append_of_splitLastDot hsplit, eq_append_of_splitLastDot hsplit', hspelled]
        · exact hre ⟨c', call.text, _, sig, ⟨call, hmem, hfield, hcall⟩, hsplit', hsplit,
            respells_iff.mpr ⟨hspelled, hsig⟩⟩
      · rw [if_neg hfield] at hdecode
        exact ⟨_, hdecode⟩
    · exact ⟨_, decodeCursor_unsigned hsecret now (some f) hsplit hsig⟩

/-- Decoding is exact at a string that carries no forged hash if and only if the string is
not an issued cursor with its signature respelled. -/
theorem exact_iff_not_respelled (hmacSha256 : String → String → List UInt8) (env : CursorEnv)
    (issued : CursorCall → Prop) (secret : String) (hsecret : resolveCursorSecret env = .ok secret)
    (httl : env.ttlEnabled = false) (now : ℤ) (f c : String)
    (hc : Unforged hmacSha256 env issued secret c) :
    Exact hmacSha256 env issued now f c ↔ ¬ Respelled hmacSha256 env issued f c := by
  constructor
  · intro hexact hre
    exact not_issuedFor_of_respelled hsecret hre
      (hexact.accepted.mp (decodeCursor_respelled hsecret httl now hre))
  · intro hre
    refine ⟨⟨?_, ?_⟩, ?_, fun hissued => decodeCursor_rejects hsecret httl now hc hissued hre⟩
    · rintro ⟨cursor, hdecode⟩
      by_contra hissued
      obtain ⟨message, hrejected⟩ := decodeCursor_rejects hsecret httl now hc hissued hre
      rw [hrejected] at hdecode
      cases hdecode
    · rintro ⟨call, -, rfl, hcall⟩
      exact ⟨_, decodeCursor_issued hsecret httl now hcall⟩
    · rintro call cursor - rfl hcall hdecode
      rw [decodeCursor_issued hsecret httl now hcall] at hdecode
      cases hdecode
      exact ⟨rfl, rfl⟩

theorem unforged_of_split {call : CursorCall} {c' : String} {sig : List Char} (hmem : issued call)
    (hcall : call.encodeCursor hmacSha256 env = .ok c')
    (hsplit : splitLastDot c.toList = some (call.text, sig)) :
    Unforged hmacSha256 env issued secret c := by
  intro b64 sig' hsplit' _
  rw [hsplit, Option.some.injEq, Prod.mk.injEq] at hsplit'
  exact ⟨call, c', hmem, hcall, hsplit'.1⟩

end Taken

/-! ### A cursor of the development environment -/

def devEnv : CursorEnv := ⟨none, none, none, false, .fin 3600⟩

def halfFunded : CursorCall where
  now := 1700000000000
  sortField := "funded_ratio"
  sortValue := some (.num (.fin (1 / 2)))
  id := "7"
  inRange := by decide
  isValue := by
    intro v hv
    cases hv
    intro q hq
    cases hq
    decide +kernel

def halfFundedText : String :=
  "eyJzb3J0RmllbGQiOiJmdW5kZWRfcmF0aW8iLCJzb3J0VmFsdWUiOjAuNSwiaWQiOiI3IiwiaWF0IjoxNzAwMDAwMDAwfQ"

/- The digest of that text under the development secret. -/
def devDigest : List UInt8 :=
  [102, 175, 24, 233, 143, 178, 92, 14, 128, 6, 40, 178, 149, 198, 185, 142,
    91, 125, 93, 0, 232, 25, 105, 131, 110, 31, 18, 41, 166, 114, 156, 204]

def devHmac : String → String → List UInt8 := fun _ _ => devDigest

def devSignature : String := "66af18e98fb25c0e800628b295c6b98e5b7d5d00e81969836e1f1229a6729ccc"

def upperCaseSignature : String := "66AF18E98FB25C0E800628B295C6B98E5B7D5D00E81969836E1F1229A6729CCC"

def halfFundedCursor : String := halfFundedText ++ "." ++ devSignature

def upperCaseCursor : String := halfFundedText ++ "." ++ upperCaseSignature

theorem halfFunded_text : halfFunded.text = halfFundedText.toList := by
  rw [CursorCall.text_eq, halfFundedText, String.toList_ofList]
  decide +kernel

theorem devEnv_secret : resolveCursorSecret devEnv = .ok devCursorSecret := rfl

theorem devSignature_eq : devSignature.toList = hexText devDigest := by
  rw [devSignature, String.toList_ofList]
  rfl

theorem hexBytes_upperCase : hexBytes upperCaseSignature.toList = devDigest := by
  rw [upperCaseSignature, String.toList_ofList]
  rfl

theorem dot_not_mem_upperCase : '.' ∉ upperCaseSignature.toList := by
  rw [upperCaseSignature, String.toList_ofList]
  decide

theorem upperCaseSignature_ne : upperCaseSignature.toList ≠ hexText devDigest := by
  rw [upperCaseSignature, String.toList_ofList]
  decide

theorem halfFunded_encodeCursor : halfFunded.encodeCursor devHmac devEnv = .ok halfFundedCursor := by
  refine (CursorCall.encodeCursor_ok_iff devEnv_secret).mpr ⟨by decide, by decide, ?_⟩
  rw [halfFunded_text, ← String.toList_inj, String.toList_ofList, halfFundedCursor,
    String.toList_append, String.toList_append, List.append_assoc, devSignature_eq]
  rfl

theorem upperCase_split :
    splitLastDot upperCaseCursor.toList = some (halfFunded.text, upperCaseSignature.toList) := by
  rw [halfFunded_text, upperCaseCursor, String.toList_append, String.toList_append, List.append_assoc]
  exact splitLastDot_append _ _ dot_not_mem_upperCase

theorem upperCase_respelled : Respelled devHmac devEnv (· = halfFunded) "funded_ratio" upperCaseCursor := by
  refine ⟨halfFundedCursor, halfFunded.text, _, _, ⟨halfFunded, rfl, rfl, halfFunded_encodeCursor⟩,
    CursorCall.split_encodeCursor devEnv_secret halfFunded_encodeCursor, upperCase_split, ?_⟩
  exact respells_iff.mpr ⟨upperCaseSignature_ne, hexBytes_upperCase⟩

theorem exact_at_issued_cursor :
    Exact devHmac devEnv (· = halfFunded) 1700000060000 "funded_ratio" halfFundedCursor := by
  have hsplit := CursorCall.split_encodeCursor devEnv_secret halfFunded_encodeCursor
  refine (exact_iff_not_respelled devHmac devEnv (· = halfFunded) devCursorSecret devEnv_secret rfl _ _ _
    (unforged_of_split rfl halfFunded_encodeCursor hsplit)).mpr ?_
  intro hre
  exact not_issuedFor_of_respelled devEnv_secret hre ⟨halfFunded, rfl, rfl, halfFunded_encodeCursor⟩

theorem upper_case_signature_taken :
    Unforged devHmac devEnv (· = halfFunded) devCursorSecret upperCaseCursor ∧
      ¬ Exact devHmac devEnv (· = halfFunded) 1700000060000 "funded_ratio" upperCaseCursor := by
  refine ⟨unforged_of_split rfl halfFunded_encodeCursor upperCase_split, fun hexact => ?_⟩
  exact not_issuedFor_of_respelled devEnv_secret upperCase_respelled
    (hexact.accepted.mp (decodeCursor_respelled devEnv_secret rfl _ upperCase_respelled))

end Liquifact.Marketplace
