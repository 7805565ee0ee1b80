import Liquifact.Lib.Bytes
import Liquifact.Lib.Fallible

/-!
# Signed cursors (`src/utils/cursorPagination.js`)

`encodeCursor` (55-76) writes the sort field, the sort value and the identifier of the
last row as JSON in base64url and signs that text; `decodeCursor` (87-137) checks the
signature and reads the value back. The keyed hash is `hmacSha256 secret payload`.
-/

namespace Liquifact.Marketplace
open Liquifact.Lib

/- A thrown `Error`, or a `CursorError`, which the route answers with status 400. -/
inductive Failure where
  | error (message : String)
  | cursorError (message : String)

def demand (c : Prop) [Decidable c] (failure : Failure) : Except Failure Unit :=
  if c then .ok () else .error failure

theorem demand_of {c : Prop} [Decidable c] (h : c) (failure : Failure) :
    demand c failure = .ok () := if_pos h

/- The process environment as the module reads it. `ttlEnabled` is
`CURSOR_TTL_ENABLED === 'true'`, `ttlSeconds` is `parseInt(CURSOR_TTL_SECONDS || '3600', 10)`. -/
structure CursorEnv where
  cursorSecret : Option String
  jwtSecret : Option String
  nodeEnv : Option String
  ttlEnabled : Bool
  ttlSeconds : JsNumber

def devCursorSecret : String := "dev-cursor-secret-change-in-prod"

def allowedSortFields : List String :=
  ["yield_bps", "maturity_date", "funded_ratio", "amount", "created_at"]

def resolveCursorSecret (env : CursorEnv) : Except Failure String :=
  match (truthy env.cursorSecret).or (truthy env.jwtSecret) with
  | some secret => .ok secret
  | none =>
    let nodeEnv := (truthy env.nodeEnv).getD "development"
    if nodeEnv = "development" ∨ nodeEnv = "test" then .ok devCursorSecret
    else .error (.error ("CURSOR_SECRET or JWT_SECRET must be configured for cursor pagination " ++
      "outside development/test"))

structure Cursor where
  sortField : String
  sortValue : Option Json
  id : String
  iat : JsNumber

/- `Math.floor(Date.now() / 1000)` of a time in milliseconds. -/
def seconds (now : ℤ) : ℤ := now / 1000

section Codec
variable (hmacSha256 : String → String → List UInt8) (env : CursorEnv)

def sign (payload : String) : Except Failure (List Char) := do
  let secret ← resolveCursorSecret env
  .ok (hexText (hmacSha256 secret payload))

def cursorPayload (sortField : String) (sortValue : Json) (id : String) (now : ℤ) : Json :=
  .obj [("sortField", .str sortField), ("sortValue", sortValue), ("id", .str id),
    ("iat", .num (.fin (seconds now)))]

def encodeCursor (now : ℤ) (sortField : String) (sortValue : Json) (id : String) :
    Except Failure String := do
  demand (sortField ∈ allowedSortFields)
    (.error ("encodeCursor: unsupported sortField \"" ++ sortField ++ "\""))
  demand (id ≠ "") (.error "encodeCursor: id must be a non-empty string")
  let payload := (cursorPayload sortField sortValue id now).stringify
  let b64 := base64urlText (utf8Bytes payload)
  let sig ← sign hmacSha256 env (String.ofList b64)
  .ok (String.ofList (b64 ++ '.' :: sig))

/- The text before and after the last dot. -/
def splitLastDot (cs : List Char) : Option (List Char × List Char) :=
  match cs.reverse.dropWhile (· ≠ '.') with
  | [] => none
  | _ :: before => some (before.reverse, (cs.reverse.takeWhile (· ≠ '.')).reverse)

def property (name : String) : Json → Option Json
  | .obj ms => OrdMap.lookupL name ms
  | _ => none

/- `iat && (now - iat) > ttl`, under the switch. -/
def expired (now : ℤ) (iat : JsNumber) : Bool :=
  env.ttlEnabled && !decide (iat = .fin 0 ∨ iat = .nan) &&
    JsNumber.lt env.ttlSeconds (JsNumber.add (.fin (seconds now)) iat.neg)

def shownValue : Option Json → String
  | none => "undefined"
  | some v => v.text

def readSortField (parsed : Json) : Except Failure String :=
  let unknown := Failure.cursorError
    ("Cursor contains unknown sort field \"" ++ shownValue (property "sortField" parsed) ++ "\"")
  match property "sortField" parsed with
  | some (.str f) => if f ∈ allowedSortFields then .ok f else .error unknown
  | _ => .error unknown

def readId (parsed : Json) : Except Failure String :=
  match property "id" parsed with
  | some (.str id) =>
    if id = "" then .error (.cursorError "Cursor is missing a valid id tiebreaker") else .ok id
  | _ => .error (.cursorError "Cursor is missing a valid id tiebreaker")

def readIssuedAt (parsed : Json) : Except Failure JsNumber :=
  match property "iat" parsed with
  | some (.num iat) => .ok iat
  | _ => .error (.cursorError "Cursor is missing issued-at timestamp")

/- The checks on the parsed payload (`cursorPagination.js:112-136`). -/
def validateCursor (now : ℤ) (expectedSortField : Option String) (parsed : Json) :
    Except Failure Cursor := do
  let sortField ← readSortField parsed
  let id ← readId parsed
  let iat ← readIssuedAt parsed
  demand (expired env now iat = false) (.cursorError "Cursor has expired")
  demand (∀ expected ∈ expectedSortField, sortField = expected) (.cursorError
    ("Cursor sort field \"" ++ sortField ++ "\" does not match requested sort field \"" ++
      expectedSortField.getD "" ++ "\""))
  .ok ⟨sortField, property "sortValue" parsed, id, iat⟩

def decodeCursor (now : ℤ) (cursor : String) (expectedSortField : Option String) :
    Except Failure Cursor :=
  match splitLastDot cursor.toList with
  | none => .error (.cursorError "Malformed cursor: expected base64url.signature format")
  | some (b64, sig) => do
    let expectedSig ← sign hmacSha256 env (String.ofList b64)
    demand (hexBytes sig = hexBytes expectedSig) (.cursorError "Invalid cursor signature")
    match Json.parse (utf8Text (base64Bytes b64)) with
    | none => .error (.cursorError "Malformed cursor: payload is not valid JSON")
    | some .null =>
      .error (.error "Cannot destructure property 'sortField' of 'parsed' as it is null.")
    | some parsed => validateCursor env now expectedSortField parsed

end Codec

/-! ### What was encoded is decoded -/

theorem splitLastDot_append (a b : List Char) (hb : '.' ∉ b) :
    splitLastDot (a ++ '.' :: b) = some (a, b) := by
  have hall : ∀ c ∈ b.reverse, (decide (c ≠ '.')) = true := by
    intro c hc
    rw [List.mem_reverse] at hc
    simpa using fun h : c = '.' => hb (h ▸ hc)
  have hrev : (a ++ '.' :: b).reverse = b.reverse ++ '.' :: a.reverse := by simp
  rw [splitLastDot, hrev, List.dropWhile_append_of_pos hall, List.takeWhile_append_of_pos hall]
  simp

theorem dot_not_mem_hexText (bs : List UInt8) : '.' ∉ hexText bs := by
  have hall : ∀ n < 16, hexDigit n ≠ '.' := by decide
  intro hdot
  obtain ⟨n, hn, heq⟩ := mem_hexText hdot
  exact hall n hn heq.symm

section RoundTrip
variable {hmacSha256 : String → String → List UInt8} {env : CursorEnv} {secret : String}

theorem cursorPayload_plain {sortField id : String} {sortValue : Json} {now : ℤ}
    (hvalue : sortValue.Plain) (hiat : (seconds now).natAbs < 2 ^ 53) :
    (cursorPayload sortField sortValue id now).Plain := by
  simp only [cursorPayload, Json.Plain, PlainMembers, true_and, and_true]
  refine ⟨⟨hvalue, seconds now, rfl, hiat⟩, ?_⟩
  simp

/-- With a resolved secret a cursor for an allowed field and an identifier is issued, and
decoding it for that field before it expires gives the value and the identifier back. -/
theorem decodeCursor_encodeCursor (hmacSha256 : String → String → List UInt8) {now now' : ℤ} {sortField id : String} {sortValue : Json}
    (hsecret : resolveCursorSecret env = .ok secret) (hfield : sortField ∈ allowedSortFields)
    (hid : id ≠ "") (hvalue : sortValue.Plain) (hiat : (seconds now).natAbs < 2 ^ 53)
    (hfresh : expired env now' (.fin (seconds now)) = false) :
    ∃ c, encodeCursor hmacSha256 env now sortField sortValue id = .ok c ∧
      decodeCursor hmacSha256 env now' c (some sortField) =
        .ok ⟨sortField, some sortValue, id, .fin (seconds now)⟩ := by
  have hsign : ∀ p, sign hmacSha256 env p = .ok (hexText (hmacSha256 secret p)) := by
    intro p
    simp only [sign, hsecret, bind, Except.bind]
  let b64 := base64urlText (utf8Bytes (cursorPayload sortField sortValue id now).stringify)
  refine ⟨String.ofList (b64 ++ '.' :: hexText (hmacSha256 secret (String.ofList b64))), ?_, ?_⟩
  · simp only [encodeCursor, demand_of hfield, demand_of hid, hsign, bind, Except.bind, b64]
  · have hparse : Json.parse (utf8Text (base64Bytes b64)) =
        some (cursorPayload sortField sortValue id now) := by
      rw [base64Bytes_base64urlText, utf8Text_utf8Bytes,
        Json.parse_stringify _ (cursorPayload_plain hvalue hiat)]
    rw [decodeCursor, String.toList_ofList, splitLastDot_append _ _ (dot_not_mem_hexText _)]
    simp only [hsign, demand_of, hparse, bind, Except.bind]
    simp [cursorPayload, validateCursor, readSortField, readId, readIssuedAt, property,
      OrdMap.lookupL, hfield, hid, hfresh, demand, bind, Except.bind]

theorem encodeCursor_ne_empty {now : ℤ} {sortField id c : String} {sortValue : Json}
    (h : encodeCursor hmacSha256 env now sortField sortValue id = .ok c) : c ≠ "" := by
  obtain ⟨_, -, hrest⟩ := bind_ok h
  obtain ⟨_, -, hrest⟩ := bind_ok hrest
  obtain ⟨sig, -, hc⟩ := bind_ok hrest
  rintro rfl
  have hlist := congrArg String.toList (Except.ok.inj hc)
  rw [String.toList_ofList] at hlist
  exact absurd hlist (List.append_ne_nil_of_right_ne_nil _ (List.cons_ne_nil _ _))

end RoundTrip

end Liquifact.Marketplace
