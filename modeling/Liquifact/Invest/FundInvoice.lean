import Liquifact.Escrow.LegalHoldGate
import Liquifact.Invest.EscrowSubmit

/-!
# Funding an invoice (`src/routes/invest.js`)

`POST /api/invest/fund-invoice` (97-206): the handler validates the body
(`validateFundInvoiceBody`, 47-71), passes the legal-hold gate, resolves the escrow
address, submits the funding call and then persists a commitment under an idempotency key
derived from investor, invoice and amount. If the gate does not call `next()` the handler
waits for ever and does nothing more.

The requests are those that reach the handler. `sha256` is the hash of `crypto`, and
`resolveEscrowAddress` that of `config/escrowMap.js`.
-/

namespace Liquifact.Invest
open Liquifact.Lib Liquifact.Escrow

/- A SHA-256 digest in hexadecimal. -/
structure HexDigest where
  text : String
  length : text.length = 64

inductive ResolveFailure where
  | escrowNotFound
  | other (err : JsValue)

structure FundContext where
  strKey : StrKey
  sha256 : String → HexDigest
  env : SubmitEnv
  imports : Imports

/-- A request, with what the escrow map and the chain answer to it and the identifier its
row would get. -/
structure FundRequest where
  body : Option Json
  originalUrl : String
  resolveEscrowAddress : String → Except ResolveFailure String
  callSorobanContract : (Unit → Except JsValue JsValue) → Except JsValue JsValue
  chain : Chain
  uuid : String

inductive FundEnd where
  | failed (status : ℕ) (code message : String) (details : List String) (retryable : Bool)
  | funded (commitmentId invoiceId escrowAddress : String) (status : SubmitStatus)
      (unsignedXdr txHash ledger : Option String)
  | thrown (err : JsValue)
  | waiting

/-! ### Validation -/

/- `/^[a-zA-Z0-9_\-]{3,64}$/`. -/
def matchesFundInvoiceId (s : String) : Bool :=
  decide (3 ≤ s.toList.length ∧ s.toList.length ≤ 64) &&
    s.toList.all fun c => c.isAlphanum || c = '_' || c = '-'

def truthyValue (v : Option Json) : Bool := (v.map Json.truthy).getD false

def textOf : Option Json → String
  | some v => v.text
  | none => "undefined"

def numberOf : Option Json → JsNumber
  | some v => v.toNumber
  | none => .nan

def isPositiveInteger : JsNumber → Bool
  | .fin q => decide (q.den = 1 ∧ 0 < q)
  | _ => false

def isAddress (strKey : StrKey) : Option Json → Bool
  | some (.str s) => isValidStellarAddress strKey s
  | _ => false

def field (name : String) (body : Option Json) : Option Json := body.bind (Json.member name)

def complain (c : Bool) (message : String) : List String := if c then [message] else []

def validateFundInvoiceBody (strKey : StrKey) (body : Option Json) : List String :=
  match body with
  | some (.obj _) =>
    let invoiceId := field "invoiceId" body
    let investorAddress := field "investorAddress" body
    let amountStroops := field "amountStroops" body
    complain (!truthyValue invoiceId || !matchesFundInvoiceId (textOf invoiceId))
      "invoiceId must be an alphanumeric string (3-64 chars, hyphens/underscores allowed)." ++
    complain (!truthyValue investorAddress || !isAddress strKey investorAddress)
      "investorAddress must be a valid Stellar public key (G... or C...)." ++
    complain (!truthyValue amountStroops || !isPositiveInteger (numberOf amountStroops))
      "amountStroops must be a positive integer representing the fund amount in stroops."
  | _ => ["Request body must be a JSON object."]

/-! ### The handler -/

def gatePasses (ctx : FundContext) (req : FundRequest) : Bool :=
  (checkLegalHold ctx.imports (escrowRead req.callSorobanContract) ⟨none, none⟩
    ⟨some (.obj []), req.body, req.originalUrl⟩).passed

def amountText (req : FundRequest) : String := textOf (field "amountStroops" req.body)

def investorText (req : FundRequest) : String := textOf (field "investorAddress" req.body)

def invoiceText (req : FundRequest) : String := textOf (field "invoiceId" req.body)

def idempotencyKey (ctx : FundContext) (req : FundRequest) : String :=
  (ctx.sha256 (investorText req ++ ":" ++ invoiceText req ++ ":" ++ amountText req)).text

/- The commitment the handler asks to persist for a submission. -/
def commitmentOf (ctx : FundContext) (req : FundRequest) (escrowAddress : String)
    (result : SubmitResult) : Commitment where
  invoiceId := invoiceText req
  investorAddress := investorText req
  escrowAddress := escrowAddress
  amountStroops := amountText req
  status := result.status
  unsignedXdr := result.unsignedXdr
  txHash := result.txHash
  ledger := result.ledger
  idempotencyKey := some (idempotencyKey ctx req)

/- The handler up to the return of `submitFundEscrow`. -/
def submissionOf (ctx : FundContext) (req : FundRequest) : Except FundEnd Commitment :=
  match validateFundInvoiceBody ctx.strKey req.body with
  | message :: rest =>
    .error (.failed 400 "VALIDATION_ERROR" message (message :: rest) false)
  | [] =>
    if gatePasses ctx req then
      match req.resolveEscrowAddress (invoiceText req) with
      | .error .escrowNotFound => .error (.failed 422 "ESCROW_NOT_FOUND"
          ("No escrow contract is configured for invoice: " ++ invoiceText req) [] false)
      | .error (.other err) => .error (.thrown err)
      | .ok escrowAddress =>
        match submitFundEscrow ctx.env req.chain escrowAddress (investorText req) (amountText req)
            (invoiceText req) with
        | .error (.escrowSubmitError _) => .error (.failed 502 "ESCROW_SUBMIT_FAILED"
            "Failed to prepare the escrow transaction. Please try again." [] true)
        | .error (.other err) => .error (.thrown err)
        | .ok result => .ok (commitmentOf ctx req escrowAddress result)
    else .error .waiting

def commitmentError (e : CommitmentValidationError) : JsValue :=
  .object [("name", .string "CommitmentValidationError"), ("message", .string e.message),
    ("code", .string e.code)]

/-- The handler on a table: how it ends, and the table after it. -/
def fundInvoice (ctx : FundContext) (table : List CommitmentRow) (req : FundRequest) :
    FundEnd × List CommitmentRow :=
  match submissionOf ctx req with
  | .error ending => (ending, table)
  | .ok c =>
    match persistCommitment ctx.strKey table req.uuid c with
    | .error e => (.thrown (commitmentError e), table)
    | .ok (row, table') => (.funded row.id c.invoiceId c.escrowAddress c.status
        (truthy c.unsignedXdr) (truthy c.txHash) (truthy c.ledger), table')

/-! ### What a submission has passed -/

theorem complain_eq_nil {c : Bool} {message : String} (h : complain c message = []) : c = false := by
  cases c with
  | false => rfl
  | true => cases h

theorem validated_investor {strKey : StrKey} {body : Option Json}
    (h : validateFundInvoiceBody strKey body = []) :
    ∃ s, field "investorAddress" body = some (.str s) ∧ s ≠ "" ∧
      isValidStellarAddress strKey s = true := by
  unfold validateFundInvoiceBody at h
  split at h
  · rename_i members
    obtain ⟨hleft, -⟩ := List.append_eq_nil_iff.mp h
    obtain ⟨-, hinvestor⟩ := List.append_eq_nil_iff.mp hleft
    have hok := complain_eq_nil hinvestor
    simp only [Bool.or_eq_false_iff, Bool.not_eq_false'] at hok
    obtain ⟨htruthy, haddress⟩ := hok
    unfold isAddress at haddress
    split at haddress
    · rename_i s hs
      have hne : s ≠ "" := by
        intro hempty
        rw [hs, hempty] at htruthy
        cases htruthy
      exact ⟨s, hs, hne, haddress⟩
    · cases haddress
  · cases h

/- Everything the handler has established when `submitFundEscrow` returns. -/
structure Submitted (ctx : FundContext) (req : FundRequest) (c : Commitment) : Prop where
  validated : validateFundInvoiceBody ctx.strKey req.body = []
  passed : gatePasses ctx req = true
  returned : ∃ escrowAddress result,
    submitFundEscrow ctx.env req.chain escrowAddress (investorText req) (amountText req)
      (invoiceText req) = .ok result ∧ c = commitmentOf ctx req escrowAddress result

theorem submissionOf_ok {ctx : FundContext} {req : FundRequest} {c : Commitment}
    (h : submissionOf ctx req = .ok c) : Submitted ctx req c := by
  unfold submissionOf at h
  split at h
  · cases h
  · rename_i hvalid
    split at h
    · rename_i hgate
      split at h
      · cases h
      · cases h
      · rename_i escrowAddress _
        split at h
        · cases h
        · cases h
        · rename_i result hresult
          cases h
          exact ⟨hvalid, hgate, escrowAddress, result, hresult, rfl⟩
    · cases h

theorem Submitted.amount {ctx : FundContext} {req : FundRequest} {c : Commitment}
    (h : Submitted ctx req c) : c.amountStroops = amountText req := by
  obtain ⟨_, _, -, rfl⟩ := h.returned
  rfl

theorem Submitted.address {ctx : FundContext} {req : FundRequest} {c : Commitment}
    (h : Submitted ctx req c) : validateAddress ctx.strKey c.investorAddress = .ok () := by
  obtain ⟨s, hfield, hne, hvalid⟩ := validated_investor h.validated
  obtain ⟨_, _, -, rfl⟩ := h.returned
  have htext : investorText req = s := by
    rw [investorText, hfield]
    rfl
  simp only [validateAddress, commitmentOf, htext, refuse, hne, hvalid, not_true_eq_false, if_false]
  rfl

theorem persistCommitment_of_valid {strKey : StrKey} {c : Commitment}
    (hamount : validateAmountStroops (.string c.amountStroops) = .ok ())
    (haddress : validateAddress strKey c.investorAddress = .ok ())
    (table : List CommitmentRow) (uuid : String) :
    persistCommitment strKey table uuid c = .ok (match existingCommitment table c.idempotencyKey with
      | some row => (row, table)
      | none => (⟨c, uuid⟩, table ++ [⟨c, uuid⟩])) := by
  unfold persistCommitment
  rw [hamount, haddress]
  simp only [bind, Except.bind]
  cases existingCommitment table c.idempotencyKey <;> rfl

/-- A submission that succeeded can be recorded exactly when the text of the amount is the
decimal numeral of a number from 1 to 10^18. -/
theorem submission_recordable_iff {ctx : FundContext} {req : FundRequest} {c : Commitment}
    (h : submissionOf ctx req = .ok c) (table : List CommitmentRow) :
    (∃ r, persistCommitment ctx.strKey table req.uuid c = .ok r) ↔
      CanonicalAmount (amountText req) := by
  have hsubmitted := submissionOf_ok h
  rw [← hsubmitted.amount, ← validateAmountStroops_ok_iff]
  constructor
  · intro h
    obtain ⟨r, hr⟩ := h
    obtain ⟨_, hamount, -⟩ := bind_ok hr
    exact hamount
  · intro hamount
    exact ⟨_, persistCommitment_of_valid hamount hsubmitted.address table req.uuid⟩

/-! ### A sample in custodial mode -/

def sampleInvestor : String := "GAAAAAAAAAAAAAAAAAAAAAAAAAAAAAAAAAAAAAAAAAAAAAAAAAAAAWHF"

def sampleEscrow : String := "CAAAAAAAAAAAAAAAAAAAAAAAAAAAAAAAAAAAAAAAAAAAAAAAAAAABSC4"

/- The digests of the two key texts below. -/
def sampleDigest (text : String) : HexDigest :=
  if text = sampleInvestor ++ ":inv_1:100" then
    ⟨"bec71d51f61fc29f39a85bad1f22f6b369b519cbcef906aeb67a7b8e378746e7", by decide⟩
  else ⟨"02661328fef76b8a345e3c70735a9c72d3fe41c6fc45ffd610280db53cdf0f81", by decide⟩

def sampleContext : FundContext where
  strKey := ⟨fun a => a = sampleInvestor, fun a => a = sampleEscrow⟩
  sha256 := sampleDigest
  env := ⟨some "custodial", some "https://soroban-testnet.stellar.org",
    some "Test SDF Network ; September 2015", some sampleInvestor, some "S"⟩
  imports := ⟨true, true, true⟩

def acceptingChain (hash : String) : Chain where
  preflight := fun _ => .ok ()
  getAccount := fun _ => .ok ()
  build := fun _ _ _ memo => .ok memo
  simulate := fun _ => .ok none
  prepare := fun tx => .ok tx
  isSecretKey := fun _ => true
  send := fun _ => .ok ⟨"PENDING", hash, 7, .null⟩

def sampleRequest (amount : Json) (hash uuid : String) : FundRequest where
  body := some (.obj [("invoiceId", .str "inv_1"), ("investorAddress", .str sampleInvestor),
    ("amountStroops", amount)])
  originalUrl := "/api/invest/fund-invoice"
  resolveEscrowAddress := fun _ => .ok sampleEscrow
  callSorobanContract := fun operation => operation ()
  chain := acceptingChain hash
  uuid := uuid

theorem sample_mode : signingMode sampleContext.env = "custodial" := by
  simp [signingMode, sampleContext, truthy]

theorem sample_memo : buildMemo "inv_1" = .ok "lq:inv_1" := by
  have hlen : (utf8Bytes ("lq:" ++ "inv_1")).length = 8 := by
    simp [utf8Bytes, utf8Char]
  simp only [buildMemo, hlen]
  rfl

theorem sample_submit (investor amount hash : String) {n : ℤ} (h : stringToBigInt amount = some n) :
    submitFundEscrow sampleContext.env (acceptingChain hash) sampleEscrow investor amount "inv_1" =
      .ok ⟨.submitted, sampleEscrow, none, some hash, some (Nat.repr 7)⟩ := by
  have hamount : bigIntOf amount = .ok n := by
    rw [bigIntOf, h]
  have hprepare : prepareFundEscrow (acceptingChain hash) sampleEscrow investor amount "inv_1" =
      .ok "lq:inv_1" := by
    rw [prepareFundEscrow, hamount, sample_memo]
    rfl
  have hrpc : configured "SOROBAN_RPC_URL" sampleContext.env.sorobanRpcUrl =
      .ok "https://soroban-testnet.stellar.org" := rfl
  have hphrase : configured "STELLAR_NETWORK_PASSPHRASE" sampleContext.env.stellarNetworkPassphrase =
      .ok "Test SDF Network ; September 2015" := rfl
  have hplatform : configured "ESCROW_PLATFORM_ADDRESS" sampleContext.env.escrowPlatformAddress =
      .ok sampleInvestor := rfl
  have hpreflight : (acceptingChain hash).preflight sampleEscrow = .ok () := rfl
  have haccount : (acceptingChain hash).getAccount sampleInvestor = .ok () := rfl
  have hsend : signAndSubmit sampleContext.env (acceptingChain hash) "lq:inv_1" sampleEscrow =
      .ok ⟨.submitted, sampleEscrow, none, some hash, some (Nat.repr 7)⟩ := rfl
  have hstubbed : "custodial" ≠ "stubbed" := by decide
  have hdelegated : "custodial" ≠ "delegated" := by decide
  simp only [submitFundEscrow, sample_mode, hstubbed, hdelegated, if_false, if_true, hrpc,
    hphrase, hplatform, hpreflight, haccount, hprepare, hsend, bind, Except.bind]

theorem sample_validated {amount : Json} (htruthy : amount.truthy = true)
    (hnumber : isPositiveInteger amount.toNumber = true) (hash uuid : String) :
    validateFundInvoiceBody sampleContext.strKey (sampleRequest amount hash uuid).body = [] := by
  have hinvoice : matchesFundInvoiceId "inv_1" = true := by simp [matchesFundInvoiceId]
  have htext : ∀ s, (Json.str s).truthy = decide (s ≠ "") := fun _ => rfl
  simp [validateFundInvoiceBody, sampleRequest, field, Json.member, OrdMap.lookupL, complain,
    truthyValue, htext, textOf, Json.text, hinvoice, isAddress, isValidStellarAddress,
    sampleContext, sampleInvestor, numberOf, htruthy, hnumber]

theorem sample_gate (amount : Json) (hash uuid : String) :
    gatePasses sampleContext (sampleRequest amount hash uuid) = true := rfl

theorem sample_submission {amount : Json} {n : ℤ} (htruthy : amount.truthy = true)
    (hnumber : isPositiveInteger amount.toNumber = true)
    (hamount : stringToBigInt amount.text = some n) (hash uuid : String) :
    submissionOf sampleContext (sampleRequest amount hash uuid) =
      .ok (commitmentOf sampleContext (sampleRequest amount hash uuid) sampleEscrow
        ⟨.submitted, sampleEscrow, none, some hash, some (Nat.repr 7)⟩) := by
  have hresolve : (sampleRequest amount hash uuid).resolveEscrowAddress
      (invoiceText (sampleRequest amount hash uuid)) = .ok sampleEscrow := rfl
  have hsubmit : submitFundEscrow sampleContext.env (sampleRequest amount hash uuid).chain sampleEscrow
      (investorText (sampleRequest amount hash uuid)) (amountText (sampleRequest amount hash uuid))
      (invoiceText (sampleRequest amount hash uuid)) =
      .ok ⟨.submitted, sampleEscrow, none, some hash, some (Nat.repr 7)⟩ :=
    sample_submit sampleInvestor amount.text hash hamount
  simp only [submissionOf, sample_validated htruthy hnumber, sample_gate, if_true, hresolve, hsubmit]

def sampleCommitment (amount : Json) (hash uuid : String) : Commitment :=
  commitmentOf sampleContext (sampleRequest amount hash uuid) sampleEscrow
    ⟨.submitted, sampleEscrow, none, some hash, some (Nat.repr 7)⟩

theorem numeral_submission {s : String} {n : ℕ} (hne : s ≠ "") (hn : 0 < n ∧ n < 2 ^ 53)
    (hnumber : stringToNumber s = roundDouble n) (hbig : stringToBigInt s = some n)
    (hash uuid : String) :
    submissionOf sampleContext (sampleRequest (.str s) hash uuid) =
      .ok (sampleCommitment (.str s) hash uuid) := by
  have hround : roundDouble ((n : ℤ) : ℚ) = .fin ((n : ℤ) : ℚ) := roundDouble_intCast (by omega)
  have hvalue : (Json.str s).toNumber = .fin n := hnumber.trans hround
  have hpositive : isPositiveInteger (Json.str s).toNumber = true := by
    rw [hvalue]
    simpa [isPositiveInteger] using hn.1
  have htruthy : (Json.str s).truthy = true := decide_eq_true hne
  exact sample_submission htruthy hpositive hbig hash uuid

theorem hundred_submission (hash uuid : String) :
    submissionOf sampleContext (sampleRequest (.str "100") hash uuid) =
      .ok (sampleCommitment (.str "100") hash uuid) := by
  refine numeral_submission (n := 100) (by decide) (by omega) ?_ ?_ hash uuid
  · simp [stringToNumber, trim, isJsSpace, readRadix, unsignedNumber, readDecimal, readExponent,
      Nat.ofDigitChars]
  · simp [stringToBigInt, trim, isJsSpace, readRadix, readSign, Nat.ofDigitChars]

theorem submission_recordable_hundred :
    ∃ c, submissionOf sampleContext (sampleRequest (.str "100") "a1" "row-1") = .ok c ∧
      ∃ r, persistCommitment sampleContext.strKey [] "row-1" c = .ok r := by
  have hsubmitted := hundred_submission "a1" "row-1"
  refine ⟨_, hsubmitted, (submission_recordable_iff hsubmitted []).mpr ?_⟩
  exact ⟨100, by decide, by decide, rfl⟩

theorem hexadecimal_unrecordable :
    ∃ c, submissionOf sampleContext (sampleRequest (.str "0x10") "a1" "row-1") = .ok c ∧
      ¬ ∃ r, persistCommitment sampleContext.strKey [] "row-1" c = .ok r := by
  have hsubmitted : submissionOf sampleContext (sampleRequest (.str "0x10") "a1" "row-1") =
      .ok (sampleCommitment (.str "0x10") "a1" "row-1") := by
    refine numeral_submission (n := 16) (by decide) (by omega) ?_ ?_ "a1" "row-1"
    · simp [stringToNumber, trim, isJsSpace, readRadix, radixDigits, hexValue]
    · simp [stringToBigInt, trim, isJsSpace, readRadix, radixDigits, hexValue]
  refine ⟨_, hsubmitted, ?_⟩
  intro hpersisted
  obtain ⟨r, hr⟩ := hpersisted
  obtain ⟨_, hamount, -⟩ := bind_ok hr
  have hrefused : validateAmountStroops (.string "0x10") = .error
      ⟨"amountStroops must contain only decimal digits (no sign, decimals, or spaces)",
        "INVALID_AMOUNT_FORMAT"⟩ := by
    simp [validateAmountStroops, refuse, bind, Except.bind]
  exact absurd (hrefused.symm.trans hamount) (by simp)

end Liquifact.Invest
