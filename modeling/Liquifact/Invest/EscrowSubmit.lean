import Liquifact.Invest.InvestorCommitment
import Liquifact.Lib.Bytes

/-!
# Submitting the funding call (`src/services/escrowSubmit.js`)

`submitFundEscrow` (107-182) prepares the `fund_escrow` invocation and, by
`ESCROW_SIGNING_MODE`, returns it unsigned, signs and sends it (`_signAndSubmit`, 193-229),
or skips the chain. What the Stellar SDK and the RPC server do is `Chain`: the outcome of
each call, in the order in which they are made.
-/

namespace Liquifact.Invest
open Liquifact.Lib

/- An `EscrowSubmitError`, which the route answers with status 502, or any other throw. -/
inductive SubmitFailure where
  | escrowSubmitError (message : String)
  | other (err : JsValue)

structure SubmitEnv where
  escrowSigningMode : Option String
  sorobanRpcUrl : Option String
  stellarNetworkPassphrase : Option String
  escrowPlatformAddress : Option String
  escrowPlatformSecret : Option String

/- `latestLedger` is 0 where the response has none. -/
structure SendResponse where
  status : String
  hash : String
  latestLedger : ℕ
  errorResult : Json

/- `build` takes the escrow, the investor, the amount and the memo, and gives the unsigned
XDR; it fails for an amount that is no `i128`. `simulate` gives `simResult.error`. -/
structure Chain where
  preflight : String → Except SubmitFailure Unit
  getAccount : String → Except SubmitFailure Unit
  build : String → String → ℤ → String → Except SubmitFailure String
  simulate : String → Except SubmitFailure (Option String)
  prepare : String → Except SubmitFailure String
  isSecretKey : String → Bool
  send : String → Except SubmitFailure SendResponse

structure SubmitResult where
  status : SubmitStatus
  escrowAddress : String
  unsignedXdr : Option String
  txHash : Option String
  ledger : Option String
  deriving DecidableEq

def memoMaxBytes : ℕ := 28

def buildMemo (invoiceId : String) : Except SubmitFailure String :=
  let memoValue := "lq:" ++ invoiceId
  let byteLength := (utf8Bytes memoValue).length
  if memoMaxBytes < byteLength then
    .error (.escrowSubmitError ("Escrow memo truncation detected: \"" ++ memoValue ++ "\" is " ++
      Nat.repr byteLength ++ " bytes, exceeds Stellar limit of " ++ Nat.repr memoMaxBytes ++
      ". Invoice ID would be lost."))
  else .ok memoValue

def configured (name : String) (value : Option String) : Except SubmitFailure String :=
  match truthy value with
  | some v => .ok v
  | none => .error (.escrowSubmitError (name ++ " is not configured."))

def stubbedResult (escrowAddress : String) : SubmitResult :=
  ⟨.stubbed, escrowAddress, none, none, none⟩

def signAndSubmit (env : SubmitEnv) (chain : Chain) (preparedTx escrowAddress : String) :
    Except SubmitFailure SubmitResult := do
  match truthy env.escrowPlatformSecret with
  | none => .error (.escrowSubmitError
      "ESCROW_PLATFORM_SECRET is required for custodial signing mode.")
  | some secret =>
    if chain.isSecretKey secret then
      let response ← chain.send preparedTx
      if response.status = "ERROR" then
        .error (.escrowSubmitError ("Transaction submission failed: " ++
          response.errorResult.stringify))
      else
        .ok ⟨.submitted, escrowAddress, none, some response.hash,
          if response.latestLedger = 0 then none else some (Nat.repr response.latestLedger)⟩
    else .error (.escrowSubmitError "ESCROW_PLATFORM_SECRET is not a valid Stellar secret key.")

def bigIntOf (amountStroops : String) : Except SubmitFailure ℤ :=
  match stringToBigInt amountStroops with
  | some n => .ok n
  | none => .error (.other (.object [("name", .string "SyntaxError"),
      ("message", .string ("Cannot convert " ++ amountStroops ++ " to a BigInt"))]))

/- `toLowerCase` as far as it decides between the modes, which are ASCII. -/
def signingMode (env : SubmitEnv) : String :=
  String.ofList (((truthy env.escrowSigningMode).getD "stubbed").toList.map Char.toLower)

def prepareFundEscrow (chain : Chain) (escrowAddress investorAddress amountStroops invoiceId : String) :
    Except SubmitFailure String := do
  let amount ← bigIntOf amountStroops
  let memo ← buildMemo invoiceId
  let tx ← chain.build escrowAddress investorAddress amount memo
  match ← chain.simulate tx with
  | some err => .error (.escrowSubmitError ("Soroban simulation failed: " ++ err))
  | none => chain.prepare tx

def submitFundEscrow (env : SubmitEnv) (chain : Chain)
    (escrowAddress investorAddress amountStroops invoiceId : String) :
    Except SubmitFailure SubmitResult :=
  if signingMode env = "stubbed" then .ok (stubbedResult escrowAddress)
  else do
    let _ ← configured "SOROBAN_RPC_URL" env.sorobanRpcUrl
    let _ ← configured "STELLAR_NETWORK_PASSPHRASE" env.stellarNetworkPassphrase
    let platformAddress ← configured "ESCROW_PLATFORM_ADDRESS" env.escrowPlatformAddress
    chain.preflight escrowAddress
    chain.getAccount platformAddress
    let preparedTx ← prepareFundEscrow chain escrowAddress investorAddress amountStroops invoiceId
    if signingMode env = "delegated" then
      .ok ⟨.requiresSignature, escrowAddress, some preparedTx, none, none⟩
    else if signingMode env = "custodial" then signAndSubmit env chain preparedTx escrowAddress
    else .error (.escrowSubmitError ("Unknown ESCROW_SIGNING_MODE: \"" ++ signingMode env ++ "\""))

/- In custodial mode a submission that succeeds has a transaction hash. -/
theorem custodial_txHash {env : SubmitEnv} {chain : Chain} {escrow investor amount invoice : String}
    {r : SubmitResult} (hmode : signingMode env = "custodial")
    (h : submitFundEscrow env chain escrow investor amount invoice = .ok r) :
    ∃ hash, r.txHash = some hash := by
  unfold submitFundEscrow at h
  rw [if_neg (by rw [hmode]; decide)] at h
  obtain ⟨_, -, h⟩ := bind_ok h
  obtain ⟨_, -, h⟩ := bind_ok h
  obtain ⟨_, -, h⟩ := bind_ok h
  obtain ⟨_, -, h⟩ := bind_ok h
  obtain ⟨_, -, h⟩ := bind_ok h
  obtain ⟨prepared, -, h⟩ := bind_ok h
  rw [if_neg (by rw [hmode]; decide), if_pos hmode] at h
  unfold signAndSubmit at h
  split at h
  · cases h
  · split at h
    · obtain ⟨response, -, h⟩ := bind_ok h
      split at h
      · cases h
      · cases h
        exact ⟨response.hash, rfl⟩
    · cases h

end Liquifact.Invest
