import Liquifact.Lib.Fallible
import Liquifact.Lib.Numerals
import Liquifact.Lib.Registry
import Liquifact.Lib.ToNumber

/-!
# Investor commitments (`src/services/investorCommitment.js`)

`validateAmountStroops` (60-97) accepts the decimal numerals of 1 to 10^18 without leading
zeros; `persistCommitment` (152-195) validates the amount and the address, returns the row
that has the idempotency key and else inserts one. The table is that of the migration
`20260601000001_create_investor_commitments.js`, without the two timestamps.

Addresses are checked by the StrKey codec of the Stellar SDK (`src/utils/stellarAddress.js`).
-/

namespace Liquifact.Invest
open Liquifact.Lib

structure StrKey where
  isValidEd25519PublicKey : String → Bool
  isValidContract : String → Bool

def isValidStellarAddress (strKey : StrKey) (address : String) : Bool :=
  strKey.isValidEd25519PublicKey address || strKey.isValidContract address

structure CommitmentValidationError where
  message : String
  code : String

def refuse (c : Prop) [Decidable c] (message code : String) :
    Except CommitmentValidationError Unit :=
  if c then .error ⟨message, code⟩ else .ok ()

theorem refuse_ok_iff {c : Prop} [Decidable c] {message code : String} :
    refuse c message code = .ok () ↔ ¬ c := by
  unfold refuse
  split
  · rename_i h
    simp [h]
  · rename_i h
    simp [h]

def maxStroopAmount : ℕ := 10 ^ 18

/- `typeof value` of what is no string; of an object, unless it is a function. -/
def typeofText : JsValue → String
  | .undefined => "undefined"
  | .bool _ => "boolean"
  | .number _ => "number"
  | .bigint _ => "bigint"
  | .string _ => "string"
  | .symbol => "symbol"
  | _ => "object"

def validateAmountStroops : JsValue → Except CommitmentValidationError Unit
  | .string value => do
    refuse (value = "" ∨ ¬ value.toList.all Char.isDigit)
      "amountStroops must contain only decimal digits (no sign, decimals, or spaces)"
      "INVALID_AMOUNT_FORMAT"
    refuse (1 < value.length ∧ value.toList.head? = some '0')
      "amountStroops must not have leading zeros" "INVALID_AMOUNT_FORMAT"
    let big := Nat.ofDigitChars 10 value.toList 0
    refuse (big = 0) "amountStroops must be a positive integer (> 0)" "INVALID_AMOUNT_RANGE"
    refuse (maxStroopAmount < big)
      ("amountStroops exceeds maximum allowed value (" ++ Nat.repr maxStroopAmount ++ ")")
      "INVALID_AMOUNT_OVERFLOW"
  | value => .error ⟨"amountStroops must be a string, got " ++ typeofText value,
      "INVALID_AMOUNT_TYPE"⟩

def validateAddress (strKey : StrKey) (address : String) : Except CommitmentValidationError Unit := do
  refuse (address = "") "invalid Stellar address: must be a non-empty string"
    "INVALID_INVESTOR_ADDRESS"
  refuse (¬ isValidStellarAddress strKey address)
    "invalid Stellar address: must start with G or C and be 56 base-32 characters"
    "INVALID_INVESTOR_ADDRESS"

inductive SubmitStatus where
  | requiresSignature
  | submitted
  | stubbed
  deriving DecidableEq

structure Commitment where
  invoiceId : String
  investorAddress : String
  escrowAddress : String
  amountStroops : String
  status : SubmitStatus
  unsignedXdr : Option String
  txHash : Option String
  ledger : Option String
  idempotencyKey : Option String
  deriving DecidableEq

/-- A row has the identifier the database generates, and the columns it was inserted with. -/
structure CommitmentRow extends Commitment where
  id : String
  deriving DecidableEq

/- An absent or empty key finds nothing. -/
def existingCommitment (table : List CommitmentRow) (idempotencyKey : Option String) :
    Option CommitmentRow :=
  match truthy idempotencyKey with
  | some key => table.find? fun row => row.idempotencyKey = some key
  | none => none

/-- `uuid` is the identifier of the row, should one be inserted. -/
def persistCommitment (strKey : StrKey) (table : List CommitmentRow) (uuid : String)
    (c : Commitment) : Except CommitmentValidationError (CommitmentRow × List CommitmentRow) := do
  validateAmountStroops (.string c.amountStroops)
  validateAddress strKey c.investorAddress
  match existingCommitment table c.idempotencyKey with
  | some row => .ok (row, table)
  | none => .ok (⟨c, uuid⟩, table ++ [⟨c, uuid⟩])

/-! ### Amounts -/

/-- The decimal numeral of an amount from 1 to 10^18. -/
def CanonicalAmount (s : String) : Prop :=
  ∃ n, 1 ≤ n ∧ n ≤ maxStroopAmount ∧ s = Nat.repr n

theorem toList_all_repr (n : ℕ) : (Nat.repr n).toList.all Char.isDigit = true := by
  rw [Nat.toList_repr, List.all_eq_true]
  exact fun c hc => Nat.isDigit_of_mem_toDigits (by omega) (by omega) hc

theorem repr_head {n : ℕ} (h : 0 < n) : (Nat.repr n).toList.head? ≠ some '0' := by
  rw [Nat.toList_repr]
  exact toDigits_head n h

theorem validateAmountStroops_canonical {s : String} (h : CanonicalAmount s) :
    validateAmountStroops (.string s) = .ok () := by
  obtain ⟨n, hpos, hle, rfl⟩ := h
  have hne : Nat.repr n ≠ "" := by
    intro hempty
    have hvalue := ofDigitChars_repr n
    rw [hempty] at hvalue
    exact absurd hvalue.symm (by simpa using (show n ≠ 0 by omega))
  have hformat := toList_all_repr n
  have hhead := repr_head (n := n) hpos
  simp only [validateAmountStroops, ofDigitChars_repr, refuse, hne, hformat, hhead, and_false,
    not_true_eq_false, or_self, if_false, show n ≠ 0 by omega, show ¬ maxStroopAmount < n by omega]
  rfl

theorem canonical_of_validateAmountStroops {s : String}
    (h : validateAmountStroops (.string s) = .ok ()) : CanonicalAmount s := by
  obtain ⟨_, hformat, h⟩ := bind_ok h
  obtain ⟨_, hzeros, h⟩ := bind_ok h
  obtain ⟨_, hpos, hmax⟩ := bind_ok h
  have hformat := refuse_ok_iff.mp hformat
  have hzeros := refuse_ok_iff.mp hzeros
  have hpos := refuse_ok_iff.mp hpos
  have hmax := refuse_ok_iff.mp hmax
  push Not at hformat hzeros hmax
  refine ⟨Nat.ofDigitChars 10 s.toList 0, by omega, hmax, ?_⟩
  apply String.toList_injective
  rw [Nat.toList_repr]
  refine (toDigits_ofDigitChars (List.all_eq_true.mp hformat.2) ?_ ?_).symm
  · exact fun hnil => hformat.1 (String.toList_injective (by rw [hnil]; rfl))
  · intro hhead
    have hlen : s.toList.length ≤ 1 := by
      by_contra hlong
      exact hzeros (by rw [← String.length_toList]; omega) hhead
    have hcons : s.toList.length ≠ 0 := by
      intro hnil
      rw [List.length_eq_zero_iff.mp hnil] at hhead
      cases hhead
    omega

theorem validateAmountStroops_ok_iff (s : String) :
    validateAmountStroops (.string s) = .ok () ↔ CanonicalAmount s :=
  ⟨canonical_of_validateAmountStroops, validateAmountStroops_canonical⟩

/- Two canonical numerals of one amount are the same text. -/
theorem CanonicalAmount.eq_of_value {s t : String} (hs : CanonicalAmount s) (ht : CanonicalAmount t)
    (h : Nat.ofDigitChars 10 s.toList 0 = Nat.ofDigitChars 10 t.toList 0) : s = t := by
  obtain ⟨n, -, -, rfl⟩ := hs
  obtain ⟨m, -, -, rfl⟩ := ht
  rw [ofDigitChars_repr, ofDigitChars_repr] at h
  rw [h]

/-- The accepted strings are the numerals of 1 to 10^18, one for each amount. -/
theorem validateAmountStroops_exact (s t : String) :
    (validateAmountStroops (.string s) = .ok () ↔
      ∃ n, 1 ≤ n ∧ n ≤ 10 ^ 18 ∧ s = Nat.repr n) ∧
    (validateAmountStroops (.string s) = .ok () ∧ validateAmountStroops (.string t) = .ok () ∧
        Nat.ofDigitChars 10 s.toList 0 = Nat.ofDigitChars 10 t.toList 0 → s = t) := by
  refine ⟨validateAmountStroops_ok_iff s, ?_⟩
  rintro ⟨hs, ht, hvalue⟩
  exact (canonical_of_validateAmountStroops hs).eq_of_value
    (canonical_of_validateAmountStroops ht) hvalue

end Liquifact.Invest
