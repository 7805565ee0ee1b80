import Liquifact.Lib.Fallible
import Liquifact.Lib.MachineInt
import Liquifact.Lib.OrdMap
import Liquifact.Lib.Run

/-!
# The bounty contract (`contracts/src/lib.rs`)

Storage, the three entry points `initialize` (37-45), `create_bounty` (51-86) and
`release_bounty` (92-126), `get_bounty` (129-134) and the token host. The host is the Soroban
environment: it rolls a panicking call back, and a token transfer either moves
exactly the amount or panics (`Env.transferAccepted` is its choice, left
arbitrary). Time-to-live of storage entries is not modelled.
-/

namespace Liquifact.Contracts.BountyContract
open Liquifact.Lib

section Model
variable {Address : Type} [DecidableEq Address]

/-- The stored record. `create_bounty` builds it after its two assertions, so
their conclusions are fields. -/
structure Bounty (Address : Type) where
  creator : Address
  hunter : Address
  token : Address
  amount : I128
  protocolFeeBps : U32
  released : Bool
  amount_pos : 0 < amount.val
  fee_le : protocolFeeBps.val ≤ 10000
  deriving DecidableEq

structure Transfer (Address : Type) where
  token : Address
  source : Address
  target : Address
  amount : ℤ
  deriving DecidableEq

/-- Balances by token and holder, and the transfers made so far. -/
structure Ledger (Address : Type) where
  balance : Address → Address → ℤ
  transfers : List (Transfer Address)

def Ledger.move (L : Ledger Address) (t : Transfer Address) : Ledger Address where
  balance tok a := L.balance tok a - (if tok = t.token ∧ a = t.source then t.amount else 0) +
    (if tok = t.token ∧ a = t.target then t.amount else 0)
  transfers := L.transfers ++ [t]

structure Env (Address : Type) where
  contract : Address
  transferAccepted : Ledger Address → Transfer Address → Bool

def Env.transfer (env : Env Address) (L : Ledger Address) (t : Transfer Address) :
    Except String (Ledger Address) :=
  if env.transferAccepted L t then .ok (L.move t) else .error "token transfer failed"

inductive Event where
  | bountyCreated (id : U64) (amount : ℤ)
  | bountyReleased (id : U64) (payout fee : ℤ)
  deriving DecidableEq

/-- Contract storage (`DataKey`), the token ledger and the published events. -/
structure State (Address : Type) where
  feeRecipient : Option Address
  nextId : Option U64
  bounties : OrdMap U64 (Bounty Address)
  ledger : Ledger Address
  events : List Event

def initial (L : Ledger Address) : State Address := ⟨none, none, .empty, L, []⟩

/-- `initialize` (`lib.rs:37-45`); it also writes `NextId`. -/
def initializeContract (s : State Address) (feeRecipient : Address) :
    Except String (State Address) := do
  require (s.feeRecipient = none) "already initialized"
  .ok { s with feeRecipient := some feeRecipient, nextId := some 0 }

/-- `create_bounty` (`lib.rs:51-86`); `auths` are the addresses that signed the call. -/
def createBounty (env : Env Address) (auths : List Address) (s : State Address)
    (creator hunter token : Address) (amount : I128) (protocolFeeBps : U32) :
    Except String (U64 × State Address) := do
  require (creator ∈ auths) "authorization failed"
  if hpos : 0 < amount.val then
    if hfee : protocolFeeBps.val ≤ 10000 then
      let ledger ← env.transfer s.ledger ⟨token, creator, env.contract, amount.val⟩
      let id := s.nextId.getD 0
      let bounty : Bounty Address :=
        ⟨creator, hunter, token, amount, protocolFeeBps, false, hpos, hfee⟩
      let next ← U64.succ id
      .ok (id, { s with
        nextId := some next
        bounties := s.bounties.set id bounty
        ledger := ledger
        events := s.events ++ [.bountyCreated id amount.val] })
    else .error "fee_bps must be <= 10000"
  else .error "amount must be positive"

/- The fee part of `release_bounty`: skipped when the fee is zero. -/
def payFee (env : Env Address) (L : Ledger Address) (token feeRecipient : Address) (fee : ℤ) :
    Except String (Ledger Address) :=
  if 0 < fee then env.transfer L ⟨token, env.contract, feeRecipient, fee⟩ else .ok L

def releaseBounty (env : Env Address) (auths : List Address) (s : State Address) (id : U64) :
    Except String (State Address) := do
  let bounty ← expect "bounty not found" (s.bounties.get id)
  require (bounty.creator ∈ auths) "authorization failed"
  require (bounty.released = false) "already released"
  let feeRecipient ← expect "not initialized" s.feeRecipient
  let product ← bounty.amount.mul (I128.ofU32 bounty.protocolFeeBps)
  let fee := product.divBy 10000
  let payout ← bounty.amount.sub fee
  let ledger ← payFee env s.ledger bounty.token feeRecipient fee.val
  let ledger ← env.transfer ledger ⟨bounty.token, env.contract, bounty.hunter, payout.val⟩
  .ok { s with
    bounties := s.bounties.set id { bounty with released := true }
    ledger := ledger
    events := s.events ++ [.bountyReleased id payout.val fee.val] }

def getBounty (s : State Address) (id : U64) : Except String (Bounty Address) :=
  expect "bounty not found" (s.bounties.get id)

inductive Op (Address : Type) where
  | initializeContract (feeRecipient : Address)
  | createBounty (creator hunter token : Address) (amount : I128) (protocolFeeBps : U32)
  | releaseBounty (id : U64)

structure Call (Address : Type) where
  auths : List Address
  op : Op Address

inductive Outcome where
  | initialized
  | created (id : U64)
  | released (id : U64)
  deriving DecidableEq

def invoke (env : Env Address) (s : State Address) (c : Call Address) :
    Except String (Outcome × State Address) :=
  match c.op with
  | .initializeContract r => (initializeContract s r).map fun s' => (.initialized, s')
  | .createBounty cr hu tok amt bps =>
    (createBounty env c.auths s cr hu tok amt bps).map fun r => (.created r.1, r.2)
  | .releaseBounty id => (releaseBounty env c.auths s id).map fun s' => (.released id, s')

/-- One call of the host: a panic rolls the whole call back. -/
def step (env : Env Address) (s : State Address) (c : Call Address) : State Address :=
  match invoke env s c with
  | .ok r => r.2
  | .error _ => s

/-! ### What an accepted call does -/

def Bounty.fee (b : Bounty Address) : ℤ := b.amount.val * b.protocolFeeBps.val / 10000

def Bounty.payout (b : Bounty Address) : ℤ := b.amount.val - b.fee

/- The ledger after the two transfers of a release. -/
def settle (env : Env Address) (L : Ledger Address) (b : Bounty Address) (feeRecipient : Address) :
    Ledger Address :=
  (if 0 < b.fee then L.move ⟨b.token, env.contract, feeRecipient, b.fee⟩ else L).move
    ⟨b.token, env.contract, b.hunter, b.payout⟩

omit [DecidableEq Address] in
theorem fee_nonneg (b : Bounty Address) : 0 ≤ b.fee := by
  have ha := b.amount_pos
  exact Int.ediv_nonneg (mul_nonneg ha.le (Int.natCast_nonneg _)) (by norm_num)

omit [DecidableEq Address] in
theorem fee_le_amount (b : Bounty Address) : b.fee ≤ b.amount.val := by
  have ha := b.amount_pos
  have hf : (b.protocolFeeBps.val : ℤ) ≤ 10000 := by exact_mod_cast b.fee_le
  have hm : b.amount.val * b.protocolFeeBps.val ≤ b.amount.val * 10000 :=
    mul_le_mul_of_nonneg_left hf ha.le
  unfold Bounty.fee
  omega

theorem createBounty_ok {env : Env Address} {auths : List Address} {s s' : State Address}
    {creator hunter token : Address} {amount : I128} {protocolFeeBps : U32} {id : U64}
    (h : createBounty env auths s creator hunter token amount protocolFeeBps = .ok (id, s')) :
    ∃ (hpos : 0 < amount.val) (hfee : protocolFeeBps.val ≤ 10000) (next : U64),
      creator ∈ auths ∧ id = s.nextId.getD 0 ∧ next.val = id.val + 1 ∧
      s' = { s with
        nextId := some next
        bounties := s.bounties.set id
          ⟨creator, hunter, token, amount, protocolFeeBps, false, hpos, hfee⟩
        ledger := s.ledger.move ⟨token, creator, env.contract, amount.val⟩
        events := s.events ++ [.bountyCreated id amount.val] } := by
  unfold createBounty at h
  obtain ⟨_, hauth, h⟩ := bind_ok h
  split at h
  · rename_i hpos
    split at h
    · rename_i hfee
      obtain ⟨ledger, hmove, h⟩ := bind_ok h
      obtain ⟨next, hnext, h⟩ := bind_ok h
      unfold Env.transfer at hmove
      split at hmove
      · cases hmove
        cases h
        exact ⟨hpos, hfee, next, require_ok hauth, rfl, U64.succ_ok _ _ hnext, rfl⟩
      · cases hmove
    · cases h
  · cases h

theorem payFee_ok {env : Env Address} {L L' : Ledger Address} {token feeRecipient : Address}
    {fee : ℤ} (h : payFee env L token feeRecipient fee = .ok L') :
    L' = if 0 < fee then L.move ⟨token, env.contract, feeRecipient, fee⟩ else L := by
  unfold payFee Env.transfer at h
  split at h
  · rename_i hp
    rw [if_pos hp]
    split at h
    · cases h
      rfl
    · cases h
  · rename_i hp
    rw [if_neg hp]
    cases h
    rfl

theorem releaseBounty_ok {env : Env Address} {auths : List Address} {s s' : State Address}
    {id : U64} (h : releaseBounty env auths s id = .ok s') :
    ∃ b r, s.bounties.get id = some b ∧ b.creator ∈ auths ∧ b.released = false ∧
      s.feeRecipient = some r ∧
      s' = { s with
        bounties := s.bounties.set id { b with released := true }
        ledger := settle env s.ledger b r
        events := s.events ++ [.bountyReleased id b.payout b.fee] } := by
  unfold releaseBounty at h
  obtain ⟨b, hb, h⟩ := bind_ok h
  obtain ⟨_, hauth, h⟩ := bind_ok h
  obtain ⟨_, hrel, h⟩ := bind_ok h
  obtain ⟨r, hr, h⟩ := bind_ok h
  obtain ⟨product, hprod, h⟩ := bind_ok h
  obtain ⟨payout, hpay, h⟩ := bind_ok h
  obtain ⟨L1, hL1, h⟩ := bind_ok h
  obtain ⟨L2, hL2, h⟩ := bind_ok h
  have hpv : product.val = b.amount.val * b.protocolFeeBps.val := I128.checked_ok _ _ _ hprod
  have hpos : 0 ≤ product.val := by
    rw [hpv]
    exact mul_nonneg b.amount_pos.le (Int.natCast_nonneg _)
  -- `i128` division truncates; on a product that is not negative it is the floor
  have hfee : (product.divBy 10000).val = b.fee := by
    change product.val.tdiv ((10000 : ℕ) : ℤ) = b.fee
    rw [Int.tdiv_eq_ediv_of_nonneg hpos, hpv]
    rfl
  have hpayout : payout.val = b.payout := by
    have hsub : payout.val = b.amount.val - (product.divBy 10000).val := I128.checked_ok _ _ _ hpay
    rw [hsub, hfee]
    rfl
  have hpaid := payFee_ok hL1
  unfold Env.transfer at hL2
  split at hL2
  · cases hL2
    cases h
    rw [hfee] at hpaid
    refine ⟨b, r, expect_ok hb, require_ok hauth, require_ok hrel, expect_ok hr, ?_⟩
    rw [hpaid, hfee, hpayout]
    rfl
  · cases hL2

inductive Effect (env : Env Address) (s : State Address) (c : Call Address) :
    State Address → Prop where
  | refused (e : String) (hi : invoke env s c = .error e) : Effect env s c s
  | initialized (r : Address) (hop : c.op = .initializeContract r) (hnone : s.feeRecipient = none) :
      Effect env s c { s with feeRecipient := some r, nextId := some 0 }
  | created (b : Bounty Address) (id next : U64) (s' : State Address)
      (hi : invoke env s c = .ok (.created id, s')) (hauth : b.creator ∈ c.auths)
      (hop : c.op = .createBounty b.creator b.hunter b.token b.amount b.protocolFeeBps)
      (hnew : b.released = false) (hid : id = s.nextId.getD 0) (hnext : next.val = id.val + 1)
      (hs : s' = { s with
        nextId := some next
        bounties := s.bounties.set id b
        ledger := s.ledger.move ⟨b.token, b.creator, env.contract, b.amount.val⟩
        events := s.events ++ [.bountyCreated id b.amount.val] }) : Effect env s c s'
  | released (b : Bounty Address) (r : Address) (id : U64) (s' : State Address)
      (hi : invoke env s c = .ok (.released id, s')) (hget : s.bounties.get id = some b)
      (hnew : b.released = false) (hr : s.feeRecipient = some r)
      (hs : s' = { s with
        bounties := s.bounties.set id { b with released := true }
        ledger := settle env s.ledger b r
        events := s.events ++ [.bountyReleased id b.payout b.fee] }) : Effect env s c s'

theorem step_of_ok {env : Env Address} {s s' : State Address} {c : Call Address} {o : Outcome}
    (h : invoke env s c = .ok (o, s')) : step env s c = s' := by
  simp only [step, h]

theorem step_effect (env : Env Address) (s : State Address) (c : Call Address) :
    Effect env s c (step env s c) := by
  cases hi : invoke env s c with
  | error e =>
    have hs : step env s c = s := by simp only [step, hi]
    rw [hs]
    exact .refused e hi
  | ok r =>
    obtain ⟨o, s'⟩ := r
    rw [step_of_ok hi]
    have hi' := hi
    unfold invoke at hi'
    cases hop : c.op with
    | initializeContract fr =>
      simp only [hop] at hi'
      obtain ⟨t, ht, he⟩ := map_ok hi'
      cases he
      unfold initializeContract at ht
      obtain ⟨_, hnone, ht⟩ := bind_ok ht
      cases ht
      exact .initialized fr hop (require_ok hnone)
    | createBounty cr hu tok amt bps =>
      simp only [hop] at hi'
      obtain ⟨t, ht, he⟩ := map_ok hi'
      obtain ⟨id, t⟩ := t
      cases he
      obtain ⟨hpos, hfee, next, hauth, hid, hnext, hs⟩ := createBounty_ok ht
      exact .created ⟨cr, hu, tok, amt, bps, false, hpos, hfee⟩ id next _ hi hauth hop rfl hid
        hnext hs
    | releaseBounty id =>
      simp only [hop] at hi'
      obtain ⟨t, ht, he⟩ := map_ok hi'
      cases he
      obtain ⟨b, r, hget, _, hnew, hr, hs⟩ := releaseBounty_ok ht
      exact .released b r id _ hi hget hnew hr hs

end Model

end Liquifact.Contracts.BountyContract
