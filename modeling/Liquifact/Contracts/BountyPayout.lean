import Liquifact.Contracts.BountyContract

/-!
# What a release computes

`create_bounty` checks the amount and the fee when a bounty is made; the product of the two
is formed when it is released, in `i128` with overflow checks (`Cargo.toml:16`). The
release is compared with the fee and the payout over the integers.
-/

namespace Liquifact.Contracts.BountyContract
open Liquifact.Lib

section Payout
variable {Address : Type} [DecidableEq Address]

/- The part of `release_bounty` after the arithmetic (`lib.rs:113-125`). -/
def payOut (env : Env Address) (s : State Address) (id : U64) (bounty : Bounty Address)
    (feeRecipient : Address) (fee payout : ℤ) : Except String (State Address) := do
  let ledger ← payFee env s.ledger bounty.token feeRecipient fee
  let ledger ← env.transfer ledger ⟨bounty.token, env.contract, bounty.hunter, payout⟩
  .ok { s with
    bounties := s.bounties.set id { bounty with released := true }
    ledger := ledger
    events := s.events ++ [.bountyReleased id payout fee] }

def InI128 (x : ℤ) : Prop := -2 ^ 127 ≤ x ∧ x < 2 ^ 127

/-- The release is the two transfers of the fee rounded down and of the rest, and no step of
the arithmetic leaves the range; it can only stop at a transfer the token refuses. -/
structure PaysFloorFee (env : Env Address) (auths : List Address) (s : State Address) (id : U64)
    (bounty : Bounty Address) (feeRecipient : Address) : Prop where
  product : InI128 (bounty.amount.val * bounty.protocolFeeBps.val)
  fee_nonneg : 0 ≤ bounty.fee
  fee_le : bounty.fee ≤ bounty.amount.val
  payout : InI128 bounty.payout
  paid : releaseBounty env auths s id =
    payOut env s id bounty feeRecipient bounty.fee bounty.payout
  refused : ∀ m, releaseBounty env auths s id = .error m → m = "token transfer failed"

theorem checked_of_inI128 (message : String) {x : ℤ} (h : InI128 x) :
    I128.checked message x = .ok ⟨x, h.1, h.2⟩ := dif_pos h

theorem checked_of_not_inI128 (message : String) {x : ℤ} (h : ¬ InI128 x) :
    I128.checked message x = .error message := dif_neg h

theorem transfer_error {env : Env Address} {L : Ledger Address} {t : Transfer Address} {m : String}
    (h : env.transfer L t = .error m) : m = "token transfer failed" := by
  unfold Env.transfer at h
  split at h
  · cases h
  · cases h
    rfl

theorem payOut_error {env : Env Address} {s : State Address} {id : U64} {b : Bounty Address}
    {r : Address} {fee payout : ℤ} {m : String} (h : payOut env s id b r fee payout = .error m) :
    m = "token transfer failed" := by
  unfold payOut at h
  cases hfee : payFee env s.ledger b.token r fee with
  | error m' =>
    simp only [hfee, bind, Except.bind] at h
    cases h
    unfold payFee at hfee
    split at hfee
    · exact transfer_error hfee
    · cases hfee
  | ok L =>
    simp only [hfee, bind, Except.bind] at h
    cases hpay : env.transfer L ⟨b.token, env.contract, b.hunter, payout⟩ with
    | error m' =>
      simp only [hpay] at h
      cases h
      exact transfer_error hpay
    | ok L' =>
      simp only [hpay] at h
      cases h

omit [DecidableEq Address] in
theorem payout_inI128 (b : Bounty Address) : InI128 b.payout := by
  have hnonneg := fee_nonneg b
  have hle := fee_le_amount b
  have hupper := b.amount.upper
  unfold Bounty.payout InI128
  omega

omit [DecidableEq Address] in
theorem product_nonneg (b : Bounty Address) : 0 ≤ b.amount.val * b.protocolFeeBps.val :=
  mul_nonneg b.amount_pos.le (Int.natCast_nonneg _)

section Release
variable {env : Env Address} {auths : List Address} {s : State Address} {id : U64}
  {b : Bounty Address} {r : Address}
  (hget : s.bounties.get id = some b) (hauth : b.creator ∈ auths) (hnew : b.released = false)
  (hr : s.feeRecipient = some r)
include hget hauth hnew hr

/- Up to the product nothing can fail. -/
theorem releaseBounty_eq : releaseBounty env auths s id = (do
    let product ← b.amount.mul (I128.ofU32 b.protocolFeeBps)
    let payout ← b.amount.sub (product.divBy 10000)
    payOut env s id b r (product.divBy 10000).val payout.val) := by
  simp only [releaseBounty, payOut, hget, hr, expect, require, if_pos hauth, if_pos hnew, bind,
    Except.bind]

theorem releaseBounty_of_overflow (hover : ¬ InI128 (b.amount.val * b.protocolFeeBps.val)) :
    releaseBounty env auths s id = .error "attempt to multiply with overflow" := by
  have hmul : b.amount.mul (I128.ofU32 b.protocolFeeBps) =
      .error "attempt to multiply with overflow" := checked_of_not_inI128 _ hover
  rw [releaseBounty_eq hget hauth hnew hr, hmul]
  rfl

theorem releaseBounty_of_product (hfits : InI128 (b.amount.val * b.protocolFeeBps.val)) :
    releaseBounty env auths s id = payOut env s id b r b.fee b.payout := by
  have hmul : b.amount.mul (I128.ofU32 b.protocolFeeBps) =
      .ok ⟨b.amount.val * b.protocolFeeBps.val, hfits.1, hfits.2⟩ := checked_of_inI128 _ hfits
  -- division truncates; on a product that is not negative it is the floor
  have hfee : (I128.divBy ⟨b.amount.val * b.protocolFeeBps.val, hfits.1, hfits.2⟩ 10000).val =
      b.fee := by
    change (b.amount.val * b.protocolFeeBps.val).tdiv ((10000 : ℕ) : ℤ) = b.fee
    rw [Int.tdiv_eq_ediv_of_nonneg (product_nonneg b)]
    rfl
  have hsub : b.amount.sub (I128.divBy ⟨b.amount.val * b.protocolFeeBps.val, hfits.1, hfits.2⟩
      10000) = .ok ⟨b.payout, (payout_inI128 b).1, (payout_inI128 b).2⟩ := by
    unfold I128.sub
    rw [hfee]
    exact checked_of_inI128 _ (payout_inI128 b)
  rw [releaseBounty_eq hget hauth hnew hr, hmul]
  simp only [bind, Except.bind, hsub, hfee]

/-- Whatever bounty `create_bounty` accepted, its release by the creator pays the fee rounded
down and the rest exactly when the product of amount and basis points is an `i128`. -/
theorem release_pays_floor_fee_iff :
    PaysFloorFee env auths s id b r ↔ b.amount.val * b.protocolFeeBps.val < 2 ^ 127 := by
  constructor
  · intro h
    exact h.product.2
  · intro hlt
    have hnonneg := product_nonneg b
    have hfits : InI128 (b.amount.val * b.protocolFeeBps.val) := ⟨by omega, hlt⟩
    have hpaid : releaseBounty env auths s id = payOut env s id b r b.fee b.payout :=
      releaseBounty_of_product hget hauth hnew hr hfits
    refine ⟨hfits, fee_nonneg b, fee_le_amount b, payout_inI128 b, hpaid, ?_⟩
    intro m hm
    exact payOut_error (hpaid.symm.trans hm)

end Release

end Payout

/-! ### The largest amount -/

theorem two_lt_word : 2 < 2 ^ 32 := by
  decide

def sampleBounty (amount : I128) (hpos : 0 < amount.val) : Bounty ℕ :=
  ⟨1, 2, 3, amount, ⟨2, two_lt_word⟩, false, hpos, by decide⟩

def sampleHost : Env ℕ := ⟨0, fun _ _ => true⟩

def sampleState (b : Bounty ℕ) : State ℕ :=
  { initial ⟨fun _ _ => b.amount.val, []⟩ with
    feeRecipient := some 4
    nextId := some 1
    bounties := OrdMap.empty.set 0 b }

def largestBounty : Bounty ℕ := sampleBounty ⟨2 ^ 127 - 1, by decide, by decide⟩ (by decide)

def smallBounty : Bounty ℕ := sampleBounty ⟨5000, by decide, by decide⟩ (by decide)

theorem release_pays_floor_fee_sample :
    PaysFloorFee sampleHost [1] (sampleState smallBounty) 0 smallBounty 4 ↔
      (5000 : ℤ) * 2 < 2 ^ 127 :=
  release_pays_floor_fee_iff (by decide) (by decide) rfl rfl

theorem largest_bounty_locked : ¬ ∀ (env : Env ℕ) (auths : List ℕ) (s : State ℕ) (id : U64)
    (b : Bounty ℕ) (r : ℕ), s.bounties.get id = some b → b.creator ∈ auths → b.released = false →
    s.feeRecipient = some r → PaysFloorFee env auths s id b r := by
  intro h
  have hpays := h sampleHost [1] (sampleState largestBounty) 0 largestBounty 4 (by decide)
    (by decide) rfl rfl
  have hpanic : releaseBounty sampleHost [1] (sampleState largestBounty) 0 =
      .error "attempt to multiply with overflow" :=
    releaseBounty_of_overflow (r := 4) (b := largestBounty) (by decide) (by decide) rfl rfl
      fun hfits => absurd hfits.2 (by decide)
  exact absurd (hpays.refused _ hpanic) (by decide)

end Liquifact.Contracts.BountyContract
