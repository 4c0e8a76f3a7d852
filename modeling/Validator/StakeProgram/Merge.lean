import Validator.Data.WeightedMean

namespace Validator.StakeProgram

open Validator.Data

/-! ## The model: `stake_state.rs` -/

/-- `InstructionError`, the two kinds the merge of delegations returns. -/
inductive InstructionError where
  | insufficientFunds
  | arithmeticOverflow
deriving Repr, DecidableEq

/-- `Delegation`, with the one field the merge of delegations reads. -/
structure Delegation where
  stake : UInt64
deriving Repr, DecidableEq

/-- `Stake`. -/
structure Stake where
  delegation : Delegation
  creditsObserved : UInt64
deriving Repr, DecidableEq

namespace U64

/-- `u64::checked_add`. -/
def checkedAdd (a b : UInt64) : Option UInt64 :=
  if a.toNat + b.toNat < 2 ^ 64 then some (a + b) else none

/-- `u64::try_from(u128)`. -/
def tryFrom (value : Nat) : Option UInt64 :=
  if value < 2 ^ 64 then some (UInt64.ofNat value) else none

end U64

-- `u128` arithmetic on the naturals below `2 ^ 128`; `u128::from(u64)` is `UInt64.toNat`
namespace U128

def checkedAdd (a b : Nat) : Option Nat := if a + b < 2 ^ 128 then some (a + b) else none

def checkedMul (a b : Nat) : Option Nat := if a * b < 2 ^ 128 then some (a * b) else none

def checkedSub (a b : Nat) : Option Nat := if b ≤ a then some (a - b) else none

def checkedDiv (a b : Nat) : Option Nat := if b = 0 then none else some (a / b)

end U128

/-- The stake program's `checked_add`: an overflow is `InsufficientFunds`. -/
def checkedAdd (a b : UInt64) : Except InstructionError UInt64 :=
  match U64.checkedAdd a b with
  | some sum => .ok sum
  | none => .error .insufficientFunds

/-- `stake_weighted_credits_observed`: the credits observed of the merged stake, the mean of the
two weighted by their stakes, rounded up by adding `total_stake - 1` before dividing. -/
def stakeWeightedCreditsObserved (stake : Stake) (absorbedLamports absorbedCreditsObserved : UInt64) :
    Option UInt64 :=
  if stake.creditsObserved = absorbedCreditsObserved then some stake.creditsObserved
  else do
    let totalStake := (← U64.checkedAdd stake.delegation.stake absorbedLamports).toNat
    let stakeWeightedCredits ←
      U128.checkedMul stake.creditsObserved.toNat stake.delegation.stake.toNat
    let absorbedWeightedCredits ← U128.checkedMul absorbedCreditsObserved.toNat absorbedLamports.toNat
    let totalWeightedCredits ← U128.checkedAdd stakeWeightedCredits absorbedWeightedCredits
    let totalWeightedCredits ← U128.checkedAdd totalWeightedCredits totalStake
    let totalWeightedCredits ← U128.checkedSub totalWeightedCredits 1
    U64.tryFrom (← U128.checkedDiv totalWeightedCredits totalStake)

/-- `merge_delegation_stake_and_credits_observed`. -/
def mergeDelegationStakeAndCreditsObserved (stake : Stake)
    (absorbedLamports absorbedCreditsObserved : UInt64) : Except InstructionError Stake := do
  let creditsObserved ←
    match stakeWeightedCreditsObserved stake absorbedLamports absorbedCreditsObserved with
    | some credits => pure credits
    | none => throw .arithmeticOverflow
  let stake := { stake with creditsObserved }
  let total ← checkedAdd stake.delegation.stake absorbedLamports
  pure { stake with delegation := { stake.delegation with stake := total } }

/-! ## Every checked step succeeds below `u64::MAX` -/

section Checked

variable {first second : Nat}

theorem U128.checkedAdd_of_lt (fits : first + second < 2 ^ 128) :
    U128.checkedAdd first second = some (first + second) := if_pos fits

theorem U128.checkedMul_of_lt (fits : first * second < 2 ^ 128) :
    U128.checkedMul first second = some (first * second) := if_pos fits

theorem U128.checkedSub_of_le (below : second ≤ first) :
    U128.checkedSub first second = some (first - second) := if_pos below

theorem U128.checkedDiv_of_pos (positive : 0 < second) :
    U128.checkedDiv first second = some (first / second) := if_neg (Nat.pos_iff_ne_zero.mp positive)

theorem U64.tryFrom_of_lt (fits : first < 2 ^ 64) : U64.tryFrom first = some (UInt64.ofNat first) :=
  if_pos fits

theorem U64.checkedAdd_of_lt {a b : UInt64} (fits : a.toNat + b.toNat < 2 ^ 64) :
    U64.checkedAdd a b = some (a + b) := if_pos fits

theorem U64.toNat_add_of_lt {a b : UInt64} (fits : a.toNat + b.toNat < 2 ^ 64) :
    (a + b).toNat = a.toNat + b.toNat := by
  rw [UInt64.toNat_add, Nat.mod_eq_of_lt fits]

/-- Two `u64` multiply without overflowing `u128`. -/
theorem mul_lt_of_lt_u64 (firstFits : first < 2 ^ 64) (secondFits : second < 2 ^ 64) :
    first * second < 2 ^ 128 :=
  calc first * second < 2 ^ 64 * 2 ^ 64 := Nat.mul_lt_mul'' firstFits secondFits
    _ = 2 ^ 128 := (Nat.pow_add 2 64 64).symm

end Checked

section Weighted

variable (stake : Stake) (absorbedLamports absorbedCreditsObserved : UInt64)

/-- The total stake of the merge. -/
def totalStake : Nat := stake.delegation.stake.toNat + absorbedLamports.toNat

/-- The credits of both stakes, each weighted by its stake. -/
def weightedCredits : Nat :=
  stake.creditsObserved.toNat * stake.delegation.stake.toNat +
    absorbedCreditsObserved.toNat * absorbedLamports.toNat

variable {stake absorbedLamports absorbedCreditsObserved}

/-- The weighted credits and the total stake add up below `2 ^ 128`: the weighted credits are at
most the larger credits times the total, both below `2 ^ 64`. -/
theorem weightedCredits_add_totalStake_lt (fits : totalStake stake absorbedLamports < 2 ^ 64) :
    weightedCredits stake absorbedLamports absorbedCreditsObserved +
      totalStake stake absorbedLamports < 2 ^ 128 := by
  have creditsFit : max stake.creditsObserved.toNat absorbedCreditsObserved.toNat < 2 ^ 64 :=
    max_lt (UInt64.toNat_lt _) (UInt64.toNat_lt _)
  have weighted : weightedCredits stake absorbedLamports absorbedCreditsObserved ≤
      max stake.creditsObserved.toNat absorbedCreditsObserved.toNat * totalStake stake absorbedLamports :=
    weighted_le_max_mul
  calc weightedCredits stake absorbedLamports absorbedCreditsObserved + totalStake stake absorbedLamports
      ≤ (max stake.creditsObserved.toNat absorbedCreditsObserved.toNat + 1) *
          totalStake stake absorbedLamports := by
        rw [Nat.succ_mul]
        exact Nat.add_le_add_right weighted _
    _ < 2 ^ 64 * 2 ^ 64 := Nat.mul_lt_mul_of_le_of_lt creditsFit fits (Nat.two_pow_pos 64)
    _ = 2 ^ 128 := (Nat.pow_add 2 64 64).symm

theorem ceilDiv_weightedCredits_lt :
    weightedCredits stake absorbedLamports absorbedCreditsObserved ⌈/⌉
      totalStake stake absorbedLamports < 2 ^ 64 :=
  Nat.lt_of_le_of_lt ceilDiv_weighted_le_max (max_lt (UInt64.toNat_lt _) (UInt64.toNat_lt _))

/-- With equal credits, the weighted mean is those credits. -/
theorem ceilDiv_weightedCredits_of_eq (positive : 0 < totalStake stake absorbedLamports)
    (same : stake.creditsObserved = absorbedCreditsObserved) :
    weightedCredits stake absorbedLamports absorbedCreditsObserved ⌈/⌉
      totalStake stake absorbedLamports = stake.creditsObserved.toNat := by
  have factored : weightedCredits stake absorbedLamports absorbedCreditsObserved =
      totalStake stake absorbedLamports * stake.creditsObserved.toNat := by
    rw [weightedCredits, totalStake, ← same, Nat.mul_comm _ stake.creditsObserved.toNat, Nat.mul_add]
  rw [factored, ceilDiv_mul_cancel _ positive]

/-- Below `u64::MAX`, `stake_weighted_credits_observed` returns the rounded-up weighted mean. -/
theorem stakeWeightedCreditsObserved_eq (positive : 0 < totalStake stake absorbedLamports)
    (fits : totalStake stake absorbedLamports < 2 ^ 64) :
    stakeWeightedCreditsObserved stake absorbedLamports absorbedCreditsObserved =
      some (UInt64.ofNat (weightedCredits stake absorbedLamports absorbedCreditsObserved ⌈/⌉
        totalStake stake absorbedLamports)) := by
  by_cases same : stake.creditsObserved = absorbedCreditsObserved
  · rw [stakeWeightedCreditsObserved, if_pos same, ceilDiv_weightedCredits_of_eq positive same,
      UInt64.ofNat_toNat]
  · have sum : weightedCredits stake absorbedLamports absorbedCreditsObserved +
        totalStake stake absorbedLamports < 2 ^ 128 := weightedCredits_add_totalStake_lt fits
    rw [stakeWeightedCreditsObserved, if_neg same]
    simp only [U64.checkedAdd_of_lt fits, U64.toNat_add_of_lt fits, Option.bind_eq_bind, Option.bind_some]
    have totalEq : stake.delegation.stake.toNat + absorbedLamports.toNat =
        totalStake stake absorbedLamports := rfl
    have weightedEq : stake.creditsObserved.toNat * stake.delegation.stake.toNat +
        absorbedCreditsObserved.toNat * absorbedLamports.toNat =
          weightedCredits stake absorbedLamports absorbedCreditsObserved := rfl
    -- each checked step returns, in the order of the source
    rw [U128.checkedMul_of_lt (mul_lt_of_lt_u64 (UInt64.toNat_lt _) (UInt64.toNat_lt _)),
      Option.bind_some,
      U128.checkedMul_of_lt (mul_lt_of_lt_u64 (UInt64.toNat_lt _) (UInt64.toNat_lt _)),
      Option.bind_some, U128.checkedAdd_of_lt (Nat.lt_of_le_of_lt (Nat.le_add_right _ _) sum),
      Option.bind_some, totalEq, weightedEq, U128.checkedAdd_of_lt sum, Option.bind_some,
      U128.checkedSub_of_le (Nat.le_trans positive (Nat.le_add_left _ _)), Option.bind_some,
      U128.checkedDiv_of_pos positive, Option.bind_some, ← Nat.ceilDiv_eq_add_pred_div]
    exact U64.tryFrom_of_lt ceilDiv_weightedCredits_lt

theorem mergeDelegationStakeAndCreditsObserved_eq (positive : 0 < totalStake stake absorbedLamports)
    (fits : totalStake stake absorbedLamports < 2 ^ 64) :
    mergeDelegationStakeAndCreditsObserved stake absorbedLamports absorbedCreditsObserved =
      .ok { delegation := { stake := stake.delegation.stake + absorbedLamports }
            creditsObserved := UInt64.ofNat (weightedCredits stake absorbedLamports absorbedCreditsObserved ⌈/⌉
              totalStake stake absorbedLamports) } := by
  simp only [mergeDelegationStakeAndCreditsObserved, stakeWeightedCreditsObserved_eq positive fits,
    checkedAdd, U64.checkedAdd_of_lt fits]
  rfl

example : mergeDelegationStakeAndCreditsObserved ⟨⟨3⟩, 5⟩ 4 9 = .ok ⟨⟨7⟩, 8⟩ := rfl

theorem merge_credits_weighted_ceiling (positive : 0 < totalStake stake absorbedLamports)
    (fits : totalStake stake absorbedLamports < 2 ^ 64) :
    ∃ merged : Stake,
      mergeDelegationStakeAndCreditsObserved stake absorbedLamports absorbedCreditsObserved =
        .ok merged ∧
      stakeWeightedCreditsObserved stake absorbedLamports absorbedCreditsObserved =
        some merged.creditsObserved ∧
      merged.delegation.stake.toNat = totalStake stake absorbedLamports ∧
      merged.creditsObserved.toNat =
        weightedCredits stake absorbedLamports absorbedCreditsObserved ⌈/⌉
          totalStake stake absorbedLamports ∧
      min stake.creditsObserved.toNat absorbedCreditsObserved.toNat ≤ merged.creditsObserved.toNat ∧
      merged.creditsObserved.toNat ≤ max stake.creditsObserved.toNat absorbedCreditsObserved.toNat ∧
      weightedCredits stake absorbedLamports absorbedCreditsObserved ≤
        merged.creditsObserved.toNat * totalStake stake absorbedLamports ∧
      merged.creditsObserved.toNat * totalStake stake absorbedLamports <
        weightedCredits stake absorbedLamports absorbedCreditsObserved +
          totalStake stake absorbedLamports := by
  have creditsEq : (UInt64.ofNat (weightedCredits stake absorbedLamports absorbedCreditsObserved ⌈/⌉
      totalStake stake absorbedLamports)).toNat =
        weightedCredits stake absorbedLamports absorbedCreditsObserved ⌈/⌉
          totalStake stake absorbedLamports :=
    UInt64.toNat_ofNat_of_lt' ceilDiv_weightedCredits_lt
  refine ⟨_, mergeDelegationStakeAndCreditsObserved_eq positive fits,
    stakeWeightedCreditsObserved_eq positive fits, U64.toNat_add_of_lt fits, creditsEq, ?_, ?_, ?_, ?_⟩
  · rw [creditsEq]
    exact min_le_ceilDiv_weighted positive
  · rw [creditsEq]
    exact ceilDiv_weighted_le_max
  · rw [creditsEq, Nat.mul_comm]
    exact le_mul_ceilDiv _ positive
  · rw [creditsEq, Nat.mul_comm]
    exact mul_ceilDiv_lt _ positive

end Weighted

theorem merge_credits_weighted_ceiling_of_three_four :
    0 < totalStake ⟨⟨3⟩, 5⟩ 4 ∧ totalStake ⟨⟨3⟩, 5⟩ 4 < 2 ^ 64 ∧
      ∃ merged : Stake, mergeDelegationStakeAndCreditsObserved ⟨⟨3⟩, 5⟩ 4 9 = .ok merged ∧
        stakeWeightedCreditsObserved ⟨⟨3⟩, 5⟩ 4 9 = some merged.creditsObserved ∧
        merged.delegation.stake.toNat = totalStake ⟨⟨3⟩, 5⟩ 4 ∧
        merged.creditsObserved.toNat = weightedCredits ⟨⟨3⟩, 5⟩ 4 9 ⌈/⌉ totalStake ⟨⟨3⟩, 5⟩ 4 ∧
        min (5 : UInt64).toNat (9 : UInt64).toNat ≤ merged.creditsObserved.toNat ∧
        merged.creditsObserved.toNat ≤ max (5 : UInt64).toNat (9 : UInt64).toNat ∧
        weightedCredits ⟨⟨3⟩, 5⟩ 4 9 ≤ merged.creditsObserved.toNat * totalStake ⟨⟨3⟩, 5⟩ 4 ∧
        merged.creditsObserved.toNat * totalStake ⟨⟨3⟩, 5⟩ 4 <
          weightedCredits ⟨⟨3⟩, 5⟩ 4 9 + totalStake ⟨⟨3⟩, 5⟩ 4 :=
  ⟨by decide, by decide, merge_credits_weighted_ceiling (by decide) (by decide)⟩

end Validator.StakeProgram
