import Mathlib.Algebra.GroupWithZero.Nat
import Mathlib.Logic.Function.Basic
import Mathlib.Order.Basic

namespace Validator.CostModel

/-! # `CostTracker`

The cost tracker of a block under construction: what a transaction costs is added to the
block, to the votes when it is a simple vote, and to each account it writes, when the
transaction fits under the limits; the execution's actual cost corrects the estimate later,
and a transaction that is not committed is removed.  `u64` arithmetic saturates where the
source calls `saturating_*` or works in `Saturating`; a `HashMap` is a partial function.
-/

abbrev Pubkey := Nat

/-- `u64::MAX`. -/
def u64Max : Nat := 2 ^ 64 - 1

namespace U64

def saturatingAdd (a b : Nat) : Nat :=
  min (a + b) u64Max

def saturatingSub (a b : Nat) : Nat :=
  a - b

end U64

/-- `COMPUTE_UNIT_TO_US_RATIO`. -/
def computeUnitToUsRatio : Nat := 30
def signatureCost : Nat := computeUnitToUsRatio * 24
def writeLockUnits : Nat := computeUnitToUsRatio * 10
def maxBlockUnits : Nat := 60000000
def maxWritableAccountUnits : Nat := 12000000
def maxVoteUnits : Nat := 36000000
def maxBlockAccountsDataSizeDelta : Nat := 100000000
def simpleVoteUsageCost : Nat := 3428
/-- The vote program's `DEFAULT_COMPUTE_UNITS`: `sum` asserts that `SIMPLE_VOTE_USAGE_COST` is
these, one signature, two write locks and `8`. -/
def voteDefaultComputeUnits : Nat := 2100

structure UsageCostDetails where
  /-- The writable accounts of the transaction. -/
  writableAccounts : List Pubkey
  numTransactionSignatures : Nat
  numSecp256k1InstructionSignatures : Nat
  numEd25519InstructionSignatures : Nat
  numSecp256r1InstructionSignatures : Nat
  signatureCost : Nat
  writeLockCost : Nat
  dataBytesCost : Nat
  programsExecutionCost : Nat
  loadedAccountsDataSizeCost : Nat
  allocatedAccountsDataSize : Nat
deriving DecidableEq, Repr

def UsageCostDetails.sum (self : UsageCostDetails) : Nat :=
  U64.saturatingAdd
    (U64.saturatingAdd
      (U64.saturatingAdd (U64.saturatingAdd self.signatureCost self.writeLockCost)
        self.dataBytesCost)
      self.programsExecutionCost)
    self.loadedAccountsDataSizeCost

inductive TransactionCost where
  /-- A simple vote, with the accounts it writes. -/
  | simpleVote (writableAccounts : List Pubkey)
  | transaction (usageCost : UsageCostDetails)
deriving DecidableEq, Repr

namespace TransactionCost

variable (self : TransactionCost)

def sum : Nat :=
  match self with
  | .simpleVote _ => simpleVoteUsageCost
  | .transaction usageCost => usageCost.sum

def programsExecutionCost : Nat :=
  match self with
  | .simpleVote _ => voteDefaultComputeUnits
  | .transaction usageCost => usageCost.programsExecutionCost

def isSimpleVote : Bool :=
  match self with
  | .simpleVote _ => true
  | .transaction _ => false

def allocatedAccountsDataSize : Nat :=
  match self with
  | .simpleVote _ => 0
  | .transaction usageCost => usageCost.allocatedAccountsDataSize

def loadedAccountsDataSizeCost : Nat :=
  match self with
  | .simpleVote _ => 8
  | .transaction usageCost => usageCost.loadedAccountsDataSizeCost

def writableAccounts : List Pubkey :=
  match self with
  | .simpleVote writableAccounts => writableAccounts
  | .transaction usageCost => usageCost.writableAccounts

def numTransactionSignatures : Nat :=
  match self with
  | .simpleVote _ => 1
  | .transaction usageCost => usageCost.numTransactionSignatures

def numSecp256k1InstructionSignatures : Nat :=
  match self with
  | .simpleVote _ => 0
  | .transaction usageCost => usageCost.numSecp256k1InstructionSignatures

def numEd25519InstructionSignatures : Nat :=
  match self with
  | .simpleVote _ => 0
  | .transaction usageCost => usageCost.numEd25519InstructionSignatures

def numSecp256r1InstructionSignatures : Nat :=
  match self with
  | .simpleVote _ => 0
  | .transaction usageCost => usageCost.numSecp256r1InstructionSignatures

end TransactionCost

inductive CostTrackerError where
  | wouldExceedBlockMaxLimit
  | wouldExceedVoteMaxLimit
  | wouldExceedAccountMaxLimit
  | wouldExceedAccountDataBlockLimit
  | wouldExceedAccountDataTotalLimit
deriving DecidableEq, Repr

structure UpdatedCosts where
  updatedBlockCost : Nat
  updatedCostliestAccountCost : Nat
deriving DecidableEq, Repr

structure CostTracker where
  accountCostLimit : Nat
  blockCostLimit : Nat
  voteCostLimit : Nat
  costByWritableAccounts : Pubkey → Option Nat
  blockCost : Nat
  voteCost : Nat
  transactionCount : Nat
  allocatedAccountsDataSize : Nat
  transactionSignatureCount : Nat
  secp256k1InstructionSignatureCount : Nat
  ed25519InstructionSignatureCount : Nat
  secp256r1InstructionSignatureCount : Nat

namespace CostTracker

def default : CostTracker where
  accountCostLimit := maxWritableAccountUnits
  blockCostLimit := maxBlockUnits
  voteCostLimit := maxVoteUnits
  costByWritableAccounts := fun _ => none
  blockCost := 0
  voteCost := 0
  transactionCount := 0
  allocatedAccountsDataSize := 0
  transactionSignatureCount := 0
  secp256k1InstructionSignatureCount := 0
  ed25519InstructionSignatureCount := 0
  secp256r1InstructionSignatureCount := 0

variable (self : CostTracker)

def setLimits (accountCostLimit blockCostLimit voteCostLimit : Nat) : CostTracker :=
  { self with
    accountCostLimit := accountCostLimit
    blockCostLimit := blockCostLimit
    voteCostLimit := voteCostLimit }

/-- Whether some account the transaction writes already has a cost that `cost` would take over
the account limit. -/
def exceedsAccountLimit (accounts : List Pubkey) (cost : Nat) : Bool :=
  accounts.any fun accountKey =>
    match self.costByWritableAccounts accountKey with
    | some chainedCost => decide (U64.saturatingAdd chainedCost cost > self.accountCostLimit)
    | none => false

def wouldFit (txCost : TransactionCost) : Except CostTrackerError Unit :=
  let cost := txCost.sum
  if txCost.isSimpleVote && decide (U64.saturatingAdd self.voteCost cost > self.voteCostLimit) then
    .error .wouldExceedVoteMaxLimit
  else if U64.saturatingAdd self.blockCost cost > self.blockCostLimit then
    .error .wouldExceedBlockMaxLimit
  else if cost > self.accountCostLimit then
    .error .wouldExceedAccountMaxLimit
  else if U64.saturatingAdd self.allocatedAccountsDataSize txCost.allocatedAccountsDataSize >
      maxBlockAccountsDataSizeDelta then
    .error .wouldExceedAccountDataBlockLimit
  else if self.exceedsAccountLimit txCost.writableAccounts cost then
    .error .wouldExceedAccountMaxLimit
  else .ok ()

/-- The loop over the writable accounts of `add_transaction_execution_cost` and
`sub_transaction_execution_cost`: each account's entry, inserted as `0` when missing, takes
`update` of its cost, and the greatest cost so far is kept beside. -/
def accountCostsLoop (update : Nat → Nat) :
    (Pubkey → Option Nat) × Nat → List Pubkey → (Pubkey → Option Nat) × Nat
  | state, [] => state
  | (costs, costliest), accountKey :: rest =>
      let accountCost := update ((costs accountKey).getD 0)
      accountCostsLoop update
        (Function.update costs accountKey (some accountCost), max costliest accountCost) rest

/-- `add_transaction_execution_cost`: the tracker, and the costliest account cost it updated. -/
def addTransactionExecutionCost (txCost : TransactionCost) (adjustment : Nat) :
    CostTracker × Nat :=
  let (costs, costliestAccountCost) :=
    accountCostsLoop (U64.saturatingAdd · adjustment) (self.costByWritableAccounts, 0)
      txCost.writableAccounts
  ({ self with
    costByWritableAccounts := costs
    blockCost := U64.saturatingAdd self.blockCost adjustment
    voteCost :=
      if txCost.isSimpleVote then U64.saturatingAdd self.voteCost adjustment else self.voteCost },
    costliestAccountCost)

def subTransactionExecutionCost (txCost : TransactionCost) (adjustment : Nat) : CostTracker :=
  -- the same loop, whose greatest cost is not kept
  let (costs, _) :=
    accountCostsLoop (U64.saturatingSub · adjustment) (self.costByWritableAccounts, 0)
      txCost.writableAccounts
  { self with
    costByWritableAccounts := costs
    blockCost := U64.saturatingSub self.blockCost adjustment
    voteCost :=
      if txCost.isSimpleVote then U64.saturatingSub self.voteCost adjustment else self.voteCost }

def addTransactionCost (txCost : TransactionCost) : CostTracker × Nat :=
  let self := { self with
    allocatedAccountsDataSize :=
      U64.saturatingAdd self.allocatedAccountsDataSize txCost.allocatedAccountsDataSize
    transactionCount := U64.saturatingAdd self.transactionCount 1
    transactionSignatureCount :=
      U64.saturatingAdd self.transactionSignatureCount txCost.numTransactionSignatures
    secp256k1InstructionSignatureCount :=
      U64.saturatingAdd self.secp256k1InstructionSignatureCount
        txCost.numSecp256k1InstructionSignatures
    ed25519InstructionSignatureCount :=
      U64.saturatingAdd self.ed25519InstructionSignatureCount
        txCost.numEd25519InstructionSignatures
    secp256r1InstructionSignatureCount :=
      U64.saturatingAdd self.secp256r1InstructionSignatureCount
        txCost.numSecp256r1InstructionSignatures }
  self.addTransactionExecutionCost txCost txCost.sum

def removeTransactionCost (txCost : TransactionCost) : CostTracker :=
  let self := self.subTransactionExecutionCost txCost txCost.sum
  { self with
    allocatedAccountsDataSize :=
      U64.saturatingSub self.allocatedAccountsDataSize txCost.allocatedAccountsDataSize
    transactionCount := U64.saturatingSub self.transactionCount 1
    transactionSignatureCount :=
      U64.saturatingSub self.transactionSignatureCount txCost.numTransactionSignatures
    secp256k1InstructionSignatureCount :=
      U64.saturatingSub self.secp256k1InstructionSignatureCount
        txCost.numSecp256k1InstructionSignatures
    ed25519InstructionSignatureCount :=
      U64.saturatingSub self.ed25519InstructionSignatureCount
        txCost.numEd25519InstructionSignatures
    secp256r1InstructionSignatureCount :=
      U64.saturatingSub self.secp256r1InstructionSignatureCount
        txCost.numSecp256r1InstructionSignatures }

/-- `try_add`, on `&mut self`: the tracker after the call, and what the call returns. -/
def tryAdd (txCost : TransactionCost) : CostTracker × Except CostTrackerError UpdatedCosts :=
  match self.wouldFit txCost with
  | .error error => (self, .error error)
  | .ok () =>
      let (next, updatedCostliestAccountCost) := self.addTransactionCost txCost
      (next, .ok ⟨next.blockCost, updatedCostliestAccountCost⟩)

def updateExecutionCost (estimatedTxCost : TransactionCost)
    (actualExecutionUnits actualLoadedAccountsDataSizeCost : Nat) : CostTracker :=
  let actualLoadAndExecutionUnits :=
    U64.saturatingAdd actualExecutionUnits actualLoadedAccountsDataSizeCost
  let estimatedLoadAndExecutionUnits :=
    U64.saturatingAdd estimatedTxCost.programsExecutionCost
      estimatedTxCost.loadedAccountsDataSizeCost
  match compare actualLoadAndExecutionUnits estimatedLoadAndExecutionUnits with
  | .eq => self
  | .gt =>
      (self.addTransactionExecutionCost estimatedTxCost
        (actualLoadAndExecutionUnits - estimatedLoadAndExecutionUnits)).1
  | .lt =>
      self.subTransactionExecutionCost estimatedTxCost
        (estimatedLoadAndExecutionUnits - actualLoadAndExecutionUnits)

def remove (txCost : TransactionCost) : CostTracker :=
  self.removeTransactionCost txCost


/-! ## What each call does -/

theorem accountCostsLoop_apply (update : Nat → Nat) {accounts : List Pubkey}
    (distinct : accounts.Nodup) (costs : Pubkey → Option Nat) (costliest : Nat) (key : Pubkey) :
    (accountCostsLoop update (costs, costliest) accounts).1 key =
      if key ∈ accounts then some (update ((costs key).getD 0)) else costs key := by
  induction accounts generalizing costs costliest with
  | nil => simp [accountCostsLoop]
  | cons accountKey rest ih =>
      obtain ⟨fresh, distinct⟩ := List.nodup_cons.mp distinct
      rw [accountCostsLoop, ih distinct]
      by_cases same : key = accountKey
      · subst same
        simp [fresh]
      · simp [same]

variable {self : CostTracker}

theorem tryAdd_error {txCost : TransactionCost} {next : CostTracker} {error : CostTrackerError}
    (rejected : self.tryAdd txCost = (next, .error error)) : next = self := by
  unfold tryAdd at rejected
  split at rejected
  · exact (Prod.mk.inj rejected).1.symm
  · simp at rejected

theorem tryAdd_ok {txCost : TransactionCost} {next : CostTracker} {updated : UpdatedCosts}
    (accepted : self.tryAdd txCost = (next, .ok updated)) :
    self.wouldFit txCost = .ok () ∧ next = (self.addTransactionCost txCost).1 := by
  unfold tryAdd at accepted
  split at accepted
  · simp at accepted
  · next fits => exact ⟨fits, (Prod.mk.inj accepted).1.symm⟩

/-- What `would_fit` checked of a transaction it let in. -/
structure Fits (self : CostTracker) (txCost : TransactionCost) : Prop where
  vote : txCost.isSimpleVote = true → U64.saturatingAdd self.voteCost txCost.sum ≤ self.voteCostLimit
  block : U64.saturatingAdd self.blockCost txCost.sum ≤ self.blockCostLimit
  account : txCost.sum ≤ self.accountCostLimit
  allocated : U64.saturatingAdd self.allocatedAccountsDataSize txCost.allocatedAccountsDataSize ≤
    maxBlockAccountsDataSizeDelta
  chained : ∀ accountKey ∈ txCost.writableAccounts, ∀ chainedCost,
    self.costByWritableAccounts accountKey = some chainedCost →
      U64.saturatingAdd chainedCost txCost.sum ≤ self.accountCostLimit

theorem wouldFit_ok {txCost : TransactionCost} (fits : self.wouldFit txCost = .ok ()) :
    self.Fits txCost := by
  simp only [wouldFit] at fits
  split_ifs at fits with vote block account allocated chained
  refine ⟨fun simple => ?_, by omega, by omega, by omega, ?_⟩
  · simp only [simple, Bool.true_and, decide_eq_true_eq] at vote
    omega
  · intro accountKey member chainedCost found
    simp only [exceedsAccountLimit, List.any_eq_true, not_exists, not_and] at chained
    have := chained accountKey member
    simp only [found, decide_eq_true_eq] at this
    omega

end CostTracker

/-! ## What each call does, charge by charge -/

/-- What the tracker charges a cost to: the block, the votes, or one account. -/
inductive Charge where
  | block
  | vote
  | account (accountKey : Pubkey)
deriving DecidableEq, Repr

namespace Charge

/-- Whether a transaction's cost is charged here. -/
def covers : Charge → TransactionCost → Bool
  | .block, _ => true
  | .vote, txCost => txCost.isSimpleVote
  | .account accountKey, txCost => decide (accountKey ∈ txCost.writableAccounts)

def limit : Charge → CostTracker → Nat
  | .block, tracker => tracker.blockCostLimit
  | .vote, tracker => tracker.voteCostLimit
  | .account _, tracker => tracker.accountCostLimit

end Charge

namespace CostTracker

/-- What the tracker holds against a charge; an account without an entry holds `0`. -/
def charged (tracker : CostTracker) : Charge → Nat
  | .block => tracker.blockCost
  | .vote => tracker.voteCost
  | .account accountKey => (tracker.costByWritableAccounts accountKey).getD 0

/-- `after` is `before` with `move` applied to every charge of `txCost`, and the same limits. -/
structure Moved (before after : CostTracker) (txCost : TransactionCost) (move : Nat → Nat) :
    Prop where
  charged : ∀ charge, after.charged charge =
    if charge.covers txCost then move (before.charged charge) else before.charged charge
  limit : ∀ charge : Charge, charge.limit after = charge.limit before

variable {self : CostTracker} {txCost : TransactionCost}

/-- The two execution-cost calls move the charges of a transaction the same way. -/
theorem moved_of_loop {after : CostTracker} {move : Nat → Nat}
    (distinct : txCost.writableAccounts.Nodup)
    (costs : after.costByWritableAccounts =
      (accountCostsLoop move (self.costByWritableAccounts, 0) txCost.writableAccounts).1)
    (block : after.blockCost = move self.blockCost)
    (vote : after.voteCost = if txCost.isSimpleVote then move self.voteCost else self.voteCost)
    (limits : after.accountCostLimit = self.accountCostLimit ∧
      after.blockCostLimit = self.blockCostLimit ∧ after.voteCostLimit = self.voteCostLimit) :
    Moved self after txCost move := by
  constructor
  · intro charge
    cases charge with
    | block => simp [charged, Charge.covers, block]
    | vote => cases simple : txCost.isSimpleVote <;> simp [charged, Charge.covers, vote, simple]
    | account accountKey =>
        simp only [charged, Charge.covers, costs, accountCostsLoop_apply move distinct,
          decide_eq_true_eq]
        split <;> rfl
  · intro charge
    cases charge <;> simp [Charge.limit, limits]

theorem addTransactionExecutionCost_moved (adjustment : Nat)
    (distinct : txCost.writableAccounts.Nodup) :
    Moved self (self.addTransactionExecutionCost txCost adjustment).1 txCost
      (U64.saturatingAdd · adjustment) :=
  moved_of_loop distinct rfl rfl rfl ⟨rfl, rfl, rfl⟩

theorem subTransactionExecutionCost_moved (adjustment : Nat)
    (distinct : txCost.writableAccounts.Nodup) :
    Moved self (self.subTransactionExecutionCost txCost adjustment) txCost
      (U64.saturatingSub · adjustment) :=
  moved_of_loop distinct rfl rfl rfl ⟨rfl, rfl, rfl⟩

theorem addTransactionCost_moved (distinct : txCost.writableAccounts.Nodup) :
    Moved self (self.addTransactionCost txCost).1 txCost (U64.saturatingAdd · txCost.sum) ∧
      (self.addTransactionCost txCost).1.allocatedAccountsDataSize =
        U64.saturatingAdd self.allocatedAccountsDataSize txCost.allocatedAccountsDataSize :=
  ⟨moved_of_loop distinct rfl rfl rfl ⟨rfl, rfl, rfl⟩, rfl⟩

theorem removeTransactionCost_moved (distinct : txCost.writableAccounts.Nodup) :
    Moved self (self.removeTransactionCost txCost) txCost (U64.saturatingSub · txCost.sum) ∧
      (self.removeTransactionCost txCost).allocatedAccountsDataSize =
        U64.saturatingSub self.allocatedAccountsDataSize txCost.allocatedAccountsDataSize :=
  ⟨moved_of_loop distinct rfl rfl rfl ⟨rfl, rfl, rfl⟩, rfl⟩

/-- The estimate `update_execution_cost` corrects. -/
def estimatedUnits (txCost : TransactionCost) : Nat :=
  U64.saturatingAdd txCost.programsExecutionCost txCost.loadedAccountsDataSizeCost

/-- A correction moves the charges up by the excess of the actual units over the estimate, or
down by the shortfall; an exact estimate changes nothing. -/
theorem updateExecutionCost_moved (actualExecutionUnits actualLoadedAccountsDataSizeCost : Nat)
    (distinct : txCost.writableAccounts.Nodup) :
    let actual := U64.saturatingAdd actualExecutionUnits actualLoadedAccountsDataSizeCost
    Moved self (self.updateExecutionCost txCost actualExecutionUnits actualLoadedAccountsDataSizeCost)
        txCost (fun cost => if estimatedUnits txCost < actual
          then U64.saturatingAdd cost (actual - estimatedUnits txCost)
          else U64.saturatingSub cost (estimatedUnits txCost - actual)) ∧
      (self.updateExecutionCost txCost actualExecutionUnits
        actualLoadedAccountsDataSizeCost).allocatedAccountsDataSize =
          self.allocatedAccountsDataSize := by
  intro actual
  have unfolded : self.updateExecutionCost txCost actualExecutionUnits
      actualLoadedAccountsDataSizeCost =
      match compare actual (estimatedUnits txCost) with
      | .eq => self
      | .gt => (self.addTransactionExecutionCost txCost (actual - estimatedUnits txCost)).1
      | .lt => self.subTransactionExecutionCost txCost (estimatedUnits txCost - actual) := rfl
  rw [unfolded]
  split
  · next same =>
    have same : actual = estimatedUnits txCost := Nat.compare_eq_eq.mp same
    refine ⟨⟨fun charge => ?_, fun _ => rfl⟩, rfl⟩
    simp [same, U64.saturatingSub]
  · next above =>
    have above : estimatedUnits txCost < actual := Nat.compare_eq_gt.mp above
    have moved : Moved self (self.addTransactionExecutionCost txCost
        (actual - estimatedUnits txCost)).1 txCost _ :=
      addTransactionExecutionCost_moved _ distinct
    exact ⟨⟨fun charge => by rw [moved.charged charge, if_pos above], moved.limit⟩, rfl⟩
  · next below =>
    have below : actual < estimatedUnits txCost := Nat.compare_eq_lt.mp below
    have moved : Moved self (self.subTransactionExecutionCost txCost
        (estimatedUnits txCost - actual)) txCost _ :=
      subTransactionExecutionCost_moved _ distinct
    have notAbove : ¬ estimatedUnits txCost < actual := Nat.not_lt.mpr (Nat.le_of_lt below)
    exact ⟨⟨fun charge => by rw [moved.charged charge, if_neg notAbove], moved.limit⟩, rfl⟩

theorem estimatedUnits_le_sum (txCost : TransactionCost) :
    estimatedUnits txCost ≤ txCost.sum := by
  cases txCost with
  | simpleVote =>
      show U64.saturatingAdd voteDefaultComputeUnits 8 ≤ simpleVoteUsageCost
      decide
  | transaction usageCost =>
      simp only [estimatedUnits, TransactionCost.programsExecutionCost,
        TransactionCost.loadedAccountsDataSizeCost, TransactionCost.sum, UsageCostDetails.sum,
        U64.saturatingAdd]
      omega

/-- A charge `would_fit` let a transaction add to stays within its limit. -/
theorem charged_le_limit_of_fits {tracker : CostTracker} {txCost : TransactionCost}
    (fits : tracker.Fits txCost) {charge : Charge} (covered : charge.covers txCost = true) :
    U64.saturatingAdd (tracker.charged charge) txCost.sum ≤ charge.limit tracker := by
  cases charge with
  | block => exact Fits.block fits
  | vote => exact Fits.vote fits covered
  | account accountKey =>
      have member : accountKey ∈ txCost.writableAccounts := by
        simpa [Charge.covers] using covered
      cases found : tracker.costByWritableAccounts accountKey with
      | none =>
          have := Fits.account fits
          simp only [charged, found, Option.getD_none, Charge.limit,
            U64.saturatingAdd]
          omega
      | some chainedCost =>
          simpa [charged, found, Charge.limit] using
            Fits.chained fits accountKey member chainedCost found

theorem updateExecutionCost_limit {tracker : CostTracker} {txCost : TransactionCost}
    (actualExecutionUnits actualLoadedAccountsDataSizeCost : Nat) (charge : Charge) :
    charge.limit (tracker.updateExecutionCost txCost actualExecutionUnits
      actualLoadedAccountsDataSizeCost) = charge.limit tracker := by
  simp only [updateExecutionCost]
  split <;> cases charge <;> rfl

end CostTracker

end Validator.CostModel
