import Mathlib.Algebra.GroupWithZero.Nat
import Mathlib.Algebra.BigOperators.Group.List.Basic
import Validator.CostModel.CostTracker
import Validator.Data.Trace

namespace Validator.CostModel

/-! # The books of a block's cost tracker over a run

The transactions the tracker let in and has not removed are live; each has a current cost,
its estimate until the execution's actual cost corrects it.  A run is a sequence of calls on
the tracker: `try_add` of a new transaction, and one `update_execution_cost` or one `remove`
of a live one that has not been corrected yet, as the banking stage's QoS service makes them.
Over every run the tracker's charges are the sums of the current costs of the live
transactions they cover, and, while no correction goes up, they stay within the limits.
-/

structure Live where
  id : Nat
  txCost : TransactionCost
  cost : Nat
  /-- Whether the execution's actual cost has replaced the estimate. -/
  updated : Bool
deriving DecidableEq, Repr

/-- A live transaction after `update_execution_cost`. -/
def Live.correct (entry : Live) (actualExecutionUnits actualLoadedAccountsDataSizeCost : Nat) :
    Live :=
  { entry with
    cost := entry.cost + U64.saturatingAdd actualExecutionUnits actualLoadedAccountsDataSizeCost -
      CostTracker.estimatedUnits entry.txCost
    updated := true }

inductive Request where
  | tryAdd (id : Nat) (txCost : TransactionCost)
  | updateExecutionCost (id : Nat) (txCost : TransactionCost)
      (actualExecutionUnits actualLoadedAccountsDataSizeCost : Nat)
  | remove (id : Nat) (txCost : TransactionCost)
deriving DecidableEq, Repr

/-- A correction that does not go above the estimate. -/
def Request.Downward : Request → Prop
  | .updateExecutionCost _ txCost actualExecutionUnits actualLoadedAccountsDataSizeCost =>
      U64.saturatingAdd actualExecutionUnits actualLoadedAccountsDataSizeCost ≤
        CostTracker.estimatedUnits txCost
  | _ => True

structure Ledger where
  tracker : CostTracker
  live : List Live

/-- The sum of `weight` over the live transactions `counted` selects. -/
def book (counted : Live → Bool) (weight : Live → Nat) (live : List Live) : Nat :=
  ((live.filter counted).map weight).sum

/-- The current costs of the live transactions a charge covers. -/
def chargeBook (charge : Charge) (live : List Live) : Nat :=
  book (fun entry => charge.covers entry.txCost) (·.cost) live

def allocatedBook (live : List Live) : Nat :=
  book (fun _ => true) (·.txCost.allocatedAccountsDataSize) live

/-- No `u64` sum of the books saturates. -/
def Unsaturated (live : List Live) : Prop :=
  chargeBook .block live ≤ u64Max ∧ allocatedBook live ≤ u64Max

instance (live : List Live) : Decidable (Unsaturated live) :=
  inferInstanceAs (Decidable (_ ∧ _))

section Book

variable {counted : Live → Bool} {weight : Live → Nat}

theorem book_append (live : List Live) (entry : Live) :
    book counted weight (live ++ [entry]) =
      book counted weight live + if counted entry then weight entry else 0 := by
  cases covered : counted entry <;> simp [book, List.filter_append, covered]

theorem book_erase {live : List Live} {entry : Live} (member : entry ∈ live) :
    book counted weight live =
      book counted weight (live.erase entry) + if counted entry then weight entry else 0 := by
  have moved := ((List.perm_cons_erase member).filter counted).map weight
  unfold book
  rw [moved.sum_eq]
  cases covered : counted entry <;> simp [covered, Nat.add_comm]

theorem book_le_all (counted : Live → Bool) (weight : Live → Nat) (live : List Live) :
    book counted weight live ≤ book (fun _ => true) weight live := by
  induction live with
  | nil => simp [book]
  | cons entry rest ih =>
      cases covered : counted entry <;> simp [book, covered] at ih ⊢ <;> omega

end Book

theorem chargeBook_le_block (charge : Charge) (live : List Live) :
    chargeBook charge live ≤ chargeBook .block live :=
  book_le_all _ _ live

/-- What a run keeps: the charges and the allocations are the books of the live
transactions, an uncorrected transaction costs its estimate, and the live transactions are
told apart by their ids and write each account once. -/
structure Booked (ledger : Ledger) : Prop where
  charged : ∀ charge, ledger.tracker.charged charge = chargeBook charge ledger.live
  allocated : ledger.tracker.allocatedAccountsDataSize = allocatedBook ledger.live
  estimated : ∀ entry ∈ ledger.live, entry.updated = false → entry.cost = entry.txCost.sum
  ids : (ledger.live.map (·.id)).Nodup
  distinct : ∀ entry ∈ ledger.live, entry.txCost.writableAccounts.Nodup

/-- The calls of a run.  A live transaction is corrected or removed once, and a corrected one
is not removed; a transaction is let in only with writable accounts that differ, and no call
takes a sum of the books past `u64::MAX`. -/
inductive Step : Ledger → Request → Ledger → Prop
  | rejected {ledger : Ledger} {next : CostTracker} {error : CostTrackerError} {id : Nat}
      {txCost : TransactionCost} :
      ledger.tracker.tryAdd txCost = (next, .error error) →
      Step ledger (.tryAdd id txCost) ⟨next, ledger.live⟩
  | accepted {ledger : Ledger} {next : CostTracker} {updated : UpdatedCosts} {id : Nat}
      {txCost : TransactionCost} :
      ledger.tracker.tryAdd txCost = (next, .ok updated) →
      id ∉ ledger.live.map (·.id) →
      txCost.writableAccounts.Nodup →
      Unsaturated (ledger.live ++ [⟨id, txCost, txCost.sum, false⟩]) →
      Step ledger (.tryAdd id txCost) ⟨next, ledger.live ++ [⟨id, txCost, txCost.sum, false⟩]⟩
  | corrected {ledger : Ledger} {entry : Live}
      {actualExecutionUnits actualLoadedAccountsDataSizeCost : Nat} :
      entry ∈ ledger.live → entry.updated = false →
      Unsaturated (ledger.live.erase entry ++
        [entry.correct actualExecutionUnits actualLoadedAccountsDataSizeCost]) →
      Step ledger
        (.updateExecutionCost entry.id entry.txCost actualExecutionUnits
          actualLoadedAccountsDataSizeCost)
        ⟨ledger.tracker.updateExecutionCost entry.txCost actualExecutionUnits
            actualLoadedAccountsDataSizeCost,
          ledger.live.erase entry ++
            [entry.correct actualExecutionUnits actualLoadedAccountsDataSizeCost]⟩
  | removed {ledger : Ledger} {entry : Live} :
      entry ∈ ledger.live → entry.updated = false →
      Step ledger (.remove entry.id entry.txCost)
        ⟨ledger.tracker.remove entry.txCost, ledger.live.erase entry⟩

/-! ## Each call keeps the books -/

variable {ledger : Ledger}

theorem Booked.accepted {next : CostTracker} {updated : UpdatedCosts} {id : Nat}
    {txCost : TransactionCost} (booked : Booked ledger)
    (added : ledger.tracker.tryAdd txCost = (next, .ok updated))
    (fresh : id ∉ ledger.live.map (·.id)) (distinct : txCost.writableAccounts.Nodup)
    (fits : Unsaturated (ledger.live ++ [⟨id, txCost, txCost.sum, false⟩])) :
    Booked ⟨next, ledger.live ++ [⟨id, txCost, txCost.sum, false⟩]⟩ := by
  obtain ⟨-, rfl⟩ := CostTracker.tryAdd_ok added
  obtain ⟨moved, allocated⟩ := CostTracker.addTransactionCost_moved distinct
  constructor
  · intro charge
    have within := Nat.le_trans (chargeBook_le_block charge _) fits.1
    simp only [chargeBook, book_append] at within ⊢
    rw [moved.charged charge, booked.charged charge, chargeBook]
    cases covered : charge.covers txCost <;> simp [covered, U64.saturatingAdd] at within ⊢
    omega
  · have within := fits.2
    simp only [allocatedBook, book_append] at within ⊢
    rw [allocated, booked.allocated, allocatedBook]
    simp only [U64.saturatingAdd, if_true] at within ⊢
    omega
  · intro entry member pending
    rcases List.mem_append.mp member with old | added
    · exact booked.estimated entry old pending
    · simp only [List.mem_singleton] at added
      subst added
      rfl
  · simpa [List.nodup_append] using And.intro booked.ids fresh
  · intro entry member
    rcases List.mem_append.mp member with old | added
    · exact booked.distinct entry old
    · simp only [List.mem_singleton] at added
      subst added
      exact distinct

theorem ids_erase {live : List Live} {entry : Live} (member : entry ∈ live)
    (ids : (live.map (·.id)).Nodup) :
    ((live.erase entry).map (·.id)).Nodup ∧ entry.id ∉ (live.erase entry).map (·.id) := by
  have moved := ((List.perm_cons_erase member).map (·.id)).nodup_iff.mp ids
  simp only [List.map_cons, List.nodup_cons] at moved
  exact ⟨moved.2, moved.1⟩

theorem Booked.corrected {entry : Live} {actualExecutionUnits actualLoadedAccountsDataSizeCost : Nat}
    (booked : Booked ledger) (member : entry ∈ ledger.live) (pending : entry.updated = false)
    (fits : Unsaturated (ledger.live.erase entry ++
      [entry.correct actualExecutionUnits actualLoadedAccountsDataSizeCost])) :
    Booked ⟨ledger.tracker.updateExecutionCost entry.txCost actualExecutionUnits
        actualLoadedAccountsDataSizeCost,
      ledger.live.erase entry ++
        [entry.correct actualExecutionUnits actualLoadedAccountsDataSizeCost]⟩ := by
  have estimate := booked.estimated entry member pending
  have below := CostTracker.estimatedUnits_le_sum entry.txCost
  obtain ⟨moved, allocated⟩ := CostTracker.updateExecutionCost_moved
    actualExecutionUnits actualLoadedAccountsDataSizeCost (booked.distinct entry member)
  constructor
  · intro charge
    have within := Nat.le_trans (chargeBook_le_block charge _) fits.1
    simp only [chargeBook, book_append] at within ⊢
    rw [moved.charged charge, booked.charged charge, chargeBook, book_erase member]
    cases covered : charge.covers entry.txCost <;>
      simp [covered, Live.correct, U64.saturatingAdd, U64.saturatingSub] at within ⊢
    split <;> omega
  · simp only [allocatedBook, book_append]
    rw [allocated, booked.allocated, allocatedBook, book_erase member]
    rfl
  · intro other inside pending
    rcases List.mem_append.mp inside with old | corrected
    · exact booked.estimated other (List.mem_of_mem_erase old) pending
    · simp only [List.mem_singleton] at corrected
      subst corrected
      simp [Live.correct] at pending
  · obtain ⟨rest, absent⟩ := ids_erase member booked.ids
    simpa [List.nodup_append, Live.correct] using And.intro rest absent
  · intro other inside
    rcases List.mem_append.mp inside with old | corrected
    · exact booked.distinct other (List.mem_of_mem_erase old)
    · simp only [List.mem_singleton] at corrected
      subst corrected
      exact booked.distinct entry member

theorem Booked.removed {entry : Live} (booked : Booked ledger) (member : entry ∈ ledger.live)
    (pending : entry.updated = false) :
    Booked ⟨ledger.tracker.remove entry.txCost, ledger.live.erase entry⟩ := by
  have estimate := booked.estimated entry member pending
  obtain ⟨moved, allocated⟩ := CostTracker.removeTransactionCost_moved
    (booked.distinct entry member)
  constructor
  · intro charge
    show (ledger.tracker.removeTransactionCost entry.txCost).charged charge = _
    rw [moved.charged charge, booked.charged charge, chargeBook, book_erase member, chargeBook]
    cases charge.covers entry.txCost <;> simp [estimate, U64.saturatingSub]
  · show (ledger.tracker.removeTransactionCost entry.txCost).allocatedAccountsDataSize = _
    rw [allocated, booked.allocated, allocatedBook, book_erase member, allocatedBook]
    simp [U64.saturatingSub]
  · intro other inside pending
    exact booked.estimated other (List.mem_of_mem_erase inside) pending
  · exact (ids_erase member booked.ids).1
  · intro other inside
    exact booked.distinct other (List.mem_of_mem_erase inside)


theorem Booked.step {request : Request} {next : Ledger} (booked : Booked ledger)
    (step : Step ledger request next) : Booked next := by
  cases step with
  | rejected rejected =>
      cases CostTracker.tryAdd_error rejected
      exact booked
  | accepted added fresh distinct fits => exact booked.accepted added fresh distinct fits
  | corrected member pending fits => exact booked.corrected member pending fits
  | removed member pending => exact booked.removed member pending

/-- A tracker with fresh books, under any limits. -/
def initial (accountCostLimit blockCostLimit voteCostLimit : Nat) : Ledger :=
  ⟨CostTracker.default.setLimits accountCostLimit blockCostLimit voteCostLimit, []⟩

theorem booked_initial (accountCostLimit blockCostLimit voteCostLimit : Nat) :
    Booked (initial accountCostLimit blockCostLimit voteCostLimit) := by
  constructor
  · intro charge
    cases charge <;> rfl
  · rfl
  · simp [initial]
  · simp [initial]
  · simp [initial]

structure WithinLimits (tracker : CostTracker) : Prop where
  charged : ∀ charge, tracker.charged charge ≤ charge.limit tracker
  allocated : tracker.allocatedAccountsDataSize ≤ maxBlockAccountsDataSizeDelta

/-- The limits of the tracker do not change along a run. -/
theorem Step.limit {request : Request} {next : Ledger} (step : Step ledger request next)
    (charge : Charge) : charge.limit next.tracker = charge.limit ledger.tracker := by
  cases step with
  | rejected rejected => rw [CostTracker.tryAdd_error rejected]
  | accepted added _ distinct =>
      rw [(CostTracker.tryAdd_ok added).2, (CostTracker.addTransactionCost_moved distinct).1.limit]
  | corrected member pending => exact CostTracker.updateExecutionCost_limit _ _ charge
  | removed member pending =>
      cases charge <;> rfl

theorem WithinLimits.step {request : Request} {next : Ledger} (booked : Booked ledger)
    (within : WithinLimits ledger.tracker) (step : Step ledger request next)
    (downward : request.Downward) : WithinLimits next.tracker := by
  cases step with
  | rejected rejected =>
      rw [CostTracker.tryAdd_error rejected]
      exact within
  | @accepted _ _ _ txCost added fresh distinct =>
      obtain ⟨fits, rfl⟩ := CostTracker.tryAdd_ok added
      have fits := CostTracker.wouldFit_ok fits
      obtain ⟨moved, allocated⟩ := CostTracker.addTransactionCost_moved distinct
      refine ⟨fun charge => ?_, by rw [allocated]; exact CostTracker.Fits.allocated fits⟩
      rw [moved.charged charge, moved.limit charge]
      cases covered : charge.covers txCost
      · simpa using within.charged charge
      · simpa using CostTracker.charged_le_limit_of_fits fits covered
  | @corrected entry actualExecutionUnits actualLoadedAccountsDataSizeCost member pending =>
      obtain ⟨moved, allocated⟩ := CostTracker.updateExecutionCost_moved
        actualExecutionUnits actualLoadedAccountsDataSizeCost (booked.distinct entry member)
      have notAbove : ¬ CostTracker.estimatedUnits entry.txCost <
          U64.saturatingAdd actualExecutionUnits actualLoadedAccountsDataSizeCost :=
        Nat.not_lt.mpr downward
      refine ⟨fun charge => ?_, by rw [allocated]; exact within.allocated⟩
      rw [moved.charged charge, moved.limit charge, if_neg notAbove]
      have := within.charged charge
      simp only [U64.saturatingSub]
      split <;> omega
  | @removed entry member pending =>
      obtain ⟨moved, allocated⟩ := CostTracker.removeTransactionCost_moved
        (booked.distinct entry member)
      refine ⟨fun charge => ?_, ?_⟩
      · show (ledger.tracker.removeTransactionCost entry.txCost).charged charge ≤
          charge.limit (ledger.tracker.removeTransactionCost entry.txCost)
        rw [moved.charged charge, moved.limit charge]
        have := within.charged charge
        simp only [U64.saturatingSub]
        split <;> omega
      · show (ledger.tracker.removeTransactionCost entry.txCost).allocatedAccountsDataSize ≤ _
        rw [allocated]
        have := within.allocated
        simp only [U64.saturatingSub]
        omega


theorem booked_of_run {accountCostLimit blockCostLimit voteCostLimit : Nat}
    {requests : List Request} {ledger : Ledger}
    (run : Data.Run Step (initial accountCostLimit blockCostLimit voteCostLimit) requests ledger) :
    Booked ledger :=
  run.invariant (booked_initial _ _ _) fun _ _ _ booked step => booked.step step

theorem limit_of_run {accountCostLimit blockCostLimit voteCostLimit : Nat}
    {requests : List Request} {ledger : Ledger}
    (run : Data.Run Step (initial accountCostLimit blockCostLimit voteCostLimit) requests ledger)
    (charge : Charge) :
    charge.limit ledger.tracker =
      charge.limit (initial accountCostLimit blockCostLimit voteCostLimit).tracker := by
  induction run with
  | nil => rfl
  | snoc _ last ih => rw [last.limit charge, ih]

theorem withinLimits_of_run {accountCostLimit blockCostLimit voteCostLimit : Nat}
    {requests : List Request} {ledger : Ledger}
    (run : Data.Run Step (initial accountCostLimit blockCostLimit voteCostLimit) requests ledger)
    (downward : ∀ request ∈ requests, request.Downward) : WithinLimits ledger.tracker := by
  induction run with
  | nil =>
      constructor
      · intro charge
        cases charge <;> simp [initial, CostTracker.charged, CostTracker.default,
          CostTracker.setLimits]
      · simp [initial, CostTracker.default, CostTracker.setLimits]
  | snoc earlier last ih =>
      have before := ih fun request member => downward request (List.mem_append_left _ member)
      exact before.step (booked_of_run earlier) last (downward _ (by simp))

/-- Over every run, the tracker's block cost, vote cost, account costs and allocated data size
are the sums over the live transactions, a rejected `try_add` changes nothing, and while no
correction goes above its estimate every charge stays within its limit. -/
theorem costTracker_books_exact {accountCostLimit blockCostLimit voteCostLimit : Nat}
    {requests : List Request} {ledger : Ledger}
    (run : Data.Run Step (initial accountCostLimit blockCostLimit voteCostLimit) requests ledger) :
    ledger.tracker.blockCost = (ledger.live.map (·.cost)).sum ∧
    ledger.tracker.voteCost = ((ledger.live.filter (·.txCost.isSimpleVote)).map (·.cost)).sum ∧
    (∀ accountKey, (ledger.tracker.costByWritableAccounts accountKey).getD 0 =
      ((ledger.live.filter fun entry => accountKey ∈ entry.txCost.writableAccounts).map
        (·.cost)).sum) ∧
    ledger.tracker.allocatedAccountsDataSize =
      (ledger.live.map (·.txCost.allocatedAccountsDataSize)).sum ∧
    (∀ (tracker : CostTracker) txCost next error,
      tracker.tryAdd txCost = (next, .error error) → next = tracker) ∧
    ((∀ request ∈ requests, request.Downward) →
      ledger.tracker.blockCost ≤ blockCostLimit ∧
      ledger.tracker.voteCost ≤ voteCostLimit ∧
      (∀ accountKey cost, ledger.tracker.costByWritableAccounts accountKey = some cost →
        cost ≤ accountCostLimit) ∧
      ledger.tracker.allocatedAccountsDataSize ≤ maxBlockAccountsDataSizeDelta) := by
  have booked := booked_of_run run
  refine ⟨?_, booked.charged .vote, fun accountKey => booked.charged (.account accountKey),
    ?_, fun _ _ _ _ rejected => CostTracker.tryAdd_error rejected, fun downward => ?_⟩
  · simpa [chargeBook, book, Charge.covers, CostTracker.charged] using booked.charged .block
  · simpa [allocatedBook, book] using booked.allocated
  have within := withinLimits_of_run run downward
  have block := limit_of_run run .block
  have vote := limit_of_run run .vote
  have account := limit_of_run run (.account 0)
  simp only [Charge.limit, initial, CostTracker.setLimits] at block vote account
  refine ⟨?_, ?_, fun accountKey cost found => ?_, within.allocated⟩
  · simpa [CostTracker.charged, Charge.limit, block] using within.charged .block
  · simpa [CostTracker.charged, Charge.limit, vote] using within.charged .vote
  · simpa [CostTracker.charged, Charge.limit, account, found] using
      within.charged (.account accountKey)

/-- One transaction let in under the default limits: the block cost is its cost. -/
theorem costTracker_books_after_one_transaction :
    ∃ ledger, Data.Run Step (initial maxWritableAccountUnits maxBlockUnits maxVoteUnits)
      [.tryAdd 0 (.transaction ⟨[1], 1, 0, 0, 0, 720, 300, 0, 1000, 0, 0⟩)] ledger ∧
      ledger.tracker.blockCost = (ledger.live.map (·.cost)).sum := by
  have accepted :
      (initial maxWritableAccountUnits maxBlockUnits maxVoteUnits).tracker.tryAdd
          (.transaction ⟨[1], 1, 0, 0, 0, 720, 300, 0, 1000, 0, 0⟩) =
        (((initial maxWritableAccountUnits maxBlockUnits maxVoteUnits).tracker.tryAdd
          (.transaction ⟨[1], 1, 0, 0, 0, 720, 300, 0, 1000, 0, 0⟩)).1, .ok ⟨2020, 2020⟩) :=
    Prod.ext rfl (by decide +kernel)
  have run : Data.Run Step (initial maxWritableAccountUnits maxBlockUnits maxVoteUnits)
      [.tryAdd 0 (.transaction ⟨[1], 1, 0, 0, 0, 720, 300, 0, 1000, 0, 0⟩)] _ :=
    Data.Run.single (Step.accepted accepted List.not_mem_nil (by decide) (by decide +kernel))
  exact ⟨_, run, (costTracker_books_exact run).1⟩

/-- `remove` takes the estimate off again, also after `update_execution_cost` corrected it:
the block then holds less than the one transaction still in it. -/
theorem remove_after_update_undercounts :
    let first := TransactionCost.transaction ⟨[1], 1, 0, 0, 0, 720, 300, 0, 1000, 0, 0⟩
    let second := TransactionCost.transaction ⟨[2], 1, 0, 0, 0, 720, 300, 0, 1000, 0, 0⟩
    let added := (CostTracker.default.tryAdd first).1.tryAdd second
    (CostTracker.default.tryAdd first).2.isOk = true ∧ added.2.isOk = true ∧
      ((added.1.updateExecutionCost first 0 0).remove first).blockCost = 1020 ∧
      second.sum = 2020 := by
  decide

end Validator.CostModel
