import Validator.BankingStage.ThreadSetSpec
import Validator.BankingStage.AccountLocksSpec
import Validator.BankingStage.PrioGraphScheduler
import Validator.Data.LoopFrame

namespace Validator.BankingStage

/-! # The per-thread budget of a pass

The pass removes a thread from `schedulable_threads` once its units in flight and batched reach
`max_cu_per_thread`, and breaks out of the pop loop when none is left.  Nothing reads the set
afterwards: `try_schedule_transaction` hands `try_lock_accounts` every thread as allowed, so it
never answers `UnschedulableThread`, and the outer loop goes on popping after the `break`.
-/

variable {α : Type}

namespace ThreadSet

theorem le_maxThreads_of_any {numThreads : Nat} {set : ThreadSet}
    (made : ThreadSet.any numThreads = some set) : numThreads ≤ maxThreads := by
  unfold any at made
  split at made
  · omega
  · unfold asFlag at made
    split at made
    · rename_i below
      exact Nat.le_of_lt below
    · cases made

end ThreadSet

namespace ThreadAwareAccountLocks

variable (self : ThreadAwareAccountLocks α)

/-- The threads the narrowing loop ends with are among those it started with, and there is one
of them whenever it started with one. -/
theorem narrowSchedulableThreads_subset (write : Bool) (accounts : List α) :
    ∀ start schedulable, self.narrowSchedulableThreads write accounts start = some (some schedulable) →
      (∀ threadId, threadId ∈ schedulable → threadId ∈ start) ∧
        ((∃ threadId, threadId ∈ start) → ∃ threadId, threadId ∈ schedulable) := by
  induction accounts with
  | nil =>
    intro start schedulable narrowed
    cases narrowed
    exact ⟨fun _ member => member, id⟩
  | cons account rest ih =>
    intro start schedulable narrowed
    simp only [narrowSchedulableThreads] at narrowed
    obtain ⟨threads, _, continued⟩ := Option.bind_eq_some_iff.mp narrowed
    split at continued
    · cases continued
    rename_i nonempty
    obtain ⟨within, kept⟩ := ih _ _ continued
    have someLeft : ∃ threadId, threadId ∈ start &&& threads := by
      by_contra nothing
      exact nonempty (ThreadSet.isEmpty_iff.mpr fun threadId member => nothing ⟨threadId, member⟩)
    exact ⟨fun threadId member => (ThreadSet.mem_and.mp (within threadId member)).1,
      fun _ => kept someLeft⟩

/-- Whatever `accounts_schedulable_threads` finds is a non-empty set of the lock table's
threads, when it has any. -/
theorem accountsSchedulableThreads_subset (positive : 0 < self.numThreads)
    {writeAccountLocks readAccountLocks : List α} {schedulable : ThreadSet}
    (found : self.accountsSchedulableThreads writeAccountLocks readAccountLocks =
      some (some schedulable)) :
    (∀ threadId, threadId ∈ schedulable → threadId < self.numThreads) ∧
      ∃ threadId, threadId ∈ schedulable := by
  simp only [accountsSchedulableThreads] at found
  obtain ⟨start, made, narrowed⟩ := Option.bind_eq_some_iff.mp found
  obtain ⟨anyThreads, anyEq, anyMembers⟩ := ThreadSet.any_eq (ThreadSet.le_maxThreads_of_any made)
  rw [made] at anyEq
  cases anyEq
  obtain ⟨afterWrites, writesNarrowed, readsNarrowed⟩ := Option.bind_eq_some_iff.mp narrowed
  cases afterWrites with
  | none => cases readsNarrowed
  | some afterWrites =>
    obtain ⟨writesWithin, writesKept⟩ :=
      self.narrowSchedulableThreads_subset true writeAccountLocks _ _ writesNarrowed
    obtain ⟨readsWithin, readsKept⟩ :=
      self.narrowSchedulableThreads_subset false readAccountLocks _ _ readsNarrowed
    exact ⟨fun threadId member => (anyMembers threadId).mp (writesWithin _ (readsWithin _ member)),
      readsKept (writesKept ⟨0, (anyMembers 0).mpr positive⟩)⟩

/-! ### The lock table keeps its size -/

section Size

variable [DecidableEq α] {self after : ThreadAwareAccountLocks α} {account : α}
  {threadId : ThreadId}

theorem numThreads_writeLockAccount (locked : self.writeLockAccount account threadId = some after) :
    after.numThreads = self.numThreads := by
  unfold writeLockAccount at locked
  generalize (self.locks account).getD {} = entry at locked
  -- every branch that succeeds writes back one entry with `setLocks`
  obtain ⟨_ | writeLocks, _ | readLocks⟩ := entry <;>
    grind [Option.map_eq_some_iff, setLocks_numThreads]

theorem numThreads_readLockAccount (locked : self.readLockAccount account threadId = some after) :
    after.numThreads = self.numThreads := by
  unfold readLockAccount at locked
  generalize (self.locks account).getD {} = entry at locked
  obtain ⟨_ | writeLocks, _ | readLocks⟩ := entry <;>
    grind [Option.map_eq_some_iff, Option.bind_eq_some_iff, setLocks_numThreads]

theorem numThreads_lockAccounts {writeAccountLocks readAccountLocks : List α}
    (locked : self.lockAccounts writeAccountLocks readAccountLocks threadId = some after) :
    after.numThreads = self.numThreads := by
  unfold lockAccounts at locked
  split at locked
  · obtain ⟨written, writesLocked, readsLocked⟩ := Option.bind_eq_some_iff.mp locked
    have writtenNum : written.numThreads = self.numThreads :=
      Data.LoopFrame.foldlM_inv (fun locks => locks.numThreads = self.numThreads)
        (fun _ _ _ same stepped => (numThreads_writeLockAccount stepped).trans same) rfl
        writesLocked
    exact Data.LoopFrame.foldlM_inv (fun locks => locks.numThreads = self.numThreads)
      (fun _ _ _ same stepped => (numThreads_readLockAccount stepped).trans same) writtenNum
      readsLocked
  · cases locked

theorem numThreads_tryLockAccounts {writeAccountLocks readAccountLocks : List α}
    {allowedThreads : ThreadSet} {threadSelector : ThreadSet → ThreadId}
    {result : Except TryLockError ThreadId}
    (tried : self.tryLockAccounts writeAccountLocks readAccountLocks allowedThreads threadSelector =
      some (after, result)) :
    after.numThreads = self.numThreads := by
  unfold tryLockAccounts at tried
  obtain ⟨found, _, answered⟩ := Option.bind_eq_some_iff.mp tried
  cases found with
  | none =>
    cases answered
    rfl
  | some schedulable =>
    simp only at answered
    split at answered
    · cases answered
      rfl
    · obtain ⟨locked, lockEq, same⟩ := Option.map_eq_some_iff.mp answered
      cases same
      exact numThreads_lockAccounts lockEq

end Size

end ThreadAwareAccountLocks

/-! ## The scheduler's shared state -/

namespace SchedulingCommon

/-- What `SchedulingCommon::new` sets up and every pass keeps: a lock table sized for the
workers, of which there is at least one. -/
structure WellSized (common : SchedulingCommon α) : Prop where
  numThreadsEq : common.accountLocks.numThreads = common.numThreads
  positive : 0 < common.numThreads

theorem wellSized_new {numThreads : Nat} {common : SchedulingCommon α}
    (made : SchedulingCommon.new numThreads = some common) : common.WellSized := by
  unfold SchedulingCommon.new at made
  split at made
  · rename_i bounds
    obtain ⟨locks, created, rfl⟩ := Option.map_eq_some_iff.mp made
    unfold ThreadAwareAccountLocks.new at created
    rw [if_pos bounds] at created
    cases created
    exact ⟨by simp [SchedulingCommon.numThreads], by simpa [SchedulingCommon.numThreads] using bounds.1⟩
  · cases made

theorem WellSized.of_eq {common other : SchedulingCommon α}
    (sized : common.WellSized) (sameLocks : other.accountLocks = common.accountLocks)
    (sameThreads : other.numThreads = common.numThreads) : other.WellSized :=
  ⟨by rw [sameLocks, sameThreads, sized.numThreadsEq], sameThreads ▸ sized.positive⟩

variable (common : SchedulingCommon α)

@[simp] theorem sendBatch_accountLocks (threadIndex : ThreadId) :
    (common.sendBatch threadIndex).1.accountLocks = common.accountLocks := by
  unfold sendBatch
  split <;> rfl

@[simp] theorem sendBatch_numThreads (threadIndex : ThreadId) :
    (common.sendBatch threadIndex).1.numThreads = common.numThreads := by
  unfold sendBatch
  split
  · rfl
  · simp [numThreads]

theorem WellSized.sendBatches {common : SchedulingCommon α} (sized : common.WellSized) :
    common.sendBatches.1.WellSized := by
  unfold SchedulingCommon.sendBatches
  -- each send keeps the lock table and the number of workers
  refine List.foldlRecOn (motive := fun state : SchedulingCommon α × Nat => state.1.WellSized) _ _ sized ?_
  rintro ⟨common, sent⟩ ⟨numThreadsEq, positive⟩ threadIndex -
  exact ⟨by simpa using numThreadsEq, by simpa using positive⟩

end SchedulingCommon

/-! ## No thread is ever reported unschedulable -/

section Pass

variable {G : Type} (graph : PrioGraph G α) (config : PrioGraphSchedulerConfig)
  (preGraphFilter : List (Transaction α) → List Bool → List Bool)

/-- What every state of a pass keeps: the shared state stays well sized, and no thread has been
reported unschedulable. -/
structure Pass.Inv (pass : Pass G α) : Prop where
  wellSized : pass.common.WellSized
  noUnschedulableThreads : pass.numUnschedulableThreads = 0

section Batch

variable (pass : Pass G α) (id : TransactionPriorityId) (info : TransactionSchedulingInfo α)

@[simp] theorem batchTransaction_accountLocks :
    (batchTransaction config pass id info).common.accountLocks = pass.common.accountLocks := by
  unfold batchTransaction
  dsimp only
  split <;> simp

@[simp] theorem batchTransaction_numThreads :
    (batchTransaction config pass id info).common.numThreads = pass.common.numThreads := by
  unfold batchTransaction
  dsimp only
  split
  · rw [SchedulingCommon.sendBatch_numThreads]
    rfl
  · rfl

@[simp] theorem batchTransaction_numUnschedulableThreads :
    (batchTransaction config pass id info).numUnschedulableThreads = pass.numUnschedulableThreads := by
  unfold batchTransaction
  dsimp only
  split <;> rfl

end Batch

theorem Pass.Inv.insertOrRemove :
    ∀ {entries : List (TransactionPriorityId × Bool)} {pass after : Pass G α}, pass.Inv →
      insertOrRemove graph pass entries = some after → after.Inv
  | [], _, _, inv, inserted => by
    cases inserted
    exact inv
  | (id, filterResult) :: rest, pass, after, inv, inserted => by
    unfold BankingStage.insertOrRemove at inserted
    -- inserting into the graph and dropping from the container touch neither the shared state
    -- nor the counts
    split at inserted
    · obtain ⟨transaction, _, continued⟩ := Option.bind_eq_some_iff.mp inserted
      exact Pass.Inv.insertOrRemove (by exact ⟨inv.wellSized, inv.noUnschedulableThreads⟩) continued
    · exact Pass.Inv.insertOrRemove (by exact ⟨inv.wellSized, inv.noUnschedulableThreads⟩) inserted

theorem Pass.Inv.chunkedPops :
    ∀ {fuel : Nat} {pass after : Pass G α}, pass.Inv →
      chunkedPops graph preGraphFilter fuel pass = some after → after.Inv
  | 0, _, _, _, popped => by cases popped
  | fuel + 1, pass, after, inv, popped => by
    unfold BankingStage.chunkedPops at popped
    split at popped
    · simp only [Option.bind_eq_some_iff] at popped
      obtain ⟨txs, _, inserted, insertedEq, continued⟩ := popped
      have insertedInv := Pass.Inv.insertOrRemove graph
        (by exact ⟨inv.wellSized, inv.noUnschedulableThreads⟩) insertedEq
      split at continued
      · cases continued
        exact insertedInv
      · exact Pass.Inv.chunkedPops insertedInv continued
    · cases popped
      exact inv


variable [DecidableEq α]

/-- `try_schedule_transaction` allows every thread, so it never answers `UnschedulableThread`:
a full thread is never turned away. -/
theorem tryScheduleTransaction_ne_unschedulableThread {transactionState : TransactionState α}
    {blockingLocks : ReadWriteAccountSet α} {accountLocks : ThreadAwareAccountLocks α}
    {numThreads : Nat} {threadSelector : ThreadSet → ThreadId}
    {after : Except TransactionSchedulingError (TransactionSchedulingInfo α) ×
      TransactionState α × ReadWriteAccountSet α × ThreadAwareAccountLocks α}
    (sameThreads : accountLocks.numThreads = numThreads) (positive : 0 < numThreads)
    (tried : tryScheduleTransaction transactionState blockingLocks accountLocks numThreads
      threadSelector = some after) :
    after.1 ≠ .error .unschedulableThread := by
  unfold tryScheduleTransaction at tried
  obtain ⟨transaction, _, checked⟩ := Option.bind_eq_some_iff.mp tried
  split at checked
  · cases checked
    simp
  obtain ⟨allowedThreads, made, locking⟩ := Option.bind_eq_some_iff.mp checked
  obtain ⟨anyThreads, anyEq, anyMembers⟩ := ThreadSet.any_eq (ThreadSet.le_maxThreads_of_any made)
  rw [made] at anyEq
  cases anyEq
  obtain ⟨⟨locks, locked⟩, tryLocked, matched⟩ := Option.bind_eq_some_iff.mp locking
  -- `try_lock_accounts` refuses the allowed threads only when it found none of its own
  have allowedFound : locked ≠ .error .threadNotAllowed := by
    intro refused
    subst refused
    unfold ThreadAwareAccountLocks.tryLockAccounts at tryLocked
    obtain ⟨found, foundEq, answered⟩ := Option.bind_eq_some_iff.mp tryLocked
    cases found with
    | none => cases answered
    | some schedulable =>
      simp only at answered
      split at answered
      · rename_i empty
        obtain ⟨within, threadId, member⟩ :=
          accountLocks.accountsSchedulableThreads_subset (sameThreads ▸ positive) foundEq
        have allowed : threadId ∈ allowedThreads :=
          (anyMembers threadId).mpr (sameThreads ▸ within threadId member)
        exact ThreadSet.isEmpty_iff.mp empty threadId (ThreadSet.mem_and.mpr ⟨member, allowed⟩)
      · obtain ⟨_, _, answered⟩ := Option.map_eq_some_iff.mp answered
        cases answered
  cases locked with
  | error error =>
    cases error with
    | multipleConflicts =>
      cases matched
      simp
    | threadNotAllowed => exact absurd rfl allowedFound
  | ok threadId =>
    obtain ⟨taken, _, scheduled⟩ := Option.bind_eq_some_iff.mp matched
    cases scheduled
    simp

theorem tryScheduleTransaction_numThreads {transactionState : TransactionState α}
    {blockingLocks : ReadWriteAccountSet α} {accountLocks : ThreadAwareAccountLocks α}
    {numThreads : Nat} {threadSelector : ThreadSet → ThreadId}
    {after : Except TransactionSchedulingError (TransactionSchedulingInfo α) ×
      TransactionState α × ReadWriteAccountSet α × ThreadAwareAccountLocks α}
    (tried : tryScheduleTransaction transactionState blockingLocks accountLocks numThreads
      threadSelector = some after) :
    after.2.2.2.numThreads = accountLocks.numThreads := by
  unfold tryScheduleTransaction at tried
  obtain ⟨transaction, _, checked⟩ := Option.bind_eq_some_iff.mp tried
  split at checked
  · cases checked
    rfl
  obtain ⟨allowedThreads, _, locking⟩ := Option.bind_eq_some_iff.mp checked
  obtain ⟨⟨locks, locked⟩, tryLocked, matched⟩ := Option.bind_eq_some_iff.mp locking
  have sized := ThreadAwareAccountLocks.numThreads_tryLockAccounts tryLocked
  cases locked with
  | error error =>
    cases error <;> cases matched <;> exact sized
  | ok threadId =>
    obtain ⟨taken, _, scheduled⟩ := Option.bind_eq_some_iff.mp matched
    cases scheduled
    exact sized

theorem Pass.Inv.scheduleId {pass after : Pass G α} {maxCuPerThread : Nat}
    {id : TransactionPriorityId} {noThreadLeft : Bool} (inv : pass.Inv)
    (scheduled : scheduleId config maxCuPerThread pass id = some (after, noThreadLeft)) :
    after.Inv := by
  unfold BankingStage.scheduleId at scheduled
  simp only [Option.bind_eq_bind, Option.bind_eq_some_iff] at scheduled
  obtain ⟨transactionState, _, ⟨result, state, blockingLocks, accountLocks⟩, tryEq, matched⟩ :=
    scheduled
  have notThread := tryScheduleTransaction_ne_unschedulableThread inv.wellSized.numThreadsEq
    inv.wellSized.positive tryEq
  -- the pass with the locks taken: the lock table keeps its size
  have locked : SchedulingCommon.WellSized { pass.common with accountLocks } :=
    ⟨(tryScheduleTransaction_numThreads tryEq).trans inv.wellSized.numThreadsEq,
      inv.wellSized.positive⟩
  cases result with
  | error error =>
    cases error with
    | unschedulableConflicts =>
      cases matched
      exact ⟨locked, inv.noUnschedulableThreads⟩
    | unschedulableThread => exact absurd rfl notThread
  | ok info =>
    simp only at matched
    split at matched
    · obtain ⟨schedulableThreads, _, same⟩ := Option.map_eq_some_iff.mp matched
      cases same
      exact ⟨locked.of_eq (by simp) (by simp), by simp [inv.noUnschedulableThreads]⟩
    · cases matched
      exact ⟨locked.of_eq (by simp) (by simp), by simp [inv.noUnschedulableThreads]⟩

theorem Pass.Inv.popLoop {maxCuPerThread : Nat} :
    ∀ {fuel : Nat} {pass after : Pass G α}, pass.Inv →
      popLoop graph config maxCuPerThread fuel pass = some after → after.Inv
  | 0, _, _, _, looped => by cases looped
  | fuel + 1, pass, after, inv, looped => by
    unfold BankingStage.popLoop at looped
    split at looped
    · cases looped
      exact inv
    · obtain ⟨⟨next, noThreadLeft⟩, scheduled, continued⟩ := Option.bind_eq_some_iff.mp looped
      -- popping the id changes neither the shared state nor the counts
      have nextInv := Pass.Inv.scheduleId config (by exact ⟨inv.wellSized, inv.noUnschedulableThreads⟩)
        scheduled
      dsimp only at continued
      split at continued
      · cases continued
        exact nextInv
      split at continued
      · cases continued
        exact nextInv
      · exact Pass.Inv.popLoop nextInv continued

theorem Pass.Inv.scanLoop {maxCuPerThread : Nat} :
    ∀ {fuel : Nat} {pass after : Pass G α}, pass.Inv →
      scanLoop graph config preGraphFilter maxCuPerThread fuel pass = some after → after.Inv
  | 0, _, _, _, scanned => by cases scanned
  | fuel + 1, pass, after, inv, scanned => by
    unfold BankingStage.scanLoop at scanned
    split at scanned
    · split at scanned
      · cases scanned
        exact inv
      · simp only [Option.bind_eq_bind, Option.bind_eq_some_iff] at scanned
        obtain ⟨popped, poppedEq, refilled, refilledEq, continued⟩ := scanned
        have poppedInv := Pass.Inv.popLoop graph config inv poppedEq
        -- sending the batches keeps the shared state well sized and counts nothing
        have refilledInv := Pass.Inv.chunkedPops graph preGraphFilter
          (by exact ⟨poppedInv.wellSized.sendBatches, poppedInv.noUnschedulableThreads⟩) refilledEq
        exact Pass.Inv.scanLoop (by exact ⟨refilledInv.wellSized, refilledInv.noUnschedulableThreads⟩)
          continued
    · cases scanned
      exact inv


/-- Every call of `schedule` from a well-sized scheduler reports no unschedulable thread, and
leaves the scheduler well sized. -/
theorem schedule_numUnschedulableThreads {scheduler after : PrioGraphScheduler G α}
    {container remaining : TransactionStateContainer α} {summary : SchedulingSummary}
    (sized : scheduler.common.WellSized)
    (scheduled : schedule graph preGraphFilter scheduler container =
      some (after, remaining, summary)) :
    summary.numUnschedulableThreads = 0 ∧ after.common.WellSized := by
  unfold schedule at scheduled
  simp only [Option.bind_eq_bind, Option.bind_eq_some_iff] at scheduled
  obtain ⟨schedulableThreads, _, started⟩ := scheduled
  split at started
  · -- every thread is at its cap: nothing is scheduled
    cases started
    exact ⟨rfl, sized⟩
  simp only [Option.bind_eq_some_iff] at started
  obtain ⟨filled, filledEq, scanned, scannedEq, _, _, _, _, _, _, finished⟩ := started
  have filledInv := Pass.Inv.chunkedPops graph preGraphFilter (by exact ⟨sized, rfl⟩) filledEq
  have scannedInv := Pass.Inv.scanLoop graph scheduler.config preGraphFilter filledInv scannedEq
  split at finished
  · simp at finished
  · cases finished
    exact ⟨scannedInv.noUnschedulableThreads, scannedInv.wellSized.sendBatches⟩

end Pass


/-- Insert by priority, highest first; ties keep the earlier id first. -/
def insertByPriority (id : TransactionPriorityId) :
    List TransactionPriorityId → List TransactionPriorityId
  | [] => [id]
  | first :: rest => if first.lt id then id :: first :: rest else first :: insertByPriority id rest

/-- A priority graph in which no transaction conflicts with another: each inserted id is ready at
once, and the graph hands them out highest priority first. -/
def readyGraph {α : Type} : PrioGraph (List TransactionPriorityId) α where
  insertTransaction graph id _ := insertByPriority id graph
  pop graph := match graph with
    | [] => none
    | id :: rest => some (id, rest)
  unblock graph _ := graph
  isEmpty graph := graph.isEmpty
  popAndUnblock graph := match graph with
    | [] => none
    | id :: rest => some (id, rest)
  clear _ := []

/-- One worker thread and a budget of 100 units: the first transaction fills the thread, and the
second is still scheduled to it in the same call, with no thread reported unschedulable. -/
theorem schedule_overfills_only_thread :
    ∃ common, SchedulingCommon.new 1 = some common ∧
      (schedule readyGraph (fun _ filterArray => filterArray) ⟨common, [], ⟨100, 1000, 256, 64⟩⟩
        ⟨100, [⟨2, 1⟩, ⟨1, 2⟩],
          [(1, ⟨some ⟨[(0, true)]⟩, 2, 100⟩), (2, ⟨some ⟨[(1, true)]⟩, 1, 1⟩)]⟩).map
        (fun (scheduler, _, summary) => (scheduler.common.consumeWork.map (·.map (·.ids)),
          scheduler.common.inFlightTracker.cusInFlightPerThread, summary.numScheduled,
          summary.numUnschedulableThreads)) = some ([[[1], [2]]], [101], 2, 0) :=
  ⟨_, rfl, by decide⟩

end Validator.BankingStage
