import Validator.BankingStage.ThreadAwareAccountLocks

namespace Validator.BankingStage

/-! # The prio-graph scheduler's pass

`PrioGraphScheduler::schedule` of `transaction_scheduler/prio_graph_scheduler.rs`, with the
parts of `scheduler_common.rs`, `in_flight_tracker.rs`, `read_write_account_set.rs` and
`transaction_state_container.rs` it calls.  The look-ahead graph is the external
`prio_graph::PrioGraph`, given here by its operations over a state of its own.  A panic is
`none`, and so is a loop that runs past the turns the source can take; compute units are counted
in `Nat`.
-/

abbrev TransactionId := Nat

/-- A transaction as the scheduler reads it: its account keys, each with whether it is
writable. -/
structure Transaction (α : Type) where
  accountKeys : List (α × Bool)
deriving DecidableEq, Repr

namespace Transaction

variable {α : Type} (transaction : Transaction α)

def writeAccountLocks : List α :=
  transaction.accountKeys.filterMap fun (key, writable) => if writable then some key else none

def readAccountLocks : List α :=
  transaction.accountKeys.filterMap fun (key, writable) => if writable then none else some key

end Transaction

inductive AccessKind where
  | read
  | write
deriving DecidableEq, Repr

/-- `get_transaction_account_access`: what the graph is told the transaction touches. -/
def getTransactionAccountAccess {α : Type} (transaction : Transaction α) : List (α × AccessKind) :=
  transaction.accountKeys.map fun (key, writable) => (key, if writable then .write else .read)

structure TransactionPriorityId where
  priority : UInt64
  id : TransactionId
deriving DecidableEq, Repr

/-- The derived `Ord`: by priority, then by id. -/
def TransactionPriorityId.lt (first second : TransactionPriorityId) : Bool :=
  first.priority < second.priority || first.priority == second.priority && first.id < second.id

structure TransactionState (α : Type) where
  /-- `None` once the transaction is taken for scheduling. -/
  transaction : Option (Transaction α)
  priority : UInt64
  cost : Nat
deriving DecidableEq, Repr

/-- `take_transaction_for_scheduling`: panics when the transaction is already taken. -/
def TransactionState.takeTransactionForScheduling {α : Type} (state : TransactionState α) :
    Option (Transaction α × TransactionState α) :=
  state.transaction.map fun transaction => (transaction, { state with transaction := none })

/-! ## The container -/

/-- The greatest id of a queue, with the rest of it: the `pop_max` of the min-max heap. -/
def popMax : List TransactionPriorityId → Option (TransactionPriorityId × List TransactionPriorityId)
  | [] => none
  | first :: rest =>
      let greatest := rest.foldl (fun best id => if best.lt id then id else best) first
      some (greatest, (first :: rest).erase greatest)

/-- The least id of a queue, with the rest of it: `pop_min`. -/
def popMin : List TransactionPriorityId → Option (TransactionPriorityId × List TransactionPriorityId)
  | [] => none
  | first :: rest =>
      let least := rest.foldl (fun best id => if id.lt best then id else best) first
      some (least, (first :: rest).erase least)

/-- `TransactionStateContainer`: the priority queue of ids and the states of the transactions,
queued or not. -/
structure TransactionStateContainer (α : Type) where
  capacity : Nat
  priorityQueue : List TransactionPriorityId
  idToTransactionState : List (TransactionId × TransactionState α)
deriving DecidableEq, Repr

namespace TransactionStateContainer

variable {α : Type} (self : TransactionStateContainer α)

def queueSize : Nat := self.priorityQueue.length

def bufferSize : Nat := self.idToTransactionState.length

def pop : Option (TransactionPriorityId × TransactionStateContainer α) :=
  (popMax self.priorityQueue).map fun (id, priorityQueue) => (id, { self with priorityQueue })

def getTransactionState (id : TransactionId) : Option (TransactionState α) :=
  self.idToTransactionState.lookup id

/-- `get_transaction`, with the caller's `unwrap`: a missing state, and a transaction already
taken, are panics. -/
def getTransaction (id : TransactionId) : Option (Transaction α) :=
  (self.getTransactionState id).bind (·.transaction)

def setTransactionState (id : TransactionId) (state : TransactionState α) :
    TransactionStateContainer α :=
  { self with
    idToTransactionState := self.idToTransactionState.map fun entry =>
      if entry.1 = id then (id, state) else entry }

def removeById (id : TransactionId) : TransactionStateContainer α :=
  { self with idToTransactionState := self.idToTransactionState.filter (·.1 ≠ id) }

/-- The loop of `push_ids_into_queue` that drops the lowest-priority transactions past the
capacity; `pop_min` of an empty queue panics. -/
def dropLowest : Nat → TransactionStateContainer α → Option (TransactionStateContainer α)
  | 0, container => some container
  | count + 1, container =>
      (popMin container.priorityQueue).bind fun (lowest, priorityQueue) =>
        dropLowest count ({ container with priorityQueue }.removeById lowest.id)

/-- `push_ids_into_queue`, with the number of transactions it dropped. -/
def pushIdsIntoQueue (priorityIds : List TransactionPriorityId) :
    Option (TransactionStateContainer α × Nat) :=
  let container := { self with priorityQueue := self.priorityQueue ++ priorityIds }
  let numDropped := container.bufferSize - container.capacity
  (dropLowest numDropped container).map fun container => (container, numDropped)

end TransactionStateContainer

/-! ## Blocking locks -/

/-- `ReadWriteAccountSet`: the accounts of the transactions that could not be scheduled in this
pass, which later ones may not conflict with. -/
structure ReadWriteAccountSet (α : Type) where
  readSet : List α := []
  writeSet : List α := []
deriving DecidableEq, Repr

namespace ReadWriteAccountSet

variable {α : Type} [DecidableEq α] (self : ReadWriteAccountSet α)

def canRead (key : α) : Bool := !self.writeSet.contains key

def canWrite (key : α) : Bool := !self.writeSet.contains key && !self.readSet.contains key

def checkLocks (transaction : Transaction α) : Bool :=
  transaction.accountKeys.all fun (key, writable) =>
    if writable then self.canWrite key else self.canRead key

def addRead (key : α) : Bool × ReadWriteAccountSet α :=
  (self.canRead key, { self with readSet := self.readSet.insert key })

def addWrite (key : α) : Bool × ReadWriteAccountSet α :=
  (self.canWrite key, { self with writeSet := self.writeSet.insert key })

/-- `take_locks`: whether every lock was free, and the set with them all taken. -/
def takeLocks (transaction : Transaction α) : Bool × ReadWriteAccountSet α :=
  transaction.accountKeys.foldl (fun (allAvailable, set) (key, writable) =>
    let (available, set) := if writable then set.addWrite key else set.addRead key
    (allAvailable && available, set)) (true, self)

end ReadWriteAccountSet

/-! ## Batches, the in-flight tracker and the workers' channels -/

structure Batches (α : Type) where
  ids : List (List TransactionId)
  transactions : List (List (Transaction α))
  totalCus : List Nat
deriving DecidableEq, Repr

namespace Batches

variable {α : Type} (self : Batches α)

def new (numThreads : Nat) : Batches α :=
  ⟨List.replicate numThreads [], List.replicate numThreads [], List.replicate numThreads 0⟩

def addTransactionToBatch (threadId : ThreadId) (transactionId : TransactionId)
    (transaction : Transaction α) (cus : Nat) : Batches α :=
  { ids := self.ids.modify threadId (· ++ [transactionId])
    transactions := self.transactions.modify threadId (· ++ [transaction])
    totalCus := self.totalCus.modify threadId (· + cus) }

def takeBatch (threadId : ThreadId) :
    (List TransactionId × List (Transaction α) × Nat) × Batches α :=
  ((self.ids.getD threadId [], self.transactions.getD threadId [], self.totalCus.getD threadId 0),
    { ids := self.ids.set threadId []
      transactions := self.transactions.set threadId []
      totalCus := self.totalCus.set threadId 0 })

end Batches

structure InFlightTracker where
  numInFlightPerThread : List Nat
  cusInFlightPerThread : List Nat
  /-- The next id of the batch id generator. -/
  nextBatchId : Nat
deriving DecidableEq, Repr

def InFlightTracker.new (numThreads : Nat) : InFlightTracker :=
  ⟨List.replicate numThreads 0, List.replicate numThreads 0, 0⟩

/-- `track_batch`: the batch's id, with its transactions and units counted in flight. -/
def InFlightTracker.trackBatch (self : InFlightTracker) (numTransactions totalCus : Nat)
    (threadId : ThreadId) : Nat × InFlightTracker :=
  (self.nextBatchId,
    { numInFlightPerThread := self.numInFlightPerThread.modify threadId (· + numTransactions)
      cusInFlightPerThread := self.cusInFlightPerThread.modify threadId (· + totalCus)
      nextBatchId := self.nextBatchId + 1 })

structure ConsumeWork (α : Type) where
  batchId : Nat
  ids : List TransactionId
  transactions : List (Transaction α)
deriving DecidableEq, Repr

/-- `SchedulingCommon`.  Each worker's `consume_work` channel is the list of the work sent to
it, oldest first; there is one per worker thread. -/
structure SchedulingCommon (α : Type) where
  consumeWork : List (List (ConsumeWork α))
  inFlightTracker : InFlightTracker
  accountLocks : ThreadAwareAccountLocks α
  batches : Batches α

namespace SchedulingCommon

variable {α : Type} (self : SchedulingCommon α)

def numThreads : Nat := self.consumeWork.length

/-- `new`: asserts that there are between one and `MAX_THREADS` workers. -/
def new (numThreads : Nat) : Option (SchedulingCommon α) :=
  if 0 < numThreads ∧ numThreads ≤ maxThreads then
    (ThreadAwareAccountLocks.new numThreads).map fun accountLocks =>
      ⟨List.replicate numThreads [], InFlightTracker.new numThreads, accountLocks,
        Batches.new numThreads⟩
  else none

/-- `send_batch`: the number of transactions sent to the thread. -/
def sendBatch (threadIndex : ThreadId) : SchedulingCommon α × Nat :=
  if (self.batches.ids.getD threadIndex []).isEmpty then (self, 0)
  else
    let ((ids, transactions, totalCus), batches) := self.batches.takeBatch threadIndex
    let (batchId, inFlightTracker) :=
      self.inFlightTracker.trackBatch ids.length totalCus threadIndex
    ({ self with
      batches, inFlightTracker
      consumeWork := self.consumeWork.modify threadIndex (· ++ [⟨batchId, ids, transactions⟩]) },
      ids.length)

/-- `send_batches`: every thread's batch, in thread order. -/
def sendBatches : SchedulingCommon α × Nat :=
  (List.range self.numThreads).foldl (fun (common, sent) threadIndex =>
    let (common, count) := common.sendBatch threadIndex
    (common, sent + count)) (self, 0)

end SchedulingCommon

/-- `select_thread`: among the threads of the set, in increasing order, the first with the least
units batched and in flight, and then the fewest transactions; `none` is the `unwrap` on an
empty set. -/
def selectThread (threadSet : ThreadSet) (batchCusPerThread inFlightCusPerThread : List Nat)
    (batchesPerThread inFlightPerThread : List Nat) : Option ThreadId :=
  let load (threadId : ThreadId) : Nat × Nat :=
    (batchCusPerThread.getD threadId 0 + inFlightCusPerThread.getD threadId 0,
      batchesPerThread.getD threadId 0 + inFlightPerThread.getD threadId 0)
  let less (first second : Nat × Nat) : Bool :=
    first.1 < second.1 || first.1 == second.1 && first.2 < second.2
  match (List.range maxThreads).filter threadSet.bits.getLsbD with
  | [] => none
  | first :: rest =>
      some (rest.foldl (fun best threadId => if less (load threadId) (load best) then threadId
        else best) first)

/-! ## The pass -/

/-- The operations of the external `prio_graph::PrioGraph` the pass calls, over its state. -/
structure PrioGraph (G α : Type) where
  insertTransaction : G → TransactionPriorityId → List (α × AccessKind) → G
  pop : G → Option (TransactionPriorityId × G)
  unblock : G → TransactionPriorityId → G
  isEmpty : G → Bool
  popAndUnblock : G → Option (TransactionPriorityId × G)
  clear : G → G

structure PrioGraphSchedulerConfig where
  maxScheduledCus : Nat
  maxScannedTransactionsPerSchedulingPass : Nat
  lookAheadWindowSize : Nat
  targetTransactionsPerBatch : Nat
deriving DecidableEq, Repr

structure PrioGraphScheduler (G α : Type) where
  common : SchedulingCommon α
  prioGraph : G
  config : PrioGraphSchedulerConfig

structure SchedulingSummary where
  startingQueueSize : Nat
  startingBufferSize : Nat
  numScheduled : Nat
  numUnschedulableConflicts : Nat
  numUnschedulableThreads : Nat
  numFilteredOut : Nat
deriving DecidableEq, Repr

inductive TransactionSchedulingError where
  | unschedulableConflicts
  | unschedulableThread
deriving DecidableEq, Repr

structure TransactionSchedulingInfo (α : Type) where
  threadId : ThreadId
  transaction : Transaction α
  cost : Nat
deriving DecidableEq, Repr

/-- `try_schedule_transaction`, with the transaction state, blocking locks and account locks it
leaves.  Its `pre_lock_filter` has the one answer `AttemptToSchedule`. -/
def tryScheduleTransaction {α : Type} [DecidableEq α] (transactionState : TransactionState α)
    (blockingLocks : ReadWriteAccountSet α) (accountLocks : ThreadAwareAccountLocks α)
    (numThreads : Nat) (threadSelector : ThreadSet → ThreadId) :
    Option (Except TransactionSchedulingError (TransactionSchedulingInfo α) ×
      TransactionState α × ReadWriteAccountSet α × ThreadAwareAccountLocks α) := do
  let transaction ← transactionState.transaction
  if !blockingLocks.checkLocks transaction then
    return (.error .unschedulableConflicts, transactionState,
      (blockingLocks.takeLocks transaction).2, accountLocks)
  let allowedThreads ← ThreadSet.any numThreads
  let (accountLocks, locked) ← accountLocks.tryLockAccounts transaction.writeAccountLocks
    transaction.readAccountLocks allowedThreads threadSelector
  match locked with
  | .error .multipleConflicts =>
      return (.error .unschedulableConflicts, transactionState,
        (blockingLocks.takeLocks transaction).2, accountLocks)
  | .error .threadNotAllowed =>
      return (.error .unschedulableThread, transactionState,
        (blockingLocks.takeLocks transaction).2, accountLocks)
  | .ok threadId =>
      let (transaction, transactionState) ← transactionState.takeTransactionForScheduling
      return (.ok ⟨threadId, transaction, transactionState.cost⟩, transactionState, blockingLocks,
        accountLocks)

/-- The variables of `schedule` that its loops change. -/
structure Pass (G α : Type) where
  common : SchedulingCommon α
  prioGraph : G
  container : TransactionStateContainer α
  schedulableThreads : ThreadSet
  unschedulableIds : List TransactionPriorityId
  blockingLocks : ReadWriteAccountSet α
  windowBudget : Nat
  unblockThisBatch : List TransactionPriorityId
  numFilteredOut : Nat
  numScanned : Nat
  numScheduled : Nat
  numSent : Nat
  numUnschedulableConflicts : Nat
  numUnschedulableThreads : Nat

def maxFilterChunkSize : Nat := 128

section Schedule

variable {G α : Type} [DecidableEq α] (graph : PrioGraph G α) (config : PrioGraphSchedulerConfig)
  (preGraphFilter : List (Transaction α) → List Bool → List Bool)

/-- Pop up to `count` ids from the container. -/
def popChunk : Nat → TransactionStateContainer α →
    List TransactionPriorityId × TransactionStateContainer α
  | 0, container => ([], container)
  | count + 1, container =>
      match container.pop with
      | none => ([], container)
      | some (id, container) =>
          let (ids, container) := popChunk count container
          (id :: ids, container)

/-- Insert the ids the filter kept into the graph, and drop the others from the container. -/
def insertOrRemove (pass : Pass G α) : List (TransactionPriorityId × Bool) → Option (Pass G α)
  | [] => some pass
  | (id, filterResult) :: rest =>
      if filterResult then
        (pass.container.getTransaction id.id).bind fun transaction =>
          insertOrRemove { pass with
            prioGraph := graph.insertTransaction pass.prioGraph id
              (getTransactionAccountAccess transaction) } rest
      else
        insertOrRemove { pass with
          numFilteredOut := pass.numFilteredOut + 1
          container := pass.container.removeById id.id } rest

/-- The `chunked_pops` closure: fill the look-ahead window from the container, a chunk at a time,
through the filter.  Every turn spends at least one unit of the window budget. -/
def chunkedPops : Nat → Pass G α → Option (Pass G α)
  | 0, _ => none
  | fuel + 1, pass =>
      if 0 < pass.windowBudget then
        let chunkSize := min pass.windowBudget maxFilterChunkSize
        let (ids, container) := popChunk chunkSize pass.container
        let pass := { pass with container, windowBudget := pass.windowBudget - chunkSize }
        (ids.mapM fun id => pass.container.getTransaction id.id).bind fun txs =>
          let filterArray := preGraphFilter txs (List.replicate chunkSize true)
          (insertOrRemove graph pass (ids.zip filterArray)).bind fun pass =>
            if ids.length ≠ chunkSize then some pass else chunkedPops fuel pass
      else some pass

/-- A scheduled transaction joins its thread's batch, which is sent once it reaches its target
size. -/
def batchTransaction (pass : Pass G α) (id : TransactionPriorityId)
    (info : TransactionSchedulingInfo α) : Pass G α :=
  let common := { pass.common with
    batches := pass.common.batches.addTransactionToBatch info.threadId id.id info.transaction
      info.cost }
  let pass := { pass with numScheduled := pass.numScheduled + 1, common }
  if (common.batches.transactions.getD info.threadId []).length ≥
      config.targetTransactionsPerBatch then
    let (common, sent) := common.sendBatch info.threadId
    { pass with common, numSent := pass.numSent + sent }
  else pass

/-- The test at the removal site: the thread's units in flight and batched reach the cap. -/
def SchedulingCommon.threadFull (common : SchedulingCommon α) (maxCuPerThread : Nat)
    (threadId : ThreadId) : Bool :=
  common.inFlightTracker.cusInFlightPerThread.getD threadId 0 +
    common.batches.totalCus.getD threadId 0 ≥ maxCuPerThread

/-- What one popped id does: tried for scheduling, then batched, or kept aside as
unschedulable.  The flag is the `break` once no thread is left schedulable. -/
def scheduleId (maxCuPerThread : Nat) (pass : Pass G α) (id : TransactionPriorityId) :
    Option (Pass G α × Bool) := do
  -- "transaction state must exist"
  let transactionState ← pass.container.getTransactionState id.id
  let common := pass.common
  let threadSelector (threadSet : ThreadSet) : ThreadId :=
    -- `try_lock_accounts` calls the selector on non-empty sets only
    (selectThread threadSet common.batches.totalCus
      common.inFlightTracker.cusInFlightPerThread (common.batches.transactions.map (·.length))
      common.inFlightTracker.numInFlightPerThread).getD 0
  let (scheduled, transactionState, blockingLocks, accountLocks) ←
    tryScheduleTransaction transactionState pass.blockingLocks common.accountLocks
      common.numThreads threadSelector
  let pass : Pass G α := { pass with
    container := pass.container.setTransactionState id.id transactionState
    blockingLocks
    common := { common with accountLocks } }
  match scheduled with
  | .error .unschedulableConflicts =>
      return ({ pass with
        numUnschedulableConflicts := pass.numUnschedulableConflicts + 1
        unschedulableIds := pass.unschedulableIds ++ [id] }, false)
  | .error .unschedulableThread =>
      return ({ pass with
        numUnschedulableThreads := pass.numUnschedulableThreads + 1
        unschedulableIds := pass.unschedulableIds ++ [id] }, false)
  | .ok info =>
      let pass := batchTransaction config pass id info
      if pass.common.threadFull maxCuPerThread info.threadId then
        (pass.schedulableThreads.remove info.threadId).map fun schedulableThreads =>
          ({ pass with schedulableThreads }, schedulableThreads.isEmpty)
      else some (pass, false)

/-- The inner `while let Some(id) = prio_graph.pop()`, which scans at most the pass's limit. -/
def popLoop (maxCuPerThread : Nat) : Nat → Pass G α → Option (Pass G α)
  | 0, _ => none
  | fuel + 1, pass =>
      match graph.pop pass.prioGraph with
      | none => some pass
      | some (id, prioGraph) =>
          let pass := { pass with
            prioGraph
            numScanned := pass.numScanned + 1
            unblockThisBatch := pass.unblockThisBatch ++ [id] }
          (scheduleId config maxCuPerThread pass id).bind fun (pass, noThreadLeft) =>
            if noThreadLeft then some pass
            else if pass.numScanned ≥ config.maxScannedTransactionsPerSchedulingPass then some pass
            else popLoop maxCuPerThread fuel pass

/-- The outer `while num_scanned < max_scanned_transactions_per_scheduling_pass`: pop what the
graph has ready, send the batches, refill the window and unblock what was popped. -/
def scanLoop (maxCuPerThread : Nat) : Nat → Pass G α → Option (Pass G α)
  | 0, _ => none
  | fuel + 1, pass =>
      if pass.numScanned < config.maxScannedTransactionsPerSchedulingPass then
        if graph.isEmpty pass.prioGraph then some pass
        else do
          let pass ← popLoop graph config maxCuPerThread
            (config.maxScannedTransactionsPerSchedulingPass + 1) pass
          let (common, sent) := pass.common.sendBatches
          let pass := { pass with
            common, numSent := pass.numSent + sent
            windowBudget := pass.windowBudget + pass.unblockThisBatch.length }
          let pass ← chunkedPops graph preGraphFilter (pass.windowBudget + 1) pass
          let pass := { pass with
            prioGraph := pass.unblockThisBatch.foldl graph.unblock pass.prioGraph
            unblockThisBatch := [] }
          scanLoop maxCuPerThread fuel pass
      else some pass

/-- The `pop_and_unblock` drain of what is left in the graph. -/
def drainGraph : Nat → G → Option (List TransactionPriorityId × G)
  | 0, _ => none
  | fuel + 1, prioGraph =>
      match graph.popAndUnblock prioGraph with
      | none => some ([], prioGraph)
      | some (id, prioGraph) =>
          (drainGraph fuel prioGraph).map fun (ids, prioGraph) => (id :: ids, prioGraph)

/-- The pass's thread set at its start: the threads with fewer units in flight than the cap. -/
def initialSchedulableThreads (numThreads maxCuPerThread : Nat) (cusInFlightPerThread : List Nat) :
    Option ThreadSet :=
  (ThreadSet.any numThreads).bind fun schedulableThreads =>
    (List.range numThreads).foldlM (fun schedulableThreads threadId =>
      if cusInFlightPerThread.getD threadId 0 ≥ maxCuPerThread then
        schedulableThreads.remove threadId
      else some schedulableThreads) schedulableThreads

/-- `schedule`: the scheduler and the container it leaves, and the summary.  The graph starts
the pass empty, as the pass before left it; each id it holds was inserted in this pass, at most
`look_ahead_window_size + max_scanned_transactions_per_scheduling_pass` of them, which bounds the
drain. -/
def schedule (scheduler : PrioGraphScheduler G α) (container : TransactionStateContainer α) :
    Option (PrioGraphScheduler G α × TransactionStateContainer α × SchedulingSummary) := do
  let startingQueueSize := container.queueSize
  let startingBufferSize := container.bufferSize
  let numThreads := scheduler.common.numThreads
  let maxCuPerThread := scheduler.config.maxScheduledCus / numThreads
  let schedulableThreads ← initialSchedulableThreads numThreads maxCuPerThread
    scheduler.common.inFlightTracker.cusInFlightPerThread
  if schedulableThreads.isEmpty then
    return (scheduler, container, ⟨startingQueueSize, startingBufferSize, 0, 0, 0, 0⟩)
  let pass : Pass G α := ⟨scheduler.common, scheduler.prioGraph, container, schedulableThreads,
    [], {}, scheduler.config.lookAheadWindowSize, [], 0, 0, 0, 0, 0, 0⟩
  let pass ← chunkedPops graph preGraphFilter (pass.windowBudget + 1) pass
  let pass ← scanLoop graph scheduler.config preGraphFilter maxCuPerThread
    (scheduler.config.maxScannedTransactionsPerSchedulingPass + 1) pass
  let (common, sent) := pass.common.sendBatches
  let numSent := pass.numSent + sent
  let (container, _) ← pass.container.pushIdsIntoQueue pass.unschedulableIds
  let (remaining, prioGraph) ← drainGraph graph
    (scheduler.config.lookAheadWindowSize +
      scheduler.config.maxScannedTransactionsPerSchedulingPass + 1) pass.prioGraph
  let (container, _) ← container.pushIdsIntoQueue remaining
  -- "number of scheduled and sent transactions must match"
  if pass.numScheduled ≠ numSent then none
  return ({ scheduler with common, prioGraph := graph.clear prioGraph }, container,
    ⟨startingQueueSize, startingBufferSize, pass.numScheduled, pass.numUnschedulableConflicts,
      pass.numUnschedulableThreads, pass.numFilteredOut⟩)

end Schedule

end Validator.BankingStage
