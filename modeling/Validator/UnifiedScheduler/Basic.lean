import Mathlib.Logic.Function.Basic
import Mathlib.Order.Basic

namespace Validator.UnifiedScheduler

/-! # The unified scheduler's state machine

`SchedulingStateMachine` of `solana-unified-scheduler-logic`, as data and functions.

The source keeps two kinds of state outside the machine, in cells that only the machine's
tokens can open: each address's `UsageQueue` (shared by every task that accesses the
address) and each task's `blocked_usage_count`.  Here both are fields of the machine:
`usageQueues` gives the queue of each address, `blockedUsageCount` the counter of each task.
A task is an identity `τ` (the `Arc` of the source) whose immutable `lock_contexts` are given
by a function `lockContexts`.

A panic (`unreachable!()`, a failed `assert!`, an underflowing `ShortCounter`) is `none`.
Counters are natural numbers: the source leaves their overflow to the caller, who must
reinitialize the machine long before `u32::MAX` tasks.
-/

/-! `ShortCounter`: a `u32` counter whose decrement is checked. -/

namespace ShortCounter

def increment (count : Nat) : Nat := count + 1

/-- `checked_sub(1).unwrap()`: decrementing zero panics. -/
def decrement (count : Nat) : Option Nat :=
  if count = 0 then none else some (count - 1)

@[simp] theorem decrement_eq_some {count result : Nat} :
    decrement count = some result ↔ count ≠ 0 ∧ result = count - 1 := by
  unfold decrement
  split <;> simp_all [eq_comm]

end ShortCounter

/-- How a task asks to use an address. -/
inductive RequestedUsage where
  | readonly
  | writable
deriving DecidableEq, Repr

/-- How an address is used now: by this many readers, or by one writer. -/
inductive Usage where
  | readonly (count : Nat)
  | writable
deriving DecidableEq, Repr

/-- `impl From<RequestedUsage> for Usage`. -/
def Usage.ofRequestedUsage : RequestedUsage → Usage
  | .readonly => .readonly 1
  | .writable => .writable

/-- A task's request for one address.  The source holds the address's `UsageQueue`; one
queue is shared by all tasks for each address, so the address stands for it. -/
structure LockContext (α : Type) where
  address : α
  requestedUsage : RequestedUsage
deriving DecidableEq, Repr

/-- The locking state of one address: how it is used now and who waits for it, in order. -/
structure UsageQueueInner (τ : Type) where
  currentUsage : Option Usage
  blockedUsagesFromTasks : List (RequestedUsage × τ)
deriving DecidableEq, Repr

namespace UsageQueueInner

variable {τ : Type}

/-- `impl Default`: unused, nobody waiting. -/
def default : UsageQueueInner τ := ⟨none, []⟩

/-- `try_lock`; `none` is `Err(())`, which leaves the queue as it was. -/
def tryLock (usageQueue : UsageQueueInner τ) (requestedUsage : RequestedUsage) :
    Option (UsageQueueInner τ) :=
  let newUsage : Option Usage :=
    match usageQueue.currentUsage with
    | none => some (Usage.ofRequestedUsage requestedUsage)
    | some (.readonly count) =>
        match requestedUsage with
        | .readonly => some (.readonly (ShortCounter.increment count))
        | .writable => none
    | some .writable => none
  newUsage.map fun newUsage => { usageQueue with currentUsage := some newUsage }

/-- `unlock`: releases one lock of the given kind.  When the address becomes unused, the
first waiting request is popped and returned.  `none` is `unreachable!()` (unlocking a kind
the address is not locked with) or a panicking counter. -/
def unlock (usageQueue : UsageQueueInner τ) (requestedUsage : RequestedUsage) :
    Option (UsageQueueInner τ × Option (RequestedUsage × τ)) :=
  let release : UsageQueueInner τ × Option (RequestedUsage × τ) :=
    (⟨none, usageQueue.blockedUsagesFromTasks.tail⟩, usageQueue.blockedUsagesFromTasks.head?)
  match usageQueue.currentUsage, requestedUsage with
  | some (.readonly count), .readonly =>
      if count = 1 then some release
      else (ShortCounter.decrement count).map fun count =>
        ({ usageQueue with currentUsage := some (.readonly count) }, none)
  | some .writable, .writable => some release
  | _, _ => none

/-- `push_blocked_usage_from_task`, with its `assert_matches!(current_usage, Some(_))`. -/
def pushBlockedUsageFromTask (usageQueue : UsageQueueInner τ)
    (usageFromTask : RequestedUsage × τ) : Option (UsageQueueInner τ) :=
  if usageQueue.currentUsage.isSome then
    some { usageQueue with
      blockedUsagesFromTasks := usageQueue.blockedUsagesFromTasks ++ [usageFromTask] }
  else none

/-- `pop_unblocked_readonly_usage_from_task`: pops the first waiting request when it is a
read, asserting that the address is read-locked. -/
def popUnblockedReadonlyUsageFromTask (usageQueue : UsageQueueInner τ) :
    Option (UsageQueueInner τ × Option (RequestedUsage × τ)) :=
  match usageQueue.blockedUsagesFromTasks with
  | (.readonly, task) :: rest =>
      match usageQueue.currentUsage with
      | some (.readonly _) => some ({ usageQueue with blockedUsagesFromTasks := rest },
          some (.readonly, task))
      | _ => none
  | _ => some (usageQueue, none)

def hasNoBlockedUsage (usageQueue : UsageQueueInner τ) : Bool :=
  usageQueue.blockedUsagesFromTasks.isEmpty

theorem tryLock_blockedUsagesFromTasks {usageQueue locked : UsageQueueInner τ}
    {requestedUsage : RequestedUsage} (lock : usageQueue.tryLock requestedUsage = some locked) :
    locked.blockedUsagesFromTasks = usageQueue.blockedUsagesFromTasks := by
  unfold tryLock at lock
  obtain ⟨_, _, rfl⟩ := Option.map_eq_some_iff.mp lock
  rfl

theorem popUnblockedReadonlyUsageFromTask_length {usageQueue popped : UsageQueueInner τ}
    {next : RequestedUsage × τ}
    (pop : usageQueue.popUnblockedReadonlyUsageFromTask = some (popped, some next)) :
    popped.blockedUsagesFromTasks.length < usageQueue.blockedUsagesFromTasks.length := by
  unfold popUnblockedReadonlyUsageFromTask at pop
  split at pop
  · rename_i task rest blocked
    split at pop
    · simp only [Option.some.injEq, Prod.mk.injEq] at pop
      rw [← pop.1, blocked]
      simp
    · contradiction
  · simp at pop

end UsageQueueInner

/-- The scheduling state machine, with the usage queues and blocked-usage counters that it
reaches through its tokens. -/
structure SchedulingStateMachine (α τ : Type) where
  unblockedTaskQueue : List τ
  activeTaskCount : Nat
  runningTaskCount : Nat
  maxRunningTaskCount : Nat
  handledTaskCount : Nat
  unblockedTaskCount : Nat
  totalTaskCount : Nat
  /-- The `UsageQueue` of each address. -/
  usageQueues : α → UsageQueueInner τ
  /-- The `blocked_usage_count` of each task. -/
  blockedUsageCount : τ → Nat

/-- `create_task`: one lock context per account key, writable exactly where the message says
the account is writable. -/
def createTask {α : Type} (accountKeys : List α) (isWritable : Nat → Bool) :
    List (LockContext α) :=
  accountKeys.mapIdx fun index address =>
    ⟨address, if isWritable index then .writable else .readonly⟩

namespace SchedulingStateMachine

variable {α τ : Type} [DecidableEq α]

/-- `exclusively_initialize_current_thread_for_scheduling`, with every address's queue and
every task's counter as `UsageQueue::default()` and `create_task` make them.  No limit means
`u32::MAX`; a limit that does not fit in `u32` panics. -/
def exclusivelyInitializeCurrentThreadForScheduling (maxRunningTaskCount : Option Nat) :
    Option (SchedulingStateMachine α τ) :=
  let limit := maxRunningTaskCount.getD 4294967295
  if limit < 4294967296 then
    some {
      unblockedTaskQueue := []
      activeTaskCount := 0
      runningTaskCount := 0
      maxRunningTaskCount := limit
      handledTaskCount := 0
      unblockedTaskCount := 0
      totalTaskCount := 0
      usageQueues := fun _ => UsageQueueInner.default
      blockedUsageCount := fun _ => 0 }
  else none

def hasNoRunningTask (machine : SchedulingStateMachine α τ) : Bool :=
  machine.runningTaskCount = 0

def isTaskRunnable (machine : SchedulingStateMachine α τ) : Bool :=
  machine.runningTaskCount < machine.maxRunningTaskCount

/-- Write back the queue of one address. -/
def setUsageQueue (machine : SchedulingStateMachine α τ) (address : α)
    (usageQueue : UsageQueueInner τ) : SchedulingStateMachine α τ :=
  { machine with usageQueues := Function.update machine.usageQueues address usageQueue }

@[simp] theorem setUsageQueue_usageQueues (machine : SchedulingStateMachine α τ)
    (address : α) (usageQueue : UsageQueueInner τ) :
    (machine.setUsageQueue address usageQueue).usageQueues =
      Function.update machine.usageQueues address usageQueue := rfl

@[simp] theorem setUsageQueue_blockedUsageCount (machine : SchedulingStateMachine α τ)
    (address : α) (usageQueue : UsageQueueInner τ) :
    (machine.setUsageQueue address usageQueue).blockedUsageCount =
      machine.blockedUsageCount := rfl

@[simp] theorem setUsageQueue_unblockedTaskQueue (machine : SchedulingStateMachine α τ)
    (address : α) (usageQueue : UsageQueueInner τ) :
    (machine.setUsageQueue address usageQueue).unblockedTaskQueue =
      machine.unblockedTaskQueue := rfl

@[simp] theorem setUsageQueue_activeTaskCount (machine : SchedulingStateMachine α τ)
    (address : α) (usageQueue : UsageQueueInner τ) :
    (machine.setUsageQueue address usageQueue).activeTaskCount = machine.activeTaskCount := rfl

@[simp] theorem setUsageQueue_runningTaskCount (machine : SchedulingStateMachine α τ)
    (address : α) (usageQueue : UsageQueueInner τ) :
    (machine.setUsageQueue address usageQueue).runningTaskCount =
      machine.runningTaskCount := rfl

@[simp] theorem setUsageQueue_maxRunningTaskCount (machine : SchedulingStateMachine α τ)
    (address : α) (usageQueue : UsageQueueInner τ) :
    (machine.setUsageQueue address usageQueue).maxRunningTaskCount =
      machine.maxRunningTaskCount := rfl

variable [DecidableEq τ]

/-- One iteration of `try_lock_usage_queues`: lock the address, unless somebody waits for it
or the lock is taken, in which case the task waits in the address's queue. -/
def tryLockUsageQueue (task : τ) (blockedUsageCount : Nat)
    (machine : SchedulingStateMachine α τ) (context : LockContext α) :
    Option (SchedulingStateMachine α τ × Nat) :=
  let usageQueue := machine.usageQueues context.address
  let lockResult :=
    if usageQueue.hasNoBlockedUsage then usageQueue.tryLock context.requestedUsage else none
  match lockResult with
  | some locked => some (machine.setUsageQueue context.address locked, blockedUsageCount)
  | none =>
      (usageQueue.pushBlockedUsageFromTask (context.requestedUsage, task)).map fun blocked =>
        (machine.setUsageQueue context.address blocked,
          ShortCounter.increment blockedUsageCount)

/-- The loop of `try_lock_usage_queues` over the remaining lock contexts. -/
def tryLockUsageQueuesFrom (task : τ) :
    List (LockContext α) → SchedulingStateMachine α τ → Nat →
      Option (SchedulingStateMachine α τ × Nat)
  | [], machine, blockedUsageCount => some (machine, blockedUsageCount)
  | context :: rest, machine, blockedUsageCount =>
      match machine.tryLockUsageQueue task blockedUsageCount context with
      | none => none
      | some (machine, blockedUsageCount) =>
          tryLockUsageQueuesFrom task rest machine blockedUsageCount

variable (lockContexts : τ → List (LockContext α))

/-- `try_lock_usage_queues`: the task when it locked every address, else `None` with its
blocked-usage counter set to the number of addresses it waits for. -/
def tryLockUsageQueues (machine : SchedulingStateMachine α τ) (task : τ) :
    Option (SchedulingStateMachine α τ × Option τ) :=
  match tryLockUsageQueuesFrom task (lockContexts task) machine 0 with
  | none => none
  | some (machine, blockedUsageCount) =>
      if blockedUsageCount = 0 then some (machine, some task)
      else some ({ machine with
        blockedUsageCount := Function.update machine.blockedUsageCount task blockedUsageCount },
        none)

/-- `schedule_or_buffer_task`. -/
def scheduleOrBufferTask (machine : SchedulingStateMachine α τ) (task : τ)
    (forceBuffering : Bool) : Option (SchedulingStateMachine α τ × Option τ) :=
  let machine := { machine with
    totalTaskCount := ShortCounter.increment machine.totalTaskCount,
    activeTaskCount := ShortCounter.increment machine.activeTaskCount }
  match machine.tryLockUsageQueues lockContexts task with
  | none => none
  | some (machine, none) => some (machine, none)
  | some (machine, some task) =>
      if !machine.isTaskRunnable || forceBuffering then
        some ({ machine with
          unblockedTaskCount := ShortCounter.increment machine.unblockedTaskCount,
          unblockedTaskQueue := machine.unblockedTaskQueue ++ [task] }, none)
      else
        some ({ machine with
          runningTaskCount := ShortCounter.increment machine.runningTaskCount }, some task)

/-- `schedule_task`. -/
def scheduleTask (machine : SchedulingStateMachine α τ) (task : τ) :
    Option (SchedulingStateMachine α τ × Option τ) :=
  machine.scheduleOrBufferTask lockContexts task false

/-- `buffer_task`: its `unwrap_none()` panics if the task came back. -/
def bufferTask (machine : SchedulingStateMachine α τ) (task : τ) :
    Option (SchedulingStateMachine α τ) :=
  match machine.scheduleOrBufferTask lockContexts task true with
  | some (machine, none) => some machine
  | _ => none

/-- `schedule_next_unblocked_task`. -/
def scheduleNextUnblockedTask (machine : SchedulingStateMachine α τ) :
    SchedulingStateMachine α τ × Option τ :=
  if !machine.isTaskRunnable then (machine, none)
  else
    match machine.unblockedTaskQueue with
    | [] => (machine, none)
    | task :: rest =>
        ({ machine with
          unblockedTaskQueue := rest,
          runningTaskCount := ShortCounter.increment machine.runningTaskCount,
          unblockedTaskCount := ShortCounter.increment machine.unblockedTaskCount }, some task)

/-- `TaskInner::try_unblock`: one fewer blocked usage; the task when none is left. -/
def tryUnblock (machine : SchedulingStateMachine α τ) (task : τ) :
    Option (SchedulingStateMachine α τ × Option τ) :=
  (ShortCounter.decrement (machine.blockedUsageCount task)).map fun count =>
    ({ machine with blockedUsageCount := Function.update machine.blockedUsageCount task count },
      if count = 0 then some task else none)

/-- `if let Some(task) = try_unblock(..) { unblocked_task_queue.push_back(task) }`. -/
def pushUnblockedTask (machine : SchedulingStateMachine α τ) :
    Option τ → SchedulingStateMachine α τ
  | some task => { machine with unblockedTaskQueue := machine.unblockedTaskQueue ++ [task] }
  | none => machine

omit [DecidableEq α] [DecidableEq τ] in
@[simp] theorem pushUnblockedTask_blockedUsageCount (machine : SchedulingStateMachine α τ)
    (unblocked : Option τ) :
    (machine.pushUnblockedTask unblocked).blockedUsageCount = machine.blockedUsageCount := by
  cases unblocked <;> rfl

omit [DecidableEq α] [DecidableEq τ] in
@[simp] theorem pushUnblockedTask_usageQueues (machine : SchedulingStateMachine α τ)
    (unblocked : Option τ) :
    (machine.pushUnblockedTask unblocked).usageQueues = machine.usageQueues := by
  cases unblocked <;> rfl

omit [DecidableEq α] [DecidableEq τ] in
@[simp] theorem pushUnblockedTask_unblockedTaskQueue (machine : SchedulingStateMachine α τ)
    (unblocked : Option τ) :
    (machine.pushUnblockedTask unblocked).unblockedTaskQueue =
      machine.unblockedTaskQueue ++ unblocked.toList := by
  cases unblocked <;> simp [pushUnblockedTask]

/-- The `while let` loop of `unlock_usage_queues`: the popped request is granted (its task is
unblocked once it holds all its addresses), and after a read, the reads waiting right behind
it are popped too. -/
def relockBlockedUsages (machine : SchedulingStateMachine α τ)
    (usageQueue : UsageQueueInner τ) (unblocked : RequestedUsage × τ) :
    Option (SchedulingStateMachine α τ × UsageQueueInner τ) :=
  match machine.tryUnblock unblocked.2 with
  | none => none
  | some (machine, unblockedTask) =>
      let machine := machine.pushUnblockedTask unblockedTask
      match lock : usageQueue.tryLock unblocked.1 with
      -- `panic!("should never fail in this context")`
      | none => none
      | some locked =>
          match unblocked.1 with
          | .writable => some (machine, locked)
          | .readonly =>
              match pop : locked.popUnblockedReadonlyUsageFromTask with
              | none => none
              | some (popped, none) => some (machine, popped)
              | some (popped, some next) => relockBlockedUsages machine popped next
termination_by usageQueue.blockedUsagesFromTasks.length
decreasing_by
  rw [← UsageQueueInner.tryLock_blockedUsagesFromTasks lock]
  exact UsageQueueInner.popUnblockedReadonlyUsageFromTask_length pop

/-- One iteration of `unlock_usage_queues`: release the lock on one address and hand the
address to the requests waiting for it. -/
def unlockUsageQueue (machine : SchedulingStateMachine α τ) (context : LockContext α) :
    Option (SchedulingStateMachine α τ) :=
  match (machine.usageQueues context.address).unlock context.requestedUsage with
  | none => none
  | some (usageQueue, none) => some (machine.setUsageQueue context.address usageQueue)
  | some (usageQueue, some unblocked) =>
      (machine.relockBlockedUsages usageQueue unblocked).map fun (machine, usageQueue) =>
        machine.setUsageQueue context.address usageQueue

/-- The loop of `unlock_usage_queues` over the remaining lock contexts. -/
def unlockUsageQueuesFrom :
    List (LockContext α) → SchedulingStateMachine α τ → Option (SchedulingStateMachine α τ)
  | [], machine => some machine
  | context :: rest, machine =>
      match machine.unlockUsageQueue context with
      | none => none
      | some machine => unlockUsageQueuesFrom rest machine

/-- `unlock_usage_queues`. -/
def unlockUsageQueues (machine : SchedulingStateMachine α τ) (task : τ) :
    Option (SchedulingStateMachine α τ) :=
  unlockUsageQueuesFrom (lockContexts task) machine

/-- `deschedule_task`. -/
def descheduleTask (machine : SchedulingStateMachine α τ) (task : τ) :
    Option (SchedulingStateMachine α τ) :=
  match ShortCounter.decrement machine.runningTaskCount,
      ShortCounter.decrement machine.activeTaskCount with
  | some running, some active =>
      ({ machine with
        runningTaskCount := running, activeTaskCount := active,
        handledTaskCount := ShortCounter.increment machine.handledTaskCount }).unlockUsageQueues
        lockContexts task
  | _, _ => none

/-- The counters that the lock bookkeeping leaves alone: only `schedule_or_buffer_task`,
`schedule_next_unblocked_task` and `deschedule_task` change them, outside their loops. -/
def SameTaskCounts (machine after : SchedulingStateMachine α τ) : Prop :=
  after.activeTaskCount = machine.activeTaskCount ∧
    after.runningTaskCount = machine.runningTaskCount ∧
    after.maxRunningTaskCount = machine.maxRunningTaskCount

omit [DecidableEq α] [DecidableEq τ] in
theorem SameTaskCounts.refl (machine : SchedulingStateMachine α τ) :
    SameTaskCounts machine machine :=
  ⟨rfl, rfl, rfl⟩

omit [DecidableEq α] [DecidableEq τ] in
theorem SameTaskCounts.trans {first second third : SchedulingStateMachine α τ}
    (firstSecond : SameTaskCounts first second) (secondThird : SameTaskCounts second third) :
    SameTaskCounts first third :=
  ⟨secondThird.1.trans firstSecond.1, secondThird.2.1.trans firstSecond.2.1,
    secondThird.2.2.trans firstSecond.2.2⟩

omit [DecidableEq α] in
theorem tryUnblock_sameTaskCounts {machine after : SchedulingStateMachine α τ} {task : τ}
    {unblocked : Option τ} (unblock : machine.tryUnblock task = some (after, unblocked)) :
    SameTaskCounts machine after := by
  unfold tryUnblock at unblock
  obtain ⟨_, _, same⟩ := Option.map_eq_some_iff.mp unblock
  cases same
  exact SameTaskCounts.refl machine

omit [DecidableEq α] [DecidableEq τ] in
theorem pushUnblockedTask_sameTaskCounts (machine : SchedulingStateMachine α τ)
    (unblocked : Option τ) : SameTaskCounts machine (machine.pushUnblockedTask unblocked) := by
  cases unblocked <;> exact SameTaskCounts.refl machine

omit [DecidableEq τ] in
theorem setUsageQueue_sameTaskCounts (machine : SchedulingStateMachine α τ) (address : α)
    (usageQueue : UsageQueueInner τ) :
    SameTaskCounts machine (machine.setUsageQueue address usageQueue) :=
  SameTaskCounts.refl machine

omit [DecidableEq α] in
theorem relockBlockedUsages_sameTaskCounts {machine after : SchedulingStateMachine α τ}
    {usageQueue relocked : UsageQueueInner τ} {unblocked : RequestedUsage × τ}
    (relock : machine.relockBlockedUsages usageQueue unblocked = some (after, relocked)) :
    SameTaskCounts machine after := by
  fun_induction relockBlockedUsages machine usageQueue unblocked with
  | case1 => contradiction
  | case2 => contradiction
  | case3 machine _ _ unblockedMachine unblockedTask unblock =>
      obtain ⟨sameMachine, -⟩ := Prod.mk.inj (Option.some.inj relock)
      rw [← sameMachine]
      exact (tryUnblock_sameTaskCounts unblock).trans
        (pushUnblockedTask_sameTaskCounts unblockedMachine unblockedTask)
  | case4 => contradiction
  | case5 machine _ _ unblockedMachine unblockedTask unblock =>
      obtain ⟨sameMachine, -⟩ := Prod.mk.inj (Option.some.inj relock)
      rw [← sameMachine]
      exact (tryUnblock_sameTaskCounts unblock).trans
        (pushUnblockedTask_sameTaskCounts unblockedMachine unblockedTask)
  | case6 machine _ _ unblockedMachine unblockedTask unblock _ _ _ _ _ _ _ ih =>
      exact ((tryUnblock_sameTaskCounts unblock).trans
        (pushUnblockedTask_sameTaskCounts unblockedMachine unblockedTask)).trans (ih relock)

theorem unlockUsageQueue_sameTaskCounts {machine after : SchedulingStateMachine α τ}
    {context : LockContext α} (unlocked : machine.unlockUsageQueue context = some after) :
    SameTaskCounts machine after := by
  unfold unlockUsageQueue at unlocked
  split at unlocked
  · contradiction
  · cases unlocked
    exact setUsageQueue_sameTaskCounts _ _ _
  · obtain ⟨⟨relockedMachine, relocked⟩, relock, rfl⟩ := Option.map_eq_some_iff.mp unlocked
    exact (relockBlockedUsages_sameTaskCounts relock).trans
      (setUsageQueue_sameTaskCounts _ _ _)

theorem unlockUsageQueuesFrom_sameTaskCounts {contexts : List (LockContext α)}
    {machine after : SchedulingStateMachine α τ}
    (unlocked : unlockUsageQueuesFrom contexts machine = some after) :
    SameTaskCounts machine after := by
  induction contexts generalizing machine with
  | nil =>
      cases unlocked
      exact SameTaskCounts.refl _
  | cons context rest ih =>
      unfold unlockUsageQueuesFrom at unlocked
      split at unlocked
      · contradiction
      · rename_i unlockedMachine first
        exact (unlockUsageQueue_sameTaskCounts first).trans (ih unlocked)

omit [DecidableEq τ] in
theorem tryLockUsageQueue_sameTaskCounts {task : τ} {blockedUsageCount after : Nat}
    {machine locked : SchedulingStateMachine α τ} {context : LockContext α}
    (lock : machine.tryLockUsageQueue task blockedUsageCount context = some (locked, after)) :
    SameTaskCounts machine locked := by
  unfold tryLockUsageQueue at lock
  dsimp only at lock
  split at lock
  · cases lock
    exact setUsageQueue_sameTaskCounts _ _ _
  · obtain ⟨_, _, same⟩ := Option.map_eq_some_iff.mp lock
    cases same
    exact setUsageQueue_sameTaskCounts _ _ _

omit [DecidableEq τ] in
theorem tryLockUsageQueuesFrom_sameTaskCounts {task : τ} {contexts : List (LockContext α)}
    {machine locked : SchedulingStateMachine α τ} {blockedUsageCount after : Nat}
    (lock : tryLockUsageQueuesFrom task contexts machine blockedUsageCount = some (locked, after)) :
    SameTaskCounts machine locked := by
  induction contexts generalizing machine blockedUsageCount with
  | nil =>
      cases lock
      exact SameTaskCounts.refl _
  | cons context rest ih =>
      unfold tryLockUsageQueuesFrom at lock
      split at lock
      · contradiction
      · rename_i next count first
        exact (tryLockUsageQueue_sameTaskCounts first).trans (ih lock)

theorem tryLockUsageQueues_sameTaskCounts {machine locked : SchedulingStateMachine α τ}
    {task : τ} {result : Option τ}
    (lock : machine.tryLockUsageQueues lockContexts task = some (locked, result)) :
    SameTaskCounts machine locked := by
  unfold tryLockUsageQueues at lock
  split at lock
  · contradiction
  · rename_i next count loop
    have same := tryLockUsageQueuesFrom_sameTaskCounts loop
    split at lock
    · cases lock
      exact same
    · cases lock
      exact same

/-- `schedule_or_buffer_task` leaves the limit on running tasks alone. -/
theorem scheduleOrBufferTask_maxRunningTaskCount {machine after : SchedulingStateMachine α τ}
    {task : τ} {forceBuffering : Bool} {returned : Option τ}
    (scheduled : machine.scheduleOrBufferTask lockContexts task forceBuffering =
      some (after, returned)) :
    after.maxRunningTaskCount = machine.maxRunningTaskCount := by
  unfold scheduleOrBufferTask at scheduled
  dsimp only at scheduled
  split at scheduled
  · contradiction
  · rename_i locked lock
    cases scheduled
    exact (tryLockUsageQueues_sameTaskCounts lockContexts lock).2.2
  · rename_i locked task lock
    have same := (tryLockUsageQueues_sameTaskCounts lockContexts lock).2.2
    split at scheduled
    · cases scheduled
      exact same
    · cases scheduled
      exact same

/-- `deschedule_task` takes one task off the active and running counts. -/
theorem descheduleTask_counts {machine after : SchedulingStateMachine α τ} {task : τ}
    (descheduled : machine.descheduleTask lockContexts task = some after) :
    after.activeTaskCount + 1 = machine.activeTaskCount ∧
      after.runningTaskCount + 1 = machine.runningTaskCount ∧
      after.maxRunningTaskCount = machine.maxRunningTaskCount := by
  unfold descheduleTask at descheduled
  split at descheduled
  · rename_i running active runningEq activeEq
    obtain ⟨runningNe, rfl⟩ := ShortCounter.decrement_eq_some.mp runningEq
    obtain ⟨activeNe, rfl⟩ := ShortCounter.decrement_eq_some.mp activeEq
    obtain ⟨sameActive, sameRunning, sameMax⟩ :=
      unlockUsageQueuesFrom_sameTaskCounts descheduled
    refine ⟨?_, ?_, sameMax⟩
    · rw [sameActive]
      simp only
      omega
    · rw [sameRunning]
      simp only
      omega
  · contradiction

end SchedulingStateMachine

end Validator.UnifiedScheduler
