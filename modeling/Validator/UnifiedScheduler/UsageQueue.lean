import Validator.Data.FifoGrant
import Validator.UnifiedScheduler.Basic

namespace Validator.UnifiedScheduler

open Validator.Data

/-! # Usage queues are first-come grants

Take the requests for one address in the order their tasks were scheduled.  Reads share the
address, writes take it alone, and the longest prefix that can hold it together holds it
(`grantedPrefix`); everybody behind waits.  `encodeQueue` writes such a list of requests as
the source's `UsageQueueInner`: the granted prefix becomes `current_usage`, the waiting
requests `blocked_usages_from_tasks`.

Each operation of the code on one queue keeps it the encoding of its requests:
`try_lock_usage_queues` appends the new task's request, and `unlock` with the relock loop of
`unlock_usage_queues` erases the request of the task that finished and unblocks exactly the
requests that the grant rule lets in (`releasedTo`).
-/

/-- A request that shares its address: a read. -/
def readonlyUsage {τ : Type} (usageFromTask : RequestedUsage × τ) : Bool :=
  match usageFromTask.1 with
  | .readonly => true
  | .writable => false

variable {α τ : Type}

/-- The usage that the granted requests hold: none, one write, or this many reads. -/
def usageOfGranted : List (RequestedUsage × τ) → Option Usage
  | [] => none
  | (.writable, _) :: _ => some .writable
  | (.readonly, _) :: rest => some (.readonly (rest.length + 1))

/-- The usage queue of an address whose requests, in scheduling order, are `requests`. -/
def encodeQueue (requests : List (RequestedUsage × τ)) : UsageQueueInner τ :=
  ⟨usageOfGranted (grantedPrefix readonlyUsage requests), waitingSuffix readonlyUsage requests⟩

@[simp] theorem encodeQueue_nil : encodeQueue ([] : List (RequestedUsage × τ)) = .default := rfl

@[simp] theorem readonlyUsage_readonly (task : τ) : readonlyUsage (.readonly, task) = true := rfl

@[simp] theorem readonlyUsage_writable (task : τ) : readonlyUsage (.writable, task) = false := rfl

theorem readonlyUsage_eq_true {request : RequestedUsage × τ} :
    readonlyUsage request = true ↔ request.1 = .readonly := by
  obtain ⟨usage, task⟩ := request
  cases usage <;> simp

theorem usageOfGranted_of_readonly {granted : List (RequestedUsage × τ)}
    (nonempty : granted ≠ []) (reads : ∀ request ∈ granted, readonlyUsage request = true) :
    usageOfGranted granted = some (.readonly granted.length) := by
  cases granted with
  | nil => contradiction
  | cons first rest =>
      obtain ⟨usage, task⟩ := first
      have firstRead := readonlyUsage_eq_true.mp (reads _ List.mem_cons_self)
      simp only at firstRead
      subst firstRead
      simp [usageOfGranted]

@[simp] theorem usageOfGranted_eq_none_iff {granted : List (RequestedUsage × τ)} :
    usageOfGranted granted = none ↔ granted = [] := by
  cases granted with
  | nil => simp [usageOfGranted]
  | cons first rest =>
      obtain ⟨usage, task⟩ := first
      cases usage <;> simp [usageOfGranted]

/-! ## Locking and blocking append a request -/

/-- Compatible holders are one write or a run of reads. -/
theorem readonlyUsage_of_compatible {first : RequestedUsage × τ} {rest : List (RequestedUsage × τ)}
    (compatible : Compatible readonlyUsage (first :: rest)) (firstRead : readonlyUsage first = true) :
    ∀ request ∈ first :: rest, readonlyUsage request = true := by
  rcases compatible with reads | short
  · exact reads
  · have single : rest = [] := by simpa using short
    subst single
    simpa using firstRead

/-- `try_lock` on the usage of compatible holders admits exactly a joinable request. -/
theorem tryLock_usageOfGranted {granted : List (RequestedUsage × τ)}
    (compatible : Compatible readonlyUsage granted) (blocked : List (RequestedUsage × τ))
    (usage : RequestedUsage) (task : τ) :
    (⟨usageOfGranted granted, blocked⟩ : UsageQueueInner τ).tryLock usage =
      if Joinable readonlyUsage granted (usage, task) then
        some ⟨usageOfGranted (granted ++ [(usage, task)]), blocked⟩
      else none := by
  match granted, usage with
  | [], usage =>
      cases usage <;>
        simp [Joinable, usageOfGranted, UsageQueueInner.tryLock, Usage.ofRequestedUsage]
  | (.writable, _) :: _, usage =>
      simp [Joinable, usageOfGranted, UsageQueueInner.tryLock]
  | (.readonly, _) :: _, .writable =>
      simp [Joinable, usageOfGranted, UsageQueueInner.tryLock]
  | (.readonly, holder) :: rest, .readonly =>
      have allRead := readonlyUsage_of_compatible compatible rfl
      have joinable : Joinable readonlyUsage ((RequestedUsage.readonly, holder) :: rest)
          (.readonly, task) := .inr ⟨rfl, allRead⟩
      simp [joinable, usageOfGranted, UsageQueueInner.tryLock, ShortCounter.increment]

/-- `current_usage` of compatible holders is a write exactly when one writer holds. -/
theorem usageOfGranted_eq_writable_iff {granted : List (RequestedUsage × τ)}
    (compatible : Compatible readonlyUsage granted) :
    usageOfGranted granted = some .writable ↔ ∃ task, granted = [(.writable, task)] := by
  match granted, compatible with
  | [], _ => simp [usageOfGranted]
  | (.writable, task) :: rest, compatible =>
      -- A writer holds alone.
      have alone : rest = [] := by
        rcases compatible with reads | short
        · simpa using reads _ List.mem_cons_self
        · simpa using short
      simp [usageOfGranted, alone]
  | (.readonly, _) :: _, _ => simp [usageOfGranted]

/-- `current_usage` of compatible holders counts the readers when they all read. -/
theorem usageOfGranted_eq_readonly_iff {granted : List (RequestedUsage × τ)}
    (compatible : Compatible readonlyUsage granted) (count : Nat) :
    usageOfGranted granted = some (.readonly count) ↔
      granted ≠ [] ∧ (∀ holder ∈ granted, holder.1 = .readonly) ∧ count = granted.length := by
  match granted, compatible with
  | [], _ => simp [usageOfGranted]
  | (.writable, _) :: _, _ => simp [usageOfGranted]
  | (.readonly, task) :: rest, compatible =>
      have allRead := readonlyUsage_of_compatible compatible rfl
      have reads : ∀ holder ∈ (RequestedUsage.readonly, task) :: rest,
          holder.1 = .readonly := fun holder member => readonlyUsage_eq_true.mp (allRead holder member)
      simp only [usageOfGranted, Option.some.injEq, Usage.readonly.injEq, ne_eq, reduceCtorEq,
        not_false_eq_true, true_and, List.length_cons]
      exact ⟨fun same => ⟨reads, same.symm⟩, fun both => both.2.symm⟩

/-- With nobody waiting, `try_lock` admits exactly a joinable request. -/
theorem tryLock_encodeQueue {requests : List (RequestedUsage × τ)} (usage : RequestedUsage)
    (task : τ) (noWaiting : waitingSuffix readonlyUsage requests = []) :
    (encodeQueue requests).tryLock usage =
      if Joinable readonlyUsage requests (usage, task) then
        some (encodeQueue (requests ++ [(usage, task)]))
      else none := by
  have allGranted := grantedPrefix_of_waitingSuffix_eq_nil noWaiting
  have compatible : Compatible readonlyUsage (grantedPrefix readonlyUsage requests) :=
    grantedPrefix_compatible requests
  rw [allGranted] at compatible
  by_cases joinable : Joinable readonlyUsage requests (usage, task)
  · have admitted : Admitted readonlyUsage requests (usage, task) := ⟨noWaiting, joinable⟩
    have appended : encodeQueue (requests ++ [(usage, task)]) =
        ⟨usageOfGranted (requests ++ [(usage, task)]), []⟩ := by
      simp [encodeQueue, grantedPrefix_append_singleton, waitingSuffix_append_singleton,
        admitted, allGranted, noWaiting]
    rw [appended]
    simp only [encodeQueue, allGranted, noWaiting, tryLock_usageOfGranted compatible _ usage task,
      if_pos joinable]
  · simp only [encodeQueue, allGranted, noWaiting, tryLock_usageOfGranted compatible _ usage task,
      if_neg joinable]

/-- A request that is not admitted waits at the back of a queue that somebody holds. -/
theorem pushBlockedUsageFromTask_encodeQueue {requests : List (RequestedUsage × τ)}
    {request : RequestedUsage × τ} (held : requests ≠ [])
    (notAdmitted : ¬ Admitted readonlyUsage requests request) :
    (encodeQueue requests).pushBlockedUsageFromTask request =
      some (encodeQueue (requests ++ [request])) := by
  have someUsage : (usageOfGranted (grantedPrefix readonlyUsage requests)).isSome := by
    simpa [Option.isSome_iff_ne_none] using held
  simp [encodeQueue, UsageQueueInner.pushBlockedUsageFromTask, someUsage,
    grantedPrefix_append_singleton, waitingSuffix_append_singleton, notAdmitted]

/-! ## Unlocking erases a request -/

/-- The only holder's `unlock` frees the address and pops the first waiting request. -/
theorem unlock_encodeQueue_of_sole {requests : List (RequestedUsage × τ)}
    {holder : RequestedUsage × τ} (sole : grantedPrefix readonlyUsage requests = [holder]) :
    (encodeQueue requests).unlock holder.1 =
      some (⟨none, (waitingSuffix readonlyUsage requests).tail⟩,
        (waitingSuffix readonlyUsage requests).head?) := by
  obtain ⟨usage, task⟩ := holder
  cases usage <;> simp [encodeQueue, sole, usageOfGranted, UsageQueueInner.unlock]

/-- One of several readers' `unlock` leaves one reader fewer. -/
theorem unlock_encodeQueue_of_shared [DecidableEq τ] {requests : List (RequestedUsage × τ)}
    {holder : RequestedUsage × τ} (granted : holder ∈ grantedPrefix readonlyUsage requests)
    (notSole : grantedPrefix readonlyUsage requests ≠ [holder]) :
    (encodeQueue requests).unlock holder.1 = some (encodeQueue (requests.erase holder), none) := by
  have several := two_le_length_of_mem_of_ne_singleton granted notSole
  obtain ⟨grantedAfter, waitingAfter⟩ := grantedPrefix_erase_of_shared granted several
  -- Several holders can only be reads.
  have allRead : ∀ request ∈ grantedPrefix readonlyUsage requests,
      readonlyUsage request = true := by
    rcases grantedPrefix_compatible requests with reads | short
    · exact reads
    · omega
  have holderRead : holder.1 = .readonly := readonlyUsage_eq_true.mp (allRead holder granted)
  have current : usageOfGranted (grantedPrefix readonlyUsage requests) =
      some (.readonly (grantedPrefix readonlyUsage requests).length) :=
    usageOfGranted_of_readonly (List.ne_nil_of_mem granted) allRead
  have remaining : ((grantedPrefix readonlyUsage requests).erase holder).length =
      (grantedPrefix readonlyUsage requests).length - 1 := List.length_erase_of_mem granted
  have after : usageOfGranted ((grantedPrefix readonlyUsage requests).erase holder) =
      some (.readonly ((grantedPrefix readonlyUsage requests).length - 1)) := by
    rw [← remaining]
    apply usageOfGranted_of_readonly
    · rw [← List.length_pos_iff, remaining]
      omega
    · exact fun request member => allRead request (List.mem_of_mem_erase member)
  have notOne : (grantedPrefix readonlyUsage requests).length ≠ 1 := by omega
  have held : requests ≠ [] := fun empty => by simp [empty] at granted
  simp [encodeQueue, UsageQueueInner.unlock, holderRead, current, grantedAfter, waitingAfter,
    after, notOne, held, ShortCounter.decrement]

namespace SchedulingStateMachine

section
variable [DecidableEq α]

/-- One iteration of `try_lock_usage_queues` appends the task's request to the queue of the
address, and counts one more blocked usage when the request is not admitted. -/
theorem tryLockUsageQueue_encodeQueue {machine : SchedulingStateMachine α τ} {task : τ}
    {blockedUsageCount : Nat} {context : LockContext α} {requests : List (RequestedUsage × τ)}
    (queue : machine.usageQueues context.address = encodeQueue requests) :
    machine.tryLockUsageQueue task blockedUsageCount context =
      some (machine.setUsageQueue context.address
          (encodeQueue (requests ++ [(context.requestedUsage, task)])),
        if Admitted readonlyUsage requests (context.requestedUsage, task) then blockedUsageCount
        else blockedUsageCount + 1) := by
  by_cases admitted : Admitted readonlyUsage requests (context.requestedUsage, task)
  · obtain ⟨noWaiting, joinable⟩ := admitted
    have empty : (encodeQueue requests).hasNoBlockedUsage = true := by
      simp [UsageQueueInner.hasNoBlockedUsage, encodeQueue, noWaiting]
    simp [tryLockUsageQueue, queue, empty, tryLock_encodeQueue _ task noWaiting, joinable,
      Admitted, noWaiting]
  · have held : requests ≠ [] := by
      rintro rfl
      exact admitted ⟨rfl, .inl rfl⟩
    -- The lock is refused: by the waiting queue, or by `try_lock` itself.
    have refused : (if (encodeQueue requests).hasNoBlockedUsage then
        (encodeQueue requests).tryLock context.requestedUsage else none) = none := by
      by_cases noWaiting : waitingSuffix readonlyUsage requests = []
      · have notJoinable : ¬ Joinable readonlyUsage requests (context.requestedUsage, task) :=
          fun joinable => admitted ⟨noWaiting, joinable⟩
        simp [tryLock_encodeQueue _ task noWaiting, notJoinable]
      · simp [UsageQueueInner.hasNoBlockedUsage, encodeQueue, noWaiting]
    simp only [tryLockUsageQueue, queue, refused, pushBlockedUsageFromTask_encodeQueue held admitted,
      Option.map_some, admitted, if_false, ShortCounter.increment]

end

variable [DecidableEq τ]

/-- What the relock loop does to the machine: `try_unblock` each task in turn and queue those
that hold all their addresses now. -/
def unblockTasks (machine : SchedulingStateMachine α τ) : List τ → Option (SchedulingStateMachine α τ)
  | [] => some machine
  | task :: rest =>
      match machine.tryUnblock task with
      | none => none
      | some (unblockedMachine, unblockedTask) =>
          (unblockedMachine.pushUnblockedTask unblockedTask).unblockTasks rest

@[simp] theorem unblockTasks_nil (machine : SchedulingStateMachine α τ) :
    machine.unblockTasks [] = some machine := rfl

theorem unblockTasks_cons {machine unblockedMachine : SchedulingStateMachine α τ} {task : τ}
    {unblockedTask : Option τ} (rest : List τ)
    (unblock : machine.tryUnblock task = some (unblockedMachine, unblockedTask)) :
    machine.unblockTasks (task :: rest) =
      (unblockedMachine.pushUnblockedTask unblockedTask).unblockTasks rest := by
  simp [unblockTasks, unblock]

theorem unblockTasks_cons_of_tryUnblock_eq_none {machine : SchedulingStateMachine α τ}
    {task : τ} (rest : List τ) (unblock : machine.tryUnblock task = none) :
    machine.unblockTasks (task :: rest) = none := by
  simp [unblockTasks, unblock]

/-! ## The relock loop -/

theorem relockBlockedUsages_of_tryUnblock_eq_none {machine : SchedulingStateMachine α τ}
    (usageQueue : UsageQueueInner τ) (usage : RequestedUsage) {task : τ}
    (unblock : machine.tryUnblock task = none) :
    machine.relockBlockedUsages usageQueue (usage, task) = none := by
  rw [relockBlockedUsages]
  simp [unblock]

/-- A granted write ends the loop. -/
theorem relockBlockedUsages_writable {machine unblockedMachine : SchedulingStateMachine α τ}
    {usageQueue locked : UsageQueueInner τ} {task : τ} {unblockedTask : Option τ}
    (unblock : machine.tryUnblock task = some (unblockedMachine, unblockedTask))
    (lock : usageQueue.tryLock .writable = some locked) :
    machine.relockBlockedUsages usageQueue (.writable, task) =
      some (unblockedMachine.pushUnblockedTask unblockedTask, locked) := by
  rw [relockBlockedUsages]
  simp only [unblock]
  split <;> simp_all

/-- A granted read ends the loop when no read waits right behind it. -/
theorem relockBlockedUsages_readonly_done {machine unblockedMachine : SchedulingStateMachine α τ}
    {usageQueue locked popped : UsageQueueInner τ} {task : τ} {unblockedTask : Option τ}
    (unblock : machine.tryUnblock task = some (unblockedMachine, unblockedTask))
    (lock : usageQueue.tryLock .readonly = some locked)
    (pop : locked.popUnblockedReadonlyUsageFromTask = some (popped, none)) :
    machine.relockBlockedUsages usageQueue (.readonly, task) =
      some (unblockedMachine.pushUnblockedTask unblockedTask, popped) := by
  rw [relockBlockedUsages]
  simp only [unblock]
  split
  · simp_all
  · split <;> simp_all

/-- A granted read goes on to the read waiting right behind it. -/
theorem relockBlockedUsages_readonly_next {machine unblockedMachine : SchedulingStateMachine α τ}
    {usageQueue locked popped : UsageQueueInner τ} {task : τ} {unblockedTask : Option τ}
    {next : RequestedUsage × τ}
    (unblock : machine.tryUnblock task = some (unblockedMachine, unblockedTask))
    (lock : usageQueue.tryLock .readonly = some locked)
    (pop : locked.popUnblockedReadonlyUsageFromTask = some (popped, some next)) :
    machine.relockBlockedUsages usageQueue (.readonly, task) =
      (unblockedMachine.pushUnblockedTask unblockedTask).relockBlockedUsages popped next := by
  rw [relockBlockedUsages]
  simp only [unblock]
  split
  · simp_all
  · split <;> simp_all

/-- The relock loop, entered with a read granted to `count + 1` readers, grants the run of
reads that wait right behind it. -/
theorem relockBlockedUsages_readonly_run (rest : List (RequestedUsage × τ)) :
    ∀ (machine : SchedulingStateMachine α τ) (usageQueue : UsageQueueInner τ) (count : Nat)
      (task : τ), usageQueue.tryLock .readonly = some ⟨some (.readonly (count + 1)), rest⟩ →
      machine.relockBlockedUsages usageQueue (.readonly, task) =
        (machine.unblockTasks (task :: (rest.takeWhile readonlyUsage).map Prod.snd)).map
          fun relocked => (relocked, ⟨some (.readonly (count + 1 +
            (rest.takeWhile readonlyUsage).length)), rest.dropWhile readonlyUsage⟩) := by
  induction rest with
  | nil =>
      intro machine usageQueue count task lock
      cases unblock : machine.tryUnblock task with
      | none =>
          simp [relockBlockedUsages_of_tryUnblock_eq_none usageQueue _ unblock,
            unblockTasks_cons_of_tryUnblock_eq_none _ unblock]
      | some result =>
          obtain ⟨unblockedMachine, unblockedTask⟩ := result
          rw [relockBlockedUsages_readonly_done unblock lock rfl, unblockTasks_cons _ unblock]
          simp
  | cons next rest ih =>
      intro machine usageQueue count task lock
      cases unblock : machine.tryUnblock task with
      | none =>
          simp [relockBlockedUsages_of_tryUnblock_eq_none usageQueue _ unblock,
            unblockTasks_cons_of_tryUnblock_eq_none _ unblock]
      | some result =>
          obtain ⟨unblockedMachine, unblockedTask⟩ := result
          obtain ⟨nextUsage, nextTask⟩ := next
          cases nextUsage with
          | writable =>
              -- A write waits next: the run of reads is just this one.
              rw [relockBlockedUsages_readonly_done unblock lock rfl, unblockTasks_cons _ unblock]
              simp
          | readonly =>
              rw [relockBlockedUsages_readonly_next unblock lock rfl,
                ih _ _ (count + 1) nextTask rfl, unblockTasks_cons _ unblock]
              have more : count + 1 + 1 + (rest.takeWhile readonlyUsage).length =
                  count + 1 + ((rest.takeWhile readonlyUsage).length + 1) := by omega
              simp [more, List.takeWhile_cons, List.dropWhile_cons]

/-- The relock loop on an unused address grants what the grant rule admits from its queue. -/
theorem relockBlockedUsages_encodeQueue (machine : SchedulingStateMachine α τ)
    (unblocked : RequestedUsage × τ) (rest : List (RequestedUsage × τ)) :
    machine.relockBlockedUsages ⟨none, rest⟩ unblocked =
      (machine.unblockTasks ((grantedPrefix readonlyUsage (unblocked :: rest)).map Prod.snd)).map
        fun relocked => (relocked, encodeQueue (unblocked :: rest)) := by
  obtain ⟨usage, task⟩ := unblocked
  cases usage with
  | readonly =>
      rw [relockBlockedUsages_readonly_run rest machine _ 0 task rfl]
      have granted : usageOfGranted ((RequestedUsage.readonly, task) :: rest.takeWhile readonlyUsage) =
          some (.readonly (0 + 1 + (rest.takeWhile readonlyUsage).length)) := by
        simp [usageOfGranted, Nat.add_comm]
      simp [encodeQueue, grantedPrefix, waitingSuffix, granted]
  | writable =>
      cases unblock : machine.tryUnblock task with
      | none =>
          simp [relockBlockedUsages_of_tryUnblock_eq_none _ _ unblock,
            grantedPrefix, unblockTasks_cons_of_tryUnblock_eq_none _ unblock]
      | some result =>
          obtain ⟨unblockedMachine, unblockedTask⟩ := result
          rw [relockBlockedUsages_writable unblock rfl]
          simp [grantedPrefix, waitingSuffix, unblockTasks_cons _ unblock, encodeQueue,
            usageOfGranted, Usage.ofRequestedUsage]

theorem tryUnblock_of_blocked {machine : SchedulingStateMachine α τ} {task : τ}
    (blocked : machine.blockedUsageCount task ≠ 0) :
    machine.tryUnblock task = some ({ machine with
      blockedUsageCount := Function.update machine.blockedUsageCount task
        (machine.blockedUsageCount task - 1) },
      if machine.blockedUsageCount task = 1 then some task else none) := by
  have lastOne : machine.blockedUsageCount task - 1 = 0 ↔ machine.blockedUsageCount task = 1 := by
    omega
  simp [tryUnblock, ShortCounter.decrement, blocked, lastOne]

/-- `try_unblock` on distinct blocked tasks takes one blocked usage from each, and queues in
order those that had only that one. -/
theorem unblockTasks_of_blocked {tasks : List τ} (distinct : tasks.Nodup) :
    ∀ (machine : SchedulingStateMachine α τ),
      (∀ task ∈ tasks, machine.blockedUsageCount task ≠ 0) →
      machine.unblockTasks tasks = some { machine with
        blockedUsageCount := fun task =>
          if task ∈ tasks then machine.blockedUsageCount task - 1
          else machine.blockedUsageCount task
        unblockedTaskQueue := machine.unblockedTaskQueue ++
          tasks.filter fun task => machine.blockedUsageCount task == 1 } := by
  induction tasks with
  | nil =>
      intro machine _
      simp
  | cons task rest ih =>
      intro machine blocked
      obtain ⟨notInRest, restDistinct⟩ := List.nodup_cons.mp distinct
      have taskBlocked := blocked task List.mem_cons_self
      -- The rest is untouched by the update at `task`.
      have others : ∀ value, ∀ other ∈ rest,
          Function.update machine.blockedUsageCount task value other =
            machine.blockedUsageCount other := by
        intro value other member
        have differ : other ≠ task := fun same => notInRest (same ▸ member)
        simp [differ]
      have queued : ∀ value, rest.filter (fun other =>
            Function.update machine.blockedUsageCount task value other == 1) =
          rest.filter fun other => machine.blockedUsageCount other == 1 := by
        intro value
        apply List.filter_congr
        intro other member
        rw [others value other member]
      rw [unblockTasks_cons rest (tryUnblock_of_blocked taskBlocked)]
      rw [ih restDistinct _ (by
        intro other member
        simpa [others _ other member] using blocked other (List.mem_cons_of_mem _ member))]
      have counts : (fun other => if other ∈ rest then
            Function.update machine.blockedUsageCount task
              (machine.blockedUsageCount task - 1) other - 1
          else Function.update machine.blockedUsageCount task
            (machine.blockedUsageCount task - 1) other) =
          fun other => if other ∈ task :: rest then machine.blockedUsageCount other - 1
            else machine.blockedUsageCount other := by
        funext other
        by_cases same : other = task
        · subst same
          simp [notInRest]
        · by_cases member : other ∈ rest <;> simp [same, member]
      by_cases lastOne : machine.blockedUsageCount task = 1
      · rw [if_pos lastOne]
        simp only [pushUnblockedTask, counts]
        simp [lastOne, queued]
      · rw [if_neg lastOne]
        simp only [pushUnblockedTask, counts]
        simp [lastOne, queued]

variable [DecidableEq α]

/-- One iteration of `unlock_usage_queues` erases the task's request from the queue of the
address and unblocks the requests that the grant rule lets in. -/
theorem unlockUsageQueue_encodeQueue {machine : SchedulingStateMachine α τ}
    {context : LockContext α} {task : τ} {requests : List (RequestedUsage × τ)}
    (queue : machine.usageQueues context.address = encodeQueue requests)
    (granted : (context.requestedUsage, task) ∈ grantedPrefix readonlyUsage requests) :
    machine.unlockUsageQueue context =
      (machine.unblockTasks ((releasedTo readonlyUsage requests).map Prod.snd)).map
        fun unblocked => unblocked.setUsageQueue context.address
          (encodeQueue (requests.erase (context.requestedUsage, task))) := by
  by_cases sole : grantedPrefix readonlyUsage requests = [(context.requestedUsage, task)]
  · have unlocked := unlock_encodeQueue_of_sole sole
    rw [erase_eq_waitingSuffix_of_grantedPrefix_eq_singleton sole]
    simp only [releasedTo, sole, List.length_singleton, if_true]
    cases waiting : waitingSuffix readonlyUsage requests with
    | nil =>
        simp [unlockUsageQueue, queue, unlocked, waiting, UsageQueueInner.default]
    | cons next rest =>
        simp [unlockUsageQueue, queue, unlocked, waiting, relockBlockedUsages_encodeQueue,
          Option.map_map, Function.comp_def]
  · have unlocked := unlock_encodeQueue_of_shared granted sole
    have notOne : (grantedPrefix readonlyUsage requests).length ≠ 1 := by
      have several := two_le_length_of_mem_of_ne_singleton granted sole
      omega
    simp [unlockUsageQueue, queue, unlocked, releasedTo, notOne]

end SchedulingStateMachine

end Validator.UnifiedScheduler
