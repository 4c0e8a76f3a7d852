import Validator.UnifiedScheduler.Requests

namespace Validator.UnifiedScheduler

open Validator.Data

/-! # The lock invariant and the two loops

`LockInv lockContexts active machine` ties the machine's usage queues and blocked-usage
counters to the requests of the active tasks: each queue encodes its address's requests, and
each counter is the number of lock contexts its task waits for.  `ReadyInv` says that the
tasks that wait for nothing are exactly the running ones and those in the unblocked-task queue.

The loop of `try_lock_usage_queues` keeps both with the new task appended to the active ones.
The loop of `unlock_usage_queues` keeps both while the lock contexts of the task it releases
shrink one by one; `Function.update lockContexts task remaining` records how far it got.
-/

variable {α τ : Type} [DecidableEq α] [DecidableEq τ]

/-- The queues and counters agree with the requests of the tasks `active`. -/
structure LockInv (lockContexts : τ → List (LockContext α)) (active : List τ)
    (machine : SchedulingStateMachine α τ) : Prop where
  usageQueues : ∀ address,
    machine.usageQueues address = encodeQueue (requestsAt lockContexts active address)
  blockedUsageCount : ∀ task ∈ active, machine.blockedUsageCount task =
    waitCount (requestsAt lockContexts active) (lockContexts task) task
  inactive : ∀ task, task ∉ active → machine.blockedUsageCount task = 0
  activeNodup : active.Nodup
  distinct : ∀ task ∈ active, DistinctAddresses (lockContexts task)

/-- The active tasks that wait for nothing are the running ones and the queued ones, each
once. -/
structure ReadyInv (active running : List τ) (machine : SchedulingStateMachine α τ) : Prop where
  ready : ∀ task ∈ active,
    machine.blockedUsageCount task = 0 ↔ task ∈ running ++ machine.unblockedTaskQueue
  readyActive : ∀ task ∈ running ++ machine.unblockedTaskQueue, task ∈ active
  readyNodup : (running ++ machine.unblockedTaskQueue).Nodup

namespace LockInv

variable {lockContexts : τ → List (LockContext α)} {active : List τ}
  {machine : SchedulingStateMachine α τ}

theorem requests_nodup (inv : LockInv lockContexts active machine) (address : α) :
    ((requestsAt lockContexts active address).map Prod.snd).Nodup :=
  requestsAt_tasks_nodup inv.activeNodup inv.distinct address

/-- A task that waits for nothing holds each of its addresses. -/
theorem granted_of_blockedUsageCount_eq_zero (inv : LockInv lockContexts active machine)
    {task : τ} (inActive : task ∈ active) (unblocked : machine.blockedUsageCount task = 0)
    {context : LockContext α} (mine : context ∈ lockContexts task) :
    (context.requestedUsage, task) ∈
      grantedPrefix readonlyUsage (requestsAt lockContexts active context.address) := by
  have notWaiting : task ∉ waitingTasks (requestsAt lockContexts active context.address) := by
    rw [inv.blockedUsageCount task inActive] at unblocked
    exact waitCount_eq_zero.mp unblocked context mine
  have member : (context.requestedUsage, task) ∈ requestsAt lockContexts active context.address :=
    mem_requestsAt.mpr ⟨task, inActive, context, mine, rfl, rfl⟩
  by_contra notGranted
  exact notWaiting ((mem_waitingTasks_iff_not_granted (inv.requests_nodup _) member).mpr
    notGranted)

/-- A task that waits somewhere has blocked usages. -/
theorem blockedUsageCount_ne_zero (inv : LockInv lockContexts active machine) {task : τ}
    {address : α} (waiting : task ∈ waitingTasks (requestsAt lockContexts active address)) :
    task ∈ active ∧ machine.blockedUsageCount task ≠ 0 := by
  obtain ⟨usage, member⟩ := mem_of_mem_waitingTasks waiting
  obtain ⟨_, inActive, context, mine, here, same⟩ := mem_requestsAt.mp member
  simp only [Prod.mk.injEq] at same
  obtain ⟨-, rfl⟩ := same
  refine ⟨inActive, ?_⟩
  rw [inv.blockedUsageCount task inActive]
  apply Nat.pos_iff_ne_zero.mp
  apply List.countP_pos_iff.mpr
  exact ⟨context, mine, by simpa [here] using waiting⟩

end LockInv

/-! ## The loop of `try_lock_usage_queues` -/

namespace SchedulingStateMachine

omit [DecidableEq τ] in
/-- The loop appends the task's request at each of its addresses, counting those that are not
admitted on arrival. -/
theorem tryLockUsageQueuesFrom_encodeQueue (task : τ) (base : α → List (RequestedUsage × τ))
    (contexts : List (LockContext α)) :
    ∀ (done : List (LockContext α)) (machine : SchedulingStateMachine α τ) (count : Nat),
      DistinctAddresses (done ++ contexts) →
      (∀ address, machine.usageQueues address =
        encodeQueue (base address ++ requestsOf done task address)) →
      tryLockUsageQueuesFrom task contexts machine count =
        some ({ machine with
            usageQueues := fun address =>
              encodeQueue (base address ++ requestsOf (done ++ contexts) task address) },
          count + contexts.countP fun context =>
            ¬ Admitted readonlyUsage (base context.address) (context.requestedUsage, task)) := by
  induction contexts with
  | nil =>
      intro done machine count _ queues
      have same : (fun address => encodeQueue (base address ++ requestsOf done task address)) =
          machine.usageQueues := funext fun address => (queues address).symm
      simp [tryLockUsageQueuesFrom, same]
  | cons context rest ih =>
      intro done machine count distinct queues
      have absent : context.address ∉ done.map LockContext.address := by
        have split := List.nodup_append.mp (by simpa [DistinctAddresses] using distinct)
        exact fun present => split.2.2 _ present _ (List.mem_cons_self) rfl
      have queue : machine.usageQueues context.address = encodeQueue (base context.address) := by
        rw [queues, requestsOf_eq_nil absent, List.append_nil]
      -- After this context, its request joins those of `done`.
      have queues' : ∀ address,
          (machine.setUsageQueue context.address
            (encodeQueue (base context.address ++ [(context.requestedUsage, task)]))).usageQueues
              address = encodeQueue (base address ++ requestsOf (done ++ [context]) task address) := by
        intro address
        by_cases here : address = context.address
        · subst here
          simp [requestsOf_append, requestsOf_singleton, requestsOf_eq_nil absent]
        · have there : context.address ≠ address := Ne.symm here
          simp [Function.update_of_ne here, requestsOf_append, requestsOf_singleton, there,
            queues]
      simp only [tryLockUsageQueuesFrom, tryLockUsageQueue_encodeQueue queue]
      rw [ih (done ++ [context]) _ _ (by simpa using distinct) queues']
      by_cases admitted : Admitted readonlyUsage (base context.address) (context.requestedUsage, task)
      · simp [admitted, setUsageQueue]
      · simp [admitted, setUsageQueue]
        omega

end SchedulingStateMachine

section Arrival

variable {lockContexts : τ → List (LockContext α)} {active : List τ}
  {machine : SchedulingStateMachine α τ} {task : τ}

/-- A new task waits for the requests that are not admitted on arrival. -/
theorem waitCount_append_self (fresh : task ∉ active)
    (distinct : DistinctAddresses (lockContexts task)) :
    waitCount (requestsAt lockContexts (active ++ [task])) (lockContexts task) task =
      (lockContexts task).countP fun context => ¬ Admitted readonlyUsage
        (requestsAt lockContexts active context.address) (context.requestedUsage, task) := by
  unfold waitCount
  apply List.countP_congr
  intro context mine
  have appended : requestsAt lockContexts (active ++ [task]) context.address =
      requestsAt lockContexts active context.address ++ [(context.requestedUsage, task)] := by
    simp [requestsAt_append, requestsAt_cons, requestsOf_of_mem distinct mine]
  have notThere : task ∉ (requestsAt lockContexts active context.address).map Prod.snd := by
    intro member
    obtain ⟨request, inRequests, rfl⟩ := List.mem_map.mp member
    exact fresh (task_mem_of_mem_requestsAt inRequests)
  simp [appended, mem_waitingTasks_append_self notThere]

/-- A new task does not change who else waits. -/
theorem waitCount_append_of_ne {other : τ} (differ : other ≠ task)
    (distinct : DistinctAddresses (lockContexts task)) (contexts : List (LockContext α)) :
    waitCount (requestsAt lockContexts (active ++ [task])) contexts other =
      waitCount (requestsAt lockContexts active) contexts other := by
  apply waitCount_congr
  intro context _
  rw [requestsAt_append, requestsAt_cons, requestsAt_nil, List.append_nil]
  rcases requestsOf_eq_nil_or distinct task context.address with empty | ⟨_, _, _, single⟩
  · rw [empty, List.append_nil]
  · rw [single]
    exact mem_waitingTasks_append_of_ne differ

/-- `try_lock_usage_queues` on a new task: its requests join every queue it names, and its
counter is set to the number of them that wait. -/
theorem LockInv.tryLockUsageQueues (inv : LockInv lockContexts active machine)
    (fresh : task ∉ active) (distinct : DistinctAddresses (lockContexts task)) :
    machine.tryLockUsageQueues lockContexts task =
      some ({ machine with
          usageQueues := fun address =>
            encodeQueue (requestsAt lockContexts (active ++ [task]) address)
          blockedUsageCount := Function.update machine.blockedUsageCount task
            (waitCount (requestsAt lockContexts (active ++ [task])) (lockContexts task) task) },
        if waitCount (requestsAt lockContexts (active ++ [task])) (lockContexts task) task = 0
        then some task else none) := by
  have loop := SchedulingStateMachine.tryLockUsageQueuesFrom_encodeQueue task
    (requestsAt lockContexts active) (lockContexts task) [] machine 0 (by simpa using distinct)
    (by simpa using inv.usageQueues)
  have appended : (fun address => encodeQueue (requestsAt lockContexts active address ++
        requestsOf ([] ++ lockContexts task) task address)) =
      fun address => encodeQueue (requestsAt lockContexts (active ++ [task]) address) := by
    funext address
    simp [requestsAt_append, requestsAt_cons]
  rw [Nat.zero_add, ← waitCount_append_self fresh distinct, appended] at loop
  unfold SchedulingStateMachine.tryLockUsageQueues
  rw [loop]
  by_cases unblocked :
      waitCount (requestsAt lockContexts (active ++ [task])) (lockContexts task) task = 0
  · have unchanged : Function.update machine.blockedUsageCount task 0 =
        machine.blockedUsageCount :=
      Function.update_eq_self_iff.mpr (inv.inactive task fresh).symm
    simp [unblocked, unchanged]
  · simp [unblocked]

/-- After `try_lock_usage_queues`, the invariant holds with the new task active. -/
theorem LockInv.append (inv : LockInv lockContexts active machine) (fresh : task ∉ active)
    (distinct : DistinctAddresses (lockContexts task)) :
    LockInv lockContexts (active ++ [task]) { machine with
      usageQueues := fun address => encodeQueue (requestsAt lockContexts (active ++ [task]) address)
      blockedUsageCount := Function.update machine.blockedUsageCount task
        (waitCount (requestsAt lockContexts (active ++ [task])) (lockContexts task) task) } where
  usageQueues _ := rfl
  blockedUsageCount other member := by
    by_cases same : other = task
    · subst same
      simp
    · have inActive : other ∈ active := by simpa [same] using member
      simp [Function.update_of_ne same, inv.blockedUsageCount other inActive,
        waitCount_append_of_ne same distinct]
  inactive other absent := by
    have differ : other ≠ task := fun same => absent (by simp [same])
    have notActive : other ∉ active := fun member => absent (List.mem_append_left _ member)
    simp [Function.update_of_ne differ, inv.inactive other notActive]
  activeNodup := List.nodup_append.mpr ⟨inv.activeNodup, List.nodup_singleton task,
    fun other member newTask single same => by
      rw [List.mem_singleton.mp single] at same
      exact fresh (same ▸ member)⟩
  distinct other member := by
    rcases List.mem_append.mp member with inActive | single
    · exact inv.distinct other inActive
    · rw [List.mem_singleton.mp single]
      exact distinct

omit [DecidableEq α] [DecidableEq τ] in
/-- A new task joins the ready tasks exactly when it waits for nothing. -/
theorem ReadyInv.append {running : List τ} (ready : ReadyInv active running machine)
    (fresh : task ∉ active) {after : SchedulingStateMachine α τ} {runningAfter : List τ}
    (counts : ∀ other ∈ active, after.blockedUsageCount other = machine.blockedUsageCount other)
    (placed : List.Perm (runningAfter ++ after.unblockedTaskQueue)
      (running ++ machine.unblockedTaskQueue ++
        if after.blockedUsageCount task = 0 then [task] else [])) :
    ReadyInv (active ++ [task]) runningAfter after := by
  have notReady : task ∉ running ++ machine.unblockedTaskQueue := fun member =>
    fresh (ready.readyActive task member)
  refine ⟨?_, ?_, ?_⟩
  · intro other member
    rw [placed.mem_iff]
    rcases List.mem_append.mp member with inActive | single
    · have differ : other ≠ task := fun same => fresh (same ▸ inActive)
      by_cases unblocked : after.blockedUsageCount task = 0 <;>
        simp [counts other inActive, ready.ready other inActive, differ, unblocked]
    · rw [List.mem_singleton.mp single]
      by_cases unblocked : after.blockedUsageCount task = 0 <;> simp [unblocked, notReady]
  · intro other member
    rw [placed.mem_iff, List.mem_append] at member
    rcases member with old | new
    · exact List.mem_append_left _ (ready.readyActive other old)
    · split at new
      · simp_all
      · simp at new
  · rw [placed.nodup_iff]
    refine List.nodup_append.mpr ⟨ready.readyNodup, by split <;> simp, ?_⟩
    intro other old newcomer new same
    split at new
    · rw [List.mem_singleton.mp new] at same
      exact notReady (same ▸ old)
    · simp at new

end Arrival

/-- The invariants read only the queues, the counters and the unblocked-task queue. -/
theorem LockInv.congr {lockContexts : τ → List (LockContext α)} {active : List τ}
    {machine other : SchedulingStateMachine α τ} (inv : LockInv lockContexts active machine)
    (usageQueues : other.usageQueues = machine.usageQueues)
    (blockedUsageCount : other.blockedUsageCount = machine.blockedUsageCount) :
    LockInv lockContexts active other := by
  obtain ⟨queues, counts, inactive, activeNodup, distinct⟩ := inv
  exact ⟨by simpa [usageQueues] using queues, by simpa [blockedUsageCount] using counts,
    by simpa [blockedUsageCount] using inactive, activeNodup, distinct⟩

omit [DecidableEq α] [DecidableEq τ] in
/-- Moving ready tasks between the running ones and the queue keeps the invariant. -/
theorem ReadyInv.perm {active running : List τ} {machine : SchedulingStateMachine α τ}
    (ready : ReadyInv active running machine) {after : SchedulingStateMachine α τ}
    {runningAfter : List τ} (counts : after.blockedUsageCount = machine.blockedUsageCount)
    (moved : List.Perm (runningAfter ++ after.unblockedTaskQueue)
      (running ++ machine.unblockedTaskQueue)) :
    ReadyInv active runningAfter after where
  ready task member := by
    rw [counts, moved.mem_iff]
    exact ready.ready task member
  readyActive task member := ready.readyActive task (moved.mem_iff.mp member)
  readyNodup := moved.nodup_iff.mpr ready.readyNodup

/-! ## The loop of `unlock_usage_queues` -/

namespace SchedulingStateMachine

/-- The machine after one iteration of `unlock_usage_queues` erases `holder` from the requests
`requests` of `address`: each task let in loses one blocked usage, and those left with none
join the unblocked-task queue. -/
def afterRelease (machine : SchedulingStateMachine α τ) (address : α)
    (requests : List (RequestedUsage × τ)) (holder : RequestedUsage × τ) :
    SchedulingStateMachine α τ :=
  { machine with
    usageQueues := Function.update machine.usageQueues address (encodeQueue (requests.erase holder))
    blockedUsageCount := fun task =>
      if task ∈ releasedTasks requests then machine.blockedUsageCount task - 1
      else machine.blockedUsageCount task
    unblockedTaskQueue := machine.unblockedTaskQueue ++
      (releasedTasks requests).filter fun task => machine.blockedUsageCount task == 1 }

end SchedulingStateMachine

section Release

variable {lockContexts : τ → List (LockContext α)} {active running : List τ}
  {machine : SchedulingStateMachine α τ} {task : τ}

/-- One iteration of `unlock_usage_queues`, on a task that waits for nothing. -/
theorem LockInv.unlockUsageQueue (inv : LockInv lockContexts active machine)
    (inActive : task ∈ active) (unblocked : machine.blockedUsageCount task = 0)
    {context : LockContext α} (mine : context ∈ lockContexts task) :
    machine.unlockUsageQueue context = some (machine.afterRelease context.address
      (requestsAt lockContexts active context.address) (context.requestedUsage, task)) := by
  have granted := inv.granted_of_blockedUsageCount_eq_zero inActive unblocked mine
  have distinctReleased : ((releasedTo readonlyUsage
      (requestsAt lockContexts active context.address)).map Prod.snd).Nodup :=
    releasedTasks_nodup (inv.requests_nodup _)
  have blocked : ∀ other ∈ (releasedTo readonlyUsage
      (requestsAt lockContexts active context.address)).map Prod.snd,
      machine.blockedUsageCount other ≠ 0 := fun other released =>
    (inv.blockedUsageCount_ne_zero (mem_waitingTasks_of_mem_releasedTasks released)).2
  rw [SchedulingStateMachine.unlockUsageQueue_encodeQueue (inv.usageQueues _) granted,
    SchedulingStateMachine.unblockTasks_of_blocked distinctReleased machine blocked]
  rfl

/-- After one iteration of `unlock_usage_queues`, the released task has one lock context
fewer. -/
theorem LockInv.afterRelease {context : LockContext α} {rest : List (LockContext α)}
    (inv : LockInv (Function.update lockContexts task (context :: rest)) active machine)
    (inActive : task ∈ active) (unblocked : machine.blockedUsageCount task = 0) :
    LockInv (Function.update lockContexts task rest) active (machine.afterRelease context.address
      (requestsAt (Function.update lockContexts task (context :: rest)) active context.address)
      (context.requestedUsage, task)) := by
  set before := requestsAt (Function.update lockContexts task (context :: rest)) active
    with beforeEq
  have mine : context ∈ Function.update lockContexts task (context :: rest) task := by simp
  have distinctHere : DistinctAddresses (context :: rest) := by
    simpa using inv.distinct task inActive
  have granted := inv.granted_of_blockedUsageCount_eq_zero inActive unblocked mine
  have after := requestsAt_update_cons lockContexts inv.activeNodup inActive
    distinctHere
  rw [← beforeEq] at after
  -- The released task waits nowhere, so it is not let in anywhere.
  have notWaiting : ∀ other ∈ context :: rest, task ∉ waitingTasks (before other.address) := by
    rw [inv.blockedUsageCount task inActive] at unblocked
    simpa using waitCount_eq_zero.mp unblocked
  have notReleased : task ∉ releasedTasks (before context.address) := fun released =>
    notWaiting context List.mem_cons_self (mem_waitingTasks_of_mem_releasedTasks released)
  refine ⟨?_, ?_, ?_, inv.activeNodup, ?_⟩
  · intro address
    by_cases here : address = context.address
    · subst here
      simp [SchedulingStateMachine.afterRelease, after]
    · simp [SchedulingStateMachine.afterRelease, after, Function.update_of_ne here,
        inv.usageQueues address, beforeEq]
  · intro other member
    by_cases same : other = task
    · subst same
      have restClear : waitCount (requestsAt (Function.update lockContexts other rest) active) rest
          other = 0 := by
        apply waitCount_eq_zero.mpr
        intro later laterMember
        have differ : later.address ≠ context.address := fun here =>
          (List.nodup_cons.mp distinctHere).1 (here ▸ List.mem_map_of_mem laterMember)
        rw [after, Function.update_of_ne differ]
        exact notWaiting later (List.mem_cons_of_mem _ laterMember)
      simp [SchedulingStateMachine.afterRelease, notReleased, unblocked, restClear]
    · have ownContexts : ∀ remaining, Function.update lockContexts task remaining other =
          lockContexts other := fun remaining => Function.update_of_ne same _ _
      have counted := inv.blockedUsageCount other member
      rw [ownContexts, ← beforeEq] at counted
      rw [ownContexts, after]
      by_cases released : other ∈ releasedTasks (before context.address)
      · -- `other` waited at this address and does not any more: one blocked usage fewer.
        have waited := mem_waitingTasks_of_mem_releasedTasks released
        have stopped : other ∉ waitingTasks ((before context.address).erase
            (context.requestedUsage, task)) := fun still =>
          ((mem_waitingTasks_erase (inv.requests_nodup _) granted other).mp still).2 released
        obtain ⟨usage, request⟩ := mem_of_mem_waitingTasks waited
        obtain ⟨_, _, otherContext, otherMine, here, same⟩ := mem_requestsAt.mp request
        simp only [Prod.mk.injEq] at same
        obtain ⟨-, rfl⟩ := same
        rw [ownContexts] at otherMine
        have present : context.address ∈ (lockContexts other).map LockContext.address :=
          here ▸ List.mem_map_of_mem otherMine
        have fewer := waitCount_update_of_released
          (by simpa [ownContexts] using inv.distinct _ member) present waited stopped
        simp only [SchedulingStateMachine.afterRelease, released, if_true]
        omega
      · have same : waitCount (Function.update before context.address
            ((before context.address).erase (context.requestedUsage, task))) (lockContexts other)
            other = waitCount before (lockContexts other) other := by
          apply waitCount_congr
          intro otherContext _
          by_cases here : otherContext.address = context.address
          · rw [here, Function.update_self,
              mem_waitingTasks_erase (inv.requests_nodup _) granted other]
            exact ⟨fun both => both.1, fun waiting => ⟨waiting, released⟩⟩
          · rw [Function.update_of_ne here]
        simp [SchedulingStateMachine.afterRelease, released, same, counted]
  · intro other absent
    have notReleased : other ∉ releasedTasks (before context.address) := fun released =>
      absent (inv.blockedUsageCount_ne_zero (mem_waitingTasks_of_mem_releasedTasks released)).1
    simp [SchedulingStateMachine.afterRelease, notReleased, inv.inactive other absent]
  · intro other member
    by_cases same : other = task
    · subst same
      simpa [DistinctAddresses] using (List.nodup_cons.mp distinctHere).2
    · simpa [Function.update_of_ne same] using inv.distinct other member

/-- After one iteration of `unlock_usage_queues`, the tasks it let in that wait for nothing
more are queued. -/
theorem ReadyInv.afterRelease (ready : ReadyInv active running machine)
    (inv : LockInv lockContexts active machine) (address : α) (holder : RequestedUsage × τ) :
    ReadyInv active running
      (machine.afterRelease address (requestsAt lockContexts active address) holder) := by
  have blocked : ∀ other ∈ releasedTasks (requestsAt lockContexts active address),
      other ∈ active ∧ machine.blockedUsageCount other ≠ 0 := fun other released =>
    inv.blockedUsageCount_ne_zero (mem_waitingTasks_of_mem_releasedTasks released)
  have notReady : ∀ other ∈ releasedTasks (requestsAt lockContexts active address),
      other ∉ running ++ machine.unblockedTaskQueue := fun other released =>
    (ready.ready other (blocked other released).1).not.mp (blocked other released).2
  refine ⟨?_, ?_, ?_⟩
  · intro other member
    by_cases released : other ∈ releasedTasks (requestsAt lockContexts active address)
    · have positive := (blocked other released).2
      have notBefore := notReady other released
      simp only [List.mem_append, not_or] at notBefore
      simp only [SchedulingStateMachine.afterRelease, released, if_true, List.mem_append,
        List.mem_filter, notBefore, true_and, false_or, beq_iff_eq]
      omega
    · simpa [SchedulingStateMachine.afterRelease, released] using ready.ready other member
  · intro other member
    simp only [SchedulingStateMachine.afterRelease, ← List.append_assoc, List.mem_append,
      List.mem_filter] at member
    rcases member with old | ⟨released, -⟩
    · exact ready.readyActive other (List.mem_append.mpr old)
    · exact (blocked other released).1
  · simp only [SchedulingStateMachine.afterRelease, ← List.append_assoc]
    refine List.nodup_append.mpr ⟨ready.readyNodup,
      (releasedTasks_nodup (inv.requests_nodup _)).filter _, ?_⟩
    intro other old newcomer newlyQueued same
    rw [List.mem_filter] at newlyQueued
    exact notReady newcomer newlyQueued.1 (same ▸ old)

/-- The whole loop of `unlock_usage_queues` on a running task: it never panics, and leaves the
task with no request anywhere. -/
theorem unlockUsageQueuesFrom_inv (isRunning : task ∈ running)
    (remaining : List (LockContext α)) :
    ∀ machine, LockInv (Function.update lockContexts task remaining) active machine →
      ReadyInv active running machine →
      ∃ after, SchedulingStateMachine.unlockUsageQueuesFrom remaining machine = some after ∧
        LockInv (Function.update lockContexts task []) active after ∧
        ReadyInv active running after := by
  induction remaining with
  | nil =>
      intro machine inv ready
      exact ⟨machine, rfl, inv, ready⟩
  | cons context rest ih =>
      intro machine inv ready
      have inActive := ready.readyActive task (List.mem_append_left _ isRunning)
      have unblocked := (ready.ready task inActive).mpr (List.mem_append_left _ isRunning)
      have mine : context ∈ Function.update lockContexts task (context :: rest) task := by simp
      obtain ⟨after, loop, afterInv, afterReady⟩ :=
        ih _ (inv.afterRelease inActive unblocked) (ready.afterRelease inv _ _)
      refine ⟨after, ?_, afterInv, afterReady⟩
      simp only [SchedulingStateMachine.unlockUsageQueuesFrom,
        inv.unlockUsageQueue inActive unblocked mine, loop]

/-- Once the loop is over, the task has left the active ones. -/
theorem LockInv.erase (inv : LockInv (Function.update lockContexts task []) active machine)
    (inActive : task ∈ active) : LockInv lockContexts (active.erase task) machine := by
  have requests := requestsAt_update_nil lockContexts inv.activeNodup inActive
  refine ⟨?_, ?_, ?_, inv.activeNodup.erase task, ?_⟩
  · intro address
    rw [inv.usageQueues address, requests]
  · intro other member
    have differ : other ≠ task := fun same =>
      (inv.activeNodup.mem_erase_iff.mp member).1 same
    rw [inv.blockedUsageCount other (List.mem_of_mem_erase member), requests,
      Function.update_of_ne differ]
  · intro other absent
    by_cases same : other = task
    · subst same
      rw [inv.blockedUsageCount other inActive]
      simp [waitCount]
    · exact inv.inactive other fun member => absent ((List.mem_erase_of_ne same).mpr member)
  · intro other member
    have differ : other ≠ task := fun same =>
      (inv.activeNodup.mem_erase_iff.mp member).1 same
    simpa [Function.update_of_ne differ] using
      inv.distinct other (List.mem_of_mem_erase member)

omit [DecidableEq α] in
/-- Once the loop is over, the descheduled task has left the running ones. -/
theorem ReadyInv.erase (ready : ReadyInv active running machine) (distinctTasks : active.Nodup)
    (isRunning : task ∈ running) :
    ReadyInv (active.erase task) (running.erase task) machine := by
  have runningDistinct : running.Nodup := (List.nodup_append.mp ready.readyNodup).1
  have notQueued : task ∉ machine.unblockedTaskQueue := fun queued =>
    (List.nodup_append.mp ready.readyNodup).2.2 task isRunning task queued rfl
  refine ⟨?_, ?_, ?_⟩
  · intro other member
    have differ : other ≠ task := fun same => (distinctTasks.mem_erase_iff.mp member).1 same
    rw [ready.ready other (List.mem_of_mem_erase member)]
    simp [List.mem_erase_of_ne differ]
  · intro other member
    have differ : other ≠ task := by
      rcases List.mem_append.mp member with erased | queued
      · exact (runningDistinct.mem_erase_iff.mp erased).1
      · exact fun same => notQueued (same ▸ queued)
    have wasReady : other ∈ running ++ machine.unblockedTaskQueue := by
      rcases List.mem_append.mp member with erased | queued
      · exact List.mem_append_left _ (List.mem_of_mem_erase erased)
      · exact List.mem_append_right _ queued
    exact (List.mem_erase_of_ne differ).mpr (ready.readyActive other wasReady)
  · exact ready.readyNodup.sublist ((List.erase_sublist).append_right _)

end Release

end Validator.UnifiedScheduler
