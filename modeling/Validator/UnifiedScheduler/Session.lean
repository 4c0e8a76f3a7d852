import Validator.Data.Trace
import Validator.UnifiedScheduler.Invariant

namespace Validator.UnifiedScheduler

open Validator.Data

/-! # Sessions of the scheduling state machine

The state machine is driven by one scheduler thread, which submits tasks
(`schedule_or_buffer_task`, of which `schedule_task` and `buffer_task` are the two cases),
takes buffered tasks that became runnable (`schedule_next_unblocked_task`) and deschedules the
tasks its handlers finished (`deschedule_task`).  A `Session` pairs the machine with what the
scheduler thread knows: the tasks it submitted, the ones it descheduled, and the ones it got
back as runnable and still runs.

`Step` allows the calls the scheduler's documentation allows: a task is submitted once, its
account keys are distinct, and only a running task is descheduled.  Every such call succeeds
(`Inv.scheduleOrBufferTask`, `Inv.descheduleTask`), and `Inv` holds in every reachable session.
-/

/-- The calls of the scheduler thread on the state machine. -/
inductive Call (τ : Type) where
  | scheduleOrBufferTask (task : τ) (forceBuffering : Bool)
  | scheduleNextUnblockedTask
  | descheduleTask (task : τ)
deriving DecidableEq, Repr

/-- A call, with the task it returned as runnable. -/
structure Event (τ : Type) where
  call : Call τ
  returned : Option τ
deriving DecidableEq, Repr

/-- The state machine with what its caller knows. -/
structure Session (α τ : Type) where
  machine : SchedulingStateMachine α τ
  /-- Every task passed to `schedule_or_buffer_task`, in order. -/
  submitted : List τ
  descheduled : List τ
  /-- The tasks returned as runnable and not yet descheduled. -/
  running : List τ

variable {α τ : Type} [DecidableEq τ]

namespace Session

/-- The tasks submitted and not descheduled, in submission order. -/
def active (session : Session α τ) : List τ :=
  session.submitted.filter fun task => task ∉ session.descheduled

/-- The session of a machine just created. -/
def initial (machine : SchedulingStateMachine α τ) : Session α τ :=
  ⟨machine, [], [], []⟩

theorem active_sublist (session : Session α τ) :
    List.Sublist session.active session.submitted :=
  List.filter_sublist

theorem mem_active {session : Session α τ} {task : τ} :
    task ∈ session.active ↔ task ∈ session.submitted ∧ task ∉ session.descheduled := by
  simp [active]

theorem active_append_submitted {session : Session α τ} {task : τ}
    (fresh : task ∉ session.submitted)
    (descheduledSubmitted : ∀ task ∈ session.descheduled, task ∈ session.submitted)
    (machine : SchedulingStateMachine α τ) (running : List τ) :
    active ⟨machine, session.submitted ++ [task], session.descheduled, running⟩ =
      session.active ++ [task] := by
  have notDescheduled : task ∉ session.descheduled := fun member =>
    fresh (descheduledSubmitted task member)
  simp [active, List.filter_append, notDescheduled]

theorem active_append_descheduled {session : Session α τ} {task : τ}
    (submittedNodup : session.submitted.Nodup) (machine : SchedulingStateMachine α τ)
    (running : List τ) :
    active ⟨machine, session.submitted, session.descheduled ++ [task], running⟩ =
      session.active.erase task := by
  simp only [active]
  rw [(submittedNodup.filter _).erase_eq_filter, List.filter_filter]
  apply List.filter_congr
  intro other _
  by_cases same : other = task <;> simp [same]

end Session

variable [DecidableEq α] (lockContexts : τ → List (LockContext α))

/-- The calls the scheduler thread may make, and what they do. -/
inductive Step : Session α τ → Event τ → Session α τ → Prop
  | scheduleOrBufferTask {session : Session α τ} {task : τ} {forceBuffering : Bool}
      {machine : SchedulingStateMachine α τ} {returned : Option τ}
      (fresh : task ∉ session.submitted) (distinct : DistinctAddresses (lockContexts task))
      (scheduled : session.machine.scheduleOrBufferTask lockContexts task forceBuffering =
        some (machine, returned)) :
      Step session ⟨.scheduleOrBufferTask task forceBuffering, returned⟩
        ⟨machine, session.submitted ++ [task], session.descheduled,
          session.running ++ returned.toList⟩
  | scheduleNextUnblockedTask (session : Session α τ) :
      Step session ⟨.scheduleNextUnblockedTask, session.machine.scheduleNextUnblockedTask.2⟩
        ⟨session.machine.scheduleNextUnblockedTask.1, session.submitted, session.descheduled,
          session.running ++ session.machine.scheduleNextUnblockedTask.2.toList⟩
  | descheduleTask {session : Session α τ} {task : τ} {machine : SchedulingStateMachine α τ}
      (isRunning : task ∈ session.running)
      (descheduled : session.machine.descheduleTask lockContexts task = some machine) :
      Step session ⟨.descheduleTask task, none⟩
        ⟨machine, session.submitted, session.descheduled ++ [task], session.running.erase task⟩

/-- What holds in every reachable session. -/
structure Inv (session : Session α τ) : Prop where
  lock : LockInv lockContexts session.active session.machine
  ready : ReadyInv session.active session.running session.machine
  submittedNodup : session.submitted.Nodup
  descheduledSubmitted : ∀ task ∈ session.descheduled, task ∈ session.submitted
  activeTaskCount : session.machine.activeTaskCount = session.active.length
  runningTaskCount : session.machine.runningTaskCount = session.running.length

variable {lockContexts}

/-! ## The initial session -/

theorem exclusivelyInitializeCurrentThreadForScheduling_inv
    {maxRunningTaskCount : Option Nat} {machine : SchedulingStateMachine α τ}
    (created : SchedulingStateMachine.exclusivelyInitializeCurrentThreadForScheduling
      maxRunningTaskCount = some machine) :
    Inv lockContexts (Session.initial machine) := by
  unfold SchedulingStateMachine.exclusivelyInitializeCurrentThreadForScheduling at created
  dsimp only at created
  split at created
  · cases created
    refine ⟨⟨?_, ?_, ?_, ?_, ?_⟩, ⟨?_, ?_, ?_⟩, ?_, ?_, ?_, ?_⟩ <;>
      simp [Session.initial, Session.active, UsageQueueInner.default]
  · contradiction

/-! ## Each call keeps the invariant -/

/-- `schedule_or_buffer_task` on a new task with distinct addresses never panics, and the task
becomes active: running if it holds all its addresses and may run, queued if it holds them
but is buffered, and waiting otherwise. -/
theorem Inv.scheduleOrBufferTask {session : Session α τ} (inv : Inv lockContexts session)
    {task : τ} (fresh : task ∉ session.submitted)
    (distinct : DistinctAddresses (lockContexts task)) (forceBuffering : Bool) :
    ∃ machine returned,
      session.machine.scheduleOrBufferTask lockContexts task forceBuffering =
        some (machine, returned) ∧
      Inv lockContexts ⟨machine, session.submitted ++ [task], session.descheduled,
        session.running ++ returned.toList⟩ := by
  have notActive : task ∉ session.active := fun member =>
    fresh (Session.mem_active.mp member).1
  have active := Session.active_append_submitted fresh inv.descheduledSubmitted
  have submittedNodup : (session.submitted ++ [task]).Nodup :=
    List.nodup_append.mpr ⟨inv.submittedNodup, List.nodup_singleton task,
      fun other member newTask single same => by
        rw [List.mem_singleton.mp single] at same
        exact fresh (same ▸ member)⟩
  have descheduledSubmitted : ∀ other ∈ session.descheduled,
      other ∈ session.submitted ++ [task] := fun other member =>
    List.mem_append_left _ (inv.descheduledSubmitted other member)
  have counts : ∀ other ∈ session.active, Function.update session.machine.blockedUsageCount task
      (waitCount (requestsAt lockContexts (session.active ++ [task])) (lockContexts task) task)
      other = session.machine.blockedUsageCount other := fun other member =>
    Function.update_of_ne (fun (same : other = task) => notActive (same ▸ member)) _ _
  obtain ⟨machine, submitted, descheduled, running⟩ := session
  simp only at *
  have activeCount : machine.activeTaskCount =
      (Session.active ⟨machine, submitted, descheduled, running⟩).length := inv.activeTaskCount
  have runningCount : machine.runningTaskCount = running.length := inv.runningTaskCount
  -- The counters bumped first are not read by the invariants.
  have locked : LockInv lockContexts (Session.active ⟨machine, submitted, descheduled, running⟩)
      { machine with
        totalTaskCount := ShortCounter.increment machine.totalTaskCount,
        activeTaskCount := ShortCounter.increment machine.activeTaskCount } :=
    inv.lock.congr rfl rfl
  have arrived := locked.append notActive distinct
  simp only [SchedulingStateMachine.scheduleOrBufferTask, locked.tryLockUsageQueues notActive distinct]
  by_cases unblocked : waitCount (requestsAt lockContexts
      (Session.active ⟨machine, submitted, descheduled, running⟩ ++ [task])) (lockContexts task)
      task = 0
  · simp only [if_pos unblocked]
    split
    · -- Buffered: the task waits in the unblocked-task queue.
      refine ⟨_, none, rfl, ⟨?_, ?_, submittedNodup, descheduledSubmitted, ?_, ?_⟩⟩
      · rw [active]
        exact arrived.congr rfl rfl
      · rw [active]
        apply inv.ready.append notActive counts
        simp [unblocked]
      · simp [active, activeCount, ShortCounter.increment]
      · simp [runningCount]
    · -- Runnable: the task is returned and runs.
      refine ⟨_, some task, rfl, ⟨?_, ?_, submittedNodup, descheduledSubmitted, ?_, ?_⟩⟩
      · rw [active]
        exact arrived.congr rfl rfl
      · rw [active]
        apply inv.ready.append notActive counts
        simp only [Function.update_self, unblocked, if_true, Option.toList_some]
        rw [List.append_assoc, List.append_assoc]
        exact (List.perm_append_comm).append_left _
      · simp [active, activeCount, ShortCounter.increment]
      · simp [runningCount, ShortCounter.increment]
  · -- Blocked: the task waits for some of its addresses.
    simp only [if_neg unblocked]
    refine ⟨_, none, rfl, ⟨?_, ?_, submittedNodup, descheduledSubmitted, ?_, ?_⟩⟩
    · rw [active]
      exact arrived
    · rw [active]
      apply inv.ready.append notActive counts
      simp [unblocked]
    · simp [active, activeCount, ShortCounter.increment]
    · simp [runningCount]

/-- `schedule_next_unblocked_task` moves the front of the queue to the running tasks, if the
machine may run one more. -/
theorem Inv.scheduleNextUnblockedTask {session : Session α τ} (inv : Inv lockContexts session) :
    Inv lockContexts ⟨session.machine.scheduleNextUnblockedTask.1, session.submitted,
      session.descheduled, session.running ++ session.machine.scheduleNextUnblockedTask.2.toList⟩ := by
  obtain ⟨machine, submitted, descheduled, running⟩ := session
  have runningCount : machine.runningTaskCount = running.length := inv.runningTaskCount
  unfold SchedulingStateMachine.scheduleNextUnblockedTask
  split
  · simpa using inv
  · split
    · simpa using inv
    · rename_i task rest queue
      have front : machine.unblockedTaskQueue = task :: rest := queue
      refine ⟨inv.lock.congr rfl rfl, inv.ready.perm rfl ?_, inv.submittedNodup,
        inv.descheduledSubmitted, inv.activeTaskCount, ?_⟩
      · simp [front]
      · simp [runningCount, ShortCounter.increment]

/-- `deschedule_task` on a running task never panics; the task leaves the active ones, and the
tasks waiting for its addresses are let in. -/
theorem Inv.descheduleTask {session : Session α τ} (inv : Inv lockContexts session) {task : τ}
    (isRunning : task ∈ session.running) :
    ∃ machine, session.machine.descheduleTask lockContexts task = some machine ∧
      Inv lockContexts ⟨machine, session.submitted, session.descheduled ++ [task],
        session.running.erase task⟩ := by
  have inActive : task ∈ session.active :=
    inv.ready.readyActive task (List.mem_append_left _ isRunning)
  have active : ∀ machine running, Session.active
      ⟨machine, session.submitted, session.descheduled ++ [task], running⟩ =
        session.active.erase task :=
    Session.active_append_descheduled inv.submittedNodup
  obtain ⟨machine, submitted, descheduled, running⟩ := session
  have activeCount : machine.activeTaskCount =
      (Session.active ⟨machine, submitted, descheduled, running⟩).length := inv.activeTaskCount
  have runningCount : machine.runningTaskCount = running.length := inv.runningTaskCount
  have activeNonzero : machine.activeTaskCount ≠ 0 := by
    rw [activeCount]
    exact List.length_pos_of_mem inActive |>.ne'
  have runningNonzero : machine.runningTaskCount ≠ 0 := by
    rw [runningCount]
    exact List.length_pos_of_mem isRunning |>.ne'
  set counted : SchedulingStateMachine α τ := { machine with
    runningTaskCount := machine.runningTaskCount - 1,
    activeTaskCount := machine.activeTaskCount - 1,
    handledTaskCount := ShortCounter.increment machine.handledTaskCount } with countedEq
  -- The loop starts with all the task's lock contexts and ends with none.
  have start : LockInv (Function.update lockContexts task (lockContexts task))
      (Session.active ⟨machine, submitted, descheduled, running⟩) counted := by
    rw [Function.update_eq_self]
    exact inv.lock.congr rfl rfl
  obtain ⟨after, loop, lockAfter, readyAfter⟩ :=
    unlockUsageQueuesFrom_inv isRunning (lockContexts task) counted start
      (inv.ready.perm rfl (List.Perm.refl _))
  have same := SchedulingStateMachine.unlockUsageQueuesFrom_sameTaskCounts loop
  refine ⟨after, ?_, ⟨?_, ?_, inv.submittedNodup, ?_, ?_, ?_⟩⟩
  · simp only [SchedulingStateMachine.descheduleTask, ShortCounter.decrement, activeNonzero,
      runningNonzero, if_false]
    exact loop
  · rw [active]
    exact lockAfter.erase inActive
  · rw [active]
    exact readyAfter.erase inv.lock.activeNodup isRunning
  · intro other member
    rcases List.mem_append.mp member with old | new
    · exact inv.descheduledSubmitted other old
    · rw [List.mem_singleton.mp new]
      exact (Session.mem_active.mp inActive).1
  · rw [active, same.1, List.length_erase_of_mem inActive, ← activeCount]
  · rw [same.2.1, List.length_erase_of_mem isRunning, ← runningCount]

/-- Every admissible call keeps the invariant. -/
theorem Inv.step {session next : Session α τ} {event : Event τ} (inv : Inv lockContexts session)
    (step : Step lockContexts session event next) : Inv lockContexts next := by
  cases step with
  | scheduleOrBufferTask fresh distinct scheduled =>
      obtain ⟨machine, returned, call, after⟩ := inv.scheduleOrBufferTask fresh distinct _
      rw [scheduled, Option.some.injEq, Prod.mk.injEq] at call
      obtain ⟨rfl, rfl⟩ := call
      exact after
  | scheduleNextUnblockedTask => exact inv.scheduleNextUnblockedTask
  | descheduleTask isRunning descheduled =>
      obtain ⟨machine, call, after⟩ := inv.descheduleTask isRunning
      rw [descheduled, Option.some.injEq] at call
      subst call
      exact after

/-- The invariant holds along every run from a machine just created. -/
theorem run_inv {maxRunningTaskCount : Option Nat} {initial : SchedulingStateMachine α τ}
    (created : SchedulingStateMachine.exclusivelyInitializeCurrentThreadForScheduling
      maxRunningTaskCount = some initial)
    {labels : List (Event τ)} {session : Session α τ}
    (run : Validator.Data.Run (Step lockContexts) (Session.initial initial) labels session) :
    Inv lockContexts session :=
  run.invariant (exclusivelyInitializeCurrentThreadForScheduling_inv created)
    fun _ _ _ inv step => inv.step step

/-- An admissible `schedule_or_buffer_task` never panics. -/
theorem Inv.scheduleOrBufferTask_step {session : Session α τ} (inv : Inv lockContexts session)
    {task : τ} (fresh : task ∉ session.submitted)
    (distinct : DistinctAddresses (lockContexts task)) (forceBuffering : Bool) :
    ∃ returned next,
      Step lockContexts session ⟨.scheduleOrBufferTask task forceBuffering, returned⟩ next := by
  obtain ⟨machine, returned, scheduled, -⟩ := inv.scheduleOrBufferTask fresh distinct forceBuffering
  exact ⟨returned, _, .scheduleOrBufferTask fresh distinct scheduled⟩

/-- An admissible `deschedule_task` never panics. -/
theorem Inv.descheduleTask_step {session : Session α τ} (inv : Inv lockContexts session)
    {task : τ} (isRunning : task ∈ session.running) :
    ∃ next, Step lockContexts session ⟨.descheduleTask task, none⟩ next := by
  obtain ⟨machine, descheduled, -⟩ := inv.descheduleTask isRunning
  exact ⟨_, .descheduleTask isRunning descheduled⟩

/-! ## What a run records -/

/-- The task a call submits. -/
def Event.scheduled (event : Event τ) : Option τ :=
  match event.call with
  | .scheduleOrBufferTask task _ => some task
  | _ => none

/-- The task a call deschedules. -/
def Event.descheduledTask (event : Event τ) : Option τ :=
  match event.call with
  | .descheduleTask task => some task
  | _ => none

theorem Step.submitted {session next : Session α τ} {event : Event τ}
    (step : Step lockContexts session event next) :
    next.submitted = session.submitted ++ event.scheduled.toList := by
  cases step <;> simp [Event.scheduled]

theorem Step.descheduled {session next : Session α τ} {event : Event τ}
    (step : Step lockContexts session event next) :
    next.descheduled = session.descheduled ++ event.descheduledTask.toList := by
  cases step <;> simp [Event.descheduledTask]

theorem Step.maxRunningTaskCount {session next : Session α τ} {event : Event τ}
    (step : Step lockContexts session event next) :
    next.machine.maxRunningTaskCount = session.machine.maxRunningTaskCount := by
  cases step with
  | scheduleOrBufferTask _ _ scheduled =>
      exact SchedulingStateMachine.scheduleOrBufferTask_maxRunningTaskCount lockContexts scheduled
  | scheduleNextUnblockedTask =>
      unfold SchedulingStateMachine.scheduleNextUnblockedTask
      split
      · rfl
      · split <;> rfl
  | descheduleTask _ descheduled =>
      exact (SchedulingStateMachine.descheduleTask_counts lockContexts descheduled).2.2

/-- A step that returns a task leaves it running. -/
theorem Step.mem_running_of_returned {session next : Session α τ} {event : Event τ} {task : τ}
    (step : Step lockContexts session event next) (returned : event.returned = some task) :
    task ∈ next.running := by
  cases step with
  | scheduleOrBufferTask =>
      simp only at returned
      simp [returned]
  | scheduleNextUnblockedTask =>
      simp only at returned
      simp [returned]
  | descheduleTask => simp at returned

/-- `deschedule_task` returns nothing. -/
theorem Step.returned_eq_none {session next : Session α τ} {event : Event τ} {task : τ}
    (step : Step lockContexts session event next) (descheduled : event.descheduledTask = some task) :
    event.returned = none := by
  cases step <;> simp_all [Event.descheduledTask]

theorem run_submitted {start finish : Session α τ} {labels : List (Event τ)}
    (run : Validator.Data.Run (Step lockContexts) start labels finish) :
    finish.submitted = start.submitted ++ labels.filterMap Event.scheduled := by
  induction run with
  | nil => simp
  | snoc _ last ih =>
      rw [last.submitted, ih]
      cases scheduled : Event.scheduled _ <;> simp [List.filterMap_append, scheduled]

theorem run_descheduled {start finish : Session α τ} {labels : List (Event τ)}
    (run : Validator.Data.Run (Step lockContexts) start labels finish) :
    finish.descheduled = start.descheduled ++ labels.filterMap Event.descheduledTask := by
  induction run with
  | nil => simp
  | snoc _ last ih =>
      rw [last.descheduled, ih]
      cases descheduled : Event.descheduledTask _ <;>
        simp [List.filterMap_append, descheduled]

end Validator.UnifiedScheduler
