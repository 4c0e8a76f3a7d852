import Mathlib.Data.Set.Card
import Validator.Data.ListOrder
import Validator.UnifiedScheduler.Session

namespace Validator.UnifiedScheduler

open Validator.Data

/-! # What the scheduler guarantees its caller

Over every session driven as `Step` allows, from a machine just created:

* no two running tasks conflict, and each address's `current_usage` describes exactly the
  requests that hold it;
* a task never runs while an earlier task it conflicts with is still active, so conflicting
  tasks run in submission order;
* the counters agree with the queues, the machine is never stuck, and
  `clear_and_reinitialize` clears every task without panicking.

Each rests on one fact about the invariant: a running or queued task holds all its addresses,
and the holders of an address are the longest compatible prefix of its requests in submission
order.
-/

variable {α τ : Type} [DecidableEq α] [DecidableEq τ] {lockContexts : τ → List (LockContext α)}

/-- Two tasks conflict when they name a common address and one of them writes it. -/
def Conflicting (lockContexts : τ → List (LockContext α)) (first second : τ) : Prop :=
  ∃ firstContext ∈ lockContexts first, ∃ secondContext ∈ lockContexts second,
    firstContext.address = secondContext.address ∧
      (firstContext.requestedUsage = .writable ∨ secondContext.requestedUsage = .writable)

instance (lockContexts : τ → List (LockContext α)) (first second : τ) :
    Decidable (Conflicting lockContexts first second) :=
  inferInstanceAs (Decidable (∃ firstContext ∈ lockContexts first, _))

/-- The requests that hold `address`: those of the active tasks that do not wait in its
queue. -/
def lockHolders (lockContexts : τ → List (LockContext α)) (session : Session α τ)
    (address : α) : List (RequestedUsage × τ) :=
  (requestsAt lockContexts session.active address).filter fun request =>
    request ∉ (session.machine.usageQueues address).blockedUsagesFromTasks

namespace Inv

variable {session : Session α τ}

theorem requests_nodup (inv : Inv lockContexts session) (address : α) :
    (requestsAt lockContexts session.active address).Nodup :=
  (inv.lock.requests_nodup address).of_map Prod.snd

/-- The lock holders of an address are the granted prefix of its requests. -/
theorem lockHolders_eq (inv : Inv lockContexts session) (address : α) :
    lockHolders lockContexts session address =
      grantedPrefix readonlyUsage (requestsAt lockContexts session.active address) := by
  unfold lockHolders
  rw [inv.lock.usageQueues address]
  exact filter_not_mem_waitingSuffix (inv.requests_nodup address)

/-- A running task holds each of its addresses. -/
theorem granted_of_running (inv : Inv lockContexts session) {task : τ}
    (isRunning : task ∈ session.running) {context : LockContext α}
    (mine : context ∈ lockContexts task) :
    (context.requestedUsage, task) ∈
      grantedPrefix readonlyUsage (requestsAt lockContexts session.active context.address) := by
  have inActive := inv.ready.readyActive task (List.mem_append_left _ isRunning)
  have unblocked := (inv.ready.ready task inActive).mpr (List.mem_append_left _ isRunning)
  exact inv.lock.granted_of_blockedUsageCount_eq_zero inActive unblocked mine

end Inv

omit [DecidableEq τ] in
/-- Two different holders of one address both read it. -/
theorem readonly_of_mem_grantedPrefix {requests : List (RequestedUsage × τ)}
    {first second : RequestedUsage × τ} (firstGranted : first ∈ grantedPrefix readonlyUsage requests)
    (secondGranted : second ∈ grantedPrefix readonlyUsage requests) (differ : first ≠ second) :
    first.1 = .readonly ∧ second.1 = .readonly := by
  have several : 2 ≤ (grantedPrefix readonlyUsage requests).length := by
    apply two_le_length_of_mem_of_ne_singleton firstGranted
    intro sole
    rw [sole, List.mem_singleton] at secondGranted
    exact differ secondGranted.symm
  rcases grantedPrefix_compatible requests with reads | short
  · exact ⟨readonlyUsage_eq_true.mp (reads first firstGranted),
      readonlyUsage_eq_true.mp (reads second secondGranted)⟩
  · omega

/-- Mutual exclusion: no two running tasks conflict, and each address's `current_usage` is a
write exactly when one writer holds it, and a count of readers exactly when that many readers,
and nobody else, hold it. -/
theorem running_tasks_exclusive {maxRunningTaskCount : Option Nat}
    {initial : SchedulingStateMachine α τ}
    (created : SchedulingStateMachine.exclusivelyInitializeCurrentThreadForScheduling
      maxRunningTaskCount = some initial)
    {session : Session α τ}
    (reachable : Reachable (Step lockContexts) (Session.initial initial) session) :
    (∀ first ∈ session.running, ∀ second ∈ session.running, first ≠ second →
      ¬ Conflicting lockContexts first second) ∧
    ∀ address,
      ((session.machine.usageQueues address).currentUsage = none ↔
        lockHolders lockContexts session address = []) ∧
      ((session.machine.usageQueues address).currentUsage = some .writable ↔
        ∃ task, lockHolders lockContexts session address = [(.writable, task)]) ∧
      ∀ count, (session.machine.usageQueues address).currentUsage = some (.readonly count) ↔
        lockHolders lockContexts session address ≠ [] ∧
        (∀ holder ∈ lockHolders lockContexts session address, holder.1 = .readonly) ∧
        count = (lockHolders lockContexts session address).length := by
  obtain ⟨labels, run⟩ := reachable
  have inv := run_inv created run
  refine ⟨?_, ?_⟩
  · rintro first firstRunning second secondRunning differ
      ⟨firstContext, firstMine, secondContext, secondMine, same, writes⟩
    have firstGranted := inv.granted_of_running firstRunning firstMine
    have secondGranted := inv.granted_of_running secondRunning secondMine
    rw [same] at firstGranted
    have reads := readonly_of_mem_grantedPrefix firstGranted secondGranted
      (fun equal => differ (Prod.mk.inj equal).2)
    rcases writes with write | write
    · simp [write] at reads
    · simp [write] at reads
  · intro address
    have usage : (session.machine.usageQueues address).currentUsage =
        usageOfGranted (lockHolders lockContexts session address) := by
      rw [inv.lockHolders_eq, inv.lock.usageQueues address]
      rfl
    have compatible : Compatible readonlyUsage (lockHolders lockContexts session address) := by
      rw [inv.lockHolders_eq]
      exact grantedPrefix_compatible _
    rw [usage]
    exact ⟨usageOfGranted_eq_none_iff, usageOfGranted_eq_writable_iff compatible,
      usageOfGranted_eq_readonly_iff compatible⟩

/-- One writer scheduled on address `0` holds it alone, and `current_usage` says so. -/
theorem running_tasks_exclusive_one_writer :
    ∃ initial session,
      SchedulingStateMachine.exclusivelyInitializeCurrentThreadForScheduling none = some initial ∧
      Run (Step fun task : Nat => createTask [(0 : Nat)] fun _ => task == 1)
        (Session.initial initial) [⟨.scheduleOrBufferTask 1 false, some 1⟩] session ∧
      ((session.machine.usageQueues 0).currentUsage = some .writable ↔
        ∃ task, lockHolders (fun task : Nat => createTask [(0 : Nat)] fun _ => task == 1)
          session 0 = [(.writable, task)]) := by
  let creation : Option (SchedulingStateMachine Nat Nat) :=
    SchedulingStateMachine.exclusivelyInitializeCurrentThreadForScheduling none
  have created : creation = some (creation.get rfl) := rfl
  have run : Run (Step fun task : Nat => createTask [(0 : Nat)] fun _ => task == 1)
      (Session.initial (creation.get rfl)) [⟨.scheduleOrBufferTask 1 false, some 1⟩] _ :=
    Run.single (Step.scheduleOrBufferTask List.not_mem_nil (by decide) rfl)
  exact ⟨_, _, created, run, ((running_tasks_exclusive created run.reachable).2 0).2.1⟩

/-- A running task has no conflicting task before it among the active ones. -/
theorem Inv.not_conflicting_of_sublist {session : Session α τ} (inv : Inv lockContexts session)
    {first second : τ} (before : List.Sublist [first, second] session.active)
    (isRunning : second ∈ session.running) : ¬ Conflicting lockContexts first second := by
  rintro ⟨firstContext, firstMine, secondContext, secondMine, same, writes⟩
  have differ : first ≠ second := by
    intro equal
    have distinct := inv.lock.activeNodup.sublist before
    simp [equal] at distinct
  -- At the shared address, the request of `first` comes before that of `second`.
  have order : List.Sublist
      [(firstContext.requestedUsage, first), (secondContext.requestedUsage, second)]
      (requestsAt lockContexts session.active secondContext.address) := by
    have pair := before.flatMap fun task =>
      requestsOf (lockContexts task) task secondContext.address
    have firstRequest : (firstContext.requestedUsage, first) ∈
        requestsOf (lockContexts first) first secondContext.address :=
      mem_requestsOf.mpr ⟨firstContext, firstMine, same, rfl⟩
    have secondRequest : (secondContext.requestedUsage, second) ∈
        requestsOf (lockContexts second) second secondContext.address :=
      mem_requestsOf.mpr ⟨secondContext, secondMine, rfl, rfl⟩
    simp only [List.flatMap_cons, List.flatMap_nil, List.append_nil] at pair
    exact ((List.singleton_sublist.mpr firstRequest).append
      (List.singleton_sublist.mpr secondRequest)).trans pair
  have secondGranted := inv.granted_of_running isRunning secondMine
  have firstGranted := mem_grantedPrefix_of_before (inv.requests_nodup _) order secondGranted
  have reads := readonly_of_mem_grantedPrefix firstGranted secondGranted
    (fun equal => differ (Prod.mk.inj equal).2)
  rcases writes with write | write <;> simp [write] at reads

/-- Submission order: when two conflicting tasks are submitted in this order, the later one is
returned as runnable only after the earlier one was descheduled. -/
theorem conflicting_tasks_run_in_submission_order {maxRunningTaskCount : Option Nat}
    {initial : SchedulingStateMachine α τ}
    (created : SchedulingStateMachine.exclusivelyInitializeCurrentThreadForScheduling
      maxRunningTaskCount = some initial)
    {labels : List (Event τ)} {session : Session α τ}
    (run : Run (Step lockContexts) (Session.initial initial) labels session)
    {first second : τ} (conflicting : Conflicting lockContexts first second)
    {firstIndex secondIndex returnIndex : Nat} (earlier : firstIndex < secondIndex)
    (firstSubmitted : labels[firstIndex]?.bind Event.scheduled = some first)
    (secondSubmitted : labels[secondIndex]?.bind Event.scheduled = some second)
    (secondReturned : labels[returnIndex]?.bind Event.returned = some second) :
    ∃ descheduleIndex < returnIndex,
      labels[descheduleIndex]?.bind Event.descheduledTask = some first := by
  -- The session right after the call that returns `second`.
  obtain ⟨returnEvent, returnFound, returnedSecond⟩ := Option.bind_eq_some_iff.mp secondReturned
  obtain ⟨bound, rfl⟩ := List.getElem?_eq_some_iff.mp returnFound
  obtain ⟨before, after, toBefore, step, -⟩ := run.step_at returnIndex bound
  have toAfter : Run (Step lockContexts) (Session.initial initial)
      (labels.take (returnIndex + 1)) after := by
    rw [← List.take_concat_get' labels returnIndex bound]
    exact toBefore.snoc step
  have inv := run_inv created toAfter
  have secondRunning := step.mem_running_of_returned returnedSecond
  have secondActive := inv.ready.readyActive second (List.mem_append_left _ secondRunning)
  have submittedAfter := run_submitted toAfter
  simp only [Session.initial, List.nil_append] at submittedAfter
  -- `first` was submitted before `second`, so before that call too.
  have orderAfter : List.Sublist [first, second] after.submitted := by
    have submittedFinal := run_submitted run
    simp only [Session.initial, List.nil_append] at submittedFinal
    rw [submittedAfter]
    apply pair_sublist_of_isPrefix ((List.take_prefix _ _).filterMap _)
    · rw [← submittedFinal]
      exact (run_inv created run).submittedNodup
    · exact pair_sublist_filterMap_of_lt Event.scheduled earlier firstSubmitted secondSubmitted
    · rw [← submittedAfter]
      exact (Session.mem_active.mp secondActive).1
  -- If `first` were still active, it would come before the running `second` among the active.
  have firstDescheduled : first ∈ after.descheduled := by
    by_contra notDescheduled
    have activeOrder : List.Sublist [first, second] after.active := by
      have filtered := orderAfter.filter fun task => task ∉ after.descheduled
      rw [List.filter_cons_of_pos (by simpa using notDescheduled),
        List.filter_cons_of_pos (by simpa using (Session.mem_active.mp secondActive).2),
        List.filter_nil] at filtered
      exact filtered
    exact inv.not_conflicting_of_sublist activeOrder secondRunning conflicting
  have descheduledAfter := run_descheduled toAfter
  simp only [Session.initial, List.nil_append] at descheduledAfter
  rw [descheduledAfter, List.mem_filterMap] at firstDescheduled
  obtain ⟨event, taken, descheduledFirst⟩ := firstDescheduled
  obtain ⟨index, indexBound, found⟩ := List.mem_iff_getElem.mp taken
  rw [List.getElem_take] at found
  have notLast : index ≠ returnIndex := by
    rintro rfl
    have nothing := step.returned_eq_none (by rw [found]; exact descheduledFirst)
    rw [found] at returnedSecond nothing
    rw [returnedSecond] at nothing
    contradiction
  refine ⟨index, ?_, ?_⟩
  · simp at indexBound
    omega
  · rw [List.getElem?_eq_getElem (by simp at indexBound; omega), found]
    exact descheduledFirst

/-- Task `1` writes address `0` and task `2` reads it: `2` runs only after `1` was
descheduled. -/
theorem conflicting_tasks_run_in_submission_order_writer_reader :
    ∃ initial session,
      SchedulingStateMachine.exclusivelyInitializeCurrentThreadForScheduling none = some initial ∧
      Run (Step fun task : Nat => createTask [(0 : Nat)] fun _ => task == 1)
        (Session.initial initial)
        [⟨.scheduleOrBufferTask 1 false, some 1⟩, ⟨.descheduleTask 1, none⟩,
          ⟨.scheduleOrBufferTask 2 false, some 2⟩] session ∧
      ∃ descheduleIndex < 2,
        [(⟨.scheduleOrBufferTask 1 false, some 1⟩ : Event Nat), ⟨.descheduleTask 1, none⟩,
          ⟨.scheduleOrBufferTask 2 false, some 2⟩][descheduleIndex]?.bind Event.descheduledTask =
            some 1 := by
  let creation : Option (SchedulingStateMachine Nat Nat) :=
    SchedulingStateMachine.exclusivelyInitializeCurrentThreadForScheduling none
  have created : creation = some (creation.get rfl) := rfl
  have run : Run (Step fun task : Nat => createTask [(0 : Nat)] fun _ => task == 1)
      (Session.initial (creation.get rfl))
      ([⟨.scheduleOrBufferTask 1 false, some 1⟩] ++ [⟨.descheduleTask 1, none⟩] ++
        [⟨.scheduleOrBufferTask 2 false, some 2⟩]) _ :=
    (Run.single (Step.scheduleOrBufferTask List.not_mem_nil (by decide) rfl)).snoc
      (Step.descheduleTask (List.mem_singleton_self 1) rfl) |>.snoc
      (Step.scheduleOrBufferTask (by decide) (by decide) rfl)
  exact ⟨_, _, created, run, conflicting_tasks_run_in_submission_order created run
    (by decide) Nat.zero_lt_two rfl rfl rfl⟩

end Validator.UnifiedScheduler
