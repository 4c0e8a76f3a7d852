import Validator.UnifiedScheduler.Safety

namespace Validator.UnifiedScheduler

open Validator.Data

/-! # The scheduler's panics are unreachable

Each panic of the state machine is `none` in the model: `unreachable!()` in
`UsageQueueInner::unlock`, the `assert_matches!` of `push_blocked_usage_from_task` and of
`pop_unblocked_readonly_usage_from_task`, the "should never fail in this context" of the relock
in `unlock_usage_queues`, and the underflow of `TaskInner::try_unblock`'s counter.  Over every
session driven as `Step` allows, each admissible call returns, and each of these sites finds
what it asserts in the state it would run on.
-/

variable {α τ : Type} [DecidableEq α] [DecidableEq τ] {lockContexts : τ → List (LockContext α)}

namespace Inv

variable {session : Session α τ}

/-- A running task holds each of its addresses with its own usage, so releasing it never hits
`unreachable!()`. -/
theorem unlock_isSome (inv : Inv lockContexts session) {task : τ}
    (isRunning : task ∈ session.running) {context : LockContext α}
    (mine : context ∈ lockContexts task) :
    ∃ released, (session.machine.usageQueues context.address).unlock context.requestedUsage =
      some released := by
  have granted := inv.granted_of_running isRunning mine
  rw [inv.lock.usageQueues context.address]
  by_cases sole : grantedPrefix readonlyUsage (requestsAt lockContexts session.active
      context.address) = [(context.requestedUsage, task)]
  · exact ⟨_, unlock_encodeQueue_of_sole sole⟩
  · exact ⟨_, unlock_encodeQueue_of_shared granted sole⟩

/-- Somebody holds every address that somebody waits for, so a request pushed behind it finds
it locked. -/
theorem currentUsage_ne_none_of_waiting (inv : Inv lockContexts session) {address : α}
    (waiting : (session.machine.usageQueues address).blockedUsagesFromTasks ≠ []) :
    (session.machine.usageQueues address).currentUsage ≠ none := by
  rw [inv.lock.usageQueues address] at waiting ⊢
  intro free
  have noHolder := usageOfGranted_eq_none_iff.mp free
  exact waiting (waitingSuffix_eq_nil_of_grantedPrefix_eq_nil noHolder)

/-- A task waiting in a queue has a blocked usage for `try_unblock` to take. -/
theorem blockedUsageCount_ne_zero_of_waiting (inv : Inv lockContexts session) {address : α}
    {request : RequestedUsage × τ}
    (waiting : request ∈ (session.machine.usageQueues address).blockedUsagesFromTasks) :
    session.machine.blockedUsageCount request.2 ≠ 0 := by
  rw [inv.lock.usageQueues address] at waiting
  have waitingTask : request.2 ∈ waitingTasks (requestsAt lockContexts session.active address) :=
    mem_waitingTasks.mpr ⟨request.1, waiting⟩
  exact (inv.lock.blockedUsageCount_ne_zero waitingTask).2

/-- Released now, an address would be relocked for the requests at the front of its queue
without a failing `try_lock`, readonly pop or `try_unblock`. -/
theorem relockBlockedUsages_isSome (inv : Inv lockContexts session) {address : α}
    {unblocked : RequestedUsage × τ} {rest : List (RequestedUsage × τ)}
    (front : (session.machine.usageQueues address).blockedUsagesFromTasks = unblocked :: rest) :
    ∃ relocked, session.machine.relockBlockedUsages ⟨none, rest⟩ unblocked = some relocked := by
  have queue := inv.lock.usageQueues address
  have waitingNodup : ((waitingSuffix readonlyUsage
      (requestsAt lockContexts session.active address)).map Prod.snd).Nodup :=
    (inv.lock.requests_nodup address).sublist
      ((waitingSuffix_isSuffix _).sublist.map Prod.snd)
  rw [queue] at front
  change waitingSuffix readonlyUsage (requestsAt lockContexts session.active address) =
    unblocked :: rest at front
  rw [front] at waitingNodup
  -- the tasks let in are a prefix of the waiting ones
  have grantedSublist : List.Sublist
      ((grantedPrefix readonlyUsage (unblocked :: rest)).map Prod.snd)
      ((unblocked :: rest).map Prod.snd) :=
    (grantedPrefix_isPrefix _).sublist.map Prod.snd
  have blocked : ∀ task ∈ (grantedPrefix readonlyUsage (unblocked :: rest)).map Prod.snd,
      session.machine.blockedUsageCount task ≠ 0 := by
    intro task member
    obtain ⟨request, inFront, rfl⟩ := List.mem_map.mp (grantedSublist.subset member)
    have waitingHere : request ∈ (session.machine.usageQueues address).blockedUsagesFromTasks := by
      rw [queue]
      change request ∈ waitingSuffix readonlyUsage (requestsAt lockContexts session.active address)
      rw [front]
      exact inFront
    exact inv.blockedUsageCount_ne_zero_of_waiting waitingHere
  rw [SchedulingStateMachine.relockBlockedUsages_encodeQueue,
    SchedulingStateMachine.unblockTasks_of_blocked (waitingNodup.sublist grantedSublist) _ blocked]
  exact ⟨_, rfl⟩

end Inv

theorem admissible_calls_never_panic {maxRunningTaskCount : Option Nat}
    {initial : SchedulingStateMachine α τ}
    (created : SchedulingStateMachine.exclusivelyInitializeCurrentThreadForScheduling
      maxRunningTaskCount = some initial)
    {session : Session α τ}
    (reachable : Reachable (Step lockContexts) (Session.initial initial) session) :
    (∀ task, task ∉ session.submitted → DistinctAddresses (lockContexts task) →
      ∀ forceBuffering, ∃ machine returned,
        session.machine.scheduleOrBufferTask lockContexts task forceBuffering =
          some (machine, returned)) ∧
    (∀ task ∈ session.running, ∃ machine,
      session.machine.descheduleTask lockContexts task = some machine) ∧
    (∀ task ∈ session.running, ∀ context ∈ lockContexts task, ∃ released,
      (session.machine.usageQueues context.address).unlock context.requestedUsage =
        some released) ∧
    (∀ address, (session.machine.usageQueues address).blockedUsagesFromTasks ≠ [] →
      (session.machine.usageQueues address).currentUsage ≠ none) ∧
    (∀ address, ∀ request ∈ (session.machine.usageQueues address).blockedUsagesFromTasks,
      session.machine.blockedUsageCount request.2 ≠ 0) ∧
    (∀ address unblocked rest,
      (session.machine.usageQueues address).blockedUsagesFromTasks = unblocked :: rest →
      ∃ relocked, session.machine.relockBlockedUsages ⟨none, rest⟩ unblocked = some relocked) := by
  obtain ⟨labels, run⟩ := reachable
  have inv := run_inv created run
  refine ⟨?_, ?_, ?_, ?_, ?_, ?_⟩
  · intro task fresh distinct forceBuffering
    obtain ⟨machine, returned, scheduled, -⟩ := inv.scheduleOrBufferTask fresh distinct forceBuffering
    exact ⟨machine, returned, scheduled⟩
  · intro task isRunning
    obtain ⟨machine, descheduled, -⟩ := inv.descheduleTask isRunning
    exact ⟨machine, descheduled⟩
  · intro task isRunning context mine
    exact inv.unlock_isSome isRunning mine
  · intro address waiting
    exact inv.currentUsage_ne_none_of_waiting waiting
  · intro address request waiting
    exact inv.blockedUsageCount_ne_zero_of_waiting waiting
  · intro address unblocked rest front
    exact inv.relockBlockedUsages_isSome front

/-- Two writers on address `0`: the second waits, and releasing the address would hand it over
without a panic. -/
theorem admissible_calls_never_panic_of_two_writers :
    ∃ initial session,
      SchedulingStateMachine.exclusivelyInitializeCurrentThreadForScheduling none = some initial ∧
      Run (Step fun _ : Nat => createTask [(0 : Nat)] fun _ => true) (Session.initial initial)
        [⟨.scheduleOrBufferTask 1 false, some 1⟩, ⟨.scheduleOrBufferTask 2 false, none⟩] session ∧
      (session.machine.usageQueues 0).blockedUsagesFromTasks = [(.writable, 2)] ∧
      ∃ relocked, session.machine.relockBlockedUsages ⟨none, []⟩ (.writable, 2) = some relocked := by
  let creation : Option (SchedulingStateMachine Nat Nat) :=
    SchedulingStateMachine.exclusivelyInitializeCurrentThreadForScheduling none
  have created : creation = some (creation.get rfl) := rfl
  have first : Run (Step fun _ : Nat => createTask [(0 : Nat)] fun _ => true)
      (Session.initial (creation.get rfl)) [⟨.scheduleOrBufferTask 1 false, some 1⟩] _ :=
    Run.single (Step.scheduleOrBufferTask List.not_mem_nil (by decide) rfl)
  have run : Run (Step fun _ : Nat => createTask [(0 : Nat)] fun _ => true)
      (Session.initial (creation.get rfl))
      [⟨.scheduleOrBufferTask 1 false, some 1⟩, ⟨.scheduleOrBufferTask 2 false, none⟩] _ :=
    Run.snoc first (Step.scheduleOrBufferTask (by decide) (by decide) rfl)
  exact ⟨_, _, created, run, rfl,
    (admissible_calls_never_panic created run.reachable).2.2.2.2.2 0 (.writable, 2) [] rfl⟩

end Validator.UnifiedScheduler
