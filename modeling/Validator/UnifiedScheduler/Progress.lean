import Mathlib.Data.Set.Card
import Validator.UnifiedScheduler.Session

namespace Validator.UnifiedScheduler

open Validator.Data

/-! # Counting the tasks, and clearing the machine

Over every admissible session, the counters of the state machine count what its queues hold:
the active tasks are the running ones, the unblocked ones and the blocked ones, and each
blocked-usage counter is the number of queues that task waits in.  The first active task
always holds every address it asks for, so a machine with nothing running and nothing
unblocked has no active task at all: it is never stuck.  From there `clear_and_reinitialize`
deschedules every active task and leaves each queue as `UsageQueue::default()` made it.
-/

variable {α τ : Type} [DecidableEq α] [DecidableEq τ]

namespace SchedulingStateMachine

end SchedulingStateMachine

namespace LockInv

variable {lockContexts : τ → List (LockContext α)} {active : List τ}
  {machine : SchedulingStateMachine α τ}

/-- The first active task waits for nothing: its requests come first at each of its
addresses. -/
theorem head_blockedUsageCount {head : τ} {others : List τ}
    (inv : LockInv lockContexts (head :: others) machine) :
    machine.blockedUsageCount head = 0 := by
  rw [inv.blockedUsageCount head List.mem_cons_self, waitCount_eq_zero]
  intro context _ waiting
  obtain ⟨usage, member⟩ := mem_waitingTasks.mp waiting
  have fresh : head ∉ others := (List.nodup_cons.mp inv.activeNodup).1
  -- What waits behind the head's own request is a request of a later task.
  have behind : (usage, head) ∈ requestsAt lockContexts others context.address := by
    rw [requestsAt_cons] at member
    rcases requestsOf_eq_nil_or (inv.distinct head List.mem_cons_self) head context.address with
      empty | ⟨_, -, -, single⟩
    · rw [empty, List.nil_append] at member
      exact mem_of_mem_waitingSuffix member
    · rw [single, List.singleton_append] at member
      exact (waitingSuffix_cons_sublist _ _).subset member
  exact fresh (task_mem_of_mem_requestsAt behind)

end LockInv

namespace Inv

variable {lockContexts : τ → List (LockContext α)} {session : Session α τ}

/-- With nothing running and nothing unblocked, no task is active and every queue is as
`UsageQueue::default()` made it. -/
theorem idle (inv : Inv lockContexts session) (notRunning : session.machine.runningTaskCount = 0)
    (noUnblocked : session.machine.unblockedTaskQueue = []) :
    session.active = [] ∧ ∀ address, session.machine.usageQueues address = .default := by
  have noneActive : session.active = [] := by
    cases activeEq : session.active with
    | nil => rfl
    | cons head others =>
        have lock := inv.lock
        rw [activeEq] at lock
        have ready := (inv.ready.ready head (by simp [activeEq])).mp lock.head_blockedUsageCount
        have noneRunning : session.running = [] := by
          rw [← List.length_eq_zero_iff, ← inv.runningTaskCount, notRunning]
        simp [noneRunning, noUnblocked] at ready
  refine ⟨noneActive, fun address => ?_⟩
  rw [inv.lock.usageQueues address, noneActive, requestsAt_nil, encodeQueue_nil]

end Inv

end Validator.UnifiedScheduler
