import Validator.Data.LoopFrame
import Validator.BankingStage.AccountLocksSpec

namespace Validator.BankingStage

open Validator.Data

/-! # Locking the accounts of a transaction

`lock_accounts` and `unlock_accounts` run one loop over the writable accounts and one over the
readable ones.  Over lists without a repeated account, each loop is an instance of the loop
frame (`LoopFrame.foldlM_eq_of_stepSpec`): every account of the list gains (or loses) one lock
of the thread, and the others keep their entries.  `try_lock_accounts` is then specified by
the threads that may take every lock (`Feasible`).
-/

/-- The counts with `change` applied to the accounts of the list. -/
def changeOn {α : Type} [DecidableEq α] (counts : α → ThreadId → Nat) (accounts : List α)
    (change : (ThreadId → Nat) → ThreadId → Nat) : α → ThreadId → Nat :=
  fun account => if account ∈ accounts then change (counts account) else counts account

namespace ThreadAwareAccountLocks

variable {α : Type} [DecidableEq α] {self : ThreadAwareAccountLocks α}
  {writes reads : α → ThreadId → Nat} {threadId : ThreadId}
  {writeAccountLocks readAccountLocks : List α}

/-- The map records these counts on every account. -/
def LocksMatch (self : ThreadAwareAccountLocks α) (writes reads : α → ThreadId → Nat) : Prop :=
  ∀ account, EntryMatches (writes account) (reads account) (self.locks account)

/-- A step that writes back the entry of its own account is a step of the loop frame. -/
theorem stepSpec_of_setLocks
    {step : ThreadAwareAccountLocks α → α → Option (ThreadAwareAccountLocks α)}
    {Pre Post : α → Option AccountLocks → Prop}
    (spec : ∀ self account, Pre account (self.locks account) →
      ∃ entry, step self account = some (self.setLocks account entry) ∧ Post account entry) :
    LoopFrame.StepSpec locks numThreads step Pre Post := by
  intro self account pre
  obtain ⟨entry, stepEq, post⟩ := spec self account pre
  refine ⟨_, stepEq, by simpa using post, rfl, fun other differ => ?_⟩
  simp [Function.update_of_ne differ]

/-- After a loop over the writable accounts and one over the readable ones, disjoint, each
account has the counts its own loop gave it. -/
theorem locksMatch_of_loops {first second : ThreadAwareAccountLocks α}
    {writeChange readChange : (ThreadId → Nat) → ThreadId → Nat}
    (locksMatch : self.LocksMatch writes reads)
    (disjoint : ∀ account ∈ writeAccountLocks, account ∉ readAccountLocks)
    (firstPost : ∀ account ∈ writeAccountLocks,
      EntryMatches (writeChange (writes account)) (reads account) (first.locks account))
    (firstFrame : ∀ account, account ∉ writeAccountLocks → first.locks account = self.locks account)
    (secondPost : ∀ account ∈ readAccountLocks,
      EntryMatches (writes account) (readChange (reads account)) (second.locks account))
    (secondFrame : ∀ account, account ∉ readAccountLocks →
      second.locks account = first.locks account) :
    second.LocksMatch (changeOn writes writeAccountLocks writeChange)
      (changeOn reads readAccountLocks readChange) := by
  intro account
  by_cases inReads : account ∈ readAccountLocks
  · have notWrites : account ∉ writeAccountLocks := fun inWrites => disjoint account inWrites inReads
    simpa [changeOn, inReads, notWrites] using secondPost account inReads
  · rw [secondFrame account inReads]
    by_cases inWrites : account ∈ writeAccountLocks
    · simpa [changeOn, inReads, inWrites] using firstPost account inWrites
    · simpa [changeOn, inReads, inWrites, firstFrame account inWrites] using locksMatch account

/-- `lock_accounts` for a thread that may take every lock: one lock more of that thread on
each account. -/
theorem lockAccounts_eq (locksMatch : self.LocksMatch writes reads)
    (distinct : (writeAccountLocks ++ readAccountLocks).Nodup)
    (feasible : Feasible self.numThreads writes reads writeAccountLocks readAccountLocks threadId)
    (numBound : self.numThreads ≤ maxThreads)
    (writeRoom : ∀ account ∈ writeAccountLocks, writes account threadId + 1 < 2 ^ 32)
    (readRoom : ∀ account ∈ readAccountLocks, reads account threadId + 1 < 2 ^ 32) :
    ∃ locked, self.lockAccounts writeAccountLocks readAccountLocks threadId = some locked ∧
      locked.numThreads = self.numThreads ∧
      locked.LocksMatch (changeOn writes writeAccountLocks (addHold · threadId))
        (changeOn reads readAccountLocks (addHold · threadId)) := by
  obtain ⟨below, writable, readable⟩ := feasible
  obtain ⟨writeDistinct, readDistinct, disjoint⟩ := List.nodup_append.mp distinct
  have notWrites : ∀ account ∈ readAccountLocks, account ∉ writeAccountLocks :=
    fun account inReads inWrites => disjoint account inWrites account inReads rfl
  have writeStep : LoopFrame.StepSpec locks numThreads
      (fun (self : ThreadAwareAccountLocks α) account => self.writeLockAccount account threadId)
      (fun account entry => EntryMatches (writes account) (reads account) entry ∧
        Compatible true (writes account) (reads account) threadId ∧
        writes account threadId + 1 < 2 ^ 32)
      (fun account entry => EntryMatches (addHold (writes account) threadId) (reads account) entry) :=
    stepSpec_of_setLocks fun _ _ ⟨entryMatch, compatible, room⟩ =>
      let ⟨entry, spec⟩ := writeLockAccount_eq entryMatch compatible room
      ⟨some entry, spec⟩
  obtain ⟨afterWrites, writesEq, writesNum, writesPost, writesFrame⟩ :=
    LoopFrame.foldlM_eq_of_stepSpec writeStep writeDistinct fun account member =>
      ⟨locksMatch account, writable account member, writeRoom account member⟩
  -- The readable accounts are not writable, so the first loop left them as they were.
  have readStep : LoopFrame.StepSpec locks numThreads
      (fun (self : ThreadAwareAccountLocks α) account => self.readLockAccount account threadId)
      (fun account entry => EntryMatches (writes account) (reads account) entry ∧
        Compatible false (writes account) (reads account) threadId ∧
        reads account threadId + 1 < 2 ^ 32)
      (fun account entry => EntryMatches (writes account) (addHold (reads account) threadId) entry) :=
    stepSpec_of_setLocks fun _ _ ⟨entryMatch, compatible, room⟩ =>
      let ⟨entry, spec⟩ :=
        readLockAccount_eq entryMatch compatible (Nat.lt_of_lt_of_le below numBound) room
      ⟨some entry, spec⟩
  obtain ⟨locked, readsEq, readsNum, readsPost, readsFrame⟩ :=
    LoopFrame.foldlM_eq_of_stepSpec readStep readDistinct fun account member =>
      ⟨by rw [writesFrame account (notWrites account member)]; exact locksMatch account,
        readable account member, readRoom account member⟩
  refine ⟨locked, ?_, readsNum.trans writesNum, ?_⟩
  · simp [lockAccounts, below, writesEq, readsEq]
  · exact locksMatch_of_loops locksMatch (fun account inWrites inReads =>
      notWrites account inReads inWrites) writesPost writesFrame readsPost readsFrame

/-- `unlock_accounts` by a thread that holds each of the locks: one lock fewer of that thread
on each account. -/
theorem unlockAccounts_eq (locksMatch : self.LocksMatch writes reads)
    (distinct : (writeAccountLocks ++ readAccountLocks).Nodup)
    (writeHeld : ∀ account ∈ writeAccountLocks, writes account threadId ≠ 0)
    (readHeld : ∀ account ∈ readAccountLocks, reads account threadId ≠ 0) :
    ∃ unlocked, self.unlockAccounts writeAccountLocks readAccountLocks threadId = some unlocked ∧
      unlocked.numThreads = self.numThreads ∧
      unlocked.LocksMatch (changeOn writes writeAccountLocks (removeHold · threadId))
        (changeOn reads readAccountLocks (removeHold · threadId)) := by
  obtain ⟨writeDistinct, readDistinct, disjoint⟩ := List.nodup_append.mp distinct
  have notWrites : ∀ account ∈ readAccountLocks, account ∉ writeAccountLocks :=
    fun account inReads inWrites => disjoint account inWrites account inReads rfl
  have writeStep : LoopFrame.StepSpec locks numThreads
      (fun (self : ThreadAwareAccountLocks α) account => self.writeUnlockAccount account threadId)
      (fun account entry => EntryMatches (writes account) (reads account) entry ∧
        writes account threadId ≠ 0)
      (fun account entry =>
        EntryMatches (removeHold (writes account) threadId) (reads account) entry) :=
    stepSpec_of_setLocks fun _ _ ⟨entryMatch, held⟩ => writeUnlockAccount_eq entryMatch held
  obtain ⟨afterWrites, writesEq, writesNum, writesPost, writesFrame⟩ :=
    LoopFrame.foldlM_eq_of_stepSpec writeStep writeDistinct fun account member =>
      ⟨locksMatch account, writeHeld account member⟩
  have readStep : LoopFrame.StepSpec locks numThreads
      (fun (self : ThreadAwareAccountLocks α) account => self.readUnlockAccount account threadId)
      (fun account entry => EntryMatches (writes account) (reads account) entry ∧
        reads account threadId ≠ 0)
      (fun account entry =>
        EntryMatches (writes account) (removeHold (reads account) threadId) entry) :=
    stepSpec_of_setLocks fun _ _ ⟨entryMatch, held⟩ => readUnlockAccount_eq entryMatch held
  obtain ⟨unlocked, readsEq, readsNum, readsPost, readsFrame⟩ :=
    LoopFrame.foldlM_eq_of_stepSpec readStep readDistinct fun account member =>
      ⟨by rw [writesFrame account (notWrites account member)]; exact locksMatch account,
        readHeld account member⟩
  refine ⟨unlocked, ?_, readsNum.trans writesNum, ?_⟩
  · simp [unlockAccounts, writesEq, readsEq]
  · exact locksMatch_of_loops locksMatch (fun account inWrites inReads =>
      notWrites account inReads inWrites) writesPost writesFrame readsPost readsFrame

/-- What `try_lock_accounts` does, in terms of the counts: it refuses with `MultipleConflicts`
when no thread may take every lock, with `ThreadNotAllowed` when no allowed thread may, and
otherwise locks every account for the thread the selector picks among the allowed threads that
may.  A refusal changes nothing. -/
def TryLockSpec (self : ThreadAwareAccountLocks α) (writes reads : α → ThreadId → Nat)
    (writeAccountLocks readAccountLocks : List α) (allowedThreads : ThreadSet)
    (threadSelector : ThreadSet → ThreadId) :
    ThreadAwareAccountLocks α × Except TryLockError ThreadId → Prop
  | (after, .error .multipleConflicts) => after = self ∧
      ∀ threadId, ¬ Feasible self.numThreads writes reads writeAccountLocks readAccountLocks threadId
  | (after, .error .threadNotAllowed) => after = self ∧
      (∃ threadId, Feasible self.numThreads writes reads writeAccountLocks readAccountLocks threadId) ∧
      ∀ threadId, Feasible self.numThreads writes reads writeAccountLocks readAccountLocks threadId →
        threadId ∉ allowedThreads
  | (after, .ok threadId) =>
      (∃ candidates : ThreadSet, (∀ other, other ∈ candidates ↔
        Feasible self.numThreads writes reads writeAccountLocks readAccountLocks other ∧
          other ∈ allowedThreads) ∧ threadSelector candidates = threadId) ∧
      Feasible self.numThreads writes reads writeAccountLocks readAccountLocks threadId ∧
      threadId ∈ allowedThreads ∧ after.numThreads = self.numThreads ∧
      after.LocksMatch (changeOn writes writeAccountLocks (addHold · threadId))
        (changeOn reads readAccountLocks (addHold · threadId))

/-- `try_lock_accounts` on a map that records the counts meets `TryLockSpec`, and never
panics, when each account has room for one more lock and the selector picks from the set it
is given. -/
theorem tryLockAccounts_eq (locksMatch : self.LocksMatch writes reads)
    (exclusive : ∀ account, Exclusive (writes account) (reads account))
    (bounded : ∀ account, Bounded self.numThreads (writes account) (reads account))
    (positive : 0 < self.numThreads) (numBound : self.numThreads ≤ maxThreads)
    (distinct : (writeAccountLocks ++ readAccountLocks).Nodup)
    (writeRoom : ∀ account ∈ writeAccountLocks, ∀ threadId, writes account threadId + 1 < 2 ^ 32)
    (readRoom : ∀ account ∈ readAccountLocks, ∀ threadId, reads account threadId + 1 < 2 ^ 32)
    (allowedThreads : ThreadSet) {threadSelector : ThreadSet → ThreadId}
    (selects : ∀ set : ThreadSet, (∃ threadId, threadId ∈ set) → threadSelector set ∈ set) :
    ∃ result, self.tryLockAccounts writeAccountLocks readAccountLocks allowedThreads
        threadSelector = some result ∧
      TryLockSpec self writes reads writeAccountLocks readAccountLocks allowedThreads
        threadSelector result := by
  obtain ⟨schedulable, schedulableEq, nonempty, spec⟩ :=
    accountsSchedulableThreads_eq locksMatch exclusive bounded numBound positive
      writeAccountLocks readAccountLocks
  cases schedulable with
  | none =>
      refine ⟨(self, .error .multipleConflicts), by simp [tryLockAccounts, schedulableEq], rfl,
        fun threadId feasible => ?_⟩
      obtain ⟨set, same, -⟩ := (spec threadId).mpr feasible
      cases same
  | some schedulable =>
      have members : ∀ threadId, threadId ∈ schedulable ↔
          Feasible self.numThreads writes reads writeAccountLocks readAccountLocks threadId :=
        fun threadId => by simpa using spec threadId
      by_cases empty : (schedulable &&& allowedThreads).isEmpty = true
      · -- Only threads outside `allowed_threads` may take the locks.
        refine ⟨(self, .error .threadNotAllowed), by simp [tryLockAccounts, schedulableEq, empty],
          rfl, ?_, fun threadId feasible allowed => ?_⟩
        · obtain ⟨threadId, member⟩ := nonempty schedulable rfl
          exact ⟨threadId, (members threadId).mp member⟩
        · exact ThreadSet.isEmpty_iff.mp empty threadId
            (ThreadSet.mem_and.mpr ⟨(members threadId).mpr feasible, allowed⟩)
      · have candidate : ∃ threadId, threadId ∈ schedulable &&& allowedThreads := by
          by_contra nothing
          exact empty (ThreadSet.isEmpty_iff.mpr fun threadId member => nothing ⟨threadId, member⟩)
        obtain ⟨picked, allowed⟩ := ThreadSet.mem_and.mp (selects _ candidate)
        have feasible := (members _).mp picked
        obtain ⟨locked, lockEq, lockedNum, lockedMatch⟩ :=
          lockAccounts_eq locksMatch distinct feasible numBound
            (fun account member => writeRoom account member _)
            (fun account member => readRoom account member _)
        refine ⟨(locked, .ok (threadSelector (schedulable &&& allowedThreads))),
          by simp [tryLockAccounts, schedulableEq, empty, lockEq],
          ⟨_, fun other => by rw [ThreadSet.mem_and, members], rfl⟩, feasible, allowed, lockedNum,
          lockedMatch⟩

end ThreadAwareAccountLocks

end Validator.BankingStage
