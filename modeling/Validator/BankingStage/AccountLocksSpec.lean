import Validator.BankingStage.ThreadSetSpec

namespace Validator.BankingStage

/-! # What the entry of one account says

An account's entry is described by how many outstanding locks each thread holds on it, for
writing (`writes`) and for reading (`reads`).  `EntryMatches` says that the entry records
exactly these counts: no entry when there are none, the write count and its one thread in
`write_locks`, the reading threads and their counts in `read_locks`.

Each operation on one account is specified against the counts: it succeeds when the thread may
take (or holds) the lock, and the new entry records one lock more (or less) on that thread.
The loops of `lock_accounts` and `unlock_accounts` then follow from one frame lemma for loops
over distinct accounts.
-/

/-- One more lock on `threadId`. -/
def addHold (counts : ThreadId → Nat) (threadId : ThreadId) : ThreadId → Nat :=
  fun other => counts other + if other = threadId then 1 else 0

/-- One lock fewer on `threadId`. -/
def removeHold (counts : ThreadId → Nat) (threadId : ThreadId) : ThreadId → Nat :=
  fun other => counts other - if other = threadId then 1 else 0

def WriteLocksMatch (writes : ThreadId → Nat) : Option AccountWriteLocks → Prop
  | .none => ∀ threadId, writes threadId = 0
  | some writeLocks => writeLocks.lockCount ≠ 0 ∧
      ∀ threadId, writes threadId =
        if threadId = writeLocks.threadId then writeLocks.lockCount else 0

def ReadLocksMatch (reads : ThreadId → Nat) : Option AccountReadLocks → Prop
  | .none => ∀ threadId, reads threadId = 0
  | some readLocks => (∃ threadId, reads threadId ≠ 0) ∧
      (∀ threadId, threadId ∈ readLocks.threadSet ↔ reads threadId ≠ 0) ∧
      ∀ threadId (inBounds : threadId < maxThreads), readLocks.lockCounts[threadId] = reads threadId

def EntryMatches (writes reads : ThreadId → Nat) : Option AccountLocks → Prop
  | .none => (∀ threadId, writes threadId = 0) ∧ ∀ threadId, reads threadId = 0
  | some entry => (entry.writeLocks.isSome ∨ entry.readLocks.isSome) ∧
      WriteLocksMatch writes entry.writeLocks ∧ ReadLocksMatch reads entry.readLocks

/-- `threadId` may take a lock, for writing when `write`, beside the locks counted: no other
thread writes, and for a write no other thread reads either. -/
def Compatible (write : Bool) (writes reads : ThreadId → Nat) (threadId : ThreadId) : Prop :=
  ∀ other, other ≠ threadId → writes other = 0 ∧ (write = true → reads other = 0)

/-- A thread that writes the account holds it alone. -/
def Exclusive (writes reads : ThreadId → Nat) : Prop :=
  ∀ threadId, writes threadId ≠ 0 → Compatible true writes reads threadId

/-- Only threads that exist hold locks. -/
def Bounded (numThreads : Nat) (writes reads : ThreadId → Nat) : Prop :=
  ∀ threadId, writes threadId ≠ 0 ∨ reads threadId ≠ 0 → threadId < numThreads

section Counts

variable {writes reads : ThreadId → Nat} {threadId : ThreadId}

@[simp] theorem addHold_self (counts : ThreadId → Nat) (threadId : ThreadId) :
    addHold counts threadId threadId = counts threadId + 1 := by
  simp [addHold]

@[simp] theorem addHold_of_ne (counts : ThreadId → Nat) {threadId other : ThreadId}
    (differ : other ≠ threadId) : addHold counts threadId other = counts other := by
  simp [addHold, differ]

@[simp] theorem removeHold_self (counts : ThreadId → Nat) (threadId : ThreadId) :
    removeHold counts threadId threadId = counts threadId - 1 := by
  simp [removeHold]

@[simp] theorem removeHold_of_ne (counts : ThreadId → Nat) {threadId other : ThreadId}
    (differ : other ≠ threadId) : removeHold counts threadId other = counts other := by
  simp [removeHold, differ]

theorem WriteLocksMatch.holder {writeLocks : AccountWriteLocks}
    (writeMatch : WriteLocksMatch writes (some writeLocks)) :
    writes writeLocks.threadId = writeLocks.lockCount ∧ writeLocks.lockCount ≠ 0 := by
  refine ⟨?_, writeMatch.1⟩
  rw [writeMatch.2 writeLocks.threadId, if_pos rfl]

theorem WriteLocksMatch.threadId_eq {writeLocks : AccountWriteLocks}
    (writeMatch : WriteLocksMatch writes (some writeLocks)) (holds : writes threadId ≠ 0) :
    writeLocks.threadId = threadId := by
  by_contra differ
  apply holds
  rw [writeMatch.2 threadId, if_neg (Ne.symm differ)]

/-- A thread that may write has every other thread's write count at zero, so the holder of
`write_locks`, if any, is that thread. -/
theorem WriteLocksMatch.threadId_eq_of_compatible {write : Bool} {writeLocks : AccountWriteLocks}
    (writeMatch : WriteLocksMatch writes (some writeLocks))
    (compatible : Compatible write writes reads threadId) : writeLocks.threadId = threadId := by
  by_contra differ
  have holds := writeMatch.holder
  rw [(compatible writeLocks.threadId differ).1] at holds
  exact holds.2 holds.1.symm

/-- With no other reader, the reading threads are exactly `threadId`. -/
theorem ReadLocksMatch.threadSet_eq_single {readLocks : AccountReadLocks}
    (readMatch : ReadLocksMatch reads (some readLocks))
    (alone : ∀ other, other ≠ threadId → reads other = 0) :
    ∀ other, other ∈ readLocks.threadSet ↔ other = threadId := by
  obtain ⟨⟨reader, reading⟩, members, -⟩ := readMatch
  intro other
  rw [members]
  constructor
  · intro held
    by_contra differ
    exact held (alone other differ)
  · rintro rfl
    by_contra idle
    have same : reader = other := by
      by_contra differ
      exact reading (alone reader differ)
    rw [same] at reading
    exact reading (by simpa using idle)

/-! ### One lock more or less, entry by entry -/

theorem writeLocksMatch_first (noWriter : WriteLocksMatch writes .none) :
    WriteLocksMatch (addHold writes threadId) (some ⟨threadId, 1⟩) := by
  refine ⟨Nat.one_ne_zero, fun other => ?_⟩
  by_cases same : other = threadId
  · subst same
    simp [noWriter other]
  · simp [same, noWriter other]

theorem WriteLocksMatch.increment {writeLocks : AccountWriteLocks}
    (writeMatch : WriteLocksMatch writes (some writeLocks)) (holder : writeLocks.threadId = threadId) :
    WriteLocksMatch (addHold writes threadId)
      (some { writeLocks with lockCount := writeLocks.lockCount + 1 }) := by
  refine ⟨Nat.succ_ne_zero _, fun other => ?_⟩
  subst holder
  by_cases same : other = writeLocks.threadId
  · subst same
    simp [writeMatch.holder.1]
  · simp [same, writeMatch.2 other]

theorem WriteLocksMatch.decrement_of_last {writeLocks : AccountWriteLocks}
    (writeMatch : WriteLocksMatch writes (some writeLocks)) (holder : writeLocks.threadId = threadId)
    (last : writeLocks.lockCount - 1 = 0) :
    WriteLocksMatch (removeHold writes threadId) .none := by
  intro other
  subst holder
  by_cases same : other = writeLocks.threadId
  · subst same
    simp [writeMatch.holder.1, last]
  · simp [same, writeMatch.2 other]

theorem WriteLocksMatch.decrement {writeLocks : AccountWriteLocks}
    (writeMatch : WriteLocksMatch writes (some writeLocks)) (holder : writeLocks.threadId = threadId)
    (remaining : writeLocks.lockCount - 1 ≠ 0) :
    WriteLocksMatch (removeHold writes threadId)
      (some { writeLocks with lockCount := writeLocks.lockCount - 1 }) := by
  refine ⟨remaining, fun other => ?_⟩
  subst holder
  by_cases same : other = writeLocks.threadId
  · subst same
    simp [writeMatch.holder.1]
  · simp [same, writeMatch.2 other]

theorem readLocksMatch_first (noReader : ReadLocksMatch reads .none)
    {threadSet : ThreadSet} (single : ∀ other, other ∈ threadSet ↔ other = threadId)
    (inBounds : threadId < maxThreads) :
    ReadLocksMatch (addHold reads threadId)
      (some ⟨threadSet, (Vector.replicate maxThreads 0).set threadId 1 inBounds⟩) := by
  have counts : ∀ other, addHold reads threadId other = if other = threadId then 1 else 0 := by
    intro other
    simp [addHold, noReader other]
  refine ⟨⟨threadId, by simp⟩, fun other => ?_, fun other inside => ?_⟩
  · rw [single, counts]
    by_cases same : other = threadId <;> simp [same]
  · rw [Vector.getElem_set, Vector.getElem_replicate, counts]
    by_cases same : other = threadId
    · simp [same]
    · simp [same, Ne.symm same]

theorem ReadLocksMatch.increment {readLocks : AccountReadLocks}
    (readMatch : ReadLocksMatch reads (some readLocks)) {inserted : ThreadSet}
    (members : ∀ other, other ∈ inserted ↔ other ∈ readLocks.threadSet ∨ other = threadId)
    (inBounds : threadId < maxThreads) :
    ReadLocksMatch (addHold reads threadId)
      (some ⟨inserted, readLocks.lockCounts.set threadId
        (readLocks.lockCounts[threadId] + 1) inBounds⟩) := by
  obtain ⟨-, readers, counts⟩ := readMatch
  refine ⟨⟨threadId, by simp⟩, fun other => ?_, fun other inside => ?_⟩
  · rw [members, readers]
    by_cases same : other = threadId
    · simp [same]
    · simp [same]
  · rw [Vector.getElem_set]
    by_cases same : other = threadId
    · subst same
      simp [counts other inside]
    · simp [Ne.symm same, same, counts other inside]

theorem ReadLocksMatch.decrement {readLocks : AccountReadLocks}
    (readMatch : ReadLocksMatch reads (some readLocks)) (inBounds : threadId < maxThreads)
    (remaining : readLocks.lockCounts[threadId] - 1 ≠ 0) :
    ReadLocksMatch (removeHold reads threadId)
      (some ⟨readLocks.threadSet, readLocks.lockCounts.set threadId
        (readLocks.lockCounts[threadId] - 1) inBounds⟩) := by
  obtain ⟨-, readers, counts⟩ := readMatch
  rw [counts threadId inBounds] at remaining
  refine ⟨⟨threadId, by simpa using remaining⟩, fun other => ?_, fun other inside => ?_⟩
  · rw [readers]
    by_cases same : other = threadId
    · subst same
      simp only [removeHold_self]
      omega
    · simp [same]
  · rw [Vector.getElem_set]
    by_cases same : other = threadId
    · subst same
      simp [counts other inside]
    · simp [Ne.symm same, same, counts other inside]

/-- The last read lock of a thread goes: its bit is cleared, and the entry keeps the other
readers. -/
theorem ReadLocksMatch.decrement_of_last {readLocks : AccountReadLocks}
    (readMatch : ReadLocksMatch reads (some readLocks)) (inBounds : threadId < maxThreads)
    (last : readLocks.lockCounts[threadId] - 1 = 0) {removed : ThreadSet}
    (members : ∀ other, other ∈ removed ↔ other ∈ readLocks.threadSet ∧ other ≠ threadId) :
    (∀ other, other ∈ removed ↔ removeHold reads threadId other ≠ 0) ∧
      ∀ other (inside : other < maxThreads),
        (readLocks.lockCounts.set threadId (readLocks.lockCounts[threadId] - 1) inBounds)[other] =
          removeHold reads threadId other := by
  obtain ⟨-, readers, counts⟩ := readMatch
  rw [counts threadId inBounds] at last
  refine ⟨fun other => ?_, fun other inside => ?_⟩
  · rw [members, readers]
    by_cases same : other = threadId
    · subst same
      simp [last]
    · simp [same]
  · rw [Vector.getElem_set]
    by_cases same : other = threadId
    · subst same
      simp [counts other inside]
    · simp [Ne.symm same, same, counts other inside]

theorem LockCount.increment_of_lt {count : Nat} (fits : count + 1 < 2 ^ 32) :
    LockCount.increment count = some (count + 1) :=
  if_pos fits

theorem LockCount.decrement_of_ne_zero {count : Nat} (held : count ≠ 0) :
    LockCount.decrement count = some (count - 1) :=
  if_neg held

/-- The entry the lock operations start from: the account's, or the empty one that
`or_default()` inserts. -/
theorem EntryMatches.getD {entry : Option AccountLocks} (entryMatch : EntryMatches writes reads entry) :
    WriteLocksMatch writes (entry.getD {}).writeLocks ∧
      ReadLocksMatch reads (entry.getD {}).readLocks := by
  cases entry with
  | none => exact entryMatch
  | some entry => exact entryMatch.2

/-- An account has an entry exactly while some thread holds a lock on it. -/
theorem EntryMatches.isSome_iff {entry : Option AccountLocks}
    (entryMatch : EntryMatches writes reads entry) :
    entry.isSome ↔ ∃ threadId, writes threadId ≠ 0 ∨ reads threadId ≠ 0 := by
  cases entry with
  | none =>
      simp only [Option.isSome_none, Bool.false_eq_true, false_iff, not_exists, not_or, not_not]
      exact fun threadId => ⟨entryMatch.1 threadId, entryMatch.2 threadId⟩
  | some entry =>
      simp only [Option.isSome_some, true_iff]
      obtain ⟨present, writeMatch, readMatch⟩ := entryMatch
      obtain ⟨writeLocks, readLocks⟩ := entry
      cases writeLocks with
      | some writer =>
          obtain ⟨count, held⟩ := writeMatch.holder
          exact ⟨writer.threadId, Or.inl (count ▸ held)⟩
      | none =>
          cases readLocks with
          | none => simp at present
          | some readers =>
              obtain ⟨reader, reading⟩ := readMatch.1
              exact ⟨reader, Or.inr reading⟩

theorem Compatible.of_write {writes reads : ThreadId → Nat} {threadId : ThreadId}
    (compatible : Compatible true writes reads threadId) (write : Bool) :
    Compatible write writes reads threadId :=
  fun other differ => ⟨(compatible other differ).1, fun _ => (compatible other differ).2 rfl⟩

end Counts

namespace ThreadAwareAccountLocks

variable {α : Type} [DecidableEq α] {self : ThreadAwareAccountLocks α} {account : α}
  {writes reads : ThreadId → Nat} {threadId : ThreadId}

@[simp] theorem setLocks_numThreads (self : ThreadAwareAccountLocks α) (account : α)
    (entry : Option AccountLocks) : (self.setLocks account entry).numThreads = self.numThreads :=
  rfl

@[simp] theorem setLocks_locks (self : ThreadAwareAccountLocks α) (account : α)
    (entry : Option AccountLocks) :
    (self.setLocks account entry).locks = Function.update self.locks account entry :=
  rfl

/-! ## Which threads may lock one account -/

omit [DecidableEq α] in
/-- `schedulable_threads` is the set of existing threads that may take the lock. -/
theorem schedulableThreads_eq (entryMatch : EntryMatches writes reads (self.locks account))
    (exclusive : Exclusive writes reads) (bounded : Bounded self.numThreads writes reads)
    (numBound : self.numThreads ≤ maxThreads) (write : Bool) :
    ∃ set, self.schedulableThreads write account = some set ∧
      ∀ threadId, threadId ∈ set ↔
        threadId < self.numThreads ∧ Compatible write writes reads threadId := by
  unfold schedulableThreads
  cases entryEq : self.locks account with
  | none =>
      rw [entryEq] at entryMatch
      obtain ⟨set, anyEq, members⟩ := ThreadSet.any_eq numBound
      refine ⟨set, anyEq, fun threadId => ?_⟩
      simp [members, Compatible, entryMatch.1, entryMatch.2]
  | some entry =>
      rw [entryEq] at entryMatch
      obtain ⟨present, writeMatch, readMatch⟩ := entryMatch
      obtain ⟨writeLocks, readLocks⟩ := entry
      cases writeLocks with
      | none =>
          cases readLocks with
          | none => simp at present
          | some readLocks =>
              -- Only readers: a writer must be the one reading thread, a reader is anyone.
              have noWriter : ∀ threadId, writes threadId = 0 := writeMatch
              cases write with
              | true =>
                  simp only [if_true]
                  cases found : readLocks.threadSet.onlyOneContained with
                  | some reader =>
                      have single := ThreadSet.onlyOneContained_eq_some_iff.mp found
                      have reading : reads reader ≠ 0 :=
                        (readMatch.2.1 reader).mp ((single reader).mpr rfl)
                      obtain ⟨set, onlyEq, members⟩ :=
                        ThreadSet.only_eq (ThreadSet.lt_of_mem ((single reader).mpr rfl))
                      refine ⟨set, onlyEq, fun threadId => ?_⟩
                      rw [members]
                      constructor
                      · rintro rfl
                        refine ⟨bounded _ (Or.inr reading),
                          fun other differ => ⟨noWriter other, fun _ => ?_⟩⟩
                        by_contra held
                        exact differ ((single other).mp ((readMatch.2.1 other).mpr held))
                      · rintro ⟨-, compatible⟩
                        by_contra differ
                        exact reading ((compatible reader (Ne.symm differ)).2 rfl)
                  | none =>
                      -- Several threads read, so no thread may write.
                      refine ⟨ThreadSet.none, rfl, fun threadId => ?_⟩
                      simp only [ThreadSet.not_mem_none, false_iff, not_and]
                      intro _ compatible
                      have single := readMatch.threadSet_eq_single fun other differ =>
                        (compatible other differ).2 rfl
                      rw [ThreadSet.onlyOneContained_eq_some_iff.mpr single] at found
                      contradiction
              | false =>
                  obtain ⟨set, anyEq, members⟩ := ThreadSet.any_eq numBound
                  refine ⟨set, anyEq, fun threadId => ?_⟩
                  simp [members, Compatible, noWriter]
      | some writeLocks =>
          obtain ⟨count, held⟩ := writeMatch.holder
          have writerBound : writeLocks.threadId < self.numThreads :=
            bounded _ (Or.inl (by rw [count]; exact held))
          -- Every other thread has nothing: the writer holds the account alone.
          have alone := exclusive writeLocks.threadId (by rw [count]; exact held)
          have members : ∀ threadId, threadId < self.numThreads ∧
              Compatible write writes reads threadId ↔ threadId = writeLocks.threadId := by
            intro threadId
            constructor
            · rintro ⟨-, compatible⟩
              exact (writeMatch.threadId_eq_of_compatible compatible).symm
            · rintro rfl
              exact ⟨writerBound, alone.of_write write⟩
          cases readLocks with
          | none =>
              obtain ⟨set, onlyEq, single⟩ := ThreadSet.only_eq (Nat.lt_of_lt_of_le writerBound numBound)
              refine ⟨set, onlyEq, fun threadId => ?_⟩
              rw [single, members]
          | some readLocks =>
              have single := readMatch.threadSet_eq_single fun other differ =>
                (alone other differ).2 rfl
              have found := ThreadSet.onlyOneContained_eq_some_iff.mpr single
              refine ⟨readLocks.threadSet, by simp [found], fun threadId => ?_⟩
              rw [single, members]

/-! ## Locking and unlocking one account -/

/-- A write lock on an account that no other thread holds: one more write lock on that thread. -/
theorem writeLockAccount_eq (entryMatch : EntryMatches writes reads (self.locks account))
    (compatible : Compatible true writes reads threadId) (room : writes threadId + 1 < 2 ^ 32) :
    ∃ entry, self.writeLockAccount account threadId = some (self.setLocks account (some entry)) ∧
      EntryMatches (addHold writes threadId) reads (some entry) := by
  obtain ⟨writeMatch, readMatch⟩ := entryMatch.getD
  unfold writeLockAccount
  generalize (self.locks account).getD {} = entry at writeMatch readMatch ⊢
  obtain ⟨writeLocks, readLocks⟩ := entry
  -- Any reader is this thread alone, so the `assert_eq!` holds.
  have alone : ∀ readers : AccountReadLocks, readLocks = some readers →
      readers.threadSet.onlyOneContained = some threadId := by
    rintro readers rfl
    exact ThreadSet.onlyOneContained_eq_some_iff.mpr
      (readMatch.threadSet_eq_single fun other differ => (compatible other differ).2 rfl)
  cases writeLocks with
  | none =>
      refine ⟨⟨some ⟨threadId, 1⟩, readLocks⟩, ?_, by simp, writeLocksMatch_first writeMatch,
        readMatch⟩
      cases readLocks with
      | none => rfl
      | some readers => simp [alone readers rfl]
  | some writeLocks =>
      have holder := writeMatch.threadId_eq_of_compatible compatible
      have fits : writeLocks.lockCount + 1 < 2 ^ 32 := by
        rw [← writeMatch.holder.1, holder]
        exact room
      refine ⟨⟨some { writeLocks with lockCount := writeLocks.lockCount + 1 }, readLocks⟩, ?_,
        by simp, writeMatch.increment holder, readMatch⟩
      cases readLocks with
      | none => simp [holder, LockCount.increment_of_lt fits]
      | some readers => simp [alone readers rfl, holder, LockCount.increment_of_lt fits]

/-- A read lock on an account no other thread writes: one more read lock on that thread. -/
theorem readLockAccount_eq (entryMatch : EntryMatches writes reads (self.locks account))
    (compatible : Compatible false writes reads threadId) (inBounds : threadId < maxThreads)
    (room : reads threadId + 1 < 2 ^ 32) :
    ∃ entry, self.readLockAccount account threadId = some (self.setLocks account (some entry)) ∧
      EntryMatches writes (addHold reads threadId) (some entry) := by
  obtain ⟨writeMatch, readMatch⟩ := entryMatch.getD
  unfold readLockAccount
  generalize (self.locks account).getD {} = entry at writeMatch readMatch ⊢
  obtain ⟨writeLocks, readLocks⟩ := entry
  -- Any writer is this thread, so the `assert_eq!` holds.
  have writesHere : ∀ writer : AccountWriteLocks, writeLocks = some writer →
      writer.threadId = threadId := by
    rintro writer rfl
    exact writeMatch.threadId_eq_of_compatible compatible
  cases readLocks with
  | none =>
      obtain ⟨threadSet, onlyEq, single⟩ := ThreadSet.only_eq inBounds
      refine ⟨⟨writeLocks, some ⟨threadSet, (Vector.replicate maxThreads 0).set threadId 1 inBounds⟩⟩,
        ?_, by simp, writeMatch, readLocksMatch_first readMatch single inBounds⟩
      cases writeLocks with
      | none => simp [inBounds, onlyEq]
      | some writer => simp [writesHere writer rfl, inBounds, onlyEq]
  | some readers =>
      obtain ⟨inserted, insertEq, members⟩ := @ThreadSet.insert_eq readers.threadSet _ inBounds
      have fits : readers.lockCounts[threadId] + 1 < 2 ^ 32 := by
        rw [readMatch.2.2 threadId inBounds]
        exact room
      refine ⟨⟨writeLocks, some ⟨inserted, readers.lockCounts.set threadId
        (readers.lockCounts[threadId] + 1) inBounds⟩⟩, ?_, by simp, writeMatch,
        readMatch.increment members inBounds⟩
      cases writeLocks with
      | none => simp [inBounds, insertEq, LockCount.increment_of_lt fits]
      | some writer =>
          simp [writesHere writer rfl, inBounds, insertEq, LockCount.increment_of_lt fits]

/-- Releasing a write lock the thread holds: one write lock fewer on that thread, and the
entry goes once the account has no lock left. -/
theorem writeUnlockAccount_eq (entryMatch : EntryMatches writes reads (self.locks account))
    (held : writes threadId ≠ 0) :
    ∃ entry, self.writeUnlockAccount account threadId = some (self.setLocks account entry) ∧
      EntryMatches (removeHold writes threadId) reads entry := by
  unfold writeUnlockAccount
  cases entryEq : self.locks account with
  | none =>
      rw [entryEq] at entryMatch
      exact absurd (entryMatch.1 threadId) held
  | some entry =>
      rw [entryEq] at entryMatch
      obtain ⟨-, writeMatch, readMatch⟩ := entryMatch
      obtain ⟨writeLocks, readLocks⟩ := entry
      cases writeLocks with
      | none => exact absurd (writeMatch threadId) held
      | some writer =>
          have holder := writeMatch.threadId_eq held
          have decrementEq := LockCount.decrement_of_ne_zero writeMatch.holder.2
          by_cases last : writer.lockCount - 1 = 0
          · have noWriter := writeMatch.decrement_of_last holder last
            cases readLocks with
            | none => exact ⟨.none, by simp [holder, decrementEq, last], noWriter, readMatch⟩
            | some readers =>
                exact ⟨some ⟨.none, some readers⟩, by simp [holder, decrementEq, last], by simp,
                  noWriter, readMatch⟩
          · exact ⟨some ⟨some { writer with lockCount := writer.lockCount - 1 }, readLocks⟩,
              by simp [holder, decrementEq, last], by simp, writeMatch.decrement holder last,
              readMatch⟩

/-- Releasing a read lock the thread holds: one read lock fewer on that thread; its bit goes
with its last read lock, and the entry once the account has no lock left. -/
theorem readUnlockAccount_eq (entryMatch : EntryMatches writes reads (self.locks account))
    (held : reads threadId ≠ 0) :
    ∃ entry, self.readUnlockAccount account threadId = some (self.setLocks account entry) ∧
      EntryMatches writes (removeHold reads threadId) entry := by
  unfold readUnlockAccount
  cases entryEq : self.locks account with
  | none =>
      rw [entryEq] at entryMatch
      exact absurd (entryMatch.2 threadId) held
  | some entry =>
      rw [entryEq] at entryMatch
      obtain ⟨-, writeMatch, readMatch⟩ := entryMatch
      obtain ⟨writeLocks, readLocks⟩ := entry
      cases readLocks with
      | none => exact absurd (readMatch threadId) held
      | some readers =>
          have member : threadId ∈ readers.threadSet := (readMatch.2.1 threadId).mpr held
          have inBounds := ThreadSet.lt_of_mem member
          have containsEq := @ThreadSet.contains_eq readers.threadSet _ inBounds
          have decrementEq : LockCount.decrement readers.lockCounts[threadId] =
              some (readers.lockCounts[threadId] - 1) := by
            rw [readMatch.2.2 threadId inBounds]
            exact LockCount.decrement_of_ne_zero held
          by_cases last : readers.lockCounts[threadId] - 1 = 0
          · obtain ⟨removed, removeEq, members⟩ := @ThreadSet.remove_eq readers.threadSet _ inBounds
            obtain ⟨removedMembers, counts⟩ := readMatch.decrement_of_last inBounds last members
            cases empty : removed.isEmpty with
            | true =>
                -- The last reader left.
                have noReader : ∀ other, removeHold reads threadId other = 0 := by
                  intro other
                  by_contra reading
                  exact ThreadSet.isEmpty_iff.mp empty other ((removedMembers other).mpr reading)
                cases writeLocks with
                | none =>
                    exact ⟨.none, by simp [inBounds, containsEq, member, decrementEq, last, removeEq,
                      empty], writeMatch, noReader⟩
                | some writer =>
                    exact ⟨some ⟨some writer, .none⟩, by simp [inBounds, containsEq, member,
                      decrementEq, last, removeEq, empty], by simp, writeMatch, noReader⟩
            | false =>
                have reader : ∃ other, removeHold reads threadId other ≠ 0 := by
                  by_contra noReader
                  simp only [ne_eq, not_exists, not_not] at noReader
                  have nowhere : removed.isEmpty = true := ThreadSet.isEmpty_iff.mpr fun other inside =>
                    (removedMembers other).mp inside (noReader other)
                  rw [empty] at nowhere
                  contradiction
                exact ⟨some ⟨writeLocks, some ⟨removed, readers.lockCounts.set threadId
                  (readers.lockCounts[threadId] - 1) inBounds⟩⟩, by simp [inBounds, containsEq,
                  member, decrementEq, last, removeEq, empty], by simp, writeMatch, reader,
                  removedMembers, counts⟩
          · exact ⟨some ⟨writeLocks, some ⟨readers.threadSet, readers.lockCounts.set threadId
              (readers.lockCounts[threadId] - 1) inBounds⟩⟩, by simp [inBounds, containsEq, member,
              decrementEq, last], by simp, writeMatch, readMatch.decrement inBounds last⟩

/-- The threads that may take every lock of a transaction. -/
def Feasible (numThreads : Nat) (writes reads : α → ThreadId → Nat)
    (writeAccountLocks readAccountLocks : List α) (threadId : ThreadId) : Prop :=
  threadId < numThreads ∧
    (∀ account ∈ writeAccountLocks, Compatible true (writes account) (reads account) threadId) ∧
    ∀ account ∈ readAccountLocks, Compatible false (writes account) (reads account) threadId

section Schedulable

variable {writes reads : α → ThreadId → Nat}
  (entryMatch : ∀ account, EntryMatches (writes account) (reads account) (self.locks account))
  (exclusive : ∀ account, Exclusive (writes account) (reads account))
  (bounded : ∀ account, Bounded self.numThreads (writes account) (reads account))
  (numBound : self.numThreads ≤ maxThreads)
include entryMatch exclusive bounded numBound

omit [DecidableEq α] in
/-- The loop narrows a nonempty set to the threads of it that may lock every account, or gives
`None` when none may. -/
theorem narrowSchedulableThreads_eq (write : Bool) (accounts : List α) :
    ∀ start : ThreadSet, (∃ threadId, threadId ∈ start) →
      ∃ result, self.narrowSchedulableThreads write accounts start = some result ∧
        (∀ set, result = some set → ∃ threadId, threadId ∈ set) ∧
        ∀ threadId, (∃ set, result = some set ∧ threadId ∈ set) ↔
          threadId ∈ start ∧ ∀ account ∈ accounts,
            threadId < self.numThreads ∧ Compatible write (writes account) (reads account) threadId := by
  induction accounts with
  | nil =>
      intro start nonempty
      refine ⟨some start, rfl, fun set same => ?_, fun threadId => ?_⟩
      · cases same
        exact nonempty
      · simp
  | cons account rest ih =>
      intro start nonempty
      obtain ⟨threads, threadsEq, members⟩ := schedulableThreads_eq (entryMatch account)
        (exclusive account) (bounded account) numBound write
      simp only [narrowSchedulableThreads, threadsEq, Option.bind_some]
      by_cases empty : (start &&& threads).isEmpty = true
      · -- Nothing is left: the loop gives up.
        rw [if_pos empty]
        refine ⟨.none, rfl, fun set same => (by cases same), fun threadId => ?_⟩
        have outside := ThreadSet.isEmpty_iff.mp empty threadId
        rw [ThreadSet.mem_and, members] at outside
        simp only [reduceCtorEq, false_and, exists_false, false_iff, List.forall_mem_cons]
        tauto
      · rw [if_neg empty]
        have left : ∃ threadId, threadId ∈ start &&& threads := by
          by_contra nothing
          exact empty (ThreadSet.isEmpty_iff.mpr fun threadId member => nothing ⟨threadId, member⟩)
        obtain ⟨result, resultEq, nonemptyResult, spec⟩ := ih (start &&& threads) left
        refine ⟨result, resultEq, nonemptyResult, fun threadId => ?_⟩
        rw [spec, ThreadSet.mem_and, members, List.forall_mem_cons]
        tauto

omit [DecidableEq α] in
/-- `accounts_schedulable_threads`: the threads that may take every lock, or `None` when there
are none. -/
theorem accountsSchedulableThreads_eq (positive : 0 < self.numThreads)
    (writeAccountLocks readAccountLocks : List α) :
    ∃ result, self.accountsSchedulableThreads writeAccountLocks readAccountLocks = some result ∧
      (∀ set, result = some set → ∃ threadId, threadId ∈ set) ∧
      ∀ threadId, (∃ set, result = some set ∧ threadId ∈ set) ↔
        Feasible self.numThreads writes reads writeAccountLocks readAccountLocks threadId := by
  obtain ⟨start, anyEq, startMembers⟩ := ThreadSet.any_eq numBound
  have nonempty : ∃ threadId, threadId ∈ start := ⟨0, (startMembers 0).mpr positive⟩
  obtain ⟨afterWrites, writesEq, writesNonempty, writesSpec⟩ :=
    narrowSchedulableThreads_eq entryMatch exclusive bounded numBound true writeAccountLocks
      start nonempty
  simp only [accountsSchedulableThreads, anyEq, Option.bind_some, writesEq]
  cases afterWrites with
  | none =>
      -- No thread may take the writable accounts.
      refine ⟨.none, rfl, fun set same => (by cases same), fun threadId => ?_⟩
      have nobody := writesSpec threadId
      simp only [reduceCtorEq, false_and, exists_false, false_iff, startMembers] at nobody
      simp only [reduceCtorEq, false_and, exists_false, false_iff, Feasible]
      rintro ⟨below, writable, -⟩
      exact nobody ⟨below, fun account member => ⟨below, writable account member⟩⟩
  | some writable =>
      obtain ⟨result, readsEq, readsNonempty, readsSpec⟩ :=
        narrowSchedulableThreads_eq entryMatch exclusive bounded numBound false readAccountLocks
          writable (writesNonempty writable rfl)
      refine ⟨result, readsEq, readsNonempty, fun threadId => ?_⟩
      have writableMembers : threadId ∈ writable ↔ threadId ∈ start ∧
          ∀ account ∈ writeAccountLocks, threadId < self.numThreads ∧
            Compatible true (writes account) (reads account) threadId := by
        simpa using writesSpec threadId
      rw [readsSpec, writableMembers, startMembers, Feasible]
      constructor
      · rintro ⟨⟨below, writes⟩, reads⟩
        exact ⟨below, fun account member => (writes account member).2,
          fun account member => (reads account member).2⟩
      · rintro ⟨below, writes, reads⟩
        exact ⟨⟨below, fun account member => ⟨below, writes account member⟩⟩,
          fun account member => ⟨below, reads account member⟩⟩

end Schedulable

end ThreadAwareAccountLocks

end Validator.BankingStage
