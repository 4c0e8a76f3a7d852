import Validator.Data.Trace
import Validator.BankingStage.AccountLocksLoops

namespace Validator.BankingStage

open Validator.Data
open ThreadAwareAccountLocks (Feasible LocksMatch TryLockSpec)

/-! # The account locks over a run of calls

The scheduler calls `try_lock_accounts` and, once a batch is done, `unlock_accounts` with the
accounts and the thread of a request it was granted (`complete_batch`).  A `Session` pairs
the locks with the requests granted and not yet unlocked, the holds.  The caller's promises
are the fields of `Admissible` and the premises of `Step`.

What each account's entry must record is read off the holds (`Hold.writeCounts`,
`Hold.readCounts`); `Inv` says the entries record it, that a writer holds its account alone,
and that only existing threads hold locks.  Every step keeps `Inv`, since each call is
specified by `tryLockAccounts_eq` and `unlockAccounts_eq` against these counts.
-/

/-- A request `try_lock_accounts` granted and not yet unlocked: its accounts and the thread it
returned. -/
structure Hold (α : Type) where
  writeAccountLocks : List α
  readAccountLocks : List α
  threadId : ThreadId
deriving DecidableEq, Repr

namespace Hold

variable {α : Type} [DecidableEq α]

/-- The holds of `threadId` with `account` in the list `accounts` picks. -/
def count (accounts : Hold α → List α) (holds : List (Hold α)) (account : α)
    (threadId : ThreadId) : Nat :=
  holds.countP fun hold => account ∈ accounts hold ∧ hold.threadId = threadId

/-- The write locks the holds take, per account and thread. -/
abbrev writeCounts (holds : List (Hold α)) : α → ThreadId → Nat :=
  count writeAccountLocks holds

/-- The read locks the holds take, per account and thread. -/
abbrev readCounts (holds : List (Hold α)) : α → ThreadId → Nat :=
  count readAccountLocks holds

/-- How many holds include `account`. -/
def onAccount (holds : List (Hold α)) (account : α) : Nat :=
  holds.countP fun hold => account ∈ hold.writeAccountLocks ++ hold.readAccountLocks

/-- The hold a call adds: one when it granted the request, none when it refused. -/
def granted (writeAccountLocks readAccountLocks : List α) :
    Except TryLockError ThreadId → List (Hold α)
  | .ok threadId => [⟨writeAccountLocks, readAccountLocks, threadId⟩]
  | .error _ => []

/-- A request conflicts with a hold when one of them writes an account the other locks. -/
def ConflictsWith (hold : Hold α) (writeAccountLocks readAccountLocks : List α) : Prop :=
  (∃ account ∈ writeAccountLocks, account ∈ hold.writeAccountLocks ++ hold.readAccountLocks) ∨
    ∃ account ∈ readAccountLocks, account ∈ hold.writeAccountLocks

/-! ## The counts of the holds -/

variable (accounts : Hold α → List α)

theorem count_ne_zero_iff {holds : List (Hold α)} {account : α} {threadId : ThreadId} :
    count accounts holds account threadId ≠ 0 ↔
      ∃ hold ∈ holds, account ∈ accounts hold ∧ hold.threadId = threadId := by
  rw [← Nat.pos_iff_ne_zero, count, List.countP_pos_iff]
  simp

/-- A new hold: one lock more of its thread on each of its accounts. -/
theorem count_cons (hold : Hold α) (holds : List (Hold α)) :
    count accounts (hold :: holds) =
      changeOn (count accounts holds) (accounts hold) (addHold · hold.threadId) := by
  funext account threadId
  by_cases member : account ∈ accounts hold
  · by_cases same : threadId = hold.threadId
    · simp [count, changeOn, member, same]
    · simp [count, changeOn, member, same, Ne.symm same]
  · simp [count, changeOn, member]

/-- A hold unlocked: one lock fewer of its thread on each of its accounts. -/
theorem count_erase {hold : Hold α} {holds : List (Hold α)} (held : hold ∈ holds) :
    count accounts (holds.erase hold) =
      changeOn (count accounts holds) (accounts hold) (removeHold · hold.threadId) := by
  have regrouped : count accounts holds = count accounts (hold :: holds.erase hold) := by
    funext account threadId
    exact (List.perm_cons_erase held).countP_eq _
  rw [regrouped, count_cons]
  funext account threadId
  by_cases member : account ∈ accounts hold <;> simp [changeOn, addHold, removeHold, member]

theorem count_le_onAccount (inHold : ∀ hold account, account ∈ accounts hold →
      account ∈ hold.writeAccountLocks ++ hold.readAccountLocks)
    (holds : List (Hold α)) (account : α) (threadId : ThreadId) :
    count accounts holds account threadId ≤ onAccount holds account := by
  apply List.countP_mono_left
  intro hold _ counted
  simp only [decide_eq_true_eq] at counted ⊢
  exact inHold hold account counted.1

end Hold

/-! ## What a writer or a reader leaves possible

`Exclusive` and `Bounded` hold of the counts of each account.  They survive one more lock of
a thread that may take it, and any lock released.
-/

section Counts

variable {writes reads : ThreadId → Nat} {threadId : ThreadId}

theorem Exclusive.mono {smallerWrites smallerReads : ThreadId → Nat}
    (exclusive : Exclusive writes reads) (writesLe : ∀ other, smallerWrites other ≤ writes other)
    (readsLe : ∀ other, smallerReads other ≤ reads other) :
    Exclusive smallerWrites smallerReads := by
  intro writer writing other differ
  have compatible := exclusive writer fun zero => writing (by have := writesLe writer; omega)
  obtain ⟨noWrites, noReads⟩ := compatible other differ
  refine ⟨by have := writesLe other; omega, fun _ => ?_⟩
  have := readsLe other
  have := noReads rfl
  omega

theorem Bounded.mono {numThreads : Nat} {smallerWrites smallerReads : ThreadId → Nat}
    (bounded : Bounded numThreads writes reads)
    (writesLe : ∀ other, smallerWrites other ≤ writes other)
    (readsLe : ∀ other, smallerReads other ≤ reads other) :
    Bounded numThreads smallerWrites smallerReads := by
  intro holder holding
  apply bounded holder
  have := writesLe holder
  have := readsLe holder
  omega

/-- A write lock of a thread no other thread locks against leaves the writer alone, whatever
held before. -/
theorem Compatible.exclusive_addHold (compatible : Compatible true writes reads threadId) :
    Exclusive (addHold writes threadId) reads := by
  intro writer writing other differ
  by_cases same : writer = threadId
  · subst same
    obtain ⟨noWrites, noReads⟩ := compatible other differ
    exact ⟨by simp [differ, noWrites], noReads⟩
  · -- Another writer would have made the new write lock incompatible.
    rw [addHold_of_ne _ same] at writing
    exact absurd (compatible writer same).1 writing

/-- A read lock of a thread no other thread writes against keeps every writer alone. -/
theorem Exclusive.addHold_reads (exclusive : Exclusive writes reads)
    (compatible : Compatible false writes reads threadId) :
    Exclusive writes (addHold reads threadId) := by
  intro writer writing other differ
  have same : writer = threadId := by
    by_contra differs
    exact writing (compatible writer differs).1
  subst same
  obtain ⟨noWrites, noReads⟩ := exclusive writer writing other differ
  exact ⟨noWrites, fun write => by simp [differ, noReads write]⟩

theorem Bounded.addHold_writes {numThreads : Nat} (bounded : Bounded numThreads writes reads)
    (below : threadId < numThreads) : Bounded numThreads (addHold writes threadId) reads := by
  intro holder holding
  by_cases same : holder = threadId
  · rw [same]
    exact below
  · rw [addHold_of_ne _ same] at holding
    exact bounded holder holding

theorem Bounded.symm {numThreads : Nat} (bounded : Bounded numThreads writes reads) :
    Bounded numThreads reads writes :=
  fun holder holding => bounded holder holding.symm

theorem Bounded.addHold_reads {numThreads : Nat} (bounded : Bounded numThreads writes reads)
    (below : threadId < numThreads) : Bounded numThreads writes (addHold reads threadId) :=
  (bounded.symm.addHold_writes below).symm

end Counts

/-! ## The counts of the accounts of a request -/

section Accounts

variable {α : Type} [DecidableEq α] {writes reads : α → ThreadId → Nat} {numThreads : Nat}
  {writeAccountLocks readAccountLocks : List α} {threadId : ThreadId}

/-- Locking a request for a thread that may take it keeps every writer alone. -/
theorem exclusive_changeOn_addHold (exclusive : ∀ account, Exclusive (writes account) (reads account))
    (feasible : Feasible numThreads writes reads writeAccountLocks readAccountLocks threadId)
    (disjoint : ∀ account ∈ writeAccountLocks, account ∉ readAccountLocks) (account : α) :
    Exclusive (changeOn writes writeAccountLocks (addHold · threadId) account)
      (changeOn reads readAccountLocks (addHold · threadId) account) := by
  by_cases inWrites : account ∈ writeAccountLocks
  · simp only [changeOn, inWrites, if_true, disjoint account inWrites, if_false]
    exact (feasible.2.1 account inWrites).exclusive_addHold
  · by_cases inReads : account ∈ readAccountLocks
    · simp only [changeOn, inWrites, inReads, if_true, if_false]
      exact (exclusive account).addHold_reads (feasible.2.2 account inReads)
    · simp only [changeOn, inWrites, inReads, if_false]
      exact exclusive account

/-- Locking a request for a thread that may take it keeps the locks on existing threads. -/
theorem bounded_changeOn_addHold
    (bounded : ∀ account, Bounded numThreads (writes account) (reads account))
    (feasible : Feasible numThreads writes reads writeAccountLocks readAccountLocks threadId)
    (account : α) :
    Bounded numThreads (changeOn writes writeAccountLocks (addHold · threadId) account)
      (changeOn reads readAccountLocks (addHold · threadId) account) := by
  have below := feasible.1
  by_cases inWrites : account ∈ writeAccountLocks <;> by_cases inReads : account ∈ readAccountLocks
  · simpa [changeOn, inWrites, inReads] using
      ((bounded account).addHold_writes below).addHold_reads below
  · simpa [changeOn, inWrites, inReads] using (bounded account).addHold_writes below
  · simpa [changeOn, inWrites, inReads] using (bounded account).addHold_reads below
  · simpa [changeOn, inWrites, inReads] using bounded account

theorem changeOn_removeHold_le (counts : α → ThreadId → Nat) (accounts : List α)
    (account : α) (other : ThreadId) :
    changeOn counts accounts (removeHold · threadId) account other ≤ counts account other := by
  unfold changeOn
  split
  · exact Nat.sub_le _ _
  · exact Nat.le_refl _

end Accounts

/-! ## Which threads may take a request -/

section MayLock

variable {α : Type} [DecidableEq α]

/-- `threadId` may take the locks of a request beside the holds: it exists, and every hold
that conflicts with the request is its own. -/
def MayLock (numThreads : Nat) (holds : List (Hold α)) (writeAccountLocks readAccountLocks : List α)
    (threadId : ThreadId) : Prop :=
  threadId < numThreads ∧
    ∀ hold ∈ holds, hold.ConflictsWith writeAccountLocks readAccountLocks → hold.threadId = threadId

/-- What `try_lock_accounts` returns, in terms of the holds: `MultipleConflicts` exactly when
no thread may take the request, `ThreadNotAllowed` exactly when only threads outside
`allowed_threads` may, and otherwise the selector's pick among the allowed threads that may. -/
def TryLockOutcome (numThreads : Nat) (holds : List (Hold α))
    (writeAccountLocks readAccountLocks : List α) (allowedThreads : ThreadSet)
    (threadSelector : ThreadSet → ThreadId) (result : Except TryLockError ThreadId) : Prop :=
  (result = .error .multipleConflicts ↔
    ∀ threadId, ¬ MayLock numThreads holds writeAccountLocks readAccountLocks threadId) ∧
  (result = .error .threadNotAllowed ↔
    (∃ threadId, MayLock numThreads holds writeAccountLocks readAccountLocks threadId) ∧
      ∀ threadId, MayLock numThreads holds writeAccountLocks readAccountLocks threadId →
        threadId ∉ allowedThreads) ∧
  ∀ threadId, result = .ok threadId → ∃ candidates : ThreadSet,
    (∀ other, other ∈ candidates ↔
      MayLock numThreads holds writeAccountLocks readAccountLocks other ∧ other ∈ allowedThreads) ∧
    threadSelector candidates = threadId

variable {holds : List (Hold α)} {account : α} {threadId : ThreadId}

/-- A thread may lock an account beside the holds when every hold of it that writes it, or
for a write every hold that locks it at all, is on that thread. -/
theorem compatible_counts_iff {write : Bool} :
    Compatible write (Hold.writeCounts holds account) (Hold.readCounts holds account) threadId ↔
      ∀ hold ∈ holds, account ∈ hold.writeAccountLocks ∨
        write = true ∧ account ∈ hold.readAccountLocks → hold.threadId = threadId := by
  constructor
  · rintro compatible hold member uses
    by_contra differ
    obtain ⟨noWrites, noReads⟩ := compatible hold.threadId differ
    rcases uses with inWrites | ⟨write, inReads⟩
    · exact (Hold.count_ne_zero_iff _).mpr ⟨hold, member, inWrites, rfl⟩ noWrites
    · exact (Hold.count_ne_zero_iff _).mpr ⟨hold, member, inReads, rfl⟩ (noReads write)
  · intro same other differ
    refine ⟨?_, fun write => ?_⟩
    · by_contra writing
      obtain ⟨hold, member, inWrites, rfl⟩ := (Hold.count_ne_zero_iff _).mp writing
      exact differ (same hold member (Or.inl inWrites))
    · by_contra reading
      obtain ⟨hold, member, inReads, rfl⟩ := (Hold.count_ne_zero_iff _).mp reading
      exact differ (same hold member (Or.inr ⟨write, inReads⟩))

/-- The threads the code finds schedulable are those that may take the request. -/
theorem feasible_iff_mayLock {numThreads : Nat} {writeAccountLocks readAccountLocks : List α} :
    Feasible numThreads (Hold.writeCounts holds) (Hold.readCounts holds) writeAccountLocks
        readAccountLocks threadId ↔
      MayLock numThreads holds writeAccountLocks readAccountLocks threadId := by
  simp only [Feasible, MayLock, compatible_counts_iff, Hold.ConflictsWith, List.mem_append]
  refine and_congr_right fun _ => ⟨?_, ?_⟩
  · rintro ⟨writable, readable⟩ hold member
      (⟨account, inRequest, inHold⟩ | ⟨account, inRequest, inHold⟩)
    · exact writable account inRequest hold member (inHold.imp_right fun inReads => ⟨trivial, inReads⟩)
    · exact readable account inRequest hold member (Or.inl inHold)
  · intro mayLock
    refine ⟨fun account inRequest hold member uses => ?_, fun account inRequest hold member uses => ?_⟩
    · exact mayLock hold member (Or.inl ⟨account, inRequest, uses.imp_right And.right⟩)
    · -- A read conflicts only with a hold that writes the account.
      rcases uses with inWrites | ⟨never, _⟩
      · exact mayLock hold member (Or.inr ⟨account, inRequest, inWrites⟩)
      · cases never

end MayLock

/-! ## Sessions -/

/-- The locks, and the holds of the requests granted and not yet unlocked. -/
structure Session (α : Type) where
  locks : ThreadAwareAccountLocks α
  holds : List (Hold α)

/-- A call, with what it returned. -/
inductive Event (α : Type) where
  | tryLockAccounts (writeAccountLocks readAccountLocks : List α) (allowedThreads : ThreadSet)
      (threadSelector : ThreadSet → ThreadId) (result : Except TryLockError ThreadId)
  | unlockAccounts (hold : Hold α)

namespace Session

variable {α : Type} [DecidableEq α]

def initial (locks : ThreadAwareAccountLocks α) : Session α :=
  ⟨locks, []⟩

/-- What the caller promises of a `try_lock_accounts` call: an account is named once, the
selector picks from the set it is given, and each account has fewer than `2^32` holds with
this one. -/
structure Admissible (holds : List (Hold α)) (writeAccountLocks readAccountLocks : List α)
    (threadSelector : ThreadSet → ThreadId) : Prop where
  distinct : (writeAccountLocks ++ readAccountLocks).Nodup
  selects : ∀ set : ThreadSet, (∃ threadId, threadId ∈ set) → threadSelector set ∈ set
  room : ∀ account ∈ writeAccountLocks ++ readAccountLocks, Hold.onAccount holds account + 1 < 2 ^ 32

/-- One call: `try_lock_accounts` on an admissible request, or `unlock_accounts` of a hold, as
`complete_batch` does with the accounts and thread of a granted request. -/
inductive Step : Session α → Event α → Session α → Prop
  | tryLockAccounts {session : Session α} {writeAccountLocks readAccountLocks : List α}
      {allowedThreads : ThreadSet} {threadSelector : ThreadSet → ThreadId}
      {locks : ThreadAwareAccountLocks α} {result : Except TryLockError ThreadId}
      (admissible : Admissible session.holds writeAccountLocks readAccountLocks threadSelector)
      (called : session.locks.tryLockAccounts writeAccountLocks readAccountLocks allowedThreads
        threadSelector = some (locks, result)) :
      Step session (.tryLockAccounts writeAccountLocks readAccountLocks allowedThreads
        threadSelector result)
        ⟨locks, Hold.granted writeAccountLocks readAccountLocks result ++ session.holds⟩
  | unlockAccounts {session : Session α} {hold : Hold α} {locks : ThreadAwareAccountLocks α}
      (held : hold ∈ session.holds)
      (called : session.locks.unlockAccounts hold.writeAccountLocks hold.readAccountLocks
        hold.threadId = some locks) :
      Step session (.unlockAccounts hold) ⟨locks, session.holds.erase hold⟩

/-- What holds in every reachable session of locks made for `numThreads` threads. -/
structure Inv (numThreads : Nat) (session : Session α) : Prop where
  numThreadsEq : session.locks.numThreads = numThreads
  positive : 0 < numThreads
  numBound : numThreads ≤ maxThreads
  locksMatch : session.locks.LocksMatch (Hold.writeCounts session.holds)
    (Hold.readCounts session.holds)
  exclusive : ∀ account, Exclusive (Hold.writeCounts session.holds account)
    (Hold.readCounts session.holds account)
  bounded : ∀ account, Bounded numThreads (Hold.writeCounts session.holds account)
    (Hold.readCounts session.holds account)
  distinct : ∀ hold ∈ session.holds, (hold.writeAccountLocks ++ hold.readAccountLocks).Nodup

variable {numThreads : Nat} {session : Session α}

theorem Inv.initial {locks : ThreadAwareAccountLocks α}
    (created : ThreadAwareAccountLocks.new numThreads = some locks) :
    Inv numThreads (Session.initial locks) := by
  unfold ThreadAwareAccountLocks.new at created
  split at created
  · rename_i bounds
    cases created
    -- No hold yet: every count is zero.
    refine ⟨rfl, bounds.1, bounds.2, fun _ => ⟨fun _ => rfl, fun _ => rfl⟩, ?_, ?_,
      fun _ member => absurd member List.not_mem_nil⟩
    · intro account writer writing
      exact absurd rfl writing
    · intro account holder holding
      exact holding.elim (absurd rfl) (absurd rfl)
  · cases created

/-- An admissible `try_lock_accounts` returns, as `TryLockSpec` says. -/
theorem Inv.tryLockAccounts_spec (inv : Inv numThreads session)
    {writeAccountLocks readAccountLocks : List α} {threadSelector : ThreadSet → ThreadId}
    (admissible : Admissible session.holds writeAccountLocks readAccountLocks threadSelector)
    (allowedThreads : ThreadSet) :
    ∃ result, session.locks.tryLockAccounts writeAccountLocks readAccountLocks allowedThreads
        threadSelector = some result ∧
      ThreadAwareAccountLocks.TryLockSpec session.locks (Hold.writeCounts session.holds)
        (Hold.readCounts session.holds) writeAccountLocks readAccountLocks allowedThreads
        threadSelector result := by
  have writeInHold : ∀ (hold : Hold α) account, account ∈ hold.writeAccountLocks →
      account ∈ hold.writeAccountLocks ++ hold.readAccountLocks :=
    fun _ _ member => List.mem_append_left _ member
  have readInHold : ∀ (hold : Hold α) account, account ∈ hold.readAccountLocks →
      account ∈ hold.writeAccountLocks ++ hold.readAccountLocks :=
    fun _ _ member => List.mem_append_right _ member
  rw [← inv.numThreadsEq] at inv
  exact ThreadAwareAccountLocks.tryLockAccounts_eq inv.locksMatch inv.exclusive inv.bounded
    inv.positive inv.numBound admissible.distinct
    (fun account member threadId => Nat.lt_of_le_of_lt
      (Nat.add_le_add_right (Hold.count_le_onAccount _ writeInHold _ _ _) 1)
      (admissible.room account (List.mem_append_left _ member)))
    (fun account member threadId => Nat.lt_of_le_of_lt
      (Nat.add_le_add_right (Hold.count_le_onAccount _ readInHold _ _ _) 1)
      (admissible.room account (List.mem_append_right _ member)))
    allowedThreads admissible.selects

/-- A granted request adds its hold, and a refused one changes nothing. -/
theorem Inv.tryLockAccounts (inv : Inv numThreads session)
    {writeAccountLocks readAccountLocks : List α} {allowedThreads : ThreadSet}
    {threadSelector : ThreadSet → ThreadId} {locks : ThreadAwareAccountLocks α}
    {result : Except TryLockError ThreadId}
    (admissible : Admissible session.holds writeAccountLocks readAccountLocks threadSelector)
    (called : session.locks.tryLockAccounts writeAccountLocks readAccountLocks allowedThreads
      threadSelector = some (locks, result)) :
    Inv numThreads ⟨locks, Hold.granted writeAccountLocks readAccountLocks result ++ session.holds⟩ := by
  obtain ⟨outcome, outcomeEq, spec⟩ := inv.tryLockAccounts_spec admissible allowedThreads
  rw [called, Option.some.injEq] at outcomeEq
  subst outcomeEq
  cases result with
  | error error =>
      cases error <;>
      · obtain ⟨same, -⟩ := spec
        subst same
        exact inv
  | ok threadId =>
      obtain ⟨-, feasible, -, lockedNum, lockedMatch⟩ := spec
      have disjoint : ∀ account ∈ writeAccountLocks, account ∉ readAccountLocks :=
        fun account inWrites inReads =>
          (List.nodup_append.mp admissible.distinct).2.2 account inWrites account inReads rfl
      have writesEq : Hold.writeCounts (Hold.granted writeAccountLocks readAccountLocks
          (.ok threadId) ++ session.holds) =
          changeOn (Hold.writeCounts session.holds) writeAccountLocks (addHold · threadId) :=
        Hold.count_cons _ _ _
      have readsEq : Hold.readCounts (Hold.granted writeAccountLocks readAccountLocks
          (.ok threadId) ++ session.holds) =
          changeOn (Hold.readCounts session.holds) readAccountLocks (addHold · threadId) :=
        Hold.count_cons _ _ _
      rw [inv.numThreadsEq] at feasible
      refine ⟨lockedNum.trans inv.numThreadsEq, inv.positive, inv.numBound, ?_, ?_, ?_, ?_⟩
      · rw [writesEq, readsEq]
        exact lockedMatch
      · rw [writesEq, readsEq]
        exact exclusive_changeOn_addHold inv.exclusive feasible disjoint
      · rw [writesEq, readsEq]
        exact bounded_changeOn_addHold inv.bounded feasible
      · intro hold member
        rcases List.mem_cons.mp member with rfl | old
        · exact admissible.distinct
        · exact inv.distinct hold old

/-- Unlocking a hold returns, with one lock fewer of its thread on each of its accounts. -/
theorem Inv.unlockAccounts_spec (inv : Inv numThreads session) {hold : Hold α}
    (held : hold ∈ session.holds) :
    ∃ unlocked, session.locks.unlockAccounts hold.writeAccountLocks hold.readAccountLocks
        hold.threadId = some unlocked ∧
      unlocked.numThreads = session.locks.numThreads ∧
      unlocked.LocksMatch
        (changeOn (Hold.writeCounts session.holds) hold.writeAccountLocks (removeHold · hold.threadId))
        (changeOn (Hold.readCounts session.holds) hold.readAccountLocks (removeHold · hold.threadId)) :=
  ThreadAwareAccountLocks.unlockAccounts_eq inv.locksMatch (inv.distinct hold held)
    (fun _ member => (Hold.count_ne_zero_iff _).mpr ⟨hold, held, member, rfl⟩)
    (fun _ member => (Hold.count_ne_zero_iff _).mpr ⟨hold, held, member, rfl⟩)

/-- Unlocking a hold removes it. -/
theorem Inv.unlockAccounts (inv : Inv numThreads session) {hold : Hold α}
    {locks : ThreadAwareAccountLocks α} (held : hold ∈ session.holds)
    (called : session.locks.unlockAccounts hold.writeAccountLocks hold.readAccountLocks
      hold.threadId = some locks) :
    Inv numThreads ⟨locks, session.holds.erase hold⟩ := by
  obtain ⟨unlocked, unlockedEq, unlockedNum, unlockedMatch⟩ := inv.unlockAccounts_spec held
  rw [called, Option.some.injEq] at unlockedEq
  subst unlockedEq
  have writesEq : Hold.writeCounts (session.holds.erase hold) =
      changeOn (Hold.writeCounts session.holds) hold.writeAccountLocks (removeHold · hold.threadId) :=
    Hold.count_erase _ held
  have readsEq : Hold.readCounts (session.holds.erase hold) =
      changeOn (Hold.readCounts session.holds) hold.readAccountLocks (removeHold · hold.threadId) :=
    Hold.count_erase _ held
  -- Releasing locks only lowers counts, which keeps `Exclusive` and `Bounded`.
  refine ⟨unlockedNum.trans inv.numThreadsEq, inv.positive, inv.numBound, ?_,
    fun account => ?_, fun account => ?_,
    fun other member => inv.distinct other (List.mem_of_mem_erase member)⟩
  · rw [writesEq, readsEq]
    exact unlockedMatch
  · rw [writesEq, readsEq]
    exact (inv.exclusive account).mono (changeOn_removeHold_le _ _ account)
      (changeOn_removeHold_le _ _ account)
  · rw [writesEq, readsEq]
    exact (inv.bounded account).mono (changeOn_removeHold_le _ _ account)
      (changeOn_removeHold_le _ _ account)

theorem Inv.step (inv : Inv numThreads session) {event : Event α} {next : Session α}
    (step : Step session event next) : Inv numThreads next := by
  cases step with
  | tryLockAccounts admissible called => exact inv.tryLockAccounts admissible called
  | unlockAccounts held called => exact inv.unlockAccounts held called

theorem reachable_inv {locks : ThreadAwareAccountLocks α}
    (created : ThreadAwareAccountLocks.new numThreads = some locks)
    (reachable : Reachable Step (Session.initial locks) session) : Inv numThreads session :=
  reachable.invariant (Inv.initial created) fun _ _ _ inv step => inv.step step

/-! ## What the invariant says of the holds -/

/-- Every hold on an account some hold writes is on the writer's thread. -/
theorem Inv.threadId_eq_of_writes (inv : Inv numThreads session) {account : α}
    {writer other : Hold α} (writerHeld : writer ∈ session.holds)
    (writes : account ∈ writer.writeAccountLocks) (otherHeld : other ∈ session.holds)
    (uses : account ∈ other.writeAccountLocks ++ other.readAccountLocks) :
    other.threadId = writer.threadId := by
  have writing : Hold.writeCounts session.holds account writer.threadId ≠ 0 :=
    (Hold.count_ne_zero_iff _).mpr ⟨writer, writerHeld, writes, rfl⟩
  have compatible := compatible_counts_iff.mp (inv.exclusive account writer.threadId writing)
  exact compatible other otherHeld ((List.mem_append.mp uses).imp_right fun inReads => ⟨rfl, inReads⟩)

/-- An account has an entry exactly while some hold includes it. -/
theorem Inv.locks_isSome_iff (inv : Inv numThreads session) (account : α) :
    (session.locks.locks account).isSome ↔
      ∃ hold ∈ session.holds, account ∈ hold.writeAccountLocks ++ hold.readAccountLocks := by
  rw [(inv.locksMatch account).isSome_iff]
  constructor
  · rintro ⟨threadId, holding⟩
    rcases holding with writing | reading
    · obtain ⟨hold, held, member, -⟩ := (Hold.count_ne_zero_iff _).mp writing
      exact ⟨hold, held, List.mem_append_left _ member⟩
    · obtain ⟨hold, held, member, -⟩ := (Hold.count_ne_zero_iff _).mp reading
      exact ⟨hold, held, List.mem_append_right _ member⟩
  · rintro ⟨hold, held, member⟩
    refine ⟨hold.threadId, ?_⟩
    rcases List.mem_append.mp member with inWrites | inReads
    · exact Or.inl ((Hold.count_ne_zero_iff _).mpr ⟨hold, held, inWrites, rfl⟩)
    · exact Or.inr ((Hold.count_ne_zero_iff _).mpr ⟨hold, held, inReads, rfl⟩)

/-- An admissible `try_lock_accounts`, told in terms of the holds, returns as
`TryLockOutcome` says. -/
theorem Inv.tryLockAccounts_outcome (inv : Inv numThreads session)
    {writeAccountLocks readAccountLocks : List α} {threadSelector : ThreadSet → ThreadId}
    (admissible : Admissible session.holds writeAccountLocks readAccountLocks threadSelector)
    (allowedThreads : ThreadSet) :
    ∃ locked result, session.locks.tryLockAccounts writeAccountLocks readAccountLocks
        allowedThreads threadSelector = some (locked, result) ∧
      TryLockOutcome numThreads session.holds writeAccountLocks readAccountLocks allowedThreads
        threadSelector result := by
  obtain ⟨⟨locked, result⟩, called, spec⟩ := inv.tryLockAccounts_spec admissible allowedThreads
  refine ⟨locked, result, called, ?_⟩
  simp only [TryLockOutcome, ← feasible_iff_mayLock, ← inv.numThreadsEq]
  rcases result with (_ | _) | threadId
  · obtain ⟨-, nobody⟩ := spec
    exact ⟨iff_of_true rfl nobody,
      iff_of_false (by simp) fun ⟨⟨threadId, feasible⟩, _⟩ => nobody threadId feasible,
      fun _ never => by cases never⟩
  · obtain ⟨-, somebody, notAllowed⟩ := spec
    exact ⟨iff_of_false (by simp) fun nobody =>
        let ⟨threadId, feasible⟩ := somebody
        nobody threadId feasible,
      iff_of_true rfl ⟨somebody, notAllowed⟩, fun _ never => by cases never⟩
  · obtain ⟨picked, feasible, allowed, -⟩ := spec
    refine ⟨iff_of_false (by simp) fun nobody => nobody threadId feasible,
      iff_of_false (by simp) fun ⟨_, notAllowed⟩ => notAllowed threadId feasible allowed,
      fun other same => ?_⟩
    cases same
    exact picked

/-- The account locks over any run of admissible calls from `new(num_threads)`: every
admissible `try_lock_accounts` and every unlock of a hold returns, without an assert, a panic
or a shift past the last thread; `try_lock_accounts` refuses only when no allowed thread may
take the request; a hold that writes an account shares it with holds of its own thread only;
and each entry records exactly the locks of the holds on its account. -/
theorem account_locks_safe_exact_permissive {numThreads : Nat}
    {locks : ThreadAwareAccountLocks α}
    (created : ThreadAwareAccountLocks.new numThreads = some locks) {session : Session α}
    (reachable : Reachable Step (Session.initial locks) session) :
    (∀ writeAccountLocks readAccountLocks allowedThreads threadSelector,
      Admissible session.holds writeAccountLocks readAccountLocks threadSelector →
      ∃ locked result, session.locks.tryLockAccounts writeAccountLocks readAccountLocks
          allowedThreads threadSelector = some (locked, result) ∧
        TryLockOutcome numThreads session.holds writeAccountLocks readAccountLocks allowedThreads
          threadSelector result) ∧
    (∀ hold ∈ session.holds, ∃ unlocked, session.locks.unlockAccounts hold.writeAccountLocks
      hold.readAccountLocks hold.threadId = some unlocked) ∧
    (∀ account, ∀ writer ∈ session.holds, account ∈ writer.writeAccountLocks →
      ∀ other ∈ session.holds, account ∈ other.writeAccountLocks ++ other.readAccountLocks →
        other.threadId = writer.threadId) ∧
    session.locks.LocksMatch (Hold.writeCounts session.holds) (Hold.readCounts session.holds) ∧
    ∀ account, (session.locks.locks account).isSome ↔
      ∃ hold ∈ session.holds, account ∈ hold.writeAccountLocks ++ hold.readAccountLocks := by
  have inv := reachable_inv created reachable
  refine ⟨fun _ _ allowedThreads _ admissible => inv.tryLockAccounts_outcome admissible allowedThreads,
    fun hold held => ?_, fun _ _ writerHeld writes _ otherHeld uses =>
      inv.threadId_eq_of_writes writerHeld writes otherHeld uses, inv.locksMatch,
    inv.locks_isSome_iff⟩
  obtain ⟨unlocked, unlockEq, -⟩ := inv.unlockAccounts_spec held
  exact ⟨unlocked, unlockEq⟩

/-- Two threads, and one request that writes account `0`, whatever it returned. -/
theorem account_locks_one_request :
    ∃ locks session result, ThreadAwareAccountLocks.new 2 = some locks ∧
      Run Step (Session.initial locks)
        [.tryLockAccounts [(0 : Nat)] [] ⟨BitVec.allOnes 64⟩ ThreadSet.lowest result] session ∧
      session.locks.LocksMatch (Hold.writeCounts session.holds) (Hold.readCounts session.holds) := by
  let creation : Option (ThreadAwareAccountLocks Nat) := ThreadAwareAccountLocks.new 2
  have created : creation = some (creation.get rfl) := rfl
  have admissible : Admissible (Session.initial (creation.get rfl)).holds [0] [] ThreadSet.lowest :=
    ⟨by decide, fun _ => ThreadSet.lowest_mem, by decide⟩
  obtain ⟨⟨locked, result⟩, called, -⟩ :=
    (Inv.initial created).tryLockAccounts_spec admissible ⟨BitVec.allOnes 64⟩
  have run := Run.single (Step.tryLockAccounts admissible called)
  exact ⟨_, _, result, created, run,
    (account_locks_safe_exact_permissive created run.reachable).2.2.2.1⟩

end Session

end Validator.BankingStage
