import Mathlib.Data.Vector.Basic
import Validator.Data.BitSet

namespace Validator.BankingStage

open Validator.Data

/-! # Thread-aware account locks

The banking stage's scheduler locks the accounts of a transaction for one of its worker
threads.  An account may be write-locked by one thread, any number of times, and read-locked
by any threads; a thread that already holds an account may lock it again, so transactions can
be queued behind others on the same thread.

A `ThreadSet` is a `u64` with one bit per thread.  Shifting past bit 63 panics in the source's
debug builds, and so does a `u32` lock count that overflows or underflows; each of these, like
each `assert!`, `panic!` and `unreachable!()`, is `none` here.  The account map is a function
from accounts to their entries, `none` where the map has no entry.
-/

/-- `MAX_THREADS`: one bit of a `u64` per thread. -/
def maxThreads : Nat := 64

/-- `ThreadId`, below `MAX_THREADS`. -/
abbrev ThreadId := Nat

-- `LockCount = u32`, with the overflow checks of a debug build.
namespace LockCount

def increment (count : Nat) : Option Nat :=
  if count + 1 < 2 ^ 32 then some (count + 1) else none

def decrement (count : Nat) : Option Nat :=
  if count = 0 then none else some (count - 1)

end LockCount

/-- A bit-set of threads an account is scheduled or can be scheduled for. -/
structure ThreadSet where
  bits : BitVec 64
deriving DecidableEq, Repr

namespace ThreadSet

/-- `as_flag`: the shift overflows past bit 63. -/
def asFlag (threadId : ThreadId) : Option (BitVec 64) :=
  if threadId < maxThreads then some (1#64 <<< threadId) else none

def none : ThreadSet := ⟨0#64⟩

def any (numThreads : Nat) : Option ThreadSet :=
  if numThreads = maxThreads then some ⟨BitVec.allOnes 64⟩
  else (asFlag numThreads).map fun flag => ⟨flag - 1#64⟩

def only (threadId : ThreadId) : Option ThreadSet :=
  (asFlag threadId).map ThreadSet.mk

/-- `num_threads`: `count_ones` of the word. -/
def numThreads (set : ThreadSet) : Nat :=
  set.bits.cpop.toNat

/-- `only_one_contained`: the thread, when the set has exactly one, as `trailing_zeros`
finds it. -/
def onlyOneContained (set : ThreadSet) : Option ThreadId :=
  if set.numThreads = 1 then some set.bits.ctz.toNat else .none

def isEmpty (set : ThreadSet) : Bool :=
  set == ThreadSet.none

def contains (set : ThreadSet) (threadId : ThreadId) : Option Bool :=
  (asFlag threadId).map fun flag => (set.bits &&& flag) != 0#64

def insert (set : ThreadSet) (threadId : ThreadId) : Option ThreadSet :=
  (asFlag threadId).map fun flag => ⟨set.bits ||| flag⟩

def remove (set : ThreadSet) (threadId : ThreadId) : Option ThreadSet :=
  (asFlag threadId).map fun flag => ⟨set.bits &&& ~~~flag⟩

/-- `impl BitAnd for ThreadSet`. -/
instance : AndOp ThreadSet :=
  ⟨fun first second => ⟨first.bits &&& second.bits⟩⟩

end ThreadSet

structure AccountWriteLocks where
  threadId : ThreadId
  lockCount : Nat
deriving DecidableEq, Repr

structure AccountReadLocks where
  threadSet : ThreadSet
  lockCounts : Vector Nat maxThreads
deriving DecidableEq, Repr

/-- The locks on one account; `Default` is the entry `or_default()` inserts. -/
structure AccountLocks where
  writeLocks : Option AccountWriteLocks := .none
  readLocks : Option AccountReadLocks := .none
deriving DecidableEq, Repr

/-- Why `try_lock_accounts` refused. -/
inductive TryLockError where
  /-- Outstanding conflicts with multiple threads. -/
  | multipleConflicts
  /-- Outstanding conflict (if any) not in `allowed_threads`. -/
  | threadNotAllowed
deriving DecidableEq, Repr

structure ThreadAwareAccountLocks (α : Type) where
  numThreads : Nat
  /-- The entry of each account; an account has one only while some lock is held on it. -/
  locks : α → Option AccountLocks

namespace ThreadAwareAccountLocks

variable {α : Type} [DecidableEq α]

/-- `new`: asserts `0 < num_threads <= MAX_THREADS`. -/
def new (numThreads : Nat) : Option (ThreadAwareAccountLocks α) :=
  if 0 < numThreads ∧ numThreads ≤ maxThreads then some ⟨numThreads, fun _ => .none⟩
  else .none

/-- Write back the entry of one account (`.none` removes it). -/
def setLocks (self : ThreadAwareAccountLocks α) (account : α)
    (entry : Option AccountLocks) : ThreadAwareAccountLocks α :=
  { self with locks := Function.update self.locks account entry }

/-- `schedulable_threads::<WRITE>`. -/
def schedulableThreads (self : ThreadAwareAccountLocks α) (write : Bool) (account : α) :
    Option ThreadSet :=
  match self.locks account with
  | .none => ThreadSet.any self.numThreads
  | some ⟨.none, some readLocks⟩ =>
      if write then
        match readLocks.threadSet.onlyOneContained with
        | some threadId => ThreadSet.only threadId
        | .none => some ThreadSet.none
      else ThreadSet.any self.numThreads
  | some ⟨some writeLocks, .none⟩ => ThreadSet.only writeLocks.threadId
  | some ⟨some writeLocks, some readLocks⟩ =>
      -- `assert_eq!(read_locks.thread_set.only_one_contained(), Some(write_locks.thread_id))`
      if readLocks.threadSet.onlyOneContained = some writeLocks.threadId then
        some readLocks.threadSet
      else .none
  -- `unreachable!()`
  | some ⟨.none, .none⟩ => .none

def readSchedulableThreads (self : ThreadAwareAccountLocks α) (account : α) :
    Option ThreadSet :=
  self.schedulableThreads false account

def writeSchedulableThreads (self : ThreadAwareAccountLocks α) (account : α) :
    Option ThreadSet :=
  self.schedulableThreads true account

/-- One loop of `accounts_schedulable_threads`: narrow the set by each account's, and give up
with `None` as soon as it is empty. -/
def narrowSchedulableThreads (self : ThreadAwareAccountLocks α) (write : Bool) :
    List α → ThreadSet → Option (Option ThreadSet)
  | [], schedulable => some (some schedulable)
  | account :: rest, schedulable =>
      (self.schedulableThreads write account).bind fun threads =>
        if (schedulable &&& threads).isEmpty then some .none
        else self.narrowSchedulableThreads write rest (schedulable &&& threads)

/-- `accounts_schedulable_threads`: the writable accounts' loop, then the readable ones'. -/
def accountsSchedulableThreads (self : ThreadAwareAccountLocks α)
    (writeAccountLocks readAccountLocks : List α) : Option (Option ThreadSet) :=
  (ThreadSet.any self.numThreads).bind fun schedulable =>
    (self.narrowSchedulableThreads true writeAccountLocks schedulable).bind fun
      | .none => some .none
      | some schedulable => self.narrowSchedulableThreads false readAccountLocks schedulable

/-- `write_lock_account`. -/
def writeLockAccount (self : ThreadAwareAccountLocks α) (account : α) (threadId : ThreadId) :
    Option (ThreadAwareAccountLocks α) :=
  let entry := (self.locks account).getD {}
  -- `assert_eq!`: an outstanding read lock is on this thread alone.
  let readsHere : Bool := match entry.readLocks with
    | some readLocks => readLocks.threadSet.onlyOneContained == some threadId
    | .none => true
  if !readsHere then .none
  else
    match entry.writeLocks with
    | some writeLocks =>
        if writeLocks.threadId = threadId then
          (LockCount.increment writeLocks.lockCount).map fun lockCount =>
            self.setLocks account (some { entry with writeLocks := some { writeLocks with lockCount } })
        else .none
    | .none => some (self.setLocks account (some { entry with writeLocks := some ⟨threadId, 1⟩ }))

/-- `write_unlock_account`. -/
def writeUnlockAccount (self : ThreadAwareAccountLocks α) (account : α) (threadId : ThreadId) :
    Option (ThreadAwareAccountLocks α) :=
  match self.locks account with
  | .none => .none
  | some entry =>
      match entry.writeLocks with
      | .none => .none
      | some writeLocks =>
          if writeLocks.threadId ≠ threadId then .none
          else
            (LockCount.decrement writeLocks.lockCount).map fun lockCount =>
              if lockCount = 0 then
                if entry.readLocks.isNone then self.setLocks account .none
                else self.setLocks account (some { entry with writeLocks := .none })
              else
                self.setLocks account
                  (some { entry with writeLocks := some { writeLocks with lockCount } })

/-- `read_lock_account`. -/
def readLockAccount (self : ThreadAwareAccountLocks α) (account : α) (threadId : ThreadId) :
    Option (ThreadAwareAccountLocks α) :=
  let entry := (self.locks account).getD {}
  -- `assert_eq!`: an outstanding write lock is on this thread.
  let writesHere : Bool := match entry.writeLocks with
    | some writeLocks => writeLocks.threadId == threadId
    | .none => true
  if !writesHere then .none
  else
    -- Past the last thread, `as_flag` overflows and `lock_counts[thread_id]` is out of bounds.
    if inBounds : threadId < maxThreads then
      match entry.readLocks with
      | some readLocks =>
          (readLocks.threadSet.insert threadId).bind fun threadSet =>
            (LockCount.increment readLocks.lockCounts[threadId]).map fun lockCount =>
              let readLocks : AccountReadLocks :=
                ⟨threadSet, readLocks.lockCounts.set threadId lockCount inBounds⟩
              self.setLocks account (some { entry with readLocks := some readLocks })
      | .none =>
          (ThreadSet.only threadId).map fun threadSet =>
            let readLocks : AccountReadLocks :=
              ⟨threadSet, (Vector.replicate maxThreads 0).set threadId 1 inBounds⟩
            self.setLocks account (some { entry with readLocks := some readLocks })
    else .none

/-- `read_unlock_account`. -/
def readUnlockAccount (self : ThreadAwareAccountLocks α) (account : α) (threadId : ThreadId) :
    Option (ThreadAwareAccountLocks α) :=
  match self.locks account with
  | .none => .none
  | some entry =>
      match entry.readLocks with
      | .none => .none
      | some readLocks =>
          if inBounds : threadId < maxThreads then
            (readLocks.threadSet.contains threadId).bind fun contained =>
              if !contained then .none
              else
                (LockCount.decrement readLocks.lockCounts[threadId]).bind fun lockCount =>
                  let lockCounts := readLocks.lockCounts.set threadId lockCount inBounds
                  if lockCount = 0 then
                    (readLocks.threadSet.remove threadId).map fun threadSet =>
                      if threadSet.isEmpty then
                        if entry.writeLocks.isNone then self.setLocks account .none
                        else self.setLocks account (some { entry with readLocks := .none })
                      else
                        self.setLocks account
                          (some { entry with readLocks := some ⟨threadSet, lockCounts⟩ })
                  else
                    some (self.setLocks account
                      (some { entry with readLocks := some ⟨readLocks.threadSet, lockCounts⟩ }))
          else .none

/-- `lock_accounts`: asserts that the thread exists. -/
def lockAccounts (self : ThreadAwareAccountLocks α) (writeAccountLocks readAccountLocks : List α)
    (threadId : ThreadId) : Option (ThreadAwareAccountLocks α) :=
  if threadId < self.numThreads then
    (writeAccountLocks.foldlM (fun (self : ThreadAwareAccountLocks α) account =>
      self.writeLockAccount account threadId) self).bind fun self =>
        readAccountLocks.foldlM (fun (self : ThreadAwareAccountLocks α) account =>
          self.readLockAccount account threadId) self
  else .none

/-- `try_lock_accounts`: the thread the selector picked among the schedulable ones allowed,
with the accounts locked for it. -/
def tryLockAccounts (self : ThreadAwareAccountLocks α) (writeAccountLocks readAccountLocks : List α)
    (allowedThreads : ThreadSet) (threadSelector : ThreadSet → ThreadId) :
    Option (ThreadAwareAccountLocks α × Except TryLockError ThreadId) :=
  (self.accountsSchedulableThreads writeAccountLocks readAccountLocks).bind fun
    | .none => some (self, .error .multipleConflicts)
    | some schedulableThreads =>
        if (schedulableThreads &&& allowedThreads).isEmpty then
          some (self, .error .threadNotAllowed)
        else
          let threadId := threadSelector (schedulableThreads &&& allowedThreads)
          (self.lockAccounts writeAccountLocks readAccountLocks threadId).map fun self =>
            (self, .ok threadId)

/-- `unlock_accounts`. -/
def unlockAccounts (self : ThreadAwareAccountLocks α)
    (writeAccountLocks readAccountLocks : List α) (threadId : ThreadId) :
    Option (ThreadAwareAccountLocks α) :=
  (writeAccountLocks.foldlM (fun (self : ThreadAwareAccountLocks α) account =>
    self.writeUnlockAccount account threadId) self).bind fun self =>
      readAccountLocks.foldlM (fun (self : ThreadAwareAccountLocks α) account =>
        self.readUnlockAccount account threadId) self

end ThreadAwareAccountLocks

end Validator.BankingStage
