import Mathlib.Data.UInt

namespace Validator.Vote

/-! # Lockouts

`Lockout` of `solana_vote_interface`, as the tower and the vote program use it: a voted slot
with its confirmation count, locked out for `2^confirmations` slots.  Both counters saturate.
-/

abbrev Slot := UInt64

def maxLockoutHistory : Nat := 31

def initialLockout : Nat := 2

def UInt64.saturatingAdd (a b : UInt64) : UInt64 :=
  if a.toNat + b.toNat < 2 ^ 64 then a + b else 0xFFFFFFFFFFFFFFFF

def UInt32.saturatingAdd (a b : UInt32) : UInt32 :=
  if a.toNat + b.toNat < 2 ^ 32 then a + b else 0xFFFFFFFF

theorem UInt64.toNat_saturatingAdd (a b : UInt64) :
    (UInt64.saturatingAdd a b).toNat = min (a.toNat + b.toNat) (2 ^ 64 - 1) := by
  unfold UInt64.saturatingAdd
  split
  · rw [UInt64.toNat_add, Nat.mod_eq_of_lt (by assumption)]
    omega
  · show 2 ^ 64 - 1 = _
    omega

theorem UInt32.toNat_saturatingAdd (a b : UInt32) :
    (UInt32.saturatingAdd a b).toNat = min (a.toNat + b.toNat) (2 ^ 32 - 1) := by
  unfold UInt32.saturatingAdd
  split
  · rw [UInt32.toNat_add, Nat.mod_eq_of_lt (by assumption)]
    omega
  · show 2 ^ 32 - 1 = _
    omega

structure Lockout where
  slot : Slot
  confirmationCount : UInt32
deriving DecidableEq, Repr

namespace Lockout

variable (self : Lockout)

def new (slot : Slot) : Lockout := ⟨slot, 1⟩

/-- `lockout`: `INITIAL_LOCKOUT` to the power of the confirmations, counted up to
`MAX_LOCKOUT_HISTORY` of them; `wrapping_pow` never wraps there. -/
def lockout : UInt64 :=
  UInt64.ofNat (initialLockout ^ min self.confirmationCount.toNat maxLockoutHistory)

def lastLockedOutSlot : Slot := UInt64.saturatingAdd self.slot self.lockout

def isLockedOutAtSlot (slot : Slot) : Bool := self.lastLockedOutSlot ≥ slot

def increaseConfirmationCount (by_ : UInt32) : Lockout :=
  { self with confirmationCount := UInt32.saturatingAdd self.confirmationCount by_ }

theorem toNat_lockout :
    self.lockout.toNat = 2 ^ min self.confirmationCount.toNat maxLockoutHistory := by
  have small : 2 ^ min self.confirmationCount.toNat maxLockoutHistory < 2 ^ 64 :=
    Nat.pow_lt_pow_right (by decide) (by simp only [maxLockoutHistory]; omega)
  rw [lockout, UInt64.toNat_ofNat', initialLockout, Nat.mod_eq_of_lt small]

theorem toNat_lastLockedOutSlot : self.lastLockedOutSlot.toNat =
    min (self.slot.toNat + 2 ^ min self.confirmationCount.toNat maxLockoutHistory) (2 ^ 64 - 1) := by
  rw [lastLockedOutSlot, UInt64.toNat_saturatingAdd, toNat_lockout]

theorem slot_le_lastLockedOutSlot : self.slot ≤ self.lastLockedOutSlot := by
  rw [UInt64.le_iff_toNat_le, toNat_lastLockedOutSlot]
  have inside := self.slot.toNat_lt
  generalize 2 ^ min self.confirmationCount.toNat maxLockoutHistory = power
  omega

/-- More confirmations on the same slot lock it out at least as long. -/
theorem lastLockedOutSlot_le {other : Lockout} (sameSlot : other.slot = self.slot)
    (more : self.confirmationCount ≤ other.confirmationCount) :
    self.lastLockedOutSlot ≤ other.lastLockedOutSlot := by
  rw [UInt64.le_iff_toNat_le, toNat_lastLockedOutSlot, toNat_lastLockedOutSlot, sameSlot]
  rw [UInt32.le_iff_toNat_le] at more
  have longer : 2 ^ min self.confirmationCount.toNat maxLockoutHistory ≤
      2 ^ min other.confirmationCount.toNat maxLockoutHistory :=
    Nat.pow_le_pow_right (by decide) (by omega)
  generalize 2 ^ min self.confirmationCount.toNat maxLockoutHistory = lower at longer
  generalize 2 ^ min other.confirmationCount.toNat maxLockoutHistory = upper at longer
  omega

@[simp] theorem slot_increaseConfirmationCount (by_ : UInt32) :
    (self.increaseConfirmationCount by_).slot = self.slot :=
  rfl

theorem toNat_increaseConfirmationCount (by_ : UInt32) :
    (self.increaseConfirmationCount by_).confirmationCount.toNat =
      min (self.confirmationCount.toNat + by_.toNat) (2 ^ 32 - 1) :=
  UInt32.toNat_saturatingAdd _ _

end Lockout

end Validator.Vote
