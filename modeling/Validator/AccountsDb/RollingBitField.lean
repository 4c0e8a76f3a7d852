import Mathlib.Algebra.GroupWithZero.Nat
import Mathlib.Data.Finset.Basic
import Mathlib.Data.List.Range

namespace Validator.AccountsDb

/-! # `RollingBitField`

A set of slots, kept as a window of `max_width` bits addressed by the slot modulo the width
and covering the slots from `min` up to `max_exclusive`, and a hash set, `excess`, for the
slots below the window.  Slots are `u64`s below `u64::MAX`, so `key + 1` does not overflow.
An `assert!` that fails is `none`.
-/

/-- `u64::MAX`. -/
def u64Max : Nat := 2 ^ 64 - 1

structure RollingBitField where
  maxWidth : Nat
  min : Nat
  maxExclusive : Nat
  /-- A `bv::BitVec` of `max_width` bits. -/
  bits : List Bool
  count : Nat
  /-- An `IntSet`, in the order it happens to iterate. -/
  excess : List Nat
deriving DecidableEq, Repr

namespace RollingBitField

def new (maxWidth : Nat) : Option RollingBitField :=
  if 0 < maxWidth ∧ maxWidth.isPowerOfTwo then
    some
      { maxWidth := maxWidth
        min := 0
        maxExclusive := 0
        bits := List.replicate maxWidth false
        count := 0
        excess := [] }
  else none

variable (self : RollingBitField)

def getAddress (key : Nat) : Nat :=
  key % self.maxWidth

def allItemsInExcess : Bool :=
  self.excess.length == self.count

def containsAssumeInRange (key : Nat) : Bool :=
  self.bits.getD (self.getAddress key) false

/-- `purge`: after `key` left the bits, move `min` up to the next set bit, or to
`max_exclusive` when no item is left in the bits. -/
def purge (key : Nat) : RollingBitField :=
  if self.count > 0 && !self.allItemsInExcess then
    if key = self.min then
      match (List.range' (self.min + 1) (self.maxExclusive - (self.min + 1))).find?
          self.containsAssumeInRange with
      | some next => { self with min := next }
      | none => self
    else self
  else { self with min := self.maxExclusive }

/-- One turn of the loop of `insert` that makes room for a key at or above `max_exclusive`:
the item at `min` moves to the excess set and `min` moves up. -/
def evictMin : Option RollingBitField :=
  if self.min ∈ self.excess then none
  else
    let key := self.min
    some ({ self with
      excess := self.excess.insert key
      bits := self.bits.set (self.getAddress key) false }.purge key)

/-- The loop of `insert` for a key with `new_max = key + 1`: it ends when the window fits the
new key, or when every item has moved to the excess set (then the bits are empty).  Each turn
moves `min` up below `max_exclusive`, so `max_exclusive - min + 1` turns are enough. -/
def slideLoop (newMax : Nat) : Nat → RollingBitField → Option (RollingBitField × Bool)
  | 0, _ => none
  | fuel + 1, self =>
      if newMax - self.min ≤ self.maxWidth then some (self, false)
      else do
        let self ← self.evictMin
        if self.allItemsInExcess then some (self, true)
        else slideLoop newMax fuel self

/-- The end of `insert`: set the key's bit, and widen the window to it. -/
def updateBits (key : Nat) (bitsEmpty : Bool) : Option RollingBitField :=
  let address := self.getAddress key
  if self.bits.getD address false then some self
  else
    let self := { self with bits := self.bits.set address true }
    if bitsEmpty then
      some { self with min := key, maxExclusive := key + 1, count := self.count + 1 }
    else
      let min := Nat.min self.min key
      let maxExclusive := Nat.max self.maxExclusive (key + 1)
      if min + self.maxWidth ≥ maxExclusive then
        some { self with min := min, maxExclusive := maxExclusive, count := self.count + 1 }
      else none

def insert (key : Nat) : Option RollingBitField :=
  if self.count == 0 || self.allItemsInExcess then self.updateBits key true
  else if key < self.min then
    -- below the window: the key goes to the excess set
    if key ∈ self.excess then some self
    else some { self with excess := self.excess.insert key, count := self.count + 1 }
  else if key < self.maxExclusive then self.updateBits key false
  else do
    let (self, bitsEmpty) ← slideLoop (key + 1) (self.maxExclusive - self.min + 1) self
    self.updateBits key bitsEmpty

/-- `remove`: whether the key was in the set, and the set without it. -/
def remove (key : Nat) : Bool × RollingBitField :=
  if key ≥ self.min then
    if key < self.maxExclusive then
      let address := self.getAddress key
      if self.bits.getD address false then
        (true, { self with
          count := self.count - 1
          bits := self.bits.set address false }.purge key)
      else (false, self)
    else (false, self)
  else if key ∈ self.excess then
    (true, { self with excess := self.excess.erase key, count := self.count - 1 })
  else (false, self)

def contains (key : Nat) : Bool :=
  if key < self.maxExclusive then
    if key ≥ self.min then self.containsAssumeInRange key
    else key ∈ self.excess
  else false

def len : Nat :=
  self.count

def isEmpty : Bool :=
  self.len == 0

/-- `min()`, the least item. -/
def min? : Option Nat :=
  if self.isEmpty then none
  else if self.excess.isEmpty then some self.min
  else
    let excessMin := self.excess.min?
    if self.allItemsInExcess then excessMin
    else some (Nat.min self.min (excessMin.getD u64Max))

/-- The slots of the window, from `min` up to `max_exclusive`. -/
def window : List Nat :=
  List.range' self.min (self.maxExclusive - self.min)

def getAllLessThan (maxSlotExclusive : Nat) : List Nat :=
  self.excess.filter (· < maxSlotExclusive) ++
    (self.window.takeWhile (· < maxSlotExclusive)).filter self.containsAssumeInRange

/-- The loop of `get_prior`, from `slot` down: it stops at a slot in the set, or after
stepping down to zero or below `min`. -/
def getPriorLoop (min : Nat) : Nat → Option Nat
  | 0 => if self.contains 0 then some 0 else none
  | slot + 1 =>
      if self.contains (slot + 1) then some (slot + 1)
      else if slot = 0 ∨ slot < min then none
      else getPriorLoop min slot

def getPrior (maxSlotExclusive : Nat) : Option Nat :=
  self.min?.bind fun min => self.getPriorLoop min (maxSlotExclusive - 1)

def getAll : List Nat :=
  self.excess ++ self.window.filter self.containsAssumeInRange

/-- `iter_ones().collect()`: the excess set first, then the set bits of the window. -/
def iterOnes : List Nat :=
  self.excess ++ self.window.filter self.containsAssumeInRange

end RollingBitField

/-- A call on the set. -/
inductive Operation where
  | insert (key : Nat)
  | remove (key : Nat)
deriving DecidableEq, Repr

namespace Operation

def apply (field : RollingBitField) : Operation → Option RollingBitField
  | .insert key => field.insert key
  | .remove key => some (field.remove key).2

/-- What the call does to the set the field stands for. -/
def applySet (set : Finset Nat) : Operation → Finset Nat
  | .insert key => Insert.insert key set
  | .remove key => set.erase key

end Operation

namespace RollingBitField

def run (field : RollingBitField) (operations : List Operation) : Option RollingBitField :=
  operations.foldlM Operation.apply field

def runSet (operations : List Operation) : Finset Nat :=
  operations.foldl Operation.applySet ∅

/-- A slot evicted to the excess set stays there when the window empties, and a lower key then
restarts the window below it: `contains` no longer looks in the excess set for the slot. -/
theorem contains_misses_excess_after_restart :
    3 ∈ runSet [.insert 3, .insert 10, .remove 10, .insert 1] ∧
      ((RollingBitField.new 4).bind (·.run [.insert 3, .insert 10, .remove 10, .insert 1])).map
        (·.contains 3) = some false := by
  decide +kernel

end RollingBitField

end Validator.AccountsDb
