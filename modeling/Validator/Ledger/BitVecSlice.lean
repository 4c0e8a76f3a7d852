import Validator.Data.DoubleEnded
import Validator.Ledger.ShredIndex

namespace Validator.Ledger

open Validator.Data

/-! # Range iteration over a `BitVec`

`BitVec::range` cuts its bounds to `NUM_BITS`, picks the words they touch, and iterates them as
masked words: `compute_word_mask` clears the bits outside the bounds, and `iter_ones`
flat-maps each mask into `IterOnes`, which yields its set bits from either end with
`trailing_zeros` and `leading_zeros`.  Panics are `none`: the `+ 1` of an inclusive end or
exclusive start at `usize::MAX`, a slice out of order, an underflow and a shift by eight.
-/

/-- `std::ops::Bound<usize>`. -/
inductive Bound where
  | included (n : Nat)
  | excluded (n : Nat)
  | unbounded
deriving DecidableEq, Repr

/-- A `RangeBounds<usize>` argument, as its start and end bounds. -/
structure RangeBounds where
  startBound : Bound
  endBound : Bound
deriving DecidableEq, Repr

namespace RangeBounds

/-- `RangeBounds::contains`. -/
def contains (bounds : RangeBounds) (item : Nat) : Bool :=
  (match bounds.startBound with
    | .included start => decide (start ≤ item)
    | .excluded start => decide (start < item)
    | .unbounded => true) &&
  (match bounds.endBound with
    | .included stop => decide (item ≤ stop)
    | .excluded stop => decide (item < stop)
    | .unbounded => true)

end RangeBounds

/-- `n + 1` on a `usize`, which panics at `usize::MAX`. -/
def usizeSucc (n : Nat) : Option Nat :=
  if n + 1 < 2 ^ 64 then some (n + 1) else none

/-- `a - b` on a `usize`, which panics below zero. -/
def usizeSub (a b : Nat) : Option Nat :=
  if b ≤ a then some (a - b) else none

/-- `word << shift` on a `u8`, which panics for a shift of eight or more. -/
def shl (word : UInt8) (shift : Nat) : Option UInt8 :=
  if shift < 8 then some (word <<< UInt8.ofNat shift) else none

/-- `word >> shift` on a `u8`, which panics for a shift of eight or more. -/
def shr (word : UInt8) (shift : Nat) : Option UInt8 :=
  if shift < 8 then some (word >>> UInt8.ofNat shift) else none

/-- `BitVecMaskIter`: the slice's bounds, the word it starts at, and the enumeration of
`words[start_word..end_word]` still to visit, `count` being the index `Enumerate` gives the
next one.  `stop` is the source's `end`. -/
structure BitVecMaskIter where
  start : Nat
  stop : Nat
  startWord : Nat
  count : Nat
  words : List UInt8
deriving DecidableEq, Repr

namespace BitVecMaskIter

def computeWordMask (self : BitVecMaskIter) (wordIdx : Nat) (word : UInt8) :
    Option (Nat × UInt8) :=
  if word = 0 then some (wordIdx, 0)
  else do
    let baseIdx := (self.startWord + wordIdx) * 8
    let lowerBound := self.start - baseIdx
    let upperBound ← if baseIdx + 8 > self.stop then usizeSub self.stop baseIdx else some 8
    let lowerMask ← shl (~~~0) lowerBound
    let upperMask ← shr (~~~0) (← usizeSub 8 upperBound)
    pure (baseIdx, word &&& lowerMask &&& upperMask)

def next (self : BitVecMaskIter) : Option (Option (Nat × UInt8) × BitVecMaskIter) :=
  match self.words with
  | [] => some (none, self)
  | word :: words => do
      let mask ← self.computeWordMask self.count word
      pure (some mask, { self with count := self.count + 1, words })

/-- `next_back`: `Enumerate` numbers the last word by the count and the words before it. -/
def nextBack (self : BitVecMaskIter) : Option (Option (Nat × UInt8) × BitVecMaskIter) :=
  match self.words.getLast? with
  | none => some (none, self)
  | some word => do
      let words := self.words.dropLast
      let mask ← self.computeWordMask (self.count + words.length) word
      pure (some mask, { self with words })

end BitVecMaskIter

structure IterOnes where
  baseIdx : Nat
  mask : UInt8
deriving DecidableEq, Repr

namespace IterOnes

def next (self : IterOnes) : Option (Option Nat × IterOnes) :=
  if self.mask = 0 then some (none, self)
  else
    let bitIdx := self.mask.toBitVec.ctz.toNat
    -- clear the lowest set bit
    some (some (self.baseIdx + bitIdx), { self with mask := self.mask &&& (self.mask - 1) })

def nextBack (self : IterOnes) : Option (Option Nat × IterOnes) :=
  if self.mask = 0 then some (none, self)
  else do
    let bitIdx ← usizeSub (8 - 1) self.mask.toBitVec.clz.toNat
    let index := self.baseIdx + bitIdx
    -- clear the highest set bit
    let highest ← shl 1 bitIdx
    pure (some index, { self with mask := self.mask &&& ~~~highest })

end IterOnes

/-- The masked words of a slice, as a double-ended iterator. -/
def BitVecMaskIter.iter : DoubleEnded BitVecMaskIter (Nat × UInt8) :=
  ⟨BitVecMaskIter.next, BitVecMaskIter.nextBack⟩

def IterOnes.iter : DoubleEnded IterOnes Nat :=
  ⟨IterOnes.next, IterOnes.nextBack⟩

theorem BitVecMaskIter.length_next {self after : BitVecMaskIter} {mask : Nat × UInt8}
    (called : self.next = some (some mask, after)) : after.words.length < self.words.length := by
  unfold next at called
  cases found : self.words with
  | nil => simp [found] at called
  | cons word words =>
      rw [found] at called
      simp only [Option.bind_eq_bind, Option.bind_eq_some_iff] at called
      obtain ⟨_, _, stepped⟩ := called
      simp only [Option.pure_def, Option.some.injEq, Prod.mk.injEq] at stepped
      rw [← stepped.2]
      simp

theorem BitVecMaskIter.length_nextBack {self after : BitVecMaskIter} {mask : Nat × UInt8}
    (called : self.nextBack = some (some mask, after)) : after.words.length < self.words.length := by
  unfold nextBack at called
  cases found : self.words.getLast? with
  | none => simp [found] at called
  | some word =>
      rw [found] at called
      have nonempty : self.words ≠ [] := by
        intro empty
        simp [empty] at found
      simp only [Option.bind_eq_bind, Option.bind_eq_some_iff] at called
      obtain ⟨_, _, stepped⟩ := called
      simp only [Option.pure_def, Option.some.injEq, Prod.mk.injEq] at stepped
      rw [← stepped.2, List.length_dropLast]
      have := List.length_pos_iff.mpr nonempty
      omega

/-- The mask iterator runs out of words. -/
def BitVecMaskIter.finite : BitVecMaskIter.iter.Finite :=
  ⟨fun self => self.words.length, BitVecMaskIter.length_next, BitVecMaskIter.length_nextBack⟩

/-- `BitVecSlice`, with its mask iterator. -/
structure BitVecSlice where
  maskIter : BitVecMaskIter
deriving DecidableEq, Repr

namespace BitVecSlice

variable {numBits : Nat}

/-- `from_range_bounds`; `BitVec::range` is this. -/
def fromRangeBounds (bitVec : BitVec numBits) (bounds : RangeBounds) : Option BitVecSlice := do
  let start ← match bounds.startBound with
    | .included n => some n
    | .excluded n => usizeSucc n
    | .unbounded => some 0
  let start := min start numBits
  let stop ← match bounds.endBound with
    | .included n => usizeSucc n
    | .excluded n => some n
    | .unbounded => some numBits
  let stop := min stop numBits
  let endWord := (stop + 7) / 8
  let startWord := min (start / 8) endWord
  -- `words[start_word..end_word]` panics out of order or past the end
  if startWord ≤ endWord ∧ endWord ≤ bitVec.words.length then
    some ⟨⟨start, stop, startWord, 0, (bitVec.words.drop startWord).take (endWord - startWord)⟩⟩
  else none

/-- The state `iter_ones` starts from: the masks `flat_map`ped into `IterOnes`, none open. -/
def iterOnes (self : BitVecSlice) : DoubleEnded.FlatMap BitVecMaskIter IterOnes :=
  ⟨self.maskIter, none, none⟩

end BitVecSlice

end Validator.Ledger
