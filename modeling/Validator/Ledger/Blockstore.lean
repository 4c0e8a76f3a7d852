import Mathlib.Data.List.ReduceOption
import Validator.Data.ListOrder
import Validator.Ledger.ShredIndexSpec

namespace Validator.Ledger

open Validator.Data

/-! # Inserting data shreds

`check_insert_data_shred` on the untrusted path, for the shreds of one slot: the `SlotMeta` of
the slot, its data `ShredIndex`, the data shred column (a write batch, kept as a map), the dead
slot mark and the completed data sets handed back to the caller.  The leader schedule,
`check_merkle_root_consistency` and `verify_shred_slots` are answers each call receives.
-/

structure SlotMeta where
  slot : Nat
  consumed : Nat
  received : Nat
  lastIndex : Option Nat
  parentSlot : Option Nat
  /-- `BTreeSet<u32>`, as its ascending list. -/
  completedDataIndexes : List Nat
deriving DecidableEq, Repr

namespace SlotMeta

def new (slot : Nat) (parentSlot : Option Nat) : SlotMeta where
  slot := slot
  consumed := 0
  received := 0
  lastIndex := none
  parentSlot := parentSlot
  completedDataIndexes := []

def isFull (self : SlotMeta) : Bool :=
  some self.consumed == self.lastIndex.map (· + 1)

def isOrphan (self : SlotMeta) : Bool :=
  self.parentSlot.isNone

end SlotMeta

/-- A data shred, as the insertion reads it; `parent` is `none` when `shred.parent()` fails. -/
structure Shred (Payload : Type) where
  slot : Nat
  index : Nat
  parent : Option Nat
  lastInSlot : Bool
  dataComplete : Bool
  payload : Payload
deriving DecidableEq, Repr

inductive InsertDataShredError where
  | «exists»
  | invalidShred
deriving DecidableEq, Repr

structure CompletedDataSetInfo where
  slot : Nat
  /-- The range `start..end` of shred indices. -/
  indices : Nat × Nat
deriving DecidableEq, Repr

/-- The answers a call gets from outside the slot: `verify_shred_slots` against the current
root, and whether the Merkle root check passes (or is not made). -/
structure Oracles where
  verifyShredSlots : Nat → Nat → Bool
  merkleRootConsistent : Bool

/-- The part of `ShredInsertionTracker` and of the blockstore that one slot's data shreds touch. -/
structure ShredInsertionTracker (Payload : Type) where
  slotMeta : SlotMeta
  dataIndex : ShredIndexV2
  dataShredCf : Nat × Nat → Option Payload
  deadSlot : Bool
  newlyCompletedDataSets : List CompletedDataSetInfo

section Insert

variable {Payload : Type}

def isDataShredPresent (shred : Shred Payload) (slotMeta : SlotMeta) (dataIndex : ShredIndexV2) :
    Bool :=
  shred.index < slotMeta.consumed || dataIndex.contains shred.index

def shouldInsertDataShred (verifyShredSlots : Nat → Nat → Bool) (shred : Shred Payload)
    (slotMeta : SlotMeta) : Bool :=
  if (slotMeta.lastIndex.map fun ix => decide (ix ≤ shred.index)).getD false then false
  else if shred.lastInSlot && shred.index < slotMeta.received then false
  else (slotMeta.parentSlot.map fun parentSlot => verifyShredSlots shred.slot parentSlot).getD false

/-- The candidate bounds of `update_completed_data_indexes`: the end of the last mark before the
new index (or zero), the new index's own end when it is a mark, and the end of the first mark
after it.  Consecutive bounds are the data sets the new index may have completed. -/
def completedDataCandidates (isLastInData : Bool) (newShredIndex : Nat)
    (completedDataIndexes : List Nat) : List (Nat × Nat) :=
  let bounds := [(((completedDataIndexes.filter (· < newShredIndex)).max?).map (· + 1)).or (some 0),
    if isLastInData then some (newShredIndex + 1) else none,
    ((completedDataIndexes.filter (newShredIndex + 1 ≤ ·)).min?).map (· + 1)].reduceOption
  bounds.zip bounds.tail

def updateCompletedDataIndexes (isLastInData : Bool) (newShredIndex : Nat)
    (receivedDataShreds : ShredIndexV2) (completedDataIndexes : List Nat) :
    List Nat × List (Nat × Nat) :=
  let completedDataIndexes :=
    if isLastInData then insertSorted newShredIndex completedDataIndexes else completedDataIndexes
  (completedDataIndexes,
    (completedDataCandidates isLastInData newShredIndex completedDataIndexes).filter
      fun (start, stop) => receivedDataShreds.range start stop == List.range' start (stop - start))

def updateSlotMeta (isLastInSlot isLastInData : Bool) (slotMeta : SlotMeta) (index newConsumed : Nat)
    (receivedDataShreds : ShredIndexV2) : SlotMeta × List (Nat × Nat) :=
  let received := max (index + 1) slotMeta.received
  let lastIndex :=
    if isLastInSlot && slotMeta.lastIndex.isNone then some index else slotMeta.lastIndex
  let (completedDataIndexes, ranges) := updateCompletedDataIndexes (isLastInSlot || isLastInData)
    index receivedDataShreds slotMeta.completedDataIndexes
  ({ slotMeta with received, consumed := newConsumed, lastIndex, completedDataIndexes }, ranges)

section UpdateSlotMeta

variable {isLastInSlot isLastInData : Bool} {slotMeta : SlotMeta} {index newConsumed : Nat}
  {receivedDataShreds : ShredIndexV2}

@[simp] theorem updateCompletedDataIndexes_fst {isLastInData : Bool} {completedDataIndexes : List Nat} :
    (updateCompletedDataIndexes isLastInData index receivedDataShreds completedDataIndexes).1 =
      if isLastInData then insertSorted index completedDataIndexes else completedDataIndexes :=
  rfl

@[simp] theorem updateSlotMeta_consumed :
    (updateSlotMeta isLastInSlot isLastInData slotMeta index newConsumed receivedDataShreds).1.consumed =
      newConsumed :=
  rfl

@[simp] theorem updateSlotMeta_received :
    (updateSlotMeta isLastInSlot isLastInData slotMeta index newConsumed receivedDataShreds).1.received =
      max (index + 1) slotMeta.received :=
  rfl

@[simp] theorem updateSlotMeta_lastIndex :
    (updateSlotMeta isLastInSlot isLastInData slotMeta index newConsumed receivedDataShreds).1.lastIndex =
      if isLastInSlot && slotMeta.lastIndex.isNone then some index else slotMeta.lastIndex :=
  rfl

@[simp] theorem updateSlotMeta_parentSlot :
    (updateSlotMeta isLastInSlot isLastInData slotMeta index newConsumed receivedDataShreds).1.parentSlot =
      slotMeta.parentSlot :=
  rfl

@[simp] theorem updateSlotMeta_completedDataIndexes :
    (updateSlotMeta isLastInSlot isLastInData slotMeta index newConsumed
        receivedDataShreds).1.completedDataIndexes =
      (updateCompletedDataIndexes (isLastInSlot || isLastInData) index receivedDataShreds
        slotMeta.completedDataIndexes).1 :=
  rfl

@[simp] theorem updateSlotMeta_snd :
    (updateSlotMeta isLastInSlot isLastInData slotMeta index newConsumed receivedDataShreds).2 =
      (updateCompletedDataIndexes (isLastInSlot || isLastInData) index receivedDataShreds
        slotMeta.completedDataIndexes).2 :=
  rfl

end UpdateSlotMeta

/-- The `while` loop of `insert_data_shred`: the first index from `currentIndex` on that the data
index does not hold. -/
def nextMissing (dataIndex : ShredIndexV2) (currentIndex : Nat) : Nat :=
  if held : dataIndex.contains currentIndex then nextMissing dataIndex (currentIndex + 1)
  else currentIndex
termination_by maxDataShredsPerSlot - currentIndex
decreasing_by
  have inside := dataIndex.lt_of_contains held
  omega

/-- `insert_data_shred`; `none` is its `assert!` on an orphan slot. -/
def insertDataShred (slotMeta : SlotMeta) (dataIndex : ShredIndexV2)
    (dataShredCf : Nat × Nat → Option Payload) (shred : Shred Payload) :
    Option (SlotMeta × ShredIndexV2 × (Nat × Nat → Option Payload) × List CompletedDataSetInfo) :=
  if slotMeta.isOrphan then none
  else
    let index := shred.index
    let newConsumed :=
      if slotMeta.consumed = index then nextMissing dataIndex (index + 1) else slotMeta.consumed
    let dataShredCf := Function.update dataShredCf (shred.slot, index) (some shred.payload)
    let dataIndex := dataIndex.insert index
    let (slotMeta, ranges) :=
      updateSlotMeta shred.lastInSlot shred.dataComplete slotMeta index newConsumed dataIndex
    some (slotMeta, dataIndex, dataShredCf, ranges.map fun indices => ⟨shred.slot, indices⟩)

/-- `check_insert_data_shred` with `is_trusted = false`; `none` is a panic. -/
def checkInsertDataShred (oracles : Oracles) (tracker : ShredInsertionTracker Payload)
    (shred : Shred Payload) :
    Option (ShredInsertionTracker Payload × Except InsertDataShredError Unit) :=
  match shred.parent with
  | none => some (tracker, .error .invalidShred)
  | some _ =>
    let slotMeta := tracker.slotMeta
    if isDataShredPresent shred slotMeta tracker.dataIndex then some (tracker, .error .exists)
    else
      -- a last shred below `received` of a slot that is not full marks the slot dead
      let tracker :=
        if shred.lastInSlot && shred.index < slotMeta.received && !slotMeta.isFull then
          { tracker with deadSlot := true }
        else tracker
      if !shouldInsertDataShred oracles.verifyShredSlots shred slotMeta then
        some (tracker, .error .invalidShred)
      else if !oracles.merkleRootConsistent then
        some ({ tracker with deadSlot := true }, .error .invalidShred)
      else do
        let (slotMeta, dataIndex, dataShredCf, completed) ←
          insertDataShred slotMeta tracker.dataIndex tracker.dataShredCf shred
        pure ({ tracker with
            slotMeta, dataIndex, dataShredCf
            newlyCompletedDataSets := tracker.newlyCompletedDataSets ++ completed }, .ok ())

/-- Calls one after another, each with its own answers; the shreds of the calls that returned
`Ok` are collected in order. -/
def insertDataShreds : List (Oracles × Shred Payload) → ShredInsertionTracker Payload →
    Option (ShredInsertionTracker Payload × List (Shred Payload))
  | [], tracker => some (tracker, [])
  | (oracles, shred) :: calls, tracker => do
      let (tracker, result) ← checkInsertDataShred oracles tracker shred
      let (tracker, inserted) ← insertDataShreds calls tracker
      pure (tracker, match result with
        | .ok () => shred :: inserted
        | .error _ => inserted)

/-- A fresh slot with a known parent: `SlotMeta::new`, an empty data index and no writes. -/
def ShredInsertionTracker.new (slot parentSlot : Nat) : ShredInsertionTracker Payload where
  slotMeta := SlotMeta.new slot (some parentSlot)
  dataIndex := ShredIndexV2.default
  dataShredCf := fun _ => none
  deadSlot := false
  newlyCompletedDataSets := []

end Insert

end Validator.Ledger
