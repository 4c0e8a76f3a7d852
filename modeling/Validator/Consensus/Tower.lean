import Validator.Consensus.TowerVoteState

namespace Validator.Consensus

open Validator.Vote

/-! # Restoring a tower against the slot history

`Tower::adjust_lockouts_with_slot_history` of `core/src/consensus.rs`.  A restored tower's root
and votes are checked against the slot history of the ledger, newest first: the first slot the
history holds anchors the tower, the votes above it are kept and the rest dropped, and three
sanity tests reject a history that contradicts the tower.  `none` is a panic: the `unwrap` of the
root, an `assert!` or the `unwrap` of a retain flag.
-/

/-- `Check` of `solana_slot_history`. -/
inductive Check where
  | future
  | tooOld
  | found
  | notFound
deriving DecidableEq, Repr

/-- `SlotHistory` of `solana_slot_history`, as `check` reads it: the newest and the oldest slot
of its window, and the bit it keeps for each slot. -/
structure SlotHistory where
  newest : Slot
  oldest : Slot
  bit : Slot → Bool

def SlotHistory.check (self : SlotHistory) (slot : Slot) : Check :=
  if slot > self.newest then .future
  else if slot < self.oldest then .tooOld
  else if self.bit slot then .found
  else .notFound

/-- `VoteTransaction`, with what each variant votes on. -/
inductive VoteTransaction where
  | vote (slots : List Slot)
  | voteStateUpdate (lockouts : List Lockout)
  | compactVoteStateUpdate (lockouts : List Lockout)
  | towerSync (lockouts : List Lockout)
deriving DecidableEq, Repr

namespace VoteTransaction

/-- `VoteTransaction::from(Vote::default())`. -/
def defaultVote : VoteTransaction := .vote []

/-- `slot(i)`; `none` is the panic of indexing past the end. -/
def slot : VoteTransaction → Nat → Option Slot
  | .vote slots, i => slots[i]?
  | .voteStateUpdate lockouts, i | .compactVoteStateUpdate lockouts, i | .towerSync lockouts, i =>
      lockouts[i]?.map (·.slot)

def len : VoteTransaction → Nat
  | .vote slots => slots.length
  | .voteStateUpdate lockouts | .compactVoteStateUpdate lockouts | .towerSync lockouts =>
      lockouts.length

def isEmpty : VoteTransaction → Bool
  | .vote slots => slots.isEmpty
  | .voteStateUpdate lockouts | .compactVoteStateUpdate lockouts | .towerSync lockouts =>
      lockouts.isEmpty

def lastVotedSlot : VoteTransaction → Option Slot
  | .vote slots => slots.getLast?
  | .voteStateUpdate lockouts | .compactVoteStateUpdate lockouts | .towerSync lockouts =>
      lockouts.getLast?.map (·.slot)

end VoteTransaction

/-- The messages `TowerError::FatallyInconsistent` carries. -/
inductive Inconsistency where
  | divergedAncestor
  | timeWarped
  | notTooOldOnceAfterGotTooOld
  | noCommonSlotForRootedTower
deriving DecidableEq, Repr

/-- `TowerError`, with the one variant restoring raises. -/
inductive TowerError where
  | fatallyInconsistent (message : Inconsistency)
deriving DecidableEq, Repr

structure Tower where
  voteState : TowerVoteState
  lastVote : VoteTransaction
  strayRestoredSlot : Option Slot
deriving DecidableEq, Repr

namespace Tower

/-- `root`; `none` is the panic of its `unwrap`. -/
def root (self : Tower) : Option Slot := self.voteState.rootSlot

def votedSlots (self : Tower) : List Slot := self.voteState.votes.map (·.slot)

/-- `last_voted_slot`: the outer `none` is the panic of `slot`. -/
def lastVotedSlot (self : Tower) : Option (Option Slot) :=
  if self.lastVote.isEmpty then some none
  else (self.lastVote.slot (self.lastVote.len - 1)).map some

end Tower

/-- The locals of the loop of `adjust_lockouts_with_slot_history`. -/
structure AdjustLoop where
  retainFlagsForEachVoteInReverse : List Bool
  stillInFuture : Bool
  pastOutsideHistory : Bool
  checkedSlot : Option Slot
  anchoredSlot : Option Slot
deriving DecidableEq, Repr

namespace AdjustLoop

def init : AdjustLoop := ⟨[], true, false, none, none⟩

/-- The first slot the history holds anchors the tower; a slot it lacks after that is an ancestor
the ledger diverged from. -/
def anchor (anchoredSlot : Option Slot) (slotInTower : Slot) (check : Check) :
    Except TowerError (Option Slot) :=
  if anchoredSlot.isNone && check == .found then .ok (some slotInTower)
  else if anchoredSlot.isSome && check == .notFound then
    .error (.fatallyInconsistent .divergedAncestor)
  else .ok anchoredSlot

/-- Once a slot is not in the future, no older one may be. -/
def updateStillInFuture (stillInFuture : Bool) (check : Check) : Except TowerError Bool :=
  if stillInFuture && check != .future then .ok false
  else if !stillInFuture && check == .future then .error (.fatallyInconsistent .timeWarped)
  else .ok stillInFuture

/-- Once a slot is too old for the history, every older one must be. -/
def updatePastOutsideHistory (pastOutsideHistory : Bool) (check : Check) : Except TowerError Bool :=
  if !pastOutsideHistory && check == .tooOld then .ok true
  else if pastOutsideHistory && check != .tooOld then
    .error (.fatallyInconsistent .notTooOldOnceAfterGotTooOld)
  else .ok pastOutsideHistory

/-- The `assert!` that each slot is older than the one before it, but for a vote on the root. -/
def ordered (towerRoot : Slot) (checkedSlot : Option Slot) (slotInTower : Slot) : Bool :=
  match checkedSlot with
  | none => true
  | some checkedSlot =>
      (slotInTower == checkedSlot && slotInTower == towerRoot) || slotInTower < checkedSlot

/-- One turn of the loop on a slot of the tower. -/
def step (towerRoot : Slot) (slotHistory : SlotHistory) (state : AdjustLoop) (slotInTower : Slot) :
    Option (Except TowerError AdjustLoop) :=
  let check := slotHistory.check slotInTower
  let tested : Except TowerError AdjustLoop := do
    let anchoredSlot ← anchor state.anchoredSlot slotInTower check
    let stillInFuture ← updateStillInFuture state.stillInFuture check
    let pastOutsideHistory ← updatePastOutsideHistory state.pastOutsideHistory check
    pure { state with anchoredSlot, stillInFuture, pastOutsideHistory }
  match tested with
  | .error error => some (.error error)
  | .ok state =>
      if ordered towerRoot state.checkedSlot slotInTower then
        some (.ok { state with
          checkedSlot := some slotInTower
          retainFlagsForEachVoteInReverse :=
            state.retainFlagsForEachVoteInReverse ++ [state.anchoredSlot.isNone] })
      else none

/-- The loop over the slots of the tower, newest first; it bails out at the first error. -/
def run (towerRoot : Slot) (slotHistory : SlotHistory) :
    AdjustLoop → List Slot → Option (Except TowerError AdjustLoop)
  | state, [] => some (.ok state)
  | state, slotInTower :: slots =>
      match step towerRoot slotHistory state slotInTower with
      | none => none
      | some (.error error) => some (.error error)
      | some (.ok state) => run towerRoot slotHistory state slots

end AdjustLoop

/-- `Vec::retain` with a closure that takes the next flag and `unwrap`s it: `none` once the
flags run out. -/
def retainWithFlags : List Lockout → List Bool → Option (List Lockout)
  | [], _ => some []
  | _ :: _, [] => none
  | vote :: votes, flag :: flags =>
      (retainWithFlags votes flags).map fun kept => if flag then vote :: kept else kept

namespace Tower

def adjustLockoutsWithSlotHistory (self : Tower) (slotHistory : SlotHistory) :
    Option (Except TowerError Tower) := do
  let towerRoot ← self.root
  let slotsInTower := towerRoot :: self.votedSlots
  match ← AdjustLoop.run towerRoot slotHistory AdjustLoop.init slotsInTower.reverse with
  | .error error => return .error error
  | .ok state =>
      if state.anchoredSlot.isNone then
        return .error (.fatallyInconsistent .noCommonSlotForRootedTower)
      -- the `assert_eq!` of the lengths
      if slotsInTower.length ≠ state.retainFlagsForEachVoteInReverse.length then none
      -- pop for the tower root
      let retainFlagsForEachVote := state.retainFlagsForEachVoteInReverse.dropLast.reverse
      let votes ← retainWithFlags self.voteState.votes retainFlagsForEachVote
      let self := { self with voteState := { self.voteState with votes } }
      if self.voteState.votes.isEmpty then
        return .ok { self with lastVote := .defaultVote }
      let lastVotedSlot ← self.lastVotedSlot
      -- the `assert_eq!` of the last voted slot
      if lastVotedSlot ≠ self.votedSlots.getLast? then none
      return .ok { self with strayRestoredSlot := self.lastVote.lastVotedSlot }

end Tower

end Validator.Consensus
