import Mathlib.Data.List.DropRight
import Validator.Vote.Lockout

namespace Validator.Consensus

open Validator.Vote

/-! # The local tower

`TowerVoteState` of `core/src/consensus/tower_vote_state.rs`: the lockouts of the validator's
own votes, oldest first, and its root.  `process_next_vote_slot` pops the votes a new slot
expires, roots the oldest vote once the stack is full, pushes the new vote and doubles the
lockouts of the votes it confirms.  `none` is a panic.
-/

structure TowerVoteState where
  votes : List Lockout
  rootSlot : Option Slot
deriving DecidableEq, Repr

namespace TowerVoteState

def default : TowerVoteState := ⟨[], none⟩

def lastVotedSlot (self : TowerVoteState) : Option Slot :=
  self.votes.getLast?.map (·.slot)

/-- `pop_expired_votes`: pop from the back every vote not locked out at the new slot. -/
def popExpiredVotes (self : TowerVoteState) (nextVoteSlot : Slot) : TowerVoteState :=
  { self with votes := self.votes.rdropWhile fun vote => !vote.isLockedOutAtSlot nextVoteSlot }

/-- The loop of `double_lockouts` from position `i` of a stack `stackDepth` deep; `none` is the
panic of its `checked_add`. -/
def doubleLockoutsLoop (stackDepth : Nat) : Nat → List Lockout → Option (List Lockout)
  | _, [] => some []
  | i, vote :: votes =>
      if 2 ^ 64 ≤ i + vote.confirmationCount.toNat then none
      else
        let vote :=
          if stackDepth > i + vote.confirmationCount.toNat then vote.increaseConfirmationCount 1
          else vote
        (vote :: ·) <$> doubleLockoutsLoop stackDepth (i + 1) votes

def doubleLockouts (self : TowerVoteState) : Option TowerVoteState :=
  (doubleLockoutsLoop self.votes.length 0 self.votes).map fun votes => { self with votes }

/-- Once the stack is full, its oldest vote becomes the root; `none` is the `unwrap` of
`pop_front`. -/
def rootOldestVote (self : TowerVoteState) : Option TowerVoteState :=
  if self.votes.length = maxLockoutHistory then
    match self.votes with
    | [] => none
    | rootedVote :: votes => some ⟨votes, some rootedVote.slot⟩
  else some self

def processNextVoteSlot (self : TowerVoteState) (nextVoteSlot : Slot) : Option TowerVoteState :=
  if self.lastVotedSlot.any (nextVoteSlot ≤ ·) then some self
  else do
    let self ← (self.popExpiredVotes nextVoteSlot).rootOldestVote
    { self with votes := self.votes ++ [Lockout.new nextVoteSlot] }.doubleLockouts

/-- `process_next_vote_slot` on each slot in turn. -/
def processNextVoteSlots (self : TowerVoteState) : List Slot → Option TowerVoteState
  | [] => some self
  | nextVoteSlot :: slots => (self.processNextVoteSlot nextVoteSlot).bind (·.processNextVoteSlots slots)

end TowerVoteState

end Validator.Consensus
