import Validator.Vote.Lockout

namespace Validator.Vote

/-! # Processing a proposed vote state

`check_and_filter_proposed_vote_state` and `process_new_vote_state` of
`programs/vote/src/vote_state/mod.rs`, and `do_process_tower_sync`, which runs one after the
other.  The `VoteStateV3` methods they call (`contains_slot`, `credits_for_vote_at_index`,
`increment_credits`, `process_timestamp`, `compute_vote_latency`) are external, in
`solana_vote_interface`, and are written here as that crate defines them.  A function that
takes `&mut VoteStateV3` returns the state it leaves with its result; `none` is a panic.
-/

abbrev Epoch := UInt64
abbrev Hash := Nat
abbrev UnixTimestamp := Int

def maxEpochCreditsHistory : Nat := 64
def voteCreditsGraceSlots : Nat := 2
def voteCreditsMaximumPerSlot : Nat := 16

inductive VoteError where
  | voteTooOld
  | slotsMismatch
  | slotHashMismatch
  | emptySlots
  | timestampTooOld
  | lockoutConflict
  | newVoteStateLockoutMismatch
  | slotsNotOrdered
  | confirmationsNotOrdered
  | zeroConfirmations
  | confirmationTooLarge
  | rootRollBack
  | confirmationRollBack
  | slotSmallerThanRoot
  | tooManyVotes
  | rootOnDifferentFork
  | assertionFailed
deriving DecidableEq, Repr

structure LandedVote where
  latency : UInt8
  lockout : Lockout
deriving DecidableEq, Repr

def LandedVote.ofLockout (lockout : Lockout) : LandedVote := ⟨0, lockout⟩

structure BlockTimestamp where
  slot : Slot
  timestamp : UnixTimestamp
deriving DecidableEq, Repr

/-- The part of `VoteStateV3` a vote reads and writes. -/
structure VoteStateV3 where
  votes : List LandedVote
  rootSlot : Option Slot
  /-- `(epoch, credits, prev_credits)`, oldest first. -/
  epochCredits : List (Epoch × UInt64 × UInt64)
  lastTimestamp : BlockTimestamp
deriving DecidableEq, Repr

namespace VoteStateV3

variable (self : VoteStateV3)

/-- `contains_slot`, a binary search over the votes, which the vote program keeps sorted by
slot. -/
def containsSlot (candidateSlot : Slot) : Bool :=
  self.votes.any (·.lockout.slot == candidateSlot)

def creditsForVoteAtIndex (index : Nat) : UInt64 :=
  let latency := (self.votes[index]?.map (·.latency)).getD 0
  if latency = 0 then 1
  else if latency.toNat ≤ voteCreditsGraceSlots then UInt64.ofNat voteCreditsMaximumPerSlot
  else
    let diff := latency.toNat - voteCreditsGraceSlots
    if voteCreditsMaximumPerSlot ≤ diff then 1
    else UInt64.ofNat (voteCreditsMaximumPerSlot - diff)

def computeVoteLatency (votedForSlot currentSlot : Slot) : UInt8 :=
  UInt8.ofNat (min (currentSlot.toNat - votedForSlot.toNat) 255)

/-- `increment_credits`: a new entry for a new epoch when the last one earned anything. -/
def incrementCredits (epoch : Epoch) (credits : UInt64) : VoteStateV3 :=
  let epochCredits :=
    match self.epochCredits.getLast? with
    | none => [(epoch, 0, 0)]
    | some (lastEpoch, lastCredits, prevCredits) =>
        if epoch = lastEpoch then self.epochCredits
        else
          let epochCredits :=
            if lastCredits ≠ prevCredits then self.epochCredits ++ [(epoch, lastCredits, lastCredits)]
            else self.epochCredits.dropLast ++ [(epoch, lastCredits, prevCredits)]
          if epochCredits.length > maxEpochCreditsHistory then epochCredits.tail else epochCredits
  let epochCredits := match epochCredits.getLast? with
    | none => epochCredits
    | some (lastEpoch, lastCredits, prevCredits) =>
        epochCredits.dropLast ++ [(lastEpoch, UInt64.saturatingAdd lastCredits credits, prevCredits)]
  { self with epochCredits }

def processTimestamp (slot : Slot) (timestamp : UnixTimestamp) :
    VoteStateV3 × Except VoteError Unit :=
  if (slot < self.lastTimestamp.slot || timestamp < self.lastTimestamp.timestamp) ||
      (slot == self.lastTimestamp.slot && BlockTimestamp.mk slot timestamp != self.lastTimestamp &&
        self.lastTimestamp.slot != 0) then
    (self, .error .timestampTooOld)
  else ({ self with lastTimestamp := ⟨slot, timestamp⟩ }, .ok ())

end VoteStateV3

/-! ## `check_and_filter_proposed_vote_state` -/

/-- The variables of its `while` loop. -/
structure CheckLoopState where
  rootToCheck : Option Slot
  proposedLockoutsIndex : Nat
  slotHashesIndex : Nat
  proposedLockoutsIndicesToFilter : List Nat
deriving DecidableEq, Repr

section Check

variable (voteState : VoteStateV3) (proposedLockouts : List Lockout)
  (slotHashes : List (Slot × Hash)) (earliestSlotHashInHistory : Slot)

/-- The slot a turn of the loop checks: the proposed root while it is still to check, then each
proposed lockout in turn. -/
def proposedVoteSlot (state : CheckLoopState) : Option Slot :=
  match state.rootToCheck with
  | some root => some root
  | none => proposedLockouts[state.proposedLockoutsIndex]?.map (·.slot)

/-- The `SlotsNotOrdered` test: a lockout at or below the one before it.  `none` is the panic of
its `checked_sub`. -/
def slotsNotOrdered (state : CheckLoopState) (proposedVoteSlot : Slot) : Option Bool :=
  if state.rootToCheck.isNone ∧ 0 < state.proposedLockoutsIndex then
    proposedLockouts[state.proposedLockoutsIndex - 1]?.map (proposedVoteSlot ≤ ·.slot)
  else some false

/-- The `match` on how the proposed slot compares with the slot hash at `slot_hashes_index - 1`;
`none` is the panic of its `assert_eq!`. -/
def compareWithAncestor (state : CheckLoopState) (proposedVoteSlot ancestorSlot : Slot) :
    Option (Except VoteError CheckLoopState) :=
  if proposedVoteSlot < ancestorSlot then
    if state.slotHashesIndex = slotHashes.length then
      -- older than every slot hash
      if proposedVoteSlot ≥ earliestSlotHashInHistory then some (.error .assertionFailed)
      else
        let proposedLockoutsIndicesToFilter :=
          if !voteState.containsSlot proposedVoteSlot && state.rootToCheck.isNone then
            state.proposedLockoutsIndicesToFilter ++ [state.proposedLockoutsIndex]
          else state.proposedLockoutsIndicesToFilter
        match state.rootToCheck with
        | some newProposedRoot =>
            if newProposedRoot ≠ proposedVoteSlot then none
            else if newProposedRoot ≥ earliestSlotHashInHistory then some (.error .assertionFailed)
            else some (.ok { state with rootToCheck := none, proposedLockoutsIndicesToFilter })
        | none =>
            some (.ok { state with
              proposedLockoutsIndex := state.proposedLockoutsIndex + 1,
              proposedLockoutsIndicesToFilter })
    else
      some (.error (if state.rootToCheck.isSome then .rootOnDifferentFork else .slotsMismatch))
  else if ancestorSlot < proposedVoteSlot then
    some (.ok { state with slotHashesIndex := state.slotHashesIndex - 1 })
  else if state.rootToCheck.isSome then
    some (.ok { state with rootToCheck := none })
  else
    some (.ok { state with
      proposedLockoutsIndex := state.proposedLockoutsIndex + 1,
      slotHashesIndex := state.slotHashesIndex - 1 })

/-- One turn of the loop, which walks the proposed root and lockouts up through the slot hashes,
oldest first. -/
def checkStep (state : CheckLoopState) : Option (Except VoteError CheckLoopState) := do
  let proposedVoteSlot ← proposedVoteSlot proposedLockouts state
  if ← slotsNotOrdered proposedLockouts state proposedVoteSlot then return .error .slotsNotOrdered
  let ancestorIndex ← if state.slotHashesIndex = 0 then none else some (state.slotHashesIndex - 1)
  let ancestorSlot ← slotHashes[ancestorIndex]?.map (·.1)
  compareWithAncestor voteState slotHashes earliestSlotHashInHistory state proposedVoteSlot
    ancestorSlot

/-- The `while` loop, for at most `fuel` turns; running out of fuel is a panic, which enough
fuel rules out. -/
def checkLoop : Nat → CheckLoopState → Option (Except VoteError CheckLoopState)
  | 0, _ => none
  | fuel + 1, state =>
      if state.proposedLockoutsIndex < proposedLockouts.length ∧ 0 < state.slotHashesIndex then
        match checkStep voteState proposedLockouts slotHashes earliestSlotHashInHistory state with
        | none => none
        | some (.error error) => some (.error error)
        | some (.ok state) => checkLoop fuel state
      else some (.ok state)

end Check

/-- The `retain` that drops the lockouts at the indices to filter, which are increasing. -/
def retainUnfiltered (indicesToFilter : List Nat) :
    Nat → Nat → List Lockout → List Lockout
  | _, _, [] => []
  | proposedLockoutsIndex, filterVotesIndex, lockout :: lockouts =>
      match indicesToFilter[filterVotesIndex]? with
      | some index =>
          if proposedLockoutsIndex = index then
            retainUnfiltered indicesToFilter (proposedLockoutsIndex + 1) (filterVotesIndex + 1) lockouts
          else
            lockout :: retainUnfiltered indicesToFilter (proposedLockoutsIndex + 1) filterVotesIndex
              lockouts
      | none =>
          lockout :: retainUnfiltered indicesToFilter (proposedLockoutsIndex + 1) filterVotesIndex
            lockouts

/-- A proposed root too old to be in the slot hash history is overwritten with the latest vote of
the vote state at or below it, or else with the vote state's root. -/
def overwriteTooOldRoot (voteState : VoteStateV3) (earliestSlotHashInHistory : Slot) :
    Option Slot → Option Slot
  | some root =>
      if root < earliestSlotHashInHistory then
        ((voteState.votes.reverse.find? (·.lockout.slot ≤ root)).map (·.lockout.slot)).or
          voteState.rootSlot
      else some root
  | none => none

/-- `check_and_filter_proposed_vote_state`: on `Ok`, the filtered lockouts and the root it
leaves in place of the proposed ones. -/
def checkAndFilterProposedVoteState (voteState : VoteStateV3) (proposedLockouts : List Lockout)
    (proposedRoot : Option Slot) (proposedHash : Hash) (slotHashes : List (Slot × Hash)) :
    Option (Except VoteError (List Lockout × Option Slot)) := do
  let some lastProposed := proposedLockouts.getLast? | return .error .emptySlots
  let lastProposedSlot := lastProposed.slot
  if voteState.votes.getLast?.any (lastProposedSlot ≤ ·.lockout.slot) then
    return .error .voteTooOld
  let some earliest := slotHashes.getLast? | return .error .slotsMismatch
  let earliestSlotHashInHistory := earliest.1
  if lastProposedSlot < earliestSlotHashInHistory then return .error .voteTooOld
  let proposedRoot := overwriteTooOldRoot voteState earliestSlotHashInHistory proposedRoot
  match ← checkLoop voteState proposedLockouts slotHashes earliestSlotHashInHistory
      (slotHashes.length + proposedLockouts.length + 2) ⟨proposedRoot, 0, slotHashes.length, []⟩ with
  | .error error => return .error error
  | .ok state =>
      if state.proposedLockoutsIndex ≠ proposedLockouts.length then return .error .slotsMismatch
      let (slot, hash) ← slotHashes[state.slotHashesIndex]?
      -- the `assert_eq!` after the loop
      if lastProposedSlot ≠ slot then none
      else if hash ≠ proposedHash then return .error .slotHashMismatch
      else
        return .ok (retainUnfiltered state.proposedLockoutsIndicesToFilter 0 0 proposedLockouts,
          proposedRoot)

/-! ## `process_new_vote_state` -/

section Process

variable (voteState : VoteStateV3)

/-- The checks of `process_new_vote_state` on each new vote against the one before it. -/
def checkNewVotes (newRoot : Option Slot) : Option LandedVote → List LandedVote → Except VoteError Unit
  | _, [] => .ok ()
  | previousVote, vote :: votes =>
      if vote.lockout.confirmationCount = 0 then .error .zeroConfirmations
      else if vote.lockout.confirmationCount.toNat > maxLockoutHistory then .error .confirmationTooLarge
      else if newRoot.any (fun newRoot => vote.lockout.slot ≤ newRoot && newRoot != 0) then
        .error .slotSmallerThanRoot
      else match previousVote with
        | some previousVote =>
            if previousVote.lockout.slot ≥ vote.lockout.slot then .error .slotsNotOrdered
            else if previousVote.lockout.confirmationCount ≤ vote.lockout.confirmationCount then
              .error .confirmationsNotOrdered
            else if vote.lockout.slot > previousVote.lockout.lastLockedOutSlot then
              .error .newVoteStateLockoutMismatch
            else checkNewVotes newRoot (some vote) votes
        | none => checkNewVotes newRoot (some vote) votes

/-- The loop that adds up the credits of the current votes at or below the new root; it
returns them with the index of the first vote above the root.  `none` is the panic of its
`checked_add`. -/
def earnedCredits (newRoot : Slot) : Nat → UInt64 → List LandedVote → Option (UInt64 × Nat)
  | index, earned, [] => some (earned, index)
  | index, earned, vote :: votes =>
      if vote.lockout.slot ≤ newRoot then
        let credits := voteState.creditsForVoteAtIndex index
        if 2 ^ 64 ≤ earned.toNat + credits.toNat then none
        else earnedCredits newRoot (index + 1) (earned + credits) votes
      else some (earned, index)

/-- The credits earned by the votes the new root roots, with the index of the first vote above
it; nothing without a new root. -/
def rootedCredits : Option Slot → Option (UInt64 × Nat)
  | some newRoot => earnedCredits voteState newRoot 0 0 voteState.votes
  | none => some (0, 0)

end Process

/-- The `while` loop of `process_new_vote_state` at one current vote: the new votes below it are
new, and the first new vote at or above it settles it.  A current vote below a new one must have
expired before it; a vote in both keeps its latency and may only gain confirmations. -/
def matchCurrentVote (currentVote : LandedVote)
    (matchLater : List LandedVote → Except VoteError (List LandedVote)) :
    List LandedVote → Except VoteError (List LandedVote)
  | [] => .ok []
  | newVote :: newVotes =>
      if currentVote.lockout.slot < newVote.lockout.slot then
        if currentVote.lockout.lastLockedOutSlot ≥ newVote.lockout.slot then .error .lockoutConflict
        else matchLater (newVote :: newVotes)
      else if currentVote.lockout.slot = newVote.lockout.slot then
        if newVote.lockout.confirmationCount < currentVote.lockout.confirmationCount then
          .error .confirmationRollBack
        else (⟨currentVote.latency, newVote.lockout⟩ :: ·) <$> matchLater newVotes
      else (newVote :: ·) <$> matchCurrentVote currentVote matchLater newVotes

def matchVotes : List LandedVote → List LandedVote → Except VoteError (List LandedVote)
  | [], newVotes => .ok newVotes
  | currentVote :: currentVotes, newVotes =>
      matchCurrentVote currentVote (matchVotes currentVotes) newVotes

/-- The checks `process_new_vote_state` makes before it changes anything. -/
def checkNewVoteState (voteState : VoteStateV3) (newState : List LandedVote)
    (newRoot : Option Slot) : Except VoteError Unit := do
  if newState.length > maxLockoutHistory then throw .tooManyVotes
  match newRoot, voteState.rootSlot with
  | some newRoot, some currentRoot => if newRoot < currentRoot then throw .rootRollBack
  | none, some _ => throw .rootRollBack
  | _, _ => pure ()
  checkNewVotes newRoot none newState

/-- The end of `process_new_vote_state`, once the new votes have passed every check: the credits
are awarded, then the timestamp is checked, then the votes and the root are replaced. -/
def commitNewVoteState (voteState : VoteStateV3) (newState : List LandedVote)
    (newRoot : Option Slot) (timestamp : Option UnixTimestamp) (epoch : Epoch) (earned : UInt64) :
    Option (VoteStateV3 × Except VoteError Unit) := do
  let voteState :=
    if voteState.rootSlot ≠ newRoot then voteState.incrementCredits epoch earned else voteState
  let (voteState, result) ← match timestamp with
    | some timestamp => do
        let lastSlot ← newState.getLast?.map (·.lockout.slot)
        pure (voteState.processTimestamp lastSlot timestamp)
    | none => pure (voteState, .ok ())
  match result with
  | .error error => return (voteState, .error error)
  | .ok () => return ({ voteState with rootSlot := newRoot, votes := newState }, .ok ())

def processNewVoteState (voteState : VoteStateV3) (newState : List LandedVote)
    (newRoot : Option Slot) (timestamp : Option UnixTimestamp) (epoch : Epoch)
    (currentSlot : Slot) : Option (VoteStateV3 × Except VoteError Unit) :=
  -- the `assert!` that the new state is not empty
  if newState.isEmpty then none
  else
    match checkNewVoteState voteState newState newRoot with
    | .error error => some (voteState, .error error)
    | .ok () => do
        let (earned, currentVoteStateIndex) ← rootedCredits voteState newRoot
        match matchVotes (voteState.votes.drop currentVoteStateIndex) newState with
        | .error error => return (voteState, .error error)
        | .ok newState =>
            let newState := newState.map fun newVote =>
              if newVote.latency = 0 then
                { newVote with
                  latency := VoteStateV3.computeVoteLatency newVote.lockout.slot currentSlot }
              else newVote
            commitNewVoteState voteState newState newRoot timestamp epoch earned

/-! ## Tower syncs -/

/-- The body `do_process_vote_state_update` and `do_process_tower_sync` share. -/
def doProcessProposedVoteState (voteState : VoteStateV3) (slotHashes : List (Slot × Hash))
    (epoch : Epoch) (slot : Slot) (lockouts : List Lockout) (root : Option Slot) (hash : Hash)
    (timestamp : Option UnixTimestamp) : Option (VoteStateV3 × Except VoteError Unit) :=
  match checkAndFilterProposedVoteState voteState lockouts root hash slotHashes with
  | none => none
  | some (.error error) => some (voteState, .error error)
  | some (.ok (lockouts, root)) =>
      processNewVoteState voteState (lockouts.map LandedVote.ofLockout) root timestamp epoch slot

end Validator.Vote
