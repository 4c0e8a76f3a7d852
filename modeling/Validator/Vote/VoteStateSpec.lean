import Validator.Vote.VoteState

namespace Validator.Vote

/-! # What a rejected vote leaves behind

Every check of `process_new_vote_state` comes before it changes the vote state, except the
timestamp's: `increment_credits` runs first, so a tower sync whose timestamp is stale returns
`TimestampTooOld` from a vote state whose epoch credits already count the newly rooted votes.
-/

namespace VoteStateV3

variable (self : VoteStateV3)

@[simp] theorem votes_incrementCredits (epoch : Epoch) (credits : UInt64) :
    (self.incrementCredits epoch credits).votes = self.votes :=
  rfl

@[simp] theorem rootSlot_incrementCredits (epoch : Epoch) (credits : UInt64) :
    (self.incrementCredits epoch credits).rootSlot = self.rootSlot :=
  rfl

@[simp] theorem lastTimestamp_incrementCredits (epoch : Epoch) (credits : UInt64) :
    (self.incrementCredits epoch credits).lastTimestamp = self.lastTimestamp :=
  rfl

theorem processTimestamp_error {slot : Slot} {timestamp : UnixTimestamp} {after : VoteStateV3}
    {error : VoteError} (rejected : self.processTimestamp slot timestamp = (after, .error error)) :
    after = self ∧ error = .timestampTooOld := by
  unfold processTimestamp at rejected
  split at rejected
  · cases rejected
    exact ⟨rfl, rfl⟩
  · cases rejected

end VoteStateV3

theorem commitNewVoteState_error {voteState after : VoteStateV3} {newState : List LandedVote}
    {newRoot : Option Slot} {timestamp : Option UnixTimestamp} {epoch : Epoch} {earned : UInt64}
    {error : VoteError}
    (rejected : commitNewVoteState voteState newState newRoot timestamp epoch earned =
      some (after, .error error)) :
    error = .timestampTooOld ∧
      after = if voteState.rootSlot ≠ newRoot then voteState.incrementCredits epoch earned
        else voteState := by
  unfold commitNewVoteState at rejected
  cases timestamp with
  | none => cases rejected
  | some timestamp =>
    cases lastIs : newState.getLast? with
    | none => simp [lastIs] at rejected
    | some last =>
      generalize credited : (if voteState.rootSlot ≠ newRoot then
        voteState.incrementCredits epoch earned else voteState) = voteState' at rejected
      cases checked : voteState'.processTimestamp last.lockout.slot timestamp with
      | mk stamped result =>
        simp only [lastIs, checked, Option.map_some, Option.bind_eq_bind, Option.bind_some,
          Option.pure_def] at rejected
        cases result with
        | ok => cases rejected
        | error timestampError =>
          cases rejected
          obtain ⟨unchanged, stale⟩ := voteState'.processTimestamp_error checked
          exact ⟨stale, unchanged⟩

/-- A rejected new vote state leaves the vote state as it was, except that a stale timestamp is
only rejected once the credits of the newly rooted votes are awarded. -/
theorem processNewVoteState_error {voteState after : VoteStateV3} {newState : List LandedVote}
    {newRoot : Option Slot} {timestamp : Option UnixTimestamp} {epoch : Epoch} {currentSlot : Slot}
    {error : VoteError}
    (rejected : processNewVoteState voteState newState newRoot timestamp epoch currentSlot =
      some (after, .error error)) :
    after = voteState ∨
      error = .timestampTooOld ∧ ∃ earned, after = voteState.incrementCredits epoch earned := by
  unfold processNewVoteState at rejected
  split at rejected
  · cases rejected
  cases checked : checkNewVoteState voteState newState newRoot with
  | error checkError =>
    rw [checked] at rejected
    cases rejected
    exact .inl rfl
  | ok =>
  rw [checked] at rejected
  simp only [Option.bind_eq_bind, Option.bind_eq_some_iff] at rejected
  obtain ⟨⟨earned, currentVoteStateIndex⟩, _, matched⟩ := rejected
  split at matched
  · cases matched
    exact .inl rfl
  obtain ⟨stale, committed⟩ := commitNewVoteState_error matched
  split at committed
  · exact .inr ⟨stale, earned, committed⟩
  · exact .inl committed

/-- Every error of `do_process_tower_sync` and `do_process_vote_state_update` keeps the votes, the
root and the last timestamp, and only `TimestampTooOld` comes with credits awarded. -/
theorem doProcessProposedVoteState_error {voteState after : VoteStateV3}
    {slotHashes : List (Slot × Hash)} {epoch : Epoch} {slot : Slot} {lockouts : List Lockout}
    {root : Option Slot} {hash : Hash} {timestamp : Option UnixTimestamp} {error : VoteError}
    (rejected : doProcessProposedVoteState voteState slotHashes epoch slot lockouts root hash
      timestamp = some (after, .error error)) :
    after = voteState ∨
      error = .timestampTooOld ∧ ∃ earned, after = voteState.incrementCredits epoch earned := by
  unfold doProcessProposedVoteState at rejected
  split at rejected
  · cases rejected
  · cases rejected
    exact .inl rfl
  · exact processNewVoteState_error rejected

end Validator.Vote
