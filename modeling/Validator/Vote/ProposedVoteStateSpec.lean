import Mathlib.Data.List.Chain
import Validator.Vote.VoteState

namespace Validator.Vote

/-! # What `check_and_filter_proposed_vote_state` checks

The check loop walks the proposed root and lockouts, oldest first, up through the slot hashes,
oldest first.  `CheckMove` says what one turn that does not stop the loop can do, and
`CheckLoopInvariant` what holds of the loop's variables after any number of turns: every
lockout passed so far is in the slot hashes or older than all of them, the indices to filter are
exactly those of the old ones the vote state does not hold, and so on.  A measure that every turn
lowers bounds the turns by the fuel, so the loop never panics, and the checks after it then give
the specification on `Ok`.
-/

/-- `retain` with the indices of the lockouts `p` picks, from `proposedLockoutsIndex` on, is
`filter` by the negation of `p`. -/
theorem retainUnfiltered_eq_filter (p : Lockout → Bool) (indicesToFilter : List Nat)
    (lockouts : List Lockout) (proposedLockoutsIndex filterVotesIndex : Nat)
    (pending : indicesToFilter.drop filterVotesIndex = lockouts.findIdxs p proposedLockoutsIndex) :
    retainUnfiltered indicesToFilter proposedLockoutsIndex filterVotesIndex lockouts =
      lockouts.filter (!p ·) := by
  induction lockouts generalizing proposedLockoutsIndex filterVotesIndex with
  | nil => rfl
  | cons lockout lockouts ih =>
    rw [List.findIdxs_cons] at pending
    by_cases dropped : p lockout
    · rw [if_pos dropped] at pending
      have next : indicesToFilter[filterVotesIndex]? = some proposedLockoutsIndex := by
        rw [← List.head?_drop, pending, List.head?_cons]
      have rest : indicesToFilter.drop (filterVotesIndex + 1) =
          lockouts.findIdxs p (proposedLockoutsIndex + 1) := by
        rw [← List.tail_drop, pending, List.tail_cons]
      simp only [retainUnfiltered, next, if_pos, ih _ _ rest, List.filter_cons, dropped,
        Bool.not_true, Bool.false_eq_true, if_false]
    · rw [if_neg dropped] at pending
      have rest := ih (proposedLockoutsIndex + 1) filterVotesIndex pending
      have kept : (!p lockout) = true := by simpa using dropped
      rw [List.filter_cons, if_pos kept, ← rest]
      cases next : indicesToFilter[filterVotesIndex]? with
      | none => simp only [retainUnfiltered, next]
      | some index =>
        have later : proposedLockoutsIndex + 1 ≤ index := by
          apply List.ge_of_mem_findIdxs
          rw [← pending]
          apply List.mem_of_mem_head?
          rw [List.head?_drop, next]
          rfl
        have other : proposedLockoutsIndex ≠ index := by omega
        simp only [retainUnfiltered, next, if_neg other]

section Step

variable (voteState : VoteStateV3) (proposedLockouts : List Lockout)
  (slotHashes : List (Slot × Hash)) (earliest : Slot)

/-- The turns of the check loop that go on to the next one.  A root or lockout older than every
slot hash is passed over, and such a lockout is marked to filter unless the vote state holds it; a
slot newer than the ancestor moves up to the next slot hash; a slot equal to it is found. -/
inductive CheckMove (proposedVoteSlot ancestorSlot : Slot) (state : CheckLoopState) :
    CheckLoopState → Prop
  | rootTooOld : state.rootToCheck = some proposedVoteSlot → proposedVoteSlot < earliest →
      state.slotHashesIndex = slotHashes.length →
      CheckMove proposedVoteSlot ancestorSlot state { state with rootToCheck := none }
  | lockoutTooOld : state.rootToCheck = none → proposedVoteSlot < earliest →
      state.slotHashesIndex = slotHashes.length →
      CheckMove proposedVoteSlot ancestorSlot state { state with
        proposedLockoutsIndex := state.proposedLockoutsIndex + 1
        proposedLockoutsIndicesToFilter :=
          if !voteState.containsSlot proposedVoteSlot then
            state.proposedLockoutsIndicesToFilter ++ [state.proposedLockoutsIndex]
          else state.proposedLockoutsIndicesToFilter }
  | newer : ancestorSlot < proposedVoteSlot →
      CheckMove proposedVoteSlot ancestorSlot state
        { state with slotHashesIndex := state.slotHashesIndex - 1 }
  | rootFound : state.rootToCheck = some proposedVoteSlot → proposedVoteSlot = ancestorSlot →
      CheckMove proposedVoteSlot ancestorSlot state { state with rootToCheck := none }
  | lockoutFound : state.rootToCheck = none → proposedVoteSlot = ancestorSlot →
      CheckMove proposedVoteSlot ancestorSlot state { state with
        proposedLockoutsIndex := state.proposedLockoutsIndex + 1
        slotHashesIndex := state.slotHashesIndex - 1 }

variable {voteState proposedLockouts slotHashes earliest}

theorem proposedVoteSlot_of_root {state : CheckLoopState} {root : Slot}
    (pending : state.rootToCheck = some root) : proposedVoteSlot proposedLockouts state = some root := by
  rw [proposedVoteSlot, pending]

theorem compareWithAncestor_move {state state' : CheckLoopState} {slot ancestor : Slot}
    (rootIsSlot : ∀ root ∈ state.rootToCheck, root = slot)
    (moved : compareWithAncestor voteState slotHashes earliest state slot ancestor =
      some (.ok state')) :
    CheckMove voteState slotHashes earliest slot ancestor state state' := by
  unfold compareWithAncestor at moved
  by_cases older : slot < ancestor
  · rw [if_pos older] at moved
    by_cases oldest : state.slotHashesIndex = slotHashes.length
    · rw [if_pos oldest] at moved
      by_cases notOld : slot ≥ earliest
      · simp [notOld] at moved
      · rw [if_neg notOld] at moved
        have tooOld : slot < earliest := UInt64.not_le.mp notOld
        cases root : state.rootToCheck with
        | some newProposedRoot =>
          have same := rootIsSlot newProposedRoot root
          simp only [root, same, ne_eq, not_true_eq_false, if_false, if_neg notOld,
            Option.isNone_some, Bool.and_false, Option.some.injEq, Except.ok.injEq] at moved
          subst moved
          exact .rootTooOld (same ▸ root) tooOld oldest
        | none =>
          simp only [root, Option.isNone_none, Bool.and_true, Option.some.injEq,
            Except.ok.injEq] at moved
          subst moved
          have move :=
            @CheckMove.lockoutTooOld voteState slotHashes earliest slot ancestor state root tooOld oldest
          rwa [root] at move
    · simp [oldest] at moved
  · rw [if_neg older] at moved
    by_cases newer : ancestor < slot
    · simp only [if_pos newer, Option.some.injEq, Except.ok.injEq] at moved
      subst moved
      exact .newer newer
    · rw [if_neg newer] at moved
      have same : slot = ancestor :=
        UInt64.le_antisymm (UInt64.not_lt.mp older) (UInt64.not_lt.mp newer) |>.symm
      cases root : state.rootToCheck with
      | some pending =>
        simp only [root, Option.isSome_some, if_true, Option.some.injEq, Except.ok.injEq] at moved
        subst moved
        exact .rootFound (rootIsSlot pending root ▸ root) same
      | none =>
        simp only [root, Option.isSome_none, Bool.false_eq_true, if_false, Option.some.injEq,
          Except.ok.injEq] at moved
        subst moved
        have move := @CheckMove.lockoutFound voteState slotHashes earliest slot ancestor state root same
        rwa [root] at move

theorem compareWithAncestor_isSome {state : CheckLoopState} {slot ancestor : Slot}
    (rootIsSlot : ∀ root ∈ state.rootToCheck, root = slot) :
    ∃ result, compareWithAncestor voteState slotHashes earliest state slot ancestor = some result := by
  unfold compareWithAncestor
  cases root : state.rootToCheck with
  | none => split_ifs <;> exact ⟨_, rfl⟩
  | some pending =>
    have same := rootIsSlot pending root
    simp only [same, ne_eq, not_true_eq_false, if_false]
    split_ifs <;> exact ⟨_, rfl⟩

theorem proposedVoteSlot_isSome {state : CheckLoopState}
    (remaining : state.proposedLockoutsIndex < proposedLockouts.length) :
    ∃ slot, proposedVoteSlot proposedLockouts state = some slot := by
  unfold proposedVoteSlot
  cases state.rootToCheck with
  | some root => exact ⟨root, rfl⟩
  | none => exact ⟨_, by rw [List.getElem?_eq_getElem remaining]; rfl⟩

theorem slotsNotOrdered_isSome {state : CheckLoopState} (slot : Slot)
    (remaining : state.proposedLockoutsIndex < proposedLockouts.length) :
    ∃ notOrdered, slotsNotOrdered proposedLockouts state slot = some notOrdered := by
  unfold slotsNotOrdered
  split
  · exact ⟨_, by rw [List.getElem?_eq_getElem (by omega)]; rfl⟩
  · exact ⟨false, rfl⟩

/-- Everything a turn of the loop that goes on has checked, and what it did. -/
theorem checkStep_move {state state' : CheckLoopState}
    (moved : checkStep voteState proposedLockouts slotHashes earliest state = some (.ok state')) :
    ∃ slot ancestor, proposedVoteSlot proposedLockouts state = some slot ∧
      slotsNotOrdered proposedLockouts state slot = some false ∧
      slotHashes[state.slotHashesIndex - 1]?.map (·.1) = some ancestor ∧
      0 < state.slotHashesIndex ∧ CheckMove voteState slotHashes earliest slot ancestor state state' := by
  unfold checkStep at moved
  cases found : proposedVoteSlot proposedLockouts state with
  | none => simp [found] at moved
  | some slot =>
    cases ordered : slotsNotOrdered proposedLockouts state slot with
    | none => simp [found, ordered] at moved
    | some notOrdered =>
      cases notOrdered with
      | true => simp [found, ordered] at moved
      | false =>
        by_cases positive : 0 < state.slotHashesIndex
        · cases ancestorFound : slotHashes[state.slotHashesIndex - 1]?.map (·.1) with
          | none => simp [found, ordered, Nat.pos_iff_ne_zero.mp positive, ancestorFound] at moved
          | some ancestor =>
            have rootIsSlot : ∀ root ∈ state.rootToCheck, root = slot := by
              intro root pending
              rw [proposedVoteSlot_of_root pending] at found
              exact Option.some.inj found
            simp only [found, ordered, Nat.pos_iff_ne_zero.mp positive, ancestorFound,
              Option.bind_eq_bind, Option.bind_some, Bool.false_eq_true, if_false] at moved
            exact ⟨slot, ancestor, rfl, ordered, rfl, positive,
              compareWithAncestor_move rootIsSlot moved⟩
        · simp [found, ordered, Nat.eq_zero_of_not_pos positive] at moved

/-- Inside the loop's guard a turn never panics. -/
theorem checkStep_isSome {state : CheckLoopState}
    (remaining : state.proposedLockoutsIndex < proposedLockouts.length)
    (positive : 0 < state.slotHashesIndex) (bounded : state.slotHashesIndex ≤ slotHashes.length) :
    ∃ result, checkStep voteState proposedLockouts slotHashes earliest state = some result := by
  obtain ⟨slot, found⟩ := proposedVoteSlot_isSome remaining
  obtain ⟨notOrdered, ordered⟩ := slotsNotOrdered_isSome slot remaining
  have ancestorFound : slotHashes[state.slotHashesIndex - 1]? =
      some slotHashes[state.slotHashesIndex - 1] := List.getElem?_eq_getElem (by omega)
  have rootIsSlot : ∀ root ∈ state.rootToCheck, root = slot := by
    intro root pending
    rw [proposedVoteSlot_of_root pending] at found
    exact Option.some.inj found
  obtain ⟨result, compared⟩ : ∃ result, compareWithAncestor voteState slotHashes earliest state slot
      slotHashes[state.slotHashesIndex - 1].1 = some result := compareWithAncestor_isSome rootIsSlot
  unfold checkStep
  cases notOrdered with
  | true =>
    exact ⟨.error .slotsNotOrdered, by simp only [found, ordered, Option.bind_eq_bind,
      Option.bind_some, if_true, Option.pure_def]⟩
  | false =>
    refine ⟨result, ?_⟩
    simp only [found, ordered, Nat.pos_iff_ne_zero.mp positive, ancestorFound, Option.map_some,
      Option.bind_eq_bind, Option.bind_some, Bool.false_eq_true, if_false, compared]

theorem slotsNotOrdered_false {state : CheckLoopState} {slot : Slot}
    (ordered : slotsNotOrdered proposedLockouts state slot = some false)
    (noRoot : state.rootToCheck = none) (positive : 0 < state.proposedLockoutsIndex) :
    ∃ previous ∈ proposedLockouts[state.proposedLockoutsIndex - 1]?, previous.slot < slot := by
  unfold slotsNotOrdered at ordered
  rw [if_pos ⟨by rw [noRoot]; rfl, positive⟩] at ordered
  obtain ⟨previous, found, above⟩ := Option.map_eq_some_iff.mp ordered
  exact ⟨previous, found, UInt64.not_le.mp (by simpa using above)⟩

end Step

section Loop

variable (voteState : VoteStateV3) (proposedLockouts : List Lockout)
  (slotHashes : List (Slot × Hash)) (earliest : Slot) (proposedRoot : Option Slot)

/-- The lockouts the check drops: older than every slot hash, and not in the vote state. -/
def Filtered (lockout : Lockout) : Bool :=
  lockout.slot < earliest && !voteState.containsSlot lockout.slot

/-- What holds of the check loop's variables after any number of turns from its start. -/
structure CheckLoopInvariant (state : CheckLoopState) : Prop where
  indexBounded : state.proposedLockoutsIndex ≤ proposedLockouts.length
  slotHashesBounded : state.slotHashesIndex ≤ slotHashes.length
  rootFirst : ∀ root ∈ state.rootToCheck,
    proposedRoot = some root ∧ state.proposedLockoutsIndex = 0
  rootChecked : state.rootToCheck = none →
    ∀ root ∈ proposedRoot, root ∈ slotHashes.map (·.1) ∨ root < earliest
  increasing : ((proposedLockouts.take state.proposedLockoutsIndex).map (·.slot)).IsChain (· < ·)
  checked : ∀ lockout ∈ proposedLockouts.take state.proposedLockoutsIndex,
    lockout.slot ∈ slotHashes.map (·.1) ∨ lockout.slot < earliest
  toFilter : state.proposedLockoutsIndicesToFilter =
    (proposedLockouts.take state.proposedLockoutsIndex).findIdxs (Filtered voteState earliest)
  /-- The last lockout was found at `slot_hashes_index`, which the final `assert_eq!` reads. -/
  lastFound : state.proposedLockoutsIndex = proposedLockouts.length → ∀ last ∈ proposedLockouts.getLast?,
    last.slot < earliest ∨ slotHashes[state.slotHashesIndex]?.map (·.1) = some last.slot

/-- The loop's start: the root first, from the oldest slot hash. -/
theorem CheckLoopInvariant.start :
    CheckLoopInvariant voteState proposedLockouts slotHashes earliest proposedRoot
      ⟨proposedRoot, 0, slotHashes.length, []⟩ where
  indexBounded := Nat.zero_le _
  slotHashesBounded := Nat.le_refl _
  rootFirst _ pending := ⟨pending, rfl⟩
  rootChecked noRoot root pending := by simp_all
  increasing := List.IsChain.nil
  checked := by simp
  toFilter := rfl
  lastFound empty last isLast := by
    rw [List.getLast?_eq_none_iff.mpr (List.eq_nil_of_length_eq_zero empty.symm)] at isLast
    cases isLast

/-- Pushing the lockout at `index` keeps the passed slots increasing when it follows the one
before it. -/
theorem increasing_push {lockouts : List Lockout} {index : Nat}
    (remaining : index < lockouts.length)
    (increasing : ((lockouts.take index).map (·.slot)).IsChain (· < ·))
    (follows : 0 < index → ∃ previous ∈ lockouts[index - 1]?, previous.slot < lockouts[index].slot) :
    ((lockouts.take (index + 1)).map (·.slot)).IsChain (· < ·) := by
  rw [List.take_succ_eq_append_getElem remaining, List.map_append]
  apply increasing.append (List.IsChain.singleton _)
  intro previousSlot isLast slot isHead
  rw [List.getLast?_map, List.getLast?_take] at isLast
  simp only [List.head?_cons, Option.mem_def, Option.some.injEq] at isHead
  subst isHead
  split at isLast
  · cases isLast
  · obtain ⟨previous, found, below⟩ := follows (by omega)
    rw [found] at isLast
    simp only [Option.some_or, Option.map_some, Option.mem_def, Option.some.injEq] at isLast
    exact isLast ▸ below

variable {voteState proposedLockouts slotHashes earliest proposedRoot}

theorem proposedVoteSlot_of_noRoot {state : CheckLoopState} (noRoot : state.rootToCheck = none)
    (remaining : state.proposedLockoutsIndex < proposedLockouts.length) :
    proposedVoteSlot proposedLockouts state = some proposedLockouts[state.proposedLockoutsIndex].slot := by
  rw [proposedVoteSlot, noRoot, List.getElem?_eq_getElem remaining, Option.map_some]

namespace CheckLoopInvariant

variable {state : CheckLoopState}
  (inv : CheckLoopInvariant voteState proposedLockouts slotHashes earliest proposedRoot state)
include inv

/-- The root is checked: found in the slot hashes, or older than all of them. -/
theorem rootDone {root : Slot} (pending : state.rootToCheck = some root)
    (checked : root ∈ slotHashes.map (·.1) ∨ root < earliest) :
    CheckLoopInvariant voteState proposedLockouts slotHashes earliest proposedRoot
      { state with rootToCheck := none } where
  indexBounded := inv.indexBounded
  slotHashesBounded := inv.slotHashesBounded
  rootFirst _ isRoot := by cases isRoot
  rootChecked _ other isRoot := by
    have proposed := (inv.rootFirst root pending).1
    simp only [proposed, Option.mem_def, Option.some.injEq] at isRoot
    exact isRoot ▸ checked
  increasing := inv.increasing
  checked := inv.checked
  toFilter := inv.toFilter
  lastFound := inv.lastFound

theorem newer (remaining : state.proposedLockoutsIndex < proposedLockouts.length) :
    CheckLoopInvariant voteState proposedLockouts slotHashes earliest proposedRoot
      { state with slotHashesIndex := state.slotHashesIndex - 1 } where
  indexBounded := inv.indexBounded
  slotHashesBounded := Nat.le_trans (Nat.sub_le _ _) inv.slotHashesBounded
  rootFirst := inv.rootFirst
  rootChecked := inv.rootChecked
  increasing := inv.increasing
  checked := inv.checked
  toFilter := inv.toFilter
  lastFound done := absurd done (Nat.ne_of_lt remaining)

/-- The lockout at the index is checked, and the index moves past it. -/
theorem lockoutDone (remaining : state.proposedLockoutsIndex < proposedLockouts.length)
    (noRoot : state.rootToCheck = none)
    (follows : 0 < state.proposedLockoutsIndex → ∃ previous ∈
      proposedLockouts[state.proposedLockoutsIndex - 1]?,
        previous.slot < proposedLockouts[state.proposedLockoutsIndex].slot)
    (checked : proposedLockouts[state.proposedLockoutsIndex].slot ∈ slotHashes.map (·.1) ∨
      proposedLockouts[state.proposedLockoutsIndex].slot < earliest)
    {slotHashesIndex : Nat} (bounded : slotHashesIndex ≤ slotHashes.length)
    (found : proposedLockouts[state.proposedLockoutsIndex].slot < earliest ∨
      slotHashes[slotHashesIndex]?.map (·.1) = some proposedLockouts[state.proposedLockoutsIndex].slot)
    {indicesToFilter : List Nat}
    (filtered : indicesToFilter = state.proposedLockoutsIndicesToFilter ++
      if Filtered voteState earliest proposedLockouts[state.proposedLockoutsIndex] then
        [state.proposedLockoutsIndex]
      else []) :
    CheckLoopInvariant voteState proposedLockouts slotHashes earliest proposedRoot
      ⟨state.rootToCheck, state.proposedLockoutsIndex + 1, slotHashesIndex, indicesToFilter⟩ where
  indexBounded := remaining
  slotHashesBounded := bounded
  rootFirst _ pending := by rw [noRoot] at pending; cases pending
  rootChecked _ := inv.rootChecked noRoot
  increasing := increasing_push remaining inv.increasing follows
  checked lockout passed := by
    rw [List.take_succ_eq_append_getElem remaining, List.mem_append, List.mem_singleton] at passed
    rcases passed with earlier | current
    · exact inv.checked lockout earlier
    · exact current ▸ checked
  toFilter := by
    rw [filtered, inv.toFilter, List.take_succ_eq_append_getElem remaining, List.findIdxs_append,
      List.findIdxs_singleton, List.length_take, Nat.min_eq_left inv.indexBounded, Nat.zero_add]
  lastFound done last isLast := by
    rw [List.getLast?_eq_getElem?, ← done, Nat.add_sub_cancel,
      List.getElem?_eq_getElem remaining] at isLast
    simp only [Option.mem_def, Option.some.injEq] at isLast
    exact isLast ▸ found

/-- Every turn that goes on keeps the invariant. -/
theorem move (oldest : ∀ hashed ∈ slotHashes, earliest ≤ hashed.1)
    (remaining : state.proposedLockoutsIndex < proposedLockouts.length)
    {state' : CheckLoopState} {slot ancestor : Slot}
    (found : proposedVoteSlot proposedLockouts state = some slot)
    (ordered : slotsNotOrdered proposedLockouts state slot = some false)
    (ancestorFound : slotHashes[state.slotHashesIndex - 1]?.map (·.1) = some ancestor)
    (moved : CheckMove voteState slotHashes earliest slot ancestor state state') :
    CheckLoopInvariant voteState proposedLockouts slotHashes earliest proposedRoot state' := by
  obtain ⟨hashed, isHashed, hashedSlot⟩ := Option.map_eq_some_iff.mp ancestorFound
  have ancestorHashed : ancestor ∈ slotHashes.map (·.1) :=
    hashedSlot ▸ List.mem_map_of_mem (List.mem_of_getElem? isHashed)
  cases moved with
  | rootTooOld pending tooOld _ => exact inv.rootDone pending (.inr tooOld)
  | rootFound pending same => exact inv.rootDone pending (.inl (same ▸ ancestorHashed))
  | newer _ => exact inv.newer remaining
  | lockoutTooOld noRoot tooOld _ =>
    have isSlot := Option.some.inj ((proposedVoteSlot_of_noRoot noRoot remaining).symm.trans found)
    have follows := isSlot ▸ slotsNotOrdered_false ordered noRoot
    refine inv.lockoutDone remaining noRoot follows (.inr (isSlot ▸ tooOld))
      inv.slotHashesBounded (.inl (isSlot ▸ tooOld)) ?_
    rw [Filtered, isSlot, decide_eq_true tooOld, Bool.true_and]
    cases voteState.containsSlot slot <;> simp
  | lockoutFound noRoot same =>
    have isSlot := Option.some.inj ((proposedVoteSlot_of_noRoot noRoot remaining).symm.trans found)
    have follows := isSlot ▸ slotsNotOrdered_false ordered noRoot
    have notOld : ¬slot < earliest := by
      rw [same, ← hashedSlot]
      exact UInt64.not_lt.mpr (oldest hashed (List.mem_of_getElem? isHashed))
    refine inv.lockoutDone remaining noRoot follows (.inl (isSlot ▸ same ▸ ancestorHashed))
      (Nat.le_trans (Nat.sub_le _ _) inv.slotHashesBounded)
      (.inr (isSlot ▸ same ▸ ancestorFound)) ?_
    rw [Filtered, isSlot, decide_eq_false notOld, Bool.false_and]
    simp

end CheckLoopInvariant

/-- What the check loop has left to do: the lockouts, the slot hashes, and the root if it is still
to check.  Every turn lowers it. -/
def checkMeasure (proposedLockouts : List Lockout) (state : CheckLoopState) : Nat :=
  proposedLockouts.length - state.proposedLockoutsIndex + state.slotHashesIndex +
    if state.rootToCheck.isSome then 1 else 0

theorem CheckMove.measure_lt {state state' : CheckLoopState} {slot ancestor : Slot}
    (remaining : state.proposedLockoutsIndex < proposedLockouts.length)
    (positive : 0 < state.slotHashesIndex)
    (moved : CheckMove voteState slotHashes earliest slot ancestor state state') :
    checkMeasure proposedLockouts state' < checkMeasure proposedLockouts state := by
  cases moved with
  | rootTooOld pending _ _ | rootFound pending _ =>
    simp only [checkMeasure, pending, Option.isSome_some, Option.isSome_none, if_true,
      Bool.false_eq_true, if_false]
    omega
  | newer _ =>
    simp only [checkMeasure]
    omega
  | lockoutTooOld noRoot _ _ | lockoutFound noRoot _ =>
    simp only [checkMeasure, noRoot]
    omega

/-- With more fuel than the measure the loop never panics, and when it stops without an error its
variables keep the invariant and fail its guard. -/
theorem checkLoop_returns (oldest : ∀ hashed ∈ slotHashes, earliest ≤ hashed.1) (fuel : Nat)
    (state : CheckLoopState)
    (inv : CheckLoopInvariant voteState proposedLockouts slotHashes earliest proposedRoot state)
    (enough : checkMeasure proposedLockouts state < fuel) :
    ∃ result, checkLoop voteState proposedLockouts slotHashes earliest fuel state = some result ∧
      ∀ final, result = .ok final →
        CheckLoopInvariant voteState proposedLockouts slotHashes earliest proposedRoot final ∧
          ¬(final.proposedLockoutsIndex < proposedLockouts.length ∧ 0 < final.slotHashesIndex) := by
  induction fuel generalizing state with
  | zero => omega
  | succ fuel ih =>
    rw [checkLoop]
    by_cases continues :
        state.proposedLockoutsIndex < proposedLockouts.length ∧ 0 < state.slotHashesIndex
    · obtain ⟨remaining, positive⟩ := continues
      rw [if_pos ⟨remaining, positive⟩]
      obtain ⟨result, stepped⟩ : ∃ result,
          checkStep voteState proposedLockouts slotHashes earliest state = some result :=
        checkStep_isSome remaining positive inv.slotHashesBounded
      rw [stepped]
      cases result with
      | error error => exact ⟨.error error, rfl, fun _ isOk => by cases isOk⟩
      | ok next =>
        obtain ⟨slot, ancestor, found, ordered, ancestorFound, -, moved⟩ := checkStep_move stepped
        have nextInv := inv.move oldest remaining found ordered ancestorFound moved
        have lower := moved.measure_lt remaining positive
        exact ih next nextInv (by omega)
    · rw [if_neg continues]
      exact ⟨.ok state, rfl, fun final isOk => by cases isOk; exact ⟨inv, continues⟩⟩

end Loop

/-- Every member of a list sorted by `R` is its last one or `R`-before it. -/
theorem eq_or_rel_getLast_of_pairwise {α : Type} {R : α → α → Prop} {l : List α}
    (sorted : l.Pairwise R) {last : α} (isLast : l.getLast? = some last) :
    ∀ x ∈ l, x = last ∨ R x last := by
  obtain ⟨earlier, rfl⟩ := List.getLast?_eq_some_iff.mp isLast
  rw [List.pairwise_append] at sorted
  intro x isMember
  rcases List.mem_append.mp isMember with isEarlier | isLast
  · exact .inr (sorted.2.2 x isEarlier last (List.mem_singleton_self last))
  · exact .inl (List.mem_singleton.mp isLast)

/-- In slot hashes sorted newest first, the last is the oldest. -/
theorem earliest_le_of_sorted {slotHashes : List (Slot × Hash)} {earliest : Slot × Hash}
    (sorted : (slotHashes.map (·.1)).Pairwise (· > ·)) (isLast : slotHashes.getLast? = some earliest) :
    ∀ hashed ∈ slotHashes, earliest.1 ≤ hashed.1 := by
  intro hashed isHashed
  have lastSlot : (slotHashes.map (·.1)).getLast? = some earliest.1 := by
    rw [List.getLast?_map, isLast, Option.map_some]
  rcases eq_or_rel_getLast_of_pairwise sorted lastSlot hashed.1 (List.mem_map_of_mem isHashed) with
    same | newer
  · exact same ▸ UInt64.le_refl _
  · exact UInt64.le_of_lt newer

theorem overwriteTooOldRoot_of_le {voteState : VoteStateV3} {earliest root : Slot}
    (notOld : earliest ≤ root) : overwriteTooOldRoot voteState earliest (some root) = some root := by
  rw [overwriteTooOldRoot, if_neg (UInt64.not_lt.mpr notOld)]

theorem overwriteTooOldRoot_of_lt {voteState : VoteStateV3} {earliest root : Slot}
    (tooOld : root < earliest) :
    overwriteTooOldRoot voteState earliest (some root) =
      ((voteState.votes.filter (·.lockout.slot ≤ root)).getLast?.map (·.lockout.slot)).or
        voteState.rootSlot := by
  rw [overwriteTooOldRoot, if_pos tooOld, List.getLast?_filter]

/-- With the votes sorted by slot, as the vote program keeps them, a root too old to check becomes
the greatest voted slot at or below it, or the vote state's root when there is none. -/
theorem overwriteTooOldRoot_greatest {voteState : VoteStateV3} {earliest root : Slot}
    (sorted : (voteState.votes.map (·.lockout.slot)).Pairwise (· < ·)) (tooOld : root < earliest) :
    (∃ latest ∈ voteState.votes, latest.lockout.slot ≤ root ∧
      overwriteTooOldRoot voteState earliest (some root) = some latest.lockout.slot ∧
      ∀ vote ∈ voteState.votes, vote.lockout.slot ≤ root → vote.lockout.slot ≤ latest.lockout.slot) ∨
    ((∀ vote ∈ voteState.votes, root < vote.lockout.slot) ∧
      overwriteTooOldRoot voteState earliest (some root) = voteState.rootSlot) := by
  rw [overwriteTooOldRoot_of_lt tooOld]
  cases isLatest : (voteState.votes.filter (·.lockout.slot ≤ root)).getLast? with
  | none =>
    refine .inr ⟨fun vote isVote => ?_, rfl⟩
    have noneBelow := List.getLast?_eq_none_iff.mp isLatest
    have notKept : vote ∉ voteState.votes.filter (·.lockout.slot ≤ root) := by simp [noneBelow]
    simpa [isVote] using notKept
  | some latest =>
    have kept := List.mem_of_getLast? isLatest
    rw [List.mem_filter, decide_eq_true_iff] at kept
    refine .inl ⟨latest, kept.1, kept.2, rfl, fun vote isVote below => ?_⟩
    have keptSorted : ((voteState.votes.filter (·.lockout.slot ≤ root)).map (·.lockout.slot)).Pairwise
        (· < ·) := List.pairwise_map.mpr ((List.pairwise_map.mp sorted).filter _)
    have lastSlot : ((voteState.votes.filter (·.lockout.slot ≤ root)).map (·.lockout.slot)).getLast? =
        some latest.lockout.slot := by
      rw [List.getLast?_map, isLatest, Option.map_some]
    have voteKept : vote.lockout.slot ∈ (voteState.votes.filter (·.lockout.slot ≤ root)).map
        (·.lockout.slot) := List.mem_map_of_mem (List.mem_filter.mpr ⟨isVote, by simpa using below⟩)
    rcases eq_or_rel_getLast_of_pairwise keptSorted lastSlot _ voteKept with same | older
    · exact same ▸ UInt64.le_refl _
    · exact UInt64.le_of_lt older

/-- What `check_and_filter_proposed_vote_state` promises when it returns `Ok` with `lockouts` and
`root`, `earliest` being the oldest slot hash. -/
structure ProposalChecked (voteState : VoteStateV3) (proposedLockouts : List Lockout)
    (proposedRoot : Option Slot) (proposedHash : Hash) (slotHashes : List (Slot × Hash))
    (earliest : Slot) (lockouts : List Lockout) (root : Option Slot) : Prop where
  slotsIncreasing : (proposedLockouts.map (·.slot)).Pairwise (· < ·)
  lastHashed : ∃ last ∈ proposedLockouts.getLast?, (last.slot, proposedHash) ∈ slotHashes
  retainedKnown : ∀ lockout ∈ lockouts, lockout.slot ∈ slotHashes.map (·.1) ∨
    lockout.slot < earliest ∧ voteState.containsSlot lockout.slot
  filtered : lockouts = proposedLockouts.filter (!Filtered voteState earliest ·)
  rootKept : ∀ proposed ∈ proposedRoot, earliest ≤ proposed →
    root = some proposed ∧ proposed ∈ slotHashes.map (·.1)
  rootReplaced : ∀ proposed ∈ proposedRoot, proposed < earliest →
    root = ((voteState.votes.filter (·.lockout.slot ≤ proposed)).getLast?.map (·.lockout.slot)).or
      voteState.rootSlot
  rootNone : proposedRoot = none → root = none

/-- The checks after a loop that stopped with the last lockout found, and the `retain`. -/
theorem ProposalChecked.of_loop {voteState : VoteStateV3} {proposedLockouts : List Lockout}
    {proposedRoot : Option Slot} {proposedHash : Hash} {slotHashes : List (Slot × Hash)}
    {earliest : Slot} {final : CheckLoopState} {lastProposed : Lockout}
    (inv : CheckLoopInvariant voteState proposedLockouts slotHashes earliest
      (overwriteTooOldRoot voteState earliest proposedRoot) final)
    (lastIs : proposedLockouts.getLast? = some lastProposed)
    (atEnd : final.proposedLockoutsIndex = proposedLockouts.length)
    (hashed : slotHashes[final.slotHashesIndex]? = some (lastProposed.slot, proposedHash)) :
    ProposalChecked voteState proposedLockouts proposedRoot proposedHash slotHashes earliest
      (retainUnfiltered final.proposedLockoutsIndicesToFilter 0 0 proposedLockouts)
      (overwriteTooOldRoot voteState earliest proposedRoot) := by
  have passed : proposedLockouts.take final.proposedLockoutsIndex = proposedLockouts := by
    rw [atEnd, List.take_length]
  have filtered := retainUnfiltered_eq_filter (Filtered voteState earliest)
    final.proposedLockoutsIndicesToFilter proposedLockouts 0 0 (by rw [List.drop_zero, inv.toFilter, passed])
  -- the root is checked before any lockout, and every lockout was
  have rootDone : final.rootToCheck = none := by
    cases pending : final.rootToCheck with
    | none => rfl
    | some root =>
      have noneChecked := (inv.rootFirst root pending).2
      rw [atEnd] at noneChecked
      rw [List.length_eq_zero_iff.mp noneChecked] at lastIs
      cases lastIs
  refine ⟨?_, ⟨lastProposed, lastIs, List.mem_of_getElem? hashed⟩, ?_, filtered, ?_, ?_, ?_⟩
  · have chain := inv.increasing
    rw [passed] at chain
    exact List.isChain_iff_pairwise.mp chain
  · intro lockout retained
    rw [filtered] at retained
    obtain ⟨proposed, kept⟩ := List.mem_filter.mp retained
    rcases inv.checked lockout (by rw [passed]; exact proposed) with isHashed | tooOld
    · exact .inl isHashed
    · exact .inr ⟨tooOld, by simpa [Filtered, tooOld] using kept⟩
  · intro root proposed notOld
    rw [Option.mem_def.mp proposed, overwriteTooOldRoot_of_le notOld]
    refine ⟨rfl, ?_⟩
    have checked := inv.rootChecked rootDone root
      (by rw [Option.mem_def.mp proposed, overwriteTooOldRoot_of_le notOld]; rfl)
    exact checked.resolve_right (UInt64.not_lt.mpr notOld)
  · intro root proposed tooOld
    rw [Option.mem_def.mp proposed, overwriteTooOldRoot_of_lt tooOld]
  · intro noRoot
    rw [noRoot, overwriteTooOldRoot]

theorem checkAndFilterProposedVoteState_returns_checked_proposal (voteState : VoteStateV3)
    (proposedLockouts : List Lockout) (proposedRoot : Option Slot) (proposedHash : Hash)
    (slotHashes : List (Slot × Hash)) (sorted : (slotHashes.map (·.1)).Pairwise (· > ·)) :
    ∃ result, checkAndFilterProposedVoteState voteState proposedLockouts proposedRoot proposedHash
        slotHashes = some result ∧
      ∀ lockouts root, result = .ok (lockouts, root) →
        ∃ earliest, slotHashes.getLast?.map (·.1) = some earliest ∧
          ProposalChecked voteState proposedLockouts proposedRoot proposedHash slotHashes earliest
            lockouts root := by
  rw [checkAndFilterProposedVoteState]
  cases lastIs : proposedLockouts.getLast? with
  | none => exact ⟨_, rfl, fun _ _ isOk => by cases isOk⟩
  | some lastProposed =>
    simp only
    split
    · exact ⟨_, rfl, fun _ _ isOk => by cases isOk⟩
    cases earliestIs : slotHashes.getLast? with
    | none => exact ⟨_, rfl, fun _ _ isOk => by cases isOk⟩
    | some earliest =>
      simp only
      split
      · exact ⟨_, rfl, fun _ _ isOk => by cases isOk⟩
      rename_i notTooOld
      -- the loop starts with one more unit of fuel than it can use
      obtain ⟨result, looped, stopped⟩ := checkLoop_returns (earliest_le_of_sorted sorted earliestIs)
        (slotHashes.length + proposedLockouts.length + 2) _
        (CheckLoopInvariant.start voteState proposedLockouts slotHashes earliest.1
          (overwriteTooOldRoot voteState earliest.1 proposedRoot))
        (by simp only [checkMeasure]; split <;> omega)
      rw [looped]
      cases result with
      | error error => exact ⟨_, rfl, fun _ _ isOk => by cases isOk⟩
      | ok final =>
        obtain ⟨inv, _⟩ := stopped final rfl
        simp only [Option.bind_eq_bind, Option.bind_some]
        split
        · exact ⟨_, rfl, fun _ _ isOk => by cases isOk⟩
        rename_i atEnd
        rw [ne_eq, not_not] at atEnd
        -- the `assert_eq!` holds: the last lockout was found at `slot_hashes_index`
        obtain ⟨⟨slot, hash⟩, hashed, sameSlot⟩ := Option.map_eq_some_iff.mp
          ((inv.lastFound atEnd lastProposed lastIs).resolve_left notTooOld)
        cases sameSlot
        rw [hashed]
        simp only [Option.bind_some, ne_eq, not_true_eq_false, if_false]
        split
        · exact ⟨_, rfl, fun _ _ isOk => by cases isOk⟩
        rename_i sameHash
        rw [not_not] at sameHash
        subst sameHash
        refine ⟨_, rfl, fun lockouts root isOk => ?_⟩
        cases isOk
        exact ⟨earliest.1, rfl, ProposalChecked.of_loop inv lastIs atEnd hashed⟩

theorem checkAndFilterProposedVoteState_checks_tower_sync :
    ([(10, 7), (5, 6)].map (·.1) : List Slot).Pairwise (· > ·) ∧
      ∃ result, checkAndFilterProposedVoteState ⟨[⟨1, ⟨3, 1⟩⟩], none, [], ⟨3, 100⟩⟩ [⟨10, 1⟩]
          (some 5) 7 [(10, 7), (5, 6)] = some result ∧
        ∀ lockouts root, result = .ok (lockouts, root) →
          ∃ earliest, ([(10, 7), (5, 6)] : List (Slot × Hash)).getLast?.map (·.1) = some earliest ∧
            ProposalChecked ⟨[⟨1, ⟨3, 1⟩⟩], none, [], ⟨3, 100⟩⟩ [⟨10, 1⟩] (some 5) 7
              [(10, 7), (5, 6)] earliest lockouts root :=
  ⟨by decide, checkAndFilterProposedVoteState_returns_checked_proposal _ _ _ _ _ (by decide)⟩

end Validator.Vote
