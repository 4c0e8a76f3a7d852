import Mathlib.Data.List.Chain
import Validator.Consensus.TowerVoteState

namespace Validator.Consensus

open Validator.Vote

/-! # The tower stays well formed

Votes oldest first with increasing slots above the root, confirmation counts decreasing from
at most `MAX_LOCKOUT_HISTORY` down to one, and each vote inside its predecessor's lockout.
`process_next_vote_slot` keeps this shape, never panics and never lowers the root, from every
such state in which a root comes with at least one vote.  A tower with a root and no votes
takes any slot, also one below its root.
-/

namespace TowerVoteState

/-- What the stack keeps when votes leave it from either end. -/
structure Ordered (votes : List Lockout) : Prop where
  slotsIncreasing : votes.Pairwise fun earlier later => earlier.slot < later.slot
  countsDecreasing : votes.Pairwise fun earlier later =>
    later.confirmationCount.toNat < earlier.confirmationCount.toNat
  countsBounded : ∀ vote ∈ votes,
    1 ≤ vote.confirmationCount.toNat ∧ vote.confirmationCount.toNat ≤ maxLockoutHistory
  lockedOut : votes.IsChain fun earlier later => later.slot ≤ earlier.lastLockedOutSlot

structure WellFormed (tower : TowerVoteState) : Prop where
  ordered : Ordered tower.votes
  aboveRoot : ∀ root ∈ tower.rootSlot, ∀ vote ∈ tower.votes, root < vote.slot
  lastCount : ∀ vote ∈ tower.votes.getLast?, vote.confirmationCount.toNat = 1
  lengthBounded : tower.votes.length ≤ maxLockoutHistory

theorem Ordered.of_append {votes expired : List Lockout} (ordered : Ordered (votes ++ expired)) :
    Ordered votes where
  slotsIncreasing := ordered.slotsIncreasing.sublist (List.sublist_append_left _ _)
  countsDecreasing := ordered.countsDecreasing.sublist (List.sublist_append_left _ _)
  countsBounded := fun vote member => ordered.countsBounded vote (List.mem_append_left _ member)
  lockedOut := ordered.lockedOut.left_of_append

theorem Ordered.of_cons {rootedVote : Lockout} {votes : List Lockout}
    (ordered : Ordered (rootedVote :: votes)) : Ordered votes where
  slotsIncreasing := ordered.slotsIncreasing.of_cons
  countsDecreasing := ordered.countsDecreasing.of_cons
  countsBounded := fun vote member => ordered.countsBounded vote (List.mem_cons_of_mem _ member)
  lockedOut := ordered.lockedOut.tail

theorem slot_le_last {votes : List Lockout}
    (increasing : votes.Pairwise fun earlier later => earlier.slot < later.slot) :
    ∀ last ∈ votes.getLast?, ∀ vote ∈ votes, vote.slot ≤ last.slot := by
  intro last found vote member
  obtain ⟨front, rfl⟩ := List.getLast?_eq_some_iff.mp found
  rcases List.mem_append.mp member with earlier | same
  · exact UInt64.le_of_lt
      ((List.pairwise_append.mp increasing).2.2 vote earlier last (List.mem_singleton_self last))
  · rw [List.mem_singleton.mp same]
    exact UInt64.le_refl _

/-- A strictly decreasing list of positive counts starts at least at its length. -/
theorem length_le_firstCount : ∀ {votes : List Lockout},
    votes.Pairwise (fun earlier later =>
      later.confirmationCount.toNat < earlier.confirmationCount.toNat) →
    (∀ vote ∈ votes, 1 ≤ vote.confirmationCount.toNat) →
    ∀ first ∈ votes.head?, votes.length ≤ first.confirmationCount.toNat
  | [], _, _ => by simp
  | [vote], _, positive => by simpa using positive vote
  | vote :: next :: votes, decreasing, positive => by
      intro first found
      cases Option.some.inj found
      have nextBound := length_le_firstCount decreasing.of_cons
        (fun other member => positive other (List.mem_cons_of_mem _ member)) next rfl
      have below := List.rel_of_pairwise_cons decreasing List.mem_cons_self
      simp only [List.length_cons] at nextBound ⊢
      omega

/-! ## Popping and rooting -/

section Popping

variable (self : TowerVoteState) (nextVoteSlot : Slot)

theorem popExpiredVotes_append : ∃ expired,
    (self.popExpiredVotes nextVoteSlot).votes ++ expired = self.votes :=
  List.rdropWhile_prefix _ _

theorem isLockedOutAtSlot_last_popExpiredVotes :
    ∀ vote ∈ (self.popExpiredVotes nextVoteSlot).votes.getLast?,
      vote.isLockedOutAtSlot nextVoteSlot = true := by
  intro vote found
  have nonempty : (self.popExpiredVotes nextVoteSlot).votes ≠ [] := by
    intro empty
    simp [empty] at found
  rw [List.getLast?_eq_some_getLast nonempty, Option.mem_def, Option.some.injEq] at found
  subst found
  have lastNot := List.rdropWhile_last_not _ _ nonempty
  simp only [Bool.not_eq_eq_eq_not, Bool.not_true, Bool.not_eq_false] at lastNot
  exact lastNot

@[simp] theorem rootSlot_popExpiredVotes :
    (self.popExpiredVotes nextVoteSlot).rootSlot = self.rootSlot :=
  rfl

/-- `rootOldestVote` on a stack of at most `MAX_LOCKOUT_HISTORY` votes: it roots the oldest
vote of a full stack, and keeps any other stack. -/
theorem rootOldestVote_cases (bounded : self.votes.length ≤ maxLockoutHistory) :
    (self.votes.length < maxLockoutHistory ∧ self.rootOldestVote = some self) ∨
      ∃ rootedVote votes, self.votes = rootedVote :: votes ∧
        votes.length + 1 = maxLockoutHistory ∧
        self.rootOldestVote = some ⟨votes, some rootedVote.slot⟩ := by
  unfold rootOldestVote
  obtain ⟨votes, rootSlot⟩ := self
  by_cases full : votes.length = maxLockoutHistory
  · cases votes with
    | nil => cases full
    | cons rootedVote votes => exact .inr ⟨rootedVote, votes, rfl, full, if_pos full⟩
  · exact .inl ⟨Nat.lt_of_le_of_ne bounded full, if_neg full⟩

end Popping

/-! ## Doubling -/

/-- The lockouts `double_lockouts` leaves: each vote confirmed once more while it has fewer
confirmations than votes from it to the top. -/
def doubled : List Lockout → List Lockout
  | [] => []
  | vote :: votes =>
      (if vote.confirmationCount.toNat < votes.length + 1 then vote.increaseConfirmationCount 1
        else vote) :: doubled votes

theorem doubleLockoutsLoop_eq {stackDepth : Nat} (small : stackDepth + 2 ^ 32 ≤ 2 ^ 64) :
    ∀ (votes : List Lockout) (i : Nat), i + votes.length = stackDepth →
      doubleLockoutsLoop stackDepth i votes = some (doubled votes)
  | [], _, _ => rfl
  | vote :: votes, i, depth => by
      have rest := doubleLockoutsLoop_eq small votes (i + 1) (by simp at depth; omega)
      have countBound := vote.confirmationCount.toNat_lt
      simp only [List.length_cons] at depth
      have confirms : stackDepth > i + vote.confirmationCount.toNat ↔
          vote.confirmationCount.toNat < votes.length + 1 := by omega
      simp only [doubleLockoutsLoop, rest, doubled, confirms, Option.map_eq_map, Option.map_some]
      rw [if_neg (by omega)]

theorem map_slot_doubled : ∀ votes : List Lockout, (doubled votes).map (·.slot) = votes.map (·.slot)
  | [] => rfl
  | vote :: votes => by
      simp only [doubled, List.map_cons, map_slot_doubled votes, List.cons.injEq, and_true]
      split <;> rfl

theorem confirmationCount_le_increaseConfirmationCount (vote : Lockout) :
    vote.confirmationCount ≤ (vote.increaseConfirmationCount 1).confirmationCount := by
  rw [UInt32.le_iff_toNat_le, Lockout.toNat_increaseConfirmationCount]
  have inside := vote.confirmationCount.toNat_lt
  simp only [UInt32.toNat_one]
  omega

theorem isChain_lockedOut_doubled : ∀ {votes : List Lockout},
    votes.IsChain (fun earlier later => later.slot ≤ earlier.lastLockedOutSlot) →
    (doubled votes).IsChain fun earlier later => later.slot ≤ earlier.lastLockedOutSlot
  | [], _ => .nil
  | [_], _ => by
      simp only [doubled]
      exact .singleton _
  | vote :: next :: votes, chain => by
      rw [List.isChain_cons_cons] at chain
      have rest := isChain_lockedOut_doubled chain.2
      simp only [doubled] at rest ⊢
      refine List.isChain_cons_cons.mpr ⟨?_, rest⟩
      have nextSlot : (if next.confirmationCount.toNat < votes.length + 1 then
          next.increaseConfirmationCount 1 else next).slot = next.slot := by
        split <;> rfl
      rw [nextSlot]
      refine UInt64.le_trans chain.1 (Lockout.lastLockedOutSlot_le _ ?_ ?_)
      · split <;> rfl
      · split
        · exact confirmationCount_le_increaseConfirmationCount vote
        · exact UInt32.le_refl _

theorem length_doubled : ∀ votes : List Lockout, (doubled votes).length = votes.length
  | [] => rfl
  | _ :: votes => by simp [doubled, length_doubled votes]

/-- The counts after a push and `double_lockouts`: decreasing, from at most the larger of the old
first count and the new height, down to the new vote's single confirmation. -/
theorem counts_doubled_push (nextVoteSlot : Slot) : ∀ {votes : List Lockout},
    votes.Pairwise (fun earlier later =>
      later.confirmationCount.toNat < earlier.confirmationCount.toNat) →
    (∀ vote ∈ votes, 1 ≤ vote.confirmationCount.toNat ∧
      vote.confirmationCount.toNat ≤ maxLockoutHistory) →
    votes.length < maxLockoutHistory →
    (doubled (votes ++ [Lockout.new nextVoteSlot])).Pairwise (fun earlier later =>
        later.confirmationCount.toNat < earlier.confirmationCount.toNat) ∧
      (∀ vote ∈ doubled (votes ++ [Lockout.new nextVoteSlot]), 1 ≤ vote.confirmationCount.toNat ∧
        vote.confirmationCount.toNat ≤
          max ((votes.head?.map (·.confirmationCount.toNat)).getD 0) (votes.length + 1)) ∧
      ∀ vote ∈ (doubled (votes ++ [Lockout.new nextVoteSlot])).getLast?,
        vote.confirmationCount.toNat = 1
  | [], _, _, _ => by simp [doubled, Lockout.new]
  | vote :: votes, decreasing, bounded, short => by
      have positive : ∀ other ∈ vote :: votes, 1 ≤ other.confirmationCount.toNat :=
        fun other member => (bounded other member).1
      have height : votes.length + 1 ≤ vote.confirmationCount.toNat := by
        simpa using length_le_firstCount decreasing positive vote rfl
      obtain ⟨restDecreasing, restBounded, restLast⟩ := counts_doubled_push nextVoteSlot
        decreasing.of_cons (fun other member => bounded other (List.mem_cons_of_mem _ member))
        (by simp at short; omega)
      have first : (votes.head?.map (·.confirmationCount.toNat)).getD 0 <
          vote.confirmationCount.toNat := by
        cases votes with
        | nil =>
            have one := positive vote List.mem_cons_self
            simp only [List.head?_nil, Option.map_none, Option.getD_none]
            omega
        | cons next votes =>
            simpa using List.rel_of_pairwise_cons decreasing (List.mem_cons_self (a := next))
      have voteBound := (bounded vote List.mem_cons_self).2
      have lengthBound : votes.length + 2 ≤ maxLockoutHistory := by
        simp only [List.length_cons] at short
        omega
      -- the oldest vote ends with the larger of its count and its height
      have doubledCount : (if vote.confirmationCount.toNat <
            (votes ++ [Lockout.new nextVoteSlot]).length + 1
          then vote.increaseConfirmationCount 1 else vote).confirmationCount.toNat =
          max vote.confirmationCount.toNat (votes.length + 2) := by
        simp only [List.length_append, List.length_singleton]
        split
        · rw [Lockout.toNat_increaseConfirmationCount, UInt32.toNat_one]
          simp only [maxLockoutHistory] at voteBound
          omega
        · omega
      have nonempty : doubled (votes ++ [Lockout.new nextVoteSlot]) ≠ [] := by
        rw [← List.length_pos_iff, length_doubled]
        simp
      have restFound := List.getLast?_eq_some_getLast nonempty
      simp only [List.cons_append, doubled, List.head?_cons, Option.map_some, Option.getD_some,
        List.length_cons]
      refine ⟨List.pairwise_cons.mpr ⟨fun other member => ?_, restDecreasing⟩,
        fun other member => ?_, ?_⟩
      · have otherBound := (restBounded other member).2
        rw [doubledCount]
        omega
      · rcases List.mem_cons.mp member with rfl | member
        · rw [doubledCount]
          omega
        · have otherBound := restBounded other member
          omega
      · intro last found
        rw [List.getLast?_cons, restFound, Option.getD_some, Option.mem_def, Option.some.injEq]
          at found
        exact restLast last (found ▸ restFound)

theorem doubled_push_ne_nil (votes : List Lockout) (nextVoteSlot : Slot) :
    doubled (votes ++ [Lockout.new nextVoteSlot]) ≠ [] := by
  rw [← List.length_pos_iff, length_doubled]
  simp

theorem doubleLockouts_push {votes : List Lockout} {rootSlot : Option Slot} (nextVoteSlot : Slot)
    (short : votes.length < maxLockoutHistory) :
    (TowerVoteState.mk (votes ++ [Lockout.new nextVoteSlot]) rootSlot).doubleLockouts =
      some ⟨doubled (votes ++ [Lockout.new nextVoteSlot]), rootSlot⟩ := by
  simp only [doubleLockouts, List.length_append, List.length_singleton]
  rw [doubleLockoutsLoop_eq (by simp only [maxLockoutHistory] at short; omega) _ 0 (by simp)]
  rfl

/-! ## One vote and a run of votes -/

/-- A root comes with at least one vote. -/
def RootHasVotes (tower : TowerVoteState) : Prop :=
  tower.rootSlot.isSome → tower.votes ≠ []

theorem WellFormed.pushDoubled {votes : List Lockout} {rootSlot : Option Slot} {nextVoteSlot : Slot}
    (ordered : Ordered votes) (short : votes.length < maxLockoutHistory)
    (below : ∀ vote ∈ votes, vote.slot < nextVoteSlot)
    (lockedOut : ∀ vote ∈ votes.getLast?, nextVoteSlot ≤ vote.lastLockedOutSlot)
    (aboveRoot : ∀ root ∈ rootSlot, (∀ vote ∈ votes, root < vote.slot) ∧ root < nextVoteSlot) :
    WellFormed ⟨doubled (votes ++ [Lockout.new nextVoteSlot]), rootSlot⟩ := by
  obtain ⟨decreasing, bounded, last⟩ :=
    counts_doubled_push nextVoteSlot ordered.countsDecreasing ordered.countsBounded short
  have slots : (doubled (votes ++ [Lockout.new nextVoteSlot])).map (·.slot) =
      votes.map (·.slot) ++ [nextVoteSlot] := by
    rw [map_slot_doubled, List.map_append]
    rfl
  have memSlot : ∀ vote ∈ doubled (votes ++ [Lockout.new nextVoteSlot]),
      vote.slot ∈ votes.map (·.slot) ∨ vote.slot = nextVoteSlot := by
    intro vote member
    have mapped := List.mem_map_of_mem (f := (·.slot)) member
    rw [slots] at mapped
    simpa using mapped
  have firstBound : (votes.head?.map (·.confirmationCount.toNat)).getD 0 ≤ maxLockoutHistory := by
    cases votes with
    | nil => simp [maxLockoutHistory]
    | cons first votes => exact (ordered.countsBounded first List.mem_cons_self).2
  refine ⟨⟨?_, decreasing, fun vote member => ?_, ?_⟩, ?_, last, ?_⟩
  · rw [← List.pairwise_map (R := fun earlier later : Slot => earlier < later), slots,
      List.pairwise_append, List.pairwise_map]
    refine ⟨ordered.slotsIncreasing, List.pairwise_singleton _ _, ?_⟩
    intro slot member next nextMember
    rw [List.mem_singleton.mp nextMember]
    obtain ⟨vote, voteMember, rfl⟩ := List.mem_map.mp member
    exact below vote voteMember
  · have voteBound := bounded vote member
    refine ⟨voteBound.1, Nat.le_trans voteBound.2 (Nat.max_le.mpr ⟨firstBound, ?_⟩)⟩
    exact short
  · refine isChain_lockedOut_doubled (ordered.lockedOut.append (.singleton _) ?_)
    intro vote found next nextFound
    cases Option.some.inj nextFound
    exact lockedOut vote found
  · intro root found vote member
    rcases memSlot vote member with old | new
    · obtain ⟨oldVote, oldMember, sameSlot⟩ := List.mem_map.mp old
      rw [← sameSlot]
      exact (aboveRoot root found).1 oldVote oldMember
    · rw [new]
      exact (aboveRoot root found).2
  · rw [← List.length_map (f := (·.slot)), slots]
    simp only [List.length_append, List.length_map, List.length_singleton]
    exact short

theorem WellFormed.processNextVoteSlot {self : TowerVoteState} (wellFormed : self.WellFormed)
    (rooted : self.RootHasVotes) (nextVoteSlot : Slot) :
    ∃ after, self.processNextVoteSlot nextVoteSlot = some after ∧ after.WellFormed ∧
      after.RootHasVotes ∧ ∀ root ∈ self.rootSlot, ∃ root' ∈ after.rootSlot, root ≤ root' := by
  unfold TowerVoteState.processNextVoteSlot
  by_cases ignored : self.lastVotedSlot.any (nextVoteSlot ≤ ·)
  · exact ⟨self, if_pos ignored, wellFormed, rooted,
      fun root found => ⟨root, found, UInt64.le_refl _⟩⟩
  rw [if_neg ignored]
  -- every vote of the tower is below the new slot
  have below : ∀ vote ∈ self.votes, vote.slot < nextVoteSlot := by
    intro vote member
    cases found : self.votes.getLast? with
    | none => simp_all
    | some last =>
        have newer : last.slot < nextVoteSlot := by
          simpa [lastVotedSlot, found, UInt64.not_le] using ignored
        exact UInt64.lt_of_le_of_lt
          (slot_le_last wellFormed.ordered.slotsIncreasing last found vote member) newer
  obtain ⟨expired, split⟩ := self.popExpiredVotes_append nextVoteSlot
  have popped : Ordered (self.popExpiredVotes nextVoteSlot).votes :=
    (split ▸ wellFormed.ordered).of_append
  have poppedMember : ∀ vote ∈ (self.popExpiredVotes nextVoteSlot).votes, vote ∈ self.votes :=
    fun vote member => split ▸ List.mem_append_left _ member
  have poppedLocked : ∀ vote ∈ (self.popExpiredVotes nextVoteSlot).votes.getLast?,
      nextVoteSlot ≤ vote.lastLockedOutSlot := by
    intro vote found
    simpa [Lockout.isLockedOutAtSlot] using
      self.isLockedOutAtSlot_last_popExpiredVotes nextVoteSlot vote found
  have poppedLength : (self.popExpiredVotes nextVoteSlot).votes.length ≤ maxLockoutHistory := by
    have lengths := congrArg List.length split
    simp only [List.length_append] at lengths
    have := wellFormed.lengthBounded
    omega
  have rootBelow : ∀ root ∈ self.rootSlot, root < nextVoteSlot := by
    intro root found
    cases votes : self.votes with
    | nil => exact absurd votes (rooted (Option.isSome_of_mem found))
    | cons vote votes' =>
        exact UInt64.lt_trans (wellFormed.aboveRoot root found vote (by simp [votes]))
          (below vote (by simp [votes]))
  rcases (self.popExpiredVotes nextVoteSlot).rootOldestVote_cases poppedLength with
    ⟨short, kept⟩ | ⟨rootedVote, votes, poppedVotes, full, rootedEq⟩
  · -- the stack has room: the root stays
    rw [kept]
    exact ⟨_, doubleLockouts_push nextVoteSlot short, WellFormed.pushDoubled popped short
      (fun vote member => below vote (poppedMember vote member)) poppedLocked
      (fun root found => ⟨fun vote member =>
        wellFormed.aboveRoot root found vote (poppedMember vote member), rootBelow root found⟩),
      fun _ => doubled_push_ne_nil _ _, fun root found => ⟨root, found, UInt64.le_refl _⟩⟩
  · -- a full stack: its oldest vote becomes the root
    rw [rootedEq]
    have rootedMember : rootedVote ∈ self.votes := poppedMember rootedVote (by simp [poppedVotes])
    have restOrdered : Ordered votes := (poppedVotes ▸ popped).of_cons
    have increasing : (rootedVote :: votes).Pairwise fun earlier later =>
        earlier.slot < later.slot := poppedVotes ▸ popped.slotsIncreasing
    have restLocked : ∀ vote ∈ votes.getLast?, nextVoteSlot ≤ vote.lastLockedOutSlot := by
      intro vote found
      apply poppedLocked vote
      rw [poppedVotes]
      cases votes with
      | nil => simp at found
      | cons next rest => simpa using found
    have short : votes.length < maxLockoutHistory := by omega
    refine ⟨_, doubleLockouts_push nextVoteSlot short, WellFormed.pushDoubled restOrdered
      short (fun vote member => below vote (poppedMember vote (by simp [poppedVotes, member])))
      restLocked (fun root found => ?_), fun _ => doubled_push_ne_nil _ _,
      fun root found => ⟨rootedVote.slot, rfl, ?_⟩⟩
    · cases Option.some.inj found
      exact ⟨(List.pairwise_cons.mp increasing).1, below rootedVote rootedMember⟩
    · exact UInt64.le_of_lt (wellFormed.aboveRoot root found rootedVote rootedMember)

theorem WellFormed.processNextVoteSlots {self : TowerVoteState} (wellFormed : self.WellFormed)
    (rooted : self.RootHasVotes) (slots : List Slot) :
    ∃ after, self.processNextVoteSlots slots = some after ∧ after.WellFormed ∧
      after.RootHasVotes ∧ ∀ root ∈ self.rootSlot, ∃ root' ∈ after.rootSlot, root ≤ root' := by
  induction slots generalizing self with
  | nil => exact ⟨self, rfl, wellFormed, rooted, fun root found => ⟨root, found, UInt64.le_refl _⟩⟩
  | cons nextVoteSlot slots ih =>
      obtain ⟨next, stepped, nextWellFormed, nextRooted, nextRoot⟩ :=
        wellFormed.processNextVoteSlot rooted nextVoteSlot
      obtain ⟨after, ran, afterWellFormed, afterRooted, afterRoot⟩ := ih nextWellFormed nextRooted
      refine ⟨after, by simp [TowerVoteState.processNextVoteSlots, stepped, ran], afterWellFormed,
        afterRooted, fun root found => ?_⟩
      obtain ⟨middle, middleFound, raised⟩ := nextRoot root found
      obtain ⟨last, lastFound, raisedAgain⟩ := afterRoot middle middleFound
      exact ⟨last, lastFound, UInt64.le_trans raised raisedAgain⟩

theorem default_wellFormed : TowerVoteState.default.WellFormed :=
  ⟨⟨List.Pairwise.nil, List.Pairwise.nil, by simp [default], .nil⟩, by simp [default],
    by simp [default], by simp [default, maxLockoutHistory]⟩

theorem processNextVoteSlots_keeps_tower_wellFormed (tower : TowerVoteState)
    (start : tower = TowerVoteState.default ∨ tower.WellFormed ∧ tower.RootHasVotes)
    (slots : List Slot) :
    ∃ after, tower.processNextVoteSlots slots = some after ∧ after.WellFormed ∧
      after.RootHasVotes ∧ ∀ root ∈ tower.rootSlot, ∃ root' ∈ after.rootSlot, root ≤ root' := by
  rcases start with rfl | ⟨wellFormed, rooted⟩
  · exact default_wellFormed.processNextVoteSlots (fun rooted => absurd rooted (by simp [default]))
      slots
  · exact wellFormed.processNextVoteSlots rooted slots

theorem processNextVoteSlots_keeps_default_tower_wellFormed :
    ∃ after, TowerVoteState.default.processNextVoteSlots [1, 2, 3] = some after ∧
      after.WellFormed ∧ after.RootHasVotes ∧
      ∀ root ∈ TowerVoteState.default.rootSlot, ∃ root' ∈ after.rootSlot, root ≤ root' :=
  processNextVoteSlots_keeps_tower_wellFormed TowerVoteState.default (Or.inl rfl) [1, 2, 3]

/-- A rooted tower with no votes is well formed, and takes a slot below its root. -/
theorem rootless_tower_votes_below_root :
    (TowerVoteState.mk [] (some 5)).WellFormed ∧
      (TowerVoteState.mk [] (some 5)).processNextVoteSlot 3 = some ⟨[Lockout.new 3], some 5⟩ ∧
      ¬(TowerVoteState.mk [Lockout.new 3] (some 5)).WellFormed := by
  refine ⟨⟨⟨List.Pairwise.nil, List.Pairwise.nil, by simp, .nil⟩, by simp, by simp,
    by simp [maxLockoutHistory]⟩, by decide, fun wellFormed => ?_⟩
  have above := wellFormed.aboveRoot 5 rfl (Lockout.new 3) (List.mem_singleton_self _)
  exact absurd above (by decide)

end TowerVoteState

end Validator.Consensus
