import Validator.ForkChoice.Votes

namespace Validator.ForkChoice

open Validator.Data HeaviestSubtreeForkChoice

/-! # `add_votes`

The loop of `generate_update_operations` keeps `Generating`: the batch so far is well formed and
closed under parents; the stake of the latest votes so far, plus what the batch subtracts, is the
stake of the latest votes before the batch plus what it adds; and what the batch subtracts at a
node, plus the stake of the votes there of pubkeys not yet seen, is at most what was voted there
before the batch.  So the batch replays without an underflow, and `add_votes` leaves the tree's
stake accounting exact.
-/

section Generate

variable {epochStakes : Epoch → Option (Pubkey → Nat)} {getEpoch : Slot → Epoch}
  {origin : HeaviestSubtreeForkChoice}

variable (epochStakes getEpoch) in
/-- What holds of the batch `generate_update_operations` has built from a tree `origin`, after
the pubkeys `observed`. -/
structure Generating (origin : HeaviestSubtreeForkChoice) (observed : List Pubkey)
    (operations : UpdateOperations) (tree : HeaviestSubtreeForkChoice) : Prop where
  forkInfos : tree.forkInfos = origin.forkInfos
  treeRoot : tree.treeRoot = origin.treeRoot
  batched : WellBatched operations
  closed : AggregatesClosed operations origin
  votersDistinct : (tree.latestVotes.map Prod.fst).Nodup
  votesPresent : ∀ vote ∈ tree.latestVotes, origin.containsBlock vote.2 = true
  accounted : ∀ key, votedStake epochStakes getEpoch tree.latestVotes key + subtractedAt operations key =
    votedStake epochStakes getEpoch origin.latestVotes key + addedAt operations key
  bounded : ∀ key, subtractedAt operations key +
      votedStake epochStakes getEpoch (tree.latestVotes.filter fun vote => vote.1 ∉ observed) key ≤
    votedStake epochStakes getEpoch origin.latestVotes key

variable {observed : List Pubkey} {operations : UpdateOperations} {tree : HeaviestSubtreeForkChoice}
  {pubkey : Pubkey} {vote : SlotHashKey}

/-- A pubkey whose vote is not newer than its latest one is only marked as seen. -/
theorem Generating.observe (generating : Generating epochStakes getEpoch origin observed operations tree)
    (fresh : pubkey ∉ observed) :
    Generating epochStakes getEpoch origin (pubkey :: observed) operations tree :=
  { generating with
    bounded := fun key => by
      have before := generating.bounded key
      rw [votedStake_unobserved generating.votersDistinct fresh key] at before
      omega }

/-- A pubkey's vote moves from its latest one to `vote`: the batch subtracts the old vote's stake
and adds the new one's. -/
theorem Generating.moveVote (generating : Generating epochStakes getEpoch origin observed operations tree)
    (fresh : pubkey ∉ observed) (present : origin.containsBlock vote = true)
    {operations' : UpdateOperations} (batched : WellBatched operations')
    (closed : AggregatesClosed operations' origin)
    (added : ∀ key, addedAt operations' key = addedAt operations key +
      if vote = key then voteStake epochStakes getEpoch pubkey key.slot else 0)
    (subtracted : ∀ key, subtractedAt operations' key = subtractedAt operations key +
      if tree.latestVotes.lookup pubkey = some key then voteStake epochStakes getEpoch pubkey key.slot
      else 0) :
    Generating epochStakes getEpoch origin (pubkey :: observed) operations'
      (tree.setLatestVote pubkey vote) where
  forkInfos := generating.forkInfos
  treeRoot := generating.treeRoot
  batched := batched
  closed := closed
  votersDistinct := by
    rw [setLatestVote_latestVotes]
    exact Assoc.nodup_keys_set generating.votersDistinct pubkey vote
  votesPresent := by
    intro entry member
    rw [setLatestVote_latestVotes] at member
    rcases Assoc.mem_set member with rfl | kept
    · exact present
    · exact generating.votesPresent entry kept
  accounted key := by
    have before := generating.accounted key
    rw [votedStake_split generating.votersDistinct pubkey key] at before
    rw [setLatestVote_latestVotes, votedStake_set generating.votersDistinct, subtracted key, added key]
    omega
  bounded key := by
    have dropped : (Assoc.set tree.latestVotes pubkey vote).filter
        (fun entry => decide (entry.1 ∉ pubkey :: observed)) =
        tree.latestVotes.filter fun entry => decide (entry.1 ∉ pubkey :: observed) :=
      Assoc.filter_set vote (fun other => decide (other ∉ pubkey :: observed)) (by simp)
    have before := generating.bounded key
    rw [votedStake_unobserved generating.votersDistinct fresh key] at before
    rw [setLatestVote_latestVotes, dropped, subtracted key]
    omega

/-- One vote of `generate_update_operations`, from a pubkey not yet seen in the batch and on a
node of the tree or below its root: it never panics, and `Generating` still holds. -/
theorem Generating.addVote (shaped : origin.Shaped)
    (generating : Generating epochStakes getEpoch origin observed operations tree) (fresh : pubkey ∉ observed)
    (admissible : vote.slot < origin.treeRoot.slot ∨ origin.containsBlock vote = true) :
    ∃ observed' operations' tree',
      tree.generateVoteOperations epochStakes getEpoch observed operations pubkey vote =
        some (observed', operations', tree') ∧
      Generating epochStakes getEpoch origin observed' operations' tree' ∧
      ∀ other ∈ observed', other = pubkey ∨ other ∈ observed := by
  by_cases below : vote.slot < tree.treeRoot.slot
  · exact ⟨observed, operations, tree, by simp [generateVoteOperations, below], generating,
      fun other member => .inr member⟩
  have present : origin.containsBlock vote = true :=
    admissible.resolve_left (by rwa [generating.treeRoot] at below)
  have moved : (tree.setLatestVote pubkey vote).forkInfos = origin.forkInfos := generating.forkInfos
  have shaped' : (tree.setLatestVote pubkey vote).Shaped :=
    shaped.of_forkInfos moved generating.treeRoot
  have seen : ∀ other ∈ pubkey :: observed, other = pubkey ∨ other ∈ observed :=
    fun other member => List.mem_cons.mp member
  -- the `Add` of the new vote and the aggregates above it, after whatever came of the old vote
  have addNew : ∀ {middle : UpdateOperations}, WellBatched middle → AggregatesClosed middle origin →
      ∃ added operations', addStakeOperation middle ⟨vote, .add⟩
          (voteStake epochStakes getEpoch pubkey vote.slot)
          (.add (voteStake epochStakes getEpoch pubkey vote.slot)) = some added ∧
        (tree.setLatestVote pubkey vote).insertAggregateOperations added vote = some operations' ∧
        WellBatched operations' ∧ AggregatesClosed operations' origin ∧
        (∀ key, addedAt operations' key = addedAt middle key +
          if vote = key then voteStake epochStakes getEpoch pubkey key.slot else 0) ∧
        ∀ key, subtractedAt operations' key = subtractedAt middle key := by
    intro middle batched closed
    obtain ⟨added, operations', addedEq, walked, batched', closed', addedAt', subtractedAt'⟩ :=
      addStakeThenAggregate_spec shaped' batched (AggregatesClosed.of_forkInfos closed moved) vote .add
        (voteStake epochStakes getEpoch pubkey vote.slot) rfl (.inl rfl)
    refine ⟨added, operations', addedEq, walked, batched', AggregatesClosed.of_forkInfos closed' moved.symm,
      fun key => ?_, fun key => ?_⟩
    · rw [addedAt' key]
      by_cases here : vote = key
      · subst here
        rfl
      · simp [here]
    · simp [subtractedAt' key, UpdateOperation.subtractedStake]
  cases latest : tree.latestVotes.lookup pubkey with
  | none =>
      obtain ⟨added, operations', addedEq, walked, batched', closed', addedAt', subtractedAt'⟩ :=
        addNew generating.batched generating.closed
      refine ⟨pubkey :: observed, operations', tree.setLatestVote pubkey vote, ?_,
        generating.moveVote fresh present batched' closed' addedAt' (fun key => by
          simp [subtractedAt' key, latest]), seen⟩
      simp [generateVoteOperations, below, fresh, latest, addedEq, walked]
  | some old =>
      by_cases outdated : vote.slot < old.slot ∨ vote.slot = old.slot ∧ vote.hash ≥ old.hash
      · exact ⟨pubkey :: observed, operations, tree,
          by simp [generateVoteOperations, below, fresh, latest, outdated],
          generating.observe fresh, seen⟩
      -- a vote that is not outdated passes the `assert!` on the old one
      have checked : if vote.slot = old.slot then vote.hash < old.hash else vote.slot > old.slot := by
        split <;> grind
      by_cases positive : voteStake epochStakes getEpoch pubkey old.slot > 0
      · obtain ⟨subtracted, middle, subtractedEq, walked, batched, closed, addedAt₁, subtractedAt₁⟩ :=
          addStakeThenAggregate_spec shaped' generating.batched (AggregatesClosed.of_forkInfos generating.closed moved)
            old .subtract (voteStake epochStakes getEpoch pubkey old.slot) rfl (.inr rfl)
        obtain ⟨added, operations', addedEq, walked', batched', closed', addedAt', subtractedAt'⟩ :=
          addNew batched (AggregatesClosed.of_forkInfos closed moved.symm)
        refine ⟨pubkey :: observed, operations', tree.setLatestVote pubkey vote, ?_,
          generating.moveVote fresh present batched' closed' (fun key => ?_) (fun key => ?_), seen⟩
        · simp [generateVoteOperations, below, fresh, latest, outdated, checked, positive,
            subtractedEq, walked, addedEq, walked']
        · rw [addedAt' key, addedAt₁ key]
          simp [UpdateOperation.addedStake]
        · rw [subtractedAt' key, subtractedAt₁ key, latest]
          by_cases here : old = key
          · subst here
            simp [UpdateOperation.subtractedStake]
          · simp [here]
      · -- the old vote carried no stake: nothing to subtract
        obtain ⟨added, operations', addedEq, walked, batched', closed', addedAt', subtractedAt'⟩ :=
          addNew generating.batched generating.closed
        refine ⟨pubkey :: observed, operations', tree.setLatestVote pubkey vote, ?_,
          generating.moveVote fresh present batched' closed' addedAt' (fun key => ?_), seen⟩
        · simp [generateVoteOperations, below, fresh, latest, outdated, checked, positive, addedEq,
            walked]
        · rw [subtractedAt' key, latest]
          by_cases here : old = key
          · subst here
            simp only [if_true]
            omega
          · simp [here]

/-- The loop of `generate_update_operations` over a batch with each pubkey once. -/
theorem Generating.loop (shaped : origin.Shaped) :
    ∀ (pubkeyVotes : List (Pubkey × SlotHashKey)) {observed : List Pubkey}
      {operations : UpdateOperations} {tree : HeaviestSubtreeForkChoice},
      Generating epochStakes getEpoch origin observed operations tree →
      (pubkeyVotes.map Prod.fst).Nodup → (∀ pubkey ∈ observed, pubkey ∉ pubkeyVotes.map Prod.fst) →
      (∀ vote ∈ pubkeyVotes, vote.2.slot < origin.treeRoot.slot ∨ origin.containsBlock vote.2 = true) →
      ∃ operations' tree', generateUpdateOperationsLoop epochStakes getEpoch pubkeyVotes observed
          operations tree = some (operations', tree') ∧
        ∃ observed', Generating epochStakes getEpoch origin observed' operations' tree'
  | [], observed, operations, tree, generating, _, _, _ =>
      ⟨operations, tree, rfl, observed, generating⟩
  | (pubkey, vote) :: rest, observed, operations, tree, generating, distinct, unseen, admissible => by
      have fresh : pubkey ∉ observed := fun member => unseen pubkey member (by simp)
      obtain ⟨observed', operations', tree', step, generating', seen⟩ :=
        generating.addVote shaped fresh (admissible (pubkey, vote) List.mem_cons_self)
      have unseen' : ∀ other ∈ observed', other ∉ rest.map Prod.fst := by
        intro other member later
        rcases seen other member with rfl | earlier
        · exact (List.nodup_cons.mp distinct).1 later
        · exact unseen other earlier (List.mem_cons_of_mem _ later)
      obtain ⟨operations'', tree'', looped, generating''⟩ :=
        Generating.loop shaped rest generating' (List.nodup_cons.mp distinct).2 unseen'
          (fun later member => admissible later (List.mem_cons_of_mem _ member))
      exact ⟨operations'', tree'', by simp [generateUpdateOperationsLoop, step, looped], generating''⟩

end Generate

end Validator.ForkChoice
