import Validator.Data.Assoc
import Validator.ForkChoice.Replay

namespace Validator.ForkChoice

open Validator.Data

/-! # A batch of votes

`generate_update_operations` turns a batch of votes into update operations: for each pubkey whose
vote is newer than its latest one, a `Subtract` of its stake at the old vote and an `Add` at the
new one, each followed by aggregates up the ancestors until one is already queued.  The batch it
builds stays a sorted map of labelled stake operations closed under parents (`WellBatched`,
`AggregatesClosed`), and accounts exactly for the move of stake from the old latest votes to the
new ones (`Generating`).  `process_update_operations` then replays it (`Replay`), so `add_votes`
keeps the stake voted at each node equal to the stake of its latest votes, and the stake of each
subtree equal to what is voted in it (`StakeExact`).
-/

/-- The label an operation is stored under. -/
def UpdateOperation.label : UpdateOperation → UpdateLabel
  | .add _ => .add
  | .subtract _ => .subtract
  | .aggregate => .aggregate
  | .markValid slot => .markValid slot
  | .markInvalid slot => .markInvalid slot

/-- The batch invariants that hold after every operation `generate_update_operations` inserts. -/
structure WellBatched (operations : UpdateOperations) : Prop where
  sorted : SortedMap.Sorted operations
  labelled : ∀ entry ∈ operations, entry.2.label = entry.1.label
  stakeOnly : ∀ entry ∈ operations, entry.2.isStake = true

/-- Every node the batch touches, but `key`, has an aggregate of its parent queued. -/
def ClosedBut (operations : UpdateOperations) (tree : HeaviestSubtreeForkChoice) (key : SlotHashKey) :
    Prop :=
  ∀ entry ∈ operations, entry.1.key ≠ key → ∀ {parent : SlotHashKey}, tree.parent entry.1.key = some parent →
    AggregatePending operations parent

section Operations

variable {operations : UpdateOperations}

theorem aggregatePending_iff (batched : WellBatched operations) {key : SlotHashKey} :
    AggregatePending operations key ↔ (⟨key, .aggregate⟩ : OperationKey) ∈ operations.map Prod.fst := by
  constructor
  · rintro ⟨entry, member, at_, aggregate⟩
    have label := batched.labelled entry member
    rw [aggregate] at label
    refine List.mem_map.mpr ⟨entry, member, ?_⟩
    cases entry with
    | mk operationKey operation =>
        cases operationKey
        simp_all [UpdateOperation.label]
  · intro member
    obtain ⟨⟨operationKey, operation⟩, kept, rfl⟩ := List.mem_map.mp member
    have label := batched.labelled _ kept
    refine ⟨_, kept, rfl, ?_⟩
    cases operation <;> simp_all [UpdateOperation.label]

/-- A labelled insertion leaves every queued aggregate queued. -/
theorem AggregatePending.insert (batched : WellBatched operations) {key : OperationKey}
    {operation : UpdateOperation} (labelOk : operation.label = key.label) {parent : SlotHashKey}
    (pending : AggregatePending operations parent) :
    AggregatePending (SortedMap.insert key operation operations) parent := by
  obtain ⟨entry, member, at_, aggregate⟩ := pending
  by_cases same : entry.1 = key
  · refine ⟨(key, operation), SortedMap.mem_insert_self _ _ _, by rw [← same, at_], ?_⟩
    have label := batched.labelled entry member
    rw [aggregate, same] at label
    have isAggregate : operation.label = .aggregate := labelOk.trans label.symm
    cases operation <;> first | rfl | simp [UpdateOperation.label] at isAggregate
  · exact ⟨entry, SortedMap.mem_insert_of_mem member same, at_, aggregate⟩

theorem WellBatched.insert (batched : WellBatched operations) (key : OperationKey)
    {operation : UpdateOperation} (labelOk : operation.label = key.label)
    (isStake : operation.isStake = true) : WellBatched (SortedMap.insert key operation operations) where
  sorted := SortedMap.sorted_insert key operation batched.sorted
  labelled entry member := by
    rcases SortedMap.mem_of_mem_insert member with rfl | kept
    · exact labelOk
    · exact batched.labelled entry kept
  stakeOnly entry member := by
    rcases SortedMap.mem_of_mem_insert member with rfl | kept
    · exact isStake
    · exact batched.stakeOnly entry kept

/-- The stakes a batch adds and subtracts at a node, after `insert`. -/
theorem addedAt_insert (sorted : SortedMap.Sorted operations) (key : OperationKey)
    (operation : UpdateOperation) (node : SlotHashKey) :
    addedAt (SortedMap.insert key operation operations) node +
        (if key.key = node then ((SortedMap.find? key operations).map UpdateOperation.addedStake).getD 0
          else 0) =
      addedAt operations node + if key.key = node then operation.addedStake else 0 := by
  have sum := SortedMap.sum_map_insert
    (fun entry : OperationKey × UpdateOperation =>
      if entry.1.key = node then entry.2.addedStake else 0) key operation sorted
  unfold addedAt
  by_cases here : key.key = node
  · simp only [here, if_true] at sum ⊢
    exact sum
  · have zero : ((SortedMap.find? key operations).map fun _ => (0 : Nat)).getD 0 = 0 := by
      cases SortedMap.find? key operations <;> rfl
    simp only [here, if_false] at sum ⊢
    rw [zero] at sum
    exact sum

theorem subtractedAt_insert (sorted : SortedMap.Sorted operations) (key : OperationKey)
    (operation : UpdateOperation) (node : SlotHashKey) :
    subtractedAt (SortedMap.insert key operation operations) node +
        (if key.key = node then
          ((SortedMap.find? key operations).map UpdateOperation.subtractedStake).getD 0 else 0) =
      subtractedAt operations node + if key.key = node then operation.subtractedStake else 0 := by
  have sum := SortedMap.sum_map_insert
    (fun entry : OperationKey × UpdateOperation =>
      if entry.1.key = node then entry.2.subtractedStake else 0) key operation sorted
  unfold subtractedAt
  by_cases here : key.key = node
  · simp only [here, if_true] at sum ⊢
    exact sum
  · have zero : ((SortedMap.find? key operations).map fun _ => (0 : Nat)).getD 0 = 0 := by
      cases SortedMap.find? key operations <;> rfl
    simp only [here, if_false] at sum ⊢
    rw [zero] at sum
    exact sum

/-- `entry(key).and_modify(update_stake).or_insert(operation)` for an `Add` or a `Subtract`: it
never panics, since the entry under a stake label holds an operation of that kind, and the stake
it adds or subtracts at the node grows by `stake`. -/
theorem addStakeOperation_spec (batched : WellBatched operations) (key : OperationKey) (stake : Nat)
    {operation : UpdateOperation} (labelOk : operation.label = key.label)
    (kind : operation = .add stake ∨ operation = .subtract stake) :
    ∃ operations', HeaviestSubtreeForkChoice.addStakeOperation operations key stake operation =
        some operations' ∧ WellBatched operations' ∧
      (∀ node, addedAt operations' node =
        addedAt operations node + if key.key = node then operation.addedStake else 0) ∧
      (∀ node, subtractedAt operations' node =
        subtractedAt operations node + if key.key = node then operation.subtractedStake else 0) ∧
      (∀ {parent}, AggregatePending operations parent → AggregatePending operations' parent) ∧
      ∀ entry ∈ operations', entry.1 ≠ key → entry ∈ operations := by
  have isStake : operation.isStake = true := by
    rcases kind with rfl | rfl <;> rfl
  cases found : SortedMap.find? key operations with
  | none =>
      refine ⟨_, by simp [HeaviestSubtreeForkChoice.addStakeOperation, found],
        batched.insert key labelOk isStake, fun node => ?_, fun node => ?_,
        fun pending => pending.insert batched labelOk, fun entry member other => ?_⟩
      · have sum := addedAt_insert batched.sorted key operation node
        simp only [found, Option.map_none, Option.getD_none, ite_self, Nat.add_zero] at sum
        exact sum
      · have sum := subtractedAt_insert batched.sorted key operation node
        simp only [found, Option.map_none, Option.getD_none, ite_self, Nat.add_zero] at sum
        exact sum
      · rcases SortedMap.mem_of_mem_insert member with rfl | kept
        · exact absurd rfl other
        · exact kept
  | some existing =>
      -- the entry under the key has the key's label, hence the operation's kind
      have label := batched.labelled _ (SortedMap.mem_of_find?_eq_some found)
      have sameLabel : existing.label = operation.label := label.trans labelOk.symm
      have sameKind : ∃ old, existing = .add old ∧ operation = .add stake ∨
          existing = .subtract old ∧ operation = .subtract stake := by
        rcases kind with rfl | rfl <;> cases existing <;>
          simp [UpdateOperation.label] at sameLabel <;>
          first | exact ⟨_, .inl ⟨rfl, rfl⟩⟩ | exact ⟨_, .inr ⟨rfl, rfl⟩⟩
      obtain ⟨old, (⟨rfl, rfl⟩ | ⟨rfl, rfl⟩)⟩ := sameKind
      · have updatedLabel : (UpdateOperation.add (old + stake)).label = key.label := labelOk
        refine ⟨_, by simp [HeaviestSubtreeForkChoice.addStakeOperation, found,
            UpdateOperation.updateStake], batched.insert key updatedLabel rfl, fun node => ?_,
          fun node => ?_, fun pending => pending.insert batched updatedLabel, fun entry member other => ?_⟩
        · have sum := addedAt_insert batched.sorted key (.add (old + stake)) node
          simp only [found, Option.map_some, Option.getD_some, UpdateOperation.addedStake] at sum ⊢
          by_cases here : key.key = node <;> simp [here] at sum ⊢ <;> omega
        · have sum := subtractedAt_insert batched.sorted key (.add (old + stake)) node
          simp only [found, Option.map_some, Option.getD_some, UpdateOperation.subtractedStake] at sum ⊢
          by_cases here : key.key = node <;> simp [here] at sum ⊢ <;> omega
        · rcases SortedMap.mem_of_mem_insert member with rfl | kept
          · exact absurd rfl other
          · exact kept
      · have updatedLabel : (UpdateOperation.subtract (old + stake)).label = key.label := labelOk
        refine ⟨_, by simp [HeaviestSubtreeForkChoice.addStakeOperation, found,
            UpdateOperation.updateStake], batched.insert key updatedLabel rfl, fun node => ?_,
          fun node => ?_, fun pending => pending.insert batched updatedLabel, fun entry member other => ?_⟩
        · have sum := addedAt_insert batched.sorted key (.subtract (old + stake)) node
          simp only [found, Option.map_some, Option.getD_some, UpdateOperation.addedStake] at sum ⊢
          by_cases here : key.key = node <;> simp [here] at sum ⊢ <;> omega
        · have sum := subtractedAt_insert batched.sorted key (.subtract (old + stake)) node
          simp only [found, Option.map_some, Option.getD_some, UpdateOperation.subtractedStake] at sum ⊢
          by_cases here : key.key = node <;> simp [here] at sum ⊢ <;> omega
        · rcases SortedMap.mem_of_mem_insert member with rfl | kept
          · exact absurd rfl other
          · exact kept

end Operations

namespace HeaviestSubtreeForkChoice

variable {tree : HeaviestSubtreeForkChoice}

/-- The walk of `do_insert_aggregate_operations_across_ancestors` without a validity mark: it
returns within `fuel` steps, queues aggregates up the ancestors of `key`, and leaves a batch closed
under parents where only `key` was left open.  The stakes it adds and subtracts do not change. -/
theorem insertAggregates_spec (shaped : tree.Shaped) :
    ∀ (fuel : Nat) (key : SlotHashKey) {operations : UpdateOperations},
      tree.keysBelow key.slot < fuel → WellBatched operations → ClosedBut operations tree key →
      ∃ operations', tree.doInsertAggregateOperationsAcrossAncestors none fuel key operations =
          some operations' ∧ WellBatched operations' ∧ AggregatesClosed operations' tree ∧
        (∀ node, addedAt operations' node = addedAt operations node) ∧
        (∀ node, subtractedAt operations' node = subtractedAt operations node)
  | 0, _, _, bounded, _, _ => absurd bounded (Nat.not_lt_zero _)
  | fuel + 1, key, operations, bounded, batched, open_ => by
      cases linked : tree.parent key with
      | none =>
          -- the root: nothing above it to queue
          refine ⟨operations, by simp [doInsertAggregateOperationsAcrossAncestors, linked], batched,
            fun entry member parent entryLinked => ?_, fun _ => rfl, fun _ => rfl⟩
          by_cases here : entry.1.key = key
          · rw [here, linked] at entryLinked
            cases entryLinked
          · exact open_ entry member here entryLinked
      | some parent =>
          have contains : SortedMap.contains (⟨parent, .aggregate⟩ : OperationKey) operations = true ↔ _ :=
            SortedMap.contains_iff
          by_cases queued : SortedMap.contains ⟨parent, .aggregate⟩ operations = true
          · -- the parent's aggregate is already queued: the walk stops
            refine ⟨operations, by simp [doInsertAggregateOperationsAcrossAncestors, linked,
                doInsertAggregateOperation, queued], batched, fun entry member above entryLinked => ?_,
              fun _ => rfl, fun _ => rfl⟩
            by_cases here : entry.1.key = key
            · rw [here, linked] at entryLinked
              cases entryLinked
              exact (aggregatePending_iff batched).mpr (contains.mp queued)
            · exact open_ entry member here entryLinked
          · have notQueued : SortedMap.contains ⟨parent, .aggregate⟩ operations = false := by
              simpa using queued
            have inserted : WellBatched (SortedMap.insert ⟨parent, .aggregate⟩ .aggregate operations) :=
              batched.insert _ rfl rfl
            have parentOpen : ClosedBut (SortedMap.insert ⟨parent, .aggregate⟩ .aggregate operations)
                tree parent := by
              intro entry member other above entryLinked
              rcases SortedMap.mem_of_mem_insert member with rfl | kept
              · exact absurd rfl other
              · by_cases here : entry.1.key = key
                · -- the node the walk came from: its parent's aggregate was just queued
                  rw [here, linked] at entryLinked
                  cases entryLinked
                  exact ⟨_, SortedMap.mem_insert_self _ _ _, rfl, rfl⟩
                · exact (open_ entry kept here entryLinked).insert batched rfl
            have below : tree.keysBelow parent.slot < fuel := by
              have := shaped.keysBelow_parent_lt linked
              omega
            obtain ⟨operations', walked, batched', closed', added, subtracted⟩ :=
              insertAggregates_spec shaped fuel parent below inserted parentOpen
            refine ⟨operations', ?_, batched', closed', fun node => ?_, fun node => ?_⟩
            · simp only [doInsertAggregateOperationsAcrossAncestors, linked,
                doInsertAggregateOperation, notQueued]
              exact walked
            · have sum := addedAt_insert batched.sorted ⟨parent, .aggregate⟩ .aggregate node
              have absent : SortedMap.find? (⟨parent, .aggregate⟩ : OperationKey) operations = none := by
                rw [SortedMap.find?_eq_none_iff, ← contains]
                simpa using notQueued
              simp only [absent, Option.map_none, Option.getD_none, ite_self, Nat.add_zero,
                UpdateOperation.addedStake] at sum
              rw [added, sum]
            · have sum := subtractedAt_insert batched.sorted ⟨parent, .aggregate⟩ .aggregate node
              have absent : SortedMap.find? (⟨parent, .aggregate⟩ : OperationKey) operations = none := by
                rw [SortedMap.find?_eq_none_iff, ← contains]
                simpa using notQueued
              simp only [absent, Option.map_none, Option.getD_none, ite_self, Nat.add_zero,
                UpdateOperation.subtractedStake] at sum
              rw [subtracted, sum]

/-- An `Add` or a `Subtract` at `key` and the aggregates of its ancestors, as
`generate_update_operations` queues them for one vote. -/
theorem addStakeThenAggregate_spec (shaped : tree.Shaped) {operations : UpdateOperations}
    (batched : WellBatched operations) (closed : AggregatesClosed operations tree)
    (key : SlotHashKey) (label : UpdateLabel) (stake : Nat) {operation : UpdateOperation}
    (labelOk : operation.label = label) (kind : operation = .add stake ∨ operation = .subtract stake) :
    ∃ middle operations', addStakeOperation operations ⟨key, label⟩ stake operation = some middle ∧
      tree.insertAggregateOperations middle key = some operations' ∧
      WellBatched operations' ∧ AggregatesClosed operations' tree ∧
      (∀ node, addedAt operations' node =
        addedAt operations node + if key = node then operation.addedStake else 0) ∧
      (∀ node, subtractedAt operations' node =
        subtractedAt operations node + if key = node then operation.subtractedStake else 0) := by
  obtain ⟨middle, added, middleBatched, middleAdded, middleSubtracted, keepsPending, fromBefore⟩ :=
    addStakeOperation_spec batched ⟨key, label⟩ stake labelOk kind
  have open_ : ClosedBut middle tree key := by
    intro entry member other parent linked
    have kept : entry ∈ operations := fromBefore entry member fun same => other (by rw [same])
    exact keepsPending (closed entry kept linked)
  obtain ⟨operations', walked, batched', closed', stillAdded, stillSubtracted⟩ :=
    insertAggregates_spec shaped tree.fuel key (tree.keysBelow_le_length key.slot) middleBatched open_
  exact ⟨middle, operations', added, walked, batched', closed',
    fun node => (stillAdded node).trans (middleAdded node),
    fun node => (stillSubtracted node).trans (middleSubtracted node)⟩

@[simp]
theorem setLatestVote_latestVotes (pubkey : Pubkey) (vote : SlotHashKey) :
    (tree.setLatestVote pubkey vote).latestVotes = Assoc.set tree.latestVotes pubkey vote := rfl

@[simp]
theorem setLatestVote_forkInfos (pubkey : Pubkey) (vote : SlotHashKey) :
    (tree.setLatestVote pubkey vote).forkInfos = tree.forkInfos := rfl

@[simp]
theorem setLatestVote_treeRoot (pubkey : Pubkey) (vote : SlotHashKey) :
    (tree.setLatestVote pubkey vote).treeRoot = tree.treeRoot := rfl

/-- What is read of a tree through its fork infos does not see its votes. -/
theorem forkInfo?_of_forkInfos {other : HeaviestSubtreeForkChoice} (same : other.forkInfos = tree.forkInfos)
    (key : SlotHashKey) : other.forkInfo? key = tree.forkInfo? key := by
  unfold forkInfo?
  rw [same]

theorem parent_of_forkInfos {other : HeaviestSubtreeForkChoice} (same : other.forkInfos = tree.forkInfos)
    (key : SlotHashKey) : other.parent key = tree.parent key := by
  unfold HeaviestSubtreeForkChoice.parent
  rw [forkInfo?_of_forkInfos same]

theorem Shaped.of_forkInfos {other : HeaviestSubtreeForkChoice} (shaped : tree.Shaped)
    (same : other.forkInfos = tree.forkInfos) (root : other.treeRoot = tree.treeRoot) : other.Shaped :=
  shaped.of_links (fun key => by rw [forkInfo?_of_forkInfos same]) root

theorem AggregatesClosed.of_forkInfos {other : HeaviestSubtreeForkChoice} {operations : UpdateOperations}
    (closed : AggregatesClosed operations tree) (same : other.forkInfos = tree.forkInfos) :
    AggregatesClosed operations other := by
  intro entry member parent linked
  rw [parent_of_forkInfos same] at linked
  exact closed entry member linked

end HeaviestSubtreeForkChoice

/-! ## The stake of the latest votes -/

section Stake

open HeaviestSubtreeForkChoice

variable (epochStakes : Epoch → Option (Pubkey → Nat)) (getEpoch : Slot → Epoch)

/-- The stake of the latest votes on `key`, each in the epoch of `key`'s slot. -/
def votedStake (votes : List (Pubkey × SlotHashKey)) (key : SlotHashKey) : Nat :=
  (votes.map fun vote => if vote.2 = key then voteStake epochStakes getEpoch vote.1 key.slot else 0).sum

variable {epochStakes getEpoch}

/-- The stake of the vote `pubkey` has in `votes`, if it is on `key`. -/
theorem votedStake_split {votes : List (Pubkey × SlotHashKey)} (distinct : (votes.map Prod.fst).Nodup)
    (pubkey : Pubkey) (key : SlotHashKey) :
    votedStake epochStakes getEpoch votes key =
      votedStake epochStakes getEpoch (votes.filter fun vote => vote.1 ≠ pubkey) key +
        if votes.lookup pubkey = some key then voteStake epochStakes getEpoch pubkey key.slot else 0 := by
  unfold votedStake
  rw [Assoc.sum_map_split _ pubkey distinct]
  congr 1
  cases found : votes.lookup pubkey with
  | none => rfl
  | some vote =>
      by_cases here : vote = key
      · simp [here]
      · simp [here]

/-- `latest_votes.insert(pubkey, vote)`: the stake of the other votes, and `pubkey`'s new one. -/
theorem votedStake_set {votes : List (Pubkey × SlotHashKey)} (distinct : (votes.map Prod.fst).Nodup)
    (pubkey : Pubkey) (vote key : SlotHashKey) :
    votedStake epochStakes getEpoch (Assoc.set votes pubkey vote) key =
      votedStake epochStakes getEpoch (votes.filter fun vote => vote.1 ≠ pubkey) key +
        if vote = key then voteStake epochStakes getEpoch pubkey key.slot else 0 := by
  rw [votedStake_split (Assoc.nodup_keys_set distinct pubkey vote) pubkey key,
    Assoc.filter_set vote (fun other => decide (other ≠ pubkey)) (by simp)]
  simp

/-- The stake of the votes of pubkeys not yet observed in the batch. -/
theorem votedStake_unobserved {votes : List (Pubkey × SlotHashKey)}
    (distinct : (votes.map Prod.fst).Nodup) {observed : List Pubkey} {pubkey : Pubkey}
    (fresh : pubkey ∉ observed) (key : SlotHashKey) :
    votedStake epochStakes getEpoch (votes.filter fun vote => vote.1 ∉ observed) key =
      votedStake epochStakes getEpoch (votes.filter fun vote => vote.1 ∉ pubkey :: observed) key +
        if votes.lookup pubkey = some key then voteStake epochStakes getEpoch pubkey key.slot else 0 := by
  have filteredDistinct : ((votes.filter fun vote => vote.1 ∉ observed).map Prod.fst).Nodup :=
    (List.filter_sublist (l := votes)).map Prod.fst |>.nodup distinct
  rw [votedStake_split filteredDistinct pubkey key, List.filter_filter,
    Assoc.lookup_filter (fun other => decide (other ∉ observed)) (by simpa using fresh)]
  congr 2
  apply List.filter_congr
  intro vote _
  simp

theorem votedStake_filter_le (votes : List (Pubkey × SlotHashKey)) (keep : Pubkey × SlotHashKey → Bool)
    (key : SlotHashKey) :
    votedStake epochStakes getEpoch (votes.filter keep) key ≤ votedStake epochStakes getEpoch votes key := by
  unfold votedStake
  induction votes with
  | nil => simp
  | cons vote rest ih =>
      rw [List.filter_cons]
      split <;> simp only [List.map_cons, List.sum_cons] <;> omega

end Stake

end Validator.ForkChoice
