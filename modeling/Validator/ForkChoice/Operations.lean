import Validator.ForkChoice.Basic

namespace Validator.ForkChoice

open Validator.Data

/-! # The operations of `HeaviestSubtreeForkChoice`

Each operation returns `none` where the code panics: an `unwrap` or `expect` of a missing node,
a failed `assert!`, a `u64` subtraction below zero, or a walk over the tree that does not end
within `fuel` steps, which in a tree cannot happen.
-/

namespace HeaviestSubtreeForkChoice

variable (self : HeaviestSubtreeForkChoice)

/-! ## Adding a leaf -/

/-- The loop of `is_best_child`: no candidate sibling is heavier, or as heavy with a smaller
key. -/
def isBestChildLoop (maybeBestChild : SlotHashKey) (maybeBestChildWeight : Nat) :
    List SlotHashKey → Option Bool
  | [] => some true
  | child :: rest => do
      let childWeight ← self.stakeVotedSubtree child
      let candidate ← self.isCandidate child
      if !candidate then isBestChildLoop maybeBestChild maybeBestChildWeight rest
      else if childWeight > maybeBestChildWeight ∨
          (maybeBestChildWeight = childWeight ∧ child < maybeBestChild) then some false
      else isBestChildLoop maybeBestChild maybeBestChildWeight rest

def isBestChild (maybeBestChild : SlotHashKey) : Option Bool := do
  let maybeBestChildWeight ← self.stakeVotedSubtree maybeBestChild
  match self.parent maybeBestChild with
  | none => some true
  | some parent => do
      let children ← self.children parent
      self.isBestChildLoop maybeBestChild maybeBestChildWeight children

/-- The loop of `is_deepest_child`: no sibling is higher, or as high and heavier, or as high and
as heavy with a smaller key. -/
def isDeepestChildLoop (maybeDeepestChild : SlotHashKey)
    (maybeDeepestChildWeight maybeDeepestChildHeight : Nat) : List SlotHashKey → Option Bool
  | [] => some true
  | child :: rest => do
      let childHeight ← self.height child
      let childWeight ← self.stakeVotedSubtree child
      match compare childHeight maybeDeepestChildHeight, compare childWeight maybeDeepestChildWeight,
          compare child maybeDeepestChild with
      | .gt, _, _ => some false
      | .eq, .gt, _ => some false
      | .eq, .eq, .lt => some false
      | _, _, _ =>
          isDeepestChildLoop maybeDeepestChild maybeDeepestChildWeight maybeDeepestChildHeight rest

def isDeepestChild (maybeDeepestChild : SlotHashKey) : Option Bool := do
  let maybeDeepestChildWeight ← self.stakeVotedSubtree maybeDeepestChild
  let maybeDeepestChildHeight ← self.height maybeDeepestChild
  match self.parent maybeDeepestChild with
  | none => some true
  | some parent => do
      let children ← self.children parent
      self.isDeepestChildLoop maybeDeepestChild maybeDeepestChildWeight maybeDeepestChildHeight
        children

/-- The first loop of `propagate_new_leaf`: the ancestors whose best slot was the parent's
take the new leaf. -/
def propagateBestSlot (parentBestSlotHashKey slotHashKey : SlotHashKey) :
    Nat → Option SlotHashKey → HeaviestSubtreeForkChoice → Option HeaviestSubtreeForkChoice
  | _, none, tree => some tree
  | 0, some _, _ => none
  | fuel + 1, some ancestor, tree => do
      let ancestorForkInfo ← tree.forkInfo? ancestor
      if ancestorForkInfo.bestSlot = parentBestSlotHashKey then
        propagateBestSlot parentBestSlotHashKey slotHashKey fuel ancestorForkInfo.parent
          (tree.setForkInfo ancestor { ancestorForkInfo with bestSlot := slotHashKey })
      else some tree

/-- The second loop of `propagate_new_leaf`: while the current node is its parent's deepest
child, the parent takes the new leaf as its deepest slot. -/
def propagateDeepestSlot (slotHashKey : SlotHashKey) :
    Nat → Option SlotHashKey → SlotHashKey → Nat → HeaviestSubtreeForkChoice →
      Option HeaviestSubtreeForkChoice
  | _, none, _, _, tree => some tree
  | 0, some _, _, _, _ => none
  | fuel + 1, some ancestor, currentChild, currentHeight, tree => do
      let deepest ← tree.isDeepestChild currentChild
      if !deepest then some tree
      else do
        let ancestorForkInfo ← tree.forkInfo? ancestor
        propagateDeepestSlot slotHashKey fuel ancestorForkInfo.parent ancestor (currentHeight + 1)
          (tree.setForkInfo ancestor
            { ancestorForkInfo with deepestSlot := slotHashKey, height := currentHeight + 1 })

def propagateNewLeaf (slotHashKey parentSlotHashKey : SlotHashKey) :
    Option HeaviestSubtreeForkChoice := do
  let parentBestSlotHashKey ← self.bestSlot parentSlotHashKey
  let isBest ← self.isBestChild slotHashKey
  let tree ←
    if isBest then
      propagateBestSlot parentBestSlotHashKey slotHashKey self.fuel (some parentSlotHashKey) self
    else some self
  propagateDeepestSlot slotHashKey tree.fuel (some parentSlotHashKey) slotHashKey 1 tree

def addNewLeafSlot (slotHashKey : SlotHashKey) (parent : Option SlotHashKey) :
    Option HeaviestSubtreeForkChoice :=
  if self.containsBlock slotHashKey then some self
  else
    let parentLatestInvalidAncestor := parent.bind self.latestInvalidAncestor
    -- A leaf is its own best and deepest slot; only the root, with no parent, starts out
    -- duplicate confirmed.
    let tree := self.setForkInfo slotHashKey
      ⟨0, 0, 1, slotHashKey, slotHashKey, parent, [], parentLatestInvalidAncestor, parent.isNone⟩
    match parent with
    | none => some tree
    | some parent => do
        let parentForkInfo ← tree.forkInfo? parent
        let tree := tree.setForkInfo parent
          { parentForkInfo with children := insertChild slotHashKey parentForkInfo.children }
        tree.propagateNewLeaf slotHashKey parent

end HeaviestSubtreeForkChoice

/-- `HeaviestSubtreeForkChoice::new`: the tree of the root alone. -/
def HeaviestSubtreeForkChoice.new (treeRoot : SlotHashKey) : Option HeaviestSubtreeForkChoice :=
  (⟨[], [], treeRoot⟩ : HeaviestSubtreeForkChoice).addNewLeafSlot treeRoot none

namespace HeaviestSubtreeForkChoice

variable (self : HeaviestSubtreeForkChoice)

/-! ## Walks over the tree -/

/-- `AncestorIterator`, collected. -/
def ancestorsLoop : Nat → SlotHashKey → Option (List SlotHashKey)
  | 0, _ => none
  | fuel + 1, key =>
      match self.parent key with
      | none => some []
      | some parent => (parent :: ·) <$> ancestorsLoop fuel parent

def ancestors (key : SlotHashKey) : Option (List SlotHashKey) :=
  self.ancestorsLoop self.fuel key

/-- The loop of `subtree_diff`: a stack of keys to visit, the top first. -/
def subtreeDiffLoop (root2 : SlotHashKey) :
    Nat → List SlotHashKey → List SlotHashKey → Option (List SlotHashKey)
  | _, [], reachableSet => some reachableSet
  | 0, _ :: _, _ => none
  | fuel + 1, currentKey :: pendingKeys, reachableSet =>
      if currentKey = root2 then subtreeDiffLoop root2 fuel pendingKeys reachableSet
      else do
        let children ← self.children currentKey
        -- Pushing the children in order leaves the last one on top.
        subtreeDiffLoop root2 fuel (children.reverse ++ pendingKeys)
          (reachableSet.insert currentKey)

/-- `subtree_diff`: the nodes reachable from `root1`, without the subtree at `root2`. -/
def subtreeDiff (root1 root2 : SlotHashKey) : Option (List SlotHashKey) :=
  if !self.containsBlock root1 then some []
  else self.subtreeDiffLoop root2 self.fuel [root1] []

/-! ## Batches of updates -/

/-- `do_insert_aggregate_operation`: `false` when the node's aggregate is already queued. -/
def doInsertAggregateOperation (updateOperations : UpdateOperations)
    (modifyForkValidity : Option UpdateOperation) (slotHashKey : SlotHashKey) :
    Bool × UpdateOperations :=
  let aggregateLabel : OperationKey := ⟨slotHashKey, .aggregate⟩
  if SortedMap.contains aggregateLabel updateOperations then (false, updateOperations)
  else
    let updateOperations :=
      match modifyForkValidity with
      | some (.markValid slot) =>
          SortedMap.insert ⟨slotHashKey, .markValid slot⟩ (.markValid slot) updateOperations
      | some (.markInvalid slot) =>
          SortedMap.insert ⟨slotHashKey, .markInvalid slot⟩ (.markInvalid slot) updateOperations
      | _ => updateOperations
    (true, SortedMap.insert aggregateLabel .aggregate updateOperations)

/-- `do_insert_aggregate_operations_across_ancestors`: up the ancestors, until one whose
aggregate is already queued. -/
def doInsertAggregateOperationsAcrossAncestors (modifyForkValidity : Option UpdateOperation) :
    Nat → SlotHashKey → UpdateOperations → Option UpdateOperations
  | 0, _, _ => none
  | fuel + 1, slotHashKey, updateOperations =>
      match self.parent slotHashKey with
      | none => some updateOperations
      | some parentSlotHashKey =>
          let (inserted, updateOperations) :=
            doInsertAggregateOperation updateOperations modifyForkValidity parentSlotHashKey
          if inserted then
            doInsertAggregateOperationsAcrossAncestors modifyForkValidity fuel parentSlotHashKey
              updateOperations
          else some updateOperations

def insertAggregateOperations (updateOperations : UpdateOperations) (slotHashKey : SlotHashKey) :
    Option UpdateOperations :=
  self.doInsertAggregateOperationsAcrossAncestors none self.fuel slotHashKey updateOperations

/-- What `aggregate_slot` carries over the children. -/
structure AggregateState where
  stakeVotedSubtree : Nat
  deepestChildHeight : Nat
  bestSlotHashKey : SlotHashKey
  deepestSlotHashKey : SlotHashKey
  isDuplicateConfirmed : Bool
  bestChildStakeVotedSubtree : Nat
  bestChildSlotKey : SlotHashKey
  deepestChildStakeVotedSubtree : Nat
  deepestChildSlotKey : SlotHashKey

/-- One child of the loop of `aggregate_slot`. -/
def aggregateChild (slotHashKey : SlotHashKey) (state : AggregateState) (childKey : SlotHashKey) :
    Option AggregateState := do
  let childForkInfo ← self.forkInfo? childKey
  let childStakeVotedSubtree := childForkInfo.stakeVotedSubtree
  let childHeight := childForkInfo.height
  -- Children that are not candidates still weigh on the subtree.
  let state := { state with
    isDuplicateConfirmed := state.isDuplicateConfirmed || childForkInfo.isDuplicateConfirmed,
    stakeVotedSubtree := state.stakeVotedSubtree + childStakeVotedSubtree }
  let state :=
    if childForkInfo.isCandidate ∧ (state.bestChildSlotKey = slotHashKey ∨
        childStakeVotedSubtree > state.bestChildStakeVotedSubtree ∨
        (childStakeVotedSubtree = state.bestChildStakeVotedSubtree ∧
          childKey < state.bestChildSlotKey)) then
      { state with
        bestChildStakeVotedSubtree := childStakeVotedSubtree
        bestChildSlotKey := childKey
        bestSlotHashKey := childForkInfo.bestSlot }
    else state
  let deeper :=
    match decide (state.deepestChildSlotKey = slotHashKey), compare childHeight state.deepestChildHeight,
        compare childStakeVotedSubtree state.deepestChildStakeVotedSubtree,
        compare childKey state.deepestChildSlotKey with
    | true, _, _, _ => true
    | _, .gt, _, _ => true
    | _, .eq, .gt, _ => true
    | _, .eq, .eq, .lt => true
    | _, _, _, _ => false
  if deeper then
    some { state with
      deepestChildHeight := childHeight
      deepestChildStakeVotedSubtree := childStakeVotedSubtree
      deepestChildSlotKey := childKey
      deepestSlotHashKey := childForkInfo.deepestSlot }
  else some state

def aggregateSlot (slotHashKey : SlotHashKey) : Option HeaviestSubtreeForkChoice :=
  match self.forkInfo? slotHashKey with
  | none => some self
  | some forkInfo => do
      let aggregated ← forkInfo.children.foldlM (self.aggregateChild slotHashKey)
        ⟨forkInfo.stakeVotedAt, 0, slotHashKey, slotHashKey, false, 0, slotHashKey, 0, slotHashKey⟩
      let forkInfo :=
        if aggregated.isDuplicateConfirmed then forkInfo.setDuplicateConfirmed else forkInfo
      some (self.setForkInfo slotHashKey { forkInfo with
        stakeVotedSubtree := aggregated.stakeVotedSubtree,
        height := aggregated.deepestChildHeight + 1,
        bestSlot := aggregated.bestSlotHashKey,
        deepestSlot := aggregated.deepestSlotHashKey })

def markForkValid (forkToModifyKey : SlotHashKey) (validSlot : Slot) : HeaviestSubtreeForkChoice :=
  self.modifyForkInfo forkToModifyKey fun forkInfo =>
    let forkInfo := forkInfo.updateWithNewlyValidAncestor validSlot
    if forkToModifyKey.slot = validSlot then { forkInfo with isDuplicateConfirmed := true }
    else forkInfo

def markForkInvalid (forkToModifyKey : SlotHashKey) (invalidSlot : Slot) :
    Option HeaviestSubtreeForkChoice :=
  match self.forkInfo? forkToModifyKey with
  | none => some self
  | some forkInfo => do
      let forkInfo ← forkInfo.updateWithNewlyInvalidAncestor invalidSlot
      some (self.setForkInfo forkToModifyKey forkInfo)

def addSlotStake (slotHashKey : SlotHashKey) (stake : Nat) : HeaviestSubtreeForkChoice :=
  self.modifyForkInfo slotHashKey fun forkInfo => { forkInfo with
    stakeVotedAt := forkInfo.stakeVotedAt + stake,
    stakeVotedSubtree := forkInfo.stakeVotedSubtree + stake }

/-- `subtract_slot_stake`, where a `u64` below zero is an overflow panic. -/
def subtractSlotStake (slotHashKey : SlotHashKey) (stake : Nat) :
    Option HeaviestSubtreeForkChoice :=
  match self.forkInfo? slotHashKey with
  | none => some self
  | some forkInfo =>
      if stake ≤ forkInfo.stakeVotedAt ∧ stake ≤ forkInfo.stakeVotedSubtree then
        some (self.setForkInfo slotHashKey { forkInfo with
          stakeVotedAt := forkInfo.stakeVotedAt - stake,
          stakeVotedSubtree := forkInfo.stakeVotedSubtree - stake })
      else none

def applyUpdateOperation : OperationKey × UpdateOperation → Option HeaviestSubtreeForkChoice
  | (⟨slotHashKey, _⟩, .markValid validSlot) => some (self.markForkValid slotHashKey validSlot)
  | (⟨slotHashKey, _⟩, .markInvalid invalidSlot) => self.markForkInvalid slotHashKey invalidSlot
  | (⟨slotHashKey, _⟩, .aggregate) => self.aggregateSlot slotHashKey
  | (⟨slotHashKey, _⟩, .add stake) => some (self.addSlotStake slotHashKey stake)
  | (⟨slotHashKey, _⟩, .subtract stake) => self.subtractSlotStake slotHashKey stake

/-- `process_update_operations`: from the greatest key to the smallest. -/
def processUpdateOperations (updateOperations : UpdateOperations) :
    Option HeaviestSubtreeForkChoice :=
  updateOperations.reverse.foldlM applyUpdateOperation self

/-! ## Marking forks -/

/-- The batch that pushes a validity mark on every node of a subtree. -/
def markSubtree (subtree : List SlotHashKey) (mark : UpdateOperation) : UpdateOperations :=
  subtree.foldl (fun updateOperations child =>
    (doInsertAggregateOperation updateOperations (some mark) child).2) []

def markForkInvalidCandidate (invalidSlotHashKey : SlotHashKey) :
    Option HeaviestSubtreeForkChoice :=
  match self.forkInfo? invalidSlotHashKey with
  | none => some self
  | some forkInfo =>
      -- Should not be marking duplicate confirmed blocks as invalid candidates
      if forkInfo.isDuplicateConfirmed then none
      else do
        let subtree ← self.subtreeDiff invalidSlotHashKey SlotHashKey.default
        let updateOperations ← self.insertAggregateOperations
          (markSubtree subtree (.markInvalid invalidSlotHashKey.slot)) invalidSlotHashKey
        self.processUpdateOperations updateOperations

/-- `mark_fork_valid_candidate`, with the ancestors it newly confirms. -/
def markForkValidCandidate (validSlotHashKey : SlotHashKey) :
    Option (List SlotHashKey × HeaviestSubtreeForkChoice) := do
  let ancestors ← self.ancestors validSlotHashKey
  let newlyDuplicateConfirmedAncestors ← (validSlotHashKey :: ancestors).filterM fun ancestorKey =>
    (!·) <$> self.isDuplicateConfirmed ancestorKey
  let subtree ← self.subtreeDiff validSlotHashKey SlotHashKey.default
  let updateOperations ← self.insertAggregateOperations
    (markSubtree subtree (.markValid validSlotHashKey.slot)) validSlotHashKey
  let tree ← self.processUpdateOperations updateOperations
  pure (newlyDuplicateConfirmedAncestors, tree)

/-! ## Roots and votes -/

def setTreeRoot (newRoot : SlotHashKey) : Option HeaviestSubtreeForkChoice := do
  let removeSet ← self.subtreeDiff self.treeRoot newRoot
  let tree ← removeSet.foldlM (fun tree nodeKey =>
    if tree.containsBlock nodeKey then some (tree.removeForkInfo nodeKey) else none) self
  let rootForkInfo ← tree.forkInfo? newRoot
  pure { tree.setForkInfo newRoot { rootForkInfo with parent := none } with treeRoot := newRoot }

/-- `latest_votes.insert`. -/
def setLatestVote (pubkey : Pubkey) (vote : SlotHashKey) : HeaviestSubtreeForkChoice :=
  { self with latestVotes :=
      if self.latestVotes.any fun entry => entry.1 = pubkey then
        self.latestVotes.map fun entry => if entry.1 = pubkey then (pubkey, vote) else entry
      else self.latestVotes ++ [(pubkey, vote)] }

/-- `entry(key).and_modify(update_stake).or_insert(operation)` for a stake operation. -/
def addStakeOperation (updateOperations : UpdateOperations) (operationKey : OperationKey)
    (stake : Nat) (operation : UpdateOperation) : Option UpdateOperations :=
  match SortedMap.find? operationKey updateOperations with
  | some existing => do
      let updated ← existing.updateStake stake
      some (SortedMap.insert operationKey updated updateOperations)
  | none => some (SortedMap.insert operationKey operation updateOperations)

section Votes

-- The stake of each epoch, as `vote_account_stake`, where there are stakes for the epoch, and
-- `EpochSchedule::get_epoch`.
variable (epochStakes : Epoch → Option (Pubkey → Nat)) (getEpoch : Slot → Epoch)

def voteStake (pubkey : Pubkey) (slot : Slot) : Nat :=
  ((epochStakes (getEpoch slot)).map fun stakes => stakes pubkey).getD 0

/-- One vote of `generate_update_operations`. -/
def generateVoteOperations (observedPubkeys : List Pubkey) (updateOperations : UpdateOperations)
    (pubkey : Pubkey) (newVoteSlotHash : SlotHashKey) :
    Option (List Pubkey × UpdateOperations × HeaviestSubtreeForkChoice) :=
  -- A vote below the root changes no node of the tree.
  if newVoteSlotHash.slot < self.treeRoot.slot then some (observedPubkeys, updateOperations, self)
  else if pubkey ∈ observedPubkeys then none
  else
    let observedPubkeys := pubkey :: observedPubkeys
    let latest := self.latestVotes.lookup pubkey
    let outdated := match latest with
      | some latestVote => decide (newVoteSlotHash.slot < latestVote.slot ∨
          (newVoteSlotHash.slot = latestVote.slot ∧ newVoteSlotHash.hash ≥ latestVote.hash))
      | none => false
    if outdated then some (observedPubkeys, updateOperations, self)
    else do
      let tree := self.setLatestVote pubkey newVoteSlotHash
      -- The stake leaves the fork of the previous vote.
      let updateOperations ←
        match latest with
        | none => some updateOperations
        | some oldLatestVote => do
            let checked := if newVoteSlotHash.slot = oldLatestVote.slot then
                newVoteSlotHash.hash < oldLatestVote.hash
              else newVoteSlotHash.slot > oldLatestVote.slot
            if !checked then none
            else
              let stakeUpdate := voteStake epochStakes getEpoch pubkey oldLatestVote.slot
              if stakeUpdate > 0 then do
                let updateOperations ← addStakeOperation updateOperations
                  ⟨oldLatestVote, .subtract⟩ stakeUpdate (.subtract stakeUpdate)
                tree.insertAggregateOperations updateOperations oldLatestVote
              else some updateOperations
      let stakeUpdate := voteStake epochStakes getEpoch pubkey newVoteSlotHash.slot
      let updateOperations ← addStakeOperation updateOperations ⟨newVoteSlotHash, .add⟩ stakeUpdate
        (.add stakeUpdate)
      let updateOperations ← tree.insertAggregateOperations updateOperations newVoteSlotHash
      some (observedPubkeys, updateOperations, tree)

/-- `generate_update_operations`: the batch of a list of votes, and the new latest votes. -/
def generateUpdateOperationsLoop :
    List (Pubkey × SlotHashKey) → List Pubkey → UpdateOperations → HeaviestSubtreeForkChoice →
      Option (UpdateOperations × HeaviestSubtreeForkChoice)
  | [], _, updateOperations, tree => some (updateOperations, tree)
  | (pubkey, vote) :: pubkeyVotes, observedPubkeys, updateOperations, tree => do
      let (observedPubkeys, updateOperations, tree) ←
        tree.generateVoteOperations epochStakes getEpoch observedPubkeys updateOperations pubkey
          vote
      generateUpdateOperationsLoop pubkeyVotes observedPubkeys updateOperations tree

/-- `add_votes`: the batch of the votes, replayed, and the best slot overall after it. -/
def addVotes (pubkeyVotes : List (Pubkey × SlotHashKey)) :
    Option (SlotHashKey × HeaviestSubtreeForkChoice) := do
  let (updateOperations, tree) ←
    generateUpdateOperationsLoop epochStakes getEpoch pubkeyVotes [] [] self
  let tree ← tree.processUpdateOperations updateOperations
  let best ← tree.bestOverallSlot
  pure (best, tree)

end Votes

end HeaviestSubtreeForkChoice

end Validator.ForkChoice
