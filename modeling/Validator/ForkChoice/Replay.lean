import Validator.ForkChoice.Tree

namespace Validator.ForkChoice

open Validator.Data

/-! # Replaying a batch of stake updates

`process_update_operations` replays a batch from its greatest key down.  A batch of votes holds
`Add`, `Subtract` and `Aggregate` operations, and has an aggregate of the parent queued for every
node it touches (`AggregatesClosed`).  A child's slot is above its parent's, so every operation on
a child comes before the parent's aggregate, which then sums children that are final.

`Replaying` is what holds between two operations, for a `target` stake of each node: the stake
voted at a node, plus what is still to add there, is its target plus what is still to subtract;
and a node without a pending aggregate has the stake of its subtree right.  Once the batch is
replayed, every node is right.
-/

namespace UpdateOperation

/-- The stake an operation adds at its node. -/
def addedStake : UpdateOperation → Nat
  | .add stake => stake
  | _ => 0

/-- The stake an operation takes off its node. -/
def subtractedStake : UpdateOperation → Nat
  | .subtract stake => stake
  | _ => 0

/-- The operations a batch of votes is made of. -/
def isStake : UpdateOperation → Bool
  | .add _ => true
  | .subtract _ => true
  | .aggregate => true
  | _ => false

end UpdateOperation

/-- A node's parent and children, which no update of a batch changes. -/
def ForkInfo.links (info : ForkInfo) : Option SlotHashKey × List SlotHashKey :=
  (info.parent, info.children)

section Batch

variable (operations : UpdateOperations)

/-- The stake the operations of a batch add at a node. -/
def addedAt (key : SlotHashKey) : Nat :=
  (operations.map fun entry => if entry.1.key = key then entry.2.addedStake else 0).sum

/-- The stake the operations of a batch take off a node. -/
def subtractedAt (key : SlotHashKey) : Nat :=
  (operations.map fun entry => if entry.1.key = key then entry.2.subtractedStake else 0).sum

/-- The batch still holds an aggregate of the node. -/
def AggregatePending (key : SlotHashKey) : Prop :=
  ∃ entry ∈ operations, entry.1.key = key ∧ entry.2 = .aggregate

/-- Every node the batch touches has an aggregate of its parent queued. -/
def AggregatesClosed (tree : HeaviestSubtreeForkChoice) : Prop :=
  ∀ entry ∈ operations, ∀ {parent : SlotHashKey}, tree.parent entry.1.key = some parent →
    AggregatePending operations parent

/-- The order `process_update_operations` replays a batch in: greatest key first. -/
def Descending : Prop :=
  operations.Pairwise fun first second => compare second.1 first.1 = .lt

end Batch

theorem addedAt_cons (entry : OperationKey × UpdateOperation) (rest : UpdateOperations)
    (key : SlotHashKey) :
    addedAt (entry :: rest) key = (if entry.1.key = key then entry.2.addedStake else 0) + addedAt rest key := by
  simp [addedAt]

theorem subtractedAt_cons (entry : OperationKey × UpdateOperation) (rest : UpdateOperations)
    (key : SlotHashKey) :
    subtractedAt (entry :: rest) key =
      (if entry.1.key = key then entry.2.subtractedStake else 0) + subtractedAt rest key := by
  simp [subtractedAt]

@[simp]
theorem addedAt_reverse (operations : UpdateOperations) (key : SlotHashKey) :
    addedAt operations.reverse key = addedAt operations key := by
  simp [addedAt, List.sum_reverse]

@[simp]
theorem subtractedAt_reverse (operations : UpdateOperations) (key : SlotHashKey) :
    subtractedAt operations.reverse key = subtractedAt operations key := by
  simp [subtractedAt, List.sum_reverse]

theorem aggregatePending_cons {entry : OperationKey × UpdateOperation} {rest : UpdateOperations}
    {key : SlotHashKey} (other : entry.1.key ≠ key) :
    AggregatePending (entry :: rest) key ↔ AggregatePending rest key := by
  constructor
  · rintro ⟨found, member, at_, aggregate⟩
    rcases List.mem_cons.mp member with rfl | later
    · exact absurd at_ other
    · exact ⟨found, later, at_, aggregate⟩
  · rintro ⟨found, member, at_, aggregate⟩
    exact ⟨found, List.mem_cons_of_mem _ member, at_, aggregate⟩

/-- Once the greatest key is replayed, every aggregate the rest of the batch needs is still in
it: the parent's aggregate orders below every key of its child. -/
theorem AggregatesClosed.tail {tree : HeaviestSubtreeForkChoice} (shaped : tree.Shaped)
    {entry : OperationKey × UpdateOperation} {rest : UpdateOperations}
    (descending : Descending (entry :: rest)) (closed : AggregatesClosed (entry :: rest) tree) :
    AggregatesClosed rest tree := by
  intro later member parent linked
  obtain ⟨aggregate, pending, at_, isAggregate⟩ := closed later (List.mem_cons_of_mem _ member) linked
  rcases List.mem_cons.mp pending with rfl | kept
  · obtain ⟨info, present, hasParent⟩ := tree.parent_eq_some_iff.mp linked
    obtain ⟨_, _, _, below⟩ := shaped.parentLinked present hasParent
    have before : compare aggregate.1 later.1 = .lt :=
      OperationKey.compare_eq_lt_of_slot_lt (by rw [at_]; exact below)
    have after : compare later.1 aggregate.1 = .lt := (List.pairwise_cons.mp descending).1 later member
    rw [← Std.OrientedCmp.gt_iff_lt] at before
    rw [before] at after
    cases after
  · exact ⟨aggregate, kept, at_, isAggregate⟩

namespace HeaviestSubtreeForkChoice

/-- The stake voted on the subtrees of `children`. -/
def childrenStake (self : HeaviestSubtreeForkChoice) (children : List SlotHashKey) : Nat :=
  (children.map fun child => (self.stakeVotedSubtree child).getD 0).sum

theorem childrenStake_congr {self other : HeaviestSubtreeForkChoice} {children : List SlotHashKey}
    (same : ∀ child ∈ children, other.forkInfo? child = self.forkInfo? child) :
    other.childrenStake children = self.childrenStake children := by
  unfold childrenStake stakeVotedSubtree
  congr 1
  exact List.map_congr_left fun child member => by rw [same child member]

/-! ## Trees with the same links -/

section Links

variable {tree other : HeaviestSubtreeForkChoice}
  (links : ∀ key, (other.forkInfo? key).map ForkInfo.links = (tree.forkInfo? key).map ForkInfo.links)
include links

theorem exists_of_links {key : SlotHashKey} {info : ForkInfo} (found : other.forkInfo? key = some info) :
    ∃ original, tree.forkInfo? key = some original ∧ info.links = original.links := by
  have same := links key
  rw [found] at same
  cases original : tree.forkInfo? key with
  | none => rw [original] at same; cases same
  | some original' =>
      rw [original] at same
      exact ⟨original', rfl, Option.some_inj.mp same⟩

theorem exists_of_links_symm {key : SlotHashKey} {original : ForkInfo}
    (found : tree.forkInfo? key = some original) :
    ∃ info, other.forkInfo? key = some info ∧ info.links = original.links := by
  have same := links key
  rw [found] at same
  cases present : other.forkInfo? key with
  | none => rw [present] at same; cases same
  | some info =>
      rw [present] at same
      exact ⟨info, rfl, Option.some_inj.mp same⟩

/-- The shape of a tree depends on its links only. -/
theorem Shaped.of_links (shaped : tree.Shaped) (root : other.treeRoot = tree.treeRoot) : other.Shaped where
  rootPresent := by
    obtain ⟨original, found⟩ := Option.isSome_iff_exists.mp shaped.rootPresent
    obtain ⟨info, present, _⟩ := exists_of_links_symm links found
    rw [root, present]
    rfl
  parentLinked := by
    intro key info parent present hasParent
    obtain ⟨original, found, same⟩ := exists_of_links links present
    have originalParent : original.parent = some parent := by
      rw [← hasParent]
      exact (congrArg Prod.fst same).symm
    obtain ⟨parentOriginal, parentFound, member, below⟩ := shaped.parentLinked found originalParent
    obtain ⟨parentInfo, parentPresent, parentSame⟩ := exists_of_links_symm links parentFound
    refine ⟨parentInfo, parentPresent, ?_, below⟩
    rw [show parentInfo.children = parentOriginal.children from congrArg Prod.snd parentSame]
    exact member
  childLinked := by
    intro key info child present member
    obtain ⟨original, found, same⟩ := exists_of_links links present
    have originalMember : child ∈ original.children := by
      rw [← show info.children = original.children from congrArg Prod.snd same]
      exact member
    obtain ⟨childOriginal, childFound, childParent⟩ := shaped.childLinked found originalMember
    obtain ⟨childInfo, childPresent, childSame⟩ := exists_of_links_symm links childFound
    refine ⟨childInfo, childPresent, ?_⟩
    rw [show childInfo.parent = childOriginal.parent from congrArg Prod.fst childSame]
    exact childParent
  childrenSorted := by
    intro key info present
    obtain ⟨original, found, same⟩ := exists_of_links links present
    rw [show info.children = original.children from congrArg Prod.snd same]
    exact shaped.childrenSorted found

end Links

/-! ## One update -/

variable {self : HeaviestSubtreeForkChoice}

theorem forkInfo?_addSlotStake (key : SlotHashKey) (stake : Nat) (other : SlotHashKey) :
    (self.addSlotStake key stake).forkInfo? other =
      if other = key then (self.forkInfo? key).map fun info => { info with
        stakeVotedAt := info.stakeVotedAt + stake,
        stakeVotedSubtree := info.stakeVotedSubtree + stake }
      else self.forkInfo? other :=
  forkInfo?_modifyForkInfo key _ other

theorem subtractSlotStake_of_le {key : SlotHashKey} {info : ForkInfo} {stake : Nat}
    (found : self.forkInfo? key = some info) (atEnough : stake ≤ info.stakeVotedAt)
    (subtreeEnough : stake ≤ info.stakeVotedSubtree) :
    self.subtractSlotStake key stake = some (self.setForkInfo key { info with
      stakeVotedAt := info.stakeVotedAt - stake,
      stakeVotedSubtree := info.stakeVotedSubtree - stake }) := by
  simp [subtractSlotStake, found, atEnough, subtreeEnough]

theorem aggregateChild_stake (slotHashKey : SlotHashKey) {childKey : SlotHashKey} {childInfo : ForkInfo}
    (found : self.forkInfo? childKey = some childInfo) (state : AggregateState) :
    ∃ next, self.aggregateChild slotHashKey state childKey = some next ∧
      next.stakeVotedSubtree = state.stakeVotedSubtree + childInfo.stakeVotedSubtree := by
  simp only [aggregateChild, found, Option.bind_eq_bind, Option.bind_some]
  -- Neither the best nor the deepest child's update touches the sum.
  split <;> refine ⟨_, rfl, ?_⟩ <;> split <;> rfl

/-- The loop of `aggregate_slot` adds up the stake of the children's subtrees. -/
theorem foldlM_aggregateChild (slotHashKey : SlotHashKey) {children : List SlotHashKey}
    (present : ∀ child ∈ children, (self.forkInfo? child).isSome) (state : AggregateState) :
    ∃ final, children.foldlM (self.aggregateChild slotHashKey) state = some final ∧
      final.stakeVotedSubtree = state.stakeVotedSubtree + self.childrenStake children := by
  induction children generalizing state with
  | nil => exact ⟨state, rfl, by simp [childrenStake]⟩
  | cons child rest ih =>
      obtain ⟨childInfo, found⟩ := Option.isSome_iff_exists.mp (present child List.mem_cons_self)
      obtain ⟨next, step, nextStake⟩ := self.aggregateChild_stake slotHashKey found state
      obtain ⟨final, folded, finalStake⟩ :=
        ih (fun child member => present child (List.mem_cons_of_mem _ member)) next
      refine ⟨final, by rw [List.foldlM_cons, step, Option.bind_eq_bind, Option.bind_some, folded], ?_⟩
      rw [finalStake, nextStake]
      simp [childrenStake, stakeVotedSubtree, found]
      omega

/-- `aggregate_slot` on a node whose children are there: the stake of its subtree becomes its own
plus its children's, and nothing else it reads changes. -/
theorem aggregateSlot_eq {key : SlotHashKey} {info : ForkInfo} (found : self.forkInfo? key = some info)
    (present : ∀ child ∈ info.children, (self.forkInfo? child).isSome) :
    ∃ aggregated : ForkInfo, self.aggregateSlot key = some (self.setForkInfo key aggregated) ∧
      aggregated.stakeVotedAt = info.stakeVotedAt ∧
      aggregated.stakeVotedSubtree = info.stakeVotedAt + self.childrenStake info.children ∧
      aggregated.links = info.links := by
  obtain ⟨final, folded, finalStake⟩ := self.foldlM_aggregateChild key present
    ⟨info.stakeVotedAt, 0, key, key, false, 0, key, 0, key⟩
  refine ⟨_, by simp only [aggregateSlot, found, folded, Option.bind_eq_bind, Option.bind_some]; rfl,
    ?_, ?_, ?_⟩
  · split <;> rfl
  · rw [finalStake]
  · split <;> rfl

theorem aggregateSlot_of_none {key : SlotHashKey} (absent : self.forkInfo? key = none) :
    self.aggregateSlot key = some self := by
  simp [aggregateSlot, absent]

end HeaviestSubtreeForkChoice

/-! ## The replay -/

open HeaviestSubtreeForkChoice

/-- What holds between two operations of a batch replayed on `tree`, with `remaining` still to
replay, for the stake `target` each node is to end with. -/
structure Replaying (target : SlotHashKey → Nat) (tree : HeaviestSubtreeForkChoice)
    (remaining : UpdateOperations) (current : HeaviestSubtreeForkChoice) : Prop where
  links : ∀ key, (current.forkInfo? key).map ForkInfo.links = (tree.forkInfo? key).map ForkInfo.links
  latestVotes : current.latestVotes = tree.latestVotes
  treeRoot : current.treeRoot = tree.treeRoot
  stakeVotedAt : ∀ {key info}, current.forkInfo? key = some info →
    info.stakeVotedAt + addedAt remaining key = target key + subtractedAt remaining key ∧
      subtractedAt remaining key ≤ info.stakeVotedAt
  atMostSubtree : ∀ {key info}, current.forkInfo? key = some info →
    info.stakeVotedAt ≤ info.stakeVotedSubtree
  subtreeExact : ∀ {key info}, current.forkInfo? key = some info → ¬ AggregatePending remaining key →
    info.stakeVotedSubtree = info.stakeVotedAt + current.childrenStake info.children

section Replay

variable {target : SlotHashKey → Nat} {tree current : HeaviestSubtreeForkChoice}
  {entry : OperationKey × UpdateOperation} {rest : UpdateOperations}

/-- Past the node of the head operation, a node the rest of the batch does not aggregate was not
aggregated by the head either, and the head's node is not among its children: else the head's
node would have that node as parent, whose aggregate is pending. -/
theorem Replaying.frame (replaying : Replaying target tree (entry :: rest) current)
    (shaped : tree.Shaped) (closed : AggregatesClosed (entry :: rest) tree) {key : SlotHashKey}
    (other : entry.1.key ≠ key) (settled : ¬ AggregatePending rest key) :
    ¬ AggregatePending (entry :: rest) key ∧
      ∀ {info}, current.forkInfo? key = some info → entry.1.key ∉ info.children := by
  have notPending : ¬ AggregatePending (entry :: rest) key := by
    rwa [aggregatePending_cons other]
  refine ⟨notPending, fun {info} present member => notPending ?_⟩
  obtain ⟨original, found, same⟩ := exists_of_links replaying.links present
  have originalMember : entry.1.key ∈ original.children := by
    rw [← show info.children = original.children from congrArg Prod.snd same]
    exact member
  obtain ⟨childInfo, childFound, childParent⟩ := shaped.childLinked found originalMember
  exact closed entry List.mem_cons_self (tree.parent_eq_some_iff.mpr ⟨childInfo, childFound, childParent⟩)

/-- A node is not its own child. -/
theorem Replaying.not_mem_own_children (replaying : Replaying target tree (entry :: rest) current)
    (shaped : tree.Shaped) {key : SlotHashKey} {info : ForkInfo} (present : current.forkInfo? key = some info) :
    key ∉ info.children := by
  intro member
  exact Nat.lt_irrefl _
    ((shaped.of_links replaying.links replaying.treeRoot).slot_lt_of_mem_children present member)

/-- The head operation found no node: nothing changes. -/
theorem Replaying.of_absent (replaying : Replaying target tree (entry :: rest) current)
    (shaped : tree.Shaped) (closed : AggregatesClosed (entry :: rest) tree)
    (absent : current.forkInfo? entry.1.key = none) : Replaying target tree rest current where
  links := replaying.links
  latestVotes := replaying.latestVotes
  treeRoot := replaying.treeRoot
  stakeVotedAt := by
    intro key info present
    have other : entry.1.key ≠ key := by
      rintro rfl
      rw [absent] at present
      cases present
    have stake := replaying.stakeVotedAt present
    rw [addedAt_cons, subtractedAt_cons, if_neg other, if_neg other] at stake
    simpa using stake
  atMostSubtree := replaying.atMostSubtree
  subtreeExact := by
    intro key info present settled
    have other : entry.1.key ≠ key := by
      rintro rfl
      rw [absent] at present
      cases present
    exact replaying.subtreeExact present (replaying.frame shaped closed other settled).1

/-- The head operation rewrote its node's stake and kept its links: what it has to leave true of
that node is all there is to check. -/
theorem Replaying.of_set (replaying : Replaying target tree (entry :: rest) current)
    (shaped : tree.Shaped) (closed : AggregatesClosed (entry :: rest) tree) {info updated : ForkInfo}
    (found : current.forkInfo? entry.1.key = some info) (sameLinks : updated.links = info.links)
    (stake : updated.stakeVotedAt + addedAt rest entry.1.key =
        target entry.1.key + subtractedAt rest entry.1.key ∧
      subtractedAt rest entry.1.key ≤ updated.stakeVotedAt)
    (atMost : updated.stakeVotedAt ≤ updated.stakeVotedSubtree)
    (exact : ¬ AggregatePending rest entry.1.key →
      updated.stakeVotedSubtree = updated.stakeVotedAt + current.childrenStake info.children) :
    Replaying target tree rest (current.setForkInfo entry.1.key updated) where
  links := by
    intro key
    rw [forkInfo?_setForkInfo]
    split
    · rename_i same
      subst same
      rw [← replaying.links, found]
      exact congrArg some sameLinks
    · exact replaying.links key
  latestVotes := by rw [setForkInfo_latestVotes]; exact replaying.latestVotes
  treeRoot := by rw [setForkInfo_treeRoot]; exact replaying.treeRoot
  stakeVotedAt := by
    intro key info' present
    rw [forkInfo?_setForkInfo] at present
    split at present
    · rename_i same
      subst same
      cases present
      exact stake
    · rename_i other
      have before := replaying.stakeVotedAt present
      rw [addedAt_cons, subtractedAt_cons, if_neg (Ne.symm other), if_neg (Ne.symm other)] at before
      simpa using before
  atMostSubtree := by
    intro key info' present
    rw [forkInfo?_setForkInfo] at present
    split at present
    · cases present
      exact atMost
    · exact replaying.atMostSubtree present
  subtreeExact := by
    intro key info' present settled
    rw [forkInfo?_setForkInfo] at present
    split at present
    · rename_i same
      subst same
      cases present
      rw [exact settled, show updated.children = info.children from congrArg Prod.snd sameLinks]
      -- the node is not its own child, so its children read as before
      refine congrArg _ (childrenStake_congr fun child member => ?_).symm
      rw [forkInfo?_setForkInfo, if_neg]
      rintro rfl
      exact replaying.not_mem_own_children shaped found member
    · rename_i other
      obtain ⟨notPending, notChild⟩ := replaying.frame shaped closed (Ne.symm other) settled
      rw [replaying.subtreeExact present notPending]
      refine congrArg _ (childrenStake_congr fun child member => ?_).symm
      rw [forkInfo?_setForkInfo, if_neg]
      rintro rfl
      exact notChild present member

/-- One operation of a batch of votes, replayed: it never fails, and the rest of the batch finds
`Replaying` true. -/
theorem Replaying.step (replaying : Replaying target tree (entry :: rest) current)
    (shaped : tree.Shaped) (closed : AggregatesClosed (entry :: rest) tree)
    (isStake : entry.2.isStake = true) :
    ∃ next, current.applyUpdateOperation entry = some next ∧ Replaying target tree rest next := by
  obtain ⟨⟨key, label⟩, operation⟩ := entry
  cases found : current.forkInfo? key with
  | none =>
      -- every operation of a batch of votes leaves a missing node alone
      refine ⟨current, ?_, replaying.of_absent shaped closed found⟩
      cases operation with
      | add stake =>
          simp only [applyUpdateOperation, Option.some_inj]
          unfold addSlotStake modifyForkInfo
          rw [found]
      | subtract stake => simp [applyUpdateOperation, subtractSlotStake, found]
      | aggregate => simp [applyUpdateOperation, aggregateSlot_of_none found]
      | markValid _ => cases isStake
      | markInvalid _ => cases isStake
  | some info =>
      have stake := replaying.stakeVotedAt found
      have atMost := replaying.atMostSubtree found
      cases operation with
      | add added =>
          refine ⟨current.setForkInfo key { info with
              stakeVotedAt := info.stakeVotedAt + added,
              stakeVotedSubtree := info.stakeVotedSubtree + added }, ?_, ?_⟩
          · simp only [applyUpdateOperation, Option.some_inj]
            unfold addSlotStake modifyForkInfo
            rw [found]
          · refine replaying.of_set shaped closed found rfl ?_ (by dsimp only; omega) fun settled => ?_
            · simp [addedAt_cons, subtractedAt_cons, UpdateOperation.addedStake,
                UpdateOperation.subtractedStake] at stake ⊢
              omega
            · have notPending : ¬ AggregatePending ((⟨key, label⟩, .add added) :: rest) key := by
                rintro ⟨pending, member, at_, aggregate⟩
                rcases List.mem_cons.mp member with rfl | later
                · cases aggregate
                · exact settled ⟨pending, later, at_, aggregate⟩
              have exact := replaying.subtreeExact found notPending
              dsimp only
              omega
      | subtract subtracted =>
          simp [addedAt_cons, subtractedAt_cons, UpdateOperation.addedStake,
            UpdateOperation.subtractedStake] at stake
          refine ⟨current.setForkInfo key { info with
              stakeVotedAt := info.stakeVotedAt - subtracted,
              stakeVotedSubtree := info.stakeVotedSubtree - subtracted },
            subtractSlotStake_of_le found (by omega) (by omega), ?_⟩
          refine replaying.of_set shaped closed found rfl ⟨by dsimp only; omega, by dsimp only; omega⟩
            (by dsimp only; omega) fun settled => ?_
          have notPending : ¬ AggregatePending ((⟨key, label⟩, .subtract subtracted) :: rest) key := by
            rintro ⟨pending, member, at_, aggregate⟩
            rcases List.mem_cons.mp member with rfl | later
            · cases aggregate
            · exact settled ⟨pending, later, at_, aggregate⟩
          have exact := replaying.subtreeExact found notPending
          dsimp only
          omega
      | aggregate =>
          have linked := shaped.of_links replaying.links replaying.treeRoot
          have present : ∀ child ∈ info.children, (current.forkInfo? child).isSome := by
            intro child member
            obtain ⟨childInfo, childFound, _⟩ := linked.childLinked found member
            rw [childFound]
            rfl
          obtain ⟨aggregated, aggregatedEq, sameAt, sameSubtree, sameLinks⟩ :=
            current.aggregateSlot_eq found present
          refine ⟨_, aggregatedEq, replaying.of_set shaped closed found sameLinks ?_ ?_ ?_⟩
          · simp [addedAt_cons, subtractedAt_cons, UpdateOperation.addedStake,
              UpdateOperation.subtractedStake] at stake
            rw [sameAt]
            omega
          · rw [sameAt, sameSubtree]
            omega
          · intro _
            rw [sameAt, sameSubtree]
      | markValid _ => cases isStake
      | markInvalid _ => cases isStake

/-- A whole batch of votes, replayed. -/
theorem Replaying.foldlM (shaped : tree.Shaped) :
    ∀ {remaining : UpdateOperations} {current : HeaviestSubtreeForkChoice},
      Replaying target tree remaining current → Descending remaining →
      AggregatesClosed remaining tree → (∀ entry ∈ remaining, entry.2.isStake = true) →
      ∃ final, remaining.foldlM applyUpdateOperation current = some final ∧
        Replaying target tree [] final
  | [], current, replaying, _, _, _ => ⟨current, rfl, replaying⟩
  | entry :: rest, current, replaying, descending, closed, stakeOnly => by
      obtain ⟨next, applied, replaying'⟩ :=
        replaying.step shaped closed (stakeOnly entry List.mem_cons_self)
      obtain ⟨final, folded, done⟩ := Replaying.foldlM shaped replaying'
        (List.pairwise_cons.mp descending).2 (closed.tail shaped descending)
        (fun later member => stakeOnly later (List.mem_cons_of_mem _ member))
      exact ⟨final, by rw [List.foldlM_cons, applied, Option.bind_eq_bind, Option.bind_some, folded],
        done⟩

end Replay

end Validator.ForkChoice
