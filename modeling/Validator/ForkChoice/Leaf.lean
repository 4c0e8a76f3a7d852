import Validator.ForkChoice.AddVotes

namespace Validator.ForkChoice

open Validator.Data HeaviestSubtreeForkChoice

/-! # `add_new_leaf_slot`

A new leaf is written with no stake and no children, and goes into its parent's children; then
`propagate_new_leaf` walks up from the parent, rewriting only best slots, deepest slots and
heights.  Under a parent that is present and in an earlier slot, the call never panics, the walks
end within their fuel, and the shape and the stake accounting of the tree are kept.
-/

/-! ## The children of a node -/

/-- `BTreeSet::insert` on the children is `SortedMap.insert` on a map with no values. -/
theorem insertChild_eq_keys (child : SlotHashKey) (children : List SlotHashKey) :
    insertChild child children =
      (SortedMap.insert child () (children.map fun other => (other, ()))).map Prod.fst := by
  induction children with
  | nil => rfl
  | cons other rest ih =>
      cases order : compare child other with
      | lt => simp [insertChild, SortedMap.insert, order, Function.comp_def]
      | eq =>
          have same : child = other := Std.LawfulEqOrd.eq_of_compare order
          subst same
          simp [insertChild, SortedMap.insert, Function.comp_def]
      | gt => simp [insertChild, SortedMap.insert, order, ih]

theorem sorted_children_iff {children : List SlotHashKey} :
    SortedMap.Sorted (children.map fun other => (other, ())) ↔
      children.Pairwise fun first second => compare first second = .lt := by
  simp [SortedMap.Sorted, List.pairwise_map]

theorem mem_insertChild {child other : SlotHashKey} {children : List SlotHashKey} :
    other ∈ insertChild child children ↔ other = child ∨ other ∈ children := by
  rw [insertChild_eq_keys, SortedMap.mem_keys_insert]
  simp

theorem insertChild_sorted (child : SlotHashKey) {children : List SlotHashKey}
    (sorted : children.Pairwise fun first second => compare first second = .lt) :
    (insertChild child children).Pairwise fun first second => compare first second = .lt := by
  rw [insertChild_eq_keys, List.pairwise_map]
  exact SortedMap.sorted_insert child () (sorted_children_iff.mpr sorted)

/-- A node's fields other than those `propagate_new_leaf` rewrites: its best and deepest slot and
its height. -/
def ForkInfo.skeleton (info : ForkInfo) : ForkInfo :=
  { info with bestSlot := .default, deepestSlot := .default, height := 0 }

/-- `other` is `tree` with at most the best and deepest slots and the heights of its nodes
rewritten. -/
structure SameSkeleton (tree other : HeaviestSubtreeForkChoice) : Prop where
  skeleton : ∀ key, (other.forkInfo? key).map ForkInfo.skeleton = (tree.forkInfo? key).map ForkInfo.skeleton
  latestVotes : other.latestVotes = tree.latestVotes
  treeRoot : other.treeRoot = tree.treeRoot

namespace SameSkeleton

variable {tree other final : HeaviestSubtreeForkChoice}

theorem refl (tree : HeaviestSubtreeForkChoice) : SameSkeleton tree tree :=
  ⟨fun _ => rfl, rfl, rfl⟩

theorem trans (first : SameSkeleton tree other) (second : SameSkeleton other final) :
    SameSkeleton tree final :=
  ⟨fun key => (second.skeleton key).trans (first.skeleton key),
    second.latestVotes.trans first.latestVotes, second.treeRoot.trans first.treeRoot⟩

theorem setForkInfo {key : SlotHashKey} {info : ForkInfo} (found : tree.forkInfo? key = some info)
    {info' : ForkInfo} (same : info'.skeleton = info.skeleton) :
    SameSkeleton tree (tree.setForkInfo key info') where
  skeleton other := by
    by_cases here : other = key
    · simp [here, found, same]
    · simp [here]
  latestVotes := setForkInfo_latestVotes key info'
  treeRoot := setForkInfo_treeRoot key info'

/-- Any field the skeleton keeps is read the same in both trees. -/
theorem map_eq (same : SameSkeleton tree other) {β : Type} {field : ForkInfo → β}
    (kept : ∀ info, field info.skeleton = field info) (key : SlotHashKey) :
    (other.forkInfo? key).map field = (tree.forkInfo? key).map field := by
  have mapped := congrArg (Option.map field) (same.skeleton key)
  simpa [Option.map_map, Function.comp_def, kept] using mapped

theorem shaped (same : SameSkeleton tree other) (shaped : tree.Shaped) : other.Shaped :=
  shaped.of_links (same.map_eq fun _ => rfl) same.treeRoot

theorem childrenStake (same : SameSkeleton tree other) (children : List SlotHashKey) :
    other.childrenStake children = tree.childrenStake children := by
  unfold HeaviestSubtreeForkChoice.childrenStake stakeVotedSubtree
  congr 1
  exact List.map_congr_left fun child _ => by rw [same.map_eq fun _ => rfl]

end SameSkeleton

/-! ## The walks of `propagate_new_leaf` -/

namespace HeaviestSubtreeForkChoice

variable {tree : HeaviestSubtreeForkChoice}

/-- Where a walk up the parents may stand: nowhere, or at a node with fewer nodes below it than
the fuel left. -/
def WalkBounded (tree : HeaviestSubtreeForkChoice) (fuel : Nat) (ancestor : Option SlotHashKey) : Prop :=
  ∀ node ∈ ancestor, (tree.forkInfo? node).isSome ∧ tree.keysBelow node.slot < fuel

/-- One step up from a node of a shaped tree, whose own fork info was rewritten in place. -/
theorem WalkBounded.parent (shaped : tree.Shaped) {fuel : Nat} {node : SlotHashKey} {info : ForkInfo}
    (found : tree.forkInfo? node = some info) (bounded : tree.keysBelow node.slot < fuel + 1)
    {info' : ForkInfo} (links : info'.parent = info.parent) :
    (tree.setForkInfo node info').WalkBounded fuel info'.parent := by
  intro parent linked
  rw [links] at linked
  obtain ⟨parentInfo, parentFound, _, below⟩ := shaped.parentLinked found linked
  have fewer := tree.keysBelow_lt parentFound below
  have other : parent ≠ node := fun same => by
    rw [same] at below
    exact Nat.lt_irrefl _ below
  refine ⟨by simp [other, parentFound], ?_⟩
  rw [keysBelow_setForkInfo found]
  omega

theorem WalkBounded.start (tree : HeaviestSubtreeForkChoice) {node : SlotHashKey}
    (present : (tree.forkInfo? node).isSome) : tree.WalkBounded tree.fuel (some node) := by
  rintro _ ⟨⟩
  exact ⟨present, tree.keysBelow_le_length _⟩

/-- The tree `add_new_leaf_slot` hands to `propagate_new_leaf`: the leaf's fork info written, and
the leaf among its parent's children. -/
def attachLeaf (tree : HeaviestSubtreeForkChoice) (key parent : SlotHashKey) (leaf parentInfo : ForkInfo) :
    HeaviestSubtreeForkChoice :=
  (tree.setForkInfo key leaf).setForkInfo parent
    { parentInfo with children := insertChild key parentInfo.children }

section Attach

variable {key parent : SlotHashKey} {leaf parentInfo : ForkInfo}

@[simp]
theorem attachLeaf_treeRoot : (tree.attachLeaf key parent leaf parentInfo).treeRoot = tree.treeRoot := by
  simp [attachLeaf]

variable (absent : tree.forkInfo? key = none) (parentFound : tree.forkInfo? parent = some parentInfo)
include absent parentFound

theorem parent_ne_leaf : parent ≠ key := by
  rintro rfl
  rw [absent] at parentFound
  cases parentFound

/-- The attached tree, node by node: the leaf, the parent with the leaf among its children, and
every other node as it was. -/
theorem forkInfo?_attachLeaf (other : SlotHashKey) :
    (tree.attachLeaf key parent leaf parentInfo).forkInfo? other =
      if other = key then some leaf
      else if other = parent then some { parentInfo with children := insertChild key parentInfo.children }
      else tree.forkInfo? other := by
  have distinct := parent_ne_leaf absent parentFound
  by_cases isLeaf : other = key
  · subst isLeaf
    simp [attachLeaf, Ne.symm distinct]
  · by_cases isParent : other = parent <;> simp [attachLeaf, isLeaf, isParent, distinct]

omit parentFound in
theorem ne_leaf_of_present {other : SlotHashKey} {info : ForkInfo} (found : tree.forkInfo? other = some info) :
    other ≠ key := by
  rintro rfl
  rw [absent] at found
  cases found

/-- A node that was in the tree: the parent has the leaf among its children, the others are as
they were. -/
theorem forkInfo?_attachLeaf_of_present {other : SlotHashKey} {info : ForkInfo}
    (found : tree.forkInfo? other = some info) :
    (tree.attachLeaf key parent leaf parentInfo).forkInfo? other =
      some (if other = parent then { info with children := insertChild key info.children } else info) := by
  rw [forkInfo?_attachLeaf absent parentFound, if_neg (ne_leaf_of_present absent found)]
  split
  · rename_i isParent
    rw [isParent, parentFound, Option.some_inj] at found
    rw [found]
  · exact found

/-- A node of the attached tree other than the leaf was in the tree. -/
theorem exists_of_attachLeaf {other : SlotHashKey} {info : ForkInfo}
    (found : (tree.attachLeaf key parent leaf parentInfo).forkInfo? other = some info) (notLeaf : other ≠ key) :
    ∃ original, tree.forkInfo? other = some original ∧
      info = if other = parent then { original with children := insertChild key original.children }
        else original := by
  cases present : tree.forkInfo? other with
  | none =>
      have notParent : other ≠ parent := by
        rintro rfl
        rw [parentFound] at present
        cases present
      rw [forkInfo?_attachLeaf absent parentFound, if_neg notLeaf, if_neg notParent, present] at found
      cases found
  | some original =>
      rw [forkInfo?_attachLeaf_of_present absent parentFound present, Option.some_inj] at found
      exact ⟨original, rfl, found.symm⟩

theorem leaf_of_attachLeaf {info : ForkInfo}
    (found : (tree.attachLeaf key parent leaf parentInfo).forkInfo? key = some info) : info = leaf := by
  rw [forkInfo?_attachLeaf absent parentFound, if_pos rfl, Option.some_inj] at found
  exact found.symm

theorem isSome_attachLeaf {other : SlotHashKey} (present : (tree.forkInfo? other).isSome) :
    ((tree.attachLeaf key parent leaf parentInfo).forkInfo? other).isSome := by
  obtain ⟨info, found⟩ := Option.isSome_iff_exists.mp present
  rw [forkInfo?_attachLeaf_of_present absent parentFound found]
  rfl

/-- Attaching a leaf to a present parent in an earlier slot keeps the tree's shape. -/
theorem Shaped.attachLeaf (shaped : tree.Shaped) (below : parent.slot < key.slot)
    (leafParent : leaf.parent = some parent) (leafChildren : leaf.children = []) :
    (tree.attachLeaf key parent leaf parentInfo).Shaped where
  rootPresent := by
    rw [attachLeaf_treeRoot]
    exact isSome_attachLeaf absent parentFound shaped.rootPresent
  parentLinked {node info above} found linked := by
    by_cases isLeaf : node = key
    · -- the leaf, under its parent
      rw [isLeaf] at found ⊢
      rw [leaf_of_attachLeaf absent parentFound found, leafParent, Option.some_inj] at linked
      rw [← linked]
      refine ⟨_, forkInfo?_attachLeaf_of_present absent parentFound parentFound, ?_, below⟩
      simp [mem_insertChild]
    · -- every other node keeps its parent, which lists it among its children
      obtain ⟨original, present, rfl⟩ := exists_of_attachLeaf absent parentFound found isLeaf
      have sameParent : (if node = parent then { original with children := insertChild key original.children }
          else original).parent = original.parent := by
        split <;> rfl
      rw [sameParent] at linked
      obtain ⟨aboveInfo, aboveFound, member, slotBelow⟩ := shaped.parentLinked present linked
      refine ⟨_, forkInfo?_attachLeaf_of_present absent parentFound aboveFound, ?_, slotBelow⟩
      split
      · exact mem_insertChild.mpr (.inr member)
      · exact member
  childLinked {node info child} found member := by
    by_cases isLeaf : node = key
    · rw [isLeaf] at found
      rw [leaf_of_attachLeaf absent parentFound found, leafChildren] at member
      cases member
    · obtain ⟨original, present, rfl⟩ := exists_of_attachLeaf absent parentFound found isLeaf
      -- the children it had, and the leaf if it is the leaf's parent
      have fromOriginal : child = key ∧ node = parent ∨ child ∈ original.children := by
        split at member
        · rcases mem_insertChild.mp member with isChild | earlier
          · exact .inl ⟨isChild, ‹_›⟩
          · exact .inr earlier
        · exact .inr member
      rcases fromOriginal with ⟨isChild, isParent⟩ | earlier
      · rw [isChild, isParent]
        exact ⟨leaf, by simp [forkInfo?_attachLeaf absent parentFound], leafParent⟩
      · obtain ⟨childInfo, childFound, childParent⟩ := shaped.childLinked present earlier
        refine ⟨_, forkInfo?_attachLeaf_of_present absent parentFound childFound, ?_⟩
        split <;> exact childParent
  childrenSorted {node info} found := by
    by_cases isLeaf : node = key
    · rw [isLeaf] at found
      rw [leaf_of_attachLeaf absent parentFound found, leafChildren]
      exact List.Pairwise.nil
    · obtain ⟨original, present, rfl⟩ := exists_of_attachLeaf absent parentFound found isLeaf
      split
      · exact insertChild_sorted key (shaped.childrenSorted present)
      · exact shaped.childrenSorted present

end Attach

end HeaviestSubtreeForkChoice

/-- `new`: the root alone, with no stake, no children and no votes. -/
theorem new_eq (root : SlotHashKey) :
    HeaviestSubtreeForkChoice.new root =
      some ⟨[(root, ⟨0, 0, 1, root, root, none, [], none, true⟩)], [], root⟩ := rfl

end Validator.ForkChoice
