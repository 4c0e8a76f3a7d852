import Mathlib.Data.List.Basic
import Validator.Ledger.MerkleTree

namespace Validator.Ledger.MerkleTree

open Validator.Data Validator.Data.HashTree

/-! # Shred Merkle proofs are complete

Each of the three loops of `merkle_tree.rs` walks the levels of `HashTree.levels` under the
join `make_merkle_tree` builds with: the builder appends them one after another, the proof
iterator reads each level's sibling at the offset where that level starts, and the root fold is
`climbStep`.  So every leaf's proof has one entry per level below the root and climbs back to
the last node of the tree.
-/

variable {Hash Entry : Type} (hasher : Hasher Hash Entry)

/-- `join_nodes` on two nodes of the tree: the join its levels are built with. -/
def joinHashes (node other : Hash) : Hash :=
  joinNodes hasher (hasher.entry node) (hasher.entry other)

section Sizes

theorem treeSizes_of_one_lt {k : Nat} (branching : 1 < k) :
    treeSizes k = k :: treeSizes ((k + 1) / 2) := by
  rw [treeSizes, if_pos branching, Nat.shiftRight_one]

theorem treeSizes_of_le_one {k : Nat} (single : k ≤ 1) : treeSizes k = [k] := by
  rw [treeSizes, if_neg (by omega)]

theorem levelSizes_eq (k : Nat) :
    levelSizes k = k :: if 2 < k then levelSizes ((k + 1) / 2) else [] := by
  rw [levelSizes, Nat.shiftRight_one]

/-- The tree holds every level, and `get_merkle_tree_size` counts their nodes. -/
theorem length_flatten_levels (join : Hash → Hash → Hash) (level : List Hash) :
    (levels join level).flatten.length = getMerkleTreeSize level.length := by
  by_cases branching : 1 < level.length
  · rw [levels_of_one_lt branching, List.flatten_cons, List.length_append,
      length_flatten_levels join (pairUp join level), length_pairUp, getMerkleTreeSize,
      getMerkleTreeSize, treeSizes_of_one_lt branching, List.sum_cons]
  · rw [levels_of_le_one (by omega), getMerkleTreeSize, treeSizes_of_le_one (by omega)]
    simp
termination_by level.length
decreasing_by
  rw [length_pairUp]
  omega

end Sizes

section Build

/-- A level's nodes sit right after the levels below it. -/
theorem getElem?_append_level {below level rest : List Hash} {index : Nat}
    (inside : index < level.length) :
    (below ++ level ++ rest)[below.length + index]? = level[index]? := by
  rw [List.append_assoc, List.getElem?_append_right (by omega), Nat.add_sub_cancel_left,
    List.getElem?_append_left inside]

/-- One turn of the inner loop pushes the next parent of the level. -/
theorem joinLevelStep_eq {below level : List Hash} {done : Nat}
    (pending : done < (level.length + 1) / 2) :
    joinLevelStep hasher below.length level.length
        (below ++ level ++ (pairUp (joinHashes hasher) level).take done) (below.length + 2 * done) =
      some (below ++ level ++ (pairUp (joinHashes hasher) level).take (done + 1)) := by
  have firstInside : 2 * done < level.length := by omega
  have secondInside : min (2 * done + 1) (level.length - 1) < level.length := by omega
  obtain ⟨first, firstAt⟩ : ∃ first, level[2 * done]? = some first :=
    ⟨_, List.getElem?_eq_getElem firstInside⟩
  obtain ⟨second, secondAt⟩ : ∃ second, level[min (2 * done + 1) (level.length - 1)]? = some second :=
    ⟨_, List.getElem?_eq_getElem secondInside⟩
  -- the builder clamps the right child to the level's end in absolute positions
  have otherAt : min (below.length + 2 * done + 1) (below.length + level.length - 1) =
      below.length + min (2 * done + 1) (level.length - 1) := by
    omega
  have parentAt : (pairUp (joinHashes hasher) level)[done]? =
      some (joinHashes hasher first second) :=
    getElem?_pairUp firstAt secondAt
  rw [joinLevelStep, getElem?_append_level firstInside, firstAt, otherAt,
    getElem?_append_level secondInside, secondAt, List.take_add_one, parentAt]
  simp only [Option.toList_some, List.append_assoc]
  rfl

/-- The rest of the inner loop, from the `done`-th parent on, pushes the rest of the level above. -/
theorem foldlM_joinLevelStep {below level : List Hash} :
    ∀ count done, done + count = (level.length + 1) / 2 →
      (List.range' (below.length + 2 * done) count 2).foldlM
          (joinLevelStep hasher below.length level.length)
          (below ++ level ++ (pairUp (joinHashes hasher) level).take done) =
        some (below ++ level ++ pairUp (joinHashes hasher) level)
  | 0, done, finished => by
      have whole : (pairUp (joinHashes hasher) level).length ≤ done := by
        rw [length_pairUp]
        omega
      rw [List.range'_zero, List.foldlM_nil, List.take_of_length_le whole]
      rfl
  | count + 1, done, finished => by
      have next : below.length + 2 * done + 2 = below.length + 2 * (done + 1) := by omega
      rw [List.range'_succ, List.foldlM_cons, joinLevelStep_eq hasher (by omega)]
      simp only [Option.bind_eq_bind, Option.bind_some]
      rw [next]
      exact foldlM_joinLevelStep count (done + 1) (by omega)

/-- The inner loop over the level at the end of the vector appends the level above it. -/
theorem joinLevel_eq (below level : List Hash) :
    joinLevel hasher (below ++ level) below.length level.length =
      some (below ++ level ++ pairUp (joinHashes hasher) level) := by
  have whole : (List.range' below.length ((level.length + 1) / 2) 2).foldlM
      (joinLevelStep hasher below.length level.length) (below ++ level) =
        some (below ++ level ++ pairUp (joinHashes hasher) level) := by
    simpa using foldlM_joinLevelStep hasher ((level.length + 1) / 2) 0 (Nat.zero_add _)
  exact whole

/-- The outer loop appends every level above `level`, up to the root. -/
theorem joinLevels_levelSizes (below level : List Hash) (branching : 1 < level.length) :
    joinLevels hasher (below ++ level) (levelSizes level.length) =
      some (below ++ (levels (joinHashes hasher) level).flatten) := by
  have offset : (below ++ level).length - level.length = below.length := by simp
  have parents := length_pairUp (joinHashes hasher) level
  rw [levelSizes_eq, joinLevels, if_pos (by simp), offset, joinLevel_eq, Option.bind_some,
    levels_of_one_lt branching, List.flatten_cons]
  by_cases more : 2 < level.length
  · rw [if_pos more, ← parents,
      joinLevels_levelSizes (below ++ level) (pairUp (joinHashes hasher) level) (by omega),
      List.append_assoc]
  · -- two nodes: their parent is the root
    rw [if_neg more, joinLevels, levels_of_le_one (by omega), List.flatten_singleton,
      List.append_assoc]
termination_by level.length
decreasing_by omega

theorem mapM_ok {ε : Type} (leaves : List Hash) :
    (leaves.map (Except.ok : Hash → Except ε Hash)).mapM id = .ok leaves := by
  induction leaves with
  | nil => rfl
  | cons leaf leaves ih =>
      rw [List.map_cons, List.mapM_cons, ih]
      rfl

/-- `make_merkle_tree` on leaves that all hash: every level of the tree, leaves first. -/
theorem makeMerkleTree_eq {ε : Type} (leaves : List Hash) :
    makeMerkleTree hasher (leaves.map (Except.ok : Hash → Except ε Hash)) =
      some (.ok (levels (joinHashes hasher) leaves).flatten) := by
  have joined : joinLevels hasher leaves
      (if 1 < leaves.length then levelSizes leaves.length else []) =
        some (levels (joinHashes hasher) leaves).flatten := by
    by_cases branching : 1 < leaves.length
    · rw [if_pos branching]
      simpa using joinLevels_levelSizes hasher [] leaves branching
    · rw [if_neg branching, joinLevels, levels_of_le_one (by omega), List.flatten_singleton]
  have sized := length_flatten_levels (joinHashes hasher) leaves
  rw [makeMerkleTree, mapM_ok]
  simp only [List.length_map, joined, Option.bind_some, sized, if_true]

end Build

section Proof

/-- Below the root, the iterator reads the sibling at the offset where the level starts and
moves to the parent's position one level up. -/
theorem next_of_one_lt {below level : List Hash} {index : Nat} {sibling : Hash}
    (branching : 1 < level.length)
    (siblingAt : level[min (index ^^^ 1) (level.length - 1)]? = some sibling) :
    MerkleProof.next hasher (below ++ (levels (joinHashes hasher) level).flatten)
        ⟨index, level.length, below.length⟩ =
      some (.ok (hasher.entry sibling),
        ⟨index / 2, (pairUp (joinHashes hasher) level).length, (below ++ level).length⟩) := by
  obtain ⟨above, flat⟩ : ∃ above, (levels (joinHashes hasher) level).flatten = level ++ above :=
    flatten_levels_eq_append level
  have inTree : (below ++ (levels (joinHashes hasher) level).flatten)[below.length +
      min (index ^^^ 1) (level.length - 1)]? = some sibling := by
    rw [flat, ← List.append_assoc, getElem?_append_level (sibling_lt_length (by omega)), siblingAt]
  rw [MerkleProof.next, if_pos branching]
  simp only [inTree, Nat.shiftRight_one, length_pairUp, List.length_append]

/-- From the state of level `level`, the iterator yields the entry of each sibling on the
leaf's path and then stops at the root. -/
theorem yields_path {below level : List Hash} {index : Nat} (inside : index < level.length) :
    Yields (MerkleProof.next hasher (below ++ (levels (joinHashes hasher) level).flatten))
      ⟨index, level.length, below.length⟩
      ((path (joinHashes hasher) level index).map fun sibling => .ok (hasher.entry sibling)) := by
  by_cases branching : 1 < level.length
  · obtain ⟨sibling, siblingAt⟩ : ∃ sibling,
        level[min (index ^^^ 1) (level.length - 1)]? = some sibling :=
      ⟨_, List.getElem?_eq_getElem (sibling_lt_length (by omega))⟩
    have tree : below ++ (levels (joinHashes hasher) level).flatten =
        below ++ level ++ (levels (joinHashes hasher) (pairUp (joinHashes hasher) level)).flatten := by
      rw [levels_of_one_lt branching, List.flatten_cons, List.append_assoc]
    have parentInside : index / 2 < (pairUp (joinHashes hasher) level).length := by
      rw [length_pairUp]
      omega
    rw [path_of_one_lt branching siblingAt, List.map_cons]
    refine .yield (next_of_one_lt hasher branching siblingAt) ?_
    rw [tree]
    exact yields_path parentInside
  · -- the root's level: the offset has reached the tree's last node
    have root : (below ++ (levels (joinHashes hasher) level).flatten).length =
        below.length + 1 := by
      rw [levels_of_le_one (by omega), List.flatten_singleton, List.length_append]
      omega
    rw [path_of_le_one (by omega), List.map_nil]
    refine .done ?_
    rw [MerkleProof.next, if_neg branching, if_pos root.symm]
termination_by level.length
decreasing_by
  rw [length_pairUp]
  omega

/-- Past the leaves, the first item is the error. -/
theorem next_makeMerkleProof_of_le (tree : List Hash) {index size : Nat} (outside : size ≤ index) :
    MerkleProof.next hasher tree (makeMerkleProof index size tree) =
      some (.error .invalidMerkleProof, ⟨index, 0, tree.length⟩) := by
  rw [makeMerkleProof, if_pos outside, MerkleProof.next, if_neg (Nat.not_lt_zero 1),
    if_neg (Nat.succ_ne_self _)]

/-- `get_merkle_root` folds the entries as `climbStep` folds the siblings they are cut from. -/
theorem getMerkleRoot_eq (index : Nat) (leaf : Hash) (siblings : List Hash) :
    getMerkleRoot hasher index leaf (siblings.map hasher.entry) =
      let climbed := siblings.foldl (climbStep (joinHashes hasher)) (index, leaf)
      if climbed.1 = 0 then .ok climbed.2 else .error .invalidMerkleProof := by
  rw [getMerkleRoot, List.foldl_map]
  rw [List.foldl_ext _ (climbStep (joinHashes hasher)) _ fun state sibling _ => by
    simp only [climbStep, Nat.shiftRight_one, joinHashes]]

/-- The root a leaf's proof climbs to is the tree's last node. -/
theorem getMerkleRoot_path {level : List Hash} {index : Nat} {leaf : Hash}
    (found : level[index]? = some leaf) :
    ∃ root, (levels (joinHashes hasher) level).flatten.getLast? = some root ∧
      getMerkleRoot hasher index leaf ((path (joinHashes hasher) level index).map hasher.entry) =
        .ok root := by
  obtain ⟨root, last, climbed⟩ := foldl_climbStep_path found
  refine ⟨root, last, ?_⟩
  rw [getMerkleRoot_eq]
  simp only [climbed, if_true]

end Proof

theorem merkle_proof_complete {ε : Type} (leaves : List Hash) :
    ∃ tree, makeMerkleTree hasher (leaves.map (Except.ok : Hash → Except ε Hash)) =
        some (.ok tree) ∧
      tree.length = getMerkleTreeSize leaves.length ∧
      (∀ index leaf, leaves[index]? = some leaf → ∃ entries : List Entry,
        Yields (MerkleProof.next hasher tree) (makeMerkleProof index leaves.length tree)
          (entries.map .ok) ∧
        entries.length = Nat.clog 2 leaves.length ∧
        ∃ root, tree.getLast? = some root ∧ getMerkleRoot hasher index leaf entries = .ok root) ∧
      ∀ index, leaves.length ≤ index → ∃ after,
        MerkleProof.next hasher tree (makeMerkleProof index leaves.length tree) =
          some (.error .invalidMerkleProof, after) := by
  refine ⟨_, makeMerkleTree_eq hasher leaves, length_flatten_levels _ leaves, ?_, ?_⟩
  · intro index leaf found
    have inside : index < leaves.length := (List.getElem?_eq_some_iff.mp found).1
    refine ⟨(path (joinHashes hasher) leaves index).map hasher.entry, ?_, ?_,
      getMerkleRoot_path hasher found⟩
    · -- the iterator starts at the leaves' level, at offset `0`
      have yields : Yields
          (MerkleProof.next hasher ([] ++ (levels (joinHashes hasher) leaves).flatten))
          ⟨index, leaves.length, ([] : List Hash).length⟩
          ((path (joinHashes hasher) leaves index).map fun sibling => .ok (hasher.entry sibling)) :=
        yields_path hasher inside
      rw [List.nil_append, List.length_nil] at yields
      rw [makeMerkleProof, if_neg (by omega), List.map_map]
      exact yields
    · rw [List.length_map, length_path inside]
  · intro index outside
    exact ⟨_, next_makeMerkleProof_of_le hasher _ outside⟩

end Validator.Ledger.MerkleTree
