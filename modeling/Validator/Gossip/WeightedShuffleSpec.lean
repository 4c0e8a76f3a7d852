import Validator.Data.SumTree
import Validator.Gossip.WeightedShufflePool

namespace Validator.Gossip

open Validator.Data

/-! # The weighted shuffle's tree holds the block sums of its weights

`Represents shuffle vs depth` says that `shuffle` is the sum tree of the weights `vs`, with the
leaves `depth + 1` levels below the root: the numbers of nodes are those
`get_num_nodes_and_tree_size` gives, every entry of every allocated node is the weight of the
block of leaves under that child (`SlotsAt`), and `weight` is the sum of all of them.  The walk
shared by `new` and `remove` keeps this when a leaf changes (`updateAncestors_walk`), and the
descent of `search` finds the leaf whose prefix sums bracket the value it is given
(`searchLoop_descends`).
-/

section Layout

theorem fanout_eq : fanout = 16 := rfl

theorem fanout_pos : 0 < fanout := by decide

theorem and_bitMask (n : Nat) : n &&& bitMask = n % fanout :=
  Nat.and_two_pow_sub_one_eq_mod n 4

theorem shiftRight_bitShift (n : Nat) : n >>> bitShift = n / fanout :=
  Nat.shiftRight_eq_div_pow n 4

theorem shiftLeft_bitShift (n : Nat) : n <<< bitShift = fanout * n := by
  rw [Nat.shiftLeft_eq, Nat.mul_comm]
  rfl

/-- The parent of node `q` on level `ℓ + 1`, as `(index - 1) >> BIT_SHIFT` finds it. -/
theorem parent_index (ℓ q : Nat) :
    (levelStart fanout (ℓ + 1) + q - 1) >>> bitShift = levelStart fanout ℓ + q / fanout := by
  rw [shiftRight_bitShift, parent_levelStart fanout_pos]

/-- The place of node `q` of level `ℓ + 1` among its parent's children, as
`(index - 1) & BIT_MASK` finds it. -/
theorem offset_index (ℓ q : Nat) :
    (levelStart fanout (ℓ + 1) + q - 1) &&& bitMask = q % fanout := by
  rw [and_bitMask, offset_levelStart]

/-- Child `j` of node `p` on level `ℓ`, as `(index << BIT_SHIFT) + offset + 1` finds it. -/
theorem child_index (ℓ p j : Nat) :
    ((levelStart fanout ℓ + p) <<< bitShift) + j + 1 = levelStart fanout (ℓ + 1) + (fanout * p + j) := by
  rw [shiftLeft_bitShift, child_levelStart]

/-- The children of a node of level `ℓ` are nodes of level `ℓ + 1`. -/
theorem child_place {ℓ p j : Nat} (place : p < fanout ^ ℓ) (child : j < fanout) :
    fanout * p + j < fanout ^ (ℓ + 1) :=
  calc fanout * p + j < fanout * (p + 1) := by rw [Nat.mul_succ]; omega
    _ ≤ fanout * fanout ^ ℓ := Nat.mul_le_mul_left _ place
    _ = fanout ^ (ℓ + 1) := by rw [Nat.pow_succ, Nat.mul_comm]

theorem div_pow_div_fanout (k d : Nat) : k / fanout ^ d / fanout = k / fanout ^ (d + 1) := by
  rw [Nat.div_div_eq_div_mul, Nat.pow_succ]

/-- The loop of `get_num_nodes_and_tree_size` stops at the first level with room for `count`
leaves below it, within the rounds it is given. -/
theorem numNodesLoop_spec (count fuel : Nat) :
    ∀ m, count ≤ fanout ^ (m + fuel + 1) →
      ∃ depth, numNodesLoop count fuel (levelStart fanout m) (fanout ^ m) =
          (levelStart fanout depth, fanout ^ depth) ∧ count ≤ fanout ^ (depth + 1) ∧
        (depth = m ∨ fanout ^ depth < count) := by
  induction fuel with
  | zero =>
    intro m fits
    exact ⟨m, rfl, fits, Or.inl rfl⟩
  | succ fuel ih =>
    intro m fits
    rw [numNodesLoop]
    by_cases deeper : fanout ^ m * fanout < count
    · rw [if_pos deeper, levelStart_add_pow, ← Nat.pow_succ]
      obtain ⟨depth, loop, room, first⟩ :=
        ih (m + 1) (by rwa [show m + 1 + fuel + 1 = m + (fuel + 1) + 1 by omega])
      refine ⟨depth, loop, room, Or.inr ?_⟩
      rcases first with rfl | below
      · rwa [Nat.pow_succ]
      · exact below
    · rw [if_neg deeper]
      exact ⟨m, rfl, by rw [Nat.pow_succ]; omega, Or.inl rfl⟩

theorem getNumNodesAndTreeSize_spec (count : Nat) :
    ∃ depth, getNumNodesAndTreeSize count =
        (levelStart fanout (depth + 1), levelStart fanout depth + (count + fanout - 1) / fanout) ∧
      count ≤ fanout ^ (depth + 1) ∧ (depth = 0 ∨ fanout ^ depth < count) := by
  have enough : count ≤ fanout ^ (0 + count + 1) := by
    have grows : count + 1 < fanout ^ (count + 1) := Nat.lt_pow_self (by decide)
    rw [Nat.zero_add]
    omega
  obtain ⟨depth, loop, fits, first⟩ := numNodesLoop_spec count count 0 enough
  refine ⟨depth, ?_, fits, first⟩
  have start : numNodesLoop count count 0 1 =
      numNodesLoop count count (levelStart fanout 0) (fanout ^ 0) := rfl
  simp only [getNumNodesAndTreeSize, start, loop, levelStart_add_pow]

/-- The nodes with children are among the internal nodes: `debug_assert!(size <= num_nodes)`. -/
theorem treeSize_le {count depth : Nat} (fits : count ≤ fanout ^ (depth + 1)) :
    (count + fanout - 1) / fanout ≤ fanout ^ depth := by
  rw [Nat.pow_succ, fanout_eq] at *
  omega

/-- `get_num_nodes_and_tree_size(count)`: the internal nodes of the shallowest complete tree with
room for `count` leaves on its last level, and how many of them have leaves below them, which is
never more (its `debug_assert!(size <= num_nodes)`). -/
theorem getNumNodesAndTreeSize_layout (count : Nat) :
    ∃ depth, getNumNodesAndTreeSize count =
        (levelStart fanout (depth + 1), levelStart fanout depth + (count + fanout - 1) / fanout) ∧
      count ≤ fanout ^ (depth + 1) ∧ (depth = 0 ∨ fanout ^ depth < count) ∧
      (getNumNodesAndTreeSize count).2 ≤ (getNumNodesAndTreeSize count).1 := by
  obtain ⟨depth, sizes, fits, first⟩ := getNumNodesAndTreeSize_spec count
  refine ⟨depth, sizes, fits, first, ?_⟩
  rw [sizes, ← levelStart_add_pow]
  exact Nat.add_le_add_left (treeSize_le fits) _

end Layout

/-- `u64::checked_add` adds exactly when the sum fits. -/
theorem checkedAdd_eq_some {a b : UInt64} (fits : a.toNat + b.toNat < 2 ^ 64) :
    checkedAdd a b = some (a + b) := by
  rw [checkedAdd, if_pos fits]

theorem checkedAdd_eq_none {a b : UInt64} (overflows : 2 ^ 64 ≤ a.toNat + b.toNat) :
    checkedAdd a b = none := by
  rw [checkedAdd, if_neg (by omega)]

theorem toNat_add_of_lt {a b : UInt64} (fits : a.toNat + b.toNat < 2 ^ 64) :
    (a + b).toNat = a.toNat + b.toNat := by
  rw [UInt64.toNat_add, Nat.mod_eq_of_lt fits]

theorem toNat_eq_zero {w : UInt64} : w.toNat = 0 ↔ w = 0 :=
  ⟨fun zero => UInt64.toNat_inj.mp (by rw [zero, UInt64.toNat_zero]),
    fun zero => by rw [zero, UInt64.toNat_zero]⟩

section Represents

/-- The entries of node `p` on level `ℓ` are the weights under its children: the blocks of
`FANOUT ^ (depth - ℓ)` leaves below each. -/
def SlotsAt (tree : List Node) (vs : List Nat) (depth ℓ : Nat) : Prop :=
  ∀ p node, p < fanout ^ ℓ → tree[levelStart fanout ℓ + p]? = some node →
    node.toList.map UInt64.toNat = blockSums vs (fanout ^ (depth - ℓ)) (fanout * p) fanout

/-- `shuffle` is the sum tree of the weights `vs`, with the leaves `depth + 1` levels down. -/
structure Represents (shuffle : WeightedShuffle) (vs : List Nat) (depth : Nat) : Prop where
  numNodes_eq : shuffle.numNodes = levelStart fanout (depth + 1)
  length_tree : shuffle.tree.length = levelStart fanout depth + (vs.length + fanout - 1) / fanout
  length_le : vs.length ≤ fanout ^ (depth + 1)
  slots : ∀ ℓ ≤ depth, SlotsAt shuffle.tree vs depth ℓ
  weight_eq : shuffle.weight.toNat = vs.sum

variable {tree : List Node} {vs : List Nat} {depth ℓ p : Nat}

/-- The tree does not read `zeros`. -/
theorem Represents.setZeros {shuffle : WeightedShuffle} (represents : Represents shuffle vs depth)
    (zeros : List Nat) : Represents { shuffle with zeros } vs depth :=
  ⟨represents.numNodes_eq, represents.length_tree, represents.length_le, represents.slots,
    represents.weight_eq⟩

/-- The allocated nodes are internal nodes: `tree.len() <= num_nodes`. -/
theorem Represents.length_tree_le {shuffle : WeightedShuffle} (represents : Represents shuffle vs depth) :
    shuffle.tree.length ≤ shuffle.numNodes := by
  rw [represents.length_tree, represents.numNodes_eq, ← levelStart_add_pow]
  exact Nat.add_le_add_left (treeSize_le represents.length_le) _

/-- A node is allocated when some leaf below it holds a weight. -/
theorem allocated
    (length_tree : tree.length = levelStart fanout depth + (vs.length + fanout - 1) / fanout)
    (level : ℓ ≤ depth) (place : p < fanout ^ ℓ) (covers : p * fanout ^ (depth + 1 - ℓ) < vs.length) :
    levelStart fanout ℓ + p < tree.length := by
  rcases Nat.lt_or_ge ℓ depth with above | bottom
  · have before := levelStart_add_lt place above
    rw [length_tree]
    exact Nat.lt_of_lt_of_le before (Nat.le_add_right _ _)
  · have same : ℓ = depth := by omega
    subst same
    rw [show ℓ + 1 - ℓ = 1 by omega, Nat.pow_one] at covers
    rw [length_tree]
    rw [fanout_eq] at covers ⊢
    omega

/-- The entry of node `p` on level `ℓ` for child `j` is the weight under that child. -/
theorem SlotsAt.entry (slots : SlotsAt tree vs depth ℓ) (place : p < fanout ^ ℓ) {node : Node}
    (found : tree[levelStart fanout ℓ + p]? = some node) (j : Fin fanout) :
    (node.get j).toNat = blockSum vs (fanout ^ (depth - ℓ)) (fanout * p + j) := by
  have entries := congrArg (·[j.val]?) (slots p node place found)
  simp only [List.getElem?_map, Vector.getElem?_toList, blockSums, List.getElem?_range j.isLt,
    Option.map_some] at entries
  rw [Vector.getElem?_eq_getElem j.isLt, Option.map_some, Option.some_inj] at entries
  exact entries

/-- Writing a node of level `ℓ` leaves every other level as it was. -/
theorem SlotsAt.set_other {ℓ' P : Nat} {node : Node} {ws : List Nat}
    (slots : SlotsAt tree ws depth ℓ') (other : ℓ' ≠ ℓ) (place : P < fanout ^ ℓ) :
    SlotsAt (tree.set (levelStart fanout ℓ + P) node) ws depth ℓ' := by
  intro p node' place' found
  rw [List.getElem?_set] at found
  split at found
  · next same => exact absurd (levelStart_add_inj place place' same).1.symm other
  · exact slots p node' place' found

/-- Writing the ancestor of leaf `k` on level `ℓ` with the weights under its children once `k`
holds `x` makes the level describe the weights after the write: the other nodes of the level
have no leaf `k` below them. -/
theorem SlotsAt.set_ancestor {k x : Nat} {node : Node}
    (slots : SlotsAt tree vs depth ℓ) (level : ℓ ≤ depth)
    (place : k / fanout ^ (depth + 1 - ℓ) < fanout ^ ℓ)
    (written : node.toList.map UInt64.toNat =
      blockSums (vs.set k x) (fanout ^ (depth - ℓ)) (fanout * (k / fanout ^ (depth + 1 - ℓ)))
        fanout) :
    SlotsAt (tree.set (levelStart fanout ℓ + k / fanout ^ (depth + 1 - ℓ)) node) (vs.set k x)
      depth ℓ := by
  intro p node' place' found
  rw [List.getElem?_set] at found
  split at found
  · next same =>
    obtain rfl := (levelStart_add_inj place place' same).2
    split at found
    · cases found
      exact written
    · cases found
  · next other =>
    rw [slots p node' place' found]
    -- the children of node `p` lie before or after the block that holds `k`
    have ancestor : k / fanout ^ (depth - ℓ) / fanout = k / fanout ^ (depth + 1 - ℓ) := by
      rw [div_pow_div_fanout, show depth - ℓ + 1 = depth + 1 - ℓ by omega]
    have differs : k / fanout ^ (depth - ℓ) / fanout ≠ p := by
      rw [ancestor]
      exact fun same => other (by rw [same])
    rcases Nat.lt_or_ge (k / fanout ^ (depth - ℓ)) (fanout * p) with before | after
    · exact (blockSums_set_of_lt before).symm
    · rw [blockSums_set after, List.set_eq_of_length_le]
      rw [length_blockSums]
      rw [fanout_eq] at differs after ⊢
      omega

end Represents

theorem updateAncestors_zero (update : UInt64 → Option UInt64) (tree : List Node) :
    updateAncestors update tree 0 = some tree := by
  rw [updateAncestors, if_pos rfl]

/-- One round of the walk, from node `q` on level `ℓ + 1`: its entry in its parent, node
`q / FANOUT` of level `ℓ`, is updated, and the walk goes on from the parent. -/
theorem updateAncestors_succ {update : UInt64 → Option UInt64} {tree : List Node} {ℓ q : Nat}
    {node : Node} {entry : UInt64}
    (found : tree[levelStart fanout ℓ + q / fanout]? = some node)
    (updated : update (node.get ⟨q % fanout, Nat.mod_lt q fanout_pos⟩) = some entry) :
    updateAncestors update tree (levelStart fanout (ℓ + 1) + q) =
      updateAncestors update
        (tree.set (levelStart fanout ℓ + q / fanout)
          (node.set (q % fanout) entry (Nat.mod_lt q fanout_pos)))
        (levelStart fanout ℓ + q / fanout) := by
  have moving : levelStart fanout (ℓ + 1) + q ≠ 0 := by
    rw [levelStart_succ]
    omega
  rw [updateAncestors, if_neg moving]
  simp only [parent_index, offset_index, found, updated]

section Walk

variable {update : UInt64 → Option UInt64} {tree : List Node} {vs : List Nat} {depth k x : Nat}

/-- What the walk from leaf `k` needs of `update` to write `x` at `k`: it turns the weight under
each ancestor of `k` into the weight under it after the write. -/
def UpdatesTo (update : UInt64 → Option UInt64) (vs : List Nat) (depth k x : Nat) : Prop :=
  ∀ ℓ ≤ depth, ∀ entry : UInt64,
    entry.toNat = blockSum vs (fanout ^ (depth - ℓ)) (k / fanout ^ (depth - ℓ)) →
      ∃ entry', update entry = some entry' ∧
        entry'.toNat = blockSum (vs.set k x) (fanout ^ (depth - ℓ)) (k / fanout ^ (depth - ℓ))

/-- The walk from the ancestor of leaf `k` on level `level` to the root: the levels from `level`
down already describe the weights with `x` at `k`, the levels above still the weights before,
and the walk brings every level to the weights after. -/
theorem updateAncestors_walk
    (length_tree : tree.length = levelStart fanout depth + (vs.length + fanout - 1) / fanout)
    (length_le : vs.length ≤ fanout ^ (depth + 1)) (leaf : k < vs.length)
    (updates : UpdatesTo update vs depth k x) (level : Nat) (reach : level ≤ depth + 1)
    (current : List Node) (same_length : current.length = tree.length)
    (above : ∀ ℓ < level, SlotsAt current vs depth ℓ)
    (below : ∀ ℓ ≤ depth, level ≤ ℓ → SlotsAt current (vs.set k x) depth ℓ) :
    ∃ final, updateAncestors update current
        (levelStart fanout level + k / fanout ^ (depth + 1 - level)) = some final ∧
      final.length = tree.length ∧ ∀ ℓ ≤ depth, SlotsAt final (vs.set k x) depth ℓ := by
  induction level generalizing current with
  | zero =>
    have root : k / fanout ^ (depth + 1 - 0) = 0 := Nat.div_eq_of_lt (by rw [Nat.sub_zero]; omega)
    rw [levelStart_zero, root, updateAncestors_zero]
    exact ⟨current, rfl, same_length, fun ℓ level => below ℓ level (Nat.zero_le ℓ)⟩
  | succ level ih =>
    -- the walk stands at the ancestor `q` of `k` on level `level + 1`
    rw [show depth + 1 - (level + 1) = depth - level by omega]
    have parent : k / fanout ^ (depth - level) / fanout = k / fanout ^ (depth + 1 - level) := by
      rw [div_pow_div_fanout, show depth - level + 1 = depth + 1 - level by omega]
    have place : k / fanout ^ (depth + 1 - level) < fanout ^ level := by
      rw [Nat.div_lt_iff_lt_mul (Nat.pow_pos fanout_pos), ← Nat.pow_add,
        show level + (depth + 1 - level) = depth + 1 by omega]
      omega
    have covers : k / fanout ^ (depth + 1 - level) * fanout ^ (depth + 1 - level) < vs.length :=
      Nat.lt_of_le_of_lt (Nat.div_mul_le_self _ _) leaf
    have inside := allocated (same_length ▸ length_tree) (by omega) place covers
    obtain ⟨node, found⟩ : ∃ node, current[levelStart fanout level +
        k / fanout ^ (depth - level) / fanout]? = some node :=
      ⟨_, List.getElem?_eq_getElem (by rwa [parent])⟩
    have entries := above level (Nat.lt_succ_self level) _ node place (by rwa [← parent])
    have old := (above level (Nat.lt_succ_self level)).entry place (by rwa [← parent])
      ⟨k / fanout ^ (depth - level) % fanout, Nat.mod_lt _ fanout_pos⟩
    rw [← parent, Nat.div_add_mod] at old
    obtain ⟨entry, updated, new⟩ := updates level (by omega) _ old
    have written : (node.set (k / fanout ^ (depth - level) % fanout) entry
        (Nat.mod_lt _ fanout_pos)).toList.map UInt64.toNat =
        blockSums (vs.set k x) (fanout ^ (depth - level))
          (fanout * (k / fanout ^ (depth + 1 - level))) fanout := by
      have offset : k / fanout ^ (depth - level) - fanout * (k / fanout ^ (depth + 1 - level)) =
          k / fanout ^ (depth - level) % fanout := by
        rw [← parent, Nat.mod_def]
      have fromStart : fanout * (k / fanout ^ (depth + 1 - level)) ≤ k / fanout ^ (depth - level) := by
        rw [← parent]
        exact Nat.mul_div_le _ _
      rw [Vector.toList_set, List.map_set, entries, new, blockSums_set fromStart, offset]
    rw [updateAncestors_succ found updated, parent]
    apply ih (by omega)
    · rw [List.length_set, same_length]
    · intro ℓ lower
      exact (above ℓ (by omega)).set_other (by omega) place
    · intro ℓ level' higher
      rcases Nat.eq_or_lt_of_le higher with here | deeper
      · subst here
        exact (above level (Nat.lt_succ_self level)).set_ancestor level' place written
      · exact (below ℓ level' deeper).set_other (by omega) place

/-- The walk from leaf `k` up to the root writes `x` at `k` in every level of the tree. -/
theorem updateAncestors_spec
    (length_tree : tree.length = levelStart fanout depth + (vs.length + fanout - 1) / fanout)
    (length_le : vs.length ≤ fanout ^ (depth + 1)) (slots : ∀ ℓ ≤ depth, SlotsAt tree vs depth ℓ)
    (leaf : k < vs.length) (updates : UpdatesTo update vs depth k x) :
    ∃ tree', updateAncestors update tree (levelStart fanout (depth + 1) + k) = some tree' ∧
      tree'.length = tree.length ∧ ∀ ℓ ≤ depth, SlotsAt tree' (vs.set k x) depth ℓ := by
  have walk := updateAncestors_walk length_tree length_le leaf updates (depth + 1) le_rfl tree rfl
    (fun ℓ lower => slots ℓ (by omega)) (fun ℓ level higher => by omega)
  rwa [Nat.sub_self, Nat.pow_zero, Nat.div_one] at walk

end Walk

section Search

/-- The `find` in `search` stops at the first entry whose running sum passes `val`, and leaves
`val` less the entries before it. -/
theorem findEntry_spec (entries : List UInt64) (val : UInt64) (offset : Nat)
    (below : val.toNat < (entries.map UInt64.toNat).sum) :
    ∃ j, ∃ inside : j < entries.length, ∃ rest : UInt64,
      WeightedShuffle.findEntry val offset entries = some (offset + j, entries[j], rest) ∧
      rest.toNat + ((entries.map UInt64.toNat).take j).sum = val.toNat ∧
      val.toNat < ((entries.map UInt64.toNat).take (j + 1)).sum := by
  induction entries generalizing val offset with
  | nil => simp at below
  | cons entry entries ih =>
    rw [WeightedShuffle.findEntry]
    by_cases stops : val < entry
    · rw [if_pos stops]
      refine ⟨0, by simp, val, by simp, by simp, ?_⟩
      simpa [UInt64.lt_iff_toNat_lt] using stops
    · rw [if_neg stops]
      have passes : entry.toNat ≤ val.toNat := by
        simpa [UInt64.lt_iff_toNat_lt] using stops
      have less : (val - entry).toNat = val.toNat - entry.toNat :=
        UInt64.toNat_sub_of_le _ _ (UInt64.le_iff_toNat_le.mpr passes)
      simp only [List.map_cons, List.sum_cons] at below
      obtain ⟨j, inside, rest, found, spent, passed⟩ := ih (val - entry) (offset + 1) (by omega)
      refine ⟨j + 1, by simp [inside], rest, ?_, ?_, ?_⟩
      · rw [found, Nat.add_assoc, Nat.add_comm 1 j]
        rfl
      · simp only [List.map_cons, List.take_succ_cons, List.sum_cons]
        omega
      · simp only [List.map_cons, List.take_succ_cons, List.sum_cons]
        omega

variable {shuffle : WeightedShuffle} {vs : List Nat} {depth : Nat}

/-- One level of the descent: at node `p` of level `ℓ`, the `find` picks the child `j` whose block
brackets `v`, and the loop moves to that child. -/
theorem searchLoop_step (represents : Represents shuffle vs depth) {v ℓ p : Nat} {val : UInt64}
    (level : ℓ ≤ depth) (place : p < fanout ^ ℓ)
    (passed : val.toNat + prefixSum vs (p * fanout ^ (depth + 1 - ℓ)) = v)
    (within : v < prefixSum vs ((p + 1) * fanout ^ (depth + 1 - ℓ))) :
    ∃ j < fanout, ∃ entry rest : UInt64,
      rest.toNat + prefixSum vs ((fanout * p + j) * fanout ^ (depth - ℓ)) = v ∧
      v < prefixSum vs ((fanout * p + j + 1) * fanout ^ (depth - ℓ)) ∧
      entry.toNat = blockSum vs (fanout ^ (depth - ℓ)) (fanout * p + j) ∧
      shuffle.searchLoop val (levelStart fanout ℓ + p) =
        if shuffle.tree.length ≤ levelStart fanout (ℓ + 1) + (fanout * p + j) then
          if shuffle.numNodes ≤ levelStart fanout (ℓ + 1) + (fanout * p + j) then
            some (levelStart fanout (ℓ + 1) + (fanout * p + j) - shuffle.numNodes, entry)
          else none
        else shuffle.searchLoop rest (levelStart fanout (ℓ + 1) + (fanout * p + j)) := by
  have span : fanout * p * fanout ^ (depth - ℓ) = p * fanout ^ (depth + 1 - ℓ) := by
    rw [show depth + 1 - ℓ = depth - ℓ + 1 by omega, Nat.pow_succ]
    ring
  have ends : (fanout * p + fanout) * fanout ^ (depth - ℓ) = (p + 1) * fanout ^ (depth + 1 - ℓ) := by
    rw [show depth + 1 - ℓ = depth - ℓ + 1 by omega, Nat.pow_succ]
    ring
  have covers : p * fanout ^ (depth + 1 - ℓ) < vs.length :=
    lt_length_of_prefixSum_lt (n := (p + 1) * fanout ^ (depth + 1 - ℓ)) (by omega)
  have inside := allocated represents.length_tree level place covers
  obtain ⟨node, found⟩ : ∃ node, shuffle.tree[levelStart fanout ℓ + p]? = some node :=
    ⟨_, List.getElem?_eq_getElem inside⟩
  have entries := represents.slots ℓ level p node place found
  have whole := prefixSum_add_sum_blockSums vs (fanout ^ (depth - ℓ)) (fanout * p) fanout
  have below : val.toNat < (node.toList.map UInt64.toNat).sum := by
    rw [entries]
    rw [span, ends] at whole
    omega
  obtain ⟨j, inside', rest, foundEntry, spent, passes⟩ := findEntry_spec node.toList val 0 below
  have small : j < fanout := by simpa using inside'
  have before := prefixSum_add_sum_take_blockSums vs (fanout ^ (depth - ℓ)) (fanout * p) small.le
  have after := prefixSum_add_sum_take_blockSums vs (fanout ^ (depth - ℓ)) (fanout * p)
    (show j + 1 ≤ fanout from small)
  rw [entries] at spent passes
  rw [span] at before after
  rw [← Nat.add_assoc] at after
  refine ⟨j, small, node.toList[j], rest, by omega, by omega, ?_, ?_⟩
  · have entry := congrArg (·[j]?) entries
    simp only [List.getElem?_map, List.getElem?_eq_getElem inside', Option.map_some, blockSums,
      List.getElem?_range small, Option.some_inj] at entry
    exact entry
  · rw [WeightedShuffle.searchLoop]
    simp only [found, foundEntry, Nat.zero_add, child_index, dite_eq_ite]

/-- The descent of `search` from node `p` on level `ℓ`, with `val` what is left of the value `v`
once the leaves before the node are passed over: it ends at the leaf `k` whose prefix sums
bracket `v`, and returns its weight.  By induction on the levels left below the node. -/
theorem searchLoop_descends (represents : Represents shuffle vs depth) (v : Nat) (d : Nat) :
    ∀ ℓ p (val : UInt64), ℓ + d = depth → p < fanout ^ ℓ →
      val.toNat + prefixSum vs (p * fanout ^ (depth + 1 - ℓ)) = v →
      v < prefixSum vs ((p + 1) * fanout ^ (depth + 1 - ℓ)) →
      ∃ k w, shuffle.searchLoop val (levelStart fanout ℓ + p) = some (k, w) ∧
        vs[k]? = some w.toNat ∧ prefixSum vs k ≤ v ∧ v < prefixSum vs (k + 1) := by
  induction d with
  | zero =>
    intro ℓ p val bottom place passed within
    rw [Nat.add_zero] at bottom
    subst bottom
    obtain ⟨j, _, entry, rest, spent, passes, weighs, step⟩ :=
      searchLoop_step represents le_rfl place passed within
    -- the child is a leaf: past the allocated nodes and past the internal ones
    have pastTree := represents.length_tree_le
    rw [represents.numNodes_eq] at pastTree
    simp only [Nat.sub_self, Nat.pow_zero, Nat.mul_one] at spent passes weighs
    have leaf : fanout * p + j < vs.length :=
      lt_length_of_prefixSum_lt (n := fanout * p + j + 1) (by omega)
    refine ⟨fanout * p + j, entry, ?_, ?_, by omega, passes⟩
    · rw [step, if_pos (by omega), represents.numNodes_eq, if_pos (by omega), Nat.add_sub_cancel_left]
    · rw [weighs, blockSum_one_of_lt leaf, List.getElem?_eq_getElem leaf]
  | succ d ih =>
    intro ℓ p val above place passed within
    obtain ⟨j, child, entry, rest, spent, passes, _, step⟩ :=
      searchLoop_step represents (by omega) place passed within
    -- the child is an internal node, allocated since its block holds weight
    have span : depth + 1 - (ℓ + 1) = depth - ℓ := by omega
    have place' := child_place place child
    have covers : (fanout * p + j) * fanout ^ (depth + 1 - (ℓ + 1)) < vs.length := by
      rw [span]
      exact lt_length_of_prefixSum_lt (n := (fanout * p + j + 1) * fanout ^ (depth - ℓ)) (by omega)
    have inside := allocated represents.length_tree (by omega) place' covers
    rw [step, if_neg (by omega)]
    exact ih (ℓ + 1) (fanout * p + j) rest (by omega) place' (by rw [span]; exact spent)
      (by rw [span]; exact passes)

/-- `search` returns the smallest index whose prefix sum passes `val`, with its weight. -/
theorem search_spec (represents : Represents shuffle vs depth) {val : UInt64}
    (below : val < shuffle.weight) :
    ∃ k w, shuffle.search val = some (k, w) ∧ vs[k]? = some w.toNat ∧
      prefixSum vs k ≤ val.toNat ∧ val.toNat < prefixSum vs (k + 1) := by
  have total : prefixSum vs ((0 + 1) * fanout ^ (depth + 1 - 0)) = vs.sum :=
    prefixSum_of_length_le (by simpa using represents.length_le)
  have descent := searchLoop_descends represents val.toNat depth 0 0 val (Nat.zero_add _)
    (by simp) (by simp) (by rw [total, ← represents.weight_eq]; exact UInt64.lt_iff_toNat_lt.mp below)
  rw [levelStart_zero, Nat.zero_add] at descent
  rw [WeightedShuffle.search, if_pos below]
  exact descent

end Search

section Remove

variable {shuffle : WeightedShuffle} {vs : List Nat} {depth : Nat}

/-- `remove` of leaf `k` with all of its weight empties the leaf. -/
theorem remove_spec (represents : Represents shuffle vs depth) {k : Nat} {w : UInt64}
    (weighs : vs[k]? = some w.toNat) :
    ∃ shuffle', shuffle.remove k w = some shuffle' ∧ Represents shuffle' (vs.set k 0) depth ∧
      shuffle'.numNodes = shuffle.numNodes ∧ shuffle'.zeros = shuffle.zeros := by
  obtain ⟨inside, weighs⟩ := List.getElem?_eq_some_iff.mp weighs
  have total := sum_set_add (x := 0) inside
  have covered : w ≤ shuffle.weight := by
    rw [UInt64.le_iff_toNat_le, represents.weight_eq]
    omega
  -- each ancestor's entry holds all of the leaf's weight, so the debug assertion holds
  have updates : UpdatesTo (fun entry => if w ≤ entry then some (entry - w) else none) vs depth k 0 := by
    intro ℓ _ entry holds
    have block := blockSum_set_of_eq (x := 0) (Nat.pow_pos fanout_pos (n := depth - ℓ)) inside rfl
    have enough : w ≤ entry := by
      rw [UInt64.le_iff_toNat_le]
      omega
    refine ⟨entry - w, by simp only [enough, if_true], ?_⟩
    rw [UInt64.toNat_sub_of_le _ _ enough]
    omega
  obtain ⟨tree, walked, length_tree, slots⟩ := updateAncestors_spec represents.length_tree
    represents.length_le represents.slots inside updates
  refine ⟨{ shuffle with tree, weight := shuffle.weight - w }, ?_, ?_, rfl, rfl⟩
  · rw [WeightedShuffle.remove, if_pos covered, represents.numNodes_eq, walked]
    rfl
  · refine ⟨represents.numNodes_eq, ?_, by simpa using represents.length_le, slots, ?_⟩
    · rw [length_tree, represents.length_tree, List.length_set]
    · rw [UInt64.toNat_sub_of_le _ _ covered, represents.weight_eq]
      omega

end Remove

section New

/-- Where `new`'s loop stands after the weights before leaf `kept.length`: the tree holds `kept`
on those leaves and nothing on the others, and `zeros` lists the empty ones among them. -/
structure Building (shuffle : WeightedShuffle) (kept : List Nat) (count depth : Nat) : Prop where
  represents : Represents shuffle (kept ++ List.replicate (count - kept.length) 0) depth
  length_le : kept.length ≤ count
  zeros_eq : shuffle.zeros = zeroIndices kept

variable {shuffle : WeightedShuffle} {kept : List Nat} {count depth : Nat}

theorem Building.weight_eq (building : Building shuffle kept count depth) :
    shuffle.weight.toNat = kept.sum := by
  rw [building.represents.weight_eq]
  simp [List.sum_replicate]

/-- A leaf left empty: the tree stays as it is. -/
theorem Building.skip (building : Building shuffle kept count depth) (room : kept.length < count) :
    Building { shuffle with zeros := shuffle.zeros ++ [kept.length] } (kept ++ [0]) count depth := by
  have leaves : kept ++ List.replicate (count - kept.length) 0 =
      kept ++ [0] ++ List.replicate (count - (kept ++ [0]).length) 0 := by
    rw [List.append_assoc, List.singleton_append, List.length_append, List.length_singleton,
      ← List.replicate_succ, show count - (kept.length + 1) + 1 = count - kept.length by omega]
  refine ⟨?_, by simp; omega, ?_⟩
  · rw [← leaves]
    exact building.represents.setZeros _
  · rw [zeroIndices_append_single, if_pos rfl, building.zeros_eq]

/-- A weight added along the way from its leaf to the root. -/
theorem Building.add (building : Building shuffle kept count depth) (room : kept.length < count)
    {w : UInt64} (fits : kept.sum + w.toNat < 2 ^ 64) (nonzero : w ≠ 0) :
    ∃ tree, updateAncestors (fun entry => some (entry + w)) shuffle.tree
        (shuffle.numNodes + kept.length) = some tree ∧
      Building { shuffle with tree, weight := shuffle.weight + w } (kept ++ [w.toNat]) count depth := by
  set leaves := kept ++ List.replicate (count - kept.length) 0
  have represents := building.represents
  have length : leaves.length = count := by simp [leaves]; omega
  have inside : kept.length < leaves.length := by omega
  have empty : leaves[kept.length] = 0 := by simp [leaves]
  have written : leaves.set kept.length w.toNat =
      kept ++ [w.toNat] ++ List.replicate (count - (kept ++ [w.toNat]).length) 0 := by
    rw [List.set_append_right _ _ (Nat.le_refl _), Nat.sub_self, List.append_assoc,
      List.singleton_append, List.length_append, List.length_singleton]
    obtain ⟨r, hr⟩ : ∃ r, count - kept.length = r + 1 := ⟨count - kept.length - 1, by omega⟩
    rw [hr, List.replicate_succ, List.set_cons_zero, show count - (kept.length + 1) = r by omega]
  have leavesSum : leaves.sum = kept.sum := by simp [leaves, List.sum_replicate]
  have total := sum_set_add (x := w.toNat) inside
  -- the entries over the leaf gain `w`, and none of them passes the total
  have updates : UpdatesTo (fun entry => some (entry + w)) leaves depth kept.length w.toNat := by
    intro ℓ _ entry holds
    have block := blockSum_set_of_eq (x := w.toNat) (Nat.pow_pos fanout_pos (n := depth - ℓ))
      inside rfl
    have bounded := blockSum_le_sum (leaves.set kept.length w.toNat)
      (fanout ^ (depth - ℓ)) (kept.length / fanout ^ (depth - ℓ))
    refine ⟨entry + w, rfl, ?_⟩
    rw [toNat_add_of_lt (by omega)]
    omega
  obtain ⟨tree, walked, length_tree, slots⟩ := updateAncestors_spec represents.length_tree
    represents.length_le represents.slots inside updates
  refine ⟨tree, by rw [represents.numNodes_eq]; exact walked, ⟨?_, by simp; omega, ?_⟩⟩
  · rw [← written]
    refine ⟨represents.numNodes_eq, ?_, by rw [List.length_set]; exact represents.length_le, slots, ?_⟩
    · rw [length_tree, represents.length_tree, List.length_set]
    · rw [toNat_add_of_lt (by rw [building.weight_eq]; exact fits), building.weight_eq]
      omega
  · have positive : w.toNat ≠ 0 := fun zero => nonzero (UInt64.toNat_inj.mp zero)
    rw [zeroIndices_append_single, if_neg positive, List.append_nil, ← building.zeros_eq]

/-- One round of `new`'s loop puts on the next leaf what `keep` says of its weight: a negative
weight cannot be, a zero or overflowing one leaves the leaf empty, any other is added. -/
theorem Building.addWeight (building : Building shuffle kept count depth)
    (room : kept.length < count) (w : UInt64) :
    ∃ shuffle', shuffle.addWeight (w, kept.length) = some shuffle' ∧
      Building shuffle' (kept ++ [keep kept.sum w]) count depth := by
  rw [WeightedShuffle.addWeight]
  simp only [UInt64.zero_le, not_true_eq_false, if_false]
  by_cases empty : w = 0
  · subst empty
    rw [if_pos rfl, keep_zero]
    exact ⟨_, rfl, building.skip room⟩
  · rw [if_neg empty]
    by_cases fits : kept.sum + w.toNat < 2 ^ 64
    · rw [checkedAdd_eq_some (by rw [building.weight_eq]; exact fits), keep_of_fits fits]
      obtain ⟨tree, walked, built⟩ := building.add room fits empty
      rw [walked]
      exact ⟨_, rfl, built⟩
    · rw [checkedAdd_eq_none (by rw [building.weight_eq]; omega), keep_of_overflow (by omega)]
      exact ⟨_, rfl, building.skip room⟩

/-- `new`'s loop over the weights from leaf `kept.length` on, by induction on those weights. -/
theorem Building.foldlM (weights : List UInt64) :
    ∀ shuffle kept, Building shuffle kept count depth → kept.length + weights.length = count →
      ∃ shuffle', (weights.zipIdx kept.length).foldlM WeightedShuffle.addWeight shuffle =
          some shuffle' ∧
        Building shuffle' (kept ++ keptWeights kept.sum weights) count depth := by
  induction weights with
  | nil =>
    intro shuffle kept building _
    exact ⟨shuffle, rfl, by simpa [keptWeights] using building⟩
  | cons w weights ih =>
    intro shuffle kept building filled
    simp only [List.length_cons] at filled
    obtain ⟨added, step, built⟩ := building.addWeight (by omega) w
    obtain ⟨final, rest, done⟩ := ih added _ built (by simp; omega)
    refine ⟨final, ?_, ?_⟩
    · rw [List.zipIdx_cons, List.foldlM_cons, step]
      simpa using rest
    · simpa [keptWeights] using done

/-- `new` builds the sum tree of the weights it keeps, with the empty leaves in `zeros`. -/
theorem new_spec (weights : List UInt64) :
    ∃ shuffle depth, WeightedShuffle.new weights = some shuffle ∧
      Represents shuffle (keptWeights 0 weights) depth ∧
      shuffle.zeros = zeroIndices (keptWeights 0 weights) := by
  obtain ⟨depth, sizes, fits, _⟩ := getNumNodesAndTreeSize_spec weights.length
  have room := treeSize_le fits
  have start : Building ⟨levelStart fanout (depth + 1),
      List.replicate (levelStart fanout depth + (weights.length + fanout - 1) / fanout)
        (Vector.replicate fanout 0), 0, []⟩ [] weights.length depth := by
    refine ⟨⟨rfl, by simp, by simpa using fits, ?_, by simp⟩, by simp, rfl⟩
    intro ℓ _ p node _ found
    rw [List.getElem?_replicate] at found
    split at found
    · cases found
      simp [Vector.toList_replicate]
    · cases found
  obtain ⟨shuffle, folded, built⟩ := start.foldlM weights _ _ (by simp)
  refine ⟨shuffle, depth, ?_, ?_, ?_⟩
  · rw [WeightedShuffle.new]
    simp only [sizes]
    rw [if_pos (by rw [← levelStart_add_pow]; omega)]
    exact folded
  · simpa using built.represents
  · simpa using built.zeros_eq

end New

section RemoveIndex

variable {shuffle : WeightedShuffle} {vs : List Nat} {depth : Nat}

theorem removeZero_eq (shuffle : WeightedShuffle) (k : Nat) :
    shuffle.removeZero k = { shuffle with zeros := shuffle.zeros.erase k } := by
  rw [WeightedShuffle.removeZero, List.erase_eq_eraseIdx]
  cases found : shuffle.zeros.findIdx? (· == k) with
  | none => simp [List.idxOf?, found]
  | some index => simp [List.idxOf?, found]

theorem set_zero_of_getD {k : Nat} (empty : vs.getD k 0 = 0) : vs.set k 0 = vs := by
  rcases Nat.lt_or_ge k vs.length with inside | past
  · rw [List.getD_eq_getElem?_getD, List.getElem?_eq_getElem inside, Option.getD_some] at empty
    rw [← empty, List.set_getElem_self]
  · exact List.set_eq_of_length_le past

/-- `remove_index k` empties leaf `k`: through `remove` when it holds weight, by taking `k` out of
`zeros` when it is empty, and not at all when it is past the tree. -/
theorem removeIndex_spec (represents : Represents shuffle vs depth)
    (listed : ∀ z ∈ shuffle.zeros, z < vs.length) (k : Nat) :
    ∃ shuffle', shuffle.removeIndex k = some shuffle' ∧ Represents shuffle' (vs.set k 0) depth ∧
      shuffle'.zeros = if vs.getD k 0 = 0 then shuffle.zeros.erase k else shuffle.zeros := by
  rw [WeightedShuffle.removeIndex]
  simp only [represents.numNodes_eq, parent_index, offset_index]
  cases found : shuffle.tree[levelStart fanout depth + k / fanout]? with
  | none =>
    -- the leaf's parent is not allocated, so no weight lies at `k`
    have past : vs.length ≤ k := by
      by_contra inside
      have place : k / fanout < fanout ^ depth := by
        rw [Nat.div_lt_iff_lt_mul fanout_pos, ← Nat.pow_succ]
        exact Nat.lt_of_lt_of_le (by omega) represents.length_le
      have covers : k / fanout * fanout ^ (depth + 1 - depth) < vs.length := by
        rw [show depth + 1 - depth = 1 by omega, Nat.pow_one]
        exact Nat.lt_of_le_of_lt (Nat.div_mul_le_self k fanout) (by omega)
      have := allocated represents.length_tree le_rfl place covers
      rw [List.getElem?_eq_getElem this] at found
      cases found
    have absent : k ∉ shuffle.zeros := fun listedK => by
      have := listed k listedK
      omega
    have empty : vs.getD k 0 = 0 := by
      rw [List.getD_eq_getElem?_getD, List.getElem?_eq_none past, Option.getD_none]
    refine ⟨shuffle, rfl, by rw [List.set_eq_of_length_le past]; exact represents, ?_⟩
    rw [if_pos empty, List.erase_of_not_mem absent]
  | some node =>
    have inside := (List.getElem?_eq_some_iff.mp found).1
    have bounded := represents.length_tree_le
    rw [represents.numNodes_eq, ← levelStart_add_pow] at bounded
    have place : k / fanout < fanout ^ depth := by omega
    have weighs := (represents.slots depth le_rfl).entry place found
      ⟨k % fanout, Nat.mod_lt k fanout_pos⟩
    rw [Nat.sub_self, Nat.pow_zero, Nat.div_add_mod, blockSum_one] at weighs
    simp only
    by_cases zero : node.get ⟨k % fanout, Nat.mod_lt k fanout_pos⟩ = 0
    · have empty : vs.getD k 0 = 0 := by rw [← weighs, zero, UInt64.toNat_zero]
      rw [if_pos zero, removeZero_eq, if_pos empty]
      exact ⟨_, rfl, by rw [set_zero_of_getD empty]; exact represents.setZeros _, rfl⟩
    · have positive : vs.getD k 0 ≠ 0 := by
        rw [← weighs]
        exact fun none => zero (UInt64.toNat_inj.mp (by rw [none, UInt64.toNat_zero]))
      have leaf : k < vs.length := by
        by_contra past
        rw [List.getD_eq_getElem?_getD, List.getElem?_eq_none (by omega), Option.getD_none] at positive
        exact positive rfl
      have held : vs[k]? = some (node.get ⟨k % fanout, Nat.mod_lt k fanout_pos⟩).toNat := by
        rw [weighs, List.getD_eq_getElem?_getD, List.getElem?_eq_getElem leaf, Option.getD_some]
      obtain ⟨shuffle', removed, represents', _, zeros⟩ := remove_spec represents held
      rw [if_neg zero, if_neg positive]
      exact ⟨shuffle', removed, represents', zeros⟩

end RemoveIndex

end Validator.Gossip
