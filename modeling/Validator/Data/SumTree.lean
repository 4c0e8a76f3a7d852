import Mathlib.Algebra.Order.BigOperators.Group.List
import Mathlib.Tactic.Ring

namespace Validator.Data

/-! # Implicit complete trees over block sums

A complete `B`-ary tree stored level by level in one array: level `ℓ` starts at
`levelStart B ℓ = 1 + B + ⋯ + B ^ (ℓ - 1)`, node `p` of level `ℓ` sits at `levelStart B ℓ + p`,
the children of the node at `index` sit at `B * index + 1 ..= B * index + B`, and so the parent of
`index` is `(index - 1) / B`, which keeps it at place `(index - 1) % B` among its children.

Under the tree lies a list of weights.  A node `d` levels above the leaves covers `B ^ d`
consecutive leaves, and the weight under it is the sum of that block (`blockSum`).  The lemmas
here are what the update and the descent of a sum tree need: block sums are differences of
prefix sums, the blocks of a node's children add up to its own, and writing one leaf changes the
blocks that contain it and no others.
-/

section Layout

variable (B : Nat)

/-- The index of the first node on level `ℓ`. -/
def levelStart : Nat → Nat
  | 0 => 0
  | ℓ + 1 => B * levelStart ℓ + 1

@[simp] theorem levelStart_zero : levelStart B 0 = 0 := rfl

theorem levelStart_succ (ℓ : Nat) : levelStart B (ℓ + 1) = B * levelStart B ℓ + 1 := rfl

/-- Level `ℓ` holds `B ^ ℓ` nodes. -/
theorem levelStart_add_pow (ℓ : Nat) : levelStart B ℓ + B ^ ℓ = levelStart B (ℓ + 1) := by
  induction ℓ with
  | zero => simp [levelStart]
  | succ ℓ ih =>
    calc levelStart B (ℓ + 1) + B ^ (ℓ + 1)
        = B * levelStart B ℓ + 1 + B * B ^ ℓ := by
          rw [levelStart_succ, Nat.pow_succ, Nat.mul_comm (B ^ ℓ)]
      _ = B * (levelStart B ℓ + B ^ ℓ) + 1 := by ring
      _ = levelStart B (ℓ + 1 + 1) := by rw [ih, levelStart_succ B (ℓ + 1)]

variable {B}

theorem levelStart_mono {ℓ m : Nat} (le : ℓ ≤ m) : levelStart B ℓ ≤ levelStart B m := by
  induction m, le using Nat.le_induction with
  | base => exact Nat.le_refl _
  | succ m _ ih =>
    have grows := levelStart_add_pow B m
    omega

/-- A node of level `ℓ` stands before every node of a deeper level. -/
theorem levelStart_add_lt {ℓ m p : Nat} (below : p < B ^ ℓ) (deeper : ℓ < m) :
    levelStart B ℓ + p < levelStart B m := by
  have next := levelStart_add_pow B ℓ
  have ordered := levelStart_mono (B := B) (show ℓ + 1 ≤ m by omega)
  omega

/-- Each index names one level and one place on it. -/
theorem levelStart_add_inj {ℓ m p q : Nat} (hp : p < B ^ ℓ) (hq : q < B ^ m)
    (same : levelStart B ℓ + p = levelStart B m + q) : ℓ = m ∧ p = q := by
  rcases Nat.lt_trichotomy ℓ m with shallower | equal | deeper
  · have := levelStart_add_lt hp shallower
    omega
  · subst equal
    omega
  · have := levelStart_add_lt hq deeper
    omega

theorem levelStart_pos {ℓ : Nat} (deep : 0 < ℓ) : 0 < levelStart B ℓ := by
  obtain ⟨ℓ, rfl⟩ := Nat.exists_eq_succ_of_ne_zero (Nat.pos_iff_ne_zero.mp deep)
  rw [levelStart_succ]
  omega

theorem levelStart_succ_add_sub_one (ℓ q : Nat) :
    levelStart B (ℓ + 1) + q - 1 = B * levelStart B ℓ + q := by
  rw [levelStart_succ]
  omega

/-- The parent of node `q` on level `ℓ + 1` is node `q / B` on level `ℓ`. -/
theorem parent_levelStart (hB : 0 < B) (ℓ q : Nat) :
    (levelStart B (ℓ + 1) + q - 1) / B = levelStart B ℓ + q / B := by
  rw [levelStart_succ_add_sub_one, Nat.mul_add_div hB]

/-- Node `q` on level `ℓ + 1` is child `q % B` of its parent. -/
theorem offset_levelStart (ℓ q : Nat) : (levelStart B (ℓ + 1) + q - 1) % B = q % B := by
  rw [levelStart_succ_add_sub_one, Nat.mul_add_mod]

/-- Child `j` of node `p` on level `ℓ` is node `B * p + j` on level `ℓ + 1`. -/
theorem child_levelStart (ℓ p j : Nat) :
    B * (levelStart B ℓ + p) + j + 1 = levelStart B (ℓ + 1) + (B * p + j) := by
  rw [levelStart_succ]
  ring

end Layout

section Blocks

/-- The sum of the first `n` weights, all of them once `n` is past the end. -/
def prefixSum (vs : List Nat) (n : Nat) : Nat := (vs.take n).sum

/-- The sum of block `q` of `span` consecutive weights. -/
def blockSum (vs : List Nat) (span q : Nat) : Nat := ((vs.drop (q * span)).take span).sum

/-- The sums of the `n` blocks from block `start` on. -/
def blockSums (vs : List Nat) (span start n : Nat) : List Nat :=
  (List.range n).map fun j => blockSum vs span (start + j)

variable {vs : List Nat}

@[simp] theorem prefixSum_zero : prefixSum vs 0 = 0 := by simp [prefixSum]

theorem prefixSum_of_length_le {n : Nat} (past : vs.length ≤ n) : prefixSum vs n = vs.sum := by
  rw [prefixSum, List.take_of_length_le past]

theorem prefixSum_add (m d : Nat) :
    prefixSum vs (m + d) = prefixSum vs m + ((vs.drop m).take d).sum := by
  rw [prefixSum, prefixSum, List.take_add, List.sum_append]

theorem prefixSum_mono {m n : Nat} (le : m ≤ n) : prefixSum vs m ≤ prefixSum vs n := by
  obtain ⟨d, rfl⟩ := Nat.exists_eq_add_of_le le
  rw [prefixSum_add]
  exact Nat.le_add_right _ _

theorem prefixSum_le_sum (vs : List Nat) (n : Nat) : prefixSum vs n ≤ vs.sum := by
  rw [← prefixSum_of_length_le (Nat.le_refl vs.length)]
  rcases Nat.le_total n vs.length with before | after
  · exact prefixSum_mono before
  · rw [prefixSum_of_length_le after, prefixSum_of_length_le (Nat.le_refl _)]

/-- Prefix sums grow only inside the list. -/
theorem lt_length_of_prefixSum_lt {m n : Nat} (grows : prefixSum vs m < prefixSum vs n) :
    m < vs.length := by
  by_contra past
  rw [prefixSum_of_length_le (by omega)] at grows
  exact absurd (prefixSum_le_sum vs n) (by omega)

/-- A block is what the prefix sums gain across it. -/
theorem prefixSum_add_blockSum (vs : List Nat) (span q : Nat) :
    prefixSum vs (q * span) + blockSum vs span q = prefixSum vs ((q + 1) * span) := by
  rw [blockSum, Nat.succ_mul, prefixSum_add]

theorem blockSum_one (k : Nat) : blockSum vs 1 k = vs.getD k 0 := by
  rw [blockSum, Nat.mul_one, List.getD_eq_getElem?_getD, List.take_one, List.head?_drop]
  cases vs[k]? <;> simp

theorem blockSum_one_of_lt {k : Nat} (inside : k < vs.length) : blockSum vs 1 k = vs[k] := by
  rw [blockSum_one, List.getD_eq_getElem?_getD, List.getElem?_eq_getElem inside, Option.getD_some]

theorem blockSum_eq_zero_of_length_le {span q : Nat} (past : vs.length ≤ q * span) :
    blockSum vs span q = 0 := by
  simp [blockSum, List.drop_eq_nil_of_le past]

@[simp] theorem blockSums_replicate_zero (count span start n : Nat) :
    blockSums (List.replicate count 0) span start n = List.replicate n 0 := by
  simp [blockSums, blockSum, List.drop_replicate, List.take_replicate, List.sum_replicate,
    List.map_const']

@[simp] theorem length_blockSums (span start n : Nat) : (blockSums vs span start n).length = n := by
  simp [blockSums]

theorem take_blockSums (span start n i : Nat) :
    (blockSums vs span start n).take i = blockSums vs span start (min i n) := by
  rw [blockSums, ← List.map_take, List.take_range, blockSums]

/-- Consecutive blocks add up to the prefix sums around them. -/
theorem prefixSum_add_sum_blockSums (vs : List Nat) (span start n : Nat) :
    prefixSum vs (start * span) + (blockSums vs span start n).sum =
      prefixSum vs ((start + n) * span) := by
  induction n with
  | zero => simp [blockSums]
  | succ n ih =>
    rw [blockSums, List.range_succ, List.map_append, List.sum_append, ← blockSums,
      ← Nat.add_assoc, ih]
    simp only [List.map_cons, List.map_nil, List.sum_cons, List.sum_nil, Nat.add_zero]
    rw [prefixSum_add_blockSum, Nat.add_assoc]

/-- The first `i` of a run of blocks add up to the prefix sums around them. -/
theorem prefixSum_add_sum_take_blockSums (vs : List Nat) (span start : Nat) {n i : Nat}
    (within : i ≤ n) :
    prefixSum vs (start * span) + ((blockSums vs span start n).take i).sum =
      prefixSum vs ((start + i) * span) := by
  rw [take_blockSums, Nat.min_eq_left within, prefixSum_add_sum_blockSums]

/-- The blocks of a node's `B` children add up to the node's own block. -/
theorem sum_blockSums_children (B span p : Nat) :
    (blockSums vs span (B * p) B).sum = blockSum vs (B * span) p := by
  have whole := prefixSum_add_sum_blockSums vs span (B * p) B
  have own := prefixSum_add_blockSum vs (B * span) p
  have starts : B * p * span = p * (B * span) := by ring
  have ends : (B * p + B) * span = (p + 1) * (B * span) := by ring
  rw [starts, ends] at whole
  omega

theorem blockSum_le_sum (vs : List Nat) (span q : Nat) : blockSum vs span q ≤ vs.sum := by
  have whole := prefixSum_add_blockSum vs span q
  have bounded := prefixSum_le_sum vs ((q + 1) * span)
  omega

section Write

variable {k x : Nat}

theorem prefixSum_set_of_le (vs : List Nat) (x : Nat) {n : Nat} (before : n ≤ k) :
    prefixSum (vs.set k x) n = prefixSum vs n := by
  rw [prefixSum, List.take_set_of_le before, prefixSum]

/-- A prefix that reaches past the written leaf gains what the leaf gained. -/
theorem prefixSum_set_of_lt {n : Nat} (inside : k < vs.length) (after : k < n) :
    prefixSum (vs.set k x) n + vs[k] = prefixSum vs n + x := by
  have within : k < (vs.take n).length := by simp [inside, after]
  have unchanged : (vs.take n).set k vs[k] = vs.take n := by
    rw [← List.take_set, List.set_getElem_self]
  have written := List.sum_set (vs.take n) k x
  have kept := List.sum_set (vs.take n) k vs[k]
  rw [unchanged] at kept
  rw [prefixSum, prefixSum, List.take_set, written]
  simp only [within, if_true] at kept ⊢
  omega

/-- Writing a leaf changes the total by what the leaf gained. -/
theorem sum_set_add (inside : k < vs.length) : (vs.set k x).sum + vs[k] = vs.sum + x := by
  have whole := prefixSum_set_of_lt (x := x) inside inside
  have past : (vs.set k x).length ≤ vs.length := by simp
  rw [prefixSum_of_length_le past, prefixSum_of_length_le (Nat.le_refl _)] at whole
  exact whole

/-- Writing a leaf leaves every block without it alone. -/
theorem blockSum_set_of_ne {span q : Nat} (outside : k / span ≠ q) :
    blockSum (vs.set k x) span q = blockSum vs span q := by
  have whole := prefixSum_add_blockSum vs span q
  have whole' := prefixSum_add_blockSum (vs.set k x) span q
  rcases Nat.lt_or_ge k (q * span) with before | after
  · -- the block lies after the leaf: both prefix sums gain the same
    rcases Nat.lt_or_ge k vs.length with inside | past
    · have low := prefixSum_set_of_lt (x := x) inside before
      have high := prefixSum_set_of_lt (x := x) inside
        (show k < (q + 1) * span by rw [Nat.succ_mul]; omega)
      omega
    · rw [List.set_eq_of_length_le past]
  · -- the block lies before the leaf
    have beyond : (q + 1) * span ≤ k := by
      rcases Nat.eq_zero_or_pos span with empty | positive
      · subst empty
        simp
      · by_contra inside
        exact outside ((Nat.div_eq_iff positive).mpr ⟨after, by rw [Nat.succ_mul] at inside; omega⟩)
    have low := prefixSum_set_of_le vs x after
    have high := prefixSum_set_of_le vs x beyond
    omega

/-- Writing a leaf changes the block containing it by what the leaf gained. -/
theorem blockSum_set_of_eq {span q : Nat} (positive : 0 < span) (inside : k < vs.length)
    (within : k / span = q) : blockSum (vs.set k x) span q + vs[k] = blockSum vs span q + x := by
  have bounds := (Nat.div_eq_iff positive).mp within
  have whole := prefixSum_add_blockSum vs span q
  have whole' := prefixSum_add_blockSum (vs.set k x) span q
  have low := prefixSum_set_of_le vs x bounds.1
  have high := prefixSum_set_of_lt (x := x) inside
    (show k < (q + 1) * span by rw [Nat.succ_mul]; omega)
  omega

/-- Writing a leaf leaves a run of blocks that starts after it alone. -/
theorem blockSums_set_of_lt {span start n : Nat} (before : k / span < start) :
    blockSums (vs.set k x) span start n = blockSums vs span start n := by
  simp only [blockSums, List.map_inj_left, List.mem_range]
  intro j _
  exact blockSum_set_of_ne (by omega)

/-- In a run of blocks from `start` on, writing a leaf rewrites the entry of its own block. -/
theorem blockSums_set {span start n : Nat} (fromStart : start ≤ k / span) :
    blockSums (vs.set k x) span start n =
      (blockSums vs span start n).set (k / span - start)
        (blockSum (vs.set k x) span (k / span)) := by
  apply List.ext_getElem
  · simp
  · intro j _ _
    simp only [List.getElem_set, blockSums, List.getElem_map, List.getElem_range]
    split
    · congr 1
      omega
    · exact blockSum_set_of_ne (by omega)

end Write

end Blocks

end Validator.Data
