import Mathlib.Algebra.Group.Nat.Defs
import Validator.Data.IndexMap
import Validator.Data.Trace

namespace Validator.Gossip

open Validator.Data

/-! # The weighted shuffle

`WeightedShuffle` of `gossip/src/weighted_shuffle.rs`, at the weight type every caller gives it,
`u64`.  The tree is a `Vec` of `[u64; FANOUT]` nodes laid out level by level: the children of
node `index` are `(index << BIT_SHIFT) + 1 ..= (index << BIT_SHIFT) + FANOUT`, and `tree[i][j]`
is the sum of the weights under the `j`'th child of node `i`.  Leaves are not stored: leaf `k` is
index `num_nodes + k`.  An out-of-bounds `get_unchecked`, a failed `unwrap`, an underflowing
`usize` subtraction, a panicking `swap_remove` and a failed debug assertion are `none`; `usize`
is `Nat`.  Randomness is a `Sampler`: the two `sample_single` calls the code makes, with the
range they promise.
-/

/-- `BIT_SHIFT`. -/
def bitShift : Nat := 4

/-- `FANOUT`. -/
def fanout : Nat := 1 <<< bitShift

/-- `BIT_MASK`. -/
def bitMask : Nat := fanout - 1

/-- A node of the tree: the weight under each of its `FANOUT` children. -/
abbrev Node := Vector UInt64 fanout

/-- `WeightedShuffle<u64>`. -/
structure WeightedShuffle where
  /-- The number of internal nodes of the tree. -/
  numNodes : Nat
  /-- The allocated internal nodes; nodes without children are never accessed. -/
  tree : List Node
  /-- The sum of all weights, less those already sampled. -/
  weight : UInt64
  /-- The indices of the zero weighted entries. -/
  zeros : List Nat
deriving DecidableEq, Repr

/-- `u64::checked_add`. -/
def checkedAdd (a b : UInt64) : Option UInt64 :=
  if a.toNat + b.toNat < 2 ^ 64 then some (a + b) else none

/-- The loop of `get_num_nodes_and_tree_size`: while `nodes * FANOUT < count`, one more level of
`nodes` nodes.  Each round multiplies `nodes` by `FANOUT`, so `count` rounds are more than the
loop takes. -/
def numNodesLoop (count : Nat) : Nat → Nat → Nat → Nat × Nat
  | 0, size, nodes => (size, nodes)
  | fuel + 1, size, nodes =>
    if nodes * fanout < count then numNodesLoop count fuel (size + nodes) (nodes * fanout)
    else (size, nodes)

/-- `get_num_nodes_and_tree_size`: the internal nodes of a tree whose leaves hold `count` items,
and how many of them have children. -/
def getNumNodesAndTreeSize (count : Nat) : Nat × Nat :=
  let (size, nodes) := numNodesLoop count count 0 1
  (size + nodes, size + (count + fanout - 1) / fanout)

theorem offset_lt_fanout (index : Nat) : (index - 1) &&& bitMask < fanout :=
  Nat.lt_of_le_of_lt Nat.and_le_right (by decide)

/-- The loop shared by `new` and `remove`: from node `index` up to the root, `update` the entry
for the subtree walked out of in each parent.  `update` returning `none` is a failed debug
assertion; a parent beyond the tree is `get_unchecked_mut` out of bounds. -/
def updateAncestors (update : UInt64 → Option UInt64) (tree : List Node) (index : Nat) :
    Option (List Node) :=
  if index = 0 then some tree
  else
    let offset := (index - 1) &&& bitMask
    let parent := (index - 1) >>> bitShift
    match tree[parent]? with
    | none => none
    | some node =>
      match update (node.get ⟨offset, offset_lt_fanout index⟩) with
      | none => none
      | some entry =>
        updateAncestors update (tree.set parent (node.set offset entry (offset_lt_fanout index)))
          parent
termination_by index
decreasing_by
  simp only [bitShift, Nat.shiftRight_eq_div_pow]
  omega

namespace WeightedShuffle

/-- One round of `new`'s loop over `weights.enumerate()`, with `weight` the running `sum`: a
weight that is negative, zero or overflows the sum goes to `zeros`, any other is added along the
way from its leaf to the root.  The counts of negative and overflowing weights only feed a
metric. -/
def addWeight (shuffle : WeightedShuffle) : UInt64 × Nat → Option WeightedShuffle
  | (weight, k) =>
    if ¬ 0 ≤ weight then some { shuffle with zeros := shuffle.zeros ++ [k] }
    else if weight = 0 then some { shuffle with zeros := shuffle.zeros ++ [k] }
    else
      match checkedAdd shuffle.weight weight with
      | none => some { shuffle with zeros := shuffle.zeros ++ [k] }
      | some sum =>
        (updateAncestors (fun entry => some (entry + weight)) shuffle.tree
          (shuffle.numNodes + k)).map fun tree => { shuffle with tree, weight := sum }

/-- `WeightedShuffle::new`. -/
def new (weights : List UInt64) : Option WeightedShuffle :=
  let (numNodes, size) := getNumNodesAndTreeSize weights.length
  if size ≤ numNodes then
    weights.zipIdx.foldlM addWeight
      { numNodes, tree := List.replicate size (Vector.replicate fanout 0), weight := 0, zeros := [] }
  else none

/-- `remove`: takes `weight` off the total and off every subtree from leaf `k` up. -/
def remove (shuffle : WeightedShuffle) (k : Nat) (weight : UInt64) : Option WeightedShuffle :=
  if weight ≤ shuffle.weight then
    (updateAncestors (fun entry => if weight ≤ entry then some (entry - weight) else none)
      shuffle.tree (shuffle.numNodes + k)).map
        fun tree => { shuffle with tree, weight := shuffle.weight - weight }
  else none

/-- The `find` over a node's entries in `search`: the first entry above `val`, with its offset
and with `val` less the entries passed over, as the closure leaves it. -/
def findEntry (val : UInt64) (offset : Nat) : List UInt64 → Option (Nat × UInt64 × UInt64)
  | [] => none
  | node :: nodes =>
    if val < node then some (offset, node, val) else findEntry (val - node) (offset + 1) nodes

/-- The loop of `search`, from node `index` down to the leaf. -/
def searchLoop (shuffle : WeightedShuffle) (val : UInt64) (index : Nat) : Option (Nat × UInt64) :=
  match shuffle.tree[index]? with
  | none => none
  | some node =>
    match findEntry val 0 node.toList with
    | none => none
    | some (offset, node, val) =>
      if leaf : shuffle.tree.length ≤ (index <<< bitShift) + offset + 1 then
        if shuffle.numNodes ≤ (index <<< bitShift) + offset + 1 then
          some ((index <<< bitShift) + offset + 1 - shuffle.numNodes, node)
        else none
      else searchLoop shuffle val ((index <<< bitShift) + offset + 1)
termination_by shuffle.tree.length - index
decreasing_by
  simp only [bitShift, Nat.shiftLeft_eq] at leaf ⊢
  omega

/-- `search`: the smallest index such that the sum of `weights[..=k]` is above `val`, with its
weight. -/
def search (shuffle : WeightedShuffle) (val : UInt64) : Option (Nat × UInt64) :=
  if val < shuffle.weight then searchLoop shuffle val 0 else none

/-- `remove_zero`. -/
def removeZero (shuffle : WeightedShuffle) (k : Nat) : WeightedShuffle :=
  match shuffle.zeros.findIdx? (· == k) with
  | some index => { shuffle with zeros := shuffle.zeros.eraseIdx index }
  | none => shuffle

/-- `remove_index`.  An index whose parent is past the tree is logged and ignored. -/
def removeIndex (shuffle : WeightedShuffle) (k : Nat) : Option WeightedShuffle :=
  let index := shuffle.numNodes + k
  let offset := (index - 1) &&& bitMask
  match shuffle.tree[(index - 1) >>> bitShift]? with
  | none => some shuffle
  | some node =>
    let weight := node.get ⟨offset, offset_lt_fanout index⟩
    if weight = 0 then some (shuffle.removeZero k) else shuffle.remove k weight

end WeightedShuffle

/-- The two `sample_single` calls on a generator state `σ`: a `u64` below a positive `high`, and
a `usize` below a positive `len`.  `UniformSampler::sample_single` stays inside the range it is
given; the last two fields say so. -/
structure Sampler (σ : Type) where
  sampleWeight : σ → UInt64 → UInt64 × σ
  sampleIndex : σ → Nat → Nat × σ
  sampleWeight_lt : ∀ rng high, 0 < high → (sampleWeight rng high).1 < high
  sampleIndex_lt : ∀ rng len, 0 < len → (sampleIndex rng len).1 < len

namespace WeightedShuffle

variable {σ : Type}

/-- `first`: the item `shuffle(rng).next()` would return, without changing the shuffle. -/
def first (shuffle : WeightedShuffle) (sampler : Sampler σ) (rng : σ) : Option (Option Nat × σ) :=
  if 0 < shuffle.weight then
    let (sample, rng) := sampler.sampleWeight rng shuffle.weight
    (shuffle.search sample).map fun (index, _) => (some index, rng)
  else if shuffle.zeros.isEmpty then some (none, rng)
  else
    let (index, rng) := sampler.sampleIndex rng shuffle.zeros.length
    some (shuffle.zeros[index]?, rng)

/-- One call of the iterator `shuffle` returns: the closure given to `std::iter::from_fn`. -/
def next (shuffle : WeightedShuffle) (sampler : Sampler σ) (rng : σ) :
    Option (Option Nat × WeightedShuffle × σ) :=
  if 0 < shuffle.weight then
    let (sample, rng) := sampler.sampleWeight rng shuffle.weight
    match shuffle.search sample with
    | none => none
    | some (index, weight) =>
      (shuffle.remove index weight).map fun shuffle => (some index, shuffle, rng)
  else if shuffle.zeros.isEmpty then some (none, shuffle, rng)
  else
    let (index, rng) := sampler.sampleIndex rng shuffle.zeros.length
    if inside : index < shuffle.zeros.length then
      some (some shuffle.zeros[index], { shuffle with zeros := swapRemoveAt shuffle.zeros index },
        rng)
    else none

/-- `shuffle(rng).collect::<Vec<_>>()`: the items of the iterator up to its first `None`, within
`fuel` calls, and the generator after them. -/
def collect (sampler : Sampler σ) (fuel : Nat) (shuffle : WeightedShuffle) (rng : σ) :
    Option (List Nat × σ) :=
  (drain (fun state : WeightedShuffle × σ => state.1.next sampler state.2) fuel (shuffle, rng)).map
    fun (items, final) => (items, final.2)

end WeightedShuffle

end Validator.Gossip
