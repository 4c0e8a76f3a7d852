import Validator.Gossip.WeightedShuffleSpec

namespace Validator.Gossip

open Validator.Data

/-! # The weighted shuffle implements its pool

`Refines shuffle pool`: the tree of `shuffle` is the sum tree of the pool's weights and its
`zeros` are the pool's.  `new` starts in this relation to the pool of its weights, and each call
keeps it, returning what the pool returns (`Refines.removeIndex`, `Refines.next`): so every run of
calls on a `WeightedShuffle` is a run of its pool, with the same items drawn, and no call along it
fails.
-/

/-- `shuffle` implements `pool`. -/
structure Refines (shuffle : WeightedShuffle) (pool : Pool) : Prop where
  represents : ∃ depth, Represents shuffle pool.weights depth
  zeros_eq : shuffle.zeros = pool.zeros

variable {σ : Type} {shuffle : WeightedShuffle} {pool : Pool}

theorem refines_new (weights : List UInt64) :
    ∃ shuffle, WeightedShuffle.new weights = some shuffle ∧
      Refines shuffle (Pool.ofWeights weights) := by
  obtain ⟨shuffle, depth, built, represents, zeros⟩ := new_spec weights
  exact ⟨shuffle, built, ⟨depth, represents⟩, zeros⟩

theorem Refines.weight_eq (refines : Refines shuffle pool) :
    shuffle.weight = UInt64.ofNat pool.weights.sum := by
  obtain ⟨depth, represents⟩ := refines.represents
  rw [← represents.weight_eq, UInt64.ofNat_toNat]

/-- `search` below the total finds the item the pool picks, with its weight. -/
theorem Refines.search (refines : Refines shuffle pool) {val : UInt64}
    (below : val < shuffle.weight) :
    ∃ k w, shuffle.search val = some (k, w) ∧ pick pool.weights val.toNat = some k ∧
      pool.weights[k]? = some w.toNat := by
  obtain ⟨depth, represents⟩ := refines.represents
  obtain ⟨k, w, found, weighs, after, before⟩ := search_spec represents below
  have inside := (List.getElem?_eq_some_iff.mp weighs).1
  exact ⟨k, w, found, pick_eq_some inside after before, weighs⟩

/-- `remove_index` implements the pool's. -/
theorem Refines.removeIndex (refines : Refines shuffle pool) (wellFormed : pool.WellFormed)
    (k : Nat) :
    ∃ shuffle', shuffle.removeIndex k = some shuffle' ∧ Refines shuffle' (pool.removeIndex k) := by
  obtain ⟨depth, represents⟩ := refines.represents
  have listed : ∀ z ∈ shuffle.zeros, z < pool.weights.length := by
    intro z member
    rw [refines.zeros_eq] at member
    exact (List.getElem?_eq_some_iff.mp (wellFormed.empty z member)).1
  obtain ⟨shuffle', removed, represents', zeros⟩ := removeIndex_spec represents listed k
  refine ⟨shuffle', removed, ⟨depth, represents'⟩, ?_⟩
  rw [zeros, refines.zeros_eq]
  split
  · rfl
  · -- an item of weight is not among the zeros
    next weighted =>
    have absent : k ∉ pool.zeros := fun member => weighted (by
      rw [List.getD_eq_getElem?_getD, wellFormed.empty k member, Option.getD_some])
    exact (List.erase_of_not_mem absent).symm

/-- One item of `shuffle(rng)` is the pool's next draw. -/
theorem Refines.next (refines : Refines shuffle pool) (sampler : Sampler σ) (rng : σ) :
    ∃ item shuffle' pool' rng', shuffle.next sampler rng = some (item, shuffle', rng') ∧
      pool.next sampler rng = some (item, pool', rng') ∧ Refines shuffle' pool' := by
  obtain ⟨depth, represents⟩ := refines.represents
  have total : shuffle.weight.toNat = pool.weights.sum := represents.weight_eq
  by_cases weighted : 0 < shuffle.weight
  · -- both draw the item of weight the same sample falls on
    have positive : 0 < pool.weights.sum := by
      rw [← total]
      exact UInt64.lt_iff_toNat_lt.mp weighted
    have below := sampler.sampleWeight_lt rng shuffle.weight weighted
    obtain ⟨k, w, found, picked, weighs⟩ := refines.search below
    obtain ⟨shuffle', removed, represents', _, zeros⟩ := remove_spec represents weighs
    refine ⟨some k, shuffle', ⟨pool.weights.set k 0, pool.zeros⟩,
      (sampler.sampleWeight rng shuffle.weight).2, ?_, ?_, ⟨depth, represents'⟩,
      by rw [zeros, refines.zeros_eq]⟩
    · rw [WeightedShuffle.next, if_pos weighted]
      simp only [found, removed, Option.map_some]
    · rw [Pool.next, if_pos positive, ← refines.weight_eq]
      simp only [picked, Option.map_some]
  · -- no weight is left: both take the same item of no weight
    have weightless : ¬ 0 < pool.weights.sum := by
      rw [← total]
      exact fun positive => weighted (UInt64.lt_iff_toNat_lt.mpr positive)
    rw [WeightedShuffle.next, if_neg weighted, Pool.next, if_neg weightless, refines.zeros_eq]
    by_cases empty : pool.zeros.isEmpty
    · rw [if_pos empty, if_pos empty]
      exact ⟨none, shuffle, pool, rng, rfl, rfl, refines⟩
    · rw [if_neg empty, if_neg empty]
      have inside := sampler.sampleIndex_lt rng pool.zeros.length
        (List.length_pos_iff.mpr (by simpa using empty))
      simp only [inside, dif_pos]
      exact ⟨_, _, _, _, rfl, rfl,
        ⟨⟨depth, represents.setZeros _⟩, rfl⟩⟩

/-- `first` returns what the next item of `shuffle(rng)` is, and leaves the generator as that
call does. -/
theorem Refines.first (refines : Refines shuffle pool) (sampler : Sampler σ) (rng : σ) :
    shuffle.first sampler rng =
      (shuffle.next sampler rng).map fun (item, _, rng') => (item, rng') := by
  obtain ⟨depth, represents⟩ := refines.represents
  by_cases weighted : 0 < shuffle.weight
  · have below := sampler.sampleWeight_lt rng shuffle.weight weighted
    obtain ⟨k, w, found, _, weighs⟩ := refines.search below
    obtain ⟨shuffle', removed, _⟩ := remove_spec represents weighs
    rw [WeightedShuffle.first, if_pos weighted, WeightedShuffle.next, if_pos weighted]
    simp only [found, removed, Option.map_some]
  · rw [WeightedShuffle.first, if_neg weighted, WeightedShuffle.next, if_neg weighted]
    by_cases empty : shuffle.zeros.isEmpty
    · rw [if_pos empty, if_pos empty]
      rfl
    · rw [if_neg empty, if_neg empty]
      have inside := sampler.sampleIndex_lt rng shuffle.zeros.length
        (List.length_pos_iff.mpr (by simpa using empty))
      simp only [inside, dif_pos, List.getElem?_eq_getElem inside, Option.map_some]

section Runs

/-- A call on a weighted shuffle with what it returns: `remove_index(k)`, or one item of
`shuffle(rng)`. -/
inductive Call where
  | removeIndex (k : Nat)
  | next (item : Option Nat)
deriving DecidableEq, Repr

/-- The calls on a `WeightedShuffle` and the generator it draws from. -/
def WeightedShuffle.Step (sampler : Sampler σ) :
    WeightedShuffle × σ → Call → WeightedShuffle × σ → Prop
  | (shuffle, rng), .removeIndex k, (shuffle', rng') =>
    shuffle.removeIndex k = some shuffle' ∧ rng' = rng
  | (shuffle, rng), .next item, (shuffle', rng') =>
    shuffle.next sampler rng = some (item, shuffle', rng')

/-- The same calls on a pool. -/
def Pool.Step (sampler : Sampler σ) : Pool × σ → Call → Pool × σ → Prop
  | (pool, rng), .removeIndex k, (pool', rng') => pool' = pool.removeIndex k ∧ rng' = rng
  | (pool, rng), .next item, (pool', rng') => pool.next sampler rng = some (item, pool', rng')

/-- A run of calls from a shuffle implementing a well-formed pool is a run of the pool with the
same calls and items, and ends in a shuffle implementing the pool's end.  By induction on the
run, one call at a time. -/
theorem Run.refines (sampler : Sampler σ) {start : WeightedShuffle × σ} {pool : Pool}
    (initial : Refines start.1 pool) (wellFormed : pool.WellFormed) {calls : List Call}
    {final : WeightedShuffle × σ} (run : Run (WeightedShuffle.Step sampler) start calls final) :
    ∃ pool', Run (Pool.Step sampler) (pool, start.2) calls (pool', final.2) ∧
      Refines final.1 pool' ∧ pool'.WellFormed := by
  induction run with
  | nil => exact ⟨pool, Run.nil _, initial, wellFormed⟩
  | @snoc middle finish calls call _ step ih =>
    obtain ⟨pool', poolRun, refines, formed⟩ := ih
    obtain ⟨shuffle, rng⟩ := middle
    obtain ⟨shuffle', rng'⟩ := finish
    cases call with
    | removeIndex k =>
      obtain ⟨removed, same⟩ := step
      obtain ⟨shuffle'', removed', refines'⟩ := refines.removeIndex formed k
      rw [removed] at removed'
      cases removed'
      subst same
      exact ⟨pool'.removeIndex k, Run.snoc poolRun ⟨rfl, rfl⟩, refines', formed.removeIndex k⟩
    | next item =>
      obtain ⟨item', shuffle'', pool'', rng'', drawn, poolDrawn, refines'⟩ :=
        refines.next sampler rng
      have drawn' : shuffle.next sampler rng = some (item, shuffle', rng') := step
      rw [drawn'] at drawn
      cases drawn
      exact ⟨pool'', Run.snoc poolRun poolDrawn, refines', (formed.next poolDrawn).1⟩

/-- Every run of calls on the `WeightedShuffle` that `new` builds is a run of the pool of its
weights, with the same calls and the same items drawn, ending in a shuffle that implements where
the pool's run ends. -/
theorem runs_refine_pool (sampler : Sampler σ) (weights : List UInt64) (rng : σ) :
    ∃ shuffle, WeightedShuffle.new weights = some shuffle ∧
      ∀ calls final, Run (WeightedShuffle.Step sampler) (shuffle, rng) calls final →
        ∃ pool, Run (Pool.Step sampler) (Pool.ofWeights weights, rng) calls (pool, final.2) ∧
          Refines final.1 pool := by
  obtain ⟨shuffle, built, refines⟩ := refines_new weights
  refine ⟨shuffle, built, fun calls final run => ?_⟩
  obtain ⟨pool, poolRun, refines', _⟩ :=
    Run.refines sampler refines (Pool.wellFormed_ofWeights weights) run
  exact ⟨pool, poolRun, refines'⟩

/-- No call on a `WeightedShuffle` that `new` builds ever fails, whatever calls came before: no
out-of-bounds access, failed `unwrap`, underflow or failed debug assertion in `remove_index`, in
an item of `shuffle`, or in `first`, with any generator. -/
theorem calls_never_fail (sampler : Sampler σ) (weights : List UInt64) (rng : σ) :
    ∃ shuffle, WeightedShuffle.new weights = some shuffle ∧
      ∀ calls final, Run (WeightedShuffle.Step sampler) (shuffle, rng) calls final →
        (∀ k, (final.1.removeIndex k).isSome) ∧
        ∀ {τ : Type} (sampler' : Sampler τ) (rng' : τ),
          (final.1.next sampler' rng').isSome ∧ (final.1.first sampler' rng').isSome := by
  obtain ⟨shuffle, built, refines⟩ := refines_new weights
  refine ⟨shuffle, built, fun calls final run => ?_⟩
  obtain ⟨pool, _, refines', wellFormed⟩ :=
    Run.refines sampler refines (Pool.wellFormed_ofWeights weights) run
  refine ⟨fun k => ?_, fun sampler' rng' => ?_⟩
  · obtain ⟨shuffle', removed, _⟩ := refines'.removeIndex wellFormed k
    rw [removed]
    rfl
  · obtain ⟨item, shuffle', _, rng'', drawn, _⟩ := refines'.next sampler' rng'
    rw [refines'.first, drawn]
    exact ⟨rfl, rfl⟩

/-- Along every run, `search` of a value below the total returns the smallest index whose prefix
sum of the weights left passes the value, and the weight left at that index. -/
theorem search_finds_smallest_index (sampler : Sampler σ) (weights : List UInt64) (rng : σ) :
    ∃ shuffle, WeightedShuffle.new weights = some shuffle ∧
      ∀ calls final, Run (WeightedShuffle.Step sampler) (shuffle, rng) calls final →
        ∃ pool, Run (Pool.Step sampler) (Pool.ofWeights weights, rng) calls (pool, final.2) ∧
          ∀ val, val < final.1.weight → ∃ k w, final.1.search val = some (k, w) ∧
            prefixSum pool.weights k ≤ val.toNat ∧ val.toNat < prefixSum pool.weights (k + 1) ∧
            pool.weights[k]? = some w.toNat := by
  obtain ⟨shuffle, built, refines⟩ := refines_new weights
  refine ⟨shuffle, built, fun calls final run => ?_⟩
  obtain ⟨pool, poolRun, refines', _⟩ :=
    Run.refines sampler refines (Pool.wellFormed_ofWeights weights) run
  refine ⟨pool, poolRun, fun val below => ?_⟩
  obtain ⟨k, w, found, picked, weighs⟩ := refines'.search below
  obtain ⟨_, after, before⟩ := pick_spec picked
  exact ⟨k, w, found, after, before, weighs⟩

/-- Along every run, `first` returns the item the next call of `shuffle` would, and leaves the
generator where that call would. -/
theorem first_matches_shuffle (sampler : Sampler σ) (weights : List UInt64) (rng : σ) :
    ∃ shuffle, WeightedShuffle.new weights = some shuffle ∧
      ∀ calls final, Run (WeightedShuffle.Step sampler) (shuffle, rng) calls final →
        ∀ rng', final.1.first sampler rng' =
          (final.1.next sampler rng').map fun (item, _, rng'') => (item, rng'') := by
  obtain ⟨shuffle, built, refines⟩ := refines_new weights
  refine ⟨shuffle, built, fun calls final run rng' => ?_⟩
  obtain ⟨pool, _, refines', _⟩ :=
    Run.refines sampler refines (Pool.wellFormed_ofWeights weights) run
  exact refines'.first sampler rng'

end Runs

section Collect

/-- Draining a shuffle that implements a pool draws what draining the pool draws. -/
theorem Refines.collect (refines : Refines shuffle pool) (sampler : Sampler σ) {fuel : Nat}
    {rng : σ} {items : List Nat} {final : Pool × σ}
    (drained : drain (fun state : Pool × σ => state.1.next sampler state.2) fuel (pool, rng) =
      some (items, final)) :
    shuffle.collect sampler fuel rng = some (items, final.2) := by
  have lockstep := @drain_rel (WeightedShuffle × σ) Nat (Pool × σ)
    (fun state => state.1.next sampler state.2) (fun state => state.1.next sampler state.2)
    (fun a b => Refines a.1 b.1 ∧ a.2 = b.2)
    (by
      rintro ⟨shuffle, rng⟩ ⟨pool, rng'⟩ ⟨refines, rfl⟩
      obtain ⟨item, shuffle', pool', rng'', drawn, poolDrawn, refines'⟩ :=
        refines.next sampler rng
      exact ⟨item, (shuffle', rng''), (pool', rng''), drawn, poolDrawn, refines', rfl⟩)
    fuel (shuffle, rng) (pool, rng) ⟨refines, rfl⟩
  rw [drained] at lockstep
  rw [WeightedShuffle.collect]
  generalize drain _ fuel (shuffle, rng) = concrete at lockstep ⊢
  cases lockstep with
  | @some result _ related =>
    obtain ⟨same, _, sameRng⟩ := related
    obtain ⟨items', final'⟩ := result
    simp only at same sameRng
    subst same
    simp only [Option.map_some, sameRng]

/-- `shuffle(rng).collect()` of the `WeightedShuffle` that `new` builds returns every index
of the weights once, those of some weight first and then those whose weight is zero or
overflows the total. -/
theorem collect_draws_each_index_once (sampler : Sampler σ) (weights : List UInt64) (rng : σ) :
    ∃ shuffle items rng', WeightedShuffle.new weights = some shuffle ∧
      shuffle.collect sampler (weights.length + 1) rng = some (items, rng') ∧
      items.Perm (List.range weights.length) ∧
      ∃ front back, items = front ++ back ∧
        (∀ k ∈ front, 0 < (keptWeights 0 weights).getD k 0) ∧
        (∀ k ∈ back, (keptWeights 0 weights).getD k 0 = 0) := by
  obtain ⟨shuffle, built, refines⟩ := refines_new weights
  have wellFormed := Pool.wellFormed_ofWeights weights
  obtain ⟨items, final, drained, _⟩ := Pool.drain_isSome_of_wellFormed sampler wellFormed rng
    (by rw [Pool.measure_ofWeights]; exact Nat.lt_succ_self _)
  obtain ⟨front, back, split, frontPerm, backPerm⟩ :=
    Pool.drain_perm sampler _ _ rng items final wellFormed drained
  refine ⟨shuffle, items, final.2, built, refines.collect sampler drained, ?_, front, back, split,
    ?_, ?_⟩
  · rw [split]
    exact (frontPerm.append backPerm).trans (Pool.positives_append_zeros_ofWeights weights)
  · intro k member
    obtain ⟨inside, positive⟩ := Pool.mem_positives.mp (frontPerm.subset member)
    change 0 < (Pool.ofWeights weights).weights.getD k 0
    rw [List.getD_eq_getElem?_getD, List.getElem?_eq_getElem inside, Option.getD_some]
    exact positive
  · intro k member
    have listed := wellFormed.empty k (backPerm.subset member)
    change (Pool.ofWeights weights).weights.getD k 0 = 0
    rw [List.getD_eq_getElem?_getD, listed, Option.getD_some]

end Collect

end Validator.Gossip
