import Validator.Gossip.WeightedShuffleRefinement

namespace Validator.Gossip

open Validator.Data

/-! # The tests' reference shuffle

`weighted_shuffle_slow` of the module's tests: while weight is left, a sample below the total
picks the first index whose running sum passes it, and that weight is set to zero; then the
indices of zero weight are drawn with `swap_remove`.  The tests run with overflow checks, so an
overflowing `u64` sum or subtraction panics, as does an out-of-bounds index or a failed `unwrap`:
all are `none`.  Each loop is given one round more than it can take.

The reference is the pool's drain once the sum fits a `u64` (`slowLoop_drains`), and so the
code's `shuffle(rng).collect()` returns what it returns, from the same generator.
-/

variable {σ : Type}

/-- `weights.iter().sum()`, which panics on overflow. -/
def sumChecked (weights : List UInt64) : Option UInt64 :=
  weights.foldlM checkedAdd 0

/-- `weights.iter().scan(0, |acc, &w| { *acc += w; Some(*acc) }).position(|acc| sample < acc)`
with its `unwrap`, from the running sum `acc`: an overflowing `+=` and a missing position
panic. -/
def slowPosition (sample acc : UInt64) : List UInt64 → Option Nat
  | [] => none
  | w :: weights =>
    match checkedAdd acc w with
    | none => none
    | some acc => if sample < acc then some 0 else (slowPosition sample acc weights).map (· + 1)

/-- The first loop of `weighted_shuffle_slow`, `while high != 0`, within `fuel` rounds. -/
def slowLoop (sampler : Sampler σ) :
    Nat → List UInt64 → UInt64 → σ → List Nat → Option (σ × List Nat)
  | 0, _, _, _, _ => none
  | fuel + 1, weights, high, rng, shuffle =>
    if high ≠ 0 then
      let (sample, rng) := sampler.sampleWeight rng high
      match slowPosition sample 0 weights with
      | none => none
      | some index =>
        match weights[index]? with
        | none => none
        | some weight =>
          if weight ≤ high then
            slowLoop sampler fuel (weights.set index 0) (high - weight) rng (shuffle ++ [index])
          else none
    else some (rng, shuffle)

/-- The second loop of `weighted_shuffle_slow`, `while !zeros.is_empty()`, within `fuel`
rounds. -/
def slowZeros (sampler : Sampler σ) : Nat → List Nat → σ → List Nat → Option (List Nat × σ)
  | 0, _, _, _ => none
  | fuel + 1, zeros, rng, shuffle =>
    if zeros.isEmpty then some (shuffle, rng)
    else
      let (index, rng) := sampler.sampleIndex rng zeros.length
      if inside : index < zeros.length then
        slowZeros sampler fuel (swapRemoveAt zeros index) rng (shuffle ++ [zeros[index]])
      else none

/-- `weighted_shuffle_slow`: the shuffle, and the generator after it. -/
def weightedShuffleSlow (sampler : Sampler σ) (rng : σ) (weights : List UInt64) :
    Option (List Nat × σ) :=
  match sumChecked weights with
  | none => none
  | some high =>
    let zeros := ((weights.zipIdx).filter fun entry => entry.1 == 0).map (·.2)
    match slowLoop sampler (weights.length + 1) weights high rng [] with
    | none => none
    | some (rng, shuffle) => slowZeros sampler (zeros.length + 1) zeros rng shuffle

section Reference

/-- The checked sum of weights whose sum fits is that sum. -/
theorem sumChecked_of_fits (weights : List UInt64) :
    ∀ acc : UInt64, acc.toNat + (weights.map UInt64.toNat).sum < 2 ^ 64 →
      ∃ high, weights.foldlM checkedAdd acc = some high ∧
        high.toNat = acc.toNat + (weights.map UInt64.toNat).sum := by
  induction weights with
  | nil => exact fun acc _ => ⟨acc, rfl, by simp⟩
  | cons w weights ih =>
    intro acc fits
    simp only [List.map_cons, List.sum_cons] at fits ⊢
    obtain ⟨high, folded, total⟩ := ih (acc + w) (by rw [toNat_add_of_lt (by omega)]; omega)
    refine ⟨high, ?_, by rw [total, toNat_add_of_lt (by omega)]; omega⟩
    rw [List.foldlM_cons, checkedAdd_eq_some (by omega)]
    exact folded

/-- The scan finds the first index whose running sum, from `acc`, passes the sample. -/
theorem slowPosition_eq_find (sample : UInt64) (weights : List UInt64) :
    ∀ acc : UInt64, acc.toNat + (weights.map UInt64.toNat).sum < 2 ^ 64 →
      slowPosition sample acc weights =
        (List.range weights.length).find? fun k =>
          sample.toNat < acc.toNat + prefixSum (weights.map UInt64.toNat) (k + 1) := by
  induction weights with
  | nil => intro acc _; rfl
  | cons w weights ih =>
    intro acc fits
    simp only [List.map_cons, List.sum_cons] at fits
    have added := toNat_add_of_lt (a := acc) (b := w) (by omega)
    have head : prefixSum ((w :: weights).map UInt64.toNat) (0 + 1) = w.toNat := by
      simp [prefixSum]
    have later : ∀ k, prefixSum ((w :: weights).map UInt64.toNat) (k + 1 + 1) =
        w.toNat + prefixSum (weights.map UInt64.toNat) (k + 1) := by
      intro k
      simp [prefixSum, List.take_succ_cons]
    rw [slowPosition, checkedAdd_eq_some (by omega), List.length_cons, List.range_succ_eq_map,
      List.find?_cons, head]
    by_cases passes : sample.toNat < acc.toNat + w.toNat
    · have passes' : sample < acc + w := by
        rw [UInt64.lt_iff_toNat_lt, added]
        exact passes
      simp only [if_pos passes', passes, decide_true]
    · -- the scan goes on from `acc + w`, one index further on
      have passes' : ¬ sample < acc + w := by
        rw [UInt64.lt_iff_toNat_lt, added]
        exact passes
      simp only [if_neg passes', passes, decide_false]
      rw [ih (acc + w) (by rw [added]; omega), List.find?_map]
      congr 1
      congr 1
      funext k
      simp only [Function.comp, Nat.succ_eq_add_one, later, added, Nat.add_assoc]

/-- From the start of the weights, the scan is the pool's `pick`. -/
theorem slowPosition_eq_pick (sample : UInt64) (weights : List UInt64)
    (fits : (weights.map UInt64.toNat).sum < 2 ^ 64) :
    slowPosition sample 0 weights = pick (weights.map UInt64.toNat) sample.toNat := by
  rw [slowPosition_eq_find sample weights 0 (by simpa using fits), pick, List.length_map]
  simp

/-- The second loop draws the zeros as the pool does once no weight is left. -/
theorem slowZeros_eq_drain (sampler : Sampler σ) {weights : List Nat}
    (weightless : weights.sum = 0) (fuel : Nat) :
    ∀ zeros rng shuffle, slowZeros sampler fuel zeros rng shuffle =
      (drain (fun state : Pool × σ => state.1.next sampler state.2) fuel (⟨weights, zeros⟩, rng)).map
        fun (items, final) => (shuffle ++ items, final.2) := by
  induction fuel with
  | zero => intro _ _ _; rfl
  | succ fuel ih =>
    intro zeros rng shuffle
    have noWeight : ¬ 0 < weights.sum := by omega
    rw [slowZeros, drain, Pool.next, if_neg noWeight]
    by_cases empty : zeros.isEmpty
    · simp [empty]
    · simp only [empty, if_false, Bool.false_eq_true]
      by_cases inside : (sampler.sampleIndex rng zeros.length).1 < zeros.length
      · simp only [inside, dif_pos, ih, Option.map_map]
        congr 1
        funext result
        simp
      · simp [inside]

/-- The reference's zeros are the pool's zeros of its weights. -/
theorem slowZeros_init (weights : List UInt64) :
    ((weights.zipIdx).filter fun entry => entry.1 == 0).map (·.2) =
      zeroIndices (weights.map UInt64.toNat) := by
  rw [zeroIndices, List.zipIdx_map, List.filter_map, List.map_map]
  congr 1
  apply List.filter_congr
  intro entry _
  simp only [Function.comp, Prod.map, id]
  cases empty : entry.1 == 0 with
  | false =>
    have nonzero : entry.1 ≠ 0 := by simpa using empty
    simpa [toNat_eq_zero] using nonzero
  | true =>
    have zero : entry.1 = 0 := by simpa using empty
    simp [zero]

/-- The first loop draws the items of weight as the pool does, and then the second loop the
zeros: the two loops together drain the pool, within the rounds they are given.  By induction on
the first loop's rounds. -/
theorem slowLoop_drains (sampler : Sampler σ) (zeros : List Nat) (extra rounds : Nat) :
    ∀ weights high rng shuffle result, high.toNat = (weights.map UInt64.toNat).sum →
      ((slowLoop sampler rounds weights high rng shuffle).bind fun (rng, shuffle) =>
          slowZeros sampler extra zeros rng shuffle) = some result →
      ∃ items final, drain (fun state : Pool × σ => state.1.next sampler state.2)
          (rounds + extra) (⟨weights.map UInt64.toNat, zeros⟩, rng) = some (items, final) ∧
        result = (shuffle ++ items, final.2) := by
  induction rounds with
  | zero =>
    intro _ _ _ _ _ _ finished
    simp [slowLoop] at finished
  | succ rounds ih =>
    intro weights high rng shuffle result total finished
    rw [slowLoop] at finished
    by_cases stop : high = 0
    · -- no weight is left: the second loop drains the zeros
      rw [if_neg (not_not.mpr stop), Option.bind_some] at finished
      simp only at finished
      have weightless : (weights.map UInt64.toNat).sum = 0 := by
        rw [← total, stop, UInt64.toNat_zero]
      rw [slowZeros_eq_drain sampler weightless, Option.map_eq_some_iff] at finished
      obtain ⟨⟨items, final⟩, drained, same⟩ := finished
      refine ⟨items, final, ?_, same.symm⟩
      rw [Nat.add_comm]
      exact drain_add drained (rounds + 1)
    · -- one item of weight is drawn, as the pool draws it
      rw [if_pos stop] at finished
      have fits : (weights.map UInt64.toNat).sum < 2 ^ 64 := by
        rw [← total]
        exact high.toNat_lt
      simp only [slowPosition_eq_pick _ _ fits] at finished
      cases picked : pick (weights.map UInt64.toNat)
          (sampler.sampleWeight rng high).1.toNat with
      | none => simp [picked] at finished
      | some index =>
        obtain ⟨inside, _⟩ := pick_weight picked
        rw [List.length_map] at inside
        simp only [picked, List.getElem?_eq_getElem inside] at finished
        have covered : weights[index] ≤ high := by
          rw [UInt64.le_iff_toNat_le, total]
          have := sum_set_add (x := 0) (show index < (weights.map UInt64.toNat).length by simpa)
          simp only [List.getElem_map] at this
          omega
        rw [if_pos covered] at finished
        have total' : (high - weights[index]).toNat =
            ((weights.set index 0).map UInt64.toNat).sum := by
          have := sum_set_add (x := 0) (show index < (weights.map UInt64.toNat).length by simpa)
          rw [UInt64.toNat_sub_of_le _ _ covered, total, List.map_set, UInt64.toNat_zero]
          simp only [List.getElem_map] at this
          omega
        obtain ⟨items, final, drained, same⟩ := ih _ _ _ _ result total' finished
        refine ⟨index :: items, final, ?_, by rw [same]; simp⟩
        have positive : 0 < (weights.map UInt64.toNat).sum := by
          rw [← total]
          exact Nat.pos_of_ne_zero (fun zero => stop (toNat_eq_zero.mp zero))
        have drawn : Pool.next ⟨weights.map UInt64.toNat, zeros⟩ sampler rng =
            some (some index, ⟨(weights.set index 0).map UInt64.toNat, zeros⟩,
              (sampler.sampleWeight rng high).2) := by
          rw [Pool.next, if_pos positive, ← total, UInt64.ofNat_toNat]
          simp only [picked, Option.map_some, List.map_set, UInt64.toNat_zero]
        rw [Nat.add_right_comm, drain, drawn]
        simp only [drained, Option.map_some]

/-- The second loop ends within one more round than there are zeros. -/
theorem slowZeros_isSome (sampler : Sampler σ) (rounds : Nat) :
    ∀ zeros rng shuffle, zeros.length < rounds →
      ∃ result, slowZeros sampler rounds zeros rng shuffle = some result := by
  induction rounds with
  | zero => exact fun _ _ _ below => absurd below (Nat.not_lt_zero _)
  | succ rounds ih =>
    intro zeros rng shuffle below
    rw [slowZeros]
    by_cases empty : zeros.isEmpty
    · exact ⟨_, by rw [if_pos empty]⟩
    · rw [if_neg empty]
      have inside := sampler.sampleIndex_lt rng zeros.length
        (List.length_pos_iff.mpr (by simpa using empty))
      simp only [inside, dif_pos]
      exact ih _ _ _ (by rw [length_swapRemoveAt]; omega)

/-- The first loop ends within one more round than there are weights that are not zero. -/
theorem slowLoop_isSome (sampler : Sampler σ) (rounds : Nat) :
    ∀ weights high rng shuffle, high.toNat = (weights.map UInt64.toNat).sum →
      (Pool.positives ⟨weights.map UInt64.toNat, []⟩).length < rounds →
      ∃ rng' shuffle', slowLoop sampler rounds weights high rng shuffle = some (rng', shuffle') := by
  induction rounds with
  | zero => exact fun _ _ _ _ _ below => absurd below (Nat.not_lt_zero _)
  | succ rounds ih =>
    intro weights high rng shuffle total below
    rw [slowLoop]
    by_cases stop : high = 0
    · exact ⟨rng, shuffle, by rw [if_neg (not_not.mpr stop)]⟩
    · rw [if_pos stop]
      have fits : (weights.map UInt64.toNat).sum < 2 ^ 64 := by
        rw [← total]
        exact high.toNat_lt
      have sampled := sampler.sampleWeight_lt rng high
        (UInt64.lt_iff_toNat_lt.mpr (Nat.pos_of_ne_zero (fun zero => stop (toNat_eq_zero.mp zero))))
      rw [UInt64.lt_iff_toNat_lt, total] at sampled
      obtain ⟨index, picked⟩ := exists_pick sampled
      obtain ⟨inside, positive⟩ := pick_weight picked
      rw [List.length_map] at inside
      simp only [slowPosition_eq_pick _ _ fits, picked, List.getElem?_eq_getElem inside]
      have taken := sum_set_add (x := 0) (show index < (weights.map UInt64.toNat).length by simpa)
      simp only [List.getElem_map] at taken positive
      have covered : weights[index] ≤ high := by
        rw [UInt64.le_iff_toNat_le, total]
        omega
      rw [if_pos covered]
      -- the item drawn leaves the items of weight
      have member : index ∈ Pool.positives ⟨weights.map UInt64.toNat, []⟩ :=
        Pool.mem_positives.mpr ⟨by simpa using inside, by simpa using positive⟩
      have fewer := List.length_erase_of_mem member
      have nonempty := List.length_pos_of_mem member
      refine ih _ _ _ _ ?_ ?_
      · rw [UInt64.toNat_sub_of_le _ _ covered, total, List.map_set, UInt64.toNat_zero]
        omega
      · rw [List.map_set, UInt64.toNat_zero, @Pool.positives_set_zero ⟨weights.map UInt64.toNat, []⟩ [] index]
        omega

end Reference

/-- Where the weights' sum fits a `u64`, `shuffle(rng).collect()` of the `WeightedShuffle` that
`new` builds returns the shuffle the tests' `weighted_shuffle_slow` returns, and leaves the
generator where it leaves it. -/
theorem collect_matches_slow (sampler : Sampler σ) (rng : σ) (weights : List UInt64)
    (fits : (weights.map UInt64.toNat).sum < 2 ^ 64) :
    ∃ shuffle result, WeightedShuffle.new weights = some shuffle ∧
      shuffle.collect sampler (weights.length + 1) rng = some result ∧
      weightedShuffleSlow sampler rng weights = some result := by
  obtain ⟨shuffle, built, refines⟩ := refines_new weights
  have wellFormed := Pool.wellFormed_ofWeights weights
  obtain ⟨items, final, drained, _⟩ := Pool.drain_isSome_of_wellFormed sampler wellFormed rng
    (by rw [Pool.measure_ofWeights]; exact Nat.lt_succ_self _)
  -- the reference runs to its end
  obtain ⟨high, summed, total⟩ := sumChecked_of_fits weights 0 (by simpa using fits)
  rw [UInt64.toNat_zero, Nat.zero_add] at total
  have samePool : (⟨weights.map UInt64.toNat, zeroIndices (weights.map UInt64.toNat)⟩ : Pool) =
      Pool.ofWeights weights := by
    rw [Pool.ofWeights, keptWeights_of_fits weights 0 (by simpa using fits)]
  have fewer : (Pool.positives ⟨weights.map UInt64.toNat, []⟩).length < weights.length + 1 := by
    have counted := Pool.measure_ofWeights weights
    rw [← samePool, Pool.measure] at counted
    change (Pool.positives ⟨weights.map UInt64.toNat, []⟩).length + _ = _ at counted
    omega
  obtain ⟨rng', shuffle', looped⟩ := slowLoop_isSome sampler _ weights high rng [] total fewer
  obtain ⟨result, zeroed⟩ := slowZeros_isSome sampler _
    (zeroIndices (weights.map UInt64.toNat)) rng' shuffle' (Nat.lt_succ_self _)
  have slow : weightedShuffleSlow sampler rng weights = some result := by
    rw [weightedShuffleSlow, sumChecked, summed]
    simp only [slowZeros_init, looped, zeroed]
  obtain ⟨items', final', drained', same⟩ := slowLoop_drains sampler _ _ _ weights high rng []
    result total (by rw [looped, Option.bind_some]; exact zeroed)
  rw [samePool, drain_add drained] at drained'
  cases drained'
  refine ⟨shuffle, result, built, ?_, slow⟩
  rw [refines.collect sampler drained, same, List.nil_append]

/-- A generator that always draws the lowest value of the range. -/
def lowestSampler : Sampler Unit :=
  ⟨fun rng _ => (0, rng), fun rng _ => (0, rng), fun _ _ positive => positive,
    fun _ _ positive => positive⟩

theorem collect_matches_slow_three_weights :
    ([1, 0, 2].map UInt64.toNat).sum < 2 ^ 64 ∧
      ∃ shuffle result, WeightedShuffle.new [1, 0, 2] = some shuffle ∧
        shuffle.collect lowestSampler ([1, 0, 2].length + 1) () = some result ∧
        weightedShuffleSlow lowestSampler () [1, 0, 2] = some result :=
  ⟨by decide, collect_matches_slow lowestSampler () [1, 0, 2] (by decide)⟩

end Validator.Gossip
