import Validator.Data.SumTree
import Validator.Gossip.WeightedShuffle

namespace Validator.Gossip

open Validator.Data

/-! # What the weighted shuffle is for

A pool of items still to be drawn: the weight of each (nothing once it is drawn or removed), and
the items of no weight, which wait to be drawn last.  A draw takes a sample below the total
weight and returns the first item whose running sum passes it (`pick`), so that each item is
drawn with a chance proportional to its weight, and the item loses its weight; once no weight is
left, the items of no weight are drawn uniformly.  This is the module tests'
`weighted_shuffle_slow`, as a state machine over naturals; `WeightedShuffle` implements it with a
tree, which `WeightedShuffleRefinement` proves.

The draws use the same `Sampler` as the code, so that the pool and the tree draw the same items
from the same generator.  Drawing everything draws each item once, the items of some weight first
(`Pool.drain_perm`).
-/

section Kept

/-- What `new` keeps of `weight` after weights summing to `sum`: all of it, unless it would carry
the sum past `u64::MAX`. -/
def keep (sum : Nat) (weight : UInt64) : Nat :=
  if sum + weight.toNat < 2 ^ 64 then weight.toNat else 0

/-- The weights `new` puts on the leaves, after weights summing to `sum`. -/
def keptWeights : Nat → List UInt64 → List Nat
  | _, [] => []
  | sum, weight :: weights => keep sum weight :: keptWeights (sum + keep sum weight) weights

/-- The indices of the zero entries of `vs`, in order:
`weights.iter().enumerate().filter(|(_, w)| **w == 0).map(|(i, _)| i)`. -/
def zeroIndices (vs : List Nat) : List Nat :=
  ((vs.zipIdx).filter fun entry => entry.1 == 0).map (·.2)

theorem keep_of_fits {sum : Nat} {w : UInt64} (fits : sum + w.toNat < 2 ^ 64) :
    keep sum w = w.toNat := by
  rw [keep, if_pos fits]

theorem keep_of_overflow {sum : Nat} {w : UInt64} (overflows : 2 ^ 64 ≤ sum + w.toNat) :
    keep sum w = 0 := by
  rw [keep, if_neg (by omega)]

@[simp] theorem keep_zero (sum : Nat) : keep sum 0 = 0 := by
  simp [keep]

@[simp] theorem length_keptWeights (sum : Nat) (weights : List UInt64) :
    (keptWeights sum weights).length = weights.length := by
  induction weights generalizing sum with
  | nil => rfl
  | cons w weights ih => simp [keptWeights, ih]

/-- What `new` keeps never carries the sum past `u64::MAX`. -/
theorem sum_keptWeights_lt (weights : List UInt64) :
    ∀ sum, sum < 2 ^ 64 → sum + (keptWeights sum weights).sum < 2 ^ 64 := by
  induction weights with
  | nil => simp [keptWeights]
  | cons w weights ih =>
    intro sum fits
    have kept : sum + keep sum w < 2 ^ 64 := by
      unfold keep
      split <;> omega
    have rest := ih (sum + keep sum w) kept
    simp only [keptWeights, List.sum_cons]
    omega

/-- Weights whose sum fits are all kept. -/
theorem keptWeights_of_fits (weights : List UInt64) :
    ∀ sum, sum + (weights.map UInt64.toNat).sum < 2 ^ 64 →
      keptWeights sum weights = weights.map UInt64.toNat := by
  induction weights with
  | nil => simp [keptWeights]
  | cons w weights ih =>
    intro sum fits
    simp only [List.map_cons, List.sum_cons] at fits
    rw [keptWeights, keep_of_fits (by omega), ih _ (by omega), List.map_cons]

theorem zeroIndices_append_single (vs : List Nat) (x : Nat) :
    zeroIndices (vs ++ [x]) = zeroIndices vs ++ if x = 0 then [vs.length] else [] := by
  by_cases empty : x = 0 <;> simp [zeroIndices, List.zipIdx_append, List.filter_append, empty]

/-- The zero entries, as the indices whose entry is zero. -/
theorem zeroIndices_eq_filter (vs : List Nat) :
    zeroIndices vs = (List.range vs.length).filter fun k => vs.getD k 0 == 0 := by
  induction vs using List.reverseRecOn with
  | nil => rfl
  | append_singleton vs x ih =>
    rw [zeroIndices_append_single, ih, List.length_append, List.length_singleton,
      List.range_succ, List.filter_append]
    congr 1
    · apply List.filter_congr
      intro k member
      rw [List.mem_range] at member
      simp [List.getD_eq_getElem?_getD, List.getElem?_append_left member]
    · by_cases empty : x = 0 <;> simp [empty]

end Kept

section Pick

/-- The first item whose running sum of weights passes `v`. -/
def pick (weights : List Nat) (v : Nat) : Option Nat :=
  (List.range weights.length).find? fun k => v < prefixSum weights (k + 1)

variable {weights : List Nat} {v k : Nat}

theorem pick_eq_some (inside : k < weights.length) (after : prefixSum weights k ≤ v)
    (before : v < prefixSum weights (k + 1)) : pick weights v = some k := by
  rw [pick, List.find?_eq_some_iff_getElem]
  refine ⟨by simpa using before, k, by simpa using inside, List.getElem_range _, ?_⟩
  intro j earlier
  simp only [List.getElem_range, Bool.not_eq_eq_eq_not, Bool.not_true, decide_eq_false_iff_not,
    Nat.not_lt]
  exact Nat.le_trans (prefixSum_mono (by omega)) after

theorem pick_spec (picked : pick weights v = some k) :
    k < weights.length ∧ prefixSum weights k ≤ v ∧ v < prefixSum weights (k + 1) := by
  rw [pick, List.find?_eq_some_iff_getElem] at picked
  obtain ⟨passes, i, inside, rfl, earlier⟩ := picked
  simp only [List.getElem_range, decide_eq_true_eq] at passes ⊢
  simp only [List.length_range] at inside
  refine ⟨inside, ?_, passes⟩
  cases i with
  | zero => simp
  | succ i =>
    have short := earlier i (by omega)
    simpa using short

/-- A sample below the total weight picks an item. -/
theorem exists_pick (below : v < weights.sum) : ∃ k, pick weights v = some k := by
  have nonempty : 0 < weights.length := by
    cases weights with
    | nil => simp at below
    | cons w weights => simp
  have found : (pick weights v).isSome := by
    rw [pick, List.find?_isSome]
    refine ⟨weights.length - 1, by simp; omega, ?_⟩
    rw [decide_eq_true_eq, Nat.sub_add_cancel (by omega),
      prefixSum_of_length_le (Nat.le_refl _)]
    exact below
  exact Option.isSome_iff_exists.mp found

/-- The item picked holds weight. -/
theorem pick_weight (picked : pick weights v = some k) :
    ∃ inside : k < weights.length, 0 < weights[k] := by
  obtain ⟨inside, after, before⟩ := pick_spec picked
  have block := prefixSum_add_blockSum weights 1 k
  rw [blockSum_one_of_lt inside, Nat.mul_one, Nat.mul_one] at block
  exact ⟨inside, by omega⟩

end Pick

/-- The items a weighted shuffle has still to draw: the weight of each item, nothing once it is
drawn or removed, and the items of no weight, in the order `swap_remove` leaves them. -/
structure Pool where
  weights : List Nat
  zeros : List Nat
deriving DecidableEq, Repr

namespace Pool

variable {σ : Type}

/-- The pool `new` starts from: the weights it keeps, and the empty ones among them. -/
def ofWeights (weights : List UInt64) : Pool :=
  ⟨keptWeights 0 weights, zeroIndices (keptWeights 0 weights)⟩

/-- `remove_index(k)`: item `k` is not to be drawn. -/
def removeIndex (pool : Pool) (k : Nat) : Pool :=
  ⟨pool.weights.set k 0, pool.zeros.erase k⟩

/-- One draw: while weight is left, the item a sample below the total picks, which loses its
weight; then an item of no weight, taken out as `swap_remove` does; then nothing. -/
def next (pool : Pool) (sampler : Sampler σ) (rng : σ) : Option (Option Nat × Pool × σ) :=
  if 0 < pool.weights.sum then
    let (sample, rng) := sampler.sampleWeight rng (UInt64.ofNat pool.weights.sum)
    (pick pool.weights sample.toNat).map fun k => (some k, ⟨pool.weights.set k 0, pool.zeros⟩, rng)
  else if pool.zeros.isEmpty then some (none, pool, rng)
  else
    let (index, rng) := sampler.sampleIndex rng pool.zeros.length
    if inside : index < pool.zeros.length then
      some (some pool.zeros[index], ⟨pool.weights, swapRemoveAt pool.zeros index⟩, rng)
    else none

/-- The items with weight. -/
def positives (pool : Pool) : List Nat :=
  (List.range pool.weights.length).filter fun k => 0 < pool.weights.getD k 0

/-- A pool whose weights fit a `u64` and whose `zeros` lists items of no weight, each once. -/
structure WellFormed (pool : Pool) : Prop where
  fits : pool.weights.sum < 2 ^ 64
  nodup : pool.zeros.Nodup
  empty : ∀ z ∈ pool.zeros, pool.weights[z]? = some 0

/-- The draws left: one per item with weight and one per item of no weight. -/
def measure (pool : Pool) : Nat :=
  pool.positives.length + pool.zeros.length

/-- The pool of some weights holds every index once: with weight, or among the zeros. -/
theorem positives_append_zeros_ofWeights (weights : List UInt64) :
    ((ofWeights weights).positives ++ (ofWeights weights).zeros).Perm
      (List.range weights.length) := by
  have split := List.filter_append_perm (fun k => decide (0 < (keptWeights 0 weights).getD k 0))
    (List.range weights.length)
  refine List.Perm.trans ?_ split
  rw [positives, ofWeights, zeroIndices_eq_filter]
  simp only [length_keptWeights]
  refine List.Perm.append_left _ (List.Perm.of_eq (List.filter_congr ?_))
  intro k _
  cases (keptWeights 0 weights).getD k 0 <;> rfl

theorem measure_ofWeights (weights : List UInt64) :
    (ofWeights weights).measure = weights.length := by
  rw [measure, ← List.length_append, (positives_append_zeros_ofWeights weights).length_eq,
    List.length_range]

theorem wellFormed_ofWeights (weights : List UInt64) : (ofWeights weights).WellFormed := by
  refine ⟨by simpa [ofWeights] using sum_keptWeights_lt weights 0 (by decide), ?_, ?_⟩
  · rw [ofWeights, zeroIndices_eq_filter]
    exact List.nodup_range.filter _
  · intro z member
    rw [ofWeights, zeroIndices_eq_filter, List.mem_filter, List.mem_range] at member
    simp only [ofWeights, List.getElem?_eq_getElem member.1, Option.some_inj]
    simpa [List.getD_eq_getElem?_getD, List.getElem?_eq_getElem member.1] using member.2

variable {pool : Pool}

theorem sum_set_zero_le (weights : List Nat) (k : Nat) : (weights.set k 0).sum ≤ weights.sum := by
  rcases Nat.lt_or_ge k weights.length with inside | past
  · have := sum_set_add (x := 0) inside
    omega
  · rw [List.set_eq_of_length_le past]

theorem mem_positives {k : Nat} :
    k ∈ pool.positives ↔ ∃ inside : k < pool.weights.length, 0 < pool.weights[k] := by
  simp only [positives, List.mem_filter, List.mem_range, decide_eq_true_eq,
    List.getD_eq_getElem?_getD]
  constructor
  · rintro ⟨inside, positive⟩
    rw [List.getElem?_eq_getElem inside, Option.getD_some] at positive
    exact ⟨inside, positive⟩
  · rintro ⟨inside, positive⟩
    rw [List.getElem?_eq_getElem inside, Option.getD_some]
    exact ⟨inside, positive⟩

/-- Drawing an item takes it out of the items with weight. -/
theorem positives_set_zero (zeros : List Nat) (k : Nat) :
    positives ⟨pool.weights.set k 0, zeros⟩ = pool.positives.erase k := by
  rw [positives, positives, List.length_set, (List.nodup_range.filter _).erase_eq_filter,
    List.filter_filter]
  apply List.filter_congr
  intro j _
  by_cases same : j = k
  · subst same
    simp only [List.getD_eq_getElem?_getD, List.getElem?_set, if_true, bne_self_eq_false,
      Bool.false_and, decide_eq_false_iff_not]
    split <;> simp
  · simp [List.getD_eq_getElem?_getD, Ne.symm same, same]

/-- Without weight left, no item has weight. -/
theorem positives_eq_nil (weightless : pool.weights.sum = 0) : pool.positives = [] := by
  rw [List.eq_nil_iff_forall_not_mem]
  intro k member
  obtain ⟨inside, positive⟩ := mem_positives.mp member
  have := List.sum_eq_zero_iff.mp weightless pool.weights[k] (List.getElem_mem inside)
  omega

theorem WellFormed.removeIndex (wellFormed : pool.WellFormed) (k : Nat) :
    (pool.removeIndex k).WellFormed := by
  refine ⟨Nat.lt_of_le_of_lt (sum_set_zero_le _ _) wellFormed.fits, wellFormed.nodup.erase k, ?_⟩
  intro z member
  have listed := wellFormed.empty z (List.mem_of_mem_erase member)
  simp only [Pool.removeIndex, List.getElem?_set]
  split
  · next same =>
    subst same
    rw [if_pos (List.getElem?_eq_some_iff.mp listed).1]
  · exact listed

variable {σ : Type}

/-- The three things a draw does: pick an item of weight, stop, or take an item of no weight. -/
theorem next_cases (wellFormed : pool.WellFormed) (sampler : Sampler σ) (rng : σ) :
    ∃ item after rng', pool.next sampler rng = some (item, after, rng') ∧
      ((∃ k, ∃ inside : k < pool.weights.length, 0 < pool.weights[k] ∧ item = some k ∧
          after = ⟨pool.weights.set k 0, pool.zeros⟩) ∨
        (pool.weights.sum = 0 ∧ pool.zeros = [] ∧ item = none ∧ after = pool) ∨
        (pool.weights.sum = 0 ∧ ∃ i, ∃ inside : i < pool.zeros.length,
          item = some pool.zeros[i] ∧ after = ⟨pool.weights, swapRemoveAt pool.zeros i⟩)) := by
  by_cases weighted : 0 < pool.weights.sum
  · -- a sample below the total picks an item of weight
    have total : (UInt64.ofNat pool.weights.sum).toNat = pool.weights.sum := by
      rw [UInt64.toNat_ofNat', Nat.mod_eq_of_lt wellFormed.fits]
    have below := sampler.sampleWeight_lt rng (UInt64.ofNat pool.weights.sum)
      (by rw [UInt64.lt_iff_toNat_lt, total]; exact weighted)
    rw [UInt64.lt_iff_toNat_lt, total] at below
    obtain ⟨k, picked⟩ := exists_pick below
    obtain ⟨inside, positive⟩ := pick_weight picked
    refine ⟨some k, _, (sampler.sampleWeight rng (UInt64.ofNat pool.weights.sum)).2, ?_,
      Or.inl ⟨k, inside, positive, rfl, rfl⟩⟩
    rw [next, if_pos weighted]
    simp only [picked, Option.map_some]
  · have weightless : pool.weights.sum = 0 := by omega
    by_cases empty : pool.zeros = []
    · refine ⟨none, pool, rng, ?_, Or.inr (Or.inl ⟨weightless, empty, rfl, rfl⟩)⟩
      rw [next, if_neg weighted, if_pos (by rw [empty]; rfl)]
    · -- the sampler stays below the number of zeros
      have nonempty : 0 < pool.zeros.length := List.length_pos_iff.mpr empty
      have inside := sampler.sampleIndex_lt rng pool.zeros.length nonempty
      refine ⟨_, _, (sampler.sampleIndex rng pool.zeros.length).2, ?_,
        Or.inr (Or.inr ⟨weightless, _, inside, rfl, rfl⟩)⟩
      rw [next, if_neg weighted, if_neg (by simpa using empty)]
      simp only [inside, dif_pos]

/-- A draw keeps the pool well formed, and a draw that returns an item leaves fewer to draw. -/
theorem WellFormed.next (wellFormed : pool.WellFormed) {sampler : Sampler σ} {rng rng' : σ}
    {item : Option Nat} {after : Pool} (drawn : pool.next sampler rng = some (item, after, rng')) :
    after.WellFormed ∧ (item.isSome → after.measure < pool.measure) := by
  obtain ⟨item', after', rng'', drawn', cases⟩ := next_cases wellFormed sampler rng
  rw [drawn] at drawn'
  cases drawn'
  rcases cases with ⟨k, inside, positive, rfl, rfl⟩ | ⟨_, _, rfl, rfl⟩ |
    ⟨weightless, i, inside, rfl, rfl⟩
  · refine ⟨⟨Nat.lt_of_le_of_lt (sum_set_zero_le _ _) wellFormed.fits, wellFormed.nodup, ?_⟩, ?_⟩
    · -- the item drawn had weight, so it is not among the zeros
      intro z member
      have listed := wellFormed.empty z member
      have differs : k ≠ z := by
        rintro rfl
        rw [List.getElem?_eq_getElem inside, Option.some_inj] at listed
        omega
      rw [List.getElem?_set, if_neg differs]
      exact listed
    · intro _
      have member : k ∈ pool.positives := mem_positives.mpr ⟨inside, positive⟩
      have shorter := List.length_erase_of_mem member
      have nonempty := List.length_pos_of_mem member
      simp only [measure, positives_set_zero]
      omega
  · exact ⟨wellFormed, fun none => by simp at none⟩
  · refine ⟨⟨wellFormed.fits, nodup_swapRemoveAt wellFormed.nodup inside, ?_⟩, ?_⟩
    · intro z member
      have kept := ((swapRemoveAt_perm inside).subset member)
      exact wellFormed.empty z (List.mem_of_mem_eraseIdx kept)
    · intro _
      have same : positives ⟨pool.weights, swapRemoveAt pool.zeros i⟩ = pool.positives := rfl
      simp only [measure, same, length_swapRemoveAt]
      omega

/-- Every draw from a well-formed pool returns. -/
theorem WellFormed.next_isSome (wellFormed : pool.WellFormed) (sampler : Sampler σ) (rng : σ) :
    (pool.next sampler rng).isSome := by
  obtain ⟨item, after, rng', drawn, _⟩ := next_cases wellFormed sampler rng
  rw [drawn]
  rfl

/-- The draws of a well-formed pool until it stops: the items of weight, then the items of no
weight, each once.  By induction on the draws. -/
theorem drain_perm (sampler : Sampler σ) (fuel : Nat) :
    ∀ (pool : Pool) (rng : σ) items final, pool.WellFormed →
      drain (fun state : Pool × σ => state.1.next sampler state.2) fuel (pool, rng) =
        some (items, final) →
      ∃ front back, items = front ++ back ∧ front.Perm pool.positives ∧ back.Perm pool.zeros := by
  induction fuel with
  | zero => exact fun _ _ _ _ _ drained => by cases drained
  | succ fuel ih =>
    intro pool rng items final wellFormed drained
    obtain ⟨item, after, rng', drawn, cases⟩ := next_cases wellFormed sampler rng
    have afterFormed := (wellFormed.next drawn).1
    rw [drain] at drained
    simp only [drawn] at drained
    rcases cases with ⟨k, inside, positive, rfl, rfl⟩ | ⟨weightless, empty, rfl, rfl⟩ |
      ⟨weightless, i, inside, rfl, rfl⟩
    · -- an item of weight comes first
      simp only [Option.map_eq_some_iff] at drained
      obtain ⟨⟨rest, final'⟩, restDrained, same⟩ := drained
      cases same
      obtain ⟨front, back, split, frontPerm, backPerm⟩ :=
        ih _ _ rest final' afterFormed restDrained
      refine ⟨k :: front, back, by rw [split]; rfl, ?_, backPerm⟩
      rw [positives_set_zero] at frontPerm
      exact (frontPerm.cons k).trans
        (List.perm_cons_erase (mem_positives.mpr ⟨inside, positive⟩)).symm
    · cases drained
      exact ⟨[], [], rfl, by rw [positives_eq_nil weightless], by rw [empty]⟩
    · -- only items of no weight are left
      simp only [Option.map_eq_some_iff] at drained
      obtain ⟨⟨rest, final'⟩, restDrained, same⟩ := drained
      cases same
      obtain ⟨front, back, split, frontPerm, backPerm⟩ :=
        ih _ _ rest final' afterFormed restDrained
      have noFront : front = [] := by
        rw [show positives ⟨pool.weights, swapRemoveAt pool.zeros i⟩ = pool.positives from rfl,
          positives_eq_nil weightless] at frontPerm
        exact frontPerm.eq_nil
      subst noFront
      refine ⟨[], pool.zeros[i] :: back, by rw [split]; rfl,
        by rw [positives_eq_nil weightless], ?_⟩
      exact ((backPerm.trans (swapRemoveAt_perm inside)).cons _).trans
        (List.getElem_cons_eraseIdx_perm inside)

/-- A well-formed pool drains within one more call than it has draws. -/
theorem drain_isSome_of_wellFormed (sampler : Sampler σ) (wellFormed : pool.WellFormed) (rng : σ)
    {fuel : Nat} (enough : pool.measure < fuel) :
    ∃ items final, drain (fun state : Pool × σ => state.1.next sampler state.2) fuel (pool, rng) =
      some (items, final) ∧ final.1.WellFormed := by
  refine drain_isSome _ (fun state => state.1.WellFormed) (fun state => state.1.measure) ?_ fuel
    (pool, rng) wellFormed enough
  intro state holds
  obtain ⟨item, after, rng', drawn, _⟩ := next_cases holds sampler state.2
  exact ⟨item, (after, rng'), drawn, holds.next drawn⟩

end Pool

end Validator.Gossip
