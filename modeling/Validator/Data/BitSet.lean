import Mathlib.Data.List.Range
import Mathlib.Data.BitVec

namespace Validator.Data.BitSet

/-! # Sets of small numbers as machine words

A word of `w` bits is the set of the indices of its set bits.  The lemmas here say which bits
the usual word operations set (one bit shifted into place, the mask of the low bits), and what
the population count and the trailing-zero count of a word say about its set of bits.
-/

variable {w : Nat}

theorem eq_zero_iff_getLsbD_eq_false {x : BitVec w} :
    x = 0#w ↔ ∀ i, x.getLsbD i = false := by
  constructor
  · rintro rfl i
    exact BitVec.getLsbD_zero
  · intro clear
    apply BitVec.eq_of_getLsbD_eq
    intro i _
    rw [clear i, BitVec.getLsbD_zero]

/-- One bit, shifted to position `t`, sets exactly bit `t`. -/
theorem getLsbD_one_shiftLeft {t : Nat} (bound : t < w) (i : Nat) :
    (1#w <<< t).getLsbD i = decide (i = t) := by
  have positive : 0 < w := by omega
  rw [BitVec.getLsbD_shiftLeft, BitVec.getLsbD_one]
  by_cases same : i = t
  · subst same
    simp [bound, positive]
  · by_cases below : i < t
    · simp [below, same]
    · have differ : i - t ≠ 0 := by omega
      simp [below, same, differ]

/-- A word meets the single bit `t` exactly when its bit `t` is set. -/
theorem and_one_shiftLeft_eq_zero_iff {x : BitVec w} {t : Nat} (bound : t < w) :
    x &&& 1#w <<< t = 0#w ↔ x.getLsbD t = false := by
  rw [eq_zero_iff_getLsbD_eq_false]
  simp only [BitVec.getLsbD_and, getLsbD_one_shiftLeft bound]
  constructor
  · intro clear
    simpa using clear t
  · intro unset i
    by_cases same : i = t
    · subst same
      simp [unset]
    · simp [same]

/-- One bit shifted to position `n`, less one, sets exactly the bits below `n`. -/
theorem getLsbD_one_shiftLeft_sub_one {n : Nat} (bound : n < w) (i : Nat) :
    ((1#w <<< n) - 1#w).getLsbD i = decide (i < n) := by
  have positive : 0 < w := by omega
  have small : 2 ^ n < 2 ^ w := Nat.pow_lt_pow_right Nat.one_lt_two bound
  have power : (1#w <<< n).toNat = 2 ^ n := by
    rw [BitVec.toNat_shiftLeft, BitVec.toNat_one positive, Nat.one_shiftLeft,
      Nat.mod_eq_of_lt small]
  have mask : ((1#w <<< n) - 1#w).toNat = 2 ^ n - 1 := by
    have atLeastOne : 1 ≤ 2 ^ n := Nat.one_le_two_pow
    rw [BitVec.toNat_sub, power, BitVec.toNat_one positive]
    calc (2 ^ w - 1 + 2 ^ n) % 2 ^ w = (2 ^ n - 1 + 2 ^ w) % 2 ^ w := by congr 1; omega
      _ = 2 ^ n - 1 := by rw [Nat.add_mod_right, Nat.mod_eq_of_lt (by omega)]
  rw [← BitVec.testBit_toNat, mask, Nat.testBit_two_pow_sub_one]

/-- The population count counts the set bits among the first `k`. -/
theorem cpopNatRec_eq_countP (x : BitVec w) (k : Nat) :
    x.cpopNatRec k 0 = (List.range k).countP fun i => x.getLsbD i := by
  induction k with
  | zero => rfl
  | succ k ih =>
      rw [BitVec.cpopNatRec_succ, Nat.zero_add, BitVec.cpopNatRec_eq, ih, List.range_succ,
        List.countP_append]
      cases bit : x.getLsbD k <;> simp [bit]

theorem toNat_cpop_eq_countP (x : BitVec w) :
    x.cpop.toNat = (List.range w).countP fun i => x.getLsbD i := by
  rw [BitVec.toNat_cpop, cpopNatRec_eq_countP]

/-- A word with population count one has exactly one set bit. -/
theorem toNat_cpop_eq_one_iff {x : BitVec w} :
    x.cpop.toNat = 1 ↔ ∃ t, ∀ i, x.getLsbD i = true ↔ i = t := by
  rw [toNat_cpop_eq_countP, List.countP_eq_length_filter, List.length_eq_one_iff]
  constructor
  · rintro ⟨t, single⟩
    refine ⟨t, fun i => ⟨fun set => ?_, ?_⟩⟩
    · have inside : i < w := by
        by_contra outside
        rw [BitVec.getLsbD_of_ge x i (by omega)] at set
        contradiction
      have member : i ∈ (List.range w).filter fun i => x.getLsbD i := by simp [inside, set]
      rw [single] at member
      exact List.mem_singleton.mp member
    · rintro rfl
      have member : i ∈ (List.range w).filter fun i => x.getLsbD i := by simp [single]
      exact (List.mem_filter.mp member).2
  · rintro ⟨t, single⟩
    refine ⟨t, ?_⟩
    have inside : t < w := by
      by_contra outside
      have set := (single t).mpr rfl
      rw [BitVec.getLsbD_of_ge x t (by omega)] at set
      contradiction
    have sameFilter : ((List.range w).filter fun i => x.getLsbD i) =
        (List.range w).filter fun i => decide (i = t) := by
      apply List.filter_congr
      intro i _
      rw [Bool.eq_iff_iff, decide_eq_true_iff]
      exact single i
    rw [sameFilter, List.filter_eq, List.count_range, if_pos inside, List.replicate_one]

/-- The trailing-zero count of a word with one set bit is that bit's index. -/
theorem toNat_ctz_of_single {x : BitVec w} {t : Nat} (single : ∀ i, x.getLsbD i = true ↔ i = t) :
    x.ctz.toNat = t := by
  have nonzero : x ≠ 0#w := by
    intro zero
    have set := (single t).mpr rfl
    rw [zero, BitVec.getLsbD_zero] at set
    contradiction
  have first := BitVec.getLsbD_true_ctz_of_ne_zero nonzero
  exact (single _).mp first

/-- A word's lowest set bit is where its value leaves a remainder below the next power of two. -/
theorem toNat_mod_two_pow_succ_ctz {x : BitVec w} (nonzero : x ≠ 0#w) :
    x.toNat % 2 ^ (x.ctz.toNat + 1) = 2 ^ x.ctz.toNat := by
  apply Nat.eq_of_testBit_eq
  intro j
  rw [Nat.testBit_mod_two_pow, Nat.testBit_two_pow, BitVec.testBit_toNat]
  rcases Nat.lt_trichotomy j x.ctz.toNat with below | same | above
  · simp [BitVec.getLsbD_false_of_lt_ctz below, Nat.ne_of_gt below, Nat.lt_succ_of_lt below]
  · subst same
    simp [BitVec.getLsbD_true_ctz_of_ne_zero nonzero]
  · have outside : ¬ j < x.ctz.toNat + 1 := by omega
    simp [outside, Nat.ne_of_lt above]

/-- Less one, a word's lowest set bit clears and the bits below it set, so ANDed back with the
word only that bit goes. -/
theorem getLsbD_and_sub_one {x : BitVec w} (nonzero : x ≠ 0#w) (i : Nat) :
    (x &&& (x - 1#w)).getLsbD i = (x.getLsbD i && decide (i ≠ x.ctz.toNat)) := by
  have positive : 0 < w := by
    rcases Nat.eq_zero_or_pos w with empty | positive
    · subst empty
      exact absurd (BitVec.eq_nil x) nonzero
    · exact positive
  have atLeastOne : 1 ≤ x.toNat := by
    have := (BitVec.toNat_ne_iff_ne).mpr nonzero
    rw [BitVec.toNat_zero] at this
    omega
  -- the word is the lowest bit above a multiple of the next power of two
  have split := Nat.div_add_mod x.toNat (2 ^ (x.ctz.toNat + 1))
  rw [toNat_mod_two_pow_succ_ctz nonzero] at split
  obtain ⟨high, highEq⟩ : ∃ high, x.toNat / 2 ^ (x.ctz.toNat + 1) = high := ⟨_, rfl⟩
  rw [highEq] at split
  have lowBelow : 2 ^ x.ctz.toNat < 2 ^ (x.ctz.toNat + 1) :=
    Nat.pow_lt_pow_right Nat.one_lt_two (Nat.lt_succ_self _)
  have lessOne : (x - 1#w).toNat = 2 ^ (x.ctz.toNat + 1) * high + (2 ^ x.ctz.toNat - 1) := by
    rw [BitVec.toNat_sub, BitVec.toNat_one positive]
    have power : 1 ≤ 2 ^ x.ctz.toNat := Nat.one_le_two_pow
    calc (2 ^ w - 1 + x.toNat) % 2 ^ w = (x.toNat - 1 + 2 ^ w) % 2 ^ w := by congr 1; omega
      _ = x.toNat - 1 := by rw [Nat.add_mod_right, Nat.mod_eq_of_lt (by omega)]
      _ = _ := by omega
  rw [BitVec.getLsbD_and, ← BitVec.testBit_toNat, ← BitVec.testBit_toNat (x - 1#w), lessOne]
  rw [← split, Nat.testBit_two_pow_mul_add _ lowBelow,
    Nat.testBit_two_pow_mul_add _ (by omega : 2 ^ x.ctz.toNat - 1 < 2 ^ (x.ctz.toNat + 1))]
  by_cases low : i < x.ctz.toNat + 1
  · -- at and below the lowest bit, the word and its predecessor share no bit
    simp only [low, if_true, Nat.testBit_two_pow, Nat.testBit_two_pow_sub_one]
    by_cases same : i = x.ctz.toNat
    · simp [same]
    · have below : i < x.ctz.toNat := by omega
      simp [same, below, Nat.ne_of_gt below]
  · have differ : i ≠ x.ctz.toNat := by omega
    simp [low, differ]

/-- Clearing bit `t` keeps every other bit. -/
theorem getLsbD_and_not_one_shiftLeft (x : BitVec w) {t : Nat} (bound : t < w) (i : Nat) :
    (x &&& ~~~(1#w <<< t)).getLsbD i = (x.getLsbD i && decide (i ≠ t)) := by
  rw [BitVec.getLsbD_and, BitVec.getLsbD_not, getLsbD_one_shiftLeft bound]
  by_cases inside : i < w
  · by_cases same : i = t <;> simp [inside, same]
  · simp [BitVec.getLsbD_of_ge x i (by omega)]

/-- No bit is set above the highest one the leading-zero count leaves. -/
theorem getLsbD_false_of_clz_lt {x : BitVec w} {i : Nat} (above : w - 1 - x.clz.toNat < i) :
    x.getLsbD i = false := by
  rw [← BitVec.testBit_toNat]
  exact Nat.testBit_lt_two_pow (Nat.lt_of_lt_of_le BitVec.toNat_lt_two_pow_sub_clz
    (Nat.pow_le_pow_right Nat.two_pos (by omega)))

theorem toNat_clz_lt {x : BitVec w} (nonzero : x ≠ 0#w) : x.clz.toNat < w := by
  have below := BitVec.clz_lt_iff_ne_zero.mpr nonzero
  rw [BitVec.lt_def] at below
  simpa using below

/-- All ones shifted left by `l`: the bits from `l` up. -/
theorem getLsbD_allOnes_shiftLeft (l i : Nat) :
    (BitVec.allOnes w <<< l).getLsbD i = (decide (i < w) && decide (l ≤ i)) := by
  rw [BitVec.getLsbD_shiftLeft, BitVec.getLsbD_allOnes]
  by_cases inside : i < w <;> by_cases reached : l ≤ i <;> simp [inside, reached]
  omega

/-- All ones shifted right by `s`: the bits below `w - s`. -/
theorem getLsbD_allOnes_ushiftRight (s i : Nat) :
    (BitVec.allOnes w >>> s).getLsbD i = decide (i + s < w) := by
  rw [BitVec.getLsbD_ushiftRight, BitVec.getLsbD_allOnes]
  simp only [decide_eq_decide]
  omega

end Validator.Data.BitSet
