import Mathlib.Data.List.Sort
import Validator.Ledger.BitVecSlice
import Validator.Ledger.ShredIndexSpec

namespace Validator.Ledger

open Validator.Data Validator.Data.BitSet Validator.Data.DoubleEnded

/-! # Range iteration yields the set bits within the bounds

`IterOnes` represents the positions of its mask's set bits, taken lowest first from the front
and highest first from the back; the mask iterator represents its words' masks; so by
`Represents.flatMap` the range iterator represents the set bits its masks keep, which are those
within the bounds.  Every interleaving of `next` and `next_back` then takes them from both ends
(`Represents.drive`), and `count_ones` counts them.
-/

section Byte

theorem toBitVec_and_sub_one (mask : UInt8) :
    (mask &&& (mask - 1)).toBitVec = mask.toBitVec &&& (mask.toBitVec - 1#8) := by
  rw [UInt8.toBitVec_and, UInt8.toBitVec_sub, UInt8.toBitVec_one]

theorem toBitVec_ne_zero {mask : UInt8} (nonzero : mask ≠ 0) : mask.toBitVec ≠ 0#8 := by
  intro zero
  exact nonzero (UInt8.eq_iff_toBitVec_eq.mpr zero)

theorem toBitVec_allOnes_shiftLeft {shift : Nat} (bound : shift < 8) :
    ((~~~0 : UInt8) <<< UInt8.ofNat shift).toBitVec = BitVec.allOnes 8 <<< shift := by
  rw [UInt8.toBitVec_shiftLeft, UInt8.toBitVec_not, UInt8.toBitVec_zero, BitVec.not_zero,
    BitVec.shiftLeft_eq']
  congr 1
  simp
  omega

theorem toBitVec_allOnes_shiftRight {shift : Nat} (bound : shift < 8) :
    ((~~~0 : UInt8) >>> UInt8.ofNat shift).toBitVec = BitVec.allOnes 8 >>> shift := by
  rw [UInt8.toBitVec_shiftRight, UInt8.toBitVec_not, UInt8.toBitVec_zero, BitVec.not_zero,
    BitVec.ushiftRight_eq']
  congr 1
  simp
  omega

end Byte

namespace IterOnes

/-- The positions an `IterOnes` has left: its base plus each set bit of its mask. -/
def items (self : IterOnes) : List Nat :=
  (List.range' self.baseIdx 8).filter fun x => self.mask.toBitVec.getLsbD (x - self.baseIdx)

variable {self : IterOnes}

theorem mem_items {x : Nat} :
    x ∈ self.items ↔ self.baseIdx ≤ x ∧ self.mask.toBitVec.getLsbD (x - self.baseIdx) = true := by
  simp only [items, List.mem_filter, List.mem_range'_1]
  constructor
  · rintro ⟨⟨lower, -⟩, set⟩
    exact ⟨lower, set⟩
  · rintro ⟨lower, set⟩
    -- a set bit of a byte is below eight
    have inside := BitVec.lt_of_getLsbD set
    exact ⟨⟨lower, by omega⟩, set⟩

theorem items_sorted (self : IterOnes) : self.items.Pairwise (· < ·) :=
  (List.pairwise_lt_range').filter _

theorem items_of_eq_zero (zero : self.mask = 0) : self.items = [] := by
  rw [items, zero]
  simp

/-- `next` yields the lowest set bit and clears it. -/
theorem next_takes (self : IterOnes) :
    ∃ out after, self.next = some (out, after) ∧ Takes .front self.items out after.items := by
  by_cases zero : self.mask = 0
  · exact ⟨none, self, by simp [next, zero], items_of_eq_zero zero, items_of_eq_zero zero⟩
  · have nonzero := toBitVec_ne_zero zero
    let after : IterOnes := { self with mask := self.mask &&& (self.mask - 1) }
    refine ⟨some (self.baseIdx + self.mask.toBitVec.ctz.toNat), after, by simp [next, zero, after], ?_⟩
    have lowest := BitVec.getLsbD_true_ctz_of_ne_zero nonzero
    have cleared : ∀ i, after.mask.toBitVec.getLsbD i =
        (self.mask.toBitVec.getLsbD i && decide (i ≠ self.mask.toBitVec.ctz.toNat)) := by
      intro i
      rw [toBitVec_and_sub_one]
      exact getLsbD_and_sub_one nonzero i
    -- the lowest set bit is below every bit the cleared mask keeps
    have sorted : ((self.baseIdx + self.mask.toBitVec.ctz.toNat) :: after.items).Pairwise (· < ·) := by
      refine List.pairwise_cons.mpr ⟨fun y member => ?_, after.items_sorted⟩
      obtain ⟨lower, set⟩ := mem_items.mp member
      change self.baseIdx ≤ y at lower
      change after.mask.toBitVec.getLsbD (y - self.baseIdx) = true at set
      rw [cleared, Bool.and_eq_true, decide_eq_true_eq] at set
      have notBelow : ¬ y - self.baseIdx < self.mask.toBitVec.ctz.toNat := fun below => by
        rw [BitVec.getLsbD_false_of_lt_ctz below] at set
        exact Bool.false_ne_true set.1
      show self.baseIdx + self.mask.toBitVec.ctz.toNat < y
      omega
    apply List.Pairwise.eq_of_mem_iff self.items_sorted sorted
    intro x
    rw [List.mem_cons, mem_items, mem_items]
    constructor
    · rintro ⟨lower, set⟩
      by_cases same : x - self.baseIdx = self.mask.toBitVec.ctz.toNat
      · exact Or.inl (by omega)
      · exact Or.inr ⟨lower, by rw [cleared, set]; simpa using same⟩
    · rintro (rfl | ⟨lower, set⟩)
      · exact ⟨by omega, by rwa [Nat.add_sub_cancel_left]⟩
      · rw [cleared, Bool.and_eq_true] at set
        exact ⟨lower, set.1⟩

/-- `next_back` yields the highest set bit and clears it. -/
theorem nextBack_takes (self : IterOnes) :
    ∃ out after, self.nextBack = some (out, after) ∧ Takes .back self.items out after.items := by
  by_cases zero : self.mask = 0
  · exact ⟨none, self, by simp [nextBack, zero], items_of_eq_zero zero, items_of_eq_zero zero⟩
  · have nonzero := toBitVec_ne_zero zero
    have below := toNat_clz_lt nonzero
    let bitIdx := 8 - 1 - self.mask.toBitVec.clz.toNat
    let after : IterOnes := { self with mask := self.mask &&& ~~~(1 <<< UInt8.ofNat bitIdx) }
    have called : self.nextBack = some (some (self.baseIdx + bitIdx), after) := by
      have small : 7 - self.mask.toBitVec.clz.toNat < 8 := by omega
      simp [nextBack, zero, usizeSub, shl, after, bitIdx, Nat.le_of_lt_succ below, small]
    refine ⟨some (self.baseIdx + bitIdx), after, called, ?_⟩
    have highest : self.mask.toBitVec.getLsbD bitIdx = true :=
      BitVec.getLsbD_true_clz_of_ne_zero (by decide) nonzero
    have cleared : ∀ i, after.mask.toBitVec.getLsbD i =
        (self.mask.toBitVec.getLsbD i && decide (i ≠ bitIdx)) := by
      intro i
      rw [UInt8.toBitVec_and, UInt8.toBitVec_not, toBitVec_mask (by omega)]
      exact getLsbD_and_not_one_shiftLeft _ (by omega) i
    -- every bit the cleared mask keeps is below the highest one
    have sorted : (after.items ++ [self.baseIdx + bitIdx]).Pairwise (· < ·) := by
      refine List.pairwise_append.mpr ⟨after.items_sorted, List.pairwise_singleton _ _, ?_⟩
      intro y member z last
      rw [List.mem_singleton] at last
      subst last
      obtain ⟨lower, set⟩ := mem_items.mp member
      change self.baseIdx ≤ y at lower
      change after.mask.toBitVec.getLsbD (y - self.baseIdx) = true at set
      rw [cleared, Bool.and_eq_true, decide_eq_true_eq] at set
      have notAbove : ¬ bitIdx < y - self.baseIdx := fun above => by
        rw [getLsbD_false_of_clz_lt above] at set
        exact Bool.false_ne_true set.1
      omega
    apply List.Pairwise.eq_of_mem_iff self.items_sorted sorted
    intro x
    rw [List.mem_append, List.mem_singleton, mem_items, mem_items]
    constructor
    · rintro ⟨lower, set⟩
      by_cases same : x - self.baseIdx = bitIdx
      · exact Or.inr (by omega)
      · exact Or.inl ⟨lower, by rw [cleared, set]; simpa using same⟩
    · rintro (⟨lower, set⟩ | rfl)
      · rw [cleared, Bool.and_eq_true] at set
        exact ⟨lower, set.1⟩
      · exact ⟨by omega, by rwa [Nat.add_sub_cancel_left]⟩

theorem represents : IterOnes.iter.Represents (fun _ => True) IterOnes.items :=
  ⟨fun _ => by
    obtain ⟨out, after, called, took⟩ := next_takes _
    exact ⟨out, after, called, trivial, took⟩,
  fun _ => by
    obtain ⟨out, after, called, took⟩ := nextBack_takes _
    exact ⟨out, after, called, trivial, took⟩⟩

end IterOnes

namespace BitVecMaskIter

variable {self : BitVecMaskIter}

/-- The masks the iterator has left, one for each word it has left. -/
def items (self : BitVecMaskIter) : List (Nat × UInt8) :=
  ((List.range' self.count self.words.length).zip self.words).filterMap fun (wordIdx, word) =>
    self.computeWordMask wordIdx word

/-- Each word left starts within a word above `start` and below `end`, so its mask needs no
shift of eight and no subtraction below zero. -/
def Inv (self : BitVecMaskIter) : Prop :=
  ∀ wordIdx, self.count ≤ wordIdx → wordIdx < self.count + self.words.length →
    self.start < (self.startWord + wordIdx) * 8 + 8 ∧ (self.startWord + wordIdx) * 8 < self.stop

/-- The positions a word's mask keeps: its set bits within the bounds. -/
def wordOnes (self : BitVecMaskIter) (wordIdx : Nat) (word : UInt8) : List Nat :=
  (List.range' ((self.startWord + wordIdx) * 8) 8).filter fun x =>
    word.toBitVec.getLsbD (x % 8) && decide (self.start ≤ x) && decide (x < self.stop)

/-- Past a zero word, the mask is the word with the bits below `start` and from `end` on
cleared: with the word's base at most a word below `start` and below `end`, neither shift
reaches eight. -/
theorem computeWordMask_of_ne_zero {wordIdx : Nat} {word : UInt8} (nonzero : word ≠ 0)
    (lower : self.start < (self.startWord + wordIdx) * 8 + 8)
    (upper : (self.startWord + wordIdx) * 8 < self.stop) :
    self.computeWordMask wordIdx word = some ((self.startWord + wordIdx) * 8,
      word &&& (~~~0 <<< UInt8.ofNat (self.start - (self.startWord + wordIdx) * 8)) &&&
        (~~~0 >>> UInt8.ofNat (8 - min (self.stop - (self.startWord + wordIdx) * 8) 8))) := by
  unfold computeWordMask
  generalize (self.startWord + wordIdx) * 8 = baseIdx at lower upper ⊢
  have lowerShift : self.start - baseIdx < 8 := by omega
  by_cases crossing : baseIdx + 8 > self.stop
  · have fits : self.stop ≤ 8 + baseIdx := by omega
    have shift : 8 - (self.stop - baseIdx) < 8 := by omega
    simp [nonzero, crossing, usizeSub, shl, shr, Nat.le_of_lt upper, lowerShift, shift, fits]
  · have bound : min (self.stop - baseIdx) 8 = 8 := by omega
    simp [nonzero, crossing, usizeSub, shl, shr, lowerShift, bound]

/-- The positions the mask keeps are the word's set bits within the bounds. -/
theorem computeWordMask_items {wordIdx : Nat}
    (lower : self.start < (self.startWord + wordIdx) * 8 + 8)
    (upper : (self.startWord + wordIdx) * 8 < self.stop) (word : UInt8) :
    ∃ mask, self.computeWordMask wordIdx word = some mask ∧
      (IterOnes.mk mask.1 mask.2).items = self.wordOnes wordIdx word := by
  by_cases zero : word = 0
  · refine ⟨(wordIdx, 0), by simp [computeWordMask, zero], ?_⟩
    rw [IterOnes.items_of_eq_zero rfl]
    simp [wordOnes, zero]
  · refine ⟨_, computeWordMask_of_ne_zero zero lower upper, ?_⟩
    unfold IterOnes.items wordOnes
    dsimp only
    generalize baseEq : (self.startWord + wordIdx) * 8 = baseIdx at lower upper ⊢
    apply List.filter_congr
    intro x member
    rw [List.mem_range'_1] at member
    have lowerShift : self.start - baseIdx < 8 := by omega
    have upperShift : 8 - min (self.stop - baseIdx) 8 < 8 := by omega
    rw [UInt8.toBitVec_and, UInt8.toBitVec_and, toBitVec_allOnes_shiftLeft lowerShift,
      toBitVec_allOnes_shiftRight upperShift, BitVec.getLsbD_and, BitVec.getLsbD_and,
      getLsbD_allOnes_shiftLeft, getLsbD_allOnes_ushiftRight,
      show x - baseIdx = x % 8 by omega]
    -- the shifts keep exactly the offsets of `start ≤ x < end` within the word
    have lowerKept : (decide (x % 8 < 8) && decide (self.start - baseIdx ≤ x % 8)) =
        decide (self.start ≤ x) := by
      rw [← Bool.decide_and, decide_eq_decide]
      omega
    have upperKept : decide (x % 8 + (8 - min (self.stop - baseIdx) 8) < 8) =
        decide (x < self.stop) := by
      rw [decide_eq_decide]
      omega
    rw [lowerKept, upperKept]

/-- The first word's mask heads the masks left, the rest numbered from the next count. -/
theorem items_cons {start stop startWord count : Nat} {word : UInt8} {words : List UInt8}
    {mask : Nat × UInt8}
    (masked : computeWordMask ⟨start, stop, startWord, count, word :: words⟩ count word = some mask) :
    items ⟨start, stop, startWord, count, word :: words⟩ =
      mask :: items ⟨start, stop, startWord, count + 1, words⟩ := by
  simp only [items, List.length_cons, List.range'_succ, List.zip_cons_cons, List.filterMap_cons,
    masked]
  rfl

theorem inv_next {start stop startWord count : Nat} {word : UInt8} {words : List UInt8}
    (inv : Inv ⟨start, stop, startWord, count, word :: words⟩) :
    Inv ⟨start, stop, startWord, count + 1, words⟩ := by
  intro wordIdx lower upper
  exact inv wordIdx (by simp only at lower ⊢; omega)
    (by simp only [List.length_cons] at upper ⊢; omega)

/-- `next` takes the first word's mask. -/
theorem next_takes (inv : self.Inv) :
    ∃ out after, self.next = some (out, after) ∧ after.Inv ∧ Takes .front self.items out after.items := by
  obtain ⟨start, stop, startWord, count, words⟩ := self
  cases words with
  | nil => exact ⟨none, _, rfl, inv, rfl, rfl⟩
  | cons word words =>
      obtain ⟨lower, upper⟩ := inv count (Nat.le_refl _) (by simp)
      obtain ⟨mask, masked, -⟩ := computeWordMask_items lower upper word
      refine ⟨some mask, ⟨start, stop, startWord, count + 1, words⟩, ?_, inv_next inv, ?_⟩
      · simp only [next, masked, Option.bind_eq_bind, Option.bind_some, Option.pure_def]
      · exact items_cons masked

/-- `next_back` takes the last word's mask, numbered past the words before it. -/
theorem nextBack_takes (inv : self.Inv) :
    ∃ out after, self.nextBack = some (out, after) ∧ after.Inv ∧
      Takes .back self.items out after.items := by
  obtain ⟨start, stop, startWord, count, words⟩ := self
  rcases List.eq_nil_or_concat words with empty | ⟨before, word, rfl⟩
  · subst empty
    exact ⟨none, _, rfl, inv, rfl, rfl⟩
  · rw [List.concat_eq_append] at inv ⊢
    obtain ⟨lower, upper⟩ := inv (count + before.length) (Nat.le_add_right _ _) (by simp)
    obtain ⟨mask, masked, -⟩ := computeWordMask_items lower upper word
    have afterInv : Inv ⟨start, stop, startWord, count, before⟩ := by
      intro wordIdx lowerIdx upperIdx
      exact inv wordIdx lowerIdx
        (by simp only [List.length_append, List.length_singleton] at upperIdx ⊢; omega)
    refine ⟨some mask, ⟨start, stop, startWord, count, before⟩, ?_, afterInv, ?_⟩
    · simp only [nextBack, List.getLast?_append_of_ne_nil _ (List.cons_ne_nil word []),
        List.getLast?_singleton, List.dropLast_concat, masked, Option.bind_eq_bind,
        Option.bind_some, Option.pure_def]
    · show items ⟨start, stop, startWord, count, before ++ [word]⟩ =
        items ⟨start, stop, startWord, count, before⟩ ++ [mask]
      simp only [items, List.length_append, List.length_singleton, List.range'_concat,
        Nat.one_mul]
      rw [List.zip_append (by simp), List.filterMap_append]
      simp only [List.zip_cons_cons, List.zip_nil_right, List.filterMap_cons, masked,
        List.filterMap_nil]
      rfl

theorem represents : BitVecMaskIter.iter.Represents Inv items :=
  ⟨next_takes, nextBack_takes⟩

/-- The positions of the masks left are the set bits of the words left within the bounds. -/
theorem flatMap_items (inv : self.Inv) :
    self.items.flatMap (fun mask => (IterOnes.mk mask.1 mask.2).items) =
      (List.range' ((self.startWord + self.count) * 8) (8 * self.words.length)).filter fun x =>
        (self.words.getD (x / 8 - self.startWord - self.count) 0).toBitVec.getLsbD (x % 8) &&
          decide (self.start ≤ x) && decide (x < self.stop) := by
  obtain ⟨start, stop, startWord, count, words⟩ := self
  induction words generalizing count with
  | nil => rfl
  | cons word words ih =>
      obtain ⟨lower, upper⟩ := inv count (Nat.le_refl _) (by simp)
      obtain ⟨mask, masked, ones⟩ := computeWordMask_items lower upper word
      have rest := ih (count + 1) (inv_next inv)
      have split : List.range' ((startWord + count) * 8) (8 * (words.length + 1)) =
          List.range' ((startWord + count) * 8) 8 ++
            List.range' ((startWord + (count + 1)) * 8) (8 * words.length) := by
        rw [show (startWord + (count + 1)) * 8 = (startWord + count) * 8 + 1 * 8 by omega,
          List.range'_append]
        congr 1
        omega
      dsimp only at rest ones ⊢
      rw [items_cons masked, List.flatMap_cons, rest, ones, wordOnes, List.length_cons, split,
        List.filter_append]
      dsimp only
      -- the first word's positions read it, and the rest read the words after it
      congr 1
      · apply List.filter_congr
        intro x member
        rw [List.mem_range'_1] at member
        rw [show x / 8 - startWord - count = 0 by omega, List.getD_cons_zero]
      · apply List.filter_congr
        intro x member
        rw [List.mem_range'_1] at member
        rw [show x / 8 - startWord - count = x / 8 - startWord - (count + 1) + 1 by omega,
          List.getD_cons_succ]

end BitVecMaskIter

namespace RangeBounds

/-- The bounds `from_range_bounds` takes without overflow: an excluded start and an included end
below `usize::MAX`. -/
def Fits (bounds : RangeBounds) : Prop :=
  (match bounds.startBound with
    | .excluded n => n + 1 < 2 ^ 64
    | _ => True) ∧
  (match bounds.endBound with
    | .included n => n + 1 < 2 ^ 64
    | _ => True)

/-- The first position the bounds admit. -/
def first (bounds : RangeBounds) : Nat :=
  match bounds.startBound with
  | .included n => n
  | .excluded n => n + 1
  | .unbounded => 0

/-- The first position past the bounds, `numBits` when they have no end. -/
def past (numBits : Nat) (bounds : RangeBounds) : Nat :=
  match bounds.endBound with
  | .included n => n + 1
  | .excluded n => n
  | .unbounded => numBits

theorem contains_iff (bounds : RangeBounds) {numBits x : Nat} (below : x < numBits) :
    bounds.contains x = true ↔ bounds.first ≤ x ∧ x < bounds.past numBits := by
  obtain ⟨startBound, endBound⟩ := bounds
  -- each bound compares `x` with its own end of the range
  cases startBound <;> cases endBound <;>
    simp only [contains, first, past, Bool.and_eq_true, decide_eq_true_eq, Bool.and_true,
      Bool.true_and, Nat.zero_le, true_and, true_iff] <;> omega

end RangeBounds

namespace BitVecSlice

variable {numBits : Nat} (bitVec : BitVec numBits)

section Words

variable {start stop startWord : Nat} {words : List UInt8}

/-- The words from the start's to the end's, rounded out, number as many as the end's word is
past the first one. -/
theorem length_words (stopLe : stop ≤ numBits)
    (wordsEq : words = (bitVec.words.drop startWord).take ((stop + 7) / 8 - startWord)) :
    words.length = (stop + 7) / 8 - startWord := by
  have endLe : (stop + 7) / 8 ≤ bitVec.words.length := by
    rw [bitVec.length_words, numWords]
    omega
  rw [wordsEq, List.length_take, List.length_drop]
  omega

/-- Each word kept lies within a word of the bounds: the first is the start's unless the start is
past the end, and the last is the end's. -/
theorem inv_words (startWordEq : startWord = min (start / 8) ((stop + 7) / 8))
    (length : words.length = (stop + 7) / 8 - startWord) :
    BitVecMaskIter.Inv ⟨start, stop, startWord, 0, words⟩ := by
  intro wordIdx _ upper
  dsimp only at upper ⊢
  omega

/-- A kept word reads as the bit vector's word at the same position. -/
theorem getD_words (wordsEq : words = (bitVec.words.drop startWord).take ((stop + 7) / 8 - startWord))
    (x : Nat) (lower : startWord ≤ x / 8) (upper : x / 8 < (stop + 7) / 8) :
    words.getD (x / 8 - startWord - 0) 0 = bitVec.words.getD (x / 8) 0 := by
  rw [wordsEq, Nat.sub_zero, List.getD_eq_getElem?_getD, List.getD_eq_getElem?_getD,
    List.getElem?_take_of_lt (by omega), List.getElem?_drop, Nat.add_sub_of_le lower]

/-- The masks of the kept words keep the bit vector's set bits from `start` to before `stop`. -/
theorem flatMap_items_words (stopLe : stop ≤ numBits)
    (startWordEq : startWord = min (start / 8) ((stop + 7) / 8))
    (wordsEq : words = (bitVec.words.drop startWord).take ((stop + 7) / 8 - startWord)) :
    (BitVecMaskIter.items ⟨start, stop, startWord, 0, words⟩).flatMap
        (fun mask => (IterOnes.mk mask.1 mask.2).items) =
      (List.range' start (stop - start)).filter bitVec.contains := by
  have length := length_words bitVec stopLe wordsEq
  rw [BitVecMaskIter.flatMap_items (inv_words startWordEq length)]
  apply List.Pairwise.eq_of_mem_iff ((List.pairwise_lt_range').filter _)
    ((List.pairwise_lt_range').filter _)
  intro x
  dsimp only
  simp only [List.mem_filter, List.mem_range'_1, Bool.and_eq_true, decide_eq_true_eq,
    BitVec.contains_eq, length]
  -- a position within the bounds lies in a kept word, which reads as the bit vector's
  constructor
  · rintro ⟨-, ⟨set, lower⟩, upper⟩
    rw [getD_words bitVec wordsEq x (by omega) (by omega)] at set
    exact ⟨⟨lower, by omega⟩, by omega, set⟩
  · rintro ⟨⟨lower, upper⟩, -, set⟩
    rw [← getD_words bitVec wordsEq x (by omega) (by omega)] at set
    exact ⟨by omega, ⟨set, lower⟩, by omega⟩

end Words

variable {bounds : RangeBounds}

/-- On bounds that fit, `from_range_bounds` never panics: it cuts the bounds to `NUM_BITS` and
keeps the words from the start's to the end's. -/
theorem fromRangeBounds_eq (fits : bounds.Fits) :
    ∃ startWord words, fromRangeBounds bitVec bounds = some ⟨⟨min bounds.first numBits,
      min (bounds.past numBits) numBits, startWord, 0, words⟩⟩ ∧
      startWord = min (min bounds.first numBits / 8) ((min (bounds.past numBits) numBits + 7) / 8) ∧
      words = (bitVec.words.drop startWord).take
        ((min (bounds.past numBits) numBits + 7) / 8 - startWord) := by
  have endLe : ∀ stop, (min stop numBits + 7) / 8 ≤ bitVec.words.length := by
    intro stop
    rw [bitVec.length_words, numWords]
    omega
  obtain ⟨startBound, endBound⟩ := bounds
  obtain ⟨startFits, endFits⟩ := fits
  -- the `+ 1`s that fit give the bounds' ends, and the slice is in order and within the words
  cases startBound <;> cases endBound <;>
    simp only [fromRangeBounds, usizeSucc, RangeBounds.first, RangeBounds.past]
      at startFits endFits ⊢ <;>
    simp only [startFits, endFits, if_true, Option.bind_eq_bind, Option.bind_some, min_le_right,
      endLe, and_self] <;>
    exact ⟨_, _, rfl, rfl, rfl⟩

/-- The range's masks keep the set bits `BitVec.range` lists for the bounds. -/
theorem fromRangeBounds_items (fits : bounds.Fits) :
    ∃ slice, fromRangeBounds bitVec bounds = some slice ∧ slice.maskIter.Inv ∧
      slice.maskIter.items.flatMap (fun mask => (IterOnes.mk mask.1 mask.2).items) =
        bitVec.range bounds.first (bounds.past numBits) := by
  obtain ⟨startWord, words, sliced, startWordEq, wordsEq⟩ := fromRangeBounds_eq bitVec fits
  have stopLe := Nat.min_le_right (bounds.past numBits) numBits
  refine ⟨_, sliced, inv_words startWordEq (length_words bitVec stopLe wordsEq), ?_⟩
  rw [flatMap_items_words bitVec stopLe startWordEq wordsEq]
  rfl

end BitVecSlice

/-- What `iter_ones` has left: the set bits its open `IterOnes` and its masks keep. -/
def onesItems : DoubleEnded.FlatMap BitVecMaskIter IterOnes → List Nat :=
  FlatMap.items BitVecMaskIter.items IterOnes.items fun mask => ⟨mask.1, mask.2⟩

theorem onesItems_iterOnes (slice : BitVecSlice) :
    onesItems slice.iterOnes =
      slice.maskIter.items.flatMap fun mask => (IterOnes.mk mask.1 mask.2).items := by
  simp only [onesItems, FlatMap.items, openItems, BitVecSlice.iterOnes, List.nil_append,
    List.append_nil]
  rfl

/-- `range(start..end).iter_ones()` on a shred index has left, before any call, the positions
`ShredIndexV2.range` lists. -/
theorem ShredIndexV2.onesItems_range (self : ShredIndexV2) (start stop : Nat) :
    ∃ slice, BitVecSlice.fromRangeBounds self.index ⟨.included start, .excluded stop⟩ = some slice ∧
      onesItems slice.iterOnes = self.range start stop := by
  have fits : RangeBounds.Fits ⟨.included start, .excluded stop⟩ := ⟨trivial, trivial⟩
  obtain ⟨slice, sliced, -, kept⟩ := BitVecSlice.fromRangeBounds_items self.index fits
  exact ⟨slice, sliced, by rw [onesItems_iterOnes, kept]; rfl⟩

/-- `BitVec::iter_ones`, which is `range(..NUM_BITS).iter_ones()`, has left before any call the
positions `BitVec.iterOnes` lists. -/
theorem BitVec.onesItems_full_range {numBits : Nat} (bitVec : BitVec numBits) :
    ∃ slice, BitVecSlice.fromRangeBounds bitVec ⟨.unbounded, .excluded numBits⟩ = some slice ∧
      onesItems slice.iterOnes = bitVec.iterOnes := by
  have fits : RangeBounds.Fits ⟨.unbounded, .excluded numBits⟩ := ⟨trivial, trivial⟩
  obtain ⟨slice, sliced, -, kept⟩ := BitVecSlice.fromRangeBounds_items bitVec fits
  refine ⟨slice, sliced, ?_⟩
  rw [onesItems_iterOnes, kept, BitVec.range, BitVec.iterOnes, List.range_eq_range']
  simp [RangeBounds.first, RangeBounds.past]

end Validator.Ledger
