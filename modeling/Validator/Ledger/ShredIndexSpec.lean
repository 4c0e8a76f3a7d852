import Validator.Data.BitSet
import Validator.Ledger.ShredIndex

namespace Validator.Ledger

open Validator.Data.BitSet

/-! # What the data shred index holds

`BitVec` reads bit `idx` of its bytes with the one-bit mask of `idx % 8`, and `insert` ors that
mask in.  Over these lemmas the index is the set of the positions it holds: `insert` adds one
and counts it when it is new, and `range` lists the held positions between two bounds.
-/

section Byte

variable {bit : Nat}

theorem toBitVec_mask (bound : bit < 8) : (1 <<< UInt8.ofNat bit : UInt8).toBitVec = 1#8 <<< bit := by
  rw [UInt8.toBitVec_shiftLeft, UInt8.toBitVec_one, BitVec.shiftLeft_eq']
  congr 1
  simp
  omega

theorem and_mask_ne_zero (word : UInt8) (bound : bit < 8) :
    (word &&& 1 <<< UInt8.ofNat bit != 0) = word.toBitVec.getLsbD bit := by
  have cleared := and_one_shiftLeft_eq_zero_iff (x := word.toBitVec) bound
  rw [← toBitVec_mask bound, ← UInt8.toBitVec_and] at cleared
  rw [Bool.eq_iff_iff, bne_iff_ne, ne_eq, UInt8.eq_iff_toBitVec_eq, UInt8.toBitVec_zero, cleared,
    Bool.not_eq_false]

theorem getLsbD_or_mask (word : UInt8) (bound : bit < 8) (j : Nat) :
    (word ||| 1 <<< UInt8.ofNat bit).toBitVec.getLsbD j = (decide (j = bit) || word.toBitVec.getLsbD j) := by
  rw [UInt8.toBitVec_or, BitVec.getLsbD_or, toBitVec_mask bound, getLsbD_one_shiftLeft bound,
    Bool.or_comm]

theorem or_mask_eq_self_iff (word : UInt8) (bound : bit < 8) :
    word ||| 1 <<< UInt8.ofNat bit = word ↔ word.toBitVec.getLsbD bit = true := by
  rw [UInt8.eq_iff_toBitVec_eq]
  constructor
  · intro same
    have atBit : (word ||| 1 <<< UInt8.ofNat bit).toBitVec.getLsbD bit = word.toBitVec.getLsbD bit := by
      rw [same]
    rw [getLsbD_or_mask word bound, decide_eq_true rfl, Bool.true_or] at atBit
    exact atBit.symm
  · intro set
    apply BitVec.eq_of_getLsbD_eq
    intro j _
    rw [getLsbD_or_mask word bound]
    by_cases same : j = bit
    · subst same
      simp [set]
    · simp [same]

end Byte

namespace BitVec

variable {numBits : Nat} (self : BitVec numBits)

theorem contains_eq (idx : Nat) :
    self.contains idx = (decide (idx < numBits) && (self.words.getD (idx / 8) 0).toBitVec.getLsbD (idx % 8)) := by
  unfold contains locationOf
  by_cases inside : idx < numBits
  · simp [inside, and_mask_ne_zero _ (Nat.mod_lt idx (by decide : 8 > 0))]
  · simp [inside]

theorem lt_of_contains {idx : Nat} (held : self.contains idx = true) : idx < numBits := by
  rw [contains_eq, Bool.and_eq_true, decide_eq_true_eq] at held
  exact held.1

theorem getD_set_words {wordIdx : Nat} (word : UInt8) (inside : wordIdx < numWords numBits) (j : Nat) :
    (self.words.set wordIdx word).getD j 0 = if wordIdx = j then word else self.words.getD j 0 := by
  have bound : wordIdx < self.words.length := self.length_words ▸ inside
  simp only [List.getD_eq_getElem?_getD, List.getElem?_set, bound, if_true]
  split <;> simp_all

/-- Writing back the word of `idx` with the bit of `idx` made `bit` and the others kept changes
what `contains` says at `idx` only. -/
theorem contains_set_word {idx : Nat} (bound : idx < numBits) {next : UInt8} {bit : Bool}
    (kept : ∀ j, next.toBitVec.getLsbD j =
      if j = idx % 8 then bit else (self.words.getD (idx / 8) 0).toBitVec.getLsbD j)
    (length : (self.words.set (idx / 8) next).length = numWords numBits) (j : Nat) :
    (⟨self.words.set (idx / 8) next, length⟩ : BitVec numBits).contains j =
      if j = idx then bit else self.contains j := by
  have word : idx / 8 < numWords numBits := by unfold numWords; omega
  rw [contains_eq, contains_eq]
  dsimp only
  rw [getD_set_words self _ word]
  by_cases same : j = idx
  · subst same
    simp [bound, kept]
  · by_cases sameWord : idx / 8 = j / 8
    · -- another bit of the same byte
      have offset : j % 8 ≠ idx % 8 := by omega
      simp [same, sameWord, kept, offset]
    · simp [same, sameWord]

theorem insertUnchecked_fst {idx : Nat} (bound : idx < numBits) :
    (self.insertUnchecked idx).1 = !self.contains idx := by
  have bit := Nat.mod_lt idx (by decide : 8 > 0)
  unfold insertUnchecked locationOf
  dsimp only
  rw [contains_eq, decide_eq_true bound, Bool.true_and]
  split
  · case isTrue changed =>
      simp only [bne_iff_ne, ne_eq] at changed
      have clear := mt (or_mask_eq_self_iff _ bit).mpr (Ne.symm changed)
      simp only [Bool.not_eq_true] at clear
      simp only [clear, Bool.not_false]
  · case isFalse unchanged =>
      simp only [bne_iff_ne, ne_eq, Decidable.not_not] at unchanged
      have set := (or_mask_eq_self_iff _ bit).mp unchanged.symm
      simp only [set, Bool.not_true]

theorem contains_insertUnchecked {idx : Nat} (bound : idx < numBits) (j : Nat) :
    (self.insertUnchecked idx).2.contains j = (decide (j = idx) || self.contains j) := by
  have bit := Nat.mod_lt idx (by decide : 8 > 0)
  unfold insertUnchecked locationOf
  dsimp only
  split
  · case isTrue changed =>
      have kept : ∀ j, (self.words.getD (idx / 8) 0 ||| 1 <<< UInt8.ofNat (idx % 8)).toBitVec.getLsbD j =
          if j = idx % 8 then true else (self.words.getD (idx / 8) 0).toBitVec.getLsbD j := by
        intro j
        rw [getLsbD_or_mask _ bit]
        by_cases same : j = idx % 8 <;> simp [same]
      rw [contains_set_word self bound kept]
      by_cases same : j = idx <;> simp [same]
  · case isFalse unchanged =>
      -- the bit was set already, so `j = idx` adds nothing
      simp only [bne_iff_ne, ne_eq, Decidable.not_not] at unchanged
      have set := (or_mask_eq_self_iff _ bit).mp unchanged.symm
      by_cases same : j = idx
      · subst same
        rw [contains_eq, decide_eq_true bound, Bool.true_and, set, Bool.or_true]
      · simp [same]

/-- The set a bit vector stands for: the positions below `NUM_BITS` whose bit is set. -/
def ones : Finset Nat :=
  (Finset.range numBits).filter fun idx => (self.words.getD (idx / 8) 0).toBitVec.getLsbD (idx % 8)

end BitVec

namespace ShredIndexV2

variable (self : ShredIndexV2)

theorem lt_of_contains {idx : Nat} (held : self.contains idx = true) : idx < maxDataShredsPerSlot :=
  self.index.lt_of_contains held

@[simp] theorem contains_default (idx : Nat) : ShredIndexV2.default.contains idx = false := by
  have zero : ∀ n i, (List.replicate n (0 : UInt8)).getD i 0 = 0 := by
    intro n i
    simp only [List.getD_eq_getElem?_getD, List.getElem?_replicate]
    split <;> rfl
  rw [contains, ShredIndexV2.default, BitVec.contains_eq, BitVec.default]
  simp only [zero, UInt8.toBitVec_zero, BitVec.getLsbD_zero, Bool.and_false]

theorem contains_insert {idx : Nat} (bound : idx < maxDataShredsPerSlot) (j : Nat) :
    (self.insert idx).contains j = (decide (j = idx) || self.contains j) := by
  have added := self.index.contains_insertUnchecked bound j
  have changed := self.index.insertUnchecked_fst bound
  unfold insert BitVec.insert
  rw [if_neg (Nat.not_le.mpr bound)]
  cases pair : self.index.insertUnchecked idx with
  | mk new index =>
      rw [pair] at added changed
      cases new with
      | true => exact added
      | false =>
          -- nothing changed: the bit of `idx` was set already
          have held : self.contains idx = true := by
            simpa [contains] using changed.symm
          show self.contains j = _
          by_cases same : j = idx
          · subst same
            simp [held]
          · simp [same]

theorem numShreds_insert {idx : Nat} (bound : idx < maxDataShredsPerSlot) :
    (self.insert idx).numShreds = self.numShreds + if self.contains idx then 0 else 1 := by
  have changed := self.index.insertUnchecked_fst bound
  unfold insert BitVec.insert
  rw [if_neg (Nat.not_le.mpr bound)]
  cases pair : self.index.insertUnchecked idx with
  | mk new index =>
      rw [pair] at changed
      cases new with
      | true =>
          have clear : self.contains idx = false := by simpa [contains] using changed.symm
          simp [clear]
      | false =>
          have held : self.contains idx = true := by simpa [contains] using changed.symm
          simp [held]

/-- `range(start..end).eq(start..end)`: the index holds every position from `start` to before
`end`. -/
theorem range_eq_iff {start stop : Nat} :
    self.range start stop = List.range' start (stop - start) ↔
      ∀ j, start ≤ j → j < stop → self.contains j = true := by
  unfold range BitVec.range
  dsimp only
  constructor
  · intro same j lower upper
    have member : j ∈ List.range' start (stop - start) := List.mem_range'_1.mpr ⟨lower, by omega⟩
    rw [← same] at member
    exact (List.mem_filter.mp member).2
  · intro held
    by_cases empty : stop ≤ start
    · have none : min stop maxDataShredsPerSlot - min start maxDataShredsPerSlot = 0 := by omega
      rw [none, Nat.sub_eq_zero_of_le empty]
      rfl
    · -- the last position is held, so the range lies below `MAX_DATA_SHREDS_PER_SLOT`
      have inside := self.lt_of_contains (held (stop - 1) (by omega) (by omega))
      rw [Nat.min_eq_left (by omega : start ≤ maxDataShredsPerSlot),
        Nat.min_eq_left (by omega : stop ≤ maxDataShredsPerSlot), List.filter_eq_self]
      intro j member
      obtain ⟨lower, upper⟩ := List.mem_range'_1.mp member
      exact held j lower (by omega)

end ShredIndexV2

end Validator.Ledger
