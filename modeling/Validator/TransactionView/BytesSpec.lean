import Mathlib.Data.Nat.Bitwise
import Validator.Data.PrefixAt
import Validator.TransactionView.Wire

namespace Validator.View

open Validator.Data

/-! # What the byte readers read

In a packet shorter than `2^32` bytes no offset comes near where `usize` wraps, so each reader
is specified by the encoding at its offset: it succeeds exactly when that encoding is there
(`…_of_prefixAt`), and what it read is then that encoding (`…_eq_ok`).
-/

namespace Usize

theorem wrappingAdd_of_lt {a b : Nat} (small : a + b < 2 ^ 64) : wrappingAdd a b = a + b :=
  Nat.mod_eq_of_lt small

theorem wrappingMul_of_lt {a b : Nat} (small : a * b < 2 ^ 64) : wrappingMul a b = a * b :=
  Nat.mod_eq_of_lt small

theorem wrappingSub_of_le {a b : Nat} (le : b ≤ a) (small : a < 2 ^ 64) :
    wrappingSub a b = a - b := by
  unfold wrappingSub
  rw [Nat.mod_eq_of_lt (by omega : b < 2 ^ 64)]
  calc (a + (2 ^ 64 - b)) % 2 ^ 64 = (a - b + 2 ^ 64) % 2 ^ 64 := by congr 1; omega
    _ = a - b := by rw [Nat.add_mod_right, Nat.mod_eq_of_lt (by omega)]

end Usize

/-! ## Single bytes -/

theorem UInt8.and_0x80_eq_zero_iff (byte : UInt8) : byte &&& 0x80 = 0 ↔ byte.toNat < 128 := by
  have small := UInt8.toNat_lt byte
  rw [← UInt8.toNat_inj, UInt8.toNat_and]
  show byte.toNat &&& 2 ^ 7 = 0 ↔ _
  rw [Nat.and_two_pow, Nat.testBit_eq_decide_div_mod_eq]
  by_cases high : byte.toNat / 2 ^ 7 % 2 = 1 <;> simp <;> omega

theorem UInt8.toNat_and_0x7F (byte : UInt8) : (byte &&& 0x7F).toNat = byte.toNat % 128 := by
  rw [UInt8.toNat_and]
  exact Nat.and_two_pow_sub_one_eq_mod byte.toNat 7

theorem UInt8.toNat_and_0x7F_toUInt16 (byte : UInt8) :
    (byte &&& 0x7F).toUInt16.toNat = byte.toNat % 128 := by
  rw [UInt8.toNat_toUInt16, UInt8.toNat_and_0x7F]

/-- The two seven-bit groups of a two-byte `ShortU16`. -/
theorem toNat_twoBytes (byte1 byte2 : UInt8) :
    ((byte1 &&& 0x7F).toUInt16 ||| (byte2 &&& 0x7F).toUInt16 <<< 7).toNat =
      byte1.toNat % 128 + byte2.toNat % 128 * 128 := by
  have low : byte1.toNat % 128 < 2 ^ 7 := Nat.mod_lt _ (by decide)
  have high : byte2.toNat % 128 < 128 := Nat.mod_lt _ (by decide)
  rw [UInt16.toNat_or, UInt16.toNat_shiftLeft, UInt8.toNat_and_0x7F_toUInt16,
    UInt8.toNat_and_0x7F_toUInt16, show ((7 : UInt16).toNat % 16) = 7 from rfl, Nat.shiftLeft_eq,
    Nat.mod_eq_of_lt (by omega : byte2.toNat % 128 * 2 ^ 7 < 2 ^ 16), Nat.lor_comm,
    ← Nat.shiftLeft_eq, ← Nat.shiftLeft_add_eq_or_of_lt low, Nat.shiftLeft_eq]
  omega

theorem UInt8.toNat_ofNat_of_lt {value : Nat} (small : value < 256) :
    (UInt8.ofNat value).toNat = value := by
  rw [UInt8.toNat_ofNat', Nat.mod_eq_of_lt small]

theorem UInt16.toNat_ofNat_of_lt {value : Nat} (small : value < 2 ^ 16) :
    (UInt16.ofNat value).toNat = value := by
  rw [UInt16.toNat_ofNat', Nat.mod_eq_of_lt small]

section Reading

variable {bytes : List UInt8} {offset : Nat}

theorem checkRemaining_eq (inside : offset ≤ bytes.length) (short : bytes.length < 2 ^ 64)
    (numBytes : Nat) :
    checkRemaining bytes offset numBytes =
      if offset + numBytes ≤ bytes.length then .ok () else .error .parseError := by
  unfold checkRemaining
  rw [Usize.wrappingSub_of_le inside short]
  by_cases fits : offset + numBytes ≤ bytes.length
  · rw [if_neg (by omega), if_pos fits]
  · rw [if_pos (by omega), if_neg fits]

theorem readByte_of_getElem? {value : UInt8} (found : bytes[offset]? = some value)
    (short : bytes.length < 2 ^ 64) : readByte bytes offset = .ok (value, offset + 1) := by
  have inside := (List.getElem?_eq_some_iff.mp found).1
  simp only [readByte, found, Usize.wrappingAdd_of_lt (by omega : offset + 1 < 2 ^ 64)]

theorem readByte_eq_ok {value : UInt8} {next : Nat}
    (read : readByte bytes offset = .ok (value, next)) (short : bytes.length < 2 ^ 64) :
    bytes[offset]? = some value ∧ next = offset + 1 := by
  unfold readByte at read
  split at read
  · rename_i found
    have inside := (List.getElem?_eq_some_iff.mp found).1
    simp only [Except.ok.injEq, Prod.mk.injEq] at read
    rw [← read.1, Usize.wrappingAdd_of_lt (by omega)] at *
    exact ⟨found, read.2.symm⟩
  · cases read

/-- Advancing over `numElements` elements of `size` bytes. -/
theorem advanceOffsetForArray_eq_ok_iff (inside : offset ≤ bytes.length)
    (short : bytes.length < 2 ^ 32) {size : Nat} (sizeBound : size ≤ 2 ^ 16)
    (numElements : UInt16) {next : Nat} :
    advanceOffsetForArray size bytes offset numElements = .ok next ↔
      offset + numElements.toNat * size ≤ bytes.length ∧ next = offset + numElements.toNat * size := by
  have elements := UInt16.toNat_lt numElements
  have product : numElements.toNat * size < 2 ^ 64 :=
    calc numElements.toNat * size ≤ 2 ^ 16 * 2 ^ 16 :=
          Nat.mul_le_mul (Nat.le_of_lt elements) sizeBound
      _ < 2 ^ 64 := by decide
  by_cases fits : offset + numElements.toNat * size ≤ bytes.length
  · simp [advanceOffsetForArray, Usize.wrappingMul_of_lt product,
      checkRemaining_eq inside (by omega), fits, bind, Except.bind, pure, Except.pure,
      Usize.wrappingAdd_of_lt (by omega : offset + numElements.toNat * size < 2 ^ 64), eq_comm]
  · simp [advanceOffsetForArray, Usize.wrappingMul_of_lt product,
      checkRemaining_eq inside (by omega), fits, bind, Except.bind]

theorem advanceOffsetForType_eq_ok_iff (inside : offset ≤ bytes.length)
    (short : bytes.length < 2 ^ 32) {size : Nat} {next : Nat} :
    advanceOffsetForType size bytes offset = .ok next ↔
      offset + size ≤ bytes.length ∧ next = offset + size := by
  by_cases fits : offset + size ≤ bytes.length
  · simp [advanceOffsetForType, checkRemaining_eq inside (by omega), fits, bind, Except.bind,
      pure, Except.pure, Usize.wrappingAdd_of_lt (by omega : offset + size < 2 ^ 64), eq_comm]
  · simp [advanceOffsetForType, checkRemaining_eq inside (by omega), fits, bind, Except.bind]

/-- A `T` cast from the bytes at an offset is those bytes. -/
theorem toList_typeAt {size : Nat} (bound : offset + size ≤ bytes.length) :
    (typeAt bytes offset size).toList = bytesAt bytes offset size :=
  toList_ofFn_getD 0 bound

theorem typeAt_of_prefixAt {size : Nat} {value : Vector UInt8 size}
    (at_ : PrefixAt bytes offset value.toList) : typeAt bytes offset size = value := by
  apply Vector.ext
  intro position inside
  rw [typeAt, Vector.getElem_ofFn, at_.getD (by simpa using inside), Vector.getElem_toList]

theorem readType_of_le {size : Nat} (fits : offset + size ≤ bytes.length)
    (short : bytes.length < 2 ^ 32) :
    readType size bytes offset = .ok (typeAt bytes offset size, offset + size) := by
  have advanced := (advanceOffsetForType_eq_ok_iff (by omega) short).mpr ⟨fits, rfl⟩
  simp only [readType, bind, Except.bind, advanced, pure, Except.pure]

/-! ## Compressed lengths -/

theorem encodeShortU16_of_lt_128 {value : Nat} (small : value < 128) :
    encodeShortU16 value = [UInt8.ofNat value] := by
  simp [encodeShortU16, encodeShortU16Loop, Nat.div_eq_of_lt small, Nat.mod_eq_of_lt small]

theorem encodeShortU16_of_ge_128 {value : Nat} (large : 128 ≤ value) (small : value < 2 ^ 14) :
    encodeShortU16 value = [UInt8.ofNat (value % 128 + 128), UInt8.ofNat (value / 128)] := by
  have high : value / 128 ≠ 0 := by omega
  have top : value / 128 / 128 = 0 := by omega
  have low : value / 128 % 128 = value / 128 := by omega
  simp [encodeShortU16, encodeShortU16Loop, high, top, low]

theorem length_encodeShortU16_pos (value : Nat) : 1 ≤ (encodeShortU16 value).length := by
  unfold encodeShortU16 encodeShortU16Loop
  split <;> simp

theorem length_encodeShortU16_le {value : Nat} (small : value < 2 ^ 14) :
    (encodeShortU16 value).length ≤ 2 := by
  by_cases below : value < 128
  · simp [encodeShortU16_of_lt_128 below]
  · simp [encodeShortU16_of_ge_128 (Nat.le_of_not_lt below) small]

/-- A minimally encoded length below `2^14` reads back. -/
theorem optimizedReadCompressedU16_of_prefixAt {value : Nat} (small : value < 2 ^ 14)
    (at_ : PrefixAt bytes offset (encodeShortU16 value)) (short : bytes.length < 2 ^ 32) :
    optimizedReadCompressedU16 bytes offset =
      .ok (UInt16.ofNat value, offset + (encodeShortU16 value).length) := by
  have fits := at_.le_length
  by_cases below : value < 128
  · rw [encodeShortU16_of_lt_128 below] at at_ fits ⊢
    have found := (prefixAt_cons.mp at_).1
    have byte : (UInt8.ofNat value).toNat = value := UInt8.toNat_ofNat_of_lt (by omega)
    have clear : (UInt8.ofNat value &&& 0x80) = 0 := (UInt8.and_0x80_eq_zero_iff _).mpr (by omega)
    have result : (UInt8.ofNat value &&& 0x7F).toUInt16 = UInt16.ofNat value := by
      rw [← UInt16.toNat_inj, UInt8.toNat_and_0x7F_toUInt16, byte, UInt16.toNat_ofNat']
      omega
    simp only [optimizedReadCompressedU16, found, clear, beq_self_eq_true, if_true, result,
      List.length_singleton, Usize.wrappingAdd_of_lt (by omega : offset + 1 < 2 ^ 64)]
  · rw [encodeShortU16_of_ge_128 (Nat.le_of_not_lt below) small] at at_ fits ⊢
    obtain ⟨found1, at2⟩ := prefixAt_cons.mp at_
    have found2 := (prefixAt_cons.mp at2).1
    have byte1 : (UInt8.ofNat (value % 128 + 128)).toNat = value % 128 + 128 :=
      UInt8.toNat_ofNat_of_lt (by omega)
    have byte2 : (UInt8.ofNat (value / 128)).toNat = value / 128 :=
      UInt8.toNat_ofNat_of_lt (by omega)
    have set1 : (UInt8.ofNat (value % 128 + 128) &&& 0x80 == 0) = false := by
      rw [beq_eq_false_iff_ne, ne_eq, UInt8.and_0x80_eq_zero_iff, byte1]
      omega
    have valid2 : (UInt8.ofNat (value / 128) == 0 || UInt8.ofNat (value / 128) &&& 0x80 != 0) =
        false := by
      rw [Bool.or_eq_false_iff, beq_eq_false_iff_ne, bne_eq_false_iff_eq,
        UInt8.and_0x80_eq_zero_iff, byte2, ne_eq, ← UInt8.toNat_inj, byte2]
      exact ⟨by simp; omega, by omega⟩
    have result : ((UInt8.ofNat (value % 128 + 128) &&& 0x7F).toUInt16 |||
        (UInt8.ofNat (value / 128) &&& 0x7F).toUInt16 <<< 7) = UInt16.ofNat value := by
      rw [← UInt16.toNat_inj, toNat_twoBytes, byte1, byte2, UInt16.toNat_ofNat']
      omega
    simp only [optimizedReadCompressedU16, found1,
      Usize.wrappingAdd_of_lt (by omega : offset + 1 < 2 ^ 64), found2, set1, valid2,
      Bool.false_eq_true, if_false, result, List.length_cons, List.length_nil,
      Usize.wrappingAdd_of_lt (by omega : offset + 2 < 2 ^ 64)]

/-- Where the two-byte reader succeeds, the three-byte one reads the same. -/
theorem readCompressedU16_of_optimized {read : UInt16 × Nat}
    (optimized : optimizedReadCompressedU16 bytes offset = .ok read)
    (short : bytes.length < 2 ^ 32) :
    readCompressedU16 bytes offset = .ok read := by
  unfold optimizedReadCompressedU16 at optimized
  cases found1 : bytes[offset]? with
  | none => simp [found1] at optimized
  | some byte1 =>
      have inside1 := (List.getElem?_eq_some_iff.mp found1).1
      have start : Usize.wrappingAdd offset 0 = offset := Usize.wrappingAdd_of_lt (by omega)
      simp only [found1] at optimized
      by_cases done1 : (byte1 &&& 0x80 == 0) = true
      · -- One byte ends the encoding.
        simp only [done1, if_true, Except.ok.injEq] at optimized
        subst optimized
        simp [readCompressedU16, readCompressedU16Loop, start, found1, done1]
      · simp only [done1, Bool.false_eq_true, if_false] at optimized
        cases found2 : bytes[Usize.wrappingAdd offset 1]? with
        | none => simp [found2] at optimized
        | some byte2 =>
            simp only [found2] at optimized
            by_cases valid : (byte2 == 0 || byte2 &&& 0x80 != 0) = true
            · simp [valid] at optimized
            · simp only [valid, Bool.false_eq_true, if_false, Except.ok.injEq] at optimized
              subst optimized
              rw [Bool.not_eq_true, Bool.or_eq_false_iff, bne_eq_false_iff_eq] at valid
              have inside2 := (List.getElem?_eq_some_iff.mp found2).1
              have next : Usize.wrappingAdd (Usize.wrappingAdd offset 1) 1 = Usize.wrappingAdd offset 2 := by
                rw [Usize.wrappingAdd_of_lt (by omega), Usize.wrappingAdd_of_lt (by omega),
                  Usize.wrappingAdd_of_lt (by omega)]
              simp [readCompressedU16, readCompressedU16Loop, start, found1, done1, found2, valid, next]

/-- What a compressed length read: the minimal encoding of a value below `2^14`. -/
theorem optimizedReadCompressedU16_eq_ok {value : UInt16} {next : Nat}
    (read : optimizedReadCompressedU16 bytes offset = .ok (value, next))
    (short : bytes.length < 2 ^ 32) :
    value.toNat < 2 ^ 14 ∧ PrefixAt bytes offset (encodeShortU16 value.toNat) ∧
      next = offset + (encodeShortU16 value.toNat).length := by
  unfold optimizedReadCompressedU16 at read
  split at read
  · cases read
  · rename_i byte1 found1
    have inside1 := (List.getElem?_eq_some_iff.mp found1).1
    have bound1 := UInt8.toNat_lt byte1
    split at read
    · -- One byte: the value itself.
      rename_i clear
      have small : byte1.toNat < 128 := (UInt8.and_0x80_eq_zero_iff _).mp (beq_iff_eq.mp clear)
      simp only [Except.ok.injEq, Prod.mk.injEq] at read
      obtain ⟨valueEq, nextEq⟩ := read
      have toNatEq : value.toNat = byte1.toNat := by
        rw [← valueEq, UInt8.toNat_and_0x7F_toUInt16, Nat.mod_eq_of_lt small]
      rw [toNatEq, encodeShortU16_of_lt_128 small, UInt8.ofNat_toNat]
      refine ⟨by omega, prefixAt_cons.mpr ⟨found1, prefixAt_nil.mpr (by omega)⟩, ?_⟩
      rw [← nextEq, Usize.wrappingAdd_of_lt (by omega)]
      rfl
    · rename_i set
      have large : 128 ≤ byte1.toNat := by
        by_contra small
        exact set (beq_iff_eq.mpr ((UInt8.and_0x80_eq_zero_iff _).mpr (by omega)))
      split at read
      · cases read
      · rename_i byte2 found2
        rw [Usize.wrappingAdd_of_lt (by omega)] at found2
        have inside2 := (List.getElem?_eq_some_iff.mp found2).1
        split at read
        · cases read
        · rename_i valid
          rw [Bool.or_eq_true, not_or, beq_iff_eq, bne_iff_ne, ne_eq, not_not,
            UInt8.and_0x80_eq_zero_iff] at valid
          obtain ⟨nonzero, small2⟩ := valid
          have positive : 0 < byte2.toNat := by
            by_contra zero
            exact nonzero (UInt8.toNat_inj.mp (by simp; omega))
          simp only [Except.ok.injEq, Prod.mk.injEq] at read
          obtain ⟨valueEq, nextEq⟩ := read
          have toNatEq : value.toNat = byte1.toNat % 128 + byte2.toNat * 128 := by
            rw [← valueEq, toNat_twoBytes, Nat.mod_eq_of_lt small2]
          have twoBytes : encodeShortU16 value.toNat = [byte1, byte2] := by
            rw [encodeShortU16_of_ge_128 (by omega) (by omega)]
            congr 2
            · rw [← UInt8.toNat_inj, UInt8.toNat_ofNat_of_lt (by omega)]
              omega
            · rw [← UInt8.toNat_inj, UInt8.toNat_ofNat_of_lt (by omega)]
              omega
          rw [twoBytes]
          refine ⟨by omega, prefixAt_cons.mpr ⟨found1, prefixAt_cons.mpr ⟨found2,
            prefixAt_nil.mpr (by omega)⟩⟩, ?_⟩
          rw [← nextEq, Usize.wrappingAdd_of_lt (by omega)]
          rfl

end Reading

end Validator.View
