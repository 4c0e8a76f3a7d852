import Mathlib.Data.Vector.Basic

namespace Validator.View

/-! # Reading a serialized transaction at an offset

The frame parsers of `transaction-view` thread one `usize` offset through the packet.  Each
reader here takes the bytes and the offset, and returns what it read with the offset after
it; an `Err` is `Except.error`.  `usize` arithmetic wraps at `2^64`, as the source's
`wrapping_*` calls do, and `as u16` keeps the low sixteen bits.
-/

/-- `TransactionViewError`. -/
inductive TransactionViewError where
  | parseError
  | sanitizeError
  | addressLookupMismatch
deriving DecidableEq, Repr

abbrev Result (α : Type) := Except TransactionViewError α

namespace Usize

def wrappingAdd (a b : Nat) : Nat :=
  (a + b) % 2 ^ 64

def wrappingSub (a b : Nat) : Nat :=
  (a + (2 ^ 64 - b % 2 ^ 64)) % 2 ^ 64

def wrappingMul (a b : Nat) : Nat :=
  (a * b) % 2 ^ 64

end Usize

/-- `check_remaining`: at least `numBytes` bytes from the offset. -/
def checkRemaining (bytes : List UInt8) (offset numBytes : Nat) : Result Unit :=
  if numBytes > Usize.wrappingSub bytes.length offset then .error .parseError else .ok ()

/-- `read_byte`. -/
def readByte (bytes : List UInt8) (offset : Nat) : Result (UInt8 × Nat) :=
  match bytes[offset]? with
  | some value => .ok (value, Usize.wrappingAdd offset 1)
  | none => .error .parseError

/-- `unchecked_read_byte`: the caller promises that the offset is inside the bytes. -/
def uncheckedReadByte (bytes : List UInt8) (offset : Nat) : UInt8 × Nat :=
  (bytes.getD offset 0, Usize.wrappingAdd offset 1)

/-- `optimized_read_compressed_u16`: a `ShortU16` of at most two bytes, minimally encoded. -/
def optimizedReadCompressedU16 (bytes : List UInt8) (offset : Nat) : Result (UInt16 × Nat) :=
  match bytes[offset]? with
  | none => .error .parseError
  | some byte1 =>
      let result : UInt16 := (byte1 &&& 0x7F).toUInt16
      if byte1 &&& 0x80 == 0 then .ok (result, Usize.wrappingAdd offset 1)
      else
        match bytes[Usize.wrappingAdd offset 1]? with
        | none => .error .parseError
        | some byte2 =>
            -- non-minimal encoding or overflow
            if byte2 == 0 || byte2 &&& 0x80 != 0 then .error .parseError
            else .ok (result ||| (byte2 &&& 0x7F).toUInt16 <<< 7, Usize.wrappingAdd offset 2)

/-- The loop `for i in 0..3` of `read_compressed_u16`, at byte `i` with `remaining` turns left. -/
def readCompressedU16Loop (bytes : List UInt8) (offset : Nat) :
    Nat → Nat → UInt16 → UInt16 → Result (UInt16 × Nat)
  | 0, _, result, _ => .ok (result, Usize.wrappingAdd offset 3)
  | remaining + 1, i, result, shift =>
    match bytes[Usize.wrappingAdd offset i]? with
    | none => .error .parseError
    | some byte =>
        -- non-minimal encoding or overflow
        if (0 < i && byte == 0) || (i == 2 && byte > 3) then .error .parseError
        else
          let result := result ||| (byte &&& 0x7F).toUInt16 <<< shift
          if byte &&& 0x80 == 0 then .ok (result, Usize.wrappingAdd (Usize.wrappingAdd offset i) 1)
          else readCompressedU16Loop bytes offset remaining (i + 1) result (shift + 7)

/-- `read_compressed_u16`: a `ShortU16` of at most three bytes, minimally encoded. -/
def readCompressedU16 (bytes : List UInt8) (offset : Nat) : Result (UInt16 × Nat) :=
  readCompressedU16Loop bytes offset 3 0 0 0

/-- `advance_offset_for_array::<T>`, for a `T` of `size` bytes. -/
def advanceOffsetForArray (size : Nat) (bytes : List UInt8) (offset : Nat) (numElements : UInt16) :
    Result Nat := do
  let arrayLenBytes := Usize.wrappingMul numElements.toNat size
  checkRemaining bytes offset arrayLenBytes
  return Usize.wrappingAdd offset arrayLenBytes

/-- `advance_offset_for_type::<T>`, for a `T` of `size` bytes. -/
def advanceOffsetForType (size : Nat) (bytes : List UInt8) (offset : Nat) : Result Nat := do
  checkRemaining bytes offset size
  return Usize.wrappingAdd offset size

/-- The `T` of `size` bytes at the offset, as a pointer cast reads it. -/
def typeAt (bytes : List UInt8) (offset size : Nat) : Vector UInt8 size :=
  Vector.ofFn fun index => bytes.getD (offset + index) 0

/-- `slice::from_raw_parts` of `count` elements of `size` bytes from the offset. -/
def sliceAt (bytes : List UInt8) (offset count size : Nat) : List (Vector UInt8 size) :=
  List.ofFn fun (index : Fin count) => typeAt bytes (offset + index * size) size

/-- A `&[u8]` of `count` bytes from the offset. -/
def bytesAt (bytes : List UInt8) (offset count : Nat) : List UInt8 :=
  (bytes.drop offset).take count

/-- `read_type::<T>`. -/
def readType (size : Nat) (bytes : List UInt8) (offset : Nat) : Result (Vector UInt8 size × Nat) := do
  let next ← advanceOffsetForType size bytes offset
  return (typeAt bytes offset size, next)

/-- `read_slice_data::<u8>`. -/
def readSliceData (bytes : List UInt8) (offset : Nat) (numElements : UInt16) :
    Result (List UInt8 × Nat) := do
  let next ← advanceOffsetForArray 1 bytes offset numElements
  return (bytesAt bytes offset numElements.toNat, next)

/-- `unchecked_read_slice_data::<u8>`. -/
def uncheckedReadSliceData (bytes : List UInt8) (offset : Nat) (numElements : UInt16) :
    List UInt8 × Nat :=
  (bytesAt bytes offset numElements.toNat,
    Usize.wrappingAdd offset (Usize.wrappingMul numElements.toNat 1))

end Validator.View
