import Mathlib.Algebra.GroupWithZero.Nat
import Mathlib.Data.List.Basic

namespace Validator.Data.Bincode

/-! # Fixed-width bincode

The fixint encoding: an integer is its bytes, low byte first; a sequence is its length as a
`u64` and then its items; a byte string is its length and then its bytes.  A reader takes
what it needs from the front of the input and returns the rest, or `none` when the input
ends too early.
-/

variable {α : Type}

def encodeLe : Nat → Nat → List UInt8
  | 0, _ => []
  | width + 1, value => UInt8.ofNat value :: encodeLe width (value / 256)

def decodeLe : List UInt8 → Nat
  | [] => 0
  | byte :: rest => byte.toNat + 256 * decodeLe rest

@[simp] theorem length_encodeLe (width value : Nat) : (encodeLe width value).length = width := by
  induction width generalizing value with
  | zero => rfl
  | succ width ih => simp [encodeLe, ih]

theorem decodeLe_encodeLe (width value : Nat) :
    decodeLe (encodeLe width value) = value % 2 ^ (8 * width) := by
  induction width generalizing value with
  | zero => simp [encodeLe, decodeLe, Nat.mod_one]
  | succ width ih =>
    have split : 2 ^ (8 * (width + 1)) = 256 * 2 ^ (8 * width) := by
      rw [Nat.mul_succ, Nat.pow_add, Nat.mul_comm]
    simp only [encodeLe, decodeLe, ih, UInt8.toNat_ofNat', split, Nat.mod_mul]

def readBytes (count : Nat) (input : List UInt8) : Option (List UInt8 × List UInt8) :=
  if count ≤ input.length then some (input.take count, input.drop count) else none

@[simp] theorem readBytes_append (bytes rest : List UInt8) :
    readBytes bytes.length (bytes ++ rest) = some (bytes, rest) := by
  simp [readBytes]

theorem length_of_readBytes {count : Nat} {input bytes rest : List UInt8}
    (read : readBytes count input = some (bytes, rest)) : rest.length + count = input.length := by
  simp only [readBytes] at read
  split at read
  · case isTrue fits =>
    cases read
    simp only [List.length_drop]
    omega
  · case isFalse => cases read

def readLe (width : Nat) (input : List UInt8) : Option (Nat × List UInt8) :=
  (readBytes width input).map fun (bytes, rest) => (decodeLe bytes, rest)

theorem readLe_encodeLe (width value : Nat) (rest : List UInt8) :
    readLe width (encodeLe width value ++ rest) = some (value % 2 ^ (8 * width), rest) := by
  have read := readBytes_append (encodeLe width value) rest
  rw [length_encodeLe] at read
  simp [readLe, read, decodeLe_encodeLe]

theorem length_of_readLe {width : Nat} {input rest : List UInt8} {value : Nat}
    (read : readLe width input = some (value, rest)) : rest.length + width = input.length := by
  simp only [readLe, Option.map_eq_some_iff] at read
  obtain ⟨⟨bytes, rest'⟩, bytesRead, equal⟩ := read
  cases equal
  exact length_of_readBytes bytesRead

def encodeU64 (value : Nat) : List UInt8 := encodeLe 8 value

def readU64 (input : List UInt8) : Option (Nat × List UInt8) := readLe 8 input

@[simp] theorem length_encodeU64 (value : Nat) : (encodeU64 value).length = 8 :=
  length_encodeLe 8 value

theorem readU64_consumes (input : List UInt8) (value : Nat) (rest : List UInt8)
    (read : readU64 input = some (value, rest)) : rest.length + 8 ≤ input.length :=
  Nat.le_of_eq (length_of_readLe read)

@[simp] theorem readU64_encodeU64 {value : Nat} (fits : value < 2 ^ 64) (rest : List UInt8) :
    readU64 (encodeU64 value ++ rest) = some (value, rest) := by
  have within : value < 2 ^ (8 * 8) := fits
  rw [readU64, encodeU64, readLe_encodeLe, Nat.mod_eq_of_lt within]

/-- A sequence (a `Vec` or a set): the number of items, then each item. -/
def encodeSeq (encode : α → List UInt8) (items : List α) : List UInt8 :=
  encodeU64 items.length ++ items.flatMap encode

def readItems (read : List UInt8 → Option (α × List UInt8)) :
    Nat → List UInt8 → Option (List α × List UInt8)
  | 0, input => some ([], input)
  | count + 1, input => do
      let (item, input) ← read input
      let (items, input) ← readItems read count input
      return (item :: items, input)

def readSeq (read : List UInt8 → Option (α × List UInt8)) (input : List UInt8) :
    Option (List α × List UInt8) := do
  let (count, input) ← readU64 input
  readItems read count input

section Items

variable {read : List UInt8 → Option (α × List UInt8)} {encode : α → List UInt8}

theorem readItems_flatMap (items : List α)
    (roundTrip : ∀ item ∈ items, ∀ rest, read (encode item ++ rest) = some (item, rest))
    (rest : List UInt8) :
    readItems read items.length (items.flatMap encode ++ rest) = some (items, rest) := by
  induction items with
  | nil => rfl
  | cons item items ih =>
    have head := roundTrip item List.mem_cons_self (items.flatMap encode ++ rest)
    have tail := ih fun other mem => roundTrip other (List.mem_cons_of_mem item mem)
    simp [readItems, List.append_assoc, head, tail]

theorem readSeq_encodeSeq (items : List α) (short : items.length < 2 ^ 64)
    (roundTrip : ∀ item ∈ items, ∀ rest, read (encode item ++ rest) = some (item, rest))
    (rest : List UInt8) :
    readSeq read (encodeSeq encode items ++ rest) = some (items, rest) := by
  simp [readSeq, encodeSeq, List.append_assoc, readU64_encodeU64 short,
    readItems_flatMap items roundTrip]

/-- Items that each take at least `width` bytes: `count` of them take `width * count`. -/
theorem length_of_readItems {width : Nat}
    (consumes : ∀ input item rest, read input = some (item, rest) → rest.length + width ≤ input.length)
    {count : Nat} {input rest : List UInt8} {items : List α}
    (decoded : readItems read count input = some (items, rest)) :
    rest.length + width * count ≤ input.length := by
  induction count generalizing input items with
  | zero =>
    cases decoded
    simp
  | succ count ih =>
    simp only [readItems, Option.bind_eq_bind, Option.bind_eq_some_iff] at decoded
    obtain ⟨⟨item, middle⟩, readHead, ⟨⟨rest', middle'⟩, readTail, equal⟩⟩ := decoded
    dsimp only at readTail equal
    cases equal
    have head := consumes input item middle readHead
    have tail := ih readTail
    rw [Nat.mul_succ]
    omega

theorem readItems_eq_none_of_short {width : Nat}
    (consumes : ∀ input item rest, read input = some (item, rest) → rest.length + width ≤ input.length)
    {count : Nat} {input : List UInt8} (short : input.length < width * count) :
    readItems read count input = none := by
  cases decoded : readItems read count input with
  | none => rfl
  | some result =>
    have enough := length_of_readItems consumes decoded
    omega

end Items

/-- A byte string (`serde_bytes`): its length, then its bytes. -/
def encodeByteString (bytes : List UInt8) : List UInt8 :=
  encodeU64 bytes.length ++ bytes

def readByteString (input : List UInt8) : Option (List UInt8 × List UInt8) := do
  let (count, input) ← readU64 input
  readBytes count input

@[simp] theorem readByteString_encodeByteString {bytes : List UInt8} (short : bytes.length < 2 ^ 64)
    (rest : List UInt8) :
    readByteString (encodeByteString bytes ++ rest) = some (bytes, rest) := by
  simp [readByteString, encodeByteString, List.append_assoc, readU64_encodeU64 short]

/-- `reject_trailing_bytes`: the reader must use the whole input. -/
def readAll (read : List UInt8 → Option (α × List UInt8)) (input : List UInt8) : Option α :=
  match read input with
  | some (value, []) => some value
  | _ => none

theorem readAll_eq_some {read : List UInt8 → Option (α × List UInt8)} {input : List UInt8}
    {value : α} (whole : read input = some (value, [])) : readAll read input = some value := by
  simp [readAll, whole]

theorem readAll_eq_none {read : List UInt8 → Option (α × List UInt8)} {input : List UInt8}
    (fails : read input = none) : readAll read input = none := by
  simp [readAll, fails]

end Validator.Data.Bincode
