import Mathlib.Data.Finset.Card
import Validator.Data.Bincode
import Validator.Data.ListOrder

namespace Validator.Ledger

open Validator.Data Validator.Data.Bincode

/-! # The `Index` column and its two formats

For each slot the blockstore records which data and coding shreds it holds.  `IndexV1` keeps
each set as a `BTreeSet<u64>`; `IndexV2` keeps it as a bit vector and a count.  A stored value
is read in the primary format, with trailing bytes rejected, and only when that fails in the
fallback format, converted.
-/

def maxDataShredsPerSlot : Nat := 32768

/-- `NUM_BITS.div_ceil(BITS_PER_WORD)`. -/
def numWords (numBits : Nat) : Nat := (numBits + 7) / 8

@[simp] theorem numWords_maxDataShredsPerSlot : numWords maxDataShredsPerSlot = 4096 := rfl

/-- `BitVec<NUM_BITS>`: bytes with bit `i` in byte `i / 8`, always `NUM_WORDS` of them. -/
structure BitVec (numBits : Nat) where
  words : List UInt8
  length_words : words.length = numWords numBits
deriving DecidableEq, Repr

/-- `Vec::resize` with zeros. -/
def resize (words : List UInt8) (length : Nat) : List UInt8 :=
  words.take length ++ List.replicate (length - words.length) 0

theorem length_resize (words : List UInt8) (length : Nat) : (resize words length).length = length := by
  simp only [resize, List.length_append, List.length_take, List.length_replicate]
  omega

@[simp] theorem resize_nil (length : Nat) : resize [] length = List.replicate length 0 := by
  simp [resize]

theorem resize_of_length {words : List UInt8} {length : Nat} (exact : words.length = length) :
    resize words length = words := by
  subst exact
  simp [resize]

namespace BitVec

variable {numBits : Nat}

def default : BitVec numBits :=
  ⟨List.replicate (numWords numBits) 0, List.length_replicate⟩

def locationOf (idx : Nat) : Nat × Nat :=
  (idx / 8, idx % 8)

def contains (self : BitVec numBits) (idx : Nat) : Bool :=
  if idx ≥ numBits then false
  else
    let (wordIdx, bitIdx) := locationOf idx
    self.words.getD wordIdx 0 &&& (1 <<< UInt8.ofNat bitIdx) != 0

def insertUnchecked (self : BitVec numBits) (idx : Nat) : Bool × BitVec numBits :=
  let (wordIdx, bitIdx) := locationOf idx
  let prev := self.words.getD wordIdx 0
  let next := prev ||| (1 <<< UInt8.ofNat bitIdx)
  if prev != next then
    (true, ⟨self.words.set wordIdx next, by rw [List.length_set, self.length_words]⟩)
  else (false, self)

/-- `insert`: `none` is the out-of-bounds error. -/
def insert (self : BitVec numBits) (idx : Nat) : Option (Bool × BitVec numBits) :=
  if idx ≥ numBits then none else some (self.insertUnchecked idx)

def removeUnchecked (self : BitVec numBits) (idx : Nat) : Bool × BitVec numBits :=
  let (wordIdx, bitIdx) := locationOf idx
  let prev := self.words.getD wordIdx 0
  let next := prev &&& ~~~(1 <<< UInt8.ofNat bitIdx)
  if prev != next then
    (true, ⟨self.words.set wordIdx next, by rw [List.length_set, self.length_words]⟩)
  else (false, self)

/-- `remove`: `none` is the out-of-bounds error. -/
def remove (self : BitVec numBits) (idx : Nat) : Option (Bool × BitVec numBits) :=
  if idx ≥ numBits then none else some (self.removeUnchecked idx)

def iterOnes (self : BitVec numBits) : List Nat :=
  (List.range numBits).filter self.contains

/-- `range(start..end).iter_ones()`: the set bits from `start` to before `end`, both bounds cut
to `NUM_BITS`. -/
def range (self : BitVec numBits) (start stop : Nat) : List Nat :=
  let start := min start numBits
  let stop := min stop numBits
  (List.range' start (stop - start)).filter self.contains

def serialize (self : BitVec numBits) : List UInt8 :=
  encodeByteString self.words

/-- The custom `Deserialize`: a byte string of any length, cut or zero-filled to `NUM_WORDS`. -/
def deserialize (input : List UInt8) : Option (BitVec numBits × List UInt8) :=
  (readByteString input).map fun (bytes, rest) =>
    (⟨resize bytes (numWords numBits), length_resize bytes _⟩, rest)

theorem deserialize_encodeByteString {bytes : List UInt8} (short : bytes.length < 2 ^ 64)
    (rest : List UInt8) :
    (deserialize (encodeByteString bytes ++ rest) : Option (BitVec numBits × List UInt8)) =
      some (⟨resize bytes (numWords numBits), length_resize bytes _⟩, rest) := by
  simp [deserialize, readByteString_encodeByteString short]

/-- An empty byte string reads as the default, all-zero vector. -/
theorem deserialize_encodeByteString_nil (rest : List UInt8) :
    (deserialize (encodeByteString [] ++ rest) : Option (BitVec numBits × List UInt8)) =
      some (default, rest) := by
  rw [deserialize_encodeByteString (by decide)]
  simp [default]

theorem deserialize_serialize (self : BitVec numBits) (short : numWords numBits < 2 ^ 64)
    (rest : List UInt8) : deserialize (self.serialize ++ rest) = some (self, rest) := by
  have fits : self.words.length < 2 ^ 64 := self.length_words ▸ short
  rw [serialize, deserialize_encodeByteString fits]
  simp [resize_of_length self.length_words]

theorem length_serialize (self : BitVec numBits) :
    self.serialize.length = 8 + numWords numBits := by
  simp [serialize, encodeByteString, self.length_words]

theorem length_iterOnes_le (self : BitVec numBits) : self.iterOnes.length ≤ numBits :=
  (List.length_filter_le _ _).trans_eq List.length_range

theorem iterOnes_sorted (self : BitVec numBits) : self.iterOnes.Pairwise (· < ·) :=
  List.pairwise_lt_range.filter _

end BitVec

/-- `ShredIndexV1`: the `BTreeSet<u64>` of present shreds, as its ascending list. -/
structure ShredIndexV1 where
  index : List Nat
  sorted : index.Pairwise (· < ·)
deriving DecidableEq, Repr

structure ShredIndexV2 where
  index : BitVec maxDataShredsPerSlot
  numShreds : Nat
deriving DecidableEq, Repr

theorem pairwise_foldl_insertSorted (items : List Nat) :
    (items.foldl (fun set item => insertSorted item set) []).Pairwise (· < ·) := by
  suffices collect : ∀ set : List Nat, set.Pairwise (· < ·) →
      (items.foldl (fun set item => insertSorted item set) set).Pairwise (· < ·) from
    collect [] List.Pairwise.nil
  induction items with
  | nil => exact fun _ sorted => sorted
  | cons item items ih => exact fun set sorted => ih _ (pairwise_insertSorted sorted)

namespace ShredIndexV1

/-- `FromIterator<u64>`: the items collected into a `BTreeSet`. -/
def fromIter (items : List Nat) : ShredIndexV1 :=
  ⟨items.foldl (fun set item => insertSorted item set) [], pairwise_foldl_insertSorted items⟩

def ofV2 (value : ShredIndexV2) : ShredIndexV1 :=
  fromIter value.index.iterOnes

def serialize (self : ShredIndexV1) : List UInt8 :=
  encodeSeq encodeU64 self.index

def deserialize (input : List UInt8) : Option (ShredIndexV1 × List UInt8) :=
  (readSeq readU64 input).map fun (items, rest) => (fromIter items, rest)

theorem fromIter_index (self : ShredIndexV1) : fromIter self.index = self := by
  simp [fromIter, foldl_insertSorted self.sorted]

/-- Every shred index of the set is below `MAX_DATA_SHREDS_PER_SLOT`. -/
def Bounded (self : ShredIndexV1) : Prop :=
  ∀ idx ∈ self.index, idx < maxDataShredsPerSlot

theorem length_lt_of_bounded {self : ShredIndexV1} (bounded : self.Bounded) :
    self.index.length < 2 ^ 64 := by
  have distinct : self.index.Nodup := self.sorted.imp ne_of_lt
  have within : self.index.toFinset ⊆ Finset.range maxDataShredsPerSlot := fun idx member =>
    Finset.mem_range.mpr (bounded idx (List.mem_toFinset.mp member))
  calc self.index.length = self.index.toFinset.card := (List.toFinset_card_of_nodup distinct).symm
    _ ≤ maxDataShredsPerSlot := (Finset.card_le_card within).trans_eq (Finset.card_range _)
    _ < 2 ^ 64 := by decide

theorem deserialize_serialize {self : ShredIndexV1} (bounded : self.Bounded) (rest : List UInt8) :
    deserialize (self.serialize ++ rest) = some (self, rest) := by
  have items : ∀ idx ∈ self.index, ∀ rest, readU64 (encodeU64 idx ++ rest) = some (idx, rest) :=
    fun idx member rest => readU64_encodeU64 ((bounded idx member).trans (by decide)) rest
  simp [deserialize, serialize, readSeq_encodeSeq self.index (length_lt_of_bounded bounded) items,
    fromIter_index]

end ShredIndexV1

namespace ShredIndexV2

def default : ShredIndexV2 :=
  ⟨BitVec.default, 0⟩

def insert (self : ShredIndexV2) (idx : Nat) : ShredIndexV2 :=
  match self.index.insert idx with
  | some (true, index) => ⟨index, self.numShreds + 1⟩
  | _ => self

def contains (self : ShredIndexV2) (idx : Nat) : Bool :=
  self.index.contains idx

def range (self : ShredIndexV2) (start stop : Nat) : List Nat :=
  self.index.range start stop

/-- `FromIterator<u64>`: the items inserted one by one into the default index. -/
def fromIter (items : List Nat) : ShredIndexV2 :=
  items.foldl insert default

def ofV1 (value : ShredIndexV1) : ShredIndexV2 :=
  fromIter value.index

def iter (self : ShredIndexV2) : List Nat :=
  self.index.iterOnes

def serialize (self : ShredIndexV2) : List UInt8 :=
  self.index.serialize ++ encodeU64 self.numShreds

def deserialize (input : List UInt8) : Option (ShredIndexV2 × List UInt8) := do
  let (index, input) ← BitVec.deserialize input
  let (numShreds, input) ← readU64 input
  return (⟨index, numShreds⟩, input)

/-- The count of a reachable index is the number of its set bits. -/
def Reachable (self : ShredIndexV2) : Prop :=
  self.numShreds = self.iter.length

theorem numShreds_lt_of_reachable {self : ShredIndexV2} (reachable : self.Reachable) :
    self.numShreds < 2 ^ 64 := by
  rw [reachable]
  calc self.iter.length ≤ maxDataShredsPerSlot := self.index.length_iterOnes_le
    _ < 2 ^ 64 := by decide

theorem deserialize_serialize {self : ShredIndexV2} (reachable : self.Reachable)
    (rest : List UInt8) : deserialize (self.serialize ++ rest) = some (self, rest) := by
  have wordsFit : numWords maxDataShredsPerSlot < 2 ^ 64 := by decide
  simp [deserialize, serialize, List.append_assoc, self.index.deserialize_serialize wordsFit,
    readU64_encodeU64 (numShreds_lt_of_reachable reachable)]

theorem length_serialize (self : ShredIndexV2) : self.serialize.length = 4112 := by
  rw [serialize, List.length_append, self.index.length_serialize, length_encodeU64]
  rfl

end ShredIndexV2

/-- `ShredIndexV2` bytes, and at most another index after them, do not read as a
`ShredIndexV1`: the length in front of the bit vector counts 4096 bytes, which the older
format reads as 4096 items of eight bytes each. -/
theorem ShredIndexV1.deserialize_shredIndexV2 (value : ShredIndexV2) (rest : List UInt8)
    (short : rest.length ≤ 4112) : ShredIndexV1.deserialize (value.serialize ++ rest) = none := by
  have count : readU64 (value.serialize ++ rest) =
      some (4096, value.index.words ++ (encodeU64 value.numShreds ++ rest)) := by
    simp [ShredIndexV2.serialize, BitVec.serialize, encodeByteString, value.index.length_words,
      List.append_assoc, readU64_encodeU64 (show 4096 < 2 ^ 64 by decide)]
  have items : readItems readU64 4096 (value.index.words ++ (encodeU64 value.numShreds ++ rest)) =
      none := by
    apply readItems_eq_none_of_short readU64_consumes
    simp only [List.length_append, value.index.length_words, numWords_maxDataShredsPerSlot,
      length_encodeU64]
    omega
  simp [ShredIndexV1.deserialize, readSeq, count, items]

structure IndexV1 where
  slot : Nat
  data : ShredIndexV1
  coding : ShredIndexV1
deriving DecidableEq, Repr

structure IndexV2 where
  slot : Nat
  data : ShredIndexV2
  coding : ShredIndexV2
deriving DecidableEq, Repr

namespace IndexV1

def ofV2 (index : IndexV2) : IndexV1 :=
  ⟨index.slot, .ofV2 index.data, .ofV2 index.coding⟩

def serialize (self : IndexV1) : List UInt8 :=
  encodeU64 self.slot ++ self.data.serialize ++ self.coding.serialize

def deserialize (input : List UInt8) : Option (IndexV1 × List UInt8) := do
  let (slot, input) ← readU64 input
  let (data, input) ← ShredIndexV1.deserialize input
  let (coding, input) ← ShredIndexV1.deserialize input
  return (⟨slot, data, coding⟩, input)

/-- A `u64` slot and shred indexes below `MAX_DATA_SHREDS_PER_SLOT`. -/
structure Bounded (index : IndexV1) : Prop where
  slot_lt : index.slot < 2 ^ 64
  data : index.data.Bounded
  coding : index.coding.Bounded

theorem deserialize_serialize {self : IndexV1} (bounded : self.Bounded) (rest : List UInt8) :
    deserialize (self.serialize ++ rest) = some (self, rest) := by
  simp [deserialize, serialize, List.append_assoc, readU64_encodeU64 bounded.slot_lt,
    ShredIndexV1.deserialize_serialize bounded.data, ShredIndexV1.deserialize_serialize bounded.coding]

end IndexV1

namespace IndexV2

def ofV1 (index : IndexV1) : IndexV2 :=
  ⟨index.slot, .ofV1 index.data, .ofV1 index.coding⟩

def serialize (self : IndexV2) : List UInt8 :=
  encodeU64 self.slot ++ self.data.serialize ++ self.coding.serialize

def deserialize (input : List UInt8) : Option (IndexV2 × List UInt8) := do
  let (slot, input) ← readU64 input
  let (data, input) ← ShredIndexV2.deserialize input
  let (coding, input) ← ShredIndexV2.deserialize input
  return (⟨slot, data, coding⟩, input)

/-- A `u64` slot and counts that are the numbers of set bits, as `insert` keeps them. -/
structure Reachable (index : IndexV2) : Prop where
  slot_lt : index.slot < 2 ^ 64
  data : index.data.Reachable
  coding : index.coding.Reachable

theorem deserialize_serialize {self : IndexV2} (reachable : self.Reachable) (rest : List UInt8) :
    deserialize (self.serialize ++ rest) = some (self, rest) := by
  simp [deserialize, serialize, List.append_assoc, readU64_encodeU64 reachable.slot_lt,
    ShredIndexV2.deserialize_serialize reachable.data,
    ShredIndexV2.deserialize_serialize reachable.coding]

end IndexV2

/-- The older reader stops at the data set of an `IndexV2`, whatever its slot. -/
theorem IndexV1.deserialize_indexV2 (value : IndexV2) :
    IndexV1.deserialize value.serialize = none := by
  have slot := readLe_encodeLe 8 value.slot (value.data.serialize ++ value.coding.serialize)
  have data := ShredIndexV1.deserialize_shredIndexV2 value.data value.coding.serialize
    (by rw [ShredIndexV2.length_serialize])
  simp only [IndexV1.deserialize, IndexV2.serialize, List.append_assoc]
  simp [readU64, encodeU64, slot, data]

/-- `TypedColumn::deserialize` of a column under migration: the whole input in the primary
format or, when that fails, in the fallback format, converted. -/
def deserializeMigrating {π φ : Type} (primary : List UInt8 → Option (π × List UInt8))
    (fallback : List UInt8 → Option (φ × List UInt8)) (convert : φ → π) (data : List UInt8) :
    Option π :=
  match readAll primary data with
  | some value => some value
  | none => (readAll fallback data).map convert

section Migrating

variable {π φ : Type} {primary : List UInt8 → Option (π × List UInt8)}
  {fallback : List UInt8 → Option (φ × List UInt8)} {convert : φ → π} {data : List UInt8}

theorem deserializeMigrating_of_primary {value : π} (read : primary data = some (value, [])) :
    deserializeMigrating primary fallback convert data = some value := by
  simp [deserializeMigrating, readAll_eq_some read]

theorem deserializeMigrating_of_fallback {value : φ} (notPrimary : primary data = none)
    (read : fallback data = some (value, [])) :
    deserializeMigrating primary fallback convert data = some (convert value) := by
  simp [deserializeMigrating, readAll_eq_none notPrimary, readAll_eq_some read]

end Migrating

namespace Columns

/-- `columns::Index`: `Index = IndexV2` is primary and `IndexFallback = IndexV1` the fallback. -/
def Index.deserialize (data : List UInt8) : Option IndexV2 :=
  deserializeMigrating IndexV2.deserialize IndexV1.deserialize IndexV2.ofV1 data

/-- The same column with the two aliases swapped. -/
def Index.deserializeSwapped (data : List UInt8) : Option IndexV1 :=
  deserializeMigrating IndexV1.deserialize IndexV2.deserialize IndexV1.ofV2 data

theorem Index.deserialize_serialize {value : IndexV2} (reachable : value.Reachable) :
    Index.deserialize value.serialize = some value :=
  deserializeMigrating_of_primary (by simpa using value.deserialize_serialize reachable [])

theorem Index.deserializeSwapped_serialize {value : IndexV1} (bounded : value.Bounded) :
    Index.deserializeSwapped value.serialize = some value :=
  deserializeMigrating_of_primary (by simpa using value.deserialize_serialize bounded [])

/-- With the aliases swapped, the newer format is read through the fallback and converted. -/
theorem Index.deserializeSwapped_indexV2 {value : IndexV2} (reachable : value.Reachable) :
    Index.deserializeSwapped value.serialize = some (IndexV1.ofV2 value) :=
  deserializeMigrating_of_fallback (IndexV1.deserialize_indexV2 value)
    (by simpa using value.deserialize_serialize reachable [])

end Columns

/-- Bytes of the older format that the newer reader accepts whole: an index with no data shred
and the coding shreds `0` and `x` reads as two data shreds and `x` coding shreds, both bit vectors
empty, and the fallback that would have converted it never runs. -/
theorem index_column_misreads_v1_bytes {index : IndexV1} {x : Nat} (slotFits : index.slot < 2 ^ 64)
    (noData : index.data.index = []) (codingPair : index.coding.index = [0, x])
    (below : x < maxDataShredsPerSlot) :
    Columns.Index.deserialize index.serialize =
        some ⟨index.slot, ⟨BitVec.default, 2⟩, ⟨BitVec.default, x⟩⟩ ∧
      Columns.Index.deserialize index.serialize ≠ some (IndexV2.ofV1 index) := by
  -- the empty set is a zero length, which is also an empty byte string
  have bytes : index.serialize = encodeU64 index.slot ++ encodeByteString [] ++ encodeU64 2 ++
      encodeByteString [] ++ encodeU64 x := by
    simp [IndexV1.serialize, ShredIndexV1.serialize, encodeSeq, encodeByteString, noData,
      codingPair]
  have read : IndexV2.deserialize index.serialize =
      some (⟨index.slot, ⟨BitVec.default, 2⟩, ⟨BitVec.default, x⟩⟩, []) := by
    have last : readU64 (encodeU64 x) = some (x, []) := by
      simpa using readU64_encodeU64 (below.trans (by decide) : x < 2 ^ 64) []
    rw [bytes]
    simp [IndexV2.deserialize, ShredIndexV2.deserialize, List.append_assoc,
      BitVec.deserialize_encodeByteString_nil, last,
      readU64_encodeU64 slotFits, readU64_encodeU64 (show 2 < 2 ^ 64 by decide)]
  have column : Columns.Index.deserialize index.serialize =
      some ⟨index.slot, ⟨BitVec.default, 2⟩, ⟨BitVec.default, x⟩⟩ :=
    deserializeMigrating_of_primary read
  refine ⟨column, ?_⟩
  rw [column]
  intro same
  -- the conversion counts no data shred
  have counts := congrArg (Option.map (·.data.numShreds)) same
  simp [IndexV2.ofV1, ShredIndexV2.ofV1, ShredIndexV2.fromIter, ShredIndexV2.default, noData] at counts

theorem index_column_misreads_two_coding_shreds :
    Columns.Index.deserialize (IndexV1.serialize ⟨7, ⟨[], .nil⟩, ⟨[0, 1], by decide⟩⟩) =
        some ⟨7, ⟨BitVec.default, 2⟩, ⟨BitVec.default, 1⟩⟩ ∧
      Columns.Index.deserialize (IndexV1.serialize ⟨7, ⟨[], .nil⟩, ⟨[0, 1], by decide⟩⟩) ≠
        some (IndexV2.ofV1 ⟨7, ⟨[], .nil⟩, ⟨[0, 1], by decide⟩⟩) :=
  index_column_misreads_v1_bytes (by decide) rfl rfl (by decide)

end Validator.Ledger
