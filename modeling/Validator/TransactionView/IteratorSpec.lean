import Validator.TransactionView.TransactionSpec

namespace Validator.View

open Validator.Data

/-! # The iterators against the checked parse

`InstructionsIterator` and `AddressTableLookupIterator` do not parse their sections from the
count on: they start at the offsets `TransactionFrame::try_new` cached as `u16`, and the
instruction iterator skips each compressed length by the width the parse recorded.  In a packet
of fewer than `2^16` bytes the casts keep the offsets, and both iterators yield what the parse
accepted.  `try_new` takes longer byte strings too, and there the lookup offset wraps: the lookup
iterator starts inside the instructions.
-/

theorem CompiledInstruction.infix_serialize (instruction : CompiledInstruction) :
    instruction.accounts <:+: instruction.serialize ∧ instruction.data <:+: instruction.serialize := by
  rw [CompiledInstruction.serialize_eq]
  exact ⟨⟨[instruction.programIdIndex] ++ encodeShortU16 instruction.accounts.length,
      encodeShortU16 instruction.data.length ++ instruction.data, by simp⟩,
    ⟨[instruction.programIdIndex] ++ (encodeShortU16 instruction.accounts.length ++
      instruction.accounts) ++ encodeShortU16 instruction.data.length, [], by simp⟩⟩

namespace VersionedTransaction

variable {transaction : VersionedTransaction}

theorem infix_serialize_of_mem_instructions {instruction : CompiledInstruction}
    (member : instruction ∈ transaction.message.message.instructions) :
    instruction.serialize <:+: transaction.serialize := by
  have inInstructions : instruction.serialize <:+:
      transaction.message.message.instructions.flatMap CompiledInstruction.serialize := by
    rw [List.flatMap_def]
    exact List.infix_of_mem_flatten (List.mem_map_of_mem member)
  refine inInstructions.trans ⟨serializeShortVec Vector.toList transaction.signatures ++
    ((versionPrefix transaction.message.version ++ transaction.message.message.header.serialize) ++
      (serializeShortVec Vector.toList transaction.message.message.accountKeys ++
        (transaction.message.message.recentBlockhash.toList ++
          encodeShortU16 transaction.message.message.instructions.length))),
    lookupSection transaction.message.version transaction.message.addressTableLookups, ?_⟩
  rw [serialize_eq_sections]
  simp only [serializeShortVec, List.append_assoc]

/-- The counts the lookup frame of an accepted transaction records are its own. -/
theorem lookupFrame_counts (accepted : transaction.Accepted) :
    transaction.frame.addressTableLookup.numAddressTableLookups.toNat =
        transaction.message.addressTableLookups.length ∧
      transaction.frame.addressTableLookup.totalWritableLookupAccounts.toNat =
        totalWritable transaction.message.addressTableLookups ∧
      transaction.frame.addressTableLookup.totalReadonlyLookupAccounts.toNat =
        totalReadonly transaction.message.addressTableLookups := by
  have limits := accepted.withinLimits
  obtain ⟨signatures, message⟩ := transaction
  cases message with
  | legacy message => exact ⟨rfl, rfl, rfl⟩
  | v0 message lookups =>
    have atMax : maxAtlsPerPacket.toNat = 31 := by decide
    have count := limits.lookups
    obtain ⟨writable, readonly⟩ := limits.totals
    simp only [VersionedMessage.addressTableLookups] at count writable readonly ⊢
    exact ⟨UInt8.toNat_ofNat_of_lt (show lookups.length < 256 by omega),
      UInt16.toNat_ofNat_of_lt writable, UInt16.toNat_ofNat_of_lt readonly⟩

end VersionedTransaction

/-- What the iterators of a view of `bytes` yield, against the transaction the bytes encode: the
instruction iterator yields its `num_instructions` instructions, each slice a part of the bytes,
and the lookup iterator its `num_address_table_lookups` lookups, whose index lists add up to the
totals of the frame. -/
structure IteratorsAgree (bytes : List UInt8) (frame : TransactionFrame)
    (transaction : VersionedTransaction) : Prop where
  instructions : ∀ fuel, frame.instructions.numInstructions.toNat < fuel → ∃ instructions,
    (TransactionView.instructionsIter ⟨bytes, frame⟩).collect fuel = some instructions ∧
    instructions = transaction.message.message.instructions.map CompiledInstruction.toSVM ∧
    instructions.length = frame.instructions.numInstructions.toNat ∧
    ∀ instruction ∈ instructions, instruction.accounts <:+: bytes ∧ instruction.data <:+: bytes
  lookups : ∀ fuel, frame.addressTableLookup.numAddressTableLookups.toNat < fuel → ∃ lookups,
    (TransactionView.addressTableLookupIter ⟨bytes, frame⟩).collect fuel = lookups ∧
    lookups = transaction.message.addressTableLookups.map MessageAddressTableLookup.toSVM ∧
    lookups.length = frame.addressTableLookup.numAddressTableLookups.toNat ∧
    (lookups.map fun lookup => lookup.writableIndexes.length).sum =
      frame.addressTableLookup.totalWritableLookupAccounts.toNat ∧
    (lookups.map fun lookup => lookup.readonlyIndexes.length).sum =
      frame.addressTableLookup.totalReadonlyLookupAccounts.toNat

open VersionedTransaction in
/-- On a byte string of fewer than `2^16` bytes that `TransactionFrame::try_new` accepts, the
iterators agree with the parse. -/
theorem iterators_agree_with_checked_parse {bytes : List UInt8} {frame : TransactionFrame}
    (short : bytes.length < 2 ^ 16) (parsed : TransactionFrame.tryNew bytes = .ok frame) :
    ∃ transaction : VersionedTransaction, transaction.Accepted ∧ transaction.serialize = bytes ∧
      IteratorsAgree bytes frame transaction := by
  obtain ⟨transaction, accepted, rfl, rfl⟩ :=
    (TransactionFrame.tryNew_eq_ok_iff (by omega : bytes.length < 2 ^ 32)).mp parsed
  have reads := readsBack accepted short
  have numInstructionsEq : transaction.frame.instructions.numInstructions.toNat =
      transaction.message.message.instructions.length :=
    UInt16.toNat_ofNat_of_lt (by have := accepted.withinLimits.instructions; omega)
  obtain ⟨numLookupsEq, writableEq, readonlyEq⟩ := lookupFrame_counts accepted
  refine ⟨transaction, accepted, rfl, fun fuel enough => ?_, fun fuel enough => ?_⟩
  · refine ⟨_, reads.instructions fuel (by omega), rfl, by rw [List.length_map, numInstructionsEq],
      fun item member => ?_⟩
    obtain ⟨instruction, listed, rfl⟩ := List.mem_map.mp member
    have inBytes := infix_serialize_of_mem_instructions listed
    exact ⟨instruction.infix_serialize.1.trans inBytes, instruction.infix_serialize.2.trans inBytes⟩
  · refine ⟨_, reads.addressTableLookups fuel (by omega), rfl, by rw [List.length_map, numLookupsEq],
      ?_, ?_⟩
    · rw [writableEq, totalWritable, List.map_map]
      rfl
    · rw [readonlyEq, totalReadonly, List.map_map]
      rfl

/-- A `v0` transaction with one lookup of one writable index. -/
def v0OneLookup : VersionedTransaction :=
  ⟨[Vector.replicate signatureSize 0],
    .v0 ⟨⟨1, 0, 0⟩, [Vector.replicate pubkeySize 0], Vector.replicate hashSize 0, [⟨0, [0], [1]⟩]⟩
      [⟨Vector.replicate pubkeySize 5, [0], []⟩]⟩

theorem iterators_agree_on_v0OneLookup :
    v0OneLookup.serialize.length < 2 ^ 16 ∧
    TransactionFrame.tryNew v0OneLookup.serialize = .ok v0OneLookup.frame ∧
    ∃ transaction : VersionedTransaction, transaction.Accepted ∧
      transaction.serialize = v0OneLookup.serialize ∧
      IteratorsAgree v0OneLookup.serialize v0OneLookup.frame transaction := by
  have short : v0OneLookup.serialize.length < 2 ^ 16 := by decide +kernel
  have parsed := @TransactionFrame.tryNew_serialize v0OneLookup
    ⟨⟨by decide, by decide, by decide, by decide, by decide, by decide, by decide⟩, by decide,
      by decide⟩ (by omega)
  exact ⟨short, parsed, iterators_agree_with_checked_parse short parsed⟩

/-! ## Past `2^16` bytes -/

/-- An instruction with the most data a two-byte length allows. -/
def longInstruction : CompiledInstruction := ⟨0, [], List.replicate 16383 0⟩

/-- A `v0` transaction of four such instructions, `65719` bytes in all, and one lookup with one
writable index. -/
def longLookupTransaction : VersionedTransaction :=
  ⟨[Vector.replicate signatureSize 0],
    .v0 ⟨⟨1, 0, 0⟩, [Vector.replicate pubkeySize 0], Vector.replicate hashSize 0,
      List.replicate 4 longInstruction⟩ [⟨Vector.replicate pubkeySize 0, [0], []⟩]⟩

theorem longLookupTransaction_instructions :
    longLookupTransaction.message.message.instructions = List.replicate 4 longInstruction :=
  rfl

theorem longLookupTransaction_instructionsOffset :
    longLookupTransaction.instructionsOffset = 134 := by
  decide

theorem CompiledInstruction.length_serialize (instruction : CompiledInstruction) :
    instruction.serialize.length = 1 + (encodeShortU16 instruction.accounts.length).length +
      instruction.accounts.length + (encodeShortU16 instruction.data.length).length +
      instruction.data.length := by
  rw [CompiledInstruction.serialize_eq]
  simp only [List.length_append, List.length_singleton]
  omega

theorem length_serialize_longInstruction : longInstruction.serialize.length = 16387 := by
  have shortLength : (encodeShortU16 0).length = 1 := by decide
  have longLength : (encodeShortU16 16383).length = 2 := by decide
  rw [CompiledInstruction.length_serialize]
  simp only [longInstruction, List.length_replicate, List.length_nil, shortLength, longLength]

theorem longLookupTransaction_accepted : longLookupTransaction.Accepted := by
  refine ⟨⟨by decide, by decide, by decide, ?_, by decide, by decide, by decide⟩, by decide, by decide⟩
  intro instruction member
  rw [List.eq_of_mem_replicate member]
  exact ⟨by decide, by simp only [longInstruction, List.length_replicate]; decide⟩

theorem length_serializeShortVec_replicate {α : Type} (serialize : α → List UInt8) (count : Nat)
    (element : α) :
    (serializeShortVec serialize (List.replicate count element)).length =
      (encodeShortU16 count).length + count * (serialize element).length := by
  rw [serializeShortVec, List.length_append, List.length_flatMap, List.map_replicate,
    List.sum_replicate, List.length_replicate, Nat.nsmul_eq_mul]

theorem longLookupTransaction_lookupsOffset : longLookupTransaction.lookupsOffset = 65683 := by
  have instructionsSection : (serializeShortVec CompiledInstruction.serialize
      (List.replicate 4 longInstruction)).length = 65549 := by
    have countLength : (encodeShortU16 4).length = 1 := by decide
    rw [length_serializeShortVec_replicate, length_serialize_longInstruction, countLength]
  rw [VersionedTransaction.lookupsOffset, longLookupTransaction_instructionsOffset,
    longLookupTransaction_instructions, instructionsSection]

/-- A lookup of no indexes, whose key is zero: the encoding of 34 zero bytes. -/
def zeroLookup : MessageAddressTableLookup := ⟨Vector.replicate pubkeySize 0, [], []⟩

/-- Byte `148`, where the wrapped lookup offset points, is in the first instruction's data. -/
theorem longLookupTransaction_zeroLookup_at :
    PrefixAt longLookupTransaction.serialize 148 zeroLookup.serialize := by
  have atSection := longLookupTransaction.sectionsAt_serialize.instructions
  have instructionEq : longInstruction.serialize = [0, 0, 255, 127] ++ List.replicate 16383 0 := by
    have shortLength : encodeShortU16 0 = [0] := by decide
    have longLength : encodeShortU16 16383 = [255, 127] := by decide
    rw [CompiledInstruction.serialize_eq]
    simp only [longInstruction, List.length_nil, List.length_replicate, shortLength, longLength,
      List.append_nil, List.cons_append, List.nil_append]
  rw [longLookupTransaction_instructionsOffset, longLookupTransaction_instructions,
    serializeShortVec, List.replicate_succ, List.flatMap_cons, instructionEq] at atSection
  have atData := (prefixAt_append.mp (prefixAt_append.mp (prefixAt_append.mp atSection).2).1).2
  rw [show 16383 = 9 + (34 + 16340) from rfl, List.replicate_add, List.replicate_add] at atData
  have atZeros := (prefixAt_append.mp (prefixAt_append.mp atData).2).1
  have zeroLookupEq : zeroLookup.serialize = List.replicate 34 0 := by decide
  rw [zeroLookupEq]
  exact atZeros.of_eq_offset (by decide)

/-- `try_new` accepts the `65719` bytes of `longLookupTransaction` and records one lookup with
one writable index, but the offset of the lookups, `65684`, is cached as the `u16` `148`.  The
lookup iterator starts there, in the zeros of the first instruction's data, and yields a lookup
of no indexes. -/
theorem addressTableLookupIter_misreads_long_packet :
    2 ^ 16 ≤ longLookupTransaction.serialize.length ∧
    TransactionFrame.tryNew longLookupTransaction.serialize = .ok longLookupTransaction.frame ∧
    longLookupTransaction.frame.addressTableLookup.numAddressTableLookups = 1 ∧
    longLookupTransaction.frame.addressTableLookup.totalWritableLookupAccounts = 1 ∧
    (TransactionView.addressTableLookupIter
        ⟨longLookupTransaction.serialize, longLookupTransaction.frame⟩).collect 2 =
      [zeroLookup.toSVM] := by
  have lookupsLength : (lookupSection longLookupTransaction.message.version
      longLookupTransaction.message.addressTableLookups).length = 36 := by decide
  have lengthEq : longLookupTransaction.serialize.length = 65719 := by
    rw [VersionedTransaction.length_serialize, longLookupTransaction_lookupsOffset, lookupsLength]
  have offsetEq : longLookupTransaction.frame.addressTableLookup.offset.toNat = 148 := by
    show (UInt16.ofNat (longLookupTransaction.lookupsOffset + 1)).toNat = 148
    rw [longLookupTransaction_lookupsOffset]
    rfl
  refine ⟨by rw [lengthEq]; decide, TransactionFrame.tryNew_serialize longLookupTransaction_accepted
    (by rw [lengthEq]; decide), rfl, rfl, ?_⟩
  -- the iterator starts at the offset the `u16` cast wrapped to, inside the first instruction's data
  rw [TransactionView.addressTableLookupIter, offsetEq]
  exact AddressTableLookupIterator.collect_of_prefixAt [zeroLookup] _ 2 (by rw [lengthEq]; decide)
    rfl (by simp [zeroLookup, MessageAddressTableLookup.WithinLimits])
    (by simpa using longLookupTransaction_zeroLookup_at) (by decide)

end Validator.View
