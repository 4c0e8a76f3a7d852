import Mathlib.Algebra.Order.BigOperators.Group.List
import Mathlib.Algebra.Order.Group.Nat
import Validator.TransactionView.BytesSpec

namespace Validator.View

open Validator.Data

/-! # What each frame parser reads

Each frame parser succeeds at an offset exactly when the encoding of a value within the
packet limits sits there, and its frame records that value's counts and offsets.  The
`…_of_prefixAt` lemmas run a parser on an encoding; the `…_eq_ok` lemmas rebuild the value a
successful parser read, from the bytes.
-/

variable {bytes : List UInt8} {offset : Nat}

theorem serializeShortVec_of_lt_128 {α : Type} (serialize : α → List UInt8) {elements : List α}
    (small : elements.length < 128) :
    serializeShortVec serialize elements =
      UInt8.ofNat elements.length :: elements.flatMap serialize := by
  rw [serializeShortVec, encodeShortU16_of_lt_128 small]
  rfl

/-! ## Counted arrays: signatures and static keys -/

section CountedArray

variable {maxCount : UInt8} {size : Nat}

theorem readCountedArray_of_prefixAt (maxSmall : maxCount.toNat < 128) (sizeBound : size ≤ 2 ^ 16)
    {elements : List (Vector UInt8 size)}
    (count : 1 ≤ elements.length ∧ elements.length ≤ maxCount.toNat)
    (at_ : PrefixAt bytes offset (serializeShortVec Vector.toList elements))
    (short : bytes.length < 2 ^ 32) :
    readCountedArray maxCount size bytes offset =
      .ok ((UInt8.ofNat elements.length, UInt16.ofNat (offset + 1)),
        offset + 1 + elements.length * size) := by
  rw [serializeShortVec_of_lt_128 _ (by omega)] at at_
  obtain ⟨found, later⟩ := prefixAt_cons.mp at_
  have fits := later.le_length
  rw [length_flatMap_toList] at fits
  have countByte : (UInt8.ofNat elements.length).toNat = elements.length :=
    UInt8.toNat_ofNat_of_lt (by omega)
  have accepted : (UInt8.ofNat elements.length == 0 || UInt8.ofNat elements.length > maxCount) =
      false := by
    rw [Bool.or_eq_false_iff, beq_eq_false_iff_ne, ne_eq, ← UInt8.toNat_inj, countByte,
      decide_eq_false_iff_not, gt_iff_lt, UInt8.lt_iff_toNat_lt, countByte, UInt8.toNat_zero]
    omega
  have counted : (UInt8.ofNat elements.length).toUInt16.toNat = elements.length := by
    rw [UInt8.toNat_toUInt16, countByte]
  have advanced := (advanceOffsetForArray_eq_ok_iff (by omega : offset + 1 ≤ bytes.length) short
    sizeBound (UInt8.ofNat elements.length).toUInt16).mpr ⟨by rw [counted]; exact fits, rfl⟩
  simp only [readCountedArray, bind, Except.bind, readByte_of_getElem? found (by omega), accepted,
    Bool.false_eq_true, if_false, advanced, counted, pure, Except.pure]

theorem readCountedArray_eq_ok (maxSmall : maxCount.toNat < 128) (sizeBound : size ≤ 2 ^ 16)
    {count : UInt8} {arrayOffset : UInt16} {next : Nat}
    (parsed : readCountedArray maxCount size bytes offset = .ok ((count, arrayOffset), next))
    (short : bytes.length < 2 ^ 32) :
    ∃ elements : List (Vector UInt8 size),
      (1 ≤ elements.length ∧ elements.length ≤ maxCount.toNat) ∧
      PrefixAt bytes offset (serializeShortVec Vector.toList elements) ∧
      count = UInt8.ofNat elements.length ∧ arrayOffset = UInt16.ofNat (offset + 1) ∧
      next = offset + 1 + elements.length * size := by
  simp only [readCountedArray, except_bind_eq_ok] at parsed
  obtain ⟨⟨byte, afterCount⟩, readEq, parsed⟩ := parsed
  obtain ⟨found, afterEq⟩ := readByte_eq_ok readEq (by omega)
  subst afterEq
  have inside := (List.getElem?_eq_some_iff.mp found).1
  split at parsed
  · cases parsed
  · rename_i accepted
    dsimp only at accepted parsed
    rw [Bool.or_eq_true, not_or, beq_iff_eq, ← UInt8.toNat_inj, decide_eq_true_iff, gt_iff_lt,
      UInt8.lt_iff_toNat_lt, not_lt, UInt8.toNat_zero] at accepted
    obtain ⟨nonzero, atMost⟩ := accepted
    obtain ⟨afterArray, advanced, resultEq⟩ := except_bind_eq_ok.mp parsed
    simp only [pure, Except.pure, Except.ok.injEq, Prod.mk.injEq] at resultEq
    obtain ⟨⟨countEq, arrayOffsetEq⟩, nextEq⟩ := resultEq
    obtain ⟨fits, afterEq⟩ :=
      (advanceOffsetForArray_eq_ok_iff (by omega) short sizeBound _).mp advanced
    rw [UInt8.toNat_toUInt16] at fits afterEq
    -- The elements are the chunks after the count byte.
    refine ⟨chunksAt bytes 0 (offset + 1) byte.toNat size, ?_, ?_, ?_, arrayOffsetEq.symm, ?_⟩
    · simp only [length_chunksAt]
      omega
    · rw [serializeShortVec_of_lt_128 _ (by simp; omega), length_chunksAt, UInt8.ofNat_toNat]
      exact prefixAt_cons.mpr ⟨found, prefixAt_chunksAt fits 0⟩
    · rw [length_chunksAt, UInt8.ofNat_toNat, countEq]
    · rw [length_chunksAt, ← nextEq, afterEq]

/-- The elements of a counted array, as `slice::from_raw_parts` reads them after the count. -/
theorem sliceAt_of_prefixAt {elements : List (Vector UInt8 size)} (small : elements.length < 128)
    (at_ : PrefixAt bytes offset (serializeShortVec Vector.toList elements)) :
    sliceAt bytes (offset + 1) elements.length size = elements := by
  rw [serializeShortVec_of_lt_128 _ small] at at_
  exact chunksAt_of_prefixAt (prefixAt_cons.mp at_).2 0

end CountedArray

theorem SignatureFrame.tryNew_eq_ok_iff {frame : SignatureFrame} {next : Nat} :
    SignatureFrame.tryNew bytes offset = .ok (frame, next) ↔
      readCountedArray maxSignaturesPerPacket signatureSize bytes offset =
        .ok ((frame.numSignatures, frame.offset), next) := by
  simp only [SignatureFrame.tryNew, except_bind_eq_ok, pure, Except.pure, Except.ok.injEq,
    Prod.mk.injEq]
  constructor
  · rintro ⟨⟨⟨count, arrayOffset⟩, after⟩, read, rfl, rfl⟩
    exact read
  · intro read
    exact ⟨_, read, rfl, rfl⟩

theorem StaticAccountKeysFrame.tryNew_eq_ok_iff {frame : StaticAccountKeysFrame} {next : Nat} :
    StaticAccountKeysFrame.tryNew bytes offset = .ok (frame, next) ↔
      readCountedArray maxStaticAccountsPerPacket pubkeySize bytes offset =
        .ok ((frame.numStaticAccounts, frame.offset), next) := by
  simp only [StaticAccountKeysFrame.tryNew, except_bind_eq_ok, pure, Except.pure, Except.ok.injEq,
    Prod.mk.injEq]
  constructor
  · rintro ⟨⟨⟨count, arrayOffset⟩, after⟩, read, rfl, rfl⟩
    exact read
  · intro read
    exact ⟨_, read, rfl, rfl⟩

/-! ## The message header -/

theorem UInt8.and_messageVersionPrefix_ne_zero_iff (byte : UInt8) :
    (byte &&& messageVersionPrefix != 0) = true ↔ 128 ≤ byte.toNat := by
  rw [bne_iff_ne, ne_eq, messageVersionPrefix, UInt8.and_0x80_eq_zero_iff, not_lt]

theorem UInt8.and_not_messageVersionPrefix_eq_zero_iff (byte : UInt8) :
    byte &&& ~~~messageVersionPrefix = 0 ↔ byte.toNat % 128 = 0 := by
  rw [show ~~~messageVersionPrefix = 0x7F from rfl, ← UInt8.toNat_inj, UInt8.toNat_and_0x7F,
    UInt8.toNat_zero]

theorem MessageHeaderFrame.tryNew_of_prefixAt {version : TransactionVersion}
    {header : MessageHeader}
    (legacySmall : version = .legacy → header.numRequiredSignatures.toNat < 128)
    (at_ : PrefixAt bytes offset (versionPrefix version ++ header.serialize))
    (short : bytes.length < 2 ^ 32) :
    MessageHeaderFrame.tryNew bytes offset =
      .ok (⟨UInt16.ofNat offset, version, header.numRequiredSignatures,
        header.numReadonlySignedAccounts, header.numReadonlyUnsignedAccounts⟩,
        offset + (versionPrefix version).length + 3) := by
  have fits := at_.le_length
  cases version with
  | legacy =>
      obtain ⟨found0, at1⟩ := prefixAt_cons.mp at_
      obtain ⟨found1, at2⟩ := prefixAt_cons.mp at1
      have found2 := (prefixAt_cons.mp at2).1
      have clear : (header.numRequiredSignatures &&& messageVersionPrefix != 0) = false := by
        rw [Bool.eq_false_iff, ne_eq, UInt8.and_messageVersionPrefix_ne_zero_iff, not_le]
        exact legacySmall rfl
      simp only [versionPrefix, MessageHeader.serialize, List.nil_append, List.length_cons,
        List.length_nil] at fits ⊢
      simp only [MessageHeaderFrame.tryNew, bind, Except.bind, pure, Except.pure,
        readByte_of_getElem? found0 (by omega), clear, Bool.false_eq_true, if_false,
        readByte_of_getElem? found1 (by omega), readByte_of_getElem? found2 (by omega)]
  | v0 =>
      obtain ⟨found0, at1⟩ := prefixAt_cons.mp at_
      obtain ⟨found1, at2⟩ := prefixAt_cons.mp at1
      obtain ⟨found2, at3⟩ := prefixAt_cons.mp at2
      have found3 := (prefixAt_cons.mp at3).1
      simp only [versionPrefix, MessageHeader.serialize, List.cons_append, List.nil_append,
        List.length_cons, List.length_nil] at fits ⊢
      simp only [MessageHeaderFrame.tryNew, bind, Except.bind, pure, Except.pure,
        readByte_of_getElem? found0 (by omega), show (messageVersionPrefix &&& messageVersionPrefix
          != 0) = true from rfl, if_true, show messageVersionPrefix &&& ~~~messageVersionPrefix = 0
          from rfl, readByte_of_getElem? found1 (by omega), readByte_of_getElem? found2 (by omega),
        readByte_of_getElem? found3 (by omega)]

/-- The three counts of a header, read from `start` on. -/
theorem prefixAt_counts {start : Nat} {required signed unsigned : UInt8}
    {afterSigned afterUnsigned : Nat} (atRequired : PrefixAt bytes start [required])
    (readSigned : readByte bytes (start + 1) = .ok (signed, afterSigned))
    (readUnsigned : readByte bytes afterSigned = .ok (unsigned, afterUnsigned))
    (short : bytes.length < 2 ^ 32) :
    PrefixAt bytes start [required, signed, unsigned] ∧ afterUnsigned = start + 3 := by
  obtain ⟨found1, afterSignedEq⟩ := readByte_eq_ok readSigned (by omega)
  subst afterSignedEq
  obtain ⟨found2, afterUnsignedEq⟩ := readByte_eq_ok readUnsigned (by omega)
  subst afterUnsignedEq
  have inside2 := (List.getElem?_eq_some_iff.mp found2).1
  exact ⟨prefixAt_cons.mpr ⟨(prefixAt_cons.mp atRequired).1, prefixAt_cons.mpr ⟨found1,
    prefixAt_cons.mpr ⟨found2, prefixAt_nil.mpr (by omega)⟩⟩⟩, by omega⟩

theorem MessageHeaderFrame.tryNew_eq_ok {frame : MessageHeaderFrame} {next : Nat}
    (parsed : MessageHeaderFrame.tryNew bytes offset = .ok (frame, next))
    (short : bytes.length < 2 ^ 32) :
    ∃ header : MessageHeader,
      (frame.version = .legacy → header.numRequiredSignatures.toNat < 128) ∧
      PrefixAt bytes offset (versionPrefix frame.version ++ header.serialize) ∧
      frame = ⟨UInt16.ofNat offset, frame.version, header.numRequiredSignatures,
        header.numReadonlySignedAccounts, header.numReadonlyUnsignedAccounts⟩ ∧
      next = offset + (versionPrefix frame.version).length + 3 := by
  simp only [MessageHeaderFrame.tryNew] at parsed
  obtain ⟨⟨first, afterFirst⟩, readFirst, parsed⟩ := except_bind_eq_ok.mp parsed
  obtain ⟨found0, afterFirstEq⟩ := readByte_eq_ok readFirst (by omega)
  subst afterFirstEq
  have inside0 := (List.getElem?_eq_some_iff.mp found0).1
  dsimp only at parsed
  split at parsed
  · rename_i versioned
    rw [UInt8.and_messageVersionPrefix_ne_zero_iff] at versioned
    split at parsed
    · -- `0x80`: a `v0` message, whose header starts after the prefix.
      rename_i zero
      rw [UInt8.and_not_messageVersionPrefix_eq_zero_iff] at zero
      have prefixEq : first = messageVersionPrefix := by
        rw [← UInt8.toNat_inj, show messageVersionPrefix.toNat = 128 from rfl]
        have := UInt8.toNat_lt first
        omega
      simp only [except_bind_eq_ok, pure, Except.pure, Except.ok.injEq] at parsed
      obtain ⟨⟨required, afterRequired⟩, readRequired, _, rfl, ⟨signed, afterSigned⟩, readSigned,
        ⟨unsigned, afterUnsigned⟩, readUnsigned, rfl, rfl⟩ := parsed
      obtain ⟨found1, afterRequiredEq⟩ := readByte_eq_ok readRequired (by omega)
      subst afterRequiredEq
      have inside1 := (List.getElem?_eq_some_iff.mp found1).1
      obtain ⟨atCounts, afterEq⟩ := prefixAt_counts
        (prefixAt_cons.mpr ⟨found1, prefixAt_nil.mpr (by omega)⟩) readSigned readUnsigned short
      dsimp only
      refine ⟨⟨required, signed, unsigned⟩, fun legacy => (by cases legacy), ?_, rfl, ?_⟩
      · rw [versionPrefix, MessageHeader.serialize, List.singleton_append]
        exact prefixAt_cons.mpr ⟨prefixEq ▸ found0, atCounts⟩
      · rw [afterEq]
        rfl
    · simp [throw, throwThe, MonadExceptOf.throw, bind, Except.bind] at parsed
  · -- A legacy message: the first byte is already the first count.
    rename_i clear
    rw [UInt8.and_messageVersionPrefix_ne_zero_iff, not_le] at clear
    simp only [except_bind_eq_ok, pure, Except.pure, Except.ok.injEq] at parsed
    obtain ⟨_, rfl, ⟨signed, afterSigned⟩, readSigned, ⟨unsigned, afterUnsigned⟩, readUnsigned,
      rfl, rfl⟩ := parsed
    obtain ⟨atCounts, afterEq⟩ := prefixAt_counts
      (prefixAt_cons.mpr ⟨found0, prefixAt_nil.mpr (by omega)⟩) readSigned readUnsigned short
    dsimp only
    refine ⟨⟨first, signed, unsigned⟩, fun _ => clear, ?_, rfl, ?_⟩
    · rw [versionPrefix, List.nil_append]
      exact atCounts
    · rw [afterEq]
      rfl

/-! ## Byte vectors: a compressed length, then the bytes -/

theorem serializeShortVec_bytes (elements : List UInt8) :
    serializeShortVec (fun byte => [byte]) elements = encodeShortU16 elements.length ++ elements := by
  rw [serializeShortVec, List.flatMap_singleton']

theorem readByteVec_of_prefixAt {elements : List UInt8} (small : elements.length < 2 ^ 14)
    (at_ : PrefixAt bytes offset (encodeShortU16 elements.length ++ elements))
    (short : bytes.length < 2 ^ 32) {afterLength next : Nat}
    (afterLengthEq : afterLength = offset + (encodeShortU16 elements.length).length)
    (nextEq : next = afterLength + elements.length) :
    optimizedReadCompressedU16 bytes offset = .ok (UInt16.ofNat elements.length, afterLength) ∧
      advanceOffsetForArray 1 bytes afterLength (UInt16.ofNat elements.length) = .ok next := by
  obtain ⟨atLength, atElements⟩ := prefixAt_append.mp at_
  have fits := atElements.le_length
  have length : (UInt16.ofNat elements.length).toNat = elements.length := by
    rw [UInt16.toNat_ofNat', Nat.mod_eq_of_lt (by omega)]
  refine ⟨afterLengthEq ▸ optimizedReadCompressedU16_of_prefixAt small atLength short, ?_⟩
  rw [advanceOffsetForArray_eq_ok_iff (by omega) short (by decide), length, Nat.mul_one]
  exact ⟨by omega, nextEq⟩

theorem readByteVec_eq_ok {length : UInt16} {afterLength next : Nat}
    (readLength : optimizedReadCompressedU16 bytes offset = .ok (length, afterLength))
    (advanced : advanceOffsetForArray 1 bytes afterLength length = .ok next)
    (short : bytes.length < 2 ^ 32) :
    ∃ elements : List UInt8, elements.length = length.toNat ∧ elements.length < 2 ^ 14 ∧
      PrefixAt bytes offset (encodeShortU16 elements.length ++ elements) ∧
      afterLength = offset + (encodeShortU16 elements.length).length ∧
      next = afterLength + elements.length := by
  obtain ⟨small, atLength, afterLengthEq⟩ := optimizedReadCompressedU16_eq_ok readLength short
  have lengthFits := atLength.le_length
  obtain ⟨fits, nextEq⟩ :=
    (advanceOffsetForArray_eq_ok_iff (by omega) short (by decide) length).mp advanced
  rw [Nat.mul_one] at fits nextEq
  have sliceLength : (bytesAt bytes afterLength length.toNat).length = length.toNat := by
    simp only [bytesAt, List.length_take, List.length_drop]
    omega
  refine ⟨bytesAt bytes afterLength length.toNat, sliceLength, by omega, ?_, ?_, ?_⟩
  · rw [prefixAt_append, sliceLength, ← afterLengthEq]
    exact ⟨atLength, prefixAt_take_drop fits⟩
  · rw [sliceLength, afterLengthEq]
  · rw [sliceLength, nextEq]

/-! ## Instructions -/

/-- The frame `InstructionsFrame::try_new` records for an instruction. -/
def CompiledInstruction.frame (instruction : CompiledInstruction) : InstructionFrame :=
  ⟨UInt16.ofNat instruction.accounts.length, UInt16.ofNat instruction.data.length,
    UInt8.ofNat (encodeShortU16 instruction.accounts.length).length,
    UInt8.ofNat (encodeShortU16 instruction.data.length).length⟩

/-- An instruction whose two lists are shorter than `2^14`. -/
def CompiledInstruction.WithinLimits (instruction : CompiledInstruction) : Prop :=
  instruction.accounts.length < 2 ^ 14 ∧ instruction.data.length < 2 ^ 14

theorem CompiledInstruction.serialize_eq (instruction : CompiledInstruction) :
    instruction.serialize = [instruction.programIdIndex] ++
      ((encodeShortU16 instruction.accounts.length ++ instruction.accounts) ++
        (encodeShortU16 instruction.data.length ++ instruction.data)) := by
  rw [CompiledInstruction.serialize, serializeShortVec_bytes, serializeShortVec_bytes]
  rfl

theorem CompiledInstruction.three_le_length_serialize (instruction : CompiledInstruction) :
    3 ≤ instruction.serialize.length := by
  have accounts := length_encodeShortU16_pos instruction.accounts.length
  have data := length_encodeShortU16_pos instruction.data.length
  rw [CompiledInstruction.serialize_eq]
  simp only [List.length_append, List.length_singleton]
  omega

theorem wrappingSub_add_self {start width : Nat} (small : start + width < 2 ^ 64) :
    Usize.wrappingSub (start + width) start = width := by
  rw [Usize.wrappingSub_of_le (by omega) small]
  omega

/-- The instruction loop over the encodings of instructions within the limits. -/
theorem parseInstructions_of_prefixAt (short : bytes.length < 2 ^ 32) :
    ∀ (instructions : List CompiledInstruction) (offset : Nat) (frames : List InstructionFrame),
      (∀ instruction ∈ instructions, instruction.WithinLimits) →
      PrefixAt bytes offset (instructions.flatMap CompiledInstruction.serialize) →
      InstructionsFrame.parseInstructions bytes instructions.length offset frames =
        .ok (frames ++ instructions.map CompiledInstruction.frame,
          offset + (instructions.flatMap CompiledInstruction.serialize).length)
  | [], offset, frames, _, _ => by simp [InstructionsFrame.parseInstructions]
  | instruction :: rest, offset, frames, limits, at_ => by
      obtain ⟨accountsSmall, dataSmall⟩ := limits instruction List.mem_cons_self
      rw [List.flatMap_cons, prefixAt_append, CompiledInstruction.serialize_eq, prefixAt_append,
        prefixAt_append] at at_
      obtain ⟨⟨atIndex, atAccounts, atData⟩, atRest⟩ := at_
      simp only [List.length_singleton, List.length_append] at atAccounts atData atRest
      have fits := atData.le_length
      simp only [List.length_append] at fits
      -- The offsets the loop reaches inside the instruction.
      obtain ⟨readAccounts, advanceAccounts⟩ :=
        readByteVec_of_prefixAt accountsSmall atAccounts short rfl rfl
      obtain ⟨readData, advanceData⟩ := readByteVec_of_prefixAt dataSmall
        (atData.of_eq_offset (by omega : _ = offset + 1 +
          (encodeShortU16 instruction.accounts.length).length + instruction.accounts.length))
        short rfl rfl
      have later := parseInstructions_of_prefixAt short rest
        (offset + 1 + (encodeShortU16 instruction.accounts.length).length +
          instruction.accounts.length + (encodeShortU16 instruction.data.length).length +
          instruction.data.length)
        (frames ++ [instruction.frame])
        (fun other member => limits other (List.mem_cons_of_mem _ member))
        (atRest.of_eq_offset (by omega))
      simp only [CompiledInstruction.frame] at later
      simp only [List.length_cons, InstructionsFrame.parseInstructions, bind, Except.bind,
        readByte_of_getElem? (prefixAt_cons.mp atIndex).1 (by omega), readAccounts,
        advanceAccounts, readData, advanceData, wrappingSub_add_self (by omega :
          offset + 1 + (encodeShortU16 instruction.accounts.length).length < 2 ^ 64),
        wrappingSub_add_self (by omega : offset + 1 +
          (encodeShortU16 instruction.accounts.length).length + instruction.accounts.length +
          (encodeShortU16 instruction.data.length).length < 2 ^ 64)]
      rw [later]
      -- What is left: the frames in order, and the offset after the instruction.
      rw [List.map_cons, List.flatMap_cons, List.length_append, CompiledInstruction.serialize_eq]
      simp only [List.append_assoc, List.singleton_append, List.length_append, List.length_cons,
        CompiledInstruction.frame]
      congr 2
      omega

/-- What a successful instruction loop read: the encodings of instructions within the limits. -/
theorem parseInstructions_eq_ok (short : bytes.length < 2 ^ 32) :
    ∀ (count offset : Nat) (frames : List InstructionFrame) {result : List InstructionFrame}
      {next : Nat}, offset ≤ bytes.length →
      InstructionsFrame.parseInstructions bytes count offset frames = .ok (result, next) →
      ∃ instructions : List CompiledInstruction, instructions.length = count ∧
        (∀ instruction ∈ instructions, instruction.WithinLimits) ∧
        PrefixAt bytes offset (instructions.flatMap CompiledInstruction.serialize) ∧
        result = frames ++ instructions.map CompiledInstruction.frame ∧
        next = offset + (instructions.flatMap CompiledInstruction.serialize).length
  | 0, offset, frames, result, next, inside, parsed => by
      simp only [InstructionsFrame.parseInstructions, Except.ok.injEq, Prod.mk.injEq] at parsed
      obtain ⟨rfl, rfl⟩ := parsed
      exact ⟨[], rfl, by simp, prefixAt_nil.mpr inside, by simp, by simp⟩
  | count + 1, offset, frames, result, next, inside, parsed => by
      simp only [InstructionsFrame.parseInstructions, except_bind_eq_ok] at parsed
      obtain ⟨⟨programIdIndex, afterIndex⟩, readIndex, ⟨numAccounts, afterNumAccounts⟩,
        readAccountsLength, afterAccounts, advanceAccounts, ⟨dataLen, afterDataLen⟩,
        readDataLength, afterData, advanceData, parsed⟩ := parsed
      obtain ⟨foundIndex, afterIndexEq⟩ := readByte_eq_ok readIndex (by omega)
      subst afterIndexEq
      obtain ⟨accounts, accountsLength, accountsSmall, atAccounts, afterNumAccountsEq,
        afterAccountsEq⟩ := readByteVec_eq_ok readAccountsLength advanceAccounts short
      obtain ⟨data, dataLength, dataSmall, atData, afterDataLenEq, afterDataEq⟩ :=
        readByteVec_eq_ok readDataLength advanceData short
      have fits := atData.le_length
      simp only [List.length_append] at fits
      obtain ⟨rest, restLength, restLimits, atRest, resultEq, nextEq⟩ :=
        parseInstructions_eq_ok short count afterData _ (by omega) parsed
      have numAccountsEq : numAccounts = UInt16.ofNat accounts.length := by
        rw [accountsLength, UInt16.ofNat_toNat]
      have dataLenEq : dataLen = UInt16.ofNat data.length := by
        rw [dataLength, UInt16.ofNat_toNat]
      refine ⟨⟨programIdIndex, accounts, data⟩ :: rest, by simp [restLength], ?_, ?_, ?_, ?_⟩
      · rintro instruction (_ | ⟨_, member⟩)
        · exact ⟨accountsSmall, dataSmall⟩
        · exact restLimits instruction member
      · rw [List.flatMap_cons, prefixAt_append, CompiledInstruction.serialize_eq, prefixAt_append,
          prefixAt_append]
        refine ⟨⟨prefixAt_cons.mpr ⟨foundIndex, prefixAt_nil.mpr (by omega)⟩, atAccounts,
          atData.of_eq_offset (by simp only [List.length_singleton, List.length_append]; omega)⟩,
          atRest.of_eq_offset (by simp only [List.length_singleton, List.length_append]; omega)⟩
      · rw [resultEq, List.map_cons, CompiledInstruction.frame, numAccountsEq, dataLenEq,
          afterNumAccountsEq, afterDataLenEq, wrappingSub_add_self (by omega),
          wrappingSub_add_self (by omega)]
        simp
      · rw [nextEq, List.flatMap_cons, List.length_append, CompiledInstruction.serialize_eq]
        simp only [List.length_append, List.length_singleton]
        omega

theorem three_mul_length_le (instructions : List CompiledInstruction) :
    3 * instructions.length ≤ (instructions.flatMap CompiledInstruction.serialize).length := by
  induction instructions with
  | nil => simp
  | cons instruction rest ih =>
      have first := instruction.three_le_length_serialize
      rw [List.flatMap_cons, List.length_append, List.length_cons]
      omega

theorem InstructionsFrame.tryNew_of_prefixAt {instructions : List CompiledInstruction}
    (count : instructions.length < 2 ^ 14)
    (limits : ∀ instruction ∈ instructions, instruction.WithinLimits)
    (at_ : PrefixAt bytes offset (serializeShortVec CompiledInstruction.serialize instructions))
    (short : bytes.length < 2 ^ 32) :
    InstructionsFrame.tryNew bytes offset =
      .ok (⟨UInt16.ofNat instructions.length,
          UInt16.ofNat (offset + (encodeShortU16 instructions.length).length),
          instructions.map CompiledInstruction.frame⟩,
        offset + (serializeShortVec CompiledInstruction.serialize instructions).length) := by
  rw [serializeShortVec, prefixAt_append] at at_
  obtain ⟨atCount, atBody⟩ := at_
  have fits := atBody.le_length
  have body := three_mul_length_le instructions
  have countEq : (UInt16.ofNat instructions.length).toNat = instructions.length := by
    rw [UInt16.toNat_ofNat', Nat.mod_eq_of_lt (by omega)]
  have loop := parseInstructions_of_prefixAt short instructions _ [] limits atBody
  rw [List.nil_append] at loop
  simp only [InstructionsFrame.tryNew, bind, Except.bind,
    optimizedReadCompressedU16_of_prefixAt count atCount short, countEq,
    Usize.wrappingMul_of_lt (by omega : 3 * instructions.length < 2 ^ 64),
    checkRemaining_eq (by omega : offset + (encodeShortU16 instructions.length).length ≤
      bytes.length) (by omega), loop, pure, Except.pure, serializeShortVec, List.length_append,
    Nat.add_assoc, if_pos (by omega : offset + ((encodeShortU16 instructions.length).length +
      3 * instructions.length) ≤ bytes.length)]

theorem InstructionsFrame.tryNew_eq_ok {frame : InstructionsFrame} {next : Nat}
    (parsed : InstructionsFrame.tryNew bytes offset = .ok (frame, next))
    (short : bytes.length < 2 ^ 32) :
    ∃ instructions : List CompiledInstruction, instructions.length < 2 ^ 14 ∧
      (∀ instruction ∈ instructions, instruction.WithinLimits) ∧
      PrefixAt bytes offset (serializeShortVec CompiledInstruction.serialize instructions) ∧
      frame = ⟨UInt16.ofNat instructions.length,
        UInt16.ofNat (offset + (encodeShortU16 instructions.length).length),
        instructions.map CompiledInstruction.frame⟩ ∧
      next = offset + (serializeShortVec CompiledInstruction.serialize instructions).length := by
  simp only [InstructionsFrame.tryNew, except_bind_eq_ok] at parsed
  obtain ⟨⟨count, afterCount⟩, readCount, _, -, ⟨frames, afterBody⟩, loop, resultEq⟩ := parsed
  simp only [pure, Except.pure, Except.ok.injEq, Prod.mk.injEq] at resultEq
  obtain ⟨rfl, rfl⟩ := resultEq
  obtain ⟨small, atCount, afterCountEq⟩ := optimizedReadCompressedU16_eq_ok readCount short
  have countFits := atCount.le_length
  obtain ⟨instructions, lengthEq, limits, atBody, framesEq, afterBodyEq⟩ :=
    parseInstructions_eq_ok short count.toNat afterCount [] (by omega) loop
  rw [← lengthEq] at small atCount afterCountEq
  have countEq : count = UInt16.ofNat instructions.length := by
    rw [lengthEq, UInt16.ofNat_toNat]
  refine ⟨instructions, small, limits, ?_, ?_, ?_⟩
  · rw [serializeShortVec, prefixAt_append, ← afterCountEq]
    exact ⟨atCount, atBody⟩
  · rw [countEq, framesEq, afterCountEq, List.nil_append]
  · rw [afterBodyEq, afterCountEq, serializeShortVec, List.length_append, Nat.add_assoc]

theorem PrefixAt.bytesAt {elements : List UInt8} (at_ : PrefixAt bytes offset elements) :
    bytesAt bytes offset elements.length = elements :=
  at_.drop_take

/-- The instruction iterator over the instructions still to come: it yields each of them, and
then ends.  By induction on those instructions, with the iterator's offset at the next one. -/
theorem InstructionsIterator.collect_of_prefixAt :
    ∀ (rest : List CompiledInstruction) (iterator : InstructionsIterator) (fuel : Nat),
      iterator.bytes.length < 2 ^ 32 →
      iterator.index.toNat + rest.length = iterator.numInstructions.toNat →
      iterator.frames.drop iterator.index.toNat = rest.map CompiledInstruction.frame →
      (∀ instruction ∈ rest, instruction.WithinLimits) →
      PrefixAt iterator.bytes iterator.offset (rest.flatMap CompiledInstruction.serialize) →
      rest.length < fuel →
      iterator.collect fuel = some (rest.map CompiledInstruction.toSVM)
  | [], iterator, fuel + 1, _, ended, _, _, _, _ => by
      have done : ¬ iterator.index < iterator.numInstructions := by
        rw [UInt16.lt_iff_toNat_lt]
        simp only [List.length_nil, Nat.add_zero] at ended
        omega
      simp [InstructionsIterator.collect, InstructionsIterator.next, done]
  | instruction :: rest, iterator, fuel + 1, short, counted, framesEq, limits, at_, enough => by
      obtain ⟨accountsSmall, dataSmall⟩ := limits instruction List.mem_cons_self
      have more : iterator.index < iterator.numInstructions := by
        rw [UInt16.lt_iff_toNat_lt]
        simp only [List.length_cons] at counted
        omega
      have frameEq : iterator.frames[iterator.index.toNat]? = some instruction.frame := by
        rw [← List.head?_drop, framesEq, List.map_cons, List.head?_cons]
      rw [List.flatMap_cons, prefixAt_append, CompiledInstruction.serialize_eq] at at_
      obtain ⟨atInstruction, atRest⟩ := at_
      obtain ⟨atIndex, atLists⟩ := prefixAt_append.mp atInstruction
      obtain ⟨atAccountsVec, atDataVec⟩ := prefixAt_append.mp atLists
      have atAccounts := (prefixAt_append.mp atAccountsVec).2
      have atData := (prefixAt_append.mp atDataVec).2
      simp only [List.length_singleton, List.length_append] at atAccounts atData atRest
      have fits := atData.le_length
      have accountsLenLe := length_encodeShortU16_le accountsSmall
      have dataLenLe := length_encodeShortU16_le dataSmall
      have countLt := UInt16.toNat_lt iterator.numInstructions
      -- One step of the iterator reads this instruction back.
      have stepped : iterator.next = some (some (instruction.toSVM,
          ⟨iterator.bytes, iterator.offset + instruction.serialize.length,
            iterator.numInstructions, iterator.index + 1, iterator.frames⟩)) := by
        have lengths : ∀ value : Nat, value < 2 ^ 14 →
            (UInt8.ofNat (encodeShortU16 value).length).toNat = (encodeShortU16 value).length ∧
            (UInt16.ofNat value).toNat = value := fun value small =>
          ⟨UInt8.toNat_ofNat_of_lt (by have := length_encodeShortU16_le small; omega),
            by rw [UInt16.toNat_ofNat', Nat.mod_eq_of_lt (by omega)]⟩
        obtain ⟨accountsLen, accountsCount⟩ := lengths _ accountsSmall
        obtain ⟨dataLen, dataCount⟩ := lengths _ dataSmall
        have programIdIndex : iterator.bytes.getD iterator.offset 0 = instruction.programIdIndex := by
          simpa using atIndex.getD (by simp : 0 < [instruction.programIdIndex].length) 0
        simp only [InstructionsIterator.next, if_pos more, frameEq, uncheckedReadByte,
          uncheckedReadSliceData, CompiledInstruction.frame, accountsLen, accountsCount, dataLen,
          dataCount, programIdIndex]
        simp (disch := omega) only [Usize.wrappingAdd_of_lt, Usize.wrappingMul_of_lt, Nat.mul_one]
        rw [PrefixAt.bytesAt atAccounts, PrefixAt.bytesAt (atData.of_eq_offset (by omega :
          _ = iterator.offset + 1 + (encodeShortU16 instruction.accounts.length).length +
          instruction.accounts.length + (encodeShortU16 instruction.data.length).length)),
          CompiledInstruction.serialize_eq]
        simp only [CompiledInstruction.toSVM, List.length_append, List.length_singleton]
        congr 4
        omega
      have indexStep : (iterator.index + 1).toNat = iterator.index.toNat + 1 := by
        rw [UInt16.toNat_add, UInt16.toNat_one, Nat.mod_eq_of_lt (by simp at counted; omega)]
      have later := collect_of_prefixAt rest ⟨iterator.bytes, iterator.offset +
        instruction.serialize.length, iterator.numInstructions, iterator.index + 1,
        iterator.frames⟩ fuel short (by simp only [indexStep]; simp at counted; omega)
        (by simp only [indexStep]; rw [← List.tail_drop, framesEq]; rfl)
        (fun other member => limits other (List.mem_cons_of_mem _ member))
        (atRest.of_eq_offset (by rw [CompiledInstruction.serialize_eq]; simp; omega))
        (by simp at enough; omega)
      simp only [InstructionsIterator.collect, stepped, Option.bind_some, later, List.map_cons,
        Option.map_eq_map, Option.map_some]


/-! ## Address table lookups -/

/-- A lookup whose two index lists are shorter than `2^14`. -/
def MessageAddressTableLookup.WithinLimits (lookup : MessageAddressTableLookup) : Prop :=
  lookup.writableIndexes.length < 2 ^ 14 ∧ lookup.readonlyIndexes.length < 2 ^ 14

/-- The writable and the readonly indexes of all the lookups. -/
def totalWritable (lookups : List MessageAddressTableLookup) : Nat :=
  (lookups.map fun lookup => lookup.writableIndexes.length).sum

def totalReadonly (lookups : List MessageAddressTableLookup) : Nat :=
  (lookups.map fun lookup => lookup.readonlyIndexes.length).sum

theorem MessageAddressTableLookup.serialize_eq (lookup : MessageAddressTableLookup) :
    lookup.serialize = lookup.accountKey.toList ++
      ((encodeShortU16 lookup.writableIndexes.length ++ lookup.writableIndexes) ++
        (encodeShortU16 lookup.readonlyIndexes.length ++ lookup.readonlyIndexes)) := by
  rw [MessageAddressTableLookup.serialize, serializeShortVec_bytes, serializeShortVec_bytes,
    List.append_assoc]

theorem toUInt32_ofNat {value : Nat} (small : value < 2 ^ 16) :
    (UInt16.ofNat value).toUInt32 = UInt32.ofNat value := by
  rw [← UInt32.toNat_inj, UInt16.toNat_toUInt32, UInt16.toNat_ofNat', UInt32.toNat_ofNat']
  omega

/-- The lookup loop over the encodings of lookups within the limits. -/
theorem parseLookups_of_prefixAt (short : bytes.length < 2 ^ 32) :
    ∀ (lookups : List MessageAddressTableLookup) (offset : Nat) (writable readonly : UInt32),
      (∀ lookup ∈ lookups, lookup.WithinLimits) →
      PrefixAt bytes offset (lookups.flatMap MessageAddressTableLookup.serialize) →
      AddressTableLookupFrame.parseLookups bytes lookups.length offset writable readonly =
        .ok (offset + (lookups.flatMap MessageAddressTableLookup.serialize).length,
          writable + UInt32.ofNat (totalWritable lookups),
          readonly + UInt32.ofNat (totalReadonly lookups))
  | [], offset, writable, readonly, _, _ => by
      simp [AddressTableLookupFrame.parseLookups, totalWritable, totalReadonly]
  | lookup :: rest, offset, writable, readonly, limits, at_ => by
      obtain ⟨writableSmall, readonlySmall⟩ := limits lookup List.mem_cons_self
      have keySize : pubkeySize = 32 := rfl
      rw [List.flatMap_cons, prefixAt_append, MessageAddressTableLookup.serialize_eq] at at_
      obtain ⟨atLookup, atRest⟩ := at_
      obtain ⟨atKey, atLists⟩ := prefixAt_append.mp atLookup
      obtain ⟨atWritable, atReadonly⟩ := prefixAt_append.mp atLists
      simp only [Vector.length_toList, List.length_append] at atWritable atReadonly atRest
      have fits := atReadonly.le_length
      simp only [List.length_append] at fits
      have key : advanceOffsetForType pubkeySize bytes offset = .ok (offset + pubkeySize) :=
        (advanceOffsetForType_eq_ok_iff (by omega) short).mpr ⟨by omega, rfl⟩
      obtain ⟨readWritable, advanceWritable⟩ :=
        readByteVec_of_prefixAt writableSmall atWritable short rfl rfl
      obtain ⟨readReadonly, advanceReadonly⟩ := readByteVec_of_prefixAt readonlySmall
        (atReadonly.of_eq_offset (by omega : _ = offset + pubkeySize +
          (encodeShortU16 lookup.writableIndexes.length).length + lookup.writableIndexes.length))
        short rfl rfl
      have later := parseLookups_of_prefixAt short rest
        (offset + pubkeySize + (encodeShortU16 lookup.writableIndexes.length).length +
          lookup.writableIndexes.length + (encodeShortU16 lookup.readonlyIndexes.length).length +
          lookup.readonlyIndexes.length)
        (writable + (UInt16.ofNat lookup.writableIndexes.length).toUInt32)
        (readonly + (UInt16.ofNat lookup.readonlyIndexes.length).toUInt32)
        (fun other member => limits other (List.mem_cons_of_mem _ member))
        (atRest.of_eq_offset (by omega))
      simp only [List.length_cons, AddressTableLookupFrame.parseLookups, bind, Except.bind, key,
        readWritable, advanceWritable, readReadonly, advanceReadonly]
      rw [later, toUInt32_ofNat (by omega), toUInt32_ofNat (by omega)]
      -- What is left: the offset after the lookup, and the two totals.
      simp only [totalWritable, totalReadonly, List.map_cons, List.sum_cons, UInt32.ofNat_add,
        UInt32.add_assoc, List.flatMap_cons, List.length_append, MessageAddressTableLookup.serialize_eq,
        Vector.length_toList]
      congr 2
      omega

theorem toUInt32_eq_ofNat_toNat (count : UInt16) : count.toUInt32 = UInt32.ofNat count.toNat := by
  rw [← toUInt32_ofNat (UInt16.toNat_lt count), UInt16.ofNat_toNat]

/-- What a successful lookup loop read: the encodings of lookups within the limits, and the
totals of their index lists. -/
theorem parseLookups_eq_ok (short : bytes.length < 2 ^ 32) :
    ∀ (count offset : Nat) (writable readonly : UInt32) {next : Nat}
      {writableAfter readonlyAfter : UInt32}, offset ≤ bytes.length →
      AddressTableLookupFrame.parseLookups bytes count offset writable readonly =
        .ok (next, writableAfter, readonlyAfter) →
      ∃ lookups : List MessageAddressTableLookup, lookups.length = count ∧
        (∀ lookup ∈ lookups, lookup.WithinLimits) ∧
        PrefixAt bytes offset (lookups.flatMap MessageAddressTableLookup.serialize) ∧
        next = offset + (lookups.flatMap MessageAddressTableLookup.serialize).length ∧
        writableAfter = writable + UInt32.ofNat (totalWritable lookups) ∧
        readonlyAfter = readonly + UInt32.ofNat (totalReadonly lookups)
  | 0, offset, writable, readonly, next, writableAfter, readonlyAfter, inside, parsed => by
      simp only [AddressTableLookupFrame.parseLookups, Except.ok.injEq, Prod.mk.injEq] at parsed
      obtain ⟨rfl, rfl, rfl⟩ := parsed
      exact ⟨[], rfl, by simp, prefixAt_nil.mpr inside, by simp, by simp [totalWritable],
        by simp [totalReadonly]⟩
  | count + 1, offset, writable, readonly, next, writableAfter, readonlyAfter, inside, parsed => by
      simp only [AddressTableLookupFrame.parseLookups, except_bind_eq_ok] at parsed
      obtain ⟨afterKey, advanceKey, ⟨numWrite, afterWriteLength⟩, readWriteLength, afterWrite,
        advanceWrite, ⟨numRead, afterReadLength⟩, readReadLength, afterRead, advanceRead,
        parsed⟩ := parsed
      obtain ⟨keyFits, afterKeyEq⟩ := (advanceOffsetForType_eq_ok_iff inside short).mp advanceKey
      subst afterKeyEq
      obtain ⟨writableIndexes, writeLength, writeSmall, atWrite, afterWriteLengthEq,
        afterWriteEq⟩ := readByteVec_eq_ok readWriteLength advanceWrite short
      obtain ⟨readonlyIndexes, readLength, readSmall, atRead, afterReadLengthEq, afterReadEq⟩ :=
        readByteVec_eq_ok readReadLength advanceRead short
      have fits := atRead.le_length
      simp only [List.length_append] at fits
      obtain ⟨rest, restLength, restLimits, atRest, nextEq, writableEq, readonlyEq⟩ :=
        parseLookups_eq_ok short count afterRead _ _ (by omega) parsed
      refine ⟨⟨typeAt bytes offset pubkeySize, writableIndexes, readonlyIndexes⟩ :: rest,
        by simp [restLength], ?_, ?_, ?_, ?_, ?_⟩
      · intro lookup member
        rcases List.mem_cons.mp member with rfl | member
        · exact ⟨writeSmall, readSmall⟩
        · exact restLimits lookup member
      · rw [List.flatMap_cons, prefixAt_append, MessageAddressTableLookup.serialize_eq,
          prefixAt_append, prefixAt_append]
        have atKey : PrefixAt bytes offset (typeAt bytes offset pubkeySize).toList := by
          rw [toList_typeAt keyFits]
          exact prefixAt_take_drop keyFits
        refine ⟨⟨atKey, atWrite.of_eq_offset (by simp), atRead.of_eq_offset ?_⟩,
          atRest.of_eq_offset ?_⟩ <;>
        · simp only [List.length_append, Vector.length_toList]
          omega
      · rw [nextEq, List.flatMap_cons, List.length_append, MessageAddressTableLookup.serialize_eq]
        simp only [List.length_append, Vector.length_toList]
        omega
      · rw [writableEq, toUInt32_eq_ofNat_toNat, ← writeLength]
        simp only [totalWritable, List.map_cons, List.sum_cons, UInt32.ofNat_add, UInt32.add_assoc]
      · rw [readonlyEq, toUInt32_eq_ofNat_toNat, ← readLength]
        simp only [totalReadonly, List.map_cons, List.sum_cons, UInt32.ofNat_add, UInt32.add_assoc]

/-- At most `MAX_ATLS_PER_PACKET` lookups within the limits: the `u32` totals do not wrap. -/
theorem totals_lt {lookups : List MessageAddressTableLookup}
    (count : lookups.length ≤ maxAtlsPerPacket.toNat)
    (limits : ∀ lookup ∈ lookups, lookup.WithinLimits) :
    totalWritable lookups < 2 ^ 32 ∧ totalReadonly lookups < 2 ^ 32 := by
  have atlsMax : maxAtlsPerPacket.toNat = 31 := by decide
  have bound : ∀ f : MessageAddressTableLookup → Nat, (∀ lookup ∈ lookups, f lookup < 2 ^ 14) →
      (lookups.map f).sum < 2 ^ 32 := by
    intro f small
    have each : ∀ total ∈ lookups.map f, total ≤ 2 ^ 14 := by
      simp only [List.mem_map, forall_exists_index, and_imp]
      rintro _ lookup member rfl
      exact (small lookup member).le
    have sum : (lookups.map f).sum ≤ lookups.length * 2 ^ 14 := by
      simpa using List.sum_le_card_nsmul _ _ each
    omega
  exact ⟨bound _ fun lookup member => (limits lookup member).1,
    bound _ fun lookup member => (limits lookup member).2⟩

theorem totalToU16_ofNat_eq_ok_iff {total : Nat} (small : total < 2 ^ 32) {value : UInt16} :
    totalToU16 (UInt32.ofNat total) = .ok value ↔ total < 2 ^ 16 ∧ value = UInt16.ofNat total := by
  have totalEq : (UInt32.ofNat total).toNat = total := by
    rw [UInt32.toNat_ofNat', Nat.mod_eq_of_lt small]
  unfold totalToU16
  rw [totalEq]
  by_cases fits : total < 2 ^ 16
  · rw [if_pos fits, Except.ok.injEq, UInt32.toUInt16_ofNat', eq_comm]
    exact ⟨fun same => ⟨fits, same⟩, And.right⟩
  · rw [if_neg fits]
    exact ⟨fun failed => (by cases failed), fun both => absurd both.1 fits⟩

/-- The lookup frame over the encoding of lookups within the limits, when the section has
room for `MIN_SIZED_ATL` bytes per lookup. -/
theorem AddressTableLookupFrame.tryNew_of_prefixAt {lookups : List MessageAddressTableLookup}
    (count : lookups.length ≤ maxAtlsPerPacket.toNat)
    (limits : ∀ lookup ∈ lookups, lookup.WithinLimits)
    (totals : totalWritable lookups < 2 ^ 16 ∧ totalReadonly lookups < 2 ^ 16)
    (room : offset + 1 + minSizedAtl * lookups.length ≤ bytes.length)
    (at_ : PrefixAt bytes offset (serializeShortVec MessageAddressTableLookup.serialize lookups))
    (short : bytes.length < 2 ^ 32) :
    AddressTableLookupFrame.tryNew bytes offset =
      .ok (⟨UInt8.ofNat lookups.length, UInt16.ofNat (offset + 1),
          UInt16.ofNat (totalWritable lookups), UInt16.ofNat (totalReadonly lookups)⟩,
        offset + (serializeShortVec MessageAddressTableLookup.serialize lookups).length) := by
  have atlsMax : maxAtlsPerPacket.toNat = 31 := by decide
  rw [serializeShortVec_of_lt_128 _ (by omega)] at at_ ⊢
  obtain ⟨found, atBody⟩ := prefixAt_cons.mp at_
  have countByte : (UInt8.ofNat lookups.length).toNat = lookups.length :=
    UInt8.toNat_ofNat_of_lt (by omega)
  have accepted : ¬ UInt8.ofNat lookups.length > maxAtlsPerPacket := by
    rw [gt_iff_lt, UInt8.lt_iff_toNat_lt, countByte]
    omega
  have wide := totals_lt count limits
  have loop := parseLookups_of_prefixAt short lookups (offset + 1) 0 0 limits atBody
  rw [UInt32.zero_add, UInt32.zero_add] at loop
  simp only [AddressTableLookupFrame.tryNew, bind, Except.bind, readByte_of_getElem? found (by omega),
    if_neg accepted, countByte, Usize.wrappingMul_of_lt (by omega : minSizedAtl * lookups.length < 2 ^ 64),
    checkRemaining_eq (by omega : offset + 1 ≤ bytes.length) (by omega), if_pos room, loop,
    (totalToU16_ofNat_eq_ok_iff wide.1).mpr ⟨totals.1, rfl⟩,
    (totalToU16_ofNat_eq_ok_iff wide.2).mpr ⟨totals.2, rfl⟩, pure, Except.pure, List.length_cons]
  congr 2
  omega

/-- What a successful lookup frame read: the encoding of lookups within the limits, in a
section with room for `MIN_SIZED_ATL` bytes per lookup. -/
theorem AddressTableLookupFrame.tryNew_eq_ok {frame : AddressTableLookupFrame} {next : Nat}
    (parsed : AddressTableLookupFrame.tryNew bytes offset = .ok (frame, next))
    (short : bytes.length < 2 ^ 32) :
    ∃ lookups : List MessageAddressTableLookup, lookups.length ≤ maxAtlsPerPacket.toNat ∧
      (∀ lookup ∈ lookups, lookup.WithinLimits) ∧
      (totalWritable lookups < 2 ^ 16 ∧ totalReadonly lookups < 2 ^ 16) ∧
      offset + 1 + minSizedAtl * lookups.length ≤ bytes.length ∧
      PrefixAt bytes offset (serializeShortVec MessageAddressTableLookup.serialize lookups) ∧
      frame = ⟨UInt8.ofNat lookups.length, UInt16.ofNat (offset + 1),
        UInt16.ofNat (totalWritable lookups), UInt16.ofNat (totalReadonly lookups)⟩ ∧
      next = offset + (serializeShortVec MessageAddressTableLookup.serialize lookups).length := by
  have atlsMax : maxAtlsPerPacket.toNat = 31 := by decide
  have minSize : minSizedAtl = 35 := rfl
  simp only [AddressTableLookupFrame.tryNew, except_bind_eq_ok] at parsed
  obtain ⟨⟨count, afterCount⟩, readCount, parsed⟩ := parsed
  obtain ⟨found, afterCountEq⟩ := readByte_eq_ok readCount (by omega)
  subst afterCountEq
  have inside : offset + 1 ≤ bytes.length := (List.getElem?_eq_some_iff.mp found).1
  have countLt := UInt8.toNat_lt count
  -- A count above `MAX_ATLS_PER_PACKET` is the early `ParseError`.
  split at parsed
  · cases parsed
  rename_i accepted
  dsimp only at accepted parsed
  rw [gt_iff_lt, UInt8.lt_iff_toNat_lt] at accepted
  simp only [except_bind_eq_ok] at parsed
  obtain ⟨_, checked, ⟨afterBody, writable, readonly⟩, loop, writableCount, writableOk,
    readonlyCount, readonlyOk, resultEq⟩ := parsed
  simp only [pure, Except.pure, Except.ok.injEq, Prod.mk.injEq] at resultEq
  obtain ⟨rfl, rfl⟩ := resultEq
  have room : offset + 1 + minSizedAtl * count.toNat ≤ bytes.length := by
    rw [Usize.wrappingMul_of_lt (by rw [minSize]; omega), checkRemaining_eq inside (by omega)]
      at checked
    by_contra tooShort
    rw [if_neg tooShort] at checked
    cases checked
  obtain ⟨lookups, lengthEq, limits, atBody, afterBodyEq, writableEq, readonlyEq⟩ :=
    parseLookups_eq_ok short count.toNat (offset + 1) 0 0 inside loop
  rw [← lengthEq] at accepted room
  have wide := totals_lt (by omega) limits
  rw [writableEq, UInt32.zero_add, totalToU16_ofNat_eq_ok_iff wide.1] at writableOk
  rw [readonlyEq, UInt32.zero_add, totalToU16_ofNat_eq_ok_iff wide.2] at readonlyOk
  have countEq : count = UInt8.ofNat lookups.length := by
    rw [lengthEq, UInt8.ofNat_toNat]
  refine ⟨lookups, by omega, limits, ⟨writableOk.1, readonlyOk.1⟩, room, ?_, ?_, ?_⟩
  · rw [serializeShortVec_of_lt_128 _ (by omega), prefixAt_cons, ← countEq]
    exact ⟨found, atBody⟩
  · rw [countEq, writableOk.2, readonlyOk.2]
  · rw [afterBodyEq, serializeShortVec_of_lt_128 _ (by omega), List.length_cons]
    omega

theorem readSliceData_of_prefixAt {elements : List UInt8} {next : Nat}
    (advanced : advanceOffsetForArray 1 bytes offset (UInt16.ofNat elements.length) = .ok next)
    (at_ : PrefixAt bytes offset elements) (small : elements.length < 2 ^ 16) :
    readSliceData bytes offset (UInt16.ofNat elements.length) = .ok (elements, next) := by
  have length : (UInt16.ofNat elements.length).toNat = elements.length := by
    rw [UInt16.toNat_ofNat', Nat.mod_eq_of_lt small]
  simp only [readSliceData, bind, Except.bind, advanced, length, PrefixAt.bytesAt at_, pure,
    Except.pure]

/-- The lookup iterator over the lookups still to come: it parses each of them again, yields
it, and then ends.  By induction on those lookups, with the iterator's offset at the next one. -/
theorem AddressTableLookupIterator.collect_of_prefixAt :
    ∀ (rest : List MessageAddressTableLookup) (iterator : AddressTableLookupIterator) (fuel : Nat),
      iterator.bytes.length < 2 ^ 32 →
      iterator.index.toNat + rest.length = iterator.numAddressTableLookups.toNat →
      (∀ lookup ∈ rest, lookup.WithinLimits) →
      PrefixAt iterator.bytes iterator.offset (rest.flatMap MessageAddressTableLookup.serialize) →
      rest.length < fuel →
      iterator.collect fuel = rest.map MessageAddressTableLookup.toSVM
  | [], iterator, fuel + 1, _, ended, _, _, _ => by
      have done : ¬ iterator.index < iterator.numAddressTableLookups := by
        rw [UInt8.lt_iff_toNat_lt]
        simp only [List.length_nil, Nat.add_zero] at ended
        omega
      simp [AddressTableLookupIterator.collect, AddressTableLookupIterator.next, done]
  | lookup :: rest, iterator, fuel + 1, short, counted, limits, at_, enough => by
      obtain ⟨writableSmall, readonlySmall⟩ := limits lookup List.mem_cons_self
      have more : iterator.index < iterator.numAddressTableLookups := by
        rw [UInt8.lt_iff_toNat_lt]
        simp only [List.length_cons] at counted
        omega
      rw [List.flatMap_cons, prefixAt_append, MessageAddressTableLookup.serialize_eq] at at_
      obtain ⟨atLookup, atRest⟩ := at_
      obtain ⟨atKey, atLists⟩ := prefixAt_append.mp atLookup
      obtain ⟨atWritableVec, atReadonlyVec⟩ := prefixAt_append.mp atLists
      have atWritable := (prefixAt_append.mp atWritableVec).2
      have atReadonly := (prefixAt_append.mp atReadonlyVec).2
      simp only [Vector.length_toList, List.length_append] at atWritable atReadonly atRest
      simp only [Vector.length_toList, List.length_append] at atWritableVec atReadonlyVec
      have fits := atReadonly.le_length
      have readKey := readType_of_le (by omega : iterator.offset + pubkeySize ≤ _) short
      rw [typeAt_of_prefixAt atKey] at readKey
      obtain ⟨readWritableLength, advanceWritable⟩ :=
        readByteVec_of_prefixAt writableSmall atWritableVec short rfl rfl
      obtain ⟨readReadonlyLength, advanceReadonly⟩ := readByteVec_of_prefixAt readonlySmall
        (atReadonlyVec.of_eq_offset (by omega : _ = iterator.offset + pubkeySize +
          (encodeShortU16 lookup.writableIndexes.length).length + lookup.writableIndexes.length))
        short rfl rfl
      -- One step of the iterator parses this lookup again.
      have stepped : iterator.next = some (lookup.toSVM,
          ⟨iterator.bytes, iterator.offset + lookup.serialize.length,
            iterator.numAddressTableLookups, iterator.index + 1⟩) := by
        simp only [AddressTableLookupIterator.next, if_pos more, readKey, readWritableLength,
          readSliceData_of_prefixAt advanceWritable atWritable (by omega), readReadonlyLength,
          readSliceData_of_prefixAt advanceReadonly (atReadonly.of_eq_offset (by omega)) (by omega),
          MessageAddressTableLookup.serialize_eq, MessageAddressTableLookup.toSVM]
        simp only [List.length_append, Vector.length_toList]
        congr 3
        omega
      have countLt := UInt8.toNat_lt iterator.numAddressTableLookups
      have indexStep : (iterator.index + 1).toNat = iterator.index.toNat + 1 := by
        rw [UInt8.toNat_add, UInt8.toNat_one, Nat.mod_eq_of_lt (by simp at counted; omega)]
      have later := collect_of_prefixAt rest ⟨iterator.bytes, iterator.offset +
        lookup.serialize.length, iterator.numAddressTableLookups, iterator.index + 1⟩ fuel short
        (by simp only [indexStep]; simp at counted; omega)
        (fun other member => limits other (List.mem_cons_of_mem _ member))
        (atRest.of_eq_offset (by rw [MessageAddressTableLookup.serialize_eq]; simp; omega))
        (by simp at enough; omega)
      simp only [AddressTableLookupIterator.collect, stepped, later, List.map_cons]

end Validator.View
