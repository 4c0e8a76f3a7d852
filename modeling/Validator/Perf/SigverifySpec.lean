import Validator.Data.LoopFrame
import Validator.TransactionView.SanitizeSpec
import Validator.Perf.Sigverify

namespace Validator.Perf

open Validator.Data Validator.View

/-! # What `verify_packet` checks

On a packet that holds the encoding of a transaction the reference parser accepts and sanitizes,
the hand-written offsets parser of `sigverify` finds the signatures, the message and the static
keys where the encoding has them; the simple-vote check reads the one instruction's program key
where the encoding has it; and the loop verifies each signature against the key at its position
over the message.  So `verify_packet` checks exactly the signatures the runtime attributes to the
transaction, and flags exactly the transactions the runtime classifies as simple votes.
-/

section Reading

variable (packet : Packet) {start : Nat}

theorem Usize.checkedAdd_of_lt {a b : Nat} (small : a + b < 2 ^ 64) :
    Usize.checkedAdd a b = some (a + b) :=
  if_pos small

theorem Usize.checkedMul_of_lt {a b : Nat} (small : a * b < 2 ^ 64) :
    Usize.checkedMul a b = some (a * b) :=
  if_pos small

theorem Usize.checkedSub_zero (a : Nat) : Usize.checkedSub a 0 = some a :=
  if_pos (Nat.zero_le a)

theorem u32TryFrom_of_lt {value : Nat} (small : value < 2 ^ 32) :
    u32TryFrom value = .ok (UInt32.ofNat value) :=
  if_pos small

theorem byteAt_of_prefixAt {byte : UInt8} {rest : List UInt8}
    (at_ : PrefixAt packet.data start (byte :: rest)) : packet.byteAt start = some byte :=
  (prefixAt_cons.mp at_).1

theorem slice_of_prefixAt {elements : List UInt8} (at_ : PrefixAt packet.data start elements) :
    packet.slice start (start + elements.length) = some elements := by
  have fits := at_.le_length
  rw [Packet.slice, if_pos ⟨by omega, fits⟩, Nat.add_sub_cancel_left, at_.drop_take]

theorem sliceFrom_of_le (inside : start ≤ packet.size) :
    packet.sliceFrom start = some (packet.data.drop start) :=
  if_pos inside

theorem signatureTryFrom_toList (signature : Signature) :
    signatureTryFrom signature.toList = some signature := by
  rw [signatureTryFrom, dif_pos (by simp)]
  congr 1

/-- A minimally encoded length below `2^14` decodes, as `read_compressed_u16` reads it. -/
theorem decodeShortu16Len_of_prefixAt {bytes : List UInt8} {offset value : Nat}
    (small : value < 2 ^ 14) (at_ : PrefixAt bytes offset (encodeShortU16 value))
    (short : bytes.length < 2 ^ 16) :
    decodeShortu16Len (bytes.drop offset) = some (value, (encodeShortU16 value).length) := by
  have shortDrop : (bytes.drop offset).length < 2 ^ 32 := by
    rw [List.length_drop]
    omega
  have read := readCompressedU16_of_optimized
    (optimizedReadCompressedU16_of_prefixAt small at_.drop shortDrop) shortDrop
  simp only [decodeShortu16Len, read, Nat.zero_add,
    View.UInt16.toNat_ofNat_of_lt (by omega : value < 2 ^ 16)]

/-- A length below `128` is one byte. -/
theorem decodeShortu16Len_of_small {bytes rest : List UInt8} {offset value : Nat}
    (small : value < 128) (at_ : PrefixAt bytes offset (UInt8.ofNat value :: rest))
    (short : bytes.length < 2 ^ 16) :
    decodeShortu16Len (bytes.drop offset) = some (value, 1) := by
  have atLength : PrefixAt bytes offset (encodeShortU16 value) := by
    rw [encodeShortU16_of_lt_128 small]
    exact (prefixAt_append.mp (show PrefixAt bytes offset ([_] ++ rest) from at_)).1
  rw [decodeShortu16Len_of_prefixAt (by omega) atLength short, encodeShortU16_of_lt_128 small,
    List.length_singleton]

end Reading

/-- The loop over the signatures, over a run of signatures and a run of keys at least as long:
it checks each signature against the key at its position. -/
theorem verifySignatures_of_prefixAt (verify : Signature → List UInt8 → List UInt8 → Bool)
    (packet : Packet) {msgStart : Nat} (short : packet.size < 2 ^ 16)
    (inside : msgStart ≤ packet.size) :
    ∀ (signatures : List Signature) (keys : List Pubkey) (sigStart pubkeyStart : Nat),
      signatures.length ≤ keys.length →
      PrefixAt packet.data sigStart (signatures.flatMap Vector.toList) →
      PrefixAt packet.data pubkeyStart (keys.flatMap Vector.toList) →
      verifySignatures verify packet msgStart signatures.length sigStart pubkeyStart =
        (signatures.zip keys).all fun pair => verify pair.1 pair.2.toList (packet.data.drop msgStart)
  | [], _, _, _, _, _, _ => rfl
  | _ :: _, [], _, _, enough, _, _ => by simp at enough
  | signature :: signatures, key :: keys, sigStart, pubkeyStart, enough, atSignatures, atKeys => by
      rw [List.flatMap_cons, prefixAt_append, Vector.length_toList] at atSignatures atKeys
      obtain ⟨atSignature, atOtherSignatures⟩ := atSignatures
      obtain ⟨atKey, atOtherKeys⟩ := atKeys
      have signatureFits := atSignature.le_length
      have keyFits := atKey.le_length
      rw [Vector.length_toList] at signatureFits keyFits
      have pubkeyEnd : Usize.saturatingAdd pubkeyStart pubkeySize = pubkeyStart + pubkeySize := by
        unfold Usize.saturatingAdd Packet.size at *
        omega
      have signatureSlice := slice_of_prefixAt packet atSignature
      have keySlice := slice_of_prefixAt packet atKey
      rw [Vector.length_toList] at signatureSlice keySlice
      have later := verifySignatures_of_prefixAt verify packet short inside signatures keys
        (sigStart + signatureSize) (pubkeyStart + pubkeySize)
        (by simp at enough; omega) atOtherSignatures atOtherKeys
      simp only [List.length_cons, verifySignatures, pubkeyEnd,
        Usize.checkedAdd_of_lt (by unfold Packet.size at short; omega : sigStart + signatureSize < 2 ^ 64),
        signatureSlice, Option.bind_some, signatureTryFrom_toList, keySlice, sliceFrom_of_le packet inside,
        later, List.zip_cons_cons, List.all_cons]

/-- The offsets `do_get_packet_offsets` finds in the encoding of a transaction: its signatures
from byte `1`, its message from the header offset and its static keys after their length. -/
def encodingOffsets (transaction : VersionedTransaction) : PacketOffsets :=
  ⟨UInt32.ofNat transaction.signatures.length, UInt32.ofNat 1, UInt32.ofNat transaction.headerOffset,
    UInt32.ofNat (transaction.keysOffset + 1),
    UInt32.ofNat transaction.message.message.accountKeys.length⟩

/-- A simple vote: at most two signatures, a legacy message, and one instruction, whose program is
the vote program. -/
def isSimpleVote (voteId : Pubkey) (transaction : VersionedTransaction) : Bool :=
  transaction.signatures.length ≤ 2 && transaction.message.version = .legacy &&
    match transaction.message.message.instructions with
    | [instruction] =>
        transaction.message.message.accountKeys[instruction.programIdIndex.toNat]? == some voteId
    | _ => false

section Encoding

variable {transaction : VersionedTransaction} (accepted : transaction.Accepted)

include accepted

/-- Where each section the packet parser reads lies: the signature count at `0`, the header at
its offset after the version prefix, and the static keys after their count. -/
theorem layout_serialize :
    transaction.headerOffset = 1 + transaction.signatures.length * 64 ∧
    PrefixAt transaction.serialize 0 (UInt8.ofNat transaction.signatures.length ::
      transaction.signatures.flatMap Vector.toList) ∧
    PrefixAt transaction.serialize
      (transaction.headerOffset + (versionPrefix transaction.message.version).length)
      transaction.message.message.header.serialize ∧
    transaction.keysOffset =
      transaction.headerOffset + (versionPrefix transaction.message.version).length + 3 ∧
    PrefixAt transaction.serialize transaction.keysOffset
      (UInt8.ofNat transaction.message.message.accountKeys.length ::
        transaction.message.message.accountKeys.flatMap Vector.toList) ∧
    transaction.blockhashOffset + hashSize = transaction.instructionsOffset ∧
    transaction.blockhashOffset = transaction.keysOffset + 1 +
      transaction.message.message.accountKeys.length * 32 ∧
    transaction.instructionsOffset < transaction.serialize.length := by
  have limits := accepted.withinLimits
  have sections := transaction.sectionsAt_serialize
  have signaturesSmall : transaction.signatures.length < 128 := by
    have := limits.signatures
    omega
  have keysSmall : transaction.message.message.accountKeys.length < 128 := by
    have := limits.accountKeys
    omega
  have atSignatures := sections.signatures
  have atKeys := sections.accountKeys
  rw [serializeShortVec_of_lt_128 _ signaturesSmall] at atSignatures
  rw [serializeShortVec_of_lt_128 _ keysSmall] at atKeys
  have atInstructions := sections.instructions.le_length
  rw [serializeShortVec, List.length_append] at atInstructions
  have countLength := length_encodeShortU16_pos transaction.message.message.instructions.length
  refine ⟨?_, atSignatures, (prefixAt_append.mp sections.header).2, rfl, atKeys, rfl, ?_, by omega⟩
  · rw [VersionedTransaction.headerOffset,
      VersionedTransaction.length_serializeShortVec_toList signaturesSmall]
    rfl
  · rw [VersionedTransaction.blockhashOffset,
      VersionedTransaction.length_serializeShortVec_toList keysSmall, Nat.add_assoc]
    rfl


variable (short : transaction.serialize.length < 2 ^ 16)

include short

theorem messageHeaderOffset_serialize {packet : Packet} (encoded : packet.data = transaction.serialize) :
    messageHeaderOffset packet transaction.headerOffset =
      .ok (transaction.headerOffset + (versionPrefix transaction.message.version).length) := by
  have atHeader := transaction.sectionsAt_serialize.header
  have fits := atHeader.le_length
  have legacySmall := accepted.legacyRequired
  rw [← encoded] at atHeader
  generalize transaction.message.version = version at atHeader fits legacySmall ⊢
  have inside : ¬transaction.headerOffset ≥ packet.size := by
    rw [Packet.size, encoded]
    cases version <;> simp [versionPrefix, MessageHeader.serialize] at fits <;> omega
  cases version with
  | legacy =>
      have clear : (transaction.message.message.header.numRequiredSignatures &&&
          messageVersionPrefix != 0) = false := by
        rw [Bool.eq_false_iff, ne_eq, UInt8.and_messageVersionPrefix_ne_zero_iff, not_le]
        exact legacySmall rfl
      simp only [versionPrefix, List.nil_append, MessageHeader.serialize] at atHeader
      simp only [messageHeaderOffset, inside, if_false, bind, Except.bind, okOr,
        byteAt_of_prefixAt packet atHeader, clear, Bool.false_eq_true, pure, Except.pure,
        versionPrefix, List.length_nil, Nat.add_zero]
  | v0 =>
      simp only [versionPrefix, List.singleton_append, List.length_cons, List.length_nil] at atHeader fits ⊢
      simp only [messageHeaderOffset, inside, if_false, bind, Except.bind, okOr,
        byteAt_of_prefixAt packet atHeader,
        show (messageVersionPrefix &&& messageVersionPrefix != 0) = true from rfl, if_true,
        show messageVersionPrefix &&& ~~~messageVersionPrefix = 0 from rfl,
        Usize.checkedAdd_of_lt (by omega : transaction.headerOffset + 1 < 2 ^ 64)]

theorem doGetPacketOffsets_serialize (sanitized : transaction.Sanitized) {packet : Packet}
    (encoded : packet.data = transaction.serialize) :
    doGetPacketOffsets packet 0 = .ok (encodingOffsets transaction) := by
  obtain ⟨headerEq, atSignatures, atHeader, keysEq, atKeys, -, blockhashEq, instructionsInside⟩ :=
    layout_serialize accepted
  have signaturesCount := accepted.withinLimits.signatures
  have keysCount := accepted.withinLimits.accountKeys
  have keysFit := atKeys.le_length
  have enoughKeys := sanitized.accountKeys
  have requiredEq := sanitized.signatures
  simp only [List.length_cons, length_flatMap_toList, show pubkeySize = 32 from rfl] at keysFit
  have signaturesDecoded := decodeShortu16Len_of_small (by omega) atSignatures short
  have keysDecoded := decodeShortu16Len_of_small (by omega) atKeys short
  rw [List.drop_zero, ← encoded] at signaturesDecoded
  rw [MessageHeader.serialize] at atHeader
  obtain ⟨requiredAt, atSigned⟩ := prefixAt_cons.mp atHeader
  have signedAt := (prefixAt_cons.mp atSigned).1
  rw [← encoded] at requiredAt signedAt
  have headerFits := atHeader.le_length
  simp only [List.length_cons, List.length_nil] at headerFits
  have size : packet.size = transaction.serialize.length := by rw [Packet.size, encoded]
  have enoughBytes : (Usize.checkedAdd 1 signatureSize).filter (· ≤ packet.size) =
      some (1 + signatureSize) := by
    rw [show signatureSize = 64 from rfl, Usize.checkedAdd_of_lt (by omega), Option.filter_some,
      if_pos (by simp; omega)]
  have msgStartOffset : (Usize.checkedMul transaction.signatures.length signatureSize).bind
      (Usize.checkedAdd · 1) = some transaction.headerOffset := by
    rw [show signatureSize = 64 from rfl, Usize.checkedMul_of_lt (by omega), Option.bind_some,
      Usize.checkedAdd_of_lt (by omega), headerEq, Nat.add_comm]
  have headerEnd : (Usize.checkedAdd (transaction.headerOffset +
      (versionPrefix transaction.message.version).length + 1) messageHeaderLength).filter
      (· ≤ packet.size) = some (transaction.keysOffset + 1) := by
    rw [show messageHeaderLength = 3 from rfl, Usize.checkedAdd_of_lt (by omega), Option.filter_some,
      if_pos (by simp; omega), keysEq]
  have keysStart : Usize.checkedAdd (transaction.headerOffset +
      (versionPrefix transaction.message.version).length) messageHeaderLength =
      some transaction.keysOffset := by
    rw [Usize.checkedAdd_of_lt (by rw [show messageHeaderLength = 3 from rfl]; omega), keysEq]
    rfl
  have keysCount : (packet.sliceFrom transaction.keysOffset).bind decodeShortu16Len =
      some (transaction.message.message.accountKeys.length, 1) := by
    rw [sliceFrom_of_le _ (by omega), Option.bind_some, encoded]
    exact keysDecoded
  have keysEnd : ((Usize.checkedMul transaction.message.message.accountKeys.length pubkeySize).bind
      (Usize.checkedAdd · (transaction.keysOffset + 1))).filter (· ≤ packet.size) =
      some transaction.blockhashOffset := by
    rw [show pubkeySize = 32 from rfl, Usize.checkedMul_of_lt (by omega), Option.bind_some,
      Usize.checkedAdd_of_lt (by omega), Option.filter_some, if_pos (by simp; omega)]
    congr 1
    omega
  have notPayer : ¬transaction.message.message.header.numRequiredSignatures ≤
      transaction.message.message.header.numReadonlySignedAccounts :=
    UInt8.not_le.mpr sanitized.feePayer
  have notMismatch : ¬transaction.message.message.header.numRequiredSignatures.toNat ≠
      transaction.signatures.length := by omega
  have notFewKeys : ¬transaction.message.message.accountKeys.length <
      transaction.signatures.length := by omega
  simp only [doGetPacketOffsets, bind, Except.bind, okOr, pure, Except.pure, enoughBytes,
    signaturesDecoded, msgStartOffset, messageHeaderOffset_serialize accepted short encoded,
    Usize.checkedAdd_of_lt (by omega : transaction.headerOffset +
      (versionPrefix transaction.message.version).length + 1 < 2 ^ 64), headerEnd, keysStart,
    Packet.byteAt, requiredAt, signedAt, notPayer, if_false, notMismatch, keysCount,
    Usize.checkedAdd_of_lt (by omega : transaction.keysOffset + 1 < 2 ^ 64), keysEnd, notFewKeys,
    Usize.checkedAdd_of_lt (by omega : 0 + 1 < 2 ^ 64),
    Usize.checkedAdd_of_lt (by omega : 0 + transaction.headerOffset < 2 ^ 64),
    Usize.checkedAdd_of_lt (by omega : 0 + (transaction.keysOffset + 1) < 2 ^ 64), Nat.zero_add,
    u32TryFrom_of_lt (by omega : transaction.signatures.length < 2 ^ 32),
    u32TryFrom_of_lt (by omega : 1 < 2 ^ 32),
    u32TryFrom_of_lt (by omega : transaction.headerOffset < 2 ^ 32),
    u32TryFrom_of_lt (by omega : transaction.keysOffset + 1 < 2 ^ 32),
    u32TryFrom_of_lt (by omega : transaction.message.message.accountKeys.length < 2 ^ 32)]
  rfl

theorem toNat_encodingOffsets :
    (encodingOffsets transaction).sigLen.toNat = transaction.signatures.length ∧
    (encodingOffsets transaction).sigStart.toNat = 1 ∧
    (encodingOffsets transaction).msgStart.toNat = transaction.headerOffset ∧
    (encodingOffsets transaction).pubkeyStart.toNat = transaction.keysOffset + 1 ∧
    (encodingOffsets transaction).pubkeyLen.toNat = transaction.message.message.accountKeys.length := by
  obtain ⟨-, -, -, keysEq, atKeys, -, -, -⟩ := layout_serialize accepted
  have keysFit := atKeys.le_length
  have signaturesCount := accepted.withinLimits.signatures
  have keysCount := accepted.withinLimits.accountKeys
  simp only [List.length_cons] at keysFit
  simp only [encodingOffsets, UInt32.toNat_ofNat', true_and]
  omega

/-- More than two signatures: not a simple vote, and the check fails at once. -/
theorem checkForSimpleVoteTransaction_of_many {packet : Packet} (voteId : Pubkey)
    (many : 2 < transaction.signatures.length) :
    checkForSimpleVoteTransaction voteId packet (encodingOffsets transaction) 0 =
      .error .invalidSignatureLen := by
  obtain ⟨sigLen, -⟩ := toNat_encodingOffsets accepted short
  have tooMany : (encodingOffsets transaction).sigLen > 2 := by
    rw [gt_iff_lt, UInt32.lt_iff_toNat_lt, sigLen]
    exact many
  simp only [checkForSimpleVoteTransaction, tooMany, if_true]
  rfl

/-- A versioned message: not a simple vote, and the check leaves the packet as it was. -/
theorem checkForSimpleVoteTransaction_of_v0 {packet : Packet}
    (encoded : packet.data = transaction.serialize) (voteId : Pubkey)
    (few : transaction.signatures.length ≤ 2) (versioned : transaction.message.version = .v0) :
    checkForSimpleVoteTransaction voteId packet (encodingOffsets transaction) 0 = .ok packet := by
  obtain ⟨sigLen, -, msgStart, -⟩ := toNat_encodingOffsets accepted short
  have atHeader := transaction.sectionsAt_serialize.header
  rw [versioned, versionPrefix, ← encoded] at atHeader
  have notMany : ¬(encodingOffsets transaction).sigLen > 2 := by
    rw [gt_iff_lt, UInt32.lt_iff_toNat_lt, sigLen, show (2 : UInt32).toNat = 2 from rfl]
    omega
  simp only [checkForSimpleVoteTransaction, notMany, if_false, bind, Except.bind, okOr, msgStart,
    Usize.checkedSub_zero, byteAt_of_prefixAt packet atHeader, pure, Except.pure,
    show (messageVersionPrefix &&& messageVersionPrefix != 0) = true from rfl, if_true]

/-- A legacy message of at most two signatures: the check reads the number of instructions, and the
program key of the only one. -/
theorem checkForSimpleVoteTransaction_of_legacy (sanitized : transaction.Sanitized) {packet : Packet}
    (encoded : packet.data = transaction.serialize) (voteId : Pubkey)
    (few : transaction.signatures.length ≤ 2) (legacy : transaction.message.version = .legacy) :
    (transaction.message.message.instructions.length ≠ 1 →
      checkForSimpleVoteTransaction voteId packet (encodingOffsets transaction) 0 =
        .error .invalidProgramLen) ∧
    ∀ instruction, transaction.message.message.instructions = [instruction] →
      checkForSimpleVoteTransaction voteId packet (encodingOffsets transaction) 0 =
        .ok (if transaction.message.message.accountKeys[instruction.programIdIndex.toNat]? =
            some voteId then { packet with simpleVoteTx := true } else packet) := by
  obtain ⟨sigLen, -, msgStart, pubkeyStart, pubkeyLen⟩ := toNat_encodingOffsets accepted short
  obtain ⟨-, -, -, keysEq, atKeys, instructionsEq, blockhashEq, instructionsInside⟩ :=
    layout_serialize accepted
  have limits := accepted.withinLimits
  have size : packet.size = transaction.serialize.length := by rw [Packet.size, encoded]
  have atHeader := transaction.sectionsAt_serialize.header
  rw [legacy, versionPrefix, List.nil_append, MessageHeader.serialize, ← encoded] at atHeader
  have clear : (transaction.message.message.header.numRequiredSignatures &&&
      messageVersionPrefix != 0) = false := by
    rw [Bool.eq_false_iff, ne_eq, UInt8.and_messageVersionPrefix_ne_zero_iff, not_le]
    exact accepted.legacyRequired legacy
  have notMany : ¬(encodingOffsets transaction).sigLen > 2 := by
    rw [gt_iff_lt, UInt32.lt_iff_toNat_lt, sigLen, show (2 : UInt32).toNat = 2 from rfl]
    omega
  have instructionsLenOffset : ((Usize.checkedMul transaction.message.message.accountKeys.length
      pubkeySize).bind (Usize.checkedAdd · (transaction.keysOffset + 1))).bind
      (Usize.checkedAdd · hashSize) = some transaction.instructionsOffset := by
    rw [show pubkeySize = 32 from rfl, show hashSize = 32 from rfl, Usize.checkedMul_of_lt (by omega),
      Option.bind_some, Usize.checkedAdd_of_lt (by omega), Option.bind_some,
      Usize.checkedAdd_of_lt (by omega), ← instructionsEq, blockhashEq, show hashSize = 32 from rfl]
    congr 1
    omega
  have countByte : (Usize.checkedAdd transaction.instructionsOffset 1).filter (· ≤ packet.size) =
      some (transaction.instructionsOffset + 1) := by
    rw [Usize.checkedAdd_of_lt (by omega), Option.filter_some, if_pos (by simp; omega)]
  have atInstructions := transaction.sectionsAt_serialize.instructions
  rw [serializeShortVec, prefixAt_append] at atInstructions
  have counted : (packet.sliceFrom transaction.instructionsOffset).bind decodeShortu16Len =
      some (transaction.message.message.instructions.length,
        (encodeShortU16 transaction.message.message.instructions.length).length) := by
    rw [sliceFrom_of_le _ (by omega), Option.bind_some, encoded]
    exact decodeShortu16Len_of_prefixAt limits.instructions atInstructions.1 short
  constructor
  · intro notOne
    simp only [checkForSimpleVoteTransaction, notMany, if_false, bind, Except.bind, okOr, msgStart,
      Usize.checkedSub_zero, byteAt_of_prefixAt packet atHeader, clear, Bool.false_eq_true,
      pubkeyStart, pubkeyLen, instructionsLenOffset, countByte, counted, notOne, ne_eq,
      not_false_eq_true, if_true]
    rfl
  · intro instruction only
    have countOne : encodeShortU16 1 = [1] := rfl
    have atInstruction := atInstructions.2
    simp only [only, List.length_singleton, countOne, List.flatMap_cons, List.flatMap_nil,
      List.append_nil] at atInstruction
    have instructionFits := atInstruction.le_length
    have threeBytes := instruction.three_le_length_serialize
    rw [CompiledInstruction.serialize, ← encoded] at atInstruction
    have member : instruction ∈ transaction.message.message.instructions := by
      rw [only]
      exact List.mem_singleton_self instruction
    obtain ⟨inside, -⟩ := sanitized.programIds instruction member
    have keysFit := atKeys.le_length
    simp only [List.length_cons, length_flatMap_toList] at keysFit
    have programByte : (Usize.checkedAdd (transaction.instructionsOffset + 1) 1).filter
        (· ≤ packet.size) = some (transaction.instructionsOffset + 1 + 1) := by
      rw [Usize.checkedAdd_of_lt (by omega), Option.filter_some, if_pos (by simp; omega)]
    have inRange : ¬instruction.programIdIndex.toNat ≥ transaction.message.message.accountKeys.length :=
      Nat.not_le.mpr inside
    have programStart : (Usize.checkedMul instruction.programIdIndex.toNat pubkeySize).bind
        (Usize.checkedAdd · (transaction.keysOffset + 1)) =
        some (transaction.keysOffset + 1 + instruction.programIdIndex.toNat * pubkeySize) := by
      rw [show pubkeySize = 32 from rfl, Usize.checkedMul_of_lt (by omega), Option.bind_some,
        Usize.checkedAdd_of_lt (by omega), Nat.add_comm]
    have atProgram := ((prefixAt_cons.mp atKeys).2.chunk inside)
    rw [← encoded] at atProgram
    have programSlice := slice_of_prefixAt packet atProgram
    rw [Vector.length_toList] at programSlice
    have found : transaction.message.message.accountKeys[instruction.programIdIndex.toNat]? =
        some transaction.message.message.accountKeys[instruction.programIdIndex.toNat] :=
      List.getElem?_eq_getElem inside
    simp only [checkForSimpleVoteTransaction, notMany, if_false, bind, Except.bind, okOr, msgStart,
      Usize.checkedSub_zero, byteAt_of_prefixAt packet atHeader, clear, Bool.false_eq_true,
      pubkeyStart, pubkeyLen, instructionsLenOffset, counted, countOne,
      List.length_singleton, only, ne_eq, not_true_eq_false,
      Usize.checkedAdd_of_lt (by omega : transaction.instructionsOffset + 1 < 2 ^ 64), programByte,
      Option.filter_some, show transaction.instructionsOffset + 1 ≤ packet.size by omega,
      decide_true, if_true,
      byteAt_of_prefixAt packet atInstruction, inRange, programStart,
      Usize.checkedAdd_of_lt (by rw [show pubkeySize = 32 from rfl]; omega :
        transaction.keysOffset + 1 + instruction.programIdIndex.toNat * pubkeySize + pubkeySize <
          2 ^ 64), programSlice, found, Option.some.injEq, beq_iff_eq, Vector.toList_inj]
    split_ifs <;> rfl

/-- The check sets the flag on the encoding of a simple vote, and leaves the packet as it was on
the encoding of any other transaction. -/
theorem checkForSimpleVoteTransaction_serialize (sanitized : transaction.Sanitized) {packet : Packet}
    (encoded : packet.data = transaction.serialize) (voteId : Pubkey) :
    (isSimpleVote voteId transaction = true →
      checkForSimpleVoteTransaction voteId packet (encodingOffsets transaction) 0 =
        .ok { packet with simpleVoteTx := true }) ∧
    (isSimpleVote voteId transaction = false → ∀ left,
      checkForSimpleVoteTransaction voteId packet (encodingOffsets transaction) 0 = .ok left →
        left = packet) := by
  by_cases few : transaction.signatures.length ≤ 2
  · cases version : transaction.message.version with
    | v0 =>
        have notSimple : isSimpleVote voteId transaction = false := by
          simp [isSimpleVote, version]
        rw [notSimple, checkForSimpleVoteTransaction_of_v0 accepted short encoded voteId few version]
        exact ⟨nofun, fun _ left returned => (Except.ok.inj returned).symm⟩
    | legacy =>
        obtain ⟨notOne, one⟩ :=
          checkForSimpleVoteTransaction_of_legacy accepted short sanitized encoded voteId few version
        -- the check fails unless there is exactly one instruction
        have failed : transaction.message.message.instructions.length ≠ 1 →
            (isSimpleVote voteId transaction = true → False) ∧
            ∀ left, checkForSimpleVoteTransaction voteId packet (encodingOffsets transaction) 0 =
              .ok left → left = packet := by
          intro many
          refine ⟨fun simple => ?_, fun left returned => by rw [notOne many] at returned; cases returned⟩
          cases instructions : transaction.message.message.instructions with
          | nil => simp [isSimpleVote, instructions] at simple
          | cons instruction rest =>
              cases rest with
              | nil => simp [instructions] at many
              | cons => simp [isSimpleVote, instructions] at simple
        cases instructions : transaction.message.message.instructions with
        | nil =>
            obtain ⟨notSimple, unchanged⟩ := failed (by simp [instructions])
            exact ⟨fun simple => (notSimple simple).elim, fun _ => unchanged⟩
        | cons instruction rest =>
            cases rest with
            | nil =>
                have simpleEq : isSimpleVote voteId transaction =
                    (transaction.message.message.accountKeys[instruction.programIdIndex.toNat]? ==
                      some voteId) := by
                  simp [isSimpleVote, few, version, instructions]
                rw [one instruction instructions, simpleEq]
                refine ⟨fun simple => ?_, fun notSimple left returned => ?_⟩
                · rw [if_pos (beq_iff_eq.mp simple)]
                · rw [if_neg (by simpa using notSimple)] at returned
                  exact (Except.ok.inj returned).symm
            | cons =>
                obtain ⟨notSimple, unchanged⟩ := failed (by simp [instructions])
                exact ⟨fun simple => (notSimple simple).elim, fun _ => unchanged⟩
  · have notSimple : isSimpleVote voteId transaction = false := by
      simp [isSimpleVote, few]
    rw [notSimple, checkForSimpleVoteTransaction_of_many accepted short voteId (by omega)]
    exact ⟨nofun, fun _ left returned => by cases returned⟩

/-- `get_packet_offsets` on the encoding of a sanitized transaction: the packet's flag ends up
saying whether it is a simple vote, and the offsets are kept unless votes only are wanted and it
is not one. -/
theorem getPacketOffsets_serialize (sanitized : transaction.Sanitized) {packet : Packet}
    (encoded : packet.data = transaction.serialize) (fresh : packet.simpleVoteTx = false)
    (voteId : Pubkey) (rejectNonVote : Bool) :
    getPacketOffsets voteId packet 0 rejectNonVote =
      if !rejectNonVote || isSimpleVote voteId transaction then
        (encodingOffsets transaction, { packet with simpleVoteTx := isSimpleVote voteId transaction })
      else (⟨0, 0, 0, 0, 0⟩, { packet with simpleVoteTx := isSimpleVote voteId transaction }) := by
  obtain ⟨flagged, unchanged⟩ :=
    checkForSimpleVoteTransaction_serialize accepted short sanitized encoded voteId
  rw [getPacketOffsets, doGetPacketOffsets_serialize accepted short sanitized encoded]
  cases simple : isSimpleVote voteId transaction with
  | true => simp only [flagged simple, Bool.or_true, if_true]
  | false =>
      have same : { packet with simpleVoteTx := false } = packet := by
        rw [← fresh]
      cases checked : checkForSimpleVoteTransaction voteId packet (encodingOffsets transaction) 0 with
      | ok left => simp only [checked, unchanged simple left checked, fresh, Bool.or_false, same]
      | error error => simp only [checked, fresh, Bool.or_false, same]

/-- `verify_packet` on the encoding of a sanitized transaction: it checks each signature against
the static key at its position, over the message, unless votes only are wanted and this is not
one. -/
theorem verifyPacket_serialize (sanitized : transaction.Sanitized)
    (verify : Signature → List UInt8 → List UInt8 → Bool) (voteId : Pubkey) (rejectNonVote : Bool) :
    verifyPacket verify voteId ⟨transaction.serialize, false, false⟩ rejectNonVote =
      ((!rejectNonVote || isSimpleVote voteId transaction) &&
          (transaction.signatures.zip transaction.message.message.accountKeys).all fun pair =>
            verify pair.1 pair.2.toList transaction.message.serialize,
        ⟨transaction.serialize, false, isSimpleVote voteId transaction⟩) := by
  have offsets : getPacketOffsets voteId ⟨transaction.serialize, false, false⟩ 0 rejectNonVote = _ :=
    getPacketOffsets_serialize accepted short sanitized rfl rfl voteId rejectNonVote
  obtain ⟨sigLen, sigStart, msgStart, pubkeyStart, -⟩ := toNat_encodingOffsets accepted short
  obtain ⟨-, atSignatures, -, keysEq, atKeys, -, -, -⟩ := layout_serialize accepted
  obtain ⟨oneSignature, -⟩ := accepted.withinLimits.signatures
  have message : transaction.serialize.drop transaction.headerOffset = transaction.message.serialize := by
    rw [VersionedTransaction.serialize, VersionedTransaction.headerOffset, List.drop_left]
  simp only [verifyPacket, Bool.false_eq_true, if_false, offsets]
  cases wanted : (!rejectNonVote || isSimpleVote voteId transaction)
  · simp
  · have nonzero : ¬(encodingOffsets transaction).sigLen = 0 := by
      rw [← UInt32.toNat_inj, sigLen, UInt32.toNat_zero]
      omega
    have keysFit := atKeys.le_length
    simp only [List.length_cons] at keysFit
    have inside : ¬transaction.serialize.length ≤ transaction.headerOffset := by omega
    simp only [if_true, nonzero, if_false, Packet.size, msgStart, inside, sigLen, sigStart,
      pubkeyStart, Bool.true_and]
    rw [verifySignatures_of_prefixAt verify
      ⟨transaction.serialize, false, isSimpleVote voteId transaction⟩ short (by simp only [Packet.size]; omega)
      transaction.signatures transaction.message.message.accountKeys 1 (transaction.keysOffset + 1)
      sanitized.accountKeys (prefixAt_cons.mp atSignatures).2 (prefixAt_cons.mp atKeys).2, message]

end Encoding

/-- The runtime's classification of the view of a sanitized transaction's encoding. -/
theorem isSimpleVoteTransaction_view {transaction : VersionedTransaction}
    (accepted : transaction.Accepted) (short : transaction.serialize.length < 2 ^ 16)
    (sanitized : transaction.Sanitized) (voteId : Pubkey) :
    isSimpleVoteTransaction voteId transaction.view = some (isSimpleVote voteId transaction) := by
  have readBack := VersionedTransaction.readsBack accepted short
  have collected : transaction.view.instructionsIter.collect
      (transaction.view.numInstructions.toNat + 1) =
      some (transaction.message.message.instructions.map CompiledInstruction.toSVM) := by
    rw [VersionedTransaction.numInstructions_view accepted]
    exact readBack.instructions _ (by omega)
  have programs : transaction.view.programInstructions =
      some ((transaction.message.message.instructions.map CompiledInstruction.toSVM).map
        fun instruction => (transaction.message.message.accountKeys.getD
          instruction.programIdIndex.toNat default, instruction)) := by
    rw [TransactionView.programInstructions, collected, Option.bind_some]
    apply LoopFrame.mapM_eq_some_map
    intro instruction member
    obtain ⟨compiled, compiledMember, rfl⟩ := List.mem_map.mp member
    have inside : compiled.toSVM.programIdIndex.toNat <
        transaction.message.message.accountKeys.length :=
      (sanitized.programIds compiled compiledMember).1
    rw [show transaction.view.staticAccountKeys = transaction.message.message.accountKeys
      from readBack.staticAccountKeys, List.getElem?_eq_getElem inside, Option.map_some,
      List.getD_eq_getElem _ _ inside]
  have few : decide (transaction.signatures.length < 3) =
      decide (transaction.signatures.length ≤ 2) :=
    decide_eq_decide.mpr (by omega)
  simp only [isSimpleVoteTransaction, programs, Option.map_some, isSimpleVoteTransactionImpl,
    isSimpleVote, show transaction.view.signatures = transaction.signatures from readBack.signatures,
    show transaction.view.version = transaction.message.version from readBack.version, few,
    List.map_map, Option.some.injEq]
  -- both sides look at the instructions only when there is exactly one
  cases instructions : transaction.message.message.instructions with
  | nil => rfl
  | cons instruction rest =>
      cases rest with
      | nil =>
          have inside := (sanitized.programIds instruction (by simp [instructions])).1
          simp [CompiledInstruction.toSVM, List.getElem?_eq_getElem inside]
      | cons => rfl

/-- The triples a view names for verification: each signature with the static key at its
position, over the bytes of the message. -/
def signedTriples (view : TransactionView) : List (Signature × List UInt8 × List UInt8) :=
  (view.signatures.zip view.staticAccountKeys).map fun pair =>
    (pair.1, pair.2.toList, view.messageData)

theorem verifyPacket_checks_exactly_the_sanitized_signatures
    (verify : Signature → List UInt8 → List UInt8 → Bool) (voteId : Pubkey)
    {bytes : List UInt8} {view : TransactionView} (short : bytes.length < 2 ^ 16)
    (parsed : TransactionView.tryNewSanitized bytes = some (.ok view)) (rejectNonVote : Bool) :
    view.signatures.length = view.numRequiredSignatures.toNat ∧ 1 ≤ view.signatures.length ∧
    (signedTriples view).length = view.signatures.length ∧
    ∃ simpleVote, isSimpleVoteTransaction voteId view = some simpleVote ∧
      verifyPacket verify voteId ⟨bytes, false, false⟩ rejectNonVote =
        ((!rejectNonVote || simpleVote) &&
            (signedTriples view).all fun triple => verify triple.1 triple.2.1 triple.2.2,
          ⟨bytes, false, simpleVote⟩) := by
  obtain ⟨transaction, accepted, sanitized, rfl, rfl⟩ :=
    ((TransactionView.tryNewSanitized_accepts_exactly_sanitized_encodings short).2 view).mp parsed
  have readBack := VersionedTransaction.readsBack accepted short
  have signaturesEq : transaction.view.signatures = transaction.signatures := readBack.signatures
  have keysEq : transaction.view.staticAccountKeys = transaction.message.message.accountKeys :=
    readBack.staticAccountKeys
  have messageEq : transaction.view.messageData = transaction.message.serialize :=
    readBack.messageData
  have signaturesCount := accepted.withinLimits.signatures
  have enoughKeys := sanitized.accountKeys
  refine ⟨by rw [signaturesEq]; exact sanitized.signatures, by rw [signaturesEq]; omega, ?_,
    isSimpleVote voteId transaction, isSimpleVoteTransaction_view accepted short sanitized voteId, ?_⟩
  · rw [signedTriples, List.length_map, List.length_zip, signaturesEq, keysEq]
    omega
  · rw [verifyPacket_serialize accepted short sanitized, signedTriples, signaturesEq, keysEq,
      messageEq, List.all_map]
    rfl

theorem verifyPacket_checks_one_transfer_signature :
    legacyTransfer.serialize.length < 2 ^ 16 ∧
    TransactionView.tryNewSanitized legacyTransfer.serialize = some (.ok legacyTransfer.view) ∧
    ∃ simpleVote,
      isSimpleVoteTransaction (Vector.replicate pubkeySize 3) legacyTransfer.view = some simpleVote ∧
      verifyPacket (fun _ _ _ => true) (Vector.replicate pubkeySize 3)
          ⟨legacyTransfer.serialize, false, false⟩ true =
        ((!true || simpleVote) && (signedTriples legacyTransfer.view).all fun _ => true,
          ⟨legacyTransfer.serialize, false, simpleVote⟩) := by
  have short : legacyTransfer.serialize.length < 2 ^ 16 := by decide +kernel
  have accepted : legacyTransfer.Accepted :=
    ⟨⟨by decide, by decide, by decide, by decide, by decide, by decide, by decide⟩, by decide,
      by decide⟩
  have sanitized : legacyTransfer.Sanitized :=
    ⟨by decide, by decide, by decide, by decide, by decide +kernel, by decide, by decide +kernel,
      by decide⟩
  have parsed : TransactionView.tryNewSanitized legacyTransfer.serialize =
      some (.ok legacyTransfer.view) :=
    ((TransactionView.tryNewSanitized_accepts_exactly_sanitized_encodings short).2 _).mpr
      ⟨legacyTransfer, accepted, sanitized, rfl, rfl⟩
  exact ⟨short, parsed, (verifyPacket_checks_exactly_the_sanitized_signatures (fun _ _ _ => true)
    (Vector.replicate pubkeySize 3) short parsed true).2.2.2⟩

end Validator.Perf
