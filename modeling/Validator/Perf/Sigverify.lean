import Validator.TransactionView.Sanitize

namespace Validator.Perf

open Validator.View

/-! # Verifying the signatures of a packet

`verify_packet` of `perf/src/sigverify.rs` with what it calls: `do_get_packet_offsets`, a parser
of its own for the few fields it needs; `check_for_simple_vote_transaction`, which sets the
packet's simple-vote flag; and the loop over the signatures.  A packet is the bytes its `data`
indexes (its first `meta.size` bytes) with the two flags read and written here.  Ed25519
verification and the vote program's id are parameters.
-/

inductive PacketError where
  | invalidLen
  | invalidPubkeyLen
  | invalidShortVec
  | invalidSignatureLen
  | mismatchSignatureLen
  | payerNotWritable
  | invalidProgramIdIndex
  | invalidProgramLen
  | unsupportedVersion
deriving DecidableEq, Repr

structure PacketOffsets where
  sigLen : UInt32
  sigStart : UInt32
  msgStart : UInt32
  pubkeyStart : UInt32
  pubkeyLen : UInt32
deriving DecidableEq, Repr

structure Packet where
  data : List UInt8
  discard : Bool
  simpleVoteTx : Bool
deriving DecidableEq, Repr

namespace Packet

variable (packet : Packet)

/-- `meta.size`. -/
def size : Nat := packet.data.length

/-- `data(index)`. -/
def byteAt (index : Nat) : Option UInt8 := packet.data[index]?

/-- `data(start..stop)`. -/
def slice (start stop : Nat) : Option (List UInt8) :=
  if start ≤ stop ∧ stop ≤ packet.size then some ((packet.data.drop start).take (stop - start))
  else none

/-- `data(start..)`. -/
def sliceFrom (start : Nat) : Option (List UInt8) :=
  if start ≤ packet.size then some (packet.data.drop start) else none

end Packet

namespace Usize

def checkedAdd (a b : Nat) : Option Nat := if a + b < 2 ^ 64 then some (a + b) else none
def checkedMul (a b : Nat) : Option Nat := if a * b < 2 ^ 64 then some (a * b) else none
def checkedSub (a b : Nat) : Option Nat := if b ≤ a then some (a - b) else none
def saturatingAdd (a b : Nat) : Nat := min (a + b) (2 ^ 64 - 1)

end Usize

/-- `Option::ok_or`. -/
def okOr {α : Type} (value : Option α) (error : PacketError) : Except PacketError α :=
  match value with
  | some value => .ok value
  | none => .error error

/-- `u32::try_from`, whose error converts to `InvalidLen`. -/
def u32TryFrom (value : Nat) : Except PacketError UInt32 :=
  if value < 2 ^ 32 then .ok (UInt32.ofNat value) else .error .invalidLen

def messageHeaderLength : Nat := 3

/-- `solana_short_vec::decode_shortu16_len`: the value of the `ShortU16` the bytes start with, and
its length.  `read_compressed_u16` of `transaction-view` reimplements it in this repository: at
most three bytes, no zero byte after the first, and a third byte of at most `3`. -/
def decodeShortu16Len (bytes : List UInt8) : Option (Nat × Nat) :=
  match readCompressedU16 bytes 0 with
  | .ok (value, length) => some (value.toNat, length)
  | .error _ => none

/-- `Signature::try_from(&[u8])`: exactly sixty-four bytes. -/
def signatureTryFrom (bytes : List UInt8) : Option Signature :=
  if sized : bytes.length = signatureSize then some ⟨bytes.toArray, by simpa using sized⟩ else none

/-- The block of `do_get_packet_offsets` that finds the message header: the byte after the
signatures is a version prefix when its top bit is set, and only version `0` is supported. -/
def messageHeaderOffset (packet : Packet) (msgStartOffset : Nat) : Except PacketError Nat := do
  if msgStartOffset ≥ packet.size then throw .invalidSignatureLen
  let messagePrefix ← okOr (packet.byteAt msgStartOffset) .invalidSignatureLen
  if messagePrefix &&& messageVersionPrefix != 0 then
    let version := messagePrefix &&& ~~~messageVersionPrefix
    if version = 0 then okOr (Usize.checkedAdd msgStartOffset 1) .invalidLen
    else throw .unsupportedVersion
  else pure msgStartOffset

def doGetPacketOffsets (packet : Packet) (currentOffset : Nat) :
    Except PacketError PacketOffsets := do
  -- should have at least 1 signature and sig lengths
  let _ ← okOr ((Usize.checkedAdd 1 signatureSize).filter (· ≤ packet.size)) .invalidLen
  let (sigLenUntrusted, sigSize) ← okOr (decodeShortu16Len packet.data) .invalidShortVec
  let msgStartOffset ← okOr ((Usize.checkedMul sigLenUntrusted signatureSize).bind
    (Usize.checkedAdd · sigSize)) .invalidLen
  let msgHeaderOffset ← messageHeaderOffset packet msgStartOffset
  let msgHeaderOffsetPlusOne ← okOr (Usize.checkedAdd msgHeaderOffset 1) .invalidLen
  let _ ← okOr ((Usize.checkedAdd msgHeaderOffsetPlusOne messageHeaderLength).filter
    (· ≤ packet.size)) .invalidSignatureLen
  let sigLenMaybeTrusted ← okOr (packet.byteAt msgHeaderOffset) .invalidSignatureLen
  let messageAccountKeysLenOffset ←
    okOr (Usize.checkedAdd msgHeaderOffset messageHeaderLength) .invalidSignatureLen
  let readonlySignerOffset := msgHeaderOffsetPlusOne
  let readonlySigners ← okOr (packet.byteAt readonlySignerOffset) .invalidSignatureLen
  if sigLenMaybeTrusted ≤ readonlySigners then throw .payerNotWritable
  if sigLenMaybeTrusted.toNat ≠ sigLenUntrusted then throw .mismatchSignatureLen
  let (pubkeyLen, pubkeyLenSize) ←
    okOr ((packet.sliceFrom messageAccountKeysLenOffset).bind decodeShortu16Len) .invalidShortVec
  let pubkeyStart ← okOr (Usize.checkedAdd messageAccountKeysLenOffset pubkeyLenSize)
    .invalidPubkeyLen
  let _ ← okOr (((Usize.checkedMul pubkeyLen pubkeySize).bind (Usize.checkedAdd · pubkeyStart)).filter
    (· ≤ packet.size)) .invalidPubkeyLen
  if pubkeyLen < sigLenUntrusted then throw .invalidPubkeyLen
  let sigStart ← okOr (Usize.checkedAdd currentOffset sigSize) .invalidLen
  let msgStart ← okOr (Usize.checkedAdd currentOffset msgStartOffset) .invalidLen
  let pubkeyStart ← okOr (Usize.checkedAdd currentOffset pubkeyStart) .invalidLen
  return ⟨← u32TryFrom sigLenUntrusted, ← u32TryFrom sigStart, ← u32TryFrom msgStart,
    ← u32TryFrom pubkeyStart, ← u32TryFrom pubkeyLen⟩

/-- `check_for_simple_vote_transaction`: the packet it leaves, with the flag set when the one
instruction of a legacy message of at most two signatures names the vote program.  The packet is
written only on its last line, so an error leaves it as it was. -/
def checkForSimpleVoteTransaction (voteId : Pubkey) (packet : Packet) (packetOffsets : PacketOffsets)
    (currentOffset : Nat) : Except PacketError Packet := do
  -- vote could have 1 or 2 sigs
  if packetOffsets.sigLen > 2 then throw .invalidSignatureLen
  -- simple vote should only be legacy message
  let msgStart ← okOr (Usize.checkedSub packetOffsets.msgStart.toNat currentOffset) .invalidLen
  let messagePrefix ← okOr (packet.byteAt msgStart) .invalidLen
  if messagePrefix &&& messageVersionPrefix != 0 then return packet
  let pubkeyStart ← okOr (Usize.checkedSub packetOffsets.pubkeyStart.toNat currentOffset) .invalidLen
  let instructionsLenOffset ← okOr (((Usize.checkedMul packetOffsets.pubkeyLen.toNat pubkeySize).bind
    (Usize.checkedAdd · pubkeyStart)).bind (Usize.checkedAdd · hashSize)) .invalidLen
  -- at least 1 more byte for instructions.len
  let _ ← okOr ((Usize.checkedAdd instructionsLenOffset 1).filter (· ≤ packet.size)) .invalidLen
  let (instructionLen, instructionLenSize) ←
    okOr ((packet.sliceFrom instructionsLenOffset).bind decodeShortu16Len) .invalidLen
  if instructionLen ≠ 1 then throw .invalidProgramLen
  let instructionStart ← okOr (Usize.checkedAdd instructionsLenOffset instructionLenSize) .invalidLen
  let _ ← okOr ((Usize.checkedAdd instructionStart 1).filter (· ≤ packet.size)) .invalidLen
  let instructionProgramIdIndex ← okOr (packet.byteAt instructionStart) .invalidLen
  if instructionProgramIdIndex.toNat ≥ packetOffsets.pubkeyLen.toNat then
    throw .invalidProgramIdIndex
  let instructionProgramIdStart ← okOr ((Usize.checkedMul instructionProgramIdIndex.toNat
    pubkeySize).bind (Usize.checkedAdd · pubkeyStart)) .invalidLen
  let instructionProgramIdEnd ← okOr (Usize.checkedAdd instructionProgramIdStart pubkeySize)
    .invalidLen
  let programId ← okOr (packet.slice instructionProgramIdStart instructionProgramIdEnd) .invalidLen
  if programId == voteId.toList then return { packet with simpleVoteTx := true }
  return packet

/-- `get_packet_offsets`: zero offsets make the verification fail. -/
def getPacketOffsets (voteId : Pubkey) (packet : Packet) (currentOffset : Nat)
    (rejectNonVote : Bool) : PacketOffsets × Packet :=
  match doGetPacketOffsets packet currentOffset with
  | .ok offsets =>
      let packet :=
        match checkForSimpleVoteTransaction voteId packet offsets currentOffset with
        | .ok packet => packet
        | .error _ => packet
      if !rejectNonVote || packet.simpleVoteTx then (offsets, packet)
      else (⟨0, 0, 0, 0, 0⟩, packet)
  | .error _ => (⟨0, 0, 0, 0, 0⟩, packet)

/-- The loop of `verify_packet`, with `count` signatures left, each read at `sigStart` and checked
against the key at `pubkeyStart` over the message from `msgStart`. -/
def verifySignatures (verify : Signature → List UInt8 → List UInt8 → Bool) (packet : Packet)
    (msgStart : Nat) : Nat → Nat → Nat → Bool
  | 0, _, _ => true
  | count + 1, sigStart, pubkeyStart =>
      let pubkeyEnd := Usize.saturatingAdd pubkeyStart pubkeySize
      match Usize.checkedAdd sigStart signatureSize with
      | none => false
      | some sigEnd =>
          match (packet.slice sigStart sigEnd).bind signatureTryFrom,
            packet.slice pubkeyStart pubkeyEnd, packet.sliceFrom msgStart with
          | some signature, some pubkey, some message =>
              verify signature pubkey message &&
                verifySignatures verify packet msgStart count sigEnd pubkeyEnd
          | _, _, _ => false

/-- `verify_packet`, with the packet it leaves. -/
def verifyPacket (verify : Signature → List UInt8 → List UInt8 → Bool) (voteId : Pubkey)
    (packet : Packet) (rejectNonVote : Bool) : Bool × Packet :=
  if packet.discard then (false, packet)
  else
    let (packetOffsets, packet) := getPacketOffsets voteId packet 0 rejectNonVote
    let msgStart := packetOffsets.msgStart.toNat
    if packetOffsets.sigLen = 0 then (false, packet)
    else if packet.size ≤ msgStart then (false, packet)
    else
      (verifySignatures verify packet msgStart packetOffsets.sigLen.toNat
        packetOffsets.sigStart.toNat packetOffsets.pubkeyStart.toNat, packet)

/-! ## The runtime's classification -/

/-- `is_simple_vote_transaction_impl` of `solana_transaction`: fewer than three signatures, a
legacy message, and `next().xor(next())` of the programs naming the vote program, which holds
when there is exactly one instruction and its program is the vote program. -/
def isSimpleVoteTransactionImpl (voteId : Pubkey) (signatures : List Signature)
    (isLegacyMessage : Bool) (instructionPrograms : List Pubkey) : Bool :=
  signatures.length < 3 && isLegacyMessage &&
    match instructionPrograms with
    | [programId] => programId == voteId
    | _ => false

/-- `is_simple_vote_transaction` of `runtime-transaction` on a sanitized view; `none` is a panic
of `program_instructions_iter`. -/
def isSimpleVoteTransaction (voteId : Pubkey) (transaction : TransactionView) : Option Bool :=
  transaction.programInstructions.map fun programInstructions =>
    isSimpleVoteTransactionImpl voteId transaction.signatures
      (transaction.version = .legacy) (programInstructions.map Prod.fst)

end Validator.Perf
