import Validator.TransactionView.Bytes

namespace Validator.View

/-! # The frames of a transaction packet

`TransactionFrame::try_new` parses a packet once, frame by frame, and keeps only counts and
offsets; the accessors of `TransactionView` read the fields back from the bytes through them.
-/

/-- `solana_packet::PACKET_DATA_SIZE`. -/
def packetDataSize : Nat := 1232

/-- `solana_message::MESSAGE_VERSION_PREFIX`. -/
def messageVersionPrefix : UInt8 := 0x80

/-- The sizes of `Signature`, `Pubkey` and `Hash`. -/
def signatureSize : Nat := 64
def pubkeySize : Nat := 32
def hashSize : Nat := 32

/-- `TransactionVersion`. -/
inductive TransactionVersion where
  | legacy
  | v0
deriving DecidableEq, Repr

/-! ## Signatures, header and static keys -/

def maxSignaturesPerPacket : UInt8 :=
  UInt8.ofNat (packetDataSize / (signatureSize + pubkeySize))

structure SignatureFrame where
  numSignatures : UInt8
  offset : UInt16
deriving DecidableEq, Repr

/-- The body `SignatureFrame::try_new` and `StaticAccountKeysFrame::try_new` share: a one-byte
count in `1..=maxCount`, where it starts, then that many elements of `size` bytes. -/
def readCountedArray (maxCount : UInt8) (size : Nat) (bytes : List UInt8) (offset : Nat) :
    Result ((UInt8 × UInt16) × Nat) := do
  let (count, offset) ← readByte bytes offset
  if count == 0 || count > maxCount then throw .parseError
  let arrayOffset := UInt16.ofNat offset
  let offset ← advanceOffsetForArray size bytes offset count.toUInt16
  return ((count, arrayOffset), offset)

/-- `SignatureFrame::try_new`. -/
def SignatureFrame.tryNew (bytes : List UInt8) (offset : Nat) : Result (SignatureFrame × Nat) := do
  let ((numSignatures, signatureOffset), offset) ←
    readCountedArray maxSignaturesPerPacket signatureSize bytes offset
  return (⟨numSignatures, signatureOffset⟩, offset)

structure MessageHeaderFrame where
  offset : UInt16
  version : TransactionVersion
  numRequiredSignatures : UInt8
  numReadonlySignedAccounts : UInt8
  numReadonlyUnsignedAccounts : UInt8
deriving DecidableEq, Repr

/-- `MessageHeaderFrame::try_new`: a first byte with the version bit set is the prefix of a
versioned message; otherwise it is already the legacy header's first count. -/
def MessageHeaderFrame.tryNew (bytes : List UInt8) (offset : Nat) :
    Result (MessageHeaderFrame × Nat) := do
  let messageOffset := UInt16.ofNat offset
  let (messagePrefix, offset) ← readByte bytes offset
  let (version, numRequiredSignatures, offset) ←
    if messagePrefix &&& messageVersionPrefix != 0 then
      let version := messagePrefix &&& ~~~messageVersionPrefix
      if version = 0 then do
        let (numRequiredSignatures, offset) ← readByte bytes offset
        pure (TransactionVersion.v0, numRequiredSignatures, offset)
      else throw .parseError
    else pure (TransactionVersion.legacy, messagePrefix, offset)
  let (numReadonlySignedAccounts, offset) ← readByte bytes offset
  let (numReadonlyUnsignedAccounts, offset) ← readByte bytes offset
  return (⟨messageOffset, version, numRequiredSignatures, numReadonlySignedAccounts,
    numReadonlyUnsignedAccounts⟩, offset)

def maxStaticAccountsPerPacket : UInt8 :=
  UInt8.ofNat (packetDataSize / pubkeySize)

structure StaticAccountKeysFrame where
  numStaticAccounts : UInt8
  offset : UInt16
deriving DecidableEq, Repr

/-- `StaticAccountKeysFrame::try_new`. -/
def StaticAccountKeysFrame.tryNew (bytes : List UInt8) (offset : Nat) :
    Result (StaticAccountKeysFrame × Nat) := do
  let ((numStaticAccounts, staticAccountsOffset), offset) ←
    readCountedArray maxStaticAccountsPerPacket pubkeySize bytes offset
  return (⟨numStaticAccounts, staticAccountsOffset⟩, offset)

/-! ## Instructions -/

structure InstructionFrame where
  numAccounts : UInt16
  dataLen : UInt16
  numAccountsLen : UInt8
  dataLenLen : UInt8
deriving DecidableEq, Repr

structure InstructionsFrame where
  numInstructions : UInt16
  offset : UInt16
  frames : List InstructionFrame
deriving DecidableEq, Repr

/-- The loop of `InstructionsFrame::try_new`: `count` more instructions, each pushed on
`frames`. -/
def InstructionsFrame.parseInstructions (bytes : List UInt8) :
    Nat → Nat → List InstructionFrame → Result (List InstructionFrame × Nat)
  | 0, offset, frames => .ok (frames, offset)
  | count + 1, offset, frames => do
      let (_, offset) ← readByte bytes offset
      let numAccountsOffset := offset
      let (numAccounts, offset) ← optimizedReadCompressedU16 bytes offset
      let numAccountsLen := UInt8.ofNat (Usize.wrappingSub offset numAccountsOffset)
      let offset ← advanceOffsetForArray 1 bytes offset numAccounts
      let dataLenOffset := offset
      let (dataLen, offset) ← optimizedReadCompressedU16 bytes offset
      let dataLenLen := UInt8.ofNat (Usize.wrappingSub offset dataLenOffset)
      let offset ← advanceOffsetForArray 1 bytes offset dataLen
      parseInstructions bytes count offset
        (frames ++ [⟨numAccounts, dataLen, numAccountsLen, dataLenLen⟩])

/-- `InstructionsFrame::try_new`: each instruction takes at least three bytes. -/
def InstructionsFrame.tryNew (bytes : List UInt8) (offset : Nat) :
    Result (InstructionsFrame × Nat) := do
  let (numInstructions, offset) ← optimizedReadCompressedU16 bytes offset
  checkRemaining bytes offset (Usize.wrappingMul 3 numInstructions.toNat)
  let instructionsOffset := UInt16.ofNat offset
  let (frames, offset) ← parseInstructions bytes numInstructions.toNat offset []
  return (⟨numInstructions, instructionsOffset, frames⟩, offset)

/-- `SVMInstruction`. -/
structure SVMInstruction where
  programIdIndex : UInt8
  accounts : List UInt8
  data : List UInt8
deriving DecidableEq, Repr

structure InstructionsIterator where
  bytes : List UInt8
  offset : Nat
  numInstructions : UInt16
  index : UInt16
  frames : List InstructionFrame

/-- `InstructionsIterator::next`; the outer `none` is the panic of indexing `frames` past its
end. -/
def InstructionsIterator.next (self : InstructionsIterator) :
    Option (Option (SVMInstruction × InstructionsIterator)) :=
  if self.index < self.numInstructions then
    match self.frames[self.index.toNat]? with
    | none => none
    | some frame =>
        let index := self.index + 1
        let (programIdIndex, offset) := uncheckedReadByte self.bytes self.offset
        let offset := Usize.wrappingAdd offset frame.numAccountsLen.toNat
        let (accounts, offset) := uncheckedReadSliceData self.bytes offset frame.numAccounts
        let offset := Usize.wrappingAdd offset frame.dataLenLen.toNat
        let (data, offset) := uncheckedReadSliceData self.bytes offset frame.dataLen
        some (some (⟨programIdIndex, accounts, data⟩, { self with offset, index }))
  else some none

/-- The items of an iterator, taking at most `fuel` of them. -/
def InstructionsIterator.collect : Nat → InstructionsIterator → Option (List SVMInstruction)
  | 0, _ => some []
  | fuel + 1, iterator =>
      iterator.next.bind fun
        | none => some []
        | some (instruction, iterator) => (instruction :: ·) <$> collect fuel iterator

/-! ## Address table lookups -/

/-- Each lookup has a key, two one-byte lengths and, to be of use, one index. -/
def minSizedAtl : Nat := pubkeySize + 1 + 1 + 1

def minSizedPacketWithAtls : Nat :=
  1 + signatureSize + 1 + 3 + 1 + pubkeySize + hashSize + 1 + 1

def maxAtlsPerPacket : UInt8 :=
  UInt8.ofNat ((packetDataSize - minSizedPacketWithAtls) / minSizedAtl)

structure AddressTableLookupFrame where
  numAddressTableLookups : UInt8
  offset : UInt16
  totalWritableLookupAccounts : UInt16
  totalReadonlyLookupAccounts : UInt16
deriving DecidableEq, Repr

/-- The loop of `AddressTableLookupFrame::try_new`, with the two `u32` totals. -/
def AddressTableLookupFrame.parseLookups (bytes : List UInt8) :
    Nat → Nat → UInt32 → UInt32 → Result (Nat × UInt32 × UInt32)
  | 0, offset, totalWritable, totalReadonly => .ok (offset, totalWritable, totalReadonly)
  | count + 1, offset, totalWritable, totalReadonly => do
      let offset ← advanceOffsetForType pubkeySize bytes offset
      let (numWriteAccounts, offset) ← optimizedReadCompressedU16 bytes offset
      let totalWritable := totalWritable + numWriteAccounts.toUInt32
      let offset ← advanceOffsetForArray 1 bytes offset numWriteAccounts
      let (numReadAccounts, offset) ← optimizedReadCompressedU16 bytes offset
      let totalReadonly := totalReadonly + numReadAccounts.toUInt32
      let offset ← advanceOffsetForArray 1 bytes offset numReadAccounts
      parseLookups bytes count offset totalWritable totalReadonly

/-- `u16::try_from` of a total, a `SanitizeError` when it does not fit. -/
def totalToU16 (total : UInt32) : Result UInt16 :=
  if total.toNat < 2 ^ 16 then .ok total.toUInt16 else .error .sanitizeError

/-- `AddressTableLookupFrame::try_new`. -/
def AddressTableLookupFrame.tryNew (bytes : List UInt8) (offset : Nat) :
    Result (AddressTableLookupFrame × Nat) := do
  let (numAddressTableLookups, offset) ← readByte bytes offset
  if numAddressTableLookups > maxAtlsPerPacket then throw .parseError
  checkRemaining bytes offset (Usize.wrappingMul minSizedAtl numAddressTableLookups.toNat)
  let addressTableLookupsOffset := UInt16.ofNat offset
  let (offset, totalWritable, totalReadonly) ←
    parseLookups bytes numAddressTableLookups.toNat offset 0 0
  let totalWritableLookupAccounts ← totalToU16 totalWritable
  let totalReadonlyLookupAccounts ← totalToU16 totalReadonly
  return (⟨numAddressTableLookups, addressTableLookupsOffset, totalWritableLookupAccounts,
    totalReadonlyLookupAccounts⟩, offset)

/-- `SVMMessageAddressTableLookup`. -/
structure SVMMessageAddressTableLookup where
  accountKey : Vector UInt8 pubkeySize
  writableIndexes : List UInt8
  readonlyIndexes : List UInt8
deriving DecidableEq, Repr

structure AddressTableLookupIterator where
  bytes : List UInt8
  offset : Nat
  numAddressTableLookups : UInt8
  index : UInt8

/-- `AddressTableLookupIterator::next`: it parses each lookup again, and ends at an error. -/
def AddressTableLookupIterator.next (self : AddressTableLookupIterator) :
    Option (SVMMessageAddressTableLookup × AddressTableLookupIterator) :=
  if self.index < self.numAddressTableLookups then
    let index := self.index + 1
    match readType pubkeySize self.bytes self.offset with
    | .error _ => none
    | .ok (accountKey, offset) =>
        match optimizedReadCompressedU16 self.bytes offset with
        | .error _ => none
        | .ok (numWriteAccounts, offset) =>
            match readSliceData self.bytes offset numWriteAccounts with
            | .error _ => none
            | .ok (writableIndexes, offset) =>
                match optimizedReadCompressedU16 self.bytes offset with
                | .error _ => none
                | .ok (numReadAccounts, offset) =>
                    match readSliceData self.bytes offset numReadAccounts with
                    | .error _ => none
                    | .ok (readonlyIndexes, offset) =>
                        some (⟨accountKey, writableIndexes, readonlyIndexes⟩,
                          { self with offset, index })
  else none

/-- The items of an iterator, taking at most `fuel` of them. -/
def AddressTableLookupIterator.collect :
    Nat → AddressTableLookupIterator → List SVMMessageAddressTableLookup
  | 0, _ => []
  | fuel + 1, iterator =>
      match iterator.next with
      | none => []
      | some (lookup, iterator) => lookup :: collect fuel iterator

/-! ## The transaction -/

structure TransactionFrame where
  signature : SignatureFrame
  messageHeader : MessageHeaderFrame
  staticAccountKeys : StaticAccountKeysFrame
  recentBlockhashOffset : UInt16
  instructions : InstructionsFrame
  addressTableLookup : AddressTableLookupFrame
deriving DecidableEq, Repr

/-- `TransactionFrame::try_new`: the frames in order, and no byte left over. -/
def TransactionFrame.tryNew (bytes : List UInt8) : Result TransactionFrame := do
  let offset := 0
  let (signature, offset) ← SignatureFrame.tryNew bytes offset
  let (messageHeader, offset) ← MessageHeaderFrame.tryNew bytes offset
  let (staticAccountKeys, offset) ← StaticAccountKeysFrame.tryNew bytes offset
  let recentBlockhashOffset := UInt16.ofNat offset
  let offset ← advanceOffsetForType hashSize bytes offset
  let (instructions, offset) ← InstructionsFrame.tryNew bytes offset
  let (addressTableLookup, offset) ←
    match messageHeader.version with
    | .legacy => pure (⟨0, 0, 0, 0⟩, offset)
    | .v0 => AddressTableLookupFrame.tryNew bytes offset
  if offset ≠ bytes.length then throw .parseError
  return ⟨signature, messageHeader, staticAccountKeys, recentBlockhashOffset, instructions,
    addressTableLookup⟩

/-- `TransactionView<false, D>`: the bytes and their frame. -/
structure TransactionView where
  data : List UInt8
  frame : TransactionFrame
deriving DecidableEq

namespace TransactionView

/-- `TransactionView::try_new_unsanitized`. -/
def tryNewUnsanitized (data : List UInt8) : Result TransactionView := do
  let frame ← TransactionFrame.tryNew data
  return ⟨data, frame⟩

variable (self : TransactionView)

def version : TransactionVersion := self.frame.messageHeader.version
def numRequiredSignatures : UInt8 := self.frame.messageHeader.numRequiredSignatures
def numReadonlySignedStaticAccounts : UInt8 := self.frame.messageHeader.numReadonlySignedAccounts
def numReadonlyUnsignedStaticAccounts : UInt8 :=
  self.frame.messageHeader.numReadonlyUnsignedAccounts

def signatures : List (Vector UInt8 signatureSize) :=
  sliceAt self.data self.frame.signature.offset.toNat self.frame.signature.numSignatures.toNat
    signatureSize

def staticAccountKeys : List (Vector UInt8 pubkeySize) :=
  sliceAt self.data self.frame.staticAccountKeys.offset.toNat
    self.frame.staticAccountKeys.numStaticAccounts.toNat pubkeySize

def recentBlockhash : Vector UInt8 hashSize :=
  typeAt self.data self.frame.recentBlockhashOffset.toNat hashSize

def instructionsIter : InstructionsIterator :=
  ⟨self.data, self.frame.instructions.offset.toNat, self.frame.instructions.numInstructions, 0,
    self.frame.instructions.frames⟩

def addressTableLookupIter : AddressTableLookupIterator :=
  ⟨self.data, self.frame.addressTableLookup.offset.toNat,
    self.frame.addressTableLookup.numAddressTableLookups, 0⟩

/-- `message_data`: the bytes from the message on. -/
def messageData : List UInt8 :=
  self.data.drop self.frame.messageHeader.offset.toNat

end TransactionView

end Validator.View
