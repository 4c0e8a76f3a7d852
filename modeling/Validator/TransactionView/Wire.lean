import Mathlib.Algebra.GroupWithZero.Nat
import Validator.TransactionView.Frames

namespace Validator.View

/-! # The wire encoding of a transaction

A `VersionedTransaction` as `bincode` serializes it, with every vector length a `ShortU16`
(`solana_short_vec`): seven bits a byte, low bits first, the high bit set on every byte but
the last.  A legacy message starts with its header; a versioned one with the prefix
`0x80 | version`, and it ends with its address table lookups.  This is the encoding of the
external crates, stated as they define it; the parser is checked against it.
-/

abbrev Signature := Vector UInt8 signatureSize
abbrev Pubkey := Vector UInt8 pubkeySize
abbrev Hash := Vector UInt8 hashSize

structure MessageHeader where
  numRequiredSignatures : UInt8
  numReadonlySignedAccounts : UInt8
  numReadonlyUnsignedAccounts : UInt8
deriving DecidableEq, Repr

structure CompiledInstruction where
  programIdIndex : UInt8
  accounts : List UInt8
  data : List UInt8
deriving DecidableEq, Repr

structure MessageAddressTableLookup where
  accountKey : Pubkey
  writableIndexes : List UInt8
  readonlyIndexes : List UInt8
deriving DecidableEq, Repr

/-- The fields a legacy and a `v0` message share. -/
structure Message where
  header : MessageHeader
  accountKeys : List Pubkey
  recentBlockhash : Hash
  instructions : List CompiledInstruction
deriving DecidableEq, Repr

inductive VersionedMessage where
  | legacy (message : Message)
  | v0 (message : Message) (addressTableLookups : List MessageAddressTableLookup)
deriving DecidableEq, Repr

structure VersionedTransaction where
  signatures : List Signature
  message : VersionedMessage
deriving DecidableEq, Repr

/-! ## Serialization -/

/-- The `ShortU16` loop, with one turn per byte: at most three for a `u16`. -/
def encodeShortU16Loop : Nat → Nat → List UInt8
  | 0, _ => []
  | fuel + 1, remaining =>
      if remaining / 128 = 0 then [UInt8.ofNat (remaining % 128)]
      else UInt8.ofNat (remaining % 128 + 128) :: encodeShortU16Loop fuel (remaining / 128)

def encodeShortU16 (value : Nat) : List UInt8 :=
  encodeShortU16Loop 3 value

/-- A `ShortVec`: the length, then the elements. -/
def serializeShortVec {α : Type} (serialize : α → List UInt8) (elements : List α) : List UInt8 :=
  encodeShortU16 elements.length ++ elements.flatMap serialize

def MessageHeader.serialize (header : MessageHeader) : List UInt8 :=
  [header.numRequiredSignatures, header.numReadonlySignedAccounts,
    header.numReadonlyUnsignedAccounts]

def CompiledInstruction.serialize (instruction : CompiledInstruction) : List UInt8 :=
  instruction.programIdIndex :: (serializeShortVec (fun index => [index]) instruction.accounts ++
    serializeShortVec (fun byte => [byte]) instruction.data)

def MessageAddressTableLookup.serialize (lookup : MessageAddressTableLookup) : List UInt8 :=
  lookup.accountKey.toList ++ serializeShortVec (fun index => [index]) lookup.writableIndexes ++
    serializeShortVec (fun index => [index]) lookup.readonlyIndexes

def Message.serialize (message : Message) : List UInt8 :=
  message.header.serialize ++ serializeShortVec Vector.toList message.accountKeys ++
    message.recentBlockhash.toList ++
    serializeShortVec CompiledInstruction.serialize message.instructions

def VersionedMessage.serialize : VersionedMessage → List UInt8
  | .legacy message => message.serialize
  | .v0 message addressTableLookups =>
      messageVersionPrefix :: (message.serialize ++
        serializeShortVec MessageAddressTableLookup.serialize addressTableLookups)

def VersionedTransaction.serialize (transaction : VersionedTransaction) : List UInt8 :=
  serializeShortVec Vector.toList transaction.signatures ++ transaction.message.serialize

/-- What comes before the header: the prefix byte of a versioned message. -/
def versionPrefix : TransactionVersion → List UInt8
  | .legacy => []
  | .v0 => [messageVersionPrefix]

/-! ## What a transaction says -/

def VersionedMessage.message : VersionedMessage → Message
  | .legacy message => message
  | .v0 message _ => message

def VersionedMessage.version : VersionedMessage → TransactionVersion
  | .legacy _ => .legacy
  | .v0 _ _ => .v0

def VersionedMessage.addressTableLookups : VersionedMessage → List MessageAddressTableLookup
  | .legacy _ => []
  | .v0 _ addressTableLookups => addressTableLookups

def CompiledInstruction.toSVM (instruction : CompiledInstruction) : SVMInstruction :=
  ⟨instruction.programIdIndex, instruction.accounts, instruction.data⟩

def MessageAddressTableLookup.toSVM (lookup : MessageAddressTableLookup) :
    SVMMessageAddressTableLookup :=
  ⟨lookup.accountKey, lookup.writableIndexes, lookup.readonlyIndexes⟩

/-- The limits on the counts and lengths of a transaction in a packet: `1..=12` signatures,
`1..=38` static keys, every instruction, index and data list shorter than `2^14`, at most
`MAX_ATLS_PER_PACKET` lookups and lookup totals that fit a `u16`. -/
structure VersionedTransaction.WithinLimits (transaction : VersionedTransaction) : Prop where
  signatures : 1 ≤ transaction.signatures.length ∧ transaction.signatures.length ≤ 12
  accountKeys : 1 ≤ transaction.message.message.accountKeys.length ∧
    transaction.message.message.accountKeys.length ≤ 38
  instructions : transaction.message.message.instructions.length < 2 ^ 14
  instructionLists : ∀ instruction ∈ transaction.message.message.instructions,
    instruction.accounts.length < 2 ^ 14 ∧ instruction.data.length < 2 ^ 14
  lookups : transaction.message.addressTableLookups.length ≤ maxAtlsPerPacket.toNat
  lookupLists : ∀ lookup ∈ transaction.message.addressTableLookups,
    lookup.writableIndexes.length < 2 ^ 14 ∧ lookup.readonlyIndexes.length < 2 ^ 14
  totals : (transaction.message.addressTableLookups.map
      fun lookup => lookup.writableIndexes.length).sum < 2 ^ 16 ∧
    (transaction.message.addressTableLookups.map
      fun lookup => lookup.readonlyIndexes.length).sum < 2 ^ 16

end Validator.View
