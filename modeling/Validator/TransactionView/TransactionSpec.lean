import Validator.TransactionView.FramesSpec

namespace Validator.View

open Validator.Data

/-! # The transaction parser against the wire encoding

`TransactionFrame::try_new` accepts a packet exactly when it is the encoding of a transaction
within the packet limits that two checks of the parser also admit, and the accessors of the
view then read that transaction's fields back.  The two checks are stricter than the
encoding: a legacy header's first count is taken for a version prefix when its top bit is set,
and the lookup section must hold `MIN_SIZED_ATL` bytes per lookup before any is parsed.
-/

/-- The address table lookups at the end of a message: none in a legacy message. -/
def lookupSection : TransactionVersion → List MessageAddressTableLookup → List UInt8
  | .legacy, _ => []
  | .v0, lookups => serializeShortVec MessageAddressTableLookup.serialize lookups

/-- The lookup frame of a message whose lookups start at `offset`. -/
def lookupFrame : TransactionVersion → List MessageAddressTableLookup → Nat →
    AddressTableLookupFrame
  | .legacy, _, _ => ⟨0, 0, 0, 0⟩
  | .v0, lookups, offset => ⟨UInt8.ofNat lookups.length, UInt16.ofNat (offset + 1),
      UInt16.ofNat (totalWritable lookups), UInt16.ofNat (totalReadonly lookups)⟩

/-- The message of a version, from the fields every message has and its lookups, which a
legacy message does not keep. -/
def VersionedMessage.ofParts : TransactionVersion → Message → List MessageAddressTableLookup →
    VersionedMessage
  | .legacy, message, _ => .legacy message
  | .v0, message, lookups => .v0 message lookups

@[simp] theorem VersionedMessage.version_ofParts (version : TransactionVersion) (message : Message)
    (lookups : List MessageAddressTableLookup) : (ofParts version message lookups).version = version := by
  cases version <;> rfl

@[simp] theorem VersionedMessage.message_ofParts (version : TransactionVersion) (message : Message)
    (lookups : List MessageAddressTableLookup) : (ofParts version message lookups).message = message := by
  cases version <;> rfl

theorem VersionedMessage.addressTableLookups_ofParts {version : TransactionVersion}
    {lookups : List MessageAddressTableLookup} (legacyEmpty : version = .legacy → lookups = [])
    (message : Message) : (ofParts version message lookups).addressTableLookups = lookups := by
  cases version with
  | legacy => exact (legacyEmpty rfl).symm
  | v0 => rfl

theorem VersionedMessage.serialize_eq (message : VersionedMessage) :
    message.serialize = (versionPrefix message.version ++ message.message.header.serialize) ++
      (serializeShortVec Vector.toList message.message.accountKeys ++
        (message.message.recentBlockhash.toList ++
          (serializeShortVec CompiledInstruction.serialize message.message.instructions ++
            lookupSection message.version message.addressTableLookups))) := by
  cases message <;>
    simp [VersionedMessage.serialize, Message.serialize, versionPrefix, lookupSection,
      VersionedMessage.version, VersionedMessage.message, VersionedMessage.addressTableLookups]

/-- The transactions whose encoding `TransactionFrame::try_new` accepts: those within the
packet limits, with a legacy header's first count below `0x80`, and with at least
`MIN_SIZED_ATL` bytes of lookups per lookup. -/
structure VersionedTransaction.Accepted (transaction : VersionedTransaction) : Prop where
  withinLimits : transaction.WithinLimits
  legacyRequired : transaction.message.version = .legacy →
    transaction.message.message.header.numRequiredSignatures.toNat < 128
  lookupRoom : minSizedAtl * transaction.message.addressTableLookups.length ≤
    (transaction.message.addressTableLookups.flatMap MessageAddressTableLookup.serialize).length

namespace VersionedTransaction

variable (transaction : VersionedTransaction)

/-! ## Where each section of the encoding starts -/

def headerOffset : Nat :=
  (serializeShortVec Vector.toList transaction.signatures).length

def keysOffset : Nat :=
  transaction.headerOffset + (versionPrefix transaction.message.version).length + 3

def blockhashOffset : Nat :=
  transaction.keysOffset +
    (serializeShortVec Vector.toList transaction.message.message.accountKeys).length

def instructionsOffset : Nat :=
  transaction.blockhashOffset + hashSize

def lookupsOffset : Nat :=
  transaction.instructionsOffset +
    (serializeShortVec CompiledInstruction.serialize transaction.message.message.instructions).length

/-- The sections of a transaction's encoding, each at its offset in `bytes`, and nothing
after them. -/
structure SectionsAt (bytes : List UInt8) : Prop where
  signatures : PrefixAt bytes 0 (serializeShortVec Vector.toList transaction.signatures)
  header : PrefixAt bytes transaction.headerOffset
    (versionPrefix transaction.message.version ++ transaction.message.message.header.serialize)
  accountKeys : PrefixAt bytes transaction.keysOffset
    (serializeShortVec Vector.toList transaction.message.message.accountKeys)
  recentBlockhash : PrefixAt bytes transaction.blockhashOffset
    transaction.message.message.recentBlockhash.toList
  instructions : PrefixAt bytes transaction.instructionsOffset
    (serializeShortVec CompiledInstruction.serialize transaction.message.message.instructions)
  lookups : PrefixAt bytes transaction.lookupsOffset
    (lookupSection transaction.message.version transaction.message.addressTableLookups)
  length : bytes.length = transaction.lookupsOffset +
    (lookupSection transaction.message.version transaction.message.addressTableLookups).length

theorem serialize_eq_sections :
    transaction.serialize = serializeShortVec Vector.toList transaction.signatures ++
      ((versionPrefix transaction.message.version ++ transaction.message.message.header.serialize) ++
        (serializeShortVec Vector.toList transaction.message.message.accountKeys ++
          (transaction.message.message.recentBlockhash.toList ++
            (serializeShortVec CompiledInstruction.serialize transaction.message.message.instructions ++
              lookupSection transaction.message.version transaction.message.addressTableLookups)))) := by
  rw [VersionedTransaction.serialize, VersionedMessage.serialize_eq]

/-- The offsets of the sections add up: each starts where the one before it ends. -/
theorem length_serialize :
    transaction.serialize.length = transaction.lookupsOffset +
      (lookupSection transaction.message.version transaction.message.addressTableLookups).length := by
  rw [serialize_eq_sections]
  simp only [lookupsOffset, instructionsOffset, blockhashOffset, keysOffset, headerOffset,
    List.length_append, MessageHeader.serialize, List.length_cons, List.length_nil,
    Vector.length_toList]
  omega

theorem sectionsAt_serialize : transaction.SectionsAt transaction.serialize := by
  have whole := prefixAt_zero_self transaction.serialize
  nth_rewrite 2 [serialize_eq_sections] at whole
  obtain ⟨atSignatures, atMessage⟩ := prefixAt_append.mp whole
  obtain ⟨atHeader, atKeysOn⟩ := prefixAt_append.mp atMessage
  obtain ⟨atKeys, atBlockhashOn⟩ := prefixAt_append.mp atKeysOn
  obtain ⟨atBlockhash, atInstructionsOn⟩ := prefixAt_append.mp atBlockhashOn
  obtain ⟨atInstructions, atLookups⟩ := prefixAt_append.mp atInstructionsOn
  refine ⟨atSignatures, atHeader.of_eq_offset ?_, atKeys.of_eq_offset ?_,
    atBlockhash.of_eq_offset ?_, atInstructions.of_eq_offset ?_, atLookups.of_eq_offset ?_,
    transaction.length_serialize⟩ <;>
  · simp only [lookupsOffset, instructionsOffset, blockhashOffset, keysOffset, headerOffset,
      List.length_append, MessageHeader.serialize, List.length_cons, List.length_nil,
      Vector.length_toList]
    omega

/-- Bytes that hold the sections of a transaction's encoding are that encoding. -/
theorem SectionsAt.eq_serialize {bytes : List UInt8} (sections : transaction.SectionsAt bytes) :
    bytes = transaction.serialize := by
  apply eq_of_prefixAt_zero
  · rw [serialize_eq_sections]
    refine prefixAt_append.mpr ⟨sections.signatures, prefixAt_append.mpr
      ⟨sections.header.of_eq_offset ?_, prefixAt_append.mpr ⟨sections.accountKeys.of_eq_offset ?_,
        prefixAt_append.mpr ⟨sections.recentBlockhash.of_eq_offset ?_, prefixAt_append.mpr
          ⟨sections.instructions.of_eq_offset ?_, sections.lookups.of_eq_offset ?_⟩⟩⟩⟩⟩ <;>
    · simp only [lookupsOffset, instructionsOffset, blockhashOffset, keysOffset, headerOffset,
        List.length_append, MessageHeader.serialize, List.length_cons, List.length_nil,
        Vector.length_toList]
      omega
  · rw [transaction.length_serialize, sections.length]

/-! ## The frame of an encoding -/

/-- The frame `TransactionFrame::try_new` records for the encoding of a transaction. -/
def frame : TransactionFrame :=
  ⟨⟨UInt8.ofNat transaction.signatures.length, UInt16.ofNat 1⟩,
    ⟨UInt16.ofNat transaction.headerOffset, transaction.message.version,
      transaction.message.message.header.numRequiredSignatures,
      transaction.message.message.header.numReadonlySignedAccounts,
      transaction.message.message.header.numReadonlyUnsignedAccounts⟩,
    ⟨UInt8.ofNat transaction.message.message.accountKeys.length,
      UInt16.ofNat (transaction.keysOffset + 1)⟩,
    UInt16.ofNat transaction.blockhashOffset,
    ⟨UInt16.ofNat transaction.message.message.instructions.length,
      UInt16.ofNat (transaction.instructionsOffset +
        (encodeShortU16 transaction.message.message.instructions.length).length),
      transaction.message.message.instructions.map CompiledInstruction.frame⟩,
    lookupFrame transaction.message.version transaction.message.addressTableLookups
      transaction.lookupsOffset⟩

variable {transaction}

theorem length_serializeShortVec_toList {size : Nat} {elements : List (Vector UInt8 size)}
    (small : elements.length < 128) :
    (serializeShortVec Vector.toList elements).length = 1 + elements.length * size := by
  rw [serializeShortVec_of_lt_128 _ small, List.length_cons, length_flatMap_toList]
  omega

section Frames

variable (accepted : transaction.Accepted) (short : transaction.serialize.length < 2 ^ 32)

include accepted short

theorem signatureFrame_tryNew :
    SignatureFrame.tryNew transaction.serialize 0 =
      .ok (transaction.frame.signature, transaction.headerOffset) := by
  have count := accepted.withinLimits.signatures
  rw [SignatureFrame.tryNew, readCountedArray_of_prefixAt (by decide) (by decide) count
    transaction.sectionsAt_serialize.signatures short]
  simp only [bind, Except.bind, pure, Except.pure, frame, headerOffset,
    length_serializeShortVec_toList (by omega : transaction.signatures.length < 128)]

theorem messageHeaderFrame_tryNew :
    MessageHeaderFrame.tryNew transaction.serialize transaction.headerOffset =
      .ok (transaction.frame.messageHeader, transaction.keysOffset) :=
  MessageHeaderFrame.tryNew_of_prefixAt accepted.legacyRequired
    transaction.sectionsAt_serialize.header short

theorem staticAccountKeysFrame_tryNew :
    StaticAccountKeysFrame.tryNew transaction.serialize transaction.keysOffset =
      .ok (transaction.frame.staticAccountKeys, transaction.blockhashOffset) := by
  have count := accepted.withinLimits.accountKeys
  rw [StaticAccountKeysFrame.tryNew, readCountedArray_of_prefixAt (by decide) (by decide) count
    transaction.sectionsAt_serialize.accountKeys short]
  simp only [bind, Except.bind, pure, Except.pure, frame, blockhashOffset,
    length_serializeShortVec_toList (by omega : transaction.message.message.accountKeys.length < 128)]
  congr 2
  omega

omit accepted in
theorem advanceOffsetForType_blockhash :
    advanceOffsetForType hashSize transaction.serialize transaction.blockhashOffset =
      .ok transaction.instructionsOffset := by
  have fits := transaction.sectionsAt_serialize.recentBlockhash.le_length
  rw [Vector.length_toList] at fits
  exact (advanceOffsetForType_eq_ok_iff (by omega) short).mpr ⟨fits, rfl⟩

theorem instructionsFrame_tryNew :
    InstructionsFrame.tryNew transaction.serialize transaction.instructionsOffset =
      .ok (transaction.frame.instructions, transaction.lookupsOffset) :=
  InstructionsFrame.tryNew_of_prefixAt accepted.withinLimits.instructions
    accepted.withinLimits.instructionLists transaction.sectionsAt_serialize.instructions short

theorem addressTableLookupFrame_tryNew (v0 : transaction.message.version = .v0) :
    AddressTableLookupFrame.tryNew transaction.serialize transaction.lookupsOffset =
      .ok (transaction.frame.addressTableLookup, transaction.serialize.length) := by
  have limits := accepted.withinLimits
  have room := accepted.lookupRoom
  have count := limits.lookups
  have atMax : maxAtlsPerPacket.toNat = 31 := by decide
  have atLookups := transaction.sectionsAt_serialize.lookups
  have lengthEq := transaction.length_serialize
  rw [v0, lookupSection] at atLookups lengthEq
  have sectionLength : (serializeShortVec MessageAddressTableLookup.serialize
      transaction.message.addressTableLookups).length = 1 +
      (transaction.message.addressTableLookups.flatMap MessageAddressTableLookup.serialize).length := by
    rw [serializeShortVec_of_lt_128 _ (by omega), List.length_cons]
    omega
  show _ = Except.ok (lookupFrame transaction.message.version transaction.message.addressTableLookups
    transaction.lookupsOffset, _)
  rw [AddressTableLookupFrame.tryNew_of_prefixAt limits.lookups limits.lookupLists limits.totals
    (by omega) atLookups short, v0, lookupFrame, lengthEq]

end Frames

theorem frame_version : transaction.frame.messageHeader.version = transaction.message.version :=
  rfl

end VersionedTransaction

open VersionedTransaction in
/-- The parser accepts the encoding of every accepted transaction, and records its frame. -/
theorem TransactionFrame.tryNew_serialize {transaction : VersionedTransaction}
    (accepted : transaction.Accepted) (short : transaction.serialize.length < 2 ^ 32) :
    TransactionFrame.tryNew transaction.serialize = .ok transaction.frame := by
  have lengthEq := transaction.length_serialize
  simp only [TransactionFrame.tryNew, bind, Except.bind, signatureFrame_tryNew accepted short,
    messageHeaderFrame_tryNew accepted short, staticAccountKeysFrame_tryNew accepted short,
    advanceOffsetForType_blockhash short, instructionsFrame_tryNew accepted short, frame_version]
  -- The lookup section is there only in a `v0` message.
  cases version : transaction.message.version with
  | legacy =>
      rw [version, lookupSection, List.length_nil, Nat.add_zero] at lengthEq
      simp only [pure, Except.pure, ← lengthEq, ne_eq, not_true_eq_false, if_false]
      simp only [frame, version, lookupFrame]
  | v0 =>
      simp only [addressTableLookupFrame_tryNew accepted short version, ne_eq,
        not_true_eq_false, if_false, pure, Except.pure]
      rfl

open VersionedTransaction in
/-- What a successful parse read: the encoding of an accepted transaction.  The transaction is
rebuilt section by section from what each frame parser read, and its encoding is the bytes. -/
theorem TransactionFrame.tryNew_eq_ok {bytes : List UInt8} {frame : TransactionFrame}
    (parsed : TransactionFrame.tryNew bytes = .ok frame) (short : bytes.length < 2 ^ 32) :
    ∃ transaction : VersionedTransaction, transaction.Accepted ∧ transaction.serialize = bytes := by
  simp only [TransactionFrame.tryNew, except_bind_eq_ok] at parsed
  obtain ⟨⟨signatureFrame, afterSignatures⟩, readSignatures, ⟨headerFrame, afterHeader⟩,
    readHeader, ⟨keysFrame, afterKeys⟩, readKeys, afterBlockhash, advanceBlockhash,
    ⟨instructionsFrame, afterInstructions⟩, readInstructions, parsed⟩ := parsed
  dsimp only at parsed
  obtain ⟨signatures, signaturesCount, atSignatures, -, -, afterSignaturesEq⟩ :=
    readCountedArray_eq_ok (by decide) (by decide)
      (SignatureFrame.tryNew_eq_ok_iff.mp readSignatures) short
  obtain ⟨header, legacySmall, atHeader, -, afterHeaderEq⟩ :=
    MessageHeaderFrame.tryNew_eq_ok readHeader short
  obtain ⟨accountKeys, keysCount, atKeys, -, -, afterKeysEq⟩ :=
    readCountedArray_eq_ok (by decide) (by decide)
      (StaticAccountKeysFrame.tryNew_eq_ok_iff.mp readKeys) short
  have signaturesMax : maxSignaturesPerPacket.toNat = 12 := by decide
  have keysMax : maxStaticAccountsPerPacket.toNat = 38 := by decide
  have signaturesLength := length_serializeShortVec_toList (by omega : signatures.length < 128)
  have keysLength := length_serializeShortVec_toList (by omega : accountKeys.length < 128)
  have keysFit := atKeys.le_length
  obtain ⟨blockhashFits, afterBlockhashEq⟩ :=
    (advanceOffsetForType_eq_ok_iff (by omega) short).mp advanceBlockhash
  obtain ⟨instructions, instructionsCount, instructionLimits, atInstructions, -,
    afterInstructionsEq⟩ := InstructionsFrame.tryNew_eq_ok readInstructions short
  have instructionsFit := atInstructions.le_length
  -- The lookup section, which only a `v0` message has, and the last check: the parse ends at
  -- the end of the bytes.
  obtain ⟨lookups, legacyEmpty, lookupsCount, lookupLimits, lookupTotals, lookupRoom, atLookups,
      ended⟩ :
      ∃ lookups : List MessageAddressTableLookup, (headerFrame.version = .legacy → lookups = []) ∧
        lookups.length ≤ maxAtlsPerPacket.toNat ∧ (∀ lookup ∈ lookups, lookup.WithinLimits) ∧
        (totalWritable lookups < 2 ^ 16 ∧ totalReadonly lookups < 2 ^ 16) ∧
        minSizedAtl * lookups.length ≤
          (lookups.flatMap MessageAddressTableLookup.serialize).length ∧
        PrefixAt bytes afterInstructions (lookupSection headerFrame.version lookups) ∧
        bytes.length = afterInstructions + (lookupSection headerFrame.version lookups).length := by
    cases version : headerFrame.version with
    | legacy =>
        simp only [version, pure, Except.pure, bind, Except.bind] at parsed
        have ended : afterInstructions = bytes.length := by
          by_contra trailing
          simp [trailing, throw, throwThe, MonadExceptOf.throw] at parsed
        refine ⟨[], fun _ => rfl, Nat.zero_le _, by simp, by simp [totalWritable, totalReadonly],
          by simp, prefixAt_nil.mpr (by omega), ?_⟩
        rw [lookupSection, List.length_nil, Nat.add_zero, ended]
    | v0 =>
        simp only [version, except_bind_eq_ok] at parsed
        obtain ⟨⟨lookupsFrame, afterLookups⟩, readLookups, parsed⟩ := parsed
        have ended : afterLookups = bytes.length := by
          by_contra trailing
          simp [trailing, throw, throwThe, MonadExceptOf.throw, bind, Except.bind] at parsed
        obtain ⟨lookups, count, limits, totals, room, atSection, -, nextEq⟩ :=
          AddressTableLookupFrame.tryNew_eq_ok readLookups short
        have atMax : maxAtlsPerPacket.toNat = 31 := by decide
        rw [serializeShortVec_of_lt_128 _ (by omega), List.length_cons] at nextEq
        refine ⟨lookups, fun legacy => (by cases legacy), count, limits, totals, by omega, ?_, ?_⟩
        · rw [lookupSection]
          exact atSection
        · rw [lookupSection, serializeShortVec_of_lt_128 _ (by omega), List.length_cons]
          omega
  obtain ⟨blockhash, atBlockhash⟩ : ∃ blockhash : Hash, PrefixAt bytes afterKeys blockhash.toList :=
    ⟨typeAt bytes afterKeys hashSize, by
      rw [toList_typeAt blockhashFits]
      exact prefixAt_take_drop blockhashFits⟩
  -- The transaction those sections encode.
  obtain ⟨transaction, signaturesEq, versionEq, messageEq, lookupsEq⟩ :
      ∃ transaction : VersionedTransaction, transaction.signatures = signatures ∧
        transaction.message.version = headerFrame.version ∧
        transaction.message.message = ⟨header, accountKeys, blockhash, instructions⟩ ∧
        transaction.message.addressTableLookups = lookups :=
    ⟨⟨signatures, VersionedMessage.ofParts headerFrame.version
      ⟨header, accountKeys, blockhash, instructions⟩ lookups⟩, rfl,
      VersionedMessage.version_ofParts _ _ _, VersionedMessage.message_ofParts _ _ _,
      VersionedMessage.addressTableLookups_ofParts legacyEmpty _⟩
  have sections : transaction.SectionsAt bytes := by
    refine ⟨?_, ?_, ?_, ?_, ?_, ?_, ?_⟩ <;>
    simp only [headerOffset, keysOffset, blockhashOffset, instructionsOffset, lookupsOffset,
      signaturesEq, versionEq, messageEq, lookupsEq, signaturesLength, keysLength]
    · exact atSignatures
    · exact atHeader.of_eq_offset (by omega)
    · exact atKeys.of_eq_offset (by omega)
    · exact atBlockhash.of_eq_offset (by omega)
    · exact atInstructions.of_eq_offset (by omega)
    · exact atLookups.of_eq_offset (by omega)
    · omega
  refine ⟨transaction, ⟨⟨?_, ?_, ?_, ?_, ?_, ?_, ?_⟩, ?_, ?_⟩, sections.eq_serialize.symm⟩ <;>
  simp only [signaturesEq, versionEq, messageEq, lookupsEq]
  · omega
  · omega
  · exact instructionsCount
  · exact instructionLimits
  · exact lookupsCount
  · exact lookupLimits
  · exact lookupTotals
  · exact legacySmall
  · exact lookupRoom

/-- The parser accepts exactly the encodings of the accepted transactions, and records the frame
of each. -/
theorem TransactionFrame.tryNew_eq_ok_iff {bytes : List UInt8} {frame : TransactionFrame}
    (short : bytes.length < 2 ^ 32) :
    TransactionFrame.tryNew bytes = .ok frame ↔
      ∃ transaction : VersionedTransaction, transaction.Accepted ∧ transaction.serialize = bytes ∧
        transaction.frame = frame := by
  constructor
  · intro parsed
    obtain ⟨transaction, accepted, encoded⟩ := TransactionFrame.tryNew_eq_ok parsed short
    subst encoded
    rw [TransactionFrame.tryNew_serialize accepted short, Except.ok.injEq] at parsed
    exact ⟨transaction, accepted, rfl, parsed⟩
  · rintro ⟨transaction, accepted, rfl, rfl⟩
    exact TransactionFrame.tryNew_serialize accepted short

/-! ## Reading the fields back -/

/-- The accessors of a view read a transaction back: its signatures, version, header counts,
static keys and recent blockhash; its instructions and lookups, as the iterators yield them
before they end; and the encoding of its message. -/
structure TransactionView.ReadsBack (view : TransactionView) (transaction : VersionedTransaction) :
    Prop where
  signatures : view.signatures = transaction.signatures
  version : view.version = transaction.message.version
  numRequiredSignatures :
    view.numRequiredSignatures = transaction.message.message.header.numRequiredSignatures
  numReadonlySignedStaticAccounts : view.numReadonlySignedStaticAccounts =
    transaction.message.message.header.numReadonlySignedAccounts
  numReadonlyUnsignedStaticAccounts : view.numReadonlyUnsignedStaticAccounts =
    transaction.message.message.header.numReadonlyUnsignedAccounts
  staticAccountKeys : view.staticAccountKeys = transaction.message.message.accountKeys
  recentBlockhash : view.recentBlockhash = transaction.message.message.recentBlockhash
  instructions : ∀ fuel, transaction.message.message.instructions.length < fuel →
    view.instructionsIter.collect fuel =
      some (transaction.message.message.instructions.map CompiledInstruction.toSVM)
  addressTableLookups : ∀ fuel, transaction.message.addressTableLookups.length < fuel →
    view.addressTableLookupIter.collect fuel =
      transaction.message.addressTableLookups.map MessageAddressTableLookup.toSVM
  messageData : view.messageData = transaction.message.serialize

namespace VersionedTransaction

section ReadBack

variable {transaction : VersionedTransaction} (accepted : transaction.Accepted)
  (short : transaction.serialize.length < 2 ^ 16)

include accepted short

theorem instructionsIter_collect {fuel : Nat}
    (enough : transaction.message.message.instructions.length < fuel) :
    (TransactionView.instructionsIter ⟨transaction.serialize, transaction.frame⟩).collect fuel =
      some (transaction.message.message.instructions.map CompiledInstruction.toSVM) := by
  have limits := accepted.withinLimits
  have count := limits.instructions
  have atInstructions := transaction.sectionsAt_serialize.instructions
  rw [serializeShortVec, prefixAt_append] at atInstructions
  have fits := atInstructions.2.le_length
  apply InstructionsIterator.collect_of_prefixAt _ _ _ (Nat.lt_trans short (by decide))
  · show 0 + _ = (UInt16.ofNat _).toNat
    rw [UInt16.toNat_ofNat_of_lt (by omega)]
    omega
  · exact List.drop_zero
  · exact limits.instructionLists
  · show PrefixAt _ (UInt16.ofNat _).toNat _
    rw [UInt16.toNat_ofNat_of_lt (by omega)]
    exact atInstructions.2
  · exact enough

theorem addressTableLookupIter_collect {fuel : Nat}
    (enough : transaction.message.addressTableLookups.length < fuel) :
    (TransactionView.addressTableLookupIter ⟨transaction.serialize, transaction.frame⟩).collect fuel =
      transaction.message.addressTableLookups.map MessageAddressTableLookup.toSVM := by
  have limits := accepted.withinLimits
  have atMax : maxAtlsPerPacket.toNat = 31 := by decide
  have atLookups := transaction.sectionsAt_serialize.lookups
  have fits := atLookups.le_length
  show AddressTableLookupIterator.collect fuel ⟨transaction.serialize,
    (lookupFrame transaction.message.version transaction.message.addressTableLookups
      transaction.lookupsOffset).offset.toNat,
    (lookupFrame transaction.message.version transaction.message.addressTableLookups
      transaction.lookupsOffset).numAddressTableLookups, 0⟩ = _
  -- A legacy message has no lookups, and its lookup frame counts none.
  obtain ⟨signatures, message⟩ := transaction
  cases message with
  | legacy message =>
      cases fuel with
      | zero => cases enough
      | succ fuel =>
          simp [AddressTableLookupIterator.collect, AddressTableLookupIterator.next, lookupFrame,
            VersionedMessage.version, VersionedMessage.addressTableLookups]
  | v0 message lookups =>
      have count := limits.lookups
      simp only [VersionedMessage.version, VersionedMessage.addressTableLookups, lookupSection,
        lookupFrame] at atLookups fits count enough ⊢
      rw [serializeShortVec_of_lt_128 _ (by omega)] at atLookups fits
      simp only [List.length_cons] at fits
      apply AddressTableLookupIterator.collect_of_prefixAt _ _ _ (Nat.lt_trans short (by decide))
      · show 0 + _ = (UInt8.ofNat _).toNat
        rw [UInt8.toNat_ofNat_of_lt (by omega)]
        omega
      · exact limits.lookupLists
      · show PrefixAt _ (UInt16.ofNat _).toNat _
        rw [UInt16.toNat_ofNat_of_lt (by omega)]
        exact (prefixAt_cons.mp atLookups).2
      · exact enough

/-- The accessors of the view of an accepted transaction's encoding read the transaction back. -/
theorem readsBack :
    TransactionView.ReadsBack ⟨transaction.serialize, transaction.frame⟩ transaction := by
  have limits := accepted.withinLimits
  have sections := transaction.sectionsAt_serialize
  have keysFit := sections.accountKeys.le_length
  have blockhashFits := sections.recentBlockhash.le_length
  have keysLength := length_serializeShortVec_toList
    (by have := limits.accountKeys; omega : transaction.message.message.accountKeys.length < 128)
  rw [Vector.length_toList] at blockhashFits
  refine ⟨?_, rfl, rfl, rfl, rfl, ?_, ?_, fun _ => instructionsIter_collect accepted short,
    fun _ => addressTableLookupIter_collect accepted short, ?_⟩
  · show sliceAt _ (UInt16.ofNat 1).toNat (UInt8.ofNat transaction.signatures.length).toNat _ = _
    have count := limits.signatures
    rw [UInt8.toNat_ofNat_of_lt (by omega)]
    exact sliceAt_of_prefixAt (by omega) sections.signatures
  · show sliceAt _ (UInt16.ofNat (transaction.keysOffset + 1)).toNat
      (UInt8.ofNat transaction.message.message.accountKeys.length).toNat _ = _
    have count := limits.accountKeys
    rw [UInt8.toNat_ofNat_of_lt (by omega), UInt16.toNat_ofNat_of_lt (by omega)]
    exact sliceAt_of_prefixAt (by omega) sections.accountKeys
  · show typeAt _ (UInt16.ofNat transaction.blockhashOffset).toNat _ = _
    rw [UInt16.toNat_ofNat_of_lt (by omega)]
    exact typeAt_of_prefixAt sections.recentBlockhash
  · show List.drop (UInt16.ofNat transaction.headerOffset).toNat transaction.serialize = _
    have headerFits := sections.header.le_length
    rw [UInt16.toNat_ofNat_of_lt (by omega)]
    exact List.drop_left

end ReadBack

end VersionedTransaction

/-! ## The zero-copy view -/

open VersionedTransaction in
/-- `TransactionView::try_new_unsanitized` on a packet of at most `u16::MAX` bytes: every view
it returns reads back an accepted transaction whose encoding the packet is, and it returns a view
for the encoding of every accepted transaction. -/
theorem tryNewUnsanitized_accepts_exactly_encodings {bytes : List UInt8}
    (short : bytes.length < 2 ^ 16) :
    (∀ view, TransactionView.tryNewUnsanitized bytes = .ok view →
      ∃ transaction : VersionedTransaction, transaction.Accepted ∧
        transaction.serialize = bytes ∧ view.ReadsBack transaction) ∧
    ∀ transaction : VersionedTransaction, transaction.Accepted → transaction.serialize = bytes →
      ∃ view, TransactionView.tryNewUnsanitized bytes = .ok view := by
  have long : bytes.length < 2 ^ 32 := by omega
  constructor
  · intro view parsed
    simp only [TransactionView.tryNewUnsanitized, except_bind_eq_ok, pure, Except.pure,
      Except.ok.injEq] at parsed
    obtain ⟨frame, framed, rfl⟩ := parsed
    obtain ⟨transaction, accepted, rfl, rfl⟩ := (TransactionFrame.tryNew_eq_ok_iff long).mp framed
    exact ⟨transaction, accepted, rfl, readsBack accepted short⟩
  · rintro transaction accepted rfl
    refine ⟨⟨transaction.serialize, transaction.frame⟩, ?_⟩
    simp only [TransactionView.tryNewUnsanitized, TransactionFrame.tryNew_serialize accepted long,
      bind, Except.bind, pure, Except.pure]

/-- A legacy transfer: one signature, two keys and one instruction. -/
def legacyTransfer : VersionedTransaction :=
  ⟨[Vector.replicate signatureSize 1],
    .legacy ⟨⟨1, 0, 1⟩, [Vector.replicate pubkeySize 2, Vector.replicate pubkeySize 3],
      Vector.replicate hashSize 4, [⟨1, [0], [2, 0, 0, 0]⟩]⟩⟩

theorem tryNewUnsanitized_legacyTransfer :
    ∃ view, TransactionView.tryNewUnsanitized legacyTransfer.serialize = .ok view :=
  (tryNewUnsanitized_accepts_exactly_encodings (by decide +kernel)).2 legacyTransfer
    ⟨⟨by decide, by decide, by decide, by decide, by decide, by decide, by decide⟩, by decide,
      by decide⟩ rfl

/-- A legacy transaction whose header asks for 200 signatures: its first byte has the version
bit set. -/
def legacyManyRequired : VersionedTransaction :=
  ⟨[Vector.replicate signatureSize 0],
    .legacy ⟨⟨200, 0, 0⟩, [Vector.replicate pubkeySize 0], Vector.replicate hashSize 0, []⟩⟩

/-- A `v0` transaction with one lookup of no indexes: 34 bytes of lookups, below
`MIN_SIZED_ATL`. -/
def v0EmptyLookup : VersionedTransaction :=
  ⟨[Vector.replicate signatureSize 0],
    .v0 ⟨⟨1, 0, 0⟩, [Vector.replicate pubkeySize 0], Vector.replicate hashSize 0, []⟩
      [⟨Vector.replicate pubkeySize 0, [], []⟩]⟩

/-- Two encodings of transactions within the packet limits that the parser rejects. -/
theorem tryNewUnsanitized_rejects_encodings_within_limits :
    legacyManyRequired.WithinLimits ∧
      TransactionView.tryNewUnsanitized legacyManyRequired.serialize = .error .parseError ∧
    v0EmptyLookup.WithinLimits ∧
      TransactionView.tryNewUnsanitized v0EmptyLookup.serialize = .error .parseError :=
  ⟨⟨by decide, by decide, by decide, by decide, by decide, by decide, by decide⟩,
    by decide +kernel,
    ⟨by decide, by decide, by decide, by decide, by decide, by decide, by decide⟩,
    by decide +kernel⟩

end Validator.View
