import Validator.TransactionView.Sanitize

namespace Validator.View

open Validator.Data

/-! # What sanitizing checks

The loops of `sanitize` run their checks over what the iterators yield, so on the view of an
accepted transaction's encoding each check reads a field of the transaction.  The sanitized
parser therefore accepts exactly the encodings of the accepted transactions that are
`Sanitized`, and never panics on a packet.
-/

/-- The instruction loop runs the checks over what the iterator yields. -/
theorem sanitizeInstructionsLoop_of_collect {maxProgramIdIndex maxAccountIndex : UInt8} :
    ∀ (fuel : Nat) (iterator : InstructionsIterator) (instructions : List SVMInstruction),
      iterator.collect fuel = some instructions →
      sanitizeInstructionsLoop maxProgramIdIndex maxAccountIndex fuel iterator =
        some (instructions.forM (sanitizeInstruction maxProgramIdIndex maxAccountIndex))
  | 0, _, instructions, collected => by
      simp only [InstructionsIterator.collect, Option.some.injEq] at collected
      subst collected
      rfl
  | fuel + 1, iterator, instructions, collected => by
      unfold InstructionsIterator.collect at collected
      unfold sanitizeInstructionsLoop
      cases stepped : iterator.next with
      | none => simp [stepped] at collected
      | some step =>
          cases step with
          | none =>
              simp only [stepped, Option.bind_some, Option.some.injEq] at collected
              subst collected
              rfl
          | some item =>
              obtain ⟨instruction, iterator⟩ := item
              simp only [stepped, Option.bind_some] at collected ⊢
              cases later : iterator.collect fuel with
              | none => simp [later] at collected
              | some rest =>
                  simp only [later, Option.map_eq_map, Option.map_some, Option.some.injEq] at collected
                  subst collected
                  rw [List.forM]
                  cases sanitizeInstruction maxProgramIdIndex maxAccountIndex instruction with
                  | error error => rfl
                  | ok _ => exact sanitizeInstructionsLoop_of_collect fuel iterator rest later

/-- The lookup loop runs its check over what the iterator yields. -/
theorem sanitizeAddressTableLookupsLoop_eq :
    ∀ (fuel : Nat) (iterator : AddressTableLookupIterator),
      sanitizeAddressTableLookupsLoop fuel iterator = (iterator.collect fuel).forM fun lookup =>
        if lookup.writableIndexes.isEmpty && lookup.readonlyIndexes.isEmpty then
          .error .sanitizeError
        else .ok ()
  | 0, _ => rfl
  | fuel + 1, iterator => by
      unfold sanitizeAddressTableLookupsLoop AddressTableLookupIterator.collect
      cases iterator.next with
      | none => rfl
      | some item =>
          obtain ⟨lookup, iterator⟩ := item
          simp only [List.forM]
          split
          · rfl
          · exact sanitizeAddressTableLookupsLoop_eq fuel iterator

theorem sanitizeInstruction_eq_ok_iff {maxProgramIdIndex maxAccountIndex : UInt8}
    {instruction : SVMInstruction} :
    sanitizeInstruction maxProgramIdIndex maxAccountIndex instruction = .ok () ↔
      instruction.programIdIndex ≤ maxProgramIdIndex ∧ instruction.programIdIndex ≠ 0 ∧
        ∀ index ∈ instruction.accounts, index ≤ maxAccountIndex := by
  unfold sanitizeInstruction
  by_cases program : instruction.programIdIndex > maxProgramIdIndex
  · simp [program]
  · by_cases payer : instruction.programIdIndex = 0
    · simp [payer]
    · have within : instruction.programIdIndex ≤ maxProgramIdIndex := UInt8.not_lt.mp program
      simp [program, payer, within]

namespace VersionedTransaction

variable (transaction : VersionedTransaction)

/-- The view `try_new_unsanitized` returns for the encoding of an accepted transaction. -/
def view : TransactionView :=
  ⟨transaction.serialize, transaction.frame⟩

/-- The accounts a message names: its static keys and the indexes its lookups load. -/
def numAccounts : Nat :=
  transaction.message.message.accountKeys.length +
    totalWritable transaction.message.addressTableLookups +
    totalReadonly transaction.message.addressTableLookups

/-- What `sanitize` asks of a transaction. -/
structure Sanitized : Prop where
  signatures : transaction.signatures.length =
    transaction.message.message.header.numRequiredSignatures.toNat
  accountKeys : transaction.signatures.length ≤ transaction.message.message.accountKeys.length
  readonlyUnsigned : transaction.message.message.header.numRequiredSignatures.toNat +
      transaction.message.message.header.numReadonlyUnsignedAccounts.toNat ≤
    transaction.message.message.accountKeys.length
  feePayer : transaction.message.message.header.numReadonlySignedAccounts <
    transaction.message.message.header.numRequiredSignatures
  accounts : transaction.numAccounts ≤ 256
  programIds : ∀ instruction ∈ transaction.message.message.instructions,
    instruction.programIdIndex.toNat < transaction.message.message.accountKeys.length ∧
      instruction.programIdIndex ≠ 0
  accountIndexes : ∀ instruction ∈ transaction.message.message.instructions,
    ∀ index ∈ instruction.accounts, index.toNat < transaction.numAccounts
  lookups : ∀ lookup ∈ transaction.message.addressTableLookups,
    lookup.writableIndexes ≠ [] ∨ lookup.readonlyIndexes ≠ []

variable {transaction}

theorem toNat_saturatingAdd (a b : UInt16) :
    (UInt16.saturatingAdd a b).toNat = min (a.toNat + b.toNat) 0xFFFF := by
  unfold UInt16.saturatingAdd
  split
  · rw [UInt16.toNat_add, Nat.mod_eq_of_lt (by assumption)]
    omega
  · show 0xFFFF = _
    omega

section Counts

variable (accepted : transaction.Accepted)

include accepted

theorem numSignatures_view : transaction.view.numSignatures.toNat = transaction.signatures.length :=
  UInt8.toNat_ofNat_of_lt (by have := accepted.withinLimits.signatures; omega)

theorem numStaticAccountKeys_view :
    transaction.view.numStaticAccountKeys.toNat = transaction.message.message.accountKeys.length :=
  UInt8.toNat_ofNat_of_lt (by have := accepted.withinLimits.accountKeys; omega)

theorem numInstructions_view :
    transaction.view.numInstructions.toNat = transaction.message.message.instructions.length :=
  UInt16.toNat_ofNat_of_lt (by have := accepted.withinLimits.instructions; omega)

/-- The lookup counts of the frame: none for a legacy message. -/
theorem lookupCounts_view :
    transaction.view.numAddressTableLookups.toNat = transaction.message.addressTableLookups.length ∧
    transaction.view.totalWritableLookupAccounts.toNat =
      totalWritable transaction.message.addressTableLookups ∧
    transaction.view.totalReadonlyLookupAccounts.toNat =
      totalReadonly transaction.message.addressTableLookups := by
  have limits := accepted.withinLimits
  obtain ⟨signatures, message⟩ := transaction
  cases message with
  | legacy message => exact ⟨rfl, rfl, rfl⟩
  | v0 message lookups =>
      have count := limits.lookups
      have atMax : maxAtlsPerPacket.toNat = 31 := by decide
      obtain ⟨writable, readonly⟩ := limits.totals
      simp only [VersionedMessage.addressTableLookups] at count writable readonly
      show (UInt8.ofNat lookups.length).toNat = lookups.length ∧
        (UInt16.ofNat (totalWritable lookups)).toNat = totalWritable lookups ∧
        (UInt16.ofNat (totalReadonly lookups)).toNat = totalReadonly lookups
      exact ⟨UInt8.toNat_ofNat_of_lt (by omega), UInt16.toNat_ofNat_of_lt writable,
        UInt16.toNat_ofNat_of_lt readonly⟩

theorem totalNumberOfAccounts_view :
    (totalNumberOfAccounts transaction.view).toNat = min transaction.numAccounts 0xFFFF := by
  obtain ⟨-, writable, readonly⟩ := lookupCounts_view accepted
  rw [totalNumberOfAccounts, toNat_saturatingAdd, toNat_saturatingAdd, UInt8.toNat_toUInt16,
    numStaticAccountKeys_view accepted, writable, readonly, numAccounts]
  omega

theorem sanitizeSignatures_view :
    sanitizeSignatures transaction.view = .ok () ↔
      transaction.signatures.length =
        transaction.message.message.header.numRequiredSignatures.toNat ∧
      transaction.signatures.length ≤ transaction.message.message.accountKeys.length := by
  have signatures := numSignatures_view accepted
  have keys := numStaticAccountKeys_view accepted
  have required : transaction.view.numRequiredSignatures =
      transaction.message.message.header.numRequiredSignatures := rfl
  unfold sanitizeSignatures
  split_ifs with differ fewer
  · rw [ne_eq, ← UInt8.toNat_inj, signatures, required] at differ
    simp only [false_iff, not_and]
    omega
  · rw [UInt8.lt_iff_toNat_lt, signatures, keys] at fewer
    simp only [false_iff, not_and]
    omega
  · rw [not_not, ← UInt8.toNat_inj, signatures, required] at differ
    rw [UInt8.lt_iff_toNat_lt, signatures, keys] at fewer
    simp only [true_iff]
    omega

theorem sanitizeAccountAccess_view
    (signed : transaction.signatures.length =
        transaction.message.message.header.numRequiredSignatures.toNat ∧
      transaction.signatures.length ≤ transaction.message.message.accountKeys.length) :
    sanitizeAccountAccess transaction.view = .ok () ↔
      transaction.message.message.header.numRequiredSignatures.toNat +
          transaction.message.message.header.numReadonlyUnsignedAccounts.toNat ≤
        transaction.message.message.accountKeys.length ∧
      transaction.message.message.header.numReadonlySignedAccounts <
        transaction.message.message.header.numRequiredSignatures ∧
      transaction.numAccounts ≤ 256 := by
  obtain ⟨required', enough⟩ := signed
  have keys := numStaticAccountKeys_view accepted
  have total := totalNumberOfAccounts_view accepted
  have required : transaction.view.numRequiredSignatures =
      transaction.message.message.header.numRequiredSignatures := rfl
  have unsigned : transaction.view.numReadonlyUnsignedStaticAccounts =
      transaction.message.message.header.numReadonlyUnsignedAccounts := rfl
  have signed' : transaction.view.numReadonlySignedStaticAccounts =
      transaction.message.message.header.numReadonlySignedAccounts := rfl
  have unsignedRoom : (transaction.view.numStaticAccountKeys -
      transaction.view.numRequiredSignatures).toNat =
      transaction.message.message.accountKeys.length -
        transaction.message.message.header.numRequiredSignatures.toNat := by
    rw [UInt8.toNat_sub_of_le _ _ (UInt8.le_iff_toNat_le.mpr (by rw [keys, required]; omega)),
      keys, required]
  have bound : (256 : UInt16).toNat = 256 := rfl
  unfold sanitizeAccountAccess
  split_ifs with crowded payer large
  · rw [gt_iff_lt, UInt8.lt_iff_toNat_lt, unsignedRoom, unsigned] at crowded
    simp only [false_iff, not_and]
    intro fits
    omega
  · rw [ge_iff_le, signed', required] at payer
    simp only [false_iff, not_and, UInt8.not_lt.mpr payer]
    simp
  · rw [gt_iff_lt, UInt16.lt_iff_toNat_lt, total, bound] at large
    simp only [false_iff, not_and]
    intro _ _
    omega
  · rw [gt_iff_lt, UInt8.lt_iff_toNat_lt, unsignedRoom, unsigned] at crowded
    rw [ge_iff_le, signed', required] at payer
    rw [gt_iff_lt, UInt16.lt_iff_toNat_lt, total, bound] at large
    simp only [true_iff, UInt8.not_le.mp payer, true_and]
    omega

end Counts

section Loops

variable (accepted : transaction.Accepted) (short : transaction.serialize.length < 2 ^ 16)

include accepted short

theorem sanitizeInstructions_view (accounts : transaction.numAccounts ≤ 256) :
    ∃ result, sanitizeInstructions transaction.view = some result ∧
      (result = .ok () ↔ ∀ instruction ∈ transaction.message.message.instructions,
        (instruction.programIdIndex.toNat < transaction.message.message.accountKeys.length ∧
          instruction.programIdIndex ≠ 0) ∧
        ∀ index ∈ instruction.accounts, index.toNat < transaction.numAccounts) := by
  have keys := numStaticAccountKeys_view accepted
  have keysPositive := accepted.withinLimits.accountKeys.1
  have total := totalNumberOfAccounts_view accepted
  have named : transaction.message.message.accountKeys.length ≤ transaction.numAccounts := by
    unfold numAccounts
    omega
  have maxProgramIdIndex : (transaction.view.numStaticAccountKeys - 1).toNat =
      transaction.message.message.accountKeys.length - 1 := by
    rw [UInt8.toNat_sub_of_le _ _ (UInt8.le_iff_toNat_le.mpr (by rw [keys]; exact keysPositive)),
      keys]
    rfl
  have maxAccountIndex : (totalNumberOfAccounts transaction.view - 1).toUInt8.toNat =
      transaction.numAccounts - 1 := by
    have one : (1 : UInt16).toNat = 1 := rfl
    rw [UInt16.toNat_toUInt8, UInt16.toNat_sub_of_le _ _
      (UInt16.le_iff_toNat_le.mpr (by rw [total, one]; omega)), total, one]
    omega
  have collected := (readsBack accepted short).instructions
    (transaction.message.message.instructions.length + 1) (by omega)
  rw [← numInstructions_view accepted] at collected
  refine ⟨_, sanitizeInstructionsLoop_of_collect _ _ _ collected, ?_⟩
  rw [except_forM_eq_ok_iff, List.forall_mem_map]
  apply forall₂_congr
  intro instruction _
  simp only [sanitizeInstruction_eq_ok_iff, CompiledInstruction.toSVM, UInt8.le_iff_toNat_le,
    maxProgramIdIndex, maxAccountIndex]
  constructor
  · rintro ⟨program, notPayer, indexes⟩
    exact ⟨⟨by omega, notPayer⟩, fun index member => by have := indexes index member; omega⟩
  · rintro ⟨⟨program, notPayer⟩, indexes⟩
    exact ⟨by omega, notPayer, fun index member => by have := indexes index member; omega⟩

theorem sanitizeAddressTableLookups_view :
    sanitizeAddressTableLookups transaction.view = .ok () ↔
      ∀ lookup ∈ transaction.message.addressTableLookups,
        lookup.writableIndexes ≠ [] ∨ lookup.readonlyIndexes ≠ [] := by
  obtain ⟨count, -, -⟩ := lookupCounts_view accepted
  have collected : transaction.view.addressTableLookupIter.collect
      (transaction.view.numAddressTableLookups.toNat + 1) =
      transaction.message.addressTableLookups.map MessageAddressTableLookup.toSVM :=
    (readsBack accepted short).addressTableLookups _ (by omega)
  rw [sanitizeAddressTableLookups, sanitizeAddressTableLookupsLoop_eq, collected]
  rw [except_forM_eq_ok_iff, List.forall_mem_map]
  apply forall₂_congr
  intro lookup _
  simp only [ite_eq_right_iff, reduceCtorEq, imp_false, Bool.and_eq_true, List.isEmpty_iff,
    MessageAddressTableLookup.toSVM, not_and_or, ne_eq]

/-- On the view of an accepted transaction's encoding `sanitize` does not panic, and it passes
exactly when the transaction is sanitized. -/
theorem sanitize_view :
    ∃ result, sanitize transaction.view = some result ∧ (result = .ok () ↔ transaction.Sanitized) := by
  unfold sanitize
  cases signaturesCheck : sanitizeSignatures transaction.view with
  | error error =>
      refine ⟨.error error, by simp only [bind, Except.bind], ?_⟩
      simp only [reduceCtorEq, false_iff]
      intro sanitized
      have passes := (sanitizeSignatures_view accepted).mpr
        ⟨sanitized.signatures, sanitized.accountKeys⟩
      rw [signaturesCheck] at passes
      cases passes
  | ok _ =>
      have signed := (sanitizeSignatures_view accepted).mp signaturesCheck
      cases accessCheck : sanitizeAccountAccess transaction.view with
      | error error =>
          refine ⟨.error error, by simp only [bind, Except.bind], ?_⟩
          simp only [reduceCtorEq, false_iff]
          intro sanitized
          have passes := (sanitizeAccountAccess_view accepted signed).mpr
            ⟨sanitized.readonlyUnsigned, sanitized.feePayer, sanitized.accounts⟩
          rw [accessCheck] at passes
          cases passes
      | ok _ =>
          obtain ⟨readonlyUnsigned, feePayer, accounts⟩ :=
            (sanitizeAccountAccess_view accepted signed).mp accessCheck
          obtain ⟨result, instructionsEq, instructionsIff⟩ :=
            sanitizeInstructions_view accepted short accounts
          refine ⟨result >>= fun _ => sanitizeAddressTableLookups transaction.view,
            by simp only [bind, Except.bind, instructionsEq, Option.map_some], ?_⟩
          rw [except_bind_eq_ok]
          constructor
          · rintro ⟨_, resultOk, lookupsOk⟩
            have instructions := instructionsIff.mp resultOk
            exact ⟨signed.1, signed.2, readonlyUnsigned, feePayer, accounts,
              fun instruction member => (instructions instruction member).1,
              fun instruction member => (instructions instruction member).2,
              (sanitizeAddressTableLookups_view accepted short).mp lookupsOk⟩
          · intro sanitized
            exact ⟨(), instructionsIff.mpr fun instruction member =>
                ⟨sanitized.programIds instruction member, sanitized.accountIndexes instruction member⟩,
              (sanitizeAddressTableLookups_view accepted short).mpr sanitized.lookups⟩

end Loops

end VersionedTransaction

theorem TransactionView.tryNewUnsanitized_eq_ok_iff {bytes : List UInt8} {view : TransactionView}
    (short : bytes.length < 2 ^ 16) :
    tryNewUnsanitized bytes = .ok view ↔
      ∃ transaction : VersionedTransaction, transaction.Accepted ∧ transaction.serialize = bytes ∧
        view = transaction.view := by
  simp only [tryNewUnsanitized, except_bind_eq_ok, pure, Except.pure, Except.ok.injEq,
    TransactionFrame.tryNew_eq_ok_iff (by omega : bytes.length < 2 ^ 32)]
  constructor
  · rintro ⟨frame, ⟨transaction, accepted, encoded, rfl⟩, rfl⟩
    exact ⟨transaction, accepted, encoded, by rw [← encoded]; rfl⟩
  · rintro ⟨transaction, accepted, rfl, rfl⟩
    exact ⟨transaction.frame, ⟨transaction, accepted, rfl, rfl⟩, rfl⟩

/-- The parser records one frame for an encoding, whichever accepted transaction it encodes. -/
theorem VersionedTransaction.view_eq_of_serialize_eq {transaction other : VersionedTransaction}
    (accepted : transaction.Accepted) (otherAccepted : other.Accepted)
    (short : transaction.serialize.length < 2 ^ 16) (encoded : other.serialize = transaction.serialize) :
    other.view = transaction.view := by
  have long : transaction.serialize.length < 2 ^ 32 := by omega
  have parsed := TransactionFrame.tryNew_serialize otherAccepted (encoded ▸ long)
  rw [encoded, TransactionFrame.tryNew_serialize accepted long, Except.ok.injEq] at parsed
  rw [view, view, encoded, parsed]

open VersionedTransaction in
/-- `TransactionView::try_new_sanitized` on a packet of fewer than `2^16` bytes does not panic; the
views it returns are those of the encodings of the accepted transactions that are sanitized. -/
theorem TransactionView.tryNewSanitized_accepts_exactly_sanitized_encodings {bytes : List UInt8}
    (short : bytes.length < 2 ^ 16) :
    (tryNewSanitized bytes).isSome ∧
    ∀ view, tryNewSanitized bytes = some (.ok view) ↔
      ∃ transaction : VersionedTransaction, transaction.Accepted ∧ transaction.Sanitized ∧
        transaction.serialize = bytes ∧ view = transaction.view := by
  cases unsanitized : tryNewUnsanitized bytes with
  | error error =>
      simp only [tryNewSanitized, unsanitized, Option.isSome_some, true_and, Option.some.injEq,
        reduceCtorEq, false_iff, not_exists, not_and]
      intro view transaction accepted _ encoded _
      have parses := (tryNewUnsanitized_eq_ok_iff short).mpr ⟨transaction, accepted, encoded, rfl⟩
      rw [unsanitized] at parses
      cases parses
  | ok view =>
      obtain ⟨transaction, accepted, rfl, rfl⟩ := (tryNewUnsanitized_eq_ok_iff short).mp unsanitized
      obtain ⟨result, sanitized, resultIff⟩ := sanitize_view accepted short
      simp only [tryNewSanitized, unsanitized, sanitized, Option.map_some, Option.isSome_some,
        true_and, Option.some.injEq]
      intro view
      -- another transaction with the same encoding has the same view
      have sameView : ∀ other : VersionedTransaction, other.Accepted →
          other.serialize = transaction.serialize → other.view = transaction.view :=
        fun other otherAccepted encoded =>
          view_eq_of_serialize_eq accepted otherAccepted short encoded
      cases result with
      | error error =>
          simp only [Except.map, reduceCtorEq, false_iff, not_exists, not_and]
          intro other otherAccepted otherSanitized encoded _
          obtain ⟨otherResult, otherSanitize, otherIff⟩ := sanitize_view otherAccepted (encoded ▸ short)
          rw [sameView other otherAccepted encoded, sanitized, Option.some.injEq] at otherSanitize
          rw [← otherSanitize] at otherIff
          cases otherIff.mpr otherSanitized
      | ok _ =>
          simp only [Except.map, Except.ok.injEq]
          constructor
          · rintro rfl
            exact ⟨transaction, accepted, resultIff.mp rfl, rfl, rfl⟩
          · rintro ⟨other, otherAccepted, -, encoded, rfl⟩
            exact (sameView other otherAccepted encoded).symm

end Validator.View
