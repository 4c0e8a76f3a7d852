import Validator.TransactionView.TransactionSpec

namespace Validator.View

open Validator.Data

/-! # Sanitizing a view

`TransactionView::sanitize` and `try_new_sanitized`: the checks of `sanitize.rs` on the counts
of the frame and on each instruction and lookup that the iterators yield.  On the view of an
accepted transaction's encoding they pass exactly when the transaction is `Sanitized`: as many
signatures as it requires and as many static keys, a writable fee payer, at most 256 accounts,
program indexes among the static keys other than the payer, account indexes among all the
accounts, and no empty lookup.
-/

namespace TransactionView

variable (self : TransactionView)

def numSignatures : UInt8 := self.frame.signature.numSignatures
def numStaticAccountKeys : UInt8 := self.frame.staticAccountKeys.numStaticAccounts
def numInstructions : UInt16 := self.frame.instructions.numInstructions
def numAddressTableLookups : UInt8 := self.frame.addressTableLookup.numAddressTableLookups
def totalWritableLookupAccounts : UInt16 :=
  self.frame.addressTableLookup.totalWritableLookupAccounts
def totalReadonlyLookupAccounts : UInt16 :=
  self.frame.addressTableLookup.totalReadonlyLookupAccounts

end TransactionView

/-- `u16::saturating_add`. -/
def UInt16.saturatingAdd (a b : UInt16) : UInt16 :=
  if a.toNat + b.toNat < 2 ^ 16 then a + b else 0xFFFF

section Checks

variable (view : TransactionView)

/-- `total_number_of_accounts`. -/
def totalNumberOfAccounts : UInt16 :=
  UInt16.saturatingAdd
    (UInt16.saturatingAdd view.numStaticAccountKeys.toUInt16 view.totalWritableLookupAccounts)
    view.totalReadonlyLookupAccounts

def sanitizeSignatures : Result Unit :=
  if view.numSignatures ≠ view.numRequiredSignatures then .error .sanitizeError
  else if view.numStaticAccountKeys < view.numSignatures then .error .sanitizeError
  else .ok ()

def sanitizeAccountAccess : Result Unit :=
  -- `sanitize_signatures` has checked that the subtraction does not wrap
  if view.numReadonlyUnsignedStaticAccounts >
      view.numStaticAccountKeys - view.numRequiredSignatures then .error .sanitizeError
  else if view.numReadonlySignedStaticAccounts ≥ view.numRequiredSignatures then
    .error .sanitizeError
  else if totalNumberOfAccounts view > 256 then .error .sanitizeError
  else .ok ()

end Checks

/-- The checks of `sanitize_instructions` on one instruction; its inner loop fails at the first
account index past `maxAccountIndex`. -/
def sanitizeInstruction (maxProgramIdIndex maxAccountIndex : UInt8) (instruction : SVMInstruction) :
    Result Unit :=
  if instruction.programIdIndex > maxProgramIdIndex then .error .sanitizeError
  else if instruction.programIdIndex = 0 then .error .sanitizeError
  else if instruction.accounts.any (· > maxAccountIndex) then .error .sanitizeError
  else .ok ()

/-- The `for` loop of `sanitize_instructions`, for at most `fuel` turns; `none` is a panic of the
iterator. -/
def sanitizeInstructionsLoop (maxProgramIdIndex maxAccountIndex : UInt8) :
    Nat → InstructionsIterator → Option (Result Unit)
  | 0, _ => some (.ok ())
  | fuel + 1, iterator =>
      iterator.next.bind fun
        | none => some (.ok ())
        | some (instruction, iterator) =>
            match sanitizeInstruction maxProgramIdIndex maxAccountIndex instruction with
            | .error error => some (.error error)
            | .ok () => sanitizeInstructionsLoop maxProgramIdIndex maxAccountIndex fuel iterator

/-- `sanitize_instructions`: the iterator ends after `num_instructions` items, so one turn more
than that runs the loop to its end. -/
def sanitizeInstructions (view : TransactionView) : Option (Result Unit) :=
  -- `sanitize_account_access` has checked that there are at most 256 accounts
  let maxProgramIdIndex := view.numStaticAccountKeys - 1
  let maxAccountIndex := (totalNumberOfAccounts view - 1).toUInt8
  sanitizeInstructionsLoop maxProgramIdIndex maxAccountIndex (view.numInstructions.toNat + 1)
    view.instructionsIter

/-- The `for` loop of `sanitize_address_table_lookups`, for at most `fuel` turns. -/
def sanitizeAddressTableLookupsLoop : Nat → AddressTableLookupIterator → Result Unit
  | 0, _ => .ok ()
  | fuel + 1, iterator =>
      match iterator.next with
      | none => .ok ()
      | some (lookup, iterator) =>
          if lookup.writableIndexes.isEmpty && lookup.readonlyIndexes.isEmpty then
            .error .sanitizeError
          else sanitizeAddressTableLookupsLoop fuel iterator

def sanitizeAddressTableLookups (view : TransactionView) : Result Unit :=
  sanitizeAddressTableLookupsLoop (view.numAddressTableLookups.toNat + 1) view.addressTableLookupIter

/-- `sanitize`; `none` is a panic. -/
def sanitize (view : TransactionView) : Option (Result Unit) :=
  match sanitizeSignatures view >>= fun _ => sanitizeAccountAccess view with
  | .error error => some (.error error)
  | .ok () => (sanitizeInstructions view).map fun result =>
      result >>= fun _ => sanitizeAddressTableLookups view

namespace TransactionView

/-- `TransactionView::try_new_sanitized`; `none` is a panic. -/
def tryNewSanitized (data : List UInt8) : Option (Result TransactionView) :=
  match tryNewUnsanitized data with
  | .error error => some (.error error)
  | .ok view => (sanitize view).map fun result => result.map fun _ => view

/-- `program_instructions_iter`: each instruction with the static key its program index names;
`none` is a panic of the iterator or of the indexing. -/
def programInstructions (self : TransactionView) : Option (List (Pubkey × SVMInstruction)) :=
  (self.instructionsIter.collect (self.numInstructions.toNat + 1)).bind fun instructions =>
    instructions.mapM fun instruction =>
      self.staticAccountKeys[instruction.programIdIndex.toNat]?.map fun programId =>
        (programId, instruction)

end TransactionView

end Validator.View
