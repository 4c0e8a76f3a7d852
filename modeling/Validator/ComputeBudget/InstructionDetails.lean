import Validator.TransactionView.Wire
import Validator.Vote.Lockout

namespace Validator.ComputeBudget

open Validator.View Validator.Vote

/-! # Compute-budget instructions

`ComputeBudgetInstructionDetails` of `compute-budget-instruction`.  `try_from` walks a
transaction's instructions once and records each compute-budget request with its position,
refusing one that does not decode or repeats a kind; when no compute-unit limit was requested it
walks them again to count builtin and other programs for the default limit.  Both walks memoise
their test of the program per program index, in arrays of `FILTER_SIZE` slots.
`sanitize_and_convert_to_compute_budget_limits` then checks the requests and turns them into
limits.  The decoding of an instruction's data and the feature set are parameters; `none` is a
panic.
-/

/-- `FILTER_SIZE`: the most keys a packet holds. -/
def filterSize : UInt8 := UInt8.ofNat (packetDataSize / pubkeySize)

/-- `solana_program_entrypoint::HEAP_LENGTH`. -/
def heapLength : Nat := 32 * 1024

def maxComputeUnitLimit : UInt32 := 1400000
def defaultInstructionComputeUnitLimit : UInt32 := 200000
def maxBuiltinAllocationComputeUnitLimit : UInt32 := 3000
def maxHeapFrameBytes : UInt32 := 256 * 1024
def minHeapFrameBytes : UInt32 := UInt32.ofNat heapLength
def maxLoadedAccountsDataSizeBytes : UInt32 := 64 * 1024 * 1024

/-- `u32::saturating_mul`. -/
def UInt32.saturatingMul (a b : UInt32) : UInt32 :=
  if a.toNat * b.toNat < 2 ^ 32 then a * b else 0xFFFFFFFF

/-- `Saturating<u16>` incremented by one. -/
def saturatingIncrement (count : UInt16) : UInt16 :=
  if count.toNat + 1 < 2 ^ 16 then count + 1 else count

/-! ## The builtin programs -/

/-- The ids the programs are compared with, from `solana_sdk_ids` and the feature set. -/
structure BuiltinIds where
  stake : Pubkey
  vote : Pubkey
  systemProgram : Pubkey
  computeBudget : Pubkey
  bpfLoaderUpgradeable : Pubkey
  bpfLoaderDeprecated : Pubkey
  bpfLoader : Pubkey
  loaderV4 : Pubkey
  secp256k1Program : Pubkey
  ed25519Program : Pubkey
  migrateStakeProgramToCoreBpf : Pubkey

inductive BuiltinCost where
  | migrating (coreBpfMigrationFeature : Pubkey) (position : Nat)
  | notMigrating
deriving DecidableEq, Repr

namespace BuiltinCost

def coreBpfMigrationFeature : BuiltinCost → Option Pubkey
  | .migrating feature _ => some feature
  | .notMigrating => none

def position : BuiltinCost → Option Nat
  | .migrating _ position => some position
  | .notMigrating => none

end BuiltinCost

section Builtins

variable (ids : BuiltinIds)

def migratingBuiltinsCosts : List (Pubkey × BuiltinCost) :=
  [(ids.stake, .migrating ids.migrateStakeProgramToCoreBpf 0)]

def nonMigratingBuiltinsCosts : List (Pubkey × BuiltinCost) :=
  [(ids.vote, .notMigrating),
    (ids.systemProgram, .notMigrating),
    (ids.computeBudget, .notMigrating),
    (ids.bpfLoaderUpgradeable, .notMigrating),
    (ids.bpfLoaderDeprecated, .notMigrating),
    (ids.bpfLoader, .notMigrating),
    (ids.loaderV4, .notMigrating),
    (ids.secp256k1Program, .notMigrating),
    (ids.ed25519Program, .notMigrating)]

/-- `BUILTIN_INSTRUCTION_COSTS`, as the entries it is collected from. -/
def builtinInstructionCosts : List (Pubkey × BuiltinCost) :=
  migratingBuiltinsCosts ids ++ nonMigratingBuiltinsCosts ids

/-- `BUILTIN_INSTRUCTION_COSTS.get`: collecting into a map keeps a key's last entry. -/
def getBuiltinCost (programId : Pubkey) : Option BuiltinCost :=
  ((builtinInstructionCosts ids).reverse.find? (·.1 == programId)).map (·.2)

/-- `program_id.as_ref()[0]`. -/
def firstByte (programId : Pubkey) : UInt8 := programId.get ⟨0, by decide⟩

/-- `MAYBE_BUILTIN_KEY`: whether some builtin key starts with the byte. -/
def maybeBuiltinKey (byte : UInt8) : Bool :=
  (builtinInstructionCosts ids).any fun entry => firstByte entry.1 == byte

inductive BuiltinMigrationFeatureIndex where
  | notBuiltin
  | builtinNoMigrationFeature
  | builtinWithMigrationFeature (index : Nat)
deriving DecidableEq, Repr

def getBuiltinMigrationFeatureIndex (programId : Pubkey) : BuiltinMigrationFeatureIndex :=
  match getBuiltinCost ids programId with
  | none => .notBuiltin
  | some builtinCost =>
      match builtinCost.position with
      | none => .builtinNoMigrationFeature
      | some position => .builtinWithMigrationFeature position

/-- `get_migration_feature_id`; `none` is the panic of either `expect`. -/
def getMigrationFeatureId (index : Nat) : Option Pubkey :=
  (migratingBuiltinsCosts ids)[index]?.bind (·.2.coreBpfMigrationFeature)

end Builtins

/-! ## The program filters -/

inductive ProgramKind where
  | notBuiltin
  | builtin
  | migratingBuiltin (coreBpfMigrationFeatureIndex : Nat)
deriving DecidableEq, Repr

/-- The array both filters keep: a slot per program index, unchecked or holding the answer. -/
structure ProgramFilter (α : Type) where
  slots : List (Option α)
deriving DecidableEq, Repr

namespace ProgramFilter

variable {α : Type}

def new : ProgramFilter α := ⟨List.replicate filterSize.toNat none⟩

/-- `get_mut(index).expect(..).get_or_insert_with(|| check(program_id))`: the answer kept for the
index, or the check's, kept from now on; `none` is the panic of the `expect`. -/
def get (check : Pubkey → α) (self : ProgramFilter α) (index : Nat) (programId : Pubkey) :
    Option (α × ProgramFilter α) :=
  match self.slots[index]? with
  | none => none
  | some (some answer) => some (answer, self)
  | some none =>
      let answer := check programId
      some (answer, ⟨self.slots.set index (some answer)⟩)

end ProgramFilter

section Filters

variable (ids : BuiltinIds)

abbrev ComputeBudgetProgramIdFilter := ProgramFilter Bool

def checkProgramId (programId : Pubkey) : Bool :=
  if !maybeBuiltinKey ids (firstByte programId) then false
  else programId == ids.computeBudget

def isComputeBudgetProgram (filter : ComputeBudgetProgramIdFilter) (index : Nat)
    (programId : Pubkey) : Option (Bool × ComputeBudgetProgramIdFilter) :=
  filter.get (checkProgramId ids) index programId

abbrev BuiltinProgramsFilter := ProgramFilter ProgramKind

def checkProgramKind (programId : Pubkey) : ProgramKind :=
  if !maybeBuiltinKey ids (firstByte programId) then .notBuiltin
  else
    match getBuiltinMigrationFeatureIndex ids programId with
    | .notBuiltin => .notBuiltin
    | .builtinNoMigrationFeature => .builtin
    | .builtinWithMigrationFeature index => .migratingBuiltin index

def getProgramKind (filter : BuiltinProgramsFilter) (index : Nat) (programId : Pubkey) :
    Option (ProgramKind × BuiltinProgramsFilter) :=
  filter.get (checkProgramKind ids) index programId

end Filters

/-! ## Requests and limits -/

/-- `ComputeBudgetInstruction` of `solana_compute_budget_interface`. -/
inductive ComputeBudgetInstruction where
  | unused
  | requestHeapFrame (bytes : UInt32)
  | setComputeUnitLimit (units : UInt32)
  | setComputeUnitPrice (microLamports : UInt64)
  | setLoadedAccountsDataSizeLimit (bytes : UInt32)
deriving DecidableEq, Repr

inductive InstructionError where
  | invalidInstructionData
deriving DecidableEq, Repr

/-- `TransactionError`, with the variants raised here. -/
inductive TransactionError where
  | instructionError (index : UInt8) (error : InstructionError)
  | duplicateInstruction (index : UInt8)
  | invalidLoadedAccountsDataSizeLimit
deriving DecidableEq, Repr

structure ComputeBudgetLimits where
  updatedHeapBytes : UInt32
  computeUnitLimit : UInt32
  computeUnitPrice : UInt64
  loadedAccountsBytes : { bytes : UInt32 // bytes ≠ 0 }
deriving DecidableEq, Repr

/-- `MAX_LOADED_ACCOUNTS_DATA_SIZE_BYTES`, a `NonZeroU32`. -/
def maxLoadedAccountsBytes : { bytes : UInt32 // bytes ≠ 0 } :=
  ⟨maxLoadedAccountsDataSizeBytes, by simp [maxLoadedAccountsDataSizeBytes]⟩

/-- `NonZeroU32::min` with the largest limit stays nonzero. -/
theorem min_maxLoadedAccountsDataSizeBytes_ne_zero {bytes : UInt32} (nonzero : bytes ≠ 0) :
    min bytes maxLoadedAccountsDataSizeBytes ≠ 0 := by
  intro zero
  rw [UInt32.min_def] at zero
  split at zero
  · exact nonzero zero
  · exact absurd zero (by simp [maxLoadedAccountsDataSizeBytes])

structure ComputeBudgetInstructionDetails where
  requestedComputeUnitLimit : Option (UInt8 × UInt32)
  requestedComputeUnitPrice : Option (UInt8 × UInt64)
  requestedHeapSize : Option (UInt8 × UInt32)
  requestedLoadedAccountsDataSizeLimit : Option (UInt8 × UInt32)
  numNonComputeBudgetInstructions : UInt16
  numNonMigratableBuiltinInstructions : UInt16
  numNonBuiltinInstructions : UInt16
  /-- `MigrationBuiltinFeatureCounter`: a counter per migrating builtin. -/
  migratingBuiltinFeatureCounters : List UInt16
deriving DecidableEq, Repr

namespace ComputeBudgetInstructionDetails

variable (ids : BuiltinIds) (decode : List UInt8 → Option ComputeBudgetInstruction)

def default : ComputeBudgetInstructionDetails :=
  ⟨none, none, none, none, 0, 0, 0, List.replicate (migratingBuiltinsCosts ids).length 0⟩

/-- `process_instruction`: record the request of the instruction at `index`; a request of a kind
already recorded is a duplicate, and data that decodes to no request is invalid. -/
def processInstruction (self : ComputeBudgetInstructionDetails) (index : UInt8)
    (instruction : SVMInstruction) : Except TransactionError ComputeBudgetInstructionDetails :=
  match decode instruction.data with
  | some (.requestHeapFrame bytes) =>
      if self.requestedHeapSize.isSome then .error (.duplicateInstruction index)
      else .ok { self with requestedHeapSize := some (index, bytes) }
  | some (.setComputeUnitLimit computeUnitLimit) =>
      if self.requestedComputeUnitLimit.isSome then .error (.duplicateInstruction index)
      else .ok { self with requestedComputeUnitLimit := some (index, computeUnitLimit) }
  | some (.setComputeUnitPrice microLamports) =>
      if self.requestedComputeUnitPrice.isSome then .error (.duplicateInstruction index)
      else .ok { self with requestedComputeUnitPrice := some (index, microLamports) }
  | some (.setLoadedAccountsDataSizeLimit bytes) =>
      if self.requestedLoadedAccountsDataSizeLimit.isSome then .error (.duplicateInstruction index)
      else .ok { self with requestedLoadedAccountsDataSizeLimit := some (index, bytes) }
  | _ => .error (.instructionError index .invalidInstructionData)

/-- The first loop of `try_from`, from position `i` on. -/
def processLoop (i : Nat) (filter : ComputeBudgetProgramIdFilter)
    (details : ComputeBudgetInstructionDetails) :
    List (Pubkey × SVMInstruction) →
      Option (Except TransactionError ComputeBudgetInstructionDetails)
  | [] => some (.ok details)
  | (programId, instruction) :: instructions =>
      match isComputeBudgetProgram ids filter instruction.programIdIndex.toNat programId with
      | none => none
      | some (true, filter) =>
          match details.processInstruction decode (UInt8.ofNat i) instruction with
          | .error error => some (.error error)
          | .ok details => processLoop (i + 1) filter details instructions
      | some (false, filter) =>
          processLoop (i + 1) filter
            { details with
              numNonComputeBudgetInstructions :=
                saturatingIncrement details.numNonComputeBudgetInstructions }
            instructions

/-- The second loop of `try_from`, counting the programs by kind; `none` is a panic of either
`expect`. -/
def countLoop (filter : BuiltinProgramsFilter) (details : ComputeBudgetInstructionDetails) :
    List (Pubkey × SVMInstruction) → Option ComputeBudgetInstructionDetails
  | [] => some details
  | (programId, instruction) :: instructions =>
      match getProgramKind ids filter instruction.programIdIndex.toNat programId with
      | none => none
      | some (.builtin, filter) =>
          countLoop filter
            { details with
              numNonMigratableBuiltinInstructions :=
                saturatingIncrement details.numNonMigratableBuiltinInstructions }
            instructions
      | some (.notBuiltin, filter) =>
          countLoop filter
            { details with
              numNonBuiltinInstructions := saturatingIncrement details.numNonBuiltinInstructions }
            instructions
      | some (.migratingBuiltin index, filter) =>
          match details.migratingBuiltinFeatureCounters[index]? with
          | none => none
          | some count =>
              countLoop filter
                { details with
                  migratingBuiltinFeatureCounters :=
                    details.migratingBuiltinFeatureCounters.set index (saturatingIncrement count) }
                instructions

def tryFrom (instructions : List (Pubkey × SVMInstruction)) :
    Option (Except TransactionError ComputeBudgetInstructionDetails) :=
  match processLoop ids decode 0 ProgramFilter.new (default ids) instructions with
  | none => none
  | some (.error error) => some (.error error)
  | some (.ok details) =>
      if details.requestedComputeUnitLimit.isNone then
        -- reiterate to collect builtin details
        (countLoop ids ProgramFilter.new details instructions).map .ok
      else some (.ok details)

def sanitizeRequestedHeapSize (bytes : UInt32) : Bool :=
  minHeapFrameBytes ≤ bytes && bytes ≤ maxHeapFrameBytes && bytes % 1024 == 0

/-- `calculate_default_compute_unit_limit`; `none` is a panic of `get_migration_feature_id`. -/
def calculateDefaultComputeUnitLimit (isActive : Pubkey → Bool)
    (self : ComputeBudgetInstructionDetails) : Option UInt32 := do
  let (numMigrated, numNotMigrated) ←
    self.migratingBuiltinFeatureCounters.zipIdx.foldlM
      (fun (migrated, notMigrated) (count, index) => do
        -- the feature is looked up only for a counter above zero
        let active ← if count > 0 then (getMigrationFeatureId ids index).map isActive
          else some false
        pure (if active then (migrated + count, notMigrated) else (migrated, notMigrated + count)))
      ((0 : UInt16), (0 : UInt16))
  pure (UInt32.saturatingAdd
    (UInt32.saturatingMul
      (UInt32.saturatingAdd self.numNonMigratableBuiltinInstructions.toUInt32
        numNotMigrated.toUInt32)
      maxBuiltinAllocationComputeUnitLimit)
    (UInt32.saturatingMul
      (UInt32.saturatingAdd self.numNonBuiltinInstructions.toUInt32 numMigrated.toUInt32)
      defaultInstructionComputeUnitLimit))

def sanitizeAndConvertToComputeBudgetLimits (isActive : Pubkey → Bool)
    (self : ComputeBudgetInstructionDetails) :
    Option (Except TransactionError ComputeBudgetLimits) := do
  let updatedHeapBytes ← match self.requestedHeapSize with
    | some (index, requestedHeapSize) =>
        if sanitizeRequestedHeapSize requestedHeapSize then
          pure (min requestedHeapSize maxHeapFrameBytes)
        else return .error (.instructionError index .invalidInstructionData)
    | none => pure (min minHeapFrameBytes maxHeapFrameBytes)
  let computeUnitLimit ← match self.requestedComputeUnitLimit with
    | some (_, requestedComputeUnitLimit) =>
        pure (min requestedComputeUnitLimit maxComputeUnitLimit)
    | none => (calculateDefaultComputeUnitLimit ids isActive self).map (min · maxComputeUnitLimit)
  let computeUnitPrice := match self.requestedComputeUnitPrice with
    | some (_, requestedComputeUnitPrice) => requestedComputeUnitPrice
    | none => 0
  let loadedAccountsBytes : { bytes : UInt32 // bytes ≠ 0 } ← match
      self.requestedLoadedAccountsDataSizeLimit with
    | some (_, requested) =>
        if nonzero : requested ≠ 0 then
          pure ⟨min requested maxLoadedAccountsDataSizeBytes,
            min_maxLoadedAccountsDataSizeBytes_ne_zero nonzero⟩
        else return .error .invalidLoadedAccountsDataSizeLimit
    | none => pure maxLoadedAccountsBytes
  return .ok ⟨updatedHeapBytes, computeUnitLimit, computeUnitPrice, loadedAccountsBytes⟩

end ComputeBudgetInstructionDetails

/-- `process_compute_budget_instructions`: `try_from`, then the limits. -/
def processComputeBudgetInstructions (ids : BuiltinIds)
    (decode : List UInt8 → Option ComputeBudgetInstruction) (isActive : Pubkey → Bool)
    (instructions : List (Pubkey × SVMInstruction)) :
    Option (Except TransactionError ComputeBudgetLimits) :=
  match ComputeBudgetInstructionDetails.tryFrom ids decode instructions with
  | none => none
  | some (.error error) => some (.error error)
  | some (.ok details) => details.sanitizeAndConvertToComputeBudgetLimits ids isActive

end Validator.ComputeBudget
