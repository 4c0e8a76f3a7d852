import Validator.ComputeBudget.InstructionDetails

namespace Validator.ComputeBudget

open Validator.View Validator.Vote

/-! # Compute-budget instructions: specification

What `process_compute_budget_instructions` computes, stated over the requests of a transaction
rather than over the two memoised loops: the compute-budget requests are the instructions whose
program is the compute-budget program; the first that does not decode to a request, or repeats a
kind requested before, is refused; otherwise the limits are those the request of each kind asks
for, and a transaction that requests no compute-unit limit gets the builtin allocation for each
instruction of a builtin program and the default for each other.

The loops meet this on every transaction whose static keys fit the filters' arrays and whose
instructions name their programs by index into those keys: the filters then only cache the test
of the key at each index (`ProgramFilter.Consistent`), and saturating the counters cannot change
a limit the final `min` caps first.
-/

/-! ## Saturating arithmetic -/

theorem toNat_saturatingIncrement (count : UInt16) :
    (saturatingIncrement count).toNat = min (count.toNat + 1) (2 ^ 16 - 1) := by
  unfold saturatingIncrement
  split
  · rw [UInt16.toNat_add, UInt16.toNat_one, Nat.mod_eq_of_lt (by assumption)]
    omega
  · have := count.toNat_lt
    omega

/-- Counting one more after saturating saturates as counting them all. -/
theorem min_saturated_succ (count more : Nat) :
    min (min (count + 1) (2 ^ 16 - 1) + more) (2 ^ 16 - 1) = min (count + (more + 1)) (2 ^ 16 - 1) := by
  omega

theorem UInt32.toNat_saturatingMul (a b : UInt32) :
    (UInt32.saturatingMul a b).toNat = min (a.toNat * b.toNat) (2 ^ 32 - 1) := by
  unfold UInt32.saturatingMul
  split
  · rw [UInt32.toNat_mul, Nat.mod_eq_of_lt (by assumption)]
    omega
  · show 2 ^ 32 - 1 = _
    omega

/-! ## The filters cache the test of each key -/

namespace ProgramFilter

variable {α : Type} (check : Pubkey → α) (keys : List Pubkey)

/-- A filter over a transaction's static keys: a slot for each index a packet allows, each
answer it holds the test of the key at its index. -/
structure Consistent (filter : ProgramFilter α) : Prop where
  length_slots : filter.slots.length = filterSize.toNat
  answered : ∀ (index : Nat) answer, filter.slots[index]? = some (some answer) →
    ∃ key, keys[index]? = some key ∧ answer = check key

theorem consistent_new : (new : ProgramFilter α).Consistent check keys where
  length_slots := List.length_replicate
  answered index answer cached := by
    simp [new, List.getElem?_replicate] at cached

variable {check keys}

/-- A look-up at the index of a key answers the test of that key, cached or not, and keeps the
filter consistent. -/
theorem get_of_consistent {filter : ProgramFilter α} {index : Nat} {programId : Pubkey}
    (consistent : filter.Consistent check keys) (fits : keys.length ≤ filterSize.toNat)
    (keyed : keys[index]? = some programId) :
    ∃ after, filter.get check index programId = some (check programId, after) ∧
      after.Consistent check keys := by
  have below : index < filter.slots.length := by
    rw [consistent.length_slots]
    exact Nat.lt_of_lt_of_le (List.getElem?_eq_some_iff.mp keyed).1 fits
  cases slot : filter.slots[index]? with
  | none =>
      simp at slot
      omega
  | some cached =>
      cases cached with
      | some answer =>
          -- a cached answer was computed from the same key
          obtain ⟨key, found, rfl⟩ := consistent.answered index answer slot
          rw [keyed, Option.some.injEq] at found
          subst found
          exact ⟨filter, by simp [get, slot], consistent⟩
      | none =>
          refine ⟨⟨filter.slots.set index (some (check programId))⟩, by simp [get, slot], ?_⟩
          constructor
          · simp [consistent.length_slots]
          · intro other answer cached
            by_cases same : index = other
            · subst same
              simp [below] at cached
              exact ⟨programId, keyed, cached.symm⟩
            · rw [List.getElem?_set_ne same] at cached
              exact consistent.answered other answer cached

end ProgramFilter

/-! ## The builtin table -/

section Builtins

variable (ids : BuiltinIds)

theorem maybeBuiltinKey_of_getBuiltinCost {programId : Pubkey} {cost : BuiltinCost}
    (found : getBuiltinCost ids programId = some cost) :
    maybeBuiltinKey ids (firstByte programId) = true := by
  obtain ⟨entry, picked, _⟩ := Option.map_eq_some_iff.mp found
  have same : entry.1 = programId := by simpa using List.find?_some picked
  have listed : entry ∈ builtinInstructionCosts ids :=
    List.mem_reverse.mp (List.mem_of_find?_eq_some picked)
  exact List.any_eq_true.mpr ⟨entry, listed, by simp [same]⟩

theorem maybeBuiltinKey_computeBudget : maybeBuiltinKey ids (firstByte ids.computeBudget) = true := by
  simp [maybeBuiltinKey, builtinInstructionCosts, nonMigratingBuiltinsCosts]

/-- The compute-budget filter's test is equality with the compute-budget program: the byte
table only rules out keys that are no builtin. -/
theorem checkProgramId_eq (programId : Pubkey) :
    checkProgramId ids programId = (programId == ids.computeBudget) := by
  unfold checkProgramId
  by_cases same : programId = ids.computeBudget
  · subst same
    simp [maybeBuiltinKey_computeBudget]
  · simp [same]

/-- The kind of a program, from its entry in `BUILTIN_INSTRUCTION_COSTS`. -/
def kindOfCost : Option BuiltinCost → ProgramKind
  | none => .notBuiltin
  | some .notMigrating => .builtin
  | some (.migrating _ position) => .migratingBuiltin position

theorem checkProgramKind_eq (programId : Pubkey) :
    checkProgramKind ids programId = kindOfCost (getBuiltinCost ids programId) := by
  unfold checkProgramKind getBuiltinMigrationFeatureIndex
  cases found : getBuiltinCost ids programId with
  | none => simp [kindOfCost]
  | some cost =>
      have maybe := maybeBuiltinKey_of_getBuiltinCost ids found
      cases cost <;> simp [maybe, BuiltinCost.position, kindOfCost]

/-- The one migrating entry is the stake program's, at position zero. -/
theorem getBuiltinCost_of_migrating {programId feature : Pubkey} {position : Nat}
    (found : getBuiltinCost ids programId = some (.migrating feature position)) :
    feature = ids.migrateStakeProgramToCoreBpf ∧ position = 0 := by
  obtain ⟨entry, picked, cost⟩ := Option.map_eq_some_iff.mp found
  have listed : entry ∈ builtinInstructionCosts ids :=
    List.mem_reverse.mp (List.mem_of_find?_eq_some picked)
  simp only [builtinInstructionCosts, migratingBuiltinsCosts, nonMigratingBuiltinsCosts,
    List.cons_append, List.nil_append, List.mem_cons, List.not_mem_nil, or_false] at listed
  rcases listed with rfl | rfl | rfl | rfl | rfl | rfl | rfl | rfl | rfl | rfl <;>
    simp_all

theorem getMigrationFeatureId_zero :
    getMigrationFeatureId ids 0 = some ids.migrateStakeProgramToCoreBpf := rfl

end Builtins

/-! ## The requests -/

/-- The kinds of request a compute-budget instruction makes. -/
inductive RequestKind where
  | heapFrame
  | computeUnitLimit
  | computeUnitPrice
  | loadedAccountsDataSizeLimit
deriving DecidableEq, Repr

namespace ComputeBudgetInstruction

/-- The kind of request an instruction makes; `Unused` makes none. -/
def kind : ComputeBudgetInstruction → Option RequestKind
  | .unused => none
  | .requestHeapFrame _ => some .heapFrame
  | .setComputeUnitLimit _ => some .computeUnitLimit
  | .setComputeUnitPrice _ => some .computeUnitPrice
  | .setLoadedAccountsDataSizeLimit _ => some .loadedAccountsDataSizeLimit

def heapFrameBytes : ComputeBudgetInstruction → Option UInt32
  | .requestHeapFrame bytes => some bytes
  | _ => none

def computeUnitLimitUnits : ComputeBudgetInstruction → Option UInt32
  | .setComputeUnitLimit units => some units
  | _ => none

def computeUnitPriceMicroLamports : ComputeBudgetInstruction → Option UInt64
  | .setComputeUnitPrice microLamports => some microLamports
  | _ => none

def loadedAccountsDataSizeBytes : ComputeBudgetInstruction → Option UInt32
  | .setLoadedAccountsDataSizeLimit bytes => some bytes
  | _ => none

/-- A selector picks out the value of the requests of one kind. -/
def Selects {α : Type} (select : ComputeBudgetInstruction → Option α) (kind : RequestKind) : Prop :=
  ∀ instruction, (select instruction).isSome = (instruction.kind == some kind)

theorem selects_heapFrameBytes : Selects heapFrameBytes .heapFrame := by
  intro instruction
  cases instruction <;> rfl

theorem selects_computeUnitLimitUnits : Selects computeUnitLimitUnits .computeUnitLimit := by
  intro instruction
  cases instruction <;> rfl

theorem selects_computeUnitPriceMicroLamports :
    Selects computeUnitPriceMicroLamports .computeUnitPrice := by
  intro instruction
  cases instruction <;> rfl

theorem selects_loadedAccountsDataSizeBytes :
    Selects loadedAccountsDataSizeBytes .loadedAccountsDataSizeLimit := by
  intro instruction
  cases instruction <;> rfl

end ComputeBudgetInstruction

open ComputeBudgetInstruction

section Requests

variable (decode : List UInt8 → Option ComputeBudgetInstruction)

/-- The kind of request an instruction at a position makes, if its data decodes to one. -/
def kindOf (request : Nat × SVMInstruction) : Option RequestKind :=
  (decode request.2.data).bind kind

/-- The compute-budget requests among instructions numbered from `start`: the position and
instruction of each whose program is the compute-budget program. -/
def budgetRequests (ids : BuiltinIds) (start : Nat) (instructions : List (Pubkey × SVMInstruction)) :
    List (Nat × SVMInstruction) :=
  (instructions.zipIdx start).filterMap fun (pair, position) =>
    if pair.1 = ids.computeBudget then some (position, pair.2) else none

/-- Requests the processing accepts: each decodes to a request, and no two of the same kind. -/
def Accepted (requests : List (Nat × SVMInstruction)) : Prop :=
  (∀ request ∈ requests, (kindOf decode request).isSome) ∧
    requests.Pairwise fun a b => kindOf decode a ≠ kindOf decode b

/-- The error a request is refused with after the requests `prior`: data that decodes to no
request is invalid, and a kind requested before is a duplicate. -/
def refusal (prior : List (Nat × SVMInstruction)) (request : Nat × SVMInstruction) :
    Option TransactionError :=
  match kindOf decode request with
  | none => some (.instructionError (UInt8.ofNat request.1) .invalidInstructionData)
  | some kind =>
      if prior.any (kindOf decode · == some kind) then
        some (.duplicateInstruction (UInt8.ofNat request.1))
      else none

/-- The first request a selector picks out, with its position as the `u8` the loop records. -/
def requestOf {α : Type} (select : ComputeBudgetInstruction → Option α)
    (requests : List (Nat × SVMInstruction)) : Option (UInt8 × α) :=
  requests.findSome? fun request =>
    ((decode request.2.data).bind select).map (UInt8.ofNat request.1, ·)

/-- The details once the requests are recorded over `base`: the request of each kind. -/
def withRequests (base : ComputeBudgetInstructionDetails) (requests : List (Nat × SVMInstruction)) :
    ComputeBudgetInstructionDetails :=
  { base with
    requestedComputeUnitLimit := requestOf decode computeUnitLimitUnits requests
    requestedComputeUnitPrice := requestOf decode computeUnitPriceMicroLamports requests
    requestedHeapSize := requestOf decode heapFrameBytes requests
    requestedLoadedAccountsDataSizeLimit := requestOf decode loadedAccountsDataSizeBytes requests }

theorem budgetRequests_cons (ids : BuiltinIds) (start : Nat) (programId : Pubkey)
    (instruction : SVMInstruction) (instructions : List (Pubkey × SVMInstruction)) :
    budgetRequests ids start ((programId, instruction) :: instructions) =
      if programId = ids.computeBudget then
        (start, instruction) :: budgetRequests ids (start + 1) instructions
      else budgetRequests ids (start + 1) instructions := by
  by_cases budget : programId = ids.computeBudget <;>
    simp [budgetRequests, List.zipIdx_cons, budget]

theorem refusal_eq_none_of_accepted {prior rest : List (Nat × SVMInstruction)}
    {request : Nat × SVMInstruction} (accepted : Accepted decode (prior ++ request :: rest)) :
    refusal decode prior request = none := by
  obtain ⟨decoded, distinct⟩ := accepted
  obtain ⟨kind, kinded⟩ := Option.isSome_iff_exists.mp (decoded request (by simp))
  have unseen : prior.any (kindOf decode · == some kind) = false := by
    rw [List.any_eq_false]
    intro earlier member same
    have differ := (List.pairwise_append.mp distinct).2.2 earlier member request (by simp)
    exact differ (by rw [kinded]; simpa using same)
  simp [refusal, kinded, unseen]

theorem accepted_append_of_refusal {prior : List (Nat × SVMInstruction)}
    {request : Nat × SVMInstruction} (accepted : Accepted decode prior)
    (kept : refusal decode prior request = none) : Accepted decode (prior ++ [request]) := by
  obtain ⟨decoded, distinct⟩ := accepted
  unfold refusal at kept
  cases kinded : kindOf decode request with
  | none => simp [kinded] at kept
  | some kind =>
      have unseen : prior.any (kindOf decode · == some kind) = false := by
        simpa [kinded] using kept
      refine ⟨?_, List.pairwise_append.mpr ⟨distinct, List.pairwise_singleton _ _, ?_⟩⟩
      · intro other member
        rcases List.mem_append.mp member with member | member
        · exact decoded other member
        · simp only [List.mem_singleton] at member
          simp [member, kinded]
      · intro earlier member other last same
        simp only [List.mem_singleton] at last
        subst last
        have := List.any_eq_false.mp unseen earlier member
        simp [same, kinded] at this

/-- Requests that are not all accepted have a first refusal, after an accepted prefix. -/
theorem exists_first_refusal (requests : List (Nat × SVMInstruction)) :
    ∀ prior, Accepted decode prior → ¬ Accepted decode (prior ++ requests) →
      ∃ accepted request rest error, requests = accepted ++ request :: rest ∧
        Accepted decode (prior ++ accepted) ∧
        refusal decode (prior ++ accepted) request = some error := by
  induction requests with
  | nil =>
      intro prior accepted refused
      exact absurd (by simpa using accepted) refused
  | cons request requests ih =>
      intro prior accepted refused
      cases kept : refusal decode prior request with
      | some error =>
          exact ⟨[], request, requests, error, rfl, by simpa using accepted, by simpa using kept⟩
      | none =>
          obtain ⟨accepted', request', rest, error, split, prefixAccepted, refused'⟩ :=
            ih (prior ++ [request]) (accepted_append_of_refusal decode accepted kept)
              (by simpa using refused)
          exact ⟨request :: accepted', request', rest, error, by simp [split],
            by simpa using prefixAccepted, by simpa using refused'⟩

theorem requestOf_append {α : Type} (select : ComputeBudgetInstruction → Option α)
    (prior : List (Nat × SVMInstruction)) (request : Nat × SVMInstruction) :
    requestOf decode select (prior ++ [request]) =
      (requestOf decode select prior).or
        (((decode request.2.data).bind select).map (UInt8.ofNat request.1, ·)) := by
  simp [requestOf, List.findSome?_append]

/-- A request of a kind is recorded exactly when an earlier request has that kind. -/
theorem isSome_requestOf {α : Type} {select : ComputeBudgetInstruction → Option α}
    {kind : RequestKind} (selects : Selects select kind) (requests : List (Nat × SVMInstruction)) :
    (requestOf decode select requests).isSome = requests.any (kindOf decode · == some kind) := by
  induction requests with
  | nil => rfl
  | cons request requests ih =>
      rw [requestOf, List.findSome?_cons, List.any_cons, ← ih]
      cases decoded : decode request.2.data with
      | none => simp [kindOf, decoded, requestOf]
      | some instruction =>
          have picked := selects instruction
          cases selected : select instruction <;> simp_all [kindOf, requestOf]

end Requests

/-! ## Recording a request -/

section Process

variable (decode : List UInt8 → Option ComputeBudgetInstruction)

open ComputeBudgetInstructionDetails

theorem refusal_eq_some_iff_of_kind {prior : List (Nat × SVMInstruction)}
    {request : Nat × SVMInstruction} {kind : RequestKind} (kinded : kindOf decode request = some kind)
    {error : TransactionError} :
    refusal decode prior request = some error ↔
      prior.any (kindOf decode · == some kind) = true ∧
        .duplicateInstruction (UInt8.ofNat request.1) = error := by
  unfold refusal
  rw [kinded]
  by_cases seen : prior.any (kindOf decode · == some kind) = true <;> simp [seen]

theorem refusal_eq_none_iff_of_kind {prior : List (Nat × SVMInstruction)}
    {request : Nat × SVMInstruction} {kind : RequestKind} (kinded : kindOf decode request = some kind) :
    refusal decode prior request = none ↔ prior.any (kindOf decode · == some kind) = false := by
  unfold refusal
  rw [kinded]
  by_cases seen : prior.any (kindOf decode · == some kind) = true <;> simp [seen]

/-- `process_instruction` refuses a request with the error `refusal` names. -/
theorem processInstruction_of_refusal (base : ComputeBudgetInstructionDetails)
    {prior : List (Nat × SVMInstruction)} {position : Nat} {instruction : SVMInstruction}
    {error : TransactionError} (refused : refusal decode prior (position, instruction) = some error) :
    (withRequests decode base prior).processInstruction decode (UInt8.ofNat position) instruction =
      .error error := by
  cases decoded : decode instruction.data with
  | none =>
      simp only [refusal, kindOf, decoded, Option.bind_none, Option.some.injEq] at refused
      simp [processInstruction, decoded, refused]
  | some request =>
      -- a kind requested before is recorded in its field
      cases request with
      | unused =>
          simp only [refusal, kindOf, decoded, Option.bind_some, kind, Option.some.injEq] at refused
          simp [processInstruction, decoded, refused]
      | requestHeapFrame bytes =>
          have kinded : kindOf decode (position, instruction) = some .heapFrame := by
            simp [kindOf, decoded, kind]
          obtain ⟨seen, rfl⟩ := (refusal_eq_some_iff_of_kind decode kinded).mp refused
          have recorded := (isSome_requestOf decode selects_heapFrameBytes prior).trans seen
          simp [processInstruction, decoded, withRequests, recorded]
      | setComputeUnitLimit units =>
          have kinded : kindOf decode (position, instruction) = some .computeUnitLimit := by
            simp [kindOf, decoded, kind]
          obtain ⟨seen, rfl⟩ := (refusal_eq_some_iff_of_kind decode kinded).mp refused
          have recorded := (isSome_requestOf decode selects_computeUnitLimitUnits prior).trans seen
          simp [processInstruction, decoded, withRequests, recorded]
      | setComputeUnitPrice microLamports =>
          have kinded : kindOf decode (position, instruction) = some .computeUnitPrice := by
            simp [kindOf, decoded, kind]
          obtain ⟨seen, rfl⟩ := (refusal_eq_some_iff_of_kind decode kinded).mp refused
          have recorded :=
            (isSome_requestOf decode selects_computeUnitPriceMicroLamports prior).trans seen
          simp [processInstruction, decoded, withRequests, recorded]
      | setLoadedAccountsDataSizeLimit bytes =>
          have kinded : kindOf decode (position, instruction) = some .loadedAccountsDataSizeLimit := by
            simp [kindOf, decoded, kind]
          obtain ⟨seen, rfl⟩ := (refusal_eq_some_iff_of_kind decode kinded).mp refused
          have recorded :=
            (isSome_requestOf decode selects_loadedAccountsDataSizeBytes prior).trans seen
          simp [processInstruction, decoded, withRequests, recorded]

/-- `process_instruction` records a request it does not refuse in the field of its kind. -/
theorem processInstruction_of_kept (base : ComputeBudgetInstructionDetails)
    {prior : List (Nat × SVMInstruction)} {position : Nat} {instruction : SVMInstruction}
    (kept : refusal decode prior (position, instruction) = none) :
    (withRequests decode base prior).processInstruction decode (UInt8.ofNat position) instruction =
      .ok (withRequests decode base (prior ++ [(position, instruction)])) := by
  cases decoded : decode instruction.data with
  | none => simp [refusal, kindOf, decoded] at kept
  | some request =>
      -- the field of an unseen kind is empty, and the request fills it; the others stay
      cases request with
      | unused => simp [refusal, kindOf, decoded, kind] at kept
      | requestHeapFrame bytes =>
          have kinded : kindOf decode (position, instruction) = some .heapFrame := by
            simp [kindOf, decoded, kind]
          have unseen := (refusal_eq_none_iff_of_kind decode kinded).mp kept
          have empty := (isSome_requestOf decode selects_heapFrameBytes prior).trans unseen
          simp_all [processInstruction, withRequests, requestOf_append, heapFrameBytes,
            computeUnitLimitUnits, computeUnitPriceMicroLamports, loadedAccountsDataSizeBytes]
      | setComputeUnitLimit units =>
          have kinded : kindOf decode (position, instruction) = some .computeUnitLimit := by
            simp [kindOf, decoded, kind]
          have unseen := (refusal_eq_none_iff_of_kind decode kinded).mp kept
          have empty := (isSome_requestOf decode selects_computeUnitLimitUnits prior).trans unseen
          simp_all [processInstruction, withRequests, requestOf_append, heapFrameBytes,
            computeUnitLimitUnits, computeUnitPriceMicroLamports, loadedAccountsDataSizeBytes]
      | setComputeUnitPrice microLamports =>
          have kinded : kindOf decode (position, instruction) = some .computeUnitPrice := by
            simp [kindOf, decoded, kind]
          have unseen := (refusal_eq_none_iff_of_kind decode kinded).mp kept
          have empty :=
            (isSome_requestOf decode selects_computeUnitPriceMicroLamports prior).trans unseen
          simp_all [processInstruction, withRequests, requestOf_append, heapFrameBytes,
            computeUnitLimitUnits, computeUnitPriceMicroLamports, loadedAccountsDataSizeBytes]
      | setLoadedAccountsDataSizeLimit bytes =>
          have kinded : kindOf decode (position, instruction) = some .loadedAccountsDataSizeLimit := by
            simp [kindOf, decoded, kind]
          have unseen := (refusal_eq_none_iff_of_kind decode kinded).mp kept
          have empty :=
            (isSome_requestOf decode selects_loadedAccountsDataSizeBytes prior).trans unseen
          simp_all [processInstruction, withRequests, requestOf_append, heapFrameBytes,
            computeUnitLimitUnits, computeUnitPriceMicroLamports, loadedAccountsDataSizeBytes]

end Process

/-! ## The first loop: the requests -/

/-- Each instruction names its program by its index into the transaction's static keys. -/
def Keyed (keys : List Pubkey) (instructions : List (Pubkey × SVMInstruction)) : Prop :=
  ∀ pair ∈ instructions, keys[pair.2.programIdIndex.toNat]? = some pair.1

theorem Keyed.tail {keys : List Pubkey} {pair : Pubkey × SVMInstruction}
    {instructions : List (Pubkey × SVMInstruction)} (keyed : Keyed keys (pair :: instructions)) :
    Keyed keys instructions :=
  fun other member => keyed other (List.mem_cons_of_mem _ member)

section Loops

variable (ids : BuiltinIds) (decode : List UInt8 → Option ComputeBudgetInstruction)
  {keys : List Pubkey}

open ComputeBudgetInstructionDetails

/-- The first loop over accepted requests records each, and counts the other instructions. -/
theorem processLoop_of_accepted (fits : keys.length ≤ filterSize.toNat)
    (instructions : List (Pubkey × SVMInstruction)) :
    ∀ (start : Nat) (filter : ComputeBudgetProgramIdFilter) (base : ComputeBudgetInstructionDetails)
      (prior : List (Nat × SVMInstruction)),
      filter.Consistent (checkProgramId ids) keys → Keyed keys instructions →
      Accepted decode (prior ++ budgetRequests ids start instructions) →
      ∃ count, processLoop ids decode start filter (withRequests decode base prior) instructions =
        some (.ok (withRequests decode { base with numNonComputeBudgetInstructions := count }
          (prior ++ budgetRequests ids start instructions))) := by
  induction instructions with
  | nil =>
      intro start filter base prior _ _ _
      exact ⟨base.numNonComputeBudgetInstructions, by simp [processLoop, budgetRequests]⟩
  | cons pair instructions ih =>
      intro start filter base prior consistent keyed accepted
      obtain ⟨programId, instruction⟩ := pair
      have keyedHere : keys[instruction.programIdIndex.toNat]? = some programId :=
        keyed _ List.mem_cons_self
      obtain ⟨after, looked, consistent'⟩ :=
        ProgramFilter.get_of_consistent consistent fits keyedHere
      rw [checkProgramId_eq] at looked
      rw [budgetRequests_cons] at accepted ⊢
      by_cases budget : programId = ids.computeBudget
      · -- a compute-budget instruction records its request
        subst budget
        simp only [if_true] at accepted ⊢
        have kept := refusal_eq_none_of_accepted decode accepted
        obtain ⟨count, loop⟩ := ih (start + 1) after base (prior ++ [(start, instruction)])
          consistent' keyed.tail (by simpa using accepted)
        refine ⟨count, ?_⟩
        simp only [processLoop, isComputeBudgetProgram, looked, beq_self_eq_true,
          processInstruction_of_kept decode base kept]
        simpa using loop
      · -- any other instruction is counted
        rw [if_neg budget] at accepted ⊢
        obtain ⟨count, loop⟩ := ih (start + 1) after
          { base with
            numNonComputeBudgetInstructions :=
              saturatingIncrement base.numNonComputeBudgetInstructions }
          prior consistent' keyed.tail accepted
        refine ⟨count, ?_⟩
        simp only [processLoop, isComputeBudgetProgram, looked, beq_false_of_ne budget]
        exact loop

/-- The first loop stops at the first refused request, with its error. -/
theorem processLoop_of_refused (fits : keys.length ≤ filterSize.toNat)
    (instructions : List (Pubkey × SVMInstruction)) :
    ∀ (start : Nat) (filter : ComputeBudgetProgramIdFilter) (base : ComputeBudgetInstructionDetails)
      (prior accepted : List (Nat × SVMInstruction)) (request : Nat × SVMInstruction)
      (rest : List (Nat × SVMInstruction)) (error : TransactionError),
      filter.Consistent (checkProgramId ids) keys → Keyed keys instructions →
      budgetRequests ids start instructions = accepted ++ request :: rest →
      Accepted decode (prior ++ accepted) →
      refusal decode (prior ++ accepted) request = some error →
      processLoop ids decode start filter (withRequests decode base prior) instructions =
        some (.error error) := by
  induction instructions with
  | nil =>
      intro start filter base prior accepted request rest error _ _ split
      simp [budgetRequests] at split
  | cons pair instructions ih =>
      intro start filter base prior accepted request rest error consistent keyed split
        prefixAccepted refused
      obtain ⟨programId, instruction⟩ := pair
      have keyedHere : keys[instruction.programIdIndex.toNat]? = some programId :=
        keyed _ List.mem_cons_self
      obtain ⟨after, looked, consistent'⟩ :=
        ProgramFilter.get_of_consistent consistent fits keyedHere
      rw [checkProgramId_eq] at looked
      rw [budgetRequests_cons] at split
      by_cases budget : programId = ids.computeBudget
      · subst budget
        simp only [if_true] at split
        cases accepted with
        | nil =>
            -- this instruction's request is the refused one
            simp only [List.nil_append, List.cons.injEq] at split
            obtain ⟨rfl, -⟩ := split
            simp only [List.append_nil] at refused
            simp [processLoop, isComputeBudgetProgram, looked,
              processInstruction_of_refusal decode base refused]
        | cons first accepted =>
            -- this instruction's request is accepted, and the refused one comes later
            simp only [List.cons_append, List.cons.injEq] at split
            obtain ⟨rfl, split⟩ := split
            have kept := refusal_eq_none_of_accepted decode prefixAccepted
            have loop := ih (start + 1) after base (prior ++ [(start, instruction)]) accepted
              request rest error consistent' keyed.tail split (by simpa using prefixAccepted)
              (by simpa using refused)
            simp only [processLoop, isComputeBudgetProgram, looked, beq_self_eq_true,
              processInstruction_of_kept decode base kept]
            exact loop
      · rw [if_neg budget] at split
        have loop := ih (start + 1) after
          { base with
            numNonComputeBudgetInstructions :=
              saturatingIncrement base.numNonComputeBudgetInstructions }
          prior accepted request rest error consistent' keyed.tail split prefixAccepted refused
        simp only [processLoop, isComputeBudgetProgram, looked, beq_false_of_ne budget]
        exact loop

end Loops

/-! ## The second loop: the programs by kind -/

def ProgramKind.isMigratingBuiltin : ProgramKind → Bool
  | .migratingBuiltin _ => true
  | _ => false

@[simp] theorem ProgramKind.isMigratingBuiltin_notBuiltin :
    ProgramKind.notBuiltin.isMigratingBuiltin = false := rfl

@[simp] theorem ProgramKind.isMigratingBuiltin_builtin :
    ProgramKind.builtin.isMigratingBuiltin = false := rfl

@[simp] theorem ProgramKind.isMigratingBuiltin_migratingBuiltin (index : Nat) :
    (ProgramKind.migratingBuiltin index).isMigratingBuiltin = true := rfl

section Counts

variable (ids : BuiltinIds) {keys : List Pubkey}

open ComputeBudgetInstructionDetails

/-- The only migrating builtin is the stake program, counted at index zero. -/
theorem checkProgramKind_of_migrating {programId : Pubkey} {index : Nat}
    (found : checkProgramKind ids programId = .migratingBuiltin index) :
    index = 0 ∧
      getBuiltinCost ids programId = some (.migrating ids.migrateStakeProgramToCoreBpf 0) := by
  rw [checkProgramKind_eq] at found
  cases cost : getBuiltinCost ids programId with
  | none => simp [cost, kindOfCost] at found
  | some cost' =>
      cases cost' with
      | notMigrating => simp [cost, kindOfCost] at found
      | migrating feature position =>
          obtain ⟨rfl, rfl⟩ := getBuiltinCost_of_migrating ids cost
          simp only [cost, kindOfCost, ProgramKind.migratingBuiltin.injEq] at found
          exact ⟨found.symm, rfl⟩

/-- The second loop counts the instructions of each kind of program, saturating at `u16::MAX`;
it never indexes past the one migrating counter. -/
theorem countLoop_counts (fits : keys.length ≤ filterSize.toNat)
    (instructions : List (Pubkey × SVMInstruction)) :
    ∀ (filter : BuiltinProgramsFilter) (details : ComputeBudgetInstructionDetails) (stake : UInt16),
      filter.Consistent (checkProgramKind ids) keys → Keyed keys instructions →
      details.migratingBuiltinFeatureCounters = [stake] →
      ∃ builtin notBuiltin migrating : UInt16,
        countLoop ids filter details instructions = some { details with
          numNonMigratableBuiltinInstructions := builtin
          numNonBuiltinInstructions := notBuiltin
          migratingBuiltinFeatureCounters := [migrating] } ∧
        builtin.toNat = min (details.numNonMigratableBuiltinInstructions.toNat +
          instructions.countP (checkProgramKind ids ·.1 == .builtin)) (2 ^ 16 - 1) ∧
        notBuiltin.toNat = min (details.numNonBuiltinInstructions.toNat +
          instructions.countP (checkProgramKind ids ·.1 == .notBuiltin)) (2 ^ 16 - 1) ∧
        migrating.toNat = min (stake.toNat +
          instructions.countP fun pair => (checkProgramKind ids pair.1).isMigratingBuiltin)
          (2 ^ 16 - 1) := by
  induction instructions with
  | nil =>
      intro filter details stake _ _ counters
      refine ⟨details.numNonMigratableBuiltinInstructions, details.numNonBuiltinInstructions, stake,
        ?_, ?_, ?_, ?_⟩
      · rw [← counters]
        rfl
      · have := details.numNonMigratableBuiltinInstructions.toNat_lt
        simp only [List.countP_nil]
        omega
      · have := details.numNonBuiltinInstructions.toNat_lt
        simp only [List.countP_nil]
        omega
      · have := stake.toNat_lt
        simp only [List.countP_nil]
        omega
  | cons pair instructions ih =>
      intro filter details stake consistent keyed counters
      obtain ⟨programId, instruction⟩ := pair
      have keyedHere : keys[instruction.programIdIndex.toNat]? = some programId :=
        keyed _ List.mem_cons_self
      obtain ⟨after, looked, consistent'⟩ :=
        ProgramFilter.get_of_consistent consistent fits keyedHere
      cases kind : checkProgramKind ids programId with
      | notBuiltin =>
          obtain ⟨builtin, notBuiltin, migrating, loop, counted⟩ := ih after
            { details with
              numNonBuiltinInstructions := saturatingIncrement details.numNonBuiltinInstructions }
            stake consistent' keyed.tail counters
          refine ⟨builtin, notBuiltin, migrating, ?_, ?_⟩
          · simp only [countLoop, getProgramKind, looked, kind]
            exact loop
          · simp only [toNat_saturatingIncrement] at counted
            have other : (ProgramKind.notBuiltin == ProgramKind.builtin) = false := rfl
            simp only [List.countP_cons, kind, other, beq_self_eq_true,
              ProgramKind.isMigratingBuiltin_notBuiltin,
              Bool.false_eq_true, if_false, if_true, Nat.add_zero]
            refine ⟨counted.1, ?_, counted.2.2⟩
            rw [counted.2.1, min_saturated_succ]
      | builtin =>
          obtain ⟨builtin, notBuiltin, migrating, loop, counted⟩ := ih after
            { details with
              numNonMigratableBuiltinInstructions :=
                saturatingIncrement details.numNonMigratableBuiltinInstructions }
            stake consistent' keyed.tail counters
          refine ⟨builtin, notBuiltin, migrating, ?_, ?_⟩
          · simp only [countLoop, getProgramKind, looked, kind]
            exact loop
          · simp only [toNat_saturatingIncrement] at counted
            have other : (ProgramKind.builtin == ProgramKind.notBuiltin) = false := rfl
            simp only [List.countP_cons, kind, other, beq_self_eq_true,
              ProgramKind.isMigratingBuiltin_builtin,
              Bool.false_eq_true, if_false, if_true, Nat.add_zero]
            refine ⟨?_, counted.2.1, counted.2.2⟩
            rw [counted.1, min_saturated_succ]
      | migratingBuiltin index =>
          obtain ⟨rfl, -⟩ := checkProgramKind_of_migrating ids kind
          obtain ⟨builtin, notBuiltin, migrating, loop, counted⟩ := ih after
            { details with migratingBuiltinFeatureCounters := [saturatingIncrement stake] }
            (saturatingIncrement stake) consistent' keyed.tail rfl
          refine ⟨builtin, notBuiltin, migrating, ?_, ?_⟩
          · simp only [countLoop, getProgramKind, looked, kind, counters]
            exact loop
          · simp only [toNat_saturatingIncrement] at counted
            have other : (ProgramKind.migratingBuiltin 0 == ProgramKind.builtin) = false := rfl
            have other' : (ProgramKind.migratingBuiltin 0 == ProgramKind.notBuiltin) = false := rfl
            simp only [List.countP_cons, kind, other, other',
              ProgramKind.isMigratingBuiltin_migratingBuiltin,
              Bool.false_eq_true, if_false, if_true, Nat.add_zero]
            refine ⟨counted.1, counted.2.1, ?_⟩
            rw [counted.2.2, min_saturated_succ]

end Counts

/-! ## The default compute-unit limit -/

section Default

variable (ids : BuiltinIds) (isActive : Pubkey → Bool)

/-- The compute units the default limit allows an instruction of a program: the builtin
allocation for a builtin not migrated to BPF, the default instruction limit for any other. -/
def defaultUnits (programId : Pubkey) : Nat :=
  match getBuiltinCost ids programId with
  | none => defaultInstructionComputeUnitLimit.toNat
  | some .notMigrating => maxBuiltinAllocationComputeUnitLimit.toNat
  | some (.migrating feature _) =>
      if isActive feature then defaultInstructionComputeUnitLimit.toNat
      else maxBuiltinAllocationComputeUnitLimit.toNat

/-- The default compute-unit limit of a transaction that requests none: the units of its
instructions, at most `MAX_COMPUTE_UNIT_LIMIT`. -/
def defaultComputeUnitLimit (instructions : List (Pubkey × SVMInstruction)) : Nat :=
  min (instructions.map (defaultUnits ids isActive ·.1)).sum maxComputeUnitLimit.toNat

theorem toNat_maxBuiltinAllocationComputeUnitLimit :
    maxBuiltinAllocationComputeUnitLimit.toNat = 3000 := rfl

theorem toNat_defaultInstructionComputeUnitLimit :
    defaultInstructionComputeUnitLimit.toNat = 200000 := rfl

theorem toNat_maxComputeUnitLimit : maxComputeUnitLimit.toNat = 1400000 := rfl

open ComputeBudgetInstructionDetails

/-- The saturating `u32` sum of the two allocations, capped at `MAX_COMPUTE_UNIT_LIMIT`, is the
capped exact sum: the counts are `u16`s, too small for the sums to wrap below the cap. -/
theorem min_allocations (builtin notMigrated other migrated : UInt16) :
    min (UInt32.saturatingAdd
        (UInt32.saturatingMul (UInt32.saturatingAdd builtin.toUInt32 notMigrated.toUInt32)
          maxBuiltinAllocationComputeUnitLimit)
        (UInt32.saturatingMul (UInt32.saturatingAdd other.toUInt32 migrated.toUInt32)
          defaultInstructionComputeUnitLimit)) maxComputeUnitLimit =
      UInt32.ofNat (min (3000 * (builtin.toNat + notMigrated.toNat) +
        200000 * (other.toNat + migrated.toNat)) 1400000) := by
  apply UInt32.toNat_inj.mp
  have := builtin.toNat_lt
  have := notMigrated.toNat_lt
  have := other.toNat_lt
  have := migrated.toNat_lt
  rw [UInt32.toNat_min, UInt32.toNat_ofNat', UInt32.toNat_saturatingAdd,
    UInt32.toNat_saturatingMul, UInt32.toNat_saturatingMul, UInt32.toNat_saturatingAdd,
    UInt32.toNat_saturatingAdd, UInt16.toNat_toUInt32, UInt16.toNat_toUInt32,
    UInt16.toNat_toUInt32, UInt16.toNat_toUInt32]
  show min (min (min (min _ _ * 3000) _ + min (min _ _ * 200000) _) _) 1400000 = _
  omega

/-- `calculate_default_compute_unit_limit` with its one counter, the stake program's: those
instructions are charged as builtins until the migration feature is active. -/
theorem min_calculateDefaultComputeUnitLimit (self : ComputeBudgetInstructionDetails)
    (stake : UInt16) (counters : self.migratingBuiltinFeatureCounters = [stake]) :
    (calculateDefaultComputeUnitLimit ids isActive self).map (min · maxComputeUnitLimit) =
      some (UInt32.ofNat (min
        (3000 * (self.numNonMigratableBuiltinInstructions.toNat +
            if isActive ids.migrateStakeProgramToCoreBpf then 0 else stake.toNat) +
          200000 * (self.numNonBuiltinInstructions.toNat +
            if isActive ids.migrateStakeProgramToCoreBpf then stake.toNat else 0))
        1400000)) := by
  unfold calculateDefaultComputeUnitLimit
  rw [counters]
  simp only [List.zipIdx_cons, List.zipIdx_nil, List.foldlM_cons, List.foldlM_nil,
    getMigrationFeatureId_zero]
  -- the feature is only looked up for a counter above zero, which changes nothing at zero
  by_cases positive : stake > 0
  · cases active : isActive ids.migrateStakeProgramToCoreBpf <;>
      simp only [positive, active, ↓reduceIte, Option.map_some, Option.pure_def,
        Option.bind_eq_bind, Option.bind_some, zero_add, Bool.false_eq_true, min_allocations] <;>
      simp
  · have zero : stake.toNat = 0 := by
      simp only [gt_iff_lt, UInt16.lt_iff_toNat_lt, UInt16.toNat_zero] at positive
      omega
    simp only [positive, ↓reduceIte, Option.map_some, Option.pure_def, Option.bind_eq_bind,
      Option.bind_some, zero_add, Bool.false_eq_true, min_allocations]
    simp [zero]

/-- The units of the instructions, by the kind the builtin filter gives their programs. -/
theorem sum_defaultUnits (instructions : List (Pubkey × SVMInstruction)) :
    (instructions.map (defaultUnits ids isActive ·.1)).sum =
      3000 * (instructions.countP (checkProgramKind ids ·.1 == .builtin) +
          if isActive ids.migrateStakeProgramToCoreBpf then 0
          else instructions.countP fun pair => (checkProgramKind ids pair.1).isMigratingBuiltin) +
        200000 * (instructions.countP (checkProgramKind ids ·.1 == .notBuiltin) +
          if isActive ids.migrateStakeProgramToCoreBpf then
            instructions.countP fun pair => (checkProgramKind ids pair.1).isMigratingBuiltin
          else 0) := by
  induction instructions with
  | nil => simp
  | cons pair instructions ih =>
      obtain ⟨programId, instruction⟩ := pair
      rw [List.map_cons, List.sum_cons, ih]
      have kind := checkProgramKind_eq ids programId
      cases cost : getBuiltinCost ids programId with
      | none =>
          simp only [cost, kindOfCost] at kind
          cases active : isActive ids.migrateStakeProgramToCoreBpf <;>
            simp [kind, defaultUnits, cost, toNat_defaultInstructionComputeUnitLimit] <;> omega
      | some cost' =>
          cases cost' with
          | notMigrating =>
              simp only [cost, kindOfCost] at kind
              cases active : isActive ids.migrateStakeProgramToCoreBpf <;>
                simp [kind, defaultUnits, cost, toNat_maxBuiltinAllocationComputeUnitLimit] <;> omega
          | migrating feature position =>
              obtain ⟨rfl, rfl⟩ := getBuiltinCost_of_migrating ids cost
              simp only [cost, kindOfCost] at kind
              -- the stake program's instructions are charged by the state of its migration
              cases active : isActive ids.migrateStakeProgramToCoreBpf <;>
                simp [kind, defaultUnits, cost, active, toNat_maxBuiltinAllocationComputeUnitLimit,
                  toNat_defaultInstructionComputeUnitLimit] <;> omega

end Default

/-! ## The limits -/

section Limits

variable (ids : BuiltinIds) (decode : List UInt8 → Option ComputeBudgetInstruction)
  (isActive : Pubkey → Bool)

open ComputeBudgetInstructionDetails

/-- The limits the requests ask for, `defaultLimit` being the compute-unit limit when none is
requested: a heap frame out of range or not a whole number of KiB is refused at its request,
then a zero limit on the loaded accounts' data. -/
def limitsOf (requests : List (Nat × SVMInstruction)) (defaultLimit : UInt32) :
    Except TransactionError ComputeBudgetLimits := do
  let heapBytes ← match requestOf decode heapFrameBytes requests with
    | some (index, bytes) =>
        if sanitizeRequestedHeapSize bytes then pure bytes
        else throw (.instructionError index .invalidInstructionData)
    | none => pure minHeapFrameBytes
  let loadedBytes : { bytes : UInt32 // bytes ≠ 0 } ←
    match requestOf decode loadedAccountsDataSizeBytes requests with
    | some (_, bytes) =>
        if nonzero : bytes ≠ 0 then
          pure ⟨min bytes maxLoadedAccountsDataSizeBytes,
            min_maxLoadedAccountsDataSizeBytes_ne_zero nonzero⟩
        else throw .invalidLoadedAccountsDataSizeLimit
    | none => pure maxLoadedAccountsBytes
  pure
    { updatedHeapBytes := min heapBytes maxHeapFrameBytes
      computeUnitLimit := match requestOf decode computeUnitLimitUnits requests with
        | some (_, units) => min units maxComputeUnitLimit
        | none => defaultLimit
      computeUnitPrice := match requestOf decode computeUnitPriceMicroLamports requests with
        | some (_, microLamports) => microLamports
        | none => 0
      loadedAccountsBytes := loadedBytes }

/-- The reference result of processing a transaction's compute-budget instructions once they
are accepted: the limits its requests ask for, with the default compute-unit limit. -/
def referenceLimits (instructions : List (Pubkey × SVMInstruction)) :
    Except TransactionError ComputeBudgetLimits :=
  limitsOf decode (budgetRequests ids 0 instructions)
    (UInt32.ofNat (defaultComputeUnitLimit ids isActive instructions))

/-- `sanitize_and_convert_to_compute_budget_limits` gives the limits the recorded requests ask
for; it computes the default only when no compute-unit limit is requested. -/
theorem sanitizeAndConvertToComputeBudgetLimits_withRequests (base : ComputeBudgetInstructionDetails)
    (requests : List (Nat × SVMInstruction)) (defaultLimit : UInt32)
    (defaulted : requestOf decode computeUnitLimitUnits requests = none →
      (calculateDefaultComputeUnitLimit ids isActive (withRequests decode base requests)).map
        (min · maxComputeUnitLimit) = some defaultLimit) :
    (withRequests decode base requests).sanitizeAndConvertToComputeBudgetLimits ids isActive =
      some (limitsOf decode requests defaultLimit) := by
  have fieldLimit : (withRequests decode base requests).requestedComputeUnitLimit =
      requestOf decode computeUnitLimitUnits requests := rfl
  have fieldPrice : (withRequests decode base requests).requestedComputeUnitPrice =
      requestOf decode computeUnitPriceMicroLamports requests := rfl
  have fieldHeap : (withRequests decode base requests).requestedHeapSize =
      requestOf decode heapFrameBytes requests := rfl
  have fieldLoaded : (withRequests decode base requests).requestedLoadedAccountsDataSizeLimit =
      requestOf decode loadedAccountsDataSizeBytes requests := rfl
  unfold sanitizeAndConvertToComputeBudgetLimits limitsOf
  simp only [fieldLimit, fieldPrice, fieldHeap, fieldLoaded]
  cases limit : requestOf decode computeUnitLimitUnits requests with
  | none =>
      obtain ⟨calculated, computed, capped⟩ := Option.map_eq_some_iff.mp (defaulted limit)
      rcases heap : requestOf decode heapFrameBytes requests with _ | ⟨index, bytes⟩ <;>
        rcases loaded : requestOf decode loadedAccountsDataSizeBytes requests with
          _ | ⟨loadedIndex, loadedBytes⟩ <;>
        simp [computed, capped] <;> (try split_ifs) <;> rfl
  | some request =>
      rcases heap : requestOf decode heapFrameBytes requests with _ | ⟨index, bytes⟩ <;>
        rcases loaded : requestOf decode loadedAccountsDataSizeBytes requests with
          _ | ⟨loadedIndex, loadedBytes⟩ <;>
        simp <;> (try split_ifs) <;> rfl

end Limits

/-! ## Processing a transaction -/

section Processing

variable (ids : BuiltinIds) (decode : List UInt8 → Option ComputeBudgetInstruction)
  (isActive : Pubkey → Bool) {keys : List Pubkey}

open ComputeBudgetInstructionDetails

theorem withRequests_default_nil : withRequests decode (default ids) [] = default ids := rfl

/-- `try_from` over accepted requests records them and, when no compute-unit limit is requested,
counts the programs so that the default limit comes out as `defaultComputeUnitLimit`. -/
theorem tryFrom_of_accepted (fits : keys.length ≤ filterSize.toNat)
    {instructions : List (Pubkey × SVMInstruction)} (keyed : Keyed keys instructions)
    (accepted : Accepted decode (budgetRequests ids 0 instructions)) :
    ∃ base, tryFrom ids decode instructions =
        some (.ok (withRequests decode base (budgetRequests ids 0 instructions))) ∧
      (requestOf decode computeUnitLimitUnits (budgetRequests ids 0 instructions) = none →
        (calculateDefaultComputeUnitLimit ids isActive
            (withRequests decode base (budgetRequests ids 0 instructions))).map
          (min · maxComputeUnitLimit) =
        some (UInt32.ofNat (defaultComputeUnitLimit ids isActive instructions))) := by
  obtain ⟨count, recorded⟩ := processLoop_of_accepted ids decode fits instructions 0
    ProgramFilter.new (default ids) [] (ProgramFilter.consistent_new _ _) keyed
    (by simpa using accepted)
  rw [List.nil_append, withRequests_default_nil] at recorded
  unfold tryFrom
  rw [recorded]
  cases limit : requestOf decode computeUnitLimitUnits (budgetRequests ids 0 instructions) with
  | some request =>
      -- a requested limit skips the second loop
      refine ⟨{ default ids with numNonComputeBudgetInstructions := count }, ?_, nofun⟩
      have requested : (withRequests decode
          { default ids with numNonComputeBudgetInstructions := count }
          (budgetRequests ids 0 instructions)).requestedComputeUnitLimit.isNone = false := by
        simp [withRequests, limit]
      simp [requested]
  | none =>
      obtain ⟨builtin, notBuiltin, migrating, counted, countedBuiltin, countedNotBuiltin,
          countedMigrating⟩ :=
        countLoop_counts ids fits instructions ProgramFilter.new
          (withRequests decode { default ids with numNonComputeBudgetInstructions := count }
            (budgetRequests ids 0 instructions)) 0 (ProgramFilter.consistent_new _ _) keyed rfl
      refine ⟨{ default ids with
          numNonComputeBudgetInstructions := count
          numNonMigratableBuiltinInstructions := builtin
          numNonBuiltinInstructions := notBuiltin
          migratingBuiltinFeatureCounters := [migrating] }, ?_, fun _ => ?_⟩
      · have unrequested : (withRequests decode
            { default ids with numNonComputeBudgetInstructions := count }
            (budgetRequests ids 0 instructions)).requestedComputeUnitLimit.isNone = true := by
          simp [withRequests, limit]
        simp only [unrequested, if_true, counted, Option.map_some]
        rfl
      · rw [min_calculateDefaultComputeUnitLimit ids isActive _ migrating rfl,
          defaultComputeUnitLimit, sum_defaultUnits]
        simp only [withRequests, ComputeBudgetInstructionDetails.default, UInt16.toNat_zero,
          Nat.zero_add] at countedBuiltin countedNotBuiltin countedMigrating
        -- the counts saturate only past what the cap already cuts
        cases isActive ids.migrateStakeProgramToCoreBpf <;>
          simp only [withRequests, toNat_maxComputeUnitLimit, Bool.false_eq_true, if_false,
            if_true, Nat.add_zero] <;>
          refine congrArg (fun limit => some (UInt32.ofNat limit)) ?_ <;> omega

/-- Accepted requests give the reference limits. -/
theorem processComputeBudgetInstructions_of_accepted (fits : keys.length ≤ filterSize.toNat)
    {instructions : List (Pubkey × SVMInstruction)} (keyed : Keyed keys instructions)
    (accepted : Accepted decode (budgetRequests ids 0 instructions)) :
    processComputeBudgetInstructions ids decode isActive instructions =
      some (referenceLimits ids decode isActive instructions) := by
  obtain ⟨base, tried, defaulted⟩ := tryFrom_of_accepted ids decode isActive fits keyed accepted
  unfold processComputeBudgetInstructions
  rw [tried]
  exact sanitizeAndConvertToComputeBudgetLimits_withRequests ids decode isActive base _ _ defaulted

/-- A refused request, after accepted ones, gives its error. -/
theorem processComputeBudgetInstructions_of_refused (fits : keys.length ≤ filterSize.toNat)
    {instructions : List (Pubkey × SVMInstruction)} (keyed : Keyed keys instructions)
    {accepted rest : List (Nat × SVMInstruction)} {request : Nat × SVMInstruction}
    {error : TransactionError}
    (split : budgetRequests ids 0 instructions = accepted ++ request :: rest)
    (prefixAccepted : Accepted decode accepted)
    (refused : refusal decode accepted request = some error) :
    processComputeBudgetInstructions ids decode isActive instructions = some (.error error) := by
  have loop := processLoop_of_refused ids decode fits instructions 0 ProgramFilter.new
    (default ids) [] accepted request rest error (ProgramFilter.consistent_new _ _) keyed split
    (by simpa using prefixAccepted) (by simpa using refused)
  rw [withRequests_default_nil] at loop
  unfold processComputeBudgetInstructions tryFrom
  rw [loop]

end Processing

theorem processComputeBudgetInstructions_matches_reference (ids : BuiltinIds)
    (decode : List UInt8 → Option ComputeBudgetInstruction) (isActive : Pubkey → Bool)
    (keys : List Pubkey) (instructions : List (Pubkey × SVMInstruction))
    (fits : keys.length ≤ filterSize.toNat)
    (keyed : ∀ pair ∈ instructions, keys[pair.2.programIdIndex.toNat]? = some pair.1) :
    ∃ result, processComputeBudgetInstructions ids decode isActive instructions = some result ∧
      (∀ accepted position instruction rest,
        budgetRequests ids 0 instructions = accepted ++ (position, instruction) :: rest →
        Accepted decode accepted →
        (kindOf decode (position, instruction) = none →
          result = .error (.instructionError (UInt8.ofNat position) .invalidInstructionData)) ∧
        (∀ earlier ∈ accepted, kindOf decode earlier = kindOf decode (position, instruction) →
          result = .error (.duplicateInstruction (UInt8.ofNat position)))) ∧
      (Accepted decode (budgetRequests ids 0 instructions) →
        result = referenceLimits ids decode isActive instructions) := by
  -- each way a request is refused names the error `refusal` gives
  have invalid : ∀ {prior : List (Nat × SVMInstruction)} {position instruction},
      kindOf decode (position, instruction) = none →
      refusal decode prior (position, instruction) =
        some (.instructionError (UInt8.ofNat position) .invalidInstructionData) := by
    intro prior position instruction unknown
    simp [refusal, unknown]
  have duplicate : ∀ {prior : List (Nat × SVMInstruction)} {position instruction},
      Accepted decode prior →
      ∀ earlier ∈ prior, kindOf decode earlier = kindOf decode (position, instruction) →
      refusal decode prior (position, instruction) =
        some (.duplicateInstruction (UInt8.ofNat position)) := by
    intro prior position instruction prefixAccepted earlier member same
    obtain ⟨kind, kinded⟩ := Option.isSome_iff_exists.mp (prefixAccepted.1 earlier member)
    refine (refusal_eq_some_iff_of_kind decode (same ▸ kinded)).mpr ⟨?_, rfl⟩
    exact List.any_eq_true.mpr ⟨earlier, member, by simp [kinded]⟩
  by_cases all : Accepted decode (budgetRequests ids 0 instructions)
  · -- no request is refused, and the result is the reference's
    refine ⟨_, processComputeBudgetInstructions_of_accepted ids decode isActive fits keyed all,
      ?_, fun _ => rfl⟩
    intro accepted position instruction rest split prefixAccepted
    have kept := refusal_eq_none_of_accepted decode (split ▸ all)
    exact ⟨fun unknown => by simp [invalid unknown] at kept,
      fun earlier member same => by simp [duplicate prefixAccepted earlier member same] at kept⟩
  · -- the first refused request decides the error
    obtain ⟨accepted, request, rest, error, split, prefixAccepted, refused⟩ :=
      exists_first_refusal decode (budgetRequests ids 0 instructions) []
        ⟨by simp, List.Pairwise.nil⟩ (by simpa using all)
    have processed := processComputeBudgetInstructions_of_refused ids decode isActive fits keyed
      split (by simpa using prefixAccepted) (by simpa using refused)
    refine ⟨_, processed, ?_, fun accepted => absurd accepted all⟩
    intro accepted' position instruction rest' split' prefixAccepted'
    constructor
    · intro unknown
      have other := processComputeBudgetInstructions_of_refused ids decode isActive fits keyed
        split' prefixAccepted' (invalid unknown)
      exact Except.error.inj (Option.some.inj (processed.symm.trans other)) ▸ rfl
    · intro earlier member same
      have other := processComputeBudgetInstructions_of_refused ids decode isActive fits keyed
        split' prefixAccepted' (duplicate prefixAccepted' earlier member same)
      exact Except.error.inj (Option.some.inj (processed.symm.trans other)) ▸ rfl

theorem processComputeBudgetInstructions_matches_reference_of_repeated_limit :
    let ids : BuiltinIds := ⟨.replicate 32 1, .replicate 32 2, .replicate 32 3, .replicate 32 4,
      .replicate 32 5, .replicate 32 6, .replicate 32 7, .replicate 32 8, .replicate 32 9,
      .replicate 32 10, .replicate 32 11⟩
    let decode : List UInt8 → Option ComputeBudgetInstruction := fun data =>
      if data = [2] then some (.setComputeUnitLimit 1000) else none
    let keys : List Pubkey := [ids.computeBudget, ids.systemProgram]
    let instructions : List (Pubkey × SVMInstruction) :=
      [(ids.computeBudget, ⟨0, [], [2]⟩), (ids.systemProgram, ⟨1, [], []⟩),
        (ids.computeBudget, ⟨0, [], [2]⟩)]
    keys.length ≤ filterSize.toNat ∧
      (∀ pair ∈ instructions, keys[pair.2.programIdIndex.toNat]? = some pair.1) ∧
      processComputeBudgetInstructions ids decode (fun _ => false) instructions =
        some (.error (.duplicateInstruction 2)) := by
  intro ids decode keys instructions
  have fits : keys.length ≤ filterSize.toNat := by decide
  have keyed : ∀ pair ∈ instructions, keys[pair.2.programIdIndex.toNat]? = some pair.1 := by
    simp [keys, instructions]
  obtain ⟨result, processed, refusedAt, -⟩ :=
    processComputeBudgetInstructions_matches_reference ids decode (fun _ => false) keys
      instructions fits keyed
  have distinct : ids.systemProgram ≠ ids.computeBudget := by decide
  have split : budgetRequests ids 0 instructions =
      [(0, ⟨0, [], [2]⟩)] ++ (2, ⟨0, [], [2]⟩) :: [] := by
    simp [budgetRequests, instructions, distinct]
  have first : Accepted decode [(0, ⟨0, [], [2]⟩)] := by
    simp [Accepted, kindOf, decode, kind]
  have repeated := (refusedAt _ _ _ _ split first).2 (0, ⟨0, [], [2]⟩) (by simp) rfl
  exact ⟨fits, keyed, processed.trans (congrArg some repeated)⟩

end Validator.ComputeBudget
