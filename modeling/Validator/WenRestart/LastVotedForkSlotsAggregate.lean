import Mathlib.Algebra.GroupWithZero.Nat
import Validator.Data.FirstBySender
import Validator.Data.ListOrder
import Validator.Data.LoopFrame

namespace Validator.WenRestart

open Validator.Data

/-! # Aggregating the last voted forks

During a wen restart every validator gossips the slots of its last voted fork.  The aggregate
keeps the first message of each other validator; it adds the sender's stake, in the epoch of
each slot, to the slot's entry of `slots_stake_map`, and to the active stake of the epochs in
`epoch_info_vec`.  What it reads of the root bank is a `RootBank`.
-/

def u64Max : Nat := 2 ^ 64 - 1

def saturatingAdd (a b : Nat) : Nat :=
  min (a + b) u64Max

/-- `checked_add(..).unwrap()`: `none` is the panic. -/
def checkedAdd (a b : Nat) : Option Nat :=
  if a + b ≤ u64Max then some (a + b) else none

structure RootBank (Pubkey : Type) where
  slot : Nat
  epoch : Nat
  /-- `epoch_schedule().get_epoch`, the epoch `get_epoch_and_slot_index` also gives. -/
  getEpoch : Nat → Nat
  epochNodeIdToStake : Nat → Pubkey → Option Nat
  epochTotalStake : Nat → Option Nat

/-- `RestartLastVotedForkSlots`, with its slots decoded in ascending order. -/
@[ext]
structure RestartLastVotedForkSlots (Pubkey Hash : Type) where
  sender : Pubkey
  wallclock : Nat
  slots : List Nat
  sorted : slots.Pairwise (· < ·)
  lastVotedSlot : Nat
  lastVotedHash : Hash
  shredVersion : Nat

-- two messages are equal when their data fields are; the proof that the slots are sorted
-- is not compared
instance {Pubkey Hash : Type} [DecidableEq Pubkey] [DecidableEq Hash] :
    DecidableEq (RestartLastVotedForkSlots Pubkey Hash) :=
  fun _ _ => decidable_of_iff' _ RestartLastVotedForkSlots.ext_iff

/-- `to_slots`: the slots at or above `min_slot`. -/
def RestartLastVotedForkSlots.toSlots {Pubkey Hash : Type}
    (self : RestartLastVotedForkSlots Pubkey Hash) (minSlot : Nat) : List Nat :=
  self.slots.filter (minSlot ≤ ·)

structure LastVotedForkSlotsRecord (Hash : Type) where
  lastVotedForkSlots : List Nat
  lastVoteBankhash : Hash
  shredVersion : Nat
  wallclock : Nat
deriving DecidableEq

inductive LastVotedForkSlotsAggregateResult (Pubkey Hash : Type) where
  | alreadyExists
  | differentVersionExists (old new : RestartLastVotedForkSlots Pubkey Hash)
  | inserted (record : LastVotedForkSlotsRecord Hash)
deriving DecidableEq

structure LastVotedForkSlotsEpochInfo where
  epoch : Nat
  totalStake : Nat
  activelyVotingStake : Nat
  activelyVotingForThisEpochStake : Nat
deriving DecidableEq, Repr

structure LastVotedForkSlotsAggregate (Pubkey Hash : Type) where
  epochInfoVec : List LastVotedForkSlotsEpochInfo
  lastVotedForkSlots : Pubkey → Option (RestartLastVotedForkSlots Pubkey Hash)
  myPubkey : Pubkey
  /-- `(total_stake as f64 * repair_threshold) as u64`, for the total stake of an epoch. -/
  repairThresholdStake : Nat → Nat
  rootBank : RootBank Pubkey
  slotsStakeMap : Nat → Option Nat
  /-- A `BTreeSet<Slot>`, as its ascending list. -/
  slotsToRepair : List Nat

namespace LastVotedForkSlotsAggregate

variable {Pubkey Hash : Type} [DecidableEq Pubkey]

/-- One turn of the loop of `new` over the local validator's own slots. -/
def insertMySlot (rootBank : RootBank Pubkey) (myPubkey : Pubkey) (map : Nat → Option Nat)
    (slot : Nat) : Nat → Option Nat :=
  if rootBank.slot ≤ slot then
    match rootBank.epochNodeIdToStake (rootBank.getEpoch slot) myPubkey with
    | some senderStake => Function.update map slot (some senderStake)
    | none => map
  else map

/-- The stake of the local validator on its own slots at or above the root. -/
def mySlotsStakeMap (rootBank : RootBank Pubkey) (myLastVotedForkSlots : List Nat)
    (myPubkey : Pubkey) : Nat → Option Nat :=
  myLastVotedForkSlots.foldl (insertMySlot rootBank myPubkey) fun _ => none

def myEpochInfo (rootBank : RootBank Pubkey) (myPubkey : Pubkey) (myLastVoteEpoch epoch : Nat) :
    Option LastVotedForkSlotsEpochInfo := do
  let totalStake ← rootBank.epochTotalStake epoch
  let myStake := (rootBank.epochNodeIdToStake epoch myPubkey).getD 0
  pure ⟨epoch, totalStake, myStake, if epoch ≤ myLastVoteEpoch then myStake else 0⟩

/-- `new`: `none` is one of its panics, on an empty fork, an epoch without a total stake or a
root epoch too large. -/
def new (rootBank : RootBank Pubkey) (repairThresholdStake : Nat → Nat)
    (myLastVotedForkSlots : List Nat) (myPubkey : Pubkey) :
    Option (LastVotedForkSlotsAggregate Pubkey Hash) := do
  let myLastVotedSlot ← myLastVotedForkSlots.max?
  let myLastVoteEpoch := rootBank.getEpoch myLastVotedSlot
  if u64Max < rootBank.epoch + 2 then none
  else
    let epochInfoVec ← (List.range' rootBank.epoch 2).mapM
      (myEpochInfo rootBank myPubkey myLastVoteEpoch)
    pure
      { epochInfoVec := epochInfoVec
        lastVotedForkSlots := fun _ => none
        myPubkey := myPubkey
        repairThresholdStake := repairThresholdStake
        rootBank := rootBank
        slotsStakeMap := mySlotsStakeMap rootBank myLastVotedForkSlots myPubkey
        slotsToRepair := [] }

/-- One turn of the loop of `insert_message`. -/
def insertSlot (sender : Pubkey) (self : LastVotedForkSlotsAggregate Pubkey Hash) (slot : Nat) :
    Option (LastVotedForkSlotsAggregate Pubkey Hash) :=
  let epoch := self.rootBank.getEpoch slot
  let entry := (self.slotsStakeMap slot).getD 0
  match self.rootBank.epochNodeIdToStake epoch sender with
  | none => some { self with slotsStakeMap := Function.update self.slotsStakeMap slot (some entry) }
  | some senderStake =>
      let entry := saturatingAdd entry senderStake
      let self := { self with slotsStakeMap := Function.update self.slotsStakeMap slot (some entry) }
      match self.rootBank.epochTotalStake epoch with
      | none => none
      | some totalStake =>
          if self.repairThresholdStake totalStake ≤ entry then
            some { self with slotsToRepair := insertSorted slot self.slotsToRepair }
          else some self

def insertMessage (self : LastVotedForkSlotsAggregate Pubkey Hash) (sender : Pubkey)
    (newSlotsVec : List Nat) : Option (LastVotedForkSlotsAggregate Pubkey Hash) :=
  newSlotsVec.foldlM (insertSlot sender) self

def updateEpochInfoEntry (rootBank : RootBank Pubkey) (sender : Pubkey) (lastVoteEpoch : Nat)
    (entry : LastVotedForkSlotsEpochInfo) : Option LastVotedForkSlotsEpochInfo :=
  match rootBank.epochNodeIdToStake entry.epoch sender with
  | none => some entry
  | some stake => do
      let activelyVotingStake ← checkedAdd entry.activelyVotingStake stake
      if entry.epoch ≤ lastVoteEpoch then
        let activelyVotingForThisEpochStake ← checkedAdd entry.activelyVotingForThisEpochStake stake
        pure { entry with activelyVotingStake, activelyVotingForThisEpochStake }
      else pure { entry with activelyVotingStake }

def updateEpochInfo (self : LastVotedForkSlotsAggregate Pubkey Hash) (sender : Pubkey)
    (lastVoteEpoch : Nat) : Option (LastVotedForkSlotsAggregate Pubkey Hash) := do
  let epochInfoVec ← self.epochInfoVec.mapM (updateEpochInfoEntry self.rootBank sender lastVoteEpoch)
  pure { self with epochInfoVec }

def aggregate (self : LastVotedForkSlotsAggregate Pubkey Hash)
    (newSlots : RestartLastVotedForkSlots Pubkey Hash) :
    Option (LastVotedForkSlotsAggregate Pubkey Hash × LastVotedForkSlotsAggregateResult Pubkey Hash) :=
  if newSlots.sender = self.myPubkey then some (self, .alreadyExists)
  else
    let newSlotsVec := newSlots.toSlots self.rootBank.slot
    match self.lastVotedForkSlots newSlots.sender with
    | some oldSlots =>
        if oldSlots.toSlots self.rootBank.slot = newSlotsVec then some (self, .alreadyExists)
        else some (self, .differentVersionExists oldSlots newSlots)
    | none => do
        let self := { self with
          lastVotedForkSlots :=
            Function.update self.lastVotedForkSlots newSlots.sender (some newSlots) }
        let lastVoteEpoch := self.rootBank.getEpoch newSlots.lastVotedSlot
        let self ← self.updateEpochInfo newSlots.sender lastVoteEpoch
        let self ← self.insertMessage newSlots.sender newSlotsVec
        pure (self, .inserted
          ⟨newSlotsVec, newSlots.lastVotedHash, newSlots.shredVersion, newSlots.wallclock⟩)

/-- Messages delivered one after another; `none` if one of them panics. -/
def run (self : LastVotedForkSlotsAggregate Pubkey Hash)
    (messages : List (RestartLastVotedForkSlots Pubkey Hash)) :
    Option (LastVotedForkSlotsAggregate Pubkey Hash) :=
  messages.foldlM (fun self message => (self.aggregate message).map Prod.fst) self

end LastVotedForkSlotsAggregate

/-- A node with a stake in an epoch has the epoch's total stake, which `insert_message`
unwraps. -/
def RootBank.HasTotals {Pubkey : Type} (rootBank : RootBank Pubkey) : Prop :=
  ∀ epoch key stake, rootBank.epochNodeIdToStake epoch key = some stake →
    (rootBank.epochTotalStake epoch).isSome

namespace LastVotedForkSlotsAggregate

variable {Pubkey Hash : Type} [DecidableEq Pubkey]

section Weights

variable (rootBank : RootBank Pubkey)

/-- The stake a message adds to the entry of `slot`. -/
def slotWeight (slot : Nat) (message : RestartLastVotedForkSlots Pubkey Hash) : Nat :=
  if slot ∈ message.toSlots rootBank.slot then
    (rootBank.epochNodeIdToStake (rootBank.getEpoch slot) message.sender).getD 0
  else 0

/-- One if a message lists `slot`. -/
def listing (slot : Nat) (message : RestartLastVotedForkSlots Pubkey Hash) : Nat :=
  if slot ∈ message.toSlots rootBank.slot then 1 else 0

def activeWeight (epoch : Nat) (message : RestartLastVotedForkSlots Pubkey Hash) : Nat :=
  (rootBank.epochNodeIdToStake epoch message.sender).getD 0

def forThisEpochWeight (epoch : Nat) (message : RestartLastVotedForkSlots Pubkey Hash) : Nat :=
  if epoch ≤ rootBank.getEpoch message.lastVotedSlot then activeWeight rootBank epoch message
  else 0

/-- An epoch's info with the stakes of the senders of `counted` added. -/
def addStakes (counted : List (RestartLastVotedForkSlots Pubkey Hash))
    (info : LastVotedForkSlotsEpochInfo) : LastVotedForkSlotsEpochInfo :=
  { info with
    activelyVotingStake := info.activelyVotingStake +
      tally RestartLastVotedForkSlots.sender (activeWeight rootBank info.epoch) counted
    activelyVotingForThisEpochStake := info.activelyVotingForThisEpochStake +
      tally RestartLastVotedForkSlots.sender (forThisEpochWeight rootBank info.epoch) counted }

@[simp] theorem addStakes_epoch (counted : List (RestartLastVotedForkSlots Pubkey Hash))
    (info : LastVotedForkSlotsEpochInfo) : (addStakes rootBank counted info).epoch = info.epoch :=
  rfl

end Weights

section Steps

variable {self : LastVotedForkSlotsAggregate Pubkey Hash} {sender : Pubkey}

/-- The stake of `sender` in the epoch of `slot`. -/
def stakeOn (rootBank : RootBank Pubkey) (sender : Pubkey) (slot : Nat) : Nat :=
  (rootBank.epochNodeIdToStake (rootBank.getEpoch slot) sender).getD 0

omit [DecidableEq Pubkey] in
theorem insertSlot_eq {slot : Nat} (totals : self.rootBank.HasTotals)
    (fits : (self.slotsStakeMap slot).getD 0 + stakeOn self.rootBank sender slot ≤ u64Max) :
    ∃ slotsToRepair, insertSlot sender self slot = some { self with
      slotsStakeMap := Function.update self.slotsStakeMap slot
        (some ((self.slotsStakeMap slot).getD 0 + stakeOn self.rootBank sender slot))
      slotsToRepair } := by
  unfold insertSlot
  cases staked : self.rootBank.epochNodeIdToStake (self.rootBank.getEpoch slot) sender with
  | none => exact ⟨self.slotsToRepair, by simp [stakeOn, staked]⟩
  | some senderStake =>
      obtain ⟨total, hasTotal⟩ := Option.isSome_iff_exists.mp (totals _ _ _ staked)
      -- the stakes fit, so the saturating addition is the sum
      have exact : saturatingAdd ((self.slotsStakeMap slot).getD 0) senderStake =
          (self.slotsStakeMap slot).getD 0 + senderStake := by
        simp only [stakeOn, staked, Option.getD_some] at fits
        simp [saturatingAdd, fits]
      simp only [hasTotal, exact, stakeOn, staked, Option.getD_some]
      split
      · exact ⟨_, rfl⟩
      · exact ⟨_, rfl⟩

omit [DecidableEq Pubkey] in
/-- `insert_message` over distinct slots adds the sender's stake to the entry of each, through
the loop rule of `LoopFrame`. -/
theorem insertMessage_eq {slots : List Nat} (distinct : slots.Nodup) (totals : self.rootBank.HasTotals)
    (fits : ∀ slot ∈ slots, (self.slotsStakeMap slot).getD 0 + stakeOn self.rootBank sender slot ≤ u64Max) :
    ∃ slotsStakeMap slotsToRepair, self.insertMessage sender slots =
        some { self with slotsStakeMap, slotsToRepair } ∧
      ∀ slot, slotsStakeMap slot = if slot ∈ slots then
        some ((self.slotsStakeMap slot).getD 0 + stakeOn self.rootBank sender slot)
      else self.slotsStakeMap slot := by
  let view := fun (state : LastVotedForkSlotsAggregate Pubkey Hash) slot =>
    (state.rootBank, state.slotsStakeMap slot)
  let fixed := fun (state : LastVotedForkSlotsAggregate Pubkey Hash) =>
    (state.epochInfoVec, state.lastVotedForkSlots, state.myPubkey, state.repairThresholdStake,
      state.rootBank)
  -- each step finds its slot as the loop found it, under the same bank
  let Pre := fun slot (seen : RootBank Pubkey × Option Nat) =>
    seen = view self slot ∧ (self.slotsStakeMap slot).getD 0 + stakeOn self.rootBank sender slot ≤ u64Max
  let Post := fun slot (seen : RootBank Pubkey × Option Nat) =>
    seen = (self.rootBank,
      some ((self.slotsStakeMap slot).getD 0 + stakeOn self.rootBank sender slot))
  have stepSpec : LoopFrame.StepSpec view fixed (insertSlot sender) Pre Post := by
    rintro state slot ⟨seen, fitsSlot⟩
    simp only [view, Prod.mk.injEq] at seen
    obtain ⟨sameBank, sameEntry⟩ := seen
    have totals' : state.rootBank.HasTotals := sameBank ▸ totals
    rw [← sameEntry, ← sameBank] at fitsSlot
    obtain ⟨repair, stepEq⟩ := insertSlot_eq totals' fitsSlot
    refine ⟨_, stepEq, ?_, rfl, ?_⟩
    · simp [view, Post, sameBank, sameEntry]
    · intro other differ
      simp [view, Function.update_of_ne differ]
  obtain ⟨final, loopEq, fixedEq, post, frame⟩ :=
    LoopFrame.foldlM_eq_of_stepSpec stepSpec distinct fun slot member => ⟨rfl, fits slot member⟩
  simp only [fixed, Prod.mk.injEq] at fixedEq
  obtain ⟨epochs, forks, me, repair, bank⟩ := fixedEq
  refine ⟨final.slotsStakeMap, final.slotsToRepair, ?_, ?_⟩
  · rw [insertMessage, loopEq]
    cases final
    simp_all
  · intro slot
    split
    · case isTrue member => exact (Prod.mk.inj (post slot member)).2
    · case isFalse outside => exact (Prod.mk.inj (frame slot outside)).2

omit [DecidableEq Pubkey] in
theorem updateEpochInfoEntry_eq {rootBank : RootBank Pubkey}
    {message : RestartLastVotedForkSlots Pubkey Hash} {entry : LastVotedForkSlotsEpochInfo}
    (fitsActive : entry.activelyVotingStake + activeWeight rootBank entry.epoch message ≤ u64Max)
    (fitsForThis : entry.activelyVotingForThisEpochStake +
      forThisEpochWeight rootBank entry.epoch message ≤ u64Max) :
    updateEpochInfoEntry rootBank message.sender (rootBank.getEpoch message.lastVotedSlot) entry =
      some { entry with
        activelyVotingStake := entry.activelyVotingStake + activeWeight rootBank entry.epoch message
        activelyVotingForThisEpochStake := entry.activelyVotingForThisEpochStake +
          forThisEpochWeight rootBank entry.epoch message } := by
  unfold updateEpochInfoEntry
  cases staked : rootBank.epochNodeIdToStake entry.epoch message.sender with
  | none => simp [activeWeight, forThisEpochWeight, staked]
  | some stake =>
      simp only [activeWeight, forThisEpochWeight, staked, Option.getD_some] at fitsActive fitsForThis
      by_cases inEpoch : entry.epoch ≤ rootBank.getEpoch message.lastVotedSlot
      · simp only [inEpoch, if_true] at fitsForThis
        simp [checkedAdd, fitsActive, fitsForThis, inEpoch, activeWeight, forThisEpochWeight, staked]
      · simp [checkedAdd, fitsActive, inEpoch, activeWeight, forThisEpochWeight, staked]

end Steps

/-- The messages the aggregate counts: those of the other validators. -/
def fromOthers (myPubkey : Pubkey) (messages : List (RestartLastVotedForkSlots Pubkey Hash)) :
    List (RestartLastVotedForkSlots Pubkey Hash) :=
  messages.filter (·.sender ≠ myPubkey)

/-- What the aggregate holds after counting the messages `counted`, from `init`. -/
structure Counts (init : LastVotedForkSlotsAggregate Pubkey Hash)
    (counted : List (RestartLastVotedForkSlots Pubkey Hash))
    (state : LastVotedForkSlotsAggregate Pubkey Hash) : Prop where
  myPubkey : state.myPubkey = init.myPubkey
  rootBank : state.rootBank = init.rootBank
  forks : state.lastVotedForkSlots = firstFrom RestartLastVotedForkSlots.sender counted
  stake : ∀ slot, (state.slotsStakeMap slot).getD 0 = (init.slotsStakeMap slot).getD 0 +
    tally RestartLastVotedForkSlots.sender (slotWeight init.rootBank slot) counted
  present : ∀ slot, (state.slotsStakeMap slot).isSome = ((init.slotsStakeMap slot).isSome ||
    decide (0 < tally RestartLastVotedForkSlots.sender (listing init.rootBank slot) counted))
  epochs : state.epochInfoVec = init.epochInfoVec.map (addStakes init.rootBank counted)

/-- No sum the aggregate keeps for `counted` exceeds `u64::MAX`. -/
structure Fits (init : LastVotedForkSlotsAggregate Pubkey Hash)
    (counted : List (RestartLastVotedForkSlots Pubkey Hash)) : Prop where
  slots : ∀ slot, (init.slotsStakeMap slot).getD 0 +
    tally RestartLastVotedForkSlots.sender (slotWeight init.rootBank slot) counted ≤ u64Max
  active : ∀ info ∈ init.epochInfoVec, info.activelyVotingStake +
    tally RestartLastVotedForkSlots.sender (activeWeight init.rootBank info.epoch) counted ≤ u64Max
  forThisEpoch : ∀ info ∈ init.epochInfoVec, info.activelyVotingForThisEpochStake +
    tally RestartLastVotedForkSlots.sender (forThisEpochWeight init.rootBank info.epoch) counted ≤
      u64Max

section Invariant

variable {init self : LastVotedForkSlotsAggregate Pubkey Hash}
  {counted : List (RestartLastVotedForkSlots Pubkey Hash)}
  {message : RestartLastVotedForkSlots Pubkey Hash}

theorem Counts.initial (fresh : init.lastVotedForkSlots = fun _ => none) : Counts init [] init where
  myPubkey := rfl
  rootBank := rfl
  forks := fresh
  stake := by simp
  present := by simp
  epochs := by
    have unchanged : addStakes init.rootBank ([] : List (RestartLastVotedForkSlots Pubkey Hash)) = id := by
      funext info
      simp [addStakes]
    simp [unchanged]

theorem Fits.of_append {more : List (RestartLastVotedForkSlots Pubkey Hash)}
    (fits : Fits init (counted ++ more)) : Fits init counted where
  slots slot := (Nat.add_le_add_left (tally_le_append more) _).trans (fits.slots slot)
  active info member :=
    (Nat.add_le_add_left (tally_le_append more) _).trans (fits.active info member)
  forThisEpoch info member :=
    (Nat.add_le_add_left (tally_le_append more) _).trans (fits.forThisEpoch info member)

/-- A message from a sender already counted changes nothing the aggregate counts. -/
theorem Counts.append_of_mem (counts : Counts init counted self)
    (seen : message.sender ∈ senders RestartLastVotedForkSlots.sender counted) :
    Counts init (counted ++ [message]) self where
  myPubkey := counts.myPubkey
  rootBank := counts.rootBank
  forks := by rw [firstFrom_append_singleton_of_mem seen, counts.forks]
  stake slot := by rw [tally_append_singleton_of_mem seen, counts.stake]
  present slot := by rw [tally_append_singleton_of_mem seen, counts.present]
  epochs := by
    have same : addStakes init.rootBank (counted ++ [message]) = addStakes init.rootBank counted := by
      funext info
      simp only [addStakes, tally_append_singleton_of_mem seen]
    rw [same, counts.epochs]

theorem addStakes_append_singleton (rootBank : RootBank Pubkey)
    (fresh : message.sender ∉ senders RestartLastVotedForkSlots.sender counted)
    (info : LastVotedForkSlotsEpochInfo) :
    addStakes rootBank (counted ++ [message]) info =
      { addStakes rootBank counted info with
        activelyVotingStake := (addStakes rootBank counted info).activelyVotingStake +
          activeWeight rootBank info.epoch message
        activelyVotingForThisEpochStake :=
          (addStakes rootBank counted info).activelyVotingForThisEpochStake +
            forThisEpochWeight rootBank info.epoch message } := by
  simp only [addStakes, tally_append_singleton_of_not_mem fresh, Nat.add_assoc]

/-- `update_epoch_info` for a new sender adds its stake to every epoch. -/
theorem updateEpochInfo_eq {state : LastVotedForkSlotsAggregate Pubkey Hash}
    (epochs : state.epochInfoVec = init.epochInfoVec.map (addStakes init.rootBank counted))
    (bank : state.rootBank = init.rootBank)
    (fresh : message.sender ∉ senders RestartLastVotedForkSlots.sender counted)
    (fits : Fits init (counted ++ [message])) :
    state.updateEpochInfo message.sender (state.rootBank.getEpoch message.lastVotedSlot) =
      some { state with
        epochInfoVec := init.epochInfoVec.map (addStakes init.rootBank (counted ++ [message])) } := by
  have each : ∀ entry ∈ state.epochInfoVec,
      updateEpochInfoEntry state.rootBank message.sender (state.rootBank.getEpoch message.lastVotedSlot)
        entry = some { entry with
          activelyVotingStake := entry.activelyVotingStake + activeWeight init.rootBank entry.epoch message
          activelyVotingForThisEpochStake := entry.activelyVotingForThisEpochStake +
            forThisEpochWeight init.rootBank entry.epoch message } := by
    intro entry member
    rw [epochs, List.mem_map] at member
    obtain ⟨info, inInit, rfl⟩ := member
    rw [bank]
    apply updateEpochInfoEntry_eq
    · have bound := fits.active info inInit
      simp only [tally_append_singleton_of_not_mem fresh] at bound
      simp only [addStakes]
      omega
    · have bound := fits.forThisEpoch info inInit
      simp only [tally_append_singleton_of_not_mem fresh] at bound
      simp only [addStakes]
      omega
  rw [LastVotedForkSlotsAggregate.updateEpochInfo, LoopFrame.mapM_eq_some_map each, epochs,
    List.map_map]
  simp only [Option.bind_eq_bind, Option.bind_some, Option.pure_def]
  congr 3
  funext info
  simp [addStakes_append_singleton init.rootBank fresh]

omit [DecidableEq Pubkey] in
theorem nodup_toSlots (message : RestartLastVotedForkSlots Pubkey Hash) (minSlot : Nat) :
    (message.toSlots minSlot).Nodup :=
  (message.sorted.imp ne_of_lt).filter _

/-- The first message of a new sender: it is recorded, and its stake added in every epoch and
on every slot it lists. -/
theorem Counts.aggregate_of_fresh (counts : Counts init counted self)
    (totals : init.rootBank.HasTotals) (notMine : message.sender ≠ init.myPubkey)
    (seen : self.lastVotedForkSlots message.sender = none)
    (fits : Fits init (counted ++ [message])) :
    ∃ next, (self.aggregate message).map Prod.fst = some next ∧
      Counts init (counted ++ [message]) next := by
  have fresh : message.sender ∉ senders RestartLastVotedForkSlots.sender counted :=
    firstFrom_eq_none_iff.mp (counts.forks ▸ seen)
  let recorded := { self with
    lastVotedForkSlots := Function.update self.lastVotedForkSlots message.sender (some message) }
  let updated := { recorded with
    epochInfoVec := init.epochInfoVec.map (addStakes init.rootBank (counted ++ [message])) }
  have epochs : recorded.updateEpochInfo message.sender (recorded.rootBank.getEpoch message.lastVotedSlot) =
      some { recorded with
        epochInfoVec := init.epochInfoVec.map (addStakes init.rootBank (counted ++ [message])) } :=
    updateEpochInfo_eq counts.epochs counts.rootBank fresh fits
  have bank : updated.rootBank = init.rootBank := counts.rootBank
  -- every slot the message lists has room for the sender's stake
  have room : ∀ slot ∈ message.toSlots updated.rootBank.slot,
      (updated.slotsStakeMap slot).getD 0 + stakeOn updated.rootBank message.sender slot ≤ u64Max := by
    intro slot member
    rw [bank] at member ⊢
    have bound := fits.slots slot
    rw [tally_append_singleton_of_not_mem fresh] at bound
    have weight : slotWeight init.rootBank slot message = stakeOn init.rootBank message.sender slot := by
      simp [slotWeight, stakeOn, member]
    have entry := counts.stake slot
    change (self.slotsStakeMap slot).getD 0 + _ ≤ _
    omega
  obtain ⟨slotsStakeMap, slotsToRepair, inserted, entries⟩ :=
    insertMessage_eq (nodup_toSlots message _) (bank ▸ totals) room
  rw [bank] at entries
  refine ⟨{ updated with slotsStakeMap, slotsToRepair }, ?_, ?_⟩
  · have notSelf : message.sender ≠ self.myPubkey := counts.myPubkey ▸ notMine
    simp only [LastVotedForkSlotsAggregate.aggregate, notSelf, if_false, seen]
    rw [show self.rootBank = recorded.rootBank from rfl, epochs]
    simp only [Option.bind_eq_bind, Option.bind_some]
    rw [inserted]
    rfl
  · constructor
    · exact counts.myPubkey
    · exact counts.rootBank
    · change Function.update self.lastVotedForkSlots message.sender (some message) = _
      rw [counts.forks, firstFrom_append_singleton_of_not_mem fresh]
    · intro slot
      change (slotsStakeMap slot).getD 0 = _
      rw [entries, tally_append_singleton_of_not_mem fresh]
      have entry := counts.stake slot
      by_cases member : slot ∈ message.toSlots init.rootBank.slot
      · have weight : slotWeight init.rootBank slot message = stakeOn init.rootBank message.sender slot := by
          simp [slotWeight, stakeOn, member]
        simp only [member, if_true, Option.getD_some, weight]
        change (self.slotsStakeMap slot).getD 0 + _ = _
        omega
      · have weight : slotWeight init.rootBank slot message = 0 := by simp [slotWeight, member]
        simp only [member, if_false, weight, Nat.add_zero]
        exact entry
    · intro slot
      change (slotsStakeMap slot).isSome = _
      rw [entries, tally_append_singleton_of_not_mem fresh]
      by_cases member : slot ∈ message.toSlots init.rootBank.slot
      · simp [member, listing]
      · have one : listing init.rootBank slot message = 0 := by simp [listing, member]
        simp only [member, if_false, one, Nat.add_zero]
        exact counts.present slot
    · rfl

/-- One message: the aggregate succeeds, and counts the message when it is the first of a
sender other than the local validator. -/
theorem Counts.aggregate (counts : Counts init counted self) (totals : init.rootBank.HasTotals)
    (fits : Fits init (counted ++ fromOthers init.myPubkey [message])) :
    ∃ next, (self.aggregate message).map Prod.fst = some next ∧
      Counts init (counted ++ fromOthers init.myPubkey [message]) next := by
  by_cases mine : message.sender = init.myPubkey
  · have none : fromOthers init.myPubkey [message] = [] := by simp [fromOthers, mine]
    rw [none, List.append_nil]
    refine ⟨self, ?_, counts⟩
    simp [LastVotedForkSlotsAggregate.aggregate, counts.myPubkey, mine]
  · have one : fromOthers init.myPubkey [message] = [message] := by simp [fromOthers, mine]
    rw [one] at fits ⊢
    cases seen : self.lastVotedForkSlots message.sender with
    | none => exact counts.aggregate_of_fresh totals mine seen fits
    | some old =>
        -- a later message of a counted sender, of the same version or another, is not counted
        have member : message.sender ∈ senders RestartLastVotedForkSlots.sender counted := by
          by_contra unseen
          have none := firstFrom_eq_none_iff.mpr unseen
          rw [← counts.forks, seen] at none
          cases none
        refine ⟨self, ?_, counts.append_of_mem member⟩
        have notSelf : message.sender ≠ self.myPubkey := counts.myPubkey ▸ mine
        simp only [LastVotedForkSlotsAggregate.aggregate, notSelf, if_false, seen]
        split <;> rfl

/-- A run of messages, by induction on them with `Counts.aggregate` for each. -/
theorem Counts.run (counts : Counts init counted self) (totals : init.rootBank.HasTotals)
    (messages : List (RestartLastVotedForkSlots Pubkey Hash))
    (fits : Fits init (counted ++ fromOthers init.myPubkey messages)) :
    ∃ final, self.run messages = some final ∧
      Counts init (counted ++ fromOthers init.myPubkey messages) final := by
  induction messages generalizing counted self with
  | nil => exact ⟨self, rfl, by simpa [fromOthers] using counts⟩
  | cons message rest ih =>
      have split : fromOthers init.myPubkey (message :: rest) =
          fromOthers init.myPubkey [message] ++ fromOthers init.myPubkey rest := by
        rw [fromOthers, fromOthers, fromOthers, ← List.filter_append, List.singleton_append]
      rw [split, ← List.append_assoc] at fits ⊢
      obtain ⟨next, stepEq, countsNext⟩ := counts.aggregate totals fits.of_append
      obtain ⟨final, runEq, countsFinal⟩ := ih countsNext fits
      refine ⟨final, ?_, countsFinal⟩
      simp only [Option.map_eq_some_iff] at stepEq
      obtain ⟨⟨stepped, result⟩, aggregated, rfl⟩ := stepEq
      simp [LastVotedForkSlotsAggregate.run, List.foldlM_cons, aggregated, ← runEq,
        LastVotedForkSlotsAggregate.run]

/-- Two runs that counted the same single-version messages in different orders hold the same
maps. -/
theorem Counts.eq_of_perm {final final' : LastVotedForkSlotsAggregate Pubkey Hash}
    {counted' : List (RestartLastVotedForkSlots Pubkey Hash)}
    (counts : Counts init counted final) (counts' : Counts init counted' final')
    (single : SingleVersion RestartLastVotedForkSlots.sender counted) (perm : counted.Perm counted') :
    final.slotsStakeMap = final'.slotsStakeMap ∧ final.epochInfoVec = final'.epochInfoVec := by
  constructor
  · funext slot
    have present := counts.present slot
    have present' := counts'.present slot
    have stake := counts.stake slot
    have stake' := counts'.stake slot
    rw [tally_perm single perm] at present stake
    cases entry : final.slotsStakeMap slot <;> cases entry' : final'.slotsStakeMap slot <;>
      simp_all
  · rw [counts.epochs, counts'.epochs]
    congr 1
    funext info
    simp only [addStakes, tally_perm single perm]

end Invariant

section New

variable {rootBank : RootBank Pubkey} {repairThresholdStake : Nat → Nat} {mySlots : List Nat}
  {myPubkey : Pubkey} {init : LastVotedForkSlotsAggregate Pubkey Hash}

omit [DecidableEq Pubkey] in
theorem insertMySlot_apply (map : Nat → Option Nat) (head slot : Nat) :
    insertMySlot rootBank myPubkey map head slot =
      if head = slot ∧ rootBank.slot ≤ slot ∧
          (rootBank.epochNodeIdToStake (rootBank.getEpoch slot) myPubkey).isSome then
        rootBank.epochNodeIdToStake (rootBank.getEpoch slot) myPubkey
      else map slot := by
  unfold insertMySlot
  by_cases same : head = slot
  · subst same
    cases rootBank.epochNodeIdToStake (rootBank.getEpoch head) myPubkey <;>
      by_cases above : rootBank.slot ≤ head <;> simp [above]
  · have other : slot ≠ head := Ne.symm same
    by_cases above : rootBank.slot ≤ head
    · cases rootBank.epochNodeIdToStake (rootBank.getEpoch head) myPubkey <;>
        simp [above, same, Function.update_of_ne other]
    · simp [above, same]

omit [DecidableEq Pubkey] in
theorem foldl_insertMySlot (slot : Nat) (slots : List Nat) (map : Nat → Option Nat) :
    slots.foldl (insertMySlot rootBank myPubkey) map slot =
      if slot ∈ slots ∧ rootBank.slot ≤ slot ∧
          (rootBank.epochNodeIdToStake (rootBank.getEpoch slot) myPubkey).isSome then
        rootBank.epochNodeIdToStake (rootBank.getEpoch slot) myPubkey
      else map slot := by
  induction slots generalizing map with
  | nil => simp
  | cons head rest ih =>
      rw [List.foldl_cons, ih, insertMySlot_apply]
      by_cases held : rootBank.slot ≤ slot ∧
          (rootBank.epochNodeIdToStake (rootBank.getEpoch slot) myPubkey).isSome
      · by_cases inRest : slot ∈ rest
        · simp [held, inRest]
        · by_cases same : head = slot
          · simp [held, inRest, same]
          · have other : slot ≠ head := fun equal => same equal.symm
            simp [held, inRest, same, other]
      · simp only [held, and_false, if_false]

omit [DecidableEq Pubkey] in
theorem mySlotsStakeMap_getD (slot : Nat) :
    (mySlotsStakeMap rootBank mySlots myPubkey slot).getD 0 =
      if slot ∈ mySlots ∧ rootBank.slot ≤ slot then stakeOn rootBank myPubkey slot else 0 := by
  rw [mySlotsStakeMap, foldl_insertMySlot]
  by_cases mine : slot ∈ mySlots ∧ rootBank.slot ≤ slot
  · cases staked : rootBank.epochNodeIdToStake (rootBank.getEpoch slot) myPubkey <;>
      simp [stakeOn, staked, mine]
  · have outside : ¬(slot ∈ mySlots ∧ rootBank.slot ≤ slot ∧
        (rootBank.epochNodeIdToStake (rootBank.getEpoch slot) myPubkey).isSome) :=
      fun ⟨member, above, _⟩ => mine ⟨member, above⟩
    simp only [outside, mine, if_false, Option.getD_none]

omit [DecidableEq Pubkey] in
theorem myEpochInfo_eq {myLastVoteEpoch epoch : Nat} {info : LastVotedForkSlotsEpochInfo}
    (built : myEpochInfo rootBank myPubkey myLastVoteEpoch epoch = some info) :
    info = ⟨epoch, (rootBank.epochTotalStake epoch).getD 0,
      (rootBank.epochNodeIdToStake epoch myPubkey).getD 0,
      if epoch ≤ myLastVoteEpoch then (rootBank.epochNodeIdToStake epoch myPubkey).getD 0 else 0⟩ := by
  simp only [myEpochInfo, Option.pure_def, Option.bind_eq_bind, Option.bind_eq_some_iff,
    Option.some.injEq] at built
  obtain ⟨total, hasTotal, rfl⟩ := built
  simp [hasTotal]

/-- The local validator's epoch info: its own stake in the root epoch and the next. -/
def myEpochInfos (rootBank : RootBank Pubkey) (myPubkey : Pubkey) (myLastVoteEpoch : Nat) :
    List LastVotedForkSlotsEpochInfo :=
  (List.range' rootBank.epoch 2).map fun epoch =>
    ⟨epoch, (rootBank.epochTotalStake epoch).getD 0,
      (rootBank.epochNodeIdToStake epoch myPubkey).getD 0,
      if epoch ≤ myLastVoteEpoch then (rootBank.epochNodeIdToStake epoch myPubkey).getD 0 else 0⟩

omit [DecidableEq Pubkey] in
theorem new_eq (created : new rootBank repairThresholdStake mySlots myPubkey = some init) :
    ∃ myLastVotedSlot, mySlots.max? = some myLastVotedSlot ∧ init =
      { epochInfoVec := myEpochInfos rootBank myPubkey (rootBank.getEpoch myLastVotedSlot)
        lastVotedForkSlots := fun _ => none
        myPubkey := myPubkey
        repairThresholdStake := repairThresholdStake
        rootBank := rootBank
        slotsStakeMap := mySlotsStakeMap rootBank mySlots myPubkey
        slotsToRepair := [] } := by
  simp only [new, Option.bind_eq_bind, Option.bind_eq_some_iff] at created
  obtain ⟨myLastVotedSlot, lastSlot, created⟩ := created
  refine ⟨myLastVotedSlot, lastSlot, ?_⟩
  split at created
  · cases created
  · simp only [Option.pure_def, Option.bind_eq_some_iff, Option.some.injEq] at created
    obtain ⟨epochInfoVec, mapped, rfl⟩ := created
    rw [LoopFrame.eq_map_of_mapM_eq_some (fun _ _ built => myEpochInfo_eq built) mapped]
    rfl

/-- The stakes fit in a `u64`: in every epoch, the local validator's stake and the stakes of the
senders of `counted` sum to at most `u64::MAX`. -/
def StakesFit (rootBank : RootBank Pubkey) (myPubkey : Pubkey)
    (counted : List (RestartLastVotedForkSlots Pubkey Hash)) : Prop :=
  ∀ epoch, (rootBank.epochNodeIdToStake epoch myPubkey).getD 0 +
    ∑ key ∈ senders RestartLastVotedForkSlots.sender counted,
      (rootBank.epochNodeIdToStake epoch key).getD 0 ≤ u64Max

theorem StakesFit.perm {counted counted' : List (RestartLastVotedForkSlots Pubkey Hash)}
    (stakesFit : StakesFit rootBank myPubkey counted) (perm : counted.Perm counted') :
    StakesFit rootBank myPubkey counted' := by
  intro epoch
  rw [← senders_perm perm]
  exact stakesFit epoch

theorem fits_of_stakesFit {counted : List (RestartLastVotedForkSlots Pubkey Hash)}
    (created : new rootBank repairThresholdStake mySlots myPubkey = some init)
    (stakesFit : StakesFit rootBank myPubkey counted) : Fits init counted := by
  obtain ⟨myLastVotedSlot, -, rfl⟩ := new_eq created
  constructor
  · intro slot
    dsimp only
    have mine : (mySlotsStakeMap rootBank mySlots myPubkey slot).getD 0 ≤
        stakeOn rootBank myPubkey slot := by
      rw [mySlotsStakeMap_getD]
      split <;> omega
    have others : tally RestartLastVotedForkSlots.sender (slotWeight rootBank slot) counted ≤
        ∑ key ∈ senders RestartLastVotedForkSlots.sender counted,
          (rootBank.epochNodeIdToStake (rootBank.getEpoch slot) key).getD 0 :=
      tally_le_sum fun message => by unfold slotWeight; split <;> omega
    have total := stakesFit (rootBank.getEpoch slot)
    simp only [stakeOn] at mine
    omega
  · intro info member
    obtain ⟨epoch, -, rfl⟩ := List.mem_map.mp member
    have others : tally RestartLastVotedForkSlots.sender (activeWeight rootBank epoch) counted ≤
        ∑ key ∈ senders RestartLastVotedForkSlots.sender counted,
          (rootBank.epochNodeIdToStake epoch key).getD 0 :=
      tally_le_sum fun _ => le_refl _
    have total := stakesFit epoch
    simp only
    omega
  · intro info member
    obtain ⟨epoch, -, rfl⟩ := List.mem_map.mp member
    have others : tally RestartLastVotedForkSlots.sender (forThisEpochWeight rootBank epoch) counted ≤
        ∑ key ∈ senders RestartLastVotedForkSlots.sender counted,
          (rootBank.epochNodeIdToStake epoch key).getD 0 :=
      tally_le_sum fun message => by unfold forThisEpochWeight activeWeight; split <;> omega
    have total := stakesFit epoch
    simp only
    split <;> omega

/-- From `new`, any sequence of messages is aggregated without a panic, and the aggregate counts
each other sender once, from its first message. -/
theorem run_counts (created : new rootBank repairThresholdStake mySlots myPubkey = some init)
    (totals : rootBank.HasTotals) (messages : List (RestartLastVotedForkSlots Pubkey Hash))
    (stakesFit : StakesFit rootBank myPubkey (fromOthers myPubkey messages)) :
    ∃ final, init.run messages = some final ∧ Counts init (fromOthers myPubkey messages) final := by
  obtain ⟨myLastVotedSlot, -, built⟩ := new_eq created
  have initial : Counts init [] init := Counts.initial (by rw [built])
  have me : init.myPubkey = myPubkey := by rw [built]
  have bank : init.rootBank = rootBank := by rw [built]
  have fits := fits_of_stakesFit created stakesFit
  rw [← me] at fits ⊢
  simpa using initial.run (bank ▸ totals) messages (by simpa using fits)

end New

end LastVotedForkSlotsAggregate

end Validator.WenRestart
