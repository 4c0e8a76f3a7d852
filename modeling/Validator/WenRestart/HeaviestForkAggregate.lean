import Mathlib.Algebra.BigOperators.Group.List.Basic
import Validator.WenRestart.LastVotedForkSlotsAggregate

namespace Validator.WenRestart

open Validator.Data

/-! # Aggregating the heaviest forks

After the repair every validator gossips its heaviest fork.  The aggregate takes the first fork
of each staked validator with the local shred version, adds the sender's stake to the fork's
entry of `block_stake_map` and adds the sender to `active_peers`.  A later message of the same
sender replaces the recorded one only when it names the same fork with a newer wallclock.  The
stakes are those of the epoch of the local heaviest bank.
-/

structure RestartHeaviestFork (Pubkey Hash : Type) where
  sender : Pubkey
  wallclock : Nat
  lastSlot : Nat
  lastSlotHash : Hash
  observedStake : Nat
  shredVersion : Nat
deriving DecidableEq

structure HeaviestForkRecord (Pubkey Hash : Type) where
  slot : Nat
  bankhash : Hash
  totalActiveStake : Nat
  shredVersion : Nat
  wallclock : Nat
  sender : Pubkey
deriving DecidableEq

inductive HeaviestForkAggregateResult (Pubkey Hash : Type) where
  | alreadyExists
  | differentVersionExists (current new : RestartHeaviestFork Pubkey Hash)
  | inserted (record : HeaviestForkRecord Pubkey Hash)
  | malformed
  | zeroStakeIgnored
deriving DecidableEq

structure HeaviestForkAggregate (Pubkey Hash : Type) where
  myShredVersion : Nat
  myPubkey : Pubkey
  /-- `epoch_stakes.node_id_to_stake`. -/
  nodeIdToStake : Pubkey → Option Nat
  heaviestForks : Pubkey → Option (RestartHeaviestFork Pubkey Hash)
  blockStakeMap : Nat × Hash → Option Nat
  /-- A `HashSet<Pubkey>`, as a list without repeats. -/
  activePeers : List Pubkey

namespace HeaviestForkAggregate

variable {Pubkey Hash : Type} [DecidableEq Pubkey] [DecidableEq Hash]

def new (myShredVersion : Nat) (nodeIdToStake : Pubkey → Option Nat) (myHeaviestForkSlot : Nat)
    (myHeaviestForkHash : Hash) (myPubkey : Pubkey) : HeaviestForkAggregate Pubkey Hash where
  myShredVersion := myShredVersion
  myPubkey := myPubkey
  nodeIdToStake := nodeIdToStake
  heaviestForks := fun _ => none
  blockStakeMap := Function.update (fun _ => none) (myHeaviestForkSlot, myHeaviestForkHash)
    (some ((nodeIdToStake myPubkey).getD 0))
  activePeers := [myPubkey]

def record (fork : RestartHeaviestFork Pubkey Hash) : HeaviestForkRecord Pubkey Hash :=
  ⟨fork.lastSlot, fork.lastSlotHash, fork.observedStake, fork.shredVersion, fork.wallclock,
    fork.sender⟩

def isValidChange (currentHeaviestFork newHeaviestFork : RestartHeaviestFork Pubkey Hash) :
    HeaviestForkAggregateResult Pubkey Hash :=
  if currentHeaviestFork.lastSlot ≠ newHeaviestFork.lastSlot ∨
      currentHeaviestFork.lastSlotHash ≠ newHeaviestFork.lastSlotHash then
    .differentVersionExists currentHeaviestFork newHeaviestFork
  else if currentHeaviestFork = newHeaviestFork ∨
      currentHeaviestFork.wallclock > newHeaviestFork.wallclock then
    .alreadyExists
  else .inserted (record newHeaviestFork)

def aggregate (self : HeaviestForkAggregate Pubkey Hash)
    (receivedHeaviestFork : RestartHeaviestFork Pubkey Hash) :
    HeaviestForkAggregate Pubkey Hash × HeaviestForkAggregateResult Pubkey Hash :=
  let sender := receivedHeaviestFork.sender
  let senderStake := (self.nodeIdToStake sender).getD 0
  if senderStake = 0 then (self, .zeroStakeIgnored)
  else if sender = self.myPubkey then (self, .alreadyExists)
  else if receivedHeaviestFork.shredVersion ≠ self.myShredVersion then (self, .malformed)
  else
    match self.heaviestForks sender with
    | some oldHeaviestFork =>
        match isValidChange oldHeaviestFork receivedHeaviestFork with
        | .inserted result =>
            ({ self with
                heaviestForks := Function.update self.heaviestForks sender (some receivedHeaviestFork) },
              .inserted result)
        | result => (self, result)
    | none =>
        let key := (receivedHeaviestFork.lastSlot, receivedHeaviestFork.lastSlotHash)
        let entry := saturatingAdd ((self.blockStakeMap key).getD 0) senderStake
        ({ self with
            blockStakeMap := Function.update self.blockStakeMap key (some entry)
            activePeers := self.activePeers.insert sender
            heaviestForks := Function.update self.heaviestForks sender (some receivedHeaviestFork) },
          .inserted (record receivedHeaviestFork))

def totalActiveStake (self : HeaviestForkAggregate Pubkey Hash) : Nat :=
  self.activePeers.foldl (fun sum pubkey => saturatingAdd sum ((self.nodeIdToStake pubkey).getD 0)) 0

def run (self : HeaviestForkAggregate Pubkey Hash)
    (messages : List (RestartHeaviestFork Pubkey Hash)) : HeaviestForkAggregate Pubkey Hash :=
  messages.foldl (fun self message => (self.aggregate message).1) self

/-- The fork a message names. -/
def fork (message : RestartHeaviestFork Pubkey Hash) : Nat × Hash :=
  (message.lastSlot, message.lastSlotHash)

section Weights

variable (nodeIdToStake : Pubkey → Option Nat)

def stakeWeight (message : RestartHeaviestFork Pubkey Hash) : Nat :=
  (nodeIdToStake message.sender).getD 0

/-- The stake a message adds to the entry of the fork `key`. -/
def forkWeight (key : Nat × Hash) (message : RestartHeaviestFork Pubkey Hash) : Nat :=
  if fork message = key then stakeWeight nodeIdToStake message else 0

/-- One if a message names the fork `key`. -/
def forkListing (key : Nat × Hash) (message : RestartHeaviestFork Pubkey Hash) : Nat :=
  if fork message = key then 1 else 0

end Weights

/-- The messages the aggregate counts: those of the staked other validators with the local
shred version. -/
def fromStakedPeers (init : HeaviestForkAggregate Pubkey Hash)
    (messages : List (RestartHeaviestFork Pubkey Hash)) : List (RestartHeaviestFork Pubkey Hash) :=
  messages.filter fun message => (init.nodeIdToStake message.sender).getD 0 ≠ 0 ∧
    message.sender ≠ init.myPubkey ∧ message.shredVersion = init.myShredVersion

/-- What the aggregate holds after counting the messages `counted`, from `init`. -/
structure Counts (init : HeaviestForkAggregate Pubkey Hash)
    (counted : List (RestartHeaviestFork Pubkey Hash)) (state : HeaviestForkAggregate Pubkey Hash) :
    Prop where
  myShredVersion : state.myShredVersion = init.myShredVersion
  myPubkey : state.myPubkey = init.myPubkey
  nodeIdToStake : state.nodeIdToStake = init.nodeIdToStake
  forks : ∀ pubkey, (state.heaviestForks pubkey).map fork =
    (firstFrom RestartHeaviestFork.sender counted pubkey).map fork
  stake : ∀ key, (state.blockStakeMap key).getD 0 = (init.blockStakeMap key).getD 0 +
    tally RestartHeaviestFork.sender (forkWeight init.nodeIdToStake key) counted
  present : ∀ key, (state.blockStakeMap key).isSome = ((init.blockStakeMap key).isSome ||
    decide (0 < tally RestartHeaviestFork.sender (forkListing key) counted))
  peers : ∀ pubkey, pubkey ∈ state.activePeers ↔
    pubkey ∈ init.activePeers ∨ pubkey ∈ senders RestartHeaviestFork.sender counted
  distinct : state.activePeers.Nodup

/-- No entry of `block_stake_map` for `counted` exceeds `u64::MAX`. -/
def Fits (init : HeaviestForkAggregate Pubkey Hash)
    (counted : List (RestartHeaviestFork Pubkey Hash)) : Prop :=
  ∀ key, (init.blockStakeMap key).getD 0 +
    tally RestartHeaviestFork.sender (forkWeight init.nodeIdToStake key) counted ≤ u64Max

section Invariant

variable {init self : HeaviestForkAggregate Pubkey Hash}
  {counted : List (RestartHeaviestFork Pubkey Hash)} {message : RestartHeaviestFork Pubkey Hash}

theorem Counts.initial (fresh : init.heaviestForks = fun _ => none) (distinct : init.activePeers.Nodup) :
    Counts init [] init where
  myShredVersion := rfl
  myPubkey := rfl
  nodeIdToStake := rfl
  forks pubkey := by simp [fresh, firstFrom]
  stake := by simp
  present := by simp
  peers := by simp [senders]
  distinct := distinct

theorem fork_eq_of_isValidChange {old : RestartHeaviestFork Pubkey Hash}
    {result : HeaviestForkRecord Pubkey Hash}
    (valid : isValidChange old message = .inserted result) : fork old = fork message := by
  unfold isValidChange at valid
  split at valid
  · cases valid
  · case isFalse same =>
      simp only [not_or, not_not] at same
      simp [fork, same.1, same.2]

/-- A message the aggregate does not count leaves it as it was. -/
theorem aggregate_of_not_counted (counts : Counts init counted self)
    (ignored : ¬((init.nodeIdToStake message.sender).getD 0 ≠ 0 ∧ message.sender ≠ init.myPubkey ∧
      message.shredVersion = init.myShredVersion)) :
    (self.aggregate message).1 = self := by
  rw [← counts.nodeIdToStake, ← counts.myPubkey, ← counts.myShredVersion] at ignored
  unfold aggregate
  dsimp only
  split_ifs with staked mine other
  · rfl
  · rfl
  · rfl
  · exact absurd ⟨staked, mine, not_not.mp other⟩ ignored

/-- A later message of a counted sender changes at most the recorded message, never its fork. -/
theorem Counts.aggregate_of_mem (counts : Counts init counted self)
    (valid : (init.nodeIdToStake message.sender).getD 0 ≠ 0 ∧ message.sender ≠ init.myPubkey ∧
      message.shredVersion = init.myShredVersion)
    {old : RestartHeaviestFork Pubkey Hash} (seen : self.heaviestForks message.sender = some old) :
    Counts init (counted ++ [message]) (self.aggregate message).1 := by
  have member : message.sender ∈ senders RestartHeaviestFork.sender counted := by
    by_contra unseen
    have forks := counts.forks message.sender
    rw [firstFrom_eq_none_iff.mpr unseen, seen] at forks
    cases forks
  obtain ⟨staked, mine, version⟩ := valid
  rw [← counts.nodeIdToStake] at staked
  rw [← counts.myPubkey] at mine
  rw [← counts.myShredVersion] at version
  have kept : Counts init (counted ++ [message]) self :=
    { myShredVersion := counts.myShredVersion
      myPubkey := counts.myPubkey
      nodeIdToStake := counts.nodeIdToStake
      forks := by rw [firstFrom_append_singleton_of_mem member]; exact counts.forks
      stake := fun key => by rw [tally_append_singleton_of_mem member]; exact counts.stake key
      present := fun key => by rw [tally_append_singleton_of_mem member]; exact counts.present key
      peers := fun pubkey => by
        rw [senders_append_singleton, Finset.insert_eq_of_mem member]
        exact counts.peers pubkey
      distinct := counts.distinct }
  unfold aggregate
  simp only [staked, mine, version, if_false, ne_eq, not_true_eq_false, seen]
  split
  · case h_1 result valid =>
      -- the replacement names the fork of the message it replaces
      refine { kept with forks := fun pubkey => ?_ }
      by_cases same : pubkey = message.sender
      · subst same
        rw [← kept.forks, seen]
        dsimp only
        rw [Function.update_self]
        simp [fork_eq_of_isValidChange valid]
      · simp only [Function.update_of_ne same]
        exact kept.forks pubkey
  · exact kept

/-- The first counted message of a sender adds its stake to its fork. -/
theorem Counts.aggregate_of_fresh (counts : Counts init counted self)
    (valid : (init.nodeIdToStake message.sender).getD 0 ≠ 0 ∧ message.sender ≠ init.myPubkey ∧
      message.shredVersion = init.myShredVersion)
    (seen : self.heaviestForks message.sender = none) (fits : Fits init (counted ++ [message])) :
    Counts init (counted ++ [message]) (self.aggregate message).1 := by
  have fresh : message.sender ∉ senders RestartHeaviestFork.sender counted := by
    intro member
    have forks := counts.forks message.sender
    rw [seen] at forks
    obtain ⟨first, found⟩ := Option.ne_none_iff_exists'.mp (mt firstFrom_eq_none_iff.mp (not_not.mpr member))
    rw [found] at forks
    cases forks
  obtain ⟨staked, mine, version⟩ := valid
  rw [← counts.nodeIdToStake] at staked
  rw [← counts.myPubkey] at mine
  rw [← counts.myShredVersion] at version
  -- the fork's entry has room for the sender's stake
  have room : (self.blockStakeMap (fork message)).getD 0 + (self.nodeIdToStake message.sender).getD 0 ≤
      u64Max := by
    have bound := fits (fork message)
    rw [tally_append_singleton_of_not_mem fresh] at bound
    simp only [forkWeight, stakeWeight, if_true] at bound
    rw [counts.stake, counts.nodeIdToStake]
    omega
  unfold aggregate
  simp only [staked, mine, version, if_false, ne_eq, not_true_eq_false, seen]
  constructor
  · exact counts.myShredVersion
  · exact counts.myPubkey
  · exact counts.nodeIdToStake
  · intro pubkey
    rw [firstFrom_append_singleton_of_not_mem fresh]
    by_cases same : pubkey = message.sender
    · subst same
      simp
    · simp only [Function.update_of_ne same]
      exact counts.forks pubkey
  · intro key
    rw [tally_append_singleton_of_not_mem fresh]
    by_cases same : key = fork message
    · subst same
      have exact : saturatingAdd ((self.blockStakeMap (message.lastSlot, message.lastSlotHash)).getD 0)
          ((self.nodeIdToStake message.sender).getD 0) =
          (self.blockStakeMap (message.lastSlot, message.lastSlotHash)).getD 0 +
            (self.nodeIdToStake message.sender).getD 0 := by
        simp only [fork] at room
        simp [saturatingAdd, room]
      simp only [fork, Function.update_self, Option.getD_some]
      rw [exact, counts.stake, counts.nodeIdToStake]
      simp [forkWeight, stakeWeight, fork, Nat.add_assoc]
    · have other : (message.lastSlot, message.lastSlotHash) ≠ key := fun equal => same (by
        rw [← equal]; rfl)
      simp only [Function.update_of_ne (Ne.symm other)]
      simp [counts.stake key, forkWeight, fork, other]
  · intro key
    rw [tally_append_singleton_of_not_mem fresh]
    by_cases same : key = fork message
    · subst same
      simp [forkListing, fork]
    · have other : (message.lastSlot, message.lastSlotHash) ≠ key := fun equal => same (by
        rw [← equal]; rfl)
      simp only [Function.update_of_ne (Ne.symm other)]
      simp [counts.present key, forkListing, fork, other]
  · intro pubkey
    rw [senders_append_singleton, Finset.mem_insert, List.mem_insert_iff, counts.peers]
    tauto
  · exact counts.distinct.insert

theorem Fits.of_append {more : List (RestartHeaviestFork Pubkey Hash)}
    (fits : Fits init (counted ++ more)) : Fits init counted :=
  fun key => (Nat.add_le_add_left (tally_le_append more) _).trans (fits key)

/-- One message: counted when it is the first of a staked other validator with the local shred
version, ignored otherwise. -/
theorem Counts.aggregate (counts : Counts init counted self)
    (fits : Fits init (counted ++ fromStakedPeers init [message])) :
    Counts init (counted ++ fromStakedPeers init [message]) (self.aggregate message).1 := by
  by_cases valid : (init.nodeIdToStake message.sender).getD 0 ≠ 0 ∧
      message.sender ≠ init.myPubkey ∧ message.shredVersion = init.myShredVersion
  · have one : fromStakedPeers init [message] = [message] := by
      simp only [fromStakedPeers, List.filter_singleton, decide_eq_true valid, cond_true]
    rw [one] at fits ⊢
    cases seen : self.heaviestForks message.sender with
    | none => exact counts.aggregate_of_fresh valid seen fits
    | some old => exact counts.aggregate_of_mem valid seen
  · have none : fromStakedPeers init [message] = [] := by
      simp only [fromStakedPeers, List.filter_singleton, decide_eq_false valid, cond_false]
    rw [none, List.append_nil, aggregate_of_not_counted counts valid]
    exact counts

/-- A run of messages, by induction on them with `Counts.aggregate` for each. -/
theorem Counts.run (counts : Counts init counted self) (messages : List (RestartHeaviestFork Pubkey Hash))
    (fits : Fits init (counted ++ fromStakedPeers init messages)) :
    Counts init (counted ++ fromStakedPeers init messages) (self.run messages) := by
  induction messages generalizing counted self with
  | nil => simpa [fromStakedPeers, HeaviestForkAggregate.run] using counts
  | cons message rest ih =>
      have split : fromStakedPeers init (message :: rest) =
          fromStakedPeers init [message] ++ fromStakedPeers init rest := by
        rw [fromStakedPeers, fromStakedPeers, fromStakedPeers, ← List.filter_append,
          List.singleton_append]
      rw [split, ← List.append_assoc] at fits ⊢
      exact ih (counts.aggregate fits.of_append) fits

theorem foldl_saturatingAdd {ι : Type} (weight : ι → Nat) (l : List ι) {acc : Nat}
    (bound : acc + (l.map weight).sum ≤ u64Max) :
    l.foldl (fun sum x => saturatingAdd sum (weight x)) acc = acc + (l.map weight).sum := by
  induction l generalizing acc with
  | nil => simp
  | cons head tail ih =>
      simp only [List.map_cons, List.sum_cons] at bound
      have exact : saturatingAdd acc (weight head) = acc + weight head := by
        simp only [saturatingAdd]
        omega
      rw [List.foldl_cons, exact, ih (by omega), List.map_cons, List.sum_cons, Nat.add_assoc]

/-- The active stake is the local validator's and that of each counted sender, once. -/
theorem Counts.totalActiveStake_eq (counts : Counts init counted self)
    (start : init.activePeers = [init.myPubkey])
    (notMine : init.myPubkey ∉ senders RestartHeaviestFork.sender counted)
    (fits : (init.nodeIdToStake init.myPubkey).getD 0 +
      ∑ pubkey ∈ senders RestartHeaviestFork.sender counted, (init.nodeIdToStake pubkey).getD 0 ≤ u64Max) :
    self.totalActiveStake = (init.nodeIdToStake init.myPubkey).getD 0 +
      ∑ pubkey ∈ senders RestartHeaviestFork.sender counted, (init.nodeIdToStake pubkey).getD 0 := by
  -- the peers are the local validator and the counted senders, each once
  have peers : self.activePeers.toFinset = insert init.myPubkey (senders RestartHeaviestFork.sender counted) := by
    ext pubkey
    simp [counts.peers, start]
  have sum : (self.activePeers.map fun pubkey => (init.nodeIdToStake pubkey).getD 0).sum =
      (init.nodeIdToStake init.myPubkey).getD 0 +
        ∑ pubkey ∈ senders RestartHeaviestFork.sender counted, (init.nodeIdToStake pubkey).getD 0 := by
    rw [← List.sum_toFinset _ counts.distinct, peers, Finset.sum_insert notMine]
  rw [HeaviestForkAggregate.totalActiveStake, counts.nodeIdToStake, foldl_saturatingAdd, sum,
    Nat.zero_add]
  rw [sum, Nat.zero_add]
  exact fits

/-- Two runs that counted the same single-version messages in different orders hold the same
`block_stake_map`. -/
theorem Counts.blockStakeMap_eq_of_perm {final final' : HeaviestForkAggregate Pubkey Hash}
    {counted' : List (RestartHeaviestFork Pubkey Hash)}
    (counts : Counts init counted final) (counts' : Counts init counted' final')
    (single : SingleVersion RestartHeaviestFork.sender counted) (perm : counted.Perm counted') :
    final.blockStakeMap = final'.blockStakeMap := by
  funext key
  have present := counts.present key
  have present' := counts'.present key
  have stake := counts.stake key
  have stake' := counts'.stake key
  rw [tally_perm single perm] at present stake
  cases entry : final.blockStakeMap key <;> cases entry' : final'.blockStakeMap key <;> simp_all

end Invariant

/-- The stakes fit in a `u64`: the local validator's stake and those of the senders of `counted`
sum to at most `u64::MAX`. -/
def StakesFit (init : HeaviestForkAggregate Pubkey Hash)
    (counted : List (RestartHeaviestFork Pubkey Hash)) : Prop :=
  (init.nodeIdToStake init.myPubkey).getD 0 +
    ∑ pubkey ∈ senders RestartHeaviestFork.sender counted, (init.nodeIdToStake pubkey).getD 0 ≤ u64Max

omit [DecidableEq Hash] in
theorem StakesFit.perm {init : HeaviestForkAggregate Pubkey Hash}
    {counted counted' : List (RestartHeaviestFork Pubkey Hash)}
    (stakesFit : StakesFit init counted) (perm : counted.Perm counted') : StakesFit init counted' := by
  unfold StakesFit
  rw [← senders_perm perm]
  exact stakesFit

omit [DecidableEq Hash] in
theorem myPubkey_not_mem_senders (init : HeaviestForkAggregate Pubkey Hash)
    (messages : List (RestartHeaviestFork Pubkey Hash)) :
    init.myPubkey ∉ senders RestartHeaviestFork.sender (fromStakedPeers init messages) := by
  simp only [mem_senders, fromStakedPeers, List.mem_filter, decide_eq_true_eq, not_exists, not_and]
  intro message valid same
  exact valid.2.2.1 same

section New

variable {myShredVersion : Nat} {nodeIdToStake : Pubkey → Option Nat} {mySlot : Nat} {myHash : Hash}
  {myPubkey : Pubkey}

omit [DecidableEq Pubkey] in
theorem new_blockStakeMap_getD (key : Nat × Hash) :
    ((new myShredVersion nodeIdToStake mySlot myHash myPubkey).blockStakeMap key).getD 0 =
      if key = (mySlot, myHash) then (nodeIdToStake myPubkey).getD 0 else 0 := by
  by_cases mine : key = (mySlot, myHash)
  · subst mine
    simp [new]
  · simp [new, mine]

theorem fits_of_stakesFit {counted : List (RestartHeaviestFork Pubkey Hash)}
    (stakesFit : StakesFit (new myShredVersion nodeIdToStake mySlot myHash myPubkey) counted) :
    Fits (new myShredVersion nodeIdToStake mySlot myHash myPubkey) counted := by
  intro key
  have mine : ((new myShredVersion nodeIdToStake mySlot myHash myPubkey).blockStakeMap key).getD 0 ≤
      (nodeIdToStake myPubkey).getD 0 := by
    rw [new_blockStakeMap_getD]
    split <;> omega
  have others : tally RestartHeaviestFork.sender (forkWeight nodeIdToStake key) counted ≤
      ∑ pubkey ∈ senders RestartHeaviestFork.sender counted, (nodeIdToStake pubkey).getD 0 :=
    tally_le_sum fun message => by unfold forkWeight stakeWeight; split <;> omega
  exact (Nat.add_le_add mine others).trans stakesFit

/-- From `new`, every run counts each staked other validator with the local shred version once,
from its first fork, and the active stake is the local stake and theirs. -/
theorem run_counts (messages : List (RestartHeaviestFork Pubkey Hash))
    (stakesFit : StakesFit (new myShredVersion nodeIdToStake mySlot myHash myPubkey)
      (fromStakedPeers (new myShredVersion nodeIdToStake mySlot myHash myPubkey) messages)) :
    Counts (new myShredVersion nodeIdToStake mySlot myHash myPubkey)
        (fromStakedPeers (new myShredVersion nodeIdToStake mySlot myHash myPubkey) messages)
        ((new myShredVersion nodeIdToStake mySlot myHash myPubkey).run messages) ∧
      ((new myShredVersion nodeIdToStake mySlot myHash myPubkey).run messages).totalActiveStake =
        (nodeIdToStake myPubkey).getD 0 + ∑ pubkey ∈ senders RestartHeaviestFork.sender
          (fromStakedPeers (new myShredVersion nodeIdToStake mySlot myHash myPubkey) messages),
          (nodeIdToStake pubkey).getD 0 := by
  have initial : Counts (new myShredVersion nodeIdToStake mySlot myHash myPubkey) [] (new myShredVersion nodeIdToStake mySlot myHash myPubkey) :=
    Counts.initial rfl (List.nodup_singleton myPubkey)
  have counts := initial.run messages (by simpa using fits_of_stakesFit stakesFit)
  rw [List.nil_append] at counts
  exact ⟨counts, counts.totalActiveStake_eq rfl (myPubkey_not_mem_senders _ messages) stakesFit⟩

end New

end HeaviestForkAggregate

section Restart

variable {Pubkey Hash : Type} [DecidableEq Pubkey] [DecidableEq Hash]

open LastVotedForkSlotsAggregate HeaviestForkAggregate in
/-- The two aggregates of a restart count each other validator's stake once, from its first
accepted message, and with one version per sender the order of delivery does not matter. -/
theorem restart_aggregates_count_each_stake_once {rootBank : RootBank Pubkey}
    {repairThresholdStake : Nat → Nat} {mySlots : List Nat} {myPubkey : Pubkey}
    {init : LastVotedForkSlotsAggregate Pubkey Hash}
    (created : LastVotedForkSlotsAggregate.new rootBank repairThresholdStake mySlots myPubkey = some init)
    (totals : rootBank.HasTotals) {myShredVersion : Nat} {nodeIdToStake : Pubkey → Option Nat}
    {mySlot : Nat} {myHash : Hash} {heaviestInit : HeaviestForkAggregate Pubkey Hash}
    (heaviestCreated : HeaviestForkAggregate.new myShredVersion nodeIdToStake mySlot myHash myPubkey =
      heaviestInit)
    (lastVoted : List (RestartLastVotedForkSlots Pubkey Hash))
    (heaviest : List (RestartHeaviestFork Pubkey Hash))
    (lastVotedFit : LastVotedForkSlotsAggregate.StakesFit rootBank myPubkey (fromOthers myPubkey lastVoted))
    (heaviestFit : HeaviestForkAggregate.StakesFit heaviestInit (fromStakedPeers heaviestInit heaviest)) :
    ∃ myLastVotedSlot final, mySlots.max? = some myLastVotedSlot ∧ init.run lastVoted = some final ∧
      (∀ slot, (final.slotsStakeMap slot).getD 0 =
        (if slot ∈ mySlots ∧ rootBank.slot ≤ slot then stakeOn rootBank myPubkey slot else 0) +
          tally RestartLastVotedForkSlots.sender (slotWeight rootBank slot) (fromOthers myPubkey lastVoted)) ∧
      final.epochInfoVec = (myEpochInfos rootBank myPubkey (rootBank.getEpoch myLastVotedSlot)).map
        (addStakes rootBank (fromOthers myPubkey lastVoted)) ∧
      (∀ key, ((heaviestInit.run heaviest).blockStakeMap key).getD 0 =
        (if key = (mySlot, myHash) then (nodeIdToStake myPubkey).getD 0 else 0) +
          tally RestartHeaviestFork.sender (forkWeight nodeIdToStake key)
            (fromStakedPeers heaviestInit heaviest)) ∧
      (heaviestInit.run heaviest).totalActiveStake = (nodeIdToStake myPubkey).getD 0 +
        ∑ pubkey ∈ senders RestartHeaviestFork.sender (fromStakedPeers heaviestInit heaviest),
          (nodeIdToStake pubkey).getD 0 ∧
      (∀ lastVoted', lastVoted.Perm lastVoted' →
        SingleVersion RestartLastVotedForkSlots.sender (fromOthers myPubkey lastVoted) →
        ∃ final', init.run lastVoted' = some final' ∧ final'.slotsStakeMap = final.slotsStakeMap ∧
          final'.epochInfoVec = final.epochInfoVec) ∧
      (∀ heaviest', heaviest.Perm heaviest' →
        SingleVersion RestartHeaviestFork.sender (fromStakedPeers heaviestInit heaviest) →
        (heaviestInit.run heaviest').blockStakeMap = (heaviestInit.run heaviest).blockStakeMap ∧
          (heaviestInit.run heaviest').totalActiveStake = (heaviestInit.run heaviest).totalActiveStake) := by
  obtain ⟨myLastVotedSlot, lastSlot, built⟩ := LastVotedForkSlotsAggregate.new_eq created
  obtain ⟨final, ran, counts⟩ := LastVotedForkSlotsAggregate.run_counts created totals lastVoted lastVotedFit
  subst heaviestCreated
  obtain ⟨heaviestCounts, active⟩ := HeaviestForkAggregate.run_counts heaviest heaviestFit
  refine ⟨myLastVotedSlot, final, lastSlot, ran, fun slot => ?_, ?_, fun key => ?_, active, ?_, ?_⟩
  · rw [counts.stake, built, mySlotsStakeMap_getD]
  · rw [counts.epochs, built]
  · rw [heaviestCounts.stake, new_blockStakeMap_getD]
    rfl
  · intro lastVoted' perm single
    have counted : (fromOthers myPubkey lastVoted).Perm (fromOthers myPubkey lastVoted') :=
      perm.filter _
    obtain ⟨final', ran', counts'⟩ :=
      LastVotedForkSlotsAggregate.run_counts created totals lastVoted' (lastVotedFit.perm counted)
    obtain ⟨slots, epochs⟩ := counts.eq_of_perm counts' single counted
    exact ⟨final', ran', slots.symm, epochs.symm⟩
  · intro heaviest' perm single
    have counted : (fromStakedPeers (HeaviestForkAggregate.new myShredVersion nodeIdToStake mySlot
        myHash myPubkey) heaviest).Perm (fromStakedPeers (HeaviestForkAggregate.new myShredVersion
        nodeIdToStake mySlot myHash myPubkey) heaviest') :=
      perm.filter _
    obtain ⟨counts', active'⟩ := HeaviestForkAggregate.run_counts heaviest' (heaviestFit.perm counted)
    refine ⟨(heaviestCounts.blockStakeMap_eq_of_perm counts' single counted).symm, ?_⟩
    rw [active, active', senders_perm counted]

open LastVotedForkSlotsAggregate HeaviestForkAggregate in
theorem restart_aggregates_of_two_validators :
    ∃ (rootBank : RootBank Nat) (init : LastVotedForkSlotsAggregate Nat Nat)
      (heaviestInit : HeaviestForkAggregate Nat Nat)
      (lastVoted : List (RestartLastVotedForkSlots Nat Nat)) (heaviest : List (RestartHeaviestFork Nat Nat)),
      LastVotedForkSlotsAggregate.new rootBank (fun _ => 0) [1] 0 = some init ∧ rootBank.HasTotals ∧
      HeaviestForkAggregate.new 0 (fun _ => some 1) 1 0 0 = heaviestInit ∧
      LastVotedForkSlotsAggregate.StakesFit rootBank 0 (fromOthers 0 lastVoted) ∧
      HeaviestForkAggregate.StakesFit heaviestInit (fromStakedPeers heaviestInit heaviest) ∧
      ∃ myLastVotedSlot final, [1].max? = some myLastVotedSlot ∧ init.run lastVoted = some final ∧
        (∀ slot, (final.slotsStakeMap slot).getD 0 =
          (if slot ∈ [1] ∧ rootBank.slot ≤ slot then stakeOn rootBank 0 slot else 0) +
            tally RestartLastVotedForkSlots.sender (slotWeight rootBank slot) (fromOthers 0 lastVoted)) ∧
        final.epochInfoVec = (myEpochInfos rootBank 0 (rootBank.getEpoch myLastVotedSlot)).map
          (addStakes rootBank (fromOthers 0 lastVoted)) ∧
        (∀ key, ((heaviestInit.run heaviest).blockStakeMap key).getD 0 =
          (if key = (1, 0) then (some 1).getD 0 else 0) +
            tally RestartHeaviestFork.sender (forkWeight (fun _ => some 1) key)
              (fromStakedPeers heaviestInit heaviest)) ∧
        (heaviestInit.run heaviest).totalActiveStake = (some 1).getD 0 +
          ∑ _ ∈ senders RestartHeaviestFork.sender (fromStakedPeers heaviestInit heaviest),
            (some 1).getD 0 ∧
        (∀ lastVoted', lastVoted.Perm lastVoted' →
          SingleVersion RestartLastVotedForkSlots.sender (fromOthers 0 lastVoted) →
          ∃ final', init.run lastVoted' = some final' ∧ final'.slotsStakeMap = final.slotsStakeMap ∧
            final'.epochInfoVec = final.epochInfoVec) ∧
        (∀ heaviest', heaviest.Perm heaviest' →
          SingleVersion RestartHeaviestFork.sender (fromStakedPeers heaviestInit heaviest) →
          (heaviestInit.run heaviest').blockStakeMap = (heaviestInit.run heaviest).blockStakeMap ∧
            (heaviestInit.run heaviest').totalActiveStake = (heaviestInit.run heaviest).totalActiveStake) := by
  have totals : RootBank.HasTotals (⟨0, 0, fun _ => 0, fun _ _ => some 1, fun _ => some 3⟩ : RootBank Nat) :=
    fun _ _ _ _ => rfl
  have lastVotedFit : LastVotedForkSlotsAggregate.StakesFit
      (⟨0, 0, fun _ => 0, fun _ _ => some 1, fun _ => some 3⟩ : RootBank Nat) 0
      (fromOthers 0 [⟨1, 5, [1], List.pairwise_singleton _ _, 1, 0, 0⟩,
        (⟨1, 5, [1], List.pairwise_singleton _ _, 1, 0, 0⟩ : RestartLastVotedForkSlots Nat Nat)]) :=
    fun _ => by dsimp only; decide
  have heaviestFit : HeaviestForkAggregate.StakesFit (HeaviestForkAggregate.new 0 (fun _ => some 1) 1 0 0)
      (fromStakedPeers (HeaviestForkAggregate.new 0 (fun _ => some 1) 1 0 0)
        [(⟨1, 5, 1, 0, 1, 0⟩ : RestartHeaviestFork Nat Nat)]) := by
    unfold HeaviestForkAggregate.StakesFit
    decide
  exact ⟨_, _, _, _, _, rfl, totals, rfl, lastVotedFit, heaviestFit,
    restart_aggregates_count_each_stake_once rfl totals rfl _ _ lastVotedFit heaviestFit⟩

end Restart

end Validator.WenRestart
