import Validator.Data.SortedMap

namespace Validator.ForkChoice

/-! # The state of `HeaviestSubtreeForkChoice`

A tree of banks keyed by slot and hash.  Each node caches the stake voted on it and on its
subtree, the height of its subtree, its best and deepest descendants, and its validity marks.
The pending updates of one batch are an ordered map from a node and a label to an operation,
replayed from the greatest key down, so that children are updated before their parents.
-/

abbrev Slot := Nat
/-- A bank hash, as the number its bytes spell: `Hash::default()` is `0`. -/
abbrev Hash := Nat
abbrev Pubkey := Nat
abbrev Epoch := Nat

structure SlotHashKey where
  slot : Slot
  hash : Hash
deriving DecidableEq, Ord, Repr

instance : LT SlotHashKey := ltOfOrd

instance (first second : SlotHashKey) : Decidable (first < second) :=
  inferInstanceAs (Decidable (compare first second = .lt))

/-- `SlotHashKey::default()`. -/
def SlotHashKey.default : SlotHashKey := ⟨0, 0⟩

inductive UpdateLabel where
  | aggregate
  | add
  | markValid (slot : Slot)
  | markInvalid (slot : Slot)
  | subtract
deriving DecidableEq, Ord, Repr

inductive UpdateOperation where
  | add (stake : Nat)
  | markValid (slot : Slot)
  | markInvalid (slot : Slot)
  | subtract (stake : Nat)
  | aggregate
deriving DecidableEq, Repr

/-- `UpdateOperation::update_stake`: only the stake operations take more stake. -/
def UpdateOperation.updateStake (newStake : Nat) : UpdateOperation → Option UpdateOperation
  | .add stake => some (.add (stake + newStake))
  | .subtract stake => some (.subtract (stake + newStake))
  | _ => none

/-- The key of an entry of `UpdateOperations`, ordered by node, then label. -/
structure OperationKey where
  key : SlotHashKey
  label : UpdateLabel
deriving DecidableEq, Ord, Repr

/-- `UpdateOperations`, a `BTreeMap<(SlotHashKey, UpdateLabel), UpdateOperation>`. -/
abbrev UpdateOperations := List (OperationKey × UpdateOperation)

structure ForkInfo where
  stakeVotedAt : Nat
  stakeVotedSubtree : Nat
  height : Nat
  bestSlot : SlotHashKey
  deepestSlot : SlotHashKey
  parent : Option SlotHashKey
  /-- A `BTreeSet`: ascending, each child once. -/
  children : List SlotHashKey
  latestInvalidAncestor : Option Slot
  isDuplicateConfirmed : Bool
deriving DecidableEq, Repr

namespace ForkInfo

variable (self : ForkInfo)

def isCandidate : Bool :=
  self.latestInvalidAncestor.isNone

def setDuplicateConfirmed : ForkInfo :=
  { self with isDuplicateConfirmed := true, latestInvalidAncestor := none }

def updateWithNewlyValidAncestor (newlyValidAncestor : Slot) : ForkInfo :=
  match self.latestInvalidAncestor with
  | some latestInvalidAncestor =>
      if latestInvalidAncestor ≤ newlyValidAncestor then
        { self with latestInvalidAncestor := none }
      else self
  | none => self

/-- `update_with_newly_invalid_ancestor`, with its `assert!` as `none`. -/
def updateWithNewlyInvalidAncestor (newlyInvalidAncestor : Slot) : Option ForkInfo :=
  if self.isDuplicateConfirmed then none
  else
    let later := (self.latestInvalidAncestor.map fun latest => decide (newlyInvalidAncestor > latest)).getD true
    if later then some { self with latestInvalidAncestor := some newlyInvalidAncestor }
    else some self

end ForkInfo

/-- A `BTreeSet<SlotHashKey>` insertion: in order, and no second copy. -/
def insertChild (child : SlotHashKey) : List SlotHashKey → List SlotHashKey
  | [] => [child]
  | other :: rest =>
      match compare child other with
      | .lt => child :: other :: rest
      | .eq => other :: rest
      | .gt => other :: insertChild child rest

structure HeaviestSubtreeForkChoice where
  /-- A `HashMap`, as an association list with each key once. -/
  forkInfos : List (SlotHashKey × ForkInfo)
  latestVotes : List (Pubkey × SlotHashKey)
  treeRoot : SlotHashKey
deriving DecidableEq, Repr

namespace HeaviestSubtreeForkChoice

variable (self : HeaviestSubtreeForkChoice)

def forkInfo? (key : SlotHashKey) : Option ForkInfo :=
  (self.forkInfos.find? fun entry => entry.1 = key).map Prod.snd

/-- `fork_infos.insert`: replaces the node's entry, or adds one. -/
def setForkInfo (key : SlotHashKey) (info : ForkInfo) : HeaviestSubtreeForkChoice :=
  if self.forkInfos.any fun entry => entry.1 = key then
    { self with forkInfos := self.forkInfos.map fun entry =>
        if entry.1 = key then (key, info) else entry }
  else { self with forkInfos := self.forkInfos ++ [(key, info)] }

/-- `fork_infos.get_mut(key)` and a change of the entry, when there is one. -/
def modifyForkInfo (key : SlotHashKey) (change : ForkInfo → ForkInfo) :
    HeaviestSubtreeForkChoice :=
  match self.forkInfo? key with
  | some info => self.setForkInfo key (change info)
  | none => self

def removeForkInfo (key : SlotHashKey) : HeaviestSubtreeForkChoice :=
  { self with forkInfos := self.forkInfos.filter fun entry => entry.1 ≠ key }

def containsBlock (key : SlotHashKey) : Bool :=
  (self.forkInfo? key).isSome

def bestSlot (key : SlotHashKey) : Option SlotHashKey :=
  (self.forkInfo? key).map (·.bestSlot)

def deepestSlot (key : SlotHashKey) : Option SlotHashKey :=
  (self.forkInfo? key).map (·.deepestSlot)

def stakeVotedSubtree (key : SlotHashKey) : Option Nat :=
  (self.forkInfo? key).map (·.stakeVotedSubtree)

def stakeVotedAt (key : SlotHashKey) : Option Nat :=
  (self.forkInfo? key).map (·.stakeVotedAt)

def height (key : SlotHashKey) : Option Nat :=
  (self.forkInfo? key).map (·.height)

def latestInvalidAncestor (key : SlotHashKey) : Option Slot :=
  (self.forkInfo? key).bind (·.latestInvalidAncestor)

def isDuplicateConfirmed (key : SlotHashKey) : Option Bool :=
  (self.forkInfo? key).map (·.isDuplicateConfirmed)

def isCandidate (key : SlotHashKey) : Option Bool :=
  (self.forkInfo? key).map (·.isCandidate)

def parent (key : SlotHashKey) : Option SlotHashKey :=
  (self.forkInfo? key).bind (·.parent)

def children (key : SlotHashKey) : Option (List SlotHashKey) :=
  (self.forkInfo? key).map (·.children)

def bestOverallSlot : Option SlotHashKey :=
  self.bestSlot self.treeRoot

/-- The walks over the tree: following parent links, or visiting a subtree, each node is met
at most once, so as many steps as there are nodes are enough. -/
def fuel : Nat :=
  self.forkInfos.length + 1

end HeaviestSubtreeForkChoice

end Validator.ForkChoice
