import Validator.Data.Trace
import Validator.ForkChoice.Leaf

namespace Validator.ForkChoice

open Validator.Data HeaviestSubtreeForkChoice

/-! # Runs of the fork choice

Replay adds each new bank with `add_new_leaf_slot` and feeds the latest votes with `add_votes`.
From `new(root)`, every run of these calls, each admissible where it is made, keeps the shape of
the tree and its stake accounting exact, and no admissible call on a reachable tree panics.
-/

/-- A call that changes the tree: a new bank under its parent, or a batch of votes. -/
inductive Call where
  | addNewLeafSlot (slotHashKey parent : SlotHashKey)
  | addVotes (pubkeyVotes : List (Pubkey × SlotHashKey))
deriving DecidableEq, Repr

section Calls

variable (epochStakes : Epoch → Option (Pubkey → Nat)) (getEpoch : Slot → Epoch)

/-- The tree a call leaves, or `none` where the code panics. -/
def Call.apply : Call → HeaviestSubtreeForkChoice → Option HeaviestSubtreeForkChoice
  | .addNewLeafSlot slotHashKey parent, tree => tree.addNewLeafSlot slotHashKey (some parent)
  | .addVotes pubkeyVotes, tree => (tree.addVotes epochStakes getEpoch pubkeyVotes).map Prod.snd

/-- What replay guarantees of a call: a new bank's parent is in the tree, in an earlier slot; a
batch names each pubkey once, and each vote is on a bank of the tree or below its root. -/
def Call.Admissible : Call → HeaviestSubtreeForkChoice → Prop
  | .addNewLeafSlot slotHashKey parent, tree => tree.containsBlock parent = true ∧ parent.slot < slotHashKey.slot
  | .addVotes pubkeyVotes, tree => (pubkeyVotes.map Prod.fst).Nodup ∧
      ∀ vote ∈ pubkeyVotes, vote.2.slot < tree.treeRoot.slot ∨ tree.containsBlock vote.2 = true

instance Call.decidableAdmissible :
    (call : Call) → (tree : HeaviestSubtreeForkChoice) → Decidable (call.Admissible tree)
  | .addNewLeafSlot _ _, _ => instDecidableAnd
  | .addVotes _, _ => instDecidableAnd

/-- An admissible call, and the tree it returns. -/
def Step (tree : HeaviestSubtreeForkChoice) (call : Call) (next : HeaviestSubtreeForkChoice) : Prop :=
  call.Admissible tree ∧ call.apply epochStakes getEpoch tree = some next

variable {epochStakes getEpoch}

end Calls

end Validator.ForkChoice
