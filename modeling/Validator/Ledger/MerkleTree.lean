import Mathlib.Data.Nat.Log
import Validator.Data.HashTree
import Validator.Data.Trace

namespace Validator.Ledger.MerkleTree

open Validator.Data Validator.Data.HashTree

/-! # Merkle trees over the shreds of an erasure batch

`make_merkle_tree` stores every level of the tree in one vector, leaves first and the root last.
`make_merkle_proof` walks the levels of that vector to list a leaf's siblings, cut to 20-byte
entries, and `get_merkle_root` folds them back up from the leaf.  The hash is uninterpreted: what
is modelled is the tree's shape and the index arithmetic of the three loops, each of which
recomputes the levels' offsets on its own.
-/

/-- `shred::Error`, with the one variant this file raises. -/
inductive Error where
  | invalidMerkleProof
deriving DecidableEq, Repr

/-- The hashing the tree uses: `hashv` over `MERKLE_HASH_PREFIX_NODE` and two 20-byte entries,
and the first 20 bytes of a hash, its `MerkleProofEntry`. -/
structure Hasher (Hash Entry : Type) where
  hashv : Entry → Entry → Hash
  entry : Hash → Entry

variable {Hash Entry : Type} (hasher : Hasher Hash Entry)

/-- `join_nodes`, applied to the 20-byte prefixes it cuts both arguments to. -/
def joinNodes (node other : Entry) : Hash := hasher.hashv node other

/-- The sizes `successors(Some(k), |&k| (k > 1).then_some((k + 1) >> 1))` yields. -/
def treeSizes (k : Nat) : List Nat :=
  k :: if 1 < k then treeSizes ((k + 1) >>> 1) else []
termination_by k
decreasing_by
  rw [Nat.shiftRight_one]
  omega

def getMerkleTreeSize (numShreds : Nat) : Nat := (treeSizes numShreds).sum

/-- The sizes `successors(Some(k), |&k| (k > 2).then_some((k + 1) >> 1))` yields: the levels
`make_merkle_tree` joins, the root's level excluded. -/
def levelSizes (k : Nat) : List Nat :=
  k :: if 2 < k then levelSizes ((k + 1) >>> 1) else []
termination_by k
decreasing_by
  rw [Nat.shiftRight_one]
  omega

/-- The body of `make_merkle_tree`'s inner loop over the level at `offset`; indexing past the
end is the panic. -/
def joinLevelStep (offset size : Nat) (nodes : List Hash) (index : Nat) : Option (List Hash) := do
  let node ← nodes[index]?
  let other ← nodes[min (index + 1) (offset + size - 1)]?
  pure (nodes ++ [joinNodes hasher (hasher.entry node) (hasher.entry other)])

/-- The inner loop, over `(offset..offset + size).step_by(2)`. -/
def joinLevel (nodes : List Hash) (offset size : Nat) : Option (List Hash) :=
  (List.range' offset ((size + 1) / 2) 2).foldlM (joinLevelStep hasher offset size) nodes

/-- The outer loop, over the sizes of the levels to join. -/
def joinLevels (nodes : List Hash) : List Nat → Option (List Hash)
  | [] => some nodes
  | size :: sizes =>
      -- `nodes.len() - size` underflowing is a panic
      if size ≤ nodes.length then
        (joinLevel hasher nodes (nodes.length - size) size).bind fun nodes =>
          joinLevels nodes sizes
      else none

/-- `make_merkle_tree`: the first failed shred is the error; `none` is a panic, the
`debug_assert_eq!` on the capacity included. -/
def makeMerkleTree {ε : Type} (shreds : List (Except ε Hash)) : Option (Except ε (List Hash)) :=
  let capacity := getMerkleTreeSize shreds.length
  match shreds.mapM id with
  | .error error => some (.error error)
  | .ok nodes =>
      let init := if 1 < shreds.length then levelSizes shreds.length else []
      (joinLevels hasher nodes init).bind fun nodes =>
        if nodes.length = capacity then some (.ok nodes) else none

/-- The state of the iterator `make_merkle_proof` returns. -/
structure MerkleProof where
  index : Nat
  size : Nat
  offset : Nat
deriving DecidableEq, Repr

def makeMerkleProof (index size : Nat) (tree : List Hash) : MerkleProof :=
  if size ≤ index then
    -- force the iterator to return an error
    ⟨index, 0, tree.length⟩
  else ⟨index, size, 0⟩

/-- The iterator's closure over `tree`: the entry of the sibling at each level, then `None` at
the root. -/
def MerkleProof.next (tree : List Hash) (proof : MerkleProof) :
    Option (Except Error Entry × MerkleProof) :=
  if 1 < proof.size then
    match tree[proof.offset + min (proof.index ^^^ 1) (proof.size - 1)]? with
    | none => some (.error .invalidMerkleProof, proof)
    | some node =>
        some (.ok (hasher.entry node),
          ⟨proof.index >>> 1, (proof.size + 1) >>> 1, proof.offset + proof.size⟩)
  else if proof.offset + 1 = tree.length then none
  else some (.error .invalidMerkleProof, proof)

def getMerkleRoot (index : Nat) (node : Hash) (proof : List Entry) : Except Error Hash :=
  let (index, root) := proof.foldl (fun (index, node) other =>
    let parent :=
      if index % 2 = 0 then joinNodes hasher (hasher.entry node) other
      else joinNodes hasher other (hasher.entry node)
    (index >>> 1, parent)) (index, node)
  if index = 0 then .ok root else .error .invalidMerkleProof

end Validator.Ledger.MerkleTree
