import Validator.Gossip.CrdsInsert

/-!
`Crds::remove` keeps the table's invariant.

`remove` swap-removes the label's entry, so the table's last entry silently moves into the freed
position.  The proof follows the two halves the source itself comments on: `forgetEntry` drops
the removed position from every index, leaving the state `Forgotten` (every index describes the
old table without that position); then either the removed entry was the last one (`settle`), or
`relocateLast` moves the old last entry's indices to the freed position.
-/

namespace Validator.Gossip

open Validator.Data
open CrdsValue (label hashAsU64)

namespace Crds

variable {V P H : Type} [CrdsValue V P H] [DecidableEq P] [LinearOrder H]

/-- The first half of `remove`: the entry at `index` is recorded as purged and leaves the shards,
its variant's index, `entries` and its pubkey's records. -/
def forgetEntry (crds : Crds V P H) (table : IndexMap (CrdsValueLabel P) (VersionedCrdsValue V))
    (index : Nat) (value : VersionedCrdsValue V) (now : Nat) : Option (Crds V P H) := do
  let crds := { crds with table, purged := crds.purged ++ [(CrdsValue.hash value.value, now)] }
  let shards ← crds.shards.remove index value
  let crds := { crds with shards }
  let crds := crds.unindexRemoved value index
  let crds := { crds with entries := crds.entries.erase value.ordinal }
  let pubkey := CrdsValue.pubkey value.value
  let records ← crds.records.lookup pubkey
  let records := records.swapRemove index
  -- the two outcomes of the source's records step, field by field
  some { crds with
    records := if records.isEmpty then crds.records.erase pubkey else crds.records.insert pubkey records
    shredVersions := if records.isEmpty then crds.shredVersions.erase pubkey else crds.shredVersions }

/-- The second half of `remove`: the table's old last entry, now at `index`, moves there in the
shards, its variant's index, `entries` and its pubkey's records. -/
def relocateLast (crds : Crds V P H) (index : Nat) : Option (Crds V P H) := do
  let size := crds.table.len
  let moved ← crds.table.index index
  let shards ← crds.shards.remove size moved
  let shards ← shards.insert index moved
  let crds := { crds with shards }
  let crds := crds.reindexMoved moved size index
  let crds := { crds with entries := crds.entries.insert moved.ordinal index }
  let pubkey := CrdsValue.pubkey moved.value
  let records ← crds.records.lookup pubkey
  some { crds with records := crds.records.insert pubkey ((records.swapRemove size).insert index) }

omit [LinearOrder H] in
theorem remove_eq (crds : Crds V P H) (key : CrdsValueLabel P) (now : Nat) :
    crds.remove key now =
      match crds.table.swapRemoveFull key with
      | (none, _) => some crds
      | (some (index, _, value), table) =>
          (crds.forgetEntry table index value now).bind fun crds =>
            if index < crds.table.len then crds.relocateLast index else some crds := by
  unfold remove forgetEntry relocateLast
  rcases crds.table.swapRemoveFull key with ⟨_ | ⟨index, _, value⟩, table⟩
  · rfl
  · simp only [Option.bind_eq_bind, Option.bind_assoc, Option.bind_some]
    -- the model branches on the emptied records with the whole state, the halves field by field
    congr 1
    funext shards
    congr 1
    funext records
    split <;> rfl

/-- The state halfway through `remove`: the table is already `stored` with position `index`
swap-removed, while every index describes `stored` without `index`, the last entry still at its
old position. -/
structure Forgotten (crds : Crds V P H) (stored : List (CrdsValueLabel P × VersionedCrdsValue V))
    (index : Nat) : Prop where
  swapped : crds.table.entries = swapRemoveAt stored index
  inside : index < stored.length
  labelled : ∀ {position : Nat} {key : CrdsValueLabel P} {entry : VersionedCrdsValue V},
    stored[position]? = some (key, entry) → CrdsValue.label entry.value = key
  ordinalsBelow : ∀ {position : Nat} {key : CrdsValueLabel P} {entry : VersionedCrdsValue V},
    stored[position]? = some (key, entry) → entry.ordinal < crds.cursor.ordinal
  ordinalsDistinct : OrdinalsDistinct stored
  nodes : ∀ position, position ∈ crds.nodes ↔ position ≠ index ∧
    EntryAt stored position fun entry => CrdsValue.variant entry.2.value = .contactInfo
  votes : MapRelates crds.votes fun ordinal position =>
    position ≠ index ∧ OrdinalAt stored (· = .vote) ordinal position
  epochSlots : MapRelates crds.epochSlots fun ordinal position =>
    position ≠ index ∧ OrdinalAt stored (· = .epochSlots) ordinal position
  duplicateShreds : MapRelates crds.duplicateShreds fun ordinal position =>
    position ≠ index ∧ OrdinalAt stored (· = .duplicateShred) ordinal position
  entries : MapRelates crds.entries fun ordinal position =>
    position ≠ index ∧ OrdinalAt stored (fun _ => True) ordinal position
  records : RecordsRelate crds.records fun pubkey position =>
    position ≠ index ∧ EntryAt stored position fun entry => CrdsValue.pubkey entry.2.value = pubkey
  shardBits : crds.shards.shardBits = crdsShardsBits
  shardCount : crds.shards.shards.length = 2 ^ crdsShardsBits
  shards : ShardsRelate crds.shards fun shard position hash =>
    position ≠ index ∧ ShardAt crds.shards.shardIndex stored shard position hash
  shredVersions : ∀ pubkey, pubkey ∈ crds.shredVersions → pubkey ∈ crds.records

variable {crds : Crds V P H}

omit [LinearOrder H] in
theorem Inv.forgetEntry (inv : crds.Inv) {index : Nat} {key : CrdsValueLabel P}
    {value : VersionedCrdsValue V} (found : crds.table.entries[index]? = some (key, value))
    {table : IndexMap (CrdsValueLabel P) (VersionedCrdsValue V)}
    (swapped : table.entries = swapRemoveAt crds.table.entries index) (now : Nat) :
    ∃ forgotten, crds.forgetEntry table index value now = some forgotten ∧
      forgotten.Forgotten crds.table.entries index := by
  obtain ⟨shards, removedShards, shardBits, shardCount⟩ :=
    CrdsShards.remove_isSome inv.shardBits inv.shardCount index value
  obtain ⟨set, lookupEq, records⟩ := inv.records.forgetAt found
  have lookupValue : crds.records.lookup (CrdsValue.pubkey value.value) = some set := lookupEq
  simp only [Crds.forgetEntry, removedShards, unindexRemoved_eq, lookupValue, Option.bind_eq_bind,
    Option.bind_some]
  refine ⟨_, rfl, ?_⟩
  refine
    { swapped := swapped
      inside := (List.getElem?_eq_some_iff.mp found).1
      labelled := inv.labelled
      ordinalsBelow := inv.ordinalsBelow
      ordinalsDistinct := inv.ordinalsDistinct
      nodes := nodes_forget found inv.nodes
      votes := inv.votes.forget inv.ordinalsDistinct found
      epochSlots := inv.epochSlots.forget inv.ordinalsDistinct found
      duplicateShreds := inv.duplicateShreds.forget inv.ordinalsDistinct found
      entries := ?entries
      records := records
      shardBits := shardBits
      shardCount := shardCount
      shards := inv.shards.forgetAt found removedShards
      shredVersions := ?shredVersions }
  case entries =>
    have forgotten := inv.entries.forget inv.ordinalsDistinct found
    rwa [if_pos trivial] at forgotten
  case shredVersions =>
    intro pubkey member
    by_cases empty : (set.swapRemove index).isEmpty = true
    · simp only [empty, if_true, AList.mem_erase] at member ⊢
      exact ⟨member.1, inv.shredVersions pubkey member.2⟩
    · simp only [empty] at member ⊢
      exact (AList.mem_insert _).mpr (Or.inr (inv.shredVersions pubkey member))

namespace Forgotten

variable {stored : List (CrdsValueLabel P × VersionedCrdsValue V)} {index : Nat}

omit [LinearOrder H] in
theorem labelled_table (forgotten : crds.Forgotten stored index) {position : Nat}
    {key : CrdsValueLabel P} {entry : VersionedCrdsValue V}
    (found : crds.table.entries[position]? = some (key, entry)) : label entry.value = key := by
  rw [forgotten.swapped] at found
  exact forgotten.labelled (getElem?_swapRemoveAt_eq_some forgotten.inside found).2

omit [LinearOrder H] in
theorem ordinalsBelow_table (forgotten : crds.Forgotten stored index) {position : Nat}
    {key : CrdsValueLabel P} {entry : VersionedCrdsValue V}
    (found : crds.table.entries[position]? = some (key, entry)) :
    entry.ordinal < crds.cursor.ordinal := by
  rw [forgotten.swapped] at found
  exact forgotten.ordinalsBelow (getElem?_swapRemoveAt_eq_some forgotten.inside found).2

omit [LinearOrder H] in
/-- Two positions of the swap-removed table come from two positions before it. -/
theorem ordinalsDistinct_table (forgotten : crds.Forgotten stored index) :
    OrdinalsDistinct crds.table.entries := by
  intro first second firstEntry secondEntry firstAt secondAt ordinalEq
  rw [forgotten.swapped] at firstAt secondAt
  obtain ⟨firstKept, firstStored⟩ := getElem?_swapRemoveAt_eq_some forgotten.inside firstAt
  obtain ⟨secondKept, secondStored⟩ := getElem?_swapRemoveAt_eq_some forgotten.inside secondAt
  have sameSource := forgotten.ordinalsDistinct firstStored secondStored ordinalEq
  split_ifs at sameSource <;> omega

omit [LinearOrder H] in
/-- When the removed entry was the last, nothing moves and the state is already well formed. -/
theorem settle (forgotten : crds.Forgotten stored index) (last : index + 1 = stored.length) :
    crds.Inv := by
  have swapped := forgotten.swapped
  refine
    { labelled := forgotten.labelled_table
      ordinalsBelow := forgotten.ordinalsBelow_table
      ordinalsDistinct := forgotten.ordinalsDistinct_table
      nodes := ?nodes
      votes := ?votes
      epochSlots := ?epochSlots
      duplicateShreds := ?duplicateShreds
      entries := ?entries
      records := ?records
      shardBits := forgotten.shardBits
      shardCount := forgotten.shardCount
      shards := ?shards
      shredVersions := forgotten.shredVersions }
  all_goals rw [swapped]
  case nodes => exact fun other => (forgotten.nodes other).trans (entryAt_swapRemoveAt_of_last last).symm
  case votes => exact forgotten.votes.settle last
  case epochSlots => exact forgotten.epochSlots.settle last
  case duplicateShreds => exact forgotten.duplicateShreds.settle last
  case entries => exact forgotten.entries.settle last
  case records => exact RecordsRelate.settle last forgotten.records
  case shards => exact forgotten.shards.settle last

omit [LinearOrder H] in
/-- Otherwise the old last entry, which the swap put at `index`, is moved there in every index. -/
theorem relocateLast (forgotten : crds.Forgotten stored index) (before : index + 1 < stored.length) :
    ∃ relocated, crds.relocateLast index = some relocated ∧ relocated.Inv := by
  have swapped := forgotten.swapped
  obtain ⟨moved, lastAt⟩ : ∃ moved, stored[stored.length - 1]? = some moved :=
    ⟨_, List.getElem?_eq_getElem (by omega)⟩
  have sizeEq : crds.table.len = stored.length - 1 := by
    rw [IndexMap.len, swapped, length_swapRemoveAt]
  have movedAt : crds.table.index index = some moved.2 := by
    rw [IndexMap.index, swapped, getElem?_swapRemoveAt forgotten.inside, if_pos before, if_pos rfl,
      lastAt]
    rfl
  obtain ⟨middle, shards, removedShards, insertedShards, shardBits, shardCount⟩ :=
    CrdsShards.remove_insert_isSome forgotten.shardBits forgotten.shardCount (stored.length - 1) index
      moved.2 moved.2
  obtain ⟨set, lookupEq, records⟩ := forgotten.records.moveAt before lastAt
  have lookupMoved : crds.records.lookup (CrdsValue.pubkey moved.2.value) = some set := lookupEq
  simp only [Crds.relocateLast, sizeEq, movedAt, removedShards, insertedShards, reindexMoved_eq,
    lookupMoved, Option.bind_eq_bind, Option.bind_some]
  refine ⟨_, rfl, ?_⟩
  refine
    { labelled := forgotten.labelled_table
      ordinalsBelow := forgotten.ordinalsBelow_table
      ordinalsDistinct := forgotten.ordinalsDistinct_table
      nodes := ?nodes
      votes := ?votes
      epochSlots := ?epochSlots
      duplicateShreds := ?duplicateShreds
      entries := ?entries
      records := ?records
      shardBits := shardBits
      shardCount := shardCount
      shards := ?shards
      shredVersions := ?shredVersions }
  all_goals try rw [swapped]
  case nodes => exact nodes_move before lastAt forgotten.nodes
  case votes => exact forgotten.votes.move forgotten.ordinalsDistinct before lastAt
  case epochSlots => exact forgotten.epochSlots.move forgotten.ordinalsDistinct before lastAt
  case duplicateShreds => exact forgotten.duplicateShreds.move forgotten.ordinalsDistinct before lastAt
  case entries =>
    have moved := forgotten.entries.move forgotten.ordinalsDistinct before lastAt
    rwa [if_pos trivial] at moved
  case records => exact records
  case shards => exact forgotten.shards.moveAt before lastAt removedShards insertedShards
  case shredVersions =>
    intro pubkey member
    exact (AList.mem_insert _).mpr (Or.inr (forgotten.shredVersions pubkey member))

end Forgotten

omit [LinearOrder H] in
/-- Every removal from a well-formed table returns, and leaves it well formed. -/
theorem Inv.remove (inv : crds.Inv) (key : CrdsValueLabel P) (now : Nat) :
    ∃ crds', crds.remove key now = some crds' ∧ crds'.Inv := by
  rw [remove_eq]
  cases found : crds.table.getFull key with
  | none =>
      rw [IndexMap.swapRemoveFull_of_not_mem (IndexMap.getFull_eq_none_iff.mp found)]
      exact ⟨crds, rfl, inv⟩
  | some located =>
      obtain ⟨index, value⟩ := located
      have at_ := IndexMap.getFull_eq_some_iff.mp found
      obtain ⟨removedEntry, swapped⟩ := IndexMap.swapRemoveFull_of_getElem? at_
      obtain ⟨forgotten, forgot, forgottenInv⟩ := inv.forgetEntry at_ swapped now
      have removal : crds.table.swapRemoveFull key =
          (some (index, key, value), (crds.table.swapRemoveFull key).2) := Prod.ext removedEntry rfl
      rw [removal]
      dsimp only
      rw [forgot, Option.bind_some]
      by_cases before : index + 1 < crds.table.entries.length
      · have inside : index < forgotten.table.len := by
          rw [IndexMap.len, forgottenInv.swapped, length_swapRemoveAt]
          omega
        rw [if_pos inside]
        exact forgottenInv.relocateLast before
      · have outside : ¬ index < forgotten.table.len := by
          rw [IndexMap.len, forgottenInv.swapped, length_swapRemoveAt]
          omega
        rw [if_neg outside]
        exact ⟨forgotten, rfl, forgottenInv.settle (by have := forgottenInv.inside; omega)⟩

end Crds

end Validator.Gossip
