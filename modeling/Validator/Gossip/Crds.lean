import Mathlib
import Validator.Data.IndexMap

namespace Validator.Gossip

open Validator.Data

/-! # The gossip CRDS table

`Crds` of `gossip/src/crds.rs`, with the `CrdsShards` of `crds_shards.rs` it keeps.  The table is
an `IndexMap` from labels to versioned values; next to it the store keeps the shards, the indices
of the contact-infos, four `BTreeMap`s from insert ordinals to indices, the indices of each
pubkey's values, the purged hashes and the contact-infos' shred versions, and all of them name
table entries by their index.

The value type is a parameter: the table reads a value's label, wallclock, hash and the few
variant-specific facts `CrdsValue` lists.  A value's pubkey and `CrdsData` variant are read off
its label, as `CrdsValue::label` builds the label from them.  `BTreeMap` is `Std.TreeMap`,
`HashMap` is `AList`, `IndexMap` and `IndexSet` are `Validator.Data`'s.  A panic, a failed
`unwrap` or a failed debug assertion is `none`; `u64` counters are `Nat`.
-/

/-- `CrdsValueLabel`. -/
inductive CrdsValueLabel (P : Type) where
  | legacyContactInfo (pubkey : P)
  | vote (index : UInt8) (pubkey : P)
  | lowestSlot (pubkey : P)
  | legacySnapshotHashes (pubkey : P)
  | epochSlots (index : UInt8) (pubkey : P)
  | accountsHashes (pubkey : P)
  | legacyVersion (pubkey : P)
  | version (pubkey : P)
  | nodeInstance (pubkey : P)
  | duplicateShred (index : UInt16) (pubkey : P)
  | snapshotHashes (pubkey : P)
  | contactInfo (pubkey : P)
  | restartLastVotedForkSlots (pubkey : P)
  | restartHeaviestFork (pubkey : P)
deriving DecidableEq, Repr

/-- The variants of `CrdsData` the table keeps an index of. -/
inductive IndexedVariant where
  | contactInfo
  | vote
  | epochSlots
  | duplicateShred
  | other
deriving DecidableEq, Repr

namespace CrdsValueLabel

variable {P : Type}

def pubkey : CrdsValueLabel P → P
  | legacyContactInfo pubkey => pubkey
  | vote _ pubkey => pubkey
  | lowestSlot pubkey => pubkey
  | legacySnapshotHashes pubkey => pubkey
  | epochSlots _ pubkey => pubkey
  | accountsHashes pubkey => pubkey
  | legacyVersion pubkey => pubkey
  | version pubkey => pubkey
  | nodeInstance pubkey => pubkey
  | duplicateShred _ pubkey => pubkey
  | snapshotHashes pubkey => pubkey
  | contactInfo pubkey => pubkey
  | restartLastVotedForkSlots pubkey => pubkey
  | restartHeaviestFork pubkey => pubkey

/-- The `CrdsData` variant a label is built from, as far as the table tells them apart. -/
def variant : CrdsValueLabel P → IndexedVariant
  | contactInfo _ => .contactInfo
  | vote _ _ => .vote
  | epochSlots _ _ => .epochSlots
  | duplicateShred _ _ => .duplicateShred
  | _ => .other

end CrdsValueLabel

/-- What the table reads of a `CrdsValue`. -/
class CrdsValue (V : Type) (P H : outParam Type) where
  label : V → CrdsValueLabel P
  wallclock : V → Nat
  hash : V → H
  /-- `ContactInfo::overrides` or `NodeInstance::overrides` of the two values' data, when both
  are of that variant. -/
  variantOverrides : V → V → Option Bool
  /-- `ContactInfo::shred_version` of a contact-info. -/
  shredVersion : V → UInt16
  /-- `CrdsData::is_deprecated`. -/
  isDeprecated : V → Bool
  /-- `CrdsFilter::hash_as_u64` of the value's hash: its first eight bytes. -/
  hashAsU64 : V → UInt64

namespace CrdsValue

variable {V P H : Type} [CrdsValue V P H]

/-- `CrdsValue::pubkey`, the pubkey of the value's label. -/
def pubkey (value : V) : P := (label value).pubkey

/-- The value's `CrdsData` variant, the one its label names. -/
def variant (value : V) : IndexedVariant := (label value).variant

end CrdsValue

open CrdsValue (label wallclock variantOverrides shredVersion isDeprecated hashAsU64)

/-- `Cursor`: the next insert ordinal a reader has not seen. -/
structure Cursor where
  ordinal : Nat
deriving DecidableEq, Repr

/-- `Cursor::consume`. -/
def Cursor.consume (cursor : Cursor) (ordinal : Nat) : Cursor :=
  ⟨max cursor.ordinal (ordinal + 1)⟩

inductive GossipRoute (P : Type) where
  | localMessage
  | pullRequest
  | pullResponse
  | pushMessage (origin : P)
deriving DecidableEq, Repr

inductive CrdsError where
  | duplicatePush (numDups : UInt8)
  | insertFailed
  | unknownStakes
deriving DecidableEq, Repr

structure VersionedCrdsValue (V : Type) where
  /-- The insert ordinal. -/
  ordinal : Nat
  value : V
  localTimestamp : Nat
  numPushRecv : Option UInt8
deriving DecidableEq, Repr

/-- `VersionedCrdsValue::new`: the value takes the cursor's ordinal. -/
def VersionedCrdsValue.new {V P : Type} (value : V) (cursor : Cursor) (localTimestamp : Nat)
    (route : GossipRoute P) : VersionedCrdsValue V :=
  let numPushRecv := match route with
    | .localMessage => none
    | .pullRequest => none
    | .pullResponse => some 0
    | .pushMessage _ => some 1
  ⟨cursor.ordinal, value, localTimestamp, numPushRecv⟩

/-! ## Shards -/

/-- `CrdsShards`: shard `k` maps the index of each value whose hash starts with the bits of
`k` to that hash. -/
structure CrdsShards where
  shards : List (IndexMap Nat UInt64)
  shardBits : Nat

def crdsShardsBits : Nat := 12

namespace CrdsShards

def new (shardBits : Nat) : CrdsShards :=
  ⟨List.replicate (2 ^ shardBits) IndexMap.empty, shardBits⟩

/-- `shard_index`: the first `shard_bits` bits of the hash; `checked_shr` by 64 or more is
`None`, read as `0`. -/
def shardIndex (shards : CrdsShards) (hash : UInt64) : Nat :=
  if 64 - shards.shardBits < 64 then (hash >>> (64 - shards.shardBits).toUInt64).toNat else 0

/-- The shard a hash goes to, updated by `update`; indexing the `Vec` out of bounds panics. -/
def updateShard (shards : CrdsShards) (hash : UInt64)
    (update : IndexMap Nat UInt64 → IndexMap Nat UInt64) : Option CrdsShards :=
  let shardIndex := shards.shardIndex hash
  (shards.shards[shardIndex]?).map fun shard =>
    { shards with shards := shards.shards.set shardIndex (update shard) }

section

variable {V P H : Type} [CrdsValue V P H]

def insert (shards : CrdsShards) (index : Nat) (value : VersionedCrdsValue V) : Option CrdsShards :=
  let hash := hashAsU64 value.value
  shards.updateShard hash fun shard => shard.insert index hash

def remove (shards : CrdsShards) (index : Nat) (value : VersionedCrdsValue V) : Option CrdsShards :=
  let hash := hashAsU64 value.value
  shards.updateShard hash fun shard => (shard.swapRemoveFull index).2

end

/-- `find`: the indices of all values whose hash starts with the first `mask_bits` bits of
`mask`. -/
def find (shards : CrdsShards) (mask : UInt64) (maskBits : Nat) : Option (List Nat) :=
  let ones : UInt64 := if maskBits < 64 then (~~~0) >>> maskBits.toUInt64 else 0
  let mask := mask ||| ones
  match compare shards.shardBits maskBits with
  | .lt =>
      (shards.shards[shards.shardIndex mask]?).map fun shard =>
        shard.entries.filterMap fun (index, hash) => if hash ||| ones == mask then some index else none
  | .eq => (shards.shards[shards.shardIndex mask]?).map fun shard => shard.keys
  | .gt =>
      let count := 2 ^ (shards.shardBits - maskBits)
      let stop := shards.shardIndex mask + 1
      -- `end - count` is a `usize` subtraction and the slice must lie inside the `Vec`
      if count ≤ stop ∧ stop ≤ shards.shards.length then
        some (((shards.shards.drop (stop - count)).take count).flatMap IndexMap.keys)
      else none

end CrdsShards

/-! ## The table -/

/-- `Crds`, without its statistics. -/
structure Crds (V P H : Type) where
  table : IndexMap (CrdsValueLabel P) (VersionedCrdsValue V)
  cursor : Cursor
  shards : CrdsShards
  nodes : IndexSet Nat
  votes : Std.TreeMap Nat Nat
  epochSlots : Std.TreeMap Nat Nat
  duplicateShreds : Std.TreeMap Nat Nat
  records : AList fun _ : P => IndexSet Nat
  entries : Std.TreeMap Nat Nat
  purged : List (H × Nat)
  shredVersions : AList fun _ : P => UInt16

namespace Crds

variable {V P H : Type} [CrdsValue V P H] [DecidableEq P] [LinearOrder H]

/-- `Crds::default`. -/
def default : Crds V P H where
  table := IndexMap.empty
  cursor := ⟨0⟩
  shards := CrdsShards.new crdsShardsBits
  nodes := IndexSet.empty
  votes := ∅
  epochSlots := ∅
  duplicateShreds := ∅
  records := ∅
  entries := ∅
  purged := []
  shredVersions := ∅

/-- `overrides`: whether `value` replaces `other`, which has the same label (the `assert_eq!`
panics otherwise).  Two contact-infos or two node-instances are first compared by their own
`overrides`; then the later wallclock wins, and a tie goes to the greater hash. -/
def overrides (value : V) (other : VersionedCrdsValue V) : Option Bool :=
  if label value ≠ label other.value then none
  else some <|
    match variantOverrides value other.value with
    | some out => out
    | none =>
        match compare (wallclock value) (wallclock other.value) with
        | .lt => false
        | .gt => true
        | .eq => CrdsValue.hash other.value < CrdsValue.hash value

/-- `upserts`. -/
def upserts (crds : Crds V P H) (value : V) : Option Bool :=
  match crds.table.get (label value) with
  | some other => overrides value other
  | none => some true

/-- The `BTreeMap` that indexes the values of `variant` by ordinal (`votes`, `epoch_slots` or
`duplicate_shreds`), changed by `update`.  Contact-infos and the other variants have none. -/
def updateOrdinalIndex (crds : Crds V P H) (variant : IndexedVariant)
    (update : Std.TreeMap Nat Nat → Std.TreeMap Nat Nat) : Crds V P H :=
  match variant with
  | .vote => { crds with votes := update crds.votes }
  | .epochSlots => { crds with epochSlots := update crds.epochSlots }
  | .duplicateShred => { crds with duplicateShreds := update crds.duplicateShreds }
  | .contactInfo | .other => crds

/-- The `match value.value.data()` of `insert` for a new label: the new entry at `entryIndex`
goes into the index of its variant. -/
def indexInserted (crds : Crds V P H) (value : VersionedCrdsValue V) (entryIndex : Nat) :
    Crds V P H :=
  match CrdsValue.variant value.value with
  | .contactInfo =>
      { crds with
        nodes := crds.nodes.insert entryIndex
        shredVersions :=
          crds.shredVersions.insert (CrdsValue.pubkey value.value) (shredVersion value.value) }
  | variant =>
      crds.updateOrdinalIndex variant fun ordinals => ordinals.insert value.ordinal entryIndex

/-- The `match value.value.data()` of `insert` for a value that overrides `old` at `entryIndex`.
The `debug_assert_matches!` fails when a contact-info overrides another variant. -/
def indexOverriding (crds : Crds V P H) (value old : VersionedCrdsValue V) (entryIndex : Nat) :
    Option (Crds V P H) :=
  match CrdsValue.variant value.value with
  | .contactInfo =>
      if CrdsValue.variant old.value = .contactInfo then
        some { crds with
          shredVersions :=
            crds.shredVersions.insert (CrdsValue.pubkey value.value) (shredVersion value.value) }
      else none
  | variant =>
      some (crds.updateOrdinalIndex variant fun ordinals =>
        (ordinals.erase old.ordinal).insert value.ordinal entryIndex)

/-- The `match value.value.data()` of `remove`: the removed value, at `index`, leaves the
index of its variant. -/
def unindexRemoved (crds : Crds V P H) (value : VersionedCrdsValue V) (index : Nat) :
    Crds V P H :=
  match CrdsValue.variant value.value with
  | .contactInfo => { crds with nodes := crds.nodes.swapRemove index }
  | variant => crds.updateOrdinalIndex variant fun ordinals => ordinals.erase value.ordinal

/-- The second `match value.value.data()` of `remove`: the value moved from `size` to `index`
is indexed at `index`. -/
def reindexMoved (crds : Crds V P H) (value : VersionedCrdsValue V) (size index : Nat) :
    Crds V P H :=
  match CrdsValue.variant value.value with
  | .contactInfo => { crds with nodes := (crds.nodes.swapRemove size).insert index }
  | variant => crds.updateOrdinalIndex variant fun ordinals => ordinals.insert value.ordinal index

/-- `self.records.entry(pubkey).or_default().insert(index)`. -/
def addRecord (records : AList fun _ : P => IndexSet Nat) (pubkey : P) (index : Nat) :
    AList fun _ : P => IndexSet Nat :=
  records.insert pubkey (((records.lookup pubkey).getD IndexSet.empty).insert index)

/-- `Crds::insert`.  A new label is pushed at the end of the table; a label present is
overwritten in place when the new value `overrides` the old one; otherwise the value is
rejected, and a duplicate pushed again bumps the stored value's push count. -/
def insert (crds : Crds V P H) (value : V) (now : Nat) (route : GossipRoute P) :
    Option (Crds V P H × Except CrdsError Unit) :=
  let label := label value
  let pubkey := label.pubkey
  let value := VersionedCrdsValue.new value crds.cursor now route
  match crds.table.getFull label with
  | none => do
      -- `Entry::Vacant`: the value goes to index `table.len()`
      let entryIndex := crds.table.len
      let shards ← crds.shards.insert entryIndex value
      let crds := { crds with shards }
      let crds := crds.indexInserted value entryIndex
      some ({ crds with
          entries := crds.entries.insert value.ordinal entryIndex
          records := addRecord crds.records pubkey entryIndex
          cursor := crds.cursor.consume value.ordinal
          table := crds.table.insert label value }, .ok ())
  | some (entryIndex, old) => do
      let replaces ← overrides value.value old
      if replaces then
        let shards ← crds.shards.remove entryIndex old
        let shards ← shards.insert entryIndex value
        let crds := { crds with shards }
        let crds ← crds.indexOverriding value old entryIndex
        let crds := { crds with
          entries := (crds.entries.erase old.ordinal).insert value.ordinal entryIndex }
        -- `debug_assert_eq!`: the pubkey does not change
        if CrdsValue.pubkey old.value ≠ pubkey then none
        else some ({ crds with
          cursor := crds.cursor.consume value.ordinal
          purged := crds.purged ++ [(CrdsValue.hash old.value, now)]
          table := crds.table.insert label value }, .ok ())
      else if CrdsValue.hash old.value ≠ CrdsValue.hash value.value then
        some ({ crds with purged := crds.purged ++ [(CrdsValue.hash value.value, now)] },
          .error .insertFailed)
      else
        match route with
        | .pushMessage _ =>
            let numPushDups := old.numPushRecv.getD 0
            -- `saturating_add(1)`
            let bumped : UInt8 := if numPushDups = 255 then 255 else numPushDups + 1
            some ({ crds with table := crds.table.insert label { old with numPushRecv := some bumped } },
              .error (.duplicatePush numPushDups))
        | _ => some (crds, .error .insertFailed)

/-- `get_shred_version`. -/
def getShredVersion (crds : Crds V P H) (pubkey : P) : Option UInt16 :=
  crds.shredVersions.lookup pubkey

/-- `get_nodes`: `table.index` panics on an index out of bounds. -/
def getNodes (crds : Crds V P H) : Option (List (VersionedCrdsValue V)) :=
  crds.nodes.elements.mapM crds.table.index

/-- `get_nodes_contact_info`: panics with "this should not happen!" on a node that is not a
contact-info. -/
def getNodesContactInfo (crds : Crds V P H) : Option (List V) :=
  crds.getNodes.bind fun nodes =>
    nodes.mapM fun node => if CrdsValue.variant node.value = .contactInfo then some node.value else none

/-- What `get_votes`, `get_epoch_slots`, `get_duplicate_shreds` and `get_entries` yield when read
to the end: the values of `index` from the cursor's ordinal on, in ordinal order, and the cursor
after consuming each ordinal. -/
def readSince (table : IndexMap (CrdsValueLabel P) (VersionedCrdsValue V))
    (index : Std.TreeMap Nat Nat) (cursor : Cursor) :
    Option (List (VersionedCrdsValue V) × Cursor) :=
  (index.toList.filter fun (ordinal, _) => cursor.ordinal ≤ ordinal).foldlM
    (fun (values, cursor) (ordinal, position) =>
      (table.index position).map fun value => (values ++ [value], cursor.consume ordinal))
    ([], cursor)

def getVotes (crds : Crds V P H) (cursor : Cursor) :
    Option (List (VersionedCrdsValue V) × Cursor) :=
  readSince crds.table crds.votes cursor

def getEpochSlots (crds : Crds V P H) (cursor : Cursor) :
    Option (List (VersionedCrdsValue V) × Cursor) :=
  readSince crds.table crds.epochSlots cursor

def getDuplicateShreds (crds : Crds V P H) (cursor : Cursor) :
    Option (List (VersionedCrdsValue V) × Cursor) :=
  readSince crds.table crds.duplicateShreds cursor

def getEntries (crds : Crds V P H) (cursor : Cursor) :
    Option (List (VersionedCrdsValue V) × Cursor) :=
  readSince crds.table crds.entries cursor

/-- `get_records`. -/
def getRecords (crds : Crds V P H) (pubkey : P) : Option (List (VersionedCrdsValue V)) :=
  (((crds.records.lookup pubkey).map IndexSet.elements).getD []).mapM crds.table.index

def numNodes (crds : Crds V P H) : Nat := crds.nodes.len

def numPubkeys (crds : Crds V P H) : Nat := crds.records.keys.length

def len (crds : Crds V P H) : Nat := crds.table.len

/-- `filter_bitmask`: the values the shards list for the mask, less deprecated values and
contact-infos of another shred version. -/
def filterBitmask (crds : Crds V P H) (mask : UInt64) (maskBits : Nat) (selfShredVersion : UInt16) :
    Option (List (VersionedCrdsValue V)) := do
  let indices ← crds.shards.find mask maskBits
  let values ← indices.mapM crds.table.index
  some <| values.filter fun entry =>
    !isDeprecated entry.value &&
      match CrdsValue.variant entry.value with
      | .contactInfo => shredVersion entry.value == selfShredVersion
      | _ => true

/-- `u64::saturating_add`. -/
def saturatingAdd (first second : Nat) : Nat := min (first + second) (2 ^ 64 - 1)

/-- `find_old_labels`, with `timeouts[pubkey]` given as a function (`CrdsTimeouts`' `Index`
never panics).  A pubkey whose contact-info has not timed out keeps all its values. -/
def findOldLabels (crds : Crds V P H) (now : Nat) (timeouts : P → Nat) :
    Option (List (CrdsValueLabel P)) :=
  let evict (pubkey : P) (index : IndexSet Nat) : Option (List (CrdsValueLabel P)) :=
    let timeout := timeouts pubkey
    let fresh := match crds.table.get (.contactInfo pubkey) with
      | some origin =>
          decide (saturatingAdd (min (wallclock origin.value) origin.localTimestamp) timeout > now)
      | none => false
    if fresh then some []
    else do
      let found ← index.elements.mapM crds.table.getIndex
      some <| (found.filter fun (_, entry) =>
        saturatingAdd (min (wallclock entry.value) entry.localTimestamp) timeout ≤ now).map Prod.fst
  (crds.records.entries.mapM fun record => evict record.1 record.2).map List.flatten

/-- `Crds::remove`.  The table swap-removes the label's entry; each index of the removed entry
is dropped, and when another entry moved into its place, that entry's indices are moved from the
old last index to the freed one. -/
def remove (crds : Crds V P H) (key : CrdsValueLabel P) (now : Nat) : Option (Crds V P H) :=
  match crds.table.swapRemoveFull key with
  | (none, _) => some crds
  | (some (index, _, value), table) => do
      let crds := { crds with table, purged := crds.purged ++ [(CrdsValue.hash value.value, now)] }
      let shards ← crds.shards.remove index value
      let crds := { crds with shards }
      let crds := crds.unindexRemoved value index
      let crds := { crds with entries := crds.entries.erase value.ordinal }
      let pubkey := CrdsValue.pubkey value.value
      -- "this should not happen!": the records of the removed value's pubkey
      let records ← crds.records.lookup pubkey
      let records := records.swapRemove index
      let crds := if records.isEmpty then
          { crds with
            records := crds.records.erase pubkey
            shredVersions := crds.shredVersions.erase pubkey }
        else { crds with records := crds.records.insert pubkey records }
      let size := crds.table.len
      if index < size then
        let moved ← crds.table.index index
        let shards ← crds.shards.remove size moved
        let shards ← shards.insert index moved
        let crds := { crds with shards }
        let crds := crds.reindexMoved moved size index
        let crds := { crds with entries := crds.entries.insert moved.ordinal index }
        let pubkey := CrdsValue.pubkey moved.value
        -- `self.records.get_mut(&pubkey).unwrap()`
        let records ← crds.records.lookup pubkey
        some { crds with records := crds.records.insert pubkey ((records.swapRemove size).insert index) }
      else some crds

/-- `should_trim`. -/
def shouldTrim (crds : Crds V P H) (cap : Nat) : Bool := 10 * crds.records.keys.length > 11 * cap

/-- `drop`: removes every value of the `size` pubkeys of least stake, except those to keep.
`keys.select_nth_unstable(size)` is `selectNthUnstable keys size`, a reordering the standard
library chooses.  The labels are collected before the first removal. -/
def drop (selectNthUnstable : List (Nat × P) → Nat → List (Nat × P)) (crds : Crds V P H)
    (size : Nat) (keep : List P) (stakes : AList fun _ : P => Nat) (now : Nat) :
    Option (Crds V P H × Except CrdsError Nat) :=
  if stakes.entries.all (fun stake => stake.2 = 0) then some (crds, .error .unknownStakes)
  else do
    let keys := crds.records.keys.map fun key => ((stakes.lookup key).getD 0, key)
    let keys := if size < keys.length then selectNthUnstable keys size else keys
    let pubkeys := ((keys.take size).map Prod.snd).filter fun key => key ∉ keep
    -- `self.records[&k]` panics on a missing pubkey, `get_index(..).unwrap()` on a bad index
    let indices ← pubkeys.mapM fun key => (crds.records.lookup key).map IndexSet.elements
    let labels ← indices.flatten.mapM fun index => (crds.table.getIndex index).map Prod.fst
    let crds ← labels.foldlM (fun crds key => crds.remove key now) crds
    some (crds, .ok labels.length)

/-- `trim`. -/
def trim (selectNthUnstable : List (Nat × P) → Nat → List (Nat × P)) (crds : Crds V P H)
    (cap : Nat) (keep : List P) (stakes : AList fun _ : P => Nat) (now : Nat) :
    Option (Crds V P H × Except CrdsError Nat) :=
  if crds.shouldTrim cap then drop selectNthUnstable crds (crds.records.keys.length - cap) keep stakes now
  else some (crds, .ok 0)

end Crds

end Validator.Gossip
