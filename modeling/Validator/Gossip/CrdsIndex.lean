import Validator.Gossip.Crds

namespace Validator.Gossip

open Validator.Data
open CrdsValue (hashAsU64)

/-! # The table's indexes

Every index of `Crds` names table entries by their index, and `Crds.Inv` says that each names
exactly the entries it is about.  Each index is read as a relation (`MapRelates`,
`RecordsRelate`, `ShardsRelate`, or membership for `nodes`); the lemmas of the first half say how
the operations `crds.rs` applies to an index change its relation, the lemmas of the second half
how the table's swap-removal and overwrites change the relation the index has to be.
-/

/-! ## Maps and sets as relations -/

/-- `index` maps exactly the pairs of `related`. -/
def MapRelates (index : Std.TreeMap Nat Nat) (related : Nat → Nat → Prop) : Prop :=
  ∀ ordinal position, index[ordinal]? = some position ↔ related ordinal position

section Maps

variable {index : Std.TreeMap Nat Nat} {related : Nat → Nat → Prop}

theorem treeMap_insert_eq_some {key value ordinal position : Nat} :
    (index.insert key value)[ordinal]? = some position ↔
      (ordinal = key ∧ position = value) ∨ (ordinal ≠ key ∧ index[ordinal]? = some position) := by
  rw [Std.TreeMap.getElem?_insert]
  by_cases same : ordinal = key
  · subst same
    simp [eq_comm]
  · simp [same, Ne.symm same]

theorem treeMap_erase_eq_some {key ordinal position : Nat} :
    (index.erase key)[ordinal]? = some position ↔ ordinal ≠ key ∧ index[ordinal]? = some position := by
  rw [Std.TreeMap.getElem?_erase]
  by_cases same : ordinal = key
  · subst same
    simp
  · simp [same, Ne.symm same]

theorem MapRelates.insert (relates : MapRelates index related) (key value : Nat) :
    MapRelates (index.insert key value) fun ordinal position =>
      (ordinal = key ∧ position = value) ∨ (ordinal ≠ key ∧ related ordinal position) := by
  intro ordinal position
  rw [treeMap_insert_eq_some, relates]

theorem MapRelates.erase (relates : MapRelates index related) (key : Nat) :
    MapRelates (index.erase key) fun ordinal position => ordinal ≠ key ∧ related ordinal position := by
  intro ordinal position
  rw [treeMap_erase_eq_some, relates]

theorem MapRelates.congr {other : Nat → Nat → Prop} (relates : MapRelates index related)
    (same : ∀ ordinal position, related ordinal position ↔ other ordinal position) :
    MapRelates index other := fun ordinal position => (relates ordinal position).trans (same _ _)

end Maps

/-- `records` lists exactly the positions `related` to each pubkey, and keeps no pubkey with none. -/
structure RecordsRelate {P : Type} [DecidableEq P] (records : AList fun _ : P => IndexSet Nat)
    (related : P → Nat → Prop) : Prop where
  mem : ∀ pubkey position,
    (∃ set, records.lookup pubkey = some set ∧ position ∈ set) ↔ related pubkey position
  nonempty : ∀ pubkey set, records.lookup pubkey = some set → ∃ position, position ∈ set

section Records

variable {P : Type} [DecidableEq P] {records : AList fun _ : P => IndexSet Nat}
  {related : P → Nat → Prop}

theorem RecordsRelate.congr {other : P → Nat → Prop} (relate : RecordsRelate records related)
    (same : ∀ pubkey position, related pubkey position ↔ other pubkey position) :
    RecordsRelate records other :=
  ⟨fun pubkey position => (relate.mem pubkey position).trans (same _ _), relate.nonempty⟩

theorem RecordsRelate.lookup_of_related (relate : RecordsRelate records related) {pubkey : P}
    {position : Nat} (holds : related pubkey position) :
    ∃ set, records.lookup pubkey = some set ∧ position ∈ set :=
  (relate.mem pubkey position).mpr holds

/-- `records.entry(pubkey).or_default().insert(index)` relates one more pair. -/
theorem RecordsRelate.addRecord (relate : RecordsRelate records related) (pubkey : P) (added : Nat) :
    RecordsRelate (Crds.addRecord records pubkey added) fun other position =>
      (other = pubkey ∧ position = added) ∨ related other position := by
  constructor
  · intro other position
    unfold Crds.addRecord
    by_cases same : other = pubkey
    · subst same
      rw [AList.lookup_insert]
      simp only [Option.some.injEq, exists_eq_left', IndexSet.mem_insert, true_and]
      cases found : records.lookup other with
      | none =>
          simp only [Option.getD_none, IndexSet.not_mem_empty, or_false]
          constructor
          · exact Or.inl
          · rintro (rfl | holds)
            · rfl
            · obtain ⟨set, missing, _⟩ := relate.lookup_of_related holds
              rw [found] at missing
              cases missing
      | some set =>
          simp only [Option.getD_some]
          rw [← relate.mem other position, found]
          simp
    · rw [AList.lookup_insert_ne same, relate.mem]
      simp [same]
  · intro other set found
    unfold Crds.addRecord at found
    by_cases same : other = pubkey
    · subst same
      rw [AList.lookup_insert, Option.some.injEq] at found
      exact ⟨added, found ▸ IndexSet.mem_insert.mpr (Or.inl rfl)⟩
    · rw [AList.lookup_insert_ne same] at found
      exact relate.nonempty other set found

/-- The first records step of `remove`: the removed position leaves its pubkey's set, and the
pubkey goes when its set is left empty. -/
theorem RecordsRelate.forget (relate : RecordsRelate records related) {pubkey : P} {removed : Nat}
    {set : IndexSet Nat} (found : records.lookup pubkey = some set) :
    RecordsRelate
      (if (set.swapRemove removed).isEmpty then records.erase pubkey
        else records.insert pubkey (set.swapRemove removed))
      fun other position => ¬ (other = pubkey ∧ position = removed) ∧ related other position := by
  have fromSet : ∀ position, position ∈ set ↔ related pubkey position := fun position => by
    rw [← relate.mem pubkey position, found]
    simp
  constructor
  · intro other position
    by_cases same : other = pubkey
    · subst same
      split
      · rename_i empty
        rw [AList.lookup_erase]
        simp only [reduceCtorEq, false_and, exists_false, false_iff, not_and]
        intro apart holds
        have left := (IndexSet.isEmpty_iff.mp empty) position
        rw [IndexSet.mem_swapRemove, fromSet] at left
        exact left ⟨apart trivial, holds⟩
      · rw [AList.lookup_insert]
        simp only [Option.some.injEq, exists_eq_left', IndexSet.mem_swapRemove, fromSet, true_and]
    · have untouched : ∀ changed : AList fun _ : P => IndexSet Nat,
          changed.lookup other = records.lookup other →
          ((∃ set, changed.lookup other = some set ∧ position ∈ set) ↔
            ¬ (other = pubkey ∧ position = removed) ∧ related other position) := by
        intro changed lookupEq
        rw [lookupEq, relate.mem]
        simp [same]
      split
      · exact untouched _ (AList.lookup_erase_ne same)
      · exact untouched _ (AList.lookup_insert_ne same)
  · intro other kept lookupKept
    by_cases same : other = pubkey
    · subst same
      split at lookupKept
      · rw [AList.lookup_erase] at lookupKept
        cases lookupKept
      · rename_i nonempty
        rw [AList.lookup_insert, Option.some.injEq] at lookupKept
        subst lookupKept
        by_contra none
        exact nonempty (IndexSet.isEmpty_iff.mpr fun position member => none ⟨position, member⟩)
    · split at lookupKept
      · rw [AList.lookup_erase_ne same] at lookupKept
        exact relate.nonempty other kept lookupKept
      · rw [AList.lookup_insert_ne same] at lookupKept
        exact relate.nonempty other kept lookupKept

/-- The second records step of `remove`: a position of `pubkey` moves from `source` to
`target`. -/
theorem RecordsRelate.move (relate : RecordsRelate records related) {pubkey : P}
    {source target : Nat} {set : IndexSet Nat} (found : records.lookup pubkey = some set) :
    RecordsRelate (records.insert pubkey ((set.swapRemove source).insert target))
      fun other position => (other = pubkey ∧ position = target) ∨
        (¬ (other = pubkey ∧ position = source) ∧ related other position) := by
  have fromSet : ∀ position, position ∈ set ↔ related pubkey position := fun position => by
    rw [← relate.mem pubkey position, found]
    simp
  constructor
  · intro other position
    by_cases same : other = pubkey
    · subst same
      rw [AList.lookup_insert]
      simp only [Option.some.injEq, exists_eq_left', IndexSet.mem_insert, IndexSet.mem_swapRemove,
        fromSet, true_and]
    · rw [AList.lookup_insert_ne same, relate.mem]
      simp [same]
  · intro other kept lookupKept
    by_cases same : other = pubkey
    · subst same
      rw [AList.lookup_insert, Option.some.injEq] at lookupKept
      exact ⟨target, lookupKept ▸ IndexSet.mem_insert.mpr (Or.inl rfl)⟩
    · rw [AList.lookup_insert_ne same] at lookupKept
      exact relate.nonempty other kept lookupKept

end Records

/-- The shards hold exactly the triples (shard, position, hash) of `related`. -/
def ShardsRelate (shards : CrdsShards) (related : Nat → Nat → UInt64 → Prop) : Prop :=
  ∀ shardIndex position hash,
    (∃ shard, shards.shards[shardIndex]? = some shard ∧ shard.get position = some hash) ↔
      related shardIndex position hash

namespace CrdsShards

variable {V P H : Type} [CrdsValue V P H] {shards shards' : CrdsShards}
  {related : Nat → Nat → UInt64 → Prop}

/-- With the table's 12 bits, a shard index is below the `2^12` shards. -/
theorem shardIndex_lt (bits : shards.shardBits = crdsShardsBits) (hash : UInt64) :
    shards.shardIndex hash < 2 ^ crdsShardsBits := by
  unfold shardIndex
  rw [bits, if_pos (by decide), UInt64.toNat_shiftRight, Nat.shiftRight_eq_div_pow]
  have below := UInt64.toNat_lt hash
  have shift : ((64 - crdsShardsBits).toUInt64.toNat % 64) = 52 := by decide
  rw [shift]
  simp only [crdsShardsBits]
  omega

theorem updateShard_eq_some {hash : UInt64} {update : IndexMap Nat UInt64 → IndexMap Nat UInt64} :
    shards.updateShard hash update = some shards' ↔
      ∃ shard, shards.shards[shards.shardIndex hash]? = some shard ∧
        shards' = { shards with shards := shards.shards.set (shards.shardIndex hash) (update shard) } := by
  unfold updateShard
  rw [Option.map_eq_some_iff]
  exact exists_congr fun shard => and_congr_right fun _ => eq_comm

theorem shardIndex_lt_length (bits : shards.shardBits = crdsShardsBits)
    (count : shards.shards.length = 2 ^ crdsShardsBits) (hash : UInt64) :
    shards.shardIndex hash < shards.shards.length :=
  count ▸ shardIndex_lt bits hash

theorem updateShard_isSome {hash : UInt64} (update : IndexMap Nat UInt64 → IndexMap Nat UInt64)
    (inside : shards.shardIndex hash < shards.shards.length) :
    ∃ updated, shards.updateShard hash update = some updated := by
  obtain ⟨shard, found⟩ : ∃ shard, shards.shards[shards.shardIndex hash]? = some shard :=
    ⟨_, List.getElem?_eq_getElem inside⟩
  exact ⟨_, updateShard_eq_some.mpr ⟨shard, found, rfl⟩⟩

/-- Updating one shard keeps the shard bits and the number of shards. -/
theorem updateShard_shape {hash : UInt64} {update : IndexMap Nat UInt64 → IndexMap Nat UInt64}
    (updated : shards.updateShard hash update = some shards') :
    shards'.shardBits = shards.shardBits ∧ shards'.shards.length = shards.shards.length ∧
      shards'.shardIndex = shards.shardIndex := by
  obtain ⟨shard, _, rfl⟩ := updateShard_eq_some.mp updated
  exact ⟨rfl, List.length_set, rfl⟩

end CrdsShards

section Shards

variable {V P H : Type} [CrdsValue V P H] {shards shards' : CrdsShards}
  {related : Nat → Nat → UInt64 → Prop}

/-- Updating one shard changes the triples of that shard only. -/
theorem ShardsRelate.updateShard {hash : UInt64} {update : IndexMap Nat UInt64 → IndexMap Nat UInt64}
    (relate : ShardsRelate shards related) (updated : shards.updateShard hash update = some shards')
    {changed : Nat → UInt64 → Prop}
    (effect : ∀ shard, shards.shards[shards.shardIndex hash]? = some shard →
      ∀ position stored, (update shard).get position = some stored ↔ changed position stored) :
    ShardsRelate shards' fun index position stored =>
      if index = shards.shardIndex hash then changed position stored
      else related index position stored := by
  obtain ⟨shard, found, rfl⟩ := CrdsShards.updateShard_eq_some.mp updated
  intro index position stored
  dsimp only
  rw [List.getElem?_set]
  by_cases same : index = shards.shardIndex hash
  · subst same
    rw [if_pos rfl, if_pos (List.getElem?_eq_some_iff.mp found).1, if_pos rfl,
      ← effect shard found]
    simp
  · rw [if_neg (Ne.symm same), if_neg same, relate]

theorem ShardsRelate.insert (relate : ShardsRelate shards related) {position : Nat}
    {value : VersionedCrdsValue V} (inserted : shards.insert position value = some shards') :
    ShardsRelate shards' fun index other stored =>
      if index = shards.shardIndex (hashAsU64 value.value) then
        (other = position ∧ stored = hashAsU64 value.value) ∨
          (other ≠ position ∧ related (shards.shardIndex (hashAsU64 value.value)) other stored)
      else related index other stored := by
  refine relate.updateShard inserted fun shard found other stored => ?_
  rw [IndexMap.get_insert, ← relate, found]
  by_cases same : other = position
  · simp [same, eq_comm]
  · simp [same]

theorem ShardsRelate.remove (relate : ShardsRelate shards related) {position : Nat}
    {value : VersionedCrdsValue V} (removed : shards.remove position value = some shards') :
    ShardsRelate shards' fun index other stored =>
      if index = shards.shardIndex (hashAsU64 value.value) then
        other ≠ position ∧ related (shards.shardIndex (hashAsU64 value.value)) other stored
      else related index other stored := by
  refine relate.updateShard removed fun shard found other stored => ?_
  rw [IndexMap.get_swapRemoveFull, ← relate, found]
  by_cases same : other = position
  · simp [same]
  · simp [same]

end Shards

/-! ## The variant blocks of `insert` and `remove` -/

namespace Crds

variable {V P H : Type} [CrdsValue V P H] [DecidableEq P] [LinearOrder H]

omit [CrdsValue V P H] [DecidableEq P] [LinearOrder H] in
theorem updateOrdinalIndex_eq (crds : Crds V P H) (variant : IndexedVariant)
    (update : Std.TreeMap Nat Nat → Std.TreeMap Nat Nat) :
    crds.updateOrdinalIndex variant update =
      { crds with
        votes := if variant = .vote then update crds.votes else crds.votes
        epochSlots := if variant = .epochSlots then update crds.epochSlots else crds.epochSlots
        duplicateShreds :=
          if variant = .duplicateShred then update crds.duplicateShreds else crds.duplicateShreds } := by
  cases variant <;> rfl

omit [LinearOrder H] in
theorem indexInserted_eq (crds : Crds V P H) (value : VersionedCrdsValue V) (entryIndex : Nat) :
    crds.indexInserted value entryIndex =
      let variant := CrdsValue.variant value.value
      { crds with
        nodes := if variant = .contactInfo then crds.nodes.insert entryIndex else crds.nodes
        shredVersions := if variant = .contactInfo then
            crds.shredVersions.insert (CrdsValue.pubkey value.value) (CrdsValue.shredVersion value.value)
          else crds.shredVersions
        votes := if variant = .vote then crds.votes.insert value.ordinal entryIndex else crds.votes
        epochSlots := if variant = .epochSlots then crds.epochSlots.insert value.ordinal entryIndex
          else crds.epochSlots
        duplicateShreds := if variant = .duplicateShred then
            crds.duplicateShreds.insert value.ordinal entryIndex
          else crds.duplicateShreds } := by
  unfold indexInserted
  split <;> simp_all [updateOrdinalIndex_eq]

omit [LinearOrder H] in
/-- A value overriding one of its own variant passes the debug assertion. -/
theorem indexOverriding_eq (crds : Crds V P H) {value old : VersionedCrdsValue V} (entryIndex : Nat)
    (sameVariant : CrdsValue.variant value.value = CrdsValue.variant old.value) :
    crds.indexOverriding value old entryIndex =
      let variant := CrdsValue.variant value.value
      let reindexed := fun (ordinals : Std.TreeMap Nat Nat) =>
        (ordinals.erase old.ordinal).insert value.ordinal entryIndex
      some { crds with
        shredVersions := if variant = .contactInfo then
            crds.shredVersions.insert (CrdsValue.pubkey value.value) (CrdsValue.shredVersion value.value)
          else crds.shredVersions
        votes := if variant = .vote then reindexed crds.votes else crds.votes
        epochSlots := if variant = .epochSlots then reindexed crds.epochSlots else crds.epochSlots
        duplicateShreds := if variant = .duplicateShred then reindexed crds.duplicateShreds
          else crds.duplicateShreds } := by
  unfold indexOverriding
  rw [← sameVariant]
  cases CrdsValue.variant value.value <;> simp [updateOrdinalIndex_eq]

omit [DecidableEq P] [LinearOrder H] in
theorem unindexRemoved_eq (crds : Crds V P H) (value : VersionedCrdsValue V) (index : Nat) :
    crds.unindexRemoved value index =
      let variant := CrdsValue.variant value.value
      { crds with
        nodes := if variant = .contactInfo then crds.nodes.swapRemove index else crds.nodes
        votes := if variant = .vote then crds.votes.erase value.ordinal else crds.votes
        epochSlots := if variant = .epochSlots then crds.epochSlots.erase value.ordinal
          else crds.epochSlots
        duplicateShreds := if variant = .duplicateShred then crds.duplicateShreds.erase value.ordinal
          else crds.duplicateShreds } := by
  unfold unindexRemoved
  split <;> simp_all [updateOrdinalIndex_eq]

omit [DecidableEq P] [LinearOrder H] in
theorem reindexMoved_eq (crds : Crds V P H) (value : VersionedCrdsValue V) (size index : Nat) :
    crds.reindexMoved value size index =
      let variant := CrdsValue.variant value.value
      { crds with
        nodes := if variant = .contactInfo then (crds.nodes.swapRemove size).insert index
          else crds.nodes
        votes := if variant = .vote then crds.votes.insert value.ordinal index else crds.votes
        epochSlots := if variant = .epochSlots then crds.epochSlots.insert value.ordinal index
          else crds.epochSlots
        duplicateShreds := if variant = .duplicateShred then
            crds.duplicateShreds.insert value.ordinal index
          else crds.duplicateShreds } := by
  unfold reindexMoved
  split <;> simp_all [updateOrdinalIndex_eq]

end Crds

/-! ## Ordinal indexes -/

section Ordinals

variable {V P H : Type} [CrdsValue V P H]

/-- Distinct positions of the table hold distinct insert ordinals. -/
def OrdinalsDistinct (entries : List (CrdsValueLabel P × VersionedCrdsValue V)) : Prop :=
  ∀ {first second : Nat} {firstEntry secondEntry : CrdsValueLabel P × VersionedCrdsValue V},
    entries[first]? = some firstEntry → entries[second]? = some secondEntry →
      firstEntry.2.ordinal = secondEntry.2.ordinal → first = second

/-- The entry at `position` has insert ordinal `ordinal` and a variant that `kept` holds of. -/
def OrdinalAt (entries : List (CrdsValueLabel P × VersionedCrdsValue V)) (kept : IndexedVariant → Prop)
    (ordinal position : Nat) : Prop :=
  EntryAt entries position fun entry =>
    entry.2.ordinal = ordinal ∧ kept (CrdsValue.variant entry.2.value)

variable {index : Std.TreeMap Nat Nat} {entries : List (CrdsValueLabel P × VersionedCrdsValue V)}
  {kept : IndexedVariant → Prop} [DecidablePred kept]

omit [DecidablePred kept] in
theorem ordinalAt_append_singleton {entry : CrdsValueLabel P × VersionedCrdsValue V}
    {ordinal position : Nat} :
    OrdinalAt (entries ++ [entry]) kept ordinal position ↔
      OrdinalAt entries kept ordinal position ∨
        (position = entries.length ∧ entry.2.ordinal = ordinal ∧
          kept (CrdsValue.variant entry.2.value)) :=
  entryAt_append_singleton

/-- A new entry with a fresh ordinal is indexed when its variant is kept. -/
theorem MapRelates.push (relates : MapRelates index (OrdinalAt entries kept))
    (entry : CrdsValueLabel P × VersionedCrdsValue V)
    (fresh : ∀ position, ¬ EntryAt entries position fun other => other.2.ordinal = entry.2.ordinal) :
    MapRelates
      (if kept (CrdsValue.variant entry.2.value) then index.insert entry.2.ordinal entries.length
        else index)
      (OrdinalAt (entries ++ [entry]) kept) := by
  split
  · rename_i keep
    refine (relates.insert _ _).congr fun ordinal position => ?_
    rw [ordinalAt_append_singleton]
    constructor
    · rintro (⟨rfl, rfl⟩ | ⟨_, old⟩)
      · exact Or.inr ⟨rfl, rfl, keep⟩
      · exact Or.inl old
    · rintro (old | ⟨rfl, rfl, _⟩)
      · refine Or.inr ⟨?_, old⟩
        rintro rfl
        exact fresh position (old.mono fun _ holds => holds.1)
      · exact Or.inl ⟨rfl, rfl⟩
  · rename_i skip
    refine relates.congr fun ordinal position => ?_
    rw [ordinalAt_append_singleton]
    constructor
    · exact Or.inl
    · rintro (old | ⟨_, _, keep⟩)
      · exact old
      · exact absurd keep skip

/-- An entry overwritten by one of its variant with a fresh ordinal moves from the old ordinal to
the new one. -/
theorem MapRelates.replace {position : Nat} {old new : CrdsValueLabel P × VersionedCrdsValue V}
    (relates : MapRelates index (OrdinalAt entries kept)) (distinct : OrdinalsDistinct entries)
    (found : entries[position]? = some old)
    (sameVariant : CrdsValue.variant new.2.value = CrdsValue.variant old.2.value)
    (fresh : ∀ other, ¬ EntryAt entries other fun entry => entry.2.ordinal = new.2.ordinal) :
    MapRelates
      (if kept (CrdsValue.variant new.2.value) then
        (index.erase old.2.ordinal).insert new.2.ordinal position
      else index)
      (OrdinalAt (entries.set position new) kept) := by
  have inside := (List.getElem?_eq_some_iff.mp found).1
  have setAt : ∀ ordinal other, OrdinalAt (entries.set position new) kept ordinal other ↔
      (other ≠ position ∧ OrdinalAt entries kept ordinal other) ∨
        (other = position ∧ new.2.ordinal = ordinal ∧ kept (CrdsValue.variant new.2.value)) :=
    fun _ _ => entryAt_set inside
  have atOld : ∀ ordinal, OrdinalAt entries kept ordinal position →
      ordinal = old.2.ordinal ∧ kept (CrdsValue.variant old.2.value) := fun ordinal at_ => by
    obtain ⟨ordinalEq, keep⟩ := (entryAt_iff_of_getElem? found).mp at_
    exact ⟨ordinalEq.symm, keep⟩
  split
  · rename_i keep
    refine ((relates.erase _).insert _ _).congr fun ordinal other => ?_
    rw [setAt]
    constructor
    · rintro (⟨rfl, rfl⟩ | ⟨_, notOld, at_⟩)
      · exact Or.inr ⟨rfl, rfl, keep⟩
      · refine Or.inl ⟨?_, at_⟩
        rintro rfl
        exact notOld (atOld ordinal at_).1
    · rintro (⟨apart, at_⟩ | ⟨rfl, rfl, _⟩)
      · refine Or.inr ⟨?_, ?_, at_⟩
        · rintro rfl
          exact fresh other (at_.mono fun _ holds => holds.1)
        · rintro rfl
          obtain ⟨entry, entryAt, ordinalEq, _⟩ := at_
          exact apart (distinct entryAt found ordinalEq)
      · exact Or.inl ⟨rfl, rfl⟩
  · rename_i skip
    refine relates.congr fun ordinal other => ?_
    rw [setAt]
    constructor
    · intro at_
      refine Or.inl ⟨?_, at_⟩
      rintro rfl
      exact skip (sameVariant ▸ (atOld ordinal at_).2)
    · rintro (⟨_, at_⟩ | ⟨_, _, keep⟩)
      · exact at_
      · exact absurd keep skip

/-- The first step of `remove`: the removed entry's ordinal leaves the index of its variant. -/
theorem MapRelates.forget {position : Nat} {removed : CrdsValueLabel P × VersionedCrdsValue V}
    (relates : MapRelates index (OrdinalAt entries kept)) (distinct : OrdinalsDistinct entries)
    (found : entries[position]? = some removed) :
    MapRelates
      (if kept (CrdsValue.variant removed.2.value) then index.erase removed.2.ordinal else index)
      fun ordinal other => other ≠ position ∧ OrdinalAt entries kept ordinal other := by
  have atRemoved : ∀ ordinal, OrdinalAt entries kept ordinal position →
      ordinal = removed.2.ordinal ∧ kept (CrdsValue.variant removed.2.value) := fun ordinal at_ => by
    obtain ⟨ordinalEq, keep⟩ := (entryAt_iff_of_getElem? found).mp at_
    exact ⟨ordinalEq.symm, keep⟩
  split
  · refine (relates.erase _).congr fun ordinal other => ?_
    constructor
    · rintro ⟨notRemoved, at_⟩
      refine ⟨?_, at_⟩
      rintro rfl
      exact notRemoved (atRemoved ordinal at_).1
    · rintro ⟨apart, at_⟩
      refine ⟨?_, at_⟩
      rintro rfl
      obtain ⟨entry, entryAt, ordinalEq, _⟩ := at_
      exact apart (distinct entryAt found ordinalEq)
  · rename_i skip
    refine relates.congr fun ordinal other => ⟨fun at_ => ⟨?_, at_⟩, And.right⟩
    rintro rfl
    exact skip (atRemoved ordinal at_).2

/-- The second step of `remove`: the last entry, moved into the removed one's place, is indexed
there when its variant is kept. -/
theorem MapRelates.move {position : Nat} {moved : CrdsValueLabel P × VersionedCrdsValue V}
    (relates : MapRelates index fun ordinal other =>
      other ≠ position ∧ OrdinalAt entries kept ordinal other)
    (distinct : OrdinalsDistinct entries) (before : position + 1 < entries.length)
    (lastAt : entries[entries.length - 1]? = some moved) :
    MapRelates
      (if kept (CrdsValue.variant moved.2.value) then index.insert moved.2.ordinal position else index)
      (OrdinalAt (swapRemoveAt entries position) kept) := by
  have swapped : ∀ ordinal other, OrdinalAt (swapRemoveAt entries position) kept ordinal other ↔
      (other = position ∧ OrdinalAt entries kept ordinal (entries.length - 1)) ∨
        (other ≠ position ∧ other ≠ entries.length - 1 ∧ OrdinalAt entries kept ordinal other) :=
    fun _ _ => entryAt_swapRemoveAt_of_lt before
  have atLast : ∀ ordinal, OrdinalAt entries kept ordinal (entries.length - 1) ↔
      ordinal = moved.2.ordinal ∧ kept (CrdsValue.variant moved.2.value) := fun ordinal => by
    rw [OrdinalAt, entryAt_iff_of_getElem? lastAt, eq_comm]
  split
  · rename_i keep
    refine (relates.insert _ _).congr fun ordinal other => ?_
    rw [swapped, atLast]
    constructor
    · rintro (⟨rfl, rfl⟩ | ⟨notMoved, apart, at_⟩)
      · exact Or.inl ⟨rfl, rfl, keep⟩
      · refine Or.inr ⟨apart, ?_, at_⟩
        rintro rfl
        exact notMoved ((atLast ordinal).mp at_).1
    · rintro (⟨rfl, rfl, _⟩ | ⟨apart, notLast, at_⟩)
      · exact Or.inl ⟨rfl, rfl⟩
      · refine Or.inr ⟨?_, apart, at_⟩
        rintro rfl
        obtain ⟨entry, entryAt, ordinalEq, _⟩ := at_
        exact notLast (distinct entryAt lastAt ordinalEq)
  · rename_i skip
    refine relates.congr fun ordinal other => ?_
    rw [swapped, atLast]
    constructor
    · rintro ⟨apart, at_⟩
      refine Or.inr ⟨apart, ?_, at_⟩
      rintro rfl
      exact skip ((atLast ordinal).mp at_).2
    · rintro (⟨_, _, keep⟩ | ⟨apart, _, at_⟩)
      · exact absurd keep skip
      · exact ⟨apart, at_⟩

omit [DecidablePred kept] in
/-- The last step of `remove` when the removed entry was the last: nothing moves. -/
theorem MapRelates.settle {position : Nat}
    (relates : MapRelates index fun ordinal other =>
      other ≠ position ∧ OrdinalAt entries kept ordinal other)
    (last : position + 1 = entries.length) :
    MapRelates index (OrdinalAt (swapRemoveAt entries position) kept) :=
  relates.congr fun _ _ => (entryAt_swapRemoveAt_of_last last).symm

end Ordinals


/-! ## The contact-info indices -/

section Nodes

variable {α : Type} {entries : List α} {isNode : α → Prop} [DecidablePred isNode]
  {nodes : IndexSet Nat}

theorem nodes_push (relates : ∀ position, position ∈ nodes ↔ EntryAt entries position isNode)
    (entry : α) :
    ∀ position, position ∈ (if isNode entry then nodes.insert entries.length else nodes) ↔
      EntryAt (entries ++ [entry]) position isNode := by
  intro position
  rw [entryAt_append_singleton, ← relates]
  split
  · rename_i node
    rw [IndexSet.mem_insert]
    constructor
    · rintro (rfl | member)
      · exact Or.inr ⟨rfl, node⟩
      · exact Or.inl member
    · rintro (member | ⟨rfl, _⟩)
      · exact Or.inr member
      · exact Or.inl rfl
  · rename_i notNode
    exact ⟨Or.inl, fun member => member.resolve_right fun ⟨_, node⟩ => notNode node⟩

omit [DecidablePred isNode] in
theorem nodes_replace {position : Nat} {old new : α} (found : entries[position]? = some old)
    (sameKind : isNode new ↔ isNode old)
    (relates : ∀ other, other ∈ nodes ↔ EntryAt entries other isNode) :
    ∀ other, other ∈ nodes ↔ EntryAt (entries.set position new) other isNode := by
  intro other
  rw [entryAt_set (List.getElem?_eq_some_iff.mp found).1, relates]
  by_cases same : other = position
  · subst same
    rw [entryAt_iff_of_getElem? found, sameKind]
    simp
  · simp [same]

/-- The first step of `remove`: the removed index leaves `nodes` when it was a contact-info. -/
theorem nodes_forget {position : Nat} {removed : α} (found : entries[position]? = some removed)
    (relates : ∀ other, other ∈ nodes ↔ EntryAt entries other isNode) :
    ∀ other, other ∈ (if isNode removed then nodes.swapRemove position else nodes) ↔
      other ≠ position ∧ EntryAt entries other isNode := by
  intro other
  split
  · rw [IndexSet.mem_swapRemove, relates]
  · rename_i notNode
    rw [relates]
    refine ⟨fun at_ => ⟨?_, at_⟩, And.right⟩
    rintro rfl
    exact notNode ((entryAt_iff_of_getElem? found).mp at_)

/-- The second step of `remove`: the last index moves into the removed one's place. -/
theorem nodes_move {position : Nat} {moved : α} (before : position + 1 < entries.length)
    (lastAt : entries[entries.length - 1]? = some moved)
    (relates : ∀ other, other ∈ nodes ↔ other ≠ position ∧ EntryAt entries other isNode) :
    ∀ other, other ∈
        (if isNode moved then (nodes.swapRemove (entries.length - 1)).insert position else nodes) ↔
      EntryAt (swapRemoveAt entries position) other isNode := by
  intro other
  rw [entryAt_swapRemoveAt_of_lt before, entryAt_iff_of_getElem? lastAt]
  split
  · rename_i node
    rw [IndexSet.mem_insert, IndexSet.mem_swapRemove, relates]
    constructor
    · rintro (rfl | ⟨notLast, apart, at_⟩)
      · exact Or.inl ⟨rfl, node⟩
      · exact Or.inr ⟨apart, notLast, at_⟩
    · rintro (⟨rfl, _⟩ | ⟨apart, notLast, at_⟩)
      · exact Or.inl rfl
      · exact Or.inr ⟨notLast, apart, at_⟩
  · rename_i notNode
    rw [relates]
    constructor
    · rintro ⟨apart, at_⟩
      refine Or.inr ⟨apart, ?_, at_⟩
      rintro rfl
      exact notNode ((entryAt_iff_of_getElem? lastAt).mp at_)
    · rintro (⟨_, node⟩ | ⟨apart, _, at_⟩)
      · exact absurd node notNode
      · exact ⟨apart, at_⟩

end Nodes

/-! ## The records of each pubkey -/

section RecordsOfTable

variable {α P : Type} [DecidableEq P] {entries : List α} {pubkeyOf : α → P}
  {records : AList fun _ : P => IndexSet Nat}

theorem RecordsRelate.push
    (relate : RecordsRelate records fun pubkey position => EntryAt entries position (pubkeyOf · = pubkey))
    (entry : α) :
    RecordsRelate (Crds.addRecord records (pubkeyOf entry) entries.length)
      fun pubkey position => EntryAt (entries ++ [entry]) position (pubkeyOf · = pubkey) := by
  refine (relate.addRecord _ _).congr fun pubkey position => ?_
  rw [entryAt_append_singleton]
  constructor
  · rintro (⟨rfl, rfl⟩ | at_)
    · exact Or.inr ⟨rfl, rfl⟩
    · exact Or.inl at_
  · rintro (at_ | ⟨rfl, rfl⟩)
    · exact Or.inr at_
    · exact Or.inl ⟨rfl, rfl⟩

theorem RecordsRelate.replace {position : Nat} {old new : α} (found : entries[position]? = some old)
    (samePubkey : pubkeyOf new = pubkeyOf old)
    (relate : RecordsRelate records fun pubkey other => EntryAt entries other (pubkeyOf · = pubkey)) :
    RecordsRelate records fun pubkey other =>
      EntryAt (entries.set position new) other (pubkeyOf · = pubkey) := by
  refine relate.congr fun pubkey other => ?_
  rw [entryAt_set (List.getElem?_eq_some_iff.mp found).1]
  by_cases same : other = position
  · subst same
    rw [entryAt_iff_of_getElem? found, samePubkey]
    simp
  · simp [same]

/-- The first records step of `remove`, read against the table. -/
theorem RecordsRelate.forgetAt {position : Nat} {removed : α} (found : entries[position]? = some removed)
    (relate : RecordsRelate records fun pubkey other => EntryAt entries other (pubkeyOf · = pubkey)) :
    ∃ set, records.lookup (pubkeyOf removed) = some set ∧
      RecordsRelate
        (if (set.swapRemove position).isEmpty then records.erase (pubkeyOf removed)
          else records.insert (pubkeyOf removed) (set.swapRemove position))
        fun pubkey other => other ≠ position ∧ EntryAt entries other (pubkeyOf · = pubkey) := by
  obtain ⟨set, lookupEq, _⟩ := relate.lookup_of_related ((entryAt_iff_of_getElem? found).mpr rfl)
  refine ⟨set, lookupEq, (relate.forget lookupEq).congr fun pubkey other => ?_⟩
  constructor
  · rintro ⟨notRemoved, at_⟩
    refine ⟨?_, at_⟩
    rintro rfl
    exact notRemoved ⟨((entryAt_iff_of_getElem? found).mp at_).symm, rfl⟩
  · rintro ⟨apart, at_⟩
    exact ⟨fun ⟨_, same⟩ => apart same, at_⟩

/-- The second records step of `remove`, read against the table. -/
theorem RecordsRelate.moveAt {position : Nat} {moved : α} (before : position + 1 < entries.length)
    (lastAt : entries[entries.length - 1]? = some moved)
    (relate : RecordsRelate records fun pubkey other =>
      other ≠ position ∧ EntryAt entries other (pubkeyOf · = pubkey)) :
    ∃ set, records.lookup (pubkeyOf moved) = some set ∧
      RecordsRelate
        (records.insert (pubkeyOf moved) ((set.swapRemove (entries.length - 1)).insert position))
        fun pubkey other => EntryAt (swapRemoveAt entries position) other (pubkeyOf · = pubkey) := by
  obtain ⟨set, lookupEq, _⟩ := relate.lookup_of_related
    ⟨by omega, (entryAt_iff_of_getElem? lastAt).mpr rfl⟩
  refine ⟨set, lookupEq, (relate.move lookupEq).congr fun pubkey other => ?_⟩
  rw [entryAt_swapRemoveAt_of_lt before, entryAt_iff_of_getElem? lastAt]
  constructor
  · rintro (⟨rfl, rfl⟩ | ⟨notMoved, apart, at_⟩)
    · exact Or.inl ⟨rfl, rfl⟩
    · refine Or.inr ⟨apart, ?_, at_⟩
      rintro rfl
      exact notMoved ⟨((entryAt_iff_of_getElem? lastAt).mp at_).symm, rfl⟩
  · rintro (⟨rfl, rfl⟩ | ⟨apart, notLast, at_⟩)
    · exact Or.inl ⟨rfl, rfl⟩
    · exact Or.inr ⟨fun ⟨_, same⟩ => notLast same, apart, at_⟩

theorem RecordsRelate.settle {position : Nat} (last : position + 1 = entries.length)
    (relate : RecordsRelate records fun pubkey other =>
      other ≠ position ∧ EntryAt entries other (pubkeyOf · = pubkey)) :
    RecordsRelate records fun pubkey other =>
      EntryAt (swapRemoveAt entries position) other (pubkeyOf · = pubkey) :=
  relate.congr fun _ _ => (entryAt_swapRemoveAt_of_last last).symm

end RecordsOfTable

/-! ## The shards against the table -/

section ShardsOfTable

variable {V P H : Type} [CrdsValue V P H] {shards shards' : CrdsShards}
  {related : Nat → Nat → UInt64 → Prop}

theorem ShardsRelate.congr {other : Nat → Nat → UInt64 → Prop} (relate : ShardsRelate shards related)
    (same : ∀ index position hash, related index position hash ↔ other index position hash) :
    ShardsRelate shards other :=
  fun index position hash => (relate index position hash).trans (same _ _ _)

section Shape

variable (bits : shards.shardBits = crdsShardsBits) (count : shards.shards.length = 2 ^ crdsShardsBits)
include bits count

/-- Shards of the right shape never panic on a removal, and keep their shape. -/
theorem CrdsShards.remove_isSome (index : Nat) (value : VersionedCrdsValue V) :
    ∃ shards', shards.remove index value = some shards' ∧
      shards'.shardBits = crdsShardsBits ∧ shards'.shards.length = 2 ^ crdsShardsBits := by
  obtain ⟨shards', removed⟩ := CrdsShards.updateShard_isSome
    (fun shard => (shard.swapRemoveFull index).2)
    (CrdsShards.shardIndex_lt_length bits count (hashAsU64 value.value))
  have shape := CrdsShards.updateShard_shape removed
  exact ⟨shards', removed, shape.1.trans bits, shape.2.1.trans count⟩

/-- Shards of the right shape never panic on an insert, and keep their shape. -/
theorem CrdsShards.insert_isSome (index : Nat) (value : VersionedCrdsValue V) :
    ∃ shards', shards.insert index value = some shards' ∧
      shards'.shardBits = crdsShardsBits ∧ shards'.shards.length = 2 ^ crdsShardsBits := by
  obtain ⟨shards', inserted⟩ := CrdsShards.updateShard_isSome
    (fun shard => shard.insert index (hashAsU64 value.value))
    (CrdsShards.shardIndex_lt_length bits count (hashAsU64 value.value))
  have shape := CrdsShards.updateShard_shape inserted
  exact ⟨shards', inserted, shape.1.trans bits, shape.2.1.trans count⟩

/-- A removal followed by an insert, as an override and a move do. -/
theorem CrdsShards.remove_insert_isSome (removedIndex insertedIndex : Nat)
    (removed inserted : VersionedCrdsValue V) :
    ∃ middle shards', shards.remove removedIndex removed = some middle ∧
      middle.insert insertedIndex inserted = some shards' ∧
      shards'.shardBits = crdsShardsBits ∧ shards'.shards.length = 2 ^ crdsShardsBits := by
  obtain ⟨middle, removedShards, middleBits, middleCount⟩ :=
    CrdsShards.remove_isSome bits count removedIndex removed
  obtain ⟨shards', insertedShards, shape⟩ :=
    CrdsShards.insert_isSome middleBits middleCount insertedIndex inserted
  exact ⟨middle, shards', removedShards, insertedShards, shape⟩

end Shape

/-- Removing a position kept only in the shard of its value's hash drops that position. -/
theorem ShardsRelate.removeAt {position : Nat} {value : VersionedCrdsValue V}
    (relate : ShardsRelate shards related)
    (onlyThere : ∀ index hash, related index position hash →
      index = shards.shardIndex (hashAsU64 value.value))
    (removed : shards.remove position value = some shards') :
    ShardsRelate shards' fun index other hash => other ≠ position ∧ related index other hash := by
  refine (relate.remove removed).congr fun index other hash => ?_
  split
  · rename_i same
    subst same
    rfl
  · rename_i elsewhere
    refine ⟨fun holds => ⟨?_, holds⟩, And.right⟩
    rintro rfl
    exact elsewhere (onlyThere index hash holds)

/-- Inserting a position not yet held adds it, with its value's hash, to the shard of that
hash. -/
theorem ShardsRelate.putAt {position : Nat} {value : VersionedCrdsValue V}
    (relate : ShardsRelate shards related) (absent : ∀ index hash, ¬ related index position hash)
    (inserted : shards.insert position value = some shards') :
    ShardsRelate shards' fun index other hash => related index other hash ∨
      (other = position ∧ hashAsU64 value.value = hash ∧ shards.shardIndex hash = index) := by
  refine (relate.insert inserted).congr fun index other hash => ?_
  split
  · rename_i same
    subst same
    constructor
    · rintro (⟨rfl, rfl⟩ | ⟨_, holds⟩)
      · exact Or.inr ⟨rfl, rfl, rfl⟩
      · exact Or.inl holds
    · rintro (holds | ⟨rfl, rfl, _⟩)
      · refine Or.inr ⟨?_, holds⟩
        rintro rfl
        exact absent _ _ holds
      · exact Or.inl ⟨rfl, rfl⟩
  · rename_i elsewhere
    refine ⟨Or.inl, ?_⟩
    rintro (holds | ⟨rfl, rfl, same⟩)
    · exact holds
    · exact absurd same.symm elsewhere

variable {entries : List (CrdsValueLabel P × VersionedCrdsValue V)}

/-- The entry at `position` has hash `hash`, which `shardIndex` puts in shard `index`. -/
def ShardAt (shardIndex : UInt64 → Nat) (entries : List (CrdsValueLabel P × VersionedCrdsValue V))
    (index position : Nat) (hash : UInt64) : Prop :=
  EntryAt entries position fun entry => hashAsU64 entry.2.value = hash ∧ shardIndex hash = index

theorem shardAt_getElem? {shardIndex : UInt64 → Nat} {position index : Nat} {hash : UInt64}
    {entry : CrdsValueLabel P × VersionedCrdsValue V} (found : entries[position]? = some entry) :
    ShardAt shardIndex entries index position hash ↔
      hashAsU64 entry.2.value = hash ∧ shardIndex hash = index :=
  entryAt_iff_of_getElem? found

theorem ShardsRelate.push {entry : CrdsValueLabel P × VersionedCrdsValue V}
    (relate : ShardsRelate shards (ShardAt shards.shardIndex entries))
    (inserted : shards.insert entries.length entry.2 = some shards') :
    ShardsRelate shards' (ShardAt shards'.shardIndex (entries ++ [entry])) := by
  rw [(CrdsShards.updateShard_shape inserted).2.2]
  refine (relate.putAt (fun _ _ at_ => Nat.lt_irrefl _ at_.lt_length) inserted).congr
    fun index position hash => ?_
  exact entryAt_append_singleton.symm

theorem ShardsRelate.replace {position : Nat} {old new : CrdsValueLabel P × VersionedCrdsValue V}
    {middle : CrdsShards} (relate : ShardsRelate shards (ShardAt shards.shardIndex entries))
    (found : entries[position]? = some old) (removed : shards.remove position old.2 = some middle)
    (inserted : middle.insert position new.2 = some shards') :
    ShardsRelate shards' (ShardAt shards'.shardIndex (entries.set position new)) := by
  have middleIndex := (CrdsShards.updateShard_shape removed).2.2
  have lastIndex := (CrdsShards.updateShard_shape inserted).2.2
  have forgotten := relate.removeAt (fun index hash at_ => by
    obtain ⟨rfl, rfl⟩ := (shardAt_getElem? found).mp at_
    rfl) removed
  rw [← middleIndex] at forgotten
  have put := forgotten.putAt (fun _ _ at_ => at_.1 rfl) inserted
  rw [lastIndex, middleIndex]
  rw [middleIndex] at put
  refine put.congr fun index other hash => ?_
  unfold ShardAt
  rw [entryAt_set (List.getElem?_eq_some_iff.mp found).1]

theorem ShardsRelate.forgetAt {position : Nat} {removed : CrdsValueLabel P × VersionedCrdsValue V}
    (relate : ShardsRelate shards (ShardAt shards.shardIndex entries))
    (found : entries[position]? = some removed)
    (removedShards : shards.remove position removed.2 = some shards') :
    ShardsRelate shards' fun index other hash =>
      other ≠ position ∧ ShardAt shards'.shardIndex entries index other hash := by
  rw [(CrdsShards.updateShard_shape removedShards).2.2]
  exact relate.removeAt (fun index hash at_ => by
    obtain ⟨rfl, rfl⟩ := (shardAt_getElem? found).mp at_
    rfl) removedShards

theorem ShardsRelate.moveAt {position : Nat} {moved : CrdsValueLabel P × VersionedCrdsValue V}
    {middle : CrdsShards}
    (relate : ShardsRelate shards fun index other hash =>
      other ≠ position ∧ ShardAt shards.shardIndex entries index other hash)
    (before : position + 1 < entries.length) (lastAt : entries[entries.length - 1]? = some moved)
    (removed : shards.remove (entries.length - 1) moved.2 = some middle)
    (inserted : middle.insert position moved.2 = some shards') :
    ShardsRelate shards' (ShardAt shards'.shardIndex (swapRemoveAt entries position)) := by
  have middleIndex := (CrdsShards.updateShard_shape removed).2.2
  have lastIndex := (CrdsShards.updateShard_shape inserted).2.2
  have forgotten := relate.removeAt (fun index hash at_ => by
    obtain ⟨rfl, rfl⟩ := (shardAt_getElem? lastAt).mp at_.2
    rfl) removed
  have put := forgotten.putAt (fun _ _ at_ => at_.2.1 rfl) inserted
  rw [lastIndex, middleIndex]
  rw [middleIndex] at put
  refine put.congr fun index other hash => ?_
  unfold ShardAt
  rw [entryAt_swapRemoveAt_of_lt before, entryAt_iff_of_getElem? lastAt]
  constructor
  · rintro (⟨notLast, apart, at_⟩ | ⟨rfl, moves⟩)
    · exact Or.inr ⟨apart, notLast, at_⟩
    · exact Or.inl ⟨rfl, moves⟩
  · rintro (⟨rfl, moves⟩ | ⟨apart, notLast, at_⟩)
    · exact Or.inr ⟨rfl, moves⟩
    · exact Or.inl ⟨notLast, apart, at_⟩

theorem ShardsRelate.settle {position : Nat} {shardIndex : UInt64 → Nat}
    (relate : ShardsRelate shards fun index other hash =>
      other ≠ position ∧ ShardAt shardIndex entries index other hash)
    (last : position + 1 = entries.length) :
    ShardsRelate shards (ShardAt shardIndex (swapRemoveAt entries position)) :=
  relate.congr fun _ _ _ => (entryAt_swapRemoveAt_of_last last).symm

end ShardsOfTable

namespace Crds

variable {V P H : Type} [CrdsValue V P H] [DecidableEq P] [LinearOrder H]

/-- What `Crds` keeps true: each table entry is stored under its value's label, with an ordinal of
its own below the cursor; `nodes` holds the indices of the contact-infos; `votes`,
`epoch_slots` and `duplicate_shreds` map the ordinal of each entry of their variant, and
`entries` that of every entry, to the entry's index; `records` holds the indices of each pubkey's
entries and no empty set; the shards hold each entry's index and hash in the shard its hash
selects; and a pubkey has a shred version only while it has records. -/
structure Inv (crds : Crds V P H) : Prop where
  labelled : ∀ {position : Nat} {key : CrdsValueLabel P} {entry : VersionedCrdsValue V},
    crds.table.entries[position]? = some (key, entry) → CrdsValue.label entry.value = key
  ordinalsBelow : ∀ {position : Nat} {key : CrdsValueLabel P} {entry : VersionedCrdsValue V},
    crds.table.entries[position]? = some (key, entry) → entry.ordinal < crds.cursor.ordinal
  ordinalsDistinct : OrdinalsDistinct crds.table.entries
  nodes : ∀ position, position ∈ crds.nodes ↔
    EntryAt crds.table.entries position fun entry => CrdsValue.variant entry.2.value = .contactInfo
  votes : MapRelates crds.votes (OrdinalAt crds.table.entries (· = .vote))
  epochSlots : MapRelates crds.epochSlots (OrdinalAt crds.table.entries (· = .epochSlots))
  duplicateShreds : MapRelates crds.duplicateShreds (OrdinalAt crds.table.entries (· = .duplicateShred))
  entries : MapRelates crds.entries (OrdinalAt crds.table.entries fun _ => True)
  records : RecordsRelate crds.records fun pubkey position =>
    EntryAt crds.table.entries position fun entry => CrdsValue.pubkey entry.2.value = pubkey
  shardBits : crds.shards.shardBits = crdsShardsBits
  shardCount : crds.shards.shards.length = 2 ^ crdsShardsBits
  shards : ShardsRelate crds.shards (ShardAt crds.shards.shardIndex crds.table.entries)
  shredVersions : ∀ pubkey, pubkey ∈ crds.shredVersions → pubkey ∈ crds.records

omit [LinearOrder H] in
theorem inv_default : (default : Crds V P H).Inv where
  labelled := by simp [default, IndexMap.empty]
  ordinalsBelow := by simp [default, IndexMap.empty]
  ordinalsDistinct := by simp [OrdinalsDistinct, default, IndexMap.empty]
  nodes := by simp [default, IndexMap.empty, EntryAt]
  votes := by simp [MapRelates, OrdinalAt, default, IndexMap.empty, EntryAt]
  epochSlots := by simp [MapRelates, OrdinalAt, default, IndexMap.empty, EntryAt]
  duplicateShreds := by simp [MapRelates, OrdinalAt, default, IndexMap.empty, EntryAt]
  entries := by simp [MapRelates, OrdinalAt, default, IndexMap.empty, EntryAt]
  records := ⟨by simp [default, IndexMap.empty, EntryAt], by simp [default]⟩
  shardBits := rfl
  shardCount := List.length_replicate
  shards := by
    intro shardIndex position hash
    simp only [default, CrdsShards.new, List.getElem?_replicate, IndexMap.empty, ShardAt, EntryAt]
    simp [IndexMap.get_eq_some_iff]
  shredVersions := by simp [default]

end Crds

end Validator.Gossip
