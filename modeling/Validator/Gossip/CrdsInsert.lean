import Validator.Gossip.CrdsIndex

/-!
`Crds::insert` keeps the table's invariant.

An insert either fills a vacant label, overrides the stored value, or is rejected; each branch
returns (no `unwrap` or index of the source panics) and leaves `Crds.Inv` holding.  The three
branches are proved apart and `Inv.insert` puts them together.
-/

namespace Validator.Gossip

open Validator.Data
open CrdsValue (label hashAsU64)

namespace Crds

variable {V P H : Type} [CrdsValue V P H] [DecidableEq P] [LinearOrder H]
variable {crds : Crds V P H} {value : V} {now : Nat} {route : GossipRoute P}

omit [CrdsValue V P H] [DecidableEq P] [LinearOrder H] in
@[simp]
theorem new_value {cursor : Cursor} : (VersionedCrdsValue.new value cursor now route).value = value := rfl

theorem insert_vacant {shards : CrdsShards}
    (absent : crds.table.getFull (label value) = none)
    (inserted : crds.shards.insert crds.table.len (VersionedCrdsValue.new value crds.cursor now route) =
      some shards) :
    crds.insert value now route =
      let entry := VersionedCrdsValue.new value crds.cursor now route
      let indexed := ({ crds with shards } : Crds V P H).indexInserted entry crds.table.len
      some ({ indexed with
        entries := indexed.entries.insert entry.ordinal crds.table.len
        records := addRecord indexed.records (label value).pubkey crds.table.len
        cursor := indexed.cursor.consume entry.ordinal
        table := indexed.table.insert (label value) entry }, .ok ()) := by
  simp only [insert, absent, inserted]
  rfl

omit [LinearOrder H] in
/-- No entry has the cursor's ordinal: every ordinal is below it. -/
theorem Inv.fresh (inv : crds.Inv) (position : Nat) :
    ¬ EntryAt crds.table.entries position fun entry => entry.2.ordinal = crds.cursor.ordinal := by
  rintro ⟨⟨key, entry⟩, found, ordinalEq⟩
  exact Nat.lt_irrefl _ (ordinalEq ▸ inv.ordinalsBelow found)

theorem Inv.insertVacant (inv : crds.Inv) (absent : crds.table.getFull (label value) = none) :
    ∃ crds', crds.insert value now route = some (crds', .ok ()) ∧ crds'.Inv := by
  obtain ⟨shards, insertedShards, shardBits, shardCount⟩ :=
    CrdsShards.insert_isSome inv.shardBits inv.shardCount crds.table.len
      (VersionedCrdsValue.new value crds.cursor now route)
  refine ⟨_, insert_vacant absent insertedShards, ?_⟩
  have tableEq : (crds.table.insert (label value) (VersionedCrdsValue.new value crds.cursor now route)).entries =
      crds.table.entries ++ [(label value, VersionedCrdsValue.new value crds.cursor now route)] :=
    IndexMap.entries_insert_of_not_mem (IndexMap.getFull_eq_none_iff.mp absent)
  simp only [indexInserted_eq]
  refine
    { labelled := ?labelled
      ordinalsBelow := ?ordinalsBelow
      ordinalsDistinct := ?ordinalsDistinct
      nodes := ?nodes
      votes := ?votes
      epochSlots := ?epochSlots
      duplicateShreds := ?duplicateShreds
      entries := ?entries
      records := ?records
      shardBits := shardBits
      shardCount := shardCount
      shards := ?shards
      shredVersions := ?shredVersions }
  case labelled =>
    intro position key entry found
    dsimp only at found
    rw [tableEq, getElem?_append_singleton_eq_some] at found
    obtain found | ⟨_, entryEq⟩ := found
    · exact inv.labelled found
    · cases entryEq
      rfl
  case ordinalsBelow =>
    intro position key entry found
    dsimp only at found ⊢
    rw [tableEq, getElem?_append_singleton_eq_some] at found
    obtain found | ⟨_, entryEq⟩ := found
    · exact Nat.lt_of_lt_of_le (inv.ordinalsBelow found) (Nat.le_max_left _ _)
    · cases entryEq
      exact Nat.lt_of_lt_of_le (Nat.lt_succ_self _) (Nat.le_max_right _ _)
  case ordinalsDistinct =>
    intro first second firstEntry secondEntry firstAt secondAt ordinalEq
    dsimp only at firstAt secondAt
    rw [tableEq, getElem?_append_singleton_eq_some] at firstAt secondAt
    obtain firstAt | ⟨firstIsNew, rfl⟩ := firstAt <;> obtain secondAt | ⟨secondIsNew, rfl⟩ := secondAt
    · exact inv.ordinalsDistinct firstAt secondAt ordinalEq
    · exact absurd (ordinalEq ▸ inv.ordinalsBelow firstAt) (Nat.lt_irrefl _)
    · exact absurd (ordinalEq.symm ▸ inv.ordinalsBelow secondAt) (Nat.lt_irrefl _)
    · exact firstIsNew.trans secondIsNew.symm
  case nodes =>
    dsimp only
    rw [tableEq]
    exact nodes_push inv.nodes (label value, VersionedCrdsValue.new value crds.cursor now route)
  case votes =>
    dsimp only
    rw [tableEq]
    exact inv.votes.push (label value, VersionedCrdsValue.new value crds.cursor now route) inv.fresh
  case epochSlots =>
    dsimp only
    rw [tableEq]
    exact inv.epochSlots.push (label value, VersionedCrdsValue.new value crds.cursor now route) inv.fresh
  case duplicateShreds =>
    dsimp only
    rw [tableEq]
    exact inv.duplicateShreds.push (label value, VersionedCrdsValue.new value crds.cursor now route) inv.fresh
  case entries =>
    dsimp only
    rw [tableEq]
    have pushed := inv.entries.push (label value, VersionedCrdsValue.new value crds.cursor now route) inv.fresh
    rwa [if_pos trivial] at pushed
  case records =>
    dsimp only
    rw [tableEq]
    exact inv.records.push (label value, VersionedCrdsValue.new value crds.cursor now route)
  case shards =>
    dsimp only
    rw [tableEq]
    exact inv.shards.push insertedShards
  case shredVersions =>
    intro pubkey member
    dsimp only at member ⊢
    unfold addRecord
    rw [AList.mem_insert]
    split at member
    · rw [AList.mem_insert] at member
      exact member.imp id (inv.shredVersions pubkey)
    · exact Or.inr (inv.shredVersions pubkey member)

omit [LinearOrder H] in
/-- The table is keyed by label: the entry found under a value's label holds a value of that
label, so of its variant and pubkey. -/
theorem Inv.label_of_getFull (inv : crds.Inv) {entryIndex : Nat} {old : VersionedCrdsValue V}
    (found : crds.table.getFull (label value) = some (entryIndex, old)) :
    crds.table.entries[entryIndex]? = some (label value, old) ∧ label old.value = label value :=
  have at_ := IndexMap.getFull_eq_some_iff.mp found
  ⟨at_, inv.labelled at_⟩

/-- `overrides` panics only on two labels. -/
theorem overrides_isSome {other : VersionedCrdsValue V} (same : label other.value = label value) :
    ∃ replaces, overrides value other = some replaces := by
  unfold overrides
  rw [if_neg (not_not.mpr same.symm)]
  exact ⟨_, rfl⟩

theorem insert_overriding {entryIndex : Nat} {old : VersionedCrdsValue V} {middle shards : CrdsShards}
    (found : crds.table.getFull (label value) = some (entryIndex, old))
    (replaces : overrides value old = some true)
    (removed : crds.shards.remove entryIndex old = some middle)
    (inserted : middle.insert entryIndex (VersionedCrdsValue.new value crds.cursor now route) = some shards)
    (sameLabel : label old.value = label value) :
    crds.insert value now route =
      let entry := VersionedCrdsValue.new value crds.cursor now route
      let reindexed := fun ordinals : Std.TreeMap Nat Nat =>
        (ordinals.erase old.ordinal).insert entry.ordinal entryIndex
      let variant := CrdsValue.variant value
      some ({ crds with
        shards
        shredVersions := if variant = .contactInfo then
            crds.shredVersions.insert (CrdsValue.pubkey value) (CrdsValue.shredVersion value)
          else crds.shredVersions
        votes := if variant = .vote then reindexed crds.votes else crds.votes
        epochSlots := if variant = .epochSlots then reindexed crds.epochSlots else crds.epochSlots
        duplicateShreds := if variant = .duplicateShred then reindexed crds.duplicateShreds
          else crds.duplicateShreds
        entries := reindexed crds.entries
        cursor := crds.cursor.consume entry.ordinal
        purged := crds.purged ++ [(CrdsValue.hash old.value, now)]
        table := crds.table.insert (label value) entry }, .ok ()) := by
  have sameVariant : CrdsValue.variant (VersionedCrdsValue.new value crds.cursor now route).value =
      CrdsValue.variant old.value := by
    show (label value).variant = (label old.value).variant
    rw [sameLabel]
  have samePubkey : CrdsValue.pubkey old.value = (label value).pubkey := by
    show (label old.value).pubkey = _
    rw [sameLabel]
  simp only [insert, found, new_value, replaces, removed, inserted, Option.bind_eq_bind, Option.bind_some,
    if_true, indexOverriding_eq _ _ sameVariant, samePubkey, ne_eq, not_true_eq_false, if_false]
  rfl

/-- An override rewrites the stored entry in place: every index follows the new value. -/
theorem Inv.insertOverriding (inv : crds.Inv) {entryIndex : Nat} {old : VersionedCrdsValue V}
    (found : crds.table.getFull (label value) = some (entryIndex, old))
    (replaces : overrides value old = some true) :
    ∃ crds', crds.insert value now route = some (crds', .ok ()) ∧ crds'.Inv := by
  obtain ⟨at_, sameLabel⟩ := inv.label_of_getFull found
  obtain ⟨middle, shards, removedShards, insertedShards, shardBits, shardCount⟩ :=
    CrdsShards.remove_insert_isSome inv.shardBits inv.shardCount entryIndex entryIndex old
      (VersionedCrdsValue.new value crds.cursor now route)
  refine ⟨_, insert_overriding found replaces removedShards insertedShards sameLabel, ?_⟩
  have inside := (List.getElem?_eq_some_iff.mp at_).1
  have tableEq : (crds.table.insert (label value) (VersionedCrdsValue.new value crds.cursor now route)).entries =
      crds.table.entries.set entryIndex (label value, VersionedCrdsValue.new value crds.cursor now route) := by
    rw [IndexMap.entries_insert_of_mem (IndexMap.mem_keys_of_getElem? at_),
      IndexMap.idxOf_eq_of_getElem? at_]
  have sameVariant : CrdsValue.variant value = CrdsValue.variant old.value := by
    show (label value).variant = (label old.value).variant
    rw [sameLabel]
  have samePubkey : CrdsValue.pubkey value = CrdsValue.pubkey old.value := by
    show (label value).pubkey = (label old.value).pubkey
    rw [sameLabel]
  have fresh : ∀ other, ¬ EntryAt crds.table.entries other fun entry =>
      entry.2.ordinal = (label value, VersionedCrdsValue.new value crds.cursor now route).2.ordinal :=
    inv.fresh
  refine
    { labelled := ?labelled
      ordinalsBelow := ?ordinalsBelow
      ordinalsDistinct := ?ordinalsDistinct
      nodes := ?nodes
      votes := ?votes
      epochSlots := ?epochSlots
      duplicateShreds := ?duplicateShreds
      entries := ?entries
      records := ?records
      shardBits := shardBits
      shardCount := shardCount
      shards := ?shards
      shredVersions := ?shredVersions }
  case labelled =>
    intro position key entry found
    dsimp only at found
    rw [tableEq, getElem?_set_eq_some inside] at found
    obtain ⟨_, found⟩ | ⟨_, entryEq⟩ := found
    · exact inv.labelled found
    · cases entryEq
      rfl
  case ordinalsBelow =>
    intro position key entry found
    dsimp only at found ⊢
    rw [tableEq, getElem?_set_eq_some inside] at found
    obtain ⟨_, found⟩ | ⟨_, entryEq⟩ := found
    · exact Nat.lt_of_lt_of_le (inv.ordinalsBelow found) (Nat.le_max_left _ _)
    · cases entryEq
      exact Nat.lt_of_lt_of_le (Nat.lt_succ_self _) (Nat.le_max_right _ _)
  case ordinalsDistinct =>
    intro first second firstEntry secondEntry firstAt secondAt ordinalEq
    dsimp only at firstAt secondAt
    rw [tableEq, getElem?_set_eq_some inside] at firstAt secondAt
    obtain ⟨_, firstAt⟩ | ⟨firstIsNew, rfl⟩ := firstAt <;>
      obtain ⟨_, secondAt⟩ | ⟨secondIsNew, rfl⟩ := secondAt
    · exact inv.ordinalsDistinct firstAt secondAt ordinalEq
    · exact absurd (ordinalEq ▸ inv.ordinalsBelow firstAt) (Nat.lt_irrefl _)
    · exact absurd (ordinalEq.symm ▸ inv.ordinalsBelow secondAt) (Nat.lt_irrefl _)
    · exact firstIsNew.trans secondIsNew.symm
  case nodes =>
    dsimp only
    rw [tableEq]
    exact nodes_replace at_ (by rw [new_value, sameVariant]) inv.nodes
  case votes =>
    dsimp only
    rw [tableEq]
    exact inv.votes.replace inv.ordinalsDistinct at_ sameVariant fresh
  case epochSlots =>
    dsimp only
    rw [tableEq]
    exact inv.epochSlots.replace inv.ordinalsDistinct at_ sameVariant fresh
  case duplicateShreds =>
    dsimp only
    rw [tableEq]
    exact inv.duplicateShreds.replace inv.ordinalsDistinct at_ sameVariant fresh
  case entries =>
    dsimp only
    rw [tableEq]
    have replaced := inv.entries.replace inv.ordinalsDistinct at_ sameVariant fresh
    rwa [if_pos trivial] at replaced
  case records =>
    dsimp only
    rw [tableEq]
    exact RecordsRelate.replace at_ samePubkey inv.records
  case shards =>
    dsimp only
    rw [tableEq]
    exact inv.shards.replace at_ removedShards insertedShards
  case shredVersions =>
    intro pubkey member
    dsimp only at member ⊢
    split at member
    · rw [AList.mem_insert] at member
      obtain rfl | member := member
      · obtain ⟨set, lookupEq, _⟩ := inv.records.lookup_of_related
          ((entryAt_iff_of_getElem? at_).mpr samePubkey.symm)
        exact AList.lookup_isSome.mp (by rw [lookupEq]; rfl)
      · exact inv.shredVersions pubkey member
    · exact inv.shredVersions pubkey member

omit [LinearOrder H] in
/-- Rewriting the entry at one position with the same label, value and ordinal keeps the
invariant: this is how a duplicate push bumps its counter. -/
theorem Inv.restamp (inv : crds.Inv) {position : Nat} {key : CrdsValueLabel P}
    {entry : VersionedCrdsValue V} (found : crds.table.entries[position]? = some (key, entry))
    (restamped : VersionedCrdsValue V) (sameValue : restamped.value = entry.value) (sameOrdinal : restamped.ordinal = entry.ordinal)
    (table : IndexMap (CrdsValueLabel P) (VersionedCrdsValue V))
    (tableEq : table.entries = crds.table.entries.set position (key, restamped)) :
    { crds with table }.Inv := by
  have inside := (List.getElem?_eq_some_iff.mp found).1
  -- every entry of the new table stands, with its label, value and ordinal, in the old one
  have back : ∀ {other : Nat} {otherKey : CrdsValueLabel P} {otherEntry : VersionedCrdsValue V},
      table.entries[other]? = some (otherKey, otherEntry) →
        ∃ stored : VersionedCrdsValue V, crds.table.entries[other]? = some (otherKey, stored) ∧
          stored.value = otherEntry.value ∧ stored.ordinal = otherEntry.ordinal := by
    intro other otherKey otherEntry otherAt
    rw [tableEq, getElem?_set_eq_some inside] at otherAt
    obtain ⟨_, otherAt⟩ | ⟨rfl, entryEq⟩ := otherAt
    · exact ⟨otherEntry, otherAt, rfl, rfl⟩
    · cases entryEq
      exact ⟨entry, found, sameValue.symm, sameOrdinal.symm⟩
  have same : ∀ (holds : CrdsValueLabel P × VersionedCrdsValue V → Prop) (other : Nat),
      (∀ entry' : VersionedCrdsValue V, entry'.value = entry.value → entry'.ordinal = entry.ordinal →
        (holds (key, entry') ↔ holds (key, entry))) →
      (EntryAt table.entries other holds ↔ EntryAt crds.table.entries other holds) := by
    intro holds other sameHolds
    rw [tableEq]
    exact entryAt_set_of_iff found (sameHolds restamped sameValue sameOrdinal)
  refine
    { labelled := ?labelled
      ordinalsBelow := ?ordinalsBelow
      ordinalsDistinct := ?ordinalsDistinct
      nodes := fun other => (inv.nodes other).trans (same _ other ?sameNode).symm
      votes := inv.votes.congr fun _ other => (same _ other ?sameVote).symm
      epochSlots := inv.epochSlots.congr fun _ other => (same _ other ?sameEpochSlots).symm
      duplicateShreds := inv.duplicateShreds.congr fun _ other => (same _ other ?sameShred).symm
      entries := inv.entries.congr fun _ other => (same _ other ?sameEntry).symm
      records := inv.records.congr fun _ other => (same _ other ?samePubkey).symm
      shardBits := inv.shardBits
      shardCount := inv.shardCount
      shards := inv.shards.congr fun _ other _ => (same _ other ?sameShard).symm
      shredVersions := inv.shredVersions }
  case labelled =>
    intro other otherKey otherEntry otherAt
    obtain ⟨stored, storedAt, storedValue, _⟩ := back otherAt
    exact storedValue ▸ inv.labelled storedAt
  case ordinalsBelow =>
    intro other otherKey otherEntry otherAt
    obtain ⟨stored, storedAt, _, storedOrdinal⟩ := back otherAt
    exact storedOrdinal ▸ inv.ordinalsBelow storedAt
  case ordinalsDistinct =>
    rintro first second ⟨firstKey, firstEntry⟩ ⟨secondKey, secondEntry⟩ firstAt secondAt ordinalEq
    obtain ⟨firstStored, firstStoredAt, _, firstOrdinal⟩ := back firstAt
    obtain ⟨secondStored, secondStoredAt, _, secondOrdinal⟩ := back secondAt
    exact inv.ordinalsDistinct firstStoredAt secondStoredAt
      (firstOrdinal.trans (ordinalEq.trans secondOrdinal.symm))
  all_goals
    intro entry' valueEq ordinalEq
    simp only [valueEq, ordinalEq]

/-- When the stored value wins, the insert fails and at most records the loser's hash or bumps
the stored value's push counter. -/
theorem Inv.insertRejected (inv : crds.Inv) {entryIndex : Nat} {old : VersionedCrdsValue V}
    (found : crds.table.getFull (label value) = some (entryIndex, old))
    (rejected : overrides value old = some false) :
    ∃ crds' error, crds.insert value now route = some (crds', .error error) ∧ crds'.Inv := by
  obtain ⟨at_, _⟩ := inv.label_of_getFull found
  simp only [insert, found, new_value, rejected, Option.bind_eq_bind, Option.bind_some,
    Bool.false_eq_true, if_false]
  by_cases differs : CrdsValue.hash old.value = CrdsValue.hash value
  · simp only [differs, ne_eq, not_true_eq_false, if_false]
    cases route with
    | pushMessage origin =>
        exact ⟨_, _, rfl, inv.restamp at_ { old with numPushRecv := some _ } rfl rfl _ (by
          rw [IndexMap.entries_insert_of_mem (IndexMap.mem_keys_of_getElem? at_),
            IndexMap.idxOf_eq_of_getElem? at_])⟩
    | _ => exact ⟨_, _, rfl, inv⟩
  · -- the loser's hash is only recorded as purged
    simp only [differs, ne_eq, not_false_eq_true, if_true]
    exact ⟨_, _, rfl, { inv with }⟩

/-- Every insert into a well-formed table returns, and leaves it well formed. -/
theorem Inv.insert (inv : crds.Inv) :
    ∃ crds' result, crds.insert value now route = some (crds', result) ∧ crds'.Inv := by
  cases found : crds.table.getFull (label value) with
  | none =>
      obtain ⟨crds', inserted, inv'⟩ := inv.insertVacant found
      exact ⟨crds', _, inserted, inv'⟩
  | some located =>
      obtain ⟨entryIndex, old⟩ := located
      obtain ⟨replaces, decided⟩ := overrides_isSome (inv.label_of_getFull found).2
      cases replaces with
      | false =>
          have rejected : ∃ crds' error, crds.insert value now route = some (crds', .error error) ∧
              crds'.Inv := inv.insertRejected found decided
          obtain ⟨crds', _, rejected, inv'⟩ := rejected
          exact ⟨crds', _, rejected, inv'⟩
      | true =>
          obtain ⟨crds', inserted, inv'⟩ := inv.insertOverriding found decided
          exact ⟨crds', _, inserted, inv'⟩

end Crds

end Validator.Gossip
