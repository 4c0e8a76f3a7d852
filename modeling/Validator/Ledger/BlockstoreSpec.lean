import Validator.Ledger.Blockstore
import Validator.Ledger.DataSets
import Validator.Data.FirstBySender

namespace Validator.Ledger

open Validator.Data

/-! # The bookkeeping of a slot's data shreds

`Tracks` says what the tracker of a slot holds after a list of inserted shreds: the data index,
`consumed`, `received`, `last_index` and the completed data indexes are those of the list, the data
column holds each inserted shred, and the reported data sets are the complete ones, once each.  One
call keeps it (`Tracks.checkInsertDataShred_some`), so every run does.  The candidates that
`update_completed_data_indexes` checks are the data sets the new index touches
(`mem_completedDataCandidates_iff`); that is where the reporting is exact.
-/

/-- The start of the data set that holds `index`: right after the last mark before it, or zero. -/
def dataSetStart (marks : List Nat) (index : Nat) : Nat :=
  (((marks.filter (· < index)).max?).map (· + 1)).getD 0

section Candidates

variable {marks : List Nat} {index : Nat}

theorem dataSetStart_spec (marks : List Nat) (index : Nat) :
    dataSetStart marks index ≤ index ∧
      (dataSetStart marks index = 0 ∨ dataSetStart marks index - 1 ∈ marks) ∧
      ∀ x ∈ marks, x < index → x < dataSetStart marks index := by
  unfold dataSetStart
  cases last : (marks.filter (· < index)).max? with
  | none =>
      have empty := List.max?_eq_none_iff.mp last
      refine ⟨Nat.zero_le _, Or.inl rfl, fun x mark below => ?_⟩
      have member : x ∈ marks.filter (· < index) := List.mem_filter.mpr ⟨mark, by simpa using below⟩
      rw [empty] at member
      cases member
  | some q =>
      obtain ⟨member, greatest⟩ := List.max?_eq_some_iff.mp last
      obtain ⟨mark, below⟩ := List.mem_filter.mp member
      simp only [decide_eq_true_eq] at below
      refine ⟨by simp only [Option.map_some, Option.getD_some]; omega, Or.inr (by simpa using mark),
        fun x mark' below' => ?_⟩
      have := greatest x (List.mem_filter.mpr ⟨mark', by simpa using below'⟩)
      simp only [Option.map_some, Option.getD_some]
      omega

theorem or_dataSetStart :
    (((marks.filter (· < index)).max?).map (· + 1)).or (some 0) = some (dataSetStart marks index) := by
  unfold dataSetStart
  cases (marks.filter (· < index)).max? <;> rfl

theorem start_eq_dataSetStart {start stop : Nat} (dataSet : IsDataSet {j | j ∈ marks} start stop)
    (lower : start ≤ index) (upper : index < stop) : start = dataSetStart marks index := by
  obtain ⟨-, startMark, -, between⟩ := dataSet
  obtain ⟨atMost, startEnd, above⟩ := dataSetStart_spec marks index
  apply Nat.le_antisymm
  · -- a mark right before `start` lies below `index`, so the data set of `index` starts after it
    rcases Nat.eq_zero_or_pos start with zero | positive
    · omega
    · have mark := startMark.resolve_left (by omega)
      have := above (start - 1) mark (by omega)
      omega
  · -- and no mark lies between `start` and `index`
    rcases startEnd with zero | mark
    · omega
    · by_contra after
      exact between (dataSetStart marks index - 1) (by omega) (by omega) mark

theorem nextMark_some {next : Nat} (found : (marks.filter (index + 1 ≤ ·)).min? = some next) :
    next ∈ marks ∧ index < next ∧ ∀ x ∈ marks, index < x → next ≤ x := by
  obtain ⟨member, least⟩ := List.min?_eq_some_iff.mp found
  obtain ⟨mark, after⟩ := List.mem_filter.mp member
  simp only [decide_eq_true_eq] at after
  exact ⟨mark, after, fun x mark' after' => least x (List.mem_filter.mpr ⟨mark', by simp; omega⟩)⟩

theorem nextMark_none (found : (marks.filter (index + 1 ≤ ·)).min? = none) : ∀ x ∈ marks, x ≤ index := by
  intro x mark
  by_contra after
  have member : x ∈ marks.filter (index + 1 ≤ ·) := List.mem_filter.mpr ⟨mark, by simp; omega⟩
  rw [List.min?_eq_none_iff.mp found] at member
  cases member

theorem nextMark_eq_of_isDataSet {start stop : Nat} (dataSet : IsDataSet {j | j ∈ marks} start stop)
    (lower : start ≤ index + 1) (after : index < stop - 1) :
    (marks.filter (index + 1 ≤ ·)).min? = some (stop - 1) := by
  obtain ⟨-, -, stopMark, between⟩ := dataSet
  apply List.min?_eq_some_iff.mpr
  refine ⟨List.mem_filter.mpr ⟨stopMark, by simp; omega⟩, fun x member => ?_⟩
  obtain ⟨mark, later⟩ := List.mem_filter.mp member
  simp only [decide_eq_true_eq] at later
  by_contra before
  exact between x (by omega) (by omega) mark

/-- The candidates of `update_completed_data_indexes` are the data sets of the marks (the new
index among them when it is one) that the arrival of the index touches. -/
theorem mem_completedDataCandidates_iff {isMark : Bool} (isMarkIff : index ∈ marks ↔ isMark = true)
    {start stop : Nat} :
    (start, stop) ∈ completedDataCandidates isMark index marks ↔
      IsDataSet {j | j ∈ marks} start stop ∧ Touches index isMark start stop := by
  obtain ⟨atMost, startEnd, above⟩ := dataSetStart_spec marks index
  -- the data set that a marked index ends
  have endsAt : index ∈ marks → IsDataSet {j | j ∈ marks} (dataSetStart marks index) (index + 1) := by
    intro mark
    refine ⟨by omega, startEnd, by simpa using mark, fun j lower upper inner => ?_⟩
    have := above j inner (by omega)
    omega
  unfold completedDataCandidates
  rw [or_dataSetStart]
  cases next : (marks.filter (index + 1 ≤ ·)).min? with
  | none =>
      have noneAfter := nextMark_none next
      cases isMark with
      | false =>
          simp only [Option.map_none, Bool.false_eq_true, if_false, List.reduceOption_cons_of_some,
            List.reduceOption_cons_of_none, List.reduceOption_nil, List.tail_cons, List.zip_nil_right,
            List.not_mem_nil, false_iff, not_and]
          rintro ⟨-, -, stopMark, -⟩ (⟨lower, upper⟩ | ⟨absurd, -⟩)
          · have := noneAfter _ stopMark
            have same : stop - 1 = index := by omega
            rw [same] at stopMark
            exact absurd (isMarkIff.mp stopMark) (by decide)
          · cases absurd
      | true =>
          simp only [Option.map_none, if_true, List.reduceOption_cons_of_some,
            List.reduceOption_cons_of_none, List.reduceOption_nil, List.tail_cons, List.zip_cons_cons,
            List.zip_nil_right, List.mem_singleton, Prod.mk.injEq]
          constructor
          · rintro ⟨rfl, rfl⟩
            exact ⟨endsAt (isMarkIff.mpr rfl), Or.inl ⟨atMost, by omega⟩⟩
          · rintro ⟨dataSet, ⟨lower, upper⟩ | ⟨-, after⟩⟩
            · have := noneAfter _ dataSet.2.2.1
              exact ⟨(start_eq_dataSetStart dataSet lower upper), by omega⟩
            · have := noneAfter _ dataSet.2.2.1
              have := dataSet.1
              omega
  | some following =>
      obtain ⟨followingMark, after, least⟩ := nextMark_some next
      cases isMark with
      | false =>
          have unmarked : index ∉ marks := fun mark => absurd (isMarkIff.mp mark) (by decide)
          simp only [Option.map_some, Bool.false_eq_true, if_false, List.reduceOption_cons_of_some,
            List.reduceOption_cons_of_none, List.reduceOption_nil, List.tail_cons, List.zip_cons_cons,
            List.zip_nil_right, List.mem_singleton, Prod.mk.injEq]
          constructor
          · rintro ⟨rfl, rfl⟩
            -- the data set of `index` runs from the mark before it to the mark after it
            refine ⟨⟨by omega, startEnd, by simpa using followingMark, fun j lower upper inner => ?_⟩,
              Or.inl ⟨atMost, by omega⟩⟩
            rcases Nat.lt_trichotomy j index with below | same | later
            · have := above j inner below
              omega
            · exact unmarked (same ▸ inner)
            · have := least j inner later
              omega
          · rintro ⟨dataSet, ⟨lower, upper⟩ | ⟨absurd, -⟩⟩
            · have beyond : index < stop - 1 := by
                have stopMark : stop - 1 ∈ marks := dataSet.2.2.1
                have other : stop - 1 ≠ index := fun same => unmarked (same ▸ stopMark)
                omega
              have found := nextMark_eq_of_isDataSet dataSet (by omega) beyond
              rw [next, Option.some.injEq] at found
              exact ⟨start_eq_dataSetStart dataSet lower upper, by omega⟩
            · cases absurd
      | true =>
          simp only [Option.map_some, if_true, List.reduceOption_cons_of_some, List.reduceOption_nil,
            List.tail_cons, List.zip_cons_cons, List.zip_nil_right, List.mem_cons, Prod.mk.injEq,
            List.not_mem_nil, or_false]
          constructor
          · rintro (⟨rfl, rfl⟩ | ⟨rfl, rfl⟩)
            · exact ⟨endsAt (isMarkIff.mpr rfl), Or.inl ⟨atMost, by omega⟩⟩
            · -- the data set that starts right after the new mark
              refine ⟨⟨by omega, Or.inr (by simpa using isMarkIff.mpr rfl),
                by simpa using followingMark, fun j lower upper inner => ?_⟩, Or.inr ⟨rfl, rfl⟩⟩
              have := least j inner (by omega)
              omega
          · rintro ⟨dataSet, ⟨lower, upper⟩ | ⟨-, after⟩⟩
            · -- the new mark ends the data set that holds it
              have ends : stop = index + 1 := by
                by_contra longer
                exact dataSet.2.2.2 index lower (by omega) (isMarkIff.mpr rfl)
              exact Or.inl ⟨start_eq_dataSetStart dataSet lower upper, ends⟩
            · have ordered := dataSet.1
              have found : (marks.filter (index + 1 ≤ ·)).min? = some (stop - 1) :=
                nextMark_eq_of_isDataSet dataSet (by omega) (by omega)
              rw [next, Option.some.injEq] at found
              exact Or.inr ⟨after, by omega⟩

theorem nodup_completedDataCandidates (isMark : Bool) (index : Nat) (marks : List Nat) :
    (completedDataCandidates isMark index marks).Nodup := by
  have atMost := (dataSetStart_spec marks index).1
  unfold completedDataCandidates
  rw [or_dataSetStart]
  cases (marks.filter (index + 1 ≤ ·)).min? <;> cases isMark <;>
    simp only [Option.map_some, Option.map_none, Bool.false_eq_true, if_true, if_false,
      List.reduceOption_cons_of_some, List.reduceOption_cons_of_none, List.reduceOption_nil,
      List.tail_cons, List.zip_cons_cons, List.zip_nil_right, List.nodup_nil, List.nodup_cons,
      List.mem_singleton, List.not_mem_nil, Prod.mk.injEq, not_false_eq_true, and_true]
  omega

theorem nodup_updateCompletedDataIndexes (isLastInData : Bool) (newShredIndex : Nat)
    (receivedDataShreds : ShredIndexV2) (completedDataIndexes : List Nat) :
    (updateCompletedDataIndexes isLastInData newShredIndex receivedDataShreds
      completedDataIndexes).2.Nodup :=
  (nodup_completedDataCandidates _ _ _).filter _

end Candidates

theorem nextMissing_spec (dataIndex : ShredIndexV2) (currentIndex : Nat) :
    currentIndex ≤ nextMissing dataIndex currentIndex ∧
      dataIndex.contains (nextMissing dataIndex currentIndex) = false ∧
      ∀ j, currentIndex ≤ j → j < nextMissing dataIndex currentIndex → dataIndex.contains j = true := by
  fun_induction nextMissing dataIndex currentIndex with
  | case1 current held ih =>
      obtain ⟨after, missing, between⟩ := ih
      refine ⟨by omega, missing, fun j lower upper => ?_⟩
      rcases Nat.eq_or_lt_of_le lower with same | later
      · exact same ▸ held
      · exact between j later upper
  | case2 current clear =>
      exact ⟨le_refl _, by simpa using clear, fun j lower upper => absurd upper (by omega)⟩

/-- The end of the highest of `indices`, or zero: `received` of a slot that holds them. -/
theorem maxEnd_append_singleton (indices : List Nat) (index : Nat) :
    (((indices ++ [index]).max?).map (· + 1)).getD 0 =
      max (index + 1) (((indices.max?).map (· + 1)).getD 0) := by
  cases highest : indices.max? with
  | none =>
      rw [List.max?_eq_none_iff.mp highest]
      simp
  | some top =>
      obtain ⟨member, greatest⟩ := List.max?_eq_some_iff.mp highest
      have appended : (indices ++ [index]).max? = some (max top index) := by
        apply List.max?_eq_some_iff.mpr
        refine ⟨?_, fun other mem => ?_⟩
        · rcases Nat.le_total top index with below | above
          · simp [Nat.max_eq_right below]
          · simp [Nat.max_eq_left above, member]
        · rcases List.mem_append.mp mem with old | new
          · exact (greatest other old).trans (Nat.le_max_left _ _)
          · rw [List.mem_singleton.mp new]
            exact Nat.le_max_right _ _
      rw [appended]
      simp only [Option.map_some, Option.getD_some]
      omega

section Tracking

variable {Payload : Type}

/-- The indices of the shreds that end a data set: those flagged `DATA_COMPLETE_SHRED` or
`LAST_SHRED_IN_SLOT`. -/
def completedIndices (inserted : List (Shred Payload)) : List Nat :=
  (inserted.filter fun shred => shred.lastInSlot || shred.dataComplete).map Shred.index

/-- What the tracker of a slot holds after the shreds `inserted` were inserted, in this order. -/
structure Tracks (slot parentSlot : Nat) (inserted : List (Shred Payload))
    (tracker : ShredInsertionTracker Payload) : Prop where
  parent : tracker.slotMeta.parentSlot = some parentSlot
  distinct : (inserted.map Shred.index).Nodup
  held : ∀ i, tracker.dataIndex.contains i = true ↔ i ∈ inserted.map Shred.index
  numShreds : tracker.dataIndex.numShreds = inserted.length
  consumed : tracker.slotMeta.consumed ∉ inserted.map Shred.index
  belowConsumed : ∀ i < tracker.slotMeta.consumed, i ∈ inserted.map Shred.index
  received : tracker.slotMeta.received = (((inserted.map Shred.index).max?).map (· + 1)).getD 0
  lastIndex : tracker.slotMeta.lastIndex = (inserted.find? Shred.lastInSlot).map Shred.index
  completed : ∀ i, i ∈ tracker.slotMeta.completedDataIndexes ↔ i ∈ completedIndices inserted
  sorted : tracker.slotMeta.completedDataIndexes.Pairwise (· < ·)
  stored : ∀ i, tracker.dataShredCf (slot, i) = (firstFrom Shred.index inserted i).map Shred.payload
  reported : ∀ start stop, ⟨slot, (start, stop)⟩ ∈ tracker.newlyCompletedDataSets ↔
    IsCompleteDataSet {i | i ∈ inserted.map Shred.index} {i | i ∈ completedIndices inserted} start stop
  reportedOnce : tracker.newlyCompletedDataSets.Nodup
  reportedSlot : ∀ info ∈ tracker.newlyCompletedDataSets, info.slot = slot

theorem tracks_new (slot parentSlot : Nat) :
    Tracks slot parentSlot [] (ShredInsertionTracker.new slot parentSlot : ShredInsertionTracker Payload) where
  parent := rfl
  distinct := List.nodup_nil
  held i := by simp [ShredInsertionTracker.new]
  numShreds := rfl
  consumed := List.not_mem_nil
  belowConsumed i below := absurd below (Nat.not_lt_zero i)
  received := rfl
  lastIndex := rfl
  completed i := by simp [ShredInsertionTracker.new, SlotMeta.new, completedIndices]
  sorted := List.Pairwise.nil
  stored i := rfl
  reported start stop := by
    simp [ShredInsertionTracker.new, IsCompleteDataSet, IsDataSet, completedIndices]
  reportedOnce := List.nodup_nil
  reportedSlot := by simp [ShredInsertionTracker.new]

variable {slot parentSlot : Nat} {inserted : List (Shred Payload)}
  {tracker : ShredInsertionTracker Payload}

theorem Tracks.deadSlot (tracks : Tracks slot parentSlot inserted tracker) (dead : Bool) :
    Tracks slot parentSlot inserted { tracker with deadSlot := dead } := by
  cases tracks
  constructor <;> assumption

theorem Tracks.isDataShredPresent_eq (tracks : Tracks slot parentSlot inserted tracker)
    (shred : Shred Payload) :
    isDataShredPresent shred tracker.slotMeta tracker.dataIndex =
      decide (shred.index ∈ inserted.map Shred.index) := by
  unfold isDataShredPresent
  rw [Bool.eq_iff_iff, Bool.or_eq_true, decide_eq_true_eq, decide_eq_true_eq, tracks.held]
  exact ⟨fun present => present.elim (tracks.belowConsumed _) id, Or.inr⟩

theorem insertDataShred_eq {slotMeta : SlotMeta} {dataIndex : ShredIndexV2}
    {dataShredCf : Nat × Nat → Option Payload} {shred : Shred Payload}
    (known : slotMeta.parentSlot.isSome) :
    insertDataShred slotMeta dataIndex dataShredCf shred =
      let newConsumed :=
        if slotMeta.consumed = shred.index then nextMissing dataIndex (shred.index + 1)
        else slotMeta.consumed
      let updated := updateSlotMeta shred.lastInSlot shred.dataComplete slotMeta shred.index
        newConsumed (dataIndex.insert shred.index)
      some (updated.1, dataIndex.insert shred.index,
        Function.update dataShredCf (shred.slot, shred.index) (some shred.payload),
        updated.2.map fun indices => ⟨shred.slot, indices⟩) := by
  have notOrphan : slotMeta.isOrphan = false := by simpa [SlotMeta.isOrphan] using known
  simp only [insertDataShred, notOrphan, Bool.false_eq_true, if_false]

theorem Tracks.consumed_insert (tracks : Tracks slot parentSlot inserted tracker) {index : Nat}
    (fresh : index ∉ inserted.map Shred.index) :
    (if tracker.slotMeta.consumed = index then nextMissing tracker.dataIndex (index + 1)
        else tracker.slotMeta.consumed) ∉ inserted.map Shred.index ++ [index] ∧
      ∀ i < (if tracker.slotMeta.consumed = index then nextMissing tracker.dataIndex (index + 1)
        else tracker.slotMeta.consumed), i ∈ inserted.map Shred.index ++ [index] := by
  split
  · case isTrue same =>
      -- the new shred fills the first hole: the loop runs to the next one
      obtain ⟨after, missing, between⟩ := nextMissing_spec tracker.dataIndex (index + 1)
      constructor
      · intro member
        rcases List.mem_append.mp member with old | new
        · have held := (tracks.held _).mpr old
          rw [missing] at held
          cases held
        · rw [List.mem_singleton] at new
          omega
      · intro i below
        rcases Nat.lt_trichotomy i index with before | rfl | later
        · exact List.mem_append_left _ (tracks.belowConsumed i (same ▸ before))
        · exact List.mem_append_right _ (List.mem_singleton_self i)
        · exact List.mem_append_left _ ((tracks.held i).mp (between i (by omega) below))
  · case isFalse other =>
      refine ⟨fun member => ?_, fun i below => List.mem_append_left _ (tracks.belowConsumed i below)⟩
      rcases List.mem_append.mp member with old | new
      · exact tracks.consumed old
      · exact other (List.mem_singleton.mp new)

theorem Tracks.lastIndex_insert (tracks : Tracks slot parentSlot inserted tracker)
    (shred : Shred Payload) :
    (if shred.lastInSlot && tracker.slotMeta.lastIndex.isNone then some shred.index
      else tracker.slotMeta.lastIndex) = ((inserted ++ [shred]).find? Shred.lastInSlot).map Shred.index := by
  rw [List.find?_append, tracks.lastIndex]
  cases found : inserted.find? Shred.lastInSlot <;> cases last : shred.lastInSlot <;>
    simp [last]

theorem completedIndices_append_singleton (shred : Shred Payload) :
    completedIndices (inserted ++ [shred]) =
      completedIndices inserted ++ if shred.lastInSlot || shred.dataComplete then [shred.index] else [] := by
  unfold completedIndices
  cases mark : (shred.lastInSlot || shred.dataComplete) <;> simp [List.filter_append, mark]

theorem Tracks.completed_insert (tracks : Tracks slot parentSlot inserted tracker)
    (shred : Shred Payload) (i : Nat) :
    i ∈ (if shred.lastInSlot || shred.dataComplete then
        insertSorted shred.index tracker.slotMeta.completedDataIndexes
      else tracker.slotMeta.completedDataIndexes) ↔ i ∈ completedIndices (inserted ++ [shred]) := by
  rw [completedIndices_append_singleton]
  cases shred.lastInSlot || shred.dataComplete
  · simp [tracks.completed]
  · simp [mem_insertSorted, tracks.completed, or_comm]

theorem completedIndices_subset (inserted : List (Shred Payload)) :
    ∀ i ∈ completedIndices inserted, i ∈ inserted.map Shred.index := by
  intro i member
  obtain ⟨shred, kept, rfl⟩ := List.mem_map.mp member
  exact List.mem_map_of_mem (List.mem_filter.mp kept).1

/-- The arrival of a fresh shred, in the terms of the data sets. -/
theorem arrival_of_fresh {shred : Shred Payload} (fresh : shred.index ∉ inserted.map Shred.index) :
    Arrival {i | i ∈ inserted.map Shred.index} {i | i ∈ completedIndices inserted}
      {i | i ∈ (inserted ++ [shred]).map Shred.index} {i | i ∈ completedIndices (inserted ++ [shred])}
      shred.index (shred.lastInSlot || shred.dataComplete) where
  fresh := fresh
  marked := completedIndices_subset inserted
  receivedAfter j := by simp [or_comm, eq_comm]
  marksAfter j := by
    change j ∈ completedIndices (inserted ++ [shred]) ↔ _
    rw [completedIndices_append_singleton]
    cases shred.lastInSlot || shred.dataComplete <;> simp

/-- The data sets an insertion reports are those it completes. -/
theorem Tracks.mem_updateCompletedDataIndexes_iff (tracks : Tracks slot parentSlot inserted tracker)
    {shred : Shred Payload} (bound : shred.index < maxDataShredsPerSlot)
    (fresh : shred.index ∉ inserted.map Shred.index) (start stop : Nat) :
    (start, stop) ∈ (updateCompletedDataIndexes (shred.lastInSlot || shred.dataComplete) shred.index
        (tracker.dataIndex.insert shred.index) tracker.slotMeta.completedDataIndexes).2 ↔
      IsCompleteDataSet {i | i ∈ (inserted ++ [shred]).map Shred.index}
          {i | i ∈ completedIndices (inserted ++ [shred])} start stop ∧
        Touches shred.index (shred.lastInSlot || shred.dataComplete) start stop := by
  have marks := tracks.completed_insert shred
  have isMarkIff : shred.index ∈ (if shred.lastInSlot || shred.dataComplete then
      insertSorted shred.index tracker.slotMeta.completedDataIndexes
      else tracker.slotMeta.completedDataIndexes) ↔ (shred.lastInSlot || shred.dataComplete) = true := by
    rw [marks, completedIndices_append_singleton, List.mem_append]
    have unmarked : shred.index ∉ completedIndices inserted :=
      fun mark => fresh (completedIndices_subset inserted _ mark)
    cases shred.lastInSlot || shred.dataComplete <;> simp [unmarked]
  have sameMarks : {j | j ∈ (if shred.lastInSlot || shred.dataComplete then
      insertSorted shred.index tracker.slotMeta.completedDataIndexes
      else tracker.slotMeta.completedDataIndexes)} = {j | j ∈ completedIndices (inserted ++ [shred])} :=
    Set.ext marks
  -- the range check reads the index after the insertion
  have heldAfter : ∀ j, (tracker.dataIndex.insert shred.index).contains j = true ↔
      j ∈ (inserted ++ [shred]).map Shred.index := by
    intro j
    rw [tracker.dataIndex.contains_insert bound, Bool.or_eq_true, decide_eq_true_eq, tracks.held]
    simp [or_comm]
  unfold updateCompletedDataIndexes
  simp only [List.mem_filter, beq_iff_eq, ShredIndexV2.range_eq_iff, heldAfter]
  rw [mem_completedDataCandidates_iff isMarkIff, sameMarks]
  unfold IsCompleteDataSet
  constructor
  · rintro ⟨⟨dataSet, touches⟩, all⟩
    exact ⟨⟨dataSet, all⟩, touches⟩
  · rintro ⟨⟨dataSet, all⟩, touches⟩
    exact ⟨⟨dataSet, touches⟩, all⟩

theorem Tracks.insertDataShred_some (tracks : Tracks slot parentSlot inserted tracker)
    {shred : Shred Payload} (sameSlot : shred.slot = slot) (bound : shred.index < maxDataShredsPerSlot)
    (fresh : shred.index ∉ inserted.map Shred.index) :
    ∃ slotMeta dataIndex dataShredCf completed,
      insertDataShred tracker.slotMeta tracker.dataIndex tracker.dataShredCf shred =
        some (slotMeta, dataIndex, dataShredCf, completed) ∧
      Tracks slot parentSlot (inserted ++ [shred])
        { tracker with
          slotMeta, dataIndex, dataShredCf
          newlyCompletedDataSets := tracker.newlyCompletedDataSets ++ completed } := by
  have known : tracker.slotMeta.parentSlot.isSome := by simp [tracks.parent]
  refine ⟨_, _, _, _, insertDataShred_eq known, ?_⟩
  obtain ⟨consumed, belowConsumed⟩ := tracks.consumed_insert fresh
  have arrival := arrival_of_fresh fresh
  have reportedNew := tracks.mem_updateCompletedDataIndexes_iff bound fresh
  -- a reported range of this slot is a new one exactly when it was found by this insertion
  have newInfo : ∀ start stop, (⟨slot, (start, stop)⟩ : CompletedDataSetInfo) ∈
      (updateCompletedDataIndexes (shred.lastInSlot || shred.dataComplete) shred.index
        (tracker.dataIndex.insert shred.index) tracker.slotMeta.completedDataIndexes).2.map
        (fun indices => ⟨shred.slot, indices⟩) ↔
      IsCompleteDataSet {i | i ∈ (inserted ++ [shred]).map Shred.index}
          {i | i ∈ completedIndices (inserted ++ [shred])} start stop ∧
        Touches shred.index (shred.lastInSlot || shred.dataComplete) start stop := by
    intro start stop
    rw [← reportedNew, sameSlot]
    simp
  constructor
  · exact tracks.parent
  · rw [List.map_append, List.nodup_append]
    exact ⟨tracks.distinct, List.nodup_singleton _, fun a old b new => by
      rw [List.map_singleton, List.mem_singleton] at new
      exact fun same => fresh (by rw [← new, ← same]; exact old)⟩
  · intro i
    rw [tracker.dataIndex.contains_insert bound, Bool.or_eq_true, decide_eq_true_eq, tracks.held]
    simp [or_comm]
  · have clear : tracker.dataIndex.contains shred.index = false := by
      cases held : tracker.dataIndex.contains shred.index
      · rfl
      · exact absurd ((tracks.held _).mp held) fresh
    simp [tracker.dataIndex.numShreds_insert bound, clear, tracks.numShreds]
  · simpa [List.map_append] using consumed
  · simpa [List.map_append] using belowConsumed
  · simp only [updateSlotMeta_received, List.map_append, List.map_singleton, maxEnd_append_singleton,
      tracks.received]
  · rw [updateSlotMeta_lastIndex]
    exact tracks.lastIndex_insert shred
  · rw [updateSlotMeta_completedDataIndexes, updateCompletedDataIndexes_fst]
    exact tracks.completed_insert shred
  · rw [updateSlotMeta_completedDataIndexes, updateCompletedDataIndexes_fst]
    split
    · exact pairwise_insertSorted tracks.sorted
    · exact tracks.sorted
  · intro i
    rw [firstFrom_append_singleton_of_not_mem (by simpa [senders] using fresh)]
    by_cases same : i = shred.index
    · subst same
      simp [sameSlot]
    · have other : (slot, i) ≠ (shred.slot, shred.index) := by simp [same]
      simp [Function.update_of_ne other, Function.update_of_ne same, tracks.stored]
  · intro start stop
    rw [List.mem_append, tracks.reported, updateSlotMeta_snd, newInfo]
    exact arrival.isCompleteDataSet_iff.symm
  · rw [List.nodup_append, updateSlotMeta_snd]
    refine ⟨tracks.reportedOnce, ?_, ?_⟩
    · exact (nodup_updateCompletedDataIndexes _ _ _ _).map
        fun first second same => (CompletedDataSetInfo.mk.inj same).2
    · -- what this insertion reports was not complete before, so it was not reported before
      rintro info old _ new rfl
      obtain ⟨⟨start, stop⟩, found, rfl⟩ := List.mem_map.mp new
      rw [sameSlot] at old
      have complete := (tracks.reported start stop).mp old
      exact arrival.not_isCompleteDataSet_of_touches ((reportedNew start stop).mp found).2 complete
  · intro info member
    rcases List.mem_append.mp member with old | new
    · exact tracks.reportedSlot info old
    · obtain ⟨indices, -, rfl⟩ := List.mem_map.mp new
      exact sameSlot

theorem not_lastInSlot_below_received {verifyShredSlots : Nat → Nat → Bool} {shred : Shred Payload}
    {slotMeta : SlotMeta} (should : shouldInsertDataShred verifyShredSlots shred slotMeta = true) :
    ¬(shred.lastInSlot = true ∧ shred.index < slotMeta.received) := by
  unfold shouldInsertDataShred at should
  split at should
  · cases should
  · case isFalse =>
      split at should
      · cases should
      · case isFalse early => simpa using early

/-- What a call adds to the shreds inserted so far: its shred when it returns `Ok`. -/
def afterCall (inserted : List (Shred Payload)) (shred : Shred Payload) :
    Except InsertDataShredError Unit → List (Shred Payload)
  | .ok () => inserted ++ [shred]
  | .error _ => inserted

/-- One call: a rejected shred leaves the bookkeeping as it was (the slot may be marked dead),
an accepted one is added to it; the call never panics. -/
theorem Tracks.checkInsertDataShred_some (tracks : Tracks slot parentSlot inserted tracker)
    (oracles : Oracles) {shred : Shred Payload} (sameSlot : shred.slot = slot)
    (bound : shred.index < maxDataShredsPerSlot) :
    ∃ tracker' result, checkInsertDataShred oracles tracker shred = some (tracker', result) ∧
      Tracks slot parentSlot (afterCall inserted shred result) tracker' := by
  unfold checkInsertDataShred
  cases parent : shred.parent with
  | none => exact ⟨tracker, _, rfl, tracks⟩
  | some parentOfShred =>
      dsimp only
      rw [tracks.isDataShredPresent_eq]
      by_cases present : shred.index ∈ inserted.map Shred.index
      · rw [decide_eq_true present, if_pos rfl]
        exact ⟨tracker, _, rfl, tracks⟩
      · rw [decide_eq_false present]
        simp only [Bool.false_eq_true, if_false]
        by_cases should : shouldInsertDataShred oracles.verifyShredSlots shred tracker.slotMeta = true
        · -- an insertable shred is not a late last shred, so the slot is not marked dead here
          have alive := not_lastInSlot_below_received should
          have notDead : ¬(shred.lastInSlot && decide (shred.index < tracker.slotMeta.received) &&
              !tracker.slotMeta.isFull) = true := by
            simp only [Bool.and_eq_true, decide_eq_true_eq]
            exact fun ⟨late, _⟩ => alive late
          rw [if_neg notDead, should]
          by_cases consistent : oracles.merkleRootConsistent = true
          · obtain ⟨slotMeta, dataIndex, dataShredCf, completed, inserted', tracks'⟩ :=
              tracks.insertDataShred_some sameSlot bound present
            simp only [consistent, Bool.not_true, Bool.false_eq_true, if_false, inserted',
              Option.bind_eq_bind, Option.bind_some, Option.pure_def]
            exact ⟨_, _, rfl, tracks'⟩
          · simp only [Bool.not_eq_true] at consistent
            simp only [consistent, Bool.not_false, Bool.not_true, Bool.false_eq_true, if_true, if_false]
            exact ⟨_, _, rfl, tracks.deadSlot true⟩
        · simp only [Bool.not_eq_true] at should
          simp only [should, Bool.not_false, if_true]
          refine ⟨_, _, rfl, ?_⟩
          split
          · exact tracks.deadSlot true
          · exact tracks

/-- A run of calls on shreds of the slot, by induction on the calls with
`Tracks.checkInsertDataShred_some` for each. -/
theorem Tracks.insertDataShreds_some (tracks : Tracks slot parentSlot inserted tracker)
    (calls : List (Oracles × Shred Payload))
    (ofSlot : ∀ call ∈ calls, call.2.slot = slot ∧ call.2.index < maxDataShredsPerSlot) :
    ∃ final more, insertDataShreds calls tracker = some (final, more) ∧
      Tracks slot parentSlot (inserted ++ more) final := by
  induction calls generalizing inserted tracker with
  | nil => exact ⟨tracker, [], rfl, by simpa using tracks⟩
  | cons call rest ih =>
      obtain ⟨oracles, shred⟩ := call
      obtain ⟨sameSlot, bound⟩ := ofSlot (oracles, shred) List.mem_cons_self
      obtain ⟨stepped, result, called, tracks'⟩ :=
        tracks.checkInsertDataShred_some oracles sameSlot bound
      obtain ⟨final, more, ran, tracksFinal⟩ :=
        ih tracks' fun call member => ofSlot call (List.mem_cons_of_mem _ member)
      cases result with
      | ok =>
          refine ⟨final, shred :: more, ?_, by simpa [afterCall] using tracksFinal⟩
          simp only [insertDataShreds, called, ran, Option.bind_eq_bind, Option.bind_some,
            Option.pure_def]
      | error reason =>
          refine ⟨final, more, ?_, by simpa [afterCall] using tracksFinal⟩
          simp only [insertDataShreds, called, ran, Option.bind_eq_bind, Option.bind_some,
            Option.pure_def]

end Tracking

theorem data_shred_bookkeeping_exact {Payload : Type} (slot parentSlot : Nat)
    (calls : List (Oracles × Shred Payload))
    (ofSlot : ∀ call ∈ calls, call.2.slot = slot ∧ call.2.index < maxDataShredsPerSlot) :
    ∃ final inserted, insertDataShreds calls (ShredInsertionTracker.new slot parentSlot) =
        some (final, inserted) ∧
      (inserted.map Shred.index).Nodup ∧
      (∀ i, final.dataIndex.contains i = true ↔ i ∈ inserted.map Shred.index) ∧
      final.dataIndex.numShreds = inserted.length ∧
      final.slotMeta.consumed ∉ inserted.map Shred.index ∧
      (∀ i < final.slotMeta.consumed, i ∈ inserted.map Shred.index) ∧
      final.slotMeta.received = (((inserted.map Shred.index).max?).map (· + 1)).getD 0 ∧
      (∀ i, i ∈ final.slotMeta.completedDataIndexes ↔ i ∈ completedIndices inserted) ∧
      (∀ i, final.dataShredCf (slot, i) = (firstFrom Shred.index inserted i).map Shred.payload) ∧
      (∀ start stop, ⟨slot, (start, stop)⟩ ∈ final.newlyCompletedDataSets ↔
        IsCompleteDataSet {i | i ∈ inserted.map Shred.index} {i | i ∈ completedIndices inserted}
          start stop) ∧
      final.newlyCompletedDataSets.Nodup ∧
      ∀ info ∈ final.newlyCompletedDataSets, info.slot = slot := by
  obtain ⟨final, inserted, ran, tracks⟩ := (tracks_new slot parentSlot).insertDataShreds_some calls ofSlot
  rw [List.nil_append] at tracks
  exact ⟨final, inserted, ran, tracks.distinct, tracks.held, tracks.numShreds, tracks.consumed,
    tracks.belowConsumed, tracks.received, tracks.completed, tracks.stored, tracks.reported,
    tracks.reportedOnce, tracks.reportedSlot⟩

theorem data_shred_bookkeeping_of_three_calls :
    ∃ calls : List (Oracles × Shred Nat), calls.length = 3 ∧
      (∀ call ∈ calls, call.2.slot = 5 ∧ call.2.index < maxDataShredsPerSlot) ∧
      ∃ final inserted, insertDataShreds calls (ShredInsertionTracker.new 5 4) =
          some (final, inserted) ∧
        (inserted.map Shred.index).Nodup ∧
        (∀ i, final.dataIndex.contains i = true ↔ i ∈ inserted.map Shred.index) ∧
        final.dataIndex.numShreds = inserted.length ∧
        final.slotMeta.consumed ∉ inserted.map Shred.index ∧
        (∀ i < final.slotMeta.consumed, i ∈ inserted.map Shred.index) ∧
        final.slotMeta.received = (((inserted.map Shred.index).max?).map (· + 1)).getD 0 ∧
        (∀ i, i ∈ final.slotMeta.completedDataIndexes ↔ i ∈ completedIndices inserted) ∧
        (∀ i, final.dataShredCf (5, i) = (firstFrom Shred.index inserted i).map Shred.payload) ∧
        (∀ start stop, ⟨5, (start, stop)⟩ ∈ final.newlyCompletedDataSets ↔
          IsCompleteDataSet {i | i ∈ inserted.map Shred.index} {i | i ∈ completedIndices inserted}
            start stop) ∧
        final.newlyCompletedDataSets.Nodup ∧
        ∀ info ∈ final.newlyCompletedDataSets, info.slot = 5 := by
  -- shred 1, then the data-complete shred 0, then a conflicting second version of shred 1
  let oracles : Oracles := ⟨fun _ _ => true, true⟩
  let calls : List (Oracles × Shred Nat) :=
    [(oracles, ⟨5, 1, some 4, false, false, 10⟩), (oracles, ⟨5, 0, some 4, false, true, 20⟩),
      (oracles, ⟨5, 1, some 4, false, true, 30⟩)]
  have ofSlot : ∀ call ∈ calls, call.2.slot = 5 ∧ call.2.index < maxDataShredsPerSlot := by
    simp [calls, maxDataShredsPerSlot]
  exact ⟨calls, rfl, ofSlot, data_shred_bookkeeping_exact 5 4 calls ofSlot⟩

end Validator.Ledger
