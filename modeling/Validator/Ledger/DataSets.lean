import Mathlib.Data.Set.Basic

namespace Validator.Ledger

/-! # Data sets between marks

The shreds of a slot are cut into data sets by the marked indices (those of the shreds that end
a data set): a data set starts at zero or right after a mark and ends at the next mark.  It is
complete when every index in it has been received.  A fresh index, marked or not, can only
complete a data set that it lies in or, when it is a mark, the one that starts right after it.
-/

def IsDataSet (marks : Set Nat) (start stop : Nat) : Prop :=
  start < stop ∧ (start = 0 ∨ start - 1 ∈ marks) ∧ stop - 1 ∈ marks ∧
    ∀ j, start ≤ j → j + 1 < stop → j ∉ marks

def IsCompleteDataSet (received marks : Set Nat) (start stop : Nat) : Prop :=
  IsDataSet marks start stop ∧ ∀ j, start ≤ j → j < stop → j ∈ received

/-- The data sets that the arrival of `index` can complete. -/
def Touches (index : Nat) (isMark : Bool) (start stop : Nat) : Prop :=
  start ≤ index ∧ index < stop ∨ isMark = true ∧ start = index + 1

section Arrival

variable {received marks received' marks' : Set Nat} {index : Nat} {isMark : Bool}
  {start stop : Nat}

/-- A fresh index was received, and made a mark when `isMark`; every mark was received. -/
structure Arrival (received marks received' marks' : Set Nat) (index : Nat) (isMark : Bool) :
    Prop where
  fresh : index ∉ received
  marked : marks ⊆ received
  receivedAfter : ∀ j, j ∈ received' ↔ j ∈ received ∨ j = index
  marksAfter : ∀ j, j ∈ marks' ↔ j ∈ marks ∨ isMark = true ∧ j = index

theorem Arrival.isCompleteDataSet_of_before (arrival : Arrival received marks received' marks' index isMark)
    (complete : IsCompleteDataSet received marks start stop) :
    IsCompleteDataSet received' marks' start stop := by
  obtain ⟨⟨ordered, startMark, stopMark, between⟩, all⟩ := complete
  refine ⟨⟨ordered, ?_, (arrival.marksAfter _).mpr (Or.inl stopMark), ?_⟩, ?_⟩
  · exact startMark.imp_right fun mark => (arrival.marksAfter _).mpr (Or.inl mark)
  · intro j lower upper mark
    rcases (arrival.marksAfter j).mp mark with old | ⟨-, rfl⟩
    · exact between j lower upper old
    · -- a new mark inside a complete set would have been received already
      exact arrival.fresh (all j lower (by omega))
  · exact fun j lower upper => (arrival.receivedAfter j).mpr (Or.inl (all j lower upper))

theorem Arrival.isCompleteDataSet_of_not_touches
    (arrival : Arrival received marks received' marks' index isMark)
    (complete : IsCompleteDataSet received' marks' start stop)
    (away : ¬Touches index isMark start stop) :
    IsCompleteDataSet received marks start stop := by
  obtain ⟨⟨ordered, startMark, stopMark, between⟩, all⟩ := complete
  simp only [Touches, not_or, not_and] at away
  obtain ⟨outside, notAfter⟩ := away
  refine ⟨⟨ordered, ?_, ?_, ?_⟩, ?_⟩
  · rcases startMark with zero | mark
    · exact Or.inl zero
    · rcases (arrival.marksAfter _).mp mark with old | ⟨isMark, same⟩
      · exact Or.inr old
      · exact absurd (by omega) (notAfter isMark)
  · rcases (arrival.marksAfter _).mp stopMark with old | ⟨-, same⟩
    · exact old
    · exact absurd (by omega) (outside (by omega))
  · exact fun j lower upper mark => between j lower upper ((arrival.marksAfter j).mpr (Or.inl mark))
  · intro j lower upper
    rcases (arrival.receivedAfter j).mp (all j lower upper) with old | same
    · exact old
    · exact absurd upper (by subst same; exact outside lower)

theorem Arrival.not_isCompleteDataSet_of_touches
    (arrival : Arrival received marks received' marks' index isMark)
    (touches : Touches index isMark start stop) :
    ¬IsCompleteDataSet received marks start stop := by
  rintro ⟨⟨-, startMark, -, -⟩, all⟩
  rcases touches with ⟨lower, upper⟩ | ⟨-, after⟩
  · exact arrival.fresh (all index lower upper)
  · rcases startMark with zero | mark
    · omega
    · rw [after, Nat.add_sub_cancel] at mark
      exact arrival.fresh (arrival.marked mark)

/-- After an arrival the complete data sets are those complete before, and those that the
arrival touches and completes. -/
theorem Arrival.isCompleteDataSet_iff (arrival : Arrival received marks received' marks' index isMark) :
    IsCompleteDataSet received' marks' start stop ↔
      IsCompleteDataSet received marks start stop ∨
        IsCompleteDataSet received' marks' start stop ∧ Touches index isMark start stop := by
  constructor
  · intro complete
    by_cases touches : Touches index isMark start stop
    · exact Or.inr ⟨complete, touches⟩
    · exact Or.inl (arrival.isCompleteDataSet_of_not_touches complete touches)
  · rintro (before | ⟨after, -⟩)
    · exact arrival.isCompleteDataSet_of_before before
    · exact after

end Arrival

end Validator.Ledger
