import Validator.BankingStage.ThreadAwareAccountLocks

namespace Validator.BankingStage

open Validator.Data

/-! # What a `ThreadSet` holds

A thread is in a set when its bit is set.  Each operation of `ThreadSet` is described by the
threads of its result, for thread ids below `MAX_THREADS`, where no shift overflows.
-/

namespace ThreadSet

instance : Membership ThreadId ThreadSet :=
  ⟨fun set threadId => set.bits.getLsbD threadId = true⟩

theorem mem_def {set : ThreadSet} {threadId : ThreadId} :
    threadId ∈ set ↔ set.bits.getLsbD threadId = true :=
  Iff.rfl

instance (threadId : ThreadId) (set : ThreadSet) : Decidable (threadId ∈ set) :=
  inferInstanceAs (Decidable (_ = true))

@[ext] theorem ext {first second : ThreadSet} (same : ∀ threadId, threadId ∈ first ↔ threadId ∈ second) :
    first = second := by
  obtain ⟨first⟩ := first
  obtain ⟨second⟩ := second
  congr 1
  apply BitVec.eq_of_getLsbD_eq
  intro i _
  rw [Bool.eq_iff_iff]
  exact same i

theorem lt_of_mem {set : ThreadSet} {threadId : ThreadId} (member : threadId ∈ set) :
    threadId < maxThreads := by
  by_contra outside
  have beyond : 64 ≤ threadId := Nat.le_of_not_lt outside
  rw [mem_def, BitVec.getLsbD_of_ge _ _ beyond] at member
  contradiction

@[simp] theorem not_mem_none (threadId : ThreadId) : threadId ∉ ThreadSet.none := by
  simp [mem_def, ThreadSet.none]

@[simp] theorem mem_and {first second : ThreadSet} {threadId : ThreadId} :
    threadId ∈ first &&& second ↔ threadId ∈ first ∧ threadId ∈ second := by
  show (first.bits &&& second.bits).getLsbD threadId = true ↔ _
  rw [BitVec.getLsbD_and, Bool.and_eq_true]
  rfl

theorem isEmpty_iff {set : ThreadSet} : set.isEmpty = true ↔ ∀ threadId, threadId ∉ set := by
  constructor
  · intro empty threadId member
    have noneEq : set = ThreadSet.none := by simpa [isEmpty] using empty
    rw [noneEq] at member
    exact not_mem_none threadId member
  · intro empty
    have noneEq : set = ThreadSet.none := by
      ext threadId
      simp [empty threadId]
    simp [isEmpty, noneEq]

theorem any_eq {numThreads : Nat} (bound : numThreads ≤ maxThreads) :
    ∃ set, ThreadSet.any numThreads = some set ∧
      ∀ threadId, threadId ∈ set ↔ threadId < numThreads := by
  by_cases full : numThreads = maxThreads
  · refine ⟨⟨BitVec.allOnes 64⟩, by simp [any, full], fun threadId => ?_⟩
    rw [mem_def, BitVec.getLsbD_allOnes, decide_eq_true_iff, full]
    rfl
  · have below : numThreads < 64 := by simp only [maxThreads] at bound full; omega
    refine ⟨⟨(1#64 <<< numThreads) - 1#64⟩, ?_, fun threadId => ?_⟩
    · rw [any, if_neg full, asFlag, if_pos (show numThreads < maxThreads from below)]
      rfl
    rw [mem_def, BitSet.getLsbD_one_shiftLeft_sub_one below, decide_eq_true_iff]

theorem only_eq {threadId : ThreadId} (bound : threadId < maxThreads) :
    ∃ set, ThreadSet.only threadId = some set ∧ ∀ other, other ∈ set ↔ other = threadId := by
  have bound64 : threadId < 64 := bound
  refine ⟨⟨1#64 <<< threadId⟩, by simp [only, asFlag, bound], fun other => ?_⟩
  rw [mem_def, BitSet.getLsbD_one_shiftLeft bound64, decide_eq_true_iff]

/-- `only_one_contained` finds the thread of a set of one thread, and only then. -/
theorem onlyOneContained_eq_some_iff {set : ThreadSet} {threadId : ThreadId} :
    set.onlyOneContained = some threadId ↔ ∀ other, other ∈ set ↔ other = threadId := by
  constructor
  · intro found
    unfold onlyOneContained numThreads at found
    split at found
    · rename_i one
      obtain ⟨single, singleSpec⟩ := BitSet.toNat_cpop_eq_one_iff.mp one
      rw [Option.some.injEq, BitSet.toNat_ctz_of_single singleSpec] at found
      subst found
      exact singleSpec
    · contradiction
  · intro single
    have one : set.bits.cpop.toNat = 1 := BitSet.toNat_cpop_eq_one_iff.mpr ⟨threadId, single⟩
    simp only [onlyOneContained, numThreads, one, if_true, BitSet.toNat_ctz_of_single single]

theorem contains_eq {set : ThreadSet} {threadId : ThreadId} (bound : threadId < maxThreads) :
    set.contains threadId = some (decide (threadId ∈ set)) := by
  simp only [contains, asFlag, bound, if_true, Option.map_some, Option.some.injEq]
  have bound64 : threadId < 64 := bound
  rw [Bool.eq_iff_iff, bne_iff_ne, ne_eq, BitSet.eq_zero_iff_getLsbD_eq_false, decide_eq_true_iff,
    mem_def]
  simp only [BitVec.getLsbD_and, BitSet.getLsbD_one_shiftLeft bound64, not_forall]
  constructor
  · rintro ⟨i, set⟩
    by_cases same : i = threadId
    · subst same
      simpa using set
    · simp [same] at set
  · intro set
    exact ⟨threadId, by simp [set]⟩

theorem insert_eq {set : ThreadSet} {threadId : ThreadId} (bound : threadId < maxThreads) :
    ∃ inserted, set.insert threadId = some inserted ∧
      ∀ other, other ∈ inserted ↔ other ∈ set ∨ other = threadId := by
  have bound64 : threadId < 64 := bound
  refine ⟨⟨set.bits ||| 1#64 <<< threadId⟩, by simp [insert, asFlag, bound], fun other => ?_⟩
  rw [mem_def, mem_def, BitVec.getLsbD_or, BitSet.getLsbD_one_shiftLeft bound64, Bool.or_eq_true,
    decide_eq_true_iff]

theorem remove_eq {set : ThreadSet} {threadId : ThreadId} (bound : threadId < maxThreads) :
    ∃ removed, set.remove threadId = some removed ∧
      ∀ other, other ∈ removed ↔ other ∈ set ∧ other ≠ threadId := by
  have bound64 : threadId < 64 := bound
  refine ⟨⟨set.bits &&& ~~~(1#64 <<< threadId)⟩, by simp [remove, asFlag, bound], fun other => ?_⟩
  rw [mem_def, mem_def, BitVec.getLsbD_and, BitVec.getLsbD_not,
    BitSet.getLsbD_one_shiftLeft bound64]
  by_cases inside : other < 64
  · by_cases same : other = threadId <;> simp [inside, same]
  · have beyond := BitVec.getLsbD_of_ge set.bits other (Nat.le_of_not_lt inside)
    simp [inside, beyond]

/-- The lowest thread of a set, a selector that picks from any nonempty set. -/
def lowest (set : ThreadSet) : ThreadId :=
  set.bits.ctz.toNat

theorem lowest_mem {set : ThreadSet} (nonempty : ∃ threadId, threadId ∈ set) : set.lowest ∈ set := by
  obtain ⟨threadId, member⟩ := nonempty
  have nonzero : set.bits ≠ 0#64 := by
    intro zero
    rw [mem_def, zero, BitVec.getLsbD_zero] at member
    contradiction
  exact BitVec.getLsbD_true_ctz_of_ne_zero nonzero

end ThreadSet

end Validator.BankingStage
