import Mathlib.Data.List.Infix
import Mathlib.Order.Lattice

namespace Validator.Data

/-! # Which of two elements comes first

Order facts about lists of events and of the elements they record: `[a, b] <+ l` says that
`a` occurs in `l` before `b`.  They carry the order of calls in a run over to the order of
the tasks the calls submit.
-/

variable {ι κ : Type*}

/-- The elements at two indices, in index order, form a sublist. -/
theorem pair_sublist_of_lt {l : List ι} {first second : Nat} (earlier : first < second)
    (bound : second < l.length) :
    List.Sublist [l[first], l[second]] l := by
  have split : l.take second ++ l.drop second = l := List.take_append_drop second l
  have firstTaken : l[first] ∈ l.take second := by
    have inTake : first < (l.take second).length := by simp; omega
    rw [← List.getElem_take (h := inTake)]
    exact List.getElem_mem inTake
  have secondDropped : l[second] ∈ l.drop second := by
    have inDrop : 0 < (l.drop second).length := by simp; omega
    have head : (l.drop second)[0] = l[second] := by simp
    rw [← head]
    exact List.getElem_mem inDrop
  conv_rhs => rw [← split]
  exact (List.singleton_sublist.mpr firstTaken).append (List.singleton_sublist.mpr secondDropped)

/-- What the events at two indices record, in index order, is a sublist of the record. -/
theorem pair_sublist_filterMap_of_lt {l : List ι} (record : ι → Option κ) {first second : Nat}
    (earlier : first < second) {a b : κ} (firstRecorded : l[first]?.bind record = some a)
    (secondRecorded : l[second]?.bind record = some b) :
    List.Sublist [a, b] (l.filterMap record) := by
  obtain ⟨secondEvent, secondFound, secondMaps⟩ := Option.bind_eq_some_iff.mp secondRecorded
  obtain ⟨bound, rfl⟩ := List.getElem?_eq_some_iff.mp secondFound
  obtain ⟨firstEvent, firstFound, firstMaps⟩ := Option.bind_eq_some_iff.mp firstRecorded
  obtain ⟨firstBound, rfl⟩ := List.getElem?_eq_some_iff.mp firstFound
  have pair := (pair_sublist_of_lt earlier bound).filterMap record
  simpa [firstMaps, secondMaps] using pair

/-- In a list without repetitions, a prefix that contains the later of two elements contains
both, in the same order. -/
theorem pair_sublist_of_isPrefix {p l : List ι} (prefixOf : p <+: l) (distinct : l.Nodup)
    {a b : ι} (pair : List.Sublist [a, b] l) (present : b ∈ p) : List.Sublist [a, b] p := by
  obtain ⟨rest, rfl⟩ := prefixOf
  have apart : ∀ x ∈ p, ∀ y ∈ rest, x ≠ y := (List.nodup_append.mp distinct).2.2
  obtain ⟨front, back, split, inPrefix, inRest⟩ := List.sublist_append_iff.mp pair
  -- `b` cannot lie in `rest` as well as in `p`.
  have notInRest : b ∉ rest := fun member => apart b present b member rfl
  match front, back, split with
  | [_, _], [], split =>
      rw [List.append_nil] at split
      rw [split]
      exact inPrefix
  | [_], [b'], split =>
      simp only [List.cons_append, List.nil_append, List.cons.injEq] at split
      exact absurd (inRest.subset (by simp [split.2.1])) notInRest
  | [], [_, b'], split =>
      simp only [List.nil_append, List.cons.injEq] at split
      exact absurd (inRest.subset (by simp [split.2.1])) notInRest

/-- Along a list ordered by `R`, a test that holds of an element holds of every earlier one:
taking the elements while it holds is keeping those where it holds. -/
theorem takeWhile_eq_filter_of_pairwise {R : ι → ι → Prop} {p : ι → Bool} {l : List ι}
    (ordered : l.Pairwise R) (closed : ∀ a b, R a b → p b = true → p a = true) :
    l.takeWhile p = l.filter p := by
  induction l with
  | nil => rfl
  | cons head rest ih =>
      obtain ⟨first, ordered⟩ := List.pairwise_cons.mp ordered
      cases holds : p head with
      | true => simp [holds, ih ordered]
      | false =>
          have none : ∀ x ∈ rest, p x = false := by
            intro x member
            cases later : p x with
            | false => rfl
            | true => simp [closed head x (first x member) later] at holds
          simp [holds, List.filter_eq_nil_iff.mpr (by simpa using none)]

/-- Along a list ordered by `R`, a test that holds of an element holds of every later one: when
it holds of some element, it holds of the last. -/
theorem getLast?_filter_of_pairwise {R : ι → ι → Prop} {p : ι → Bool} {l : List ι}
    (ordered : l.Pairwise R) (closed : ∀ a b, R a b → p a = true → p b = true)
    (kept : l.filter p ≠ []) :
    (l.filter p).getLast? = l.getLast? := by
  induction l with
  | nil => simp at kept
  | cons head rest ih =>
      obtain ⟨first, ordered⟩ := List.pairwise_cons.mp ordered
      cases holds : p head with
      | true =>
          have all : rest.filter p = rest :=
            List.filter_eq_self.mpr fun x member => closed head x (first x member) holds
          rw [List.filter_cons_of_pos holds, all]
      | false =>
          rw [List.filter_cons_of_neg (by simp [holds])] at kept ⊢
          have nonempty : rest ≠ [] := fun empty => kept (by simp [empty])
          rw [ih ordered kept, List.getLast?_cons, List.getLast?_eq_some_getLast nonempty,
            Option.getD_some]

section Sorted

variable [LinearOrder ι]

/-- Inserting into a set kept as the ascending list of its items: an item already there
leaves the list as it is. -/
def insertSorted (item : ι) : List ι → List ι
  | [] => [item]
  | head :: tail =>
      if item < head then item :: head :: tail
      else if head < item then head :: insertSorted item tail
      else head :: tail

theorem insertSorted_of_lt {item : ι} {l : List ι} (above : ∀ other ∈ l, other < item) :
    insertSorted item l = l ++ [item] := by
  induction l with
  | nil => rfl
  | cons head tail ih =>
      have below : head < item := above head List.mem_cons_self
      have rest := ih fun other member => above other (List.mem_cons_of_mem head member)
      simp [insertSorted, not_lt_of_gt below, below, rest]

theorem mem_insertSorted {item other : ι} {l : List ι} :
    other ∈ insertSorted item l ↔ other = item ∨ other ∈ l := by
  induction l with
  | nil => simp [insertSorted]
  | cons head tail ih =>
      simp only [insertSorted]
      split_ifs with below above
      · simp
      · simp only [List.mem_cons, ih]
        tauto
      · have same : item = head := le_antisymm (not_lt.mp above) (not_lt.mp below)
        simp [same]

theorem pairwise_insertSorted {item : ι} {l : List ι} (sorted : l.Pairwise (· < ·)) :
    (insertSorted item l).Pairwise (· < ·) := by
  induction l with
  | nil => simp [insertSorted]
  | cons head tail ih =>
      obtain ⟨first, rest⟩ := List.pairwise_cons.mp sorted
      simp only [insertSorted]
      split_ifs with below above
      · refine List.Pairwise.cons (fun other member => ?_) sorted
        rcases List.mem_cons.mp member with rfl | later
        · exact below
        · exact below.trans (first other later)
      · refine List.Pairwise.cons (fun other member => ?_) (ih rest)
        rcases mem_insertSorted.mp member with rfl | later
        · exact above
        · exact first other later
      · exact sorted

/-- Collecting an ascending list into a set, one insertion at a time, gives the list back. -/
theorem foldl_insertSorted {l : List ι} (sorted : l.Pairwise (· < ·)) :
    l.foldl (fun set item => insertSorted item set) [] = l := by
  -- the items collected so far are a prefix of the ascending list
  suffices collect : ∀ collected : List ι, (collected ++ l).Pairwise (· < ·) →
      l.foldl (fun set item => insertSorted item set) collected = collected ++ l from
    collect [] sorted
  clear sorted
  induction l with
  | nil => simp
  | cons item rest ih =>
      intro collected ordered
      have above : ∀ other ∈ collected, other < item := fun other member =>
        (List.pairwise_append.mp ordered).2.2 other member item List.mem_cons_self
      simp only [List.foldl_cons, insertSorted_of_lt above]
      simpa using ih (collected ++ [item]) (by simpa using ordered)

end Sorted

end Validator.Data
