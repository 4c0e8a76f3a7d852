import Mathlib.Algebra.GroupWithZero.Nat
import Mathlib.Data.List.Basic

namespace Validator.Data.SortedMap

/-! # Maps as sorted association lists

The entries of an ordered map (a `BTreeMap`), kept as a list sorted by key with each key once.
Iterating the map is walking the list; iterating it backwards is walking the reversed list.
-/

variable {κ ν : Type} [Ord κ]

def find? (key : κ) : List (κ × ν) → Option ν
  | [] => none
  | (other, value) :: rest => if compare key other = .eq then some value else find? key rest

def contains (key : κ) (entries : List (κ × ν)) : Bool :=
  (find? key entries).isSome

/-- `insert`: the key's entry takes the new value, in its place in the order. -/
def insert (key : κ) (value : ν) : List (κ × ν) → List (κ × ν)
  | [] => [(key, value)]
  | (other, old) :: rest =>
      match compare key other with
      | .lt => (key, value) :: (other, old) :: rest
      | .eq => (key, value) :: rest
      | .gt => (other, old) :: insert key value rest

/-- `entry(key).and_modify(modify).or_insert(value)`. -/
def upsert (key : κ) (modify : ν → ν) (value : ν) (entries : List (κ × ν)) : List (κ × ν) :=
  match find? key entries with
  | some old => insert key (modify old) entries
  | none => insert key value entries

end Validator.Data.SortedMap

namespace Validator.Data.SortedMap

/-! ## Lemmas

With a lawful comparison (equal keys compare `.eq`, and `.lt` is a strict order), the keys of a
map built by `insert` stay strictly increasing, and `insert` replaces the entry of its key, or adds
one.  A sorted list holds each key once. -/

variable {κ ν : Type} [Ord κ]

/-- The invariant of the map: keys strictly increasing. -/
def Sorted (entries : List (κ × ν)) : Prop :=
  entries.Pairwise fun first second => compare first.1 second.1 = .lt

@[simp]
theorem find?_nil (key : κ) : find? key ([] : List (κ × ν)) = none := rfl

/-- What `insert` can leave in the map: the new entry, or one that was there. -/
theorem mem_of_mem_insert {key : κ} {value : ν} {entries : List (κ × ν)} {entry : κ × ν}
    (member : entry ∈ insert key value entries) : entry = (key, value) ∨ entry ∈ entries := by
  induction entries with
  | nil => simpa [insert] using member
  | cons head rest ih =>
      obtain ⟨other, old⟩ := head
      simp only [insert] at member
      split at member
      · simpa using member
      · simp only [List.mem_cons] at member ⊢
        tauto
      · simp only [List.mem_cons] at member ⊢
        rcases member with here | later
        · exact .inr (.inl here)
        · rcases ih later with new | kept
          · exact .inl new
          · exact .inr (.inr kept)

theorem mem_insert_self (key : κ) (value : ν) (entries : List (κ × ν)) :
    (key, value) ∈ insert key value entries := by
  induction entries with
  | nil => simp [insert]
  | cons head rest ih =>
      obtain ⟨other, old⟩ := head
      simp only [insert]
      split
      · exact List.mem_cons_self
      · exact List.mem_cons_self
      · exact List.mem_cons_of_mem _ ih

section LawfulEq

variable [DecidableEq κ] [Std.LawfulEqOrd κ]

omit [DecidableEq κ] in
theorem compare_self_eq (key : κ) : compare key key = .eq := Std.compare_eq_iff_eq.mpr rfl

theorem find?_cons (key other : κ) (value : ν) (rest : List (κ × ν)) :
    find? key ((other, value) :: rest) = if key = other then some value else find? key rest := by
  simp only [find?, Std.compare_eq_iff_eq]

theorem mem_of_find?_eq_some {key : κ} {value : ν} {entries : List (κ × ν)}
    (found : find? key entries = some value) : (key, value) ∈ entries := by
  induction entries with
  | nil => simp at found
  | cons entry rest ih =>
      obtain ⟨other, old⟩ := entry
      rw [find?_cons] at found
      by_cases same : key = other
      · rw [if_pos same, Option.some_inj] at found
        subst same found
        exact List.mem_cons_self
      · rw [if_neg same] at found
        exact List.mem_cons_of_mem _ (ih found)

theorem find?_eq_none_iff {key : κ} {entries : List (κ × ν)} :
    find? key entries = none ↔ key ∉ entries.map Prod.fst := by
  induction entries with
  | nil => simp
  | cons entry rest ih =>
      obtain ⟨other, old⟩ := entry
      rw [find?_cons]
      by_cases same : key = other
      · simp [same]
      · simp [same, ih]

theorem contains_iff {key : κ} {entries : List (κ × ν)} :
    contains key entries = true ↔ key ∈ entries.map Prod.fst := by
  rw [contains, Option.isSome_iff_ne_none, ne_eq, find?_eq_none_iff, not_not]

omit [DecidableEq κ] in
/-- An entry of another key survives `insert`. -/
theorem mem_insert_of_mem {key : κ} {value : ν} {entries : List (κ × ν)} {entry : κ × ν}
    (member : entry ∈ entries) (other : entry.1 ≠ key) : entry ∈ insert key value entries := by
  induction entries with
  | nil => simp at member
  | cons head rest ih =>
      obtain ⟨headKey, old⟩ := head
      simp only [insert]
      rcases List.mem_cons.mp member with here | later
      · subst here
        split
        · exact List.mem_cons_of_mem _ List.mem_cons_self
        · rename_i same
          exact absurd (Std.compare_eq_iff_eq.mp same).symm other
        · exact List.mem_cons_self
      · split
        · exact List.mem_cons_of_mem _ (List.mem_cons_of_mem _ later)
        · exact List.mem_cons_of_mem _ later
        · exact List.mem_cons_of_mem _ (ih later)

theorem mem_keys_insert {key other : κ} {value : ν} {entries : List (κ × ν)} :
    other ∈ (insert key value entries).map Prod.fst ↔ other = key ∨ other ∈ entries.map Prod.fst := by
  simp only [List.mem_map]
  constructor
  · rintro ⟨entry, member, rfl⟩
    rcases mem_of_mem_insert member with rfl | kept
    · exact .inl rfl
    · exact .inr ⟨entry, kept, rfl⟩
  · rintro (rfl | ⟨entry, member, rfl⟩)
    · exact ⟨(other, value), mem_insert_self _ _ _, rfl⟩
    · by_cases same : entry.1 = key
      · exact ⟨(key, value), mem_insert_self _ _ _, same.symm⟩
      · exact ⟨entry, mem_insert_of_mem member same, rfl⟩

omit [DecidableEq κ] in
theorem Sorted.nodup_keys {entries : List (κ × ν)} (sorted : Sorted entries) :
    (entries.map Prod.fst).Nodup := by
  refine List.Pairwise.map Prod.fst (fun first second ordered same => ?_) sorted
  rw [same, compare_self_eq] at ordered
  cases ordered

/-- In a sorted map, the entry of a key is the one `find?` returns. -/
theorem find?_eq_some_of_mem {key : κ} {value : ν} {entries : List (κ × ν)} (sorted : Sorted entries)
    (member : (key, value) ∈ entries) : find? key entries = some value := by
  induction entries with
  | nil => simp at member
  | cons head rest ih =>
      obtain ⟨other, old⟩ := head
      rw [find?_cons]
      rcases List.mem_cons.mp member with here | later
      · cases here
        exact if_pos rfl
      · have ordered : compare other key = .lt := (List.pairwise_cons.mp sorted).1 _ later
        have differs : key ≠ other := by
          rintro rfl
          rw [compare_self_eq] at ordered
          cases ordered
        rw [if_neg differs]
        exact ih (List.pairwise_cons.mp sorted).2 later

end LawfulEq

section Lawful

variable [DecidableEq κ] [Std.LawfulEqOrd κ] [Std.TransOrd κ]

omit [DecidableEq κ] in
theorem sorted_insert (key : κ) (value : ν) {entries : List (κ × ν)} (sorted : Sorted entries) :
    Sorted (insert key value entries) := by
  induction entries with
  | nil => exact List.pairwise_singleton _ _
  | cons head rest ih =>
      obtain ⟨other, old⟩ := head
      have below : ∀ entry ∈ rest, compare other entry.1 = .lt := (List.pairwise_cons.mp sorted).1
      have restSorted : Sorted rest := (List.pairwise_cons.mp sorted).2
      simp only [insert]
      split
      · rename_i before
        refine List.Pairwise.cons (fun entry member => ?_) sorted
        rcases List.mem_cons.mp member with rfl | later
        · exact before
        · exact Std.TransCmp.lt_trans before (below entry later)
      · rename_i same
        rw [Std.compare_eq_iff_eq.mp same]
        exact List.Pairwise.cons below restSorted
      · rename_i after
        refine List.Pairwise.cons (fun entry member => ?_) (ih restSorted)
        rcases mem_of_mem_insert member with rfl | kept
        · exact Std.OrientedCmp.gt_iff_lt.mp after
        · exact below entry kept

/-- `insert` into a sorted map: the new entry, and every entry of another key. -/
theorem insert_perm (key : κ) (value : ν) {entries : List (κ × ν)} (sorted : Sorted entries) :
    (insert key value entries).Perm ((key, value) :: entries.filter fun entry => entry.1 ≠ key) := by
  induction entries with
  | nil => simp [insert]
  | cons head rest ih =>
      obtain ⟨other, old⟩ := head
      have below : ∀ entry ∈ rest, compare other entry.1 = .lt := (List.pairwise_cons.mp sorted).1
      simp only [insert]
      split
      · rename_i before
        -- the key is below every key of the map, so none is dropped
        have absent : ∀ entry ∈ (other, old) :: rest, entry.1 ≠ key := by
          intro entry member same
          rcases List.mem_cons.mp member with rfl | later
          · change other = key at same
            rw [same, compare_self_eq] at before
            cases before
          · have := Std.TransCmp.lt_trans before (below entry later)
            rw [same, compare_self_eq] at this
            cases this
        rw [List.filter_eq_self.mpr (fun entry member => by simpa using absent entry member)]
      · rename_i same
        have keyEq : key = other := Std.compare_eq_iff_eq.mp same
        subst keyEq
        have absent : ∀ entry ∈ rest, entry.1 ≠ key := by
          intro entry member same
          have := below entry member
          rw [same, compare_self_eq] at this
          cases this
        rw [List.filter_cons_of_neg (by simp),
          List.filter_eq_self.mpr (fun entry member => by simpa using absent entry member)]
      · rename_i after
        have differs : other ≠ key := by
          rintro rfl
          rw [compare_self_eq] at after
          cases after
        rw [List.filter_cons_of_pos (by simpa using differs)]
        exact ((ih (List.pairwise_cons.mp sorted).2).cons _).trans (List.Perm.swap _ _ _)

/-- A sorted map is its entry of a key, and every entry of another key. -/
theorem perm_of_mem {key : κ} {value : ν} {entries : List (κ × ν)} (sorted : Sorted entries)
    (member : (key, value) ∈ entries) :
    entries.Perm ((key, value) :: entries.filter fun entry => entry.1 ≠ key) := by
  have inserted : insert key value entries = entries := by
    induction entries with
    | nil => simp at member
    | cons head rest ih =>
        obtain ⟨other, old⟩ := head
        have below : ∀ entry ∈ rest, compare other entry.1 = .lt := (List.pairwise_cons.mp sorted).1
        rcases List.mem_cons.mp member with here | later
        · cases here
          simp [insert]
        · have after : compare key other = .gt :=
            Std.OrientedCmp.gt_iff_lt.mpr (below _ later)
          simp only [insert, after]
          rw [ih (List.pairwise_cons.mp sorted).2 later]
  have perm := insert_perm key value sorted
  rwa [inserted] at perm

/-- A sum over a sorted map after `insert`: the new entry's weight in place of the old one's. -/
theorem sum_map_insert (weight : κ × ν → Nat) (key : κ) (value : ν) {entries : List (κ × ν)}
    (sorted : Sorted entries) :
    ((insert key value entries).map weight).sum +
        ((find? key entries).map fun old => weight (key, old)).getD 0 =
      (entries.map weight).sum + weight (key, value) := by
  rw [((insert_perm key value sorted).map weight).sum_nat, List.map_cons, List.sum_cons]
  cases found : find? key entries with
  | none =>
      have absent : ∀ entry ∈ entries, entry.1 ≠ key := fun entry member same =>
        find?_eq_none_iff.mp found (List.mem_map.mpr ⟨entry, member, same⟩)
      rw [List.filter_eq_self.mpr (fun entry member => by simpa using absent entry member)]
      simp only [Option.map_none, Option.getD_none]
      omega
  | some old =>
      rw [((perm_of_mem sorted (mem_of_find?_eq_some found)).map weight).sum_nat, List.map_cons,
        List.sum_cons]
      simp only [Option.map_some, Option.getD_some]
      omega

end Lawful

end Validator.Data.SortedMap
