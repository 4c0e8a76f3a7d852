import Mathlib.Algebra.GroupWithZero.Nat
import Mathlib.Data.List.Basic

namespace Validator.Data.Assoc

/-! # Hash maps as association lists

A `HashMap` whose order nobody reads, as a list of entries with each key once.  `set` is
`HashMap::insert`: the entry of its key takes the new value, or a new entry goes at the end.  A
sum over the entries splits into the entry of one key and all the others, which is how a
total changes when one entry does.
-/

variable {α β : Type} [DecidableEq α]

/-- `HashMap::insert` on an association list. -/
def set (entries : List (α × β)) (key : α) (value : β) : List (α × β) :=
  if entries.any fun entry => entry.1 = key then
    entries.map fun entry => if entry.1 = key then (key, value) else entry
  else entries ++ [(key, value)]

theorem lookup_cons (key other : α) (value : β) (rest : List (α × β)) :
    ((other, value) :: rest).lookup key = if key = other then some value else rest.lookup key := by
  by_cases same : key = other
  · simp [same]
  · have differs : (key == other) = false := beq_eq_false_iff_ne.mpr same
    simp [List.lookup_cons, differs, same]

theorem lookup_eq_none {key : α} {entries : List (α × β)} :
    entries.lookup key = none ↔ key ∉ entries.map Prod.fst := by
  induction entries with
  | nil => simp
  | cons entry rest ih =>
      obtain ⟨other, value⟩ := entry
      rw [lookup_cons]
      by_cases same : key = other
      · simp [same]
      · simp [same, ih]

theorem mem_of_lookup_eq_some {key : α} {value : β} {entries : List (α × β)}
    (found : entries.lookup key = some value) : (key, value) ∈ entries := by
  induction entries with
  | nil => simp at found
  | cons entry rest ih =>
      obtain ⟨other, old⟩ := entry
      rw [lookup_cons] at found
      by_cases same : key = other
      · rw [if_pos same, Option.some_inj] at found
        subst same found
        exact List.mem_cons_self
      · rw [if_neg same] at found
        exact List.mem_cons_of_mem _ (ih found)

/-- With each key once, the sum of a weight over the entries is the weight of the entry of
`key`, if any, plus the sum over the other entries. -/
theorem sum_map_split (weight : α × β → Nat) (key : α) {entries : List (α × β)}
    (distinct : (entries.map Prod.fst).Nodup) :
    (entries.map weight).sum =
      ((entries.filter fun entry => entry.1 ≠ key).map weight).sum +
        ((entries.lookup key).map fun value => weight (key, value)).getD 0 := by
  induction entries with
  | nil => simp
  | cons entry rest ih =>
      obtain ⟨other, value⟩ := entry
      have restDistinct : (rest.map Prod.fst).Nodup := (List.nodup_cons.mp distinct).2
      rw [lookup_cons, List.map_cons, List.sum_cons, ih restDistinct]
      by_cases same : key = other
      · subst same
        have absent : rest.lookup key = none :=
          lookup_eq_none.mpr (List.nodup_cons.mp distinct).1
        simp [absent]
        omega
      · simp [same, Ne.symm same]
        omega

theorem mem_set {entries : List (α × β)} {key : α} {value : β} {entry : α × β}
    (member : entry ∈ set entries key value) : entry = (key, value) ∨ entry ∈ entries := by
  unfold set at member
  split at member
  · obtain ⟨original, kept, rfl⟩ := List.mem_map.mp member
    by_cases same : original.1 = key
    · exact .inl (by simp [same])
    · exact .inr (by simpa [same] using kept)
  · rcases List.mem_append.mp member with kept | added
    · exact .inr kept
    · exact .inl (List.mem_singleton.mp added)

theorem keys_set (entries : List (α × β)) (key : α) (value : β) :
    (set entries key value).map Prod.fst =
      if key ∈ entries.map Prod.fst then entries.map Prod.fst else entries.map Prod.fst ++ [key] := by
  unfold set
  by_cases present : key ∈ entries.map Prod.fst
  · have contains : (entries.any fun entry => entry.1 = key) = true := by
      obtain ⟨entry, member, rfl⟩ := List.mem_map.mp present
      exact List.any_eq_true.mpr ⟨entry, member, by simp⟩
    rw [if_pos contains, if_pos present, List.map_map]
    congr 1
    funext entry
    by_cases same : entry.1 = key <;> simp [same]
  · have contains : (entries.any fun entry => entry.1 = key) = false := by
      rw [List.any_eq_false]
      intro entry member same
      exact present (List.mem_map.mpr ⟨entry, member, by simpa using same⟩)
    rw [if_neg (by simp [contains]), if_neg present, List.map_append]
    rfl

theorem nodup_keys_set {entries : List (α × β)} (distinct : (entries.map Prod.fst).Nodup)
    (key : α) (value : β) : ((set entries key value).map Prod.fst).Nodup := by
  rw [keys_set]
  split
  · exact distinct
  · rename_i absent
    refine List.nodup_append.mpr ⟨distinct, by simp, ?_⟩
    simp only [List.mem_singleton]
    rintro other member _ rfl rfl
    exact absent member

@[simp]
theorem lookup_set (entries : List (α × β)) (key : α) (value : β) (other : α) :
    (set entries key value).lookup other = if other = key then some value else entries.lookup other := by
  unfold set
  split
  · rename_i present
    induction entries with
    | nil => simp at present
    | cons entry rest ih =>
        obtain ⟨first, old⟩ := entry
        by_cases here : first = key
        · subst here
          by_cases same : other = first
          · simp [same]
          · simp only [List.map_cons, if_pos, lookup_cons, if_neg same]
            -- past the entry of `key`, the rest is looked up as it was
            have unchanged : ∀ rest : List (α × β),
                (rest.map fun entry => if entry.1 = first then (first, value) else entry).lookup other =
                  rest.lookup other := by
              intro rest
              induction rest with
              | nil => rfl
              | cons entry rest' ih' =>
                  obtain ⟨next, old'⟩ := entry
                  by_cases again : next = first
                  · subst again
                    simp [lookup_cons, same, ih']
                  · simp [lookup_cons, again, ih']
            exact unchanged rest
        · have restPresent : (rest.any fun entry => entry.1 = key) = true := by
            simpa [here] using present
          simp only [List.map_cons, if_neg here, lookup_cons]
          rw [ih restPresent]
          by_cases same : other = key
          · simp [same, Ne.symm here]
          · simp [same]
  · rename_i absent
    rw [List.lookup_append]
    by_cases same : other = key
    · subst same
      have none : entries.lookup other = none := by
        refine lookup_eq_none.mpr fun member => absent ?_
        obtain ⟨entry, kept, rfl⟩ := List.mem_map.mp member
        exact List.any_eq_true.mpr ⟨entry, kept, by simp⟩
      simp [none]
    · rw [lookup_cons, if_neg same, if_neg same]
      cases entries.lookup other with
      | none => rfl
      | some found => rfl

/-- `set` only touches the entry of its key, which a filter dropping that key never sees. -/
theorem filter_set {entries : List (α × β)} {key : α} (value : β) (keep : α → Bool)
    (dropped : keep key = false) :
    (set entries key value).filter (fun entry => keep entry.1) = entries.filter fun entry => keep entry.1 := by
  unfold set
  split
  · rw [List.filter_map]
    have sameKeep : ((fun entry : α × β => keep entry.1) ∘
        fun entry => if entry.1 = key then (key, value) else entry) = fun entry => keep entry.1 := by
      funext entry
      by_cases same : entry.1 = key <;> simp [same, dropped]
    rw [sameKeep]
    -- what the filter keeps is not of `key`, so `set` left it as it was
    refine (List.map_congr_left fun entry member => ?_).trans (List.map_id _)
    have other : entry.1 ≠ key := by
      rintro same
      simp [List.mem_filter, same, dropped] at member
    simp [other]
  · rw [List.filter_append]
    simp [dropped]

theorem lookup_filter {entries : List (α × β)} {key : α} (keep : α → Bool) (kept : keep key = true) :
    (entries.filter fun entry => keep entry.1).lookup key = entries.lookup key := by
  induction entries with
  | nil => rfl
  | cons entry rest ih =>
      obtain ⟨other, value⟩ := entry
      by_cases same : key = other
      · subst same
        simp [kept]
      · by_cases keepOther : keep other = true
        · simp [keepOther, lookup_cons, same, ih]
        · simp [keepOther, lookup_cons, same, ih]

end Validator.Data.Assoc
