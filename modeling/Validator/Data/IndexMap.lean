import Mathlib.Data.List.Perm.Basic
import Mathlib.Data.List.Nodup

namespace Validator.Data

/-! # Insertion-ordered maps and sets with swap-removal

The `indexmap` crate's `IndexMap` and `IndexSet`: the entries in a list whose positions are the
indices the crate hands out, each key once.  `swap_remove` takes an entry out by moving the last
entry into its place: every other entry keeps its index, and the last one takes the index of the
entry removed.  `getElem?_swapRemoveAt` says that once; the rest of this file and its clients
reason through it.
-/

/-- Removes the element at `index` by moving the last element into its place. -/
def swapRemoveAt {α : Type} (elements : List α) (index : Nat) : List α :=
  match elements.getLast? with
  | none => []
  | some last => (elements.set index last).dropLast

section SwapRemoveAt

variable {α : Type} {elements : List α} {index : Nat}

@[simp]
theorem length_swapRemoveAt : (swapRemoveAt elements index).length = elements.length - 1 := by
  unfold swapRemoveAt
  cases lastEq : elements.getLast? with
  | none => simp [List.getLast?_eq_none_iff.mp lastEq]
  | some last => simp

/-- Position by position: the removed index now holds the old last element, the old last
position is gone, and every other position is unchanged. -/
theorem getElem?_swapRemoveAt (inside : index < elements.length) (position : Nat) :
    (swapRemoveAt elements index)[position]? =
      if position + 1 < elements.length then
        if position = index then elements[elements.length - 1]? else elements[position]?
      else none := by
  have lastEq : elements.getLast? = some elements[elements.length - 1] := by
    rw [List.getLast?_eq_getElem?, List.getElem?_eq_getElem (by omega)]
  unfold swapRemoveAt
  rw [lastEq, List.getElem?_dropLast, List.length_set, List.getElem?_set]
  by_cases kept : position + 1 < elements.length
  · have before : position < elements.length - 1 := by omega
    by_cases moved : position = index
    · subst moved
      simp only [inside, if_true, before, kept]
      rw [List.getElem?_eq_getElem (show elements.length - 1 < elements.length by omega)]
    · simp [before, kept, moved, Ne.symm moved]
  · have after : ¬ position < elements.length - 1 := by omega
    simp [after, kept]

/-- Each element left stands before the removal at its own position, or at the last one when it
fills the removed place. -/
theorem getElem?_swapRemoveAt_eq_some {element : α} (inside : index < elements.length)
    (found : (swapRemoveAt elements index)[position]? = some element) :
    position + 1 < elements.length ∧
      elements[if position = index then elements.length - 1 else position]? = some element := by
  rw [getElem?_swapRemoveAt inside] at found
  split at found
  · rename_i kept
    refine ⟨kept, ?_⟩
    by_cases moved : position = index
    · rwa [if_pos moved] at found ⊢
    · rwa [if_neg moved] at found ⊢
  · cases found

theorem swapRemoveAt_perm (inside : index < elements.length) :
    (swapRemoveAt elements index).Perm (elements.eraseIdx index) := by
  have lastEq : elements.getLast? = some elements[elements.length - 1] := by
    rw [List.getLast?_eq_getElem?, List.getElem?_eq_getElem (by omega)]
  unfold swapRemoveAt
  rw [lastEq]
  dsimp only
  rw [List.eraseIdx_eq_take_drop_succ, List.set_eq_take_append_cons_drop, if_pos inside]
  by_cases isLast : index + 1 = elements.length
  · -- removing the last element is `dropLast`
    have dropped : elements.drop (index + 1) = [] := List.drop_eq_nil_of_le (by omega)
    rw [dropped, List.append_nil, List.dropLast_concat]
  · -- otherwise the last element moves to the front of the suffix
    have suffix : elements.drop (index + 1) =
        (elements.drop (index + 1)).dropLast ++ [elements[elements.length - 1]] := by
      refine (List.dropLast_append_getLast? _ ?_).symm
      rw [List.getLast?_drop, if_neg (by omega), List.getLast?_eq_getElem?,
        List.getElem?_eq_getElem (by omega)]
      rfl
    have nonempty : elements.drop (index + 1) ≠ [] := by
      intro empty
      have := congrArg List.length empty
      simp only [List.length_drop, List.length_nil] at this
      omega
    rw [List.dropLast_append_of_ne_nil (List.cons_ne_nil _ _), List.dropLast_cons_of_ne_nil nonempty]
    conv_rhs => rw [suffix]
    exact List.Perm.append_left _ (List.perm_append_singleton _ _).symm

theorem map_swapRemoveAt {β : Type} (f : α → β) :
    (swapRemoveAt elements index).map f = swapRemoveAt (elements.map f) index := by
  unfold swapRemoveAt
  rw [List.getLast?_map]
  cases elements.getLast? with
  | none => rfl
  | some last => simp [List.map_dropLast, List.map_set]

theorem nodup_swapRemoveAt (distinct : elements.Nodup) (inside : index < elements.length) :
    (swapRemoveAt elements index).Nodup :=
  ((swapRemoveAt_perm inside).nodup_iff).mpr (distinct.sublist (List.eraseIdx_sublist _ _))

/-! ### Positions that satisfy a predicate

An index kept next to a list names positions of the list by what the element there satisfies.
How `EntryAt` changes when the list grows, is overwritten or is swap-removed is all its clients
need. -/

/-- The element at `position` satisfies `holds`. -/
def EntryAt (elements : List α) (position : Nat) (holds : α → Prop) : Prop :=
  ∃ element, elements[position]? = some element ∧ holds element

variable {holds : α → Prop} {position : Nat}

theorem EntryAt.lt_length (at_ : EntryAt elements position holds) : position < elements.length := by
  obtain ⟨element, found, _⟩ := at_
  exact (List.getElem?_eq_some_iff.mp found).1

theorem EntryAt.mono {other : α → Prop} (at_ : EntryAt elements position holds)
    (implies : ∀ element, holds element → other element) : EntryAt elements position other := by
  obtain ⟨element, found, holdsThere⟩ := at_
  exact ⟨element, found, implies element holdsThere⟩

theorem entryAt_iff_of_getElem? {element : α} (found : elements[position]? = some element) :
    EntryAt elements position holds ↔ holds element := by
  constructor
  · rintro ⟨stored, storedAt, holdsThere⟩
    rw [found, Option.some.injEq] at storedAt
    exact storedAt ▸ holdsThere
  · intro holdsThere
    exact ⟨element, found, holdsThere⟩

theorem entryAt_append_singleton {element : α} :
    EntryAt (elements ++ [element]) position holds ↔
      EntryAt elements position holds ∨ (position = elements.length ∧ holds element) := by
  unfold EntryAt
  rw [List.getElem?_append]
  by_cases before : position < elements.length
  · simp [before, Nat.ne_of_lt before]
  · by_cases last : position = elements.length
    · subst last
      simp
    · have beyond : ([element] : List α)[position - elements.length]? = none :=
        List.getElem?_eq_none (by simp only [List.length_singleton]; omega)
      simp [before, last, beyond]

theorem getElem?_append_singleton_eq_some {element other : α} :
    (elements ++ [element])[position]? = some other ↔
      elements[position]? = some other ∨ (position = elements.length ∧ element = other) := by
  have pushed : EntryAt (elements ++ [element]) position (· = other) ↔
      EntryAt elements position (· = other) ∨ (position = elements.length ∧ element = other) :=
    entryAt_append_singleton
  simpa only [EntryAt, exists_eq_right] using pushed

theorem entryAt_set {element : α} (inside : index < elements.length) :
    EntryAt (elements.set index element) position holds ↔
      (position ≠ index ∧ EntryAt elements position holds) ∨ (position = index ∧ holds element) := by
  unfold EntryAt
  rw [List.getElem?_set]
  by_cases same : position = index
  · subst same
    simp [inside]
  · simp [same, Ne.symm same]

/-- Replacing an element by one that satisfies `holds` exactly when it did changes no `EntryAt`. -/
theorem entryAt_set_of_iff {element replaced : α} (found : elements[index]? = some replaced)
    (same : holds element ↔ holds replaced) :
    EntryAt (elements.set index element) position holds ↔ EntryAt elements position holds := by
  rw [entryAt_set (List.getElem?_eq_some_iff.mp found).1]
  by_cases atIndex : position = index
  · subst atIndex
    rw [entryAt_iff_of_getElem? found]
    simp [same]
  · simp [atIndex]

theorem getElem?_set_eq_some {element other : α} (inside : index < elements.length) :
    (elements.set index element)[position]? = some other ↔
      (position ≠ index ∧ elements[position]? = some other) ∨
        (position = index ∧ element = other) := by
  have setAt : EntryAt (elements.set index element) position (· = other) ↔
      (position ≠ index ∧ EntryAt elements position (· = other)) ∨
        (position = index ∧ element = other) :=
    entryAt_set inside
  simpa only [EntryAt, exists_eq_right] using setAt

theorem entryAt_swapRemoveAt (inside : index < elements.length) :
    EntryAt (swapRemoveAt elements index) position holds ↔
      position + 1 < elements.length ∧
        ((position ≠ index ∧ EntryAt elements position holds) ∨
          (position = index ∧ EntryAt elements (elements.length - 1) holds)) := by
  unfold EntryAt
  rw [getElem?_swapRemoveAt inside]
  by_cases kept : position + 1 < elements.length
  · by_cases moved : position = index
    · subst moved
      simp [kept]
    · simp [kept, moved]
  · simp [kept]

theorem getElem?_swapRemoveAt_eq_some_iff {other : α} (inside : index < elements.length) :
    (swapRemoveAt elements index)[position]? = some other ↔
      position + 1 < elements.length ∧
        ((position ≠ index ∧ elements[position]? = some other) ∨
          (position = index ∧ elements[elements.length - 1]? = some other)) := by
  have removed : EntryAt (swapRemoveAt elements index) position (· = other) ↔
      position + 1 < elements.length ∧
        ((position ≠ index ∧ EntryAt elements position (· = other)) ∨
          (position = index ∧ EntryAt elements (elements.length - 1) (· = other))) :=
    entryAt_swapRemoveAt inside
  simpa only [EntryAt, exists_eq_right] using removed

/-- Swap-removing the last element only drops it. -/
theorem entryAt_swapRemoveAt_of_last (last : index + 1 = elements.length) :
    EntryAt (swapRemoveAt elements index) position holds ↔
      position ≠ index ∧ EntryAt elements position holds := by
  rw [entryAt_swapRemoveAt (by omega)]
  constructor
  · rintro ⟨kept, ⟨apart, holdsThere⟩ | ⟨moved, _⟩⟩
    · exact ⟨apart, holdsThere⟩
    · omega
  · rintro ⟨apart, holdsThere⟩
    have inside := holdsThere.lt_length
    exact ⟨by omega, Or.inl ⟨apart, holdsThere⟩⟩

/-- Swap-removing another element moves the last one into its place. -/
theorem entryAt_swapRemoveAt_of_lt (before : index + 1 < elements.length) :
    EntryAt (swapRemoveAt elements index) position holds ↔
      (position = index ∧ EntryAt elements (elements.length - 1) holds) ∨
        (position ≠ index ∧ position ≠ elements.length - 1 ∧ EntryAt elements position holds) := by
  rw [entryAt_swapRemoveAt (by omega)]
  constructor
  · rintro ⟨kept, ⟨apart, holdsThere⟩ | moved⟩
    · exact Or.inr ⟨apart, by omega, holdsThere⟩
    · exact Or.inl moved
  · rintro (⟨rfl, holdsThere⟩ | ⟨apart, notLast, holdsThere⟩)
    · exact ⟨before, Or.inr ⟨rfl, holdsThere⟩⟩
    · have inside := holdsThere.lt_length
      exact ⟨by omega, Or.inl ⟨apart, holdsThere⟩⟩

end SwapRemoveAt

/-- `IndexSet`: the members in insertion order, each once. -/
structure IndexSet (α : Type) where
  elements : List α
  nodup : elements.Nodup

namespace IndexSet

variable {α : Type}

instance : Membership α (IndexSet α) := ⟨fun set member => member ∈ set.elements⟩

def empty : IndexSet α := ⟨[], List.nodup_nil⟩

def isEmpty (set : IndexSet α) : Bool := set.elements.isEmpty

def len (set : IndexSet α) : Nat := set.elements.length

@[simp]
theorem not_mem_empty (member : α) : member ∉ (empty : IndexSet α) := List.not_mem_nil

theorem isEmpty_iff {set : IndexSet α} : set.isEmpty = true ↔ ∀ member, member ∉ set := by
  unfold isEmpty
  rw [List.isEmpty_iff, List.eq_nil_iff_forall_not_mem]
  rfl

variable [DecidableEq α]

instance (member : α) (set : IndexSet α) : Decidable (member ∈ set) :=
  inferInstanceAs (Decidable (member ∈ set.elements))

/-- `insert`: a new member goes last; a present one stays where it is. -/
def insert (set : IndexSet α) (member : α) : IndexSet α :=
  if present : member ∈ set.elements then set
  else ⟨set.elements ++ [member], set.nodup.append (List.nodup_singleton member)
    (List.disjoint_singleton.mpr present)⟩

/-- `swap_remove`: the last member moves into the place of the one removed. -/
def swapRemove (set : IndexSet α) (member : α) : IndexSet α :=
  if present : member ∈ set.elements then
    ⟨swapRemoveAt set.elements (set.elements.idxOf member),
      nodup_swapRemoveAt set.nodup (List.idxOf_lt_length_of_mem present)⟩
  else set

@[simp]
theorem mem_insert {set : IndexSet α} {member other : α} :
    other ∈ set.insert member ↔ other = member ∨ other ∈ set := by
  unfold insert
  split
  · rename_i present
    constructor
    · exact Or.inr
    · rintro (rfl | kept)
      · exact present
      · exact kept
  · change other ∈ set.elements ++ [member] ↔ _
    rw [List.mem_append, List.mem_singleton, or_comm]
    rfl

@[simp]
theorem mem_swapRemove {set : IndexSet α} {member other : α} :
    other ∈ set.swapRemove member ↔ other ≠ member ∧ other ∈ set := by
  unfold swapRemove
  split
  · rename_i present
    change other ∈ swapRemoveAt set.elements _ ↔ other ≠ member ∧ other ∈ set.elements
    rw [(swapRemoveAt_perm (List.idxOf_lt_length_of_mem present)).mem_iff,
      List.eraseIdx_idxOf_eq_erase, set.nodup.mem_erase_iff]
  · rename_i absent
    constructor
    · intro kept
      exact ⟨fun same => absent (same ▸ kept), kept⟩
    · exact And.right

end IndexSet

/-- `IndexMap`: the entries in insertion order, each key once.  An entry's position is its
index. -/
structure IndexMap (κ ν : Type) where
  entries : List (κ × ν)
  nodup : (entries.map Prod.fst).Nodup

namespace IndexMap

variable {κ ν : Type} [DecidableEq κ]

def empty : IndexMap κ ν := ⟨[], List.nodup_nil⟩

def keys (map : IndexMap κ ν) : List κ := map.entries.map Prod.fst

def len (map : IndexMap κ ν) : Nat := map.entries.length

/-- `get_index_of`. -/
def getIndexOf (map : IndexMap κ ν) (key : κ) : Option Nat :=
  if key ∈ map.keys then some (map.keys.idxOf key) else none

/-- `get_full` without the key: the key's index and value. -/
def getFull (map : IndexMap κ ν) (key : κ) : Option (Nat × ν) :=
  (map.getIndexOf key).bind fun index => (map.entries[index]?).map fun entry => (index, entry.2)

def get (map : IndexMap κ ν) (key : κ) : Option ν := (map.getFull key).map Prod.snd

/-- `get_index`. -/
def getIndex (map : IndexMap κ ν) (index : Nat) : Option (κ × ν) := map.entries[index]?

/-- `Index<usize>`, which panics when the index is out of bounds. -/
def index (map : IndexMap κ ν) (index : Nat) : Option ν := (map.entries[index]?).map Prod.snd

theorem keys_set_idxOf {map : IndexMap κ ν} {key : κ} (present : key ∈ map.keys) (value : ν) :
    (map.entries.set (map.keys.idxOf key) (key, value)).map Prod.fst = map.keys := by
  have inside := List.idxOf_lt_length_of_mem present
  rw [List.map_set]
  change map.keys.set (map.keys.idxOf key) key = map.keys
  calc map.keys.set (map.keys.idxOf key) key
      = map.keys.set (map.keys.idxOf key) map.keys[map.keys.idxOf key] :=
        congrArg (map.keys.set (map.keys.idxOf key)) (List.getElem_idxOf inside).symm
    _ = map.keys := List.set_getElem_self inside

/-- `insert`: a present key's value is replaced in its place; a new key goes last. -/
def insert (map : IndexMap κ ν) (key : κ) (value : ν) : IndexMap κ ν :=
  if present : key ∈ map.keys then
    ⟨map.entries.set (map.keys.idxOf key) (key, value), by
      rw [keys_set_idxOf present]
      exact map.nodup⟩
  else
    ⟨map.entries ++ [(key, value)], by
      rw [List.map_append]
      exact map.nodup.append (List.nodup_singleton key) (List.disjoint_singleton.mpr present)⟩

/-- `swap_remove_full`: the index, key and value of the entry removed, and the map with the
last entry moved into its place. -/
def swapRemoveFull (map : IndexMap κ ν) (key : κ) : Option (Nat × κ × ν) × IndexMap κ ν :=
  if present : key ∈ map.keys then
    have inside : map.keys.idxOf key < map.entries.length := by
      simpa [keys] using List.idxOf_lt_length_of_mem present
    (((map.entries[map.keys.idxOf key]?).map fun entry => (map.keys.idxOf key, entry)),
      ⟨swapRemoveAt map.entries (map.keys.idxOf key), by
        rw [map_swapRemoveAt]
        exact nodup_swapRemoveAt map.nodup (by simpa using inside)⟩)
  else (none, map)

section Lemmas

variable {map : IndexMap κ ν} {key : κ} {value : ν}

theorem idxOf_lt_len (present : key ∈ map.keys) : map.keys.idxOf key < map.len := by
  simpa [keys, len] using List.idxOf_lt_length_of_mem present

/-- Keys are distinct, so an entry's position is where its key is first found. -/
theorem idxOf_eq_of_getElem? {index : Nat} (found : map.entries[index]? = some (key, value)) :
    map.keys.idxOf key = index := by
  obtain ⟨inside, entryEq⟩ := List.getElem?_eq_some_iff.mp found
  have inKeys : index < map.keys.length := by simpa [keys] using inside
  have keyAt : map.keys[index] = key := by
    simp [keys, entryEq]
  rw [← keyAt]
  exact map.nodup.idxOf_getElem index _

omit [DecidableEq κ] in
theorem mem_keys_of_getElem? {index : Nat} (found : map.entries[index]? = some (key, value)) :
    key ∈ map.keys :=
  List.mem_map.mpr ⟨(key, value), List.mem_of_getElem? found, rfl⟩

theorem getElem?_idxOf (present : key ∈ map.keys) :
    ∃ value, map.entries[map.keys.idxOf key]? = some (key, value) := by
  have keyAt : map.keys[map.keys.idxOf key]? = some key :=
    List.getElem?_eq_some_iff.mpr ⟨List.idxOf_lt_length_of_mem present, List.getElem_idxOf _⟩
  simp only [keys, List.getElem?_map, Option.map_eq_some_iff] at keyAt ⊢
  obtain ⟨⟨stored, value⟩, found, rfl⟩ := keyAt
  exact ⟨value, found⟩

/-- `get_full` finds the key's entry exactly where it is. -/
theorem getFull_eq_some_iff {index : Nat} :
    map.getFull key = some (index, value) ↔ map.entries[index]? = some (key, value) := by
  constructor
  · intro found
    unfold getFull getIndexOf at found
    split at found
    · rename_i present
      obtain ⟨stored, storedAt⟩ := getElem?_idxOf present
      simp only [Option.bind_some, storedAt, Option.map_some, Option.some.injEq,
        Prod.mk.injEq] at found
      obtain ⟨rfl, rfl⟩ := found
      exact storedAt
    · simp at found
  · intro found
    unfold getFull getIndexOf
    rw [if_pos (mem_keys_of_getElem? found), idxOf_eq_of_getElem? found]
    simp [found]

theorem getFull_eq_none_iff : map.getFull key = none ↔ key ∉ map.keys := by
  constructor
  · intro missing present
    obtain ⟨stored, storedAt⟩ := getElem?_idxOf present
    have := getFull_eq_some_iff.mpr storedAt
    rw [missing] at this
    cases this
  · intro absent
    unfold getFull getIndexOf
    rw [if_neg absent]
    rfl

theorem entries_insert_of_mem (present : key ∈ map.keys) :
    (map.insert key value).entries = map.entries.set (map.keys.idxOf key) (key, value) := by
  unfold insert
  rw [dif_pos present]

theorem entries_insert_of_not_mem (absent : key ∉ map.keys) :
    (map.insert key value).entries = map.entries ++ [(key, value)] := by
  unfold insert
  rw [dif_neg absent]

theorem swapRemoveFull_of_getElem? {index : Nat} (found : map.entries[index]? = some (key, value)) :
    (map.swapRemoveFull key).1 = some (index, key, value) ∧
      (map.swapRemoveFull key).2.entries = swapRemoveAt map.entries index := by
  have position := idxOf_eq_of_getElem? found
  unfold swapRemoveFull
  rw [dif_pos (mem_keys_of_getElem? found)]
  refine ⟨?_, ?_⟩
  · show (map.entries[map.keys.idxOf key]?).map (fun entry => (map.keys.idxOf key, entry)) = _
    rw [position, found]
    rfl
  · show swapRemoveAt map.entries (map.keys.idxOf key) = _
    rw [position]

theorem swapRemoveFull_of_not_mem (absent : key ∉ map.keys) : map.swapRemoveFull key = (none, map) := by
  unfold swapRemoveFull
  rw [dif_neg absent]

/-- Two entries with one key are one entry. -/
theorem eq_of_getElem?_key {first second : Nat} {other : ν}
    (found : map.entries[first]? = some (key, value)) (again : map.entries[second]? = some (key, other)) :
    first = second :=
  (idxOf_eq_of_getElem? found).symm.trans (idxOf_eq_of_getElem? again)

theorem get_eq_some_iff : map.get key = some value ↔ ∃ index : Nat, map.entries[index]? = some (key, value) := by
  unfold get
  rw [Option.map_eq_some_iff]
  constructor
  · rintro ⟨⟨index, stored⟩, found, rfl⟩
    exact ⟨index, getFull_eq_some_iff.mp found⟩
  · rintro ⟨index, found⟩
    exact ⟨(index, value), getFull_eq_some_iff.mpr found, rfl⟩

theorem get_insert (other : κ) :
    (map.insert key value).get other = if other = key then some value else map.get other := by
  apply Option.ext
  intro stored
  rw [get_eq_some_iff]
  by_cases present : key ∈ map.keys
  · obtain ⟨old, oldAt⟩ := getElem?_idxOf present
    have inside : map.keys.idxOf key < map.entries.length := idxOf_lt_len present
    rw [entries_insert_of_mem present]
    simp only [getElem?_set_eq_some inside]
    by_cases same : other = key
    · subst same
      rw [if_pos rfl, Option.some.injEq]
      constructor
      · rintro ⟨position, ⟨moved, found⟩ | ⟨_, entryEq⟩⟩
        · exact absurd ((idxOf_eq_of_getElem? found).symm.trans (idxOf_eq_of_getElem? oldAt)) moved
        · exact (Prod.mk.inj entryEq).2
      · rintro rfl
        exact ⟨_, Or.inr ⟨rfl, rfl⟩⟩
    · rw [if_neg same, get_eq_some_iff]
      constructor
      · rintro ⟨position, ⟨_, found⟩ | ⟨_, entryEq⟩⟩
        · exact ⟨position, found⟩
        · exact absurd (Prod.mk.inj entryEq).1.symm same
      · rintro ⟨position, found⟩
        refine ⟨position, Or.inl ⟨fun moved => same ?_, found⟩⟩
        rw [moved, oldAt, Option.some.injEq] at found
        exact (Prod.mk.inj found).1.symm
  · rw [entries_insert_of_not_mem present]
    simp only [getElem?_append_singleton_eq_some]
    by_cases same : other = key
    · subst same
      rw [if_pos rfl, Option.some.injEq]
      constructor
      · rintro ⟨position, found | ⟨_, entryEq⟩⟩
        · exact absurd (mem_keys_of_getElem? found) present
        · exact (Prod.mk.inj entryEq).2
      · rintro rfl
        exact ⟨_, Or.inr ⟨rfl, rfl⟩⟩
    · rw [if_neg same, get_eq_some_iff]
      constructor
      · rintro ⟨position, found | ⟨_, entryEq⟩⟩
        · exact ⟨position, found⟩
        · exact absurd (Prod.mk.inj entryEq).1.symm same
      · rintro ⟨position, found⟩
        exact ⟨position, Or.inl found⟩

theorem get_swapRemoveFull (other : κ) :
    (map.swapRemoveFull key).2.get other = if other = key then none else map.get other := by
  by_cases present : key ∈ map.keys
  · obtain ⟨old, oldAt⟩ := getElem?_idxOf present
    have inside : map.keys.idxOf key < map.entries.length := idxOf_lt_len present
    apply Option.ext
    intro stored
    rw [get_eq_some_iff, (swapRemoveFull_of_getElem? oldAt).2]
    simp only [getElem?_swapRemoveAt_eq_some_iff inside]
    by_cases same : other = key
    · subst same
      rw [if_pos rfl]
      simp only [reduceCtorEq, iff_false, not_exists, not_and]
      rintro position _ (⟨moved, found⟩ | ⟨_, found⟩)
      · exact moved (eq_of_getElem?_key found oldAt)
      · have lastIs := eq_of_getElem?_key found oldAt
        omega
    · rw [if_neg same, get_eq_some_iff]
      constructor
      · rintro ⟨position, _, ⟨_, found⟩ | ⟨_, found⟩⟩
        · exact ⟨position, found⟩
        · exact ⟨_, found⟩
      · rintro ⟨position, found⟩
        have notRemoved : position ≠ map.keys.idxOf key := by
          rintro rfl
          rw [oldAt, Option.some.injEq] at found
          exact same (Prod.mk.inj found).1.symm
        by_cases last : position + 1 < map.entries.length
        · exact ⟨position, last, Or.inl ⟨notRemoved, found⟩⟩
        · -- the last entry moved into the removed one's place
          have atLast : position = map.entries.length - 1 := by
            have := (List.getElem?_eq_some_iff.mp found).1
            omega
          refine ⟨map.keys.idxOf key, by omega, Or.inr ⟨rfl, ?_⟩⟩
          rw [← atLast]
          exact found
  · rw [swapRemoveFull_of_not_mem present]
    by_cases same : other = key
    · subst same
      rw [if_pos rfl]
      cases stored : map.get other with
      | none => rfl
      | some value =>
          obtain ⟨position, found⟩ := get_eq_some_iff.mp stored
          exact absurd (mem_keys_of_getElem? found) present
    · rw [if_neg same]

end Lemmas

end IndexMap

end Validator.Data
