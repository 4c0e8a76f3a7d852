import Mathlib.Data.Nat.Bitwise
import Mathlib.Data.Nat.Log

namespace Validator.Data.HashTree

/-! # Binary hash trees over a list of leaves

Each level pairs neighbours under `join`, an odd level pairing its last node with itself, until
one node is left.  `path` lists the sibling of a position at each level, and folding it from
the leaf, joining on the side the position's parity gives, climbs back to the root.
-/

variable {α : Type} (join : α → α → α)

/-- One level up. -/
def pairUp : List α → List α
  | first :: second :: rest => join first second :: pairUp rest
  | [last] => [join last last]
  | [] => []

theorem length_pairUp : ∀ level : List α, (pairUp join level).length = (level.length + 1) / 2
  | first :: second :: rest => by
      simp only [pairUp, List.length_cons, length_pairUp rest]
      omega
  | [_] => by simp [pairUp]
  | [] => by simp [pairUp]

variable {join}

/-- Parent `parent` joins positions `2 * parent` and `2 * parent + 1`, or its only child twice
at the end of an odd level. -/
theorem getElem?_pairUp : ∀ {level : List α} {parent : Nat} {first second : α},
    level[2 * parent]? = some first →
    level[min (2 * parent + 1) (level.length - 1)]? = some second →
    (pairUp join level)[parent]? = some (join first second)
  | first' :: second' :: rest, 0, first, second, firstAt, secondAt => by
      simp only [Nat.mul_zero, List.getElem?_cons_zero, Option.some.injEq] at firstAt
      have secondEq : min (2 * 0 + 1) ((first' :: second' :: rest).length - 1) = 1 := by
        simp only [List.length_cons]
        omega
      rw [secondEq] at secondAt
      simp only [List.getElem?_cons_succ, List.getElem?_cons_zero, Option.some.injEq] at secondAt
      rw [← firstAt, ← secondAt]
      rfl
  | first' :: second' :: rest, parent + 1, first, second, firstAt, secondAt => by
      have firstRest : rest[2 * parent]? = some first := by
        rw [show 2 * (parent + 1) = 2 * parent + 1 + 1 by omega] at firstAt
        simpa only [List.getElem?_cons_succ] using firstAt
      have secondRest : rest[min (2 * parent + 1) (rest.length - 1)]? = some second := by
        have shifted : min (2 * (parent + 1) + 1) ((first' :: second' :: rest).length - 1) =
            min (2 * parent + 1) (rest.length - 1) + 1 + 1 := by
          simp only [List.length_cons]
          have inside := (List.getElem?_eq_some_iff.mp firstRest).1
          omega
        rw [shifted] at secondAt
        simpa only [List.getElem?_cons_succ] using secondAt
      show (join first' second' :: pairUp join rest)[parent + 1]? = _
      rw [List.getElem?_cons_succ]
      exact getElem?_pairUp firstRest secondRest
  | [last], 0, first, second, firstAt, secondAt => by
      simp only [Nat.mul_zero, List.getElem?_cons_zero, Option.some.injEq] at firstAt
      simp only [List.length_singleton, Nat.sub_self, Nat.min_zero, List.getElem?_cons_zero,
        Option.some.injEq] at secondAt
      rw [← firstAt, ← secondAt]
      rfl
  | [_], parent + 1, first, _, firstAt, _ => by simp at firstAt
  | [], _, _, _, firstAt, _ => by simp at firstAt

variable (join)

/-- The levels from `level` up to the root. -/
def levels (level : List α) : List (List α) :=
  if 1 < level.length then level :: levels (pairUp join level) else [level]
termination_by level.length
decreasing_by
  rw [length_pairUp]
  omega

/-- The sibling of `index` at each level, leaves first. -/
def path (level : List α) (index : Nat) : List α :=
  if 1 < level.length then
    match level[min (index ^^^ 1) (level.length - 1)]? with
    | some sibling => sibling :: path (pairUp join level) (index / 2)
    | none => []
  else []
termination_by level.length
decreasing_by
  rw [length_pairUp]
  omega

/-- One step of the climb: the parent of `node` and its sibling, on the side `index` gives. -/
def climbStep (state : Nat × α) (sibling : α) : Nat × α :=
  (state.1 / 2, if state.1 % 2 = 0 then join state.2 sibling else join sibling state.2)

variable {join}

theorem levels_of_one_lt {level : List α} (branching : 1 < level.length) :
    levels join level = level :: levels join (pairUp join level) := by
  rw [levels, if_pos branching]

theorem levels_of_le_one {level : List α} (single : level.length ≤ 1) : levels join level = [level] := by
  rw [levels, if_neg (by omega)]

/-- The nodes of the levels, leaves first, start with the leaves. -/
theorem flatten_levels_eq_append (level : List α) :
    ∃ above, (levels join level).flatten = level ++ above := by
  by_cases branching : 1 < level.length
  · exact ⟨_, by rw [levels_of_one_lt branching, List.flatten_cons]⟩
  · exact ⟨[], by rw [levels_of_le_one (by omega)]; simp⟩

/-- The sibling position stays inside a level of at least one node. -/
theorem sibling_lt_length {level : List α} {index : Nat} (nonempty : 0 < level.length) :
    min (index ^^^ 1) (level.length - 1) < level.length := by
  omega

theorem path_of_one_lt {level : List α} {index : Nat} {sibling : α} (branching : 1 < level.length)
    (siblingAt : level[min (index ^^^ 1) (level.length - 1)]? = some sibling) :
    path join level index = sibling :: path join (pairUp join level) (index / 2) := by
  rw [path, if_pos branching, siblingAt]

theorem path_of_le_one {level : List α} {index : Nat} (single : level.length ≤ 1) : path join level index = [] := by
  rw [path, if_neg (by omega)]

/-- Every level below the root gives one sibling: ⌈log₂ n⌉ of them over `n` leaves. -/
theorem length_path {level : List α} {index : Nat} (inside : index < level.length) :
    (path join level index).length = Nat.clog 2 level.length := by
  by_cases branching : 1 < level.length
  · obtain ⟨sibling, siblingAt⟩ : ∃ sibling,
        level[min (index ^^^ 1) (level.length - 1)]? = some sibling :=
      ⟨_, List.getElem?_eq_getElem (sibling_lt_length (by omega))⟩
    have parentInside : index / 2 < (pairUp join level).length := by
      rw [length_pairUp]
      omega
    have halved : (level.length + 2 - 1) / 2 = (level.length + 1) / 2 := by omega
    rw [path_of_one_lt branching siblingAt, List.length_cons, length_path parentInside,
      length_pairUp, Nat.clog_of_one_lt (by decide) branching, halved]
  · rw [path_of_le_one (by omega), List.length_nil, Nat.clog_of_right_le_one (by omega)]
termination_by level.length
decreasing_by
  rw [length_pairUp]
  omega

/-- The parent of a node and its sibling sits at half its position one level up, joined on the
side the position's parity gives. -/
theorem getElem?_pairUp_half {level : List α} {index : Nat} {node sibling : α} (found : level[index]? = some node)
    (siblingAt : level[min (index ^^^ 1) (level.length - 1)]? = some sibling) :
    (pairUp join level)[index / 2]? = some (climbStep join (index, node) sibling).2 := by
  have inside : index < level.length := (List.getElem?_eq_some_iff.mp found).1
  rcases Nat.even_or_odd index with even | odd
  · -- the node is the left child and its sibling the right one (itself at an odd end)
    have left : 2 * (index / 2) = index := by
      have := Nat.even_iff.mp even
      omega
    rw [Nat.xor_one_of_even even, ← left] at siblingAt
    rw [← left] at found
    rw [getElem?_pairUp found siblingAt, climbStep, if_pos (Nat.even_iff.mp even)]
  · -- the node is the right child, and the left one is its sibling
    have right : 2 * (index / 2) + 1 = index := by
      have := Nat.odd_iff.mp odd
      omega
    have leftAt : level[2 * (index / 2)]? = some sibling := by
      rw [Nat.xor_one_of_odd odd, show min (index - 1) (level.length - 1) = 2 * (index / 2) by
        omega] at siblingAt
      exact siblingAt
    have nodeAt : level[min (2 * (index / 2) + 1) (level.length - 1)]? = some node := by
      rw [show min (2 * (index / 2) + 1) (level.length - 1) = index by omega]
      exact found
    rw [getElem?_pairUp leftAt nodeAt, climbStep, if_neg (by rw [Nat.odd_iff.mp odd]; decide)]

/-- Climbing from a leaf along its path ends at the root, the last node of the levels, with the
position back at `0`. -/
theorem foldl_climbStep_path {level : List α} {index : Nat} {leaf : α} (found : level[index]? = some leaf) :
    ∃ root, (levels join level).flatten.getLast? = some root ∧
      (path join level index).foldl (climbStep join) (index, leaf) = (0, root) := by
  have inside : index < level.length := (List.getElem?_eq_some_iff.mp found).1
  by_cases branching : 1 < level.length
  · obtain ⟨sibling, siblingAt⟩ : ∃ sibling,
        level[min (index ^^^ 1) (level.length - 1)]? = some sibling :=
      ⟨_, List.getElem?_eq_getElem (sibling_lt_length (by omega))⟩
    -- the climb continues from the parent, one level up
    obtain ⟨root, last, climbed⟩ := foldl_climbStep_path (getElem?_pairUp_half found siblingAt)
    refine ⟨root, ?_, ?_⟩
    · rw [levels_of_one_lt branching, List.flatten_cons, List.getLast?_append, last]
      rfl
    · rw [path_of_one_lt branching siblingAt, List.foldl_cons]
      exact climbed
  · -- a single leaf is its own root
    obtain ⟨only, rfl⟩ := List.length_eq_one_iff.mp (by omega : level.length = 1)
    obtain rfl : index = 0 := by simpa using inside
    obtain rfl : only = leaf := by simpa using found
    refine ⟨only, by rw [levels_of_le_one (by simp)]; simp, ?_⟩
    rw [path_of_le_one (by simp), List.foldl_nil]
termination_by level.length
decreasing_by
  rw [length_pairUp]
  omega

end Validator.Data.HashTree
