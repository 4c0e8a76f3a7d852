import Mathlib.Data.List.OfFn
import Mathlib.Data.Vector.Basic

namespace Validator.Data

/-! # A list that holds another at an offset

`PrefixAt xs offset ys`: `offset` is a position of `xs`, and reading `xs` from it on starts
with `ys`.  A parser that keeps an offset into its input is specified by the encoding that sits
at the offset it reads from; an encoding that is a concatenation splits into its parts at
consecutive offsets (`prefixAt_append`), and a whole input is the encoding at offset `0` of its
own length (`eq_of_prefixAt_zero`).
-/

variable {α : Type}

def PrefixAt (xs : List α) (offset : Nat) (ys : List α) : Prop :=
  offset ≤ xs.length ∧ ∃ rest, xs.drop offset = ys ++ rest

variable {xs ys zs : List α} {offset : Nat}

theorem prefixAt_nil : PrefixAt xs offset [] ↔ offset ≤ xs.length :=
  ⟨fun at_ => at_.1, fun inside => ⟨inside, xs.drop offset, rfl⟩⟩

theorem prefixAt_cons {y : α} :
    PrefixAt xs offset (y :: ys) ↔ xs[offset]? = some y ∧ PrefixAt xs (offset + 1) ys := by
  constructor
  · rintro ⟨-, rest, dropEq⟩
    have inside : offset < xs.length := by
      by_contra beyond
      rw [List.drop_eq_nil_of_le (Nat.le_of_not_lt beyond)] at dropEq
      simp at dropEq
    rw [List.drop_eq_getElem_cons inside, List.cons_append, List.cons.injEq] at dropEq
    exact ⟨by rw [List.getElem?_eq_getElem inside, dropEq.1], inside, rest, dropEq.2⟩
  · rintro ⟨found, -, rest, dropEq⟩
    have inside : offset < xs.length := (List.getElem?_eq_some_iff.mp found).1
    refine ⟨Nat.le_of_lt inside, rest, ?_⟩
    rw [List.drop_eq_getElem_cons inside, dropEq, (List.getElem?_eq_some_iff.mp found).2]
    rfl

theorem prefixAt_append :
    PrefixAt xs offset (ys ++ zs) ↔ PrefixAt xs offset ys ∧ PrefixAt xs (offset + ys.length) zs := by
  induction ys generalizing offset with
  | nil => simp only [List.nil_append, List.length_nil, Nat.add_zero, prefixAt_nil]; exact
      ⟨fun at_ => ⟨at_.1, at_⟩, fun both => both.2⟩
  | cons y ys ih =>
      rw [List.cons_append, prefixAt_cons, prefixAt_cons, ih, List.length_cons,
        Nat.add_assoc, Nat.add_comm 1 ys.length, and_assoc]

theorem PrefixAt.of_eq_offset {other : Nat} (at_ : PrefixAt xs offset ys) (same : offset = other) :
    PrefixAt xs other ys :=
  same ▸ at_

theorem PrefixAt.le_length (at_ : PrefixAt xs offset ys) : offset + ys.length ≤ xs.length := by
  obtain ⟨inside, rest, dropEq⟩ := at_
  have lengths := congrArg List.length dropEq
  simp only [List.length_drop, List.length_append] at lengths
  omega

theorem PrefixAt.getElem? (at_ : PrefixAt xs offset ys) {index : Nat} (inside : index < ys.length) :
    xs[offset + index]? = ys[index]? := by
  obtain ⟨-, rest, dropEq⟩ := at_
  rw [← List.getElem?_drop, dropEq, List.getElem?_append_left inside]

theorem PrefixAt.getD (at_ : PrefixAt xs offset ys) {index : Nat} (inside : index < ys.length)
    (fallback : α) : xs.getD (offset + index) fallback = ys[index] := by
  rw [List.getD_eq_getElem?_getD, at_.getElem? inside, List.getElem?_eq_getElem inside,
    Option.getD_some]

theorem PrefixAt.drop_take (at_ : PrefixAt xs offset ys) : (xs.drop offset).take ys.length = ys := by
  obtain ⟨-, rest, dropEq⟩ := at_
  rw [dropEq, List.take_left']
  rfl

/-- What sits at an offset sits at the start of the list from that offset on. -/
theorem PrefixAt.drop (at_ : PrefixAt xs offset ys) : PrefixAt (xs.drop offset) 0 ys := by
  obtain ⟨-, rest, dropEq⟩ := at_
  exact ⟨Nat.zero_le _, rest, by rw [List.drop_zero, dropEq]⟩

/-- What sits at an offset, when enough of the list follows it. -/
theorem prefixAt_take_drop {count : Nat} (bound : offset + count ≤ xs.length) :
    PrefixAt xs offset ((xs.drop offset).take count) :=
  ⟨by omega, (xs.drop offset).drop count, (List.take_append_drop _ _).symm⟩

/-- A list holds at offset `0` a list of its own length only when they are the same. -/
theorem eq_of_prefixAt_zero (at_ : PrefixAt xs 0 ys) (same : ys.length = xs.length) : xs = ys := by
  obtain ⟨-, rest, dropEq⟩ := at_
  rw [List.drop_zero] at dropEq
  have restNil : rest = [] := by
    have lengths := congrArg List.length dropEq
    simp only [List.length_append] at lengths
    exact List.eq_nil_of_length_eq_zero (by omega)
  rw [dropEq, restNil, List.append_nil]

theorem prefixAt_zero_self (xs : List α) : PrefixAt xs 0 xs :=
  ⟨Nat.zero_le _, [], by simp⟩

/-! ## Runs of fixed-size chunks -/

variable {size : Nat}

/-- The chunks of `size` elements from `offset`, read one element at a time. -/
def chunksAt (xs : List α) (fallback : α) (offset count size : Nat) : List (Vector α size) :=
  List.ofFn fun (index : Fin count) =>
    Vector.ofFn fun (position : Fin size) => xs.getD (offset + index * size + position) fallback

theorem length_flatMap_toList (chunks : List (Vector α size)) :
    (chunks.flatMap Vector.toList).length = chunks.length * size := by
  induction chunks with
  | nil => simp
  | cons chunk chunks ih =>
      rw [List.flatMap_cons, List.length_append, ih, Vector.length_toList, List.length_cons,
        Nat.succ_mul, Nat.add_comm]

@[simp] theorem length_chunksAt (xs : List α) (fallback : α) (offset count size : Nat) :
    (chunksAt xs fallback offset count size).length = count := by
  simp [chunksAt]

theorem chunksAt_succ (xs : List α) (fallback : α) (offset count size : Nat) :
    chunksAt xs fallback offset (count + 1) size =
      Vector.ofFn (fun (position : Fin size) => xs.getD (offset + position) fallback) ::
        chunksAt xs fallback (offset + size) count size := by
  rw [chunksAt, List.ofFn_succ, chunksAt]
  congr 1
  · simp
  · congr 1
    funext index
    congr 1
    funext position
    congr 1
    simp only [Fin.val_succ, Nat.add_mul, Nat.one_mul]
    omega

/-- One chunk read element by element is the slice there. -/
theorem toList_ofFn_getD (fallback : α) (bound : offset + size ≤ xs.length) :
    (Vector.ofFn fun (position : Fin size) => xs.getD (offset + position) fallback).toList =
      (xs.drop offset).take size := by
  apply List.ext_getElem
  · simp
    omega
  · intro index inside _
    simp only [Vector.toList_ofFn, List.getElem_ofFn, List.getElem_take, List.getElem_drop]
    rw [List.getD_eq_getElem?_getD, List.getElem?_eq_getElem (by simp at inside; omega),
      Option.getD_some]

theorem chunksAt_of_prefixAt {chunks : List (Vector α size)}
    (at_ : PrefixAt xs offset (chunks.flatMap Vector.toList)) (fallback : α) :
    chunksAt xs fallback offset chunks.length size = chunks := by
  induction chunks generalizing offset with
  | nil => rfl
  | cons chunk chunks ih =>
      rw [List.flatMap_cons, prefixAt_append, Vector.length_toList] at at_
      obtain ⟨here, later⟩ := at_
      rw [List.length_cons, chunksAt_succ, ih later]
      congr 1
      apply Vector.ext
      intro position inside
      rw [Vector.getElem_ofFn, here.getD (by simpa using inside), Vector.getElem_toList]

/-- The chunk at a position of a run of chunks. -/
theorem PrefixAt.chunk {chunks : List (Vector α size)}
    (at_ : PrefixAt xs offset (chunks.flatMap Vector.toList)) :
    ∀ {index : Nat} (inside : index < chunks.length),
      PrefixAt xs (offset + index * size) chunks[index].toList := by
  induction chunks generalizing offset with
  | nil => intro index inside; cases inside
  | cons chunk chunks ih =>
      rw [List.flatMap_cons, prefixAt_append, Vector.length_toList] at at_
      intro index inside
      cases index with
      | zero => simpa using at_.1
      | succ index =>
          have later := ih at_.2 (by simpa using inside)
          rw [List.getElem_cons_succ]
          exact later.of_eq_offset (by rw [Nat.succ_mul]; omega)
theorem prefixAt_chunksAt {count : Nat} (bound : offset + count * size ≤ xs.length)
    (fallback : α) :
    PrefixAt xs offset ((chunksAt xs fallback offset count size).flatMap Vector.toList) := by
  induction count generalizing offset with
  | zero => exact prefixAt_nil.mpr (by omega)
  | succ count ih =>
      have first : offset + size ≤ xs.length := by
        rw [Nat.succ_mul] at bound
        omega
      rw [chunksAt_succ, List.flatMap_cons, prefixAt_append, Vector.length_toList,
        toList_ofFn_getD fallback first]
      refine ⟨prefixAt_take_drop first, ih ?_⟩
      rw [Nat.succ_mul] at bound
      omega

/-! ## Parsers in `Except` -/

theorem except_bind_eq_ok {ε β γ : Type} {first : Except ε β} {rest : β → Except ε γ} {result : γ} :
    first >>= rest = .ok result ↔ ∃ value, first = .ok value ∧ rest value = .ok result := by
  cases first <;> simp [bind, Except.bind]

/-- A loop of checks in `Except` passes exactly when every check passes. -/
theorem except_forM_eq_ok_iff {ε α : Type} {f : α → Except ε Unit} {xs : List α} :
    xs.forM f = .ok () ↔ ∀ x ∈ xs, f x = .ok () := by
  induction xs with
  | nil => simp [List.forM, pure, Except.pure]
  | cons x xs ih =>
      rw [List.forM, List.forall_mem_cons, ← ih]
      cases f x <;> simp [bind, Except.bind]

end Validator.Data
