import Mathlib.Data.List.Basic

namespace Validator.Data

/-! # Double-ended iterators

A Rust `DoubleEndedIterator` as two step functions on its state: `next` takes from the front
and `next_back` from the back, each returning the item, or `none` at the end, with the state
after the call; an outer `none` is a panic.  An iterator represents a list at the states an
invariant holds of when every call takes that list's first or last item, or finds it empty.
Any interleaving of calls then takes the list from both ends, each item once
(`Represents.drive`), and `flatMap`, the `FlattenCompat` behind `Iterator::flat_map`,
represents the concatenation of what its inner iterators represent (`Represents.flatMap`).
-/

structure DoubleEnded (σ β : Type) where
  next : σ → Option (Option β × σ)
  nextBack : σ → Option (Option β × σ)

namespace DoubleEnded

variable {σ τ α β : Type}

/-- The end a call takes from. -/
inductive Side where
  | front
  | back
deriving DecidableEq, Repr

def call (iter : DoubleEnded σ β) : Side → σ → Option (Option β × σ)
  | .front => iter.next
  | .back => iter.nextBack

/-- The calls `sides`, in order, with what each returned; `none` if one panics. -/
def drive (iter : DoubleEnded σ β) : List Side → σ → Option (List (Option β) × σ)
  | [], state => some ([], state)
  | side :: sides, state => do
      let (out, state) ← iter.call side state
      let (outs, state) ← iter.drive sides state
      pure (out :: outs, state)

/-- The items the calls from `side` returned, in the order they returned them. -/
def taken (side : Side) : List Side → List (Option β) → List β
  | first :: sides, out :: outs => (if first = side then out.toList else []) ++ taken side sides outs
  | _, _ => []

/-- A call from `side` returns `out` from the list `before` and leaves `after`: its first or
last item, or nothing once it is empty. -/
def Takes : Side → List β → Option β → List β → Prop
  | _, before, none, after => before = [] ∧ after = []
  | .front, before, some item, after => before = item :: after
  | .back, before, some item, after => before = after ++ [item]

/-- `iter` represents `items state` wherever `inv` holds: no call panics, each keeps `inv`, and
each takes from the end it is made at. -/
structure Represents (iter : DoubleEnded σ β) (inv : σ → Prop) (items : σ → List β) : Prop where
  next : ∀ {state}, inv state → ∃ out after,
    iter.next state = some (out, after) ∧ inv after ∧ Takes .front (items state) out (items after)
  nextBack : ∀ {state}, inv state → ∃ out after,
    iter.nextBack state = some (out, after) ∧ inv after ∧ Takes .back (items state) out (items after)

section Represents

variable {iter : DoubleEnded σ β} {inv : σ → Prop} {items : σ → List β}

theorem Represents.call (represents : iter.Represents inv items) (side : Side) {state : σ}
    (holds : inv state) : ∃ out after, iter.call side state = some (out, after) ∧ inv after ∧
      Takes side (items state) out (items after) := by
  cases side with
  | front => exact represents.next holds
  | back => exact represents.nextBack holds

/-- Any interleaving of calls never panics and takes the items from both ends: those taken from
the front, in order, then those left, then those taken from the back, last taken first. -/
theorem Represents.drive (represents : iter.Represents inv items) :
    ∀ (sides : List Side) {state : σ}, inv state → ∃ outs after,
      iter.drive sides state = some (outs, after) ∧ inv after ∧
      items state = taken .front sides outs ++ items after ++ (taken .back sides outs).reverse
  | [], state, holds => ⟨[], state, rfl, holds, by simp [taken]⟩
  | side :: sides, state, holds => by
      obtain ⟨out, middle, called, middleHolds, took⟩ := represents.call side holds
      obtain ⟨outs, after, driven, afterHolds, rest⟩ := represents.drive sides middleHolds
      refine ⟨out :: outs, after, by simp [DoubleEnded.drive, called, driven], afterHolds, ?_⟩
      -- the first call took from one end; the others took the rest from both ends
      cases out with
      | none =>
          obtain ⟨empty, emptyAfter⟩ := took
          rw [emptyAfter] at rest
          have nothingLeft := congrArg List.length rest
          simp only [List.length_nil, List.length_append, List.length_reverse] at nothingLeft
          have front : taken .front sides outs = [] := List.eq_nil_of_length_eq_zero (by omega)
          have back : taken .back sides outs = [] := List.eq_nil_of_length_eq_zero (by omega)
          have left : items after = [] := List.eq_nil_of_length_eq_zero (by omega)
          simp [taken, empty, front, back, left]
      | some item =>
          cases side with
          | front =>
              rw [show items state = item :: items middle from took, rest]
              simp [taken]
          | back =>
              rw [show items state = items middle ++ [item] from took, rest]
              simp [taken]

theorem Takes.length_eq {side : Side} {before after : List β} {out : Option β}
    (took : Takes side before out after) : after.length = before.length - 1 := by
  cases out with
  | none => simp [took.1, took.2]
  | some item =>
      cases side with
      | front => simp [show before = item :: after from took]
      | back => simp [show before = after ++ [item] from took]

end Represents

/-- `length` bounds the items left, and each item taken lowers it: the iterator runs out. -/
structure Finite (iter : DoubleEnded σ α) where
  length : σ → Nat
  length_next : ∀ {state item after}, iter.next state = some (some item, after) →
    length after < length state
  length_nextBack : ∀ {state item after}, iter.nextBack state = some (some item, after) →
    length after < length state

/-- `Iterator::fold` as the trait defines it: `next` until it returns `None`. -/
def fold {γ : Type} (iter : DoubleEnded σ α) (finite : iter.Finite) (f : γ → α → γ) (init : γ)
    (state : σ) : Option γ :=
  match _found : iter.next state with
  | none => none
  | some (none, _) => some init
  | some (some item, after) => fold iter finite f (f init item) after
termination_by finite.length state
decreasing_by exact finite.length_next _found

/-- Folding from the front never panics and folds over the items. -/
theorem Represents.fold {γ : Type} {iter : DoubleEnded σ α} {inv : σ → Prop}
    {items : σ → List α} (represents : iter.Represents inv items) (finite : iter.Finite)
    (f : γ → α → γ) (init : γ) {state : σ} (holds : inv state) :
    iter.fold finite f init state = some ((items state).foldl f init) := by
  obtain ⟨out, after, called, afterHolds, took⟩ := represents.next holds
  cases out with
  | none =>
      rw [DoubleEnded.fold.eq_1]
      split <;> rename_i found <;> rw [called] at found <;> cases found
      rw [took.1]
      rfl
  | some item =>
      -- the fold goes on from the state after the first item
      have rest := represents.fold finite f (f init item) afterHolds
      rw [DoubleEnded.fold.eq_1]
      split <;> rename_i found <;> rw [called] at found <;> cases found
      rw [rest, show items state = item :: items after from took, List.foldl_cons]
termination_by finite.length state
decreasing_by exact finite.length_next called

/-- The state of `FlattenCompat`: the outer iterator and the inner iterators open at each end. -/
structure FlatMap (σ τ : Type) where
  iter : σ
  frontiter : Option τ
  backiter : Option τ

/-- `and_then_or_clear`: a call on the open inner iterator, closing it once it returns `None`. -/
def andThenOrClear (call : τ → Option (Option β × τ)) : Option τ → Option (Option β × Option τ)
  | none => some (none, none)
  | some inner => do
      let (out, inner) ← call inner
      pure (out, if out.isNone then none else some inner)

section FlatMap

/-- `FlattenCompat::next`: the front inner iterator, then the outer iterator's next item opened
at the front, and once the outer one is done, the back inner iterator. -/
def flatMapNext (outer : DoubleEnded σ α) (finite : outer.Finite) (inner : DoubleEnded τ β)
    (into : α → τ) (state : FlatMap σ τ) : Option (Option β × FlatMap σ τ) := do
  let (out, frontiter) ← andThenOrClear inner.next state.frontiter
  match out with
  | some item => pure (some item, { state with frontiter })
  | none =>
      match _found : outer.next state.iter with
      | none => none
      | some (none, iter) =>
          let (out, backiter) ← andThenOrClear inner.next state.backiter
          pure (out, ⟨iter, frontiter, backiter⟩)
      | some (some next, iter) =>
          flatMapNext outer finite inner into ⟨iter, some (into next), state.backiter⟩
termination_by finite.length state.iter
decreasing_by exact finite.length_next _found

/-- `FlattenCompat::next_back`, the mirror image of `flatMapNext`. -/
def flatMapNextBack (outer : DoubleEnded σ α) (finite : outer.Finite) (inner : DoubleEnded τ β)
    (into : α → τ) (state : FlatMap σ τ) : Option (Option β × FlatMap σ τ) := do
  let (out, backiter) ← andThenOrClear inner.nextBack state.backiter
  match out with
  | some item => pure (some item, { state with backiter })
  | none =>
      match _found : outer.nextBack state.iter with
      | none => none
      | some (none, iter) =>
          let (out, frontiter) ← andThenOrClear inner.nextBack state.frontiter
          pure (out, ⟨iter, frontiter, backiter⟩)
      | some (some next, iter) =>
          flatMapNextBack outer finite inner into ⟨iter, state.frontiter, some (into next)⟩
termination_by finite.length state.iter
decreasing_by exact finite.length_nextBack _found

def flatMap (outer : DoubleEnded σ α) (finite : outer.Finite) (inner : DoubleEnded τ β)
    (into : α → τ) : DoubleEnded (FlatMap σ τ) β :=
  ⟨flatMapNext outer finite inner into, flatMapNextBack outer finite inner into⟩

end FlatMap

section FlatMapSpec

variable {outer : DoubleEnded σ α} {finite : outer.Finite} {inner : DoubleEnded τ β}
  {into : α → τ} {outerInv : σ → Prop} {outerItems : σ → List α} {innerInv : τ → Prop}
  {innerItems : τ → List β}

/-- The items an open inner iterator has left; a closed one has none. -/
def openItems (innerItems : τ → List β) : Option τ → List β
  | none => []
  | some opened => innerItems opened

/-- What a `FlatMap` state has left: the front inner iterator's items, those of every item the
outer iterator has left, and the back inner iterator's. -/
def FlatMap.items (outerItems : σ → List α) (innerItems : τ → List β) (into : α → τ)
    (state : FlatMap σ τ) : List β :=
  openItems innerItems state.frontiter ++ (outerItems state.iter).flatMap (innerItems ∘ into) ++
    openItems innerItems state.backiter

def FlatMap.Inv (outerInv : σ → Prop) (innerInv : τ → Prop) (state : FlatMap σ τ) : Prop :=
  outerInv state.iter ∧ (∀ opened ∈ state.frontiter, innerInv opened) ∧
    (∀ opened ∈ state.backiter, innerInv opened)

/-- A call on an open inner iterator takes from its items, and closes it when it finds none. -/
theorem andThenOrClear_takes {call : τ → Option (Option β × τ)} {side : Side}
    (calls : ∀ {state}, innerInv state → ∃ out after,
      call state = some (out, after) ∧ innerInv after ∧
        Takes side (innerItems state) out (innerItems after))
    {opened : Option τ} (holds : ∀ state ∈ opened, innerInv state) :
    ∃ out after, andThenOrClear call opened = some (out, after) ∧
      (∀ state ∈ after, innerInv state) ∧
      Takes side (openItems innerItems opened) out (openItems innerItems after) ∧
      (out = none → after = none) := by
  cases opened with
  | none => exact ⟨none, none, rfl, by simp, ⟨rfl, rfl⟩, fun _ => rfl⟩
  | some state =>
      obtain ⟨out, after, called, afterHolds, took⟩ := calls (holds state rfl)
      cases out with
      | none =>
          exact ⟨none, none, by simp [andThenOrClear, called], by simp, ⟨took.1, rfl⟩,
            fun _ => rfl⟩
      | some item =>
          exact ⟨some item, some after, by simp [andThenOrClear, called], by simpa using afterHolds,
            took, by simp⟩

section Unfold

variable {state : FlatMap σ τ} {frontiter backiter : Option τ} {iter : σ} {next : α}

/-- The outer iterator is done: `next` turns to the back inner iterator. -/
theorem flatMapNext_of_done
    (frontCalled : andThenOrClear inner.next state.frontiter = some (none, frontiter))
    (outerCalled : outer.next state.iter = some (none, iter)) :
    flatMapNext outer finite inner into state =
      (andThenOrClear inner.next state.backiter).map fun (out, backiter) =>
        (out, ⟨iter, frontiter, backiter⟩) := by
  rw [flatMapNext, frontCalled]
  simp only [Option.bind_eq_bind, Option.bind_some]
  split <;> rename_i found <;> rw [outerCalled] at found <;> cases found
  cases andThenOrClear inner.next state.backiter <;> rfl

/-- The outer iterator has an item: `next` opens it at the front and loops. -/
theorem flatMapNext_of_opened
    (frontCalled : andThenOrClear inner.next state.frontiter = some (none, frontiter))
    (outerCalled : outer.next state.iter = some (some next, iter)) :
    flatMapNext outer finite inner into state =
      flatMapNext outer finite inner into ⟨iter, some (into next), state.backiter⟩ := by
  rw [flatMapNext, frontCalled]
  simp only [Option.bind_eq_bind, Option.bind_some]
  split <;> rename_i found <;> rw [outerCalled] at found <;> cases found
  rfl

theorem flatMapNextBack_of_done
    (backCalled : andThenOrClear inner.nextBack state.backiter = some (none, backiter))
    (outerCalled : outer.nextBack state.iter = some (none, iter)) :
    flatMapNextBack outer finite inner into state =
      (andThenOrClear inner.nextBack state.frontiter).map fun (out, frontiter) =>
        (out, ⟨iter, frontiter, backiter⟩) := by
  rw [flatMapNextBack, backCalled]
  simp only [Option.bind_eq_bind, Option.bind_some]
  split <;> rename_i found <;> rw [outerCalled] at found <;> cases found
  cases andThenOrClear inner.nextBack state.frontiter <;> rfl

theorem flatMapNextBack_of_opened
    (backCalled : andThenOrClear inner.nextBack state.backiter = some (none, backiter))
    (outerCalled : outer.nextBack state.iter = some (some next, iter)) :
    flatMapNextBack outer finite inner into state =
      flatMapNextBack outer finite inner into ⟨iter, state.frontiter, some (into next)⟩ := by
  rw [flatMapNextBack, backCalled]
  simp only [Option.bind_eq_bind, Option.bind_some]
  split <;> rename_i found <;> rw [outerCalled] at found <;> cases found
  rfl

end Unfold

variable (outerInv innerInv) in
/-- Each `FlattenCompat::next` takes the first item left, opening outer items at the front until
one has some or the outer iterator is done, and then turning to the back inner iterator. -/
theorem flatMapNext_takes (outerRepresents : outer.Represents outerInv outerItems)
    (innerRepresents : inner.Represents innerInv innerItems) (intoInv : ∀ item, innerInv (into item))
    {state : FlatMap σ τ} (holds : FlatMap.Inv outerInv innerInv state) :
    ∃ out after, flatMapNext outer finite inner into state = some (out, after) ∧
      FlatMap.Inv outerInv innerInv after ∧
      Takes .front (FlatMap.items outerItems innerItems into state) out
        (FlatMap.items outerItems innerItems into after) := by
  obtain ⟨outerHolds, frontHolds, backHolds⟩ := holds
  obtain ⟨out, frontiter, frontCalled, frontiterHolds, frontTook, closed⟩ :=
    andThenOrClear_takes innerRepresents.next frontHolds
  cases out with
  | some item =>
      -- the open front iterator had an item
      refine ⟨some item, { state with frontiter }, by rw [flatMapNext, frontCalled]; rfl,
        ⟨outerHolds, frontiterHolds, backHolds⟩, ?_⟩
      simp only [Takes] at frontTook
      simp [Takes, FlatMap.items, frontTook]
  | none =>
      obtain ⟨frontEmpty, -⟩ := frontTook
      obtain rfl := closed rfl
      obtain ⟨outerOut, iter, outerCalled, iterHolds, outerTook⟩ := outerRepresents.next outerHolds
      cases outerOut with
      | none =>
          -- the outer iterator is done: the back inner iterator has what is left
          obtain ⟨outerEmpty, iterEmpty⟩ := outerTook
          obtain ⟨out, backiter, backCalled, backiterHolds, backTook, -⟩ :=
            andThenOrClear_takes innerRepresents.next backHolds
          refine ⟨out, ⟨iter, none, backiter⟩, ?_, ⟨iterHolds, by simp, backiterHolds⟩, ?_⟩
          · rw [flatMapNext_of_done frontCalled outerCalled, backCalled]
            rfl
          · have left : FlatMap.items outerItems innerItems into state =
                openItems innerItems state.backiter := by
              rw [FlatMap.items, frontEmpty, outerEmpty, List.flatMap_nil, List.nil_append,
                List.nil_append]
            have right : FlatMap.items outerItems innerItems into ⟨iter, none, backiter⟩ =
                openItems innerItems backiter := by
              rw [FlatMap.items, iterEmpty, List.flatMap_nil]
              rfl
            rw [left, right]
            exact backTook
      | some next =>
          -- the outer iterator's next item is opened at the front, and the loop goes on
          have opened : FlatMap.Inv outerInv innerInv ⟨iter, some (into next), state.backiter⟩ :=
            ⟨iterHolds, by simpa using intoInv next, backHolds⟩
          obtain ⟨out, after, called, afterHolds, took⟩ :=
            flatMapNext_takes outerRepresents innerRepresents intoInv opened
          refine ⟨out, after, (flatMapNext_of_opened frontCalled outerCalled).trans called, afterHolds, ?_⟩
          have same : FlatMap.items outerItems innerItems into state =
              FlatMap.items outerItems innerItems into ⟨iter, some (into next), state.backiter⟩ := by
            rw [FlatMap.items, FlatMap.items, frontEmpty, show outerItems state.iter =
              next :: outerItems iter from outerTook, List.flatMap_cons, List.nil_append]
            rfl
          rw [same]
          exact took
termination_by finite.length state.iter
decreasing_by exact finite.length_next outerCalled

variable (outerInv innerInv) in
/-- Each `FlattenCompat::next_back` takes the last item left, the mirror image of
`flatMapNext_takes`. -/
theorem flatMapNextBack_takes (outerRepresents : outer.Represents outerInv outerItems)
    (innerRepresents : inner.Represents innerInv innerItems) (intoInv : ∀ item, innerInv (into item))
    {state : FlatMap σ τ} (holds : FlatMap.Inv outerInv innerInv state) :
    ∃ out after, flatMapNextBack outer finite inner into state = some (out, after) ∧
      FlatMap.Inv outerInv innerInv after ∧
      Takes .back (FlatMap.items outerItems innerItems into state) out
        (FlatMap.items outerItems innerItems into after) := by
  obtain ⟨outerHolds, frontHolds, backHolds⟩ := holds
  obtain ⟨out, backiter, backCalled, backiterHolds, backTook, closed⟩ :=
    andThenOrClear_takes innerRepresents.nextBack backHolds
  cases out with
  | some item =>
      -- the open back iterator had an item
      refine ⟨some item, { state with backiter }, by rw [flatMapNextBack, backCalled]; rfl,
        ⟨outerHolds, frontHolds, backiterHolds⟩, ?_⟩
      simp only [Takes] at backTook
      simp [Takes, FlatMap.items, backTook]
  | none =>
      obtain ⟨backEmpty, -⟩ := backTook
      obtain rfl := closed rfl
      obtain ⟨outerOut, iter, outerCalled, iterHolds, outerTook⟩ :=
        outerRepresents.nextBack outerHolds
      cases outerOut with
      | none =>
          -- the outer iterator is done: the front inner iterator has what is left
          obtain ⟨outerEmpty, iterEmpty⟩ := outerTook
          obtain ⟨out, frontiter, frontCalled, frontiterHolds, frontTook, -⟩ :=
            andThenOrClear_takes innerRepresents.nextBack frontHolds
          refine ⟨out, ⟨iter, frontiter, none⟩, ?_, ⟨iterHolds, frontiterHolds, by simp⟩, ?_⟩
          · rw [flatMapNextBack_of_done backCalled outerCalled, frontCalled]
            rfl
          · have left : FlatMap.items outerItems innerItems into state =
                openItems innerItems state.frontiter := by
              rw [FlatMap.items, backEmpty, outerEmpty, List.flatMap_nil, List.append_nil,
                List.append_nil]
            have right : FlatMap.items outerItems innerItems into ⟨iter, frontiter, none⟩ =
                openItems innerItems frontiter := by
              rw [FlatMap.items, iterEmpty, List.flatMap_nil]
              exact (List.append_nil _).trans (List.append_nil _)
            rw [left, right]
            exact frontTook
      | some next =>
          -- the outer iterator's last item is opened at the back, and the loop goes on
          have opened : FlatMap.Inv outerInv innerInv ⟨iter, state.frontiter, some (into next)⟩ :=
            ⟨iterHolds, frontHolds, by simpa using intoInv next⟩
          obtain ⟨out, after, called, afterHolds, took⟩ :=
            flatMapNextBack_takes outerRepresents innerRepresents intoInv opened
          refine ⟨out, after, (flatMapNextBack_of_opened backCalled outerCalled).trans called,
            afterHolds, ?_⟩
          have same : FlatMap.items outerItems innerItems into state =
              FlatMap.items outerItems innerItems into ⟨iter, state.frontiter, some (into next)⟩ := by
            rw [FlatMap.items, FlatMap.items, backEmpty, show outerItems state.iter =
              outerItems iter ++ [next] from outerTook, List.flatMap_append, List.flatMap_singleton,
              List.append_nil, ← List.append_assoc]
            rfl
          rw [same]
          exact took
termination_by finite.length state.iter
decreasing_by exact finite.length_nextBack outerCalled

/-- `flat_map` represents the items of the outer iterator's items, in order. -/
theorem Represents.flatMap (outerRepresents : outer.Represents outerInv outerItems)
    (innerRepresents : inner.Represents innerInv innerItems) (intoInv : ∀ item, innerInv (into item)) :
    (DoubleEnded.flatMap outer finite inner into).Represents (FlatMap.Inv outerInv innerInv)
      (FlatMap.items outerItems innerItems into) :=
  ⟨flatMapNext_takes outerInv innerInv outerRepresents innerRepresents intoInv,
    flatMapNextBack_takes outerInv innerInv outerRepresents innerRepresents intoInv⟩

end FlatMapSpec

end DoubleEnded

end Validator.Data
