import Mathlib.Data.List.Induction

namespace Validator.Data

/-! # Runs of a labelled transition system

A system is a step relation `step : σ → ε → σ → Prop`: from one state, a labelled step leads
to the next.  A run records the labels in order.  Safety properties are proved as invariants
over every run; properties of one moment of a run (what held just before the `k`-th step) are
read off `Run.split`.
-/

section
variable {σ ε : Type*} (step : σ → ε → σ → Prop)

/-- `Run step start labels finish`: from `start`, steps labelled by `labels`, in order, lead to
`finish`. -/
inductive Run : σ → List ε → σ → Prop
  | nil (state : σ) : Run state [] state
  | snoc {start middle finish : σ} {labels : List ε} {label : ε} :
      Run start labels middle → step middle label finish → Run start (labels ++ [label]) finish

/-- A state some run leads to from `start`. -/
def Reachable (start finish : σ) : Prop :=
  ∃ labels, Run step start labels finish

variable {step}

theorem Run.reachable {start finish : σ} {labels : List ε} (run : Run step start labels finish) :
    Reachable step start finish :=
  ⟨labels, run⟩

/-- The invariant rule: what holds at the start and is kept by every step holds along every
run. -/
theorem Run.invariant {invariant : σ → Prop} {start finish : σ} {labels : List ε}
    (initial : invariant start)
    (preserved : ∀ state label next, invariant state → step state label next → invariant next)
    (run : Run step start labels finish) : invariant finish := by
  induction run with
  | nil => exact initial
  | snoc _ last holds => exact preserved _ _ _ holds last

theorem Reachable.invariant {invariant : σ → Prop} {start finish : σ}
    (initial : invariant start)
    (preserved : ∀ state label next, invariant state → step state label next → invariant next)
    (reachable : Reachable step start finish) : invariant finish := by
  obtain ⟨labels, run⟩ := reachable
  exact run.invariant initial preserved

theorem Run.single {state next : σ} {label : ε} (taken : step state label next) :
    Run step state [label] next := by
  simpa using Run.snoc (Run.nil state) taken

theorem Run.append {start middle finish : σ} {first second : List ε}
    (firstRun : Run step start first middle) (secondRun : Run step middle second finish) :
    Run step start (first ++ second) finish := by
  induction secondRun with
  | nil => simpa using firstRun
  | snoc _ last ih =>
      rw [← List.append_assoc]
      exact Run.snoc ih last

theorem Run.nil_inv {start finish : σ} (run : Run step start [] finish) : start = finish := by
  generalize empty : ([] : List ε) = labels at run
  cases run with
  | nil => rfl
  | snoc _ _ => simp at empty

/-- The last step of a run. -/
theorem Run.snoc_inv {start finish : σ} {labels : List ε} {label : ε}
    (run : Run step start (labels ++ [label]) finish) :
    ∃ middle, Run step start labels middle ∧ step middle label finish := by
  generalize whole : labels ++ [label] = all at run
  cases run with
  | nil => simp at whole
  | snoc earlier last =>
      obtain ⟨sameLabels, sameLast⟩ := List.append_inj' whole rfl
      simp only [List.cons.injEq, and_true] at sameLast
      subst sameLabels sameLast
      exact ⟨_, earlier, last⟩

/-- A run splits at any point of its labels. -/
theorem Run.split {start finish : σ} {first second : List ε}
    (run : Run step start (first ++ second) finish) :
    ∃ middle, Run step start first middle ∧ Run step middle second finish := by
  induction second using List.reverseRecOn generalizing finish with
  | nil => exact ⟨finish, by simpa using run, Run.nil finish⟩
  | append_singleton second label ih =>
      rw [← List.append_assoc] at run
      obtain ⟨before, earlier, last⟩ := run.snoc_inv
      obtain ⟨middle, toMiddle, fromMiddle⟩ := ih earlier
      exact ⟨middle, toMiddle, Run.snoc fromMiddle last⟩

/-- The `index`-th step of a run, with the runs before and after it. -/
theorem Run.step_at {start finish : σ} {labels : List ε} (run : Run step start labels finish)
    (index : Nat) (bound : index < labels.length) :
    ∃ before after, Run step start (labels.take index) before ∧
      step before labels[index] after ∧ Run step after (labels.drop (index + 1)) finish := by
  have pieces : labels = labels.take index ++ ([labels[index]] ++ labels.drop (index + 1)) := by
    simp
  rw [pieces] at run
  obtain ⟨before, toBefore, rest⟩ := run.split
  obtain ⟨after, middle, toFinish⟩ := rest.split
  obtain ⟨start', empty, taken⟩ := (show Run step before ([] ++ [labels[index]]) after
    from middle).snoc_inv
  cases empty.nil_inv
  exact ⟨before, after, toBefore, taken, toFinish⟩

end

section Iterator

variable {σ β : Type*}

/-- `Yields next state items`: an iterator whose `next` maps a state to its item and the state
after it, or to `none` once it stops, yields `items` from `state` and then stops. -/
inductive Yields (next : σ → Option (β × σ)) : σ → List β → Prop
  | done {state : σ} : next state = none → Yields next state []
  | yield {state after : σ} {item : β} {items : List β} :
      next state = some (item, after) → Yields next after items → Yields next state (item :: items)

/-- `Iterator::collect` of an iterator whose `next` may also fail (`none`, a panic): the items up
to its first `None`, with the state it stops in, within `fuel` calls. -/
def drain (next : σ → Option (Option β × σ)) : Nat → σ → Option (List β × σ)
  | 0, _ => none
  | fuel + 1, state =>
    match next state with
    | none => none
    | some (none, state) => some ([], state)
    | some (some item, state) =>
      (drain next fuel state).map fun (items, final) => (item :: items, final)

/-- More fuel does not change what a finished drain returns. -/
theorem drain_add {next : σ → Option (Option β × σ)} {fuel : Nat} {state : σ}
    {result : List β × σ} (finished : drain next fuel state = some result) (extra : Nat) :
    drain next (fuel + extra) state = some result := by
  induction fuel generalizing state result with
  | zero => cases finished
  | succ fuel ih =>
    rw [Nat.add_right_comm, drain]
    rw [drain] at finished
    cases stepped : next state with
    | none => rw [stepped] at finished; cases finished
    | some step =>
      obtain ⟨item, after⟩ := step
      rw [stepped] at finished
      cases item with
      | none => exact finished
      | some item =>
        simp only [Option.map_eq_some_iff] at finished ⊢
        obtain ⟨rest, restDrained, same⟩ := finished
        exact ⟨rest, ih restDrained, same⟩

/-- Two iterators that step in lockstep through related states, yielding the same items, drain to
the same items and related final states. -/
theorem drain_rel {τ : Type*} {next : σ → Option (Option β × σ)}
    {next' : τ → Option (Option β × τ)} (related : σ → τ → Prop)
    (lockstep : ∀ state state', related state state' →
      ∃ item after after', next state = some (item, after) ∧ next' state' = some (item, after') ∧
        related after after')
    (fuel : Nat) :
    ∀ state state', related state state' →
      Option.Rel (fun x y => x.1 = y.1 ∧ related x.2 y.2) (drain next fuel state)
        (drain next' fuel state') := by
  induction fuel with
  | zero => exact fun _ _ _ => Option.Rel.none
  | succ fuel ih =>
    intro state state' holds
    obtain ⟨item, after, after', stepped, stepped', holds'⟩ := lockstep state state' holds
    rw [drain, drain, stepped, stepped']
    cases item with
    | none => exact Option.Rel.some ⟨rfl, holds'⟩
    | some item =>
      simp only
      have rest := ih after after' holds'
      generalize drain next fuel after = drained at rest ⊢
      generalize drain next' fuel after' = drained' at rest ⊢
      cases rest with
      | none => exact Option.Rel.none
      | some rest => exact Option.Rel.some ⟨congrArg (item :: ·) rest.1, rest.2⟩

/-- An iterator that never fails while `invariant` holds, and whose every item lowers `measure`,
drains within `measure + 1` calls. -/
theorem drain_isSome (next : σ → Option (Option β × σ)) (invariant : σ → Prop) (measure : σ → Nat)
    (progress : ∀ state, invariant state → ∃ item after, next state = some (item, after) ∧
      invariant after ∧ (item.isSome → measure after < measure state))
    (fuel : Nat) : ∀ state, invariant state → measure state < fuel →
      ∃ items final, drain next fuel state = some (items, final) ∧ invariant final := by
  induction fuel with
  | zero => exact fun _ _ below => absurd below (Nat.not_lt_zero _)
  | succ fuel ih =>
    intro state holds below
    obtain ⟨item, after, stepped, holds', lowers⟩ := progress state holds
    rw [drain, stepped]
    cases item with
    | none => exact ⟨[], after, rfl, holds'⟩
    | some item =>
      obtain ⟨items, final, drained, holdsFinal⟩ :=
        ih after holds' (by have := lowers rfl; omega)
      exact ⟨item :: items, final, by simp [drained], holdsFinal⟩

end Iterator

end Validator.Data
