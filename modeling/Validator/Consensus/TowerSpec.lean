import Validator.Consensus.Tower
import Validator.Data.ListOrder

namespace Validator.Consensus

open Validator.Data Validator.Vote

/-! # Restoring a tower keeps the votes the ledger has not reached

The loop of `adjust_lockouts_with_slot_history` walks the root and the votes newest first.  On a
tower whose votes rise above its root, `Future` is met only at the start and `TooOld` only at
the end, since the history's window is an interval: so the two sanity tests on them never fire,
and the slots come in the order the `assert!` wants.  The first slot found anchors the tower; the
loop fails exactly when an older slot is missing from the history, and otherwise flags the votes
above the anchor, which are the ones kept.
-/

namespace SlotHistory

variable (slotHistory : SlotHistory) {slot older : Slot}

theorem check_eq_future_iff : slotHistory.check slot = .future ↔ slotHistory.newest < slot := by
  unfold check
  split
  · simp_all
  · split <;> (try split) <;> simp_all

theorem check_eq_tooOld_iff :
    slotHistory.check slot = .tooOld ↔ slot ≤ slotHistory.newest ∧ slot < slotHistory.oldest := by
  unfold check
  split
  · simp_all
  · split <;> (try split) <;> simp_all [UInt64.not_lt]

/-- The history's window is an interval: below a slot that is not in the future, none is. -/
theorem check_ne_future_of_le (le : older ≤ slot) (present : slotHistory.check slot ≠ .future) :
    slotHistory.check older ≠ .future := by
  rw [ne_eq, check_eq_future_iff] at present ⊢
  intro above
  exact present (UInt64.lt_of_lt_of_le above le)

theorem check_eq_tooOld_of_le (le : older ≤ slot) (old : slotHistory.check slot = .tooOld) :
    slotHistory.check older = .tooOld := by
  rw [check_eq_tooOld_iff] at old ⊢
  exact ⟨UInt64.le_trans le old.1, UInt64.lt_of_le_of_lt le old.2⟩

end SlotHistory

/-- `later` may follow `earlier` in the loop: it is older, or both are the root. -/
def OlderOrRoot (towerRoot earlier later : Slot) : Prop :=
  later < earlier ∨ (later = earlier ∧ later = towerRoot)

theorem OlderOrRoot.le {towerRoot earlier later : Slot} (older : OlderOrRoot towerRoot earlier later) :
    later ≤ earlier := by
  rcases older with below | ⟨same, -⟩
  · exact UInt64.le_of_lt below
  · rw [same]
    exact UInt64.le_refl _

namespace AdjustLoop

variable {towerRoot : Slot} {slotHistory : SlotHistory}

/-- The state after a turn on `slot` that raises nothing. -/
def advance (slotHistory : SlotHistory) (state : AdjustLoop) (slot : Slot) : AdjustLoop :=
  let check := slotHistory.check slot
  let anchoredSlot :=
    if state.anchoredSlot.isNone && check == .found then some slot else state.anchoredSlot
  { retainFlagsForEachVoteInReverse := state.retainFlagsForEachVoteInReverse ++ [anchoredSlot.isNone]
    stillInFuture := state.stillInFuture && check == .future
    pastOutsideHistory := state.pastOutsideHistory || check == .tooOld
    checkedSlot := some slot
    anchoredSlot }

/-- What the loop's state promises of the slots still to come: they come oldest last, after the
slot checked last, out of the future once a slot was, too old once a slot was, and at most the
anchor. -/
structure Coherent (towerRoot : Slot) (slotHistory : SlotHistory) (state : AdjustLoop)
    (slots : List Slot) : Prop where
  ordered : slots.Pairwise (OlderOrRoot towerRoot)
  afterChecked : ∀ checked, state.checkedSlot = some checked →
    ∀ slot ∈ slots, OlderOrRoot towerRoot checked slot
  present : state.stillInFuture = false → ∀ slot ∈ slots, slotHistory.check slot ≠ .future
  tooOld : state.pastOutsideHistory = true → ∀ slot ∈ slots, slotHistory.check slot = .tooOld
  belowAnchor : ∀ anchor, state.anchoredSlot = some anchor → ∀ slot ∈ slots, slot ≤ anchor

theorem anchor_of_not_diverged {anchoredSlot : Option Slot} {slot : Slot} {check : Check}
    (kept : ¬ (anchoredSlot.isSome ∧ check = .notFound)) :
    anchor anchoredSlot slot check =
      .ok (if anchoredSlot.isNone && check == .found then some slot else anchoredSlot) := by
  unfold anchor
  cases anchoredSlot <;> cases check <;> simp_all

theorem updateStillInFuture_eq {stillInFuture : Bool} {check : Check}
    (present : stillInFuture = false → check ≠ .future) :
    updateStillInFuture stillInFuture check = .ok (stillInFuture && check == .future) := by
  unfold updateStillInFuture
  cases stillInFuture <;> cases check <;> simp_all

theorem updatePastOutsideHistory_eq {pastOutsideHistory : Bool} {check : Check}
    (tooOld : pastOutsideHistory = true → check = .tooOld) :
    updatePastOutsideHistory pastOutsideHistory check = .ok (pastOutsideHistory || check == .tooOld) := by
  unfold updatePastOutsideHistory
  cases pastOutsideHistory <;> cases check <;> simp_all

theorem ordered_of_olderOrRoot {checkedSlot : Option Slot} {slot : Slot}
    (after : ∀ checked, checkedSlot = some checked → OlderOrRoot towerRoot checked slot) :
    ordered towerRoot checkedSlot slot = true := by
  cases checkedSlot with
  | none => rfl
  | some checked =>
      rcases after checked rfl with below | ⟨same, root⟩ <;> simp_all [ordered]

/-- A turn on a slot the state is coherent with raises nothing unless the tower is anchored and
the slot is missing from the history. -/
theorem step_eq_advance {state : AdjustLoop} {slot : Slot} {slots : List Slot}
    (coherent : Coherent towerRoot slotHistory state (slot :: slots))
    (kept : ¬ (state.anchoredSlot.isSome ∧ slotHistory.check slot = .notFound)) :
    step towerRoot slotHistory state slot = some (.ok (advance slotHistory state slot)) := by
  have first := List.mem_cons_self (a := slot) (l := slots)
  have present := fun stopped => coherent.present stopped slot first
  have tooOld := fun past => coherent.tooOld past slot first
  have inOrder := ordered_of_olderOrRoot fun checked found =>
    coherent.afterChecked checked found slot first
  simp only [step, anchor_of_not_diverged kept, updateStillInFuture_eq present,
    updatePastOutsideHistory_eq tooOld, bind, Except.bind, pure, Except.pure, inOrder, if_true]
  rfl

theorem step_of_diverged {state : AdjustLoop} {slot : Slot} {anchor : Slot}
    (anchored : state.anchoredSlot = some anchor) (missing : slotHistory.check slot = .notFound) :
    step towerRoot slotHistory state slot =
      some (.error (.fatallyInconsistent .divergedAncestor)) := by
  simp [step, AdjustLoop.anchor, anchored, missing, bind, Except.bind]

/-- The state after a turn stays coherent with the slots after it. -/
theorem coherent_advance {state : AdjustLoop} {slot : Slot} {slots : List Slot}
    (coherent : Coherent towerRoot slotHistory state (slot :: slots)) :
    Coherent towerRoot slotHistory (advance slotHistory state slot) slots := by
  obtain ⟨ordered, afterChecked, present, tooOld, belowAnchor⟩ := coherent
  rw [List.pairwise_cons] at ordered
  have later : ∀ older ∈ slots, older ≤ slot := fun older member => (ordered.1 older member).le
  constructor
  · exact ordered.2
  · intro checked found
    simp only [advance, Option.some.injEq] at found
    subst found
    exact ordered.1
  · -- out of the future at this slot, or already before it
    intro stopped older member
    simp only [advance, Bool.and_eq_false_iff, beq_eq_false_iff_ne] at stopped
    rcases stopped with before | current
    · exact present before older (List.mem_cons_of_mem _ member)
    · exact slotHistory.check_ne_future_of_le (later older member) current
  · intro past older member
    simp only [advance, Bool.or_eq_true, beq_iff_eq] at past
    rcases past with before | current
    · exact tooOld before older (List.mem_cons_of_mem _ member)
    · exact slotHistory.check_eq_tooOld_of_le (later older member) current
  · intro anchor anchored older member
    simp only [advance] at anchored
    split at anchored
    · rw [Option.some.injEq] at anchored
      rw [← anchored]
      exact later older member
    · exact belowAnchor anchor anchored older (List.mem_cons_of_mem _ member)

/-- `anchor` is where the loop anchors: the anchor already, or else the newest slot to come that
the history holds. -/
def AnchorsAt (slotHistory : SlotHistory) (state : AdjustLoop) (slots : List Slot) (anchor : Slot) :
    Prop :=
  slotHistory.check anchor = .found ∧
    (state.anchoredSlot = some anchor ∨
      state.anchoredSlot = none ∧ anchor ∈ slots ∧
        ∀ slot ∈ slots, anchor < slot → slotHistory.check slot ≠ .found)

/-- A turn that raises nothing keeps the anchor, and flags the slot exactly when it is newer
than the anchor; a slot older than the anchor comes after the tower is anchored. -/
theorem advance_anchorsAt {state : AdjustLoop} {slot anchor : Slot} {slots : List Slot}
    (coherent : Coherent towerRoot slotHistory state (slot :: slots))
    (anchors : AnchorsAt slotHistory state (slot :: slots) anchor) :
    AnchorsAt slotHistory (advance slotHistory state slot) slots anchor ∧
      (advance slotHistory state slot).anchoredSlot.isNone = decide (anchor < slot) ∧
      (slot < anchor → state.anchoredSlot.isSome) := by
  obtain ⟨found, anchored | ⟨unanchored, member, newest⟩⟩ := anchors
  · have below := coherent.belowAnchor anchor anchored slot List.mem_cons_self
    have kept : (advance slotHistory state slot).anchoredSlot = some anchor := by
      simp [advance, anchored]
    refine ⟨⟨found, Or.inl kept⟩, ?_, fun _ => by simp [anchored]⟩
    rw [kept]
    simp [UInt64.not_lt.mpr below]
  · -- the anchor is this slot or an older one, and no slot newer than it is found
    have atOrBelow : anchor = slot ∨ anchor < slot ∧ anchor ∈ slots := by
      rcases List.mem_cons.mp member with same | later
      · exact Or.inl same
      · rcases (List.pairwise_cons.mp coherent.ordered).1 anchor later with below | ⟨same, -⟩
        · exact Or.inr ⟨below, later⟩
        · exact Or.inl same
    by_cases here : slotHistory.check slot = .found
    · have same : anchor = slot := by
        rcases atOrBelow with same | ⟨below, -⟩
        · exact same
        · exact absurd here (newest slot List.mem_cons_self below)
      have kept : (advance slotHistory state slot).anchoredSlot = some slot := by
        simp [advance, unanchored, here]
      refine ⟨⟨found, Or.inl (same ▸ kept)⟩, by rw [kept, same]; simp, ?_⟩
      intro below
      rw [same] at below
      exact absurd below (UInt64.lt_irrefl slot)
    · have newer : anchor < slot ∧ anchor ∈ slots := by
        rcases atOrBelow with same | newer
        · rw [same] at found
          exact absurd found here
        · exact newer
      have kept : (advance slotHistory state slot).anchoredSlot = none := by
        simp [advance, unanchored, here]
      refine ⟨⟨found, Or.inr ⟨kept, newer.2, fun older member => newest older
        (List.mem_cons_of_mem _ member)⟩⟩, by rw [kept]; simp [newer.1], ?_⟩
      intro below
      exact absurd (UInt64.lt_trans below newer.1) (UInt64.lt_irrefl slot)

/-- From a coherent state, the loop fails exactly when a slot older than the anchor is missing
from the history, and otherwise flags the slots newer than the anchor. -/
theorem run_of_anchorsAt {state : AdjustLoop} {slots : List Slot} {anchor : Slot}
    (coherent : Coherent towerRoot slotHistory state slots)
    (anchors : AnchorsAt slotHistory state slots anchor) :
    ∃ result, run towerRoot slotHistory state slots = some result ∧
      ((∃ slot ∈ slots, slot < anchor ∧ slotHistory.check slot = .notFound) →
        result = .error (.fatallyInconsistent .divergedAncestor)) ∧
      (∀ error, result = .error error →
        ∃ slot ∈ slots, slot < anchor ∧ slotHistory.check slot = .notFound) ∧
      ∀ final, result = .ok final → final.anchoredSlot = some anchor ∧
        final.retainFlagsForEachVoteInReverse =
          state.retainFlagsForEachVoteInReverse ++ slots.map fun slot => decide (anchor < slot) := by
  induction slots generalizing state with
  | nil =>
      refine ⟨.ok state, rfl, by simp, by simp, ?_⟩
      intro final done
      cases done
      obtain ⟨-, anchored | ⟨-, absent, -⟩⟩ := anchors
      · exact ⟨anchored, by simp⟩
      · simp at absent
  | cons slot slots ih =>
      by_cases diverged : state.anchoredSlot.isSome ∧ slotHistory.check slot = .notFound
      · -- anchored already, and this slot is missing from the history
        obtain ⟨anchored, missing⟩ := diverged
        obtain ⟨found, anchoredAt | ⟨unanchored, -⟩⟩ := anchors
        · have below : slot < anchor := by
            apply UInt64.lt_of_le_of_ne (coherent.belowAnchor anchor anchoredAt slot List.mem_cons_self)
            intro same
            rw [same, found] at missing
            cases missing
          refine ⟨_, by rw [run, step_of_diverged anchoredAt missing], fun _ => rfl,
            fun _ _ => ⟨slot, List.mem_cons_self, below, missing⟩, fun final done => by cases done⟩
        · rw [unanchored] at anchored
          cases anchored
      · obtain ⟨anchorsNext, flag, anchoredBelow⟩ := advance_anchorsAt coherent anchors
        obtain ⟨result, ran, diverges, onlyDiverges, flags⟩ :=
          ih (coherent_advance coherent) anchorsNext
        refine ⟨result, by rw [run, step_eq_advance coherent diverged]; exact ran, ?_, ?_, ?_⟩
        · rintro ⟨older, member, below, missing⟩
          rcases List.mem_cons.mp member with same | member
          · subst same
            exact absurd ⟨anchoredBelow below, missing⟩ diverged
          · exact diverges ⟨older, member, below, missing⟩
        · intro error failed
          obtain ⟨older, member, rest⟩ := onlyDiverges error failed
          exact ⟨older, List.mem_cons_of_mem _ member, rest⟩
        · intro final done
          obtain ⟨anchored, flagged⟩ := flags final done
          refine ⟨anchored, ?_⟩
          rw [flagged, List.map_cons, ← flag]
          simp [advance]

/-- With no slot to come that the history holds, the loop never anchors and raises nothing. -/
theorem run_of_none_found {state : AdjustLoop} {slots : List Slot}
    (coherent : Coherent towerRoot slotHistory state slots) (unanchored : state.anchoredSlot = none)
    (absent : ∀ slot ∈ slots, slotHistory.check slot ≠ .found) :
    ∃ final, run towerRoot slotHistory state slots = some (.ok final) ∧ final.anchoredSlot = none := by
  induction slots generalizing state with
  | nil => exact ⟨state, rfl, unanchored⟩
  | cons slot slots ih =>
      have kept : ¬ (state.anchoredSlot.isSome ∧ slotHistory.check slot = .notFound) := by
        simp [unanchored]
      have stillUnanchored : (advance slotHistory state slot).anchoredSlot = none := by
        simp [advance, unanchored, absent slot List.mem_cons_self]
      obtain ⟨final, ran, none⟩ := ih (coherent_advance coherent) stillUnanchored
        fun older member => absent older (List.mem_cons_of_mem _ member)
      exact ⟨final, by rw [run, step_eq_advance coherent kept]; exact ran, none⟩

end AdjustLoop

theorem retainWithFlags_map (votes : List Lockout) (keep : Lockout → Bool) :
    retainWithFlags votes (votes.map keep) = some (votes.filter keep) := by
  induction votes with
  | nil => rfl
  | cons vote votes ih =>
      rw [List.map_cons, retainWithFlags, ih, List.filter_cons]
      cases keep vote <;> rfl

namespace Tower

theorem lastVotedSlot_eq (self : Tower) : self.lastVotedSlot = some self.lastVote.lastVotedSlot := by
  unfold lastVotedSlot
  cases self.lastVote with
  | vote slots =>
      cases slots using List.reverseRecOn with
      | nil => rfl
      | append_singleton slots last =>
          simp [VoteTransaction.isEmpty, VoteTransaction.slot, VoteTransaction.len,
            VoteTransaction.lastVotedSlot]
  | voteStateUpdate lockouts | compactVoteStateUpdate lockouts | towerSync lockouts =>
      cases lockouts using List.reverseRecOn with
      | nil => rfl
      | append_singleton lockouts last =>
          simp [VoteTransaction.isEmpty, VoteTransaction.slot, VoteTransaction.len,
            VoteTransaction.lastVotedSlot]

/-- The tower the claim expects once anchored at `anchor`: the votes above it, in order and
unchanged, the root kept, and the last vote reset once no vote is left, or else recorded as the
stray restored slot. -/
def restoredFrom (self : Tower) (anchor : Slot) : Tower :=
  let votes := self.voteState.votes.filter fun vote => anchor < vote.slot
  if votes.isEmpty then
    { self with voteState := { self.voteState with votes }, lastVote := .defaultVote }
  else
    { self with
      voteState := { self.voteState with votes }
      strayRestoredSlot := self.lastVote.lastVotedSlot }

end Tower

/-- `anchor` is the newest of `slots` that the history holds. -/
def IsNewestFound (slotHistory : SlotHistory) (slots : List Slot) (anchor : Slot) : Prop :=
  anchor ∈ slots ∧ slotHistory.check anchor = .found ∧
    ∀ slot ∈ slots, slotHistory.check slot = .found → slot ≤ anchor

theorem exists_isNewestFound {slotHistory : SlotHistory} {slots : List Slot}
    (found : ∃ slot ∈ slots, slotHistory.check slot = .found) :
    ∃ anchor, IsNewestFound slotHistory slots anchor := by
  induction slots with
  | nil => simp at found
  | cons slot slots ih =>
      by_cases later : ∃ older ∈ slots, slotHistory.check older = .found
      · obtain ⟨anchor, member, anchorFound, newest⟩ := ih later
        by_cases here : slotHistory.check slot = .found ∧ anchor ≤ slot
        · refine ⟨slot, List.mem_cons_self, here.1, ?_⟩
          intro other member otherFound
          rcases List.mem_cons.mp member with same | member
          · rw [same]
            exact UInt64.le_refl _
          · exact UInt64.le_trans (newest other member otherFound) here.2
        · refine ⟨anchor, List.mem_cons_of_mem _ member, anchorFound, ?_⟩
          intro other member otherFound
          rcases List.mem_cons.mp member with same | member
          · subst same
            exact UInt64.le_of_lt (UInt64.not_le.mp fun le => here ⟨otherFound, le⟩)
          · exact newest other member otherFound
      · obtain ⟨slot', member, slotFound⟩ := found
        have same : slot' = slot := by
          rcases List.mem_cons.mp member with same | member
          · exact same
          · exact absurd ⟨slot', member, slotFound⟩ later
        subst same
        refine ⟨slot', List.mem_cons_self, slotFound, ?_⟩
        intro other member otherFound
        rcases List.mem_cons.mp member with same | member
        · rw [same]
          exact UInt64.le_refl _
        · exact absurd ⟨other, member, otherFound⟩ later

namespace Tower

variable (self : Tower) (slotHistory : SlotHistory) {root : Slot}

/-- The loop starts coherent with the votes newest first and then the root, when the votes rise
from the root. -/
theorem coherent_init (sorted : self.votedSlots.Pairwise (· < ·))
    (aboveRoot : ∀ slot ∈ self.votedSlots, root ≤ slot) :
    AdjustLoop.Coherent root slotHistory AdjustLoop.init (root :: self.votedSlots).reverse := by
  refine ⟨?_, by simp [AdjustLoop.init], by simp [AdjustLoop.init], by simp [AdjustLoop.init],
    by simp [AdjustLoop.init]⟩
  rw [List.pairwise_reverse, List.pairwise_cons]
  refine ⟨fun slot member => ?_, sorted.imp Or.inl⟩
  rcases UInt64.lt_or_eq_of_le (aboveRoot slot member) with below | same
  · exact Or.inl below
  · exact Or.inr ⟨same, rfl⟩

theorem adjust_of_error (rooted : self.voteState.rootSlot = some root) {error : TowerError}
    (ran : AdjustLoop.run root slotHistory .init (root :: self.votedSlots).reverse =
      some (.error error)) :
    self.adjustLockoutsWithSlotHistory slotHistory = some (.error error) := by
  unfold adjustLockoutsWithSlotHistory
  simp only [Tower.root, rooted, Option.bind_eq_bind, Option.bind_some, ran]
  rfl

theorem adjust_of_unanchored (rooted : self.voteState.rootSlot = some root) {final : AdjustLoop}
    (ran : AdjustLoop.run root slotHistory .init (root :: self.votedSlots).reverse =
      some (.ok final))
    (unanchored : final.anchoredSlot = none) :
    self.adjustLockoutsWithSlotHistory slotHistory =
      some (.error (.fatallyInconsistent .noCommonSlotForRootedTower)) := by
  unfold adjustLockoutsWithSlotHistory
  simp only [Tower.root, rooted, Option.bind_eq_bind, Option.bind_some, ran]
  simp [unanchored]

/-- Anchored, the loop's flags keep the votes above the anchor, and the last vote is still the
newest of them. -/
theorem adjust_of_anchored (rooted : self.voteState.rootSlot = some root)
    (sorted : self.votedSlots.Pairwise (· < ·))
    (lastVote : self.lastVote.lastVotedSlot = self.votedSlots.getLast?)
    {final : AdjustLoop} {anchor : Slot}
    (ran : AdjustLoop.run root slotHistory .init (root :: self.votedSlots).reverse =
      some (.ok final))
    (anchored : final.anchoredSlot = some anchor)
    (flagged : final.retainFlagsForEachVoteInReverse =
      (root :: self.votedSlots).reverse.map fun slot => decide (anchor < slot)) :
    self.adjustLockoutsWithSlotHistory slotHistory = some (.ok (self.restoredFrom anchor)) := by
  -- the flag for the root is popped, and the rest, oldest first, are the votes' flags
  have flags : final.retainFlagsForEachVoteInReverse.dropLast.reverse =
      self.voteState.votes.map fun vote => decide (anchor < vote.slot) := by
    rw [flagged, List.reverse_cons, List.map_append, List.map_singleton, List.dropLast_concat,
      List.map_reverse, List.reverse_reverse, votedSlots, List.map_map]
    rfl
  have length : (root :: self.votedSlots).length = final.retainFlagsForEachVoteInReverse.length := by
    rw [flagged]
    simp
  unfold adjustLockoutsWithSlotHistory
  simp only [Tower.root, rooted, Option.bind_eq_bind, Option.bind_some, ran]
  simp only [anchored, Option.isNone_some, Bool.false_eq_true, if_false, length, ne_eq,
    not_true_eq_false, flags, retainWithFlags_map, restoredFrom, Option.bind_some, Option.pure_def]
  split
  · rw [rooted]
  · case isFalse kept =>
      -- a vote is kept, so the newest vote is, and it is the last vote's slot
      have filtered : (self.voteState.votes.filter fun vote => decide (anchor < vote.slot)).map
          (·.slot) = self.votedSlots.filter fun slot => decide (anchor < slot) := by
        rw [votedSlots, List.filter_map]
        rfl
      have newest : ((self.voteState.votes.filter fun vote => decide (anchor < vote.slot)).map
          (·.slot)).getLast? = self.votedSlots.getLast? := by
        rw [filtered]
        apply getLast?_filter_of_pairwise sorted
        · intro earlier later below above
          simp only [decide_eq_true_eq] at above ⊢
          exact UInt64.lt_trans above below
        · rw [← filtered]
          simpa using kept
      simp only [lastVotedSlot_eq, votedSlots, newest, lastVote, Option.bind_some, if_false,
        not_true_eq_false]
      rw [rooted]

/-- With no slot of the tower in the history, restoring fails for want of a common slot. -/
theorem adjust_of_none_found (rooted : self.voteState.rootSlot = some root)
    (sorted : self.votedSlots.Pairwise (· < ·)) (aboveRoot : ∀ slot ∈ self.votedSlots, root ≤ slot)
    (absent : ∀ slot ∈ root :: self.votedSlots, slotHistory.check slot ≠ .found) :
    self.adjustLockoutsWithSlotHistory slotHistory =
      some (.error (.fatallyInconsistent .noCommonSlotForRootedTower)) := by
  obtain ⟨final, ran, unanchored⟩ :=
    AdjustLoop.run_of_none_found (self.coherent_init slotHistory sorted aboveRoot) rfl
      fun slot member => absent slot (List.mem_reverse.mp member)
  exact self.adjust_of_unanchored slotHistory rooted ran unanchored

/-- Anchored at the newest slot found, restoring fails exactly when an older slot is missing,
and otherwise keeps the votes above the anchor. -/
theorem adjust_of_isNewestFound (rooted : self.voteState.rootSlot = some root)
    (sorted : self.votedSlots.Pairwise (· < ·)) (aboveRoot : ∀ slot ∈ self.votedSlots, root ≤ slot)
    (lastVote : self.lastVote.lastVotedSlot = self.votedSlots.getLast?) {anchor : Slot}
    (newest : IsNewestFound slotHistory (root :: self.votedSlots) anchor) :
    ((∃ slot ∈ root :: self.votedSlots, slot < anchor ∧ slotHistory.check slot = .notFound) →
      self.adjustLockoutsWithSlotHistory slotHistory =
        some (.error (.fatallyInconsistent .divergedAncestor))) ∧
    ((∀ slot ∈ root :: self.votedSlots, slot < anchor → slotHistory.check slot ≠ .notFound) →
      self.adjustLockoutsWithSlotHistory slotHistory = some (.ok (self.restoredFrom anchor))) := by
  obtain ⟨member, found, largest⟩ := newest
  -- walking newest first, the newest slot found is the first found
  have anchors : AdjustLoop.AnchorsAt slotHistory .init (root :: self.votedSlots).reverse anchor := by
    refine ⟨found, Or.inr ⟨rfl, List.mem_reverse.mpr member, ?_⟩⟩
    intro slot later newer slotFound
    exact UInt64.not_le.mpr newer (largest slot (List.mem_reverse.mp later) slotFound)
  obtain ⟨result, ran, diverges, onlyDiverges, flags⟩ :=
    AdjustLoop.run_of_anchorsAt (self.coherent_init slotHistory sorted aboveRoot) anchors
  constructor
  · rintro ⟨slot, member, below, missing⟩
    rw [diverges ⟨slot, List.mem_reverse.mpr member, below, missing⟩] at ran
    exact self.adjust_of_error slotHistory rooted ran
  · intro complete
    cases result with
    | error error =>
        obtain ⟨slot, member, below, missing⟩ := onlyDiverges error rfl
        exact absurd missing (complete slot (List.mem_reverse.mp member) below)
    | ok final =>
        obtain ⟨anchored, flagged⟩ := flags final rfl
        rw [AdjustLoop.init, List.nil_append] at flagged
        exact self.adjust_of_anchored slotHistory rooted sorted lastVote ran anchored flagged

/-- Restoring ends one of three ways: no slot found, an ancestor missing, or anchored. -/
theorem adjust_cases (rooted : self.voteState.rootSlot = some root)
    (sorted : self.votedSlots.Pairwise (· < ·)) (aboveRoot : ∀ slot ∈ self.votedSlots, root ≤ slot)
    (lastVote : self.lastVote.lastVotedSlot = self.votedSlots.getLast?) :
    self.adjustLockoutsWithSlotHistory slotHistory =
        some (.error (.fatallyInconsistent .noCommonSlotForRootedTower)) ∨
      self.adjustLockoutsWithSlotHistory slotHistory =
        some (.error (.fatallyInconsistent .divergedAncestor)) ∨
      ∃ anchor, self.adjustLockoutsWithSlotHistory slotHistory =
        some (.ok (self.restoredFrom anchor)) := by
  by_cases found : ∃ slot ∈ root :: self.votedSlots, slotHistory.check slot = .found
  · obtain ⟨anchor, newest⟩ := exists_isNewestFound found
    obtain ⟨diverges, restores⟩ :=
      self.adjust_of_isNewestFound slotHistory rooted sorted aboveRoot lastVote newest
    by_cases diverged :
        ∃ slot ∈ root :: self.votedSlots, slot < anchor ∧ slotHistory.check slot = .notFound
    · exact Or.inr (Or.inl (diverges diverged))
    · refine Or.inr (Or.inr ⟨anchor, restores ?_⟩)
      intro slot member below missing
      exact diverged ⟨slot, member, below, missing⟩
  · refine Or.inl (self.adjust_of_none_found slotHistory rooted sorted aboveRoot ?_)
    intro slot member slotFound
    exact found ⟨slot, member, slotFound⟩

end Tower

theorem adjustLockoutsWithSlotHistory_keeps_votes_above_anchor (self : Tower)
    (slotHistory : SlotHistory) {root : Slot} (rooted : self.voteState.rootSlot = some root)
    (sorted : self.votedSlots.Pairwise (· < ·)) (aboveRoot : ∀ slot ∈ self.votedSlots, root ≤ slot)
    (lastVote : self.lastVote.lastVotedSlot = self.votedSlots.getLast?) :
    (∃ result, self.adjustLockoutsWithSlotHistory slotHistory = some result) ∧
    (∀ message, self.adjustLockoutsWithSlotHistory slotHistory =
        some (.error (.fatallyInconsistent message)) →
      message = .divergedAncestor ∨ message = .noCommonSlotForRootedTower) ∧
    ((∀ slot ∈ root :: self.votedSlots, slotHistory.check slot ≠ .found) →
      self.adjustLockoutsWithSlotHistory slotHistory =
        some (.error (.fatallyInconsistent .noCommonSlotForRootedTower))) ∧
    ∀ anchor, IsNewestFound slotHistory (root :: self.votedSlots) anchor →
      ((∃ slot ∈ root :: self.votedSlots, slot < anchor ∧ slotHistory.check slot = .notFound) →
        self.adjustLockoutsWithSlotHistory slotHistory =
          some (.error (.fatallyInconsistent .divergedAncestor))) ∧
      ((∀ slot ∈ root :: self.votedSlots, slot < anchor → slotHistory.check slot ≠ .notFound) →
        self.adjustLockoutsWithSlotHistory slotHistory = some (.ok (self.restoredFrom anchor))) := by
  have ended := self.adjust_cases slotHistory rooted sorted aboveRoot lastVote
  refine ⟨?_, ?_, self.adjust_of_none_found slotHistory rooted sorted aboveRoot,
    fun anchor newest => self.adjust_of_isNewestFound slotHistory rooted sorted aboveRoot lastVote
      newest⟩
  · rcases ended with failed | failed | ⟨anchor, restored⟩
    · exact ⟨_, failed⟩
    · exact ⟨_, failed⟩
    · exact ⟨_, restored⟩
  · intro message failed
    rcases ended with other | other | ⟨anchor, restored⟩
    · rw [failed] at other
      cases other
      exact Or.inr rfl
    · rw [failed] at other
      cases other
      exact Or.inl rfl
    · rw [failed] at restored
      cases restored

theorem adjustLockoutsWithSlotHistory_keeps_votes_above_anchor_of_three_votes :
    let tower : Tower := ⟨⟨[⟨6, 3⟩, ⟨8, 2⟩, ⟨9, 1⟩], some 5⟩, .vote [6, 8, 9], none⟩
    let history : SlotHistory := ⟨8, 0, fun slot => slot == 5 || slot == 6 || slot == 8⟩
    tower.voteState.rootSlot = some 5 ∧ tower.votedSlots.Pairwise (· < ·) ∧
      (∀ slot ∈ tower.votedSlots, 5 ≤ slot) ∧
      tower.lastVote.lastVotedSlot = tower.votedSlots.getLast? ∧
      tower.adjustLockoutsWithSlotHistory history = some (.ok (tower.restoredFrom 8)) := by
  intro tower history
  have rooted : tower.voteState.rootSlot = some 5 := rfl
  have sorted : tower.votedSlots.Pairwise (· < ·) := by simp [tower, Tower.votedSlots]
  have aboveRoot : ∀ slot ∈ tower.votedSlots, 5 ≤ slot := by simp [tower, Tower.votedSlots]
  have lastVote : tower.lastVote.lastVotedSlot = tower.votedSlots.getLast? := rfl
  have newest : IsNewestFound history (5 :: tower.votedSlots) 8 := by
    simp [IsNewestFound, tower, Tower.votedSlots, history, SlotHistory.check]
  have complete : ∀ slot ∈ 5 :: tower.votedSlots, slot < 8 → history.check slot ≠ .notFound := by
    simp [tower, Tower.votedSlots, history, SlotHistory.check]
  exact ⟨rooted, sorted, aboveRoot, lastVote,
    ((adjustLockoutsWithSlotHistory_keeps_votes_above_anchor tower history rooted sorted aboveRoot
      lastVote).2.2.2 8 newest).2 complete⟩

end Validator.Consensus
