import Mathlib.Data.List.Basic
import Mathlib.Data.List.Infix
import Mathlib.Data.List.TakeWhile
import Mathlib.Data.List.DropRight

namespace Validator.Data

/-! # First-come grants of a readers-writer resource

Requests for one resource wait in a queue in arrival order.  Each request asks for the
resource either shared or exclusively.  The granted requests are the longest prefix of the
queue whose members can hold the resource together: one exclusive request, or a run of
shared ones.  Everything behind that prefix waits.

Nothing here is specific to a scheduler: a request is any value, and `shared` says how it
asks for the resource.
-/

section
variable {ι : Type*} (shared : ι → Bool)

/-- The requests that hold the resource: the longest prefix that can hold it together. -/
def grantedPrefix : List ι → List ι
  | [] => []
  | request :: rest => if shared request then request :: rest.takeWhile shared else [request]

/-- The requests that wait behind `grantedPrefix`. -/
def waitingSuffix : List ι → List ι
  | [] => []
  | request :: rest => if shared request then rest.dropWhile shared else rest

/-- Requests that can hold the resource at the same time. -/
def Compatible (granted : List ι) : Prop :=
  (∀ request ∈ granted, shared request = true) ∨ granted.length ≤ 1

/-- A request can join the holders `granted` when nobody holds the resource, or when it and
all holders ask for it shared. -/
def Joinable (granted : List ι) (request : ι) : Prop :=
  granted = [] ∨ (shared request = true ∧ ∀ holder ∈ granted, shared holder = true)

instance (granted : List ι) (request : ι) : Decidable (Joinable shared granted request) :=
  inferInstanceAs (Decidable (_ ∨ _))

/-- A new request is granted on arrival: nobody waits, and it can join the holders. -/
def Admitted (requests : List ι) (request : ι) : Prop :=
  waitingSuffix shared requests = [] ∧ Joinable shared requests request

instance (requests : List ι) (request : ι) : Decidable (Admitted shared requests request) :=
  inferInstanceAs (Decidable (_ ∧ _))

/-- The waiting requests that a leaving holder lets in: if it held the resource alone, the
front of the queue that can hold the resource together. -/
def releasedTo (requests : List ι) : List ι :=
  if (grantedPrefix shared requests).length = 1 then
    grantedPrefix shared (waitingSuffix shared requests)
  else []

variable {shared}

@[simp] theorem grantedPrefix_nil : grantedPrefix shared ([] : List ι) = [] := rfl

@[simp] theorem waitingSuffix_nil : waitingSuffix shared ([] : List ι) = [] := rfl

theorem grantedPrefix_append_waitingSuffix (requests : List ι) :
    grantedPrefix shared requests ++ waitingSuffix shared requests = requests := by
  cases requests with
  | nil => rfl
  | cons request rest =>
      by_cases isShared : shared request = true
      · simp [grantedPrefix, waitingSuffix, isShared]
      · simp [grantedPrefix, waitingSuffix, isShared]

theorem grantedPrefix_isPrefix (requests : List ι) :
    grantedPrefix shared requests <+: requests :=
  ⟨_, grantedPrefix_append_waitingSuffix requests⟩

theorem waitingSuffix_isSuffix (requests : List ι) :
    waitingSuffix shared requests <:+ requests :=
  ⟨_, grantedPrefix_append_waitingSuffix requests⟩

theorem mem_of_mem_grantedPrefix {requests : List ι} {request : ι}
    (granted : request ∈ grantedPrefix shared requests) : request ∈ requests :=
  (grantedPrefix_isPrefix requests).subset granted

theorem mem_of_mem_waitingSuffix {requests : List ι} {request : ι}
    (waiting : request ∈ waitingSuffix shared requests) : request ∈ requests := by
  have split : grantedPrefix shared requests ++ waitingSuffix shared requests = requests :=
    grantedPrefix_append_waitingSuffix requests
  rw [← split]
  exact List.mem_append_right _ waiting

@[simp] theorem grantedPrefix_eq_nil_iff {requests : List ι} :
    grantedPrefix shared requests = [] ↔ requests = [] := by
  cases requests with
  | nil => simp
  | cons request rest =>
      by_cases isShared : shared request = true
      · simp [grantedPrefix, isShared]
      · simp [grantedPrefix, isShared]

theorem head_mem_grantedPrefix (request : ι) (rest : List ι) :
    request ∈ grantedPrefix shared (request :: rest) := by
  by_cases isShared : shared request = true
  · simp [grantedPrefix, isShared]
  · simp [grantedPrefix, isShared]

/-- The front request never waits. -/
theorem waitingSuffix_cons_sublist (request : ι) (rest : List ι) :
    List.Sublist (waitingSuffix shared (request :: rest)) rest := by
  by_cases isShared : shared request = true
  · simp only [waitingSuffix, isShared, if_true]
    exact (List.dropWhile_suffix _).sublist
  · simp only [waitingSuffix, isShared]
    exact List.Sublist.refl rest

/-- The granted requests can hold the resource together. -/
theorem grantedPrefix_compatible (requests : List ι) :
    Compatible shared (grantedPrefix shared requests) := by
  cases requests with
  | nil => exact .inr (by simp)
  | cons request rest =>
      by_cases isShared : shared request = true
      · left
        intro holder member
        simp only [grantedPrefix, isShared, if_true, List.mem_cons] at member
        rcases member with rfl | member
        · exact isShared
        · exact List.mem_takeWhile_imp member
      · right
        simp [grantedPrefix, isShared]

/-- Nobody waits while the resource is free. -/
theorem waitingSuffix_eq_nil_of_grantedPrefix_eq_nil {requests : List ι}
    (free : grantedPrefix shared requests = []) : waitingSuffix shared requests = [] := by
  rw [grantedPrefix_eq_nil_iff.mp free]
  rfl

/-- While nobody waits, every request holds the resource. -/
theorem grantedPrefix_of_waitingSuffix_eq_nil {requests : List ι}
    (noWaiting : waitingSuffix shared requests = []) : grantedPrefix shared requests = requests := by
  have split : grantedPrefix shared requests ++ waitingSuffix shared requests = requests :=
    grantedPrefix_append_waitingSuffix requests
  simpa [noWaiting] using split

/-- The first waiting request could not have joined the holders. -/
theorem not_joinable_of_waitingSuffix_eq_cons {requests rest : List ι} {front : ι}
    (waiting : waitingSuffix shared requests = front :: rest) :
    ¬ Joinable shared (grantedPrefix shared requests) front := by
  cases requests with
  | nil => simp at waiting
  | cons request tail =>
      by_cases isShared : shared request = true
      · simp only [waitingSuffix, isShared, if_true] at waiting
        have frontExclusive : shared front = false := by
          have head := List.head_dropWhile_not shared (l := tail) (by simp [waiting])
          simpa [waiting] using head
        rintro (empty | ⟨frontShared, _⟩)
        · simp [grantedPrefix, isShared] at empty
        · simp [frontShared] at frontExclusive
      · rintro (empty | ⟨_, allShared⟩)
        · simp [grantedPrefix, isShared] at empty
        · exact isShared (allShared request (head_mem_grantedPrefix request tail))

/-- Behind a waiting request, a new request waits too. -/
theorem grantedPrefix_append_of_waiting {requests : List ι} (request : ι)
    (waiting : waitingSuffix shared requests ≠ []) :
    grantedPrefix shared (requests ++ [request]) = grantedPrefix shared requests ∧
      waitingSuffix shared (requests ++ [request]) =
        waitingSuffix shared requests ++ [request] := by
  cases requests with
  | nil => simp at waiting
  | cons first rest =>
      by_cases isShared : shared first = true
      · simp only [waitingSuffix, isShared, if_true, ne_eq] at waiting
        have notAll : ¬ ∀ element ∈ rest, shared element = true := by
          intro allShared
          exact waiting (List.dropWhile_eq_nil_iff.mpr allShared)
        have short : (rest.takeWhile shared).length ≠ rest.length := by
          intro same
          exact notAll (List.takeWhile_eq_self_iff.mp
            (List.IsPrefix.eq_of_length (List.takeWhile_prefix shared) same))
        have dropped : ¬ (rest.dropWhile shared).isEmpty := by
          simpa [List.isEmpty_iff] using waiting
        simp [grantedPrefix, waitingSuffix, isShared, List.takeWhile_append, short,
          List.dropWhile_append, dropped]
      · simp [grantedPrefix, waitingSuffix, isShared]

/-- With nobody waiting, a new request joins the holders exactly when it is joinable. -/
theorem grantedPrefix_append_of_no_waiting {requests : List ι} (request : ι)
    (noWaiting : waitingSuffix shared requests = []) :
    grantedPrefix shared (requests ++ [request]) =
        (if Joinable shared requests request then requests ++ [request] else requests) ∧
      waitingSuffix shared (requests ++ [request]) =
        (if Joinable shared requests request then [] else [request]) := by
  have allGranted := grantedPrefix_of_waitingSuffix_eq_nil noWaiting
  cases requests with
  | nil =>
      by_cases isShared : shared request = true
      · simp [grantedPrefix, waitingSuffix, isShared, Joinable]
      · simp [grantedPrefix, waitingSuffix, isShared, Joinable]
  | cons first rest =>
      by_cases firstShared : shared first = true
      · have restShared : ∀ element ∈ rest, shared element = true := by
          simp only [waitingSuffix, firstShared, if_true] at noWaiting
          exact List.dropWhile_eq_nil_iff.mp noWaiting
        have joinable : Joinable shared (first :: rest) request ↔ shared request = true := by
          simp only [Joinable, reduceCtorEq, List.mem_cons, false_or, forall_eq_or_imp,
            firstShared, true_and]
          exact ⟨fun both => both.1, fun isShared => ⟨isShared, restShared⟩⟩
        by_cases isShared : shared request = true
        · simp [grantedPrefix, waitingSuffix, firstShared, joinable, isShared,
            List.takeWhile_append_of_pos restShared, List.dropWhile_append_of_pos restShared]
        · simp [grantedPrefix, waitingSuffix, firstShared, joinable, isShared,
            List.takeWhile_append_of_pos restShared, List.dropWhile_append_of_pos restShared]
      · have single : rest = [] := by
          simpa [grantedPrefix, firstShared] using allGranted
        subst single
        have notJoinable : ¬ Joinable shared [first] request := by
          simp [Joinable, firstShared]
        simp [grantedPrefix, waitingSuffix, firstShared, notJoinable]

/-- A new request joins the holders if it is admitted, and waits at the back otherwise. -/
theorem grantedPrefix_append_singleton (requests : List ι) (request : ι) :
    grantedPrefix shared (requests ++ [request]) =
      grantedPrefix shared requests ++ if Admitted shared requests request then [request] else [] := by
  by_cases noWaiting : waitingSuffix shared requests = []
  · have appended := (grantedPrefix_append_of_no_waiting request noWaiting).1
    rw [grantedPrefix_of_waitingSuffix_eq_nil noWaiting]
    by_cases joinable : Joinable shared requests request
    · simp [appended, Admitted, noWaiting, joinable]
    · simp [appended, Admitted, joinable]
  · have notAdmitted : ¬ Admitted shared requests request := fun admitted => noWaiting admitted.1
    simp [notAdmitted, (grantedPrefix_append_of_waiting request noWaiting).1]

theorem waitingSuffix_append_singleton (requests : List ι) (request : ι) :
    waitingSuffix shared (requests ++ [request]) =
      waitingSuffix shared requests ++ if Admitted shared requests request then [] else [request] := by
  by_cases noWaiting : waitingSuffix shared requests = []
  · have appended := (grantedPrefix_append_of_no_waiting request noWaiting).2
    by_cases joinable : Joinable shared requests request
    · simp [appended, Admitted, noWaiting, joinable]
    · simp [appended, Admitted, noWaiting, joinable]
  · have notAdmitted : ¬ Admitted shared requests request := fun admitted => noWaiting admitted.1
    simp [notAdmitted, (grantedPrefix_append_of_waiting request noWaiting).2]

/-- When the only holder leaves, the queue behind it is what remains. -/
theorem erase_eq_waitingSuffix_of_grantedPrefix_eq_singleton [BEq ι] [LawfulBEq ι]
    {requests : List ι} {holder : ι}
    (sole : grantedPrefix shared requests = [holder]) :
    requests.erase holder = waitingSuffix shared requests := by
  have split : grantedPrefix shared requests ++ waitingSuffix shared requests = requests :=
    grantedPrefix_append_waitingSuffix requests
  rw [sole] at split
  conv_lhs => rw [← split]
  simp

/-- When one of several shared holders leaves, the others keep the resource and the same
requests wait. -/
theorem grantedPrefix_erase_of_shared [BEq ι] [LawfulBEq ι] {requests : List ι} {holder : ι}
    (granted : holder ∈ grantedPrefix shared requests)
    (several : 2 ≤ (grantedPrefix shared requests).length) :
    grantedPrefix shared (requests.erase holder) = (grantedPrefix shared requests).erase holder ∧
      waitingSuffix shared (requests.erase holder) = waitingSuffix shared requests := by
  cases requests with
  | nil => simp at granted
  | cons first rest =>
      by_cases firstShared : shared first = true
      · simp only [grantedPrefix, firstShared, if_true, List.mem_cons] at granted several
        by_cases same : holder = first
        · subst holder
          -- The second holder heads the new queue and is shared.
          obtain ⟨second, tail, restEq⟩ : ∃ second tail, rest = second :: tail := by
            cases rest with
            | nil => simp at several
            | cons second tail => exact ⟨second, tail, rfl⟩
          subst rest
          have secondShared : shared second = true := by
            by_contra notShared
            simp [notShared] at several
          simp [grantedPrefix, waitingSuffix, firstShared, secondShared]
        · have inRest : holder ∈ rest.takeWhile shared := by
            rcases granted with rfl | inTake
            · exact absurd rfl same
            · exact inTake
          have split := List.takeWhile_append_dropWhile (p := shared) (l := rest)
          have takenShared : ∀ element ∈ (rest.takeWhile shared).erase holder,
              shared element = true := fun element member =>
            List.mem_takeWhile_imp (List.mem_of_mem_erase member)
          have erased : rest.erase holder =
              (rest.takeWhile shared).erase holder ++ rest.dropWhile shared := by
            conv_lhs => rw [← split]
            exact List.erase_append_left _ inRest
          have firstNe : first ≠ holder := fun equal => same equal.symm
          have headExclusive : ∀ nonempty : 0 < (rest.dropWhile shared).length,
              shared (rest.dropWhile shared)[0] = false := by
            intro nonempty
            have head := List.head_dropWhile_not shared (l := rest)
              (List.ne_nil_of_length_pos nonempty)
            simpa [List.head_eq_getElem] using head
          simp [grantedPrefix, waitingSuffix, firstShared, firstNe, erased,
            List.takeWhile_append_of_pos takenShared, List.dropWhile_append_of_pos takenShared,
            headExclusive]
      · simp [grantedPrefix, firstShared] at several

theorem two_le_length_of_mem_of_ne_singleton {granted : List ι} {holder : ι}
    (member : holder ∈ granted) (notSole : granted ≠ [holder]) : 2 ≤ granted.length := by
  match granted, member with
  | [_], member =>
      rw [List.mem_singleton] at member
      subst member
      exact absurd rfl notSole
  | _ :: _ :: _, _ => simp

/-- The requests a leaving holder lets in were waiting. -/
theorem releasedTo_sublist_waitingSuffix (requests : List ι) :
    List.Sublist (releasedTo shared requests) (waitingSuffix shared requests) := by
  unfold releasedTo
  split
  · exact (grantedPrefix_isPrefix _).sublist
  · exact List.nil_sublist _

/-- After a holder leaves, the other holders keep the resource and the requests it lets in
join them. -/
theorem grantedPrefix_erase [BEq ι] [LawfulBEq ι] {requests : List ι} {holder : ι}
    (granted : holder ∈ grantedPrefix shared requests) :
    grantedPrefix shared (requests.erase holder) =
      (grantedPrefix shared requests).erase holder ++ releasedTo shared requests := by
  by_cases sole : grantedPrefix shared requests = [holder]
  · rw [erase_eq_waitingSuffix_of_grantedPrefix_eq_singleton sole]
    simp [releasedTo, sole]
  · have several := two_le_length_of_mem_of_ne_singleton granted sole
    have notOne : (grantedPrefix shared requests).length ≠ 1 := by omega
    simp [releasedTo, notOne, (grantedPrefix_erase_of_shared granted several).1]

/-- The requests a leaving holder lets in are the front of the old waiting queue; the rest
still wait. -/
theorem releasedTo_append_waitingSuffix_erase [BEq ι] [LawfulBEq ι] {requests : List ι}
    {holder : ι} (granted : holder ∈ grantedPrefix shared requests) :
    releasedTo shared requests ++ waitingSuffix shared (requests.erase holder) =
      waitingSuffix shared requests := by
  by_cases sole : grantedPrefix shared requests = [holder]
  · rw [erase_eq_waitingSuffix_of_grantedPrefix_eq_singleton sole]
    simp [releasedTo, sole, grantedPrefix_append_waitingSuffix]
  · have several := two_le_length_of_mem_of_ne_singleton granted sole
    have notOne : (grantedPrefix shared requests).length ≠ 1 := by omega
    simp [releasedTo, notOne, (grantedPrefix_erase_of_shared granted several).2]

/-- In a queue where each request arrives once, the holders are the requests that do not
wait. -/
theorem filter_not_mem_waitingSuffix [BEq ι] [LawfulBEq ι] {requests : List ι}
    (distinct : requests.Nodup) :
    requests.filter (fun request => request ∉ waitingSuffix shared requests) =
      grantedPrefix shared requests := by
  have split : grantedPrefix shared requests ++ waitingSuffix shared requests = requests :=
    grantedPrefix_append_waitingSuffix requests
  have apart := distinct
  rw [← split, List.nodup_append] at apart
  calc requests.filter (fun request => request ∉ waitingSuffix shared requests)
      = (grantedPrefix shared requests ++ waitingSuffix shared requests).filter
          (fun request => request ∉ waitingSuffix shared requests) := by rw [split]
    _ = grantedPrefix shared requests := by
      have dropped : (waitingSuffix shared requests).filter
          (fun request => request ∉ waitingSuffix shared requests) = [] :=
        List.filter_eq_nil_iff.mpr (by simp)
      rw [List.filter_append, dropped, List.append_nil]
      apply List.filter_eq_self.mpr
      intro request granted
      simpa using fun waiting => apart.2.2 request granted request waiting rfl

/-- A granted request has every earlier request granted with it: grants follow arrival
order. -/
theorem mem_grantedPrefix_of_before {requests : List ι} {earlier later : ι}
    (distinct : requests.Nodup) (before : List.Sublist [earlier, later] requests)
    (granted : later ∈ grantedPrefix shared requests) :
    earlier ∈ grantedPrefix shared requests := by
  obtain ⟨waiting, split⟩ : grantedPrefix shared requests <+: requests :=
    grantedPrefix_isPrefix requests
  rw [← split] at before distinct
  rcases List.sublist_append_iff.mp before with ⟨left, right, pieces, inGranted, inWaiting⟩
  cases left with
  | nil =>
      -- Both lie in the waiting part, so `later` occurs twice.
      simp only [List.nil_append] at pieces
      subst pieces
      have laterWaiting : later ∈ waiting := inWaiting.subset (by simp)
      exact ((List.nodup_append.mp distinct).2.2 later granted later laterWaiting rfl).elim
  | cons first leftRest =>
      have headEq : first = earlier := by
        simp only [List.cons_append, List.cons.injEq] at pieces
        exact pieces.1.symm
      subst headEq
      exact inGranted.subset List.mem_cons_self

end

end Validator.Data
