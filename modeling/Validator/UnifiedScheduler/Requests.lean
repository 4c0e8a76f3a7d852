import Mathlib.Data.List.Nodup
import Validator.UnifiedScheduler.UsageQueue

namespace Validator.UnifiedScheduler

open Validator.Data

/-! # Requests of the active tasks

The scheduler keeps no list of its tasks: what it knows about a task is spread over the
queues of the addresses the task locks, and over the task's blocked-usage counter.  Here the
other side is made explicit.  A task's lock contexts give its requests for each address; the
active tasks, in scheduling order, give each address its list of requests (`requestsAt`); and
a task waits for as many of its lock contexts as sit in the waiting part of their address's
list (`waitCount`).

The session invariant says that each queue encodes its address's list and each counter is the
task's `waitCount`.  The lemmas here say how both sides move when a request is appended or
erased at one address.
-/

variable {α τ : Type} [DecidableEq α]

/-- The requests of a task with lock contexts `contexts` for `address`. -/
def requestsOf (contexts : List (LockContext α)) (task : τ) (address : α) :
    List (RequestedUsage × τ) :=
  (contexts.filter fun context => context.address = address).map fun context =>
    (context.requestedUsage, task)

/-- The requests for `address` of the tasks `active`, in their order. -/
def requestsAt (lockContexts : τ → List (LockContext α)) (active : List τ) (address : α) :
    List (RequestedUsage × τ) :=
  active.flatMap fun task => requestsOf (lockContexts task) task address

/-- The tasks that wait in a list of requests. -/
def waitingTasks (requests : List (RequestedUsage × τ)) : List τ :=
  (waitingSuffix readonlyUsage requests).map Prod.snd

/-- The tasks that a leaving holder lets in. -/
def releasedTasks (requests : List (RequestedUsage × τ)) : List τ :=
  (releasedTo readonlyUsage requests).map Prod.snd

/-- How many of its lock contexts `task` waits for, when each address has the requests
`requests`. -/
def waitCount [DecidableEq τ] (requests : α → List (RequestedUsage × τ))
    (contexts : List (LockContext α)) (task : τ) : Nat :=
  contexts.countP fun context => task ∈ waitingTasks (requests context.address)

/-- Lock contexts that name each address at most once, as `create_task` makes them from the
account keys of a sanitized transaction. -/
def DistinctAddresses (contexts : List (LockContext α)) : Prop :=
  (contexts.map LockContext.address).Nodup

instance (contexts : List (LockContext α)) : Decidable (DistinctAddresses contexts) :=
  inferInstanceAs (Decidable (List.Nodup _))

/-! ## One task's requests -/

@[simp] theorem requestsOf_nil (task : τ) (address : α) :
    requestsOf ([] : List (LockContext α)) task address = [] := rfl

theorem requestsOf_append (first second : List (LockContext α)) (task : τ) (address : α) :
    requestsOf (first ++ second) task address =
      requestsOf first task address ++ requestsOf second task address := by
  simp [requestsOf, List.filter_append]

theorem requestsOf_singleton (context : LockContext α) (task : τ) (address : α) :
    requestsOf [context] task address =
      if context.address = address then [(context.requestedUsage, task)] else [] := by
  by_cases here : context.address = address <;> simp [requestsOf, here]

theorem mem_requestsOf {contexts : List (LockContext α)} {task : τ} {address : α}
    {request : RequestedUsage × τ} :
    request ∈ requestsOf contexts task address ↔
      ∃ context ∈ contexts, context.address = address ∧
        request = (context.requestedUsage, task) := by
  simp only [requestsOf, List.mem_map, List.mem_filter, decide_eq_true_eq]
  constructor
  · rintro ⟨context, ⟨member, here⟩, rfl⟩
    exact ⟨context, member, here, rfl⟩
  · rintro ⟨context, member, here, rfl⟩
    exact ⟨context, ⟨member, here⟩, rfl⟩

theorem requestsOf_eq_nil {contexts : List (LockContext α)} {task : τ} {address : α}
    (absent : address ∉ contexts.map LockContext.address) :
    requestsOf contexts task address = [] := by
  rw [List.eq_nil_iff_forall_not_mem]
  intro request member
  obtain ⟨context, inContexts, here, -⟩ := mem_requestsOf.mp member
  exact absent (List.mem_map.mpr ⟨context, inContexts, here⟩)

/-- With distinct addresses, a task has one request at each of its addresses. -/
theorem requestsOf_of_mem {contexts : List (LockContext α)} (distinct : DistinctAddresses contexts)
    {context : LockContext α} (member : context ∈ contexts) (task : τ) :
    requestsOf contexts task context.address = [(context.requestedUsage, task)] := by
  induction contexts with
  | nil => simp at member
  | cons first rest ih =>
      obtain ⟨firstAbsent, restDistinct⟩ := List.nodup_cons.mp distinct
      rw [show first :: rest = [first] ++ rest from rfl, requestsOf_append, requestsOf_singleton]
      rcases List.mem_cons.mp member with rfl | inRest
      · have none : requestsOf rest task context.address = [] := requestsOf_eq_nil firstAbsent
        simp [none]
      · have differ : first.address ≠ context.address := fun same =>
          firstAbsent (same ▸ List.mem_map_of_mem inRest)
        simp [differ, ih restDistinct inRest]

/-- With distinct addresses, a task has at most one request at any address. -/
theorem requestsOf_eq_nil_or {contexts : List (LockContext α)}
    (distinct : DistinctAddresses contexts) (task : τ) (address : α) :
    requestsOf contexts task address = [] ∨
      ∃ context ∈ contexts, context.address = address ∧
        requestsOf contexts task address = [(context.requestedUsage, task)] := by
  by_cases present : address ∈ contexts.map LockContext.address
  · obtain ⟨context, member, rfl⟩ := List.mem_map.mp present
    exact .inr ⟨context, member, rfl, requestsOf_of_mem distinct member task⟩
  · exact .inl (requestsOf_eq_nil present)

theorem requestsOf_tasks_nodup {contexts : List (LockContext α)}
    (distinct : DistinctAddresses contexts) (task : τ) (address : α) :
    ((requestsOf contexts task address).map Prod.snd).Nodup := by
  rcases requestsOf_eq_nil_or distinct task address with empty | ⟨_, _, _, single⟩
  · simp [empty]
  · simp [single]

/-! ## The requests at an address -/

@[simp] theorem requestsAt_nil (lockContexts : τ → List (LockContext α)) (address : α) :
    requestsAt lockContexts [] address = [] := rfl

theorem requestsAt_append (lockContexts : τ → List (LockContext α)) (first second : List τ)
    (address : α) :
    requestsAt lockContexts (first ++ second) address =
      requestsAt lockContexts first address ++ requestsAt lockContexts second address := by
  simp [requestsAt]

theorem requestsAt_cons (lockContexts : τ → List (LockContext α)) (task : τ) (rest : List τ)
    (address : α) :
    requestsAt lockContexts (task :: rest) address =
      requestsOf (lockContexts task) task address ++ requestsAt lockContexts rest address := by
  simp [requestsAt]

theorem mem_requestsAt {lockContexts : τ → List (LockContext α)} {active : List τ}
    {address : α} {request : RequestedUsage × τ} :
    request ∈ requestsAt lockContexts active address ↔
      ∃ task ∈ active, ∃ context ∈ lockContexts task, context.address = address ∧
        request = (context.requestedUsage, task) := by
  simp only [requestsAt, List.mem_flatMap, mem_requestsOf]

theorem task_mem_of_mem_requestsAt {lockContexts : τ → List (LockContext α)} {active : List τ}
    {address : α} {request : RequestedUsage × τ}
    (member : request ∈ requestsAt lockContexts active address) : request.2 ∈ active := by
  obtain ⟨task, inActive, _, _, _, rfl⟩ := mem_requestsAt.mp member
  exact inActive

/-- Distinct tasks with distinct addresses each have at most one request at an address. -/
theorem requestsAt_tasks_nodup {lockContexts : τ → List (LockContext α)} {active : List τ}
    (distinctTasks : active.Nodup)
    (distinct : ∀ task ∈ active, DistinctAddresses (lockContexts task)) (address : α) :
    ((requestsAt lockContexts active address).map Prod.snd).Nodup := by
  induction active with
  | nil => simp
  | cons task rest ih =>
      obtain ⟨notInRest, restDistinct⟩ := List.nodup_cons.mp distinctTasks
      rw [requestsAt_cons, List.map_append, List.nodup_append]
      refine ⟨requestsOf_tasks_nodup (distinct task List.mem_cons_self) task address,
        ih restDistinct fun other member => distinct other (List.mem_cons_of_mem _ member), ?_⟩
      intro mine mineMember other otherMember same
      obtain ⟨request, inOwn, rfl⟩ := List.mem_map.mp mineMember
      obtain ⟨otherRequest, inRest, rfl⟩ := List.mem_map.mp otherMember
      obtain ⟨_, _, _, rfl⟩ := mem_requestsOf.mp inOwn
      have otherActive : otherRequest.2 ∈ rest := task_mem_of_mem_requestsAt inRest
      simp only at same
      rw [← same] at otherActive
      exact notInRest otherActive

/-! ## Who waits -/

theorem mem_waitingTasks {requests : List (RequestedUsage × τ)} {task : τ} :
    task ∈ waitingTasks requests ↔
      ∃ usage, (usage, task) ∈ waitingSuffix readonlyUsage requests := by
  simp [waitingTasks]

/-- Appending a request does not change whether an earlier task waits. -/
theorem mem_waitingTasks_append_of_ne {requests : List (RequestedUsage × τ)}
    {usage : RequestedUsage} {task other : τ} (differ : other ≠ task) :
    other ∈ waitingTasks (requests ++ [(usage, task)]) ↔ other ∈ waitingTasks requests := by
  by_cases admitted : Admitted readonlyUsage requests (usage, task) <;>
    simp [waitingTasks, waitingSuffix_append_singleton, admitted, differ]

/-- A new task waits exactly when its request is not admitted. -/
theorem mem_waitingTasks_append_self {requests : List (RequestedUsage × τ)}
    {usage : RequestedUsage} {task : τ} (fresh : task ∉ requests.map Prod.snd) :
    task ∈ waitingTasks (requests ++ [(usage, task)]) ↔
      ¬ Admitted readonlyUsage requests (usage, task) := by
  have notWaiting : task ∉ waitingTasks requests := fun waiting =>
    fresh (by
      obtain ⟨request, member, rfl⟩ := List.mem_map.mp waiting
      exact List.mem_map_of_mem (mem_of_mem_waitingSuffix member))
  by_cases admitted : Admitted readonlyUsage requests (usage, task)
  · simpa [waitingTasks, waitingSuffix_append_singleton, admitted] using notWaiting
  · simp [waitingTasks, waitingSuffix_append_singleton, admitted]

/-- In a list where each task has one request, a request either holds its address or waits. -/
theorem mem_waitingTasks_iff_not_granted {requests : List (RequestedUsage × τ)}
    (distinct : (requests.map Prod.snd).Nodup) {request : RequestedUsage × τ}
    (member : request ∈ requests) :
    request.2 ∈ waitingTasks requests ↔ request ∉ grantedPrefix readonlyUsage requests := by
  have split : grantedPrefix readonlyUsage requests ++ waitingSuffix readonlyUsage requests =
      requests := grantedPrefix_append_waitingSuffix requests
  have splitTasks := distinct
  rw [← split, List.map_append, List.nodup_append] at splitTasks
  constructor
  · intro waiting granted
    obtain ⟨waitingRequest, inWaiting, sameTask⟩ := List.mem_map.mp waiting
    exact splitTasks.2.2 _ (List.mem_map_of_mem granted) _ (List.mem_map_of_mem inWaiting)
      sameTask.symm
  · intro notGranted
    rw [← split] at member
    rcases List.mem_append.mp member with granted | waiting
    · exact absurd granted notGranted
    · exact List.mem_map_of_mem waiting

/-- The tasks a leaving holder lets in were waiting. -/
theorem mem_waitingTasks_of_mem_releasedTasks {requests : List (RequestedUsage × τ)} {task : τ}
    (released : task ∈ releasedTasks requests) : task ∈ waitingTasks requests :=
  ((releasedTo_sublist_waitingSuffix requests).map Prod.snd).subset released

theorem releasedTasks_nodup {requests : List (RequestedUsage × τ)}
    (distinct : (requests.map Prod.snd).Nodup) : (releasedTasks requests).Nodup :=
  distinct.sublist ((releasedTo_sublist_waitingSuffix requests).trans
    (waitingSuffix_isSuffix requests).sublist |>.map Prod.snd)

theorem mem_of_mem_waitingTasks {requests : List (RequestedUsage × τ)} {task : τ}
    (waiting : task ∈ waitingTasks requests) : ∃ usage, (usage, task) ∈ requests := by
  obtain ⟨usage, member⟩ := mem_waitingTasks.mp waiting
  exact ⟨usage, mem_of_mem_waitingSuffix member⟩

variable [DecidableEq τ]

/-- After a holder leaves, a task waits exactly when it waited and was not let in. -/
theorem mem_waitingTasks_erase {requests : List (RequestedUsage × τ)}
    (distinct : (requests.map Prod.snd).Nodup) {holder : RequestedUsage × τ}
    (granted : holder ∈ grantedPrefix readonlyUsage requests) (task : τ) :
    task ∈ waitingTasks (requests.erase holder) ↔
      task ∈ waitingTasks requests ∧ task ∉ releasedTasks requests := by
  have split : releasedTo readonlyUsage requests ++
      waitingSuffix readonlyUsage (requests.erase holder) = waitingSuffix readonlyUsage requests :=
    releasedTo_append_waitingSuffix_erase granted
  have waitingDistinct : ((waitingSuffix readonlyUsage requests).map Prod.snd).Nodup :=
    distinct.sublist ((waitingSuffix_isSuffix requests).sublist.map Prod.snd)
  rw [← split, List.map_append, List.nodup_append] at waitingDistinct
  simp only [waitingTasks, releasedTasks, ← split, List.map_append, List.mem_append]
  constructor
  · intro stillWaiting
    exact ⟨.inr stillWaiting, fun released =>
      waitingDistinct.2.2 task released task stillWaiting rfl⟩
  · rintro ⟨released | stillWaiting, notReleased⟩
    · exact absurd released notReleased
    · exact stillWaiting

/-! ## Changing one task's lock contexts

While `unlock_usage_queues` releases a task, the task keeps the lock contexts it has not
released yet; `Function.update lockContexts task remaining` gives the requests left. -/

theorem requestsAt_update_of_not_mem {lockContexts : τ → List (LockContext α)} {task : τ}
    {tasks : List τ} (absent : task ∉ tasks) (contexts : List (LockContext α)) :
    requestsAt (Function.update lockContexts task contexts) tasks =
      requestsAt lockContexts tasks := by
  funext address
  unfold requestsAt
  apply List.flatMap_congr
  intro other member
  have differ : other ≠ task := fun same => absent (same ▸ member)
  rw [Function.update_of_ne differ]

omit [DecidableEq α] [DecidableEq τ] in
theorem not_mem_of_nodup_middle {before after : List τ} {task : τ}
    (distinct : (before ++ task :: after).Nodup) : task ∉ before ∧ task ∉ after := by
  obtain ⟨absent, -⟩ := List.nodup_cons.mp (List.nodup_middle.mp distinct)
  exact ⟨fun member => absent (List.mem_append_left _ member),
    fun member => absent (List.mem_append_right _ member)⟩

/-- Releasing the first remaining lock context erases the task's request at its address. -/
theorem requestsAt_update_cons (lockContexts : τ → List (LockContext α)) {active : List τ}
    {task : τ} (distinctTasks : active.Nodup) (inActive : task ∈ active)
    {context : LockContext α} {rest : List (LockContext α)}
    (distinct : DistinctAddresses (context :: rest)) :
    requestsAt (Function.update lockContexts task rest) active =
      Function.update (requestsAt (Function.update lockContexts task (context :: rest)) active)
        context.address
        ((requestsAt (Function.update lockContexts task (context :: rest)) active
          context.address).erase (context.requestedUsage, task)) := by
  obtain ⟨before, after, rfl⟩ := List.append_of_mem inActive
  obtain ⟨notBefore, notAfter⟩ := not_mem_of_nodup_middle distinctTasks
  have absent : context.address ∉ rest.map LockContext.address :=
    (List.nodup_cons.mp distinct).1
  funext address
  by_cases here : address = context.address
  · subst here
    have notInBefore : (context.requestedUsage, task) ∉
        requestsAt lockContexts before context.address := fun member =>
      notBefore (task_mem_of_mem_requestsAt member)
    simp only [Function.update_self, requestsAt_append, requestsAt_cons,
      requestsAt_update_of_not_mem notBefore, requestsAt_update_of_not_mem notAfter,
      requestsOf_eq_nil absent, requestsOf_of_mem distinct List.mem_cons_self]
    rw [List.erase_append_right _ notInBefore]
    simp
  · have skipped : requestsOf (context :: rest) task address = requestsOf rest task address := by
      rw [show context :: rest = [context] ++ rest from rfl, requestsOf_append,
        requestsOf_singleton, if_neg (Ne.symm here), List.nil_append]
    simp only [Function.update_of_ne here, requestsAt_append, requestsAt_cons,
      Function.update_self, requestsAt_update_of_not_mem notBefore,
      requestsAt_update_of_not_mem notAfter, skipped]

/-- A task with no lock contexts left has left every queue. -/
theorem requestsAt_update_nil (lockContexts : τ → List (LockContext α)) {active : List τ}
    {task : τ} (distinctTasks : active.Nodup) (inActive : task ∈ active) :
    requestsAt (Function.update lockContexts task []) active =
      requestsAt lockContexts (active.erase task) := by
  obtain ⟨before, after, rfl⟩ := List.append_of_mem inActive
  obtain ⟨notBefore, notAfter⟩ := not_mem_of_nodup_middle distinctTasks
  funext address
  rw [List.erase_append_right _ notBefore, List.erase_cons_head]
  simp [requestsAt_append, requestsAt_cons, requestsAt_update_of_not_mem notBefore,
    requestsAt_update_of_not_mem notAfter]

/-! ## Wait counts -/

omit [DecidableEq α] in
theorem waitCount_congr {requests after : α → List (RequestedUsage × τ)}
    {contexts : List (LockContext α)} {task : τ}
    (same : ∀ context ∈ contexts, task ∈ waitingTasks (after context.address) ↔
      task ∈ waitingTasks (requests context.address)) :
    waitCount after contexts task = waitCount requests contexts task := by
  unfold waitCount
  apply List.countP_congr
  intro context member
  simpa using same context member

omit [DecidableEq α] in
theorem waitCount_eq_zero {requests : α → List (RequestedUsage × τ)}
    {contexts : List (LockContext α)} {task : τ} :
    waitCount requests contexts task = 0 ↔
      ∀ context ∈ contexts, task ∉ waitingTasks (requests context.address) := by
  simp [waitCount, List.countP_eq_zero]

/-- Changing the requests at one address where the task stops waiting takes one off its count,
when its lock contexts name that address once. -/
theorem waitCount_update_of_released {requests : α → List (RequestedUsage × τ)}
    {contexts : List (LockContext α)} (distinct : DistinctAddresses contexts) {task : τ}
    {address : α} {replaced : List (RequestedUsage × τ)} (present : address ∈ contexts.map LockContext.address)
    (waited : task ∈ waitingTasks (requests address))
    (released : task ∉ waitingTasks replaced) :
    waitCount (Function.update requests address replaced) contexts task + 1 =
      waitCount requests contexts task := by
  induction contexts with
  | nil => simp at present
  | cons context rest ih =>
      obtain ⟨contextAbsent, restDistinct⟩ := List.nodup_cons.mp distinct
      simp only [waitCount, List.countP_cons] at ih ⊢
      by_cases here : context.address = address
      · -- The address is this context's, so the rest of the contexts do not see the change.
        subst here
        have restSame : waitCount (Function.update requests context.address replaced) rest task =
            waitCount requests rest task := by
          apply waitCount_congr
          intro other member
          have differ : other.address ≠ context.address := fun same =>
            contextAbsent (same ▸ List.mem_map_of_mem member)
          simp [differ]
        unfold waitCount at restSame
        simp [restSame, waited, released]
      · have inRest : address ∈ rest.map LockContext.address := by
          simpa [Ne.symm here] using present
        simp only [Function.update_of_ne here, ← ih restDistinct inRest]
        omega

end Validator.UnifiedScheduler
