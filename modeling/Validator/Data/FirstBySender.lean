import Mathlib.Algebra.Order.BigOperators.Group.Finset

namespace Validator.Data

/-! # Counting each sender once

Messages arrive in any order and any number of times.  An aggregate that keeps the first
message of each sender and ignores the later ones holds, after a sequence of messages, one
weight per sender: `tally` is the sum over the distinct senders of the weight of each one's
first message.  When every sender repeats a single message, the order does not matter.
-/

variable {κ μ : Type} [DecidableEq κ] (sender : μ → κ)

def senders (messages : List μ) : Finset κ :=
  (messages.map sender).toFinset

def firstFrom (messages : List μ) (key : κ) : Option μ :=
  messages.find? fun message => sender message = key

def tally (weight : μ → Nat) (messages : List μ) : Nat :=
  ∑ key ∈ senders sender messages, ((firstFrom sender messages key).map weight).getD 0

/-- Every sender sends one message, however many times. -/
def SingleVersion (messages : List μ) : Prop :=
  ∀ a ∈ messages, ∀ b ∈ messages, sender a = sender b → a = b

variable {sender} {messages other : List μ} {message : μ} {key : κ} {weight : μ → Nat}

@[simp] theorem mem_senders : key ∈ senders sender messages ↔ ∃ m ∈ messages, sender m = key := by
  simp [senders]

theorem senders_append_singleton :
    senders sender (messages ++ [message]) = insert (sender message) (senders sender messages) := by
  ext key
  simp only [mem_senders, List.mem_append, List.mem_singleton, Finset.mem_insert]
  constructor
  · rintro ⟨m, inMessages | rfl, from_⟩
    · exact Or.inr ⟨m, inMessages, from_⟩
    · exact Or.inl from_.symm
  · rintro (rfl | ⟨m, inMessages, from_⟩)
    · exact ⟨message, Or.inr rfl, rfl⟩
    · exact ⟨m, Or.inl inMessages, from_⟩

theorem firstFrom_spec {first : μ} (found : firstFrom sender messages key = some first) :
    first ∈ messages ∧ sender first = key := by
  have holds := List.find?_some found
  exact ⟨List.mem_of_find?_eq_some found, of_decide_eq_true holds⟩

theorem firstFrom_eq_none_iff : firstFrom sender messages key = none ↔ key ∉ senders sender messages := by
  simp [firstFrom, List.find?_eq_none]

theorem firstFrom_append_singleton :
    firstFrom sender (messages ++ [message]) key =
      (firstFrom sender messages key).or (if sender message = key then some message else none) := by
  rw [firstFrom, firstFrom, List.find?_append]
  by_cases same : sender message = key <;> simp [same]

theorem firstFrom_append_singleton_of_mem (seen : sender message ∈ senders sender messages) :
    firstFrom sender (messages ++ [message]) = firstFrom sender messages := by
  funext key
  rw [firstFrom_append_singleton]
  cases found : firstFrom sender messages key with
  | some first => rfl
  | none =>
      -- a sender never seen before is not the sender of the new message
      have unseen := firstFrom_eq_none_iff.mp found
      have other : sender message ≠ key := fun same => unseen (same ▸ seen)
      simp [other]

theorem firstFrom_append_singleton_of_not_mem (fresh : sender message ∉ senders sender messages) :
    firstFrom sender (messages ++ [message]) =
      Function.update (firstFrom sender messages) (sender message) (some message) := by
  funext key
  rw [firstFrom_append_singleton]
  by_cases same : key = sender message
  · subst same
    simp [firstFrom_eq_none_iff.mpr fresh]
  · simp [same, Ne.symm same]

@[simp] theorem tally_nil : tally sender weight [] = 0 := rfl

theorem tally_append_singleton_of_mem (seen : sender message ∈ senders sender messages) :
    tally sender weight (messages ++ [message]) = tally sender weight messages := by
  rw [tally, tally, firstFrom_append_singleton_of_mem seen, senders_append_singleton,
    Finset.insert_eq_of_mem seen]

theorem tally_append_singleton_of_not_mem (fresh : sender message ∉ senders sender messages) :
    tally sender weight (messages ++ [message]) = tally sender weight messages + weight message := by
  rw [tally, tally, firstFrom_append_singleton_of_not_mem fresh, senders_append_singleton,
    Finset.sum_insert fresh, Function.update_self, Nat.add_comm]
  congr 1
  · apply Finset.sum_congr rfl
    intro key member
    have other : key ≠ sender message := fun same => fresh (same ▸ member)
    rw [Function.update_of_ne other]

theorem tally_le_append_singleton :
    tally sender weight messages ≤ tally sender weight (messages ++ [message]) := by
  by_cases seen : sender message ∈ senders sender messages
  · rw [tally_append_singleton_of_mem seen]
  · rw [tally_append_singleton_of_not_mem seen]
    exact Nat.le_add_right _ _

theorem tally_le_append (more : List μ) :
    tally sender weight messages ≤ tally sender weight (messages ++ more) := by
  induction more generalizing messages with
  | nil => simp
  | cons head rest ih =>
      calc tally sender weight messages
          ≤ tally sender weight (messages ++ [head]) := tally_le_append_singleton
        _ ≤ tally sender weight (messages ++ [head] ++ rest) := ih
        _ = tally sender weight (messages ++ head :: rest) := by simp

/-- A weight bounded by a function of the sender tallies to at most that function's sum. -/
theorem tally_le_sum {bound : κ → Nat} (below : ∀ m, weight m ≤ bound (sender m)) :
    tally sender weight messages ≤ ∑ key ∈ senders sender messages, bound key := by
  apply Finset.sum_le_sum
  intro key _
  cases found : firstFrom sender messages key with
  | none => simp
  | some first =>
      have from_ := (firstFrom_spec found).2
      simpa [from_] using below first

omit [DecidableEq κ] in
theorem SingleVersion.sublist (single : SingleVersion sender messages) (sub : other.Sublist messages) :
    SingleVersion sender other :=
  fun a inA b inB => single a (sub.subset inA) b (sub.subset inB)

theorem senders_perm (perm : messages.Perm other) : senders sender messages = senders sender other := by
  ext key
  simp only [mem_senders]
  exact ⟨fun ⟨m, member, from_⟩ => ⟨m, perm.mem_iff.mp member, from_⟩,
    fun ⟨m, member, from_⟩ => ⟨m, perm.mem_iff.mpr member, from_⟩⟩

theorem firstFrom_perm (single : SingleVersion sender messages) (perm : messages.Perm other) :
    firstFrom sender messages = firstFrom sender other := by
  funext key
  cases found : firstFrom sender messages key with
  | none =>
      rw [eq_comm, firstFrom_eq_none_iff, ← senders_perm perm]
      exact firstFrom_eq_none_iff.mp found
  | some first =>
      obtain ⟨inMessages, from_⟩ := firstFrom_spec found
      cases found' : firstFrom sender other key with
      | none =>
          have unseen := firstFrom_eq_none_iff.mp found'
          rw [← senders_perm perm] at unseen
          exact absurd (mem_senders.mpr ⟨first, inMessages, from_⟩) unseen
      | some first' =>
          -- both lists find a message of the same sender, and it has sent only one
          obtain ⟨inOther, from'⟩ := firstFrom_spec found'
          rw [single first inMessages first' (perm.mem_iff.mpr inOther) (from_.trans from'.symm)]

theorem tally_perm (single : SingleVersion sender messages) (perm : messages.Perm other) :
    tally sender weight messages = tally sender weight other := by
  rw [tally, tally, senders_perm perm, firstFrom_perm single perm]

end Validator.Data
