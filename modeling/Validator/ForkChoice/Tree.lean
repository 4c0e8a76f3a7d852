import Mathlib.Data.List.Count
import Validator.Data.SortedMap
import Validator.ForkChoice.Operations

namespace Validator.ForkChoice

open Validator.Data

/-! # The tree of fork infos

The facts every proof about `HeaviestSubtreeForkChoice` stands on.  The derived orders of
`SlotHashKey`, `UpdateLabel` and the keys of `UpdateOperations` are lawful, so the batch is a
sorted map; a slot below another orders every key of its node first.  The association list of
fork infos is read through `forkInfo?`, which the three writes change at one key only.  And the
shape the operations keep: parent and child links agree, a child's slot is above its parent's,
children are kept sorted, and the root is present; so a walk up the parents meets each node once
and ends within `fuel` steps.
-/

/-! ## The orders of the keys -/

theorem SlotHashKey.compare_def (first second : SlotHashKey) :
    compare first second = (compare first.slot second.slot).then (compare first.hash second.hash) := by
  cases first
  cases second
  show (compare _ _).then ((compare _ _).then .eq) = _
  rw [Ordering.then_eq]

/-- Where a label stands among the constructors. -/
def UpdateLabel.rank : UpdateLabel → Nat
  | .aggregate => 0
  | .add => 1
  | .markValid _ => 2
  | .markInvalid _ => 3
  | .subtract => 4

/-- The slot a label carries, `0` for those without one. -/
def UpdateLabel.slotOf : UpdateLabel → Nat
  | .markValid slot => slot
  | .markInvalid slot => slot
  | _ => 0

theorem UpdateLabel.compare_def (first second : UpdateLabel) :
    compare first second = (compare first.rank second.rank).then (compare first.slotOf second.slotOf) := by
  cases first <;> cases second <;> first
    | rfl
    | exact Ordering.then_eq.trans (Ordering.eq_then (o := compare _ _)).symm

theorem OperationKey.compare_def (first second : OperationKey) :
    compare first second = (compare first.key second.key).then (compare first.label second.label) := by
  cases first
  cases second
  show (compare _ _).then ((compare _ _).then .eq) = _
  rw [Ordering.then_eq]

instance : Std.LawfulEqOrd SlotHashKey where
  compare_self {key} := by simp [SlotHashKey.compare_def]
  eq_of_compare {first second} same := by
    rw [SlotHashKey.compare_def, Ordering.then_eq_eq, Nat.compare_eq_eq, Nat.compare_eq_eq] at same
    cases first
    cases second
    simp only [SlotHashKey.mk.injEq]
    exact same

instance : Std.TransOrd SlotHashKey := by
  have lex : (compare : SlotHashKey → SlotHashKey → Ordering) =
      compareLex (compareOn SlotHashKey.slot) (compareOn SlotHashKey.hash) := by
    funext first second
    exact SlotHashKey.compare_def first second
  unfold Std.TransOrd
  rw [lex]
  infer_instance

instance : Std.LawfulEqOrd UpdateLabel where
  compare_self {label} := by simp [UpdateLabel.compare_def]
  eq_of_compare {first second} same := by
    rw [UpdateLabel.compare_def, Ordering.then_eq_eq, Nat.compare_eq_eq, Nat.compare_eq_eq] at same
    cases first <;> cases second <;> simp_all [UpdateLabel.rank, UpdateLabel.slotOf]

instance : Std.TransOrd UpdateLabel := by
  have lex : (compare : UpdateLabel → UpdateLabel → Ordering) =
      compareLex (compareOn UpdateLabel.rank) (compareOn UpdateLabel.slotOf) := by
    funext first second
    exact UpdateLabel.compare_def first second
  unfold Std.TransOrd
  rw [lex]
  infer_instance

instance : Std.LawfulEqOrd OperationKey where
  compare_self {key} := by simp [OperationKey.compare_def]
  eq_of_compare {first second} same := by
    rw [OperationKey.compare_def, Ordering.then_eq_eq, Std.compare_eq_iff_eq,
      Std.compare_eq_iff_eq] at same
    cases first
    cases second
    simp only [OperationKey.mk.injEq]
    exact same

instance : Std.TransOrd OperationKey := by
  have lex : (compare : OperationKey → OperationKey → Ordering) =
      compareLex (compareOn OperationKey.key) (compareOn OperationKey.label) := by
    funext first second
    exact OperationKey.compare_def first second
  unfold Std.TransOrd
  rw [lex]
  infer_instance

/-- Every key of a node orders before every key of a node in a later slot: the order the batch
is replayed in visits children before their parents. -/
theorem OperationKey.compare_eq_lt_of_slot_lt {first second : OperationKey}
    (below : first.key.slot < second.key.slot) : compare first second = .lt := by
  rw [OperationKey.compare_def, SlotHashKey.compare_def, Ordering.then_eq_lt]
  exact .inl (Ordering.then_eq_lt.mpr (.inl (Nat.compare_eq_lt.mpr below)))

/-! ## The fork infos as a function of the key -/

namespace HeaviestSubtreeForkChoice

variable (self : HeaviestSubtreeForkChoice)

theorem forkInfo?_eq_some_iff {key : SlotHashKey} {info : ForkInfo} :
    self.forkInfo? key = some info ↔
      (self.forkInfos.find? fun entry => entry.1 = key) = some (key, info) := by
  unfold forkInfo?
  constructor
  · intro found
    obtain ⟨entry, first, rfl⟩ := Option.map_eq_some_iff.mp found
    have same : entry.1 = key := by simpa using List.find?_some first
    rw [first, ← same]
  · intro first
    rw [first]
    rfl

theorem mem_of_forkInfo?_eq_some {key : SlotHashKey} {info : ForkInfo}
    (found : self.forkInfo? key = some info) : (key, info) ∈ self.forkInfos :=
  List.mem_of_find?_eq_some ((self.forkInfo?_eq_some_iff).mp found)

theorem forkInfo?_eq_none_iff {key : SlotHashKey} :
    self.forkInfo? key = none ↔ ∀ entry ∈ self.forkInfos, entry.1 ≠ key := by
  simp [forkInfo?, List.find?_eq_none]

variable {self}

@[simp]
theorem forkInfo?_setForkInfo (key : SlotHashKey) (info : ForkInfo) (other : SlotHashKey) :
    (self.setForkInfo key info).forkInfo? other =
      if other = key then some info else self.forkInfo? other := by
  unfold setForkInfo
  split
  · rename_i present
    simp only [forkInfo?, List.find?_map]
    -- The rewritten entries keep their keys, so `find?` stops at the same place.
    have keys : ((fun entry : SlotHashKey × ForkInfo => decide (entry.1 = other)) ∘
        fun entry => if entry.1 = key then (key, info) else entry) =
        fun entry => decide (entry.1 = other) := by
      funext entry
      by_cases same : entry.1 = key <;> simp [same]
    rw [keys]
    cases first : self.forkInfos.find? fun entry => decide (entry.1 = other) with
    | none =>
        have absent : other ≠ key := by
          rintro rfl
          obtain ⟨entry, member, hit⟩ := List.any_eq_true.mp present
          exact absurd hit (by simpa using List.find?_eq_none.mp first entry member)
        simp [absent]
    | some found =>
        have foundKey : found.1 = other := by simpa using List.find?_some first
        by_cases same : other = key
        · simp [foundKey, same]
        · simp [foundKey, same]
  · rename_i absent
    simp only [forkInfo?, List.find?_append]
    by_cases same : other = key
    · subst same
      have none : (self.forkInfos.find? fun entry => decide (entry.1 = other)) = none := by
        refine List.find?_eq_none.mpr fun entry member hit => absent ?_
        exact List.any_eq_true.mpr ⟨entry, member, hit⟩
      simp [none]
    · rw [if_neg same]
      cases self.forkInfos.find? fun entry => decide (entry.1 = other) with
      | none => simp [Ne.symm same]
      | some found => rfl

@[simp]
theorem forkInfo?_modifyForkInfo (key : SlotHashKey) (change : ForkInfo → ForkInfo)
    (other : SlotHashKey) :
    (self.modifyForkInfo key change).forkInfo? other =
      if other = key then (self.forkInfo? key).map change else self.forkInfo? other := by
  unfold modifyForkInfo
  cases found : self.forkInfo? key with
  | some info => simp
  | none =>
      by_cases same : other = key
      · simp [same, found]
      · simp [same]

@[simp]
theorem forkInfo?_removeForkInfo (key other : SlotHashKey) :
    (self.removeForkInfo key).forkInfo? other =
      if other = key then none else self.forkInfo? other := by
  simp only [removeForkInfo, forkInfo?, List.find?_filter]
  by_cases same : other = key
  · subst same
    rw [if_pos rfl]
    cases first : self.forkInfos.find? _ with
    | none => rfl
    | some found =>
        have contradictory := List.find?_some first
        simp at contradictory
  · rw [if_neg same]
    -- Among the entries of `other`, none is dropped.
    congr 2
    funext entry
    by_cases hit : entry.1 = other
    · simp [hit, same]
    · simp [hit]

@[simp]
theorem setForkInfo_latestVotes (key : SlotHashKey) (info : ForkInfo) :
    (self.setForkInfo key info).latestVotes = self.latestVotes := by
  unfold setForkInfo
  split <;> rfl

@[simp]
theorem setForkInfo_treeRoot (key : SlotHashKey) (info : ForkInfo) :
    (self.setForkInfo key info).treeRoot = self.treeRoot := by
  unfold setForkInfo
  split <;> rfl

@[simp]
theorem modifyForkInfo_latestVotes (key : SlotHashKey) (change : ForkInfo → ForkInfo) :
    (self.modifyForkInfo key change).latestVotes = self.latestVotes := by
  unfold modifyForkInfo
  split <;> simp

@[simp]
theorem modifyForkInfo_treeRoot (key : SlotHashKey) (change : ForkInfo → ForkInfo) :
    (self.modifyForkInfo key change).treeRoot = self.treeRoot := by
  unfold modifyForkInfo
  split <;> simp

/-- Rewriting the fork info of a node that is there keeps the list's keys. -/
theorem keys_setForkInfo {key : SlotHashKey} {old : ForkInfo} (present : self.forkInfo? key = some old)
    (info : ForkInfo) :
    (self.setForkInfo key info).forkInfos.map Prod.fst = self.forkInfos.map Prod.fst := by
  have contains : (self.forkInfos.any fun entry => entry.1 = key) = true :=
    List.any_eq_true.mpr ⟨(key, old), self.mem_of_forkInfo?_eq_some present, by simp⟩
  simp only [setForkInfo, contains, if_true, List.map_map]
  congr 1
  funext entry
  by_cases same : entry.1 = key <;> simp [same]

theorem parent_eq_some_iff {key parent : SlotHashKey} :
    self.parent key = some parent ↔ ∃ info, self.forkInfo? key = some info ∧ info.parent = some parent := by
  simp [HeaviestSubtreeForkChoice.parent, Option.bind_eq_some_iff]

/-! ## Counting the nodes below a slot -/

/-- How many nodes sit in a slot below `slot`: a walk up the parents passes through strictly
lower slots, so this bounds its length. -/
def keysBelow (slot : Slot) : Nat :=
  self.forkInfos.countP fun entry => entry.1.slot < slot

theorem keysBelow_le_length (slot : Slot) : self.keysBelow slot < self.fuel :=
  Nat.lt_succ_of_le List.countP_le_length

/-- A node below `slot` is one more node below `slot` than below its own slot. -/
theorem keysBelow_lt {key : SlotHashKey} {info : ForkInfo} (present : self.forkInfo? key = some info)
    {slot : Slot} (below : key.slot < slot) : self.keysBelow key.slot < self.keysBelow slot := by
  unfold keysBelow
  have lower : ∀ entry : SlotHashKey × ForkInfo, decide (entry.1.slot < key.slot) = true →
      decide (entry.1.slot < slot) = true := fun entry earlier =>
    decide_eq_true (Nat.lt_trans (of_decide_eq_true earlier) below)
  have filtered : (self.forkInfos.filter fun entry => entry.1.slot < slot).countP
      (fun entry => entry.1.slot < key.slot) = self.forkInfos.countP fun entry => entry.1.slot < key.slot := by
    rw [List.countP_filter]
    congr 1
    funext entry
    by_cases earlier : entry.1.slot < key.slot
    · simp [earlier, lower entry (by simpa using earlier)]
    · simp [earlier]
  rw [← filtered, List.countP_eq_length_filter (l := self.forkInfos)]
  refine List.countP_lt_length_iff.mpr ⟨(key, info), ?_, by simp⟩
  exact List.mem_filter.mpr ⟨self.mem_of_forkInfo?_eq_some present, by simpa using below⟩

theorem keysBelow_setForkInfo {key : SlotHashKey} {old : ForkInfo}
    (present : self.forkInfo? key = some old) (info : ForkInfo) (slot : Slot) :
    (self.setForkInfo key info).keysBelow slot = self.keysBelow slot := by
  have byKeys : ∀ entries : List (SlotHashKey × ForkInfo),
      (entries.countP fun entry => entry.1.slot < slot) =
        (entries.map Prod.fst).countP fun key => key.slot < slot := by
    intro entries
    rw [List.countP_map]
    rfl
  unfold keysBelow
  rw [byKeys, byKeys, keys_setForkInfo present info]

theorem fuel_setForkInfo {key : SlotHashKey} {old : ForkInfo}
    (present : self.forkInfo? key = some old) (info : ForkInfo) :
    (self.setForkInfo key info).fuel = self.fuel := by
  unfold fuel
  rw [← List.length_map (f := Prod.fst), keys_setForkInfo present info, List.length_map]

/-! ## The shape of the tree -/

/-- What the operations keep true of the links between nodes. -/
structure Shaped (tree : HeaviestSubtreeForkChoice) : Prop where
  rootPresent : (tree.forkInfo? tree.treeRoot).isSome
  /-- A node's parent is present, lists the node among its children, and is in an earlier slot. -/
  parentLinked : ∀ {key info parent}, tree.forkInfo? key = some info → info.parent = some parent →
    ∃ parentInfo, tree.forkInfo? parent = some parentInfo ∧ key ∈ parentInfo.children ∧
      parent.slot < key.slot
  /-- A node's children are present and name it as their parent. -/
  childLinked : ∀ {key info child}, tree.forkInfo? key = some info → child ∈ info.children →
    ∃ childInfo, tree.forkInfo? child = some childInfo ∧ childInfo.parent = some key
  /-- The children of a node, a `BTreeSet`, are in increasing order. -/
  childrenSorted : ∀ {key info}, tree.forkInfo? key = some info →
    info.children.Pairwise fun first second => compare first second = .lt

theorem Shaped.childrenNodup (shaped : self.Shaped) {key : SlotHashKey} {info : ForkInfo}
    (present : self.forkInfo? key = some info) : info.children.Nodup := by
  refine (shaped.childrenSorted present).imp fun {first second} ordered same => ?_
  rw [same, SortedMap.compare_self_eq] at ordered
  cases ordered

/-- A child sits in a later slot than its parent. -/
theorem Shaped.slot_lt_of_mem_children (shaped : self.Shaped) {key child : SlotHashKey}
    {info : ForkInfo} (present : self.forkInfo? key = some info) (member : child ∈ info.children) :
    key.slot < child.slot := by
  obtain ⟨childInfo, childPresent, childParent⟩ := shaped.childLinked present member
  obtain ⟨_, _, _, below⟩ := shaped.parentLinked childPresent childParent
  exact below

/-- One step up the parents leaves fewer nodes below. -/
theorem Shaped.keysBelow_parent_lt (shaped : self.Shaped) {key parent : SlotHashKey}
    (linked : self.parent key = some parent) : self.keysBelow parent.slot < self.keysBelow key.slot := by
  obtain ⟨info, present, hasParent⟩ := self.parent_eq_some_iff.mp linked
  obtain ⟨parentInfo, parentPresent, _, below⟩ := shaped.parentLinked present hasParent
  exact self.keysBelow_lt parentPresent below

end HeaviestSubtreeForkChoice

end Validator.ForkChoice
