import Mathlib.Data.List.Sort
import Mathlib.Tactic.Ring
import Validator.Data.ListOrder

namespace Validator.Turbine

/-! # The turbine retransmit tree

The shuffled nodes of a slot's leader form a tree by their positions: the root at `0`, the
first layer at `1 ..= fanout`, and each other node with `fanout` children spread one
neighbourhood apart in the next layer.  `get_retransmit_peers` enumerates a node's children,
`get_retransmit_parent` computes a node's parent by another formula, and `get_root_distance`
its depth, capped at three.  A `%` by a zero fanout panics, which is `none`.
-/

/-- `usize::MAX`. -/
def usizeMax : Nat := 2 ^ 64 - 1

namespace Usize

def saturatingAdd (a b : Nat) : Nat :=
  min (a + b) usizeMax

def saturatingMul (a b : Nat) : Nat :=
  min (a * b) usizeMax

end Usize

variable {α : Type}

/-- The positions `get_retransmit_peers` steps through from the node at `index`: its
neighbourhood's `anchor` and the node's `offset` in it, one apart at the root and `fanout`
apart elsewhere. -/
def retransmitPeerIndices (fanout index : Nat) : List Nat :=
  let offset := (index - 1) % fanout
  let anchor := index - offset
  let step := if index = 0 then 1 else fanout
  (List.range fanout).map fun t => anchor * fanout + offset + 1 + t * step

/-- The `scan` of `get_retransmit_peers`: `nth(k - state - 1)` on what is left of the nodes
after the position `state`, until it runs out. -/
def scanPeers : List α → Nat → List Nat → List α
  | _, _, [] => []
  | rest, state, k :: ks =>
      match rest.drop (k - state - 1) with
      | [] => []
      | peer :: rest => peer :: scanPeers rest k ks

/-- `get_retransmit_peers`: this node's position among the shuffled nodes, and the nodes it
retransmits to. -/
def getRetransmitPeers (fanout : Nat) (pred : α → Bool) (nodes : List α) :
    Option (Nat × List α) :=
  match nodes.findIdx? pred with
  | none => some (usizeMax, [])
  | some index =>
      if fanout = 0 then none
      else some (index, scanPeers (nodes.drop (index + 1)) index
        (retransmitPeerIndices fanout index))

/-- The position `get_retransmit_parent` reads the parent at; `none` at the root, where
`checked_sub(1)` fails. -/
def retransmitParentIndex (fanout index : Nat) : Option Nat :=
  let offset := (index - 1) % fanout
  if index = 0 then none
  else
    let index := (index - 1) / fanout
    let index := index - (index - 1) % fanout
    some (if index = 0 then index else index + offset)

/-- `get_retransmit_parent`: the parent node, `none` at the root. -/
def getRetransmitParent (fanout index : Nat) (nodes : List α) : Option (Option α) :=
  if fanout = 0 then none
  else some ((retransmitParentIndex fanout index).bind fun index => nodes[index]?)

def getRootDistance (index fanout : Nat) : Nat :=
  if index = 0 then 0
  else if index ≤ fanout then 1
  else if index ≤ Usize.saturatingMul (Usize.saturatingAdd fanout 1) fanout then 2
  else 3

/-! ## The tree the positions form -/

variable {fanout : Nat}

theorem div_mod_of_eq {n quotient remainder : Nat} (positive : 0 < fanout)
    (small : remainder < fanout) (split : n = fanout * quotient + remainder) :
    n / fanout = quotient ∧ n % fanout = remainder :=
  (Nat.div_mod_unique positive).mpr ⟨by omega, small⟩

theorem eq_of_mul_add_eq (positive : 0 < fanout) {a b c d : Nat} (small : b < fanout)
    (small' : d < fanout) (equal : fanout * a + b = fanout * c + d) : a = c ∧ b = d := by
  obtain ⟨first, second⟩ := div_mod_of_eq positive small rfl
  obtain ⟨first', second'⟩ := div_mod_of_eq positive small' equal
  exact ⟨first.symm.trans first', second.symm.trans second'⟩

theorem div_add_mod_le (n fanout : Nat) : n / fanout + n % fanout ≤ n := by
  rcases Nat.eq_zero_or_pos fanout with rfl | positive
  · simp
  · have split := Nat.div_add_mod n fanout
    have : n / fanout ≤ fanout * (n / fanout) := Nat.le_mul_of_pos_left _ positive
    omega

theorem retransmitParentIndex_lt {index parent : Nat}
    (found : retransmitParentIndex fanout index = some parent) : parent < index := by
  simp only [retransmitParentIndex] at found
  split at found
  · cases found
  · have bound := div_add_mod_le (index - 1) fanout
    split at found <;> (cases found; omega)

theorem exists_eq_mul_add (positive : 0 < fanout) (n : Nat) :
    ∃ quotient remainder, remainder < fanout ∧ n = fanout * quotient + remainder :=
  ⟨n / fanout, n % fanout, Nat.mod_lt n positive, (Nat.div_add_mod n fanout).symm⟩

theorem retransmitParentIndex_decompose (positive : 0 < fanout) {layer offset : Nat}
    (small : offset < fanout) :
    retransmitParentIndex fanout (fanout * layer + offset + 1) =
      some (if layer = 0 then 0 else fanout * ((layer - 1) / fanout) + 1 + offset) := by
  obtain ⟨quotient, remainder⟩ := div_mod_of_eq positive small (Eq.refl (fanout * layer + offset))
  simp only [retransmitParentIndex, Nat.add_sub_cancel, quotient, remainder]
  rw [if_neg (by omega), Option.some.injEq]
  have split := Nat.div_add_mod (layer - 1) fanout
  have below := Nat.mod_lt (layer - 1) positive
  by_cases first : layer = 0
  · simp [first]
  · rw [if_neg first, if_neg (by omega)]
    omega

theorem retransmitPeerIndices_zero :
    retransmitPeerIndices fanout 0 = (List.range fanout).map (· + 1) := by
  simp [retransmitPeerIndices, Nat.add_comm]

theorem retransmitPeerIndices_decompose (positive : 0 < fanout) {layer offset : Nat}
    (small : offset < fanout) :
    retransmitPeerIndices fanout (fanout * layer + offset + 1) =
      (List.range fanout).map fun t => fanout * (fanout * layer + 1 + t) + offset + 1 := by
  obtain ⟨-, remainder⟩ := div_mod_of_eq positive small (Eq.refl (fanout * layer + offset))
  simp only [retransmitPeerIndices, Nat.add_sub_cancel, remainder, Nat.add_eq_zero_iff,
    Nat.one_ne_zero, and_false, if_false]
  apply List.map_congr_left
  intro t _
  rw [show fanout * layer + offset + 1 - offset = fanout * layer + 1 by omega]
  ring

theorem mem_retransmitPeerIndices_iff (positive : 0 < fanout) {index child : Nat} :
    child ∈ retransmitPeerIndices fanout index ↔
      retransmitParentIndex fanout child = some index := by
  rcases Nat.eq_zero_or_pos child with rfl | nonzero
  · simp [retransmitPeerIndices, retransmitParentIndex]
  obtain ⟨layer, offset, small, split⟩ := exists_eq_mul_add positive (child - 1)
  obtain rfl : child = fanout * layer + offset + 1 := by omega
  rw [retransmitParentIndex_decompose positive small, Option.some.injEq]
  rcases Nat.eq_zero_or_pos index with rfl | indexed
  · -- the root's children are the first layer
    have : fanout * layer + offset < fanout ↔ layer = 0 := by
      constructor
      · intro below
        by_contra nonzero
        have : fanout ≤ fanout * layer := Nat.le_mul_of_pos_right fanout (by omega)
        omega
      · rintro rfl
        omega
    simp only [retransmitPeerIndices_zero, List.mem_map, List.mem_range]
    constructor
    · rintro ⟨t, below, equal⟩
      simp [this.mp (by omega)]
    · intro root
      have first : layer = 0 := by
        by_contra nonzero
        rw [if_neg nonzero] at root
        omega
      exact ⟨fanout * layer + offset, this.mpr first, rfl⟩
  obtain ⟨parentLayer, parentOffset, parentSmall, parentSplit⟩ :=
    exists_eq_mul_add positive (index - 1)
  obtain rfl : index = fanout * parentLayer + parentOffset + 1 := by omega
  rw [retransmitPeerIndices_decompose positive parentSmall, List.mem_map]
  constructor
  · rintro ⟨t, below, equal⟩
    obtain ⟨sameLayer, sameOffset⟩ := eq_of_mul_add_eq positive parentSmall small
      (by simpa only [Nat.add_right_cancel_iff] using equal)
    have below : t < fanout := List.mem_range.mp below
    obtain ⟨quotient, -⟩ := div_mod_of_eq positive below
      (show layer - 1 = fanout * parentLayer + t by omega)
    rw [if_neg (by omega), quotient, sameOffset]
    omega
  · intro equal
    have nonzero : layer ≠ 0 := by
      rintro rfl
      simp at equal
    rw [if_neg nonzero] at equal
    obtain ⟨sameLayer, sameOffset⟩ := eq_of_mul_add_eq positive small parentSmall
      (by omega : fanout * ((layer - 1) / fanout) + offset = fanout * parentLayer + parentOffset)
    have split := Nat.div_add_mod (layer - 1) fanout
    refine ⟨(layer - 1) % fanout, List.mem_range.mpr (Nat.mod_lt _ positive), ?_⟩
    have whole : fanout * ((layer - 1) / fanout) + 1 + (layer - 1) % fanout = layer := by omega
    rw [← sameLayer, sameOffset, whole]


theorem lt_of_mem_retransmitPeerIndices (positive : 0 < fanout) {index child : Nat}
    (member : child ∈ retransmitPeerIndices fanout index) : index < child :=
  retransmitParentIndex_lt ((mem_retransmitPeerIndices_iff positive).mp member)

theorem retransmitPeerIndices_pairwise (positive : 0 < fanout) (index : Nat) :
    (retransmitPeerIndices fanout index).Pairwise (· < ·) := by
  simp only [retransmitPeerIndices, List.pairwise_map]
  apply List.pairwise_lt_range.imp
  intro first second earlier
  have step : first * (if index = 0 then 1 else fanout) < second * (if index = 0 then 1 else fanout) := by
    apply Nat.mul_lt_mul_of_pos_right earlier
    split <;> omega
  omega

theorem length_retransmitPeerIndices (fanout index : Nat) :
    (retransmitPeerIndices fanout index).length = fanout := by
  simp [retransmitPeerIndices]


/-- The scan reads the node at each position in turn, until a position past the end. -/
theorem scanPeers_drop {nodes : List α} {state : Nat} {positions : List Nat}
    (increasing : (state :: positions).Pairwise (· < ·)) :
    scanPeers (nodes.drop (state + 1)) state positions =
      (positions.takeWhile (· < nodes.length)).filterMap (nodes[·]?) := by
  induction positions generalizing state with
  | nil => rfl
  | cons position rest ih =>
      have later : state < position := List.rel_of_pairwise_cons increasing List.mem_cons_self
      have tail : (position :: rest).Pairwise (· < ·) := (List.pairwise_cons.mp increasing).2
      have skip : (nodes.drop (state + 1)).drop (position - state - 1) = nodes.drop position := by
        rw [List.drop_drop]
        congr 1
        omega
      by_cases inside : position < nodes.length
      · rw [scanPeers, skip, List.drop_eq_getElem_cons inside]
        simp [inside, ih tail]
      · rw [scanPeers, skip, List.drop_eq_nil_of_le (by omega)]
        simp [inside]


/-- The positions below `count` whose parent is at `index`, in increasing order. -/
def childPositions (fanout count index : Nat) : List Nat :=
  (List.range count).filter fun child => retransmitParentIndex fanout child = some index

theorem filter_retransmitPeerIndices (positive : 0 < fanout) (count index : Nat) :
    (retransmitPeerIndices fanout index).filter (· < count) = childPositions fanout count index := by
  apply List.Pairwise.eq_of_mem_iff ((retransmitPeerIndices_pairwise positive index).filter _)
    (List.pairwise_lt_range.filter _)
  intro child
  simp [mem_retransmitPeerIndices_iff positive, and_comm]

theorem getRetransmitPeers_eq (positive : 0 < fanout) {nodes : List α} {pred : α → Bool}
    {index : Nat} (bound : index < nodes.length)
    (identifies : ∀ j (h : j < nodes.length), pred nodes[j] = true ↔ j = index) :
    getRetransmitPeers fanout pred nodes =
      some (index, (childPositions fanout nodes.length index).filterMap (nodes[·]?)) := by
  have found : nodes.findIdx? pred = some index :=
    List.findIdx?_eq_some_iff_getElem.mpr ⟨bound, (identifies index bound).mpr rfl,
      fun j earlier => by rw [identifies j (by omega)]; omega⟩
  have increasing : (index :: retransmitPeerIndices fanout index).Pairwise (· < ·) :=
    List.pairwise_cons.mpr ⟨fun _ member => lt_of_mem_retransmitPeerIndices positive member,
      retransmitPeerIndices_pairwise positive index⟩
  have whilePresent := Data.takeWhile_eq_filter_of_pairwise
    (retransmitPeerIndices_pairwise positive index) (p := (· < nodes.length))
    (fun a b earlier later => by simp only [decide_eq_true_eq] at later ⊢; omega)
  simp only [getRetransmitPeers, found]
  rw [if_neg (by omega), scanPeers_drop increasing, whilePresent,
    filter_retransmitPeerIndices positive]

theorem getRetransmitPeers_of_absent {nodes : List α} {pred : α → Bool}
    (absent : ∀ node ∈ nodes, pred node = false) :
    getRetransmitPeers fanout pred nodes = some (usizeMax, []) := by
  rw [getRetransmitPeers, List.findIdx?_eq_none_iff.mpr absent]


theorem getRetransmitParent_root (positive : 0 < fanout) (nodes : List α) :
    getRetransmitParent fanout 0 nodes = some none := by
  simp [getRetransmitParent, retransmitParentIndex, Nat.pos_iff_ne_zero.mp positive]

theorem exists_retransmitParentIndex (positive : 0 < fanout) {index : Nat} (nonzero : 0 < index) :
    ∃ parent, retransmitParentIndex fanout index = some parent := by
  obtain ⟨layer, offset, small, split⟩ := exists_eq_mul_add positive (index - 1)
  obtain rfl : index = fanout * layer + offset + 1 := by omega
  exact ⟨_, retransmitParentIndex_decompose positive small⟩

theorem getRetransmitParent_eq (positive : 0 < fanout) {nodes : List α} {index : Nat}
    (nonzero : 0 < index) (bound : index < nodes.length) :
    ∃ parent, ∃ earlier : parent < index,
      retransmitParentIndex fanout index = some parent ∧
      getRetransmitParent fanout index nodes = some (some nodes[parent]) := by
  obtain ⟨parent, found⟩ := exists_retransmitParentIndex positive nonzero
  have earlier := retransmitParentIndex_lt found
  refine ⟨parent, earlier, found, ?_⟩
  simp [getRetransmitParent, found, Nat.pos_iff_ne_zero.mp positive, List.getElem?_eq_getElem (by omega : parent < nodes.length)]

theorem existsUnique_childPositions (positive : 0 < fanout) {count child : Nat}
    (nonzero : 0 < child) (bound : child < count) :
    ∃! index, index < count ∧ child ∈ childPositions fanout count index := by
  obtain ⟨parent, found⟩ := exists_retransmitParentIndex positive nonzero
  have earlier := retransmitParentIndex_lt found
  refine ⟨parent, ⟨by omega, by simp [childPositions, bound, found]⟩, ?_⟩
  rintro other ⟨-, member⟩
  simp only [childPositions, List.mem_filter, List.mem_range, found, decide_eq_true_eq,
    Option.some.injEq] at member
  exact member.2.symm

theorem not_mem_childPositions_zero (fanout count index : Nat) :
    0 ∉ childPositions fanout count index := by
  simp [childPositions, retransmitParentIndex]


/-- The depth of a position: the number of parents between it and the root. -/
def retransmitDepth (fanout index : Nat) : Nat :=
  match found : retransmitParentIndex fanout index with
  | none => 0
  | some parent =>
      have : parent < index := retransmitParentIndex_lt found
      retransmitDepth fanout parent + 1
termination_by index

theorem retransmitDepth_zero (fanout : Nat) : retransmitDepth fanout 0 = 0 := by
  rw [retransmitDepth]
  split
  · rfl
  · next found => simp [retransmitParentIndex] at found

theorem retransmitDepth_of_parent {index parent : Nat}
    (found : retransmitParentIndex fanout index = some parent) :
    retransmitDepth fanout index = retransmitDepth fanout parent + 1 := by
  rw [retransmitDepth]
  split
  · simp_all
  · simp_all

/-- Where the parent of a position lies, by the layer of the position. -/
theorem retransmitParentIndex_layers (positive : 0 < fanout) {index : Nat} (nonzero : 0 < index) :
    ∃ parent, retransmitParentIndex fanout index = some parent ∧
      (index ≤ fanout → parent = 0) ∧
      (fanout < index → 0 < parent) ∧
      (fanout < index → index ≤ fanout * (fanout + 1) → parent ≤ fanout) ∧
      (fanout * (fanout + 1) < index → fanout < parent) := by
  obtain ⟨layer, offset, small, split⟩ := exists_eq_mul_add positive (index - 1)
  obtain rfl : index = fanout * layer + offset + 1 := by omega
  refine ⟨_, retransmitParentIndex_decompose positive small, ?_, ?_, ?_, ?_⟩
  · intro within
    have : layer = 0 := by
      by_contra nonzero
      have : fanout ≤ fanout * layer := Nat.le_mul_of_pos_right fanout (by omega)
      omega
    simp [this]
  · intro beyond
    have : layer ≠ 0 := by rintro rfl; omega
    rw [if_neg this]
    omega
  · intro beyond within
    have nonzero : layer ≠ 0 := by rintro rfl; omega
    have below : layer ≤ fanout := by
      by_contra above
      have : fanout * (fanout + 1) ≤ fanout * layer := Nat.mul_le_mul_left fanout (by omega)
      omega
    rw [if_neg nonzero, Nat.div_eq_of_lt (by omega : layer - 1 < fanout)]
    omega
  · intro beyond
    have above : fanout + 1 ≤ layer := by
      by_contra below
      have : fanout * layer ≤ fanout * fanout := Nat.mul_le_mul_left fanout (by omega)
      have : fanout * (fanout + 1) = fanout * fanout + fanout := by ring
      omega
    have : 1 ≤ (layer - 1) / fanout := (Nat.one_le_div_iff positive).mpr (by omega)
    have : fanout ≤ fanout * ((layer - 1) / fanout) := Nat.le_mul_of_pos_right fanout (by omega)
    rw [if_neg (by omega)]
    omega

theorem retransmitDepth_first_layer (positive : 0 < fanout) {index : Nat} (nonzero : 0 < index)
    (within : index ≤ fanout) : retransmitDepth fanout index = 1 := by
  obtain ⟨parent, found, root, -, -, -⟩ := retransmitParentIndex_layers positive nonzero
  rw [retransmitDepth_of_parent found, root within, retransmitDepth_zero]

theorem one_le_retransmitDepth (positive : 0 < fanout) {index : Nat} (nonzero : 0 < index) :
    1 ≤ retransmitDepth fanout index := by
  obtain ⟨parent, found, -⟩ := retransmitParentIndex_layers positive nonzero
  rw [retransmitDepth_of_parent found]
  omega

theorem two_le_retransmitDepth (positive : 0 < fanout) {index : Nat} (beyond : fanout < index) :
    2 ≤ retransmitDepth fanout index := by
  obtain ⟨parent, found, -, inner, -⟩ := retransmitParentIndex_layers positive (by omega : 0 < index)
  rw [retransmitDepth_of_parent found]
  have := one_le_retransmitDepth positive (inner beyond)
  omega

theorem retransmitDepth_second_layer (positive : 0 < fanout) {index : Nat} (beyond : fanout < index)
    (within : index ≤ fanout * (fanout + 1)) : retransmitDepth fanout index = 2 := by
  obtain ⟨parent, found, -, inner, outer, -⟩ := retransmitParentIndex_layers positive (by omega : 0 < index)
  rw [retransmitDepth_of_parent found,
    retransmitDepth_first_layer positive (inner beyond) (outer beyond within)]

theorem three_le_retransmitDepth (positive : 0 < fanout) {index : Nat}
    (beyond : fanout * (fanout + 1) < index) : 3 ≤ retransmitDepth fanout index := by
  obtain ⟨parent, found, -, -, -, deeper⟩ := retransmitParentIndex_layers positive (by omega : 0 < index)
  rw [retransmitDepth_of_parent found]
  have := two_le_retransmitDepth positive (deeper beyond)
  omega

theorem le_saturating_iff {index : Nat} (small : index ≤ usizeMax) (fits : fanout ≤ usizeMax) :
    index ≤ Usize.saturatingMul (Usize.saturatingAdd fanout 1) fanout ↔
      index ≤ fanout * (fanout + 1) := by
  simp only [Usize.saturatingMul, Usize.saturatingAdd]
  by_cases top : fanout = usizeMax
  · subst top
    have : usizeMax ≤ usizeMax * (usizeMax + 1) := Nat.le_mul_of_pos_right _ (by omega)
    simp only [usizeMax] at *
    constructor <;> intro <;> omega
  · rw [Nat.min_eq_left (by omega : fanout + 1 ≤ usizeMax), Nat.mul_comm]
    omega

theorem getRootDistance_eq (positive : 0 < fanout) (fits : fanout ≤ usizeMax) {index : Nat}
    (small : index ≤ usizeMax) :
    getRootDistance index fanout = min (retransmitDepth fanout index) 3 := by
  rw [getRootDistance]
  by_cases root : index = 0
  · simp [root, retransmitDepth_zero]
  by_cases first : index ≤ fanout
  · rw [if_neg root, if_pos first, retransmitDepth_first_layer positive (by omega) first]
    rfl
  rw [if_neg root, if_neg first]
  by_cases second : index ≤ fanout * (fanout + 1)
  · rw [if_pos ((le_saturating_iff small fits).mpr second),
      retransmitDepth_second_layer positive (by omega) second]
    rfl
  · have := three_le_retransmitDepth positive (by omega : fanout * (fanout + 1) < index)
    rw [if_neg (mt (le_saturating_iff small fits).mp second)]
    omega


theorem length_childPositions_le (positive : 0 < fanout) (count index : Nat) :
    (childPositions fanout count index).length ≤ fanout := by
  calc (childPositions fanout count index).length
      = ((retransmitPeerIndices fanout index).filter (· < count)).length := by
        rw [filter_retransmitPeerIndices positive]
    _ ≤ (retransmitPeerIndices fanout index).length := List.length_filter_le _ _
    _ = fanout := length_retransmitPeerIndices fanout index

/-- The retransmit tree spans the shuffled nodes: the root has no parent, every other node has
one at an earlier position, a node's peers are exactly the nodes whose parent it is (at most
`fanout` of them, in position order), so every node but the root is some node's peer exactly
once, and the root distance is the depth capped at three. -/
theorem retransmitTree_spanning (positive : 0 < fanout) (fits : fanout ≤ usizeMax)
    (nodes : List α) (small : nodes.length ≤ usizeMax) :
    getRetransmitParent fanout 0 nodes = some none ∧
    (∀ index, 0 < index → ∀ bound : index < nodes.length,
      ∃ parent, ∃ earlier : parent < index, retransmitParentIndex fanout index = some parent ∧
        getRetransmitParent fanout index nodes = some (some nodes[parent])) ∧
    (∀ index < nodes.length, ∀ pred : α → Bool,
      (∀ j (h : j < nodes.length), pred nodes[j] = true ↔ j = index) →
        getRetransmitPeers fanout pred nodes =
          some (index, (childPositions fanout nodes.length index).filterMap (nodes[·]?)) ∧
        (childPositions fanout nodes.length index).length ≤ fanout) ∧
    (∀ child, 0 < child → child < nodes.length →
      ∃! index, index < nodes.length ∧ child ∈ childPositions fanout nodes.length index) ∧
    (∀ index < nodes.length, getRootDistance index fanout = min (retransmitDepth fanout index) 3) ∧
    (∀ pred : α → Bool, (∀ node ∈ nodes, pred node = false) →
      getRetransmitPeers fanout pred nodes = some (usizeMax, [])) := by
  refine ⟨getRetransmitParent_root positive nodes, ?_, ?_, ?_, ?_, ?_⟩
  · intro index nonzero bound
    exact getRetransmitParent_eq positive nonzero bound
  · intro index bound pred identifies
    exact ⟨getRetransmitPeers_eq positive bound identifies,
      length_childPositions_le positive nodes.length index⟩
  · intro child nonzero bound
    exact existsUnique_childPositions positive nonzero bound
  · intro index bound
    exact getRootDistance_eq positive fits (by omega)
  · intro pred absent
    exact getRetransmitPeers_of_absent absent

end Validator.Turbine
