import Mathlib.Data.List.Basic

/-! Balanced search trees over ranges of numbers. An index node names the first
number of each child; a tree stands for the list of ranges in its leaves. -/

namespace Zapada.Foundation

open List Option

/-- A tree of some depth, each child with its first number and a pointer to it. -/
def RangeTree (Pointer Entry : Type) : (depth : Nat) → Type
  | 0 => List Entry
  | depth + 1 => List (Nat × Pointer × RangeTree Pointer Entry depth)

namespace RangeTree

variable {Pointer Entry Tree : Type}

def entries : (depth : Nat) → RangeTree Pointer Entry depth → List Entry
  | 0, leaf => leaf
  | depth + 1, children => List.flatMap (fun child => entries depth child.2.2) children

/-- The last child that starts at or below a number. -/
def lastBelow (x : Nat) : List (Nat × Pointer × Tree) → Option (Pointer × Tree)
  | [] => none
  | child :: rest => (lastBelow x rest).or (if child.1 ≤ x then some child.2 else none)

variable {children : List (Nat × Pointer × Tree)}

theorem mem_of_lastBelow (chosen : lastBelow x children = some found) :
    ∃ start, (start, found) ∈ children := by
  induction children with
  | nil => contradiction
  | cons child rest ih =>
    rw [lastBelow, or_eq_some_iff] at chosen
    rcases chosen with later | ⟨-, here⟩
    · obtain ⟨start, member⟩ := ih later
      exact ⟨start, mem_cons_of_mem _ member⟩
    · split at here
      · cases here
        exact ⟨child.1, mem_cons_self⟩
      · contradiction

section Ranges

variable (first count : Entry → Nat)

def Covers (x : Nat) (entry : Entry) : Prop := first entry ≤ x ∧ x < first entry + count entry

instance (x : Nat) (entry : Entry) : Decidable (Covers first count x entry) :=
  inferInstanceAs (Decidable (_ ∧ _))

/-- Sorted entries without overlap, between two bounds. -/
def OrderedLeaf (low high : Nat) : List Entry → Prop
  | [] => low ≤ high
  | entry :: rest => low ≤ first entry ∧ OrderedLeaf (first entry + count entry) high rest

/-- Sorted children, each between its own start and the start of the next one. -/
def OrderedChildren (ordered : Nat → Nat → Tree → Prop) (low high : Nat) :
    List (Nat × Pointer × Tree) → Prop
  | [] => low ≤ high
  | [child] => low ≤ child.1 ∧ ordered child.1 high child.2.2
  | child :: next :: rest => low ≤ child.1 ∧ child.1 < next.1 ∧ ordered child.1 next.1 child.2.2 ∧
      OrderedChildren ordered next.1 high (next :: rest)

def Ordered : (depth : Nat) → (low high : Nat) → RangeTree Pointer Entry depth → Prop
  | 0, low, high, leaf => OrderedLeaf first count low high leaf
  | depth + 1, low, high, children => OrderedChildren (Ordered depth) low high children

def find (x : Nat) (listed : List Entry) : Option Entry :=
  listed.find? fun entry => decide (Covers first count x entry)

variable {first count}

theorem OrderedLeaf.le (ordered : OrderedLeaf first count low high leaf) : low ≤ high := by
  induction leaf generalizing low with
  | nil => exact ordered
  | cons entry rest ih =>
    have later := ih ordered.2
    have start := ordered.1
    omega

theorem OrderedLeaf.bounds (ordered : OrderedLeaf first count low high leaf) :
    ∀ entry ∈ leaf, low ≤ first entry ∧ first entry + count entry ≤ high := by
  induction leaf generalizing low with
  | nil => simp
  | cons entry rest ih =>
    obtain ⟨start, later⟩ := ordered
    intro other member
    rcases mem_cons.mp member with rfl | member
    · exact ⟨start, later.le⟩
    · have inside := ih later other member
      omega

variable {ordered : Nat → Nat → Tree → Prop}

theorem OrderedChildren.le (bounded : ∀ low high tree, ordered low high tree → low ≤ high)
    (sorted : OrderedChildren ordered low high children) : low ≤ high := by
  induction children generalizing low with
  | nil => exact sorted
  | cons child rest ih =>
    cases rest with
    | nil => exact Nat.le_trans sorted.1 (bounded _ _ _ sorted.2)
    | cons next rest =>
      obtain ⟨start, step, -, later⟩ := sorted
      have rest := ih later
      omega

theorem Ordered.le : {depth : Nat} → {low high : Nat} → {tree : RangeTree Pointer Entry depth} →
    Ordered first count depth low high tree → low ≤ high
  | 0, _, _, _, ordered => OrderedLeaf.le ordered
  | _ + 1, _, _, _, ordered => OrderedChildren.le (fun _ _ _ inner => Ordered.le inner) ordered

theorem OrderedChildren.child (sorted : OrderedChildren ordered low high children) :
    ∀ child ∈ children, ∃ low high, ordered low high child.2.2 := by
  induction children generalizing low with
  | nil => simp
  | cons child rest ih =>
    intro other member
    cases rest with
    | nil =>
      obtain rfl := mem_singleton.mp member
      exact ⟨_, _, sorted.2⟩
    | cons next rest =>
      obtain ⟨-, -, ordered, later⟩ := sorted
      rcases mem_cons.mp member with rfl | member
      · exact ⟨_, _, ordered⟩
      · exact ih later other member

/-- What lies between the bounds of every child lies between the outer bounds. -/
theorem OrderedChildren.bounds {listed : Tree → List Entry}
    (bounded : ∀ low high tree, ordered low high tree → low ≤ high)
    (inside : ∀ low high tree, ordered low high tree →
      ∀ entry ∈ listed tree, low ≤ first entry ∧ first entry + count entry ≤ high)
    (sorted : OrderedChildren ordered low high children) :
    ∀ entry ∈ children.flatMap fun child => listed child.2.2,
      low ≤ first entry ∧ first entry + count entry ≤ high := by
  induction children generalizing low with
  | nil => simp
  | cons child rest ih =>
    intro entry member
    rw [flatMap_cons, mem_append] at member
    cases rest with
    | nil =>
      obtain ⟨start, ordered⟩ := sorted
      rcases member with member | member
      · have within := inside _ _ _ ordered entry member
        omega
      · contradiction
    | cons next rest =>
      obtain ⟨start, step, ordered, later⟩ := sorted
      have upper := OrderedChildren.le bounded later
      rcases member with member | member
      · have within := inside _ _ _ ordered entry member
        omega
      · have within := ih later entry member
        omega

theorem Ordered.bounds : {depth : Nat} → {low high : Nat} → {tree : RangeTree Pointer Entry depth} →
    Ordered first count depth low high tree →
    ∀ entry ∈ entries depth tree, low ≤ first entry ∧ first entry + count entry ≤ high
  | 0, _, _, _, ordered => OrderedLeaf.bounds ordered
  | _ + 1, _, _, _, ordered =>
    OrderedChildren.bounds (fun _ _ _ inner => inner.le) (fun _ _ _ inner => inner.bounds) ordered

theorem lastBelow_eq_none {child : Nat × Pointer × Tree} {rest : List (Nat × Pointer × Tree)}
    (below : x < child.1) (sorted : OrderedChildren ordered low high (child :: rest)) :
    lastBelow x (child :: rest) = none := by
  induction rest generalizing low child with
  | nil => simp [lastBelow, below]
  | cons next rest ih =>
    obtain ⟨-, step, -, later⟩ := sorted
    rw [lastBelow, ih (by omega) later, if_neg (by omega)]
    rfl

theorem find_eq_none (outside : ∀ entry ∈ listed, ¬ Covers first count x entry) :
    find first count x listed = none := by
  simpa [find] using outside

theorem find_append (x : Nat) (front back : List Entry) :
    find first count x (front ++ back) = (find first count x front).or
      (find first count x back) := by
  simp [find]

/-- The covering entry is in the last child that starts at or below the number. -/
theorem OrderedChildren.find_eq {listed : Tree → List Entry}
    (inside : ∀ low high tree, ordered low high tree →
      ∀ entry ∈ listed tree, low ≤ first entry ∧ first entry + count entry ≤ high)
    (sorted : OrderedChildren ordered low high children) :
    find first count x (children.flatMap fun child => listed child.2.2) =
      (lastBelow x children).bind fun chosen => find first count x (listed chosen.2) := by
  induction children generalizing low with
  | nil => rfl
  | cons child rest ih =>
    rw [flatMap_cons, find_append]
    cases rest with
    | nil =>
      obtain ⟨-, ordered⟩ := sorted
      simp only [lastBelow, flatMap_nil, none_or]
      split
      · simp [find]
      · rename_i above
        rw [find_eq_none fun entry member covers => by
          have within := inside _ _ _ ordered entry member
          have start := covers.1
          omega]
        rfl
    | cons next rest =>
      obtain ⟨-, step, ordered, later⟩ := sorted
      have outer : lastBelow x (child :: next :: rest) =
        (lastBelow x (next :: rest)).or (if child.1 ≤ x then some child.2 else none) := rfl
      rw [outer]
      by_cases reached : next.1 ≤ x
      · -- the first child ends before the number
        rw [find_eq_none fun entry member covers => by
          have within := inside _ _ _ ordered entry member
          have stop := covers.2
          omega, none_or, ih later]
        have chosen : (lastBelow x (next :: rest)).isSome := by
          simp [lastBelow, reached]
        obtain ⟨found, isFound⟩ := isSome_iff_exists.mp chosen
        rw [isFound]
        rfl
      · rw [ih later, lastBelow_eq_none (Nat.lt_of_not_le reached) later]
        simp only [bind_none, or_none, none_or]
        split
        · rfl
        · rename_i above
          rw [find_eq_none fun entry member covers => by
            have within := inside _ _ _ ordered entry member
            have start := covers.1
            omega]
          rfl

theorem Ordered.find_eq {tree : RangeTree Pointer Entry (depth + 1)}
    (ordered : Ordered first count (depth + 1) low high tree) :
    find first count x (entries (depth + 1) tree) =
      (lastBelow x tree).bind fun chosen => find first count x (entries depth chosen.2) :=
  OrderedChildren.find_eq (fun _ _ _ inner => inner.bounds) ordered

end Ranges

end RangeTree

end Zapada.Foundation
