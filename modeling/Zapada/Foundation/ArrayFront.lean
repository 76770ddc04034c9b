import Mathlib.Data.List.Range

/-! The first elements of an array as a list, and what pushing, popping and closing a gap
do to it. -/

namespace Zapada.Foundation

open Function

/-- The first `count` elements of an array. -/
def front (array : Nat → α) (count : Nat) : List α := (List.range count).map array

@[simp] theorem length_front (array : Nat → α) (count : Nat) :
    (front array count).length = count := by
  simp [front]

@[simp] theorem front_zero (array : Nat → α) : front array 0 = [] := rfl

theorem front_succ (array : Nat → α) (count : Nat) :
    front array (count + 1) = front array count ++ [array count] := by
  simp [front, List.range_succ]

theorem front_congr {array other : Nat → α} (same : ∀ i < count, array i = other i) :
    front array count = front other count := by
  apply List.map_congr_left
  intro i member
  exact same i (List.mem_range.mp member)

theorem front_push (array : Nat → α) (count : Nat) (value : α) :
    front (update array count value) (count + 1) = front array count ++ [value] := by
  rw [front_succ, update_self]
  congr 1
  apply front_congr
  intro i below
  exact update_of_ne (by omega) _ _

theorem front_add (array : Nat → α) (first second : Nat) :
    front array (first + second) = front array first ++ front (fun i => array (first + i))
      second := by
  simp [front, List.range_add]

/-- The copy loop that closes a gap of `gap` elements in front of `index`. -/
def shiftDown (gap : Nat) : (remaining index : Nat) → (Nat → α) → Nat → α
  | 0, _, array => array
  | remaining + 1, index, array =>
    shiftDown gap remaining (index + 1) (Function.update array (index - gap) (array index))

theorem shiftDown_apply (positive : 0 < gap) (remaining : Nat) (covered : gap ≤ index)
    (array : Nat → α) (i : Nat) : shiftDown gap remaining index array i =
      if index - gap ≤ i ∧ i < index - gap + remaining then array (i + gap) else array i := by
  induction remaining generalizing index array with
  | zero =>
    rw [if_neg (by omega)]
    rfl
  | succ remaining ih =>
    rw [shiftDown, ih (by omega)]
    by_cases here : i = index - gap
    · subst here
      rw [if_neg (by omega), if_pos (by omega), update_self]
      congr 1
      omega
    · by_cases later : index - gap ≤ i ∧ i < index - gap + (remaining + 1)
      · rw [if_pos later, if_pos (by omega), update_of_ne (by omega)]
      · rw [if_neg later, if_neg (by omega), update_of_ne here]

theorem front_shiftDown (positive : 0 < gap) (array : Nat → α) (start rest : Nat) :
    front (shiftDown gap rest (start + gap) array) (start + rest) =
      front array start ++ front (fun i => array (start + gap + i)) rest := by
  rw [front_add]
  congr 1
  · apply front_congr
    intro i below
    rw [shiftDown_apply positive _ (by omega), if_neg (by omega)]
  · apply front_congr
    intro i below
    rw [shiftDown_apply positive _ (by omega), if_pos (by omega)]
    congr 1
    omega

end Zapada.Foundation
