import Mathlib.Logic.Function.Basic

/-! A circular buffer: `count` items from cell `head` on, in an array of
`capacity` cells. -/

namespace Zapada.Foundation.RingBuffer

/-- The items in the buffer, oldest first. -/
def contents (cells : Nat → α) (capacity head count : Nat) : List α :=
  (List.range count).map fun i => cells ((head + i) % capacity)

@[simp] theorem length_contents (cells : Nat → α) (capacity head count : Nat) :
    (contents cells capacity head count).length = count := by
  simp [contents]

@[simp] theorem contents_zero (cells : Nat → α) (capacity head : Nat) :
    contents cells capacity head 0 = [] := rfl

theorem mod_ne_of_lt {capacity i j : Nat} (later : i < j) (near : j < i + capacity) :
    i % capacity ≠ j % capacity := by
  intro same
  have distance : (j - i) % capacity = 0 := Nat.sub_mod_eq_zero_of_mod_eq same.symm
  rw [Nat.mod_eq_of_lt (by omega)] at distance
  omega

theorem contents_push (cells : Nat → α) (item : α) (room : count < capacity) :
    contents (Function.update cells ((head + count) % capacity) item) capacity head (count + 1) =
      contents cells capacity head count ++ [item] := by
  unfold contents
  rw [List.range_succ, List.map_append, List.map_singleton, Function.update_self]
  congr 1
  refine List.map_congr_left fun i member => ?_
  have earlier : i < count := List.mem_range.mp member
  rw [Function.update_of_ne (mod_ne_of_lt (by omega) (by omega))]

theorem contents_pop (cells : Nat → α) (inside : head < capacity) :
    contents cells capacity head (count + 1) =
      cells head :: contents cells capacity ((head + 1) % capacity) count := by
  unfold contents
  rw [List.range_succ_eq_map, List.map_cons, List.map_map, Nat.add_zero, Nat.mod_eq_of_lt inside]
  congr 1
  refine List.map_congr_left fun i _ => ?_
  rw [Function.comp_apply, Nat.mod_add_mod]
  congr 2
  omega

/-- The cell behind the last item, before and after an item is stored. -/
theorem next_tail (capacity head count : Nat) :
    ((head + count) % capacity + 1) % capacity = (head + (count + 1)) % capacity := by
  rw [Nat.mod_add_mod]
  rfl

/-- The cell behind the last item does not move when the oldest is taken. -/
theorem same_tail (capacity head count : Nat) :
    ((head + 1) % capacity + count) % capacity = (head + (count + 1)) % capacity := by
  rw [Nat.mod_add_mod]
  congr 1
  omega

end Zapada.Foundation.RingBuffer
