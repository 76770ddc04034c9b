import Mathlib.Data.List.Nodup

/-! Singly linked lists threaded through the elements themselves: each element
has a link to the next one. The chain from a head is a list; linking and
unlinking change it as the list operations do. -/

namespace Zapada.Foundation

open Function

variable {α : Type}

/-- The elements that the links visit from a head up to the null link. -/
inductive Chain (next : α → Option α) : Option α → List α → Prop where
  | nil : Chain next none []
  | cons (rest : Chain next (next a) list) : Chain next (some a) (a :: list)

namespace Chain

/-- Walk along the links for at most `fuel` elements. -/
def walk (next : α → Option α) : Nat → Option α → List α
  | 0, _ => []
  | _ + 1, none => []
  | fuel + 1, some a => a :: walk next fuel (next a)

/-- Is an element on the walk from a head? -/
def visits [DecidableEq α] (next : α → Option α) (target : α) : Nat → Option α → Bool
  | 0, _ => false
  | _ + 1, none => false
  | fuel + 1, some a => if a = target then true else visits next target fuel (next a)

/-- Search for an element and keep the one before it. -/
def before [DecidableEq α] (next : α → Option α) (target : α) : Nat → Option α → Option α →
      Option (Option α)
  | 0, _, _ => none
  | _ + 1, _, none => none
  | fuel + 1, prev, some a =>
    if a = target then some prev else before next target fuel (some a) (next a)

theorem congr {next next' : α → Option α} (chain : Chain next head list)
    (same : ∀ a ∈ list, next a = next' a) : Chain next' head list := by
  induction chain with
  | nil => exact .nil
  | @cons a list rest ih =>
    refine .cons ?_
    rw [← same a (List.mem_cons_self ..)]
    exact ih fun b member => same b (List.mem_cons_of_mem _ member)

variable {next : α → Option α}

theorem head_eq (chain : Chain next head list) : head = list.head? := by
  cases chain <;> rfl

theorem nil_iff : Chain next head [] ↔ head = none := by
  constructor
  · intro chain
    cases chain
    rfl
  · rintro rfl
    exact .nil

theorem cons_iff : Chain next head (a :: list) ↔ head = some a ∧ Chain next (next a) list := by
  constructor
  · intro chain
    cases chain with
    | cons rest => exact ⟨rfl, rest⟩
  · rintro ⟨rfl, rest⟩
    exact .cons rest

theorem unique (chain : Chain next head list) (other : Chain next head list') : list = list' := by
  induction chain generalizing list' with
  | nil =>
    cases other
    rfl
  | cons rest ih =>
    cases other with
    | cons later => rw [ih later]

theorem walk_eq (chain : Chain next head list) (enough : list.length ≤ fuel) :
    walk next fuel head = list := by
  induction chain generalizing fuel with
  | nil => cases fuel <;> rfl
  | cons rest ih =>
    obtain ⟨fuel, rfl⟩ : ∃ less, fuel = less + 1 := ⟨fuel - 1, by simp at enough; omega⟩
    rw [walk, ih (by simpa using enough)]

variable [DecidableEq α]

theorem visits_iff (chain : Chain next head list)
    (enough : list.length ≤ fuel) : visits next target fuel head = true ↔ target ∈ list := by
  induction chain generalizing fuel with
  | nil => cases fuel <;> simp [visits]
  | @cons a list rest ih =>
    obtain ⟨fuel, rfl⟩ : ∃ less, fuel = less + 1 := ⟨fuel - 1, by simp at enough; omega⟩
    rw [visits, List.mem_cons]
    by_cases same : a = target
    · simp [same]
    · have other : target ≠ a := fun equal => same equal.symm
      simp only [same, if_false, other, false_or]
      exact ih (by simpa using enough)

theorem before_none (chain : Chain next head list) (absent : target ∉ list) :
    before next target fuel prev head = none := by
  induction chain generalizing fuel prev with
  | nil => cases fuel <;> rfl
  | @cons a list rest ih =>
    rw [List.mem_cons, not_or] at absent
    cases fuel with
    | zero => rfl
    | succ fuel =>
      rw [before, if_neg fun same => absent.1 same.symm]
      exact ih absent.2

theorem before_found (first : List α) (chain : Chain next head (first ++ target :: rest))
    (fresh : target ∉ first) (enough : first.length < fuel) :
    before next target fuel prev head = some (first.getLast?.or prev) := by
  induction first generalizing head fuel prev with
  | nil =>
    obtain ⟨fuel, rfl⟩ : ∃ less, fuel = less + 1 := ⟨fuel - 1, by simp at enough; omega⟩
    cases chain
    simp [before]
  | cons a first ih =>
    obtain ⟨fuel, rfl⟩ : ∃ less, fuel = less + 1 := ⟨fuel - 1, by simp at enough; omega⟩
    rw [List.mem_cons, not_or] at fresh
    cases chain with
    | cons tail =>
      rw [before, if_neg fun same => fresh.1 same.symm, ih tail fresh.2 (by simpa using enough)]
      cases first with
      | nil => rfl
      | cons b first =>
        rw [List.getLast?_cons_cons]
        cases last : (b :: first).getLast? with
        | none => simp at last
        | some c => rfl

theorem append (chain : Chain next head list)
    (last : list.getLast? = some tail) (fresh : a ∉ list) (nodup : list.Nodup) :
    Chain (update (update next a none) tail (some a)) head (list ++ [a]) := by
  induction chain with
  | nil => simp at last
  | @cons b list rest ih =>
    rw [List.mem_cons, not_or] at fresh
    rw [List.nodup_cons] at nodup
    cases list with
    | nil =>
      simp only [List.getLast?_singleton] at last
      cases last
      refine .cons ?_
      rw [update_self]
      refine .cons ?_
      rw [update_of_ne fresh.1, update_self]
      exact .nil
    | cons c list =>
      have tailMember : tail ∈ c :: list := List.mem_of_getLast? last
      have notTail : b ≠ tail := fun same => nodup.1 (same ▸ tailMember)
      have notNew : b ≠ a := fun same => fresh.1 same.symm
      refine .cons ?_
      rw [update_of_ne notTail, update_of_ne notNew]
      exact ih last fresh.2 nodup.2

theorem single : Chain (update next a none) (some a) [a] := by
  refine .cons ?_
  rw [update_self]
  exact .nil

theorem pop (chain : Chain next (some a) (a :: list)) (fresh : a ∉ list) :
    Chain (update next a none) (next a) list := by
  cases chain with
  | cons rest =>
    refine rest.congr fun b member => ?_
    have other : b ≠ a := by
      rintro rfl
      exact fresh member
    rw [update_of_ne other]

theorem unlink (first : List α) (chain : Chain next head (first ++ a :: rest))
    (last : first.getLast? = some prev) (nodup : (first ++ a :: rest).Nodup) :
    Chain (update (update next prev (next a)) a none) head (first ++ rest) := by
  induction first generalizing head with
  | nil => simp at last
  | cons b first ih =>
    rw [List.cons_append, List.nodup_cons] at nodup
    have notA : b ≠ a := by
      rintro rfl
      exact nodup.1 (by simp)
    cases chain with
    | cons tail =>
      refine .cons ?_
      rw [update_of_ne notA]
      cases first with
      | nil =>
        simp only [List.getLast?_singleton, Option.some.injEq] at last
        subst last
        rw [update_self]
        obtain ⟨-, tail⟩ := cons_iff.mp tail
        rw [List.nil_append, List.nodup_cons] at nodup
        refine tail.congr fun c member => ?_
        have notB : c ≠ b := by
          rintro rfl
          exact nodup.1 (by simp [member])
        have notSelf : c ≠ a := by
          rintro rfl
          exact nodup.2.1 member
        rw [update_of_ne notSelf, update_of_ne notB]
      | cons c first =>
        have prevMember : prev ∈ c :: first := List.mem_of_getLast? last
        have notPrev : b ≠ prev := by
          rintro rfl
          exact nodup.1 (List.mem_append_left _ prevMember)
        rw [update_of_ne notPrev]
        exact ih tail last nodup.2

end Chain

end Zapada.Foundation
