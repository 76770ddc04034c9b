import Mathlib.Init

/-! Computations that may fail: what a success went through, and loops that differ in
their failures only. -/

namespace Zapada.Foundation

theorem bind_eq_ok {action : Except ε α} {next : α → Except ε β}
    (done : action >>= next = .ok result) :
    ∃ value, action = .ok value ∧ next value = .ok result := by
  cases action with
  | error failure => cases done
  | ok value => exact ⟨value, rfl, done⟩

theorem eq_ok {result : Except ε α} (present : result.toOption = some value) :
    result = .ok value := by
  cases result with
  | error reason => cases present
  | ok found => exact congrArg _ (Option.some.inj present)

theorem passed_check [Decidable wrong] {action : Except ε α}
    (checked : (if wrong then .error reason else action) = .ok result) : ¬ wrong ∧
      action = .ok result := by
  split at checked
  · cases checked
  · exact ⟨‹_›, checked⟩

theorem foldlM_mapError {α : Type} {one : σ → α → Except ρ σ} {two : σ → α → Except τ σ} {f : ρ → τ}
    (steps : ∀ state item, two state item = (one state item).mapError f) (items : List α)
    (state : σ) :
    items.foldlM two state = (items.foldlM one state).mapError f := by
  induction items generalizing state with
  | nil => rfl
  | cons item rest ih =>
    rw [List.foldlM_cons, List.foldlM_cons, steps]
    cases one state item with
    | error result => rfl
    | ok next => exact ih next

end Zapada.Foundation
