import Mathlib.Data.List.Range

/-! Loops that choose the eligible index of least weight, and that choose again behind it. -/

namespace Zapada.Foundation

section Least

variable {wanted : Nat → Bool} (eligible : Nat → Bool) (weight : Nat → Nat)

/-- The loop over the indexes that remain; an equal weight does not replace what was found. -/
def leastFrom : (remaining index : Nat) → Option Nat → Option Nat
  | 0, _, found => found
  | remaining + 1, index, found =>
    leastFrom remaining (index + 1)
      (if eligible index && found.all (fun best => weight index < weight best) then
        some index else found)

/-- The first eligible index of least weight in a range. -/
def leastIndex (start bound : Nat) : Option Nat :=
  leastFrom eligible weight (bound - start) start none

variable {eligible weight}

theorem leastFrom_some (remaining index best : Nat) :
    leastFrom eligible weight remaining index (some best) =
    (leastFrom eligible weight remaining index none).elim (some best)
      fun later => some (if weight later < weight best then later else best) := by
  induction remaining generalizing index best with
  | zero => rfl
  | succ remaining ih =>
    simp only [leastFrom, Option.all_none, Bool.and_true, Option.all_some]
    by_cases here : eligible index
    · by_cases lighter : weight index < weight best
      · simp only [here, lighter, decide_true, Bool.and_self, if_true, ih]
        cases leastFrom eligible weight remaining (index + 1) none <;> grind
      · simp only [here, lighter, decide_false, Bool.and_false, Bool.false_eq_true, if_false,
          if_true, ih]
        cases leastFrom eligible weight remaining (index + 1) none <;> grind
    · simp [here, ih]

/-- An eligible index is chosen unless a lighter one comes behind it. -/
theorem leastIndex_step (inside : start < bound) : leastIndex eligible weight start bound =
    if eligible start ∧
      (leastIndex eligible weight (start + 1) bound).all (weight start ≤ weight ·) then some start
    else leastIndex eligible weight (start + 1) bound := by
  obtain ⟨remaining, rfl⟩ := Nat.exists_eq_add_of_lt inside
  have here : start + remaining + 1 - start = remaining + 1 := by omega
  have later : start + remaining + 1 - (start + 1) = remaining := by omega
  simp only [leastIndex, here, later, leastFrom, Option.all_none, Bool.and_true]
  by_cases admitted : eligible start
  · simp only [admitted, if_true, true_and, leastFrom_some]
    cases leastFrom eligible weight remaining (start + 1) none <;> grind
  · simp [admitted]

variable (eligible weight) in
theorem leastIndex_spec (start bound : Nat) : match leastIndex eligible weight start bound with
    | none => ∀ index, start ≤ index → index < bound → ¬ eligible index
    | some best => start ≤ best ∧ best < bound ∧ eligible best ∧
        ∀ index, start ≤ index → index < bound → eligible index → weight best ≤ weight index := by
  induction remaining : bound - start generalizing start with
  | zero =>
    simp only [leastIndex, remaining, leastFrom]
    omega
  | succ remaining ih =>
    have rest := ih (start + 1) (by omega)
    rw [leastIndex_step (by omega)]
    cases later : leastIndex eligible weight (start + 1) bound <;> rw [later] at rest <;> grind

/-- The choices of a loop that goes on behind each index it has chosen. -/
def selectFrom (eligible : Nat → Bool) (weight : Nat → Nat) (bound : Nat) :
    (fuel start : Nat) → List Nat
  | 0, _ => []
  | fuel + 1, start =>
    match leastIndex eligible weight start bound with
    | none => []
    | some index => index :: selectFrom eligible weight bound fuel (index + 1)

/-- The wanted indexes of a range, in order. -/
def indexesFrom (wanted : Nat → Bool) (start bound : Nat) : List Nat :=
  (List.range' start (bound - start)).filter wanted

theorem mem_indexesFrom : index ∈ indexesFrom wanted start bound ↔ start ≤ index ∧ index < bound ∧
      wanted index := by
  rw [indexesFrom, List.mem_filter, List.mem_range'_1]
  constructor
  · rintro ⟨⟨lower, upper⟩, member⟩
    exact ⟨lower, by omega, member⟩
  · rintro ⟨lower, upper, member⟩
    exact ⟨⟨lower, by omega⟩, member⟩

theorem indexesFrom_pairwise : (indexesFrom wanted start bound).Pairwise (· < ·) :=
  (List.pairwise_lt_range' ..).filter _

theorem indexesFrom_step (inside : start < bound) : indexesFrom wanted start bound =
    if wanted start then start :: indexesFrom wanted (start + 1) bound else indexesFrom wanted
      (start + 1) bound := by
  have range : bound - start = bound - (start + 1) + 1 := by omega
  rw [indexesFrom, range, List.range'_succ, List.filter_cons, indexesFrom]

/-- When the choices are the wanted indexes: these are eligible and of growing weight, and any
other eligible index is passed over for a lighter one behind it. -/
structure Selects (eligible wanted : Nat → Bool) (weight : Nat → Nat)
    (start bound : Nat) : Prop where
  admitted : ∀ index, start ≤ index → index < bound → wanted index → eligible index
  growing : ∀ index later, start ≤ index → index < later → later < bound → wanted index →
    wanted later → weight index ≤ weight later
  passed : ∀ index, start ≤ index → index < bound → eligible index → ¬ wanted index →
    ∃ later, index < later ∧ later < bound ∧ wanted later ∧ weight later < weight index

theorem leastIndex_all (bound least : Nat) :
    (leastIndex eligible weight start bound).all (least ≤ weight ·) ↔
    ∀ index, start ≤ index → index < bound → eligible index → least ≤ weight index := by
  have spec := leastIndex_spec eligible weight start bound
  cases found : leastIndex eligible weight start bound <;> rw [found] at spec <;> grind

theorem selects_step (inside : start < bound) : Selects eligible wanted weight start bound ↔
    (wanted start ↔ eligible start ∧ (leastIndex eligible weight (start + 1) bound).all
      (weight start ≤ weight ·)) ∧
      Selects eligible wanted weight (start + 1) bound := by
  rw [leastIndex_all]
  constructor
  · intro selects
    have passed := selects.passed
    have growing := selects.growing start
    have admitted := selects.admitted
    refine ⟨?_, ?_, ?_, ?_⟩
    · constructor
      · intro member
        refine ⟨admitted start (Nat.le_refl _) inside member, ?_⟩
        intro index behind upper admitted'
        by_cases member' : wanted index
        · exact growing index (Nat.le_refl _) behind upper member member'
        · obtain ⟨later, behind', upper', member', lighter⟩ :=
            passed index (by omega) upper admitted' member'
          have grows := growing later (Nat.le_refl _) (by omega) upper' member member'
          omega
      · rintro ⟨here, lightest⟩
        by_contra unwanted
        obtain ⟨later, behind, upper, member, lighter⟩ :=
          passed start (Nat.le_refl _) inside here unwanted
        have heavier := lightest later behind upper (admitted later (by omega) upper member)
        omega
    · exact fun index behind => selects.admitted index (by omega)
    · exact fun index later behind => selects.growing index later (by omega)
    · exact fun index behind => selects.passed index (by omega)
  · rintro ⟨chosen, rest⟩
    have admitted := rest.admitted
    have growing := rest.growing
    have passed := rest.passed
    constructor
    case admitted => grind
    case growing => grind
    case passed => grind

/-- The loop chooses exactly the wanted indexes, in order, under the conditions above. -/
theorem selectFrom_eq_iff (enough : bound - start < fuel) (ordered : start ≤ bound) :
    selectFrom eligible weight bound fuel start = indexesFrom wanted start bound ↔
      Selects eligible wanted weight start bound := by
  obtain ⟨fuel, rfl⟩ : ∃ less, fuel = less + 1 := ⟨fuel - 1, by omega⟩
  induction remaining : bound - start generalizing start fuel with
  | zero =>
    have done : start = bound := by omega
    subst done
    simp only [selectFrom, leastIndex, indexesFrom, Nat.sub_self, leastFrom, List.range'_zero,
      List.filter_nil, true_iff]
    constructor <;> omega
  | succ remaining ih =>
    have inside : start < bound := by omega
    have later : ∀ index ∈ indexesFrom wanted (start + 1) bound, start < index :=
      fun index member => (mem_indexesFrom.mp member).1
    have spec := leastIndex_spec eligible weight (start + 1) bound
    rw [indexesFrom_step inside, selects_step inside, selectFrom, leastIndex_step inside]
    by_cases chosen :
        eligible start ∧
          (leastIndex eligible weight (start + 1) bound).all (weight start ≤ weight ·)
    · obtain ⟨fuel, rfl⟩ : ∃ less, fuel = less + 1 := ⟨fuel - 1, by omega⟩
      have rest := ih inside fuel (by omega) (by omega)
      rw [if_pos chosen]
      by_cases member : wanted start
      · simp [member, chosen, rest]
      · rw [if_neg member]
        refine iff_of_false (fun same => ?_) fun both => member (both.1.mpr chosen)
        exact Nat.lt_irrefl start (later start (same ▸ List.mem_cons_self))
    · have rest := ih inside fuel (by omega) (by omega)
      rw [if_neg chosen]
      by_cases member : wanted start
      · rw [if_pos member]
        refine iff_of_false (fun same => ?_) fun both => chosen (both.1.mp member)
        cases found : leastIndex eligible weight (start + 1) bound with
        | none => simp [found] at same
        | some best =>
          rw [found] at spec same
          have first := (List.cons.inj same).1
          omega
      · simp [member, chosen, ← rest, selectFrom]

end Least

end Zapada.Foundation
