import Zapada.Foundation.InternTable

/-! Lookups that intern what they find: what they show depends on the table only
through the room that is left in it. -/

namespace Zapada.Foundation.Slots

open List

variable {n : Nat} {ν κ ε ω : Type} [DecidableEq κ] (key : ν → κ)

/-- What a lookup shows that comes over these values: the last one, or what stopped it. -/
def answer (slots : Slots n ν) (full : ε) (start : ω) (observe : ν → ω) (values : List ν)
    (stop : Option ε) : Except ε ω :=
  if slots.Fits key values then
    match stop with
    | some reason => .error reason
    | none => .ok ((values.getLast?.map observe).getD start)
  else .error full

/-- What a listing shows of the entries at the end of a path, and how it ends. -/
def report (slots : Slots n ν) (full status : ε) (observe : ν → ω) (path entries : List ν) :
    Except ε (ε × List ω) :=
  if slots.Fits key path then
    .ok (if slots.Fits key (path ++ entries) then status else full,
      (((slots.internEach key path).2.internEach key entries).1.map Prod.snd).map observe)
  else .error full

/-- What a lookup that interns one value after the other returns: the handle of the last
one, or what stopped it. -/
def outcome (full : ε) (handleOf : Fin n → ε) (start : ε) (values : List ν) (stop : Option ε)
    (done : List (Fin n × ν)) : ε :=
  if done.length < values.length then full
  else
    match stop, done.getLast? with
    | some reason, _ => reason
    | none, some (i, _) => handleOf i
    | none, none => start

omit [DecidableEq κ] in
theorem outcome_cons (full : ε) (handleOf : Fin n → ε) (start : ε) (value : ν) (values : List ν)
    (stop : Option ε) (i : Fin n) (done : List (Fin n × ν)) :
    outcome full handleOf start (value :: values) stop ((i, value) :: done) =
      outcome full handleOf (handleOf i) values stop done := by
  simp only [outcome, length_cons, Nat.add_lt_add_iff_right, getLast?_cons]
  cases stop with
  | some reason => rfl
  | none => cases done.getLast? <;> rfl

variable {slots fresh : Slots n ν}

theorem outcome_full (narrow : ¬ slots.Fits key values) (full : ε)
    (handleOf : Fin n → ε) (start : ε) (stop : Option ε) :
    outcome full handleOf start values stop (slots.internEach key values).1 = full := by
  have part := internEach_initial key slots values
  have short : (slots.internEach key values).1.length < values.length := by
    by_contra long
    refine narrow ((fits_iff key).mpr (part.eq_of_length_le ?_))
    rw [length_map]
    omega
  simp [outcome, if_pos short]

/-- The outcome for values that fit: the start, or the handle of the last value's slot. -/
theorem outcome_fits (fits : slots.Fits key values) (full : ε) (handleOf : Fin n → ε) (start : ε) :
    (values = [] ∧ outcome full handleOf start values none
      (slots.internEach key values).1 = start) ∨
      ∃ last i, values.getLast? = some last ∧ (i, last) ∈ (slots.internEach key values).1 ∧
        outcome full handleOf start values none (slots.internEach key values).1 = handleOf i := by
  have all := (fits_iff key).mp fits
  have length := congrArg length all
  rw [length_map] at length
  have enough : ¬ (slots.internEach key values).1.length < values.length := by omega
  have isLast := congrArg getLast? all
  rw [getLast?_map] at isLast
  simp only [outcome, if_neg enough]
  cases reached : (slots.internEach key values).1.getLast? with
  | none =>
    rw [getLast?_eq_none_iff] at reached
    rw [reached] at all
    exact .inl ⟨all.symm, rfl⟩
  | some done =>
    rw [reached] at isLast
    exact .inr ⟨done.2, done.1, isLast.symm, mem_of_getLast? reached, rfl⟩

section

variable (narrower : ∀ values, slots.Fits key values → fresh.Fits key values)

include narrower

/-- Two tables answer alike exactly if the one that has less room has enough, or the
other has not. -/
theorem answer_eq_iff (full : ε) (start : ω) (observe : ν → ω) (values : List ν) :
    slots.answer key full start observe values none =
      fresh.answer key full start observe values none ↔
      (fresh.Fits key values → slots.Fits key values) := by
  simp only [answer]
  by_cases fits : slots.Fits key values
  · simp [fits, narrower values fits]
  · by_cases room : fresh.Fits key values
    · simp [fits, room]
    · simp [fits, room]

theorem internEach_same_iff (values : List ν) :
    (slots.internEach key values).1.map Prod.snd = (fresh.internEach key values).1.map Prod.snd ↔
      ∀ count ≤ values.length, fresh.Fits key (values.take count) →
        slots.Fits key (values.take count) := by
  have here := internEach_initial key slots values
  have there := internEach_initial key fresh values
  have hereLength := here.length_le
  have thereLength := there.length_le
  rw [length_map] at hereLength thereLength
  constructor
  · intro same count within fits
    have counted := congrArg length same
    rw [length_map, length_map] at counted
    rw [← le_length_internEach key _ _ within] at fits ⊢
    omega
  · intro enough
    have more := enough _ thereLength
      ((le_length_internEach key fresh values thereLength).mp (Nat.le_refl _))
    rw [← le_length_internEach key slots values thereLength] at more
    have less := narrower _ ((le_length_internEach key slots values hereLength).mp (Nat.le_refl _))
    rw [← le_length_internEach key fresh values hereLength] at less
    rw [prefix_iff_eq_take.mp here, prefix_iff_eq_take.mp there, length_map,
      length_map, Nat.le_antisymm less more]

/-- Two tables report alike exactly if every beginning of the entries that fits the
wider table fits the other one. -/
theorem report_eq_iff (full status : ε) (observe : ν → ω) (path entries : List ν) :
    slots.report key full status observe path entries =
      fresh.report key full status observe path entries ↔
      ∀ count ≤ entries.length, fresh.Fits key (path ++ entries.take count) →
        slots.Fits key (path ++ entries.take count) := by
  by_cases fits : slots.Fits key path
  · have room := narrower path fits
    have behind : ∀ values, (slots.internEach key path).2.Fits key values →
        (fresh.internEach key path).2.Fits key values := by
      intro values
      rw [← fits_append key fits, ← fits_append key room]
      exact narrower _
    have same := internEach_same_iff key behind entries
    simp only [← fits_append key fits, ← fits_append key room] at same
    simp only [report, if_pos fits, if_pos room, Except.ok.injEq, Prod.mk.injEq]
    rw [← same]
    constructor
    · rintro ⟨-, shown⟩
      have counted := congrArg length shown
      simp only [length_map] at counted
      rw [prefix_iff_eq_take.mp (internEach_initial key (slots.internEach key path).2 entries),
        prefix_iff_eq_take.mp (internEach_initial key (fresh.internEach key path).2 entries),
        length_map, length_map, counted]
    · intro alike
      have enough := same.mp alike entries.length (Nat.le_refl _)
      rw [take_length] at enough
      refine ⟨if_congr ⟨narrower _, enough⟩ rfl rfl, by rw [alike]⟩
  · by_cases room : fresh.Fits key path
    · refine iff_of_false (by simp [report, fits, room]) fun enough => ?_
      have start := enough 0 (Nat.zero_le _)
      simp only [take_zero, append_nil] at start
      exact fits (start room)
    · refine iff_of_true (by simp [report, fits, room]) fun count _ more => ?_
      exact absurd (fits_of_append key more) room

end

end Zapada.Foundation.Slots
