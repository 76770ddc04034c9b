import Zapada.Foundation.Machine
import Mathlib.Data.List.Nodup

/-! Bodies that are to run once. A request starts the body of its cell, unless that is
running or complete, and bodies make requests in turn. -/

namespace Zapada.Foundation

open Function List

inductive OncePhase where
  | idle
  | running
  | complete
deriving DecidableEq

/-- A request passes at once, or it starts the body of its cell and ends with it. -/
inductive OnceEvent (Request : Type) where
  | passed (request : Request)
  | started (request : Request)
  | finished (request : Request) (success : Bool)
deriving DecidableEq

/-- The phases of the cells, and the requests whose bodies are running, the innermost first. -/
structure OnceCells (Cell Request : Type) where
  phase : Cell → OncePhase
  pending : List Request

section Once

variable {Cell Request : Type} [DecidableEq Cell] (cell : Request → Cell) (needed : Cell → Bool)

/-- Only some cells have a body at all. A body that fails leaves its cell idle. -/
inductive OnceStep : OnceCells Cell Request → OnceEvent Request →
      OnceCells Cell Request → Prop where
  | seen (busy : state.phase (cell request) ≠ .idle) : OnceStep state (.passed request) state
  | bare (idle : state.phase (cell request) = .idle) (bodiless : needed (cell request) = false) :
      OnceStep state (.passed request)
        { state with phase := Function.update state.phase (cell request) .complete }
  | start (idle : state.phase (cell request) = .idle) (body : needed (cell request) = true) :
      OnceStep state (.started request)
        { phase := Function.update state.phase (cell request) .running
          pending := request :: state.pending }
  | finish (innermost : state.pending = request :: rest) (success : Bool) : OnceStep state (.finished request success)
        { phase := Function.update state.phase (cell request) (if success then .complete else .idle)
          pending := rest }

def onceMachine : Machine (OnceCells Cell Request) (OnceEvent Request) where
  initial state := state = { phase := fun _ => .idle, pending := [] }
  step := OnceStep cell needed

/-- The event ends the body of a cell well. -/
def OnceEvent.succeeds (target : Cell) : OnceEvent Request → Bool
  | .finished request true => cell request = target
  | _ => false

/-- What the events up to a state say about it. -/
structure OnceHistory (events : List (OnceEvent Request)) (state : OnceCells Cell Request) :
    Prop where
  running : ∀ request ∈ state.pending, state.phase (cell request) = .running
  distinct : (state.pending.map cell).Nodup
  started : ∀ request ∈ state.pending, .started request ∈ events
  begun : ∀ target, state.phase target ≠ .idle → needed target = true →
    ∃ request, .started request ∈ events ∧ cell request = target
  succeeded : ∀ target, events.countP (OnceEvent.succeeds cell target) ≤
    if state.phase target = .complete then 1 else 0

variable {cell needed}

namespace OnceHistory

variable {events : List (OnceEvent Request)} {before after : OnceCells Cell Request}
  {request : Request}

section

variable (history : OnceHistory cell needed events before)

include history

theorem bare (idle : before.phase (cell request) = .idle)
    (bodiless : needed (cell request) = false) :
    OnceHistory cell needed (events ++ [.passed request])
      { before with phase := update before.phase (cell request) .complete } where
  running other member := by
    have still := history.running other member
    have different : cell other ≠ cell request := by
      intro same
      rw [same, idle] at still
      cases still
    simp [different, still]
  distinct := history.distinct
  started other member := mem_append_left _ (history.started other member)
  begun target busy body := by
    have different : target ≠ cell request := by
      rintro rfl
      rw [bodiless] at body
      cases body
    simp only [update_of_ne different] at busy
    obtain ⟨other, member, same⟩ := history.begun target busy body
    exact ⟨other, mem_append_left _ member, same⟩
  succeeded target := by
    have count := history.succeeded target
    by_cases same : target = cell request
    · subst same
      simp only [idle, update_self] at count ⊢
      simpa [OnceEvent.succeeds] using Nat.le_trans count (by decide)
    · simpa [OnceEvent.succeeds, update_of_ne same] using count

theorem start (idle : before.phase (cell request) = .idle) :
    OnceHistory cell needed (events ++ [.started request])
      { phase := update before.phase (cell request) .running, pending := request :: before.pending }
        where
  running other member := by
    by_cases same : cell other = cell request
    · simp [same]
    · rcases mem_cons.mp member with rfl | earlier
      · exact absurd rfl same
      · simp [same, history.running other earlier]
  distinct := by
    rw [map_cons, nodup_cons]
    refine ⟨?_, history.distinct⟩
    intro member
    obtain ⟨other, earlier, same⟩ := mem_map.mp member
    have still := history.running other earlier
    rw [same, idle] at still
    cases still
  started other member := by
    rcases mem_cons.mp member with rfl | earlier
    · simp
    · exact mem_append_left _ (history.started other earlier)
  begun target busy body := by
    by_cases same : target = cell request
    · exact ⟨request, by simp, same.symm⟩
    · simp only [update_of_ne same] at busy
      obtain ⟨other, member, found⟩ := history.begun target busy body
      exact ⟨other, mem_append_left _ member, found⟩
  succeeded target := by
    have count := history.succeeded target
    by_cases same : target = cell request
    · subst same
      simpa [OnceEvent.succeeds, idle] using count
    · simpa [OnceEvent.succeeds, update_of_ne same] using count

theorem finish (innermost : before.pending = request :: rest)
    (success : Bool) : OnceHistory cell needed (events ++ [.finished request success])
      { phase := update before.phase (cell request) (if success then .complete else .idle),
        pending := rest } where
  running other member := by
    have distinct := history.distinct
    rw [innermost, map_cons, nodup_cons] at distinct
    have different : cell other ≠ cell request := by
      intro same
      exact distinct.1 (same ▸ mem_map_of_mem member)
    have still := history.running other (by rw [innermost]; simp [member])
    simp [different, still]
  distinct := by
    have distinct := history.distinct
    rw [innermost, map_cons, nodup_cons] at distinct
    exact distinct.2
  started other member :=
    mem_append_left _ (history.started other (by rw [innermost]; simp [member]))
  begun target busy body := by
    have wasBusy : before.phase target ≠ .idle := by
      by_cases same : target = cell request
      · rw [same, history.running request (by rw [innermost]; simp)]
        decide
      · simpa [update_of_ne same] using busy
    obtain ⟨other, member, found⟩ := history.begun target wasBusy body
    exact ⟨other, mem_append_left _ member, found⟩
  succeeded target := by
    have count := history.succeeded target
    by_cases same : target = cell request
    · subst same
      have still := history.running request (by rw [innermost]; simp)
      have none : events.countP (OnceEvent.succeeds cell (cell request)) = 0 := by
        simpa [still] using count
      cases success <;> simp [OnceEvent.succeeds, none]
    · have other : cell request ≠ target := Ne.symm same
      cases success <;> simpa [OnceEvent.succeeds, other, update_of_ne same] using count

end

end OnceHistory

theorem onceMachine_history (run : (onceMachine cell needed).Run events state) :
    OnceHistory cell needed events state := by
  induction run with
  | start first =>
    subst first
    exact ⟨by simp, by simp, by simp, fun _ busy => absurd rfl busy, by simp⟩
  | next earlier taken ih =>
    cases taken with
    | seen busy =>
      refine ⟨ih.running, ih.distinct, fun other member =>
        mem_append_left _ (ih.started other member),
        fun target busy body => ?_, fun target => ?_⟩
      · obtain ⟨other, member, found⟩ := ih.begun target busy body
        exact ⟨other, mem_append_left _ member, found⟩
      · simpa [countP_append, OnceEvent.succeeds] using ih.succeeded target
    | bare idle bodiless => exact ih.bare idle bodiless
    | start idle body => exact ih.start idle
    | finish innermost success => exact ih.finish innermost success

theorem onceMachine_body (run : (onceMachine cell needed).Run events state)
    (ran : request ∈ state.pending ∨ ∃ success, .finished request success ∈ events) :
    needed (cell request) = true := by
  induction run with
  | start first =>
    subst first
    simp at ran
  | next earlier taken ih =>
    cases taken with
    | seen busy => exact ih (by simpa using ran)
    | bare idle bodiless => exact ih (by simpa using ran)
    | start idle body =>
      rcases ran with member | member
      · rcases mem_cons.mp member with rfl | before
        · exact body
        · exact ih (.inl before)
      · exact ih (.inr (by simpa using member))
    | finish innermost =>
      rw [innermost] at ih
      rcases ran with member | member
      · exact ih (.inl (by simp [member]))
      · obtain ⟨success, member⟩ := member
        rcases mem_append.mp member with before | here
        · exact ih (.inr ⟨success, before⟩)
        · simp only [mem_singleton, OnceEvent.finished.injEq] at here
          exact ih (.inl (by simp [here.1]))

theorem eq_of_countP_le_one {items : List α} {index other : Nat} (few : items.countP wanted ≤ 1)
    (first : items[index]? = some one) (second : items[other]? = some two)
    (isOne : wanted one = true) (isTwo : wanted two = true) : index = other := by
  by_contra apart
  wlog earlier : index < other
  · exact this few second first isTwo isOne (Ne.symm apart) (by omega)
  have front : 0 < (items.take other).countP wanted :=
    countP_pos_iff.mpr ⟨one, mem_of_getElem? (by rwa [getElem?_take_of_lt earlier]), isOne⟩
  have back : 0 < (items.drop other).countP wanted :=
    countP_pos_iff.mpr ⟨two, mem_of_getElem? (i := 0) (by rwa [getElem?_drop]), isTwo⟩
  rw [← take_append_drop other items, countP_append] at few
  omega

theorem onceMachine_succeeds_once {index other : Nat}
    (run : (onceMachine cell needed).Run events state)
    (first : events[index]? = some (.finished one true))
    (second : events[other]? = some (.finished two true))
    (same : cell one = cell two) : index = other := by
  have count := (onceMachine_history run).succeeded (cell one)
  have few : events.countP (OnceEvent.succeeds cell (cell one)) ≤ 1 := by
    split at count <;> omega
  exact eq_of_countP_le_one few first second (by simp [OnceEvent.succeeds])
    (by simp [OnceEvent.succeeds, same])

/-- A request that is answered comes after a start of its cell's body. -/
theorem onceMachine_started_first (run : (onceMachine cell needed).Run events state)
    (answered : events[index]? = some (.passed request) ∨
      events[index]? = some (.finished request true))
    (body : needed (cell request) = true) :
    ∃ other, .started other ∈ events.take index ∧ cell other = cell request := by
  induction run with
  | start => simp at answered
  | @next earlierEvents before event after earlier taken ih =>
    rcases Nat.lt_trichotomy index earlierEvents.length with inside | last | outside
    · rw [getElem?_append_left inside] at answered
      rw [take_append_of_le_length (Nat.le_of_lt inside)]
      exact ih answered
    · subst last
      have history := onceMachine_history earlier
      rw [take_left]
      rw [getElem?_append_right (Nat.le_refl _), Nat.sub_self] at answered
      simp only [getElem?_cons_zero, Option.some.injEq] at answered
      rcases answered with rfl | rfl
      · cases taken with
        | seen busy => exact history.begun _ busy body
        | bare idle bodiless =>
          rw [bodiless] at body
          cases body
      · cases taken with
        | finish innermost =>
          exact ⟨request, history.started request (by rw [innermost]; simp), rfl⟩
    · have absent : (earlierEvents ++ [event])[index]? = none := by
        apply getElem?_eq_none
        simp only [length_append, length_cons, length_nil]
        omega
      rw [absent] at answered
      simp at answered

end Once

end Zapada.Foundation
