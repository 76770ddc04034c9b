import Mathlib.Algebra.Order.Ring.Nat
import Mathlib.Data.List.Forall2

/-! Address ranges laid end to end, without gaps and overlaps. -/

namespace Zapada.Foundation

open List

structure Span where
  start : Nat
  size : Nat
deriving DecidableEq

def Span.stop (span : Span) : Nat := span.start + span.size

/-- The spans follow each other from one address to another. -/
def Tiles : Nat → List Span → Nat → Prop
  | low, [], high => low = high
  | low, span :: rest, high => span.start = low ∧ Tiles span.stop rest high

theorem tiles_append :
    Tiles low (first ++ second) high ↔ ∃ middle, Tiles low first middle ∧
      Tiles middle second high := by
  induction first generalizing low with
  | nil => simp [Tiles]
  | cons span first ih =>
    simp only [cons_append, Tiles, ih]
    constructor
    · rintro ⟨here, middle, before, after⟩
      exact ⟨middle, ⟨here, before⟩, after⟩
    · rintro ⟨middle, ⟨here, before⟩, after⟩
      exact ⟨here, middle, before, after⟩

namespace Tiles

variable {spans : List Span} {one other : Span}

theorem bounds (tiles : Tiles low spans high) : low ≤ high ∧ ∀ span ∈ spans, low ≤ span.start ∧
      span.stop ≤ high := by
  induction spans generalizing low with
  | nil => exact ⟨Nat.le_of_eq tiles, by simp⟩
  | cons span rest ih =>
    obtain ⟨here, after⟩ := tiles
    obtain ⟨later, inside⟩ := ih after
    have grows : span.start ≤ span.stop := Nat.le_add_right ..
    refine ⟨by omega, ?_⟩
    intro other member
    rcases mem_cons.mp member with rfl | member
    · exact ⟨Nat.le_of_eq here.symm, later⟩
    · have := inside other member
      omega

theorem apart (tiles : Tiles low spans high) (oneIn : one ∈ spans) (otherIn : other ∈ spans)
    (different : one ≠ other) : one.stop ≤ other.start ∨ other.stop ≤ one.start := by
  induction spans generalizing low with
  | nil => simp at oneIn
  | cons span rest ih =>
    obtain ⟨here, after⟩ := tiles
    rcases mem_cons.mp oneIn with rfl | oneLater <;>
      rcases mem_cons.mp otherIn with rfl | otherLater
    · exact absurd rfl different
    · exact .inl (after.bounds.2 other otherLater).1
    · exact .inr (after.bounds.2 one oneLater).1
    · exact ih after oneLater otherLater

theorem snoc (tiles : Tiles low spans high) (size : Nat) :
    Tiles low (spans ++ [⟨high, size⟩]) (high + size) :=
  tiles_append.mpr ⟨high, tiles, rfl, rfl⟩

theorem cut (tiles : Tiles low (first ++ one :: rest) high) (fits : size ≤ one.size) :
    Tiles low (first ++ ⟨one.start, size⟩ :: ⟨one.start + size, one.size - size⟩ :: rest) high := by
  obtain ⟨middle, before, here, after⟩ := tiles_append.mp tiles
  refine tiles_append.mpr ⟨middle, before, here, rfl, ?_⟩
  have same : (⟨one.start + size, one.size - size⟩ : Span).stop = one.stop := by
    simp only [Span.stop]
    omega
  rwa [same]

section

variable (tiles : Tiles low spans high) (positive : ∀ span ∈ spans, 0 < span.size)

include tiles positive

/-- The span that ends at the high end is the last one. -/
theorem last (member : one ∈ spans) (ends : high ≤ one.stop) :
    ∃ first, spans = first ++ [one] ∧ Tiles low first one.start := by
  obtain ⟨first, rest, rfl⟩ := append_of_mem member
  obtain ⟨middle, before, here, after⟩ := tiles_append.mp tiles
  cases rest with
  | nil => exact ⟨first, rfl, here ▸ before⟩
  | cons next rest =>
    obtain ⟨start, -⟩ := after
    have inside := (tiles.bounds.2 next (by simp)).2
    have grows := positive next (by simp)
    simp only [Span.stop] at *
    omega

theorem length_le : low + spans.length ≤ high := by
  induction spans generalizing low with
  | nil => exact Nat.le_of_eq tiles
  | cons span rest ih =>
    obtain ⟨here, after⟩ := tiles
    have shorter := ih after fun other member => positive other (mem_cons_of_mem _ member)
    have grows := positive span (mem_cons_self ..)
    simp only [Span.stop, length_cons] at *
    omega

theorem nodup : spans.Nodup := by
  induction spans generalizing low with
  | nil => exact nodup_nil
  | cons span rest ih =>
    obtain ⟨here, after⟩ := tiles
    refine nodup_cons.mpr ⟨fun again => ?_, ?_⟩
    · have later := (after.bounds.2 span again).1
      have grows := positive span (mem_cons_self ..)
      simp only [Span.stop] at later
      omega
    · exact ih after fun other member => positive other (mem_cons_of_mem _ member)

end

end Tiles

def roundUp (value alignment : Nat) : Nat := (value + alignment - 1) / alignment * alignment

theorem dvd_roundUp (value alignment : Nat) : alignment ∣ roundUp value alignment :=
  Nat.dvd_mul_left ..

theorem le_roundUp (value : Nat) (positive : 0 < alignment) : value ≤ roundUp value alignment := by
  have rest := Nat.lt_div_mul_add positive (a := value + alignment - 1)
  simp only [roundUp]
  omega

theorem roundUp_le (positive : 0 < alignment) (low : value ≤ target)
    (multiple : alignment ∣ target) :
    roundUp value alignment ≤ target := by
  obtain ⟨count, rfl⟩ := multiple
  rw [roundUp, Nat.mul_comm]
  apply Nat.mul_le_mul_left
  apply Nat.le_of_lt_succ
  rw [Nat.div_lt_iff_lt_mul positive, Nat.succ_mul, Nat.mul_comm]
  omega

theorem roundUp_of_dvd (multiple : alignment ∣ value) (positive : 0 < alignment) :
    roundUp value alignment = value :=
  Nat.le_antisymm (roundUp_le positive (Nat.le_refl _) multiple) (le_roundUp value positive)

theorem forall₂_getElem? {R : α → β → Prop} {first : List α} {second : List β} {index : Nat}
    (related : List.Forall₂ R first second)
    (found : second[index]? = some other) : ∃ one, first[index]? = some one ∧ R one other := by
  obtain ⟨sameLength, each⟩ := forall₂_iff_get.mp related
  obtain ⟨inside, rfl⟩ := List.getElem?_eq_some_iff.mp found
  exact ⟨_, List.getElem?_eq_getElem (by omega), each index (by omega) inside⟩

structure LayoutItem where
  size : Nat
  alignment : Nat

namespace LayoutItem

def spans : (low : Nat) → List LayoutItem → List Span
  | _, [] => []
  | low, item :: rest =>
    ⟨roundUp low item.alignment, item.size⟩ :: spans (roundUp low item.alignment + item.size) rest

def finish : (low : Nat) → List LayoutItem → Nat
  | low, [] => low
  | low, item :: rest => finish (roundUp low item.alignment + item.size) rest

/-- An item that needs no more room and no coarser alignment. -/
def Fits (small large : LayoutItem) : Prop :=
  small.size ≤ large.size ∧ small.alignment ∣ large.alignment

variable {items : List LayoutItem}

section

variable (positive : ∀ item ∈ items, 0 < item.alignment) (low : Nat)

include positive low

theorem le_finish : low ≤ finish low items := by
  induction items generalizing low with
  | nil => exact Nat.le_refl _
  | cons item rest ih =>
    have raised := le_roundUp low (positive item (by simp))
    have later := ih (fun other member => positive other (by simp [member]))
      (roundUp low item.alignment + item.size)
    simp only [finish]
    omega

theorem spans_bounds : ∀ span ∈ spans low items, low ≤ span.start ∧
      span.stop ≤ finish low items := by
  induction items generalizing low with
  | nil => simp [spans]
  | cons item rest ih =>
    have raised := le_roundUp low (positive item (by simp))
    have others : ∀ other ∈ rest, 0 < other.alignment := fun other member =>
      positive other (by simp [member])
    have later := le_finish others (roundUp low item.alignment + item.size)
    intro span member
    simp only [spans, finish, mem_cons] at member ⊢
    rcases member with rfl | member
    · exact ⟨raised, later⟩
    · have inside := ih others _ span member
      exact ⟨by omega, inside.2⟩

theorem spans_pairwise : (spans low items).Pairwise fun one other => one.stop ≤ other.start := by
  induction items generalizing low with
  | nil => exact List.Pairwise.nil
  | cons item rest ih =>
    have others : ∀ other ∈ rest, 0 < other.alignment := fun other member =>
      positive other (by simp [member])
    refine List.Pairwise.cons ?_ (ih others _)
    intro span member
    exact (spans_bounds others _ span member).1

end

theorem spans_aligned (low : Nat) (items : List LayoutItem) :
    List.Forall₂ (fun span item => item.alignment ∣ span.start ∧ span.size = item.size)
      (spans low items)
      items := by
  induction items generalizing low with
  | nil => exact .nil
  | cons item rest ih => exact .cons ⟨dvd_roundUp low _, rfl⟩ (ih _)

end LayoutItem

end Zapada.Foundation
