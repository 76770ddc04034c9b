import Mathlib.Data.List.Induction
import Zapada.Foundation.Bytes

/-! Byte strings in memory, and padding to a multiple of a width. -/

namespace Zapada.Foundation

open List

namespace Memory

structure Shows (memory : Memory) (address : Nat) (bytes : List UInt8) : Prop where
  byte : ∀ i (inside : i < bytes.length), memory (address + i) = bytes[i]

theorem shows_nil {memory : Memory} : memory.Shows address [] :=
  ⟨fun i inside => by simp at inside⟩

theorem shows_cons {memory : Memory} : memory.Shows address (byte :: bytes) ↔
      memory address = byte ∧ memory.Shows (address + 1) bytes := by
  constructor
  · intro shown
    refine ⟨shown.byte 0 (by simp), ⟨fun i inside => ?_⟩⟩
    have later := shown.byte (i + 1) (by simpa using inside)
    rw [Nat.add_assoc, Nat.add_comm 1 i]
    simpa using later
  · intro ⟨here, rest⟩
    refine ⟨fun i inside => ?_⟩
    cases i with
    | zero => exact here
    | succ i =>
      have later := rest.byte i (by simpa using inside)
      rw [Nat.add_assoc, Nat.add_comm 1 i] at later
      simpa using later

@[simp] theorem shows_append {memory : Memory} : memory.Shows address (first ++ second) ↔
      memory.Shows address first ∧ memory.Shows (address + first.length) second := by
  induction first generalizing address with
  | nil => simp [shows_nil]
  | cons byte first ih =>
    have shift : address + 1 + first.length = address + (byte :: first).length := by
      simp only [length_cons]
      omega
    simp only [cons_append, shows_cons, ih, shift, and_assoc]

theorem shows_singleton {memory : Memory} : memory.Shows address [byte] ↔
      memory address = byte := by
  simp [shows_cons, shows_nil]

theorem shows_prefix_iff {memory : Memory} (shown : memory.Shows address (text ++ [0]))
    (noNul : 0 ∉ start) : memory.Shows address start ↔ start <+: text := by
  induction start generalizing address text with
  | nil => simp [shows_nil]
  | cons byte start ih =>
    have rest : 0 ∉ start := fun member => noNul (mem_cons_of_mem _ member)
    cases text with
    | nil =>
      have ends : memory address = 0 := shows_singleton.mp shown
      have different : (0 : UInt8) ≠ byte := fun same => noNul (same ▸ mem_cons_self ..)
      simp [shows_cons, ends, different]
    | cons first text =>
      obtain ⟨here, tail⟩ := shows_cons.mp shown
      rw [shows_cons, here, ih tail rest, cons_prefix_cons, eq_comm]

theorem shows_string_iff {memory : Memory} (shown : memory.Shows address (text ++ [0]))
    (textNoNul : 0 ∉ text) (noNul : 0 ∉ other) : memory.Shows address (other ++ [0]) ↔
      text = other := by
  constructor
  · intro also
    have forth := (shows_prefix_iff shown noNul).mp (shows_append.mp also).1
    have back := (shows_prefix_iff also textNoNul).mp (shows_append.mp shown).1
    exact back.eq_of_length (Nat.le_antisymm back.length_le forth.length_le)
  · rintro rfl
    exact shown

/-- The memory that shows a byte string at address 0 and is zero behind it. -/
def ofBytes (bytes : List UInt8) : Memory := fun i => bytes.getD i 0

theorem shows_ofBytes (bytes : List UInt8) : (ofBytes bytes).Shows 0 bytes :=
  ⟨fun i inside => by simp [ofBytes, inside]⟩

end Memory

/-- The least multiple of 4 that is not below a number. -/
def roundUp4 (size : Nat) : Nat := (size + 3) / 4 * 4

def pad4 (bytes : List UInt8) : List UInt8 :=
  bytes ++ replicate (roundUp4 bytes.length - bytes.length) 0

@[simp] theorem length_pad4 (bytes : List UInt8) : (pad4 bytes).length = roundUp4 bytes.length := by
  simp only [pad4, length_append, length_replicate, roundUp4]
  omega

end Zapada.Foundation
