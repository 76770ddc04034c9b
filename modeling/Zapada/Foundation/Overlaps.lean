import Zapada.Foundation.Bytes

/-! Loads and stores that overlap: some memory shows every store to every load that shares a byte
with it. -/

namespace Zapada.Foundation.Memory

open Function

theorem bytes_of_load (memory memory' : Memory) (address width : Nat)
    (same : memory.load address width = memory'.load address width) (low : address ≤ other)
    (high : other < address + width) : memory other = memory' other := by
  induction width generalizing address with
  | zero => omega
  | succ width ih =>
    have byte := (memory address).toNat_lt
    have byte' := (memory' address).toNat_lt
    simp only [load] at same
    by_cases here : other = address
    · subst here
      apply UInt8.toNat_inj.mp
      omega
    · exact ih (address + 1) (by omega) (by omega) (by omega)

theorem store_inside (memory memory' : Memory) (address width value : Nat) (low : address ≤ other)
    (high : other < address + width) :
    memory.store address width value other = memory'.store address width value other := by
  induction width generalizing address value with
  | zero => omega
  | succ width ih =>
    simp only [store]
    by_cases here : other = address
    · rw [here, update_self, update_self]
    · rw [update_of_ne here, update_of_ne here]
      exact ih (address + 1) (value / 256) (by omega) (by omega)

theorem byte_ne_succ (byte : UInt8) : byte ≠ byte + 1 := by
  intro equal
  have number := congrArg UInt8.toNat equal
  simp at number
  omega

theorem store_changes (address width value : Nat) (low : address ≤ other)
    (high : other < address + width) :
    ∃ memory : Memory, memory.store address width value other ≠ memory other := by
  let probe := store (fun _ => 0) address width value other
  refine ⟨fun _ => probe + 1, fun same => ?_⟩
  rw [store_inside _ (fun _ => 0) address width value low high] at same
  exact byte_ne_succ probe same

theorem store_visible (address width value other span : Nat)
    (overlap : max address other < min (address + width) (other + span)) :
    ∃ memory :
    Memory, (memory.store address width value).load other span ≠ memory.load other span := by
  obtain ⟨shared, low, high, low', high'⟩ :
      ∃ byte, address ≤ byte ∧ byte < address + width ∧ other ≤ byte ∧ byte < other + span :=
    ⟨max address other, by omega, by omega, by omega, by omega⟩
  obtain ⟨memory, changed⟩ := store_changes address width value low high
  exact ⟨memory, fun same => changed (bytes_of_load _ _ other span same low' high')⟩

end Zapada.Foundation.Memory
