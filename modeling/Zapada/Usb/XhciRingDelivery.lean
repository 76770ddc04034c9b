import Zapada.Usb.XhciRingSteps

namespace Zapada.Usb

open Foundation Hal Storage Function XhciRing RingSystem BitVec

namespace RingSystem

variable {slots : Nat} {buffer : DmaBuffer} {state : RingSystem}

theorem frame_aligned (frame : BitVec 52) :
    ((frame ++ 0#12 : BitVec 64) &&& ~~~15#64) = (frame ++ 0#12 : BitVec 64) := by
  have mask : ~~~15#64 = (allOnes 52 ++ ~~~15#12 : BitVec 64) := by decide
  rw [mask, and_append, and_allOnes, zero_and]

/-- The flag in bit 0 of the dequeue pointer is not part of the address. -/
theorem dequeue_address (aligned : buffer.physicalAddress &&& ~~~15#64 = buffer.physicalAddress) :
    (buffer.physicalAddress ||| 1) &&& ~~~15#64 = buffer.physicalAddress := by
  have flag : (1 : BitVec 64) &&& ~~~15#64 = 0 := by decide
  rw [and_or_distrib_right, aligned, flag]
  exact or_zero

theorem allocate_spec {size : Nat} (small : size < 2 ^ 31)
    (allocated : DmaBuffer.allocate frames (int32 size) = some buffer) :
    size ≤ buffer.size ∧ buffer.physicalAddress &&& ~~~15#64 = buffer.physicalAddress ∧
      words buffer = fun _ => 0 := by
  rw [int32_of_range (by omega) (by omega)] at allocated
  obtain ⟨frame, rfl⟩ := DmaBuffer.allocate_eq allocated
  refine ⟨?_, frame_aligned frame, rfl⟩
  simp only [Int.toNat_natCast, dmaFrameSize]
  omega

theorem applyWrites_size (buffer : DmaBuffer) (writes : List XhciRing.Write) :
    (applyWrites buffer writes).size = buffer.size ∧
      (applyWrites buffer writes).physicalAddress = buffer.physicalAddress := by
  induction writes generalizing buffer with
  | nil => exact ⟨rfl, rfl⟩
  | cons write rest ih => simpa [applyWrites] using ih (buffer.write32 write.1 write.2)

theorem words_applyWrites (buffer : DmaBuffer) (writes : List (Nat × BitVec 32))
    (room : ∀ write ∈ writes, 4 * write.1 + 4 ≤ buffer.size) :
    words (applyWrites buffer (writes.map atOffset)) =
      writes.foldl (fun memory write => update memory write.1 write.2) (words buffer) := by
  induction writes generalizing buffer with
  | nil => rfl
  | cons write rest ih =>
    have first := room write (List.mem_cons_self ..)
    have others :
        ∀ later ∈ rest, 4 * later.1 + 4 ≤ (buffer.write32 (atOffset write).1 write.2).size := by
      intro later member
      simpa using room later (List.mem_cons_of_mem _ member)
    have tail := ih (buffer.write32 (atOffset write).1 write.2) others
    rw [atOffset, words_write32 buffer write.1 write.2 first] at tail
    exact tail

theorem start_eq (many : 1 < size)
    (allocated : DmaBuffer.allocate frames (int32 (size * trbBytes)) = some fresh) :
    start frames size =
      let ring : XhciRing :=
  { trbCount := size, buffer := some fresh, enqueueIndex := 0, cycle := 1 }
      { ring := { ring with buffer := some (ring.writeLinkTrb fresh) }, pending := [],
        pointer := (fresh.physicalAddress ||| 1) &&& ~~~15#64,
        cycleState := (fresh.physicalAddress ||| 1).getLsbD 0, enqueued :=
          [], consumed := [] } := by
  have new : new frames size =
      let ring : XhciRing :=
        { trbCount := size, buffer := some fresh, enqueueIndex := 0, cycle := 1 }
      { ring with buffer := some (ring.writeLinkTrb fresh) } := by
    simp [new, allocated, many]
  simp [start, new, dequeuePointer, writeLinkTrb, (applyWrites_size fresh _).2]

theorem start_none (refused : DmaBuffer.allocate frames (int32 (size * trbBytes)) = none) :
    (start frames size).ring.buffer = none := by
  simp [start, new, refused]

theorem words_writeLinkTrb {ring : XhciRing}
    (small : 16 * (slots + 1) < 2 ^ 31) (count : ring.trbCount = ((slots + 1 : Nat) : Int))
    (first : ring.cycle = 1) (room : 16 * (slots + 1) ≤ fresh.size)
    (zero : words fresh = fun _ => 0) :
    (∀ write ∈ slotWrites slots (linkTrb fresh.physicalAddress true),
        words (ring.writeLinkTrb fresh) write.1 = write.2) ∧
      ∀ slot < slots, (trbOf (words (ring.writeLinkTrb fresh)) slot).cycleBit = false := by
  have last : int32 (int32 (ring.trbCount - 1) * trbBytes) = ((16 * slots : Nat) : Int) := by
    have shown : int32 (ring.trbCount - 1) = slots := by
      rw [count, int32_of_range] <;> omega
    rw [shown, trbBytes, int32_of_range] <;> omega
  have writes :
      ring.linkWrites fresh = (slotWrites slots (linkTrb fresh.physicalAddress true)).map
        atOffset := by
    rw [← trbWrites_slot slots _ (by omega), linkWrites, last, first]
    rfl
  have fits : ∀ write ∈ slotWrites slots (linkTrb fresh.physicalAddress true),
    4 * write.1 + 4 ≤ fresh.size := by
    intro write member
    have := slotWrites_slot member
    omega
  rw [writeLinkTrb, writes, words_applyWrites fresh _ fits, zero]
  refine ⟨?_, ?_⟩
  · intro write member
    simp only [slotWrites, List.mem_cons, List.not_mem_nil, or_false] at member
    rcases member with rfl | rfl | rfl | rfl <;> simp [slotWrites]
  · intro slot before
    have low : 4 * slot + 3 ≠ 4 * slots := by omega
    have high : 4 * slot + 3 ≠ 4 * slots + 1 := by omega
    have status : 4 * slot + 3 ≠ 4 * slots + 2 := by omega
    have control : 4 * slot + 3 ≠ 4 * slots + 3 := by omega
    simp only [slotWrites, List.foldl_cons, List.foldl_nil, Trb.cycleBit, trbOf,
      update_of_ne low, update_of_ne high, update_of_ne status, update_of_ne control]
    decide

theorem Invariant.start (frames : Nat → Option (BitVec 52)) (positive : 0 < slots)
    (small : 16 * (slots + 1) < 2 ^ 31)
    (allocated : DmaBuffer.allocate frames (int32 (((slots + 1 : Nat) : Int) * trbBytes)) =
      some fresh) :
    ∃ buffer, Invariant slots buffer (start frames ((slots + 1 : Nat) : Int)) := by
  have bytes : ((slots + 1 : Nat) : Int) * trbBytes = ((16 * (slots + 1) : Nat) : Int) := by
    rw [trbBytes]
    omega
  have many : (1 : Int) < (slots + 1 : Nat) := by omega
  obtain ⟨room, aligned, zero⟩ := allocate_spec small (bytes ▸ allocated)
  have count : ((⟨((slots + 1 : Nat) : Int), some fresh, 0, 1⟩ : XhciRing)).trbCount =
      ((slots + 1 : Nat) : Int) := rfl
  obtain ⟨linked, vacant⟩ := words_writeLinkTrb small count rfl room zero
  rw [start_eq many allocated]
  refine ⟨_, ⟨rfl, ?_, ?_, rfl, .inl ⟨rfl, rfl, rfl⟩, Nat.zero_le _, Nat.zero_le _, rfl, ?_, ?_, ?_,
    .inl rfl, .inl ⟨?_, ?_⟩⟩⟩
  · rw [writeLinkTrb, (applyWrites_size fresh _).1]
    exact room
  · rw [writeLinkTrb, (applyWrites_size fresh _).2]
    exact aligned
  · intro k low high
    exact absurd high (Nat.not_lt_zero k)
  · intro k low high
    have inside : k < slots := by simpa using high
    rw [Nat.mod_eq_of_lt inside, cycleOf_first inside]
    exact vacant k inside
  · refine ⟨true, ?_, ?_⟩
    · rw [writeLinkTrb, (applyWrites_size fresh _).2]
      exact linked
    · intro k boundary later inside near few
      exact absurd inside (Nat.not_lt_zero k)
  · rw [writeLinkTrb, (applyWrites_size fresh _).2]
    simp only [List.length_nil, Nat.zero_mod, Nat.mul_zero, BitVec.add_zero]
    exact dequeue_address aligned
  · rw [List.length_nil, cycleOf_first positive, getLsbD_or]
    simp

/-- Either nothing was allocated and nothing ever happens, or the ring invariant
holds. -/
def Sound (slots : Nat) (state : RingSystem) : Prop :=
  (state.ring.buffer = none ∧ state.enqueued = [] ∧ state.consumed = []) ∨
    ∃ buffer, Invariant slots buffer state

theorem sound_step (positive : 0 < slots) (small : 16 * (slots + 1) < 2 ^ 31)
    (sound : Sound slots state) (proper : properEnqueue state event)
    (taken : state.step event = some after) : Sound slots after := by
  rcases sound with ⟨missing, none, nothing⟩ | ⟨buffer, invariant⟩
  · left
    cases event with
    | enqueue trb =>
      simp only [step, missing] at taken
      cases taken
      exact ⟨missing, none, nothing⟩
    | write => simp [step, missing] at taken
    | controller => simp [step, controllerStep, missing] at taken
  · right
    cases event with
    | enqueue trb => exact ⟨buffer, invariant.enqueue positive small proper taken⟩
    | write => exact invariant.write positive taken
    | controller => exact ⟨buffer, invariant.controllerStep positive small taken⟩

theorem sound_start (frames : Nat → Option (BitVec 52)) (positive : 0 < slots)
    (small : 16 * (slots + 1) < 2 ^ 31) : Sound slots (start frames ((slots + 1 : Nat) : Int)) := by
  generalize result :
      DmaBuffer.allocate frames (int32 (((slots + 1 : Nat) : Int) * trbBytes)) = allocated
  cases allocated with
  | none =>
    exact .inl ⟨start_none result, rfl, rfl⟩
  | some fresh => exact .inr (Invariant.start frames positive small result)

end RingSystem

/-- For every ring size and every interleaving of `Enqueue` calls, down to their
single stores, with a controller that reads only memory: the controller consumes
exactly the enqueued blocks, each once and in order. -/
theorem ring_delivers (frames : Nat → Option (BitVec 52)) (size : Nat) (large : 2 < size)
    (addressable : 16 * size < 2 ^ 31)
    (run : ((ringMachine frames size).guarded properEnqueue).Run events state) :
    state.Delivers := by
  obtain ⟨slots, rfl⟩ : ∃ slots, size = slots + 1 := ⟨size - 1, by omega⟩
  have positive : 0 < slots := by omega
  have rule : ((ringMachine frames ((slots + 1 : Nat) : Int)).guarded properEnqueue).Inductive
      (RingSystem.Sound slots) := by
    refine ⟨?_, ?_⟩
    · rintro first rfl
      exact sound_start frames positive addressable
    · rintro before event after sound ⟨proper, taken⟩
      exact sound_step positive addressable sound proper taken
  rcases rule.reached run with ⟨missing, none, nothing⟩ | ⟨buffer, invariant⟩
  · refine ⟨by simp [none, nothing], ?_⟩
    intro idle waiting
    rw [none, nothing] at waiting
    exact absurd waiting (Nat.lt_irrefl _)
  · exact invariant.delivers positive addressable

/-- One call, its stores, and the controller taking the block. -/
theorem ring_delivers_first_block :
    ∃ state, ((ringMachine (fun _ => some 1) 3).guarded properEnqueue).Run
      [.enqueue ⟨7, 8, 0x400⟩, .write, .write, .write, .write, .controller] state ∧
    state.consumed = [⟨7, 8, 0x400⟩] ∧ state.Delivers := by
  have checked : ∃ state ∈ Machine.execute properEnqueue step
      (start (fun _ => some 1) 3)
      [.enqueue ⟨7, 8, 0x400⟩, .write, .write, .write, .write, .controller],
      state.consumed = [⟨7, 8, 0x400⟩] := by
    decide +kernel
  obtain ⟨state, run, consumed⟩ := Machine.Run.exists_of_execute _ checked
  exact ⟨state, run, consumed, ring_delivers _ 3 (by decide) (by decide) run⟩

/-- Blocks that break the caller's part: with the cycle bit set the block of an
odd lap is never taken, and a link block of the caller's own leads the controller
away. A ring of 2^28 + 4 blocks overflows the size computation, so that its link
lands on the fourth block. -/
theorem ring_loses_block : (∃ state, ((ringMachine (fun _ => some 1) 3).guarded hasRoom).Run
      ([.enqueue ⟨1, 0, 0⟩, .write, .write, .write, .write, .controller,
        .enqueue ⟨2, 0, 0⟩, .write, .write, .write, .write, .controller, .controller,
        .enqueue ⟨3, 0, 1⟩, .write, .write, .write, .write, .write, .write, .write, .write])
      state ∧ ¬ state.Delivers) ∧ (∃ state, ((ringMachine (fun _ => some 1) 3).guarded hasRoom).Run
      [.enqueue ⟨0, 0, 0x1800⟩, .write, .write, .write, .write] state ∧ ¬ state.Delivers) ∧
    (∃ state, ((ringMachine (fun _ => some 1) (2 ^ 28 + 4)).guarded hasRoom).Run
      [.enqueue ⟨1, 0, 0⟩, .write, .write, .write, .write, .controller,
        .enqueue ⟨2, 0, 0⟩, .write, .write, .write, .write, .controller,
        .enqueue ⟨3, 0, 0⟩, .write, .write, .write, .write, .controller, .controller,
        .enqueue ⟨4, 0, 0⟩, .write, .write, .write, .write] state ∧ ¬ state.Delivers) := by
  refine ⟨?_, ?_, ?_⟩ <;>
    exact Machine.Run.exists_of_execute _ (by decide +kernel)

end Zapada.Usb
