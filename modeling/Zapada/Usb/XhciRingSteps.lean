import Mathlib.Tactic.IntervalCases
import Zapada.Usb.XhciRing

namespace Zapada.Usb

open Foundation Hal Storage Function RingSystem XhciRing BitVec

/-- The stores of the `k`-th block, and of the link at the start of its lap. -/
abbrev blockWrites (slots k : Nat) (trb : Trb) : List (Nat × BitVec 32) :=
  slotWrites (k % slots) (trb.withCycle (cycleOf slots k))

abbrev lapWrites (slots k : Nat) (buffer : DmaBuffer) : List (Nat × BitVec 32) :=
  slotWrites slots (linkTrb buffer.physicalAddress (!cycleOf slots k))

section Writes

theorem slotWrites_next (slot : Nat) (trb : Trb) (some_left : stored < 4) :
    ∃ value, (slotWrites slot trb).drop stored =
        (4 * slot + stored, value) :: (slotWrites slot trb).drop (stored + 1) ∧
      (slotWrites slot trb).take (stored + 1) =
        (slotWrites slot trb).take stored ++ [(4 * slot + stored, value)] := by
  interval_cases stored <;> exact ⟨_, rfl, rfl⟩

theorem slotWrites_take_lt
    (member : write ∈ (slotWrites slot trb).take stored) : write.1 < 4 * slot + stored := by
  rcases stored with _ | _ | _ | _ | stored <;>
    simp only [slotWrites, List.take_zero, List.take_succ_cons, List.mem_cons, List.not_mem_nil,
      or_false, List.take_nil] at member
  · subst member
    simp
  · rcases member with rfl | rfl <;> simp
  · rcases member with rfl | rfl | rfl <;> simp
  · rcases member with rfl | rfl | rfl | rfl <;> simp

theorem slotWrites_slot (member : write ∈ slotWrites slot trb) : write.1 / 4 = slot := by
  simp only [slotWrites, List.mem_cons, List.not_mem_nil, or_false] at member
  rcases member with rfl | rfl | rfl | rfl <;> simp only <;> omega

theorem inPlace_update {memory : Nat → BitVec 32}
    (inPlace : ∀ write ∈ (slotWrites slot trb).take stored, memory write.1 = write.2)
    (next : (slotWrites slot trb).take (stored + 1) =
      (slotWrites slot trb).take stored ++ [(4 * slot + stored, value)]) :
    ∀ write ∈ (slotWrites slot trb).take (stored + 1),
      update memory (4 * slot + stored) value write.1 = write.2 := by
  intro write member
  rw [next, List.mem_append, List.mem_singleton] at member
  rcases member with earlier | rfl
  · have before := slotWrites_take_lt earlier
    rw [update_of_ne (by omega)]
    exact inPlace write earlier
  · exact update_self ..

/-- Storing the link block again changes its cycle bit with the last word only. -/
theorem link_update {memory : Nat → BitVec 32}
    (some_left : stored < 4)
    (inPlace : ∀ write ∈ slotWrites slots (linkTrb address before), memory write.1 = write.2)
    (next : (slotWrites slots (linkTrb address after)).drop stored =
      (4 * slots + stored, value) :: (slotWrites slots (linkTrb address after)).drop (stored + 1)) :
    ∀ write ∈ slotWrites slots (linkTrb address (if stored = 3 then after else before)),
      update memory (4 * slots + stored) value write.1 = write.2 := by
  simp only [slotWrites, List.mem_cons, List.not_mem_nil, or_false, forall_eq_or_imp, forall_eq,
    linkTrb] at inPlace next ⊢
  interval_cases stored <;> simp_all

theorem memory_outside {slot index : Nat}
    (outside : index / 4 ≠ slot)
    (inPlace : ∀ write ∈ slotWrites slot trb, memory write.1 = write.2) :
    ∀ write ∈ slotWrites slot trb, update memory index value write.1 = write.2 := by
  intro write member
  have inside := slotWrites_slot member
  rw [update_of_ne (by rintro rfl; exact outside inside)]
  exact inPlace write member

end Writes

namespace RingSystem

variable {slots : Nat} {buffer : DmaBuffer} {state : RingSystem}

def stored (state : RingSystem) (buffer : DmaBuffer) (rest : List XhciRing.Write) : RingSystem :=
  { state with ring := { state.ring with buffer := some buffer }, pending := rest }

variable (positive : 0 < slots) (invariant : Invariant slots buffer state)

include positive invariant

section Stores

variable {k place : Nat} {trb : Trb} (count : state.enqueued.length = k + 1)
  (logged : state.enqueued[k]? = some trb.payload) (clear : trb.cycleBit = false)
  (proper : trb.type ≠ trbLink) (some_left : place < 4)

include count logged clear proper some_left

theorem Invariant.storeBlock (inPlace : ∀ write ∈ (blockWrites slots k trb).take place,
      words buffer write.1 = write.2)
      (pending : state.pending = ((blockWrites slots k trb).drop place).map atOffset)
    (split : state.pending = write :: rest) : Invariant slots (buffer.write32 write.1 write.2)
      (state.stored (buffer.write32 write.1 write.2) rest) := by
  obtain ⟨value, next, longer⟩ :=
    slotWrites_next (k % slots) (trb.withCycle (cycleOf slots k)) some_left
  rw [pending, next, List.map_cons, List.cons.injEq] at split
  obtain ⟨rfl, rfl⟩ := split
  have slot := Nat.mod_lt k positive
  have room := invariant.room
  have memory : words (buffer.write32 ((4 * (4 * (k % slots) + place) : Nat) : Int) value) =
      update (words buffer) (4 * (k % slots) + place) value :=
    words_write32 buffer _ value (by omega)
  have busy : state.pending ≠ [] := by rw [pending, next]; simp
  have before : state.published = k := by rw [published_busy busy, count]; rfl
  have stored := inPlace_update inPlace longer
  have bounded := invariant.bounded
  have taken := invariant.taken
  have elsewhere : ∀ i, i % slots ≠ k % slots → trbOf (update (words buffer)
      (4 * (k % slots) + place) value) (i % slots) = trbOf (words buffer) (i % slots) := by
    intro i other
    exact trbOf_update_other value (by omega)
  have after : ∀ buffer, (state.stored buffer (((blockWrites slots k trb).drop (place + 1)).map
        atOffset)).published = if place = 3 then k + 1 else k := by
    intro buffer
    simp only [published, RingSystem.stored, List.map_eq_nil_iff, List.drop_eq_nil_iff, count,
      Nat.add_sub_cancel]
    have length : (blockWrites slots k trb).length = 4 := rfl
    congr 1
    simp only [eq_iff_iff]
    omega
  refine { invariant with
    allocated := rfl, room := by simpa using room, aligned := by simpa using invariant.aligned,
    taken := ?_, entries := ?_, vacant := ?_, link := ?_, inFlight := ?_, controller := ?_ }
  · rw [after]
    simp only [RingSystem.stored]
    split <;> omega
  · intro i low high
    rw [after] at high
    simp only [RingSystem.stored] at low ⊢
    simp only [atOffset, memory]
    by_cases inside : i < k
    · rw [elsewhere i (RingBuffer.mod_ne_of_lt inside (by omega))]
      exact invariant.entries i low (by omega)
    · have last : place = 3 := by
        by_contra early
        simp only [early, if_false] at high
        omega
      have same : i = k := by
        simp only [last, if_true] at high
        omega
      subst same last
      have complete : trbOf (update (words buffer) (4 * (i % slots) + 3) value)
          (i % slots) = trb.withCycle (cycleOf slots i) := trbOf_of_slotWrites stored
      rw [complete]
      exact ⟨by simpa using logged, cycleBit_withCycle trb _ clear, by simpa using proper⟩
  · intro i low high
    rw [after] at low
    simp only [RingSystem.stored] at high
    simp only [atOffset, memory]
    by_cases same : i = k
    · have early : place ≠ 3 := by
        intro last
        simp only [last, if_true] at low
        omega
      have vacant := invariant.vacant i (by omega) high
      simp only [Trb.cycleBit] at vacant ⊢
      rw [control_update_other value (by omega)]
      exact vacant
    · have later : k < i := by
        split at low <;> omega
      rw [elsewhere i (RingBuffer.mod_ne_of_lt later (by omega)).symm]
      exact invariant.vacant i (by omega) high
  · obtain ⟨cycle, linked, matching⟩ := invariant.link
    refine ⟨cycle, ?_, ?_⟩
    · simp only [atOffset, memory, DmaBuffer.write32_physicalAddress]
      exact memory_outside (by omega) linked
    · intro i boundary later inside near few
      exact matching i boundary later inside near (by rw [pending]; simp [slotWrites])
  · by_cases last : place = 3
    · subst last
      exact .inl rfl
    · refine .inr ⟨k, trb, count, logged, clear, proper, ?_⟩
      simp only [atOffset, memory]
      exact .block (place + 1) (by omega) stored
  · rw [DmaBuffer.write32_physicalAddress]
    exact invariant.controller

theorem Invariant.storeLink (boundary : k % slots = 0) (later : 0 < k) (pending : state.pending =
      ((lapWrites slots k buffer).drop place ++ blockWrites slots k trb).map atOffset)
    (split : state.pending = write :: rest) : Invariant slots (buffer.write32 write.1 write.2)
      (state.stored (buffer.write32 write.1 write.2) rest) := by
  obtain ⟨value, next, -⟩ :=
    slotWrites_next slots (linkTrb buffer.physicalAddress (!cycleOf slots k)) some_left
  rw [pending, next, List.cons_append, List.map_cons, List.cons.injEq] at split
  obtain ⟨rfl, rfl⟩ := split
  have room := invariant.room
  have memory : words (buffer.write32 ((4 * (4 * slots + place) : Nat) : Int) value) =
      update (words buffer) (4 * slots + place) value :=
    words_write32 buffer _ value (by omega)
  have busy : state.pending ≠ [] := by rw [pending, next]; simp
  have before : state.published = k := by rw [published_busy busy, count]; rfl
  have after : ∀ changed, (state.stored changed (((lapWrites slots k buffer).drop (place + 1) ++
        blockWrites slots k trb).map atOffset)).published = k := by
    intro changed
    rw [published_busy (by simp [stored, slotWrites])]
    simp [stored, count]
  have elsewhere : ∀ i, trbOf (update (words buffer) (4 * slots + place) value)
      (i % slots) = trbOf (words buffer) (i % slots) := by
    intro i
    have slot := Nat.mod_lt i positive
    exact trbOf_update_other value (by omega)
  refine { invariant with
    allocated := rfl, room := by simpa using room, aligned := by simpa using invariant.aligned,
    taken := ?_, entries := ?_, vacant := ?_, link := ?_, inFlight := ?_, controller := ?_ }
  · rw [after]
    exact before ▸ invariant.taken
  · intro i low high
    rw [after] at high
    simp only [atOffset, memory, elsewhere]
    exact invariant.entries i low (before.symm ▸ high)
  · intro i low high
    rw [after] at low
    simp only [atOffset, memory, elsewhere]
    exact invariant.vacant i (before.symm ▸ low) high
  · obtain ⟨cycle, linked, -⟩ := invariant.link
    refine ⟨if place = 3 then !cycleOf slots k else cycle, ?_, ?_⟩
    · simp only [atOffset, memory, DmaBuffer.write32_physicalAddress]
      exact link_update some_left linked next
    · intro i onBoundary positiveLap inside near few
      have last : place = 3 := by
        simp only [stored, List.length_map, List.length_append, List.length_drop,
          slotWrites, List.length_cons, List.length_nil] at few
        omega
      have same : i = k := by
        simp only [stored, count] at inside near
        by_contra other
        have earlier : i < k := by omega
        exact RingBuffer.mod_ne_of_lt earlier (by omega) (onBoundary.trans boundary.symm)
      rw [if_pos last, same]
  · refine .inr ⟨k, trb, count, logged, clear, proper, ?_⟩
    simp only [stored, atOffset, memory, DmaBuffer.write32_physicalAddress]
    by_cases last : place = 3
    · subst last
      exact .block 0 (by omega) (by simp)
    · exact .link (place + 1) (by omega) boundary later
  · rw [DmaBuffer.write32_physicalAddress]
    exact invariant.controller

end Stores

theorem Invariant.write (taken : state.step .write = some after) :
    ∃ changed, Invariant slots changed after := by
  simp only [step, invariant.allocated] at taken
  split at taken
  · rename_i write rest same split
    cases same
    cases taken
    refine ⟨buffer.write32 write.1 write.2, ?_⟩
    rcases invariant.inFlight with idle | ⟨k, trb, count, logged, clear, proper, inFlight⟩
    · rw [idle] at split
      cases split
    · generalize pending : state.pending = writes at inFlight
      cases inFlight with
      | link place some_left boundary later =>
        exact invariant.storeLink positive count logged clear proper some_left boundary later
          pending split
      | block place some_left inPlace =>
        exact invariant.storeBlock positive count logged clear proper some_left inPlace
          pending split
  · contradiction

variable (small : 16 * (slots + 1) < 2 ^ 31)

include small

/-- Where the next block goes, and whether the link is stored first. -/
theorem Invariant.wrap_spec : state.ring.wrap.enqueueIndex = (state.enqueued.length % slots : Nat) ∧
    state.ring.wrap.cycle = cycleWord (cycleOf slots state.enqueued.length) ∧
    ((int32 (state.ring.trbCount - 1) ≤ state.ring.enqueueIndex ∧
        state.enqueued.length % slots = 0 ∧ 0 < state.enqueued.length ∧
        state.ring.cycle = cycleWord (!cycleOf slots state.enqueued.length)) ∨
      (¬ int32 (state.ring.trbCount - 1) ≤ state.ring.enqueueIndex ∧
        (0 < state.enqueued.length → state.enqueued.length % slots ≠ 0))) := by
  have last : int32 (state.ring.trbCount - 1) = slots := by
    rw [invariant.trbCount, int32_of_range] <;> omega
  rcases invariant.producer with ⟨none, index, cycle⟩ | ⟨k, count, index, cycle⟩
  · have inside : ¬ int32 (state.ring.trbCount - 1) ≤ state.ring.enqueueIndex := by omega
    have kept : state.ring.wrap = state.ring := if_neg inside
    rw [kept, none, Nat.zero_mod, cycleOf_first positive]
    exact ⟨index, cycle, .inr ⟨inside, by omega⟩⟩
  · have slot := Nat.mod_lt k positive
    by_cases ending : k % slots + 1 = slots
    · obtain ⟨zero, flipped⟩ := succ_mod_last ending
      have wraps : int32 (state.ring.trbCount - 1) ≤ state.ring.enqueueIndex := by omega
      have toggled :
          (if cycleWord (cycleOf slots k) = 0 then 1 else 0) = cycleWord (!cycleOf slots k) := by
        cases cycleOf slots k <;> rfl
      rw [wrap, if_pos wraps, count, zero, flipped, cycle, toggled, Bool.not_not]
      exact ⟨rfl, rfl, .inl ⟨wraps, rfl, by omega, rfl⟩⟩
    · have inside : k % slots + 1 < slots := by omega
      obtain ⟨next, same⟩ := succ_mod_inside inside
      have before : ¬ int32 (state.ring.trbCount - 1) ≤ state.ring.enqueueIndex := by omega
      have kept : state.ring.wrap = state.ring := if_neg before
      rw [kept, count, next, same]
      exact ⟨index, cycle, .inr ⟨before, by omega⟩⟩

theorem Invariant.enqueueWrites_inFlight (trb : Trb) :
    InFlight slots buffer.physicalAddress (words buffer) state.enqueued.length trb
      (state.ring.enqueueWrites buffer trb) := by
  obtain ⟨index, cycle, wraps⟩ := invariant.wrap_spec positive small
  have slot := Nat.mod_lt state.enqueued.length positive
  have position : int32 (state.ring.wrap.enqueueIndex * trbBytes) =
      ((16 * (state.enqueued.length % slots) : Nat) : Int) := by
    rw [index, trbBytes, int32_of_range] <;> omega
  have block := trbWrites_slot (state.enqueued.length % slots)
    (trb.withCycle (cycleOf slots state.enqueued.length)) (by omega)
  have last : int32 (int32 (state.ring.trbCount - 1) * trbBytes) = ((16 * slots : Nat) : Int) := by
    have shown : int32 (state.ring.trbCount - 1) = slots := by
      rw [invariant.trbCount, int32_of_range] <;> omega
    rw [shown, trbBytes, int32_of_range] <;> omega
  have linked := trbWrites_slot slots
    (linkTrb buffer.physicalAddress (!cycleOf slots state.enqueued.length)) (by omega)
  rcases wraps with ⟨wraps, boundary, later, ending⟩ | ⟨inside, -⟩
  · have whole :
        state.ring.enqueueWrites buffer trb =
          ((lapWrites slots state.enqueued.length buffer).drop 0 ++
        blockWrites slots state.enqueued.length trb).map atOffset := by
      rw [enqueueWrites, if_pos wraps, linkWrites, position, last, cycle, ending,
        List.drop_zero, List.map_append, ← linked, ← block]
      rfl
    rw [whole]
    exact .link 0 (by omega) boundary later
  · have whole : state.ring.enqueueWrites buffer trb =
        ((blockWrites slots state.enqueued.length trb).drop 0).map atOffset := by
      rw [enqueueWrites, if_neg inside, position, cycle, List.drop_zero, ← block]
      rfl
    rw [whole]
    exact .block 0 (by omega) (by simp)

omit positive invariant small in
theorem InFlight.ne_nil (inFlight : InFlight slots address memory k trb writes) : writes ≠ [] := by
  cases inFlight with
  | link stored some_left boundary later => simp [slotWrites]
  | block stored some_left inPlace => simpa [slotWrites] using some_left

/-- A call with room on the ring and a proper block. -/
theorem Invariant.enqueue (proper : properEnqueue state (.enqueue trb))
    (taken : state.step (.enqueue trb) = some after) : Invariant slots buffer after := by
  obtain ⟨space, clear, notLink⟩ := proper
  obtain ⟨index, cycle, wraps⟩ := invariant.wrap_spec positive small
  have inFlight := invariant.enqueueWrites_inFlight positive small trb
  simp only [step, invariant.allocated] at taken
  split at taken
  · contradiction
  · rename_i same idle
    cases same
    cases taken
    have count := published_idle idle
    have consumed : state.consumed.length ≤ state.enqueued.length := count ▸ invariant.taken
    have fits : state.enqueued.length < state.consumed.length + slots := by
      rw [invariant.trbCount, outstanding] at space
      omega
    have slot := Nat.mod_lt state.enqueued.length positive
    have published : published { state with
        ring := state.ring.advance, pending := state.ring.enqueueWrites buffer trb,
        enqueued := state.enqueued ++ [trb.payload] } = state.enqueued.length := by
      rw [published_busy inFlight.ne_nil]
      simp
    refine { invariant with
      allocated := ?_, trbCount := ?_, producer := ?_, taken := ?_, bounded := ?_,
      inOrder := ?_, entries := ?_, vacant := ?_, link := ?_, inFlight := ?_ }
    · simpa [advance] using invariant.allocated
    · simpa [advance] using invariant.trbCount
    · refine .inr ⟨state.enqueued.length, by simp, ?_, cycle⟩
      simp only [advance, index]
      rw [int32_of_range] <;> omega
    · rw [published]
      exact consumed
    · simp only [List.length_append, List.length_singleton]
      omega
    · rw [List.take_append_of_le_length consumed]
      exact invariant.inOrder
    · intro k low high
      rw [published] at high
      simp only [List.getElem?_append_left high]
      exact invariant.entries k low (by omega)
    · intro k low high
      exact invariant.vacant k (by omega) high
    · obtain ⟨cycle, linked, matching⟩ := invariant.link
      refine ⟨cycle, linked, ?_⟩
      intro k boundary later inside near few
      simp only [List.length_append, List.length_singleton] at inside near
      by_cases newest : k = state.enqueued.length
      · -- on a lap boundary the call stores the link first, so eight stores are left
        subst newest
        rcases wraps with ⟨wraps, -⟩ | ⟨-, notBoundary⟩
        · simp [enqueueWrites, wraps, linkWrites, trbWrites] at few
        · exact absurd boundary (notBoundary later)
      · exact matching k boundary later (by omega) (by omega) (by simp [idle])
    · exact .inr ⟨state.enqueued.length, trb, by simp, by simp, clear, notLink, inFlight⟩
  · contradiction

omit positive invariant small in
/-- The block under the controller's pointer when it stands on a slot. -/
theorem fetch_slot (buffer : DmaBuffer) (small : 16 * slot < 2 ^ 64) :
    trbAt buffer (buffer.physicalAddress + BitVec.ofNat 64 (16 * slot) -
      buffer.physicalAddress).toNat = trbOf (words buffer) slot := by
  rw [BitVec.add_comm, add_sub_cancel, toNat_ofNat, Nat.mod_eq_of_lt small, trbAt_slot]

/-- On a published slot the controller consumes the block. -/
theorem Invariant.consumes (available : state.consumed.length < state.published)
    (pointer : state.pointer =
      buffer.physicalAddress + BitVec.ofNat 64 (16 * (state.consumed.length % slots)))
    (cycle : state.cycleState = cycleOf slots state.consumed.length) :
    state.controllerStep = some { state with
      pointer := buffer.physicalAddress + BitVec.ofNat 64 (16 * (state.consumed.length % slots + 1))
      consumed := state.enqueued.take (state.consumed.length + 1) } := by
  have slot := Nat.mod_lt state.consumed.length positive
  obtain ⟨logged, bit, notLink⟩ := invariant.entries _ (Nat.le_refl _) available
  have advanced : state.pointer + 16 = buffer.physicalAddress +
      BitVec.ofNat 64 (16 * (state.consumed.length % slots + 1)) := by
    rw [pointer, BitVec.add_assoc, Nat.mul_add, ofNat_add]
    rfl
  have longer : state.consumed ++ [(trbOf (words buffer) (state.consumed.length % slots)).payload] =
      state.enqueued.take (state.consumed.length + 1) := by
    rw [List.take_add_one, logged, ← invariant.inOrder]
    rfl
  simp only [controllerStep, invariant.allocated]
  rw [pointer, fetch_slot buffer (by omega), bit, cycle, ← pointer, longer, advanced]
  simp [notLink]

omit small in
/-- After a block is consumed its slot counts as vacant for the next lap. -/
theorem Invariant.consumed (available : state.consumed.length < state.published)
    (cycle : state.cycleState = cycleOf slots state.consumed.length) :
    Invariant slots buffer { state with
      pointer := buffer.physicalAddress + BitVec.ofNat 64 (16 * (state.consumed.length % slots + 1))
      consumed := state.enqueued.take (state.consumed.length + 1) } := by
  have slot := Nat.mod_lt state.consumed.length positive
  have below : state.published ≤ state.enqueued.length := by
    unfold published
    split <;> omega
  have length :
      (state.enqueued.take (state.consumed.length + 1)).length = state.consumed.length + 1 := by
    rw [List.length_take]
    omega
  have bounded : state.enqueued.length ≤ state.consumed.length + 1 + slots := by
    have := invariant.bounded
    omega
  refine
    { invariant with taken := ?_, bounded := ?_, inOrder := ?_, entries := ?_, vacant := ?_, controller := ?_ }
  · rw [length]
    exact available
  · rw [length]
    exact bounded
  · rw [length]
  · intro k low high
    rw [length] at low
    exact invariant.entries k (by omega) high
  · intro k low high
    rw [length] at high
    by_cases lapLater : k = state.consumed.length + slots
    · obtain ⟨-, bit, -⟩ := invariant.entries _ (Nat.le_refl _) available
      rw [lapLater, Nat.add_mod_right, bit, cycleOf_add_slots _ positive, Bool.not_not]
    · exact invariant.vacant k low (by omega)
  · rw [length]
    by_cases ending : state.consumed.length % slots + 1 = slots
    · obtain ⟨zero, flipped⟩ := succ_mod_last ending
      refine .inr ⟨zero, by omega, ?_, ?_⟩
      · rw [ending]
      · rw [flipped, Bool.not_not]
        exact cycle
    · have inside : state.consumed.length % slots + 1 < slots := by omega
      obtain ⟨next, same⟩ := succ_mod_inside inside
      refine .inl ⟨?_, ?_⟩
      · rw [next]
      · rw [same]
        exact cycle

omit positive in
/-- On the link the controller goes back to the first slot with the cycle of the
new lap. -/
theorem Invariant.follows
    (pointer : state.pointer = buffer.physicalAddress + BitVec.ofNat 64 (16 * slots))
    (linked : ∀ write ∈ slotWrites slots (linkTrb buffer.physicalAddress state.cycleState),
      words buffer write.1 = write.2) : state.controllerStep = some { state with
      pointer := buffer.physicalAddress, cycleState := !state.cycleState } := by
  simp only [controllerStep, invariant.allocated]
  rw [pointer, fetch_slot buffer (by omega), trbOf_of_slotWrites linked, cycleBit_linkTrb,
    type_linkTrb, togglesCycle_linkTrb]
  simp only [ne_eq, not_true_eq_false, if_false, if_true, linkTrb, invariant.aligned]

omit positive small in
theorem Invariant.followed (boundary : state.consumed.length % slots = 0)
    (cycle : state.cycleState = !cycleOf slots state.consumed.length) :
    Invariant slots buffer { state with
      pointer := buffer.physicalAddress, cycleState := !state.cycleState } := by
  refine { invariant with controller := .inl ⟨?_, ?_⟩ }
  · simp [boundary]
  · simp [cycle]

theorem Invariant.controllerStep (taken : state.controllerStep = some after) :
    Invariant slots buffer after := by
  rcases invariant.controller with ⟨pointer, cycle⟩ | ⟨boundary, later, pointer, cycle⟩
  · by_cases available : state.consumed.length < state.published
    · rw [invariant.consumes positive small available pointer cycle] at taken
      cases taken
      exact invariant.consumed positive available cycle
    · -- the slot still carries the cycle of the lap before, so nothing is taken
      have slot := Nat.mod_lt state.consumed.length positive
      have vacant := invariant.vacant state.consumed.length (by omega) (by omega)
      simp only [RingSystem.controllerStep, invariant.allocated] at taken
      rw [pointer, fetch_slot buffer (by omega), vacant, cycle] at taken
      simp at taken
  · obtain ⟨linkCycle, linked, -⟩ := invariant.link
    by_cases same : linkCycle = state.cycleState
    · rw [invariant.follows small pointer (same ▸ linked)] at taken
      cases taken
      exact invariant.followed boundary cycle
    · simp only [RingSystem.controllerStep, invariant.allocated] at taken
      rw [pointer, fetch_slot buffer (by omega), trbOf_of_slotWrites linked] at taken
      simp [same] at taken

theorem Invariant.delivers : state.Delivers := by
  refine ⟨?_, ?_⟩
  · rw [invariant.inOrder]
    exact List.take_prefix _ _
  · intro idle waiting
    have available : state.consumed.length < state.published := by
      rw [published_idle idle]
      exact waiting
    rcases invariant.controller with ⟨pointer, cycle⟩ | ⟨boundary, later, pointer, cycle⟩
    · exact .inl ⟨_, invariant.consumes positive small available pointer cycle, rfl⟩
    · obtain ⟨linkCycle, linked, matching⟩ := invariant.link
      have same : linkCycle = state.cycleState := by
        rw [matching _ boundary later waiting invariant.bounded (by simp [idle]), cycle]
      have follows := invariant.follows small pointer (same ▸ linked)
      have followed := invariant.followed boundary cycle
      rcases followed.controller with ⟨pointer, cycle⟩ | ⟨-, -, -, stuck⟩
      · have consumes := followed.consumes positive small available pointer cycle
        exact .inr ⟨_, (congrArg (·.bind RingSystem.controllerStep) follows).trans consumes, rfl⟩
      · simp [cycle] at stuck

end RingSystem

end Zapada.Usb
