import Zapada.Foundation.Machine
import Zapada.Foundation.RingBuffer
import Zapada.Hal.DmaBuffer

/-! The producer ring that the xHCI driver shares with the controller. The
driver fills transfer request blocks into a buffer and hands them over by their
cycle bit; the last block of the ring is a link back to the first one. -/

namespace Zapada.Usb

open Foundation Hal Storage

def trbBytes : Int := 16
def trbLink : Nat := 6
def trbControlToggleCycle : BitVec 32 := 1#32 <<< 1

def low32 (value : BitVec 64) : BitVec 32 := (value &&& 0xFFFFFFFF#64).setWidth 32

def high32 (value : BitVec 64) : BitVec 32 :=
  (value.sshiftRight 32 &&& 0xFFFFFFFF#64).setWidth 32

/-- A transfer request block as the controller reads it. -/
structure Trb where
  parameter : BitVec 64
  status : BitVec 32
  control : BitVec 32
deriving DecidableEq

namespace Trb

def cycleBit (trb : Trb) : Bool := trb.control.getLsbD 0

def togglesCycle (trb : Trb) : Bool := trb.control.getLsbD 1

def type (trb : Trb) : Nat := (trb.control >>> 10).toNat % 64

def payload (trb : Trb) : Trb := { trb with control := trb.control &&& ~~~1#32 }

end Trb

structure XhciRing where
  trbCount : Int
  buffer : Option DmaBuffer
  enqueueIndex : Int
  cycle : BitVec 32

namespace XhciRing

/-- One `Write32`: the offset and the value. -/
abbrev Write := Int × BitVec 32

def applyWrites (buffer : DmaBuffer) (writes : List Write) : DmaBuffer :=
  writes.foldl (fun buffer write => buffer.write32 write.1 write.2) buffer

/-- The stores that fill one block, in program order: the control word with the
cycle bit comes last. -/
def trbWrites (offset : Int) (parameter : BitVec 64) (status control : BitVec 32) : List Write :=
  [(int32 (offset + 0), low32 parameter), (int32 (offset + 4), high32 parameter),
    (int32 (offset + 8), status), (int32 (offset + 12), control)]

def linkControl (cycle : BitVec 32) : BitVec 32 :=
  (BitVec.ofNat 32 trbLink <<< 10) ||| trbControlToggleCycle ||| cycle

def linkWrites (ring : XhciRing) (buffer : DmaBuffer) : List Write :=
  trbWrites (int32 (int32 (ring.trbCount - 1) * trbBytes)) buffer.physicalAddress 0
    (linkControl ring.cycle)

def writeLinkTrb (ring : XhciRing) (buffer : DmaBuffer) : DmaBuffer :=
  applyWrites buffer (ring.linkWrites buffer)

def new (frames : Nat → Option (BitVec 52)) (trbCount : Int) : XhciRing :=
  let ring : XhciRing :=
    { trbCount, buffer := DmaBuffer.allocate frames (int32 (trbCount * trbBytes)), enqueueIndex := 0, cycle := 1 }
  match ring.buffer with
  | some buffer =>
    if 1 < trbCount then { ring with buffer := some (ring.writeLinkTrb buffer) } else ring
  | none => ring

/-- The driver's own fields after `Enqueue` has made sure that the index is in
front of the link block. -/
def wrap (ring : XhciRing) : XhciRing :=
  if int32 (ring.trbCount - 1) ≤ ring.enqueueIndex then
    { ring with enqueueIndex := 0, cycle := if ring.cycle = 0 then 1 else 0 }
  else ring

def enqueue (ring : XhciRing) (parameter : BitVec 64) (status control : BitVec 32) :
    Int × XhciRing :=
  match ring.buffer with
  | none => (StorageStatus.noMemory, ring)
  | some buffer =>
    let buffer :=
      if int32 (ring.trbCount - 1) ≤ ring.enqueueIndex then ring.writeLinkTrb buffer else buffer
    let ring := ring.wrap
    let offset := int32 (ring.enqueueIndex * trbBytes)
    let buffer := applyWrites buffer (trbWrites offset parameter status (control ||| ring.cycle))
    (StorageStatus.ok,
      { ring with buffer := some buffer, enqueueIndex := int32 (ring.enqueueIndex + 1) })

/-- `DequeuePointer`: the address of the first block, with the initial consumer
cycle state in bit 0. -/
def dequeuePointer (buffer : DmaBuffer) : BitVec 64 := buffer.physicalAddress ||| 1

/-- All stores of one `Enqueue` call in program order. -/
def enqueueWrites (ring : XhciRing) (buffer : DmaBuffer) (trb : Trb) : List Write :=
  (if int32 (ring.trbCount - 1) ≤ ring.enqueueIndex then ring.linkWrites buffer else []) ++
    trbWrites (int32 (ring.wrap.enqueueIndex * trbBytes)) trb.parameter trb.status
      (trb.control ||| ring.wrap.cycle)

/-- The driver's own fields after an `Enqueue` call. -/
def advance (ring : XhciRing) : XhciRing :=
  { ring.wrap with enqueueIndex := int32 (ring.wrap.enqueueIndex + 1) }

@[simp] theorem wrap_trbCount (ring : XhciRing) : ring.wrap.trbCount = ring.trbCount := by
  unfold wrap
  split <;> rfl

@[simp] theorem wrap_buffer (ring : XhciRing) : ring.wrap.buffer = ring.buffer := by
  unfold wrap
  split <;> rfl

/-- A call is its stores, done one after the other, and the update of fields
that the controller cannot see. -/
theorem enqueue_eq_writes (ring : XhciRing) (trb : Trb) {buffer : DmaBuffer}
    (allocated : ring.buffer = some buffer) :
    ring.enqueue trb.parameter trb.status trb.control = (StorageStatus.ok,
        { ring.advance with buffer := some (applyWrites buffer (ring.enqueueWrites buffer trb)) })
          := by
  simp only [enqueue, allocated, advance, enqueueWrites, applyWrites, writeLinkTrb,
    List.foldl_append]
  split <;> rfl

end XhciRing

/-- The block that the bytes at an offset spell. -/
def trbAt (buffer : DmaBuffer) (offset : Nat) : Trb where
  parameter := buffer.word (offset + 4) ++ buffer.word offset
  status := buffer.word (offset + 8)
  control := buffer.word (offset + 12)

/-- Driver, shared memory and controller. The stores of the `Enqueue` call in
progress are pending until they reach memory one by one; the two lists record
what was enqueued and what the controller took, without cycle bits. -/
structure RingSystem where
  ring : XhciRing
  pending : List XhciRing.Write
  pointer : BitVec 64
  cycleState : Bool
  enqueued : List Trb
  consumed : List Trb

inductive RingEvent where
  | enqueue (trb : Trb)
  | write
  | controller
deriving DecidableEq

namespace RingSystem

/-- The controller looks at the block under its pointer. A block of the other
cycle is not its own yet; a link block moves the pointer; any other block is
consumed. -/
def controllerStep (state : RingSystem) : Option RingSystem :=
  match state.ring.buffer with
  | none => none
  | some buffer =>
    let trb := trbAt buffer (state.pointer - buffer.physicalAddress).toNat
    if trb.cycleBit ≠ state.cycleState then none
    else if trb.type = trbLink then
      some { state with
        pointer := trb.parameter &&& ~~~15#64
        cycleState := if trb.togglesCycle then !state.cycleState else state.cycleState }
    else
      some { state with
        pointer := state.pointer + 16
        consumed := state.consumed ++ [trb.payload] }

/-- The driver is one thread: a call begins when the one before has returned,
and without a buffer it returns at once. -/
def step (state : RingSystem) : RingEvent → Option RingSystem
  | .enqueue trb =>
    match state.ring.buffer, state.pending with
    | none, _ => some state
    | some buffer, [] =>
      some { state with
        ring := state.ring.advance
        pending := state.ring.enqueueWrites buffer trb
        enqueued := state.enqueued ++ [trb.payload] }
    | some _, _ :: _ => none
  | .write =>
    match state.ring.buffer, state.pending with
    | some buffer, write :: rest =>
      some { state with
        ring := { state.ring with buffer := some (buffer.write32 write.1 write.2) }
        pending := rest }
    | _, _ => none
  | .controller => state.controllerStep

/-- A fresh ring, with the controller started at its dequeue pointer. -/
def start (frames : Nat → Option (BitVec 52)) (trbCount : Int) : RingSystem :=
  let ring := XhciRing.new frames trbCount
  let pointer := (ring.buffer.map XhciRing.dequeuePointer).getD 0
  { ring, pending := [], pointer := pointer &&& ~~~15#64, cycleState := pointer.getLsbD 0,
    enqueued := [], consumed := [] }

def outstanding (state : RingSystem) : Nat := state.enqueued.length - state.consumed.length

/-- The next outstanding block is consumed, after the link is followed if the
controller stands on it. -/
def ConsumesNext (state : RingSystem) : Prop :=
  (∃ after ∈ state.controllerStep, after.consumed = state.enqueued.take
    (state.consumed.length + 1)) ∨
    ∃ after ∈ state.controllerStep.bind controllerStep,
      after.consumed = state.enqueued.take (state.consumed.length + 1)

instance (state : RingSystem) : Decidable state.ConsumesNext :=
  inferInstanceAs (Decidable (_ ∨ _))

/-- What was consumed is what was enqueued, each block once and in order, and a
block whose call has returned can be consumed. -/
def Delivers (state : RingSystem) : Prop :=
  state.consumed <+: state.enqueued ∧
    (state.pending = [] → state.consumed.length < state.enqueued.length → state.ConsumesNext)

instance (state : RingSystem) : Decidable state.Delivers :=
  inferInstanceAs (Decidable (_ ∧ _))

end RingSystem

def ringMachine (frames : Nat → Option (BitVec 52)) (trbCount : Int) :
    Machine RingSystem RingEvent :=
  Machine.ofStep (RingSystem.start frames trbCount) RingSystem.step

/-- `Enqueue` is called while fewer than `trbCount - 1` blocks are outstanding. -/
def hasRoom (state : RingSystem) : RingEvent → Prop
  | .enqueue _ => (state.outstanding : Int) < state.ring.trbCount - 1
  | _ => True

instance (state : RingSystem) (event : RingEvent) : Decidable (hasRoom state event) := by
  cases event <;> unfold hasRoom <;> infer_instance

/-- In addition the caller leaves the cycle bit clear and does not enqueue a
link block of its own. -/
def properEnqueue (state : RingSystem) : RingEvent → Prop
  | .enqueue trb =>
    (state.outstanding : Int) < state.ring.trbCount - 1 ∧ trb.cycleBit = false ∧ trb.type ≠ trbLink
  | _ => True

instance (state : RingSystem) (event : RingEvent) : Decidable (properEnqueue state event) := by
  cases event <;> unfold properEnqueue <;> infer_instance

/-! The ring invariant: which block each slot holds and under which cycle, seen
from the count of blocks enqueued and consumed so far. The `k`-th block lives in
slot `k % slots`, and the cycle changes with every lap. -/

open Function BitVec

section Words

def words (buffer : DmaBuffer) (index : Nat) : BitVec 32 := buffer.word (4 * index)

theorem words_write32 (buffer : DmaBuffer) (index : Nat) (value : BitVec 32)
    (room : 4 * index + 4 ≤ buffer.size) : words (buffer.write32 ((4 * index : Nat) : Int) value) =
      update (words buffer) index value := by
  funext other
  by_cases same : other = index
  · subst same
    rw [update_self]
    exact buffer.word_write32_same value (by omega) room
  · rw [update_of_ne same]
    exact buffer.word_write32_other value (by omega) (by omega) (by omega)

def trbOf (memory : Nat → BitVec 32) (slot : Nat) : Trb where
  parameter := memory (4 * slot + 1) ++ memory (4 * slot)
  status := memory (4 * slot + 2)
  control := memory (4 * slot + 3)

theorem trbAt_slot (buffer : DmaBuffer) (slot : Nat) :
    trbAt buffer (16 * slot) = trbOf (words buffer) slot := by
  have first : 16 * slot = 4 * (4 * slot) := by omega
  simp [trbAt, trbOf, words, first, Nat.mul_add]

/-- The four word stores that fill a slot, by word index. -/
def slotWrites (slot : Nat) (trb : Trb) : List (Nat × BitVec 32) :=
  [(4 * slot, low32 trb.parameter), (4 * slot + 1, high32 trb.parameter),
    (4 * slot + 2, trb.status), (4 * slot + 3, trb.control)]

def atOffset (write : Nat × BitVec 32) : XhciRing.Write := (((4 * write.1 : Nat) : Int), write.2)

theorem trbWrites_slot (slot : Nat) (trb : Trb) (small : 16 * slot + 12 < 2 ^ 31) :
    XhciRing.trbWrites (16 * slot : Nat) trb.parameter trb.status trb.control =
      (slotWrites slot trb).map atOffset := by
  have plain : ∀ extra : Nat, extra ≤ 12 →
      int32 (((16 * slot : Nat) : Int) + extra) = ((16 * slot + extra : Nat) : Int) := by
    intro extra bounded
    rw [int32_of_range] <;> omega
  have zero := plain 0 (by omega)
  have four := plain 4 (by omega)
  have eight := plain 8 (by omega)
  have twelve := plain 12 (by omega)
  simp only [Nat.cast_ofNat, Nat.cast_zero] at zero four eight twelve
  simp only [XhciRing.trbWrites, slotWrites, List.map_cons, List.map_nil, atOffset, zero, four,
    eight, twelve, Nat.mul_add, ← Nat.mul_assoc, Nat.add_zero, Nat.reduceMul]

private theorem masked (value : BitVec 64) :
    (value &&& 0xFFFFFFFF#64).setWidth 32 = value.setWidth 32 := by
  have mask : (0xFFFFFFFF#64).setWidth 32 = allOnes 32 := by decide
  rw [setWidth_and, mask, and_allOnes]

theorem high32_append_low32 (value : BitVec 64) : high32 value ++ low32 value = value := by
  apply eq_of_getLsbD_eq
  intro index bounded
  simp only [low32, high32, masked, getLsbD_append, getLsbD_setWidth, getLsbD_sshiftRight]
  by_cases low : index < 32
  · simp [low]
  · have upper : index - 32 < 32 := by omega
    have inside : 32 + (index - 32) = index := by omega
    have notWide : ¬ 64 ≤ index - 32 := by omega
    simp [low, upper, inside, notWide, bounded]

/-- When the four words of a slot hold what its stores wrote, the slot holds the
block. -/
theorem trbOf_of_slotWrites (stored : ∀ write ∈ slotWrites slot trb, memory write.1 = write.2) :
    trbOf memory slot = trb := by
  simp only [slotWrites, List.forall_mem_cons] at stored
  obtain ⟨low, high, status, control, -⟩ := stored
  simp [trbOf, low, high, status, control, high32_append_low32]

theorem trbOf_update_other (value : BitVec 32)
    (outside : index / 4 ≠ slot) : trbOf (update memory index value) slot = trbOf memory slot := by
  have zero : 4 * slot ≠ index := by omega
  have one : 4 * slot + 1 ≠ index := by omega
  have two : 4 * slot + 2 ≠ index := by omega
  have three : 4 * slot + 3 ≠ index := by omega
  simp [trbOf, update_of_ne zero, update_of_ne one, update_of_ne two, update_of_ne three]

theorem control_update_other (value : BitVec 32) (notControl : index % 4 ≠ 3) :
    (trbOf (update memory index value) slot).control = (trbOf memory slot).control := by
  have three : 4 * slot + 3 ≠ index := by omega
  simp [trbOf, update_of_ne three]

end Words

section Cycle

/-- The cycle bit as the word that the driver keeps and stores. -/
def cycleWord (cycle : Bool) : BitVec 32 := if cycle then 1 else 0

/-- The producer cycle of the `k`-th block. -/
def cycleOf (slots k : Nat) : Bool := decide (k / slots % 2 = 0)

def Trb.withCycle (trb : Trb) (cycle : Bool) : Trb :=
  { trb with control := trb.control ||| cycleWord cycle }

def linkTrb (address : BitVec 64) (cycle : Bool) : Trb where
  parameter := address
  status := 0
  control := XhciRing.linkControl (cycleWord cycle)

theorem cycleOf_add_slots (k : Nat) (positive : 0 < slots) :
    cycleOf slots (k + slots) = !cycleOf slots k := by
  have lap : (k + slots) / slots = k / slots + 1 := Nat.add_div_right k positive
  simp only [cycleOf, lap]
  by_cases even : k / slots % 2 = 0
  · have odd : (k / slots + 1) % 2 ≠ 0 := by omega
    simp [even, odd]
  · have next : (k / slots + 1) % 2 = 0 := by omega
    simp [even, next]

theorem cycleOf_first (firstLap : k < slots) : cycleOf slots k = true := by
  simp [cycleOf, Nat.div_eq_of_lt firstLap]

@[simp] theorem payload_withCycle (trb : Trb) (cycle : Bool) :
    (trb.withCycle cycle).payload = trb.payload := by
  cases cycle with
  | false => simp [Trb.withCycle, cycleWord]
  | true =>
    have cleared : (trb.control ||| 1#32) &&& ~~~1#32 = trb.control &&& ~~~1#32 := by
      grind
    simp only [Trb.withCycle, Trb.payload, cycleWord, ↓reduceIte]
    rw [show (1 : BitVec 32) = 1#32 from rfl, cleared]

@[simp] theorem type_withCycle (trb : Trb) (cycle : Bool) :
    (trb.withCycle cycle).type = trb.type := by
  cases cycle with
  | false => simp [Trb.withCycle, cycleWord]
  | true =>
    have gone : 1#32 >>> 10 = 0#32 := by decide
    simp only [Trb.withCycle, Trb.type, cycleWord, ↓reduceIte]
    rw [show (1 : BitVec 32) = 1#32 from rfl, ushiftRight_or_distrib, gone, or_zero]

theorem cycleBit_withCycle (trb : Trb) (cycle : Bool) (clear : trb.cycleBit = false) :
    (trb.withCycle cycle).cycleBit = cycle := by
  have lowest : ∀ cycle, (cycleWord cycle).getLsbD 0 = cycle := by decide
  simp only [Trb.cycleBit] at clear ⊢
  simp only [Trb.withCycle, getLsbD_or, clear, Bool.false_or, lowest]

theorem linkControl_bits : ∀ cycle, (XhciRing.linkControl (cycleWord cycle)).getLsbD 0 = cycle ∧
    (XhciRing.linkControl (cycleWord cycle)).getLsbD 1 = true ∧
    (XhciRing.linkControl (cycleWord cycle) >>> 10).toNat % 64 = trbLink := by
  decide

@[simp] theorem cycleBit_linkTrb (address : BitVec 64) (cycle : Bool) :
    (linkTrb address cycle).cycleBit = cycle := (linkControl_bits cycle).1

@[simp] theorem togglesCycle_linkTrb (address : BitVec 64) (cycle : Bool) :
    (linkTrb address cycle).togglesCycle = true := (linkControl_bits cycle).2.1

@[simp] theorem type_linkTrb (address : BitVec 64) (cycle : Bool) :
    (linkTrb address cycle).type = trbLink := (linkControl_bits cycle).2.2

end Cycle

section Laps

theorem succ_mod_inside (inside : k % slots + 1 < slots) :
    (k + 1) % slots = k % slots + 1 ∧ cycleOf slots (k + 1) = cycleOf slots k := by
  have split := Nat.div_add_mod k slots
  have next : k + 1 = slots * (k / slots) + (k % slots + 1) := by omega
  have lap : (k + 1) / slots = k / slots := by
    rw [next, Nat.mul_add_div (by omega), Nat.div_eq_of_lt inside, Nat.add_zero]
  refine ⟨?_, by simp [cycleOf, lap]⟩
  rw [next, Nat.mul_add_mod, Nat.mod_eq_of_lt inside]

theorem succ_mod_last (last : k % slots + 1 = slots) :
    (k + 1) % slots = 0 ∧ cycleOf slots (k + 1) = !cycleOf slots k := by
  have positive : 0 < slots := by omega
  have split := Nat.div_add_mod k slots
  have next : k + 1 = slots * (k / slots + 1) := by rw [Nat.mul_add]; omega
  have lap : (k + 1) / slots = k / slots + 1 := by rw [next, Nat.mul_div_cancel_left _ positive]
  have start := cycleOf_add_slots k positive
  refine ⟨by rw [next, Nat.mul_mod_right], ?_⟩
  rw [← start]
  simp [cycleOf, lap, Nat.add_div_right k positive]

end Laps

namespace RingSystem

/-- How many blocks the controller may take: the block of a call in progress
still lacks its control word. -/
def published (state : RingSystem) : Nat :=
  if state.pending = [] then state.enqueued.length else state.enqueued.length - 1

theorem published_idle {state : RingSystem} (idle : state.pending = []) :
    state.published = state.enqueued.length := if_pos idle

theorem published_busy {state : RingSystem} (busy : state.pending ≠ []) :
    state.published = state.enqueued.length - 1 := if_neg busy

/-- The `Enqueue` call in progress: it is storing the link block, or the block
itself with some words already in place. -/
inductive InFlight (slots : Nat) (address : BitVec 64) (memory : Nat → BitVec 32) (k : Nat)
    (trb : Trb) : List XhciRing.Write → Prop where
  | link (stored : Nat) (some_left : stored < 4) (boundary : k % slots = 0) (later : 0 < k) :
      InFlight slots address memory k trb
        (((slotWrites slots (linkTrb address (!cycleOf slots k))).drop stored ++
          slotWrites (k % slots) (trb.withCycle (cycleOf slots k))).map atOffset)
  | block (stored : Nat) (some_left : stored < 4)
      (inPlace : ∀ write ∈ (slotWrites (k % slots) (trb.withCycle (cycleOf slots k))).take stored,
        memory write.1 = write.2) :
      InFlight slots address memory k trb
        (((slotWrites (k % slots) (trb.withCycle (cycleOf slots k))).drop stored).map atOffset)

/-- The invariant of a ring with `slots` slots before the link. -/
structure Invariant (slots : Nat) (buffer : DmaBuffer) (state : RingSystem) : Prop where
  allocated : state.ring.buffer = some buffer
  room : 16 * (slots + 1) ≤ buffer.size
  aligned : buffer.physicalAddress &&& ~~~15#64 = buffer.physicalAddress
  trbCount : state.ring.trbCount = slots + 1
  producer : (state.enqueued.length = 0 ∧ state.ring.enqueueIndex = 0 ∧ state.ring.cycle = 1) ∨
    ∃ k, state.enqueued.length = k + 1 ∧ state.ring.enqueueIndex = (k % slots + 1 : Nat) ∧
      state.ring.cycle = cycleWord (cycleOf slots k)
  taken : state.consumed.length ≤ state.published
  bounded : state.enqueued.length ≤ state.consumed.length + slots
  inOrder : state.consumed = state.enqueued.take state.consumed.length
  entries : ∀ k, state.consumed.length ≤ k → k < state.published →
    state.enqueued[k]? = some (trbOf (words buffer) (k % slots)).payload ∧
      (trbOf (words buffer) (k % slots)).cycleBit = cycleOf slots k ∧
      (trbOf (words buffer) (k % slots)).type ≠ trbLink
  vacant : ∀ k, state.published ≤ k → k < state.consumed.length + slots →
    (trbOf (words buffer) (k % slots)).cycleBit = !cycleOf slots k
  link : ∃ cycle, (∀ write ∈ slotWrites slots (linkTrb buffer.physicalAddress cycle),
      words buffer write.1 = write.2) ∧
    ∀ k, k % slots = 0 → 0 < k → k < state.enqueued.length → state.enqueued.length ≤ k + slots →
      state.pending.length ≤ 4 → cycle = !cycleOf slots k
  inFlight : state.pending = [] ∨ ∃ k trb, state.enqueued.length = k + 1 ∧
    state.enqueued[k]? = some trb.payload ∧ trb.cycleBit = false ∧ trb.type ≠ trbLink ∧
    InFlight slots buffer.physicalAddress (words buffer) k trb state.pending
  controller :
      (state.pointer = buffer.physicalAddress + BitVec.ofNat 64
        (16 * (state.consumed.length % slots)) ∧
      state.cycleState = cycleOf slots state.consumed.length) ∨
    (state.consumed.length % slots = 0 ∧ 0 < state.consumed.length ∧
      state.pointer = buffer.physicalAddress + BitVec.ofNat 64 (16 * slots) ∧
      state.cycleState = !cycleOf slots state.consumed.length)

end RingSystem

end Zapada.Usb
