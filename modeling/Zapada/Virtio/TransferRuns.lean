import Zapada.Foundation.Machine
import Zapada.Virtio.DriverSteps

namespace Zapada.Virtio

open Foundation Storage Hal VirtioConstants List

/-- The driver starts a call or goes on with it; the device makes a step of its own. -/
inductive Event where
  | transfer (call : TransferCall)
  | driver
  | take
  | serve (k : Nat)
  | report (k : Nat) (code : UInt8)
  | publish (k : Nat)

def Phase.atRest : Phase → Bool
  | .idle | .returned _ _ _ | .refused _ => true
  | _ => false

def VirtioState.step (state : VirtioState) : Event → Option VirtioState
  | .transfer call => if state.phase.atRest then some (state.transfer call) else none
  | .driver => state.driverStep
  | .take => state.take
  | .serve k => state.serve k
  | .report k code => state.report k code
  | .publish k => state.publish k

structure Initialized (state : VirtioState) : Prop where
  allocated :
      ∀ name, ∃ frames, DmaBuffer.allocate frames (bufferBytes name) = some (state.shared name)
  distinct : ∀ one two, (state.shared one).physicalAddress = (state.shared two).physicalAddress →
    one = two
  queueSize : ∃ maxQueueSize > 0, state.queueSize = min maxQueueSize VirtioConstants.queueSize
  capacity : 0 < state.capacity
  driver : state.lastUsedIndex = 0 ∧ state.phase = .idle
  device : state.device = ⟨0, 0, []⟩

def virtioMachine : Machine VirtioState Event where
  initial := Initialized
  step before event after := before.step event = some after

/-- No call is accepted while the device still has an earlier request. -/
def nothingOutstanding (state : VirtioState) : Event → Prop
  | .transfer call => (acceptTransfer state.capacity call).isSome → state.Quiet
  | _ => True

theorem Initialized.buffer (initialized : Initialized state) (name : BufferName) :
    (state.shared name).bytes = (fun _ => 0) ∧
      (state.shared name).size = if name = .data then 65536 else 4096 := by
  obtain ⟨frames, allocated⟩ := initialized.allocated name
  obtain ⟨frame, same⟩ := DmaBuffer.allocate_eq allocated
  rw [same]
  refine ⟨rfl, ?_⟩
  cases name <;> rfl

theorem Initialized.sound (initialized : Initialized state) : Rings state ∧ state.Sound := by
  have zero : ∀ offset width, Memory.load (fun _ => 0) offset width = 0 := by
    intro offset width
    induction width generalizing offset with
    | zero => rfl
    | succ width ih => simp [Memory.load, ih]
  have device := initialized.device
  obtain ⟨maxQueueSize, positive, queueSize⟩ := initialized.queueSize
  have avail : state.availIndex = 0 := by
    rw [VirtioState.availIndex, VirtioState.loadWord, (initialized.buffer _).1, zero]
    rfl
  have acked : state.acked = 0 := by
    rw [VirtioState.acked, initialized.driver.1]
    rfl
  refine ⟨⟨?_, ?_, initialized.distinct, ?_, ?_, ?_, ?_⟩, ?_⟩
  · intro name other
    rw [(initialized.buffer name).2, if_neg other]
  · rw [(initialized.buffer .data).2, if_pos rfl]
  · rw [queueSize, VirtioConstants.queueSize]
    omega
  · intro slot _
    rw [(initialized.buffer _).1, zero]
  · rw [VirtioState.loadWord, (initialized.buffer _).1, zero, device]
    rfl
  · simp [device]
  · simp only [VirtioState.Sound, initialized.driver.2]
    refine .inl ⟨⟨by rw [device], ?_⟩, avail.trans acked.symm, ?_⟩
    · rw [device, avail]
    · rw [device, acked]

/-- The invariant of all runs in which no call meets an unfinished request. -/
theorem sound_inductive :
    (virtioMachine.guarded nothingOutstanding).Inductive
      (fun state => Rings state ∧ state.Sound) where
  initially _ initialized := initialized.sound
  preserved := by
    rintro before event after ⟨rings, sound⟩ ⟨guard, taken⟩
    have device : (Rings after ∧ VirtioState.Moves before after) → Rings after ∧ after.Sound :=
      fun ⟨rings, moves⟩ => ⟨rings, moves.sound sound⟩
    cases event with
    | transfer call =>
      simp only [virtioMachine, VirtioState.step] at taken
      split at taken
      · rename_i atRest
        cases taken
        refine VirtioState.transfer_sound rings ?_ call guard
        simp only [VirtioState.Sound] at sound
        cases phase :
            before.phase <;> simp only [phase, Phase.atRest, Bool.false_eq_true] at atRest sound
        · exact sound
        · exact sound.1
        · exact sound
      · contradiction
    | driver => exact VirtioState.driverStep_sound rings sound taken
    | take => exact device (VirtioState.take_moves rings taken)
    | serve k => exact device (VirtioState.serve_moves rings taken)
    | report k code => exact device (VirtioState.report_moves rings taken)
    | publish k => exact device (VirtioState.publish_moves rings taken)

def Phase.job? : Phase → Option Job
  | .idle | .refused _ => none
  | .writing job _ | .polling job _ | .seen job | .checking job | .copying job
  | .returned job _ _ => some job

def lastCall (events : List Event) : Option TransferCall :=
  (events.filterMap fun | .transfer call => some call | _ => none).getLast?

theorem driverStep_job {state after : VirtioState} (stepped : state.driverStep = some after) :
    after.phase.job? = state.phase.job? ∧ after.capacity = state.capacity := by
  simp only [VirtioState.driverStep] at stepped
  split at stepped
  · contradiction
  · contradiction
  · contradiction
  all_goals
    rename_i phase
    cases stepped
    rw [phase]
    try dsimp only [VirtioState.poll, VirtioState.acknowledge, VirtioState.checkStatus,
      VirtioState.copyOut]
    repeat' split
    all_goals exact ⟨rfl, rfl⟩

theorem job_of_lastCall (run : (virtioMachine.guarded nothingOutstanding).Run events state) :
    state.phase.job? = (lastCall events).bind (acceptTransfer state.capacity) := by
  induction run with
  | start initialized => rw [initialized.driver.2, lastCall]; rfl
  | @next events before event after earlier taken ih =>
    have rings := (sound_inductive.reached earlier).1
    obtain ⟨-, taken⟩ := taken
    have same : (∀ call, event ≠ .transfer call) → after.phase.job? = before.phase.job? →
        after.capacity = before.capacity →
        after.phase.job? = (lastCall (events ++ [event])).bind (acceptTransfer after.capacity) := by
      intro silent job capacity
      rw [job, ih, capacity, lastCall, lastCall, filterMap_append]
      cases event with
      | transfer call => exact absurd rfl (silent call)
      | _ => simp
    cases event with
    | transfer call =>
      simp only [virtioMachine, VirtioState.step] at taken
      split at taken
      · cases taken
        simp only [lastCall, filterMap_append, VirtioState.transfer]
        cases accepted : acceptTransfer before.capacity call <;> simp [accepted, Phase.job?]
      · contradiction
    | driver =>
      obtain ⟨job, capacity⟩ := driverStep_job taken
      exact same (by simp) job capacity
    | take =>
      have takes := VirtioState.take_cases rings taken
      exact same (by simp) (by rw [takes.eq]) (by rw [takes.eq])
    | serve k =>
      obtain ⟨request, done, -, -, serves, -⟩ := VirtioState.serve_cases rings taken
      exact same (by simp) (by rw [serves.stays.2.1]) serves.stays.2.2
    | report k code =>
      obtain ⟨request, done, -, -, serves, -⟩ := VirtioState.report_cases rings taken
      exact same (by simp) (by rw [serves.stays.2.1]) serves.stays.2.2
    | publish k =>
      obtain ⟨request, -, publishes⟩ := VirtioState.publish_cases rings taken
      exact same (by simp) (by rw [publishes.stays.2.1]) publishes.stays.2.2.1

theorem acceptTransfer_eq (accepted : acceptTransfer capacity call = some job) :
    call.buffer = some job.buffer ∧ job.requestType = call.requestType ∧
      (job.lba : Int) = call.lba ∧ (job.sectorCount : Int) = call.sectorCount ∧
      (job.bufferOffset : Int) = call.bufferOffset := by
  simp only [acceptTransfer] at accepted
  split at accepted
  · contradiction
  · rename_i buffer given
    simp only [Option.dite_none_left_eq_some, Option.ite_none_left_eq_some,
      Option.some.injEq] at accepted
    obtain ⟨counts, -, range, rfl⟩ := accepted
    refine ⟨given, rfl, ?_, ?_, ?_⟩ <;> simp only <;> omega

/-- A read that succeeds returns the sectors of its own call, as long as no call starts
while the device still has an earlier request. -/
theorem read_returns_own_sectors (run : (virtioMachine.guarded nothingOutstanding).Run events state)
    (called : lastCall events = some call) (isRead : call.requestType = .blockRequestIn)
    (ended : state.phase = .returned job status buffer) (success : 0 ≤ status) :
    ∃ given, call.buffer = some given ∧ buffer.length = given.length ∧ ∀ i : Nat, buffer.bytes i =
        if call.bufferOffset ≤ i ∧ i < call.bufferOffset + 512 * call.sectorCount then
          state.disk (512 * call.lba.toNat + (i - call.bufferOffset.toNat)) else given.bytes i := by
  have accepted := job_of_lastCall run
  rw [ended, called, Option.bind_some] at accepted
  obtain ⟨given, requestType, lba, sectorCount, bufferOffset⟩ := acceptTransfer_eq accepted.symm
  have sound := (sound_inductive.reached run).2
  simp only [VirtioState.Sound, ended] at sound
  obtain ⟨-, returned⟩ := sound.2 (requestType.trans isRead) success
  rw [returned]
  refine ⟨job.buffer, given, rfl, ?_⟩
  intro i
  rw [← lba, ← sectorCount, ← bufferOffset]
  simp only [Memory.copy, Job.byteCount, sectorSize, Int.toNat_natCast]
  apply if_congr _ rfl rfl
  omega

section Sample

private def frame : BufferName → BitVec 52
  | .descriptor => 16
  | .available => 17
  | .used => 18
  | .header => 19
  | .status => 20
  | .data => 21

/-- A device of two sectors, the first filled with 1 and the second with 2. -/
def sampleState : VirtioState where
  shared name :=
    { size := if name = .data then 65536 else 4096
      physicalAddress := frame name ++ 0#12
      bytes := fun _ => 0 }
  queueSize := 64
  capacity := 2
  lastUsedIndex := 0
  phase := .idle
  device := ⟨0, 0, []⟩
  disk := fun i => if i < 512 then 1 else 2

theorem sampleState_initialized : Initialized sampleState where
  allocated name := ⟨fun _ => some (frame name), by cases name <;> rfl⟩
  distinct one two := by cases one <;> cases two <;> decide
  queueSize := ⟨64, by decide, by decide⟩
  capacity := by decide
  driver := ⟨rfl, rfl⟩
  device := rfl

/-- Read one sector into an array of its size. -/
def sampleRead (lba : Nat) (small : (lba : Int) < 2 ^ 63) : TransferCall where
  requestType := .blockRequestIn
  lba
  sectorCount := 1
  buffer := some { length := 512, bytes := fun _ => 0, bounded := by decide }
  bufferOffset := 0
  inLong := small

instance (state : VirtioState) : Decidable state.Quiet :=
  inferInstanceAs (Decidable (_ = [] ∧ _))

instance (state : VirtioState) (event : Event) : Decidable (nothingOutstanding state event) :=
  match event with
  | .transfer _ => inferInstanceAs (Decidable (_ → state.Quiet))
  | .driver | .take | .serve _ | .report _ _ | .publish _ => isTrue trivial

def sampleEvents : List Event :=
  [.transfer (sampleRead 1 (by decide))] ++ replicate 39 .driver ++
    [.take, .serve 0, .report 0 0, .publish 0] ++ replicate 4 .driver

/-- The status and the first byte that a call returned. -/
def Phase.outcome? : Phase → Option (Int × UInt8)
  | .returned _ status buffer => some (status, buffer.bytes 0)
  | _ => none

theorem Phase.returned_of_outcome {phase : Phase} (outcome : phase.outcome? = some (status, byte)) :
    ∃ job buffer, phase = .returned job status buffer ∧ buffer.bytes 0 = byte := by
  cases phase with
  | returned job status buffer =>
    cases outcome
    exact ⟨job, buffer, rfl, rfl⟩
  | _ => contradiction

theorem read_returns_own_sectors_once :
    ∃ state job buffer, (virtioMachine.guarded nothingOutstanding).Run sampleEvents state ∧
      state.phase = .returned job 1 buffer ∧ ∀ i < 512, buffer.bytes i = state.disk (512 + i) := by
  have executed :
      ∃ final ∈ Machine.execute nothingOutstanding VirtioState.step sampleState sampleEvents,
      final.phase.outcome? = some (1, 2) := by decide +kernel
  obtain ⟨state, executed, outcome⟩ := executed
  have run : (virtioMachine.guarded nothingOutstanding).Run sampleEvents state :=
    .of_execute (fun _ _ _ taken => taken) sampleState_initialized executed
  obtain ⟨job, buffer, ended, -⟩ := Phase.returned_of_outcome outcome
  have called : lastCall sampleEvents = some (sampleRead 1 (by decide)) := rfl
  obtain ⟨given, -, -, bytes⟩ := read_returns_own_sectors run called rfl ended (by decide)
  refine ⟨state, job, buffer, run, ended, ?_⟩
  intro i below
  rw [bytes i, if_pos]
  · simp [sampleRead]
  · simp only [sampleRead]
    omega

theorem polls_unseen (phase : state.phase = .polling job i)
    (unseen : (BitVec.ofInt 32 ((state.shared .used).read 2 2) - state.lastUsedIndex) &&& 0xFFFF =
      0)
    (run : virtioMachine.Run events state) (n : Nat) (bounded : i + n ≤ pollLimit) :
    virtioMachine.Run (events ++ replicate n .driver)
      { state with phase := .polling job (i + n) } := by
  induction n with
  | zero =>
    rw [replicate_zero, append_nil, Nat.add_zero, ← phase]
    exact run
  | succ n ih =>
    rw [replicate_succ', ← append_assoc]
    refine (ih (by omega)).next ?_
    simp only [virtioMachine, VirtioState.step, VirtioState.driverStep, VirtioState.poll]
    rw [if_pos (by omega), if_neg (not_not.mpr unseen)]
    rfl

/-- A read of sector 0 that the device has taken and not answered. -/
def unansweredEvents : List Event :=
  [.transfer (sampleRead 0 (by decide))] ++ replicate 39 .driver ++ [.take]

/-- The driver gives up and reads sector 1; then the device answers the first read. -/
def lateEvents : List Event :=
  [.driver, .transfer (sampleRead 1 (by decide))] ++ replicate 39 .driver ++
    [.serve 0, .report 0 0, .publish 0] ++ replicate 4 .driver

private def Phase.waiting? : Phase → Option Job
  | .polling job 0 => some job
  | _ => none

theorem read_returns_earlier_sectors :
    ∃ events state call job buffer, virtioMachine.Run events state ∧
      lastCall events = some call ∧ call.requestType = .blockRequestIn ∧
      call.bufferOffset = 0 ∧ call.sectorCount = 1 ∧
      state.phase = .returned job 1 buffer ∧
        buffer.bytes 0 ≠ state.disk (512 * call.lba.toNat) := by
  have executed : ∃ stuck ∈ unansweredEvents.foldlM VirtioState.step sampleState,
      (BitVec.ofInt 32 ((stuck.shared .used).read 2 2) - stuck.lastUsedIndex) &&& 0xFFFF = 0 ∧
      ∃ job ∈ stuck.phase.waiting?,
      ∃ final ∈ lateEvents.foldlM VirtioState.step { stuck with phase := .polling job pollLimit },
        final.phase.outcome? = some (1, 1) ∧ final.disk 512 = 2 := by decide +kernel
  obtain ⟨stuck, first, unseen, waiting, polled, state, late, outcome, disk⟩ := executed
  have started := Machine.Run.extend (fun _ _ _ taken => taken)
    (Machine.Run.start sampleState_initialized : virtioMachine.Run [] sampleState) first
  have polling : stuck.phase = .polling waiting 0 := by
    unfold Phase.waiting? at polled
    split at polled
    · cases polled
      assumption
    · contradiction
  have waited := polls_unseen polling unseen started pollLimit (by omega)
  have run := Machine.Run.extend (fun _ _ _ taken => taken) waited late
  obtain ⟨job, buffer, ended, byte⟩ := Phase.returned_of_outcome outcome
  refine ⟨_, state, sampleRead 1 (by decide), job, buffer, run, ?_, rfl, rfl, rfl, ended, ?_⟩
  · simp [lastCall, lateEvents]
  · rw [byte]
    change (1 : UInt8) ≠ state.disk 512
    rw [disk]
    decide

end Sample

end Zapada.Virtio
