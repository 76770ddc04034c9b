import Zapada.Virtio.Rings

namespace Zapada.Virtio

open Foundation Storage Hal VirtioConstants

namespace VirtioState

def statusByte (state : VirtioState) : Nat := state.loadWord .status 0 1

/-- The first sectors of a read job are in the data buffer. -/
def Delivered (state : VirtioState) (job : Job) (sectors : Nat) : Prop :=
  job.requestType = .blockRequestIn → ∀ i < 512 * sectors,
    (state.shared .data).bytes i = state.disk (512 * job.lba + i)

/-- A zero status byte means that all sectors are in place. -/
def Result (state : VirtioState) (job : Job) : Prop :=
  state.statusByte = 0 → state.Delivered job job.sectorCount

/-- The device works on the job's request and has done its part so far. -/
def Progress (state : VirtioState) (job : Job) (request : Request) : Prop :=
  request = { job.request with stage := request.stage } ∧ match request.stage with
    | .serving done => state.Delivered job done
    | .reported => state.Result job

def Working (state : VirtioState) (job : Job) : Prop :=
  (state.Untaken ∧ state.fetch 0 = job.request) ∨ ∃ request, state.Taken request ∧
    state.Progress job request

def Answered (state : VirtioState) (job : Job) : Prop := state.Behind ∧ state.Result job

/-- Some stores of the job are still to be made; the last one publishes it. -/
structure Preparing (state : VirtioState) (job : Job) (rest : List Store) : Prop where
  stored : ∃ base done, transferStores base state.lastUsedIndex state.queueSize job = done ++ rest ∧
    state.shared = done.foldl Store.apply base
  settled : state.InStep ∨ state.Behind

/-- The caller's buffer with the job's sectors in it. -/
def Returned (state : VirtioState) (job : Job) (buffer : Buffer) : Prop :=
  buffer = { job.buffer with
    bytes := job.buffer.bytes.copy job.bufferOffset job.byteCount state.disk (512 * job.lba) }

def Sound (state : VirtioState) : Prop :=
  match state.phase with
  | .idle => state.Rest
  | .refused _ => state.Rest
  | .writing job [] => state.Working job ∨ state.Answered job
  | .writing job (store :: rest) => state.Preparing job (store :: rest)
  | .polling job _ => state.Working job ∨ state.Answered job
  | .seen job => state.Answered job
  | .checking job => state.InStep ∧ state.Result job
  | .copying job =>
    state.InStep ∧ state.Delivered job job.sectorCount ∧ job.requestType = .blockRequestIn
  | .returned job status buffer => state.Rest ∧
      (job.requestType = .blockRequestIn → 0 ≤ status → state.InStep ∧ state.Returned job buffer)

/-- A step of the device that takes a job to its end. -/
structure Moves (state after : VirtioState) : Prop where
  phase : after.phase = state.phase
  busy : ¬ state.Quiet
  rest : state.Rest → after.Rest
  working : ∀ job, state.Working job → after.Working job ∨ after.Answered job

variable {state after : VirtioState}

theorem Moves.sound (moves : Moves state after) (sound : state.Sound) : after.Sound := by
  have phase := moves.phase
  simp only [Sound, phase] at sound ⊢
  have notInStep : ¬ state.InStep := fun inStep => moves.busy inStep.quiet
  have notBehind : ¬ state.Behind := fun behind => moves.busy behind.quiet
  have pending : ∀ job, state.Working job ∨ state.Answered job → after.Working job ∨
    after.Answered job := by
    rintro job (working | answered)
    · exact moves.working job working
    · exact absurd answered.1 notBehind
  cases current : state.phase
  all_goals simp only [current] at sound
  case idle | refused => exact moves.rest sound
  case writing job stores =>
    cases stores with
    | nil => exact pending job sound
    | cons store rest => exact (sound.settled.elim notInStep notBehind).elim
  case polling job i => exact pending job sound
  case seen => exact absurd sound.1 notBehind
  case checking | copying => exact absurd sound.1 notInStep
  case returned =>
    refine ⟨moves.rest sound.1, ?_⟩
    intro read success
    exact absurd (sound.2 read success).1 notInStep

theorem Takes.moves (takes : Takes state after) : Moves state after := by
  refine ⟨?_, ?_, takes.rest, ?_⟩
  · rw [takes.eq]
  · rintro ⟨-, same⟩
    exact takes.new same
  · rintro job (⟨untaken, fetched⟩ | ⟨request, taken, -⟩)
    · refine .inl (.inr ⟨_, takes.untaken untaken, ?_⟩)
      rw [fetched]
      refine ⟨rfl, ?_⟩
      intro _ i below
      exact absurd below (by omega)
    · exact absurd taken.taken takes.new

/-- The step of the device on a request keeps its job's progress. -/
theorem Serves.moves (serves : Serves state after request moved)
    (progress : ∀ job, state.Progress job request → after.Progress job moved) :
    Moves state after := by
  refine ⟨serves.stays.2.1, fun quiet => serves.busy quiet.1, serves.rest, ?_⟩
  rintro job (⟨untaken, -⟩ | ⟨current, taken, begun⟩)
  · exact absurd untaken.pending serves.busy
  · obtain ⟨rfl, taken⟩ := serves.taken taken
    exact .inl (.inr ⟨moved, taken, progress job begun⟩)

theorem serve_moves (rings : Rings state) (served : state.serve k = some after) : Rings after ∧
      Moves state after := by
  obtain ⟨request, done, stage, room, serves, copied⟩ := serve_cases rings served
  refine ⟨serves.rings rings, serves.moves ?_⟩
  rintro job ⟨same, delivered⟩
  simp only [stage] at delivered
  refine ⟨?_, ?_⟩
  · rw [same]
  intro read i below
  have typeCode : request.typeCode = 0 := by
    rw [same, Job.request, read]
    rfl
  have sector : request.sector = job.lba := by rw [same, Job.request]
  have data : request.data = some .data := by rw [same, Job.request]
  obtain ⟨disk, shared⟩ := copied typeCode
  rw [disk, shared, data, deviceCopy, Function.update_self, sector]
  simp only [Memory.copy]
  split
  · congr 1
    omega
  · exact delivered read i (by omega)

theorem report_moves (rings : Rings state) (reported : state.report k code = some after) :
    Rings after ∧ Moves state after := by
  obtain ⟨request, done, stage, complete, serves, disk, shared⟩ := report_cases rings reported
  refine ⟨serves.rings rings, serves.moves ?_⟩
  rintro job ⟨same, delivered⟩
  simp only [stage] at delivered
  refine ⟨?_, ?_⟩
  · rw [same]
  have status : request.status = some .status := by rw [same, Job.request]
  have length : request.dataLength = job.byteCount := by rw [same, Job.request]
  rw [status] at shared
  intro success read i below
  have byte : after.statusByte = code.toNat := by
    simp [statusByte, loadWord, shared, deviceCopy, Memory.load, Memory.copy]
  have zero : code = 0 := UInt8.toNat.inj (byte.symm.trans success)
  have all : done = job.sectorCount := by
    have bytes := complete zero
    rw [length, Job.byteCount, sectorSize] at bytes
    omega
  have data : after.shared .data = state.shared .data := by
    rw [shared]
    exact deviceCopy_other _ _ _ _ _ (by decide)
  rw [data, disk]
  exact delivered read i (by rw [all]; exact below)

theorem publish_moves (rings : Rings state) (published : state.publish k = some after) :
    Rings after ∧ Moves state after := by
  obtain ⟨request, stage, publishes⟩ := publish_cases rings published
  refine ⟨publishes.rings rings, publishes.stays.2.1, fun quiet => publishes.busy quiet.1,
    publishes.rest, ?_⟩
  rintro job (⟨untaken, -⟩ | ⟨current, taken, -, result⟩)
  · exact absurd untaken.pending publishes.busy
  · obtain ⟨rfl, behind⟩ := publishes.taken taken
    simp only [stage] at result
    refine .inr ⟨behind, ?_⟩
    intro success read i below
    rw [statusByte, loadWord, publishes.shared .status (by decide)] at success
    rw [publishes.shared .data (by decide), publishes.stays.2.2.2]
    exact result success read i below

theorem take_moves (rings : Rings state) (taken : state.take = some after) : Rings after ∧
      Moves state after := by
  have takes := take_cases rings taken
  exact ⟨takes.rings rings, takes.moves⟩

theorem InStep.withPhase (inStep : state.InStep) (phase : Phase) : InStep { state with phase } :=
  { inStep with }

theorem Behind.withPhase (behind : state.Behind) (phase : Phase) : Behind { state with phase } :=
  { behind with }

theorem Rest.withPhase (rest : state.Rest) (phase : Phase) : Rest { state with phase } := by
  rcases rest with inStep | behind | untaken | ⟨request, taken⟩
  · exact .inl (inStep.withPhase phase)
  · exact .inr (.inl (behind.withPhase phase))
  · exact .inr (.inr (.inl { untaken with }))
  · exact .inr (.inr (.inr ⟨request, { taken with }⟩))

theorem Working.withPhase (working : state.Working job) (phase : Phase) :
    Working { state with phase } job := by
  rcases working with ⟨untaken, fetched⟩ | ⟨request, taken, progress⟩
  · exact .inl ⟨{ untaken with }, fetched⟩
  · exact .inr ⟨request, { taken with }, progress⟩

theorem Answered.withPhase (answered : state.Answered job) (phase : Phase) :
    Answered { state with phase } job := ⟨answered.1.withPhase phase, answered.2⟩

theorem waiting_withPhase (waiting : state.Working job ∨ state.Answered job)
    (phase : Phase) : Working { state with phase } job ∨ Answered { state with phase } job :=
  waiting.imp (·.withPhase phase) (·.withPhase phase)

theorem Working.rest (working : state.Working job) : state.Rest := by
  rcases working with ⟨untaken, -⟩ | ⟨request, taken, -⟩
  · exact .inr (.inr (.inl untaken))
  · exact .inr (.inr (.inr ⟨request, taken⟩))

theorem Working.unseen (working : state.Working job) : state.device.usedIndex = state.acked := by
  rcases working with ⟨untaken, -⟩ | ⟨request, taken, -⟩
  · exact untaken.used
  · exact taken.used

end VirtioState

namespace Rings

theorem withPhase (rings : Rings state) (phase : Phase) : Rings { state with phase } :=
  { rings with }

end Rings

end Zapada.Virtio
