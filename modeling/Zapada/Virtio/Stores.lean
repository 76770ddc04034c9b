import Zapada.Virtio.VirtioPciBlockDevice

namespace Zapada.Virtio

open Foundation Storage Hal VirtioConstants Store DmaBuffer List

def Store.on (name : BufferName) (buffer : DmaBuffer) : Store → DmaBuffer
  | .write target width offset value =>
    if target = name then buffer.write width offset value else buffer
  | .copyFrom source sourceOffset count =>
    if .data = name then (buffer.copyFrom 0 source sourceOffset count).getD buffer else buffer
  | .abort => buffer

theorem Store.apply_eq (shared : Shared) (store : Store) (name : BufferName) :
    store.apply shared name = store.on name (shared name) := by
  cases store with
  | write | copyFrom =>
    simp only [apply, on]
    split
    · subst_vars
      rw [Function.update_self]
    · rw [Function.update_of_ne (Ne.symm ‹_›)]
  | abort => rfl

theorem foldl_apply (stores : List Store) (shared : Shared) (name : BufferName) :
    stores.foldl apply shared name = stores.foldl (on name) (shared name) := by
  induction stores generalizing shared with
  | nil => rfl
  | cons store rest ih => rw [foldl_cons, ih, apply_eq, foldl_cons]

theorem Store.on_buffer (name : BufferName) (buffer : DmaBuffer) (store : Store) :
    (store.on name buffer).size = buffer.size ∧
      (store.on name buffer).physicalAddress = buffer.physicalAddress := by
  cases store with
  | write target width offset value =>
    simp only [on]
    split
    · exact ⟨write_size .., write_physicalAddress ..⟩
    · exact ⟨rfl, rfl⟩
  | copyFrom source sourceOffset count =>
    simp only [on, DmaBuffer.copyFrom]
    split
    · split <;> exact ⟨rfl, rfl⟩
    · exact ⟨rfl, rfl⟩
  | abort => exact ⟨rfl, rfl⟩

theorem foldl_on_buffer (stores : List Store) (name : BufferName) (buffer : DmaBuffer) :
    (stores.foldl (on name) buffer).size = buffer.size ∧
      (stores.foldl (on name) buffer).physicalAddress = buffer.physicalAddress := by
  induction stores generalizing buffer with
  | nil => exact ⟨rfl, rfl⟩
  | cons store rest ih =>
    rw [foldl_cons, (ih _).1, (ih _).2]
    exact on_buffer name buffer store

theorem apply_buffer (shared : Shared) (store : Store) (name : BufferName) :
    (store.apply shared name).size = (shared name).size ∧
      (store.apply shared name).physicalAddress = (shared name).physicalAddress := by
  rw [apply_eq]
  exact on_buffer ..

/-- A store leaves the buffers it does not name. -/
def Store.spares (name : BufferName) : Store → Bool
  | .write target _ _ _ => target ≠ name
  | .copyFrom _ _ _ => .data ≠ name
  | .abort => true

theorem Store.on_spared {store : Store} (spared : store.spares name)
    (buffer : DmaBuffer) : store.on name buffer = buffer := by
  cases store with
  | write | copyFrom => rw [on, if_neg (by simpa [spares] using spared)]
  | abort => rfl

theorem foldl_spared {stores : List Store}
    (spared : ∀ store ∈ stores, store.spares name) (buffer : DmaBuffer) :
    stores.foldl (on name) buffer = buffer := by
  induction stores with
  | nil => rfl
  | cons store rest ih =>
    rw [foldl_cons, on_spared (spared store mem_cons_self)]
    exact ih fun other member => spared other (mem_cons_of_mem _ member)

theorem clear_spares (other : name ≠ .descriptor ∧ name ≠ .header ∧ name ≠ .status) :
    ∀ store ∈ clearRequestBuffers, store.spares name := by
  revert other
  cases name <;> decide

theorem writeHeader_spares (job : Job) (other : name ≠ .header) :
    ∀ store ∈ writeHeader job, store.spares name := by
  simp [writeHeader, spares, other.symm]

theorem of_copyData (copied : copyData data job = some copies) (member : store ∈ copies) :
    store = .copyFrom job.buffer job.bufferOffset job.byteCount := by
  simp only [copyData] at copied
  split at copied
  · cases copied
    contradiction
  split at copied
  · cases copied
    exact mem_singleton.mp member
  · contradiction

theorem copyData_spares (copied : copyData data job = some copies)
    (other : name ≠ .data) : ∀ store ∈ copies, store.spares name := by
  intro store member
  rw [of_copyData copied member]
  simpa [spares] using other.symm

theorem submitRequest_spares (shared : Shared) (lastUsedIndex : BitVec 32)
    (queueSize : Nat) (job : Job) (other : name ≠ .descriptor ∧ name ≠ .available) :
    ∀ store ∈ submitRequest shared lastUsedIndex queueSize job, store.spares name := by
  simp [submitRequest, writeDescriptor, submitDescriptor, spares, other.1.symm, other.2.symm]

structure Chained (descriptors : DmaBuffer) (shared : Shared) (byteCount : Nat) : Prop where
  headerLow : descriptors.bytes.load 0 4 = low32 (shared .header).physicalAddress.toNat
  headerHigh : descriptors.bytes.load 4 4 = high32 (shared .header).physicalAddress.toNat
  second : descriptors.bytes.load 14 2 = 1
  dataLow : descriptors.bytes.load 16 4 = low32 (shared .data).physicalAddress.toNat
  dataHigh : descriptors.bytes.load 20 4 = high32 (shared .data).physicalAddress.toNat
  dataLength : descriptors.bytes.load 24 4 = byteCount
  third : descriptors.bytes.load 30 2 = 2
  statusLow : descriptors.bytes.load 32 4 = low32 (shared .status).physicalAddress.toNat
  statusHigh : descriptors.bytes.load 36 4 = high32 (shared .status).physicalAddress.toNat

theorem low32_lt (value : Nat) : low32 value < 256 ^ 4 := Nat.mod_lt _ (by decide)

theorem high32_lt (value : Nat) : high32 value < 256 ^ 4 := Nat.mod_lt _ (by decide)

theorem Job.byteCount_le (job : Job) : job.byteCount ≤ 65536 := by
  have few := job.few
  simp only [maxSectorsPerRequest] at few
  simp only [Job.byteCount, sectorSize]
  omega

theorem submitRequest_chained (shared : Shared) (lastUsedIndex : BitVec 32)
    (queueSize : Nat) (job : Job) (size : buffer.size = 4096) :
    Chained ((submitRequest shared lastUsedIndex queueSize job).foldl
      (on .descriptor) buffer) shared job.byteCount := by
  have length : job.byteCount < 256 ^ 4 := Nat.lt_of_le_of_lt job.byteCount_le (by decide)
  simp only [submitRequest, writeDescriptor, submitDescriptor, cons_append, nil_append,
    foldl_cons, foldl_nil, on, if_true, reduceCtorEq, if_false, Nat.reduceMul,
    Nat.reduceAdd, Nat.zero_mul, Nat.zero_add, Nat.one_mul]
  -- each field is the last store at its place
  constructor <;>
    simp (disch := first | decide | omega | exact low32_lt _ | exact high32_lt _ | exact length |
      (simp only [write_size, size]; decide)) only
      [load_write_same, load_write_other]

structure Headed (header : DmaBuffer) (job : Job) : Prop where
  typeCode : header.bytes.load 0 4 = job.requestType.code
  sectorLow : header.bytes.load 8 4 = low32 job.lba
  sectorHigh : header.bytes.load 12 4 = high32 job.lba

theorem writeHeader_headed (job : Job) (size : buffer.size = 4096) :
    Headed ((writeHeader job).foldl (on .header) buffer) job := by
  have code : job.requestType.code < 256 ^ 4 := by cases job.requestType <;> decide
  simp only [writeHeader, foldl_cons, foldl_nil, on, if_true]
  constructor <;>
    simp (disch := first | decide | omega | exact low32_lt _ | exact high32_lt _ | exact code |
      (simp only [write_size, size]; decide)) only
      [load_write_same, load_write_other]

theorem clearRequestBuffers_status {buffer : DmaBuffer} (size : buffer.size = 4096) :
    (clearRequestBuffers.foldl (on .status) buffer).bytes.load 0 1 = 0xFF := by
  have earlier : ∀ store ∈ (range 12).map (fun i => write .descriptor 4 (4 * i) 0) ++
      (range 4).map (fun i => write .header 4 (4 * i) 0), store.spares .status := by
    decide
  rw [clearRequestBuffers, foldl_append, foldl_spared earlier]
  exact load_write_same _ (by decide) (by decide) (by omega) (by decide)

theorem submitDescriptor_index (lastUsedIndex : BitVec 32) (queueSize : Nat) {buffer : DmaBuffer}
    (size : buffer.size = 4096) : ((submitDescriptor lastUsedIndex queueSize 0).foldl
      (on .available) buffer).bytes.load 2 2 =
      ((lastUsedIndex + 1) &&& 0xFFFF).toNat := by
  have mask : ((lastUsedIndex + 1) &&& 0xFFFF).toNat ≤ (0xFFFF : BitVec 32).toNat :=
    Nat.and_le_right
  simp only [submitDescriptor, foldl_cons, foldl_nil, on, if_true]
  apply load_write_same
  · decide
  · decide
  · rw [write_size, size]
    decide
  · exact Nat.lt_of_le_of_lt mask (by decide)

/-- What the stores of an accepted call leave in shared memory. -/
structure Submitted (before after : Shared) (lastUsedIndex : BitVec 32) (job : Job) : Prop where
  sizes : ∀ name, (after name).size = (before name).size
  addresses : ∀ name, (after name).physicalAddress = (before name).physicalAddress
  chained : Chained (after .descriptor) before job.byteCount
  headed : Headed (after .header) job
  status : (after .status).bytes.load 0 1 = 0xFF
  index : (after .available).bytes.load 2 2 = ((lastUsedIndex + 1) &&& 0xFFFF).toNat
  used : after .used = before .used

theorem transferStores_submitted {shared : Shared} {lastUsedIndex : BitVec 32} {queueSize : Nat}
    {job : Job} (sizes : ∀ name, name ≠ .data → (shared name).size = 4096)
    (copied : copyData (shared .data) job = some copies) :
    Submitted shared ((transferStores shared lastUsedIndex queueSize job).foldl apply shared)
      lastUsedIndex job := by
  have stores : transferStores shared lastUsedIndex queueSize job = clearRequestBuffers ++
      writeHeader job ++ copies ++ submitRequest shared lastUsedIndex queueSize job := by
    rw [transferStores, copied]
  rw [stores]
  constructor
  case sizes =>
    intro name
    rw [foldl_apply, (foldl_on_buffer ..).1]
  case addresses =>
    intro name
    rw [foldl_apply, (foldl_on_buffer ..).2]
  case chained =>
    rw [foldl_apply, foldl_append]
    apply submitRequest_chained
    rw [(foldl_on_buffer ..).1, sizes _ (by decide)]
  case headed =>
    rw [foldl_apply, foldl_append, foldl_append, foldl_append,
      foldl_spared (submitRequest_spares _ _ _ _ (by decide)),
        foldl_spared (copyData_spares copied (by decide))]
    apply writeHeader_headed
    rw [(foldl_on_buffer ..).1, sizes _ (by decide)]
  case status =>
    rw [foldl_apply, foldl_append, foldl_append, foldl_append,
      foldl_spared (submitRequest_spares _ _ _ _ (by decide)),
      foldl_spared (copyData_spares copied (by decide)),
        foldl_spared (writeHeader_spares _ (by decide))]
    exact clearRequestBuffers_status (sizes _ (by decide))
  case index =>
    rw [foldl_apply, submitRequest, ← append_assoc, foldl_append]
    apply submitDescriptor_index
    rw [(foldl_on_buffer ..).1, sizes _ (by decide)]
  case used =>
    rw [foldl_apply, foldl_append, foldl_append, foldl_append,
      foldl_spared (clear_spares (by decide)), foldl_spared (writeHeader_spares _ (by decide)),
      foldl_spared (copyData_spares copied (by decide)),
        foldl_spared (submitRequest_spares _ _ _ _ (by decide))]

/-- A store that leaves the used ring and the available index, and puts only zeros in
the available ring. -/
def Store.KeepsRings : Store → Prop
  | .write .available width offset value =>
    width = 2 ∧ value = 0 ∧ ∃ slot < 64, offset = 4 + slot * 2
  | .write .used _ _ _ => False
  | _ => True

private theorem submitRequest_last (shared : Shared) {lastUsedIndex : BitVec 32} {queueSize : Nat}
    (inRing : ringSlot lastUsedIndex queueSize < 64) (job : Job) :
    ∃ earlier value, submitRequest shared lastUsedIndex queueSize job =
        earlier ++ [.write .available 2 2 value] ∧ ∀ store ∈ earlier, store.KeepsRings := by
  refine ⟨(submitRequest shared lastUsedIndex queueSize job).dropLast, _, rfl, ?_⟩
  simp [submitRequest, writeDescriptor, submitDescriptor, KeepsRings, inRing]

theorem transferStores_last (shared : Shared) (lastUsedIndex : BitVec 32) {queueSize : Nat}
    (inRing : ringSlot lastUsedIndex queueSize < 64) (job : Job) :
    ∃ preparation last, transferStores shared lastUsedIndex queueSize job = preparation ++ [last] ∧
      (∀ store ∈ preparation, store.KeepsRings) ∧
        (last = .abort ∨ (∃ value, last = .write .available 2 2 value) ∧
        ∃ copies, copyData (shared .data) job = some copies) := by
  have cleared : ∀ store ∈ clearRequestBuffers, store.KeepsRings := by
    simp [clearRequestBuffers, or_imp, forall_and, KeepsRings]
  have headed : ∀ store ∈ writeHeader job, store.KeepsRings := by
    simp [writeHeader, KeepsRings]
  rw [transferStores]
  cases copied : copyData (shared .data) job with
  | none =>
    refine ⟨clearRequestBuffers ++ writeHeader job, .abort, rfl, ?_, .inl rfl⟩
    exact forall_mem_append.mpr ⟨cleared, headed⟩
  | some copies =>
    have data : ∀ store ∈ copies, store.KeepsRings := by
      intro store member
      rw [of_copyData copied member]
      trivial
    obtain ⟨earlier, value, shape, keeps⟩ := submitRequest_last shared inRing job
    refine ⟨clearRequestBuffers ++ writeHeader job ++ copies ++ earlier, _, ?_, ?_,
      .inr ⟨⟨value, rfl⟩, copies, rfl⟩⟩
    · simp [shape]
    simp only [forall_mem_append]
    exact ⟨⟨⟨cleared, headed⟩, data⟩, keeps⟩

theorem Store.KeepsRings.used {store : Store} (keeps : store.KeepsRings) (buffer : DmaBuffer) :
    store.on .used buffer = buffer := by
  cases store with
  | write name width offset value =>
    cases name with
    | used => exact False.elim keeps
    | _ => rfl
  | _ => rfl

theorem Store.KeepsRings.index {store : Store} (keeps : store.KeepsRings) (buffer : DmaBuffer) :
    (store.on .available buffer).bytes.load 2 2 = buffer.bytes.load 2 2 := by
  cases store with
  | write name width offset value =>
    cases name with
    | available =>
      obtain ⟨rfl, rfl, slot, bounded, rfl⟩ := keeps
      exact load_write_other _ (by omega)
    | _ => rfl
  | _ => rfl

/-- Every entry of the available ring names descriptor 0. -/
def ZeroEntries (available : DmaBuffer) : Prop :=
  ∀ slot < 64, available.bytes.load (4 + slot * 2) 2 = 0

theorem Store.KeepsRings.entries {store : Store} (keeps : store.KeepsRings)
    (size : buffer.size = 4096) (zero : ZeroEntries buffer) :
    ZeroEntries (store.on .available buffer) := by
  cases store with
  | write name width offset value =>
    cases name with
    | available =>
      obtain ⟨rfl, rfl, slot, bounded, rfl⟩ := keeps
      intro other inRing
      simp only [on, if_true]
      by_cases same : other = slot
      · subst same
        exact load_write_same _ (by decide) (by omega) (by omega) (by decide)
      · rw [load_write_other _ (by omega)]
        exact zero other inRing
    | _ => exact zero
  | _ => exact zero

/-- The request that the device finds for a job. -/
def Job.request (job : Job) : Request where
  head := 0
  typeCode := job.requestType.code
  sector := job.lba
  data := some .data
  dataLength := job.byteCount
  status := some .status
  stage := .serving 0

theorem address_of_halves (address : BitVec 64) :
    BitVec.ofNat 32 (high32 address.toNat) ++ BitVec.ofNat 32 (low32 address.toNat) = address := by
  apply BitVec.eq_of_toNat_eq
  rw [BitVec.toNat_append, BitVec.toNat_ofNat, BitVec.toNat_ofNat, high32, low32,
    Nat.mod_mod, Nat.mod_mod, ← Nat.shiftLeft_add_eq_or_of_lt (Nat.mod_lt _ (by decide)),
      Nat.shiftLeft_eq]
  omega

theorem locate_eq {state : VirtioState}
    (distinct : ∀ one two, (state.shared one).physicalAddress = (state.shared two).physicalAddress →
      one = two) (name : BufferName) (shared : name = .header ∨ name = .data ∨ name = .status) :
    state.locate (low32 (state.shared name).physicalAddress.toNat)
      (high32 (state.shared name).physicalAddress.toNat) = some name := by
  rw [VirtioState.locate, address_of_halves]
  have decided : ∀ other, decide ((state.shared other).physicalAddress =
      (state.shared name).physicalAddress) = decide (other = name) := by
    intro other
    rw [decide_eq_decide]
    exact ⟨distinct other name, fun same => by rw [same]⟩
  simp only [decided]
  rcases shared with rfl | rfl | rfl <;> decide

theorem fetch_submitted {state : VirtioState}
    (submitted : Submitted before state.shared lastUsedIndex job)
    (distinct : ∀ one two, (state.shared one).physicalAddress = (state.shared two).physicalAddress →
      one = two) : state.fetch 0 = job.request := by
  have chained := submitted.chained
  have headed := submitted.headed
  have same := submitted.addresses
  have inLong := job.inLong
  simp only [VirtioState.fetch, VirtioState.descriptorWord, VirtioState.loadWord, Nat.zero_mul,
    Nat.zero_add, chained.second, Nat.one_mul, Nat.reduceAdd, Nat.reduceMul, chained.third,
    chained.headerLow, chained.headerHigh, chained.dataLow, chained.dataHigh, chained.dataLength,
    chained.statusLow, chained.statusHigh, ← same, locate_eq distinct .header (by simp),
    locate_eq distinct .data (by simp), locate_eq distinct .status (by simp), headed.typeCode,
    headed.sectorLow, headed.sectorHigh, Job.request, Request.mk.injEq, true_and, and_true]
  simp only [low32, high32]
  omega

end Zapada.Virtio
