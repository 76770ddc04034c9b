import Zapada.Virtio.TransferInvariant

namespace Zapada.Virtio

open Foundation Storage Hal VirtioConstants

namespace VirtioState

variable {state : VirtioState}

theorem apply_keeps {store : Store} (keeps : store.KeepsRings)
    (rings : Rings state) (settled : state.InStep ∨ state.Behind) (phase : Phase) :
    Rings { state with shared := store.apply state.shared, phase } ∧
      (InStep { state with shared := store.apply state.shared, phase } ∨
        Behind { state with shared := store.apply state.shared, phase }) := by
  have index :
      availIndex { state with shared := store.apply state.shared, phase } = state.availIndex := by
    simp [availIndex, loadWord, Store.apply_eq, keeps.index]
  refine ⟨rings.kept (apply_buffer state.shared store) rfl ?_ ?_ rings.harmless, ?_⟩
  · simp only [Store.apply_eq]
    exact keeps.entries (rings.sizes .available (by decide)) rings.entries
  · simp only [loadWord, Store.apply_eq, keeps.used]
    exact rings.used
  · refine settled.imp ?_ ?_
    · intro inStep
      exact ⟨⟨inStep.quiet.1, inStep.quiet.2.trans index.symm⟩, index.trans inStep.avail,
        inStep.used⟩
    · intro behind
      exact ⟨⟨behind.quiet.1, behind.quiet.2.trans index.symm⟩, index.trans behind.avail,
        behind.used⟩

theorem apply_publishes (rings : Rings state)
    (settled : state.InStep ∨ state.Behind) {shared : Shared}
    (stored : shared = Store.apply state.shared (.write .available 2 2 value))
    (submitted : Submitted base shared state.lastUsedIndex job) (phase : Phase) :
    Rings { state with shared, phase } ∧
      (Working { state with shared, phase } job ∨ Answered { state with shared, phase } job) := by
  have used : shared .used = state.shared .used := by
    rw [stored, Store.apply_eq]
    rfl
  have available : shared .available = (state.shared .available).write 2 2 value := by
    rw [stored, Store.apply_eq]
    rfl
  have entries : ZeroEntries (shared .available) := by
    intro slot inRing
    rw [available, show (2 : Int) = ((2 : Nat) : Int) from rfl,
      DmaBuffer.load_write_other _ (by omega)]
    exact rings.entries slot inRing
  have ringsAfter : Rings { state with shared, phase } := by
    refine rings.kept (fun name => ?_) rfl entries ?_ rings.harmless
    · rw [stored]
      exact apply_buffer state.shared _ name
    · simp only [loadWord, used]
      exact rings.used
  have index : availIndex { state with shared, phase } = state.acked + 1 := by
    rw [availIndex, loadWord, submitted.index, acked_succ]
  refine ⟨ringsAfter, ?_⟩
  rcases settled with inStep | behind
  · refine .inl (.inl ⟨⟨inStep.quiet.1, inStep.quiet.2.trans inStep.avail, index, inStep.used⟩, ?_⟩)
    exact fetch_submitted submitted ringsAfter.distinct
  · refine .inr ⟨⟨⟨behind.quiet.1, ?_⟩, index, behind.used⟩, ?_⟩
    · exact (behind.quiet.2.trans behind.avail).trans index.symm
    · intro success
      rw [statusByte, loadWord, submitted.status] at success
      contradiction

theorem fail_sound (rest : state.Rest) (job : Job) : (state.fail job).Sound := by
  refine ⟨rest.withPhase _, ?_⟩
  intro _ success
  exact absurd success (by decide)

section

variable (rings : Rings state)

include rings

theorem store_sound (preparing : state.Preparing job (store :: rest)) (stores : store ≠ .abort) :
    Rings { state with shared := store.apply state.shared, phase := .writing job rest } ∧
      Sound { state with shared := store.apply state.shared, phase := .writing job rest } := by
  obtain ⟨⟨base, done, shape, shared⟩, settled⟩ := preparing
  have inRing := ringSlot_lt rings.queue.1 rings.queue.2 state.lastUsedIndex
  obtain ⟨preparation, last, split, keeps, ends⟩ :=
    transferStores_last base state.lastUsedIndex inRing job
  have further : store.apply state.shared = (done ++ [store]).foldl Store.apply base := by
    rw [shared, List.foldl_append, List.foldl_cons, List.foldl_nil]
  cases rest with
  | nil =>
    -- the whole list has been stored
    obtain ⟨rfl, same⟩ := List.append_inj' (split.symm.trans shape) rfl
    obtain rfl := (List.cons.inj same).1
    obtain ⟨⟨value, rfl⟩, copies, copied⟩ := ends.resolve_left stores
    have sizes : ∀ name, name ≠ .data → (base name).size = 4096 := by
      intro name other
      rw [← rings.sizes name other, shared, foldl_apply, (foldl_on_buffer ..).1]
    have submitted : Submitted base ((transferStores base state.lastUsedIndex state.queueSize
        job).foldl Store.apply base) state.lastUsedIndex job :=
      transferStores_submitted sizes copied
    rw [split, ← further] at submitted
    exact apply_publishes rings settled rfl submitted _
  | cons next rest =>
    have member : store ∈ preparation := by
      have shorter : preparation = done ++ store :: (next :: rest).dropLast := by
        have dropped := congrArg List.dropLast (split.symm.trans shape)
        rw [List.dropLast_concat, List.dropLast_append_of_ne_nil (by simp)] at dropped
        rw [dropped, List.dropLast_cons_cons]
      rw [shorter]
      simp
    obtain ⟨ringsAfter, settledAfter⟩ := apply_keeps (keeps store member) rings settled
      (.writing job (next :: rest))
    refine ⟨ringsAfter, ⟨base, done ++ [store], ?_, further⟩, settledAfter⟩
    rw [shape]
    simp

theorem poll_sound (waiting : state.Working job ∨ state.Answered job) (i : Nat) :
    Rings (state.poll job i) ∧ (state.poll job i).Sound := by
  have rest : state.Rest := waiting.elim (·.rest) (fun answered => .inr (.inl answered.1))
  simp only [poll]
  split
  · split
    · rename_i seen
      refine ⟨rings.withPhase _, ?_⟩
      rcases waiting with working | answered
      · exact absurd ((poll_unseen rings).mpr working.unseen) seen
      · exact answered.withPhase _
    · exact ⟨rings.withPhase _, waiting_withPhase waiting _⟩
  · exact ⟨rings.withPhase _, fail_sound rest job⟩

theorem acknowledge_sound (answered : state.Answered job) :
    Rings (state.acknowledge job) ∧ (state.acknowledge job).Sound := by
  have acked : acked { state with lastUsedIndex := state.lastUsedIndex + 1 } = state.acked + 1 :=
    BitVec.setWidth_add _ _ (by decide)
  have inStep : InStep { state with lastUsedIndex := state.lastUsedIndex + 1 } :=
    ⟨answered.1.quiet, answered.1.avail.trans acked.symm, answered.1.used.trans acked.symm⟩
  have ringsAfter : Rings { state with lastUsedIndex := state.lastUsedIndex + 1 } := { rings with }
  simp only [acknowledge]
  split
  · exact ⟨ringsAfter.withPhase _, fail_sound (.inl inStep) job⟩
  · exact ⟨ringsAfter.withPhase _, inStep.withPhase _, answered.2⟩

theorem checkStatus_sound (inStep : state.InStep)
    (result : state.Result job) : Rings (state.checkStatus job) ∧
      (state.checkStatus job).Sound := by
  have size := rings.sizes .status (by decide)
  have small : state.statusByte < 256 ^ 1 := Memory.load_lt _ _ _
  have read : (state.shared .status).read 1 0 = state.statusByte := by
    rw [show (0 : Int) = ((0 : Nat) : Int) from rfl,
      DmaBuffer.read_eq _ (by decide) (by decide) (by omega), int32_of_range (by omega)]
    · rfl
    · rw [statusByte, loadWord] at small
      omega
  simp only [checkStatus, read]
  split
  · exact ⟨rings.withPhase _, fail_sound (.inl inStep) job⟩
  · rename_i success
    have zero : state.statusByte = 0 := by omega
    split
    · rename_i isRead
      exact ⟨rings.withPhase _, inStep.withPhase _, result zero, isRead⟩
    · rename_i isWrite
      refine ⟨rings.withPhase _, Rest.withPhase (.inl inStep) _, ?_⟩
      intro isRead
      rw [isWrite] at isRead
      contradiction

theorem copyOut_sound (inStep : state.InStep)
    (delivered : state.Delivered job job.sectorCount) (isRead : job.requestType = .blockRequestIn) :
    Rings (state.copyOut job) ∧ (state.copyOut job).Sound := by
  simp only [copyOut]
  split
  · exact ⟨rings.withPhase _, fail_sound (.inl inStep) job⟩
  · rename_i buffer copied
    refine ⟨rings.withPhase _, Rest.withPhase (.inl inStep) _, ?_⟩
    intro _ _
    refine ⟨inStep.withPhase _, ?_⟩
    simp only [DmaBuffer.copyTo] at copied
    split at copied
    · cases copied
      simp only [Returned, Buffer.mk.injEq, true_and]
      funext i
      simp only [Memory.copy, Int.toNat_natCast, Int.toNat_zero, Nat.zero_add]
      split
      · rename_i inside
        apply delivered isRead
        simp only [Job.byteCount, sectorSize] at inside
        omega
      · rfl
    · contradiction

theorem driverStep_sound (sound : state.Sound)
    (stepped : state.driverStep = some after) : Rings after ∧ after.Sound := by
  simp only [driverStep] at stepped
  simp only [Sound] at sound
  split at stepped
  · contradiction
  · contradiction
  · contradiction
  all_goals
    rename_i phase
    cases stepped
    simp only [phase] at sound
  · exact ⟨rings.withPhase _, waiting_withPhase sound _⟩
  · exact ⟨rings.withPhase _, fail_sound (sound.settled.elim .inl
      (fun behind => .inr (.inl behind))) _⟩
  · rename_i stores
    exact store_sound rings sound stores
  · exact poll_sound rings sound _
  · exact acknowledge_sound rings sound
  · exact checkStatus_sound rings sound.1 sound.2
  · exact copyOut_sound rings sound.1 sound.2.1 sound.2.2

theorem transfer_sound (rest : state.Rest) (call : TransferCall)
    (quiet : (acceptTransfer state.capacity call).isSome → state.Quiet) :
    Rings (state.transfer call) ∧ (state.transfer call).Sound := by
  simp only [transfer]
  cases accepted : acceptTransfer state.capacity call with
  | none => exact ⟨rings.withPhase _, rest.withPhase _⟩
  | some job =>
    refine ⟨rings.withPhase _, ?_⟩
    have quiet : state.Quiet := quiet (by rw [accepted]; rfl)
    have settled : state.InStep ∨ state.Behind := by
      rcases rest with inStep | behind | untaken | ⟨request, taken⟩
      · exact .inl inStep
      · exact .inr behind
      · have same := untaken.taken.symm.trans (quiet.2.trans untaken.avail)
        exact absurd same.symm (by simp)
      · rw [Quiet, taken.pending] at quiet
        exact absurd quiet.1 (by simp)
    have inRing := ringSlot_lt rings.queue.1 rings.queue.2 state.lastUsedIndex
    obtain ⟨preparation, last, shape, -, -⟩ :=
      transferStores_last state.shared state.lastUsedIndex inRing job
    obtain ⟨store, stores, nonempty⟩ : ∃ store stores, transferStores state.shared
        state.lastUsedIndex state.queueSize job = store :: stores := by
      cases preparation with
      | nil => exact ⟨last, [], shape⟩
      | cons store stores => exact ⟨store, stores ++ [last], shape⟩
    simp only [nonempty, Sound]
    exact ⟨⟨state.shared, [], nonempty, rfl⟩, settled.imp (·.withPhase _) (·.withPhase _)⟩

end

end VirtioState

end Zapada.Virtio
