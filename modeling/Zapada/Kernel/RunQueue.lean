import Zapada.Kernel.IpcPool
import Zapada.Kernel.ReadyLists
import Zapada.Kernel.System

namespace Zapada.Kernel

open Foundation Function ProcessState

variable {n m : Nat}

/-- The queues hold these lists, queued threads are ready, and ready threads are
queued or held by a caller. -/
structure Settled (s : Sched n) (lists : Band → List (Fin n)) (held : Fin n → Prop) : Prop where
  queues : Queues s lists
  ready : ∀ band t, t ∈ lists band → s.stateOf t = .ready
  placed : ∀ t, s.stateOf t = .ready → (∃ band, t ∈ lists band) ∨ held t

def Settles (s : Sched n) (held : Fin n → Prop) : Prop := ∃ lists, Settled s lists held

namespace ReadyLists

/-- The same of the lists: listed threads are ready, and ready threads are listed or held. -/
def Placed (ready : ReadyLists n) (held : Fin n → Prop) : Prop :=
  ∀ t, (ready.isQueued t → ready.state t = .ready) ∧
    (ready.state t = .ready → ready.isQueued t ∨ held t)

/-- A thread that becomes ready is accepted on the list of its priority. -/
def roomFor (ready : ReadyLists n) (priority : Fin n → Nat) (t : Fin n) : Prop :=
  ready.total < schedMaxThreads ∧ priority t < schedPrioMax

variable {ready : ReadyLists n} {held : Fin n → Prop} {priority : Fin n → Nat}

namespace Placed

variable (placed : ready.Placed held)

include placed

theorem mono (wider : ∀ t, held t → held' t) : ready.Placed held' :=
  fun t => ⟨(placed t).1, fun isReady => ((placed t).2 isReady).imp_right (wider t)⟩

theorem not_queued (notReady : ready.state t ≠ .ready) : ¬ ready.isQueued t :=
  fun queued => notReady ((placed t).1 queued)

theorem setState {state : ProcessState} (free : ¬ ready.isQueued t) (notReady : state ≠ .ready) :
    (ready.setState t state).Placed fun u => held u ∧ u ≠ t := by
  intro u
  have same : (ready.setState t state).isQueued u ↔ ready.isQueued u := Iff.rfl
  rw [same]
  by_cases here : u = t
  · simp [here, ReadyLists.setState, free, notReady]
  · simpa [ReadyLists.setState, here] using placed u

theorem append (isReady : ready.state t = .ready) (band : Band) :
    (ready.append band t).Placed fun u => held u ∧ u ≠ t := by
  intro u
  rw [isQueued_append]
  by_cases here : u = t
  · simp [here, ReadyLists.append, isReady]
  · simpa [ReadyLists.append, here] using placed u

theorem enqueue (p : Option (Fin n)) : (ready.enqueue priority p).2.Placed held := by
  cases p with
  | none => exact placed
  | some t =>
    simp only [ReadyLists.enqueue]
    repeat' split
    · exact placed
    · rename_i band _ admitted
      exact (placed.append admitted.1 band).mono fun u here => here.1
    · exact placed

theorem readied {made : ReadyLists n} (before : ready.state t ≠ .ready)
    (lists : made.lists = ready.lists) (state : made.state = update ready.state t .ready)
    (room : ready.roomFor priority t) : (made.enqueue priority (some t)).2.Placed held := by
  obtain ⟨free, inRange⟩ := room
  have same : ∀ u, made.isQueued u ↔ ready.isQueued u := fun u => by simp only [isQueued, lists]
  have isReady : made.state t = .ready := by rw [state, update_self]
  have accepted : made.enqueue priority (some t) = (true, made.append ⟨priority t, inRange⟩ t) := by
    simp [ReadyLists.enqueue, bandOf, inRange, isReady, same, placed.not_queued before,
      total, lists]
    exact free
  have changed : made.Placed fun u => held u ∨ u = t := by
    intro u
    rw [same, state]
    by_cases here : u = t
    · simp [here]
    · simpa [here] using placed u
  rw [accepted]
  exact (changed.append isReady _).mono fun u here => here.1.resolve_right here.2

theorem dequeue : ready.dequeue.2.Placed fun t => held t ∨ ready.dequeue.1 = some t := by
  intro t
  obtain ⟨states, left⟩ := ready.dequeue_kept t
  rw [states]
  have before := placed t
  tauto

theorem yield (room : ∀ t, p = some t → ready.state t = .running → ready.roomFor priority t) :
    (ready.yield priority p).2.Placed held := by
  cases p with
  | none => exact placed
  | some t =>
    simp only [ReadyLists.yield]
    split
    · rename_i running
      exact placed.readied (by simp [running]) rfl rfl (room t rfl running)
    · exact placed

theorem unblock (room : ∀ t, p = some t → ready.state t = .blocked → ready.roomFor priority t) :
    (ready.unblock priority p).2.Placed held := by
  cases p with
  | none => exact placed
  | some t =>
    simp only [ReadyLists.unblock]
    split
    · rename_i blocked
      exact placed.readied (by simp [blocked]) rfl rfl (room t rfl blocked)
    · exact placed

theorem next (room : ∀ t, p = some t → ready.preempt = true → ready.state t = .running →
      ready.roomFor priority t) :
    (ready.next priority p).2.Placed fun t => held t ∨ (ready.next priority p).1 = some t := by
  cases p with
  | none => exact placed.dequeue
  | some t =>
    simp only [ReadyLists.next]
    split
    · rename_i preempted
      exact (placed.yield fun u here => room u here preempted.1).dequeue
    · refine placed.dequeue.mono fun u here => here.imp_right fun taken => ?_
      rw [taken, Option.some_or]

/-- Blocking a thread takes no other thread off a list. -/
theorem block (nodup : ∀ band, (ready.lists band).Nodup) (p : Option (Fin n)) :
    (ready.block p).2.Placed held ∧ ∀ u, p ≠ some u → ready.isQueued u →
      (ready.block p).2.isQueued u := by
  have kept : ready.Placed held ∧ ∀ u, p ≠ some u → ready.isQueued u → ready.isQueued u :=
    ⟨placed, fun _ _ queued => queued⟩
  cases p with
  | none => exact kept
  | some t =>
    simp only [ReadyLists.block]
    split
    · exact kept
    · rename_i isReady
      split
      · have removed : ∀ u, (ready.remove t).isQueued u ↔ ready.isQueued u ∧ u ≠ t := by
          intro u
          simp [isQueued, remove, (nodup _).mem_erase_iff, and_comm]
        have left : (ready.remove t).Placed fun u => held u ∨ u = t := by
          intro u
          have before := placed u
          rw [removed]
          simp only [remove] at *
          tauto
        have blocked :=
          left.setState (fun queued => ((removed t).mp queued).2 rfl)
            (show blocked ≠ .ready by decide)
        refine ⟨blocked.mono fun u here => here.1.resolve_right here.2, fun u different
          queued => ?_⟩
        exact (removed u).mpr ⟨queued, fun same => different (by rw [same])⟩
      · exact kept
    · rename_i running
      have free : ¬ ready.isQueued t := placed.not_queued (by simp [running])
      have blocked := placed.setState free (show blocked ≠ .ready by decide)
      exact ⟨blocked.mono fun u here => here.1, kept.2⟩
    · exact kept
    · exact kept

end Placed

end ReadyLists

section Operations

variable {s : Sched n} {held : Fin n → Prop} {priority : Fin n → Nat}

def Sched.isQueued (s : Sched n) (t : Fin n) : Prop := ∃ band, t ∈ s.queued band

instance (s : Sched n) (t : Fin n) : Decidable (s.isQueued t) :=
  inferInstanceAs (Decidable (∃ _, _))

theorem Represents.settled {ready : ReadyLists n} (represents : Represents priority s ready)
    (placed : ready.Placed held) : Settled s ready.lists held where
  queues := represents.queues
  ready band t member := by
    rw [represents.state]
    exact (placed t).1 ⟨band, member⟩
  placed t isReady := (placed t).2 (represents.state ▸ isReady)

theorem Represents.settles {ready : ReadyLists n} (represents : Represents priority s ready)
    (placed : ready.Placed held) : Settles s held :=
  ⟨_, represents.settled placed⟩

theorem Settled.represented (settled : Settled s lists held) :
    ∃ ready, ready.lists = lists ∧ Represents s.priorityOf s ready ∧ ready.Placed held :=
  ⟨⟨lists, s.stateOf, s.preemptRequested⟩, rfl, ⟨settled.queues, rfl, rfl, rfl⟩,
    fun t => ⟨fun ⟨band, member⟩ => settled.ready band t member, settled.placed t⟩⟩

theorem Settled.free (settled : Settled s lists held)
    (notQueued : ¬ s.isQueued t) (band : Band) : t ∉ lists band := by
  intro member
  exact notQueued ⟨band, by rwa [settled.queues.queued_eq]⟩

theorem Settled.setState (settled : Settled s lists held)
    (free : ∀ band, t ∉ lists band) (notReady : state ≠ .ready) :
    Settled (s.setState t state) lists fun u => held u ∧ u ≠ t := by
  obtain ⟨ready, rfl, represents, placed⟩ := settled.represented
  exact (represents.setState t state).settled
    (placed.setState (fun ⟨band, member⟩ => free band member) notReady)

theorem exitThread_settles (settled : Settled s lists held)
    (free : ∀ band, t ∉ lists band) : Settled (exitThread s t) lists held := by
  unfold exitThread
  split
  · have exited := settled.setState free (show zombie ≠ .ready by decide)
    obtain ⟨ready, rfl, represents, placed⟩ := exited.represented
    exact represents.settled (placed.mono fun u here => here.1)
  · exact settled

/-- There is room on the run queues for the thread when it becomes ready. -/
def Sched.roomFor (s : Sched n) (t : Fin n) : Prop :=
  s.totalReady < schedMaxThreads ∧ s.priorityOf t < schedPrioMax

theorem Represents.roomFor {ready : ReadyLists n} (represents : Represents s.priorityOf s ready)
    (room : s.roomFor t) : ready.roomFor s.priorityOf t :=
  ⟨represents.total_eq ▸ room.1, room.2⟩

section

variable (settles : Settles s held)

include settles

theorem Settles.represented : ∃ ready, Represents s.priorityOf s ready ∧ ready.Placed held := by
  obtain ⟨lists, settled⟩ := settles
  obtain ⟨ready, -, represented⟩ := settled.represented
  exact ⟨ready, represented⟩

theorem Settles.mono (wider : ∀ t, held t → held' t) : Settles s held' := by
  obtain ⟨ready, represents, placed⟩ := settles.represented
  exact represents.settles (placed.mono wider)

/-- A thread that is held is ready and on no queue. -/
theorem Settles.strays : Settles s fun t => held t ∧ s.stateOf t = .ready ∧ ¬ s.isQueued t := by
  obtain ⟨lists, settled⟩ := settles
  refine ⟨lists, settled.queues, settled.ready, fun t isReady => ?_⟩
  by_cases queued : s.isQueued t
  · obtain ⟨band, member⟩ := queued
    exact .inl ⟨band, by rwa [settled.queues.queued_eq] at member⟩
  · have free := settled.free queued
    refine .inr ⟨(settled.placed t isReady).resolve_left ?_, isReady, queued⟩
    rintro ⟨band, member⟩
    exact free band member

theorem schedEnqueue_settles (p : Option (Fin n)) : Settles (schedEnqueue s p).2 held := by
  obtain ⟨ready, represents, placed⟩ := settles.represented
  obtain ⟨⟨-, after⟩, -⟩ := represents.enqueue p
  exact after.settles (placed.enqueue p)

theorem schedDequeue_settles :
    Settles (schedDequeue s).2 fun t => held t ∨ (schedDequeue s).1 = some t := by
  obtain ⟨ready, represents, placed⟩ := settles.represented
  obtain ⟨⟨same, after⟩, -⟩ := represents.dequeue
  rw [same]
  exact after.settles placed.dequeue

theorem schedYield_settles (room : ∀ t, p = some t → s.stateOf t = .running → s.roomFor t) :
    Settles (schedYield s p).2 held := by
  obtain ⟨ready, represents, placed⟩ := settles.represented
  obtain ⟨-, after⟩ := represents.yield p
  refine after.settles (placed.yield fun t here running => represents.roomFor ?_)
  exact room t here (represents.state ▸ running)

theorem schedUnblock_settles (room : ∀ t, p = some t → s.stateOf t = .blocked → s.roomFor t) :
    Settles (schedUnblock s p).2 held := by
  obtain ⟨ready, represents, placed⟩ := settles.represented
  obtain ⟨-, after⟩ := represents.unblock p
  refine after.settles (placed.unblock fun t here blocked => represents.roomFor ?_)
  exact room t here (represents.state ▸ blocked)

theorem schedNext_settles (room : ∀ t, p = some t → s.preemptRequested = true →
      s.stateOf t = .running → s.roomFor t) :
    Settles (schedNext s p).2 fun t => held t ∨ (schedNext s p).1 = some t := by
  obtain ⟨ready, represents, placed⟩ := settles.represented
  obtain ⟨same, after⟩ := represents.next p
  rw [same]
  refine after.settles (placed.next fun t here preempted running => represents.roomFor ?_)
  exact room t here (represents.preempt ▸ preempted) (represents.state ▸ running)

theorem schedBlock_settles (p : Option (Fin n)) : Settles (schedBlock s p).2 held := by
  obtain ⟨ready, represents, placed⟩ := settles.represented
  exact (represents.block p).2.settles (placed.block represents.queues.nodup p).1

theorem schedTick_settles (p : Option (Fin n)) : Settles (schedTick s p) held := by
  obtain ⟨ready, represents, placed⟩ := settles.represented
  rcases represents.tick p with after | after
  · exact after.settles placed
  · exact after.settles placed

theorem schedContextSwitch_settles (prev next : Option (Fin n))
    (free : ∀ t, next = some t → ¬ s.isQueued t) :
    Settles (schedContextSwitch s prev next) held := by
  obtain ⟨ready, represents, placed⟩ := settles.represented
  cases prev with
  | none => exact settles
  | some p =>
    cases next with
    | none => exact settles
    | some t =>
      have off : ¬ ready.isQueued t :=
        fun queued => free t rfl ((represents.onQueue_iff t).mpr queued)
      have switched := placed.setState off (show running ≠ .ready by decide)
      exact (represents.run t).settles (switched.mono fun u here => here.1)

theorem switchNext_settles (taken : schedDequeue s = (some next, s')) (prev : Fin n) :
    Settles (schedContextSwitch s' (some prev) (some next)) held := by
  obtain ⟨ready, represents, placed⟩ := settles.represented
  have dequeued := schedDequeue_settles settles
  obtain ⟨⟨same, after⟩, -⟩ := represents.dequeue
  rw [taken] at dequeued same after
  have free : ∀ t, some next = some t → ¬ s'.isQueued t := by
    rintro t ⟨⟩ queued
    exact represents.dequeued_free same.symm ((after.onQueue_iff next).mp queued)
  -- the thread that was taken off its queue runs now, so it is not held
  refine (schedContextSwitch_settles dequeued (some prev) (some next) free).strays.mono ?_
  rintro t ⟨here, isReady, -⟩
  refine here.resolve_right fun same => ?_
  cases same
  simp [schedContextSwitch, schedSetCurrent, Sched.stateOf, Sched.setState,
    Sched.setThread] at isReady

/-- A thread other than the given one is on a run queue. -/
def Sched.otherQueued (s : Sched n) (current : Fin n) : Prop :=
  ∃ band, ∃ t ∈ s.queued band, t ≠ current

/-- With another thread on a queue, the current thread is blocked and the next
one runs, or blocking is refused; the undo path is not taken. -/
theorem blockCurrent_settles (other : s.otherQueued current) :
    (∃ s', s.blockCurrent current = .refused s' ∧ Settles s' held) ∨
      ∃ s', s.blockCurrent current = .switched s' ∧ Settles s' held := by
  obtain ⟨ready, represents, placed⟩ := settles.represented
  obtain ⟨band, t, queued, different⟩ := other
  obtain ⟨blocked, kept⟩ := placed.block represents.queues.nodup (some current)
  have remains := kept t (fun same => different (Option.some.inj same).symm)
    ((represents.onQueue_iff t).mp ⟨band, queued⟩)
  obtain ⟨-, after⟩ := represents.block (some current)
  simp only [Sched.blockCurrent]
  cases result : schedBlock s (some current) with
  | mk success s' =>
    rw [result] at after
    cases success with
    | false => exact .inl ⟨s', rfl, after.settles blocked⟩
    | true =>
      cases taken : schedDequeue s' with
      | mk next s'' =>
        cases next with
        | none =>
          have nothing := after.dequeue.1.1
          rw [taken] at nothing
          exact absurd remains (ReadyLists.dequeue_none nothing.symm t).1
        | some next =>
          exact .inr ⟨_, by simp [taken], switchNext_settles (after.settles blocked) taken current⟩

theorem handleYield_settles
    (room : ∀ t, s.current = some t → s.stateOf t = .running → s.roomFor t) :
    Settles (handleYield s).2 held := by
  simp only [handleYield]
  cases running : s.current with
  | none => exact settles
  | some current =>
    have yielded := schedYield_settles settles fun t here => room t (running.trans here)
    cases result : schedYield s (some current) with
    | mk success s' =>
      rw [result] at yielded
      cases success with
      | false => simpa [result] using yielded
      | true =>
        simp only [result]
        cases taken : schedDequeue s' with
        | mk next after =>
          cases next with
          | none =>
            obtain ⟨ready, represents, placed⟩ := yielded.represented
            obtain ⟨⟨same, dequeued⟩, -⟩ := represents.dequeue
            rw [taken] at same dequeued
            obtain ⟨free, unchanged⟩ := ReadyLists.dequeue_none same.symm current
            rw [unchanged] at dequeued
            have again := placed.setState free (show ProcessState.running ≠ .ready by decide)
            exact (dequeued.run current).settles (again.mono fun u here => here.1)
          | some next => exact switchNext_settles yielded taken current

theorem handleSchedBlock_settles
    (other : ∀ current, s.current = some current → s.otherQueued current) :
    Settles (handleSchedBlock s).2 held := by
  simp only [handleSchedBlock]
  cases running : s.current with
  | none => exact settles
  | some current =>
    rcases blockCurrent_settles settles (other current running) with
      ⟨s', result, after⟩ | ⟨s', result, after⟩
    · simpa [result] using after
    · simpa [result] using after

theorem handleSchedSetPriority_settles
    (free : ∀ current, s.current = some current → ¬ s.isQueued current)
    (arg0 : Nat) : Settles (handleSchedSetPriority s arg0).2 held := by
  obtain ⟨lists, settled⟩ := settles
  simp only [handleSchedSetPriority]
  split
  · exact ⟨lists, settled⟩
  · cases running : s.current with
    | none => exact ⟨lists, settled⟩
    | some current =>
      have unqueued := settled.free (free current running)
      generalize arg0 &&& 0xFFFFFFFF = newPrio
      have states := Sched.field_setThread_same Thread.state s current (·.withPriority newPrio)
        fun _ => rfl
      refine ⟨lists, settled.queues.congr ?_ rfl ?_ rfl, fun band t member =>
        ?_, fun t isReady => ?_⟩
      · exact Sched.field_setThread_same Thread.next s current (·.withPriority newPrio) fun _ => rfl
      · rintro t ⟨band, member⟩
        simp [Sched.priorityOf, Sched.setThread, ne_of_mem_of_not_mem member (unqueued band)]
      · exact (congrFun states t).trans (settled.ready band t member)
      · exact settled.placed t ((congrFun states t).symm.trans isReady)

end

end Operations

end Zapada.Kernel
