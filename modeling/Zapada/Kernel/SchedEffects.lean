import Zapada.Kernel.ReadyLists
import Zapada.Kernel.System

namespace Zapada.Kernel

open Foundation Function Sched

variable {n m : Nat} {s : Sched n}

/-- Links, tails and counts of the run queues agree. -/
def Structured (s : Sched n) : Prop := ∃ lists, Queues s lists

section

variable (structured : Structured s)

include structured

theorem Structured.represented : ∃ ready, Represents s.priorityOf s ready := by
  obtain ⟨lists, queues⟩ := structured
  exact ⟨⟨lists, s.stateOf, s.preemptRequested⟩, queues, rfl, rfl, rfl⟩

theorem Structured.congr (links : s'.next = s.next)
    (queues : s'.queues = s.queues) (priority : s'.priorityOf = s.priorityOf)
    (total : s'.totalReady = s.totalReady) : Structured s' := by
  obtain ⟨lists, queued⟩ := structured
  exact ⟨lists, queued.congr links queues (fun t _ => by rw [priority]) total⟩

theorem Structured.setState (t : Fin n) (state : ProcessState) : Structured (s.setState t state) :=
  structured.congr (next_setState s t state) rfl (priorityOf_setState s t state) rfl

theorem schedEnqueue_effect (p : Option (Fin n)) :
    Structured (schedEnqueue s p).2 ∧ SameThreads s (schedEnqueue s p).2 := by
  obtain ⟨ready, represents⟩ := structured.represented
  obtain ⟨⟨-, after⟩, same⟩ := represents.enqueue p
  exact ⟨⟨_, after.queues⟩, same⟩

theorem schedDequeue_effect : Structured (schedDequeue s).2 ∧ SameThreads s (schedDequeue s).2 := by
  obtain ⟨ready, represents⟩ := structured.represented
  obtain ⟨⟨-, after⟩, same⟩ := represents.dequeue
  exact ⟨⟨_, after.queues⟩, same⟩

/-- A successful block changes the state of that thread, a refused one nothing. -/
theorem schedBlock_effect (t : Fin n) :
    Structured (schedBlock s (some t)).2 ∧ (schedBlock s (some t)).2.current = s.current ∧
      (schedBlock s (some t)).2.stateOf =
        if (schedBlock s (some t)).1 then update s.stateOf t .blocked else s.stateOf := by
  cases state : s.stateOf t with
  | init | zombie =>
    simp only [schedBlock, state]
    exact ⟨structured, trivial, rfl⟩
  | blocked =>
    simp only [schedBlock, state, if_true]
    exact ⟨structured, trivial, by rw [← state, update_eq_self]⟩
  | running =>
    simp only [schedBlock, state, if_true]
    exact ⟨structured.setState t _, rfl, stateOf_setState s t _⟩
  | ready =>
    obtain ⟨ready, represents⟩ := structured.represented
    obtain ⟨-, after, same⟩ := represents.remove t
    simp only [schedBlock, state]
    cases removed : s.queueRemove t with
    | mk taken s' =>
      rw [removed] at after same
      have kept : Structured s' := ⟨_, after.queues⟩
      cases taken with
      | false => exact ⟨kept, same.current, same.state⟩
      | true =>
        refine ⟨kept.setState t _, same.current, ?_⟩
        simp [same.state]

/-- Waking a blocked thread makes it ready; any other thread is left alone. -/
theorem schedUnblock_effect (t : Fin n) :
    Structured (schedUnblock s (some t)).2 ∧ (schedUnblock s (some t)).2.current = s.current ∧
      (schedUnblock s (some t)).2.stateOf =
        if s.stateOf t = .blocked then update s.stateOf t .ready else s.stateOf := by
  simp only [schedUnblock]
  by_cases blocked : s.stateOf t = .blocked
  · obtain ⟨after, same⟩ := schedEnqueue_effect (structured.setState t .ready) (some t)
    simp only [blocked, ne_eq, not_true, if_false, if_true]
    exact ⟨after, same.current, same.state.trans (stateOf_setState s t _)⟩
  · simp only [blocked, ne_eq, not_false_eq_true, if_true, if_false]
    exact ⟨structured, trivial, trivial⟩

theorem schedUnblock_queued (blocked : s.stateOf t = .blocked)
    (room : s.totalReady < schedMaxThreads) (inRange : s.priorityOf t < schedPrioMax) :
    ∃ band, t ∈ (schedUnblock s (some t)).2.queued band := by
  obtain ⟨ready, represents⟩ := structured.represented
  refine ((represents.unblock (some t)).2.onQueue_iff t).mpr ?_
  rw [represents.state] at blocked
  rw [represents.total_eq] at room
  rw [ReadyLists.unblock, if_pos blocked]
  exact ReadyLists.enqueue_queued (by simp [ReadyLists.setState]) inRange room

theorem undoBlock_effect (t : Fin n) : Structured (s.undoBlock t) ∧
      (s.undoBlock t).current = some t ∧
      (s.undoBlock t).stateOf = update s.stateOf t .running := by
  obtain ⟨after, same⟩ := schedEnqueue_effect (structured.setState t .ready) (some t)
  refine ⟨?_, rfl, ?_⟩
  · exact (after.setState t .running).congr rfl rfl rfl rfl
  · refine (stateOf_setState _ t .running).trans ?_
    rw [same.state, stateOf_setState, update_idem]

theorem schedContextSwitch_effect (prev next : Fin n) :
    Structured (schedContextSwitch s (some prev) (some next)) ∧
      (schedContextSwitch s (some prev) (some next)).current = some next ∧
      (schedContextSwitch s (some prev) (some next)).stateOf = update s.stateOf next .running :=
  ⟨(structured.setState next .running).congr rfl rfl rfl rfl, rfl, stateOf_setState s next _⟩

/-- The outcomes of a blocking attempt: refused without a change, undone with the
thread running, or blocked with another thread running. -/
theorem blockCurrent_effect (t : Fin n) :
    (∃ s', s.blockCurrent t = .refused s' ∧ Structured s' ∧ s'.current = s.current ∧
      s'.stateOf = s.stateOf) ∨
    (∃ s', s.blockCurrent t = .undone s' ∧ Structured s' ∧ s'.current = some t ∧
      s'.stateOf = update s.stateOf t .running) ∨
    ∃ s' next, s.blockCurrent t = .switched s' ∧ Structured s' ∧ s'.current = some next ∧
      s'.stateOf = update (update s.stateOf t .blocked) next .running := by
  obtain ⟨blocked, current, state⟩ := schedBlock_effect structured t
  simp only [blockCurrent]
  cases result : schedBlock s (some t) with
  | mk success s' =>
    rw [result] at blocked current state
    cases success with
    | false => exact .inl ⟨s', rfl, blocked, current, state⟩
    | true =>
      simp only [if_true] at state
      obtain ⟨dequeued, same⟩ := schedDequeue_effect blocked
      cases taken : schedDequeue s' with
      | mk next after =>
        cases next with
        | none =>
          obtain ⟨undone, running, states⟩ := undoBlock_effect dequeued t
          refine .inr (.inl ⟨_, by simp [taken], undone, running, ?_⟩)
          rw [states, same.state, state, update_idem]
        | some next =>
          obtain ⟨switched, running, states⟩ := schedContextSwitch_effect dequeued t next
          refine .inr (.inr ⟨_, next, by simp [taken], switched, running, ?_⟩)
          rw [states, same.state, state]

end

def Sched.awake (s : Sched n) : Prop := ∀ c, s.current = some c → s.stateOf c ≠ .blocked

instance (s : Sched n) : Decidable s.awake := inferInstanceAs (Decidable (∀ _, _ → _))

/-- No thread becomes blocked, and the one that is current afterwards is not. -/
structure Calm (s s' : Sched n) : Prop where
  structured : Structured s'
  blocked : ∀ t, s'.stateOf t = .blocked → s.stateOf t = .blocked
  awake : s'.awake

/-- Setting any thread running as the current one is calm. -/
theorem Calm.running (structured : Structured s')
    (current : s'.current = some u) (running : s'.stateOf = update states u .running)
    (shrinks : ∀ t, states t = .blocked → s.stateOf t = .blocked) : Calm s s' := by
  refine ⟨structured, fun t blocked => ?_, fun c this => ?_⟩
  · rw [running] at blocked
    by_cases here : t = u
    · simp [here] at blocked
    · exact shrinks t (by simpa [here] using blocked)
  · cases current.symm.trans this
    simp [running]

theorem handleYield_calm (structured : Structured s) (awake : s.awake) :
    Calm s (handleYield s).2 := by
  cases current : s.current with
  | none =>
    simp only [handleYield, current]
    exact ⟨structured, fun _ blocked => blocked, awake⟩
  | some c =>
    simp only [handleYield, current, schedYield]
    by_cases running : s.stateOf c = .running
    · have requeued : Structured (s.requeue c) :=
        structured.congr (next_requeue s c) rfl (priorityOf_requeue s c) rfl
      obtain ⟨queued, same⟩ := schedEnqueue_effect requeued (some c)
      have states := same.state.trans (stateOf_requeue s c)
      have shrinks : ∀ t, (schedEnqueue (s.requeue c) (some c)).2.stateOf t = .blocked →
        s.stateOf t = .blocked := by
        intro t blocked
        rw [states] at blocked
        by_cases here : t = c
        · simp [here] at blocked
        · simpa [here] using blocked
      simp only [running, ne_eq, not_true, if_false]
      cases result : schedEnqueue (s.requeue c) (some c) with
      | mk success s' =>
        rw [result] at queued same states shrinks
        cases success with
        | false =>
          refine ⟨queued, shrinks, fun u this => ?_⟩
          have still : s'.current = some c := same.current.trans current
          cases still.symm.trans this
          simp [states]
        | true =>
          obtain ⟨dequeued, unchanged⟩ := schedDequeue_effect queued
          cases taken : schedDequeue s' with
          | mk next after =>
            rw [taken] at dequeued unchanged
            have shrunk : ∀ t, after.stateOf t = .blocked → s.stateOf t = .blocked := by
              rw [← unchanged.state] at shrinks
              exact shrinks
            simp only [taken]
            cases next with
            | none =>
              have kept : Structured (schedSetCurrent (after.setState c .running) (some c)) :=
                (dequeued.setState c .running).congr rfl rfl rfl rfl
              exact Calm.running kept rfl (stateOf_setState after c _) shrunk
            | some next =>
              obtain ⟨switched, current, running⟩ := schedContextSwitch_effect dequeued c next
              exact Calm.running switched current running shrunk
    · simp only [running, ne_eq, not_false_eq_true, if_true]
      exact ⟨structured, fun _ blocked => blocked, awake⟩

theorem schedTick_calm (structured : Structured s) (awake : s.awake) (t : Option (Fin n)) :
    Calm s (schedTick s t) := by
  have same : SameThreads s (schedTick s t) ∧ (schedTick s t).next = s.next ∧
      (schedTick s t).queues = s.queues ∧ (schedTick s t).totalReady = s.totalReady := by
    cases t with
    | none => exact ⟨⟨rfl, rfl, rfl⟩, rfl, rfl, rfl⟩
    | some t =>
      have next := field_setThread_same Thread.next s t Thread.ticked fun _ => rfl
      have state := field_setThread_same Thread.state s t Thread.ticked fun _ => rfl
      have priority := field_setThread_same Thread.priority s t Thread.ticked fun _ => rfl
      simp only [schedTick]
      split <;> exact ⟨⟨state, priority, rfl⟩, next, rfl, rfl⟩
  obtain ⟨threads, links, queues, total⟩ := same
  refine ⟨structured.congr links queues threads.priority total, fun u blocked =>
    ?_, fun c this => ?_⟩
  · rwa [threads.state] at blocked
  · rw [threads.state]
    exact awake c (threads.current ▸ this)

end Zapada.Kernel
