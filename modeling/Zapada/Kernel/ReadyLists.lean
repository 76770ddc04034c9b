import Zapada.Foundation.Machine
import Zapada.Kernel.SchedQueues

/-! What the run queues are for: an array of first-in first-out lists, one for each
priority. The scheduler operations in terms of these lists alone. -/

namespace Zapada.Kernel

open Foundation Function List

/-- The ready threads of each priority, oldest first, and what the operations read
besides. -/
structure ReadyLists (n : Nat) where
  lists : Band → List (Fin n)
  state : Fin n → ProcessState
  preempt : Bool

def bandOf (priority : Nat) : Option Band :=
  if inRange : priority < schedPrioMax then some ⟨priority, inRange⟩ else none

namespace ReadyLists

variable {n : Nat}

def total (ready : ReadyLists n) : Nat := ∑ band, (ready.lists band).length

def isQueued (ready : ReadyLists n) (t : Fin n) : Prop := ∃ band, t ∈ ready.lists band

instance (ready : ReadyLists n) (t : Fin n) : Decidable (ready.isQueued t) :=
  inferInstanceAs (Decidable (∃ _, _))

def setState (ready : ReadyLists n) (t : Fin n) (state : ProcessState) : ReadyLists n :=
  { ready with state := update ready.state t state }

def append (ready : ReadyLists n) (band : Band) (t : Fin n) : ReadyLists n :=
  { ready with lists := update ready.lists band (ready.lists band ++ [t]) }

/-- Take a thread off the lists; the order of the others stays. -/
def remove (ready : ReadyLists n) (t : Fin n) : ReadyLists n :=
  { ready with lists := fun band => (ready.lists band).erase t }

/-- A thread is accepted if it is ready, has a band, is on no list and there is room. -/
def enqueue (priority : Fin n → Nat) (ready : ReadyLists n) : Option (Fin n) → Bool × ReadyLists n
  | none => (false, ready)
  | some t =>
    match bandOf (priority t) with
    | none => (false, ready)
    | some band =>
      if ready.state t = .ready ∧ ¬ ready.isQueued t ∧ ready.total < schedMaxThreads then
        (true, ready.append band t)
      else (false, ready)

/-- The head of the first band that is not empty. -/
def dequeue (ready : ReadyLists n) : Option (Fin n) × ReadyLists n :=
  match (finRange schedPrioMax).find? fun band => ready.lists band ≠ [] with
  | none => (none, ready)
  | some band =>
    ((ready.lists band).head?,
      { ready with lists := update ready.lists band (ready.lists band).tail })

def yield (priority : Fin n → Nat) (ready : ReadyLists n) : Option (Fin n) → Bool × ReadyLists n
  | none => (false, ready)
  | some t =>
    if ready.state t = .running then
      enqueue priority { ready.setState t .ready with preempt := false } (some t)
    else (false, ready)

/-- The head of the first band, or the running thread if all bands are empty; a thread
that is to be preempted goes to the end of its band first. -/
def next (priority : Fin n → Nat) (ready : ReadyLists n) : Option (Fin n) →
      Option (Fin n) × ReadyLists n
  | none => ready.dequeue
  | some t =>
    if ready.preempt ∧ ready.state t = .running then (ready.yield priority (some t)).2.dequeue
    else
      (ready.dequeue.1.or (if ready.state t = .running then some t else none), ready.dequeue.2)

def block (ready : ReadyLists n) : Option (Fin n) → Bool × ReadyLists n
  | none => (false, ready)
  | some t =>
    match ready.state t with
    | .blocked => (true, ready)
    | .ready =>
      if ready.isQueued t then (true, (ready.remove t).setState t .blocked) else (false, ready)
    | .running => (true, ready.setState t .blocked)
    | .init | .zombie => (false, ready)

def unblock (priority : Fin n → Nat) (ready : ReadyLists n) : Option (Fin n) → Bool × ReadyLists n
  | none => (false, ready)
  | some t =>
    if ready.state t = .blocked then (ready.setState t .ready).enqueue priority (some t)
    else (false, ready)

end ReadyLists

/-- The calls of the scheduler, and a caller that sets the state of a thread. -/
inductive QueueCall (n : Nat) where
  | enqueue (t : Option (Fin n))
  | dequeue
  | yield (current : Option (Fin n))
  | tick (current : Option (Fin n))
  | next (current : Option (Fin n))
  | block (t : Option (Fin n))
  | unblock (t : Option (Fin n))
  | mark (t : Fin n) (state : ProcessState)

inductive QueueReply (n : Nat) where
  | done
  | answer (accepted : Bool)
  | thread (t : Option (Fin n))

variable {n : Nat}

def schedCall (s : Sched n) : QueueCall n → QueueReply n × Sched n
  | .enqueue t => (.answer (schedEnqueue s t).1, (schedEnqueue s t).2)
  | .dequeue => (.thread (schedDequeue s).1, (schedDequeue s).2)
  | .yield current => (.answer (schedYield s current).1, (schedYield s current).2)
  | .tick current => (.done, schedTick s current)
  | .next current => (.thread (schedNext s current).1, (schedNext s current).2)
  | .block t => (.answer (schedBlock s t).1, (schedBlock s t).2)
  | .unblock t => (.answer (schedUnblock s t).1, (schedUnblock s t).2)
  | .mark t state => (.done, s.setState t state)

/-- The same calls on the lists. Ticks are not counted there, so any tick may ask for
a preemption. -/
def ReadyLists.answers (priority : Fin n → Nat) (ready : ReadyLists n) :
    QueueCall n → QueueReply n → ReadyLists n → Prop
  | .enqueue t, reply, after =>
    (reply, after) = (.answer (ready.enqueue priority t).1, (ready.enqueue priority t).2)
  | .dequeue, reply, after => (reply, after) = (.thread ready.dequeue.1, ready.dequeue.2)
  | .yield current, reply, after =>
    (reply, after) = (.answer (ready.yield priority current).1, (ready.yield priority current).2)
  | .tick _, reply, after =>
    reply = .done ∧ (after = ready ∨ after = { ready with preempt := true })
  | .next current, reply, after =>
    (reply, after) = (.thread (ready.next priority current).1, (ready.next priority current).2)
  | .block t, reply, after => (reply, after) = (.answer (ready.block t).1, (ready.block t).2)
  | .unblock t, reply, after =>
    (reply, after) = (.answer (ready.unblock priority t).1, (ready.unblock priority t).2)
  | .mark t state, reply, after => (reply, after) = (.done, ready.setState t state)

def schedMachine (threads : Fin n → Thread n) : Machine (Sched n) (QueueCall n × QueueReply n) :=
  .ofCall (schedInit threads) schedCall

/-- Empty lists for threads of fixed priorities. -/
def readyMachine (threads : Fin n → Thread n) :
    Machine (ReadyLists n) (QueueCall n × QueueReply n) where
  initial ready :=
    ready = { lists := fun _ => [], state := fun t => (threads t).state, preempt := false }
  step before label after :=
    before.answers (fun t => (threads t).priority) label.1 label.2 after

/-- The queues, with their counts, tails and total, hold these lists. -/
structure Represents (priority : Fin n → Nat) (s : Sched n) (ready : ReadyLists n) : Prop where
  queues : Queues s ready.lists
  state : s.stateOf = ready.state
  preempt : s.preemptRequested = ready.preempt
  priority : s.priorityOf = priority

open Sched

variable {n : Nat} {priority : Fin n → Nat} {s : Sched n} {ready : ReadyLists n}

/-- A call answers as on the lists, and leaves the queues holding them. -/
def Agrees (priority : Fin n → Nat) (call : α × Sched n) (onLists : α × ReadyLists n) : Prop :=
  call.1 = onLists.1 ∧ Represents priority call.2 onLists.2

theorem Agrees.reply {onLists : α × ReadyLists n} (agrees : Agrees priority call onLists)
    (reply : α → QueueReply n) :
    ∃ after, (reply call.1, after) = (reply onLists.1, onLists.2) ∧
      Represents priority call.2 after :=
  ⟨_, by rw [agrees.1], agrees.2⟩

namespace Represents

variable (represents : Represents priority s ready)

include represents

theorem total_eq : s.totalReady = ready.total :=
  represents.queues.total

/-- A change of thread states leaves the lists. -/
theorem change (links : s'.next = s.next) (queues : s'.queues = s.queues)
    (priorities : s'.priorityOf = s.priorityOf) (total : s'.totalReady = s.totalReady)
    (lists : ready'.lists = ready.lists) (state : s'.stateOf = ready'.state)
    (preempt : s'.preemptRequested = ready'.preempt) : Represents priority s' ready' where
  queues := by
    rw [lists]
    exact represents.queues.congr links queues (fun t _ => by rw [priorities]) total
  state := state
  preempt := preempt
  priority := priorities.trans represents.priority

theorem setState (t : Fin n) (state : ProcessState) :
    Represents priority (s.setState t state) (ready.setState t state) := by
  refine represents.change (next_setState s t state) rfl (priorityOf_setState s t state)
    rfl rfl ?_ represents.preempt
  rw [stateOf_setState, represents.state]
  rfl

theorem requeue (t : Fin n) :
    Represents priority (s.requeue t) { ready.setState t .ready with preempt := false } := by
  refine represents.change (next_requeue s t) rfl (priorityOf_requeue s t) rfl rfl ?_ rfl
  rw [stateOf_requeue, represents.state]
  rfl

theorem relist (queues : Queues s' lists) (same : SameThreads s s')
    (preempt : s'.preemptRequested = s.preemptRequested) :
    Represents priority s' { ready with lists } where
  queues := queues
  state := same.state.trans represents.state
  preempt := preempt.trans represents.preempt
  priority := same.priority.trans represents.priority

theorem isQueued_iff {band : Band} (here : priority t = band) : ready.isQueued t ↔
      t ∈ ready.lists band := by
  constructor
  · rintro ⟨other, member⟩
    have found := represents.queues.priority other t member
    rw [represents.priority, here] at found
    rwa [Fin.ext found]
  · exact fun member => ⟨band, member⟩

/-- A call that changes nothing. -/
theorem refused {reply : α} : Agrees priority (reply, s) (reply, ready) ∧ SameThreads s s :=
  ⟨⟨rfl, represents⟩, rfl, rfl, rfl⟩

theorem enqueue (p : Option (Fin n)) :
    Agrees priority (schedEnqueue s p) (ready.enqueue priority p) ∧
      SameThreads s (schedEnqueue s p).2 := by
  cases p with
  | none => exact represents.refused
  | some t =>
    have isPriority := represents.priority
    subst isPriority
    by_cases inRange : s.priorityOf t < schedPrioMax
    · have isBand : s.priorityOf t = (⟨s.priorityOf t, inRange⟩ : Band) := rfl
      have contains :=
        (represents.queues.contains_iff _ t).trans (represents.isQueued_iff isBand).symm
      simp only [schedEnqueue, ReadyLists.enqueue, bandOf, inRange, dif_pos, represents.state,
        represents.total_eq,
        contains]
      by_cases admitted : ready.state t = .ready ∧ ¬ ready.isQueued t ∧
        ready.total < schedMaxThreads
      · obtain ⟨isReady, fresh, room⟩ := admitted
        have same := sameThreads_linkLast s ⟨_, inRange⟩ t
        have queues := represents.queues.linkLast isBand (represents.total_eq ▸ room) fun member =>
          fresh ⟨_, member⟩
        simp only [isReady, fresh, room, Nat.not_le.mpr room, ne_eq, not_true, not_false_eq_true,
          if_false, and_self,
          if_true]
        refine ⟨⟨rfl, represents.relist queues same ?_⟩, same⟩
        simp only [linkLast]
        split <;> rfl
      · rw [if_neg admitted]
        split_ifs with notReady full queued
        · exact represents.refused
        · exact represents.refused
        · exact represents.refused
        · exact absurd ⟨not_not.mp notReady, queued, Nat.not_le.mp full⟩ admitted
    · simp only [schedEnqueue, ReadyLists.enqueue, bandOf, inRange, dif_neg,
        not_false_eq_true, ite_self]
      exact represents.refused

theorem dequeueFrom (bands : List Band) : Agrees priority (schedDequeueFrom s bands)
      (match bands.find? fun band => ready.lists band ≠ [] with
      | none => (none, ready)
      | some band => ((ready.lists band).head?,
          { ready with lists := update ready.lists band (ready.lists band).tail })) ∧
      SameThreads s (schedDequeueFrom s bands).2 := by
  induction bands with
  | nil => exact represents.refused
  | cons band bands ih =>
    have chain := represents.queues.chain band
    rw [schedDequeueFrom]
    cases found : ready.lists band with
    | nil =>
      rw [found, Chain.nil_iff] at chain
      rw [chain, find?_cons_of_neg (by simp [found])]
      exact ih
    | cons t rest =>
      rw [found, Chain.cons_iff] at chain
      rw [chain.1, find?_cons_of_pos (by simp [found])]
      simp only [found, head?_cons, tail_cons]
      have same : SameThreads s ((s.setNext t none).leave band { s.queues band with
          head := s.next t, tail := if s.next t = none then none else (s.queues band).tail }) :=
        ⟨by simp, by simp, rfl⟩
      exact ⟨⟨rfl, represents.relist (represents.queues.pop found) same rfl⟩, same⟩

theorem dequeue : Agrees priority (schedDequeue s) ready.dequeue ∧
      SameThreads s (schedDequeue s).2 :=
  represents.dequeueFrom (finRange schedPrioMax)

theorem yield (p : Option (Fin n)) : Agrees priority (schedYield s p) (ready.yield priority p) := by
  cases p with
  | none => exact ⟨rfl, represents⟩
  | some t =>
    simp only [schedYield, ReadyLists.yield, ← represents.state]
    by_cases running : s.stateOf t = .running
    · simp only [running, ne_eq, not_true, if_false, if_true]
      exact ((represents.requeue t).enqueue (some t)).1
    · simp only [running, ne_eq, not_false_eq_true, if_true, if_false]
      exact ⟨rfl, represents⟩

theorem setThread (t : Fin n) (update : Thread n → Thread n)
    (same : ∀ thread, (update thread).next = thread.next ∧ (update thread).state = thread.state ∧
      (update thread).priority = thread.priority) :
      Represents priority (s.setThread t update) ready := by
  refine represents.change ?_ rfl ?_ rfl rfl ?_ represents.preempt
  · exact field_setThread_same Thread.next s t update fun thread => (same thread).1
  · exact field_setThread_same Thread.priority s t update fun thread => (same thread).2.2
  · rw [← represents.state]
    exact field_setThread_same Thread.state s t update fun thread => (same thread).2.1

theorem tick (p : Option (Fin n)) : Represents priority (schedTick s p) ready ∨
      Represents priority (schedTick s p) { ready with preempt := true } := by
  cases p with
  | none => exact .inl represents
  | some t =>
    have ticked := represents.setThread t Thread.ticked fun _ => ⟨rfl, rfl, rfl⟩
    simp only [schedTick]
    split
    · exact .inr (ticked.change rfl rfl rfl rfl rfl ticked.state rfl)
    · exact .inl ticked

theorem nextFrom (current : Option (Fin n)) : Agrees priority (schedNextFrom s current)
      (ready.dequeue.1.or (current.filter fun t => ready.state t = .running), ready.dequeue.2) := by
  obtain ⟨⟨same, after⟩, threads⟩ := represents.dequeue
  rw [← represents.state, ← same]
  cases taken : schedDequeue s with
  | mk found s' =>
    rw [taken] at after threads
    simp only [schedNextFrom, taken]
    cases found with
    | some t => exact ⟨rfl, after.setThread t _ fun _ => ⟨rfl, rfl, rfl⟩⟩
    | none =>
      cases current with
      | none => exact ⟨rfl, after.change rfl rfl rfl rfl rfl after.state after.preempt⟩
      | some t =>
        simp only [Option.any_some, threads.state, decide_eq_true_eq, Option.filter_some]
        split
        · exact ⟨rfl, after⟩
        · exact ⟨rfl, after.change rfl rfl rfl rfl rfl after.state after.preempt⟩

theorem next (current : Option (Fin n)) :
    Agrees priority (schedNext s current) (ready.next priority current) := by
  cases current with
  | none => simpa [schedNext, ReadyLists.next] using represents.nextFrom none
  | some t =>
    simp only [schedNext, ReadyLists.next, represents.preempt, represents.state]
    by_cases preempted : ready.preempt = true ∧ ready.state t = .running
    · rw [if_pos preempted, if_pos preempted]
      have yielded := ((represents.requeue t).enqueue (some t)).1.2.nextFrom none
      simp only [ReadyLists.yield, preempted.2, if_true]
      simpa using yielded
    · rw [if_neg preempted, if_neg preempted]
      simpa [Option.filter_some] using represents.nextFrom (some t)

/-- `queue_remove` takes the thread out of the list it is on and keeps the order of the
others. -/
theorem removeFrom (t : Fin n) (bands : List Band) :
    ((s.queueRemoveFrom t bands).1 = true ↔ ∃ band ∈ bands, t ∈ ready.lists band) ∧
      Represents priority (s.queueRemoveFrom t bands).2
        (if (s.queueRemoveFrom t bands).1 then ready.remove t else ready) ∧
      SameThreads s (s.queueRemoveFrom t bands).2 := by
  have queues := represents.queues
  induction bands with
  | nil => exact ⟨by simp [queueRemoveFrom], represents, rfl, rfl, rfl⟩
  | cons band bands ih =>
    rw [queueRemoveFrom]
    by_cases member : t ∈ ready.lists band
    · obtain ⟨first, rest, found⟩ := append_of_mem member
      have nodup := queues.nodup band
      have chain := queues.chain band
      have fits := queues.length_le band
      rw [found] at nodup chain fits
      have fresh : t ∉ first := fun earlier =>
        (nodup_append.mp nodup).2.2 t earlier t (mem_cons_self ..) rfl
      have erased : update ready.lists band (first ++ rest) = fun band =>
        (ready.lists band).erase t := by
        funext other
        by_cases here : other = band
        · rw [here, update_self, found, erase_append_right _ fresh, erase_cons_head]
        · rw [update_of_ne here]
          exact (erase_of_not_mem fun inside => here (queues.unique inside member)).symm
      obtain ⟨after, same⟩ := queues.unlink first found
      rw [erased] at after
      rw [chain.before_found first fresh (by simp at fits; omega), Option.or_none]
      refine ⟨by simp [member], represents.relist after same ?_, same⟩
      cases first.getLast? <;> rfl
    · rw [(queues.chain band).before_none member]
      simpa [member] using ih

theorem remove (t : Fin n) : ((s.queueRemove t).1 = true ↔ ready.isQueued t) ∧
      Represents priority (s.queueRemove t).2 (if (s.queueRemove t).1 then
        ready.remove t else ready) ∧
      SameThreads s (s.queueRemove t).2 := by
  obtain ⟨found, kept⟩ := represents.removeFrom t (finRange schedPrioMax)
  exact ⟨found.trans (by simp [ReadyLists.isQueued]), kept⟩

theorem block (p : Option (Fin n)) : Agrees priority (schedBlock s p) (ready.block p) := by
  cases p with
  | none => exact ⟨rfl, represents⟩
  | some t =>
    simp only [schedBlock, ReadyLists.block, ← represents.state]
    cases state : s.stateOf t with
    | init | zombie | blocked => exact ⟨rfl, represents⟩
    | running => exact ⟨rfl, represents.setState t .blocked⟩
    | ready =>
      obtain ⟨listed, after, -⟩ := represents.remove t
      cases removed : s.queueRemove t with
      | mk taken s' =>
        rw [removed] at listed after
        cases taken with
        | true =>
          simp only [if_pos (listed.mp rfl)]
          exact ⟨rfl, setState after t .blocked⟩
        | false =>
          have absent : ¬ ready.isQueued t := by simpa using listed
          simp only [if_neg absent]
          exact ⟨rfl, after⟩

theorem unblock (p : Option (Fin n)) :
    Agrees priority (schedUnblock s p) (ready.unblock priority p) := by
  cases p with
  | none => exact ⟨rfl, represents⟩
  | some t =>
    simp only [schedUnblock, ReadyLists.unblock, ← represents.state]
    by_cases blocked : s.stateOf t = .blocked
    · simp only [blocked, ne_eq, not_true, if_false, if_true]
      exact ((represents.setState t .ready).enqueue (some t)).1
    · simp only [blocked, ne_eq, not_false_eq_true, if_true, if_false]
      exact ⟨rfl, represents⟩

omit represents in
theorem init (threads : Fin n → Thread n) :
    Represents (fun t => (threads t).priority) (schedInit threads)
      { lists := fun _ => [], state := fun t => (threads t).state, preempt := false } where
  queues :=
    { chain := fun _ => .nil, tail := fun _ => rfl, nodup := fun _ => nodup_nil,
      priority := by simp, count := fun _ => rfl, total := by simp [schedInit],
      bound := Nat.zero_le _ }
  state := rfl
  preempt := rfl
  priority := rfl

/-- Every call is answered as on the lists. -/
theorem call (call : QueueCall n) :
    ∃ after, ready.answers priority call (schedCall s call).1 after ∧
      Represents priority (schedCall s call).2 after := by
  cases call with
  | enqueue t => exact (represents.enqueue t).1.reply .answer
  | dequeue => exact represents.dequeue.1.reply .thread
  | yield current => exact (represents.yield current).reply .answer
  | tick current =>
    rcases represents.tick current with after | after
    · exact ⟨_, ⟨rfl, .inl rfl⟩, after⟩
    · exact ⟨_, ⟨rfl, .inr rfl⟩, after⟩
  | next current => exact (represents.next current).reply .thread
  | block t => exact (represents.block t).reply .answer
  | unblock t => exact (represents.unblock t).reply .answer
  | mark t state => exact ⟨_, rfl, represents.setState t state⟩

end Represents

theorem schedMachine_simulation (threads : Fin n → Thread n) :
    (schedMachine threads).Simulation (readyMachine threads)
      (Represents fun t => (threads t).priority) where
  initially _ isFirst := by
    cases isFirst
    exact ⟨_, rfl, Represents.init threads⟩
  matched before label after ready represents taken := by
    obtain ⟨call, reply⟩ := label
    have answered : schedCall before call = (reply, after) := taken
    obtain ⟨next, same, relates⟩ := represents.call call
    rw [answered] at same relates
    exact ⟨next, same, relates⟩

/-- Any sequence of calls on any threads is answered as by an array of lists, one for
each priority, and leaves the run queues holding these lists. -/
theorem sched_refines_ready_lists (threads : Fin n → Thread n) (calls : List (QueueCall n)) :
    ∃ ready,
      (readyMachine threads).Run (Machine.answers schedCall (schedInit threads) calls).1 ready ∧
      Represents (fun t => (threads t).priority)
        (Machine.answers schedCall (schedInit threads) calls).2 ready :=
  (schedMachine_simulation threads).run (Machine.Run.ofCalls schedCall (schedInit threads) calls)

def Sched.onQueue (s : Sched n) (t : Fin n) : Prop := ∃ band, t ∈ s.queued band

/-- A thread can still run after a call that did not take it: its state is the
old one, or a queue holds it. -/
def Sched.keeps (before : Sched n) (t : Fin n) (after : Sched n) : Prop :=
  after.stateOf t = before.stateOf t ∨ after.onQueue t

/-- `sched_enqueue` would take the thread once it is ready, or a queue holds it. -/
def Sched.admits (s : Sched n) (t : Fin n) : Prop :=
  s.priorityOf t < schedPrioMax ∧ s.totalReady < schedMaxThreads ∨ s.onQueue t

namespace ReadyLists

theorem isQueued_update (ready : ReadyLists n) (band : Band) (list : List (Fin n)) (t : Fin n) :
    isQueued { ready with lists := update ready.lists band list } t ↔
      t ∈ list ∨ ∃ other ≠ band, t ∈ ready.lists other :=
  exists_update_iff _ fun _ list => t ∈ list

theorem isQueued_iff (ready : ReadyLists n) (band : Band) (t : Fin n) :
    ready.isQueued t ↔ t ∈ ready.lists band ∨ ∃ other ≠ band, t ∈ ready.lists other := by
  simpa using ready.isQueued_update band (ready.lists band) t

theorem isQueued_append (ready : ReadyLists n) (band : Band) (t u : Fin n) :
    (ready.append band t).isQueued u ↔ ready.isQueued u ∨ u = t := by
  rw [append, isQueued_update, ready.isQueued_iff band u, mem_append, mem_singleton, or_right_comm]

/-- A thread that was just made ready is kept by a refused enqueue exactly if there is
room for it or a list holds it. -/
theorem enqueue_kept (isReady : ready.state t = .ready) (changed : ProcessState.ready ≠ before) :
    ((ready.enqueue priority (some t)).1 = false → (ready.enqueue priority (some t)).2.state
      t = before ∨
      (ready.enqueue priority (some t)).2.isQueued t) ↔
      priority t < schedPrioMax ∧ ready.total < schedMaxThreads ∨ ready.isQueued t := by
  by_cases inRange : priority t < schedPrioMax
  · by_cases queued : ready.isQueued t <;> by_cases room : ready.total < schedMaxThreads <;>
      simp [enqueue, bandOf, inRange, isReady, queued, room, changed]
  · simp [enqueue, bandOf, inRange, isReady, changed]

theorem enqueue_queued (isReady : ready.state t = .ready) (inRange : priority t < schedPrioMax)
    (room : ready.total < schedMaxThreads) : (ready.enqueue priority (some t)).2.isQueued t := by
  by_cases queued : ready.isQueued t
  · simp [enqueue, bandOf, inRange, queued]
  · simp [enqueue, bandOf, inRange, isReady, queued, room, isQueued_append]

theorem enqueue_full (full : schedMaxThreads ≤ ready.total) (t : Fin n) :
    ready.enqueue priority (some t) = (false, ready) := by
  simp only [enqueue, Nat.not_lt.mpr full, and_false, if_false]
  split <;> rfl

/-- A dequeue changes no state, and only the selected thread leaves the lists. -/
theorem dequeue_kept (ready : ReadyLists n) (t : Fin n) : ready.dequeue.2.state = ready.state ∧
    (ready.dequeue.1 = some t ∨ ready.dequeue.2.isQueued t ↔ ready.isQueued t) := by
  unfold dequeue
  split
  · simp
  · rename_i band found
    have filled : ready.lists band ≠ [] := by simpa using find?_some found
    obtain ⟨first, rest, list⟩ := exists_cons_of_ne_nil filled
    refine ⟨rfl, ?_⟩
    rw [isQueued_update, ready.isQueued_iff band t, list, head?_cons, tail_cons, mem_cons,
      Option.some.injEq, or_assoc, eq_comm]

theorem dequeue_none (nothing : ready.dequeue.1 = none) (t : Fin n) :
    ¬ ready.isQueued t ∧ ready.dequeue.2 = ready := by
  unfold dequeue at nothing ⊢
  split at nothing
  · rename_i empty
    refine ⟨?_, rfl⟩
    rintro ⟨band, member⟩
    simpa [ne_nil_of_mem member] using find?_eq_none.mp empty band (mem_finRange band)
  · rename_i band found
    exact absurd (head?_eq_none_iff.mp nothing) (by simpa using find?_some found)

end ReadyLists

section

variable (represents : Represents priority s ready)

include represents

theorem Represents.dequeued_free (taken : ready.dequeue.1 = some t) :
    ¬ ready.dequeue.2.isQueued t := by
  unfold ReadyLists.dequeue at taken ⊢
  split at taken
  · contradiction
  · rename_i band _
    obtain ⟨rest, list⟩ := head?_eq_some_iff.mp taken
    have nodup := represents.queues.nodup band
    rw [list, nodup_cons] at nodup
    rw [ReadyLists.isQueued_update, list, tail_cons]
    rintro (member | ⟨other, different, member⟩)
    · exact nodup.1 member
    · exact different (represents.queues.unique member (by rw [list]; exact mem_cons_self ..))

/-- A thread becomes the running one. -/
theorem Represents.run (t : Fin n) :
    Represents priority (schedSetCurrent (s.setState t .running) (some t))
      (ready.setState t .running) :=
  have running := represents.setState t .running
  running.change rfl rfl rfl rfl rfl running.state running.preempt

theorem Represents.onQueue_iff (t : Fin n) :
    s.onQueue t ↔ ready.isQueued t := by
  simp only [onQueue, represents.queues.queued_eq]
  rfl

end

/-- What a failed call leaves of its thread: the thread keeps its state or stays
selectable exactly if it was admitted, because the calls make it ready first. -/
theorem refused_thread_kept_iff (queues : Queues s lists) (t : Fin n) :
    (((schedYield s (some t)).1 = false → s.keeps t (schedYield s (some t)).2) ↔
      (s.stateOf t = .running → s.admits t)) ∧
    (((schedUnblock s (some t)).1 = false → s.keeps t (schedUnblock s (some t)).2) ↔
      (s.stateOf t = .blocked → s.admits t)) ∧
    ((s.preemptRequested ∧ s.stateOf t = .running ∧ schedMaxThreads ≤ s.totalReady →
        (schedNext s (some t)).1 = some t ∨ s.keeps t (schedNext s (some t)).2) ↔
      (s.preemptRequested ∧ s.stateOf t = .running ∧ schedMaxThreads ≤ s.totalReady →
        s.onQueue t)) := by
  have represents : Represents s.priorityOf s ⟨lists, s.stateOf, s.preemptRequested⟩ :=
    ⟨queues, rfl, rfl, rfl⟩
  have yielded := represents.yield (some t)
  have unblocked := represents.unblock (some t)
  have chosen := represents.next (some t)
  simp only [admits, keeps, yielded.1, unblocked.1, chosen.1, yielded.2.state, unblocked.2.state,
    chosen.2.state,
    yielded.2.onQueue_iff, unblocked.2.onQueue_iff, chosen.2.onQueue_iff, represents.onQueue_iff,
      represents.total_eq]
  refine ⟨?_, ?_, imp_congr_right ?_⟩
  · by_cases running : s.stateOf t = .running
    · simp only [ReadyLists.yield, running, if_true, true_imp_iff]
      exact ReadyLists.enqueue_kept (by simp [ReadyLists.setState]) (by simp)
    · simp [ReadyLists.yield, running]
  · by_cases blocked : s.stateOf t = .blocked
    · simp only [ReadyLists.unblock, blocked, if_true, true_imp_iff]
      exact ReadyLists.enqueue_kept (by simp [ReadyLists.setState]) (by simp)
    · simp [ReadyLists.unblock, blocked]
  · rintro ⟨preempt, running, full⟩
    simp only [ReadyLists.next, ReadyLists.yield, preempt, running, and_self, if_true]
    rw [ReadyLists.enqueue_full]
    case full => exact full
    generalize isMade : ReadyLists.mk _ _ _ = made
    obtain ⟨states, left⟩ := made.dequeue_kept t
    rw [states]
    subst isMade
    simpa [ReadyLists.setState, ReadyLists.isQueued] using left

/-- A blocked thread whose priority has no band. -/
def unplaced : Sched 1 :=
  schedInit fun _ =>
    { tid := 1, state := .blocked, priority := 8, ticksRemaining := 0, totalTicks := 0, next := none }

theorem refused_thread_kept_unplaced : Queues unplaced (fun _ => []) ∧
    (((schedUnblock unplaced (some 0)).1 = false →
      unplaced.keeps 0 (schedUnblock unplaced (some 0)).2) ↔
      (unplaced.stateOf 0 = .blocked → unplaced.admits 0)) :=
  ⟨(Represents.init _).queues, (refused_thread_kept_iff (Represents.init _).queues 0).2.1⟩

/-- The wake-up fails, and the thread is ready and on no queue. -/
theorem unblock_strands : (schedUnblock unplaced (some 0)).1 = false ∧
    (schedUnblock unplaced (some 0)).2.stateOf 0 = .ready ∧
      ¬ (schedUnblock unplaced (some 0)).2.onQueue 0 := by
  unfold onQueue
  decide

end Zapada.Kernel
