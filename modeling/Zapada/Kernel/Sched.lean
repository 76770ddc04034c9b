import Mathlib.Algebra.GroupWithZero.Nat
import Zapada.Foundation.Chain

/-! The scheduler: eight priority bands, each a first-in first-out list of
threads linked through the threads themselves. A pointer to one of the `n`
threads is an `Option (Fin n)`. -/

namespace Zapada.Kernel

open Foundation

inductive ProcessState where
  | init
  | ready
  | running
  | blocked
  | zombie
deriving DecidableEq

inductive SchedState where
  | idle
  | running
  | preempt
deriving DecidableEq

def schedPrioMax : Nat := 8
def schedDefaultQuantum : Nat := 10
def schedMaxThreads : Nat := 32

/-- The thread fields that scheduling reads; `tid` is 0 in an unused slot. -/
structure Thread (n : Nat) where
  tid : Nat
  state : ProcessState
  priority : Nat
  ticksRemaining : Nat
  totalTicks : Nat
  next : Option (Fin n)

structure RunQueue (n : Nat) where
  head : Option (Fin n)
  tail : Option (Fin n)
  count : Nat

abbrev Band := Fin schedPrioMax

structure Sched (n : Nat) where
  threads : Fin n → Thread n
  queues : Band → RunQueue n
  totalReady : Nat
  state : SchedState
  preemptRequested : Bool
  current : Option (Fin n)

/-- Unsigned 32-bit increment and decrement. -/
def inc32 (value : Nat) : Nat := (value + 1) % 2 ^ 32
def dec32 (value : Nat) : Nat := (value + (2 ^ 32 - 1)) % 2 ^ 32

namespace Sched

variable {n : Nat}

def setThread (s : Sched n) (t : Fin n) (change : Thread n → Thread n) : Sched n :=
  { s with threads := Function.update s.threads t (change (s.threads t)) }

def setState (s : Sched n) (t : Fin n) (state : ProcessState) : Sched n :=
  s.setThread t fun thread => { thread with state }

def setNext (s : Sched n) (t : Fin n) (next : Option (Fin n)) : Sched n :=
  s.setThread t fun thread => { thread with next }

def setQueue (s : Sched n) (band : Band) (queue : RunQueue n) : Sched n :=
  { s with queues := Function.update s.queues band queue }

def next (s : Sched n) (t : Fin n) : Option (Fin n) := (s.threads t).next

def stateOf (s : Sched n) (t : Fin n) : ProcessState := (s.threads t).state

def priorityOf (s : Sched n) (t : Fin n) : Nat := (s.threads t).priority

/-- The threads on the queue of a band, in order. -/
def queued (s : Sched n) (band : Band) : List (Fin n) := Chain.walk s.next n (s.queues band).head

/-- `queue_contains`. A queue links each thread at most once, so its walk ends
within `n` threads. -/
def queueContains (s : Sched n) (queue : RunQueue n) (target : Fin n) : Bool :=
  Chain.visits s.next target n queue.head

/-- The totals after one thread left a queue. -/
def leave (s : Sched n) (band : Band) (queue : RunQueue n) : Sched n :=
  let s := s.setQueue band { queue with count := dec32 queue.count }
  let totalReady := dec32 s.totalReady
  { s with totalReady, state := if totalReady = 0 then .idle else s.state }

def unlink (s : Sched n) (band : Band) (target : Fin n) (prev : Option (Fin n)) : Sched n :=
  let queue := s.queues band
  let after := s.next target
  let queue := { queue with head := if prev = none then after else queue.head }
  let s := match prev with
    | none => s
    | some p => s.setNext p after
  let queue := { queue with tail := if queue.tail = some target then prev else queue.tail }
  (s.setNext target none).leave band queue

def queueRemoveFrom (s : Sched n) (target : Fin n) : List Band → Bool × Sched n
  | [] => (false, s)
  | band :: rest =>
    match Chain.before s.next target n none (s.queues band).head with
    | some prev => (true, s.unlink band target prev)
    | none => s.queueRemoveFrom target rest

def queueRemove (s : Sched n) (target : Fin n) : Bool × Sched n :=
  s.queueRemoveFrom target (List.finRange schedPrioMax)

/-- The tail of `sched_enqueue`: link a thread behind the last one of a band. -/
def linkLast (s : Sched n) (band : Band) (t : Fin n) : Sched n :=
  let queue := s.queues band
  let s := s.setNext t none
  let s := match queue.tail with
    | none => s.setQueue band { head := some t, tail := some t, count := inc32 queue.count }
    | some last =>
      (s.setNext last (some t)).setQueue band
        { queue with tail := some t, count := inc32 queue.count }
  { s with totalReady := inc32 s.totalReady, state := .running }

end Sched

variable {n : Nat}

def schedInit (threads : Fin n → Thread n) : Sched n where
  threads := threads
  queues _ := { head := none, tail := none, count := 0 }
  totalReady := 0
  state := .idle
  preemptRequested := false
  current := none

def schedEnqueue (s : Sched n) : Option (Fin n) → Bool × Sched n
  | none => (false, s)
  | some t =>
    if s.stateOf t ≠ .ready then (false, s)
    else if inRange : s.priorityOf t < schedPrioMax then
      if schedMaxThreads ≤ s.totalReady then (false, s)
      else
        let band : Band := ⟨s.priorityOf t, inRange⟩
        if s.queueContains (s.queues band) t then (false, s) else (true, s.linkLast band t)
    else (false, s)

def schedDequeueFrom (s : Sched n) : List Band → Option (Fin n) × Sched n
  | [] => (none, s)
  | band :: rest =>
    match (s.queues band).head with
    | none => schedDequeueFrom s rest
    | some t =>
      let queue := s.queues band
      let head := s.next t
      let tail := if head = none then none else queue.tail
      (some t, (s.setNext t none).leave band { queue with head, tail })

def schedDequeue (s : Sched n) : Option (Fin n) × Sched n :=
  schedDequeueFrom s (List.finRange schedPrioMax)

def Thread.preempted (thread : Thread n) : Thread n :=
  { thread with state := .ready, ticksRemaining := schedDefaultQuantum }

def Thread.ticked (thread : Thread n) : Thread n :=
  { thread with totalTicks := (thread.totalTicks + 1) % 2 ^ 64,
                ticksRemaining := thread.ticksRemaining - 1 }

def Thread.withQuantum (thread : Thread n) : Thread n :=
  { thread with ticksRemaining :=
      if thread.ticksRemaining = 0 then schedDefaultQuantum else thread.ticksRemaining }

/-- A running thread becomes ready with a fresh quantum. -/
def Sched.requeue (s : Sched n) (t : Fin n) : Sched n :=
  { s.setThread t Thread.preempted with preemptRequested := false }

def schedYield (s : Sched n) : Option (Fin n) → Bool × Sched n
  | none => (false, s)
  | some current =>
    if s.stateOf current ≠ .running then (false, s)
    else schedEnqueue (s.requeue current) (some current)

def schedTick (s : Sched n) : Option (Fin n) → Sched n
  | none => s
  | some current =>
    let s := s.setThread current Thread.ticked
    if (s.threads current).ticksRemaining = 0 then
      { s with preemptRequested := true, state := .preempt }
    else s

/-- `sched_next` after the preempted thread is back on its queue: `current` is
null then. -/
def schedNextFrom (s : Sched n) (current : Option (Fin n)) : Option (Fin n) × Sched n :=
  match schedDequeue s with
  | (none, s) =>
    if current.any fun t => s.stateOf t = .running then (current, s)
    else (none, { s with state := .idle })
  | (some t, s) =>
    (some t, s.setThread t Thread.withQuantum)

def schedNext (s : Sched n) (current : Option (Fin n)) : Option (Fin n) × Sched n :=
  match current with
  | some t =>
    if s.preemptRequested ∧ s.stateOf t = .running then
      schedNextFrom (schedEnqueue (s.requeue t) (some t)).2 none
    else schedNextFrom s (some t)
  | none => schedNextFrom s none

def schedBlock (s : Sched n) : Option (Fin n) → Bool × Sched n
  | none => (false, s)
  | some t =>
    match s.stateOf t with
    | .blocked => (true, s)
    | .ready =>
      match s.queueRemove t with
      | (false, s) => (false, s)
      | (true, s) => (true, s.setState t .blocked)
    | .running => (true, s.setState t .blocked)
    | .init | .zombie => (false, s)

def schedUnblock (s : Sched n) : Option (Fin n) → Bool × Sched n
  | none => (false, s)
  | some t =>
    if s.stateOf t ≠ .blocked then (false, s)
    else schedEnqueue (s.setState t .ready) (some t)

def schedSetCurrent (s : Sched n) (t : Option (Fin n)) : Sched n := { s with current := t }

/-- `sched_context_switch` up to the point where `next` runs; the register
switch itself changes no scheduler data. -/
def schedContextSwitch (s : Sched n) (prev next : Option (Fin n)) : Sched n :=
  match prev, next with
  | some _, some next => schedSetCurrent (s.setState next .running) (some next)
  | _, _ => s

end Zapada.Kernel
