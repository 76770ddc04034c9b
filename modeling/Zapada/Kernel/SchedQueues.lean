import Mathlib.Algebra.Order.BigOperators.Group.Finset
import Zapada.Kernel.Sched

namespace Zapada.Kernel

open Foundation Function Sched Thread Finset

variable {n : Nat}

section Fields

theorem Sched.field_setThread (field : Thread n → β) (s : Sched n) (t : Fin n)
    (change : Thread n → Thread n) : (fun u => field ((s.setThread t change).threads u)) =
      update (fun u => field (s.threads u)) t (field (change (s.threads t))) :=
  Function.comp_update field s.threads t (change (s.threads t))

theorem Sched.field_setThread_same (field : Thread n → β) (s : Sched n) (t : Fin n)
    (change : Thread n → Thread n) (kept : ∀ thread, field (change thread) = field thread) :
    (fun u => field ((s.setThread t change).threads u)) = fun u => field (s.threads u) := by
  rw [field_setThread, kept]
  exact update_eq_self t _

variable (s : Sched n) (t : Fin n) (link : Option (Fin n)) (state : ProcessState)

@[simp] theorem Sched.next_setNext : (s.setNext t link).next = update s.next t link :=
  field_setThread Thread.next s t _

@[simp] theorem Sched.stateOf_setNext : (s.setNext t link).stateOf = s.stateOf :=
  field_setThread_same Thread.state s t _ fun _ => rfl

@[simp] theorem Sched.priorityOf_setNext : (s.setNext t link).priorityOf = s.priorityOf :=
  field_setThread_same priority s t _ fun _ => rfl

@[simp] theorem Sched.next_setState : (s.setState t state).next = s.next :=
  field_setThread_same Thread.next s t _ fun _ => rfl

@[simp] theorem Sched.stateOf_setState : (s.setState t state).stateOf = update s.stateOf t state :=
  field_setThread Thread.state s t _

@[simp] theorem Sched.priorityOf_setState : (s.setState t state).priorityOf = s.priorityOf :=
  field_setThread_same priority s t _ fun _ => rfl

section

variable (band : Band) (queue : RunQueue n)

@[simp] theorem Sched.next_leave : (s.leave band queue).next = s.next := rfl

@[simp] theorem Sched.queues_leave : (s.leave band queue).queues =
      update s.queues band { queue with count := dec32 queue.count } := rfl

@[simp] theorem Sched.stateOf_leave : (s.leave band queue).stateOf = s.stateOf := rfl

@[simp] theorem Sched.priorityOf_leave : (s.leave band queue).priorityOf = s.priorityOf := rfl

@[simp] theorem Sched.totalReady_leave : (s.leave band queue).totalReady = dec32 s.totalReady := rfl

end

@[simp] theorem Sched.next_requeue : (s.requeue t).next = s.next :=
  field_setThread_same Thread.next s t Thread.preempted fun _ => rfl

@[simp] theorem Sched.stateOf_requeue : (s.requeue t).stateOf = update s.stateOf t .ready :=
  field_setThread Thread.state s t Thread.preempted

@[simp] theorem Sched.priorityOf_requeue : (s.requeue t).priorityOf = s.priorityOf :=
  field_setThread_same priority s t preempted fun _ => rfl

end Fields

/-- The state and priority of every thread and the current thread are the same. -/
structure SameThreads (s s' : Sched n) : Prop where
  state : s'.stateOf = s.stateOf
  priority : s'.priorityOf = s.priorityOf
  current : s'.current = s.current

/-- The run queues hold exactly these lists of threads, each thread in the band
of its priority. -/
structure Queues (s : Sched n) (lists : Band → List (Fin n)) : Prop where
  chain : ∀ band, Chain s.next (s.queues band).head (lists band)
  tail : ∀ band, (s.queues band).tail = (lists band).getLast?
  nodup : ∀ band, (lists band).Nodup
  priority : ∀ band t, t ∈ lists band → s.priorityOf t = band
  count : ∀ band, (s.queues band).count = (lists band).length
  total : s.totalReady = ∑ band, (lists band).length
  bound : s.totalReady ≤ schedMaxThreads

namespace Queues

variable {s : Sched n} {lists : Band → List (Fin n)}

section

variable (queues : Queues s lists)

include queues

theorem length_le (band : Band) : (lists band).length ≤ n := by
  simpa using (queues.nodup band).length_le_card

theorem queued_eq (band : Band) : s.queued band = lists band :=
  (queues.chain band).walk_eq (queues.length_le band)

theorem contains_iff (band : Band) (t : Fin n) :
    s.queueContains (s.queues band) t = true ↔ t ∈ lists band :=
  (queues.chain band).visits_iff (queues.length_le band)

theorem unique (here : t ∈ lists band) (there : t ∈ lists band') :
    band = band' := by
  have same := (queues.priority band t here).symm.trans (queues.priority band' t there)
  exact Fin.ext same

theorem length_le_total (band : Band) :
    (lists band).length ≤ s.totalReady := by
  rw [queues.total]
  exact single_le_sum (f := fun band => (lists band).length) (fun _ _ => Nat.zero_le _)
    (mem_univ band)

end

theorem sum_update (lists : Band → List (Fin n)) (band : Band) (list : List (Fin n)) :
    (∑ b, (update lists band list b).length) + (lists band).length =
      (∑ b, (lists b).length) + list.length := by
  have outside : ∑ b ∈ univ.erase band, (update lists band list b).length =
      ∑ b ∈ univ.erase band, (lists b).length := by
    refine sum_congr rfl fun b member => ?_
    rw [update_of_ne (ne_of_mem_erase member)]
  have changed := add_sum_erase univ
    (fun b => (update lists band list b).length) (mem_univ band)
  have before := add_sum_erase univ (fun b => (lists b).length) (mem_univ band)
  simp only [update_self] at changed
  omega

theorem congr (queues : Queues s lists) (links : s'.next = s.next) (same : s'.queues = s.queues)
    (priority : ∀ t, (∃ band, t ∈ lists band) → s'.priorityOf t = s.priorityOf t)
    (total : s'.totalReady = s.totalReady) : Queues s' lists where
  chain band := by rw [links, same]; exact queues.chain band
  tail band := by rw [same]; exact queues.tail band
  nodup := queues.nodup
  priority band t member := by rw [priority t ⟨band, member⟩]; exact queues.priority band t member
  count band := by rw [same]; exact queues.count band
  total := by rw [total]; exact queues.total
  bound := by rw [total]; exact queues.bound

end Queues

section Operations

variable {s : Sched n} {lists : Band → List (Fin n)}

theorem dec32_pos (positive : 0 < value) (small : value < 2 ^ 32) : dec32 value = value - 1 := by
  unfold dec32
  omega

theorem inc32_small (small : value + 1 < 2 ^ 32) : inc32 value = value + 1 :=
  Nat.mod_eq_of_lt small

theorem Queues.edit (queues : Queues s lists)
    (changed : s'.queues = update s.queues band queue) (chain : Chain s'.next queue.head list)
    (others : ∀ other ≠ band, Chain s'.next (s.queues other).head (lists other))
    (last : queue.tail = list.getLast?) (nodup : list.Nodup)
    (priority : ∀ t ∈ list, s.priorityOf t = band) (same : s'.priorityOf = s.priorityOf)
    (count : queue.count = list.length)
    (total : s'.totalReady + (lists band).length = s.totalReady + list.length)
    (bound : s'.totalReady ≤ schedMaxThreads) : Queues s' (update lists band list) := by
  have sum := Queues.sum_update lists band list
  have totals := queues.total
  have each : ∀ other, Chain s'.next (s'.queues other).head (update lists band list other) ∧
      (s'.queues other).tail = (update lists band list other).getLast? ∧
      (update lists band list other).Nodup ∧
      (∀ t ∈ update lists band list other, s'.priorityOf t = other) ∧
      (s'.queues other).count = (update lists band list other).length := by
    intro other
    rw [changed, same]
    by_cases here : other = band
    · subst here
      simp only [update_self]
      exact ⟨chain, last, nodup, priority, count⟩
    · simp only [update_of_ne here]
      exact ⟨others other here, queues.tail other, queues.nodup other, queues.priority other,
        queues.count other⟩
  exact ⟨fun b => (each b).1, fun b => (each b).2.1, fun b => (each b).2.2.1,
    fun b => (each b).2.2.2.1, fun b => (each b).2.2.2.2, by omega, bound⟩

/-- One band gets a list that has one thread less. -/
theorem Queues.leave {s' : Sched n}
    (queues : Queues s lists) (chain : Chain s'.next queue.head list)
    (others : ∀ other ≠ band, Chain s'.next (s.queues other).head (lists other))
    (kept : s'.queues = s.queues) (last : queue.tail = list.getLast?)
    (nodup : list.Nodup) (members : ∀ t ∈ list, t ∈ lists band)
    (priority : s'.priorityOf = s.priorityOf) (count : queue.count = (s.queues band).count)
    (shorter : list.length + 1 = (lists band).length) (total : s'.totalReady = s.totalReady) :
    Queues (s'.leave band queue) (update lists band list) := by
  have below := queues.length_le_total band
  have bound := queues.bound
  have small : schedMaxThreads < 2 ^ 32 := by decide
  have counted := queues.count band
  have fewer : (s'.leave band queue).totalReady = s.totalReady - 1 := by
    rw [totalReady_leave, total, dec32_pos (by omega) (by omega)]
  have changed :
      (s'.leave band queue).queues = update s.queues band
        { queue with count := dec32 queue.count } := by
    rw [queues_leave, kept]
  refine queues.edit changed chain others last nodup
    (fun t member => queues.priority band t (members t member)) priority ?_ (by omega) (by omega)
  refine (dec32_pos ?_ ?_).trans ?_ <;> omega

theorem Queues.pop (queues : Queues s lists) (found : lists band = t :: rest) :
    Queues ((s.setNext t none).leave band
        { s.queues band with head := s.next t, tail := if s.next t = none then none else (s.queues band).tail })
      (update lists band rest) := by
  have nodup := queues.nodup band
  rw [found, List.nodup_cons] at nodup
  have chain := queues.chain band
  rw [found] at chain
  obtain ⟨head, tail⟩ := Chain.cons_iff.mp chain
  refine queues.leave ?_ ?_ rfl ?_ nodup.2 ?_ (by simp) rfl ?_ rfl
  · rw [next_setNext]
    exact (head ▸ chain).pop nodup.1
  · intro other different
    rw [next_setNext]
    refine (queues.chain other).congr fun u member => (update_of_ne ?_ _ _).symm
    rintro rfl
    exact different (queues.unique member (by rw [found]; exact List.mem_cons_self ..))
  · have last := queues.tail band
    rw [found] at last
    cases rest with
    | nil =>
      rw [Chain.nil_iff.mp tail]
      rfl
    | cons u rest =>
      obtain ⟨following, -⟩ := Chain.cons_iff.mp tail
      rw [following, last, List.getLast?_cons_cons]
      simp
  · intro u member
    rw [found]
    exact List.mem_cons_of_mem _ member
  · rw [found, List.length_cons]

theorem getLast?_remove {first rest : List (Fin n)} (nodup : (first ++ t :: rest).Nodup) :
    (if (first ++ t :: rest).getLast? = some t then first.getLast?
      else (first ++ t :: rest).getLast?) = (first ++ rest).getLast? := by
  cases rest with
  | nil => simp
  | cons u rest =>
    have last : (first ++ t :: u :: rest).getLast? = (u :: rest).getLast? := by
      rw [List.getLast?_append_of_ne_nil _ (by simp), List.getLast?_cons_cons]
    have fresh : t ∉ u :: rest := (List.nodup_cons.mp (List.nodup_append.mp nodup).2.1).1
    have other : (u :: rest).getLast? ≠ some t := fun same => fresh (List.mem_of_getLast? same)
    rw [last, if_neg other, List.getLast?_append_of_ne_nil _ (by simp)]

theorem Queues.unlink (queues : Queues s lists) (first : List (Fin n))
    (found : lists band = first ++ t :: rest) :
    Queues (s.unlink band t first.getLast?) (update lists band (first ++ rest)) ∧
      SameThreads s (s.unlink band t first.getLast?) := by
  have nodup := queues.nodup band
  have chain := queues.chain band
  have last := queues.tail band
  rw [found] at nodup chain last
  have here : ∀ u ∈ first ++ t :: rest, u ∈ lists band := fun u member => found ▸ member
  have elsewhere : ∀ other, other ≠ band → ∀ u ∈ lists other, ∀ v ∈ first ++ t :: rest, u ≠ v := by
    rintro other different u member v inside rfl
    exact different (queues.unique member (here u inside))
  have part : (first ++ rest).Sublist (first ++ t :: rest) :=
    (List.sublist_cons_self t rest).append_left first
  have removed := nodup.sublist part
  have members : ∀ u ∈ first ++ rest, u ∈ lists band := fun u member => here u (part.subset member)
  have length : (first ++ rest).length + 1 = (lists band).length := by
    rw [found]
    simp only [List.length_append, List.length_cons]
    omega
  cases prev : first.getLast? with
  | none =>
    obtain rfl : first = [] := List.getLast?_eq_none_iff.mp prev
    obtain ⟨head, -⟩ := Chain.cons_iff.mp chain
    refine ⟨queues.leave ?_ ?_ rfl ?_ removed members (by simp) rfl length rfl,
      ⟨by simp [Sched.unlink], by simp [Sched.unlink], rfl⟩⟩
    · simp only [if_true, Sched.next_setNext, List.nil_append]
      exact (head ▸ chain).pop (List.nodup_cons.mp nodup).1
    · intro other different
      rw [Sched.next_setNext]
      exact (queues.chain other).congr fun u member =>
        (update_of_ne (elsewhere other different u member t (by simp)) _ _).symm
    · have whole : ([] ++ t :: rest).Nodup := nodup
      simpa [last] using getLast?_remove whole
  | some p =>
    have prevMember : p ∈ first := List.mem_of_getLast? prev
    refine ⟨queues.leave ?_ ?_ rfl ?_ removed members (by simp) rfl length rfl,
      ⟨by simp [Sched.unlink], by simp [Sched.unlink], rfl⟩⟩
    · simp only [Sched.next_setNext, reduceCtorEq, if_false]
      exact chain.unlink first prev nodup
    · intro other different
      rw [Sched.next_setNext, Sched.next_setNext]
      refine (queues.chain other).congr fun u member => ?_
      rw [update_of_ne (elsewhere other different u member t (by simp)),
        update_of_ne (elsewhere other different u member p (by simp [prevMember]))]
    · have shape := getLast?_remove nodup
      rw [prev] at shape
      simp only [last]
      exact shape

section LinkLast

variable (s : Sched n) (band : Band) (t : Fin n)

theorem sameThreads_linkLast : SameThreads s (s.linkLast band t) := by
  simp only [linkLast]
  cases (s.queues band).tail with
  | none => exact ⟨stateOf_setNext .., priorityOf_setNext .., rfl⟩
  | some tail =>
    refine ⟨?_, ?_, rfl⟩
    · exact (stateOf_setNext (s.setNext t none) tail _).trans (stateOf_setNext ..)
    · exact (priorityOf_setNext (s.setNext t none) tail _).trans (priorityOf_setNext ..)

theorem queues_linkLast : (s.linkLast band t).queues = update s.queues band
      { head := if (s.queues band).tail = none then some t else (s.queues band).head,
        tail := some t, count := inc32 (s.queues band).count } := by
  simp only [linkLast]
  cases (s.queues band).tail <;> rfl

theorem totalReady_linkLast : (s.linkLast band t).totalReady = inc32 s.totalReady := by
  simp only [linkLast]
  cases (s.queues band).tail <;> rfl

theorem next_linkLast : (s.linkLast band t).next = match (s.queues band).tail with
      | none => update s.next t none
      | some previous => update (update s.next t none) previous (some t) := by
  simp only [linkLast]
  cases (s.queues band).tail with
  | none => exact next_setNext s t none
  | some previous =>
    exact (next_setNext (s.setNext t none) previous _).trans (by rw [next_setNext])

end LinkLast

/-- Linking a thread that is on no queue behind the last one of its band. -/
theorem Queues.linkLast {band : Band} (queues : Queues s lists) (priority : s.priorityOf t = band)
    (room : s.totalReady < schedMaxThreads) (fresh : t ∉ lists band) :
    Queues (s.linkLast band t) (update lists band (lists band ++ [t])) := by
  have nowhere : ∀ other, t ∉ lists other := by
    intro other member
    have same : other = band := Fin.ext ((queues.priority other t member).symm.trans priority)
    exact fresh (same ▸ member)
  have below := queues.length_le_total band
  have counted := queues.count band
  have small : schedMaxThreads < 2 ^ 31 := by decide
  have last := queues.tail band
  have more : (s.linkLast band t).totalReady = s.totalReady + 1 := by
    rw [totalReady_linkLast, inc32_small (by omega)]
  refine queues.edit (queues_linkLast s band t) ?_ ?_ (by simp) ?_ ?_
    (sameThreads_linkLast s band t).priority ?_ (by simp; omega) (by omega)
  · rw [next_linkLast]
    cases tail : (s.queues band).tail with
    | none =>
      have empty : lists band = [] := List.getLast?_eq_none_iff.mp (last.symm.trans tail)
      rw [empty]
      exact Chain.single
    | some previous =>
      exact (queues.chain band).append (last.symm.trans tail) (nowhere band) (queues.nodup band)
  · intro other different
    rw [next_linkLast]
    refine (queues.chain other).congr fun u member => ?_
    have new := ne_of_mem_of_not_mem member (nowhere other)
    cases tail : (s.queues band).tail with
    | none => exact (update_of_ne new _ _).symm
    | some previous =>
      have ending := List.mem_of_getLast? (last.symm.trans tail)
      have notPrevious : u ≠ previous := by
        rintro rfl
        exact different (queues.unique member ending)
      exact ((update_of_ne notPrevious _ _).trans (update_of_ne new _ _)).symm
  · refine List.nodup_append.mpr ⟨queues.nodup band, List.nodup_singleton t, ?_⟩
    rintro u member v single rfl
    exact fresh (List.mem_singleton.mp single ▸ member)
  · intro u member
    rcases List.mem_append.mp member with member | last
    · exact queues.priority band u member
    · rw [List.mem_singleton.mp last, priority]
  · simp only [List.length_append, List.length_singleton]
    rw [inc32_small (by omega), counted]

end Operations

end Zapada.Kernel
