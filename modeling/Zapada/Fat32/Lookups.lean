import Zapada.Fat32.DirectoryCalls
import Zapada.Foundation.Fallible
import Zapada.Foundation.InternedLookups

namespace Zapada.Fat32

open Foundation Storage

namespace DirectoryWalk

variable {σ ρ τ : Type} {walk : DirectoryWalk σ ρ}

/-- What holds of a state that goes on, and of a result that ends the walk. -/
def Yields (going : σ → Prop) (ended : ρ → Prop) : Except ρ σ → Prop
  | .ok state => going state
  | .error result => ended result

theorem foldlM_yields {α : Type} {step : σ → α → Except ρ σ} {going : σ → Prop} {ended : ρ → Prop}
    (steps : ∀ state item, going state → Yields going ended (step state item)) (items : List α)
    {state : σ} (start : going state) : Yields going ended (items.foldlM step state) := by
  induction items generalizing state with
  | nil => exact start
  | cons item rest ih =>
    rw [List.foldlM_cons]
    have first := steps state item start
    cases stepped : step state item with
    | error early =>
      rw [stepped] at first
      exact first
    | ok next =>
      rw [stepped] at first
      exact ih first

theorem overChain_yields {ended : ρ → Prop}
    (visits : ∀ state secBuf entOff, going state →
      Yields going ended (walk.visit state secBuf entOff))
    (fails : ∀ state, going state → ended (walk.failed state)) (volume : Fat32Volume) (depth : Nat)
    (cluster : Int) (start : going state) :
    Yields going ended (walk.overChain volume depth cluster state) := by
  have visited :=
    foldlM_yields (fun state (item : Item) here => visits state item.secBuf item.entOff here)
    (chainItems volume depth cluster).1 start
  rw [overChain_items]
  change Yields going ended ((chainItems volume depth cluster).1.foldlM walk.visitItem
    state) at visited
  cases walked : (chainItems volume depth cluster).1.foldlM walk.visitItem state with
  | error early =>
    rw [walked] at visited
    exact visited
  | ok next =>
    rw [walked] at visited
    rw [finish]
    split
    · exact visited
    · exact fails next visited

/-- Two walks that differ in how they report an end take the same way. -/
theorem overChain_mapError {other : DirectoryWalk σ τ} (visits : ∀ state secBuf entOff,
      other.visit state secBuf entOff = (walk.visit state secBuf entOff).mapError f)
    (fails : ∀ state, other.failed state = f (walk.failed state)) (volume : Fat32Volume)
    (depth : Nat) (cluster : Int) (state : σ) : other.overChain volume depth cluster state =
      (walk.overChain volume depth cluster state).mapError f := by
  have visited := foldlM_mapError (fun state (item : Item) => visits state item.secBuf item.entOff)
    (chainItems volume depth cluster).1 state
  rw [overChain_items, overChain_items]
  change (chainItems volume depth cluster).1.foldlM other.visitItem state =
    ((chainItems volume depth cluster).1.foldlM walk.visitItem state).mapError f at visited
  rw [visited]
  cases (chainItems volume depth cluster).1.foldlM walk.visitItem state with
  | error result => rfl
  | ok next =>
    simp only [Except.mapError, finish, fails]
    split <;> rfl

theorem overChain_sameDisk (walk : DirectoryWalk σ ρ)
    (same : SameDisk volume other) (depth : Nat) (cluster : Int) (state : σ) :
    walk.overChain other depth cluster state = walk.overChain volume depth cluster state := by
  rw [overChain_items, overChain_items, chainItems_sameDisk same]

end DirectoryWalk

/-- A result with a status has a negative one. -/
def Declines (result : Except Int NodeEntry) : Prop := ∀ rc, result = .error rc → rc < 0

theorem findWalk_declines (component : Name) (requireDirectory : Bool) (volume : Fat32Volume)
    (depth : Nat) (cluster : Int) : DirectoryWalk.Yields (fun _ => True) Declines
      ((findWalk component requireDirectory).overChain volume depth cluster ()) := by
  refine DirectoryWalk.overChain_yields (fun _ secBuf entOff _ => ?_) (fun _ _ => ?_) volume depth
    cluster trivial
  · simp only [findWalk]
    repeat' split
    all_goals first
      | trivial
      | rintro rc ⟨⟩ <;> decide
  · rintro rc ⟨⟩
    decide

theorem findEntryInDirectory_error
    (failed : findEntryInDirectory volume cluster component requireDirectory = .error rc) :
    rc < 0 := by
  have declines := findWalk_declines component requireDirectory volume maxClusterChain cluster
  unfold findEntryInDirectory at failed
  split at failed
  · cases failed
    decide
  · rename_i ended
    rw [ended] at declines
    exact declines rc failed

theorem findEntryInDirectory_sameDisk (same : SameDisk volume other) :
    findEntryInDirectory other = findEntryInDirectory volume := by
  funext cluster component requireDirectory
  rw [findEntryInDirectory, DirectoryWalk.overChain_sameDisk _ same, findEntryInDirectory]

/-- What becomes of a lookup's result when a directory is required. -/
def demandDirectory : Except Int NodeEntry → Except Int NodeEntry
  | .ok entry => if entry.kind = 2 then .ok entry else .error StorageStatus.notDirectory
  | .error rc => .error rc

theorem findEntryInDirectory_true (volume : Fat32Volume) (cluster : Int) (component : Name) :
    findEntryInDirectory volume cluster component true =
      demandDirectory (findEntryInDirectory volume cluster component false) := by
  have visits : ∀ state secBuf entOff, (findWalk component true).visit state secBuf entOff =
      ((findWalk component false).visit state secBuf entOff).mapError demandDirectory := by
    intro state secBuf entOff
    have kind : (scanEntry secBuf entOff).kind =
        if BufHelper.getByte secBuf (entOff + 11) &&& attrDirectory ≠ 0 then 2 else 1 := rfl
    -- the two visits make the same tests
    simp only [findWalk, Bool.false_eq_true, false_and, if_false, true_and,
      apply_ite (Except.mapError demandDirectory)]
    simp only [Except.mapError, demandDirectory, kind]
    by_cases file : BufHelper.getByte secBuf (entOff + 11) &&& attrDirectory = 0#32 <;> simp [file]
  rw [findEntryInDirectory, findEntryInDirectory,
    DirectoryWalk.overChain_mapError visits (fun _ => rfl)]
  cases (findWalk component false).overChain volume maxClusterChain cluster () <;> rfl

/-- The entries a path leads over, and the status of the lookup that ends it early. -/
def trail (volume : Fat32Volume) : (cluster : Int) → List Name → List NodeEntry × Option Int
  | _, [] => ([], none)
  | cluster, component :: rest =>
    match findEntryInDirectory volume cluster component (rest ≠ []) with
    | .error rc => ([], some rc)
    | .ok entry =>
      let (entries, stop) := trail volume entry.firstCluster rest
      (entry :: entries, stop)

/-- What `Resolve` returns when its entries were interned. -/
def resolution (handle : Int) (entries : List NodeEntry) (stop : Option Int)
    (done : List (Fin maxNodes × NodeEntry)) : Int :=
  if done.length < entries.length then StorageStatus.tableFull
  else
    match stop, done.getLast? with
    | some rc, _ => rc
    | none, some (i, _) => i.val
    | none, none => handle

theorem resolution_eq_outcome : resolution handle entries stop done =
    Slots.outcome StorageStatus.tableFull (fun i => (i.val : Int)) handle entries stop done := by
  unfold resolution Slots.outcome
  cases stop with
  | some rc => rfl
  | none => cases done.getLast? <;> rfl

theorem resolution_cons (handle : Int) (entry : NodeEntry) (entries : List NodeEntry)
    (stop : Option Int) (i : Fin maxNodes) (done : List (Fin maxNodes × NodeEntry)) :
    resolution handle (entry :: entries) stop ((i, entry) :: done) =
      resolution i.val entries stop done := by
  simp only [resolution_eq_outcome, Slots.outcome_cons]

theorem resolveFrom_eq (volume : Fat32Volume) (components : List Name) {mount : Fat32Mount}
    (rooted : mount.Rooted) (handle cluster : Int) :
    ∃ final : Fat32Mount, mount.resolveFrom volume handle cluster components =
        (resolution handle (trail volume cluster components).1 (trail volume cluster components).2
          (mount.slots.internEach id (trail volume cluster components).1).1, final) ∧
      final.slots = (mount.slots.internEach id (trail volume cluster components).1).2 ∧
      SameDisk mount.volume final.volume := by
  induction components generalizing mount handle cluster with
  | nil => exact ⟨mount, rfl, rfl, SameDisk.refl _⟩
  | cons component rest ih =>
    simp only [Fat32Mount.resolveFrom, trail]
    cases findEntryInDirectory volume cluster component (rest ≠ []) with
    | error rc => exact ⟨mount, rfl, rfl, SameDisk.refl _⟩
    | ok entry =>
      rcases Fat32Mount.cacheNode_eq rooted entry with
        ⟨full, result⟩ | ⟨i, cached, interned, result, disk⟩
      · have negative : StorageStatus.tableFull < 0 := by decide
        refine ⟨mount, ?_, ?_, SameDisk.refl _⟩
        · simp only [result, if_pos negative, Slots.internEach, full]
          simp [resolution]
        · simp [Slots.internEach, full]
      · have nonneg : ¬ (i.val : Int) < 0 := by omega
        obtain ⟨final, resolved, slots, later⟩ :=
          ih (rooted.keep disk (Slots.intern_retains id interned)) i.val entry.firstCluster
        refine ⟨final, ?_, ?_, disk.trans later⟩
        · simp only [result, if_neg nonneg, resolved, Slots.internEach, interned]
          rw [resolution_cons]
        · simp [slots, Slots.internEach, interned]

theorem trail_stop_negative (volume : Fat32Volume) (cluster : Int) (components : List Name) :
    ∀ rc ∈ (trail volume cluster components).2, rc < 0 := by
  induction components generalizing cluster with
  | nil => simp [trail]
  | cons component rest ih =>
    simp only [trail]
    cases found : findEntryInDirectory volume cluster component (rest ≠ []) with
    | error rc =>
      rintro _ ⟨⟩
      exact findEntryInDirectory_error found
    | ok entry => exact ih entry.firstCluster

namespace Fat32Mount

open Slots StorageStatus

variable {mount : Fat32Mount}

def lastEntry (mount : Fat32Mount) (entries : List NodeEntry) : Option NodeEntry :=
  (entries.getLast?.map some).getD (mount.slots rootNode)

section

variable (rooted : mount.Rooted)
  (found : trail mount.volume mount.volume.rootCluster (Fs.components path) = (entries, none))

include rooted found

theorem resolve_fits (fits : mount.slots.Fits id entries) :
    ∃ (node : Fin maxNodes) (after : Fat32Mount) (entry : NodeEntry),
      mount.resolve (some path) = ((node.val : Int), after) ∧
      after.slots = (mount.slots.internEach id entries).2 ∧ SameDisk mount.volume after.volume ∧
      after.slots node = some entry ∧ mount.lastEntry entries = some entry := by
  obtain ⟨final, result, slots, disk⟩ := resolveFrom_eq mount.volume (Fs.components path) rooted 0
    mount.volume.rootCluster
  rw [found] at result slots
  rw [resolve, result]
  rcases outcome_fits id fits tableFull (fun i => (i.val : Int)) 0 with ⟨rfl, -⟩ | ⟨last, i, isLast,
    done, handle⟩
  · obtain ⟨name, root⟩ := rooted.root
    refine ⟨rootNode, final, _, rfl, slots, disk, ?_, root⟩
    rw [slots]
    exact root
  · obtain ⟨held, stored, same⟩ := internEach_held id done
    refine ⟨i, final, last, by rw [resolution_eq_outcome, handle], slots, disk, ?_,
      by simp [lastEntry, isLast]⟩
    rw [slots, stored, show held = last from same]

theorem resolve_full (full : ¬ mount.slots.Fits id entries) :
    ∃ after, mount.resolve (some path) = (tableFull, after) := by
  obtain ⟨final, result, slots, disk⟩ := resolveFrom_eq mount.volume (Fs.components path) rooted 0
    mount.volume.rootCluster
  rw [found] at result
  exact ⟨final, by rw [resolve, result, resolution_eq_outcome, outcome_full id full]⟩

end

/-- The trail of a path that was resolved: it fits the node table, and its last entry is the
node that was returned. -/
theorem resolved_trail {after : Fat32Mount} (rooted : mount.Rooted)
    (resolved : mount.resolve (some path) = ((node.val : Int), after)) :
    ∃ entries, trail mount.volume mount.volume.rootCluster (Fs.components path) = (entries, none) ∧
      mount.slots.Fits id entries ∧ after.slots = (mount.slots.internEach id entries).2 ∧
      after.slots node = mount.lastEntry entries := by
  have negative : tableFull < 0 := by decide
  obtain ⟨final, result, -⟩ :=
    resolveFrom_eq mount.volume (Fs.components path) rooted 0 mount.volume.rootCluster
  have stops := trail_stop_negative mount.volume mount.volume.rootCluster (Fs.components path)
  cases found : trail mount.volume mount.volume.rootCluster (Fs.components path) with
  | mk entries stop =>
    rw [found] at result stops
    cases stop with
    | some rc =>
      have low := stops rc rfl
      rw [resolve, result] at resolved
      obtain ⟨status, -⟩ := Prod.mk.inj resolved
      unfold resolution at status
      split at status
      · omega
      · simp only at status
        omega
    | none =>
      by_cases fits : mount.slots.Fits id entries
      · obtain ⟨i, final, entry, again, slots, -, held, isLast⟩ := resolve_fits rooted found fits
        rw [resolved] at again
        obtain ⟨same, rfl⟩ := Prod.mk.inj again
        obtain rfl : node = i := Fin.ext (by omega)
        exact ⟨entries, rfl, fits, slots, held.trans isLast.symm⟩
      · obtain ⟨final, full⟩ := resolve_full rooted found fits
        rw [resolved] at full
        obtain ⟨status, -⟩ := Prod.mk.inj full
        omega

end Fat32Mount

theorem trail_sameDisk (same : SameDisk volume other) (cluster : Int) (components : List Name) :
    trail other cluster components = trail volume cluster components := by
  induction components generalizing cluster with
  | nil => rfl
  | cons component rest ih => simp [trail, findEntryInDirectory_sameDisk same, ih]

def trailEnd (cluster : Int) (entries : List NodeEntry) : Int :=
  (entries.getLast?.map NodeEntry.firstCluster).getD cluster

theorem trailEnd_cons (cluster : Int) (entry : NodeEntry) (entries : List NodeEntry) :
    trailEnd cluster (entry :: entries) = trailEnd entry.firstCluster entries := by
  rw [trailEnd, trailEnd, List.getLast?_cons]
  cases entries.getLast? <;> rfl

/-- A trail and what one more lookup found. -/
def extendTrail (entries : List NodeEntry) : Except Int NodeEntry → List NodeEntry × Option Int
  | .error rc => (entries, some rc)
  | .ok entry => (entries ++ [entry], none)

theorem trail_append (found : trail volume cluster components = (entries, none))
    (directory : ∀ last ∈ entries.getLast?, last.kind = 2) (name : Name) :
    trail volume cluster (components ++ [name]) =
      extendTrail entries (findEntryInDirectory volume (trailEnd cluster entries) name false) := by
  induction components generalizing cluster entries with
  | nil =>
    cases found
    cases findEntryInDirectory volume cluster name false <;> rfl
  | cons component rest ih =>
    simp only [trail] at found
    cases first : findEntryInDirectory volume cluster component (rest ≠ []) with
    | error rc =>
      rw [first] at found
      cases found
    | ok entry =>
      rw [first] at found
      obtain ⟨rfl, stop⟩ := Prod.mk.inj found
      have again : findEntryInDirectory volume cluster component true = .ok entry := by
        cases rest with
        | nil =>
          have plain : findEntryInDirectory volume cluster component false = .ok entry := by
            simpa using first
          have kind : entry.kind = 2 := directory entry (by simp [trail])
          rw [findEntryInDirectory_true, plain, demandDirectory, if_pos kind]
        | cons next rest => simpa using first
      have more : decide (rest ++ [name] ≠ []) = true := by simp
      have rest_found : trail volume entry.firstCluster rest =
          ((trail volume entry.firstCluster rest).1, none) := Prod.ext rfl stop
      have rest_directory : ∀ last ∈ (trail volume entry.firstCluster rest).1.getLast?,
        last.kind = 2 := by
        intro last isLast
        refine directory last ?_
        rw [List.getLast?_cons, isLast]
        rfl
      simp only [List.cons_append, trail, more, again, ih rest_found rest_directory, trailEnd_cons]
      cases findEntryInDirectory volume
        (trailEnd entry.firstCluster (trail volume entry.firstCluster rest).1) name false with
      | error rc => rfl
      | ok last => rfl

end Zapada.Fat32
