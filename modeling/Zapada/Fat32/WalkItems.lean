import Zapada.Fat32.DirectoryWalks

namespace Zapada.Fat32

open Foundation Storage

structure Item where
  secBuf : SectorBuffer
  entOff : Nat

def sectorItems (secBuf : SectorBuffer) : List Item :=
  (List.range dirEntriesPerSector).map fun ent => ⟨secBuf, ent * dirEntrySize⟩

/-- The entries in some sectors, and whether all of them could be read. -/
def lbaItems (partition : PartitionView) : List Int → List Item × Bool
  | [] => ([], true)
  | lba :: rest =>
    match readSector partition lba with
    | .error _ => ([], false)
    | .ok secBuf => (sectorItems secBuf ++ (lbaItems partition rest).1, (lbaItems partition rest).2)

def clusterItems (volume : Fat32Volume) (clusterLba : Int) : List Item × Bool :=
  lbaItems volume.partition ((List.range volume.spc).map fun (sec : Nat) =>
    int32 (clusterLba + sec))

def chainItems (volume : Fat32Volume) : (depth : Nat) → (cluster : Int) → List Item × Bool
  | 0, _ => ([], true)
  | depth + 1, cluster =>
    if isEoc cluster ∨ cluster < 2 then ([], true)
    else
      let here := clusterItems volume (volume.clusterToLba cluster)
      let next := volume.readFatEntry cluster
      if !here.2 ∨ next < 0 then (here.1, false)
      else if isEoc next then (here.1, true)
      else (here.1 ++ (chainItems volume depth next).1, (chainItems volume depth next).2)

namespace DirectoryWalk

variable {σ ρ : Type} (walk : DirectoryWalk σ ρ)

def visitItem (state : σ) (item : Item) : Except ρ σ := walk.visit state item.secBuf item.entOff

theorem finish_append (front back : List Item) (complete : Bool) (state : σ) :
    walk.finish complete ((front ++ back).foldlM walk.visitItem state) =
      front.foldlM walk.visitItem state >>= fun state =>
        walk.finish complete (back.foldlM walk.visitItem state) := by
  rw [List.foldlM_append]
  cases front.foldlM walk.visitItem state <;> rfl

theorem overSector_items (secBuf : SectorBuffer) (state : σ) :
    walk.overSector secBuf state = (sectorItems secBuf).foldlM walk.visitItem state := by
  rfl

theorem overLbas_items (partition : PartitionView) (lbas : List Int) (state : σ) :
    lbas.foldlM (fun state lba => walk.overLba partition lba state) state =
      walk.finish (lbaItems partition lbas).2
        ((lbaItems partition lbas).1.foldlM walk.visitItem state) := by
  induction lbas generalizing state with
  | nil => rfl
  | cons lba rest ih =>
    rw [List.foldlM_cons]
    simp only [overLba, lbaItems]
    cases readSector partition lba with
    | error rc => rfl
    | ok secBuf =>
      simp only [finish_append, overSector_items]
      congr 1
      funext state
      exact ih state

theorem overCluster_items (volume : Fat32Volume) (clusterLba : Int) (state : σ) :
    walk.overCluster volume clusterLba state = walk.finish (clusterItems volume clusterLba).2
        ((clusterItems volume clusterLba).1.foldlM walk.visitItem state) := by
  rw [clusterItems, ← overLbas_items, List.foldlM_map]
  rfl

theorem overChain_items (volume : Fat32Volume) (depth : Nat) (cluster : Int) (state : σ) :
    walk.overChain volume depth cluster state = walk.finish (chainItems volume depth cluster).2
        ((chainItems volume depth cluster).1.foldlM walk.visitItem state) := by
  induction depth generalizing cluster state with
  | zero => rfl
  | succ depth ih =>
    rw [overChain, chainItems]
    by_cases ended : isEoc cluster ∨ cluster < 2
    · rw [if_pos ended, if_pos ended]
      rfl
    · rw [if_neg ended, if_neg ended, overCluster_items]
      generalize clusterItems volume (volume.clusterToLba cluster) = here
      obtain ⟨items, complete⟩ := here
      cases complete with
      | false =>
        simp only [Bool.not_false, true_or, if_true]
        cases items.foldlM walk.visitItem state <;> rfl
      | true =>
        simp only [Bool.not_true, Bool.false_eq_true, false_or]
        by_cases unreadable : volume.readFatEntry cluster < 0
        · simp only [if_pos unreadable]
          cases items.foldlM walk.visitItem state <;> rfl
        · simp only [if_neg unreadable]
          by_cases last : isEoc (volume.readFatEntry cluster) = true
          · simp only [if_pos last]
            cases items.foldlM walk.visitItem state <;> rfl
          · simp only [if_neg last, finish_append, ih]
            cases items.foldlM walk.visitItem state <;> rfl

end DirectoryWalk

end Zapada.Fat32
