import Mathlib.Data.List.Nodup
import Zapada.Fs.Vfs

namespace Zapada.Fs

open List

/-- The characters before the first slash and the components behind it. -/
def splitPath (path : Path) : Path × List Path :=
  path.foldr (fun c (first, rest) =>
    if c = '/' then ([], if first = [] then rest else first :: rest) else (c :: first,
      rest)) ([], [])

/-- The names a path goes through; empty ones do not count. -/
def components (path : Path) : List Path :=
  let (first, rest) := splitPath path
  if first = [] then rest else first :: rest

theorem components_append (start : Path) (same : splitPath one = splitPath other) :
    components (start ++ one) = components (start ++ other) := by
  have split : splitPath (start ++ one) = splitPath (start ++ other) := by
    unfold splitPath at same ⊢
    rw [foldr_append, foldr_append, same]
  rw [components, components, split]

theorem splitPath_cons (c : Char) (path : Path) : splitPath (c :: path) =
      if c = '/' then ([], components path) else (c :: (splitPath path).1, (splitPath path).2) :=
  rfl

theorem splitPath_slash (start last : Path) :
    splitPath (start ++ '/' :: last) = ((splitPath start).1,
      (splitPath start).2 ++ components last) := by
  induction start with
  | nil => rfl
  | cons c start ih =>
    rw [cons_append, splitPath_cons, splitPath_cons, ih, components, ih, components.eq_def start]
    by_cases slash : c = '/'
    · by_cases empty : (splitPath start).1 = []
      · simp [slash, empty]
      · simp [slash, empty]
    · simp [slash]

theorem components_slash (start last : Path) :
    components (start ++ '/' :: last) = components start ++ components last := by
  rw [components, splitPath_slash, components.eq_def start]
  by_cases empty : (splitPath start).1 = []
  · simp [empty]
  · simp [empty]

theorem components_name {name : Path} (some_name : name ≠ []) (plain : ∀ c ∈ name, c ≠ '/') :
    components name = [name] := by
  have split : splitPath name = (name, []) := by
    clear some_name
    induction name with
    | nil => rfl
    | cons c name ih =>
      rw [splitPath_cons, if_neg (plain c (by simp)), ih fun c member => plain c (by simp [member])]
  simp [components, split, some_name]

/-- A position of a path that is not inside a component. -/
def AtBoundary (path : Path) (position : Nat) : Prop :=
  position = path.length ∨ path[position]? = some '/' ∨ path[position - 1]? = some '/'

/-- A mount path leads to a path: it is a prefix that ends at a component boundary. -/
def Covers (mountPath path : Path) : Prop :=
  mountPath <+: path ∧ AtBoundary path mountPath.length

/-- A mount path without a trailing slash, except for the root. -/
def PlainMount (mountPath : Path) : Prop :=
  mountPath = root ∨ mountPath.getLast? ≠ some '/'

theorem covers_root (absolute : path.head? = some '/') : Covers root path := by
  cases path with
  | nil => simp at absolute
  | cons first rest =>
    cases absolute
    exact ⟨⟨rest, rfl⟩, .inr (.inr rfl)⟩

theorem boundaryOkay_iff (plain : PlainMount mountPath) (nonempty : mountPath ≠ []) :
    mountPath.isPrefixOf path ∧ MountTable.boundaryOkay path mountPath ↔ Covers mountPath path := by
  rw [ isPrefixOf_iff_prefix, Covers]
  refine and_congr_right fun isPrefix => ?_
  obtain ⟨rest, rfl⟩ := isPrefix
  simp only [MountTable.boundaryOkay, AtBoundary, Bool.decide_or, Bool.or_eq_true,
    decide_eq_true_eq,
    drop_left, head?_eq_getElem?]
  have positive : 0 < mountPath.length := length_pos_iff.mpr nonempty
  have next : (mountPath ++ rest)[mountPath.length]? = rest[0]? := by
    rw [List.getElem?_append_right (Nat.le_refl _), Nat.sub_self]
  have last : (mountPath ++ rest)[mountPath.length - 1]? = mountPath.getLast? := by
    rw [List.getElem?_append_left (by omega), getLast?_eq_getElem?]
  rw [next, last]
  constructor
  · rintro (rfl | sameLength | slash)
    · exact .inr (.inr rfl)
    · exact .inl sameLength.symm
    · exact .inr (.inl slash)
  · rintro (sameLength | slash | trailing)
    · exact .inr (.inl sameLength.symm)
    · exact .inr (.inr slash)
    · exact .inl (plain.resolve_right (not_not_intro trailing))

namespace MountTable

variable {Volume : Type} {table : MountTable Volume} {path : Path}

/-- The table holds these mounts, in order; the root is the first. -/
structure Represents (table : MountTable Volume) (mounted : List (Path × Volume)) : Prop where
  count : table.count = mounted.length
  entry : ∀ (i : Nat) mount, mounted[i]? = some mount →
    table.getPath i = some mount.1 ∧ table.getVolume i = some mount.2
  rooted : ∃ volume, mounted[0]? = some (root, volume)
  absolute : ∀ mount ∈ mounted, mount.1.head? = some '/' ∧ PlainMount mount.1
  distinct : (mounted.map Prod.fst).Nodup

/-- The result of the loop in `Resolve` over the slots below a bound. -/
structure Best (table : MountTable Volume) (path : Path) (bound : Nat)
    (best : Int × Int) : Prop where
  longest : ∀ i < bound, ∀ mountPath ∈ table.getPath i, Covers mountPath path →
    (mountPath.length : Int) ≤ best.2
  found : best = (-1, -1) ∨ ∃ i < bound, ∃ mountPath, table.getPath i = some mountPath ∧
    Covers mountPath path ∧ best = ((i : Int), (mountPath.length : Int))

theorem Best.step (before : Best table path bound best)
    (recognised : ∀ mountPath ∈ table.getPath bound,
      (mountPath.isPrefixOf path ∧ boundaryOkay path mountPath ↔ Covers mountPath path)) :
    Best table path (bound + 1) (table.resolveSlot path best bound) := by
  unfold resolveSlot
  cases here : table.getPath bound with
  | none =>
    constructor
    · intro i below mountPath isPath covers
      rcases Nat.lt_succ_iff_lt_or_eq.mp below with earlier | rfl
      · exact before.longest i earlier mountPath isPath covers
      · simp [here] at isPath
    · rcases before.found with nothing | ⟨i, below, rest⟩
      · exact .inl nothing
      · exact .inr ⟨i, Nat.lt_succ_of_lt below, rest⟩
  | some mountPath =>
    have recognises := recognised mountPath here
    by_cases better : Covers mountPath path ∧ best.2 < mountPath.length
    · have fits : mountPath.length ≤ path.length := better.1.1.length_le
      simp only [fits, better.2, and_self, if_true, recognises.mpr better.1]
      constructor
      · intro i below other isPath covers
        rcases Nat.lt_succ_iff_lt_or_eq.mp below with earlier | rfl
        · exact Int.le_trans (before.longest i earlier other isPath covers) (Int.le_of_lt better.2)
        · rw [here] at isPath
          cases isPath
          exact Int.le_refl _
      · exact .inr ⟨bound, Nat.lt_succ_self _, mountPath, here, better.1, rfl⟩
    · have kept : (if mountPath.length ≤ path.length ∧ best.2 < mountPath.length then
          if mountPath.isPrefixOf path ∧ boundaryOkay path mountPath then
            ((bound : Int), (mountPath.length : Int)) else best else best) = best := by
        split
        · rename_i longer
          rw [if_neg fun passes => better ⟨recognises.mp passes, longer.2⟩]
        · rfl
      simp only [kept]
      constructor
      · intro i below other isPath covers
        rcases Nat.lt_succ_iff_lt_or_eq.mp below with earlier | rfl
        · exact before.longest i earlier other isPath covers
        · rw [here] at isPath
          cases isPath
          exact Int.not_lt.mp fun longer => better ⟨covers, longer⟩
      · rcases before.found with nothing | ⟨i, below, rest⟩
        · exact .inl nothing
        · exact .inr ⟨i, Nat.lt_succ_of_lt below, rest⟩

theorem best_of_range (bound : Nat) (recognised : ∀ i < bound, ∀ mountPath ∈ table.getPath i,
      (mountPath.isPrefixOf path ∧ boundaryOkay path mountPath ↔ Covers mountPath path)) :
    Best table path bound ((range bound).foldl (table.resolveSlot path) (-1, -1)) := by
  induction bound with
  | zero => exact ⟨by simp, .inl rfl⟩
  | succ bound ih =>
    rw [range_succ, foldl_append]
    have before := ih fun i below => recognised i (Nat.lt_succ_of_lt below)
    exact before.step (recognised bound (Nat.lt_succ_self _))

namespace Represents

variable {mounted : List (Path × Volume)}

theorem recognised (represents : Represents table mounted) (i : Nat) (inUse : i < table.count)
    (mountPath : Path) (isPath : mountPath ∈ table.getPath i) :
    mountPath.isPrefixOf path ∧ boundaryOkay path mountPath ↔ Covers mountPath path := by
  rw [represents.count] at inUse
  have isMount : mounted[i]? = some mounted[i] := List.getElem?_eq_getElem inUse
  obtain ⟨samePath, -⟩ := represents.entry i _ isMount
  rw [samePath] at isPath
  cases isPath
  obtain ⟨absolute, plain⟩ := represents.absolute _ (getElem_mem inUse)
  apply boundaryOkay_iff plain
  rintro empty
  simp [empty] at absolute

/-- `Resolve` finds the one longest mount path that leads to an absolute path. -/
theorem resolve (represents : Represents table mounted) (absolute : path.head? = some '/') :
    ∃ (i : Nat) (mount : Path × Volume), mounted[i]? = some mount ∧ table.resolve path = i ∧
      Covers mount.1 path ∧
      ∀ other ∈ mounted, Covers other.1 path → other = mount ∨ other.1.length < mount.1.length := by
  have nonempty : path.length ≠ 0 := by
    cases path with
    | nil => simp at absolute
    | cons => simp
  have best : Best table path table.count _ := best_of_range table.count (represents.recognised)
  simp only [MountTable.resolve, if_neg nonempty]
  generalize (range table.count).foldl (table.resolveSlot path) (-1, -1) = chosen at best
  rcases best.found with rfl | ⟨i, inUse, mountPath, isPath, covers, rfl⟩
  · obtain ⟨volume, isRoot⟩ := represents.rooted
    have used : 0 < table.count := by
      rw [represents.count]
      exact (List.getElem?_eq_some_iff.mp isRoot).1
    have impossible :=
      best.longest 0 used root (represents.entry 0 _ isRoot).1 (covers_root absolute)
    omega
  · rw [represents.count] at inUse
    have isMount : mounted[i]? = some mounted[i] := List.getElem?_eq_getElem inUse
    obtain ⟨samePath, -⟩ := represents.entry i _ isMount
    obtain rfl : mounted[i].1 = mountPath := Option.some.inj (samePath.symm.trans isPath)
    refine ⟨i, mounted[i], isMount, rfl, covers, fun other member also => ?_⟩
    obtain ⟨j, inside, rfl⟩ := getElem_of_mem member
    have isOther : mounted[j]? = some mounted[j] := List.getElem?_eq_getElem inside
    have shorter :=
      best.longest j (represents.count ▸ inside) _ (represents.entry j _ isOther).1 also
    rcases Nat.lt_or_eq_of_le (Int.ofNat_le.mp shorter) with less | sameLength
    · exact .inr less
    · -- two prefixes of one length are one path, which is mounted only once
      have samePaths : mounted[j].1 = mounted[i].1 :=
        (prefix_of_prefix_length_le also.1 covers.1 (Nat.le_of_eq sameLength)).eq_of_length
          sameLength
      left
      exact inj_on_of_nodup_map represents.distinct member (getElem_mem inUse) samePaths

end Represents

end MountTable

/-- The part of the path that a covering mount leaves to its volume. -/
theorem Vfs.localPath_of_covers (absolute : path.head? = some '/') (covers : Covers mountPath path)
    (plain : PlainMount mountPath) (nonempty : mountPath ≠ []) :
    ∃ rest, Vfs.localPath mountPath path = some rest ∧ rest.head? = some '/' ∧
      components (mountPath ++ rest) = components path ∧
      (mountPath ++ rest = path ∨ path = mountPath ∧ rest = root ∨ mountPath = root ∧
        rest = path) := by
  have okay := (boundaryOkay_iff plain nonempty).mpr covers
  obtain ⟨⟨rest, rfl⟩, -⟩ := covers
  by_cases isRoot : mountPath = root
  · refine ⟨mountPath ++ rest, by rw [localPath, if_pos isRoot], absolute, ?_,
      .inr (.inr ⟨isRoot, rfl⟩)⟩
    subst isRoot
    exact components_append [] rfl
  cases rest with
  | nil =>
    refine ⟨root, by simp [localPath, isRoot], rfl, ?_, .inr (.inl ⟨by simp, rfl⟩)⟩
    exact components_append mountPath rfl
  | cons next rest =>
    have slash : next = '/' := by simpa [MountTable.boundaryOkay, isRoot] using okay.2
    subst slash
    exact ⟨'/' :: rest, by simp [localPath, isRoot], rfl, rfl, .inl rfl⟩

end Zapada.Fs
