import Mathlib.Data.Fintype.Card

/-! Tables of a fixed number of slots that keep one value for each key and never
give a slot back. -/

namespace Zapada.Foundation

open Function Finset Option

abbrev Slots (n : Nat) (ν : Type) := Fin n → Option ν

namespace Slots

variable {n : Nat} {ν κ : Type} [DecidableEq κ] (key : ν → κ)

/-- The first slot whose value has the key. -/
def holding (slots : Slots n ν) (k : κ) : Option (Fin n) :=
  (List.finRange n).find? fun i => (slots i).map key = some k

def vacant (slots : Slots n ν) : Option (Fin n) := (List.finRange n).find? fun i => (slots i).isNone

/-- The slot of a value's key, which is taken from the vacant ones when there is none. -/
def intern (slots : Slots n ν) (value : ν) : Option (Fin n × Slots n ν) :=
  match slots.holding key (key value) with
  | some i => some (i, slots)
  | none => slots.vacant.map fun i => (i, Function.update slots i (some value))

/-- Values are interned one after the other, up to the first that finds no slot. -/
def internEach (slots : Slots n ν) : List ν → List (Fin n × ν) × Slots n ν
  | [] => ([], slots)
  | value :: rest =>
    match slots.intern key value with
    | none => ([], slots)
    | some (i, after) =>
      let (done, final) := internEach after rest
      ((i, value) :: done, final)

def keys (slots : Slots n ν) : Finset κ :=
  ((List.finRange n).filterMap fun i => (slots i).map key).toFinset

def free (slots : Slots n ν) : Nat := (Finset.univ.filter fun i => (slots i).isNone).card

/-- The keys of the values that have no slot yet. -/
def unseen (slots : Slots n ν) (values : List ν) : Finset κ :=
  (values.map key).toFinset \ slots.keys key

def Retains (before after : Slots n ν) : Prop :=
  ∀ i value, before i = some value → after i = some value

omit [DecidableEq κ] in
theorem Retains.refl (slots : Slots n ν) : Retains slots slots := fun _ _ held => held

theorem Retains.trans {before middle after : Slots n ν} (first : Retains before middle)
    (second : Retains middle after) : Retains before after :=
  fun i value held => second i value (first i value held)

variable {slots : Slots n ν}

theorem mem_keys : k ∈ slots.keys key ↔ ∃ i value, slots i = some value ∧ key value = k := by
  simp [keys]

theorem holding_eq_none : slots.holding key k = none ↔ k ∉ slots.keys key := by
  simp [holding, mem_keys]

theorem held_of_holding (found : slots.holding key k = some i) : ∃ value, slots i = some value ∧
      key value = k := by
  have held := List.find?_some found
  simpa using held

omit [DecidableEq κ] in
theorem vacant_eq_none : slots.vacant = none ↔ slots.free = 0 := by
  simp [vacant, free, filter_eq_empty_iff]

omit [DecidableEq κ] in
theorem none_of_vacant (found : slots.vacant = some i) : slots i = none := by
  simpa using List.find?_some found

theorem keys_update (empty : slots i = none) (value : ν) :
    keys key (update slots i (some value)) = insert (key value) (slots.keys key) := by
  ext k
  simp only [mem_insert, mem_keys]
  rw [exists_update_iff slots fun _ stored => ∃ value, stored = some value ∧ key value = k]
  refine or_congr (by simp [eq_comm]) (exists_congr fun j => and_iff_right_of_imp ?_)
  rintro ⟨held, stored, -⟩ rfl
  rw [empty] at stored
  cases stored

omit [DecidableEq κ] in
theorem free_update (empty : slots i = none) (value : ν) :
    free (update slots i (some value)) + 1 = slots.free := by
  have vacated : (univ.filter fun j => (update slots i (some value) j).isNone) =
      (univ.filter fun j => (slots j).isNone).erase i := by
    ext j
    by_cases here : j = i
    · simp [here]
    · simp [here]
  have member : i ∈ univ.filter fun j => (slots j).isNone := by simp [empty]
  rw [free, vacated, card_erase_of_mem member, free]
  exact Nat.sub_add_cancel (card_pos.mpr ⟨i, member⟩)

/-- What interning a value can do: find its key, or take a vacant slot. -/
theorem intern_cases (interned : slots.intern key value = some (i, after)) :
    (slots.holding key (key value) = some i ∧ after = slots) ∨
      (key value ∉ slots.keys key ∧ slots i = none ∧
        after = update slots i (some value)) := by
  unfold intern at interned
  cases found : slots.holding key (key value) with
  | some j =>
    simp only [found, some.injEq, Prod.mk.injEq] at interned
    exact .inl ⟨by rw [interned.1], interned.2.symm⟩
  | none =>
    simp only [found, map_eq_some_iff, Prod.mk.injEq] at interned
    obtain ⟨j, isVacant, rfl, rfl⟩ := interned
    exact .inr ⟨(holding_eq_none key).mp found, none_of_vacant isVacant, rfl⟩

variable {after : Slots n ν} {value : ν} {i : Fin n}

theorem intern_held (interned : slots.intern key value = some (i, after)) :
    ∃ held, after i = some held ∧ key held = key value := by
  rcases intern_cases key interned with ⟨found, rfl⟩ | ⟨-, -, rfl⟩
  · exact held_of_holding key found
  · exact ⟨value, update_self .., rfl⟩

theorem intern_retains (interned : slots.intern key value = some (i, after)) :
    Retains slots after := by
  rcases intern_cases key interned with ⟨-, rfl⟩ | ⟨-, empty, rfl⟩
  · exact Retains.refl _
  · intro j held stored
    have other : j ≠ i := by
      rintro rfl
      rw [empty] at stored
      cases stored
    rw [update_of_ne other, stored]

theorem intern_known (known : key value ∈ slots.keys key) :
    ∃ i, slots.intern key value = some (i, slots) := by
  cases found : slots.holding key (key value) with
  | some i => exact ⟨i, by simp [intern, found]⟩
  | none => exact absurd known ((holding_eq_none key).mp found)

theorem keys_mono (retains : Retains before after) : before.keys key ⊆ after.keys key := by
  intro k member
  obtain ⟨i, value, stored, rfl⟩ := (mem_keys key).mp member
  exact (mem_keys key).mpr ⟨i, value, retains i value stored, rfl⟩

theorem unseen_cons_known (known : key value ∈ slots.keys key) (rest : List ν) :
    slots.unseen key (value :: rest) = slots.unseen key rest := by
  simp only [unseen, List.map_cons, List.toFinset_cons]
  exact insert_sdiff_of_mem _ known

theorem card_unseen_cons (fresh : key value ∉ slots.keys key) (empty : slots i = none)
    (rest : List ν) : (slots.unseen key (value :: rest)).card =
      (unseen key (update slots i (some value)) rest).card + 1 := by
  simp only [unseen, List.map_cons, List.toFinset_cons, keys_update key empty]
  have apart : insert (key value) ((rest.map key).toFinset \ slots.keys key) =
      insert (key value) ((rest.map key).toFinset \ insert (key value) (slots.keys key)) := by
    ext k
    simp only [mem_insert, mem_sdiff]
    tauto
  rw [insert_sdiff_of_notMem _ fresh, apart, card_insert_of_notMem (by simp)]

/-- What interning a value keeps is kept when values are interned one after the other. -/
theorem internEach_keeps {holds : Slots n ν → Prop} {values : List ν} (before : holds slots)
    (kept : ∀ slots i after, ∀ value ∈ values,
      holds slots → slots.intern key value = some (i, after) → holds after) :
    holds (slots.internEach key values).2 := by
  induction values generalizing slots with
  | nil => exact before
  | cons value rest ih =>
    cases interned : slots.intern key value with
    | none => simpa [internEach, interned] using before
    | some result =>
      simp only [internEach, interned]
      exact ih (kept _ _ _ value List.mem_cons_self before interned) fun slots i after
        other member =>
        kept slots i after other (List.mem_cons_of_mem _ member)

theorem internEach_retains (slots : Slots n ν) (values : List ν) :
    Retains slots (slots.internEach key values).2 :=
  internEach_keeps key (Retains.refl slots) fun _ _ _ _ _ retained interned =>
    retained.trans (intern_retains key interned)

theorem internEach_held (done : (i, value) ∈ (slots.internEach key values).1) :
    ∃ held, (slots.internEach key values).2 i = some held ∧ key held = key value := by
  induction values generalizing slots with
  | nil => simp [internEach] at done
  | cons first rest ih =>
    cases interned : slots.intern key first with
    | none => simp [internEach, interned] at done
    | some result =>
      simp only [internEach, interned, List.mem_cons, Prod.mk.injEq] at done ⊢
      rcases done with ⟨rfl, rfl⟩ | later
      · obtain ⟨held, stored, same⟩ := intern_held key interned
        exact ⟨held, internEach_retains key result.2 rest _ _ stored, same⟩
      · exact ih later

theorem internEach_initial (slots : Slots n ν) (values : List ν) :
    (slots.internEach key values).1.map Prod.snd <+: values := by
  induction values generalizing slots with
  | nil => simp [internEach]
  | cons value rest ih =>
    cases interned : slots.intern key value with
    | none => simp [internEach, interned]
    | some result =>
      simp only [internEach, interned, List.map_cons, List.cons_prefix_cons, true_and]
      exact ih result.2

/-- All of the values are interned exactly if their new keys fit the vacant slots. -/
theorem internEach_all_iff (slots : Slots n ν) (values : List ν) :
    (slots.internEach key values).1.map Prod.snd = values ↔
      (slots.unseen key values).card ≤ slots.free := by
  induction values generalizing slots with
  | nil => simp [internEach, unseen]
  | cons value rest ih =>
    cases interned : slots.intern key value with
    | none =>
      have unknown : key value ∉ slots.keys key := by
        intro known
        obtain ⟨i, found⟩ := intern_known key known
        rw [interned] at found
        cases found
      have full : slots.free = 0 := by
        simp only [intern, (holding_eq_none key).mpr unknown, map_eq_none_iff] at interned
        exact vacant_eq_none.mp interned
      have missing : key value ∈ slots.unseen key (value :: rest) := by
        simp [unseen, unknown]
      have counted := card_pos.mpr ⟨_, missing⟩
      simp only [internEach, interned, List.map_nil, full]
      simp only [List.nil_eq, reduceCtorEq, false_iff]
      omega
    | some result =>
      obtain ⟨i, after⟩ := result
      simp only [internEach, interned, List.map_cons, List.cons.injEq, true_and, ih]
      rcases intern_cases key interned with ⟨found, rfl⟩ | ⟨unknown, empty, rfl⟩
      · have known : key value ∈ after.keys key := by
          by_contra missing
          rw [(holding_eq_none key).mpr missing] at found
          cases found
        rw [unseen_cons_known key known]
      · have counted := free_update empty value
        rw [card_unseen_cons key unknown empty]
        omega

/-- The vacant slots take all the keys that are new. -/
def Fits (slots : Slots n ν) (values : List ν) : Prop :=
  (slots.unseen key values).card ≤ slots.free

instance (slots : Slots n ν) (values : List ν) : Decidable (slots.Fits key values) :=
  inferInstanceAs (Decidable (_ ≤ _))

theorem fits_iff : slots.Fits key values ↔ (slots.internEach key values).1.map Prod.snd = values :=
  (internEach_all_iff key slots values).symm

theorem mem_keys_internEach (fits : slots.Fits key values) (member : value ∈ values) :
    key value ∈ (slots.internEach key values).2.keys key := by
  rw [← (fits_iff key).mp fits] at member
  obtain ⟨⟨i, value⟩, done, rfl⟩ := List.mem_map.mp member
  obtain ⟨held, stored, same⟩ := internEach_held key done
  exact (mem_keys key).mpr ⟨i, held, stored, same⟩

theorem fits_cons (interned : slots.intern key value = some (i, after)) (rest : List ν) :
    slots.Fits key (value :: rest) ↔ after.Fits key rest := by
  simp [fits_iff, internEach, interned]

theorem not_fits_cons (full : slots.intern key value = none)
    (rest : List ν) : ¬ slots.Fits key (value :: rest) := by
  simp [fits_iff, internEach, full]

/-- Behind values that fit, the table goes on from where they left it. -/
theorem internEach_append (slots : Slots n ν) (front back : List ν) :
    slots.internEach key (front ++ back) =
    if slots.Fits key front then
      ((slots.internEach key front).1 ++ ((slots.internEach key front).2.internEach key back).1,
        ((slots.internEach key front).2.internEach key back).2)
    else slots.internEach key front := by
  induction front generalizing slots with
  | nil => simp [fits_iff, internEach]
  | cons value rest ih =>
    cases interned : slots.intern key value with
    | none => simp [internEach, interned, not_fits_cons key interned]
    | some result =>
      simp only [List.cons_append, internEach, interned, fits_cons key interned, ih]
      split <;> rfl

theorem fits_append (fits : slots.Fits key leading) (back : List ν) :
    slots.Fits key (leading ++ back) ↔ (slots.internEach key leading).2.Fits key back := by
  rw [fits_iff, fits_iff, internEach_append, if_pos fits, List.map_append, (fits_iff key).mp fits,
    List.append_cancel_left_eq]

theorem fits_of_append (fits : slots.Fits key (leading ++ back)) : slots.Fits key leading := by
  refine (card_le_card (sdiff_subset_sdiff ?_ (Subset.refl _))).trans fits
  simp

/-- A value that does not fit behind others does not fit later either. -/
theorem not_fits_internEach (fits : slots.Fits key leading)
    (full : ¬ slots.Fits key (leading ++ [value])) :
    ¬ (slots.internEach key (leading ++ [value])).2.Fits key [value] := by
  rw [fits_append key fits] at full
  rw [internEach_append, if_pos fits]
  cases interned : (slots.internEach key leading).2.intern key value with
  | none => simpa [internEach, interned] using full
  | some result => exact absurd ((fits_cons key interned []).mpr ((fits_iff key).mpr rfl)) full

/-- The interned beginning of the values is as long as the table allows. -/
theorem le_length_internEach (slots : Slots n ν) (values : List ν)
    (within : count ≤ values.length) :
    count ≤ (slots.internEach key values).1.length ↔ slots.Fits key (values.take count) := by
  have part := internEach_initial key slots (values.take count)
  have length : (values.take count).length = count := by simp [within]
  have whole := internEach_append key slots (values.take count) (values.drop count)
  rw [List.take_append_drop] at whole
  rw [whole]
  by_cases fits : slots.Fits key (values.take count)
  · have counted := congrArg List.length ((fits_iff key).mp fits)
    rw [List.length_map, length] at counted
    rw [if_pos fits, List.length_append, counted]
    simp [fits]
  · rw [if_neg fits]
    refine iff_of_false (fun long => fits ((fits_iff key).mpr ?_)) fits
    exact part.eq_of_length_le (by rw [length, List.length_map]; exact long)

/-- What holds of the values in the table and of the values interned holds afterwards. -/
theorem internEach_forall {holds : ν → Prop}
    (before : ∀ i value, slots i = some value → holds value) {values : List ν}
    (interned : ∀ value ∈ values, holds value) :
    ∀ i value, (slots.internEach key values).2 i = some value → holds value := by
  refine @internEach_keeps _ _ _ _ key slots (fun slots => ∀ i value,
    slots i = some value → holds value) values before ?_
  intro slots i after value member all placed j held stored
  rcases intern_cases key placed with ⟨-, rfl⟩ | ⟨-, -, rfl⟩
  · exact all j held stored
  · by_cases here : j = i
    · rw [here, update_self, some.injEq] at stored
      exact stored ▸ interned value member
    · rw [update_of_ne here] at stored
      exact all j held stored

def Distinct (slots : Slots n ν) : Prop :=
  ∀ i j one two, slots i = some one → slots j = some two → key one = key two → i = j

omit [DecidableEq κ] in
theorem Distinct.of_retains (distinct : after.Distinct key)
    (retains : Retains before after) : before.Distinct key :=
  fun i j one two here there same =>
    distinct i j one two (retains i one here) (retains j two there) same

theorem Distinct.intern (distinct : slots.Distinct key)
    (interned : slots.intern key value = some (i, after)) : after.Distinct key := by
  rcases intern_cases key interned with ⟨-, rfl⟩ | ⟨unknown, empty, rfl⟩
  · exact distinct
  · have fresh : ∀ j held, slots j = some held → key held ≠ key value := by
      intro j held stored same
      exact unknown ((mem_keys key).mpr ⟨j, held, stored, same⟩)
    intro j k one two here there same
    by_cases first : j = i
    · by_cases second : k = i
      · rw [first, second]
      · rw [first, update_self, some.injEq] at here
        rw [update_of_ne second] at there
        rw [← here] at same
        exact absurd same.symm (fresh k two there)
    · rw [update_of_ne first] at here
      by_cases second : k = i
      · rw [second, update_self, some.injEq] at there
        rw [← there] at same
        exact absurd same (fresh j one here)
      · rw [update_of_ne second] at there
        exact distinct j k one two here there same

theorem Distinct.internEach (distinct : slots.Distinct key) (values : List ν) :
    (slots.internEach key values).2.Distinct key :=
  internEach_keeps key distinct fun _ _ _ _ _ distinct interned => distinct.intern key interned

theorem Distinct.card_keys (distinct : slots.Distinct key) :
    (slots.keys key).card + slots.free = n := by
  have used : (univ.filter fun i => ¬ (slots i).isNone).card = (slots.keys key).card := by
    refine card_bij (fun i taken => key ((slots i).get
      (by simpa [isSome_iff_ne_none] using taken))) ?_ ?_ ?_
    · exact fun i _ => (mem_keys key).mpr ⟨i, _, (some_get _).symm, rfl⟩
    · exact fun i _ j _ same =>
        distinct i j _ _ (some_get _).symm (some_get _).symm same
    · intro k member
      obtain ⟨i, value, stored, rfl⟩ := (mem_keys key).mp member
      exact ⟨i, by simp [stored], by simp [stored]⟩
  rw [← used, free, Nat.add_comm, card_filter_add_card_filter_not, card_univ, Fintype.card_fin]

theorem Fits.of_retains (distinct : after.Distinct key)
    (retains : Retains before after) (fits : after.Fits key values) :
    before.Fits key values := by
  have later := distinct.card_keys
  have earlier := (distinct.of_retains key retains).card_keys
  have kept := keys_mono key retains
  have apart := card_sdiff_add_card_eq_card kept
  have more : before.unseen key values ⊆
      after.unseen key values ∪ (after.keys key \ before.keys key) := by
    intro k member
    simp only [unseen, mem_sdiff, mem_union] at member ⊢
    tauto
  have count := (card_le_card more).trans (card_union_le _ _)
  unfold Fits at fits ⊢
  omega

end Slots

end Zapada.Foundation
