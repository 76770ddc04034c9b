import Zapada.Ipc.NamedChannels

namespace Zapada.Ipc

open Foundation Function List

structure CreatedChannel where
  slot : ChannelSlot
  name : List UInt16
  isOpen : Bool

/-- A handle, the channel in its slot when it was given out (its place among all
channels), and the name that was asked for. -/
structure IssuedHandle where
  handle : Int
  channel : Option Nat
  requested : List UInt16

/-- The table with the channels made so far, oldest first, and the handles given out. -/
structure HandleHistory where
  table : ChannelTable
  created : List CreatedChannel
  issued : List IssuedHandle

inductive ChannelCall where
  | create (name : Option (List UInt16))
  | openName (name : Option (List UInt16))
  | close (channel : Int)

namespace HandleHistory

def current (history : HandleHistory) (slot : Nat) : Option Nat :=
  history.created.findIdx? fun channel => channel.isOpen ∧ channel.slot.val = slot

def issue (history : HandleHistory) (handle : Int) (slot : Nat) (requested : List UInt16) :
    HandleHistory :=
  { history with issued := history.issued ++ [{ handle, channel := history.current slot, requested }] }

def setTable (history : HandleHistory) (table : ChannelTable) : HandleHistory :=
  { history with table }

def add (history : HandleHistory) (slot : Nat) (name : List UInt16) : HandleHistory :=
  if inRange : slot < namedChannelMax then
    { history with created := history.created ++ [{ slot := ⟨slot, inRange⟩, name, isOpen := true }] }
  else history

def afterCreate (history : HandleHistory) (pid : Nat) (name : Option (List UInt16)) :
    HandleHistory :=
  match name, sysChannelCreate pid history.table name with
  | some str, (.ofNat slot, table) => ((history.setTable table).add slot str).issue slot slot str
  | _, (_, table) => history.setTable table

def afterOpen (history : HandleHistory) (name : Option (List UInt16)) : HandleHistory :=
  match name, sysChannelOpen history.table name with
  | some str, .ofNat slot => history.issue slot slot str
  | _, _ => history

def afterClose (history : HandleHistory) (channel : Int) : HandleHistory :=
  match sysChannelClose history.table channel with
  | (0, table) =>
    { history with
      table
      created := history.created.map fun made =>
        if made.slot.val = channel then { made with isOpen := false } else made }
  | (_, table) => history.setTable table

def call (pid : Nat) (history : HandleHistory) : ChannelCall → HandleHistory
  | .create name => history.afterCreate pid name
  | .openName name => history.afterOpen name
  | .close channel => history.afterClose channel

/-- No open channel has another name that reads the same. -/
def Unambiguous (history : HandleHistory) (str : List UInt16) : Prop :=
  ∀ made ∈ history.created, made.isOpen → stringToAscii made.name = stringToAscii str →
    made.name = str

/-- The slot that a Create would take never held a channel. -/
def UnusedSlot (history : HandleHistory) : Prop :=
  ∀ slot ∈ findFreeSlot history.table, ∀ made ∈ history.created, made.slot ≠ slot

instance (history : HandleHistory) (str : List UInt16) : Decidable (history.Unambiguous str) :=
  inferInstanceAs (Decidable (∀ made ∈ _, _ → _ → _))

instance (history : HandleHistory) : Decidable history.UnusedSlot :=
  inferInstanceAs (Decidable (∀ slot ∈ _, ∀ made ∈ _, _))

/-- Names are told apart, and slots are not used twice. -/
def careful (history : HandleHistory) : ChannelCall → Prop
  | .create name => (∀ str ∈ name, history.Unambiguous str) ∧ history.UnusedSlot
  | .openName name => ∀ str ∈ name, history.Unambiguous str
  | .close _ => True

instance (history : HandleHistory) (call : ChannelCall) : Decidable (history.careful call) :=
  match call with
  | .create _ => inferInstanceAs (Decidable ((∀ str ∈ _, _) ∧ _))
  | .openName _ => inferInstanceAs (Decidable (∀ str ∈ _, _))
  | .close _ => inferInstanceAs (Decidable True)

def start : HandleHistory := { table := initialTable, created := [], issued := [] }

end HandleHistory

/-- Any sequence of calls of a runtime that reports `pid`. -/
def channelMachine (pid : Nat) : Machine HandleHistory ChannelCall :=
  .ofStep .start fun history call => some (history.call pid call)

/-- A handle refers to the channel with the requested name until that is closed, and is
rejected afterwards. -/
def HandleFaithful (history : HandleHistory) (entry : IssuedHandle) : Prop :=
  ∃ i ∈ entry.channel, ∃ made ∈ history.created[i]?, made.name = entry.requested ∧
    if made.isOpen then
      checkHandle history.table entry.handle = .ok made.slot ∧ history.current made.slot = some i
    else checkHandle history.table entry.handle = .error (-11)

instance (history : HandleHistory) (entry : IssuedHandle) :
    Decidable (HandleFaithful history entry) :=
  inferInstanceAs (Decidable (∃ i ∈ _, ∃ made ∈ _, _ ∧ _))

structure Separated (history : HandleHistory) : Prop where
  distinct : (history.created.map (·.slot)).Nodup
  opened : ∀ made ∈ history.created, made.isOpen → (history.table made.slot).state = .opened ∧
      (history.table made.slot).name = stringToAscii made.name
  closed : ∀ made ∈ history.created, made.isOpen = false → (history.table made.slot).state ≠ .opened
  owned : ∀ slot, (history.table slot).state = .opened → ∃ made ∈ history.created, made.isOpen ∧
    made.slot = slot
  issued : ∀ entry ∈ history.issued, ∃ i made, entry.channel = some i ∧
    history.created[i]? = some made ∧ made.name = entry.requested ∧ entry.handle = made.slot.val

namespace Separated

variable {history : HandleHistory} {made other : CreatedChannel}

theorem start : Separated .start where
  distinct := nodup_nil
  opened := by simp [HandleHistory.start]
  closed := by simp [HandleHistory.start]
  owned slot opened := by simp [HandleHistory.start, initialTable] at opened
  issued := by simp [HandleHistory.start]

section

variable (separated : Separated history)

include separated

theorem current_eq (found : history.created[i]? = some made)
    (isOpen : made.isOpen = true) : history.current made.slot = some i := by
  rw [HandleHistory.current, findIdx?_eq_some_iff_getElem]
  obtain ⟨inside, isMade⟩ := List.getElem?_eq_some_iff.mp found
  refine ⟨inside, by simp [isMade, isOpen], fun j before => ?_⟩
  have different : history.created[j].slot ≠ made.slot := by
    intro same
    have equal : j = i := (@List.Nodup.getElem_inj_iff _ _ separated.distinct j
      (by simpa using before.trans inside) i (by simpa using inside)).mp (by simp [same, isMade])
    omega
  simp [Fin.val_inj, different]

theorem faithful (member : entry ∈ history.issued) : HandleFaithful history entry := by
  obtain ⟨i, made, isChannel, found, sameName, sameSlot⟩ := separated.issued entry member
  have isMade : made ∈ history.created := mem_of_getElem? found
  refine ⟨i, isChannel, made, found, sameName, ?_⟩
  rw [sameSlot]
  split
  · rename_i isOpen
    refine ⟨?_, separated.current_eq found isOpen⟩
    exact checkHandle_opened made.slot (separated.opened made isMade isOpen).1
  · rename_i isClosed
    exact checkHandle_error made.slot (separated.closed made isMade (by simpa using isClosed))

/-- An open slot of this folded name holds the channel of this very name. -/
theorem named (unambiguous : history.Unambiguous str)
    (opened : (history.table slot).state = .opened)
    (sameName : (history.table slot).name = stringToAscii str) :
    ∃ made ∈ history.created, made.isOpen ∧ made.slot = slot ∧ made.name = str := by
  obtain ⟨made, isMade, isOpen, rfl⟩ := separated.owned slot opened
  refine ⟨made, isMade, isOpen, rfl, unambiguous made isMade isOpen ?_⟩
  rw [← sameName]
  exact (separated.opened made isMade isOpen).2.symm

theorem issue {i : Nat} (found : history.created[i]? = some made) (isOpen : made.isOpen = true) :
    Separated (history.issue made.slot.val made.slot made.name) where
  distinct := separated.distinct
  opened := separated.opened
  closed := separated.closed
  owned := separated.owned
  issued entry member := by
    rcases mem_append.mp member with old | isNew
    · exact separated.issued entry old
    · obtain rfl := mem_singleton.mp isNew
      exact ⟨i, made, separated.current_eq found isOpen, found, rfl, rfl⟩

theorem add (slot : ChannelSlot) (str : List UInt16) (pid : Nat)
    (unused : ∀ made ∈ history.created, made.slot ≠ slot) :
    Separated ((history.setTable (update history.table slot
      ((history.table slot).create (stringToAscii str) pid))).add slot str) := by
  have elsewhere : ∀ made ∈ history.created,
      update history.table slot ((history.table slot).create (stringToAscii str) pid)
        made.slot = history.table made.slot :=
    fun made isMade => update_of_ne (unused made isMade) _ _
  simp only [HandleHistory.add, HandleHistory.setTable, slot.isLt, dif_pos]
  refine ⟨?_, ?_, ?_, ?_, ?_⟩
  · rw [map_append, map_singleton, nodup_append_comm, singleton_append, nodup_cons]
    refine ⟨fun taken => ?_, separated.distinct⟩
    obtain ⟨made, isMade, same⟩ := mem_map.mp taken
    exact unused made isMade same
  · refine forall_mem_append.mpr ⟨fun made old => ?_, by simp [NamedChannel.create]⟩
    simpa only [elsewhere made old] using separated.opened made old
  · refine forall_mem_append.mpr ⟨fun made old => ?_, by simp⟩
    simpa only [elsewhere made old] using separated.closed made old
  · intro other opened
    by_cases here : other = slot
    · exact ⟨_, mem_append_right _ (mem_singleton_self _), rfl, here.symm⟩
    · simp only [update_of_ne here] at opened
      obtain ⟨made, isMade, isOpen, isSlot⟩ := separated.owned other opened
      exact ⟨made, mem_append_left _ isMade, isOpen, isSlot⟩
  · intro entry member
    obtain ⟨i, made, isChannel, found, rest⟩ := separated.issued entry member
    refine ⟨i, made, isChannel, ?_, rest⟩
    rw [List.getElem?_append_left (List.getElem?_eq_some_iff.mp found).1]
    exact found

theorem create (pid : Nat) (name : Option (List UInt16))
    (unused : history.UnusedSlot) : Separated (history.afterCreate pid name) := by
  cases name with
  | none => exact separated
  | some str =>
    rcases sysChannelCreate_cases pid history.table str with
      ⟨code, refused⟩ | ⟨slot, isFree, accepted⟩
    · simp only [HandleHistory.afterCreate, refused]
      exact separated
    · simp only [HandleHistory.afterCreate, accepted]
      have added := separated.add slot str pid (unused slot isFree)
      have last :
          ((history.setTable (update history.table slot
            ((history.table slot).create (stringToAscii str)
          pid))).add slot str).created[history.created.length]? =
            some { slot, name := str, isOpen := true } := by
        simp [HandleHistory.add, HandleHistory.setTable]
      exact added.issue last rfl

theorem openName (name : Option (List UInt16))
    (unambiguous : ∀ str ∈ name, history.Unambiguous str) : Separated (history.afterOpen name) := by
  cases name with
  | none => exact separated
  | some str =>
    rcases sysChannelOpen_cases history.table str with ⟨code, refused⟩ | ⟨slot, found, accepted⟩
    · simp only [HandleHistory.afterOpen, refused]
      exact separated
    · simp only [HandleHistory.afterOpen, accepted]
      obtain ⟨opened, sameName⟩ := findByName_some found
      obtain ⟨made, isMade, isOpen, rfl, rfl⟩ :=
        separated.named (unambiguous str rfl) opened sameName
      obtain ⟨i, inside, isIndex⟩ := getElem_of_mem isMade
      exact separated.issue (List.getElem?_eq_some_iff.mpr ⟨inside, isIndex⟩) isOpen

theorem close (channel : Int) : Separated (history.afterClose channel) := by
  rcases sysChannelClose_cases history.table channel with
    ⟨code, refused⟩ | ⟨slot, rfl, opened, accepted⟩
  · simp only [HandleHistory.afterClose, refused]
    exact separated
  · simp only [HandleHistory.afterClose, accepted]
    have slots : (history.created.map fun made =>
        if (made.slot.val : Int) = slot.val then
          { made with isOpen := false } else made).map (·.slot) =
        history.created.map (·.slot) := by
      simp only [map_map, Function.comp_def, apply_ite CreatedChannel.slot, ite_self]
    have same_iff : ∀ made : CreatedChannel, (made.slot.val : Int) = slot.val ↔
      made.slot = slot := by
      intro made
      rw [Int.natCast_inj, Fin.val_inj]
    simp only [same_iff] at slots ⊢
    refine ⟨slots ▸ separated.distinct, ?_, ?_, ?_, ?_⟩
    · refine forall_mem_map.mpr fun old isOld isOpen => ?_
      by_cases here : old.slot = slot
      · simp [here] at isOpen
      · simp only [here, if_false] at isOpen ⊢
        rw [update_of_ne here]
        exact separated.opened old isOld isOpen
    · refine forall_mem_map.mpr fun old isOld isClosed => ?_
      by_cases here : old.slot = slot
      · simp [here, NamedChannel.close]
      · simp only [here, if_false] at isClosed ⊢
        rw [update_of_ne here]
        exact separated.closed old isOld isClosed
    · intro other isOpen
      by_cases here : other = slot
      · subst here
        simp [NamedChannel.close] at isOpen
      · simp only [update_of_ne here] at isOpen
        obtain ⟨made, isMade, remains, rfl⟩ := separated.owned other isOpen
        exact ⟨made, mem_map.mpr ⟨made, isMade, by simp [here]⟩, remains, rfl⟩
    · intro entry member
      obtain ⟨i, made, isChannel, found, sameName, sameSlot⟩ := separated.issued entry member
      by_cases here : made.slot = slot
      · exact ⟨i, { made with isOpen := false }, isChannel, by simp [found, here],
          sameName, sameSlot⟩
      · exact ⟨i, made, isChannel, by simp [found, here], sameName, sameSlot⟩

theorem call (call : ChannelCall) (careful : history.careful call) :
    Separated (history.call pid call) := by
  cases call with
  | create name => exact separated.create pid name careful.2
  | openName name => exact separated.openName name careful
  | close channel => exact separated.close channel

end

end Separated

/-- Under careful calls every handle stays faithful, and names are identified only if
they are equal: a Create is refused as a duplicate, and an Open finds a channel, exactly
for the name of an open channel. -/
theorem handles_stay_faithful (pid : Nat)
    (run : ((channelMachine pid).guarded HandleHistory.careful).Run calls history) :
    (∀ entry ∈ history.issued, HandleFaithful history entry) ∧
    ∀ str, stringToAscii str ≠ [] → history.Unambiguous str →
      ((sysChannelCreate pid history.table (some str)).1 = -4 ↔
        ∃ made ∈ history.created, made.isOpen ∧ made.name = str) ∧
          (0 ≤ sysChannelOpen history.table (some str) ↔
        ∃ made ∈ history.created, made.isOpen ∧ made.name = str) := by
  have separated : Separated history := by
    induction run with
    | start first =>
      cases first
      exact .start
    | next earlier taken ih =>
      obtain ⟨careful, taken⟩ := taken
      cases taken
      exact ih.call _ careful
  refine ⟨fun entry member => separated.faithful member, fun str given unambiguous => ?_⟩
  have known : (findByName history.table (stringToAscii str)).isSome ↔
      ∃ made ∈ history.created, made.isOpen ∧ made.name = str := by
    constructor
    · intro found
      obtain ⟨slot, isSlot⟩ := Option.isSome_iff_exists.mp found
      obtain ⟨opened, sameName⟩ := findByName_some isSlot
      obtain ⟨made, isMade, isOpen, -, isName⟩ := separated.named unambiguous opened sameName
      exact ⟨made, isMade, isOpen, isName⟩
    · rintro ⟨made, isMade, isOpen, rfl⟩
      obtain ⟨opened, sameName⟩ := separated.opened made isMade isOpen
      by_contra missing
      rw [Option.not_isSome_iff_eq_none] at missing
      exact findByName_none missing made.slot opened sameName
  rw [← known]
  constructor
  · simp only [sysChannelCreate, if_neg given]
    split
    · simpa
    · rename_i missing
      simp only [missing]
      split <;> simp
  · simp only [sysChannelOpen, if_neg given]
    cases findByName history.table (stringToAscii str) <;> simp

/-- Two channels, one of them closed again. -/
theorem handles_stay_faithful_two_channels :
    ∃ history, ((channelMachine 1).guarded HandleHistory.careful).Run
        [.create (some [0x61]), .create (some [0x62]), .openName (some [0x62]), .close 0] history ∧
      history.issued.map (·.handle) = [0, 1, 1] ∧ ∀ entry ∈ history.issued,
        HandleFaithful history entry := by
  have found : ∃ final ∈ Machine.execute HandleHistory.careful
      (fun history call => some (history.call 1 call)) .start
      [.create (some [0x61]), .create (some [0x62]), .openName (some [0x62]), .close 0],
      final.issued.map (·.handle) = [0, 1, 1] := by
    decide +kernel
  obtain ⟨history, run, handles⟩ := Machine.Run.exists_of_execute _ found
  exact ⟨history, run, handles, (handles_stay_faithful 1 run).1⟩

/-- The calls lead to a state with a handle that is not faithful. -/
def confuses (calls : List ChannelCall) : Prop :=
  ∃ entry ∈ (calls.foldl (HandleHistory.call 1) .start).issued,
    ¬ HandleFaithful (calls.foldl (HandleHistory.call 1) .start) entry

instance (calls : List ChannelCall) : Decidable (confuses calls) :=
  inferInstanceAs (Decidable (∃ entry ∈ _, _))

theorem confuses.run (confused : confuses calls) : ∃ history, (channelMachine 1).Run calls history ∧
      ∃ entry ∈ history.issued, ¬ HandleFaithful history entry := by
  refine ⟨_, Machine.Run.ofExecution calls ?_, confused⟩
  exact foldlM_pure

/-- The name `A` and the name made of the letter U+0141 are one; so are two names that
differ behind their 63rd letter; and the handle of a closed channel is accepted for the
channel that has its slot next. -/
theorem handles_are_confused :
    (∃ history, (channelMachine 1).Run [.create (some [0x41]), .openName (some [0x141])] history ∧
      ∃ entry ∈ history.issued, ¬ HandleFaithful history entry) ∧ (∃ history, (channelMachine 1).Run
        [.create (some (replicate 63 0x61 ++ [0x62])),
          .openName (some (replicate 63 0x61 ++ [0x63]))] history ∧
      ∃ entry ∈ history.issued, ¬ HandleFaithful history entry) ∧
    ∃ history,
      (channelMachine 1).Run [.create (some [0x61]), .close 0, .create (some [0x62])] history ∧
      ∃ entry ∈ history.issued, ¬ HandleFaithful history entry := by
  refine ⟨confuses.run ?_, confuses.run ?_, confuses.run ?_⟩ <;> decide +kernel

end Zapada.Ipc
