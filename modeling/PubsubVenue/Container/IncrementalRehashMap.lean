import PubsubVenue.Machine
import PubsubVenue.Probing

/-! # A hash map that grows a few slots at a time

`IncrementalRehashMap`: open addressing with linear probing, and a second table into which the
entries move a few slots at a time, by the operations that follow, when the first fills up. The
module has the map and its operations as the source has them.

An operation is `none` where it never returns, because a probe finds no place for an entry or the
size that is asked for does not fit in 64 bits. Allocating a table may fail, and the operation then
throws `std::bad_alloc`. No table of 2⁶² slots can be allocated, so that no other number wraps. -/

namespace PubsubVenue

/-- The parameters of a map: its hash function, how many slots each operation moves, and the sizes
of the tables that can be allocated. -/
structure RehashConfig (K : Type*) where
  hash : K → Nat
  migrationSlotsPerOperation : Nat
  pos : 0 < migrationSlotsPerOperation
  allocates : Nat → Bool

/-- The parameters with the tables that can be allocated at some moment. -/
def RehashConfig.allocating {K : Type*} (config : RehashConfig K) (allocates : Nat → Bool) : RehashConfig K :=
  { config with allocates }

/-- `IncrementalRehashMap::Table`. -/
structure RehashTable (K V : Type*) where
  slots : List (Slot (K × V))
  live : Nat
  used : Nat

namespace RehashTable

variable {K V : Type*}

/-- `Table{}`: no table. -/
def absent : RehashTable K V := { slots := [], live := 0, used := 0 }

/-- `allocate_table`: a table of empty slots. -/
def allocate (capacity : Nat) : RehashTable K V :=
  { slots := List.replicate capacity .empty, live := 0, used := 0 }

section

variable (t : RehashTable K V)

def capacity : Nat := t.slots.length

/-- The slot at which the search for a hash value begins. -/
def home (hashValue : Nat) : Nat := hashValue &&& (t.capacity - 1)

/-- `destroy_entries`. -/
def destroyEntries : RehashTable K V := allocate t.capacity

/-- **`find_slot`**: the slot that holds the key, or the capacity when none does. -/
def findSlot [DecidableEq K] (t : RehashTable K V) (key : K) (hashValue : Nat) : Nat :=
  if t.capacity = 0 then 0
  else (Probing.search t.slots (fun e => e.1 = key) t.capacity (t.home hashValue)).getD t.capacity

/-- **`find_free_slot`**: the first slot that is not occupied. Once round the table without one, the
loop goes round for ever. -/
def findFreeSlot (hashValue : Nat) : Option Nat :=
  Probing.free t.slots t.capacity (t.home hashValue)

/-- `construct_at`: only a slot that was empty adds to those used. -/
def constructAt (slot : Nat) (key : K) (value : V) : RehashTable K V :=
  { slots := t.slots.set slot (.occupied (key, value))
    live := t.live + 1
    used := if (Probing.slotAt t.slots slot).isUsed then t.used else t.used + 1 }

/-- Overwrite the value in a slot. -/
def assign (slot : Nat) (value : V) : RehashTable K V :=
  match Probing.slotAt t.slots slot with
  | .occupied entry => { t with slots := t.slots.set slot (.occupied (entry.1, value)) }
  | .empty | .tombstone => t

/-- An entry leaves a tombstone. -/
def remove (slot : Nat) : RehashTable K V :=
  { t with slots := t.slots.set slot .tombstone, live := t.live - 1 }

/-- The first occupied slot from one on. -/
def nextOccupied (slot : Nat) : Option Nat :=
  ((t.slots.drop slot).findIdx? Slot.isOccupied).map (slot + ·)

end

end RehashTable

/-- `ConstIterator`: a slot of the table that entries move out of, a slot of the other, or the end. -/
inductive RehashPosition
  | current (slot : Nat)
  | next (slot : Nat)
  | atEnd
  deriving DecidableEq

/-- **`IncrementalRehashMap`**. -/
structure RehashMap (K V : Type*) where
  current : RehashTable K V
  next : RehashTable K V
  migrationCursor : Nat
  size : Nat

namespace RehashMap

variable {K V : Type*} (config : RehashConfig K)

/-- `capacity_for`, from a size on: the first that is twice the entries, with sizes in 64 bits. From
16 on, 60 of them are not 0. -/
def capacityFrom (entryCount : Nat) : Nat → Nat → Option Nat
  | 0, _ => none
  | sizes + 1, wanted =>
    if wanted / 2 < entryCount then capacityFrom entryCount sizes (wanted * 2 % 18446744073709551616)
    else some wanted

/-- `minimum_capacity`. -/
def minimumCapacity : Nat := 16

/-- `capacity_for`: `none` where its loop never ends. -/
def capacityFor (entryCount : Nat) : Option Nat := capacityFrom entryCount 60 minimumCapacity

/-- A map to which nothing has been done. -/
def fresh : RehashMap K V := { current := .absent, next := .absent, migrationCursor := 0, size := 0 }

variable (s : RehashMap K V)

def isMigrating : Bool := 0 < s.next.capacity

/-! ## Iterators -/

/-- The first occupied slot of the second table from one on, or the end. -/
def advanceInNext (slot : Nat) : RehashPosition :=
  match s.next.nextOccupied slot with
  | some found => .next found
  | none => .atEnd

/-- **`advance_to_occupied`**. -/
def advanceToOccupied : RehashPosition → RehashPosition
  | .current slot =>
    match s.current.nextOccupied slot with
    | some found => .current found
    | none => s.advanceInNext 0
  | .next slot => s.advanceInNext slot
  | .atEnd => .atEnd

/-- `begin`. -/
def begin : RehashPosition := s.advanceToOccupied (.current 0)

/-- `operator++`. -/
def increment : RehashPosition → RehashPosition
  | .current slot => s.advanceToOccupied (.current (slot + 1))
  | .next slot => s.advanceToOccupied (.next (slot + 1))
  | .atEnd => .atEnd

/-- The slot that an iterator denotes. -/
def slotOf : RehashPosition → Slot (K × V)
  | .current slot => Probing.slotAt s.current.slots slot
  | .next slot => Probing.slotAt s.next.slots slot
  | .atEnd => .empty

/-- The entry that an iterator denotes. -/
def entryAt (position : RehashPosition) : Option (K × V) := (s.slotOf position).content

/-- Visit the entries from an iterator on, as far as so many steps go: `none` if the end is not
reached, or an iterator denotes no entry. -/
def visitFrom (s : RehashMap K V) : Nat → RehashPosition → Option (List (K × V))
  | _, .atEnd => some []
  | 0, _ => none
  | steps + 1, position =>
    (s.entryAt position).bind fun entry =>
      (visitFrom s steps (s.increment position)).map fun rest => entry :: rest

/-- `for (const auto& entry : map)`. -/
def visit : Option (List (K × V)) :=
  s.visitFrom (s.current.capacity + s.next.capacity) s.begin

/-! ## Migration -/

/-- **`move_slot`**: it counts a used slot more even where the entry takes the place of a tombstone. -/
def moveSlot (slot : Nat) : Option (RehashMap K V) :=
  match Probing.slotAt s.current.slots slot with
  | .occupied entry =>
    (s.next.findFreeSlot (config.hash entry.1)).map fun destination =>
      { s with
        next :=
          { slots := s.next.slots.set destination (.occupied entry)
            live := s.next.live + 1, used := s.next.used + 1 }
        current := s.current.remove slot }
  | .empty | .tombstone => some s

/-- `finish_migration`. -/
def finishMigration : RehashMap K V :=
  { s with current := s.next, next := .absent, migrationCursor := 0 }

/-- The loop of `step_migration`. -/
def moveSlots : Nat → RehashMap K V → Option (RehashMap K V)
  | 0, s => some s
  | share + 1, s =>
    if s.migrationCursor < s.current.capacity then
      (s.moveSlot config s.migrationCursor).bind fun t =>
        moveSlots share { t with migrationCursor := s.migrationCursor + 1 }
    else some s

/-- **`step_migration`**. -/
def stepMigration : Option (RehashMap K V) :=
  if s.isMigrating then
    (moveSlots config config.migrationSlotsPerOperation s).map fun t =>
      if t.current.capacity ≤ t.migrationCursor then t.finishMigration else t
  else some s

/-- The loop of `complete_migration`, as far as so many steps go. -/
def completeWithin : Nat → RehashMap K V → Option (RehashMap K V)
  | 0, s => if s.isMigrating then none else some s
  | steps + 1, s => if s.isMigrating then (s.stepMigration config).bind (completeWithin steps) else some s

/-- `complete_migration`: every step examines a slot, so there are no more steps than slots. -/
def completeMigration : Option (RehashMap K V) :=
  s.completeWithin config s.current.capacity

/-- `begin_migration`, and whether the table could be allocated. -/
def beginMigration (capacity : Nat) : RehashMap K V × Bool :=
  if config.allocates capacity then
    ({ s with next := .allocate capacity, migrationCursor := 0 }, true)
  else (s, false)

/-- The table that entries are put into. -/
def target : RehashTable K V := if s.isMigrating then s.next else s.current

/-- The size of the table that a settled map moves to: twice its own, or the same if it is
tombstones that fill it. -/
def targetCapacity : Nat :=
  if s.current.capacity < s.current.live * 2 * 2 then s.current.capacity * 2 else s.current.capacity

/-- **`make_room_for_one`**, and whether there is room. -/
def makeRoomForOne : Option (RehashMap K V × Bool) :=
  if s.current.capacity = 0 ∧ s.isMigrating = false then
    some (if config.allocates minimumCapacity then ({ s with current := .allocate minimumCapacity }, true)
        else (s, false))
  else if (s.target.used + 1) * 2 ≤ s.target.capacity then some (s, true)
  else
    (if s.isMigrating then s.completeMigration config else some s).map fun t =>
      t.beginMigration config t.targetCapacity

/-! ## Operations -/

section Operations

variable [DecidableEq K]

section

variable (s : RehashMap K V)

section

variable (key : K)

/-- **`find`**. -/
def find : RehashPosition :=
  let inNext := s.next.findSlot key (config.hash key)
  let inCurrent := s.current.findSlot key (config.hash key)
  if s.isMigrating ∧ inNext ≠ s.next.capacity then s.advanceToOccupied (.next inNext)
  else if inCurrent ≠ s.current.capacity then s.advanceToOccupied (.current inCurrent)
  else .atEnd

/-- `count`. -/
def count : Nat := if s.find config key = .atEnd then 0 else 1

/-- **`find_value`**: the value that the pointer leads to. -/
def findValue : Option V :=
  let inNext := s.next.findSlot key (config.hash key)
  let inCurrent := s.current.findSlot key (config.hash key)
  if s.isMigrating ∧ inNext ≠ s.next.capacity then (Probing.slotAt s.next.slots inNext).content.map Prod.snd
  else if inCurrent ≠ s.current.capacity then
    (Probing.slotAt s.current.slots inCurrent).content.map Prod.snd
  else none

/-- Put an entry whose key is absent into the table that entries are put into. -/
def place (value : V) : Option (RehashMap K V × RehashPosition) :=
  (s.target.findFreeSlot (config.hash key)).map fun slot =>
    if s.isMigrating then
      let t := { s with next := s.next.constructAt slot key value, size := s.size + 1 }
      (t, t.advanceToOccupied (.next slot))
    else
      let t := { s with current := s.current.constructAt slot key value, size := s.size + 1 }
      (t, t.advanceToOccupied (.current slot))

/-- **`insert_entry`**: the entry and whether it is new, or `none` where no table could be
allocated. -/
def insertEntry (value : V) (assignExisting : Bool) :
    Option (RehashMap K V × Option (RehashPosition × Bool)) :=
  (s.stepMigration config).bind fun t =>
    let inNext := t.next.findSlot key (config.hash key)
    let inCurrent := t.current.findSlot key (config.hash key)
    if t.isMigrating ∧ inNext ≠ t.next.capacity then
      let u := if assignExisting then { t with next := t.next.assign inNext value } else t
      some (u, some (u.advanceToOccupied (.next inNext), false))
    else if inCurrent ≠ t.current.capacity then
      let u := if assignExisting then { t with current := t.current.assign inCurrent value } else t
      some (u, some (u.advanceToOccupied (.current inCurrent), false))
    else
      (t.makeRoomForOne config).bind fun room =>
        if room.2 then (room.1.place config key value).map fun placed => (placed.1, some (placed.2, true))
        else some (room.1, none)

/-- `emplace`. -/
def emplace (value : V) :
    Option (RehashMap K V × Option (RehashPosition × Bool)) := s.insertEntry config key value false

/-- `insert_or_assign`. -/
def insertOrAssign (value : V) :
    Option (RehashMap K V × Option (RehashPosition × Bool)) := s.insertEntry config key value true

end

/-- The removal of `erase(ConstIterator)`, before the migration is advanced. -/
def removeAt : RehashPosition → RehashMap K V
  | .current slot => { s with current := s.current.remove slot, size := s.size - 1 }
  | .next slot => { s with next := s.next.remove slot, size := s.size - 1 }
  | .atEnd => s

/-- **`erase(ConstIterator)`**: the iterator that follows is found before the migration is advanced. -/
def eraseAt (position : RehashPosition) : Option (RehashMap K V × RehashPosition) :=
  if position = .atEnd then some (s, .atEnd)
  else
    let removed := s.removeAt position
    (removed.stepMigration config).map fun t => (t, removed.increment position)

/-- **`erase(key)`**: how many entries were erased. -/
def erase (key : K) : Option (RehashMap K V × Nat) :=
  let position := s.find config key
  if position = .atEnd then (s.stepMigration config).map fun t => (t, 0)
  else (s.eraseAt config position).map fun erased => (erased.1, 1)

end

end Operations

/-- **`reserve`**, and whether the table could be allocated. -/
def reserve (entryCount : Nat) : Option (RehashMap K V × Bool) :=
  (capacityFor entryCount).map fun wanted =>
    if s.size = 0 ∧ s.isMigrating = false then
      if s.current.capacity < wanted then
        if config.allocates wanted then ({ s with current := .allocate wanted }, true) else (s, false)
      else (s, true)
    else if s.current.capacity < wanted ∧ s.isMigrating = false then s.beginMigration config wanted
    else (s, true)

/-- `clear`: the storage of the first table is kept. -/
def clear : RehashMap K V :=
  { current := s.current.destroyEntries, next := .absent, migrationCursor := 0, size := 0 }

end RehashMap

end PubsubVenue
