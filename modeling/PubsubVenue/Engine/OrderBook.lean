import PubsubVenue.Machine
import PubsubVenue.Container.MappedSlotStore
import PubsubVenue.Container.ValidMap
import PubsubVenue.Sequencer.ReportStores
import Mathlib.Data.List.Sort

/-! # The order book

The orders that the venue is holding: records in a mapped file, the region, and a map from the
identity of an order to the record that holds it. An operation changes the map, which dies with the
process, and makes writes to the region, which outlives it; a process that opens the region files
its records anew (`recover`). Whether trading is halted and the latest void known of are kept in the
region too, and, with the same values, in memory. -/

namespace PubsubVenue

/-- `fix_order_limits::max_cl_ord_id_length`. -/
def maxClOrdIdLength : Nat := 64

/-- `OrderKey`: the identity of an order. -/
structure OrderKey where
  session : SessionIdentity
  clOrdId : Bytes
  fits : clOrdId.length ≤ maxClOrdIdLength
  deriving DecidableEq

namespace OrderKey

/-- `OrderKey::fits`. -/
def idFits (id : Bytes) : Bool := decide (id.length ≤ maxClOrdIdLength)

/-- `OrderKey::make`, which cuts short an identifier that is too long. -/
def make (session : SessionIdentity) (id : Bytes) : OrderKey where
  session
  clOrdId := id.take maxClOrdIdLength
  fits := List.length_take_le _ _

end OrderKey

/-- `OrderEntry`: an open order, with the values that FIX gives its side, type and time in force. -/
structure OrderEntry where
  placedAtSeqNo : Int
  session : SessionIdentity
  side : UInt8
  ordType : UInt8
  timeInForce : Option UInt8
  expireTime : Option Int
  clOrdId : Bytes
  symbol : Bytes
  orderQty : Bytes
  price : Option Bytes
  deriving DecidableEq

namespace OrderEntry

/-- `max_symbol_length`. -/
def maxSymbolLength : Nat := 16

/-- `max_qty_length`, for quantities and prices. -/
def maxQtyLength : Nat := 24

/-- The identity that the record carries. -/
def key (entry : OrderEntry) : OrderKey := .make entry.session entry.clOrdId

end OrderEntry

/-- **The book.** -/
structure OrderBook (config : RehashConfig OrderKey) where
  region : MappedSlotStore OrderEntry
  index : ValidMap config Nat

/-- What an operation does: its writes to the region, and the map that it leaves. -/
structure BookChange (config : RehashConfig OrderKey) where
  writes : List (RegionWrite OrderEntry)
  index : ValidMap config Nat

/-- How `add` ends. -/
inductive AddResult
  | added
  | full
  /-- The map could not grow. -/
  | threw
  deriving DecidableEq

namespace OrderBook

variable {config : RehashConfig OrderKey}

section

variable (b : OrderBook config)

/-- The book after an operation. -/
def after (change : BookChange config) : OrderBook config where
  region := b.region.writeAll change.writes
  index := change.index

/-- `halted`. -/
def halted : Bool := b.region.ownerValues .halted != 0

/-- `voids_known_through`. -/
def voidsKnownThrough : Int := b.region.ownerValues .voidsKnownThrough

/-- `contains`. -/
def contains (key : OrderKey) : Bool := (b.index.find key).isSome

/-- `entry_at`. -/
def entryAt (slot : Nat) : OrderEntry := (b.region.slots slot).payload

/-- `find`. -/
def find (key : OrderKey) : Option OrderEntry := (b.index.find key).map b.entryAt

/-- `size`. -/
def size : Nat := b.index.size

end

/-- The writes of `add` that put a record in a slot: the record, the identity again, and the stamp
that makes it live. -/
def storing (slot : Nat) (key : OrderKey) (entry : OrderEntry) (seqNo : Int) :
    List (RegionWrite OrderEntry) :=
  [.payload slot entry, .payload slot { entry with session := key.session },
    .payload slot { entry with session := key.session, clOrdId := key.clOrdId }] ++
      MappedSlotStore.commit slot seqNo

variable (b : OrderBook config)

/-- **`add`**, when some tables of the map can be allocated. Where the map cannot grow the record is
released again. -/
def add (allocates : Nat → Bool) (key : OrderKey) (entry : OrderEntry) (seqNo : Int) :
    BookChange config × AddResult :=
  match b.region.acquire with
  | none => (⟨[], b.index⟩, .full)
  | some (slot, taking) =>
    let writes := taking ++ storing slot key entry seqNo
    match b.index.emplace allocates key slot with
    | (index, some _) => (⟨writes, index⟩, .added)
    | (index, none) => (⟨writes ++ (b.region.writeAll writes).release slot, index⟩, .threw)

/-- **`remove`**. -/
def remove (key : OrderKey) : BookChange config × Bool :=
  match b.index.find key with
  | none => (⟨[], b.index⟩, false)
  | some slot => (⟨b.region.release slot, b.index.erase key⟩, true)

/-- The loop of `remove_placed_through`: each record is taken out of the map, by the identity it
carries, and released. -/
def removeEach (b : OrderBook config) : List Nat → BookChange config
  | [] => ⟨[], b.index⟩
  | slot :: rest =>
    let first : BookChange config := ⟨b.region.release slot, b.index.erase (b.entryAt slot).key⟩
    let more := (b.after first).removeEach rest
    ⟨first.writes ++ more.writes, more.index⟩

/-- The records that `remove_placed_through` takes out: those placed at or before a sequence number,
in the order in which they were placed. -/
def placedThrough (through : Int) : List (Int × Nat) :=
  let placed := b.index.entries.map fun kv => ((b.entryAt kv.2).placedAtSeqNo, kv.2)
  (placed.filter fun order => order.1 ≤ through).insertionSort fun x y => x.1 < y.1 ∨ x.1 = y.1 ∧ x.2 ≤ y.2

/-- **`remove_placed_through`**, where the function that it calls returns for so many of the
records, and throws at the next. -/
def removePlacedThrough (through : Int) (calls : Nat) : BookChange config :=
  b.removeEach (((b.placedThrough through).take calls).map Prod.snd)

/-- The loop of `clear` over the map, which releases every record. -/
def releaseEach (region : MappedSlotStore OrderEntry) : List Nat → List (RegionWrite OrderEntry)
  | [] => []
  | slot :: rest => region.release slot ++ releaseEach (region.writeAll (region.release slot)) rest

/-- **`clear`**. -/
def clear : BookChange config :=
  ⟨releaseEach b.region (b.index.entries.map Prod.snd), b.index.clear⟩

/-- `publish`. -/
def publish (seqNo : Int) : BookChange config := ⟨[.published seqNo], b.index⟩

/-- `set_halted`, `set_voids_known_through` and `set_applying`. -/
def setOwnerValue (index : OwnerValue) (value : Int) : BookChange config :=
  ⟨[.ownerValue index value], b.index⟩

/-- `open`, of a region that is not there yet. -/
def create (slotCount : Nat) (hpos : 0 < slotCount) (hlt : slotCount < noSlot) (blank : OrderEntry)
    (mapCapacity : { n // (RehashMap.capacityFor n).isSome }) (allocates : Nat → Bool) :
    Option (OrderBook config) :=
  let (index, reserved) :=
    (ValidMap.fresh : ValidMap config Nat).reserve allocates mapCapacity.1 mapCapacity.2
  if reserved then some ⟨.create slotCount hpos hlt blank, index⟩ else none

/-- The loop of `recover` over the records, which files those that are recoverable: the map, or
`none` where it could not grow. -/
def fileRecords (region : MappedSlotStore OrderEntry) (allocates : Nat → Nat → Bool) :
    List Nat → ValidMap config Nat → Option (ValidMap config Nat)
  | [], index => some index
  | slot :: rest, index =>
    if region.isRecoverable slot then
      match index.emplace (allocates slot) (region.slots slot).payload.key slot with
      | (index, some _) => fileRecords region allocates rest index
      | (_, none) => none
    else fileRecords region allocates rest index

/-- **`open`** of a region that is there, and **`recover`**: the map that is filled, and the free
list that is built anew. -/
def recover (region : MappedSlotStore OrderEntry) (mapCapacity : { n // (RehashMap.capacityFor n).isSome })
    (allocates : Nat → Nat → Bool) : Option (BookChange config) :=
  let (index, reserved) := (ValidMap.fresh : ValidMap config Nat).reserve (allocates region.slotCount)
    mapCapacity.1 mapCapacity.2
  if reserved then
    (fileRecords region allocates (List.range region.slotCount) index).map fun index =>
      ⟨region.rebuildFreeList, index⟩
  else none

/-- What `consistency_problem` may say. -/
inductive Problem
  | counts (live size : Nat)
  | notInUse (record : Nat)
  | otherOrder (record : Nat)
  | notFound (record : Nat)
  deriving DecidableEq

/-- **`consistency_problem`**. -/
def consistencyProblem : Option Problem :=
  let live := (List.range b.region.slotCount).countP b.region.isLive
  if live ≠ b.index.size then some (.counts live b.index.size)
  else
    b.index.entries.findSome? fun kv =>
      if b.region.isLive kv.2 = false then some (.notInUse kv.2)
      else if (b.entryAt kv.2).key ≠ kv.1 then some (.otherOrder kv.2)
      else if b.index.find kv.1 = none then some (.notFound kv.2)
      else none

end OrderBook

/-- The operations on a book. -/
inductive BookOp
  | add (allocates : Nat → Bool) (key : OrderKey) (entry : OrderEntry) (seqNo : Int)
  | remove (key : OrderKey)
  | removePlacedThrough (through : Int) (calls : Nat)
  | clear
  | publish (seqNo : Int)
  | setOwnerValue (index : OwnerValue) (value : Int)

/-- What an operation does to the book. -/
def OrderBook.call {config : RehashConfig OrderKey} (b : OrderBook config) : BookOp → BookChange config
  | .add allocates key entry seqNo => (b.add allocates key entry seqNo).1
  | .remove key => (b.remove key).1
  | .removePlacedThrough through calls => b.removePlacedThrough through calls
  | .clear => b.clear
  | .publish seqNo => b.publish seqNo
  | .setOwnerValue index value => b.setOwnerValue index value

/-- An order is added under a key that is not on the book. -/
def OrderBook.Allows {config : RehashConfig OrderKey} (b : OrderBook config) : BookOp → Prop
  | .add _ key _ _ => b.index.find key = none
  | _ => True

instance {config : RehashConfig OrderKey} (b : OrderBook config) (op : BookOp) : Decidable (b.Allows op) := by
  unfold OrderBook.Allows
  split <;> infer_instance

/-- A process with a book, or the region that a process left behind. -/
inductive BookProcess (config : RehashConfig OrderKey)
  | running (book : OrderBook config)
  | dead (region : MappedSlotStore OrderEntry)

/-- What happens to a process. -/
inductive BookEvent
  | call (op : BookOp)
  /-- It dies in an operation, after some of its writes. -/
  | die (op : BookOp) (writes : Nat) (garbage : OrderEntry)
  /-- Another opens the region and recovers the book, unless it cannot allocate the map, and dies. -/
  | reopen (mapCapacity : { n // (RehashMap.capacityFor n).isSome }) (allocates : Nat → Nat → Bool)
  /-- Another opens the region, and dies in `recover`, after some of its writes. -/
  | dieReopening (writes : Nat) (garbage : OrderEntry)

namespace BookProcess

/-- **The life of a book.** -/
def step (config : RehashConfig OrderKey) : Machine (BookProcess config) BookEvent
  | .running b, .call op => if b.Allows op then some (.running (b.after (b.call op))) else none
  | .running b, .die op writes garbage =>
    if b.Allows op then some (.dead (b.region.dyingAfter garbage writes (b.call op).writes)) else none
  | .dead region, .reopen mapCapacity allocates =>
    match OrderBook.recover region mapCapacity allocates with
    | some change => some (.running ⟨region.writeAll change.writes, change.index⟩)
    | none => some (.dead region)
  | .dead region, .dieReopening writes garbage =>
    some (.dead (region.dyingAfter garbage writes region.rebuildFreeList))
  | _, _ => none

end BookProcess

end PubsubVenue
