import PubsubVenue.Engine.OrderBook
import PubsubVenue.Codec.Decode

/-! # Commands and execution reports

What a matching engine is sent and what it answers: the commands of members and of the venue, the
execution reports, the identifiers that it gives orders and reports, and the list of the voids that
it knows of. The groups of an order are copied to the report that accepts it, in an arena that grows
to what they need. -/

namespace PubsubVenue

namespace Matching

/-- The values of `ExecType` that the engine gives. -/
inductive ExecType
  | new
  | canceled
  | rejected
  deriving DecidableEq

/-- The values of `OrdStatus` that the engine gives. -/
inductive OrdStatus
  | new
  | canceled
  | rejected
  deriving DecidableEq

/-- The values of `OrdRejReason` that the engine gives. -/
inductive OrdRejReason
  | exchangeClosed
  | duplicateOrder
  | unknownOrder
  | other
  deriving DecidableEq

/-! ## Identifiers -/

/-- What an identifier names: `ReportIdentifiers::Kind`. -/
inductive IdentifierKind
  | order
  | report
  deriving DecidableEq

/-- An identifier, by what its text is made of: the keys of a trading date, and a position. -/
structure Identifier where
  kind : IdentifierKind
  tradingDate : Int
  sequenceNumber : Int
  place : Nat
  deriving DecidableEq

/-- `sequence_number_limit`. -/
def sequenceNumberLimit : Int := 68719476736

/-- `place_limit`. -/
def placeLimit : Nat := 268435456

/-- `ReportIdentifiers::fits`. -/
def identifierFits (sequenceNumber : Int) (place : Nat) : Bool :=
  decide (0 ≤ sequenceNumber ∧ sequenceNumber < sequenceNumberLimit ∧ place < placeLimit)

/-! ## Orders and their groups -/

/-- An element of the group NoUnderlyings. -/
structure Underlying where
  symbol : Option Bytes
  securityId : Option Bytes
  qty : Option Bytes
  deriving DecidableEq

/-- An element of the group NoPartySubIDs. -/
structure PartySubId where
  id : Option Bytes
  idType : Option Int
  deriving DecidableEq

/-- An element of the group NoPartyIDs. -/
structure PartyId where
  id : Option Bytes
  source : Option UInt8
  role : Option Int
  subIds : List PartySubId
  deriving DecidableEq

/-- `NewOrderSingleView`. -/
structure NewOrderSingle where
  clOrdId : Bytes
  symbol : Bytes
  side : UInt8
  ordType : UInt8
  orderQty : Bytes
  price : Option Bytes
  timeInForce : Option UInt8
  expireTime : Option Int
  underlyings : List Underlying
  partyIds : List PartyId
  deriving DecidableEq

/-- `OrderCancelRequestView`. -/
structure OrderCancelRequest where
  clOrdId : Bytes
  origClOrdId : Bytes
  symbol : Bytes
  side : UInt8
  orderQty : Option Bytes
  deriving DecidableEq

/-- `ExecutionReport`. -/
structure ExecutionReport where
  orderId : Option Identifier
  execId : Identifier
  execType : ExecType
  ordStatus : OrdStatus
  symbol : Bytes
  side : UInt8
  leavesQty : Bytes
  cumQty : String := "0"
  avgPx : String := "0.00"
  transactTime : Int
  clOrdId : Option Bytes
  origClOrdId : Option Bytes := none
  orderQty : Option Bytes
  ordRejReason : Option OrdRejReason := none
  text : Option String := none
  ordType : Option UInt8 := none
  timeInForce : Option UInt8 := none
  expireTime : Option Int := none
  price : Option Bytes := none
  underlyings : List Underlying := []
  partyIds : List PartyId := []
  deriving DecidableEq

/-- The quantity of an order that is not open. -/
def noQty : Bytes := [48]

/-- A report that rejects a new order. -/
def rejectedOrder (view : NewOrderSingle) (execId : Identifier) (transactTime : Int) (reason : OrdRejReason)
    (text : Option String) : ExecutionReport :=
  { orderId := none, execId, execType := .rejected, ordStatus := .rejected, symbol := view.symbol
    side := view.side, leavesQty := noQty, transactTime, clOrdId := some view.clOrdId
    orderQty := some view.orderQty, ordRejReason := some reason, text }

/-- A report that rejects a cancel. -/
def rejectedCancel (view : OrderCancelRequest) (execId : Identifier) (transactTime : Int)
    (reason : OrdRejReason) (text : Option String) : ExecutionReport :=
  { orderId := none, execId, execType := .rejected, ordStatus := .rejected, symbol := view.symbol
    side := view.side, leavesQty := noQty, transactTime, clOrdId := some view.clOrdId
    origClOrdId := some view.origClOrdId, orderQty := view.orderQty, ordRejReason := some reason, text }

/-- A report of an order that is taken off the book. -/
def canceledOrder (entry : OrderEntry) (orderId execId : Identifier) (transactTime : Int) (clOrdId : Bytes)
    (origClOrdId : Option Bytes) : ExecutionReport :=
  { orderId := some orderId, execId, execType := .canceled, ordStatus := .canceled, symbol := entry.symbol
    side := entry.side, leavesQty := noQty, transactTime, clOrdId := some clOrdId, origClOrdId
    orderQty := some entry.orderQty, ordType := some entry.ordType, timeInForce := entry.timeInForce
    expireTime := entry.expireTime, price := entry.price }

/-! ## Copying groups -/

/-- The size and the alignment of the elements of a group in memory. -/
structure ElementLayout where
  size : Nat
  alignment : Nat

/-- The layouts of the elements of the groups of an order. -/
structure GroupLayouts where
  underlyings : ElementLayout
  partyIds : ElementLayout
  partySubIds : ElementLayout

variable (layouts : GroupLayouts)

/-- `echo_underlyings`: none where the arena is exhausted. -/
def echoUnderlyings (source : List Underlying) (arena : BumpAllocator) : List Underlying × BumpAllocator :=
  if source.isEmpty then ([], arena)
  else
    let (allocated, arena) :=
      arena.allocate layouts.underlyings.size layouts.underlyings.alignment source.length
    (if allocated then source else [], arena)

/-- The loop of `echo_parties`: a party without its sub-ids where the arena is exhausted. -/
def echoEachParty (layouts : GroupLayouts) : List PartyId → BumpAllocator → List PartyId × BumpAllocator
  | [], arena => ([], arena)
  | party :: rest, arena =>
    if party.subIds.isEmpty then
      let (others, arena) := echoEachParty layouts rest arena
      (party :: others, arena)
    else
      let (allocated, arena) :=
        arena.allocate layouts.partySubIds.size layouts.partySubIds.alignment party.subIds.length
      let (others, arena) := echoEachParty layouts rest arena
      ((if allocated then party else { party with subIds := [] }) :: others, arena)

/-- `echo_parties`. -/
def echoParties (source : List PartyId) (arena : BumpAllocator) : List PartyId × BumpAllocator :=
  if source.isEmpty then ([], arena)
  else
    let (allocated, arena) := arena.allocate layouts.partyIds.size layouts.partyIds.alignment source.length
    if allocated then echoEachParty layouts source arena else ([], arena)

/-- `max_er_group_arena_size`. -/
def maxErGroupArenaSize : Nat := 1048576

/-- The groups of an order, copied in an arena of a size, and the bytes that they need. -/
def echoOnce (view : NewOrderSingle) (arenaSize : Nat) : (List Underlying × List PartyId) × Nat :=
  let (underlyings, arena) := echoUnderlyings layouts view.underlyings ⟨true, arenaSize, 0⟩
  let (partyIds, arena) := echoParties layouts view.partyIds arena
  ((underlyings, partyIds), arena.bytesUsed)

/-! ## Voids -/

/-- `VoidReason`. -/
inductive VoidReason
  | engineDiedApplying
  | heldWhenTradingHalted
  deriving DecidableEq

/-- `VoidedRange`: a void, by its place in the WAL and the commands that it voids. -/
structure VoidedRange where
  voidSeqNo : Int
  firstSeqNo : Int
  lastSeqNo : Int
  newOrdersOnly : Bool
  reason : VoidReason
  deriving DecidableEq

/-- `VoidedKind`. -/
inductive VoidedKind
  | newOrder
  | cancel
  deriving DecidableEq

/-- The void names the command at a position. -/
def VoidedRange.names (v : VoidedRange) (sequenceNumber : Int) (kind : VoidedKind) : Bool :=
  decide (v.firstSeqNo ≤ sequenceNumber ∧ sequenceNumber ≤ v.lastSeqNo) &&
    (kind == .newOrder || !v.newOrdersOnly)

section

variable (voids : List VoidedRange)

/-- `VoidedCommandList::at`. -/
def voidAt (voidSeqNo : Int) : Option VoidedRange :=
  voids.find? fun held => held.voidSeqNo = voidSeqNo

/-- `VoidedCommandList::voiding`. -/
def voiding (sequenceNumber : Int) (kind : VoidedKind) : Option VoidedRange :=
  voids.find? fun held => held.names sequenceNumber kind

/-- `VoidedCommandList::add`: before the first that is later, unless one at the position is there. -/
def addVoid (voided : VoidedRange) : List VoidedRange × Bool :=
  if (voidAt voids voided.voidSeqNo).isSome then (voids, false)
  else
    (voids.takeWhile (fun held => held.voidSeqNo ≤ voided.voidSeqNo) ++
      voided :: voids.dropWhile (fun held => held.voidSeqNo ≤ voided.voidSeqNo), true)

end

end Matching

end PubsubVenue
