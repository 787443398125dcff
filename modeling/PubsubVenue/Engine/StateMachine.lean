import PubsubVenue.Engine.Reports

/-! # The matching engine's state machine

`MatchingEngineStateMachine`: what each command of the WAL does to the book, and the reports that
answer it. A command is applied live, as it arrives, or as part of a catch-up. Anything that a
command calls may throw; which calls do is given with each command (`Faults`), by their places in
the code (`CallSite`). A command of a member that fails is rejected if it had changed nothing and
answered nothing.

What is logged, and what a test is told of each outcome, is left out. -/

namespace PubsubVenue

namespace Matching

/-- `CommandSource`. -/
inductive CommandSource
  | live
  | catchUp
  deriving DecidableEq

/-- The calls that may throw. -/
inductive CallSite
  /-- Deriving the keys of a trading date. -/
  | tradingDateKeys
  /-- Making the ciphers, when those in use have been dropped. -/
  | tradingDateCiphers
  | refusalOutcome
  | execId
  | orderId
  | refusalReport
  | unknownOrderOutcome
  | orderAccepted
  | groupArena
  | acceptedReport
  | acceptedOutcome
  | cancelOrderId
  | canceledReport
  | canceledOutcome
  | rejectionExecId
  | rejectionReport
  | cancelBookReport (place : Nat)
  | learnVoid
  deriving DecidableEq

/-- Which calls throw while a command is applied, and which tables of the map can be allocated. -/
structure Faults where
  fails : CallSite → Bool
  allocates : Nat → Bool

/-- A report that was sent: the sequence number and the session that it was sent with, and whether
it is marked as a possible repeat. -/
structure SentReport where
  report : ExecutionReport
  sequenceNumber : Int
  session : SessionIdentity
  isRepeat : Bool
  deriving DecidableEq

/-- **The engine**: the book, the identifiers (`tradingDate`, and the date that the ciphers in use
are made for), and what the state machine keeps. Beside these: the reports sent, and all writes made
to the region. -/
structure Engine (config : RehashConfig OrderKey) where
  book : OrderBook config
  tradingDate : Int
  ciphers : Option Int
  voids : List VoidedRange
  highestApplied : Int
  arenaSize : Nat
  reportsForCommand : Nat
  bookChanged : Bool
  ordersProcessed : Nat
  sent : List SentReport
  written : List (RegionWrite OrderEntry)

/-- The engine when it is made, with a book. -/
def Engine.start {config : RehashConfig OrderKey} (book : OrderBook config) : Engine config where
  book
  tradingDate := -1
  ciphers := none
  voids := []
  highestApplied := 0
  arenaSize := 4096
  reportsForCommand := 0
  bookChanged := false
  ordersProcessed := 0
  sent := []
  written := []

/-- A part of the state machine's work, which may throw. -/
abbrev EngineM (config : RehashConfig OrderKey) := EStateM Unit (Engine config)

variable {config : RehashConfig OrderKey}

/-- Change the book. -/
def changeBook (change : OrderBook config → BookChange config) : EngineM config Unit :=
  modify fun s =>
    { s with book := s.book.after (change s.book), written := s.written ++ (change s.book).writes }

section

variable (sequenceNumber : Int)

/-- `OrderBook::publish`. -/
def publish : EngineM config Unit := changeBook fun b => b.publish sequenceNumber

/-- `set_halted`. -/
def setHalted (halted : Bool) : EngineM config Unit := do
  if halted = (← get).book.halted then return
  changeBook fun b => b.setOwnerValue .halted (if halted then 1 else 0)

/-- `refuse_to_name`. -/
def refuseToName : EngineM config Unit := setHalted true

/-- `applied_before`. -/
def appliedBefore : EngineM config Bool := do
  if (← get).highestApplied < sequenceNumber then
    modify fun s => { s with highestApplied := sequenceNumber }
    return false
  return true

/-- `sequence_goes_backwards`. -/
def sequenceGoesBackwards : EngineM config Bool := do
  if sequenceNumber ≤ (← get).highestApplied then return true
  modify fun s => { s with highestApplied := sequenceNumber }
  return false

/-- `publish_after_refusal`. -/
def publishAfterRefusal (source : CommandSource) : EngineM config Unit :=
  if source = .catchUp then publish sequenceNumber else pure ()

/-- `begin_command`. -/
def beginCommand : EngineM config Unit :=
    modify fun s => { s with reportsForCommand := 0, bookChanged := false }

/-- `note_caught_up_to`. -/
def noteCaughtUpTo : EngineM config Unit :=
  modify fun s => { s with highestApplied := max s.highestApplied sequenceNumber }

end

/-! ## Calls that may throw -/

section Calls

variable (f : Faults) (site : CallSite)

/-- A call, which throws or does not. -/
def call : EngineM config Unit := if f.fails site then throw () else pure ()

/-- `use_trading_date`. -/
def useTradingDate (date : Int) : EngineM config Unit := do
  if date = (← get).tradingDate then return
  call f .tradingDateKeys
  modify fun s => { s with ciphers := none }
  call f .tradingDateCiphers
  modify fun s => { s with ciphers := some date, tradingDate := date }

/-- `ReportIdentifiers::exec_id` and `order_id`. -/
def identifier (kind : IdentifierKind) (sequenceNumber : Int) (place : Nat) :
    EngineM config Identifier := do
  match (← get).ciphers with
  | none => throw ()
  | some date =>
    if identifierFits sequenceNumber place = false then throw ()
    call f site
    return { kind, tradingDate := date, sequenceNumber, place }

/-- `MatchingEngineOutputsInterface::send_report`. -/
def outputReport (report : ExecutionReport) (sequenceNumber : Int) (session : SessionIdentity)
    (source : CommandSource) : EngineM config Unit := do
  call f site
  modify fun s =>
    { s with sent := s.sent ++ [{ report, sequenceNumber, session, isRepeat := source == .catchUp }] }

/-- `send_report`, which counts the reports of the command. -/
def sendReport (report : ExecutionReport) (sequenceNumber : Int) (session : SessionIdentity)
    (source : CommandSource) : EngineM config Unit := do
  outputReport f site report sequenceNumber session source
  modify fun s => { s with reportsForCommand := s.reportsForCommand + 1 }

/-- `after_failure`: the command is rejected if it had changed nothing and answered nothing, and the
position is published if it had changed the book. -/
def afterFailure (sequenceNumber : Int) (source : CommandSource) (sendRejection : EngineM config Unit) :
    EngineM config Unit := do
  let s ← get
  try
    if s.bookChanged = false ∧ s.reportsForCommand = 0 then
      sendRejection
      publishAfterRefusal sequenceNumber source
    else if s.bookChanged then publish sequenceNumber
  catch _ => pure ()

end Calls

/-! ## Commands of members -/

/-- What a command of a member carries beside the command: its place in the WAL, the time and the
trading date of its record, its session, and how it arrives. -/
structure Arrival where
  sequenceNumber : Int
  transactTime : Int
  tradingDate : Int
  session : SessionIdentity
  source : CommandSource

/-- What `apply_new_order_unguarded` and `apply_cancel_unguarded` do with a command that is not
passed over: one that cannot be named halts trading, and a live one that is out of sequence is
refused. -/
def namedCommand (f : Faults) (a : Arrival) (refuseOutOfSequence applyInSequence : EngineM config Unit) :
    EngineM config Unit := do
  if identifierFits a.sequenceNumber 0 = false then refuseToName
  else
    useTradingDate f a.tradingDate
    if a.source = .live then
      if ← sequenceGoesBackwards a.sequenceNumber then refuseOutOfSequence else applyInSequence
    else applyInSequence

/-- What `apply_new_order_unguarded` and `apply_cancel_unguarded` do: a command that a catch-up
delivers again is passed over. -/
def checkedCommand (f : Faults) (a : Arrival) (refuseOutOfSequence applyInSequence : EngineM config Unit) :
    EngineM config Unit := do
  if a.source = .catchUp then
    if ← appliedBefore a.sequenceNumber then pure () else namedCommand f a refuseOutOfSequence applyInSequence
  else namedCommand f a refuseOutOfSequence applyInSequence

/-- What `apply_new_order` and `apply_cancel` do: the command, and what is done about a failure of
it. -/
def guardedCommand (a : Arrival) (unguarded rejectFailed : EngineM config Unit) : EngineM config Unit := do
  beginCommand
  try unguarded
  catch _ => afterFailure a.sequenceNumber a.source rejectFailed

/-! ## New orders -/

section NewOrders

variable (layouts : GroupLayouts) (f : Faults) (view : NewOrderSingle) (a : Arrival)

/-- Reject the order, with an identifier made for the report. -/
def refuseOrder (reason : OrdRejReason) (text : Option String) : EngineM config Unit := do
  let execId ← identifier f .execId .report a.sequenceNumber 0
  sendReport f .refusalReport (rejectedOrder view execId a.transactTime reason text)
    a.sequenceNumber a.session a.source

/-- `refuse_out_of_sequence_order`. -/
def refuseOutOfSequenceOrder : EngineM config Unit :=
  refuseOrder f view a .other "Venue could not process the order: it arrived out of sequence"

/-- `refuse_order_without_time`. -/
def refuseOrderWithoutTime : EngineM config Unit :=
  refuseOrder f view a .other
    (if a.transactTime = 0 then "Venue could not process the order: it carried no time"
      else "Venue could not process the order: it carried no trading date")

/-- `voided_order_text`. -/
def voidedOrderText : VoidReason → String
  | .heldWhenTradingHalted => "Trading halted while the order was waiting to be matched"
  | .engineDiedApplying =>
    "Venue could not process the order: the matching engines stopped while applying it"

/-- `refuse_voided_order`. -/
def refuseVoidedOrder (voided : VoidedRange) : EngineM config Unit := do
  call f .refusalOutcome
  refuseOrder f view a (if voided.reason = .heldWhenTradingHalted then .exchangeClosed else .other)
    (voidedOrderText voided.reason)

/-- `refuse_over_long_order`. -/
def refuseOverLongOrder : EngineM config Unit := do
  call f .refusalOutcome
  refuseOrder f view a .other ("ClOrdID exceeds maximum length of " ++ toString maxClOrdIdLength)

/-- The record of the order on the book. -/
def orderEntry : OrderEntry where
  placedAtSeqNo := a.sequenceNumber
  session := a.session
  side := view.side
  ordType := view.ordType
  timeInForce := view.timeInForce
  expireTime := view.expireTime
  clOrdId := []
  symbol := view.symbol.take OrderEntry.maxSymbolLength
  orderQty := view.orderQty.take OrderEntry.maxQtyLength
  price := view.price.map fun price => price.take OrderEntry.maxQtyLength

/-- The loop that copies the groups of the order, in an arena that at least doubles each time round,
up to its limit, so that it ends within the rounds that it is given. -/
def echoGroups : Nat → EngineM config (List Underlying × List PartyId)
  | 0 => return (echoOnce layouts view (← get).arenaSize).1
  | rounds + 1 => do
    let arenaSize := (← get).arenaSize
    let (groups, bytesUsed) := echoOnce layouts view arenaSize
    if bytesUsed ≤ arenaSize ∨ maxErGroupArenaSize ≤ arenaSize then return groups
    call f .groupArena
    modify fun s => { s with arenaSize := max bytesUsed (arenaSize * 2) }
    echoGroups rounds

/-- The report that accepts the order. -/
def acceptedOrder (orderId execId : Identifier) (groups : List Underlying × List PartyId) : ExecutionReport :=
  { orderId := some orderId, execId, execType := .new, ordStatus := .new, symbol := view.symbol
    side := view.side, leavesQty := view.orderQty, transactTime := a.transactTime
    clOrdId := some view.clOrdId
    orderQty := some view.orderQty, ordType := some view.ordType, timeInForce := view.timeInForce
    expireTime := view.expireTime, price := view.price, underlyings := groups.1, partyIds := groups.2 }

/-- `OrderBook::add`: whether there was room, where it does not throw. -/
def addOrder (key : OrderKey) : EngineM config Bool := do
  let (change, result) := (← get).book.add f.allocates key (orderEntry view a) a.sequenceNumber
  changeBook fun _ => change
  if result = .threw then throw ()
  modify fun s => { s with bookChanged := result == .added }
  return result == .added

/-- A live order is counted. -/
def countOrder (source : CommandSource) : EngineM config Unit := do
  if source = .live then
    call f .orderAccepted
    modify fun s => { s with ordersProcessed := s.ordersProcessed + 1 }

/-- The end of `apply_new_order_unguarded`, for an order that is on the book. -/
def acceptOrder (orderId execId : Identifier) : EngineM config Unit := do
  countOrder f a.source
  let groups ← echoGroups layouts f view 64
  sendReport f .acceptedReport (acceptedOrder view a orderId execId groups) a.sequenceNumber
    a.session a.source
  publish a.sequenceNumber
  call f .acceptedOutcome

/-- The part of `apply_new_order_unguarded` for an order whose identifier fits and that no void
names. -/
def applyNamedOrder : EngineM config Unit := do
  let key := OrderKey.make a.session view.clOrdId
  let execId ← identifier f .execId .report a.sequenceNumber 0
  if (← get).book.halted then
    sendReport f .refusalReport
      (rejectedOrder view execId a.transactTime .exchangeClosed (some "trading is halted")) a.sequenceNumber
      a.session a.source
    publishAfterRefusal a.sequenceNumber a.source
  else if (← get).book.contains key then
    call f .refusalOutcome
    sendReport f .refusalReport (rejectedOrder view execId a.transactTime .duplicateOrder none)
      a.sequenceNumber
      a.session a.source
    publishAfterRefusal a.sequenceNumber a.source
  else
    let orderId ← identifier f .orderId .order a.sequenceNumber 0
    if ← addOrder f view a key then acceptOrder layouts f view a orderId execId
    else
      sendReport f .refusalReport (rejectedOrder view execId a.transactTime .other
          (some "the venue is holding as many open orders as it can")) a.sequenceNumber a.session a.source
      publishAfterRefusal a.sequenceNumber a.source

/-- The part of `apply_new_order_unguarded` after the sequence of the commands has been checked. -/
def applyOrderInSequence : EngineM config Unit := do
  if a.transactTime = 0 ∨ a.tradingDate = 0 then
    refuseOrderWithoutTime f view a
    publishAfterRefusal a.sequenceNumber a.source
  else
    match voiding (← get).voids a.sequenceNumber .newOrder with
    | some voided =>
      refuseVoidedOrder f view a voided
      publishAfterRefusal a.sequenceNumber a.source
    | none =>
      if OrderKey.idFits view.clOrdId then applyNamedOrder layouts f view a
      else
        refuseOverLongOrder f view a
        publishAfterRefusal a.sequenceNumber a.source

/-- **`apply_new_order_unguarded`**. -/
def applyNewOrderUnguarded : EngineM config Unit :=
  checkedCommand f a (refuseOutOfSequenceOrder f view a) (applyOrderInSequence layouts f view a)

/-- The rejection of an order that failed. -/
def rejectFailedOrder : EngineM config Unit := do
  let execId ← identifier f .rejectionExecId .report a.sequenceNumber 0
  outputReport f .rejectionReport
    (rejectedOrder view execId a.transactTime .other (some "Venue could not process the order"))
      a.sequenceNumber
    a.session a.source

/-- **`apply_new_order`**. -/
def applyNewOrder : EngineM config Unit :=
  guardedCommand a (applyNewOrderUnguarded layouts f view a) (rejectFailedOrder f view a)

end NewOrders

/-! ## Cancels -/

section Cancels

variable (f : Faults) (view : OrderCancelRequest) (a : Arrival)

/-- Reject the cancel, with an identifier made for the report. -/
def refuseCancel (reason : OrdRejReason) (text : Option String) : EngineM config Unit := do
  let execId ← identifier f .execId .report a.sequenceNumber 0
  sendReport f .refusalReport (rejectedCancel view execId a.transactTime reason text)
    a.sequenceNumber a.session
    a.source

/-- `refuse_out_of_sequence_cancel`. -/
def refuseOutOfSequenceCancel : EngineM config Unit :=
  refuseCancel f view a .other
    "Venue could not process the cancel: it arrived out of sequence. The order is unchanged"

/-- `refuse_cancel_without_time`. -/
def refuseCancelWithoutTime : EngineM config Unit :=
  refuseCancel f view a .other
    (if a.transactTime = 0
      then "Venue could not process the cancel: it carried no time. The order is unchanged"
      else "Venue could not process the cancel: it carried no trading date. The order is unchanged")

/-- `voided_cancel_text`. -/
def voidedCancelText : VoidReason → String
  | .heldWhenTradingHalted =>
    "Trading halted while the cancel was waiting to be applied. The order is unchanged"
  | .engineDiedApplying =>
    "Venue could not process the cancel: the matching engines stopped while applying it. The order is unchanged"

/-- The order that a cancel names, if it is open. -/
def namedOrder (book : OrderBook config) : Option OrderEntry :=
  if OrderKey.idFits view.origClOrdId then book.find (OrderKey.make a.session view.origClOrdId) else none

/-- `refuse_voided_cancel`: the report says whether the order is open. -/
def refuseVoidedCancel (voided : VoidedRange) : EngineM config Unit := do
  call f .refusalOutcome
  match namedOrder view a (← get).book with
  | some entry =>
    let orderId ← identifier f .orderId .order entry.placedAtSeqNo 0
    let execId ← identifier f .execId .report a.sequenceNumber 0
    sendReport f .refusalReport
      { rejectedCancel view execId a.transactTime .other (voidedCancelText voided.reason) with
        orderId := some orderId, ordStatus := .new, leavesQty := entry.orderQty }
      a.sequenceNumber a.session a.source
  | none => refuseCancel f view a .unknownOrder (voidedCancelText voided.reason)

/-- `refuse_over_long_cancel`. -/
def refuseOverLongCancel : EngineM config Unit := do
  call f .refusalOutcome
  refuseCancel f view a .other
    ((if OrderKey.idFits view.origClOrdId then "ClOrdID" else "OrigClOrdID") ++
      " exceeds maximum length of " ++
      toString maxClOrdIdLength)

/-- The end of `apply_cancel_unguarded`, for an order that is on the book. -/
def cancelOrder (key : OrderKey) (entry : OrderEntry) (execId : Identifier) : EngineM config Unit := do
  changeBook fun b => (b.remove key).1
  modify fun s => { s with bookChanged := true }
  let orderId ← identifier f .cancelOrderId .order entry.placedAtSeqNo 0
  sendReport f .canceledReport
    (canceledOrder entry orderId execId a.transactTime view.clOrdId (some view.origClOrdId)) a.sequenceNumber
    a.session a.source
  publish a.sequenceNumber
  call f .canceledOutcome

/-- The part of `apply_cancel_unguarded` for a cancel whose identifiers fit and that no void names. -/
def applyNamedCancel : EngineM config Unit := do
  let key := OrderKey.make a.session view.origClOrdId
  let execId ← identifier f .execId .report a.sequenceNumber 0
  match (← get).book.find key with
  | some entry => cancelOrder f view a key entry execId
  | none =>
    sendReport f .refusalReport (rejectedCancel view execId a.transactTime .unknownOrder none)
      a.sequenceNumber
      a.session a.source
    publishAfterRefusal a.sequenceNumber a.source
    call f .unknownOrderOutcome

/-- The part of `apply_cancel_unguarded` after the sequence of the commands has been checked. -/
def applyCancelInSequence : EngineM config Unit := do
  if a.transactTime = 0 ∨ a.tradingDate = 0 then
    refuseCancelWithoutTime f view a
    publishAfterRefusal a.sequenceNumber a.source
  else
    match voiding (← get).voids a.sequenceNumber .cancel with
    | some voided =>
      refuseVoidedCancel f view a voided
      publishAfterRefusal a.sequenceNumber a.source
    | none =>
      if OrderKey.idFits view.clOrdId ∧ OrderKey.idFits view.origClOrdId then applyNamedCancel f view a
      else
        refuseOverLongCancel f view a
        publishAfterRefusal a.sequenceNumber a.source

/-- **`apply_cancel_unguarded`**. -/
def applyCancelUnguarded : EngineM config Unit :=
  checkedCommand f a (refuseOutOfSequenceCancel f view a) (applyCancelInSequence f view a)

/-- The rejection of a cancel that failed. -/
def rejectFailedCancel : EngineM config Unit := do
  let execId ← identifier f .rejectionExecId .report a.sequenceNumber 0
  outputReport f .rejectionReport (rejectedCancel view execId a.transactTime .other
      (some "Venue could not process the cancel. The order is unchanged")) a.sequenceNumber a.session a.source

/-- **`apply_cancel`**. -/
def applyCancel : EngineM config Unit :=
  guardedCommand a (applyCancelUnguarded f view a) (rejectFailedCancel f view a)

end Cancels

/-! ## Commands of the venue -/

section VenueCommands

variable (f : Faults)

/-- The loop of `apply_cancel_book` over the records that it takes off the book: each order is
reported, with sequence number 0, and then removed. -/
def cancelEach (sequenceNumber transactTime : Int) (source : CommandSource) :
    Nat → List (Int × Nat) → EngineM config Unit
  | _, [] => pure ()
  | place, order :: rest => do
    let entry := (← get).book.entryAt order.2
    let execId ← identifier f .execId .report sequenceNumber place
    let orderId ← identifier f .orderId .order entry.placedAtSeqNo 0
    outputReport f (.cancelBookReport place)
      (canceledOrder entry orderId execId transactTime entry.clOrdId none)
      0 entry.session source
    changeBook fun b => b.removeEach [order.2]
    cancelEach sequenceNumber transactTime source (place + 1) rest

/-- `BookCancelledByCommand`. -/
structure BookCancelledByCommand where
  applied : Bool := false
  openOrders : Nat := 0
  reportsSent : Nat := 0
  ordersKept : Nat := 0
  deriving DecidableEq

section

variable (ordersPlacedThrough sequenceNumber transactTime tradingDate : Int)

/-- The end of `apply_cancel_book`, for a command that is in sequence. -/
def cancelBookInSequence (source : CommandSource) : EngineM config BookCancelledByCommand := do
  useTradingDate f tradingDate
  let openOrders := (← get).book.size
  let placed := (← get).book.placedThrough ordersPlacedThrough
  cancelEach f sequenceNumber transactTime source 0 placed
  let ordersKept := (← get).book.size
  publish sequenceNumber
  return { applied := true, openOrders, reportsSent := placed.length, ordersKept }

/-- **`apply_cancel_book`**. -/
def applyCancelBook (source : CommandSource) :
    EngineM config BookCancelledByCommand := do
  if source = .catchUp then
    if ← appliedBefore sequenceNumber then return {}
  if identifierFits sequenceNumber 0 = false then
    refuseToName
    return {}
  if source = .live then
    if ← sequenceGoesBackwards sequenceNumber then return {}
  cancelBookInSequence f ordersPlacedThrough sequenceNumber transactTime tradingDate source

end

/-- What `apply_technical_event` and `apply_void_commands` ask first: whether a catch-up delivers
the command again, or it goes backwards live. -/
def passedOver (sequenceNumber : Int) (source : CommandSource) : EngineM config Bool :=
  if source = .catchUp then appliedBefore sequenceNumber else sequenceGoesBackwards sequenceNumber

/-- `TechnicalEventApplied`. -/
structure TechnicalEventApplied where
  applied : Bool := false
  haltChanged : Bool := false
  deriving DecidableEq

/-- The end of `apply_technical_event`, for an event that is in sequence. -/
def technicalEventInSequence (tradingDay : Int) (halted : Bool) (sequenceNumber tradingDate : Int) :
    EngineM config TechnicalEventApplied := do
  if tradingDay < tradingDate then
    publish sequenceNumber
    return {}
  let haltChanged := halted != (← get).book.halted
  setHalted halted
  publish sequenceNumber
  return { applied := true, haltChanged }

/-- **`apply_technical_event`**. -/
def applyTechnicalEvent (tradingDay : Int) (halted : Bool) (sequenceNumber tradingDate : Int)
    (source : CommandSource) : EngineM config TechnicalEventApplied := do
  if ← passedOver sequenceNumber source then return {}
  technicalEventInSequence tradingDay halted sequenceNumber tradingDate

/-- `VoidLearned`. -/
inductive VoidLearned
  | alreadyKnown
  | beforeItsCommands
  | afterApplyingSome
  deriving DecidableEq

variable (voided : VoidedRange)

/-- **`learn_void`**. -/
def learnVoid : EngineM config VoidLearned := do
  call f .learnVoid
  let (voids, added) := addVoid (← get).voids voided
  if added = false then return .alreadyKnown
  modify fun s => { s with voids }
  if voided.voidSeqNo ≤ (← get).book.voidsKnownThrough then return .alreadyKnown
  changeBook fun b => b.setOwnerValue .voidsKnownThrough voided.voidSeqNo
  if voided.firstSeqNo ≤ (← get).highestApplied then return .afterApplyingSome
  return .beforeItsCommands

/-- `VoidCommandsApplied`. -/
structure VoidCommandsApplied where
  applied : Bool := false
  learnedTooLate : Bool := false
  deriving DecidableEq

/-- The end of `apply_void_commands`, for a record that is in sequence. -/
def voidCommandsInSequence : EngineM config VoidCommandsApplied := do
  if voidAt (← get).voids voided.voidSeqNo = none then
    let learnt ← learnVoid f voided
    publish voided.voidSeqNo
    return { applied := true, learnedTooLate := learnt == .afterApplyingSome }
  publish voided.voidSeqNo
  return { applied := true }

/-- **`apply_void_commands`**. -/
def applyVoidCommands (source : CommandSource) : EngineM config VoidCommandsApplied := do
  if ← passedOver voided.voidSeqNo source then return {}
  voidCommandsInSequence f voided

end VenueCommands

/-! ## Commands -/

/-- A command of the WAL, with what its record carries. -/
inductive Command
  | newOrder (view : NewOrderSingle) (sequenceNumber transactTime tradingDate : Int)
    (session : SessionIdentity)
  | cancel (view : OrderCancelRequest) (sequenceNumber transactTime tradingDate : Int)
    (session : SessionIdentity)
  | cancelBook (ordersPlacedThrough sequenceNumber transactTime tradingDate : Int)
  | technicalEvent (tradingDay : Int) (halted : Bool) (sequenceNumber tradingDate : Int)
  | voidCommands (voided : VoidedRange)

/-- The place of the command in the WAL. -/
def Command.sequenceNumber : Command → Int
  | .newOrder _ sequenceNumber _ _ _ | .cancel _ sequenceNumber _ _ _ | .cancelBook _ sequenceNumber _ _
  | .technicalEvent _ _ sequenceNumber _ => sequenceNumber
  | .voidCommands voided => voided.voidSeqNo

/-- **Apply a command**, live or as part of a catch-up. -/
def applyCommand (layouts : GroupLayouts) (f : Faults) (source : CommandSource) :
    Command → EngineM config Unit
  | .newOrder view sequenceNumber transactTime tradingDate session =>
    applyNewOrder layouts f view { sequenceNumber, transactTime, tradingDate, session, source }
  | .cancel view sequenceNumber transactTime tradingDate session =>
    applyCancel f view { sequenceNumber, transactTime, tradingDate, session, source }
  | .cancelBook ordersPlacedThrough sequenceNumber transactTime tradingDate => do
    let _ ← applyCancelBook f ordersPlacedThrough sequenceNumber transactTime tradingDate source
  | .technicalEvent tradingDay halted sequenceNumber tradingDate => do
    let _ ← applyTechnicalEvent tradingDay halted sequenceNumber tradingDate source
  | .voidCommands voided => do
    let _ ← applyVoidCommands f voided source

end Matching

end PubsubVenue
