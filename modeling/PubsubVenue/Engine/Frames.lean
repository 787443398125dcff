import PubsubVenue.Engine.StateMachine
import PubsubVenue.Throwing

/-! # What the parts of the state machine leave alone

The parts of the state machine, by what they never change, whether they return or throw.

* **`Quiet`**: what makes identifiers and sends reports leaves alone the book, the voids and the
  position.
* **`SameOrders`**: what publishes and halts leaves alone the orders on the book.
* **`SameMarks`**: a command that is in sequence leaves alone the voids and the position. -/

namespace PubsubVenue

namespace Matching

open Throwing

variable {config : RehashConfig OrderKey}

/-- The book, the voids and the position are the same. -/
structure Quiet (s t : Engine config) : Prop where
  book : t.book = s.book
  written : t.written = s.written
  bookChanged : t.bookChanged = s.bookChanged
  voids : t.voids = s.voids
  highestApplied : t.highestApplied = s.highestApplied

instance : Std.Refl (@Quiet config) := ⟨fun _ => ⟨rfl, rfl, rfl, rfl, rfl⟩⟩

instance : IsTrans (Engine config) Quiet :=
  ⟨fun _ _ _ h h' => ⟨h'.book.trans h.book, h'.written.trans h.written, h'.bookChanged.trans h.bookChanged,
    h'.voids.trans h.voids, h'.highestApplied.trans h.highestApplied⟩⟩

/-- The orders on the book and the voids are the same. -/
structure SameOrders (s t : Engine config) : Prop where
  index : t.book.index = s.book.index
  slots : t.book.region.slots = s.book.region.slots
  voids : t.voids = s.voids

instance : Std.Refl (@SameOrders config) := ⟨fun _ => ⟨rfl, rfl, rfl⟩⟩

instance : IsTrans (Engine config) SameOrders :=
  ⟨fun _ _ _ h h' => ⟨h'.index.trans h.index, h'.slots.trans h.slots, h'.voids.trans h.voids⟩⟩

/-- The voids and the position are the same. -/
structure SameMarks (s t : Engine config) : Prop where
  voids : t.voids = s.voids
  highestApplied : t.highestApplied = s.highestApplied

instance : Std.Refl (@SameMarks config) := ⟨fun _ => ⟨rfl, rfl⟩⟩

instance : IsTrans (Engine config) SameMarks :=
  ⟨fun _ _ _ h h' => ⟨h'.voids.trans h.voids, h'.highestApplied.trans h.highestApplied⟩⟩

variable {s t : Engine config}

theorem Quiet.sameOrders (h : Quiet s t) : SameOrders s t :=
  ⟨by rw [h.book], by rw [h.book], h.voids⟩

theorem Quiet.sameMarks (h : Quiet s t) : SameMarks s t := ⟨h.voids, h.highestApplied⟩

/-! ## Calls -/

section Calls

variable (f : Faults)

/-- How a call ends. -/
@[simp] theorem wp_call (site : CallSite) {Q : Unit → Engine config → Prop} {E : Unit → Engine config → Prop}
    {s : Engine config} : wp (call f site) Q E s ↔ if f.fails site then E () s else Q () s := by
  simp [call]

variable (site : CallSite)

theorem quiet_call : Keeps (@Quiet config) (call f site) :=
  keeps_ite (keeps_throw _) (keeps_pure _)

theorem quiet_useTradingDate (date : Int) : Keeps (@Quiet config) (useTradingDate f date) := by
  refine keeps_bind keeps_get fun s => keeps_ite (keeps_pure _) ?_
  refine keeps_bind (quiet_call f _) fun _ =>
    keeps_bind (keeps_modify fun _ => ⟨rfl, rfl, rfl, rfl, rfl⟩) fun _ => ?_
  exact keeps_bind (quiet_call f _) fun _ => keeps_modify fun _ => ⟨rfl, rfl, rfl, rfl, rfl⟩

theorem quiet_identifier (kind : IdentifierKind) (sequenceNumber : Int) (place : Nat) :
    Keeps (@Quiet config) (identifier f site kind sequenceNumber place) := by
  refine keeps_bind keeps_get fun s => ?_
  cases s.ciphers with
  | none => exact keeps_throw _
  | some => exact keeps_ite (keeps_throw _) (keeps_bind (quiet_call f _) fun _ => keeps_pure _)

variable (report : ExecutionReport) (sequenceNumber : Int) (session : SessionIdentity)
    (source : CommandSource)

theorem quiet_outputReport :
    Keeps (@Quiet config) (outputReport f site report sequenceNumber session source) :=
  keeps_bind (quiet_call f _) fun _ => keeps_modify fun _ => ⟨rfl, rfl, rfl, rfl, rfl⟩

theorem quiet_sendReport : Keeps (@Quiet config) (sendReport f site report sequenceNumber session source) :=
  keeps_bind (quiet_outputReport f _ _ _ _ _) fun _ => keeps_modify fun _ => ⟨rfl, rfl, rfl, rfl, rfl⟩

end Calls

/-! ## The position -/

variable {Q : Bool → Engine config → Prop} {E : Unit → Engine config → Prop} (sequenceNumber : Int)

/-- A catch-up passes over a command at or below the position, and the position moves to any other. -/
@[simp] theorem wp_appliedBefore {s : Engine config} : wp (appliedBefore sequenceNumber) Q E s ↔
      if s.highestApplied < sequenceNumber then Q false { s with highestApplied := sequenceNumber }
        else Q true s := by
  simp only [appliedBefore, wp_bind, wp_get, wp_ite, wp_modify, wp_pure]

/-- A live command at or below the position goes backwards, and the position moves to any other. -/
@[simp] theorem wp_sequenceGoesBackwards {s : Engine config} :
    wp (sequenceGoesBackwards sequenceNumber) Q E s ↔
      if sequenceNumber ≤ s.highestApplied then Q true s
        else Q false { s with highestApplied := sequenceNumber } := by
  simp only [sequenceGoesBackwards, wp_bind, wp_get, wp_ite, wp_modify, wp_pure]

/-- Either way, a command at or below the position is passed over, and the position moves to any
other. -/
@[simp] theorem wp_passedOver (source : CommandSource) {s : Engine config} :
    wp (passedOver sequenceNumber source) Q E s ↔
      if s.highestApplied < sequenceNumber then Q false { s with highestApplied := sequenceNumber }
        else Q true s := by
  unfold passedOver
  split
  · exact wp_appliedBefore _
  · rw [wp_sequenceGoesBackwards]
    by_cases h : s.highestApplied < sequenceNumber
    · rw [if_neg (Int.not_le.mpr h), if_pos h]
    · rw [if_pos (Int.not_lt.mp h), if_neg h]

/-! ## Refusals -/

section Refusals

variable (f : Faults) (a : Arrival)

section

variable (view : NewOrderSingle)

theorem quiet_refuseOrder (reason : OrdRejReason) (text : Option String) :
    Keeps (@Quiet config) (refuseOrder f view a reason text) :=
  keeps_bind (quiet_identifier f _ _ _ _) fun _ => quiet_sendReport f _ _ _ _ _

theorem quiet_refuseVoidedOrder (voided : VoidedRange) :
    Keeps (@Quiet config) (refuseVoidedOrder f view a voided) :=
  keeps_bind (quiet_call f _) fun _ => quiet_refuseOrder f a _ _ _

theorem quiet_refuseOverLongOrder : Keeps (@Quiet config) (refuseOverLongOrder f view a) :=
  keeps_bind (quiet_call f _) fun _ => quiet_refuseOrder f a _ _ _

theorem quiet_rejectFailedOrder : Keeps (@Quiet config) (rejectFailedOrder f view a) :=
  keeps_bind (quiet_identifier f _ _ _ _) fun _ => quiet_outputReport f _ _ _ _ _

end

section

variable (view : OrderCancelRequest)

theorem quiet_refuseCancel (reason : OrdRejReason) (text : Option String) :
    Keeps (@Quiet config) (refuseCancel f view a reason text) :=
  keeps_bind (quiet_identifier f _ _ _ _) fun _ => quiet_sendReport f _ _ _ _ _

theorem quiet_refuseVoidedCancel (voided : VoidedRange) :
    Keeps (@Quiet config) (refuseVoidedCancel f view a voided) := by
  refine keeps_bind (quiet_call f _) fun _ => keeps_bind keeps_get fun s => ?_
  cases namedOrder view a s.book with
  | some =>
    exact keeps_bind (quiet_identifier f _ _ _ _) fun _ => keeps_bind (quiet_identifier f _ _ _ _) fun _ =>
      quiet_sendReport f _ _ _ _ _
  | none => exact quiet_refuseCancel f a _ _ _

theorem quiet_refuseOverLongCancel : Keeps (@Quiet config) (refuseOverLongCancel f view a) :=
  keeps_bind (quiet_call f _) fun _ => quiet_refuseCancel f a _ _ _

theorem quiet_rejectFailedCancel : Keeps (@Quiet config) (rejectFailedCancel f view a) :=
  keeps_bind (quiet_identifier f _ _ _ _) fun _ => quiet_outputReport f _ _ _ _ _

end

theorem quiet_echoGroups (layouts : GroupLayouts) (view : NewOrderSingle) (rounds : Nat) :
    Keeps (@Quiet config) (echoGroups layouts f view rounds) := by
  induction rounds with
  | zero => exact keeps_bind keeps_get fun _ => keeps_pure _
  | succ rounds ih =>
    refine keeps_bind keeps_get fun _ => keeps_ite (keeps_pure _) ?_
    refine keeps_bind (quiet_call f _) fun _ => ?_
    exact keeps_bind (keeps_modify fun _ => ⟨rfl, rfl, rfl, rfl, rfl⟩) fun _ => ih

end Refusals

/-! ## What a relation keeps that refusals keep -/

section Failing

variable {R : Engine config → Engine config → Prop} [Std.Refl R] [IsTrans (Engine config) R]
  (hquiet : ∀ s t, Quiet s t → R s t) (hpublish : ∀ n, Keeps R (publish n))

include hquiet hpublish

/-- A quiet part, followed by publishing. -/
theorem keeps_refusal {α : Type} {m : EngineM config α} (hm : Keeps Quiet m) (sequenceNumber : Int)
    (source : CommandSource) : Keeps R (do let _ ← m; publishAfterRefusal sequenceNumber source) :=
  keeps_bind (hm.mono hquiet) fun _ => keeps_ite (hpublish _) (keeps_pure _)

/-- What is done about a failure, where the rejection is quiet. -/
theorem keeps_afterFailure (sequenceNumber : Int) (source : CommandSource) {reject : EngineM config Unit}
    (hreject : Keeps Quiet reject) : Keeps R (afterFailure sequenceNumber source reject) := by
  refine keeps_bind keeps_get fun s => ?_
  refine keeps_tryCatch (keeps_ite ?_ (keeps_ite (hpublish _) (keeps_pure _))) fun _ => keeps_pure _
  exact keeps_refusal hquiet hpublish hreject _ _

end Failing

/-! ## Publishing and halting -/

variable (sequenceNumber : Int)

theorem sameOrders_publish : Keeps (@SameOrders config) (publish sequenceNumber) :=
  keeps_modify fun _ => ⟨rfl, rfl, rfl⟩

theorem sameOrders_setHalted (halted : Bool) : Keeps (@SameOrders config) (setHalted halted) :=
  keeps_bind keeps_get fun _ => keeps_ite (keeps_pure _) (keeps_modify fun _ => ⟨rfl, rfl, rfl⟩)

theorem sameOrders_appliedBefore : Keeps (@SameOrders config) (appliedBefore sequenceNumber) :=
  keeps_bind keeps_get fun _ =>
    keeps_ite (keeps_bind (keeps_modify fun _ => ⟨rfl, rfl, rfl⟩) fun _ => keeps_pure _) (keeps_pure _)

theorem sameOrders_sequenceGoesBackwards :
    Keeps (@SameOrders config) (sequenceGoesBackwards sequenceNumber) :=
  keeps_bind keeps_get fun _ =>
    keeps_ite (keeps_pure _) (keeps_bind (keeps_modify fun _ => ⟨rfl, rfl, rfl⟩) fun _ => keeps_pure _)

/-- A quiet part, followed by publishing, leaves the orders alone. -/
theorem sameOrders_refusal {α : Type} {m : EngineM config α} (hm : Keeps Quiet m) (sequenceNumber : Int)
    (source : CommandSource) : Keeps SameOrders (do let _ ← m; publishAfterRefusal sequenceNumber source) :=
  keeps_refusal (fun _ _ => Quiet.sameOrders) sameOrders_publish hm _ _

/-! ## Commands in sequence -/

section Marks

variable (f : Faults) (a : Arrival)

theorem sameMarks_changeBook (change : OrderBook config → BookChange config) :
    Keeps SameMarks (changeBook change) :=
  keeps_modify fun _ => ⟨rfl, rfl⟩

variable (sequenceNumber : Int) (source : CommandSource)

theorem sameMarks_publishAfterRefusal :
    Keeps (@SameMarks config) (publishAfterRefusal sequenceNumber source) :=
  keeps_ite (sameMarks_changeBook _) (keeps_pure _)

theorem sameMarks_setHalted (halted : Bool) : Keeps (@SameMarks config) (setHalted halted) :=
  keeps_bind keeps_get fun _ => keeps_ite (keeps_pure _) (sameMarks_changeBook _)

/-- A quiet part, followed by publishing, leaves the voids and the position alone. -/
theorem sameMarks_refusal {α : Type} {m : EngineM config α} (hm : Keeps Quiet m) (sequenceNumber : Int)
    (source : CommandSource) : Keeps SameMarks (do let _ ← m; publishAfterRefusal sequenceNumber source) :=
  keeps_refusal (fun _ _ => Quiet.sameMarks) (fun _ => sameMarks_changeBook _) hm _ _

theorem sameMarks_afterFailure {reject : EngineM config Unit}
    (hreject : Keeps Quiet reject) : Keeps SameMarks (afterFailure sequenceNumber source reject) :=
  keeps_afterFailure (fun _ _ => Quiet.sameMarks) (fun _ => sameMarks_changeBook _) _ _ hreject

/-- A quiet part first. -/
theorem sameMarks_bind {α β : Type} {m : EngineM config β} {k : β → EngineM config α} (hm : Keeps Quiet m)
    (hk : ∀ b, Keeps SameMarks (k b)) : Keeps SameMarks (m >>= k) :=
  keeps_bind (hm.mono fun _ _ => Quiet.sameMarks) hk

theorem sameMarks_addOrder (view : NewOrderSingle) (key : OrderKey) :
    Keeps (@SameMarks config) (addOrder f view a key) := by
  refine keeps_bind keeps_get fun _ => keeps_bind (sameMarks_changeBook _) fun _ =>
    keeps_ite (keeps_throw _) ?_
  exact keeps_bind (keeps_modify fun _ => ⟨rfl, rfl⟩) fun _ => keeps_pure _

theorem sameMarks_countOrder : Keeps (@SameMarks config) (countOrder f source) := by
  refine keeps_ite (sameMarks_bind (quiet_call f _) fun _ => ?_) (keeps_pure _)
  exact keeps_modify fun _ => ⟨rfl, rfl⟩

section

variable (layouts : GroupLayouts) (view : NewOrderSingle)

theorem sameMarks_acceptOrder (orderId execId : Identifier) :
    Keeps (@SameMarks config) (acceptOrder layouts f view a orderId execId) := by
  refine keeps_bind (sameMarks_countOrder f _) fun _ => ?_
  refine sameMarks_bind (quiet_echoGroups f layouts view 64) fun _ => ?_
  refine sameMarks_bind (quiet_sendReport f _ _ _ _ _) fun _ => ?_
  exact keeps_bind (sameMarks_changeBook _) fun _ => (quiet_call f _).mono fun _ _ => Quiet.sameMarks

theorem sameMarks_applyNamedOrder : Keeps (@SameMarks config) (applyNamedOrder layouts f view a) := by
  refine sameMarks_bind (quiet_identifier f _ _ _ _) fun _ => ?_
  refine keeps_bind keeps_get fun _ => keeps_ite (sameMarks_refusal (quiet_sendReport f _ _ _ _ _) _ _) ?_
  refine keeps_bind keeps_get fun _ => keeps_ite ?_ ?_
  · refine sameMarks_bind (quiet_call f _) fun _ => ?_
    exact sameMarks_refusal (quiet_sendReport f _ _ _ _ _) _ _
  refine sameMarks_bind (quiet_identifier f _ _ _ _) fun _ => ?_
  refine keeps_bind (sameMarks_addOrder f a view _) fun _ =>
    keeps_ite (sameMarks_acceptOrder f a layouts view _ _) ?_
  exact sameMarks_refusal (quiet_sendReport f _ _ _ _ _) _ _

/-- **A new order that is in sequence** leaves the voids and the position alone. -/
theorem sameMarks_applyOrderInSequence :
    Keeps (@SameMarks config) (applyOrderInSequence layouts f view a) := by
  refine keeps_ite (sameMarks_refusal (quiet_refuseOrder f a view _ _) _ _) (keeps_bind keeps_get fun s => ?_)
  cases voiding s.voids a.sequenceNumber .newOrder with
  | some voided => exact sameMarks_refusal (quiet_refuseVoidedOrder f a view voided) _ _
  | none =>
    refine keeps_ite (sameMarks_applyNamedOrder f a layouts view) ?_
    exact sameMarks_refusal (quiet_refuseOverLongOrder f a view) _ _

end

section

variable (view : OrderCancelRequest)

theorem sameMarks_cancelOrder (key : OrderKey) (entry : OrderEntry)
    (execId : Identifier) : Keeps (@SameMarks config) (cancelOrder f view a key entry execId) := by
  refine keeps_bind (sameMarks_changeBook _) fun _ =>
    keeps_bind (keeps_modify fun _ => ⟨rfl, rfl⟩) fun _ => ?_
  refine sameMarks_bind (quiet_identifier f _ _ _ _) fun _ => ?_
  refine sameMarks_bind (quiet_sendReport f _ _ _ _ _) fun _ => ?_
  exact keeps_bind (sameMarks_changeBook _) fun _ => (quiet_call f _).mono fun _ _ => Quiet.sameMarks

theorem sameMarks_applyNamedCancel : Keeps (@SameMarks config) (applyNamedCancel f view a) := by
  refine sameMarks_bind (quiet_identifier f _ _ _ _) fun _ => ?_
  refine keeps_bind keeps_get fun s => ?_
  cases s.book.find (OrderKey.make a.session view.origClOrdId) with
  | some entry => exact sameMarks_cancelOrder f a view _ entry _
  | none =>
    refine sameMarks_bind (quiet_sendReport f _ _ _ _ _) fun _ => ?_
    refine keeps_bind (sameMarks_publishAfterRefusal _ _) fun _ => ?_
    exact (quiet_call f _).mono fun _ _ => Quiet.sameMarks

/-- **A cancel that is in sequence** leaves the voids and the position alone. -/
theorem sameMarks_applyCancelInSequence : Keeps (@SameMarks config) (applyCancelInSequence f view a) := by
  refine keeps_ite (sameMarks_refusal (quiet_refuseCancel f a view _ _) _ _)
    (keeps_bind keeps_get fun s => ?_)
  cases voiding s.voids a.sequenceNumber .cancel with
  | some voided => exact sameMarks_refusal (quiet_refuseVoidedCancel f a view voided) _ _
  | none =>
    refine keeps_ite (sameMarks_applyNamedCancel f a view) ?_
    exact sameMarks_refusal (quiet_refuseOverLongCancel f a view) _ _

end

/-- Taking orders off the book leaves the voids and the position alone. -/
theorem sameMarks_cancelEach (transactTime : Int) (source : CommandSource) (place : Nat)
    (orders : List (Int × Nat)) :
    Keeps (@SameMarks config) (cancelEach f sequenceNumber transactTime source place orders) := by
  induction orders generalizing place with
  | nil => exact keeps_pure _
  | cons order rest ih =>
    refine keeps_bind keeps_get fun _ => ?_
    refine sameMarks_bind (quiet_identifier f _ _ _ _) fun _ => ?_
    refine sameMarks_bind (quiet_identifier f _ _ _ _) fun _ => ?_
    refine sameMarks_bind (quiet_outputReport f _ _ _ _ _) fun _ => ?_
    exact keeps_bind (sameMarks_changeBook _) fun _ => ih (place + 1)

/-- **A CancelBook that is in sequence** leaves the voids and the position alone. -/
theorem sameMarks_cancelBookInSequence (ordersPlacedThrough sequenceNumber transactTime tradingDate : Int)
    (source : CommandSource) : Keeps (@SameMarks config)
      (cancelBookInSequence f ordersPlacedThrough sequenceNumber transactTime tradingDate source) := by
  refine sameMarks_bind (quiet_useTradingDate f _) fun _ => ?_
  refine keeps_bind keeps_get fun _ => keeps_bind keeps_get fun _ => ?_
  refine keeps_bind (sameMarks_cancelEach f _ _ _ _ _) fun _ => keeps_bind keeps_get fun _ => ?_
  exact keeps_bind (sameMarks_changeBook _) fun _ => keeps_pure _

/-- **A TechnicalEvent that is in sequence** leaves the voids and the position alone. -/
theorem sameMarks_technicalEventInSequence (tradingDay : Int) (halted : Bool)
    (sequenceNumber tradingDate : Int) :
    Keeps (@SameMarks config) (technicalEventInSequence tradingDay halted sequenceNumber tradingDate) := by
  refine keeps_ite (keeps_bind (sameMarks_changeBook _) fun _ => keeps_pure _)
    (keeps_bind keeps_get fun _ => ?_)
  exact keeps_bind (sameMarks_setHalted halted) fun _ =>
    keeps_bind (sameMarks_changeBook _) fun _ => keeps_pure _

end Marks

/-! ## Voids -/

/-- The position is the same. -/
def SamePosition (s t : Engine config) : Prop := t.highestApplied = s.highestApplied

instance : Std.Refl (@SamePosition config) := ⟨fun _ => rfl⟩

instance : IsTrans (Engine config) SamePosition := ⟨fun _ _ _ h h' => h'.trans h⟩

theorem SameMarks.samePosition (h : SameMarks s t) : SamePosition s t := h.highestApplied

/-- Learning of a void leaves the position alone. -/
theorem samePosition_learnVoid (f : Faults) (voided : VoidedRange) :
    Keeps (@SamePosition config) (learnVoid f voided) := by
  refine keeps_bind ((quiet_call f _).mono fun _ _ => Quiet.highestApplied) fun _ =>
    keeps_bind keeps_get fun _ => ?_
  refine keeps_ite (keeps_pure _)
    (keeps_bind (keeps_modify fun _ => rfl) fun _ => keeps_bind keeps_get fun _ => ?_)
  refine keeps_ite (keeps_pure _)
    (keeps_bind (keeps_modify fun _ => rfl) fun _ => keeps_bind keeps_get fun _ => ?_)
  exact keeps_ite (keeps_pure _) (keeps_pure _)

/-- **A VoidCommands that is in sequence** leaves the position alone. -/
theorem samePosition_voidCommandsInSequence (f : Faults) (voided : VoidedRange) :
    Keeps (@SamePosition config) (voidCommandsInSequence f voided) := by
  have hpublish : Keeps (@SamePosition config) (publish voided.voidSeqNo) := keeps_modify fun _ => rfl
  refine keeps_bind keeps_get fun _ => keeps_ite (keeps_bind (samePosition_learnVoid f voided) fun _ => ?_) ?_
  · exact keeps_bind hpublish fun _ => keeps_pure _
  · exact keeps_bind hpublish fun _ => keeps_pure _

end Matching

end PubsubVenue
