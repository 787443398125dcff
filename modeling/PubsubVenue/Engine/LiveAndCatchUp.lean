import PubsubVenue.Engine.LearnedVoids

/-! # Commands applied live and as part of a catch-up

The two ways of applying a command, compared. They may publish at different points, mark reports as
possible repeats or not, and count orders or not.

* **`SameSeen`**: everything else is the same of two engines, but for their positions.
* **`sameSeen_applyCommand`**: every command above the positions keeps this, in whichever ways the
  two engines apply it.
* **`sameOutcome_iff`**: commands that rise come to the same however they are divided, exactly where
  the last can be named: a live command that cannot be named leaves the position where it was. -/

namespace PubsubVenue

open List

/-! ## Books that differ in the position published -/

namespace MappedSlotStore

variable {α : Type}

section

variable (s : MappedSlotStore α)

/-- The file, but for the position published. -/
def unpublished : MappedSlotStore α := { s with published := 0 }

/-- A write does the same, whatever position is published. -/
theorem unpublished_write (w : RegionWrite α) :
    (s.write w).unpublished = (s.unpublished.write w).unpublished := by
  cases w <;> rfl

theorem unpublished_writeAll (ws : List (RegionWrite α)) :
    (s.writeAll ws).unpublished = (s.unpublished.writeAll ws).unpublished := by
  induction ws generalizing s with
  | nil => rfl
  | cons w ws ih =>
    have hfirst : (s.write w).unpublished = (s.unpublished.write w).unpublished := s.unpublished_write w
    calc (s.writeAll (w :: ws)).unpublished = ((s.write w).unpublished.writeAll ws).unpublished := ih _
      _ = ((s.unpublished.write w).unpublished.writeAll ws).unpublished := by rw [hfirst]
      _ = (s.unpublished.writeAll (w :: ws)).unpublished := (ih _).symm

end

end MappedSlotStore

namespace OrderBook

variable {config : RehashConfig OrderKey}

/-- The book, but for the position published. -/
def unpublished (b : OrderBook config) : OrderBook config := { b with region := b.region.unpublished }

section

variable (b : OrderBook config)

theorem unpublished_after (change : BookChange config) :
    (b.after change).unpublished = (b.unpublished.after change).unpublished := by
  unfold after unpublished
  simp only [b.region.unpublished_writeAll change.writes]

theorem add_unpublished (allocates : Nat → Bool) (key : OrderKey) (entry : OrderEntry)
    (seqNo : Int) : b.unpublished.add allocates key entry seqNo = b.add allocates key entry seqNo := by
  have hrelease : ∀ ws slot, (b.unpublished.region.writeAll ws).release slot =
    (b.region.writeAll ws).release slot := by
    intro ws slot
    have h := congrArg MappedSlotStore.freeHead (b.region.unpublished_writeAll ws)
    unfold MappedSlotStore.release
    rw [show (b.unpublished.region.writeAll ws).freeHead = (b.region.writeAll ws).freeHead from h.symm]
  unfold add
  simp only [hrelease]
  rfl

theorem remove_unpublished (key : OrderKey) : b.unpublished.remove key = b.remove key := rfl

theorem removeEach_unpublished (slots : List Nat) : b.unpublished.removeEach slots = b.removeEach slots := by
  induction slots generalizing b with
  | nil => rfl
  | cons slot rest ih =>
    unfold removeEach
    have hnext : ∀ first : BookChange config,
        (b.unpublished.after first).removeEach rest = (b.after first).removeEach rest := by
      intro first
      rw [← ih (b.after first), unpublished_after, ih]
    simp only [hnext]
    rfl

end

end OrderBook

namespace Matching

open Throwing

variable {config : RehashConfig OrderKey}

/-- A report, but for the mark that it may be a repeat. -/
def SentReport.unmarked (r : SentReport) : SentReport := { r with isRepeat := false }

open SentReport

/-- **The same is seen of two engines**: they differ at most in the position published, the marks of
their reports, the count of orders processed, and their positions. -/
structure SameSeen (s s' : Engine config) : Prop where
  book : s.book.unpublished = s'.book.unpublished
  tradingDate : s.tradingDate = s'.tradingDate
  ciphers : s.ciphers = s'.ciphers
  voids : s.voids = s'.voids
  arenaSize : s.arenaSize = s'.arenaSize
  reportsForCommand : s.reportsForCommand = s'.reportsForCommand
  bookChanged : s.bookChanged = s'.bookChanged
  sent : s.sent.map unmarked = s'.sent.map unmarked

namespace SameSeen

variable {s s' : Engine config}

theorem refl (s : Engine config) : SameSeen s s := ⟨rfl, rfl, rfl, rfl, rfl, rfl, rfl, rfl⟩

section

variable (h : SameSeen s s')
include h

/-- What does not depend on the position published is the same of the books. -/
theorem book_eq {β : Type} (g : OrderBook config → β) (hg : ∀ b, g b.unpublished = g b) :
    g s.book = g s'.book := by
  rw [← hg s.book, h.book, hg]

theorem halted : s.book.halted = s'.book.halted := h.book_eq _ fun _ => rfl

theorem find (key : OrderKey) : s.book.find key = s'.book.find key :=
  h.book_eq (fun b => b.find key) fun _ => rfl

/-- A change of the book, by what does not depend on the position published. -/
theorem changeBook {change change' : BookChange config} (hsame : change = change') :
    SameSeen { s with book := s.book.after change, written := s.written ++ change.writes }
      { s' with book := s'.book.after change', written := s'.written ++ change'.writes } := by
  subst hsame
  refine { h with book := ?_ }
  rw [OrderBook.unpublished_after, h.book, ← OrderBook.unpublished_after]

end

end SameSeen

/-- The arrival, in one of the two ways. -/
def Arrival.via (a : Arrival) (source : CommandSource) : Arrival := { a with source }

/-! ## Parts that do the same either way -/

section Parts

variable (f : Faults) (x y : CommandSource)

theorem alike_changeBook {change change' : OrderBook config → BookChange config}
    (h : ∀ b b', b.unpublished = b'.unpublished → change b = change' b') :
    Alike SameSeen (changeBook change) (changeBook change') :=
  alike_modify fun s s' hsame => hsame.changeBook (h s.book s'.book hsame.book)

variable (site : CallSite)

theorem alike_call : Alike (@SameSeen config) (call f site) (call f site) :=
  alike_ite (alike_throw _) (alike_pure _)

/-- Publishing is not seen. -/
theorem alike_publish (n : Int) : Alike (@SameSeen config) (publish n) (publish n) :=
  alike_modify fun _ _ h => { h with book := h.book }

/-- A refusal is published as part of a catch-up only, which is not seen. -/
theorem alike_publishAfterRefusal (n : Int) :
    Alike (@SameSeen config) (publishAfterRefusal n x) (publishAfterRefusal n y) := by
  intro s s' h
  cases x <;> cases y <;> exact ⟨rfl, { h with book := h.book }⟩

theorem alike_setHalted (halted : Bool) : Alike (@SameSeen config) (setHalted halted) (setHalted halted) := by
  refine alike_get_bind fun s s' h => ?_
  rw [h.halted]
  refine alike_ite (alike_pure _) (alike_changeBook fun b b' hbook => ?_)
  have hindex := congrArg OrderBook.index hbook
  exact congrArg (BookChange.mk _) hindex

theorem alike_useTradingDate (date : Int) :
    Alike (@SameSeen config) (useTradingDate f date) (useTradingDate f date) := by
  refine alike_get_bind fun s s' h => ?_
  rw [h.tradingDate]
  refine alike_ite (alike_pure _) (alike_bind (alike_call f _) fun _ => ?_)
  refine alike_bind (alike_modify fun _ _ h => { h with ciphers := rfl }) fun _ => ?_
  exact alike_bind (alike_call f _) fun _ => alike_modify fun _ _ h =>
    { h with ciphers := rfl, tradingDate := rfl }

theorem alike_identifier (kind : IdentifierKind) (n : Int) (place : Nat) :
    Alike (@SameSeen config) (identifier f site kind n place) (identifier f site kind n place) := by
  refine alike_get_bind fun s s' h => ?_
  rw [h.ciphers]
  cases s'.ciphers with
  | none => exact alike_throw _
  | some => exact alike_ite (alike_throw _) (alike_bind (alike_call f _) fun _ => alike_pure _)

/-- A report is the same, but for its mark. -/
theorem alike_outputReport (report : ExecutionReport) (n : Int) (session : SessionIdentity) :
    Alike (@SameSeen config) (outputReport f site report n session x)
      (outputReport f site report n session y) := by
  refine alike_bind (alike_call f _) fun _ => alike_modify fun s s' h => { h with sent := ?_ }
  simp only [map_append, h.sent, map_cons, map_nil, unmarked]

theorem alike_sendReport (report : ExecutionReport) (n : Int) (session : SessionIdentity) :
    Alike (@SameSeen config) (sendReport f site report n session x) (sendReport f site report n session y) :=
  alike_bind (alike_outputReport f x y _ _ _ _) fun _ =>
    alike_modify fun _ _ h => { h with reportsForCommand := congrArg (· + 1) h.reportsForCommand }

/-- What is done about a failure. -/
theorem alike_afterFailure (n : Int) {reject reject' : EngineM config Unit}
    (h : Alike SameSeen reject reject') :
    Alike SameSeen (afterFailure n x reject) (afterFailure n y reject') := by
  refine alike_get_bind fun s s' hsame => ?_
  rw [hsame.bookChanged, hsame.reportsForCommand]
  refine alike_tryCatch (alike_ite ?_ (alike_ite (alike_publish n) (alike_pure _))) fun _ => alike_pure _
  exact alike_bind h fun _ => alike_publishAfterRefusal x y n

end Parts

section Orders

variable (layouts : GroupLayouts) {f : Faults} (view : NewOrderSingle) (a : Arrival) (x y : CommandSource)

theorem alike_refuseOrder (reason : OrdRejReason) (text : Option String) :
    Alike (@SameSeen config) (refuseOrder f view (a.via x) reason text)
      (refuseOrder f view (a.via y) reason text) :=
  alike_bind (alike_identifier f _ _ _ _) fun _ => alike_sendReport f x y _ _ _ _

/-- A refusal and its publishing. -/
theorem alike_refusal {m m' : EngineM config Unit} (h : Alike SameSeen m m') :
    Alike SameSeen (do m; publishAfterRefusal (a.via x).sequenceNumber (a.via x).source)
      (do m'; publishAfterRefusal (a.via y).sequenceNumber (a.via y).source) :=
  alike_bind h fun _ => alike_publishAfterRefusal x y _

theorem alike_echoGroups (rounds : Nat) :
    Alike (@SameSeen config) (echoGroups layouts f view rounds) (echoGroups layouts f view rounds) := by
  induction rounds with
  | zero =>
    refine alike_get_bind fun s s' h => ?_
    rw [h.arenaSize]
    exact alike_pure _
  | succ rounds ih =>
    refine alike_get_bind fun s s' h => ?_
    rw [h.arenaSize]
    refine alike_ite (alike_pure _) (alike_bind (alike_call f _) fun _ => ?_)
    exact alike_bind (alike_modify fun _ _ h => { h with arenaSize := rfl }) fun _ => ih

theorem alike_addOrder (key : OrderKey) :
    Alike (@SameSeen config) (addOrder f view (a.via x) key) (addOrder f view (a.via y) key) := by
  refine alike_get_bind fun s s' h => ?_
  have hadd := h.book_eq (fun b => b.add f.allocates key (orderEntry view a) a.sequenceNumber) fun b =>
    b.add_unpublished f.allocates key (orderEntry view a) a.sequenceNumber
  have hadd' : s.book.add f.allocates key (orderEntry view (a.via x)) (a.via x).sequenceNumber =
      s'.book.add f.allocates key (orderEntry view (a.via y)) (a.via y).sequenceNumber := hadd
  rw [hadd']
  refine alike_bind (alike_changeBook fun _ _ _ => rfl) fun _ => alike_ite (alike_throw _) ?_
  exact alike_bind (alike_modify fun _ _ h => { h with bookChanged := rfl }) fun _ => alike_pure _

section

variable (haccepted : f.fails .orderAccepted = false)
include haccepted

/-- A live order is counted, which is not seen, where its being accepted can be told of. -/
theorem alike_countOrder : Alike (@SameSeen config) (countOrder f x) (countOrder f y) := by
  intro s s' h
  unfold countOrder call
  simp only [haccepted]
  cases x <;> cases y <;> exact ⟨rfl, { h with book := h.book }⟩

theorem alike_acceptOrder (orderId execId : Identifier) :
    Alike (@SameSeen config) (acceptOrder layouts f view (a.via x) orderId execId)
      (acceptOrder layouts f view (a.via y) orderId execId) := by
  refine alike_bind (alike_countOrder x y haccepted) fun _ => ?_
  refine alike_bind (alike_echoGroups layouts view 64) fun groups => ?_
  refine alike_bind (alike_sendReport f x y _ _ _ _) fun _ => ?_
  exact alike_bind (alike_publish _) fun _ => alike_call f _

theorem alike_applyNamedOrder : Alike (@SameSeen config) (applyNamedOrder layouts f view (a.via x))
      (applyNamedOrder layouts f view (a.via y)) := by
  refine alike_bind (alike_identifier f _ _ _ _) fun execId => alike_get_bind fun s s' h => ?_
  rw [h.halted]
  refine alike_ite (alike_refusal a x y (alike_sendReport f x y _ _ _ _)) (alike_get_bind fun s s' h => ?_)
  have hcontains := h.book_eq (fun b => b.contains (OrderKey.make a.session view.clOrdId)) fun _ => rfl
  have hcontains' : s.book.contains (OrderKey.make (a.via x).session view.clOrdId) =
      s'.book.contains (OrderKey.make (a.via y).session view.clOrdId) := hcontains
  rw [hcontains']
  refine alike_ite
    (alike_bind (alike_call f _) fun _ => alike_refusal a x y (alike_sendReport f x y _ _ _ _)) ?_
  refine alike_bind (alike_identifier f _ _ _ _) fun orderId =>
    alike_bind (alike_addOrder view a x y _) fun added => ?_
  refine alike_ite (alike_acceptOrder layouts view a x y haccepted orderId execId) ?_
  exact alike_refusal a x y (alike_sendReport f x y _ _ _ _)

/-- **A new order that is in sequence is applied alike.** -/
theorem alike_applyOrderInSequence : Alike (@SameSeen config) (applyOrderInSequence layouts f view (a.via x))
      (applyOrderInSequence layouts f view (a.via y)) := by
  refine alike_ite (alike_refusal a x y (alike_refuseOrder view a x y _ _)) (alike_get_bind fun s s' h => ?_)
  rw [h.voids]
  have hfound : voiding s'.voids (a.via x).sequenceNumber .newOrder =
    voiding s'.voids (a.via y).sequenceNumber .newOrder := rfl
  rw [hfound]
  cases voiding s'.voids (a.via y).sequenceNumber .newOrder with
  | some =>
    refine alike_refusal a x y (alike_bind (alike_call f _) fun _ => ?_)
    exact alike_refuseOrder view a x y _ _
  | none =>
    refine alike_ite (alike_applyNamedOrder layouts view a x y haccepted) (alike_refusal a x y ?_)
    exact alike_bind (alike_call f _) fun _ => alike_refuseOrder view a x y _ _

end

end Orders

section Cancels

variable {f : Faults} (view : OrderCancelRequest) (a : Arrival) (x y : CommandSource)

theorem alike_refuseCancel (reason : OrdRejReason) (text : Option String) :
    Alike (@SameSeen config) (refuseCancel f view (a.via x) reason text)
      (refuseCancel f view (a.via y) reason text) :=
  alike_bind (alike_identifier f _ _ _ _) fun _ => alike_sendReport f x y _ _ _ _

theorem alike_refuseVoidedCancel (voided : VoidedRange) :
    Alike (@SameSeen config) (refuseVoidedCancel f view (a.via x) voided)
      (refuseVoidedCancel f view (a.via y) voided) := by
  refine alike_bind (alike_call f _) fun _ => alike_get_bind fun s s' h => ?_
  have hnamed : namedOrder view (a.via x) s.book = namedOrder view (a.via y) s'.book :=
    h.book_eq (fun b => namedOrder view a b) fun _ => rfl
  rw [hnamed]
  cases namedOrder view (a.via y) s'.book with
  | some =>
    refine alike_bind (alike_identifier f _ _ _ _) fun _ =>
      alike_bind (alike_identifier f _ _ _ _) fun _ => ?_
    exact alike_sendReport f x y _ _ _ _
  | none => exact alike_refuseCancel view a x y _ _

theorem alike_cancelOrder (key : OrderKey) (entry : OrderEntry) (execId : Identifier) :
    Alike (@SameSeen config) (cancelOrder f view (a.via x) key entry execId)
      (cancelOrder f view (a.via y) key entry execId) := by
  refine alike_bind (alike_changeBook fun b b' hbook => ?_) fun _ => ?_
  · rw [← b.remove_unpublished, hbook, b'.remove_unpublished]
  refine alike_bind (alike_modify fun _ _ h => { h with bookChanged := rfl }) fun _ => ?_
  refine alike_bind (alike_identifier f _ _ _ _) fun _ =>
    alike_bind (alike_sendReport f x y _ _ _ _) fun _ => ?_
  exact alike_bind (alike_publish _) fun _ => alike_call f _

/-- **A cancel that is in sequence is applied alike.** -/
theorem alike_applyCancelInSequence :
    Alike (@SameSeen config) (applyCancelInSequence f view (a.via x))
      (applyCancelInSequence f view (a.via y)) := by
  refine alike_ite (alike_refusal a x y (alike_refuseCancel view a x y _ _)) (alike_get_bind fun s s' h => ?_)
  rw [h.voids]
  have hfound : voiding s'.voids (a.via x).sequenceNumber .cancel =
    voiding s'.voids (a.via y).sequenceNumber .cancel := rfl
  rw [hfound]
  cases voiding s'.voids (a.via y).sequenceNumber .cancel with
  | some voided => exact alike_refusal a x y (alike_refuseVoidedCancel view a x y voided)
  | none =>
    refine alike_ite ?_
      (alike_refusal a x y (alike_bind (alike_call f _) fun _ => alike_refuseCancel view a x y _ _))
    refine alike_bind (alike_identifier f _ _ _ _) fun execId => alike_get_bind fun s s' h => ?_
    have hfind : s.book.find (OrderKey.make (a.via x).session view.origClOrdId) =
        s'.book.find (OrderKey.make (a.via y).session view.origClOrdId) := h.find _
    rw [hfind]
    cases s'.book.find (OrderKey.make (a.via y).session view.origClOrdId) with
    | some entry => exact alike_cancelOrder view a x y _ entry execId
    | none =>
      refine alike_bind (alike_sendReport f x y _ _ _ _) fun _ => ?_
      exact alike_bind (alike_publishAfterRefusal x y _) fun _ => alike_call f _

/-- The orders that a CancelBook takes off the book are reported alike. -/
theorem alike_cancelEach (n time : Int) (place : Nat) (orders : List (Int × Nat)) :
    Alike (@SameSeen config) (cancelEach f n time x place orders) (cancelEach f n time y place orders) := by
  induction orders generalizing place with
  | nil => exact alike_pure _
  | cons order rest ih =>
    refine alike_get_bind fun s s' h => ?_
    rw [h.book_eq (fun b => b.entryAt order.2) fun _ => rfl]
    refine alike_bind (alike_identifier f _ _ _ _) fun _ =>
      alike_bind (alike_identifier f _ _ _ _) fun _ => ?_
    refine alike_bind (alike_outputReport f x y _ _ _ _) fun _ => ?_
    refine alike_bind (alike_changeBook fun b b' hbook => ?_) fun _ => ih (place + 1)
    rw [← b.removeEach_unpublished, hbook, b'.removeEach_unpublished]

end Cancels

/-! ## Commands of members -/

/-- The engine when it takes up a command: its position is there, and the keys of the trading date
are made. -/
def Engine.begun (s : Engine config) (n date : Int) : Engine config :=
  { s with
    highestApplied := n, tradingDate := date, ciphers := if date = s.tradingDate then s.ciphers
      else some date }

/-- The keys of every trading date can be made. -/
def Faults.datesMade (f : Faults) : Prop :=
  f.fails .tradingDateKeys = false ∧ f.fails .tradingDateCiphers = false

theorem SameSeen.begun {s s' : Engine config} (h : SameSeen s s') (n date : Int) :
    SameSeen (s.begun n date) (s'.begun n date) := by
  refine { h with tradingDate := rfl, ciphers := ?_ }
  unfold Engine.begun
  rw [h.tradingDate, h.ciphers]

section Members

variable {f : Faults} {a : Arrival} {x y : CommandSource} {s : Engine config}

/-- The keys of the trading date are made. -/
theorem wp_useTradingDate (hf : f.datesMade) (date : Int) {Q : Unit → Engine config → Prop}
    {E : Unit → Engine config → Prop} : wp (useTradingDate f date) Q E s ↔
      Q () { s with tradingDate := date, ciphers := if date = s.tradingDate then s.ciphers else some date } := by
  simp only [useTradingDate, wp_bind, wp_get, wp_ite, wp_pure, wp_call, hf.1, hf.2, wp_modify,
    Bool.false_eq_true, if_false]
  by_cases hdate : date = s.tradingDate
  · subst hdate
    simp
  · simp [hdate]

section

variable (habove : s.highestApplied < a.sequenceNumber)
include habove

/-- A command that can be named and is above the position is taken up, either way. -/
theorem checkedCommand_eq (hf : f.datesMade) {out inSequence : EngineM config Unit}
    (hfits : identifierFits a.sequenceNumber 0 = true) :
    checkedCommand f (a.via x) out inSequence s = inSequence (s.begun a.sequenceNumber a.tradingDate) := by
  refine eq_of_wp fun Q E h => ?_
  cases x with
  | live =>
    simp only [checkedCommand, namedCommand, Arrival.via, wp_ite, wp_bind, wp_useTradingDate hf,
      wp_sequenceGoesBackwards, hfits, Int.not_le.mpr habove, reduceCtorEq, Bool.true_eq_false,
        if_false, if_true]
    exact h
  | catchUp =>
    simp only [checkedCommand, namedCommand, Arrival.via, wp_ite, wp_bind, wp_useTradingDate hf,
      wp_appliedBefore, hfits, habove, reduceCtorEq, Bool.true_eq_false, Bool.false_eq_true,
        if_false, if_true]
    exact h

/-- A command that cannot be named halts trading, and a catch-up moves the position to it first. -/
theorem checkedCommand_of_not_fits (out inSequence : EngineM config Unit)
    (hfits : identifierFits a.sequenceNumber 0 = false) : checkedCommand f (a.via x) out inSequence s =
      refuseToName { s with highestApplied := if x = .live then s.highestApplied else a.sequenceNumber } := by
  refine eq_of_wp fun Q E h => ?_
  cases x with
  | live =>
    simp only [checkedCommand, namedCommand, Arrival.via, hfits, reduceCtorEq, if_false, if_true]
    exact h
  | catchUp =>
    simp only [checkedCommand, namedCommand, Arrival.via, wp_ite, wp_bind, wp_appliedBefore, hfits, habove,
      Bool.false_eq_true, if_false, if_true]
    exact h

/-- The engine when a command begins. -/
def Engine.reset (s : Engine config) : Engine config :=
    { s with reportsForCommand := 0, bookChanged := false }

omit habove in
theorem SameSeen.reset {s s' : Engine config} (h : SameSeen s s') : SameSeen s.reset s'.reset :=
  { h with reportsForCommand := rfl, bookChanged := rfl }

variable {out inSequence reject : EngineM config Unit}

/-- A command that can be named and is above the position, with what is done about a failure. -/
theorem guardedCommand_eq (hf : f.datesMade) (hfits : identifierFits a.sequenceNumber 0 = true) :
    guardedCommand (a.via x) (checkedCommand f (a.via x) out inSequence) reject s =
      (tryCatch inSequence fun _ => afterFailure a.sequenceNumber x reject)
        (s.reset.begun a.sequenceNumber a.tradingDate) :=
  tryCatch_congr (checkedCommand_eq (s := s.reset) habove hf hfits) _

/-- A command that cannot be named. -/
theorem guardedCommand_of_not_fits (hfits : identifierFits a.sequenceNumber 0 = false) :
    guardedCommand (a.via x) (checkedCommand f (a.via x) out inSequence) reject s =
      (tryCatch refuseToName fun _ => afterFailure a.sequenceNumber x reject)
        { s.reset with highestApplied := if x = .live then s.highestApplied else a.sequenceNumber } :=
  tryCatch_congr (checkedCommand_of_not_fits (s := s.reset) habove out inSequence hfits) _

/-- Where a command of a member leaves the position. -/
theorem position_guardedCommand (hf : f.datesMade) (hin : Keeps SameMarks inSequence)
    (hreject : Keeps Quiet reject) :
    (endState (guardedCommand (a.via x) (checkedCommand f (a.via x) out inSequence) reject)
      s).highestApplied =
      if identifierFits a.sequenceNumber 0 = true ∨ x = .catchUp then a.sequenceNumber
        else s.highestApplied := by
  have hfailure : Keeps SameMarks (afterFailure a.sequenceNumber x reject) :=
    sameMarks_afterFailure _ _ hreject
  cases hfits : identifierFits a.sequenceNumber 0 with
  | true =>
    rw [endState_congr (guardedCommand_eq habove hf hfits), if_pos (.inl rfl)]
    exact ((keeps_tryCatch hin fun _ => hfailure).endState _).highestApplied
  | false =>
    rw [endState_congr (guardedCommand_of_not_fits habove hfits)]
    refine ((keeps_tryCatch (sameMarks_setHalted true) fun _ => hfailure).endState _).highestApplied.trans ?_
    cases x <;> simp

end

/-- **A command of a member ends alike either way**, where it is above the position. -/
theorem endAlike_guardedCommand (hf : f.datesMade)
    (out inSequence reject : CommandSource → EngineM config Unit)
    (hin : Alike SameSeen (inSequence x) (inSequence y))
    (hreject : Alike SameSeen (reject x) (reject y)) {s s' : Engine config} (h : SameSeen s s')
    (habove : s.highestApplied < a.sequenceNumber)
    (habove' : s'.highestApplied < a.sequenceNumber) : EndAlike SameSeen
      (guardedCommand (a.via x) (checkedCommand f (a.via x) (out x) (inSequence x)) (reject x) s)
      (guardedCommand (a.via y) (checkedCommand f (a.via y) (out y) (inSequence y)) (reject y) s') := by
  have hfailure := alike_afterFailure x y a.sequenceNumber hreject
  cases hfits : identifierFits a.sequenceNumber 0 with
  | true =>
    rw [guardedCommand_eq habove hf hfits, guardedCommand_eq habove' hf hfits]
    exact alike_tryCatch hin (fun _ => hfailure) _ _ (h.reset.begun _ _)
  | false =>
    rw [guardedCommand_of_not_fits habove hfits, guardedCommand_of_not_fits habove' hfits]
    exact alike_tryCatch (alike_setHalted true) (fun _ => hfailure) _ _ { h.reset with book := h.book }

end Members

/-! ## Commands of the venue -/

section VenueCommands

variable {f : Faults} {x y : CommandSource} {n : Int}

/-- A command above the position is not passed over. -/
theorem passedOver_eq {s : Engine config} (habove : s.highestApplied < n) :
    passedOver n x s = .ok false { s with highestApplied := n } := by
  have hsame : passedOver n x s = (pure false : EngineM config Bool) { s with highestApplied := n } :=
    eq_of_wp fun Q E h => by
      rw [wp_passedOver, if_pos habove]
      exact h
  exact hsame

/-- A CancelBook that can be named and is above the position. -/
theorem applyCancelBook_eq {through time date : Int} {s : Engine config} (hfits : identifierFits n 0 = true)
    (habove : s.highestApplied < n) : applyCancelBook f through n time date x s =
      cancelBookInSequence f through n time date x { s with highestApplied := n } := by
  refine eq_of_wp fun Q E h => ?_
  cases x with
  | live =>
    simp only [applyCancelBook, wp_ite, wp_bind, wp_sequenceGoesBackwards, hfits,
      Int.not_le.mpr habove, reduceCtorEq, Bool.true_eq_false, Bool.false_eq_true,
        if_false, if_true]
    exact h
  | catchUp =>
    simp only [applyCancelBook, wp_ite, wp_bind, wp_appliedBefore, hfits, habove, reduceCtorEq,
      Bool.true_eq_false, Bool.false_eq_true, if_false, if_true]
    exact h

/-- A CancelBook that cannot be named. -/
theorem applyCancelBook_of_not_fits {through time date : Int} {s : Engine config}
    (hfits : identifierFits n 0 = false) (habove : s.highestApplied < n) :
    applyCancelBook f through n time date x s =
      (do refuseToName; return {} : EngineM config BookCancelledByCommand)
        { s with highestApplied := if x = .live then s.highestApplied else n } := by
  refine eq_of_wp fun Q E h => ?_
  cases x with
  | live =>
    simp only [applyCancelBook, hfits, reduceCtorEq, if_false, if_true]
    exact h
  | catchUp =>
    simp only [applyCancelBook, wp_ite, wp_bind, wp_appliedBefore, hfits, habove,
      Bool.false_eq_true, if_false, if_true] at h ⊢
    exact h

variable (through time date : Int)

theorem alike_cancelBookInSequence : Alike (@SameSeen config) (cancelBookInSequence f through n time date x)
      (cancelBookInSequence f through n time date y) := by
  refine alike_bind (alike_useTradingDate f date) fun _ => alike_get_bind fun s s' h => ?_
  rw [h.book_eq (fun b => b.size) fun _ => rfl]
  refine alike_get_bind fun s s' h => ?_
  rw [h.book_eq (fun b => b.placedThrough through) fun _ => rfl]
  refine alike_bind (alike_cancelEach x y _ _ _ _) fun _ => alike_get_bind fun s s' h => ?_
  rw [h.book_eq (fun b => b.size) fun _ => rfl]
  exact alike_bind (alike_publish n) fun _ => alike_pure _

variable {s s' : Engine config}

/-- **A CancelBook ends alike either way.** -/
theorem endAlike_applyCancelBook (h : SameSeen s s') (habove : s.highestApplied < n)
    (habove' : s'.highestApplied < n) :
    EndAlike SameSeen (applyCancelBook f through n time date x s)
      (applyCancelBook f through n time date y s') := by
  cases hfits : identifierFits n 0 with
  | true =>
    rw [applyCancelBook_eq hfits habove, applyCancelBook_eq hfits habove']
    exact alike_cancelBookInSequence through time date _ _ { h with book := h.book }
  | false =>
    rw [applyCancelBook_of_not_fits hfits habove, applyCancelBook_of_not_fits hfits habove']
    exact alike_bind (alike_setHalted true) (fun _ => alike_pure _) _ _ { h with book := h.book }

/-- Where a CancelBook leaves the position. -/
theorem position_applyCancelBook {s : Engine config} (habove : s.highestApplied < n) :
    (endState (applyCancelBook f through n time date x) s).highestApplied =
      if identifierFits n 0 = true ∨ x = .catchUp then n else s.highestApplied := by
  cases hfits : identifierFits n 0 with
  | true =>
    rw [endState_congr (applyCancelBook_eq hfits habove), if_pos (.inl rfl)]
    exact ((sameMarks_cancelBookInSequence f through n time date x).endState _).highestApplied
  | false =>
    rw [endState_congr (applyCancelBook_of_not_fits hfits habove)]
    refine ((keeps_bind (sameMarks_setHalted true) fun _ => keeps_pure _).endState _).highestApplied.trans ?_
    cases x <;> simp

variable (voided : VoidedRange)

/-- Learning of a void is alike from the same position. -/
theorem endAlike_learnVoid (h : SameSeen s s') (hposition : s.highestApplied = s'.highestApplied) :
    EndAlike SameSeen (learnVoid f voided s) (learnVoid f voided s') := by
  have hcall : Alike (fun s s' : Engine config => SameSeen s s' ∧ s.highestApplied = s'.highestApplied)
      (learnVoid f voided) (learnVoid f voided) := by
    refine alike_bind (alike_ite (alike_throw _) (alike_pure _)) fun _ => alike_get_bind fun s s' h => ?_
    rw [h.1.voids]
    refine alike_ite (alike_pure _) (alike_bind (alike_modify fun s s' h => ?_) fun _ => ?_)
    · exact ⟨{ h.1 with voids := rfl }, h.2⟩
    refine alike_get_bind fun s s' h => ?_
    rw [h.1.book_eq (fun b => b.voidsKnownThrough) fun _ => rfl]
    refine alike_ite (alike_pure _) (alike_bind (alike_modify fun s s' h => ?_) fun _ => ?_)
    · exact ⟨h.1.changeBook (congrArg (BookChange.mk _) (h.1.book_eq (fun b => b.index) fun _ => rfl)), h.2⟩
    refine alike_get_bind fun s s' h => ?_
    rw [h.2]
    exact alike_ite (alike_pure _) (alike_pure _)
  rcases (hcall s s' ⟨h, hposition⟩).cases with ⟨b, t, t', hs, hs', ht⟩ | ⟨e, t, t', hs, hs', ht⟩
  · rw [hs, hs']
    exact ⟨rfl, ht.1⟩
  · rw [hs, hs']
    exact ⟨rfl, ht.1⟩

theorem alike_technicalEventInSequence (day : Int) (halted : Bool) (date : Int) :
    Alike (@SameSeen config) (technicalEventInSequence day halted n date)
      (technicalEventInSequence day halted n date) := by
  refine alike_ite (alike_bind (alike_publish n) fun _ => alike_pure _) (alike_get_bind fun s s' h => ?_)
  rw [h.halted]
  exact alike_bind (alike_setHalted halted) fun _ => alike_bind (alike_publish n) fun _ => alike_pure _

/-- A VoidCommands ends alike from the same position. -/
theorem endAlike_voidCommandsInSequence (h : SameSeen s s')
    (hposition : s.highestApplied = s'.highestApplied) :
    EndAlike SameSeen (voidCommandsInSequence f voided s) (voidCommandsInSequence f voided s') := by
  have hfirst : ∀ t : Engine config, voidCommandsInSequence f voided t =
    (if voidAt t.voids voided.voidSeqNo = none then
        (do let learnt ← learnVoid f voided
            publish voided.voidSeqNo
              return { applied := true, learnedTooLate := learnt == .afterApplyingSome } :
          EngineM config VoidCommandsApplied)
      else (do publish voided.voidSeqNo; return { applied := true })) t := fun _ => rfl
  rw [hfirst, hfirst, h.voids]
  split
  · exact (endAlike_learnVoid voided h hposition).bind fun _ =>
      alike_bind (alike_publish _) fun _ => alike_pure _
  · exact alike_bind (alike_publish _) (fun _ => alike_pure _) _ _ h

/-- **A TechnicalEvent ends alike either way.** -/
theorem endAlike_applyTechnicalEvent (day : Int) (halted : Bool) (date : Int)
    (h : SameSeen s s') (habove : s.highestApplied < n) (habove' : s'.highestApplied < n) :
    EndAlike SameSeen (applyTechnicalEvent day halted n date x s)
      (applyTechnicalEvent day halted n date y s') := by
  unfold applyTechnicalEvent
  rw [bind_of_ok (passedOver_eq habove), bind_of_ok (passedOver_eq habove')]
  exact alike_technicalEventInSequence day halted date _ _ { h with book := h.book }

/-- **A VoidCommands ends alike either way.** -/
theorem endAlike_applyVoidCommands (h : SameSeen s s') (habove : s.highestApplied < voided.voidSeqNo)
    (habove' : s'.highestApplied < voided.voidSeqNo) :
    EndAlike SameSeen (applyVoidCommands f voided x s) (applyVoidCommands f voided y s') := by
  unfold applyVoidCommands
  rw [bind_of_ok (passedOver_eq habove), bind_of_ok (passedOver_eq habove')]
  exact endAlike_voidCommandsInSequence voided { h with book := h.book } rfl

end VenueCommands

/-! ## Sequences of commands -/

/-- The calls that the two ways make at different places do not fail. -/
structure Faults.EvenHanded (f : Faults) : Prop where
  dates : f.datesMade
  accepted : f.fails .orderAccepted = false

section Members

variable {f : Faults} {x y : CommandSource} {s s' : Engine config} (hf : f.EvenHanded) (a : Arrival)
  (h : SameSeen s s') (habove : s.highestApplied < a.sequenceNumber)
    (habove' : s'.highestApplied < a.sequenceNumber)
include hf h habove habove'

/-- **A new order ends alike either way.** -/
theorem endAlike_applyNewOrder (layouts : GroupLayouts) (view : NewOrderSingle) :
    EndAlike SameSeen (applyNewOrder layouts f view (a.via x) s)
      (applyNewOrder layouts f view (a.via y) s') := by
  have hreject : Alike (@SameSeen config) (rejectFailedOrder f view (a.via x))
    (rejectFailedOrder f view (a.via y)) :=
    alike_bind (alike_identifier f _ _ _ _) fun _ => alike_outputReport f x y _ _ _ _
  exact endAlike_guardedCommand hf.dates (fun z => refuseOutOfSequenceOrder f view (a.via z))
    (fun z => applyOrderInSequence layouts f view (a.via z)) (fun z => rejectFailedOrder f view (a.via z))
    (alike_applyOrderInSequence layouts view a x y hf.accepted) hreject h habove habove'

/-- **A cancel ends alike either way.** -/
theorem endAlike_applyCancel (view : OrderCancelRequest) :
    EndAlike SameSeen (applyCancel f view (a.via x) s) (applyCancel f view (a.via y) s') := by
  have hreject : Alike (@SameSeen config) (rejectFailedCancel f view (a.via x))
    (rejectFailedCancel f view (a.via y)) :=
    alike_bind (alike_identifier f _ _ _ _) fun _ => alike_outputReport f x y _ _ _ _
  exact endAlike_guardedCommand hf.dates (fun z => refuseOutOfSequenceCancel f view (a.via z))
    (fun z => applyCancelInSequence f view (a.via z)) (fun z => rejectFailedCancel f view (a.via z))
    (alike_applyCancelInSequence view a x y) hreject h habove habove'

end Members

/-- The command can be named, or needs no name. -/
def Command.nameable : Command → Bool
  | .newOrder _ n _ _ _ | .cancel _ n _ _ _ | .cancelBook _ n _ _ => identifierFits n 0
  | .technicalEvent _ _ _ _ | .voidCommands _ => true

section Sequences

variable (layouts : GroupLayouts) {f : Faults} {x y : CommandSource}

/-- **One command comes to the same either way**, from engines of which the same is seen. -/
theorem sameSeen_applyCommand (hf : f.EvenHanded) (command : Command) {s s' : Engine config}
    (h : SameSeen s s') (habove : s.highestApplied < command.sequenceNumber)
    (habove' : s'.highestApplied < command.sequenceNumber) :
    SameSeen (endState (applyCommand layouts f x command) s)
      (endState (applyCommand layouts f y command) s') := by
  cases command with
  | newOrder view n time date session =>
    exact (endAlike_applyNewOrder hf ⟨n, time, date, session, .live⟩ h habove habove' layouts view).endState
  | cancel view n time date session =>
    exact (endAlike_applyCancel hf ⟨n, time, date, session, .live⟩ h habove habove' view).endState
  | cancelBook through n time date =>
    exact ((endAlike_applyCancelBook through time date h habove habove').bind fun _ => alike_pure _).endState
  | technicalEvent day halted n date =>
    exact ((endAlike_applyTechnicalEvent day halted date h habove habove').bind fun _ =>
      alike_pure _).endState
  | voidCommands voided =>
    exact ((endAlike_applyVoidCommands voided h habove habove').bind fun _ => alike_pure _).endState

/-- A program whose answer is not looked at ends where it ends. -/
theorem endState_discard {α : Type} (m : EngineM config α) (s : Engine config) :
    endState (do let _ ← m) s = endState m s := by
  unfold endState
  have hbind : (do let _ ← m : EngineM config Unit) s = EStateM.bind m (fun _ => pure ()) s := rfl
  rw [hbind]
  unfold EStateM.bind
  cases m s <;> rfl

variable {s : Engine config}

/-- **Where a command leaves the position**: at the command, unless it is live and cannot be named. -/
theorem position_applyCommand (hf : f.EvenHanded) (command : Command)
    (habove : s.highestApplied < command.sequenceNumber) :
    (endState (applyCommand layouts f x command) s).highestApplied =
      if command.nameable = true ∨ x = .catchUp then command.sequenceNumber else s.highestApplied := by
  cases command with
  | newOrder view n time date session =>
    exact position_guardedCommand (a := ⟨n, time, date, session, x⟩) habove hf.dates
      (sameMarks_applyOrderInSequence f _ layouts view) (quiet_rejectFailedOrder f _ view)
  | cancel view n time date session =>
    exact position_guardedCommand (a := ⟨n, time, date, session, x⟩) habove hf.dates
      (sameMarks_applyCancelInSequence f _ view) (quiet_rejectFailedCancel f _ view)
  | cancelBook through n time date =>
    rw [applyCommand, endState_discard]
    exact position_applyCancelBook through time date habove
  | technicalEvent day halted n date =>
    rw [applyCommand, endState_discard, if_pos (.inl rfl)]
    have hpassed : applyTechnicalEvent day halted n date x s = technicalEventInSequence day halted n date _ :=
      bind_of_ok (passedOver_eq habove)
    rw [endState_congr hpassed]
    exact ((sameMarks_technicalEventInSequence day halted n date).endState _).highestApplied
  | voidCommands voided =>
    rw [applyCommand, endState_discard, if_pos (.inl rfl)]
    have hpassed : applyVoidCommands f voided x s = voidCommandsInSequence f voided _ :=
      bind_of_ok (passedOver_eq habove)
    rw [endState_congr hpassed]
    exact (samePosition_voidCommandsInSequence f voided).endState _

/-- Apply commands one after another, each in one of the two ways. -/
def applyAll (layouts : GroupLayouts) (f : Faults) (s : Engine config)
    (division : List (CommandSource × Command)) :
    Engine config :=
  division.foldl (fun s delivery => endState (applyCommand layouts f delivery.1 delivery.2) s) s

/-- Sequence numbers that rise strictly, from above a position. -/
def Rising : Int → List Command → Prop
  | _, [] => True
  | n, command :: rest => n < command.sequenceNumber ∧ Rising command.sequenceNumber rest

variable {commands : List Command}

/-- A position below the first command. -/
theorem Rising.mono {n n' : Int} (h : Rising n commands) (hle : n' ≤ n) : Rising n' commands := by
  cases commands with
  | nil => trivial
  | cons => exact ⟨Int.lt_of_le_of_lt hle h.1, h.2⟩

section

variable (hf : f.EvenHanded)
include hf

/-- A command leaves the position at it, or below it. -/
theorem position_le (command : Command) (habove : s.highestApplied < command.sequenceNumber) :
    (endState (applyCommand layouts f x command) s).highestApplied ≤ command.sequenceNumber := by
  rw [position_applyCommand layouts hf command habove]
  split
  · exact Int.le_refl _
  · exact habove.le

variable {division : List (CommandSource × Command)}

/-- **The same is seen of an engine, however the commands are divided.** -/
theorem sameSeen_applyAll {division' : List (CommandSource × Command)}
    (hsame : division.map Prod.snd = division'.map Prod.snd) {s s' : Engine config} (h : SameSeen s s')
    (hrising : Rising s.highestApplied (division.map Prod.snd))
    (hrising' : Rising s'.highestApplied (division'.map Prod.snd)) :
    SameSeen (applyAll layouts f s division) (applyAll layouts f s' division') := by
  induction division generalizing division' s s' with
  | nil =>
    cases division' with
    | nil => exact h
    | cons => cases hsame
  | cons delivery rest ih =>
    cases division' with
    | nil => cases hsame
    | cons delivery' =>
      obtain ⟨x, command⟩ := delivery
      obtain ⟨y, command'⟩ := delivery'
      obtain ⟨rfl, hrest⟩ := cons.inj hsame
      have hnext := sameSeen_applyCommand layouts (x := x) (y := y) hf command h hrising.1 hrising'.1
      exact ih hrest hnext (hrising.2.mono (position_le layouts hf command hrising.1))
        (hrising'.2.mono (position_le layouts hf command hrising'.1))

/-- The last command is above the position that the others leave. -/
theorem position_applyAll_lt {last : Command}
    (hrising : Rising s.highestApplied (division.map Prod.snd ++ [last])) :
    (applyAll layouts f s division).highestApplied < last.sequenceNumber := by
  induction division generalizing s with
  | nil => exact hrising.1
  | cons delivery rest ih => exact ih (hrising.2.mono (position_le layouts hf delivery.2 hrising.1))

/-- The position that the commands leave is the last of them, where it can be named. -/
theorem position_applyAll {first : List Command} {last : Command} (hlast : last.nameable = true)
    (hrising : Rising s.highestApplied (first ++ [last]))
    (hdivision : division.map Prod.snd = first ++ [last]) :
    (applyAll layouts f s division).highestApplied = last.sequenceNumber := by
  obtain ⟨before, ending, rfl, rfl, hending⟩ := map_eq_append_iff.mp hdivision
  obtain ⟨⟨x, command⟩, rfl, rfl⟩ := map_eq_singleton_iff.mp hending
  have hends : applyAll layouts f s (before ++ [(x, command)]) =
      endState (applyCommand layouts f x command) (applyAll layouts f s before) := by simp [applyAll]
  rw [hends, position_applyCommand layouts hf command (position_applyAll_lt layouts hf hrising),
    if_pos (.inl hlast)]

end

/-- **Two divisions of the commands come to the same**: the book, whether trading is halted, the
position, and the reports of each command but for the mark. -/
structure SameOutcome (f : Faults) (s : Engine config) (division division' : List (CommandSource × Command)) :
    Prop where
  book : (applyAll layouts f s division).book.unpublished = (applyAll layouts f s division').book.unpublished
  halted : (applyAll layouts f s division).book.halted = (applyAll layouts f s division').book.halted
  position : (applyAll layouts f s division).highestApplied = (applyAll layouts f s division').highestApplied
  reports : ∀ k, (applyAll layouts f s (division.take k)).sent.map unmarked =
    (applyAll layouts f s (division'.take k)).sent.map unmarked

/-- The first commands of a sequence that rises. -/
theorem Rising.take {n : Int} (h : Rising n commands) (k : Nat) : Rising n (commands.take k) := by
  induction commands generalizing n k with
  | nil => simpa using h
  | cons command rest ih =>
    cases k with
    | zero => trivial
    | succ k => exact ⟨h.1, ih h.2 k⟩

/-- **Commands that rise from above the position come to the same however they are divided into live
commands and commands of a catch-up**, exactly where the last of them can be named, or needs no
name. -/
theorem sameOutcome_iff (hf : f.EvenHanded) (s : Engine config)
    (hrising : Rising s.highestApplied commands) :
    (∀ division division', division.map Prod.snd = commands → division'.map Prod.snd = commands →
      SameOutcome layouts f s division division') ↔ ∀ last ∈ commands.getLast?, last.nameable = true := by
  constructor
  · intro hall last hlast
    obtain ⟨first, rfl⟩ := getLast?_eq_some_iff.mp hlast
    -- the last command applied live and as part of a catch-up, after the others applied live
    have hdivision : ∀ x : CommandSource,
      (first.map (fun c => (CommandSource.live, c)) ++ [(x, last)]).map Prod.snd =
        first ++ [last] := fun x => by simp [map_map, Function.comp_def]
    have hposition := (hall _ _ (hdivision .live) (hdivision .catchUp)).position
    have hbelow : (applyAll layouts f s (first.map fun c => (CommandSource.live, c))).highestApplied <
        last.sequenceNumber :=
          position_applyAll_lt layouts hf (by simpa [map_map, Function.comp_def] using hrising)
    have hends : ∀ x : CommandSource,
        applyAll layouts f s (first.map (fun c => (CommandSource.live, c)) ++ [(x, last)]) =
        endState (applyCommand layouts f x last)
          (applyAll layouts f s (first.map fun c => (CommandSource.live, c))) :=
      fun x => by simp [applyAll]
    by_contra hnot
    rw [hends, hends, position_applyCommand layouts hf last hbelow,
      position_applyCommand layouts hf last hbelow, if_neg (by simp [hnot]),
        if_pos (.inr rfl)] at hposition
    exact absurd hposition (Int.ne_of_lt hbelow)
  · intro hnameable division division' hdivision hdivision'
    have hseen : ∀ k, SameSeen (applyAll layouts f s (division.take k))
      (applyAll layouts f s (division'.take k)) := by
      intro k
      refine sameSeen_applyAll layouts hf ?_ (.refl s) ?_ ?_
      · rw [map_take, map_take, hdivision, hdivision']
      · rw [map_take, hdivision]
        exact hrising.take k
      · rw [map_take, hdivision']
        exact hrising.take k
    have hend := sameSeen_applyAll layouts hf (hdivision.trans hdivision'.symm) (.refl s)
      (hdivision ▸ hrising)
      (hdivision' ▸ hrising)
    refine ⟨hend.book, hend.halted, ?_, fun k => (hseen k).sent⟩
    rcases eq_nil_or_concat commands with rfl | ⟨first, last, rfl⟩
    · rw [map_eq_nil_iff.mp hdivision, map_eq_nil_iff.mp hdivision']
    · rw [concat_eq_append] at hrising hdivision hdivision'
      have hlast : last.nameable = true := hnameable last (by simp)
      rw [position_applyAll layouts hf hlast hrising hdivision,
        position_applyAll layouts hf hlast hrising hdivision']

open VoidHistory

/-- An order, and the CancelBook that takes it off the book. -/
def orderAndCancelBook : List Command :=
  [.newOrder someOrder 5 1 20260105 ⟨1, [77]⟩, .cancelBook 5 6 1 20260105]

/-- The two commands come to the same applied live and as a catch-up. -/
theorem sameOutcome_iff_orderAndCancelBook :
    (noFaults.EvenHanded ∧ Rising someEngine.highestApplied orderAndCancelBook) ∧
      SameOutcome someLayouts noFaults someEngine
        (orderAndCancelBook.map fun c => (.live, c)) (orderAndCancelBook.map fun c => (.catchUp, c)) := by
  have hf : noFaults.EvenHanded := ⟨⟨rfl, rfl⟩, rfl⟩
  have hrising : Rising someEngine.highestApplied orderAndCancelBook :=
    ⟨by decide, by decide, trivial⟩
  refine ⟨⟨hf, hrising⟩, (sameOutcome_iff someLayouts hf _ hrising).mpr ?_ _ _ rfl rfl⟩
  intro last hlast
  cases hlast
  rfl

/-- **An order that cannot be named** moves the position as part of a catch-up and not live: the
order is at the first sequence number beyond those that identifiers hold. -/
theorem unnameable_order_differs :
    ¬SameOutcome someLayouts noFaults someEngine
      [(.live, .newOrder someOrder 68719476736 1 20260105 ⟨1, [77]⟩)]
      [(.catchUp, .newOrder someOrder 68719476736 1 20260105 ⟨1, [77]⟩)] := fun h =>
  absurd h.position (by decide)

end Sequences

end Matching

end PubsubVenue
