import PubsubVenue.Engine.LiveAndCatchUp

/-! # Every command takes effect once

Commands reach an engine in any order, live and as part of catch-ups, again and again, and calls
fail while they are applied.

* **`Settles`**: the command of a member that is in sequence returns, having been answered once, or
  throws, having changed nothing.
* **`Delivery.concluded`**: a delivery that fails leaves the book as it was, and a member is
  answered once.
* **`Delivery.takes_effect_once`**: in every run this holds of each delivery, and the book changes
  at rising sequence numbers; where live commands can be named, and no call fails once the book has
  been changed. -/

namespace PubsubVenue

open OrderBook MappedSlotStore List

namespace OrderBook

variable {config : RehashConfig OrderKey}

/-- What is on the book: the orders, and whether trading is halted. -/
def contents (b : OrderBook config) : (OrderKey → Option OrderEntry) × Bool := (b.find, b.halted)

/-- What looks the same holds the same. -/
theorem Consistent.contents_eq {b c : OrderBook config} (h : b.Consistent) (hsame : SameToSee b c) :
    c.contents = b.contents := by
  refine Prod.ext (funext fun key => ?_) ?_
  · have hfind : c.index.find key = b.index.find key := congrFun hsame.find key
    simp only [contents, find, hfind]
    cases hslot : b.index.find key with
    | none => rfl
    | some slot =>
      have hlive := ((h.filed key slot).mp hslot).2.1
      exact congrArg (fun r : MappedSlot OrderEntry => some r.payload) (hsame.records slot hlive)
  · simp only [contents, halted, hsame.ownerValues]

/-- An order that is not on the book is not in the map. -/
theorem index_find_of_not_contains {b c : OrderBook config} (hsame : c.contents = b.contents) {key : OrderKey}
    (h : b.contains key = false) : c.index.find key = none := by
  have hfind : c.find key = b.find key := congrFun (congrArg Prod.fst hsame) key
  have hnone : b.index.find key = none := Option.not_isSome_iff_eq_none.mp (Bool.eq_false_iff.mp h)
  unfold find at hfind
  rw [hnone] at hfind
  exact Option.map_eq_none_iff.mp hfind

variable {b : OrderBook config}

/-- The orders to be taken off the book, by where they were placed. -/
theorem placed_of_mem {through : Int} {order : Int × Nat}
    (h : order ∈ b.placedThrough through) : (b.entryAt order.2).placedAtSeqNo = order.1 := by
  obtain ⟨kv, -, rfl⟩ := mem_map.mp (mem_filter.mp ((mem_insertionSort _).mp h)).1
  rfl

/-- The region after one record has been taken out. -/
theorem region_removeOne (b : OrderBook config) (slot : Nat) :
    (b.after (b.removeEach [slot])).region = b.region.withFree slot := by
  simp only [after, removeEach, append_nil, writeAll_release]

/-- A book that agrees with its region does so after a position is published. -/
theorem Consistent.publish (h : b.Consistent) (n : Int) : (b.after (b.publish n)).Consistent := by
  have hallowed : b.Allows (.publish n) := trivial
  exact h.call hallowed

/-- A book that agrees with its region does so after a value of the owner is set. -/
theorem Consistent.setOwnerValue (h : b.Consistent) (index : OwnerValue) (value : Int) :
    (b.after (b.setOwnerValue index value)).Consistent := by
  have hallowed : b.Allows (.setOwnerValue index value) := trivial
  exact h.call hallowed

end OrderBook

namespace Matching

open Throwing

variable {config : RehashConfig OrderKey}

/-! ## What a part may do without answering -/

/-- Nothing is sent, and the book, the position and the ciphers are the same. -/
structure Silent (s t : Engine config) : Prop where
  quiet : Quiet s t
  sent : t.sent = s.sent
  reportsForCommand : t.reportsForCommand = s.reportsForCommand
  ciphers : t.ciphers = s.ciphers

instance : Std.Refl (@Silent config) := ⟨fun s => ⟨refl_of Quiet s, rfl, rfl, rfl⟩⟩

instance : IsTrans (Engine config) Silent :=
  ⟨fun _ _ _ h h' => ⟨trans_of Quiet h.quiet h'.quiet, h'.sent.trans h.sent,
    h'.reportsForCommand.trans h.reportsForCommand, h'.ciphers.trans h.ciphers⟩⟩

section Calls

variable (f : Faults)

theorem silent_call (site : CallSite) : Keeps (@Silent config) (call f site) :=
  keeps_ite (keeps_throw _) (keeps_pure _)

theorem silent_identifier (site : CallSite) (kind : IdentifierKind) (n : Int) (place : Nat) :
    Keeps (@Silent config) (identifier f site kind n place) := by
  refine keeps_bind keeps_get fun s => ?_
  cases s.ciphers with
  | none => exact keeps_throw _
  | some => exact keeps_ite (keeps_throw _) (keeps_bind (silent_call f _) fun _ => keeps_pure _)

end Calls

/-! ## Answers -/

/-- One report was sent, for the command at a sequence number and its session. -/
def Answered (n : Int) (session : SessionIdentity) (s t : Engine config) : Prop :=
  ∃ report, t.sent = s.sent ++ [report] ∧ report.sequenceNumber = n ∧ report.session = session

/-- How a command that throws may end: the book is as it was, and it was not answered, or answered
once. -/
structure Untouched (n : Int) (session : SessionIdentity) (s t : Engine config) : Prop where
  contents : t.book.contents = s.book.contents
  consistent : t.book.Consistent
  bookChanged : t.bookChanged = false
  answered : t.reportsForCommand = 0 ∧ t.sent = s.sent ∧ t.ciphers.isSome = true ∨
    t.reportsForCommand ≠ 0 ∧ Answered n session s t

/-- A command has changed nothing and answered nothing. -/
structure Fresh (s : Engine config) : Prop where
  consistent : s.book.Consistent
  bookChanged : s.bookChanged = false
  reportsForCommand : s.reportsForCommand = 0

/-- A command begins, and identifiers can be made for it. -/
structure Begins (s : Engine config) : Prop extends Fresh s where
  ciphers : s.ciphers.isSome = true

/-- A command has changed nothing and answered nothing yet. -/
structure Inert (s t : Engine config) : Prop where
  begins : Begins t
  contents : t.book.contents = s.book.contents
  sent : t.sent = s.sent

variable {s t : Engine config}

/-- A part that is silent leaves the command where it began. -/
theorem Begins.inert (h : Begins s) (hsilent : Silent s t) : Inert s t where
  begins := ⟨⟨hsilent.quiet.book ▸ h.consistent, hsilent.quiet.bookChanged.trans h.bookChanged,
    hsilent.reportsForCommand.trans h.reportsForCommand⟩, hsilent.ciphers ▸ h.ciphers⟩
  contents := by rw [hsilent.quiet.book]
  sent := hsilent.sent

variable {session : SessionIdentity} {n : Int}

theorem Inert.untouched (h : Inert s t) : Untouched n session s t :=
  ⟨h.contents, h.begins.consistent, h.begins.bookChanged,
    .inl ⟨h.begins.reportsForCommand, h.sent, h.begins.ciphers⟩⟩

/-- What is untouched since nothing had happened is untouched. -/
theorem Untouched.of_inert {s t u : Engine config} (hinert : Inert s t) (h : Untouched n session t u) :
    Untouched n session s u where
  contents := h.contents.trans hinert.contents
  consistent := h.consistent
  bookChanged := h.bookChanged
  answered := by
    rcases h.answered with ⟨hnone, hsent, hciphers⟩ | ⟨hsome, report, hsent, hreport⟩
    · exact .inl ⟨hnone, hsent.trans hinert.sent, hciphers⟩
    · exact .inr ⟨hsome, report, by rw [hsent, hinert.sent], hreport⟩

/-- **How the command of a member in sequence may end**: it returns, having been answered once, or
throws, having changed nothing. -/
def Settles (n : Int) (session : SessionIdentity) (m : EngineM config Unit) (s : Engine config) : Prop :=
  wp m (fun _ t => Answered n session s t ∧ t.book.Consistent) (fun _ t => Untouched n session s t) s

section Refusals

variable {f : Faults} {a : Arrival} {n : Int} {session : SessionIdentity}

/-- A command that settles where nothing has happened since. -/
theorem Settles.of_inert {m : EngineM config Unit} {s t : Engine config} (hinert : Inert s t)
    (h : Settles n session m t) :
    wp m (fun _ u => Answered n session s u ∧ u.book.Consistent) (fun _ u => Untouched n session s u) t := by
  refine wp_mono h (fun _ u hu => ⟨?_, hu.2⟩) (fun _ u hu => hu.of_inert hinert)
  obtain ⟨report, hsent, hreport⟩ := hu.1
  exact ⟨report, by rw [hsent, hinert.sent], hreport⟩

variable {s : Engine config}

/-- A silent part first. -/
theorem settles_bind {α : Type} {m : EngineM config α} {k : α → EngineM config Unit}
    (hs : Begins s) (hm : Keeps Silent m) (hk : ∀ b t, Inert s t → Settles n session (k b) t) :
    Settles n session (do let b ← m; k b) s := by
  unfold Settles
  rw [wp_bind]
  refine wp_mono (hm s) (fun b t hsilent => ?_) (fun _ t hsilent => (hs.inert hsilent).untouched)
  exact (hk b t (hs.inert hsilent)).of_inert (hs.inert hsilent)

/-- A report. -/
theorem settles_sendReport (site : CallSite) (report : ExecutionReport) (source : CommandSource)
    (hs : Begins s) : Settles n session (sendReport f site report n session source) s := by
  unfold Settles sendReport outputReport
  simp only [wp_bind, wp_call, wp_modify]
  split
  · exact (hs.inert (refl_of Silent s)).untouched
  · exact ⟨⟨_, rfl, rfl, rfl⟩, hs.consistent⟩

/-- The position may be published after a refusal. -/
theorem Settles.publish {m : EngineM config Unit} (h : Settles n session m s) (position : Int)
    (source : CommandSource) : Settles n session (do m; publishAfterRefusal position source) s := by
  unfold Settles
  rw [wp_bind]
  refine wp_mono h (fun _ t ht => ?_) (fun _ _ ht => ht)
  simp only [publishAfterRefusal, Matching.publish, changeBook, wp_ite, wp_modify, wp_pure]
  split
  · exact ⟨ht.1, ht.2.publish _⟩
  · exact ht

theorem settles_refuseOrder (view : NewOrderSingle) (reason : OrdRejReason) (text : Option String)
    (hs : Begins s) :
    Settles a.sequenceNumber a.session (refuseOrder f view a reason text) s :=
  settles_bind hs (silent_identifier f _ _ _ _) fun _ _ ht => settles_sendReport _ _ _ ht.begins

theorem settles_refuseCancel (view : OrderCancelRequest) (reason : OrdRejReason) (text : Option String)
    (hs : Begins s) :
    Settles a.sequenceNumber a.session (refuseCancel f view a reason text) s :=
  settles_bind hs (silent_identifier f _ _ _ _) fun _ _ ht => settles_sendReport _ _ _ ht.begins

end Refusals

/-! ## New orders -/

/-- The calls that are made once an order is on the book do not fail. -/
@[mk_iff]
structure Faults.AcceptsOrders (f : Faults) : Prop where
  orderAccepted : f.fails .orderAccepted = false
  groupArena : f.fails .groupArena = false
  acceptedReport : f.fails .acceptedReport = false
  acceptedOutcome : f.fails .acceptedOutcome = false

section Orders

variable {layouts : GroupLayouts} {f : Faults} {a : Arrival} {view : NewOrderSingle}

/-- Copying the groups does not throw, where the arena can grow. -/
theorem wp_echoGroups (hf : f.fails .groupArena = false) (rounds : Nat) (s : Engine config) :
    wp (echoGroups layouts f view rounds) (fun _ t => Silent s t) (fun _ _ => False) s := by
  induction rounds generalizing s with
  | zero => exact refl_of Silent s
  | succ rounds ih =>
    simp only [echoGroups, wp_bind, wp_get, wp_ite, wp_pure, wp_call, hf, Bool.false_eq_true,
      if_false, wp_modify]
    split
    · exact refl_of Silent s
    · refine wp_mono (ih _) (fun _ t ht => trans_of Silent ?_ ht) (fun _ _ h => h)
      exact ⟨⟨rfl, rfl, rfl, rfl, rfl⟩, rfl, rfl, rfl⟩

theorem wp_countOrder (hf : f.fails .orderAccepted = false) (source : CommandSource) (s : Engine config) :
    wp (countOrder f source) (fun _ t => t.book = s.book ∧ t.sent = s.sent) (fun _ _ => False) s := by
  simp only [countOrder, wp_ite, wp_bind, wp_call, hf, Bool.false_eq_true, if_false, wp_modify, wp_pure]
  split <;> trivial

variable {s : Engine config}

/-- **An order that is on the book is answered**, where the calls that are made then do not fail. -/
theorem wp_acceptOrder (hf : f.AcceptsOrders) (orderId execId : Identifier) (hs : s.book.Consistent) :
    wp (acceptOrder layouts f view a orderId execId)
      (fun _ t => Answered a.sequenceNumber a.session s t ∧ t.book.Consistent) (fun _ _ => False) s := by
  unfold acceptOrder
  rw [wp_bind]
  refine wp_mono (wp_countOrder hf.orderAccepted a.source s) (fun _ t ht => ?_) (fun _ _ h => h)
  rw [wp_bind]
  refine wp_mono (wp_echoGroups hf.groupArena 64 t) (fun groups u hu => ?_) (fun _ _ h => h)
  simp only [sendReport, outputReport, publish, changeBook, wp_bind, wp_call, wp_modify, hf.acceptedReport,
    hf.acceptedOutcome, Bool.false_eq_true, if_false]
  refine ⟨⟨_, by rw [hu.sent, ht.2], rfl, rfl⟩, ?_⟩
  have hconsistent : u.book.Consistent := by
    rw [hu.quiet.book, ht.1]
    exact hs
  exact hconsistent.publish _

/-- **Adding an order that is not on the book**: it is added, or nothing is changed and there is no
room or the map could not grow. -/
theorem wp_addOrder {key : OrderKey} (hs : Begins s) (habsent : s.book.index.find key = none) :
    wp (addOrder f view a key) (fun added t =>
      if added then t.sent = s.sent ∧ t.book.Consistent else Inert s t)
      (fun _ t => Inert s t) s := by
  have hadd := sameToSee_add hs.consistent f.allocates (orderEntry view a) a.sequenceNumber habsent
  have hconsistent := hs.consistent.add f.allocates (orderEntry view a) a.sequenceNumber habsent
  simp only [addOrder, changeBook, wp_bind, wp_get, wp_modify, wp_ite, wp_throw, wp_pure]
  cases hresult : (s.book.add f.allocates key (orderEntry view a) a.sequenceNumber).2 with
  | added => exact ⟨trivial, hconsistent⟩
  | full =>
    have hsame := hs.consistent.contents_eq (hadd (by simp [hresult]))
    exact ⟨⟨⟨hconsistent, rfl, hs.reportsForCommand⟩, hs.ciphers⟩, hsame, rfl⟩
  | threw =>
    have hsame := hs.consistent.contents_eq (hadd (by simp [hresult]))
    exact ⟨⟨⟨hconsistent, hs.bookChanged, hs.reportsForCommand⟩, hs.ciphers⟩, hsame, rfl⟩

/-- **A new order that can be named settles.** -/
theorem settles_applyNamedOrder (hf : f.AcceptsOrders) (hs : Begins s) :
    Settles a.sequenceNumber a.session (applyNamedOrder layouts f view a) s := by
  refine settles_bind hs (silent_identifier f _ _ _ _) fun execId t ht => ?_
  unfold Settles
  rw [wp_get_bind, wp_ite]
  split
  · exact (settles_sendReport _ _ _ ht.begins).publish _ _
  rw [wp_get_bind, wp_ite]
  split
  · exact settles_bind ht.begins (silent_call f _) fun _ u hu =>
      (settles_sendReport _ _ _ hu.begins).publish _ _
  rename_i habsent
  refine settles_bind ht.begins (silent_identifier f _ _ _ _) fun orderId u hu => ?_
  have hnone := index_find_of_not_contains hu.contents (Bool.eq_false_iff.mpr habsent)
  unfold Settles
  rw [wp_bind]
  refine wp_mono (wp_addOrder hu.begins hnone) (fun added v hv => ?_) (fun _ v hv => hv.untouched)
  rw [wp_ite]
  split
  · rename_i hadded
    rw [if_pos hadded] at hv
    refine wp_mono (wp_acceptOrder hf orderId execId hv.2) (fun _ w hw => ⟨?_, hw.2⟩) (fun _ _ h => h.elim)
    obtain ⟨report, hsent, hreport⟩ := hw.1
    exact ⟨report, by rw [hsent, hv.1], hreport⟩
  · rename_i hfull
    rw [if_neg hfull] at hv
    exact ((settles_sendReport _ _ _ hv.begins).publish _ _).of_inert hv

/-- **A new order in sequence settles.** -/
theorem settles_applyOrderInSequence (hf : f.AcceptsOrders) (hs : Begins s) :
    Settles a.sequenceNumber a.session (applyOrderInSequence layouts f view a) s := by
  unfold Settles applyOrderInSequence
  rw [wp_ite]
  split
  · exact (settles_refuseOrder view _ _ hs).publish _ _
  rw [wp_get_bind]
  cases voiding s.voids a.sequenceNumber .newOrder with
  | some =>
    refine Settles.publish (settles_bind hs (silent_call f _) fun _ t ht => ?_) _ _
    exact settles_refuseOrder view _ _ ht.begins
  | none =>
    simp only [wp_ite]
    split
    · exact settles_applyNamedOrder hf hs
    · refine Settles.publish (settles_bind hs (silent_call f _) fun _ t ht => ?_) _ _
      exact settles_refuseOrder view _ _ ht.begins

end Orders

/-! ## Cancels -/

/-- The calls that are made once an order is off the book do not fail. -/
@[mk_iff]
structure Faults.CancelsOrders (f : Faults) : Prop where
  cancelOrderId : f.fails .cancelOrderId = false
  canceledReport : f.fails .canceledReport = false
  canceledOutcome : f.fails .canceledOutcome = false

section Cancels

variable {f : Faults} {a : Arrival} {view : OrderCancelRequest} {s : Engine config}

/-- An identifier is made, where the ciphers are there and it fits. -/
theorem wp_identifier {site : CallSite} (hf : f.fails site = false) (kind : IdentifierKind)
    {n : Int} {place : Nat} (hfits : identifierFits n place = true)
    (hciphers : s.ciphers.isSome = true) {Q : Identifier → Engine config → Prop}
    {E : Unit → Engine config → Prop} (h : ∀ id, Q id s) :
    wp (identifier f site kind n place) Q E s := by
  obtain ⟨date, hdate⟩ := Option.isSome_iff_exists.mp hciphers
  unfold identifier
  rw [wp_get_bind, hdate]
  simp only [hfits, Bool.true_eq_false, if_false, wp_bind, wp_call, hf, Bool.false_eq_true, wp_pure]
  exact h _

/-- **An order that is taken off the book is answered**, where the calls that are made then do not
fail. -/
theorem wp_cancelOrder (hf : f.CancelsOrders) (key : OrderKey) (entry : OrderEntry) (execId : Identifier)
    (hfits : identifierFits entry.placedAtSeqNo 0 = true) (hs : Begins s) :
    Settles a.sequenceNumber a.session (cancelOrder f view a key entry execId) s := by
  simp only [Settles, cancelOrder, changeBook, wp_bind, wp_modify]
  refine wp_identifier hf.cancelOrderId .order hfits ?_ fun orderId => ?_
  · exact hs.ciphers
  simp only [sendReport, outputReport, publish, changeBook, wp_bind, wp_call, wp_modify, hf.canceledReport,
    hf.canceledOutcome, Bool.false_eq_true, if_false]
  exact ⟨⟨_, rfl, rfl, rfl⟩, (hs.consistent.remove key).publish _⟩

/-- **A cancel that can be named settles.** -/
theorem settles_applyNamedCancel (hf : f.CancelsOrders) (hs : Begins s)
    (hfits : ∀ entry, s.book.find (OrderKey.make a.session view.origClOrdId) = some entry →
      identifierFits entry.placedAtSeqNo 0 = true) :
    Settles a.sequenceNumber a.session (applyNamedCancel f view a) s := by
  refine settles_bind hs (silent_identifier f _ _ _ _) fun execId t ht => ?_
  have hsame : t.book.find (OrderKey.make a.session view.origClOrdId) =
      s.book.find (OrderKey.make a.session view.origClOrdId) := congrFun (congrArg Prod.fst ht.contents) _
  unfold Settles
  rw [wp_get_bind, hsame]
  cases hfind : s.book.find (OrderKey.make a.session view.origClOrdId) with
  | some entry =>
    exact wp_cancelOrder hf _ entry execId (hfits entry hfind) ht.begins
  | none =>
    simp only [sendReport, outputReport, publishAfterRefusal, publish, changeBook, wp_bind, wp_call,
      wp_modify, wp_ite, wp_pure]
    split
    · exact (ht.begins.inert (refl_of Silent t)).untouched
    · -- the refusal stands, whether or not it can be told of
      split
      · split
        · exact ⟨rfl, ht.begins.consistent.publish _, ht.begins.bookChanged,
            .inr ⟨Nat.succ_ne_zero _, _, rfl, rfl, rfl⟩⟩
        · exact ⟨⟨_, rfl, rfl, rfl⟩, ht.begins.consistent.publish _⟩
      · split
        · exact ⟨rfl, ht.begins.consistent, ht.begins.bookChanged,
            .inr ⟨Nat.succ_ne_zero _, _, rfl, rfl, rfl⟩⟩
        · exact ⟨⟨_, rfl, rfl, rfl⟩, ht.begins.consistent⟩

theorem settles_refuseVoidedCancel (voided : VoidedRange) (hs : Begins s) :
    Settles a.sequenceNumber a.session (refuseVoidedCancel f view a voided) s := by
  refine settles_bind hs (silent_call f _) fun _ t ht => ?_
  unfold Settles
  rw [wp_get_bind]
  cases namedOrder view a t.book with
  | none => exact settles_refuseCancel view _ _ ht.begins
  | some =>
    refine settles_bind ht.begins (silent_identifier f _ _ _ _) fun _ u hu => ?_
    exact settles_bind hu.begins (silent_identifier f _ _ _ _) fun _ v hv =>
      settles_sendReport _ _ _ hv.begins

/-- **A cancel in sequence settles.** -/
theorem settles_applyCancelInSequence (hf : f.CancelsOrders) (hs : Begins s)
    (hfits : ∀ entry, s.book.find (OrderKey.make a.session view.origClOrdId) = some entry →
      identifierFits entry.placedAtSeqNo 0 = true) :
    Settles a.sequenceNumber a.session (applyCancelInSequence f view a) s := by
  unfold Settles applyCancelInSequence
  rw [wp_ite]
  split
  · exact (settles_refuseCancel view _ _ hs).publish _ _
  rw [wp_get_bind]
  cases voiding s.voids a.sequenceNumber .cancel with
  | some voided => exact (settles_refuseVoidedCancel voided hs).publish _ _
  | none =>
    simp only [wp_ite]
    split
    · exact settles_applyNamedCancel hf hs hfits
    · refine Settles.publish (settles_bind hs (silent_call f _) fun _ t ht => ?_) _ _
      exact settles_refuseCancel view _ _ ht.begins

end Cancels

/-! ## Commands of members -/

/-- A command can be answered: the rejection of one that fails can be sent, and identifiers can be
made, by the ciphers in use or by those of the trading date. -/
@[mk_iff]
structure Faults.Answers (f : Faults) (s : Engine config) (date : Int) : Prop where
  rejectionExecId : f.fails .rejectionExecId = false
  rejectionReport : f.fails .rejectionReport = false
  made : date = s.tradingDate ∨ f.fails .tradingDateCiphers = false
  ciphers : s.ciphers.isSome = true ∨ date ≠ s.tradingDate ∧ f.fails .tradingDateKeys = false

section Members

variable {f : Faults} {a : Arrival} {s : Engine config}

/-- However the keys of the trading date are made or fail to be, identifiers can be made then. -/
theorem wp_useTradingDate_of_answers {date : Int} (hf : f.Answers s date) (hs : Fresh s) :
    wp (useTradingDate f date) (fun _ t => Inert s t ∧ t.book = s.book ∧ t.highestApplied = s.highestApplied)
      (fun _ t => Inert s t) s := by
  simp only [useTradingDate, wp_bind, wp_get, wp_ite, wp_pure, wp_call, wp_modify]
  split
  · rename_i hsame
    have hciphers : s.ciphers.isSome = true := hf.ciphers.resolve_right fun h => h.1 hsame
    exact ⟨⟨⟨hs, hciphers⟩, rfl, rfl⟩, trivial, trivial⟩
  rename_i hother
  split
  · rename_i hkeys
    have hciphers : s.ciphers.isSome = true := hf.ciphers.resolve_right fun h => by
      rw [hkeys] at h
      exact absurd h.2 Bool.noConfusion
    exact ⟨⟨hs, hciphers⟩, rfl, rfl⟩
  · rw [hf.made.resolve_left hother, if_neg Bool.false_ne_true]
    exact ⟨⟨⟨⟨hs.consistent, hs.bookChanged, hs.reportsForCommand⟩, rfl⟩, rfl, rfl⟩, trivial, trivial⟩

variable {out inSequence reject : EngineM config Unit}

/-- **A command of a member settles**, where it can be named and is not passed over. -/
theorem settles_checkedCommand (hf : f.Answers s a.tradingDate) (hs : Fresh s)
    (hfits : identifierFits a.sequenceNumber 0 = true)
    (habove : a.source = .catchUp → s.highestApplied < a.sequenceNumber)
    (hout : ∀ t, Begins t → Settles a.sequenceNumber a.session out t)
    (hin : ∀ t, Begins t → t.book = s.book → Settles a.sequenceNumber a.session inSequence t) :
    Settles a.sequenceNumber a.session (checkedCommand f a out inSequence) s := by
  have hmoved : ∀ t, Inert s t → t.book = s.book →
      wp inSequence (fun _ u => Answered a.sequenceNumber a.session s u ∧ u.book.Consistent)
        (fun _ u => Untouched a.sequenceNumber a.session s u)
          { t with highestApplied := a.sequenceNumber } := by
    intro t ht hbook
    have hbegins := ht.begins
    have hinert : Inert s { t with highestApplied := a.sequenceNumber } :=
      ⟨⟨⟨hbegins.consistent, hbegins.bookChanged, hbegins.reportsForCommand⟩, hbegins.ciphers⟩,
        ht.contents, ht.sent⟩
    exact (hin _ hinert.begins hbook).of_inert hinert
  cases hsource : a.source with
  | catchUp =>
    simp only [Settles, checkedCommand, namedCommand, hsource, if_true, wp_bind, wp_appliedBefore,
      habove hsource, wp_ite, hfits, Bool.true_eq_false, Bool.false_eq_true, if_false, reduceCtorEq]
    have hfresh : Fresh { s with highestApplied := a.sequenceNumber } :=
      ⟨hs.consistent, hs.bookChanged, hs.reportsForCommand⟩
    have hf' : f.Answers { s with highestApplied := a.sequenceNumber } a.tradingDate :=
      ⟨hf.rejectionExecId, hf.rejectionReport, hf.made, hf.ciphers⟩
    have hinert : ∀ t, Inert { s with highestApplied := a.sequenceNumber } t → Inert s t := fun t ht =>
      ⟨ht.begins, ht.contents, ht.sent⟩
    refine wp_mono (wp_useTradingDate_of_answers hf' hfresh) (fun _ t ht => ?_)
      (fun _ t ht => (hinert t ht).untouched)
    exact (hin t ht.1.begins ht.2.1).of_inert (hinert t ht.1)
  | live =>
    simp only [Settles, checkedCommand, namedCommand, hsource, if_true, wp_bind, wp_sequenceGoesBackwards,
      wp_ite, hfits, Bool.true_eq_false, Bool.false_eq_true, if_false, reduceCtorEq]
    refine wp_mono (wp_useTradingDate_of_answers hf hs) (fun _ t ht => ?_) (fun _ t ht => ht.untouched)
    split
    · exact (hout t ht.1.begins).of_inert ht.1
    · exact hmoved t ht.1 ht.2.1

/-- What rejects a command that failed answers it, where identifiers can be made. -/
def Rejects (n : Int) (session : SessionIdentity) (reject : EngineM config Unit) : Prop :=
  ∀ t : Engine config, t.ciphers.isSome = true →
    wp reject (fun _ u => Answered n session t u ∧ Quiet t u) (fun _ _ => False) t

/-- The program throws. -/
def Throws {α : Type} (m : EngineM config α) (s : Engine config) : Prop := ∃ e t, m s = .error e t

/-- How the command of a member ends that can be named and is not passed over. -/
structure Concluded (n : Int) (session : SessionIdentity) (unguarded : EngineM config Unit)
    (s t : Engine config) :
    Prop where
  answered : Answered n session s t
  consistent : t.book.Consistent
  contents : Throws unguarded s.reset → t.book.contents = s.book.contents

/-- **A command of a member is answered once**, where it can be named and is not passed over; and if
it failed, the book is as it was. -/
theorem wp_guardedCommand {unguarded : EngineM config Unit}
    (hsettles : Settles a.sequenceNumber a.session unguarded s.reset)
    (hreject : Rejects a.sequenceNumber a.session reject) : wp (guardedCommand a unguarded reject)
      (fun _ t => Concluded a.sequenceNumber a.session unguarded s t) (fun _ _ => False) s := by
  unfold guardedCommand beginCommand
  rw [wp_bind, wp_modify, wp_tryCatch]
  cases hend : unguarded s.reset with
  | ok =>
    refine (wp_of_ok hend).mpr ⟨((wp_of_ok hend).mp hsettles).1, ((wp_of_ok hend).mp hsettles).2, ?_⟩
    intro ⟨e, u, hthrows⟩
    cases hend.symm.trans hthrows
  | error e t =>
    have ht := (wp_of_error hend).mp hsettles
    refine (wp_of_error hend).mpr ?_
    unfold afterFailure
    rw [wp_get_bind, wp_tryCatch]
    rcases ht.answered with ⟨hnone, hsent, hciphers⟩ | ⟨hsome, hanswered⟩
    · -- nothing was sent: the command is rejected
      rw [if_pos ⟨ht.bookChanged, hnone⟩, wp_bind]
      refine wp_mono (hreject t hciphers) (fun _ u hu => ?_) (fun _ _ h => h.elim)
      obtain ⟨report, hreport, hfor⟩ := hu.1
      have hanswered : Answered a.sequenceNumber a.session s u := ⟨report, by rw [hreport, hsent]; rfl, hfor⟩
      have hconsistent : u.book.Consistent := hu.2.book ▸ ht.consistent
      have hcontents : u.book.contents = s.book.contents := by
        rw [hu.2.book]
        exact ht.contents
      simp only [publishAfterRefusal, publish, changeBook, wp_ite, wp_modify, wp_pure]
      split
      · exact ⟨hanswered, hconsistent.publish _, fun _ => hcontents⟩
      · exact ⟨hanswered, hconsistent, fun _ => hcontents⟩
    · rw [if_neg fun h => hsome h.2, if_neg (by rw [ht.bookChanged]; exact Bool.false_ne_true)]
      exact ⟨hanswered, ht.consistent, fun _ => ht.contents⟩

/-- A report of the rejection, once its identifier is made. -/
theorem rejects_outputReport (hf : f.Answers s a.tradingDate)
    (hfits : identifierFits a.sequenceNumber 0 = true) (report : Identifier → ExecutionReport) :
    Rejects a.sequenceNumber a.session (do
      let execId ← identifier f .rejectionExecId .report a.sequenceNumber 0
      outputReport f .rejectionReport (report execId) a.sequenceNumber a.session a.source :
        EngineM config Unit) := by
  intro t hciphers
  rw [wp_bind]
  refine wp_identifier hf.rejectionExecId .report hfits hciphers fun execId => ?_
  simp only [outputReport, wp_bind, wp_call, hf.rejectionReport, Bool.false_eq_true, if_false, wp_modify]
  exact ⟨⟨_, rfl, rfl, rfl⟩, rfl, rfl, rfl, rfl, rfl⟩

section

variable (hs : s.book.Consistent) (hf : f.Answers s a.tradingDate)
    (hfits : identifierFits a.sequenceNumber 0 = true)
  (habove : a.source = .catchUp → s.highestApplied < a.sequenceNumber)
include hs hf hfits habove

/-- **A new order is answered once.** -/
theorem wp_applyNewOrder (layouts : GroupLayouts) (view : NewOrderSingle) (haccepts : f.AcceptsOrders) :
    wp (applyNewOrder layouts f view a)
      (fun _ t => Concluded a.sequenceNumber a.session (applyNewOrderUnguarded layouts f view a) s t)
      (fun _ _ => False) s := by
  have hf' : f.Answers s.reset a.tradingDate := ⟨hf.rejectionExecId, hf.rejectionReport, hf.made, hf.ciphers⟩
  refine wp_guardedCommand ?_ (rejects_outputReport hf hfits _)
  exact settles_checkedCommand hf' ⟨hs, rfl, rfl⟩ hfits habove (fun t ht => settles_refuseOrder view _ _ ht)
    fun t ht _ => settles_applyOrderInSequence haccepts ht

/-- **A cancel is answered once.** -/
theorem wp_applyCancel (view : OrderCancelRequest) (hcancels : f.CancelsOrders)
    (hplaced : ∀ entry ∈ s.book.find (OrderKey.make a.session view.origClOrdId),
      identifierFits entry.placedAtSeqNo 0 = true) : wp (applyCancel f view a)
      (fun _ t => Concluded a.sequenceNumber a.session (applyCancelUnguarded f view a) s t)
    (fun _ _ => False) s := by
  have hf' : f.Answers s.reset a.tradingDate := ⟨hf.rejectionExecId, hf.rejectionReport, hf.made, hf.ciphers⟩
  refine wp_guardedCommand ?_ (rejects_outputReport hf hfits _)
  refine settles_checkedCommand hf' ⟨hs, rfl, rfl⟩ hfits habove (fun t ht => settles_refuseCancel view _ _ ht)
    fun t ht hbook => settles_applyCancelInSequence hcancels ht ?_
  intro entry hentry
  rw [hbook] at hentry
  exact hplaced entry hentry

end

/-- Halting keeps the book and its region in agreement, and does not throw. -/
theorem wp_setHalted {t : Engine config} (ht : t.book.Consistent) (halted : Bool) :
    wp (setHalted halted) (fun _ u => u.book.Consistent) (fun _ _ => False) t := by
  unfold setHalted changeBook
  rw [wp_get_bind, wp_ite]
  split
  · exact ht
  · exact ht.setOwnerValue .halted _

/-- A program that throws does not return. -/
theorem not_throws_of_wp {α : Type} {m : EngineM config α} {t : Engine config} {Q : α → Engine config → Prop}
    (h : wp m Q (fun _ _ => False) t) : ¬Throws m t := fun ⟨_, _, hthrows⟩ => (wp_of_error hthrows).mp h

/-- A command that a catch-up delivers again does nothing. -/
theorem checkedCommand_of_passed {s : Engine config} (out inSequence : EngineM config Unit)
    (h : a.source = .catchUp ∧ a.sequenceNumber ≤ s.highestApplied) :
    checkedCommand f a out inSequence s = (pure () : EngineM config Unit) s := by
  refine eq_of_wp fun Q E hQ => ?_
  simp only [checkedCommand, h.1, if_true, wp_bind, wp_appliedBefore, if_neg (Int.not_lt.mpr h.2)]
  exact hQ

/-- **The commands of members, in every case**: those that can be named and are not passed over,
which are answered; those that are passed over, which do nothing; and those of a catch-up that
cannot be named, which halt trading. -/
theorem concluded_guardedCommand {c : EngineM config Unit} (hc : c = checkedCommand f a out inSequence)
    (hs : s.book.Consistent) (hnamed : a.source = .live → identifierFits a.sequenceNumber 0 = true)
    (hanswered : identifierFits a.sequenceNumber 0 = true →
      (a.source = .catchUp → s.highestApplied < a.sequenceNumber) →
        wp (guardedCommand a c reject) (fun _ t => Concluded a.sequenceNumber a.session c s t)
          (fun _ _ => False) s) :
    (endState (guardedCommand a c reject) s).book.Consistent ∧ (Throws c s.reset →
        (endState (guardedCommand a c reject) s).book.contents = s.book.contents) ∧
      (identifierFits a.sequenceNumber 0 = true →
        ¬(a.source = .catchUp ∧ a.sequenceNumber ≤ s.highestApplied) →
        Answered a.sequenceNumber a.session s (endState (guardedCommand a c reject) s)) := by
  by_cases hpassed : a.source = .catchUp ∧ a.sequenceNumber ≤ s.highestApplied
  · -- a command that catching up has passed does nothing
    have hchecked := checkedCommand_of_passed (f := f) (s := s.reset) out inSequence hpassed
    rw [← hc] at hchecked
    have hend : guardedCommand a c reject s = .ok () s.reset :=
      tryCatch_congr hchecked _
    have hsame : endState (guardedCommand a c reject) s = s.reset := by
      unfold endState
      rw [hend]
    rw [hsame]
    exact ⟨hs, fun _ => rfl, fun _ hnot => absurd hpassed hnot⟩
  have habove : a.source = .catchUp → s.highestApplied < a.sequenceNumber := fun hsource =>
    Int.not_le.mp fun hle => hpassed ⟨hsource, hle⟩
  cases hfits : identifierFits a.sequenceNumber 0 with
  | true =>
    have hwp := hanswered hfits habove
    have hconcluded : Concluded a.sequenceNumber a.session c s (endState (guardedCommand a c reject) s) :=
      wp_endState.mp (wp_mono hwp (fun _ _ h => h) (fun _ _ h => h.elim))
    exact ⟨hconcluded.consistent, hconcluded.contents, fun _ _ => hconcluded.answered⟩
  | false =>
    -- a command whose identifiers cannot be named halts the engine
    have hsource : a.source = .catchUp := by
      cases hlive : a.source with
      | catchUp => rfl
      | live => rw [hnamed hlive] at hfits; cases hfits
    have hchecked : c s.reset = refuseToName { s.reset with highestApplied := a.sequenceNumber } := by
      have hunfit := checkedCommand_of_not_fits (f := f) (x := .catchUp) (s := s.reset) (habove hsource) out
        inSequence hfits
      have hvia : a.via .catchUp = a := by rw [← hsource]; rfl
      rw [hvia, ← hc] at hunfit
      exact hunfit
    have hhalts := wp_setHalted (t := { s.reset with highestApplied := a.sequenceNumber }) hs true
    refine ⟨?_, fun hthrows => ?_, fun h => absurd h Bool.false_ne_true⟩
    · have hend : guardedCommand a c reject s =
          (tryCatch refuseToName fun _ => afterFailure a.sequenceNumber a.source reject)
            { s.reset with highestApplied := a.sequenceNumber } := tryCatch_congr hchecked _
      rw [endState_congr hend]
      refine (wp_endState (P := fun t : Engine config => t.book.Consistent)).mp ?_
      rw [wp_tryCatch]
      exact wp_mono hhalts (fun _ _ h => h) (fun _ _ h => h.elim)
    · obtain ⟨e, t, hthrows⟩ := hthrows
      exact absurd ⟨e, t, hchecked.symm.trans hthrows⟩ (not_throws_of_wp hhalts)

end Members

/-! ## Commands of the venue -/

section Venue

variable {f : Faults}

/-- The orders that a CancelBook takes off the book can all be reported. -/
@[mk_iff]
structure Faults.CancelsBook (f : Faults) (placed : List (Int × Nat)) : Prop where
  execId : f.fails .execId = false
  orderId : f.fails .orderId = false
  places : placed.length ≤ placeLimit
  fits : ∀ order ∈ placed, identifierFits order.1 0 = true
  reports : ∀ place ∈ range placed.length, f.fails (.cancelBookReport place) = false

variable {n : Int} {place : Nat}

/-- A place below the limit can be named, where the first can. -/
theorem identifierFits_place (h : identifierFits n 0 = true) (hplace : place < placeLimit) :
    identifierFits n place = true := by
  simp only [identifierFits, decide_eq_true_eq] at h ⊢
  exact ⟨h.1, h.2.1, hplace⟩

variable {s : Engine config} {source : CommandSource} {orders : List (Int × Nat)} {time : Int}

/-- **The orders are taken off the book**, where identifiers can be made and all of them can be
reported. -/
theorem wp_cancelEach (hn : identifierFits n 0 = true) (hexec : f.fails .execId = false)
    (horder : f.fails .orderId = false)
    (hreports : ∀ k < place + orders.length, f.fails (.cancelBookReport k) = false)
    (hplaces : place + orders.length ≤ placeLimit) (hciphers : s.ciphers.isSome = true)
    (hs : s.book.Consistent) (hnodup : (orders.map Prod.snd).Nodup)
    (hlive : ∀ slot ∈ orders.map Prod.snd, slot < s.book.region.slotCount ∧
      s.book.region.isLive slot = true)
        (hfits : ∀ order ∈ orders, identifierFits (s.book.entryAt order.2).placedAtSeqNo 0 = true) :
    wp (cancelEach f n time source place orders) (fun _ t => t.book.Consistent) (fun _ _ => False) s := by
  induction orders generalizing place s with
  | nil => exact hs
  | cons order rest ih =>
    simp only [length_cons] at hreports hplaces
    obtain ⟨hnotin, hnodup'⟩ := nodup_cons.mp hnodup
    have hregion := s.book.region_removeOne order.2
    unfold cancelEach
    rw [wp_get_bind, wp_bind]
    refine wp_identifier hexec .report (identifierFits_place hn (by omega)) hciphers fun execId => ?_
    rw [wp_bind]
    refine wp_identifier horder .order (hfits order mem_cons_self) hciphers fun orderId => ?_
    simp only [outputReport, changeBook, wp_bind, wp_call, hreports place (by omega),
      Bool.false_eq_true, if_false, wp_modify]
    refine ih (fun k hk => hreports k (by omega)) (by omega) hciphers ?_ hnodup' ?_ ?_
    · exact hs.removeEach (nodup_singleton _) fun slot hslot => by
        rw [mem_singleton.mp hslot]
        exact hlive order.2 (by simp)
    · intro slot hslot
      have hne : slot ≠ order.2 := fun heq => hnotin (heq ▸ hslot)
      simp only [hregion, withFree, isLive, Function.update_of_ne hne]
      exact hlive slot (mem_cons_of_mem _ hslot)
    · intro other hother
      have hsame : (s.book.after (s.book.removeEach [order.2])).entryAt other.2 = s.book.entryAt other.2 := by
        simp only [entryAt, hregion, withFree, Function.update_apply]
        split
        · rename_i heq
          rw [heq]
        · rfl
      simp only [hsame]
      exact hfits other (mem_cons_of_mem _ hother)

/-- Nothing is taken off the book while there are no ciphers. -/
theorem wp_cancelEach_of_no_ciphers (hciphers : s.ciphers = none) :
    wp (cancelEach f n time source place orders) (fun _ t => t = s) (fun _ t => t = s) s := by
  cases orders with
  | nil => exact rfl
  | cons =>
    unfold cancelEach identifier
    rw [wp_get_bind, wp_bind, wp_get_bind, hciphers]
    exact rfl

/-- **A CancelBook keeps the book and its region in agreement**, and one that fails leaves the book
as it was. -/
theorem wp_cancelBookInSequence {through date : Int} (hn : identifierFits n 0 = true)
    (hs : s.book.Consistent) (hf : f.CancelsBook (s.book.placedThrough through)) :
    wp (cancelBookInSequence f through n time date source) (fun _ t => t.book.Consistent)
      (fun _ t => t.book = s.book) s := by
  unfold cancelBookInSequence
  rw [wp_bind]
  refine wp_mono (quiet_useTradingDate f date s) (fun _ t ht => ?_) (fun _ t ht => ht.book)
  rw [wp_get_bind, wp_get_bind, wp_bind, ht.book]
  have hrest : ∀ u : Engine config, u.book.Consistent →
      wp (do let ordersKept := (← get).book.size
             publish n
             return { applied := true, openOrders := s.book.size
                      reportsSent := (s.book.placedThrough through).length, ordersKept } :
          EngineM config BookCancelledByCommand)
        (fun _ v => v.book.Consistent) (fun _ v => v.book = s.book) u := fun u hu => hu.publish n
  obtain ⟨hnodup, hlive⟩ := hs.placedThrough through
  cases hciphers : t.ciphers with
  | none =>
    refine wp_mono (wp_cancelEach_of_no_ciphers hciphers) (fun _ u hu => ?_) (fun _ u hu => ?_)
    · exact hrest u (by rw [hu, ht.book]; exact hs)
    · rw [hu, ht.book]
  | some =>
    rw [← ht.book] at hs hnodup hlive
    refine wp_mono (wp_cancelEach hn hf.execId hf.orderId ?_ ?_ ?_ hs ?_ ?_ ?_) (fun _ u hu => hrest u hu)
      (fun _ _ h => h.elim)
    · exact fun k hk => hf.reports k (mem_range.mpr (by omega))
    · rw [Nat.zero_add]
      exact hf.places
    · rw [hciphers]
      rfl
    · rw [← ht.book]
      exact hnodup
    · rw [← ht.book]
      exact hlive
    · intro order horder
      rw [ht.book, placed_of_mem horder]
      exact hf.fits order horder

/-- A CancelBook at or below the position does nothing, where it can be named if it is live. -/
theorem applyCancelBook_of_passed {through date : Int} {source : CommandSource}
    (hnamed : source = .live → identifierFits n 0 = true) (hpassed : n ≤ s.highestApplied) :
    applyCancelBook f through n time date source s = (pure {} : EngineM config BookCancelledByCommand) s := by
  refine eq_of_wp fun Q E h => ?_
  cases source with
  | live =>
    simp only [applyCancelBook, wp_ite, wp_bind, wp_sequenceGoesBackwards, hnamed rfl, hpassed, reduceCtorEq,
      Bool.true_eq_false, if_false, if_true]
    exact h
  | catchUp =>
    simp only [applyCancelBook, wp_ite, wp_bind, wp_appliedBefore, Int.not_lt.mpr hpassed, if_false, if_true]
    exact h

theorem wp_applyCancelBook (through n time date : Int) (source : CommandSource)
    (hnamed : source = .live → identifierFits n 0 = true) (hs : s.book.Consistent)
    (hf : f.CancelsBook (s.book.placedThrough through)) :
    wp (applyCancelBook f through n time date source) (fun _ t => t.book.Consistent)
      (fun _ t => t.book = s.book) s := by
  by_cases habove : s.highestApplied < n
  · cases hfits : identifierFits n 0 with
    | true =>
      rw [wp, applyCancelBook_eq hfits habove]
      exact wp_cancelBookInSequence (s := { s with highestApplied := n }) hfits hs hf
    | false =>
      rw [wp, applyCancelBook_of_not_fits hfits habove]
      have hhalts := wp_setHalted
        (t := { s with highestApplied := if source = .live then s.highestApplied else n }) hs true
      exact (wp_bind _ _).mpr (wp_mono hhalts (fun _ _ h => h) (fun _ _ h => h.elim))
  · rw [wp, applyCancelBook_of_passed hnamed (Int.not_lt.mp habove)]
    exact hs

theorem wp_applyTechnicalEvent (day : Int) (halted : Bool) (n date : Int) (source : CommandSource)
    (hs : s.book.Consistent) :
    wp (applyTechnicalEvent day halted n date source) (fun _ t => t.book.Consistent)
      (fun _ t => t.book = s.book) s := by
  simp only [applyTechnicalEvent, technicalEventInSequence, wp_bind, wp_passedOver, wp_ite, wp_pure, if_true]
  split
  · rw [if_neg Bool.false_ne_true]
    split
    · exact hs.publish n
    · rw [wp_get]
      exact wp_mono (wp_setHalted (t := { s with highestApplied := n }) hs halted)
        (fun _ _ h => h.publish n) (fun _ _ h => h.elim)
  · exact hs

/-- Learning of a void keeps the book and its region in agreement; where it fails, nothing is
changed. -/
theorem wp_learnVoid {voided : VoidedRange} (hs : s.book.Consistent) :
    wp (learnVoid f voided) (fun _ t => t.book.Consistent) (fun _ t => t.book = s.book) s := by
  simp only [learnVoid, changeBook, wp_bind, wp_call, wp_get, wp_ite, wp_pure, wp_modify]
  have hset := hs.setOwnerValue .voidsKnownThrough voided.voidSeqNo
  split
  · trivial
  split
  · exact hs
  split
  · exact hs
  split <;> exact hset

theorem wp_applyVoidCommands (voided : VoidedRange) (source : CommandSource) (hs : s.book.Consistent) :
    wp (applyVoidCommands f voided source) (fun _ t => t.book.Consistent) (fun _ t => t.book = s.book) s := by
  simp only [applyVoidCommands, voidCommandsInSequence, wp_bind, wp_passedOver, wp_ite, wp_pure,
    if_true, wp_get]
  split
  · rw [if_neg Bool.false_ne_true]
    split
    · exact wp_mono (wp_learnVoid (s := { s with highestApplied := voided.voidSeqNo }) hs)
        (fun _ _ h => h.publish _) (fun _ _ h => h)
    · exact hs.publish _
  · exact hs

/-- What follows of a program whose answer is not looked at. -/
theorem concluded_discard {α : Type} {m : EngineM config α} (hs : s.book.Consistent)
    (h : wp m (fun _ t => t.book.Consistent) (fun _ t => t.book = s.book) s) :
    (endState (do let _ ← m) s).book.Consistent ∧
      (Throws (do let _ ← m) s → (endState (do let _ ← m) s).book.contents = s.book.contents) := by
  have hdo : wp (do let _ ← m : EngineM config Unit) (fun _ t => t.book.Consistent)
    (fun _ t => t.book = s.book) s := by
    rw [wp_bind]
    exact h
  constructor
  · refine (wp_endState (P := fun t : Engine config => t.book.Consistent)).mp ?_
    exact wp_mono hdo (fun _ _ ht => ht) (fun _ _ ht => ht ▸ hs)
  · intro ⟨e, t, hthrows⟩
    have hbook := (wp_of_error hthrows).mp hdo
    unfold endState
    rw [hthrows, hbook]

end Venue

/-! ## Where the book changes -/

/-- What is on the book is the same. -/
def SameBook (s t : Engine config) : Prop := t.book.contents = s.book.contents

instance : Std.Refl (@SameBook config) := ⟨fun _ => rfl⟩

instance : IsTrans (Engine config) SameBook := ⟨fun _ _ _ h h' => Eq.trans h' h⟩

theorem Quiet.sameBook (h : Quiet s t) : SameBook s t := congrArg contents h.book

/-- What is on the book is the same, or the position moved to a command. -/
def SameOrMoved (n : Int) (s t : Engine config) : Prop :=
  SameBook s t ∨ s.highestApplied < n ∧ n ≤ t.highestApplied

section Moves

variable {f : Faults} {a : Arrival} {out inSequence reject : EngineM config Unit}

/-- **A command of a member that changes the book moves the position**, from below it. -/
theorem sameOrMoved_guardedCommand (hnamed : a.source = .live → identifierFits a.sequenceNumber 0 = true)
    (hout : Keeps Quiet out) (hin : Keeps SameMarks inSequence) (hreject : Keeps Quiet reject)
    (s : Engine config) :
    SameOrMoved a.sequenceNumber s
      (endState (guardedCommand a (checkedCommand f a out inSequence) reject) s) := by
  refine (wp_endState (P := SameOrMoved a.sequenceNumber s)).mp ?_
  -- a failure is dealt with in the state that it leaves
  have hfails : ∀ t : Engine config, SameOrMoved a.sequenceNumber s t →
      wp (afterFailure a.sequenceNumber a.source reject) (fun _ => SameOrMoved a.sequenceNumber s)
        (fun _ => SameOrMoved a.sequenceNumber s) t := by
    rintro t (hsame | ⟨hbelow, hreached⟩)
    · have hkeeps :=
        keeps_afterFailure (R := SameBook) (fun _ _ => Quiet.sameBook)
          (fun _ => keeps_modify fun _ => rfl)
        a.sequenceNumber a.source hreject t
      exact wp_mono hkeeps (fun _ _ h => .inl (trans_of SameBook hsame h))
        (fun _ _ h => .inl (trans_of SameBook hsame h))
    · have hkeeps := sameMarks_afterFailure a.sequenceNumber a.source hreject t
      exact wp_mono hkeeps (fun _ _ h => .inr ⟨hbelow, Int.le_trans hreached h.rises⟩)
        (fun _ _ h => .inr ⟨hbelow, Int.le_trans hreached h.rises⟩)
  unfold guardedCommand beginCommand
  rw [wp_bind, wp_modify, wp_tryCatch]
  cases hsource : a.source with
  | catchUp =>
    simp only [checkedCommand, hsource, if_true, wp_bind, wp_appliedBefore, wp_ite, wp_pure]
    split
    · rename_i hbelow
      rw [if_neg Bool.false_ne_true]
      refine wp_mono (rises_namedCommand (f := f) (a := a) hout hin _) (fun _ t h => .inr ⟨hbelow, h⟩)
        (fun _ t h => hsource ▸ hfails t (.inr ⟨hbelow, h⟩))
    · exact .inl rfl
  | live =>
    simp only [checkedCommand, namedCommand, hsource, reduceCtorEq, if_false, if_true, hnamed hsource,
      Bool.true_eq_false, wp_bind, wp_sequenceGoesBackwards, wp_ite]
    refine wp_mono (quiet_useTradingDate f a.tradingDate _) (fun _ t ht => ?_)
      (fun _ t ht => hsource ▸ hfails t (.inl ht.sameBook))
    split
    · refine wp_mono (hout t) (fun _ u hu => .inl (trans_of SameBook ht.sameBook hu.sameBook))
        (fun _ u hu => ?_)
      exact hsource ▸ hfails u (.inl (trans_of SameBook ht.sameBook hu.sameBook))
    · rename_i habove
      have hbelow : s.highestApplied < a.sequenceNumber := by
        rw [ht.highestApplied] at habove
        exact Int.not_le.mp habove
      exact wp_mono (hin _) (fun _ u hu => .inr ⟨hbelow, hu.rises⟩)
        (fun _ u hu => hsource ▸ hfails u (.inr ⟨hbelow, hu.rises⟩))

theorem sameOrMoved_applyCancelBook {through n time date : Int} {source : CommandSource}
    (hnamed : source = .live → identifierFits n 0 = true) (s : Engine config) :
    SameOrMoved n s (endState (applyCancelBook f through n time date source) s) := by
  by_cases hbelow : s.highestApplied < n
  · refine .inr ⟨hbelow, (if_pos ?_ ▸ position_applyCancelBook through time date hbelow).ge⟩
    cases source with
    | live => exact .inl (hnamed rfl)
    | catchUp => exact .inr rfl
  · rw [endState_congr (applyCancelBook_of_passed hnamed (Int.not_lt.mp hbelow))]
    exact .inl rfl

/-- A command that is passed over at or below the position, and otherwise leaves it there. -/
theorem sameOrMoved_of_passedOver {α : Type} {n : Int} {source : CommandSource} {m : EngineM config α}
    (hm : Keeps SamePosition m) (answer : α) (s : Engine config) : SameOrMoved n s
      (endState (passedOver n source >>= fun passed => if passed then pure answer else m) s) := by
  refine (wp_endState (P := SameOrMoved n s)).mp ?_
  simp only [wp_bind, wp_passedOver, wp_ite, wp_pure, if_true]
  split
  · rename_i hbelow
    rw [if_neg Bool.false_ne_true]
    exact wp_mono (hm _) (fun _ _ h => .inr ⟨hbelow, h.rises⟩) (fun _ _ h => .inr ⟨hbelow, h.rises⟩)
  · exact .inl rfl

end Moves

/-! ## Deliveries -/

/-- A command that reaches the engine, with the calls that fail while it is applied. -/
structure Delivery where
  faults : Faults
  source : CommandSource
  command : Command

namespace Delivery

variable (layouts : GroupLayouts) (d : Delivery)

section

variable (s : Engine config)

/-- The engine after the delivery. -/
def after : Engine config := endState (applyCommand layouts d.faults d.source d.command) s

/-- The applying of the command fails. -/
def Fails : Prop :=
  match d.command with
  | .newOrder view n time date session =>
    Throws (applyNewOrderUnguarded layouts d.faults view ⟨n, time, date, session, d.source⟩) s.reset
  | .cancel view n time date session =>
    Throws (applyCancelUnguarded d.faults view ⟨n, time, date, session, d.source⟩) s.reset
  | command => Throws (applyCommand layouts d.faults d.source command) s

/-- The command is a member's: its place and its session. -/
def member : Option (Int × SessionIdentity) :=
  match d.command with
  | .newOrder _ n _ _ session | .cancel _ n _ _ session => some (n, session)
  | _ => none

/-- The command is passed over as one that was applied. -/
def PassedOver : Prop := d.source = .catchUp ∧ d.command.sequenceNumber ≤ s.highestApplied

/-- A command that is live can be named. -/
def Named (d : Delivery) : Prop := d.source = .live → d.command.nameable = true
  deriving Decidable

/-- **What a delivery has to meet**: a live command can be named; no call fails once the book is
changed; and the command of a member that fails before can be rejected. -/
def Meets (d : Delivery) : Prop :=
  d.Named ∧ match d.command with
    | .newOrder _ _ _ date _ => d.faults.Answers s date ∧ d.faults.AcceptsOrders
    | .cancel view _ _ date session =>
      d.faults.Answers s date ∧ d.faults.CancelsOrders ∧
        ∀ entry ∈ s.book.find (OrderKey.make session view.origClOrdId),
          identifierFits entry.placedAtSeqNo 0 = true
    | .cancelBook through _ _ _ => d.faults.CancelsBook (s.book.placedThrough through)
    | _ => True

/-- **A delivery keeps the book and its region in agreement; one that fails leaves the book as it
was; and a member is answered once**, unless the command cannot be named or is passed over. -/
theorem concluded {d : Delivery} {s : Engine config} (hs : s.book.Consistent) (hmeets : d.Meets s) :
    (d.after layouts s).book.Consistent ∧
      (d.Fails layouts s → (d.after layouts s).book.contents = s.book.contents) ∧
        ∀ n session, d.member = some (n, session) → d.command.nameable = true → ¬d.PassedOver s →
          Answered n session s (d.after layouts s) := by
  obtain ⟨f, source, command⟩ := d
  obtain ⟨hnamed, hmeets⟩ := hmeets
  cases command with
  | newOrder view n time date session =>
    have hall := concluded_guardedCommand (a := ⟨n, time, date, session, source⟩) rfl hs hnamed
      fun hfits habove =>
      wp_applyNewOrder hs hmeets.1 hfits habove layouts view hmeets.2
    refine ⟨hall.1, hall.2.1, fun n' session' hmember hfits hnot => ?_⟩
    cases hmember
    exact hall.2.2 hfits hnot
  | cancel view n time date session =>
    have hall := concluded_guardedCommand (a := ⟨n, time, date, session, source⟩) rfl hs hnamed
      fun hfits habove =>
      wp_applyCancel hs hmeets.1 hfits habove view hmeets.2.1 hmeets.2.2
    refine ⟨hall.1, hall.2.1, fun n' session' hmember hfits hnot => ?_⟩
    cases hmember
    exact hall.2.2 hfits hnot
  | cancelBook through n time date =>
    have hall := concluded_discard hs (wp_applyCancelBook through n time date source hnamed hs hmeets)
    exact ⟨hall.1, hall.2, nofun⟩
  | technicalEvent day halted n date =>
    have hall := concluded_discard hs (wp_applyTechnicalEvent day halted n date source hs)
    exact ⟨hall.1, hall.2, nofun⟩
  | voidCommands voided =>
    have hall := concluded_discard hs (wp_applyVoidCommands (f := f) voided source hs)
    exact ⟨hall.1, hall.2, nofun⟩

/-- **A delivery that changes the book moves the position to its command**, from below it. -/
theorem sameOrMoved {d : Delivery} {s : Engine config} (hnamed : d.Named) :
    SameOrMoved d.command.sequenceNumber s (d.after layouts s) := by
  obtain ⟨f, source, command⟩ := d
  cases command with
  | newOrder view n time date session =>
    exact sameOrMoved_guardedCommand (a := ⟨n, time, date, session, source⟩) hnamed
      (quiet_refuseOrder f _ view _ _) (sameMarks_applyOrderInSequence f _ layouts view)
      (quiet_rejectFailedOrder f _ view) s
  | cancel view n time date session =>
    exact sameOrMoved_guardedCommand (a := ⟨n, time, date, session, source⟩) hnamed
      (quiet_refuseCancel f _ view _ _) (sameMarks_applyCancelInSequence f _ view)
        (quiet_rejectFailedCancel f _ view) s
  | cancelBook =>
    rw [after, applyCommand, endState_discard]
    exact sameOrMoved_applyCancelBook hnamed s
  | technicalEvent day halted n date =>
    rw [after, applyCommand, endState_discard]
    exact sameOrMoved_of_passedOver
      ((sameMarks_technicalEventInSequence day halted n date).mono fun _ _ h => h.samePosition) {} s
  | voidCommands voided =>
    rw [after, applyCommand, endState_discard]
    exact sameOrMoved_of_passedOver (samePosition_voidCommandsInSequence f voided) {} s

instance (f : Faults) : Decidable f.AcceptsOrders := decidable_of_iff _ (Faults.acceptsOrders_iff f).symm

instance (f : Faults) : Decidable f.CancelsOrders := decidable_of_iff _ (Faults.cancelsOrders_iff f).symm

instance (f : Faults) (s : Engine config) (date : Int) : Decidable (f.Answers s date) :=
  decidable_of_iff _ (Faults.answers_iff f s date).symm

instance (f : Faults) (placed : List (Int × Nat)) : Decidable (f.CancelsBook placed) :=
  decidable_of_iff _ (Faults.cancelsBook_iff f placed).symm

instance (d : Delivery) : Decidable (d.Meets s) := by
  unfold Meets
  split <;> infer_instance

end

/-- Deliveries to an engine. -/
def deliverAny : Machine (Engine config) Delivery := fun s d => some (d.after layouts s)

/-- **Deliveries to an engine**, each of which meets what it has to. -/
def deliver : Machine (Engine config) Delivery := (deliverAny layouts).restrict fun s d => d.Meets s

/-- What a delivery comes to. -/
theorem deliver_eq_some {s t : Engine config} {d : Delivery} (h : deliver layouts s d = some t) :
    d.Meets s ∧ d.after layouts s = t := by
  obtain ⟨hmeets, hafter⟩ := Machine.restrict_eq_some.mp h
  exact ⟨hmeets, Option.some.inj hafter⟩

/-- In every run the book agrees with its region. -/
theorem consistent_invariant : (deliver layouts).Invariant fun s : Engine config => s.book.Consistent := by
  intro s d t hs hstep
  obtain ⟨hmeets, rfl⟩ := deliver_eq_some layouts hstep
  exact (concluded layouts hs hmeets).1

/-- The position never moves back, whatever is delivered. -/
theorem position_invariant (n : Int) :
    (deliverAny layouts).Invariant fun s : Engine config => n ≤ s.highestApplied := by
  intro s d t hs hstep
  obtain rfl := Option.some.inj hstep
  exact Int.le_trans hs ((rises_applyCommand layouts d.faults d.source d.command).endState s)

/-- **No command changes the book twice**: of two deliveries that change it, the later is of a
command at a higher sequence number, whatever is delivered between them. It takes no more than that
both can be named. -/
theorem changes_rise {s s' : Engine config} {d d' : Delivery} (hnamed : d.Named) (hnamed' : d'.Named)
    {between : List Delivery} (hbetween : (deliverAny layouts).run (d.after layouts s) between = some s')
    (hchanges : (d.after layouts s).book.contents ≠ s.book.contents)
    (hchanges' : (d'.after layouts s').book.contents ≠ s'.book.contents) :
    d.command.sequenceNumber < d'.command.sequenceNumber := by
  have hmoved := (sameOrMoved layouts hnamed).resolve_left hchanges
  have hmoved' := (sameOrMoved layouts hnamed').resolve_left hchanges'
  have hreached : d.command.sequenceNumber ≤ s'.highestApplied :=
    (position_invariant layouts d.command.sequenceNumber).run hmoved.2 hbetween
  exact Int.lt_of_le_of_lt hreached hmoved'.1

/-- **Every command takes effect once**, in every run of deliveries that meet what they have to: a
command that fails leaves the book as it was; a member is answered once, unless the command cannot
be named or is passed over; and of two deliveries that change the book, the later is of a command at
a higher sequence number, whatever is delivered between them. -/
theorem takes_effect_once {s₀ s : Engine config} (hstart : s₀.book.Consistent) {before : List Delivery}
    (hrun : (deliver layouts).run s₀ before = some s) {d : Delivery} (hmeets : d.Meets s) :
    (d.Fails layouts s → (d.after layouts s).book.contents = s.book.contents) ∧
      (∀ n session, d.member = some (n, session) → d.command.nameable = true → ¬d.PassedOver s →
        Answered n session s (d.after layouts s)) ∧
      ∀ (between : List Delivery) (s' : Engine config) (d' : Delivery),
        (deliverAny layouts).run (d.after layouts s) between = some s' → d'.Named →
          (d.after layouts s).book.contents ≠ s.book.contents →
            (d'.after layouts s').book.contents ≠ s'.book.contents →
              d.command.sequenceNumber < d'.command.sequenceNumber := by
  have hs : s.book.Consistent := (consistent_invariant layouts).run hstart hrun
  obtain ⟨-, hfails, hanswered⟩ := concluded layouts hs hmeets
  exact ⟨hfails, hanswered, fun between s' d' hbetween hnamed' hchanges hchanges' =>
    changes_rise layouts hmeets.1 hnamed' hbetween hchanges hchanges'⟩

open VoidHistory

/-- The book of the engine for a run agrees with its region. -/
theorem consistent_someEngine : someEngine.book.Consistent where
  filed := fun key slot => by
    have hfind : someEngine.book.index.find key = none := congrFun ValidMap.find_fresh key
    rw [hfind]
    exact iff_of_false nofun fun hlive => absurd hlive.2.1 Bool.false_ne_true
  free := ⟨_, free_create (by decide) (by decide) BookProcess.someEntry⟩

/-- An order at position 5, and a CancelBook at position 6. -/
def orderAt5 : Delivery :=
  ⟨noFaults, .live, .newOrder someOrder 5 1 20260105 ⟨1, [77]⟩⟩

def cancelBookAt6 : Delivery := ⟨noFaults, .live, .cancelBook 5 6 1 20260105⟩

/-- The order is answered once, and the CancelBook that takes it off the book comes later. -/
theorem takes_effect_once_order_and_cancelBook : orderAt5.Meets someEngine ∧
      Answered 5 ⟨1, [77]⟩ someEngine (orderAt5.after someLayouts someEngine) ∧
        orderAt5.command.sequenceNumber < cancelBookAt6.command.sequenceNumber := by
  have hmeets : orderAt5.Meets someEngine := by decide
  have hrun : (deliver someLayouts).run someEngine [] = some someEngine := rfl
  obtain ⟨-, hanswered, hrising⟩ := takes_effect_once someLayouts consistent_someEngine hrun hmeets
  have hchanges : ∀ {s t : Engine BookProcess.lengthHash} (key : OrderKey),
      t.book.contains key ≠ s.book.contains key → t.book.contents ≠ s.book.contents := by
    intro s t key hne hsame
    have hfind : t.book.find key = s.book.find key := congrFun (congrArg Prod.fst hsame) key
    have hsome := congrArg Option.isSome hfind
    simp only [find, Option.isSome_map] at hsome
    exact hne hsome
  refine ⟨hmeets, hanswered 5 ⟨1, [77]⟩ rfl (by decide) (fun h => absurd h.1 (by decide)), ?_⟩
  exact hrising [] _ cancelBookAt6 rfl (by decide) (hchanges (.make ⟨1, [77]⟩ [1]) (by decide))
    (hchanges (.make ⟨1, [77]⟩ [1]) (by decide))

/-- An order that cannot be named, live. -/
def unnameableOrder : Delivery :=
  ⟨noFaults, .live, .newOrder someOrder 68719476736 1 20260105 ⟨1, [77]⟩⟩

/-- A TechnicalEvent that lifts a halt. -/
def liftAt1 : Delivery := ⟨noFaults, .live, .technicalEvent 20260105 false 1 20260105⟩

/-- **A live order that cannot be named halts trading each time that it comes**: it halts trading,
the halt is lifted, and the same order halts trading again. -/
theorem unnameable_order_halts_twice :
    let s₁ := unnameableOrder.after someLayouts someEngine
    let s₂ := liftAt1.after someLayouts s₁
    let s₃ := unnameableOrder.after someLayouts s₂
    someEngine.book.halted = false ∧ s₁.book.halted = true ∧ s₂.book.halted = false ∧
      s₃.book.halted = true := by
  decide

end Delivery

end Matching

end PubsubVenue
