import PubsubVenue.Engine.BookAndRegion
import PubsubVenue.Engine.Frames

/-! # Voids that an engine is told of

An engine is told of voids one by one, by `learn_void` or by a VoidCommands record, between the
commands that it applies. It judges whether it was told of a void in time from the position of the
latest void that it was told of, which the region records.

* **`sameOrders_guardedCommand`**: a command that a known void names changes no order.
* **`VoidHistory.learnVoid_judges`**: in every history, a new void that names a command the engine
  has applied is answered so exactly where its position is above the latest recorded. -/

namespace PubsubVenue

namespace Matching

open Throwing BookProcess

variable {config : RehashConfig OrderKey}

/-! ## The position never moves back -/

/-- The position has not moved back. -/
def Rises (s t : Engine config) : Prop := s.highestApplied ≤ t.highestApplied

instance : Std.Refl (@Rises config) := ⟨fun _ => Int.le_refl _⟩

instance : IsTrans (Engine config) Rises := ⟨fun _ _ _ => Int.le_trans⟩

theorem SamePosition.rises {s t : Engine config} (h : SamePosition s t) : Rises s t := h.ge

theorem SameMarks.rises {s t : Engine config} (h : SameMarks s t) : Rises s t := h.samePosition.rises

/-- The engine takes up the command of a member: it is above the position, it can be named, and the
keys of its trading date can be made. -/
def Engine.takesUp (s : Engine config) (f : Faults) (sequenceNumber tradingDate : Int) : Prop :=
  s.highestApplied < sequenceNumber ∧ identifierFits sequenceNumber 0 = true ∧
    (tradingDate = s.tradingDate ∨ f.fails .tradingDateKeys = false ∧ f.fails .tradingDateCiphers = false)
  deriving Decidable

section Members

variable {f : Faults} {a : Arrival} {out inSequence reject : EngineM config Unit}

/-- The keys of a trading date are made, or were made before. -/
theorem wp_useTradingDate_of_takesUp {s : Engine config} (hquiet : s.takesUp f a.sequenceNumber a.tradingDate)
    {t : Engine config} (hdate : t.tradingDate = s.tradingDate) :
    wp (useTradingDate f a.tradingDate) (fun _ u => Quiet t u) (fun _ _ => False) t := by
  obtain ⟨-, -, hsame | ⟨hkeys, hciphers⟩⟩ := hquiet
  · simp [useTradingDate, hdate, hsame, refl_of Quiet t]
  · simp only [useTradingDate, wp_bind, wp_get, wp_ite, wp_pure, wp_call, hkeys, hciphers, wp_modify,
      Bool.false_eq_true, if_false]
    split
    · exact refl_of Quiet t
    · exact ⟨rfl, rfl, rfl, rfl, rfl⟩

theorem rises_appliedBefore (sequenceNumber : Int) :
    Keeps (@Rises config) (appliedBefore sequenceNumber) := by
  intro s
  rw [wp_appliedBefore]
  split
  · rename_i hlt
    exact hlt.le
  · exact refl_of Rises s

theorem rises_sequenceGoesBackwards (sequenceNumber : Int) :
    Keeps (@Rises config) (sequenceGoesBackwards sequenceNumber) := by
  intro s
  rw [wp_sequenceGoesBackwards]
  split
  · exact refl_of Rises s
  · rename_i hgt
    exact (Int.not_le.mp hgt).le

section

variable (hout : Keeps Quiet out)
include hout

section

variable (hin : Keeps SameMarks inSequence)
include hin

theorem rises_namedCommand : Keeps Rises (namedCommand f a out inSequence) := by
  have hout' : Keeps Rises out := hout.mono fun _ _ h => h.sameMarks.rises
  have hin' : Keeps Rises inSequence := hin.mono fun _ _ h => h.rises
  refine keeps_ite ((sameMarks_setHalted true).mono fun _ _ h => h.rises) ?_
  refine keeps_bind ((quiet_useTradingDate f _).mono fun _ _ h => h.sameMarks.rises) fun _ => ?_
  exact keeps_ite (keeps_bind (rises_sequenceGoesBackwards _) fun _ => keeps_ite hout' hin') hin'

/-- **A command of a member never moves the position back.** -/
theorem rises_guardedCommand (hreject : Keeps Quiet reject) :
    Keeps Rises (guardedCommand a (checkedCommand f a out inSequence) reject) := by
  have hnamed := rises_namedCommand (f := f) (a := a) hout hin
  refine keeps_bind (keeps_modify fun _ => Int.le_refl _) fun _ => keeps_tryCatch ?_ fun _ => ?_
  · exact keeps_ite (keeps_bind (rises_appliedBefore _) fun _ => keeps_ite (keeps_pure _) hnamed) hnamed
  · exact (sameMarks_afterFailure _ _ hreject).mono fun _ _ h => h.rises

/-- **The position moves to a command that the engine takes up.** -/
theorem reached_guardedCommand
    (hreject : Keeps Quiet reject) {s : Engine config} (htakes : s.takesUp f a.sequenceNumber a.tradingDate) :
    a.sequenceNumber ≤
      (endState (guardedCommand a (checkedCommand f a out inSequence) reject)
        s).highestApplied := by
  refine (wp_endState (P := fun t : Engine config => a.sequenceNumber ≤ t.highestApplied)).mp ?_
  unfold guardedCommand beginCommand checkedCommand
  simp only [wp_bind, wp_modify, wp_tryCatch, wp_ite, wp_appliedBefore, htakes.1, if_true, wp_pure,
    Bool.false_eq_true, if_false]
  -- a failure is dealt with in the state that it leaves
  have hfails : ∀ t : Engine config, a.sequenceNumber ≤ t.highestApplied →
      wp (afterFailure a.sequenceNumber a.source reject) (fun _ u => a.sequenceNumber ≤ u.highestApplied)
        (fun _ u => a.sequenceNumber ≤ u.highestApplied) t := fun t ht =>
    wp_mono (sameMarks_afterFailure a.sequenceNumber a.source hreject t)
      (fun _ _ h => Int.le_trans ht h.rises) (fun _ _ h => Int.le_trans ht h.rises)
  split
  · -- a catch-up moves the position first
    exact wp_mono (rises_namedCommand (f := f) (a := a) hout hin _) (fun _ _ h => h) (fun _ t h => hfails t h)
  · rename_i hlive
    have hsource : a.source = .live := by
      cases hs : a.source with
      | live => rfl
      | catchUp => exact absurd hs hlive
    simp only [namedCommand, wp_ite, wp_bind, htakes.2.1, Bool.true_eq_false, if_false, hsource, if_true,
      wp_sequenceGoesBackwards]
    refine wp_mono (wp_useTradingDate_of_takesUp htakes rfl) (fun _ t hquiet => ?_) (fun _ _ h => h.elim)
    rw [if_neg (by rw [hquiet.highestApplied]; exact Int.not_le.mpr htakes.1)]
    rw [if_neg Bool.false_ne_true]
    exact wp_mono (hin _) (fun _ _ h => h.rises) (fun _ u h => hsource ▸ hfails u h.rises)

end

/-- **A command that changes no order where it is in sequence changes none.** -/
theorem sameOrders_guardedCommand (hreject : Keeps Quiet reject) {s : Engine config}
    (hin : ∀ t, t.voids = s.voids → wp inSequence (fun _ u => SameOrders t u) (fun _ u => SameOrders t u) t) :
    SameOrders s (endState (guardedCommand a (checkedCommand f a out inSequence) reject) s) := by
  have hin' : ∀ t, SameOrders s t → wp inSequence (fun _ => SameOrders s) (fun _ => SameOrders s) t :=
    fun t ht => wp_mono (hin t ht.voids) (fun _ _ h => trans_of SameOrders ht h)
      (fun _ _ h => trans_of SameOrders ht h)
  have hkeeps : ∀ {α : Type} {m : EngineM config α} (Q : α → Engine config → Prop) (t : Engine config),
      Keeps SameOrders m → SameOrders s t → (∀ b u, SameOrders s u → Q b u) →
        wp m Q (fun _ => SameOrders s) t :=
    fun Q t hm ht hQ => wp_mono (hm t) (fun b u h => hQ b u (trans_of SameOrders ht h))
      (fun _ _ h => trans_of SameOrders ht h)
  have hnamed : ∀ t, SameOrders s t →
      wp (namedCommand f a out inSequence) (fun _ => SameOrders s) (fun _ => SameOrders s) t := by
    intro t ht
    simp only [namedCommand, wp_ite, wp_bind]
    split
    · exact hkeeps _ t (sameOrders_setHalted true) ht fun _ _ h => h
    · refine hkeeps _ t ((quiet_useTradingDate f _).mono fun _ _ h => h.sameOrders) ht fun _ u hu => ?_
      split
      · refine hkeeps _ u (sameOrders_sequenceGoesBackwards _) hu fun b v hv => ?_
        split
        · exact hkeeps _ v (hout.mono fun _ _ h => h.sameOrders) hv fun _ _ h => h
        · exact hin' v hv
      · exact hin' u hu
  have hchecked : ∀ t, SameOrders s t →
      wp (checkedCommand f a out inSequence) (fun _ => SameOrders s) (fun _ => SameOrders s) t := by
    intro t ht
    simp only [checkedCommand, wp_ite, wp_bind]
    split
    · refine hkeeps _ t (sameOrders_appliedBefore _) ht fun b u hu => ?_
      split
      · exact hu
      · exact hnamed u hu
    · exact hnamed t ht
  refine (wp_endState (P := SameOrders s)).mp ?_
  simp only [guardedCommand, beginCommand, wp_bind, wp_modify, wp_tryCatch]
  refine wp_mono (hchecked _ ⟨rfl, rfl, rfl⟩) (fun _ _ h => h) (fun _ t ht => ?_)
  exact hkeeps _ t (keeps_afterFailure (fun _ _ => Quiet.sameOrders) sameOrders_publish _ _ hreject)
    ht fun _ _ h => h

end

end Members

section Commands

variable (layouts : GroupLayouts) (f : Faults)

theorem rises_applyCancelBook (ordersPlacedThrough sequenceNumber transactTime tradingDate : Int)
    (source : CommandSource) : Keeps (@Rises config)
      (applyCancelBook f ordersPlacedThrough sequenceNumber transactTime tradingDate source) := by
  have hin : Keeps (@Rises config)
      (cancelBookInSequence f ordersPlacedThrough sequenceNumber transactTime tradingDate source) :=
    (sameMarks_cancelBookInSequence f _ _ _ _ _).mono fun _ _ h => h.rises
  have hnamed : Keeps (@Rises config) (do
      if identifierFits sequenceNumber 0 = false then
        refuseToName
        return {}
      if source = .live then
        if ← sequenceGoesBackwards sequenceNumber then return {}
      cancelBookInSequence f ordersPlacedThrough sequenceNumber transactTime tradingDate source) := by
    refine keeps_ite
      (keeps_bind ((sameMarks_setHalted true).mono fun _ _ h => h.rises) fun _ => keeps_pure _) ?_
    exact keeps_ite (keeps_bind (rises_sequenceGoesBackwards _) fun _ => keeps_ite (keeps_pure _) hin) hin
  exact keeps_ite (keeps_bind (rises_appliedBefore _) fun _ => keeps_ite (keeps_pure _) hnamed) hnamed

variable (source : CommandSource)

/-- **No command moves the position back.** -/
theorem rises_applyCommand (command : Command) :
    Keeps (@Rises config) (applyCommand layouts f source command) := by
  have hpassed : ∀ n, Keeps (@Rises config) (passedOver n source) := fun n =>
    keeps_ite (rises_appliedBefore n) (rises_sequenceGoesBackwards n)
  cases command with
  | newOrder view =>
    exact rises_guardedCommand (quiet_refuseOrder f _ view _ _)
      (sameMarks_applyOrderInSequence f _ layouts view)
      (quiet_rejectFailedOrder f _ view)
  | cancel view =>
    exact rises_guardedCommand (quiet_refuseCancel f _ view _ _) (sameMarks_applyCancelInSequence f _ view)
      (quiet_rejectFailedCancel f _ view)
  | cancelBook through n time date =>
    exact keeps_bind (rises_applyCancelBook f through n time date source) fun _ => keeps_pure _
  | technicalEvent day halted n date =>
    refine keeps_bind (keeps_bind (hpassed n) fun _ => keeps_ite (keeps_pure _) ?_) fun _ => keeps_pure _
    exact (sameMarks_technicalEventInSequence day halted n date).mono fun _ _ h => h.rises
  | voidCommands voided =>
    refine keeps_bind (keeps_bind (hpassed _) fun _ => keeps_ite (keeps_pure _) ?_) fun _ => keeps_pure _
    exact (samePosition_voidCommandsInSequence f voided).mono fun _ _ h => h.rises

/-! ## Commands that a known void names -/

/-- The void names the command, which is a member's. -/
def VoidedRange.namesCommand (v : VoidedRange) : Command → Bool
  | .newOrder _ sequenceNumber _ _ _ => v.names sequenceNumber .newOrder
  | .cancel _ sequenceNumber _ _ _ => v.names sequenceNumber .cancel
  | _ => false

/-- A void in the list that names a command is found, or another is. -/
theorem exists_voiding {voids : List VoidedRange} {v : VoidedRange} {n : Int} {kind : VoidedKind}
    (hin : v ∈ voids) (hnames : v.names n kind = true) :
    ∃ voided, voiding voids n kind = some voided := by
  cases hfound : voiding voids n kind with
  | some voided => exact ⟨voided, rfl⟩
  | none => exact absurd hnames (List.find?_eq_none.mp hfound v hin)

variable {s : Engine config}

/-- **A command that a known void names changes no order.** -/
theorem sameOrders_of_namesCommand (command : Command) {v : VoidedRange} (hin : v ∈ s.voids)
    (hnames : v.namesCommand command = true) :
    SameOrders s (endState (applyCommand layouts f source command) s) := by
  cases command with
  | newOrder view =>
    refine sameOrders_guardedCommand (quiet_refuseOrder f _ view _ _) (quiet_rejectFailedOrder f _ view) ?_
    intro t ht
    obtain ⟨voided, hfound⟩ := exists_voiding (ht ▸ hin) hnames
    simp only [applyOrderInSequence, wp_ite]
    split
    · exact sameOrders_refusal (quiet_refuseOrder f _ view _ _) _ _ t
    · rw [wp_get_bind, hfound]
      exact sameOrders_refusal (quiet_refuseVoidedOrder f _ view voided) _ _ t
  | cancel view =>
    refine sameOrders_guardedCommand (quiet_refuseCancel f _ view _ _) (quiet_rejectFailedCancel f _ view) ?_
    intro t ht
    obtain ⟨voided, hfound⟩ := exists_voiding (ht ▸ hin) hnames
    simp only [applyCancelInSequence, wp_ite]
    split
    · exact sameOrders_refusal (quiet_refuseCancel f _ view _ _) _ _ t
    · rw [wp_get_bind, hfound]
      exact sameOrders_refusal (quiet_refuseVoidedCancel f _ view voided) _ _ t
  | cancelBook | technicalEvent | voidCommands => cases hnames

/-! ## How a void is judged -/

variable {f}

/-- **A void that is new, and whose first command is not above the position,** is answered so where
its position is above the latest recorded. -/
theorem wp_learnVoid_of_new {voided : VoidedRange} (hnew : voidAt s.voids voided.voidSeqNo = none)
    (hfirst : voided.firstSeqNo ≤ s.highestApplied) : wp (learnVoid f voided)
      (fun answer _ => answer = .afterApplyingSome ↔ s.book.voidsKnownThrough < voided.voidSeqNo)
      (fun _ _ => f.fails .learnVoid = true) s := by
  have hadded : (addVoid s.voids voided).2 = true := by
    unfold addVoid
    rw [hnew]
    rfl
  simp only [learnVoid, wp_bind, wp_call, wp_get, wp_ite, wp_pure, wp_modify, hadded,
    Bool.true_eq_false, if_false]
  split
  · rename_i hfails
    exact hfails
  split
  · rename_i hknown
    simp [Int.not_lt.mpr hknown]
  · rename_i hlater
    simp [changeBook, hfirst, Int.not_le.mp hlater]

/-- The same of a VoidCommands record that is applied. -/
theorem wp_applyVoidCommands_of_new {voided : VoidedRange}
    (hnew : voidAt s.voids voided.voidSeqNo = none) (hfirst : voided.firstSeqNo ≤ s.highestApplied) :
    wp (applyVoidCommands f voided source) (fun answer _ => answer.applied = true →
        (answer.learnedTooLate = true ↔ s.book.voidsKnownThrough < voided.voidSeqNo))
      (fun _ _ => f.fails .learnVoid = true) s := by
  simp only [applyVoidCommands, voidCommandsInSequence, wp_bind, wp_passedOver, wp_ite, wp_pure, wp_get,
    Bool.false_eq_true, if_false, if_true, hnew]
  split
  · rename_i hlt
    refine wp_mono (wp_learnVoid_of_new (s := { s with highestApplied := voided.voidSeqNo }) hnew
      (Int.le_trans hfirst hlt.le)) (fun answer t hanswer => ?_) (fun _ _ h => h)
    simpa [publish, changeBook] using hanswer
  · exact fun h => h.elim

end Commands

/-! ## Histories -/

/-- An engine, and the commands of members that it has taken up while no void that it knew of named
them. -/
structure VoidHistory (config : RehashConfig OrderKey) where
  engine : Engine config
  applied : List (Int × VoidedKind)

/-- What happens to the engine. -/
inductive VoidEvent
  | deliver (f : Faults) (source : CommandSource) (command : Command)
  | learn (f : Faults) (voided : VoidedRange)
  | caughtUpTo (sequenceNumber : Int)

/-- The command, if it is a member's that the engine takes up and no void that it knows of names. -/
def Engine.appliesUnvoided (s : Engine config) (f : Faults) : Command → List (Int × VoidedKind)
  | .newOrder _ n _ date _ =>
    if s.takesUp f n date ∧ voiding s.voids n .newOrder = none then [(n, .newOrder)] else []
  | .cancel _ n _ date _ =>
    if s.takesUp f n date ∧ voiding s.voids n .cancel = none then [(n, .cancel)] else []
  | _ => []

namespace VoidHistory

variable (layouts : GroupLayouts)

/-- **The history of an engine.** -/
def step : Machine (VoidHistory config) VoidEvent
  | h, .deliver f source command =>
    some { engine := endState (applyCommand layouts f source command) h.engine
           applied := h.applied ++ h.engine.appliesUnvoided f command }
  | h, .learn f voided => some { h with engine := endState (learnVoid f voided) h.engine }
  | h, .caughtUpTo n => some { h with engine := endState (noteCaughtUpTo n) h.engine }

/-- The position is at or above every command that was taken up. -/
def Reached (h : VoidHistory config) : Prop := ∀ c ∈ h.applied, c.1 ≤ h.engine.highestApplied

/-- The position moves to a command that is taken up. -/
theorem reached_applyCommand {s : Engine config} {f : Faults} {source : CommandSource} {command : Command}
    {c : Int × VoidedKind} (hc : c ∈ s.appliesUnvoided f command) :
    c.1 ≤ (endState (applyCommand layouts f source command) s).highestApplied := by
  unfold Engine.appliesUnvoided at hc
  cases command with
  | newOrder view n time date session =>
    simp only at hc
    split at hc
    · rename_i htakes
      rw [List.mem_singleton.mp hc]
      exact reached_guardedCommand (quiet_refuseOrder f _ view _ _)
        (sameMarks_applyOrderInSequence f _ layouts view) (quiet_rejectFailedOrder f _ view) htakes.1
    · cases hc
  | cancel view n time date session =>
    simp only at hc
    split at hc
    · rename_i htakes
      rw [List.mem_singleton.mp hc]
      exact reached_guardedCommand (quiet_refuseCancel f _ view _ _)
        (sameMarks_applyCancelInSequence f _ view) (quiet_rejectFailedCancel f _ view) htakes.1
    · cases hc
  | cancelBook | technicalEvent | voidCommands => cases hc

theorem reached_invariant : (step layouts).Invariant (@Reached config) := by
  intro h event h' hreached hstep
  cases event with
  | deliver f source command =>
    cases hstep
    intro c hc
    rcases List.mem_append.mp hc with hold | hnew
    · exact Int.le_trans (hreached c hold) ((rises_applyCommand layouts f source command).endState h.engine)
    · exact reached_applyCommand layouts hnew
  | learn f voided =>
    cases hstep
    exact fun c hc => Int.le_trans (hreached c hc) ((samePosition_learnVoid f voided).endState h.engine).rises
  | caughtUpTo =>
    cases hstep
    exact fun c hc => Int.le_trans (hreached c hc) (Int.le_max_left _ _)

/-- **How voids are judged, and what they do**, in every history of an engine: a void that is new,
and that names a command the engine has applied, is answered so exactly where its position is above
the latest that the region records; and a command that a known void names changes no order. -/
theorem learnVoid_judges {s₀ : Engine config} {events : List VoidEvent} {h : VoidHistory config}
    (hrun : (step layouts).run ⟨s₀, []⟩ events = some h) :
    (∀ (f : Faults) (voided : VoidedRange), voidAt h.engine.voids voided.voidSeqNo = none →
      (∃ c ∈ h.applied, voided.names c.1 c.2 = true) → wp (learnVoid f voided)
          (fun answer _ => answer = .afterApplyingSome ↔ h.engine.book.voidsKnownThrough < voided.voidSeqNo)
          (fun _ _ => f.fails .learnVoid = true) h.engine ∧
        ∀ source, wp (applyVoidCommands f voided source) (fun answer _ => answer.applied = true →
            (answer.learnedTooLate = true ↔ h.engine.book.voidsKnownThrough < voided.voidSeqNo))
          (fun _ _ => f.fails .learnVoid = true) h.engine) ∧
      ∀ (f : Faults) (source : CommandSource) (command : Command), ∀ v ∈ h.engine.voids,
        v.namesCommand command = true →
          SameOrders h.engine (endState (applyCommand layouts f source command) h.engine) := by
  have hreached : h.Reached := (reached_invariant layouts).run (I := Reached) (s := ⟨s₀, []⟩) nofun hrun
  refine ⟨fun f voided hnew hnames => ?_, fun f source command v hin hnames =>
    sameOrders_of_namesCommand layouts f source command hin hnames⟩
  obtain ⟨c, hc, hnamed⟩ := hnames
  have hfirst : voided.firstSeqNo ≤ h.engine.highestApplied := by
    simp only [VoidedRange.names, Bool.and_eq_true, decide_eq_true_eq] at hnamed
    exact Int.le_trans hnamed.1.1 (hreached c hc)
  exact ⟨wp_learnVoid_of_new hnew hfirst, fun source => wp_applyVoidCommands_of_new source hnew hfirst⟩

/-- An engine with no orders, for a run. -/
def someEngine : Engine lengthHash :=
  .start ⟨.create 4 (by decide) (by decide) someEntry, .fresh⟩

/-- No call fails. -/
def noFaults : Faults := { fails := fun _ => false, allocates := fun _ => true }

/-- The sizes of the elements of groups, for a run. -/
def someLayouts : GroupLayouts := ⟨⟨48, 8⟩, ⟨48, 8⟩, ⟨24, 8⟩⟩

/-- An order, for a run. -/
def someOrder : NewOrderSingle :=
  { clOrdId := [1], symbol := [65], side := 49, ordType := 50, orderQty := [49], price := none, timeInForce := none
    expireTime := none, underlyings := [], partyIds := [] }

/-- The order at position 5 is applied. -/
def orderApplied : List VoidEvent := [.deliver noFaults .live (.newOrder someOrder 5 1 20260105 ⟨1, [77]⟩)]

/-- A void at position 10, of the command at position 5. -/
def voidOfFive : VoidedRange := ⟨10, 5, 5, false, .engineDiedApplying⟩

/-- What a program returns, where it does. -/
def answered {α : Type} (m : EngineM lengthHash α) (s : Engine lengthHash) : Option α :=
  match m s with
  | .ok answer _ => some answer
  | .error _ _ => none

/-- What a program returns satisfies what is ensured of it. -/
theorem of_answered {α : Type} {m : EngineM lengthHash α} {s : Engine lengthHash} {answer : α}
    (h : answered m s = some answer) {Q : α → Prop} {E : Unit → Engine lengthHash → Prop}
    (hwp : wp m (fun a _ => Q a) E s) : Q answer := by
  unfold answered at h
  unfold wp at hwp
  cases hm : m s with
  | ok =>
    rw [hm] at h hwp
    exact Option.some.inj h ▸ hwp
  | error =>
    rw [hm] at h
    cases h

/-- The engine learns of the void after it has applied the order. -/
theorem learnVoid_judges_late : ∃ h, (step someLayouts).run ⟨someEngine, []⟩ orderApplied = some h ∧
      (∃ c ∈ h.applied, voidOfFive.names c.1 c.2 = true) ∧
        h.engine.book.voidsKnownThrough < voidOfFive.voidSeqNo ∧
        answered (learnVoid noFaults voidOfFive) h.engine = some .afterApplyingSome := by
  obtain ⟨h, hrun, happlied, hnew, hlater, hreturns⟩ := Machine.exists_run_of_any
    (step someLayouts) ⟨someEngine, []⟩ orderApplied
    (fun h => (5, .newOrder) ∈ h.applied ∧ voidAt h.engine.voids 10 = none ∧
      h.engine.book.voidsKnownThrough < 10 ∧ (answered (learnVoid noFaults voidOfFive) h.engine).isSome)
    (by decide)
  have hnames : ∃ c ∈ h.applied, voidOfFive.names c.1 c.2 = true := ⟨_, happlied, by decide⟩
  obtain ⟨answer, hanswer⟩ := Option.isSome_iff_exists.mp hreturns
  have hjudged :=
    of_answered hanswer ((learnVoid_judges someLayouts hrun).1 noFaults voidOfFive hnew hnames).1
  exact ⟨h, hrun, hnames, hlater, hanswer.trans (congrArg some (hjudged.mpr hlater))⟩

/-- **A void at a lower position than another** is taken for one that was known: the order at
position 5 is on the book, the engine is told of a void at position 20, of commands that it has not
reached, and then of the void at position 10 of that order. -/
theorem late_void_taken_for_known : ∃ h, (step someLayouts).run ⟨someEngine, []⟩
        (orderApplied ++ [.learn noFaults ⟨20, 15, 18, false, .engineDiedApplying⟩]) = some h ∧
      voidAt h.engine.voids voidOfFive.voidSeqNo = none ∧ (∃ c ∈ h.applied, voidOfFive.names c.1 c.2 = true) ∧
        h.engine.book.contains (.make ⟨1, [77]⟩ [1]) = true ∧
          answered (learnVoid noFaults voidOfFive) h.engine = some .alreadyKnown := by
  obtain ⟨h, hrun, happlied, hnew, hheld, hanswer⟩ :=
    Machine.exists_run_of_any (step someLayouts) ⟨someEngine, []⟩
    (orderApplied ++ [.learn noFaults ⟨20, 15, 18, false, .engineDiedApplying⟩])
    (fun h => (5, .newOrder) ∈ h.applied ∧ voidAt h.engine.voids 10 = none ∧
      h.engine.book.contains (.make ⟨1, [77]⟩ [1]) = true ∧
      answered (learnVoid noFaults voidOfFive) h.engine = some .alreadyKnown)
    (by decide)
  exact ⟨h, hrun, hnew, ⟨_, happlied, by decide⟩, hheld, hanswer⟩

end VoidHistory

end Matching

end PubsubVenue
