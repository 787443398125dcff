import PubsubVenue.Lease.Pair
import PubsubVenue.Sequencer.ReportForwarding

/-! # Which engine the orders go to

`EngineOrderRouting` decides, from what the engines announce and ask for, which of a sequencer's
order connections carries orders, and whether the engine on it is known to lead. It believes an
announcement whose epoch is not behind the latest it has accepted.

* **`RoutingHistory.orders_go_to_one_that_leads`**: the engine that orders go to announced that it
  leads, at an epoch not behind any accepted before, or was caught up to lead, and neither has it
  taken that back nor has another engine with an open order connection since announced that it
  leads.
* **`RoutingHistory.known_to_lead_although_superseded`**: an announcement accepted later, of an
  engine to which there is no order connection, takes nothing from the one that orders go to. -/

namespace PubsubVenue

open Function

/-- Which of the connections to the engines carries orders. No connection is `none`, no instance is 0. -/
structure EngineOrderRouting where
  connectionByInstance : Instance → Option ConnectionID := fun _ => none
  active : Option ConnectionID := none
  /-- Whether the engine on the active connection is known to lead. -/
  activeLeads : Bool := false
  announcedEpoch : Int := -1
  announcedLeader : Int := 0

/-- What an announcement did to the routing. -/
inductive AnnouncementOutcome where
  | refusedAsBehind
  | noOrderConnection
  | routedToLeader
  | alreadyRoutedToLeader
  | followerNotCarryingOrders
  | followerHandedToLeader
  | followerWithdrawnNoLeader
  deriving DecidableEq, Repr

namespace EngineOrderRouting

variable (r : EngineOrderRouting)

/-- The order connection to the engine that gives this as its instance, if one is open. -/
def connectionOf (engine : Int) : Option ConnectionID :=
  if engine = 1 then r.connectionByInstance .one
  else if engine = 2 then r.connectionByInstance .two
  else none

/-- An order connection to an instance has been established. -/
def connected (i : Instance) (connection : ConnectionID) (claim : Bool) : EngineOrderRouting :=
  let r := { r with
    connectionByInstance := update r.connectionByInstance i (some connection) }
  if r.announcedLeader = i.id then { r with active := some connection, activeLeads := true }
  else if claim && r.active.isNone then { r with active := some connection, activeLeads := false }
  else r

variable (connection : ConnectionID)

/-- A connection has closed. -/
def lost : EngineOrderRouting :=
  let r := { r with connectionByInstance := fun i =>
    if r.connectionByInstance i = some connection then none else r.connectionByInstance i }
  if r.active = some connection then { r with active := none, activeLeads := false } else r

/-- An engine has announced its role at an epoch. -/
def announced (engine : Int) (leads : Bool) (epoch : Int) : AnnouncementOutcome × EngineOrderRouting :=
  if epoch < r.announcedEpoch then (.refusedAsBehind, r)
  else
    let r := { r with
      announcedEpoch := epoch
      announcedLeader := if leads then engine else if r.announcedLeader = engine then 0
        else r.announcedLeader }
    match r.connectionOf engine with
    | none => (.noOrderConnection, r)
    | some own =>
      if leads then
        (if r.active = some own then .alreadyRoutedToLeader else .routedToLeader,
          { r with active := some own, activeLeads := true })
      else if r.active ≠ some own then (.followerNotCarryingOrders, r)
      else match if r.announcedLeader ≠ 0 then r.connectionOf r.announcedLeader else none with
        | some leader =>
          (.followerHandedToLeader, { r with active := some leader, activeLeads := true })
        | none => (.followerWithdrawnNoLeader, { r with active := none, activeLeads := false })

/-- The connection on which an engine announced that it leads is lost. -/
def leaderAnnouncementLost (engine : Int) : EngineOrderRouting :=
  let r := { r with announcedLeader := if r.announcedLeader = engine then 0 else r.announcedLeader }
  if (r.connectionOf engine).isSome ∧ r.active = r.connectionOf engine then
    { r with activeLeads := false }
  else r

/-- Whether this is an open order connection. -/
def isEngineConnection : Bool :=
  r.connectionByInstance .one = some connection || r.connectionByInstance .two = some connection

/-- An engine asked to be caught up while this sequencer follows. -/
def askedToCatchUpWhileFollowing : EngineOrderRouting :=
  if r.isEngineConnection connection then { r with active := some connection, activeLeads := false }
  else r

/-- The engine on a connection has been caught up in order to lead. -/
def caughtUpToLead : EngineOrderRouting :=
  if r.isEngineConnection connection then { r with active := some connection, activeLeads := true }
  else r

/-- Whether the engine on the active connection is known to lead. -/
def activeIsKnownToLead : Bool := r.active.isSome && r.activeLeads

/-- The open order connection that is not the active one. -/
def standby : Option ConnectionID :=
  ([r.connectionByInstance .one, r.connectionByInstance .two].find?
    fun connection => connection.isSome && decide (connection ≠ r.active)).join

end EngineOrderRouting

/-! ## Runs -/

/-- What happens to a sequencer's routing. -/
inductive RoutingEvent where
  | connected (i : Instance) (connection : ConnectionID) (claim : Bool)
  | lost (connection : ConnectionID)
  | announced (engine : Int) (leads : Bool) (epoch : Int)
  | leaderAnnouncementLost (engine : Int)
  | askedToCatchUpWhileFollowing (connection : ConnectionID)
  | caughtUpToLead (connection : ConnectionID)

/-- The routing, and which engines have announced, at an epoch accepted, that they lead, or have
been caught up to lead, and have since neither announced, at an epoch accepted, that they follow nor
had their announcement lost, and since when no other engine has announced, at an epoch accepted and
with an open order connection, that it leads. -/
structure RoutingHistory where
  routing : EngineOrderRouting := {}
  leads : Int → Bool := fun _ => false

namespace RoutingHistory

open EngineOrderRouting

/-- Which engines lead after an announcement that is accepted: one that leads, and to which there is
an order connection, takes the place of every other. -/
def leadsAfter (h : RoutingHistory) (engine : Int) (leads : Bool) (e : Int) : Bool :=
  if e = engine then leads
  else if leads ∧ (h.routing.connectionOf engine).isSome then false
  else h.leads e

/-- What an event does. An instance's order connection is lost before its next is made. -/
def step : Machine RoutingHistory RoutingEvent
  | h, .connected i connection claim =>
    if h.routing.connectionByInstance i = none then
      some { h with routing := h.routing.connected i connection claim }
    else none
  | h, .lost connection => some { h with routing := h.routing.lost connection }
  | h, .announced engine leads epoch =>
    some { routing := (h.routing.announced engine leads epoch).2
           leads := if epoch < h.routing.announcedEpoch then h.leads else h.leadsAfter engine leads }
  | h, .leaderAnnouncementLost engine =>
    some { routing := h.routing.leaderAnnouncementLost engine
           leads := update h.leads engine false }
  | h, .askedToCatchUpWhileFollowing connection =>
    some { h with routing := h.routing.askedToCatchUpWhileFollowing connection }
  | h, .caughtUpToLead connection =>
    some { routing := h.routing.caughtUpToLead connection
           leads := fun engine =>
             h.leads engine || decide (h.routing.connectionOf engine = some connection) }

/-- **What is always so**: orders go down an open connection, to an engine that leads if it is known
to, and so does the one that is remembered as the leader. -/
structure Sound (h : RoutingHistory) : Prop where
  active : ∀ c ∈ h.routing.active, ∃ i, h.routing.connectionByInstance i = some c ∧
    (h.routing.activeLeads = true → h.leads i.id = true)
  leader : h.routing.announcedLeader ≠ 0 → h.leads h.routing.announcedLeader = true

variable {h t : RoutingHistory} {r : EngineOrderRouting} {c : ConnectionID} {engine : Int}

/-- An engine to which there is an order connection is one of the two. -/
theorem connectionOf_eq_some :
    r.connectionOf engine = some c ↔ ∃ i : Instance, i.id = engine ∧ r.connectionByInstance i = some c := by
  constructor
  · intro hc
    unfold connectionOf at hc
    split at hc
    · exact ⟨.one, Eq.symm (by assumption), hc⟩
    split at hc
    · exact ⟨.two, Eq.symm (by assumption), hc⟩
    · cases hc
  · rintro ⟨i, rfl, hc⟩
    cases i <;> exact hc

/-- An open order connection is one of an instance. -/
theorem exists_of_isEngineConnection (hc : r.isEngineConnection c = true) :
    ∃ i, r.connectionByInstance i = some c := by
  rcases (Bool.or_eq_true _ _).mp hc with hc | hc
  · exact ⟨_, of_decide_eq_true hc⟩
  · exact ⟨_, of_decide_eq_true hc⟩

/-- What an engine says is nothing to the active connection, if that is not its own. -/
theorem Sound.active_update (hs : Sound h) (leads : Bool)
    (hne : ∀ c ∈ h.routing.active, h.routing.connectionOf engine ≠ some c) :
    ∀ c ∈ h.routing.active, ∃ i, h.routing.connectionByInstance i = some c ∧
      (h.routing.activeLeads = true → update h.leads engine leads i.id = true) := by
  intro c hc
  obtain ⟨i, hi, hleads⟩ := hs.active c hc
  have hother : i.id ≠ engine := fun hie => hne c hc (connectionOf_eq_some.mpr ⟨i, hie, hi⟩)
  exact ⟨i, hi, fun hl => (update_of_ne hother ..).trans (hleads hl)⟩

/-- An announcement that does not lead, or of an engine without an order connection, is nothing to
the others. -/
theorem leadsAfter_eq {leads : Bool}
    (hnot : ¬(leads = true ∧ (h.routing.connectionOf engine).isSome = true)) :
    h.leadsAfter engine leads = update h.leads engine leads := by
  funext e
  rw [leadsAfter, if_neg hnot, update_apply]

/-- An announcement that is accepted. -/
theorem sound_announced (hs : Sound h) {epoch : Int} {leads : Bool}
    (hepoch : ¬ epoch < h.routing.announcedEpoch) :
    Sound { routing := (h.routing.announced engine leads epoch).2
            leads := h.leadsAfter engine leads } := by
  obtain ⟨leader, hleader⟩ : ∃ leader, leader = if leads then engine
    else if h.routing.announcedLeader = engine then 0 else h.routing.announcedLeader := ⟨_, rfl⟩
  -- the leader remembered is this engine, or another that has not taken it back
  have hleads : leader ≠ 0 → h.leadsAfter engine leads leader = true := by
    have hold := hs.leader
    unfold leadsAfter
    grind
  unfold announced
  simp only [if_neg hepoch, ← hleader]
  split
  · next hnone =>
    have hconn : h.routing.connectionOf engine = none := hnone
    rw [leadsAfter_eq (by simp [hconn])] at hleads ⊢
    refine ⟨hs.active_update leads fun c _ hc => ?_, hleads⟩
    cases hconn.symm.trans hc
  next own hown =>
  obtain ⟨i, rfl, hi⟩ := connectionOf_eq_some.mp hown
  split
  · next hl => exact ⟨fun d hd => ⟨i, hi.trans hd, fun _ => (if_pos rfl).trans hl⟩, hleads⟩
  next hl =>
  rw [leadsAfter_eq fun hboth => hl hboth.1] at hleads ⊢
  split
  · next hother =>
    refine ⟨hs.active_update leads fun c hc hown' => hother ?_, hleads⟩
    exact hc.trans (hown'.symm.trans hown)
  split
  · next c hc =>
    obtain ⟨h0, hc⟩ := Option.ite_none_right_eq_some.mp hc
    obtain ⟨j, hj, hjc⟩ := connectionOf_eq_some.mp hc
    exact ⟨fun d hd => ⟨j, hjc.trans hd, fun _ => hj ▸ hleads h0⟩, hleads⟩
  · exact ⟨nofun, hleads⟩

/-- The announcement of an engine is lost. -/
theorem sound_leaderAnnouncementLost (hs : Sound h) (engine : Int) :
    Sound { routing := h.routing.leaderAnnouncementLost engine
            leads := update h.leads engine false } := by
  obtain ⟨leader, hleader⟩ : ∃ leader, leader =
    if h.routing.announcedLeader = engine then 0 else h.routing.announcedLeader := ⟨_, rfl⟩
  have hleads : leader ≠ 0 → update h.leads engine false leader = true := by
    have hold := hs.leader
    grind [update_apply]
  unfold leaderAnnouncementLost
  simp only [← hleader]
  split
  · exact ⟨fun c hc => (hs.active c hc).imp fun _ hi => ⟨hi.1, nofun⟩, hleads⟩
  · next hother =>
    refine ⟨hs.active_update false fun c hc hown => hother ?_, hleads⟩
    exact ⟨Option.isSome_of_eq_some hown, hc.trans hown.symm⟩

/-- **Every event keeps it.** -/
theorem Sound.step (hs : Sound h) {e : RoutingEvent} (hstep : step h e = some t) : Sound t := by
  cases e with
  | connected i c =>
    obtain ⟨hnone, hstep⟩ := Option.ite_none_right_eq_some.mp hstep
    cases hstep
    have hself : update h.routing.connectionByInstance i (some c) i = some c :=
      update_self ..
    unfold connected
    dsimp only
    split
    · next hi =>
      refine ⟨fun d hd => ⟨i, hself.trans hd, fun _ => hi ▸ hs.leader ?_⟩, hs.leader⟩
      rw [hi]
      cases i <;> decide
    split
    · exact ⟨fun d hd => ⟨i, hself.trans hd, nofun⟩, hs.leader⟩
    · refine ⟨fun d hd => ?_, hs.leader⟩
      obtain ⟨j, hj, hleads⟩ := hs.active d hd
      refine ⟨j, (update_of_ne (fun hji => ?_) _ _).trans hj, hleads⟩
      rw [hji, hnone] at hj
      cases hj
  | lost =>
    cases hstep
    unfold lost
    dsimp only
    split
    · exact ⟨nofun, hs.leader⟩
    · next hne =>
      refine ⟨fun d hd => ?_, hs.leader⟩
      obtain ⟨j, hj, hleads⟩ := hs.active d hd
      refine ⟨j, (if_neg fun hc => hne ?_).trans hj, hleads⟩
      rw [← hc, hj]
      exact hd
  | announced =>
    cases hstep
    split
    · next hbehind =>
      rw [announced, if_pos hbehind]
      exact hs
    · next haccepted => exact sound_announced hs haccepted
  | leaderAnnouncementLost engine =>
    cases hstep
    exact sound_leaderAnnouncementLost hs engine
  | askedToCatchUpWhileFollowing =>
    cases hstep
    unfold askedToCatchUpWhileFollowing
    split
    · next hc =>
      obtain ⟨i, hi⟩ := exists_of_isEngineConnection hc
      exact ⟨fun d hd => ⟨i, hi.trans hd, nofun⟩, hs.leader⟩
    · exact hs
  | caughtUpToLead c =>
    cases hstep
    have hleader : h.routing.announcedLeader ≠ 0 → (h.leads h.routing.announcedLeader ||
        decide (h.routing.connectionOf h.routing.announcedLeader = some c)) = true :=
      fun h0 => by simp [hs.leader h0]
    unfold caughtUpToLead
    split
    · next hc =>
      obtain ⟨i, hi⟩ := exists_of_isEngineConnection hc
      have hown := connectionOf_eq_some.mpr ⟨i, rfl, hi⟩
      exact ⟨fun d hd => ⟨i, hi.trans hd, fun _ => by simp [hown]⟩, hleader⟩
    · refine ⟨fun d hd => (hs.active d hd).imp fun i hi => ⟨hi.1, fun hl => ?_⟩, hleader⟩
      simp [hi.2 hl]

/-- The epoch accepted never falls. -/
theorem announcedEpoch_le {e : RoutingEvent} (hstep : step h e = some t) :
    h.routing.announcedEpoch ≤ t.routing.announcedEpoch := by
  cases e <;> grind [step, connected, lost, announced, leaderAnnouncementLost,
    askedToCatchUpWhileFollowing, caughtUpToLead]

/-- The standby is an open connection that is not the active one, if there is one. -/
theorem standby_spec (r : EngineOrderRouting) :
    (∀ c ∈ r.standby, r.active ≠ some c ∧ ∃ i, r.connectionByInstance i = some c) ∧
      (r.standby = none → ∀ i, ∀ c ∈ r.connectionByInstance i, r.active = some c) := by
  unfold standby
  cases h₁ : r.connectionByInstance .one <;> cases h₂ : r.connectionByInstance .two <;>
    grind [Instance]

/-- **Orders go only where they may.** Along every run in which an instance's order connection is
lost before its next is made: orders go nowhere or down an open connection; the engine on it is
known to lead only if it announced that it leads, at an epoch not behind any accepted before, or was
caught up to lead, and has since neither announced at an accepted epoch that it follows nor had its
announcement lost, nor has another engine with an open order connection since announced, at an
accepted epoch, that it leads; the standby is the other open connection; and the epoch accepted
never falls. -/
theorem orders_go_to_one_that_leads {events : List RoutingEvent} (ht : step.run {} events = some t) :
    (∀ c ∈ t.routing.active, ∃ i, t.routing.connectionByInstance i = some c ∧
        (t.routing.activeIsKnownToLead = true → t.leads i.id = true)) ∧
      (∀ c ∈ t.routing.standby, t.routing.active ≠ some c ∧
        ∃ i, t.routing.connectionByInstance i = some c) ∧
      (t.routing.standby = none → ∀ i, ∀ c ∈ t.routing.connectionByInstance i, t.routing.active = some c) ∧
      ∀ e u, step t e = some u → t.routing.announcedEpoch ≤ u.routing.announcedEpoch := by
  have hkept : step.Invariant Sound := fun _ _ _ hs hstep => hs.step hstep
  have hsound := hkept.run ⟨fun _ hc => absurd hc (Option.not_mem_none _), fun h0 => absurd rfl h0⟩ ht
  obtain ⟨hother, hnone⟩ := standby_spec t.routing
  refine ⟨fun c hc => (hsound.active c hc).imp fun i hi => ⟨hi.1, fun hl => hi.2 ?_⟩, hother, hnone,
    fun _ _ => announcedEpoch_le⟩
  exact ((Bool.and_eq_true _ _).mp hl).2

/-- An engine announces that it leads before it is connected, and the other is caught up to lead. -/
theorem orders_go_to_one_that_leads_two : ∃ t,
    step.run {} [.announced 1 true 5, .connected .one 11 true, .connected .two 12 false,
      .caughtUpToLead 12] = some t ∧ t.routing.active = some 12 ∧ t.routing.standby = some 11 ∧
      t.routing.activeIsKnownToLead = true ∧ ∃ i : Instance, t.leads i.id = true := by
  obtain ⟨t, ht, hactive, hstandby, hleads⟩ := step.exists_run_of_any {} [.announced 1 true 5,
    .connected .one 11 true, .connected .two 12 false, .caughtUpToLead 12] (fun t =>
      t.routing.active = some 12 ∧ t.routing.standby = some 11 ∧ t.routing.activeIsKnownToLead = true)
    (by decide)
  obtain ⟨i, -, hi⟩ := (orders_go_to_one_that_leads ht).1 12 hactive
  exact ⟨t, ht, hactive, hstandby, hleads, i, hi hleads⟩

/-- **Known to lead although superseded**: an engine that announced that it leads at epoch 5 is
still known to lead when the other has announced, at epoch 6, that it does, for want of an order
connection to that one. -/
theorem known_to_lead_although_superseded : ∃ t,
    step.run {} [.connected .one 11 true, .announced 1 true 5, .announced 2 true 6] = some t ∧
      t.routing.active = some 11 ∧ t.routing.activeIsKnownToLead = true ∧ t.routing.announcedEpoch = 6 :=
  step.exists_run_of_any {} _ _ (by decide)

end RoutingHistory

end PubsubVenue
