import PubsubVenue.Sequencer.ReportSteps
import Mathlib.Data.List.Nodup

/-! # What the leader says it has forwarded

On every record that it writes, a leading sequencer says how far it has forwarded the engine's
reports (`forwarded_through`), and a follower discards the copies it keeps up to there. A report
waits in one of three places: for its record to be committed, for its session to be announced, or
for its gateway to be connected. The position takes the first two into account and not the third.

* **`ReportPath.forwarded_of_connected`**: as long as every report goes to a gateway that is
  connected, what the leader says is so, and what a follower discards for it was handed on or
  dropped.
* **`ReportPath.says_forwarded_what_it_holds`**: a report held for its gateway that the leader says
  it has forwarded. -/

namespace PubsubVenue

open EngineReportPosition List ReportForwarding ReportPath Option

namespace ReportPath

variable (config : SequencerConfig)

section

variable (s : ReportPath)

/-- The records of the reports handed to a connection. -/
def handed : List Int :=
  s.calls.filterMap fun c => c.sent.map fun sent => sent.2.seqNo

/-- The records of the reports that wait for a commit. -/
def recordsWaiting : List Int := s.reports.pending.map fun w => w.2.logSeqNo

/-- The records of the reports held for sessions that no gateway has announced. -/
def recordsHeldForSessions : List Int :=
  s.reports.heldReports.held.map fun e => e.record.logSeqNo

/-- The records of the reports held for a gateway. -/
def recordsHeldFor (gateway : GatewayKey) : List Int :=
  (s.reports.heldForGateways gateway).held.map fun e => e.record.envelope.seqNo

/-- **What the leader says it has forwarded, it has**: a report at or before that position was
handed to a connection or dropped, and waits nowhere. -/
def SaysWhatItForwarded : Prop :=
  ∀ record position through, (record, some position) ∈ s.seen →
    s.reports.forwardedThrough = some through → position.IsBeforeOrAt through →
      (record ∈ s.handed ∨ record ∈ s.dropped) ∧ record ∉ s.recordsWaiting ∧
        record ∉ s.recordsHeldForSessions ∧ ∀ gateway, record ∉ s.recordsHeldFor gateway

end

/-! ## What sending can do -/

/-- The report of a record is held for its session, was handed to a connection, or was dropped. -/
def Accounted (s : ReportPath) (record : Int) : Prop :=
  record ∈ s.recordsHeldForSessions ∨ record ∈ s.handed ∨ record ∈ s.dropped

/-- The position kept for the reports held is at or before each of theirs. -/
def OldestHeld (s : ReportPath) : Prop :=
  ∀ e ∈ s.reports.heldReports.held, ∀ p, e.record.position = some p →
    Bounds s.reports.heldReportsOldestPosition p

/-- Nothing is held for a gateway. -/
def NoneHeldForGateways (s : ReportPath) : Prop :=
  ∀ gateway, (s.reports.heldForGateways gateway).held = []

/-- **What sending reports can do**: from one state to the next, reports given by record and
position are sent, held for their session or dropped, and no other report is lost. -/
structure Sends (s t : ReportPath) (given : List (Int × Option EngineReportPosition)) :
    Prop extends Frame s t where
  accounted : ∀ record, s.Accounted record → t.Accounted record
  settled : ∀ x ∈ given, t.Accounted x.1
  held : ∀ e ∈ t.reports.heldReports.held, e ∈ s.reports.heldReports.held ∨
    e.identity.empty = false ∧ (e.record.logSeqNo, e.record.position) ∈ given
  oldest : s.OldestHeld → t.OldestHeld
  oldest_given : ∀ o, t.reports.heldReportsOldestPosition = some o →
    s.reports.heldReportsOldestPosition = some o ∨ ∃ x ∈ given, x.2 = some o
  gateways : s.NoneHeldForGateways → t.NoneHeldForGateways

namespace Sends

variable {s t u : ReportPath} {given more : List (Int × Option EngineReportPosition)}

/-- Nothing happens. -/
theorem refl (s : ReportPath) : Sends s s [] :=
  { Frame.refl s with
    accounted := fun _ h => h, settled := nofun
    held := fun _ h => .inl h, oldest := fun h => h, oldest_given := fun _ h => .inl h
    gateways := fun h => h }

/-- One after the other. -/
theorem trans (h₁ : Sends s t given) (h₂ : Sends t u more) : Sends s u (given ++ more) :=
  { h₁.toFrame.trans h₂.toFrame with
    accounted := fun record h => h₂.accounted record (h₁.accounted record h)
    settled := fun x hx => (mem_append.mp hx).elim (fun hx => h₂.accounted _ (h₁.settled x hx)) (h₂.settled x)
    held := fun e he => by
      rcases h₂.held e he with he | ⟨hid, hx⟩
      · rcases h₁.held e he with he | ⟨hid, hx⟩
        · exact .inl he
        · exact .inr ⟨hid, mem_append_left _ hx⟩
      · exact .inr ⟨hid, mem_append_right _ hx⟩
    oldest := fun h => h₂.oldest (h₁.oldest h)
    oldest_given := fun o ho => by
      rcases h₂.oldest_given o ho with ho | ⟨x, hx, hxo⟩
      · rcases h₁.oldest_given o ho with ho | ⟨x, hx, hxo⟩
        · exact .inl ho
        · exact .inr ⟨x, mem_append_left _ hx, hxo⟩
      · exact .inr ⟨x, mem_append_right _ hx, hxo⟩
    gateways := fun h => h₂.gateways (h₁.gateways h) }

/-- It does not matter how often or in which order the reports given are listed. -/
theorem of_mem (h : Sends s t given) (hmem : ∀ x, x ∈ given ↔ x ∈ more) : Sends s t more :=
  { h with
    settled := fun x hx => h.settled x ((hmem x).mpr hx)
    held := fun e he => (h.held e he).imp_right fun hx => ⟨hx.1, (hmem _).mp hx.2⟩
    oldest_given := fun o ho => (h.oldest_given o ho).imp_right fun ⟨x, hx, hxo⟩ =>
      ⟨x, (hmem x).mp hx, hxo⟩ }

end Sends

section

variable {config} {s t : ReportPath} {given : List (Int × Option EngineReportPosition)}

/-- Only the member sessions change, and not where they are bound. -/
theorem sends_sessions {m : MemberSessions} (h : Frame s { s with sessions := m }) :
    Sends s { s with sessions := m } [] :=
  { h, Sends.refl s with }

section

variable (s : ReportPath)

theorem sends_orderEnded (ends : Bool) (seqNo : Int) : Sends s (s.orderEnded ends seqNo) [] := by
  unfold orderEnded
  split
  · exact sends_sessions { Frame.refl s with }
  · exact .refl s

theorem sends_reportForwarded (identity : SessionIdentity) :
    Sends s { s with sessions := s.sessions.reportForwarded identity } [] :=
  sends_sessions (.reportForwarded s identity)

/-- What has been handed on stays so when a call is made. -/
theorem handed_call (c : LinkCall) :
    (s.call c).handed = s.handed ++ (c.sent.map fun sent => sent.2.seqNo).toList := by
  unfold handed call
  rw [filterMap_append]
  cases h : c.sent <;> simp [h]

/-- A call hands on the report it carries. -/
theorem sends_call (c : LinkCall)
    (h : ∀ x ∈ given, ∃ sent, c.sent = some sent ∧ sent.2.seqNo = x.1) : Sends s (s.call c) given :=
  { Sends.refl s with
    accounted := fun record hr => by
      rcases hr with hr | hr | hr
      · exact .inl hr
      · refine .inr (.inl ?_)
        rw [handed_call]
        exact mem_append_left _ hr
      · exact .inr (.inr hr)
    settled := fun x hx => by
      obtain ⟨sent, hsent, hx⟩ := h x hx
      refine .inr (.inl ?_)
      rw [handed_call, hsent]
      simp [hx]
    held := fun e he => .inl he
    oldest_given := fun o ho => .inl ho
    calls := prefix_append _ _ }

/-- A call that carries no report loses none. -/
theorem sends_call_nil (c : LinkCall) : Sends s (s.call c) [] :=
  sends_call s c nofun

/-- Reports are dropped. -/
theorem sends_drop (records : List Int) (h : ∀ x ∈ given, x.1 ∈ records) : Sends s (s.drop records) given :=
  { Sends.refl s with
    accounted := fun record hr => by
      rcases hr with hr | hr | hr
      · exact .inl hr
      · exact .inr (.inl hr)
      · exact .inr (.inr (mem_append_left _ hr))
    settled := fun x hx => .inr (.inr (mem_append_right _ (h x hx)))
    held := fun e he => .inl he
    oldest_given := fun o ho => .inl ho
    dropped := prefix_append _ _ }

end

/-- A report for a session that is connected nowhere is dropped. -/
theorem sends_reportDroppedUnbound (config : SequencerConfig) (s : ReportPath)
    (identity : SessionIdentity) (erSeqNo record : Int) (position : Option EngineReportPosition) :
    Sends s (s.reportDroppedUnbound config identity erSeqNo record) [(record, position)] := by
  have h₁ : Sends s { s with
      sessions := s.sessions.reportDroppedUnbound identity
        (config.expectsNoSessionFor identity.compId) } [] :=
    sends_sessions { Frame.refl s with }
  have h₂ := sends_call_nil { s with
    sessions := s.sessions.reportDroppedUnbound identity (config.expectsNoSessionFor identity.compId) }
    (.reportDroppedUnbound identity erSeqNo)
  exact (h₁.trans h₂).trans (sends_drop _ _ (by simp))

/-- A report is held for its session, over older ones that are dropped. -/
theorem sends_holdForUnannouncedSession (s : ReportPath) (p : Pending) (hid : p.identity.empty = false) :
    Sends s (s.holdForUnannouncedSession config p) [(p.logSeqNo, p.position)] := by
  -- What is held and what is dropped, before the calls that say so.
  obtain ⟨kept, hkept⟩ : ∃ kept, kept = s.reports.heldReports.hold p.identity
    (HeldReport.encode p).size (HeldReport.encode p) := ⟨_, rfl⟩
  have hold : Sends s ({ s with
          reports := { s.reports with
            heldReports := kept.1
            heldReportsOldestPosition :=
              older s.reports.heldReportsOldestPosition p.position
            reportsHeldSinceSessionsKnown := true } }.drop (kept.2.map HeldReport.logSeqNo))
      [(p.logSeqNo, p.position)] :=
    { Sends.refl s with
      accounted := fun record hr => by
        rcases hr with hr | hr | hr
        · obtain ⟨e, he, rfl⟩ := mem_map.mp hr
          rcases ReportsHeld.mem_held_hold he with he | he
          · exact .inl (mem_map_of_mem (hkept ▸ he))
          · exact .inr (.inr (mem_append_right _ (mem_map_of_mem (hkept ▸ he))))
        · exact .inr (.inl hr)
        · exact .inr (.inr (mem_append_left _ hr))
      settled := fun x hx => by
        obtain rfl := mem_singleton.mp hx
        rcases ReportsHeld.mem_held_hold_self s.reports.heldReports p.identity
          (HeldReport.encode p).size (HeldReport.encode p) with he | he
        · exact .inl (mem_map.mpr ⟨_, hkept ▸ he, rfl⟩)
        · exact .inr (.inr (mem_append_right _ (mem_map.mpr ⟨_, hkept ▸ he, rfl⟩)))
      held := fun e he => by
        rcases ReportsHeld.of_mem_held_hold (hkept ▸ he) with he | rfl
        · exact .inl he
        · exact .inr ⟨hid, mem_singleton_self _⟩
      oldest := fun hold e he q hq => by
        rcases ReportsHeld.of_mem_held_hold (hkept ▸ he) with he | rfl
        · exact (hold e he q hq).older _
        · have hpos : p.position = some q := hq
          simp only [drop, hpos]
          exact bounds_older _ q
      oldest_given := fun o ho => (eq_of_older ho).imp_right fun hp =>
        ⟨_, mem_singleton_self _, hp⟩
      gateways := fun h => h
      dropped := prefix_append _ _ }
  unfold holdForUnannouncedSession
  simp only [← hkept]
  -- The calls carry no report, and the order of a call and a drop does not matter.
  split
  · exact hold.trans (sends_call_nil _ _)
  · exact (hold.trans (sends_call_nil _ _)).trans (sends_call_nil _ _)

/-- Reports can be sent to the gateway: it is connected, or not one that reports are held for. -/
def Reaches (config : SequencerConfig) (s : ReportPath) (gateway : GatewayKey) : Prop :=
  s.leading = true → gateway ∈ config.gateways → s.reports.connectionFor gateway ≠ none
  deriving Decidable

/-- A report is handed to the connection of its gateway, or dropped. -/
theorem sends_sendToGateway {gateway : GatewayKey} (h : Reaches config s gateway) (erSeqNo : Int)
    (envelope : ReportEnvelope) (isNewOrderAck : Bool) (hgiven : ∀ x ∈ given, x.1 = envelope.seqNo) :
    Sends s (s.sendToGateway config gateway erSeqNo envelope isNewOrderAck) given := by
  unfold sendToGateway
  split
  · have hcall : ∀ connection, Sends s (s.call (.sendReport connection erSeqNo envelope)) given :=
      fun connection => sends_call s _ fun x hx => ⟨_, rfl, (hgiven x hx).symm⟩
    split
    · exact ((hcall _).trans (sends_call_nil _ _)).of_mem (by simp)
    · exact hcall _
  · rename_i hnone
    rw [if_neg fun hheld => h hheld.1 hheld.2 hnone]
    exact (sends_call_nil s _).trans (sends_drop _ _ fun x hx => by simp [hgiven x hx])

/-- Reports for the session can be sent to where it is bound, if it is. -/
def Connected (config : SequencerConfig) (s : ReportPath) (identity : SessionIdentity) : Prop :=
  ∀ destination ∈ s.sessions.destinations identity,
    Reaches config s (identity.protocol, destination.instanceId)
  deriving Decidable

/-- **A report that waited is handed on, held for its session or dropped.** -/
theorem sends_deliver {p : Pending} (hid : p.identity.empty = false) (h : Connected config s p.identity) :
    Sends s (s.deliver config p) [(p.logSeqNo, p.position)] := by
  unfold deliver
  rw [if_neg (by simp [hid])]
  split
  · rename_i destination hd
    have hsend : Sends s _ [(p.logSeqNo, p.position)] := sends_sendToGateway (h destination hd) p.seqNo
      (envelopeOf p destination) p.isNewOrderAck (by simp [envelopeOf])
    exact (hsend.trans (sends_reportForwarded _ p.identity)).trans (sends_orderEnded _ _ _)
  · split
    · exact (sends_holdForUnannouncedSession s p hid).trans (sends_orderEnded _ _ _)
    · exact (sends_reportDroppedUnbound config s p.identity p.seqNo p.logSeqNo p.position).trans
        (sends_orderEnded _ _ _)

variable {identity : SessionIdentity}

/-- Sending reports leaves the connections of the sessions. -/
theorem Sends.connected (h : Sends s t given) (hc : Connected config s identity) :
    Connected config t identity := by
  intro destination hd hl hg
  rw [h.destinations] at hd
  rw [h.leading] at hl
  unfold connectionFor
  rw [h.connections]
  exact hc destination hd hl hg

/-- **The reports of a list are handed on, held for their sessions or dropped.** -/
theorem sends_deliverAll {ps : List Pending}
    (h : ∀ p ∈ ps, p.identity.empty = false ∧ Connected config s p.identity) :
    Sends s (s.deliverAll config ps) (ps.map fun p => (p.logSeqNo, p.position)) := by
  induction ps generalizing s with
  | nil => exact .refl s
  | cons p ps ih =>
    have hp := h p (mem_cons_self ..)
    have hfirst := sends_deliver hp.1 hp.2
    have hrest := ih (s := s.deliver config p) fun q hq =>
      ⟨(h q (mem_cons_of_mem _ hq)).1, hfirst.connected (h q (mem_cons_of_mem _ hq)).2⟩
    exact hfirst.trans hrest

/-! ## Every report handled is waiting, held, handed on or dropped -/

/-- What has been handed on or dropped stays so. -/
def Grows (s t : ReportPath) : Prop := s.calls <+: t.calls ∧ s.dropped <+: t.dropped

/-- No report is handled, and no record written. -/
structure Quiet (s t : ReportPath) : Prop where
  seen : t.seen = s.seen
  stamps : t.stamps = s.stamps
  latest : t.reports.latestReportSeen = s.reports.latestReportSeen
  grows : Grows s t

theorem Quiet.refl (s : ReportPath) : Quiet s s := ⟨rfl, rfl, rfl, prefix_refl _, prefix_refl _⟩

theorem Quiet.trans {u : ReportPath} (h₁ : Quiet s t) (h₂ : Quiet t u) : Quiet s u :=
  ⟨h₂.seen.trans h₁.seen, h₂.stamps.trans h₁.stamps, h₂.latest.trans h₁.latest,
    h₁.grows.1.trans h₂.grows.1, h₁.grows.2.trans h₂.grows.2⟩

theorem Frame.quiet (h : Frame s t) : Quiet s t := ⟨h.seen, h.stamps, h.latest, h.calls, h.dropped⟩

/-- **What is true of the reports handled**, but for those in hand, which are being sent. -/
structure SoundBut (s : ReportPath) (inHand : List (Int × Option EngineReportPosition)) : Prop where
  numbered : ∀ x ∈ s.seen, x.1 ≤ s.lastSeqNo
  nodup : (s.seen.map Prod.fst).Nodup
  inHand_seen : ∀ x ∈ inHand, x ∈ s.seen
  pending_seen : ∀ w ∈ s.reports.pending, w.2.identity.empty = false ∧ (w.2.logSeqNo, w.2.position) ∈ s.seen
  held_seen : ∀ e ∈ s.reports.heldReports.held, e.identity.empty = false ∧
    (e.record.logSeqNo, e.record.position) ∈ s.seen
  conserved : ∀ x ∈ s.seen, x.1 ∈ s.recordsWaiting ∨ s.Accounted x.1 ∨ x ∈ inHand
  oldest : s.OldestHeld
  oldest_seen : ∀ o, s.reports.heldReportsOldestPosition = some o → ∃ n, (n, some o) ∈ s.seen
  gateways : s.NoneHeldForGateways

/-- Nothing is in hand. -/
abbrev Sound (s : ReportPath) : Prop := s.SoundBut []

/-- What is true of the reports handled, and none was handled since an earlier state. -/
structure SoundSince (s₀ s : ReportPath) (inHand : List (Int × Option EngineReportPosition)) : Prop extends
    SoundBut s inHand, Quiet s₀ s

variable {inHand left : List (Int × Option EngineReportPosition)} {s₀ : ReportPath}

/-- Nothing has happened since. -/
theorem SoundBut.now (h : s.SoundBut inHand) : SoundSince s s inHand := { h, Quiet.refl s with }

/-- Reports that were handled are sent; those in hand may be among them. -/
theorem SoundSince.sends (h : SoundSince s₀ s inHand) (hs : Sends s t given)
    (hgiven : ∀ x ∈ given, x ∈ s.seen) (hleft : ∀ x ∈ inHand, x ∈ given ∨ x ∈ left)
    (hsub : ∀ x ∈ left, x ∈ inHand) : SoundSince s₀ t left :=
  { h.toQuiet.trans hs.quiet with
    numbered := by
      rw [hs.seen, hs.lastSeqNo]
      exact h.numbered
    nodup := by
      rw [hs.seen]
      exact h.nodup
    inHand_seen := fun x hx => by
      rw [hs.seen]
      exact h.inHand_seen x (hsub x hx)
    pending_seen := by
      rw [hs.pending, hs.seen]
      exact h.pending_seen
    held_seen := fun e he => by
      rw [hs.seen]
      rcases hs.held e he with he | ⟨hid, hx⟩
      · exact h.held_seen e he
      · exact ⟨hid, hgiven _ hx⟩
    conserved := fun x hx => by
      rw [hs.seen] at hx
      unfold recordsWaiting
      rw [hs.pending]
      rcases h.conserved x hx with hw | ha | hin
      · exact .inl hw
      · exact .inr (.inl (hs.accounted x.1 ha))
      · rcases hleft x hin with hg | hl
        · exact .inr (.inl (hs.settled x hg))
        · exact .inr (.inr hl)
    oldest := hs.oldest h.oldest
    oldest_seen := fun o ho => by
      rw [hs.seen]
      rcases hs.oldest_given o ho with ho | ⟨x, hx, hxo⟩
      · exact h.oldest_seen o ho
      · exact ⟨x.1, hxo ▸ hgiven x hx⟩
    gateways := hs.gateways h.gateways }

/-- Nothing that was handled is sent. -/
theorem SoundSince.sends_nil (h : SoundSince s₀ s inHand) (hs : Sends s t []) : SoundSince s₀ t inHand :=
  h.sends hs nofun (fun _ hx => .inr hx) fun _ hx => hx

/-- The reports that wait for records up to one can be sent to where their sessions are bound. -/
def CommitsWhereConnected (config : SequencerConfig) (s : ReportPath) (through : Int) : Prop :=
  ∀ w ∈ s.reports.pending, w.1 ≤ through → Connected config s w.2.identity
  deriving Decidable

/-- **A commit sends the reports it covers**, and they wait no more. -/
theorem SoundSince.deliverCommittedThrough (h : SoundSince s₀ s inHand) {through : Int}
    (hc : CommitsWhereConnected config s through) :
    SoundSince s₀ (s.deliverCommittedThrough config through) inHand := by
  unfold ReportPath.deliverCommittedThrough
  obtain ⟨covered, hcovered⟩ :
    ∃ covered, covered = s.reports.pending.takeWhile fun w => decide (w.1 ≤ through) := ⟨_, rfl⟩
  simp only [← hcovered]
  have hmem : ∀ w ∈ covered, w ∈ s.reports.pending ∧ w.1 ≤ through := fun w hw => by
    rw [hcovered] at hw
    exact ⟨takeWhile_sublist _ |>.subset hw, by simpa using mem_takeWhile_imp hw⟩
  have hsends : Sends s (s.deliverAll config (covered.map Prod.snd))
      ((covered.map Prod.snd).map fun p => (p.logSeqNo, p.position)) :=
    sends_deliverAll fun p hp => by
      obtain ⟨w, hw, rfl⟩ := mem_map.mp hp
      have hw' := hmem w hw
      exact ⟨(h.pending_seen w hw'.1).1, hc w hw'.1 hw'.2⟩
  have hgiven : ∀ x ∈ (covered.map Prod.snd).map (fun p => (p.logSeqNo, p.position)), x ∈ s.seen := by
    intro x hx
    obtain ⟨p, hp, rfl⟩ := mem_map.mp hx
    obtain ⟨w, hw, rfl⟩ := mem_map.mp hp
    exact (h.pending_seen w (hmem w hw).1).2
  have hsound := h.sends hsends hgiven (fun _ hx => .inr hx) fun _ hx => hx
  -- What is left to wait are the reports behind those covered.
  have hsplit : s.reports.pending = covered ++ s.reports.pending.dropWhile fun w =>
    decide (w.1 ≤ through) := by
    rw [hcovered]
    exact takeWhile_append_dropWhile.symm
  refine { hsound with pending_seen := fun w hw => ?_, conserved := fun x hx => ?_ }
  · exact hsound.pending_seen w ((dropWhile_sublist _).subset hw)
  · rcases hsound.conserved x hx with hw | ha | hin
    · obtain ⟨w, hw, hwx⟩ := mem_map.mp hw
      rw [hsends.pending, hsplit] at hw
      rcases mem_append.mp hw with hw | hw
      · have hset := hsends.settled (w.2.logSeqNo, w.2.position) (mem_map_of_mem (mem_map_of_mem hw))
        exact .inr (.inl (hwx ▸ hset))
      · refine .inl (mem_map.mpr ⟨w, ?_, hwx⟩)
        rw [hsends.pending]
        exact hw
    · exact .inr (.inl ha)
    · exact .inr (.inr hin)

/-- A commit of records. -/
theorem SoundSince.commit (h : SoundSince s₀ s inHand) {through : Int}
    (hc : CommitsWhereConnected config s through) : SoundSince s₀ (s.commit config through) inHand := by
  unfold ReportPath.commit
  split
  · have h' : SoundSince s₀ { s with committedThrough := through } inHand := { h with }
    exact h'.deliverCommittedThrough hc
  · exact h

/-- A record is written. -/
theorem SoundBut.append (h : s.SoundBut inHand) : s.append.SoundBut inHand :=
  { h with
    numbered := fun x hx => by
      have := h.numbered x hx
      simp only [ReportPath.append]
      omega }

/-- A report is handled as a record of its own, and is in hand. -/
theorem Sound.handle (h : s.Sound) (r : EngineReport) :
    (s.withReport r).SoundBut [(s.lastSeqNo + 1, r.position)] :=
  { numbered := fun x hx => by
      rcases mem_append.mp hx with hx | hx
      · exact h.append.numbered x hx
      · rw [mem_singleton.mp hx]
        exact Int.le_refl _
    nodup := by
      rw [map_append, nodup_append]
      refine ⟨h.nodup, nodup_singleton _, fun n hn m hm => ?_⟩
      obtain ⟨x, hx, rfl⟩ := mem_map.mp hn
      rw [map_singleton, mem_singleton] at hm
      have := h.numbered x hx
      omega
    inHand_seen := fun x hx => mem_append_right _ hx
    pending_seen := fun w hw => ⟨(h.pending_seen w hw).1, mem_append_left _ (h.pending_seen w hw).2⟩
    held_seen := fun e he => ⟨(h.held_seen e he).1, mem_append_left _ (h.held_seen e he).2⟩
    conserved := fun x hx => by
      rcases mem_append.mp hx with hx | hx
      · rcases h.conserved x hx with hw | ha | hin
        · exact .inl hw
        · exact .inr (.inl ha)
        · cases hin
      · exact .inr (.inr hx)
    oldest := h.oldest
    oldest_seen := fun o ho => (h.oldest_seen o ho).imp fun _ hn => mem_append_left _ hn
    gateways := h.gateways }

/-- The report in hand is sent, or held, or dropped. -/
theorem sends_sendNow (s : ReportPath) (r : EngineReport) (hid : (s.identityOf r).empty = false)
    (hreach : Reaches config t (s.gatewayOf r)) :
    Sends t (s.sendNow config r t) [(s.lastSeqNo + 1, r.position)] := by
  unfold sendNow
  split
  · exact (sends_holdForUnannouncedSession t (s.asPending r) hid).trans (sends_orderEnded _ _ _)
  · simp only
    -- Sent to its gateway, after it was counted as dropped if its session is not known.
    have hsend : ∀ u given, Sends t u given → Sends t
        (u.sendToGateway config (s.gatewayOf r) r.erSeqNo (s.walEnvelope r) r.isNewOrderAck)
        (given ++ [(s.lastSeqNo + 1, r.position)]) := fun u given hu => by
      refine hu.trans
        (sends_sendToGateway ?_ r.erSeqNo (s.walEnvelope r) r.isNewOrderAck (by simp [walEnvelope]))
      intro hl hg
      unfold connectionFor
      rw [hu.connections]
      exact hreach (hu.leading ▸ hl) hg
    split
    · have hdrop :=
        sends_reportDroppedUnbound config t (s.identityOf r) r.erSeqNo (s.lastSeqNo + 1) r.position
      exact (((hsend _ _ hdrop).trans (sends_reportForwarded _ (s.identityOf r))).trans
        (sends_orderEnded _ (s.endsOrder r) r.erSeqNo)).of_mem (by simp)
    · exact ((hsend _ _ (.refl t)).trans (sends_reportForwarded _ _)).trans (sends_orderEnded _ _ _)

/-- A commit leaves the connections. -/
theorem Reaches.commit {gateway : GatewayKey} (h : Reaches config s gateway) (through : Int) :
    Reaches config (s.commit config through) gateway := by
  unfold ReportPath.commit
  split
  · have hf := Frame.deliverCommittedThrough config { s with committedThrough := through } through
    intro hl hg
    unfold connectionFor
    rw [hf.connections]
    exact h (hf.leading ▸ hl) hg
  · exact h

/-- A report in hand waits for a record. -/
theorem SoundSince.waitForCommit {p : Pending} (h : SoundSince s₀ s [(p.logSeqNo, p.position)]) (gate : Int)
    (hid : p.identity.empty = false) :
    SoundSince s₀ { s with reports := s.reports.waitForCommit gate p } [] := by
  have hperm : ∀ w, w ∈ (s.reports.waitForCommit gate p).pending ↔
    w = (gate, p) ∨ w ∈ s.reports.pending := fun w => by
    have hsplit : w ∈ s.reports.pending ↔ w ∈ s.reports.pending.takeWhile (fun w => decide (w.1 ≤ gate)) ∨
          w ∈ s.reports.pending.dropWhile (fun w => decide (w.1 ≤ gate)) := by
      rw [← mem_append, takeWhile_append_dropWhile]
    rw [hsplit]
    simp only [ReportForwarding.waitForCommit, mem_append, mem_cons]
    exact or_left_comm
  have hp := h.inHand_seen _ (mem_singleton_self _)
  refine { h with inHand_seen := nofun
                  pending_seen := fun w hw => ?_, conserved := fun x hx => ?_ }
  · rcases (hperm w).mp hw with rfl | hw
    · exact ⟨hid, hp⟩
    · exact h.pending_seen w hw
  · rcases h.conserved x hx with hw | ha | hin
    · obtain ⟨w, hw, hwx⟩ := mem_map.mp hw
      exact .inl (mem_map.mpr ⟨w, (hperm w).mpr (.inr hw), hwx⟩)
    · exact .inr (.inl ha)
    · rw [mem_singleton.mp hin]
      exact .inl (mem_map.mpr ⟨(gate, p), (hperm _).mpr (.inl rfl), rfl⟩)

/-- How far reports have been seen plays no part. -/
theorem SoundBut.reportSeen (h : s.SoundBut inHand) (position : Option EngineReportPosition) :
    SoundBut { s with reports := s.reports.reportSeen position } inHand := by
  unfold ReportForwarding.reportSeen
  split
  · exact h
  · exact { h with }
  · split
    · exact { h with }
    · exact h

/-- **A report from the engine is waiting, held, handed on or dropped**, once it is written. -/
theorem Sound.forwardReportFromEngine (h : s.Sound) {r : EngineReport}
    (hid : (s.identityOf r).empty = false) (hreach : Reaches config s (s.gatewayOf r)) {committed : Int}
    (hc : CommitsWhereConnected config s committed) : ∃ u, SoundSince (s.withReport r) u [] ∧
      s.forwardReportFromEngine config r committed =
        { u with reports := u.reports.reportSeen r.position } := by
  unfold ReportPath.forwardReportFromEngine
  refine ⟨_, ?_, rfl⟩
  have hsound := (h.handle r).now.commit hc
  have hreach' : Reaches config ((s.withReport r).commit config committed) (s.gatewayOf r) :=
    Reaches.commit (s := s.withReport r) hreach committed
  split
  · exact hsound.sends (sends_sendNow s r hid hreach') hsound.inHand_seen (fun x hx => .inl hx) nofun
  · exact hsound.waitForCommit (p := s.asPending r) _ hid

section

variable (h : SoundSince s₀ s [])
include h

/-- Reports held are taken out of the room, and are in hand. -/
theorem SoundSince.release {kept : ReportsHeld HeldReport}
    (hsub : ∀ e ∈ kept.held, e ∈ s.reports.heldReports.held)
    (hall : ∀ e ∈ s.reports.heldReports.held, e ∈ kept.held ∨
      (e.record.logSeqNo, e.record.position) ∈ inHand) (hin : ∀ x ∈ inHand, x ∈ s.seen) :
    SoundSince s₀
      { s with reports := { s.reports with heldReports := kept }.heldReportsLeftTheRoom } inHand :=
  { h with
    inHand_seen := hin
    held_seen := fun e he => h.held_seen e (hsub e he)
    conserved := fun x hx => by
      rcases h.conserved x hx with hw | ha | hin
      · exact .inl hw
      · rcases ha with hheld | hother
        · obtain ⟨e, he, hex⟩ := mem_map.mp hheld
          rcases hall e he with hk | hin'
          · exact .inr (.inl (.inl (mem_map.mpr ⟨e, hk, hex⟩)))
          · -- Records name reports, so the one in hand is this one.
            have heq : (e.record.logSeqNo, e.record.position) = x :=
              inj_on_of_nodup_map h.nodup (hin _ hin') hx hex
            exact .inr (.inr (heq ▸ hin'))
        · exact .inr (.inl (.inr hother))
      · cases hin
    oldest := fun e he p hp => bounds_oldest (mem_map.mpr ⟨e, he, hp⟩) none
    oldest_seen := fun o ho => by
      rcases mem_of_oldest ho with ho | ho
      · cases ho
      · obtain ⟨e, he, heo⟩ := mem_map.mp ho
        exact ⟨_, heo ▸ (h.held_seen e (hsub e he)).2⟩ }

/-- The reports in hand when those held for a session are released. -/
def releasedFor (s : ReportPath) (identity : SessionIdentity) : List (Int × Option EngineReportPosition) :=
  (s.reports.heldReports.release identity).2.map fun h => (h.logSeqNo, h.position)

/-- Releasing the reports held for a session. -/
theorem SoundSince.releasedFor (identity : SessionIdentity) : SoundSince s₀ { s with reports :=
          { s.reports with
            heldReports := (s.reports.heldReports.release identity).1 }.heldReportsLeftTheRoom }
      (s.releasedFor identity) := by
  refine h.release (fun e he => ?_) (fun e he => ?_) fun x hx => ?_
  · rw [ReportsHeld.held_release] at he
    exact (mem_filter.mp he).1
  · by_cases hid : e.identity = identity
    · exact .inr (mem_map_of_mem (mem_map_of_mem (mem_filter.mpr ⟨he, by simpa using hid⟩)))
    · rw [ReportsHeld.held_release]
      exact .inl (mem_filter.mpr ⟨he, by simpa using hid⟩)
  · obtain ⟨r, hr, rfl⟩ := mem_map.mp hx
    obtain ⟨e, he, rfl⟩ := mem_map.mp hr
    exact (h.held_seen e (mem_filter.mp he).1).2

/-- **The reports held for a session that is bound are sent.** -/
theorem SoundSince.sendHeldForSession (hid : identity.empty = false)
    (hc : (∃ e ∈ s.reports.heldReports.held, e.identity = identity) → Connected config s identity) :
    SoundSince s₀ (s.sendHeldForSession config identity) [] := by
  unfold ReportPath.sendHeldForSession
  simp only
  split
  · exact h
  · rename_i hsome
    have hheld : ∃ e ∈ s.reports.heldReports.held, e.identity = identity := by
      rw [List.isEmpty_iff] at hsome
      obtain ⟨r, hr⟩ := exists_mem_of_ne_nil _ hsome
      obtain ⟨e, he, -⟩ := mem_map.mp hr
      exact ⟨e, (mem_filter.mp he).1, by simpa using (mem_filter.mp he).2⟩
    have hrel := h.releasedFor identity
    have hmap : s.releasedFor identity = ((s.reports.heldReports.release identity).2.map
        (HeldReport.decode identity)).map fun p => (p.logSeqNo, p.position) := by
      simp [ReportPath.releasedFor, HeldReport.decode, Function.comp_def]
    refine SoundSince.sends_nil ?_ (sends_call_nil _ _)
    refine hrel.sends (sends_deliverAll fun p hp => ?_) (fun x hx => hrel.inHand_seen x (hmap ▸ hx))
      (fun x hx => .inl (hmap ▸ hx)) nofun
    obtain ⟨r, -, rfl⟩ := mem_map.mp hp
    exact ⟨hid, hc hheld⟩

/-- The reports held for a session that logs on are left to its request. -/
theorem SoundSince.releaseHeldForSession (identity : SessionIdentity) :
    SoundSince s₀ (s.releaseHeldForSession identity) [] := by
  unfold ReportPath.releaseHeldForSession
  simp only
  split
  · exact h
  · have hrel := h.releasedFor identity
    have hdrop : ∀ u : ReportPath, Sends u (u.drop ((s.reports.heldReports.release identity).2.map
        HeldReport.logSeqNo)) (s.releasedFor identity) := fun u => sends_drop u _ fun x hx => by
      obtain ⟨r, hr, rfl⟩ := mem_map.mp hx
      exact mem_map_of_mem hr
    exact (hrel.sends_nil (sends_call_nil _ _)).sends (hdrop _) hrel.inHand_seen (fun x hx => .inl hx) nofun

/-- Every report held for a session is taken out of the room. -/
theorem SoundSince.discard : SoundSince s₀ { s with reports :=
          { s.reports with heldReports := s.reports.heldReports.discardAll }.heldReportsLeftTheRoom }
      (s.reports.heldReports.held.map fun e => (e.record.logSeqNo, e.record.position)) := by
  refine h.release (fun e he => ?_) (fun e he => .inr (mem_map_of_mem he)) fun x hx => ?_
  · rw [ReportsHeld.held_discardAll] at he
    cases he
  · obtain ⟨e, he, rfl⟩ := mem_map.mp hx
    exact (h.held_seen e he).2

omit h in
/-- Reports held for sessions that are connected nowhere are dropped one after another. -/
theorem sends_reportDroppedUnbound_foldl (s : ReportPath) (entries : List (HeldEntry HeldReport)) :
    Sends s (entries.foldl (fun (t : ReportPath) e =>
          t.reportDroppedUnbound config e.identity e.record.seqNo e.record.logSeqNo) s)
      (entries.map fun e => (e.record.logSeqNo, e.record.position)) := by
  induction entries generalizing s with
  | nil => exact .refl s
  | cons e entries ih =>
    exact (sends_reportDroppedUnbound config s e.identity e.record.seqNo e.record.logSeqNo
      e.record.position).trans (ih _)

/-- **Every gateway has announced its sessions**: the reports still held are dropped. -/
theorem SoundSince.dropHeldReports : SoundSince s₀ (s.dropHeldReports config) [] := by
  unfold ReportPath.dropHeldReports
  have h' : SoundSince s₀ { s with
      reports := { s.reports with reportsHeldSinceSessionsKnown := false } } [] := { h with }
  simp only
  split
  · exact h'
  · have hrel := h'.discard
    refine SoundSince.sends_nil ?_ (sends_call_nil _ _)
    exact hrel.sends (sends_reportDroppedUnbound_foldl _ _) hrel.inHand_seen (fun x hx => .inl hx) nofun

/-- A gateway announces its sessions. -/
theorem SoundSince.sessionsAnnounced (gateway : GatewayKey) (link : ConnectionID) :
    SoundSince s₀ (s.sessionsAnnounced config gateway link) [] := by
  unfold ReportPath.sessionsAnnounced
  have h' : SoundSince s₀ { s with reports := { s.reports with
      announcements := Function.update s.reports.announcements gateway (some link) } } [] := { h with }
  split
  · simp only
    split
    · exact h'.dropHeldReports
    · exact h'
  · exact h

/-- A gateway is connected: nothing is held for it. -/
theorem SoundSince.gatewayConnected (gateway : GatewayKey) (connection : ConnectionID) :
    SoundSince s₀ (s.gatewayConnected gateway connection) [] := by
  unfold ReportPath.gatewayConnected
  simp only [ReportsHeld.takeAll, h.gateways gateway, isEmpty_nil, if_true]
  exact { h with }

/-- The sequencer ceases to lead: the reports held are discarded. -/
theorem SoundSince.stoppedLeading : SoundSince s₀ (s.stoppedLeading config) [] := by
  have hrel := h.discard
  have hnone : SoundSince s₀ { s with
        reports := { s.reports with
          heldReports := s.reports.heldReports.discardAll
          reportsHeldSinceSessionsKnown := false
          heldForGateways := fun gateway => (s.reports.heldForGateways gateway).discardAll
          gatewaysHoldingReports := [] }.heldReportsLeftTheRoom }
      (s.reports.heldReports.held.map fun e => (e.record.logSeqNo, e.record.position)) :=
    { hrel with gateways := fun gateway => ReportsHeld.held_discardAll _ }
  refine hnone.sends (sends_drop _ _ fun x hx => ?_) hnone.inHand_seen (fun x hx => .inl hx) nofun
  obtain ⟨e, he, rfl⟩ := mem_map.mp hx
  exact mem_append_left _ (mem_map_of_mem he)

omit h in
/-- The reports that a member missed are sent from the WAL. -/
theorem sends_undelivered (s : ReportPath) (identity : SessionIdentity) (u : Undelivered)
    (hreach : Reaches config s (identity.protocol, u.destination.instanceId))
    (records : List ReportEnvelope) :
    Sends s (records.foldl (fun (t : ReportPath) r =>
          t.sendToGateway config (identity.protocol, u.destination.instanceId) 0
            (undeliveredEnvelope identity u r) false) s) [] := by
  induction records generalizing s with
  | nil => exact .refl s
  | cons r records ih =>
    have hfirst : Sends s (s.sendToGateway config (identity.protocol, u.destination.instanceId) 0
        (undeliveredEnvelope identity u r) false) [] :=
      sends_sendToGateway hreach 0 _ false nofun
    refine hfirst.trans (ih _ ?_)
    intro hl hg
    unfold connectionFor
    rw [hfirst.connections]
    exact hreach (hfirst.leading ▸ hl) hg

/-- A session is announced again, or logs on. -/
theorem SoundSince.handleSessionBound {destination : SessionDestination}
    (hc : (∃ e ∈ s.reports.heldReports.held, e.identity = identity) →
      Reaches config s (identity.protocol, destination.instanceId)) (stillConnected resetSeqNums : Bool) :
    SoundSince s₀ (s.handleSessionBound config identity destination stillConnected resetSeqNums) [] := by
  unfold ReportPath.handleSessionBound
  split
  · exact h
  · rename_i hid
    have hbind : SoundSince s₀ { s with
        sessions := (s.sessions.bind identity destination stillConnected).1 } [] := { h with }
    have hconnected : (∃ e ∈ s.reports.heldReports.held, e.identity = identity) → Connected config
        { s with sessions := (s.sessions.bind identity destination stillConnected).1 } identity := by
      intro hheld d hd
      simp only [MemberSessions.bind, Function.update_self, mem_def, some.injEq] at hd
      rw [← hd]
      exact hc hheld
    have hsend := hbind.sendHeldForSession (by simpa using hid) hconnected
    split
    · exact hsend
    · split
      · exact { hbind.releaseHeldForSession identity with }
      · exact { hsend with }

/-- The gateway of a member asks for the reports that it missed. -/
theorem SoundSince.handleUndeliveredReportsRequest (hc : Connected config s identity) :
    SoundSince s₀ (s.handleUndeliveredReportsRequest config identity) [] := by
  unfold ReportPath.handleUndeliveredReportsRequest
  split
  · simp only
    have htaken : SoundSince s₀ { s with sessions := (s.sessions.takeUndelivered identity).1 } [] :=
      { h with }
    split
    · exact htaken
    · rename_i u hu
      refine htaken.sends_nil (sends_undelivered _ identity u ?_ _)
      -- The range is for where the session is bound.
      have hd : s.sessions.destinations identity = some u.destination := by
        unfold MemberSessions.takeUndelivered at hu
        split at hu
        · rename_i state destination _ hdest
          split at hu
          · cases hu
          · simp only at hu
            split at hu
            · cases hu
            · cases hu
              exact hdest
        · cases hu
      exact hc u.destination hd
  · exact h

end

/-- **What a step sends goes to a gateway that is connected**, or to none that reports are held for;
and a report names its session. -/
def SendsWhereConnected (config : SequencerConfig) (s : ReportPath) : ReportAction → Prop
  | .command _ committed => CommitsWhereConnected config s committed
  | .report r committed => (s.identityOf r).empty = false ∧ Reaches config s (s.gatewayOf r) ∧
      CommitsWhereConnected config s committed
  | .commit through => CommitsWhereConnected config s through
  | .sessionBound identity destination _ _ =>
    (∃ e ∈ s.reports.heldReports.held, e.identity = identity) →
      Reaches config s (identity.protocol, destination.instanceId)
  | .undeliveredReportsRequest identity => Connected config s identity
  | .waitForFollower _ | .sessionUnbound .. | .sequenceUpdate .. | .sessionsAnnounced ..
  | .gatewayConnected .. | .connectionLost _ | .stopLeading => True

instance (s : ReportPath) (a : ReportAction) : Decidable (SendsWhereConnected config s a) := by
  unfold SendsWhereConnected
  split <;> infer_instance

/-- A command is written. -/
theorem Sound.writeCommand (h : s.Sound) {committed : Int} (hc : CommitsWhereConnected config s committed)
    (origin : Option OriginSession) : SoundSince s.append (s.writeCommand config origin committed) [] := by
  have hcommit : SoundSince s.append (s.append.commit config committed) [] := h.append.now.commit hc
  unfold ReportPath.writeCommand
  split
  · exact hcommit
  · exact { hcommit with }

/-- **What every step does**: a command or a report is written, or no report is handled. -/
theorem Sound.step_cases (h : s.Sound) {a : ReportAction} (hc : SendsWhereConnected config s a)
    (ht : step config s a = some t) :
    SoundSince s t [] ∨ SoundSince s.append t [] ∨ ∃ r u, SoundSince (s.withReport r) u [] ∧
      t = { u with reports := u.reports.reportSeen r.position } := by
  have hs := h.now
  cases a with
  | command origin =>
    simp only [step, ite_none_right_eq_some, some.injEq] at ht
    exact .inr (.inl (ht.2 ▸ h.writeCommand hc origin))
  | report r =>
    simp only [step, ite_none_right_eq_some, some.injEq] at ht
    obtain ⟨u, hu, hr⟩ := h.forwardReportFromEngine hc.1 hc.2.1 hc.2.2
    exact .inr (.inr ⟨r, u, hu, ht.2 ▸ hr⟩)
  | commit =>
    simp only [step, ite_none_right_eq_some, some.injEq] at ht
    exact .inl (ht.2 ▸ hs.commit hc)
  | waitForFollower | sequenceUpdate | connectionLost | sessionUnbound =>
    exact .inl (some.inj ht ▸ { hs with })
  | sessionBound identity destination stillConnected resetSeqNums =>
    exact .inl (some.inj ht ▸ hs.handleSessionBound hc stillConnected resetSeqNums)
  | undeliveredReportsRequest =>
    exact .inl (some.inj ht ▸ hs.handleUndeliveredReportsRequest hc)
  | sessionsAnnounced gateway link =>
    exact .inl (some.inj ht ▸ hs.sessionsAnnounced gateway link)
  | gatewayConnected gateway connection =>
    simp only [step, ite_none_left_eq_some, some.injEq] at ht
    exact .inl (ht.2 ▸ hs.gatewayConnected gateway connection)
  | stopLeading =>
    simp only [step, ite_none_right_eq_some, some.injEq] at ht
    exact .inl (ht.2 ▸ { hs.stoppedLeading with })

/-! ## What the position says -/

/-- A report that waits or is held for its session stands at or after the oldest waiting. -/
theorem Sound.bounds_oldestWaiting (h : s.Sound) {p : EngineReportPosition} :
    ((∃ w ∈ s.reports.pending, w.2.position = some p) ∨
      ∃ e ∈ s.reports.heldReports.held, e.record.position = some p) →
      Bounds s.reports.oldestWaiting p := by
  rintro (⟨w, hw, hp⟩ | ⟨e, he, hp⟩)
  · have hmem : some p ∈ s.reports.pending.map fun w => w.2.position := mem_map.mpr ⟨w, hw, hp⟩
    exact (bounds_oldest hmem none).older _
  · obtain ⟨o, ho, hop⟩ := h.oldest e he p hp
    obtain ⟨q, hq, hqo⟩ := bounds_older (oldest none (s.reports.pending.map fun w => w.2.position)) o
    refine ⟨q, ?_, hqo.trans hop⟩
    unfold oldestWaiting
    rw [ho, hq]

/-- A report at or before the position that the leader gives is before everything that waits. -/
theorem not_bounds_of_forwardedThrough {p through : EngineReportPosition}
    (hft : s.reports.forwardedThrough = some through) (hp : p.IsBeforeOrAt through) :
    ¬ Bounds s.reports.oldestWaiting p := by
  rintro ⟨o, ho, hop⟩
  unfold forwardedThrough at hft
  rw [ho] at hft
  split at hft
  · cases hft
  · simp only [map_some, getD_some, some.injEq] at hft
    exact (hft ▸ hp).not_of_justBefore hop

/-- **What the leader says it has forwarded, it has.** -/
theorem Sound.saysWhatItForwarded (h : s.Sound) : s.SaysWhatItForwarded := by
  intro record position through hseen hft hp
  have hnot := not_bounds_of_forwardedThrough hft hp
  -- Records name reports: what waits under this record stands at this position.
  have hname : ∀ q, (record, q) ∈ s.seen → q = some position := fun q hq =>
    congrArg Prod.snd (inj_on_of_nodup_map h.nodup hq hseen rfl)
  have hpending : record ∉ s.recordsWaiting := fun hin => by
    obtain ⟨w, hw, hwr⟩ := mem_map.mp hin
    have hws := (h.pending_seen w hw).2
    rw [hwr] at hws
    exact hnot (h.bounds_oldestWaiting (.inl ⟨w, hw, hname _ hws⟩))
  have hheld : record ∉ s.recordsHeldForSessions := fun hin => by
    obtain ⟨e, he, her⟩ := mem_map.mp hin
    have hes := (h.held_seen e he).2
    rw [her] at hes
    exact hnot (h.bounds_oldestWaiting (.inr ⟨e, he, hname _ hes⟩))
  refine ⟨?_, hpending, hheld, fun gateway => ?_⟩
  · rcases h.conserved _ hseen with hw | (hheld' | hdone) | hin
    · exact absurd hw hpending
    · exact absurd hheld' hheld
    · exact hdone
    · cases hin
  · unfold recordsHeldFor
    rw [h.gateways gateway]
    exact not_mem_nil

/-! ## What the records say -/

/-- The reports were handled in the order in which the engine numbered them. -/
def InEngineOrder (s : ReportPath) : Prop :=
  (s.seen.filterMap Prod.snd).Pairwise fun p q => q.IsAfter p

/-- The report of a record was handed to a connection or dropped. -/
def Done (s : ReportPath) (record : Int) : Prop := record ∈ s.handed ∨ record ∈ s.dropped

/-- **What is true of the positions**: the latest is that of a report handled, none is after it, and
what a record says has been forwarded has been, if the reports come in order. -/
structure Dated (s : ReportPath) : Prop where
  latest_seen : ∀ l, s.reports.latestReportSeen = some l → ∃ n, (n, some l) ∈ s.seen
  seen_latest : ∀ n p, (n, some p) ∈ s.seen → ∃ l, s.reports.latestReportSeen = some l ∧ p.IsBeforeOrAt l
  stamps_latest : ∀ p, some p ∈ s.stamps → ∃ l, s.reports.latestReportSeen = some l ∧ p.IsBeforeOrAt l
  stamps_done : s.InEngineOrder → ∀ through, some through ∈ s.stamps →
    ∀ n p, (n, some p) ∈ s.seen → p.IsBeforeOrAt through → s.Done n

/-- What has been done stays done. -/
theorem Grows.done (h : Grows s t) {n : Int} (hn : s.Done n) : t.Done n := by
  rcases hn with hn | hn
  · exact .inl ((h.1.filterMap _).subset hn)
  · exact .inr (h.2.subset hn)

/-- A step that handles no report and writes no record keeps what is true of the positions. -/
theorem Dated.quiet (h : s.Dated) (hq : Quiet s t) : t.Dated :=
  { latest_seen := by
      rw [hq.latest, hq.seen]
      exact h.latest_seen
    seen_latest := by
      rw [hq.latest, hq.seen]
      exact h.seen_latest
    stamps_latest := by
      rw [hq.latest, hq.stamps]
      exact h.stamps_latest
    stamps_done := fun ho through hs n p hn hp => by
      unfold InEngineOrder at ho
      rw [hq.seen] at ho hn
      rw [hq.stamps] at hs
      exact hq.grows.done (h.stamps_done ho through hs n p hn hp) }

/-- What the leader gives next is at or before the latest report it has handled. -/
theorem Dated.forwardedThrough_latest (h : s.Dated) (hs : s.Sound) {p : EngineReportPosition}
    (hp : s.reports.forwardedThrough = some p) :
    ∃ l, s.reports.latestReportSeen = some l ∧ p.IsBeforeOrAt l := by
  unfold forwardedThrough at hp
  split at hp
  · cases hp
  · rename_i latest hlatest
    rw [hlatest]
    refine ⟨latest, rfl, ?_⟩
    cases hw : s.reports.oldestWaiting with
    | none =>
      rw [hw] at hp
      cases hp
      exact .refl _
    | some o =>
      -- The oldest that waits, or was held, was handled.
      have hseen : ∃ n, (n, some o) ∈ s.seen := by
        rcases eq_of_older hw with ho | ho
        · rcases mem_of_oldest ho with ho | ho
          · cases ho
          · obtain ⟨w, hw, hwo⟩ := mem_map.mp ho
            exact ⟨_, hwo ▸ (hs.pending_seen w hw).2⟩
        · exact hs.oldest_seen o ho
      obtain ⟨n, hn⟩ := hseen
      obtain ⟨l, hl, hol⟩ := h.seen_latest n o hn
      rw [hlatest] at hl
      cases hl
      rw [hw] at hp
      simp only [map_some, getD_some, some.injEq] at hp
      exact hp ▸ (justBefore_isBeforeOrAt o).trans hol

/-- A record is written. -/
theorem Dated.append (h : s.Dated) (hs : s.Sound) : s.append.Dated :=
  { h with
    stamps_latest := fun p hp => by
      rcases mem_append.mp hp with hp | hp
      · exact h.stamps_latest p hp
      · exact h.forwardedThrough_latest hs (mem_singleton.mp hp).symm
    stamps_done := fun ho through hp n p hn hle => by
      rcases mem_append.mp hp with hp | hp
      · exact h.stamps_done ho through hp n p hn hle
      · exact (hs.saysWhatItForwarded n p through hn (mem_singleton.mp hp).symm hle).1 }

/-- The latest report, once one more is handled: at or after that one and the latest before, and one
of the two. -/
theorem latest_reportSeen (r : ReportForwarding) (position : Option EngineReportPosition) :
    (∀ k, position = some k ∨ r.latestReportSeen = some k →
      ∃ l, (r.reportSeen position).latestReportSeen = some l ∧ k.IsBeforeOrAt l) ∧
    ∀ l, (r.reportSeen position).latestReportSeen = some l → position = some l ∨
      r.latestReportSeen = some l := by
  cases position with
  | none =>
    simp only [reportSeen]
    exact ⟨fun k hk => ⟨k, hk.resolve_left (by simp), .refl k⟩, fun l hl => .inr hl⟩
  | some p =>
    cases hl : r.latestReportSeen with
    | none =>
      simp only [reportSeen, hl]
      exact ⟨fun k hk => ⟨k, hk.resolve_right (by simp), .refl k⟩, fun l hl => .inl hl⟩
    | some latest =>
      simp only [reportSeen, hl]
      split
      · rename_i hafter
        refine ⟨fun k hk => ⟨p, rfl, ?_⟩, fun l hl => .inl hl⟩
        rcases hk with hk | hk
        · cases hk
          exact .refl p
        · cases hk
          exact IsAfter.isBeforeOrAt hafter
      · rename_i hnot
        refine ⟨fun k hk => ⟨latest, hl, ?_⟩, fun l hl' => .inr (hl ▸ hl')⟩
        rcases hk with hk | hk
        · cases hk
          exact not_not.mp hnot
        · cases hk
          exact .refl _

/-- **A report is handled**, on a record that says how far those before it were forwarded. -/
theorem Dated.reportSeen {u : ReportPath} (h : s.Dated) (hs : s.Sound) {n : Int}
    {position : Option EngineReportPosition} (hseen : u.seen = s.seen ++ [(n, position)])
    (hstamps : u.stamps = s.stamps ++ [s.reports.forwardedThrough])
    (hlatest : u.reports.latestReportSeen = s.reports.latestReportSeen) (hg : Grows s u) :
    Dated { u with reports := u.reports.reportSeen position } := by
  have ha := h.append hs
  -- A report that comes in order is after everything that a record says.
  have hafter : u.InEngineOrder → ∀ through, some through ∈ u.stamps → ∀ p, position = some p →
      ¬ p.IsBeforeOrAt through := by
    intro ho through hin p hp hle
    rw [hstamps] at hin
    obtain ⟨l, hl, hthrough⟩ := ha.stamps_latest through hin
    obtain ⟨m, hm⟩ := h.latest_seen l hl
    unfold InEngineOrder at ho
    rw [hseen, hp, filterMap_append, pairwise_append] at ho
    exact ho.2.2 l (mem_filterMap.mpr ⟨_, hm, rfl⟩) p (by simp) (hle.trans hthrough)
  have hdone : u.InEngineOrder → ∀ through, some through ∈ u.stamps →
      ∀ m p, (m, some p) ∈ u.seen → p.IsBeforeOrAt through → u.Done m := by
    intro ho through hin m p hm hle
    rw [hseen] at hm
    rcases mem_append.mp hm with hm | hm
    · have ho' : s.InEngineOrder := by
        unfold InEngineOrder at ho
        rw [hseen, filterMap_append, pairwise_append] at ho
        exact ho.1
      rw [hstamps] at hin
      exact hg.done (ha.stamps_done ho' through hin m p hm hle)
    · obtain ⟨-, hp⟩ := Prod.mk.inj (mem_singleton.mp hm)
      exact absurd hle (hafter ho through hin p hp.symm)
  obtain ⟨hle, hor⟩ := latest_reportSeen u.reports position
  refine
    { latest_seen := fun l hl => ?_
      seen_latest := fun m p hm => ?_
      stamps_latest := fun p hp => ?_
      stamps_done := hdone }
  · simp only [hseen]
    rcases hor l hl with hp | hl
    · exact ⟨n, hp ▸ mem_append_right _ (mem_singleton_self _)⟩
    · obtain ⟨m, hm⟩ := h.latest_seen l (hlatest ▸ hl)
      exact ⟨m, mem_append_left _ hm⟩
  · simp only [hseen] at hm
    rcases mem_append.mp hm with hm | hm
    · obtain ⟨l, hl, hpl⟩ := h.seen_latest m p hm
      obtain ⟨k, hk, hlk⟩ := hle l (.inr (hlatest.trans hl))
      exact ⟨k, hk, hpl.trans hlk⟩
    · obtain ⟨-, hp⟩ := Prod.mk.inj (mem_singleton.mp hm)
      exact hle p (.inl hp.symm)
  · simp only [hstamps] at hp
    obtain ⟨l, hl, hpl⟩ := ha.stamps_latest p hp
    obtain ⟨k, hk, hlk⟩ := hle l (.inr (hlatest.trans hl))
    exact ⟨k, hk, hpl.trans hlk⟩

/-- **Every step keeps account of the reports, and what is true of the positions.** -/
theorem Sound.step (hs : s.Sound) (h : s.Dated) {a : ReportAction} (hc : SendsWhereConnected config s a)
    (ht : step config s a = some t) : t.Sound ∧ t.Dated := by
  rcases hs.step_cases hc ht with hsince | hsince | ⟨r, u, hsince, rfl⟩
  · exact ⟨hsince.toSoundBut, h.quiet hsince.toQuiet⟩
  · exact ⟨hsince.toSoundBut, (h.append hs).quiet hsince.toQuiet⟩
  · exact ⟨hsince.toSoundBut.reportSeen r.position,
      h.reportSeen hs hsince.seen hsince.stamps hsince.latest hsince.grows⟩

/-! ## Every run -/

/-- A sequencer that begins to lead keeps account. -/
theorem Begins.sound (h : s.Begins) : s.Sound ∧ s.Dated := by
  have hheld : s.reports.heldReports.held = [] := by
    rw [h.heldReports]
    rfl
  constructor
  · exact
      { numbered := by simp [h.seen]
        nodup := by simp [h.seen]
        inHand_seen := by simp
        pending_seen := by simp [h.pending]
        held_seen := by simp [hheld]
        conserved := by simp [h.seen]
        oldest := by simp [OldestHeld, hheld]
        oldest_seen := by simp [h.heldReportsOldestPosition]
        gateways := fun gateway => by
          rw [h.heldForGateways gateway]
          rfl }
  · exact
      { latest_seen := by simp [h.latestReportSeen]
        seen_latest := by simp [h.seen]
        stamps_latest := by simp [h.stamps]
        stamps_done := by simp [h.stamps] }

/-- A run whose steps send where gateways are connected keeps account. -/
theorem sound_run {s₀ : ReportPath} (hb : s₀.Begins) {actions : List ReportAction}
    (hr : ((step config).restrict (SendsWhereConnected config)).run s₀ actions = some s) :
    s.Sound ∧ s.Dated := by
  have hinv : ((step config).restrict (SendsWhereConnected config)).Invariant fun s => s.Sound ∧ s.Dated := by
    intro s a t h hst
    obtain ⟨hc, hst⟩ := Machine.restrict_eq_some.mp hst
    exact h.1.step h.2 hc hst
  exact hinv.run hb.sound hr

/-- The follower is sent the reports that the leader is, in the same order: a copy it keeps is of a
report that the leader has handled, or of one after all of those. -/
def SameReports (s : ReportPath) (k : KeptReports) : Prop :=
  ∀ copy ∈ k.copies, ∀ p, copy.position = some p →
    (∃ n, (n, some p) ∈ s.seen) ∨ ∀ n q, (n, some q) ∈ s.seen → p.IsAfter q

/-- **What a follower discards, its leader has forwarded**: a copy that it discards for what records
of the leader say is of a report that the leader has handled, and has handed to a connection or
dropped. -/
def LeavesNoneUnforwarded (s : ReportPath) (k : KeptReports) : Prop :=
  ∀ copy ∈ k.copies, copy ∈ k.discardForwarded.copies ∨ ∃ record, (record, copy.position) ∈ s.seen ∧
    s.Done record

/-- A follower that has been told only what the leader's records say leaves no report unforwarded. -/
theorem Dated.leavesNoneUnforwarded (h : s.Dated) (ho : s.InEngineOrder) {k : KeptReports}
    (htold : ∀ sample ∈ k.samples, some sample.through ∈ s.stamps) (hsame : s.SameReports k) :
    s.LeavesNoneUnforwarded k := by
  intro copy hcopy
  rcases KeptReports.mem_discardForwarded hcopy with hkept | ⟨sample, hsample, p, hp, hle⟩
  · exact .inl hkept
  · refine .inr ?_
    rw [hp]
    obtain ⟨l, hl, hthrough⟩ := h.stamps_latest _ (htold sample hsample)
    obtain ⟨m, hm⟩ := h.latest_seen l hl
    rcases hsame copy hcopy p hp with ⟨n, hn⟩ | hafter
    · exact ⟨n, hn, h.stamps_done ho _ (htold sample hsample) n p hn hle⟩
    · exact absurd (hle.trans hthrough) (hafter m l hm)

/-- **What the leader says it has forwarded, it has**, in every run in which every report that it
sends goes to a gateway that is connected: a report at or before the position was handed to a
connection or dropped, and waits nowhere. A follower that is told these positions on the leader's
records discards only copies of such reports. -/
theorem forwarded_of_connected {s₀ : ReportPath} (hb : s₀.Begins) {actions : List ReportAction}
    (hr : ((step config).restrict (SendsWhereConnected config)).run s₀ actions = some s) :
    s.SaysWhatItForwarded ∧ ∀ leasePeriod driftAllowance history,
        (∀ p ∈ KeptReports.told history, some p ∈ s.stamps) → s.InEngineOrder →
          s.SameReports ((KeptReports.fresh leasePeriod driftAllowance).after history) →
            s.LeavesNoneUnforwarded ((KeptReports.fresh leasePeriod driftAllowance).after history) := by
  obtain ⟨hsound, hdated⟩ := sound_run hb hr
  refine ⟨hsound.saysWhatItForwarded, fun leasePeriod driftAllowance history htold ho hsame => ?_⟩
  refine hdated.leavesNoneUnforwarded ho (fun sample hsample => ?_) hsame
  rcases KeptReports.mem_samples_after hsample with hin | hin
  · cases hin
  · exact htold _ hin

/-! ## A run -/

/-- A sequencer that begins to lead, with an empty WAL and no gateway connected. -/
def leader : ReportPath :=
  { reports := .fresh, sessions := .fresh, leading := true, lastSeqNo := 0, committedThrough := 0
    waitsForFollower := false, written := [], stamps := [], calls := [], seen := [], dropped := [] }

theorem leader_begins : leader.Begins := by
  constructor <;> simp [leader, fresh]

/-- One gateway is configured. -/
def oneGateway : SequencerConfig :=
  { gateways := [(fixOrderGateway, firstInstance)], expectsNoSessionFor := fun _ => false
    encodedSize := fun envelope => envelope.payload.length }

/-- A member's session. -/
def member : SessionIdentity := ⟨fixOrderGateway, [77]⟩

/-- A report for the member, as the engine numbers it. -/
def reportFor (number : Int) : EngineReport :=
  { erSeqNo := 0, payload := [1], ordStatus := .new, clOrdId := none, position := some ⟨1, number⟩
    possResend := false, senderCompId := some [77], originGatewayId := none, source := .matchingEngine
    wallTimeNs := 0, leaderEpoch := 1 }

/-- The gateway is connected and announces the member's session; two reports come. -/
def connectedFirst : List ReportAction :=
  [.gatewayConnected (fixOrderGateway, firstInstance) 5, .sessionBound member ⟨firstInstance, 7⟩ true false,
    .sessionsAnnounced (fixOrderGateway, firstInstance) 5, .report (reportFor 1) 1, .report (reportFor 2) 2]

/-- A follower keeps a copy of the first report; the second record says that the leader has
forwarded it, and a later one that time has passed. -/
def toldByRecords : KeptReports :=
  (KeptReports.fresh 0 0).after
    [.keep 0 [1] (some ⟨1, 1⟩) 0, .leaderRecord 0 (some ⟨1, 1⟩), .leaderRecord 1000000000 none]

/-- Both reports are handed to the gateway's connection, the leader says so, and the follower
discards its copy of the first. -/
theorem forwarded_of_connected_two :
    ∃ s, ((step oneGateway).restrict (SendsWhereConnected oneGateway)).run leader connectedFirst = some s ∧
      s.reports.forwardedThrough = some ⟨1, 2⟩ ∧ s.handed = [1, 2] ∧ s.SaysWhatItForwarded ∧
        toldByRecords.copies ≠ [] ∧ toldByRecords.discardForwarded.copies = [] ∧
          s.LeavesNoneUnforwarded toldByRecords := by
  obtain ⟨s, hrun, hft, hhanded, hstamps, hseen⟩ := Machine.exists_run_of_any
    ((step oneGateway).restrict (SendsWhereConnected oneGateway)) leader connectedFirst
    (fun s => s.reports.forwardedThrough = some ⟨1, 2⟩ ∧ s.handed = [1, 2] ∧
      s.stamps = [none, some ⟨1, 1⟩] ∧ s.seen = [(1, some ⟨1, 1⟩), (2, some ⟨1, 2⟩)]) (by decide)
  obtain ⟨hword, hfollower⟩ := forwarded_of_connected leader_begins hrun
  refine ⟨s, hrun, hft, hhanded, hword, by decide, by decide, hfollower 0 0 _ ?_ ?_ ?_⟩
  · rw [hstamps]
    decide
  · unfold InEngineOrder
    rw [hseen]
    decide
  · intro copy hcopy p hp
    have hcopies : toldByRecords.copies = [⟨0, [1], 0, some ⟨1, 1⟩⟩] := by decide
    have hone : copy ∈ toldByRecords.copies := hcopy
    rw [hcopies, mem_singleton] at hone
    rw [hone] at hp
    cases hp
    exact .inl ⟨1, by simp [hseen]⟩

/-- The member's session is announced, and a report comes before the connection for reports to its
gateway is made. -/
def reportFirst : List ReportAction :=
  [.sessionBound member ⟨firstInstance, 7⟩ true false, .report (reportFor 1) 1]

/-- **The leader says that it has forwarded a report that it holds for its gateway**, which was
handed to no connection and was not dropped. -/
theorem says_forwarded_what_it_holds :
    ∃ s, (step oneGateway).run leader reportFirst = some s ∧ (1, some ⟨1, 1⟩) ∈ s.seen ∧
      s.reports.forwardedThrough = some ⟨1, 1⟩ ∧ s.handed = [] ∧ s.dropped = [] ∧
        s.recordsHeldFor (fixOrderGateway, firstInstance) = [1] ∧ ¬ s.SaysWhatItForwarded := by
  obtain ⟨s, hrun, hseen, hft, hhanded, hdropped, hheld⟩ := Machine.exists_run_of_any
    (step oneGateway) leader reportFirst
    (fun s => (1, some ⟨1, 1⟩) ∈ s.seen ∧ s.reports.forwardedThrough = some ⟨1, 1⟩ ∧ s.handed = [] ∧
      s.dropped = [] ∧ s.recordsHeldFor (fixOrderGateway, firstInstance) = [1]) (by decide)
  refine ⟨s, hrun, hseen, hft, hhanded, hdropped, hheld, fun hword => ?_⟩
  obtain ⟨-, -, -, hnone⟩ := hword 1 ⟨1, 1⟩ ⟨1, 1⟩ hseen hft (.refl _)
  exact hnone (fixOrderGateway, firstInstance) (by rw [hheld]; exact mem_singleton_self _)

end

end ReportPath

end PubsubVenue
