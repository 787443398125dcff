import PubsubVenue.Sequencer.MemberSessions

/-! # Forwarding reports

Getting each report from the matching engine to its member's gateway (`ReportForwarding`). A report
waits until the record it depends on is committed, is held while no gateway has announced its
session, is held while there is no connection for reports to its gateway, or is handed to that
connection. The calls that the sequencer's thread supplies (`ReportForwardingLinksInterface`) are
kept in the order they are made.

A report's record number stands on everything that carries the report, and so names it: which
records were handed to a connection is read off the calls, and which were dropped is kept beside
them. -/

namespace PubsubVenue

open List

/-- A connection; zero is no connection (`ConnectionID::is_valid`). -/
abbrev ConnectionID := Nat

/-- `gateway_key`: a gateway, by protocol and instance. -/
abbrev GatewayKey := Int × Int

/-- `WalRecord` of a report: its envelope in the WAL and to a gateway. A field that is absent is
`none`. -/
structure ReportEnvelope where
  seqNo : Int
  payload : Bytes
  wallTimeNs : Int := 0
  leaderEpoch : Option Int := none
  gatewaySessionConnId : Option Int
  originGatewayId : Option Int
  gatewayInstanceId : Option Int
  gatewayIngressNs : Option Int
  senderCompId : Option Bytes
  clOrdId : Option Bytes
  possResend : Bool
  reportPosition : Option EngineReportPosition := none
  answersSeqNo : Option Int := none
  reportsForwardedThrough : Option EngineReportPosition := none
  deriving DecidableEq

/-- `ReportForwarding::Pending`: a report waiting to be sent. -/
structure Pending where
  seqNo : Int
  payload : Bytes
  clOrdId : Bytes
  logSeqNo : Int
  position : Option EngineReportPosition
  identity : SessionIdentity
  gatewayIngressNs : Option Int
  isNewOrderAck : Bool
  possResend : Bool
  eraseRoutingEntry : Bool
  deriving DecidableEq

/-- What is written into the room for a report held for an unannounced session: `HeldReportHeader`,
the report's bytes and its ClOrdID. -/
structure HeldReport where
  seqNo : Int
  logSeqNo : Int
  gatewayIngressNs : Option Int
  position : Option EngineReportPosition
  isNewOrderAck : Bool
  possResend : Bool
  payload : Bytes
  clOrdId : Bytes
  deriving DecidableEq

namespace HeldReport

/-- What is written for a report. -/
def encode (p : Pending) : HeldReport :=
  { seqNo := p.seqNo, logSeqNo := p.logSeqNo, gatewayIngressNs := p.gatewayIngressNs
    position := p.position, isNewOrderAck := p.isNewOrderAck, possResend := p.possResend
    payload := p.payload, clOrdId := p.clOrdId }

/-- The bytes it takes: `sizeof(HeldReportHeader)` is 56. -/
def size (h : HeldReport) : Nat := 56 + h.payload.length + h.clOrdId.length

/-- `decode_held_report`, for the session that the report is held for. -/
def decode (identity : SessionIdentity) (h : HeldReport) : Pending :=
  { seqNo := h.seqNo, payload := h.payload, clOrdId := h.clOrdId, logSeqNo := h.logSeqNo
    position := h.position, identity, gatewayIngressNs := h.gatewayIngressNs
    isNewOrderAck := h.isNewOrderAck, possResend := h.possResend, eraseRoutingEntry := false }

end HeldReport

/-- What is written into the room for a report held for its gateway: the number in its transport
header and its encoded envelope. -/
structure HeldEnvelope where
  erSeqNo : Int
  envelope : ReportEnvelope
  deriving DecidableEq

/-- The calls of `ReportForwardingLinksInterface` that send a report or say what became of one. -/
inductive LinkCall
  | sendReport (connection : ConnectionID) (erSeqNo : Int) (envelope : ReportEnvelope)
  | sendEncodedReport (connection : ConnectionID) (erSeqNo : Int) (envelope : ReportEnvelope)
  | acknowledgementSent (envelope : ReportEnvelope)
  | reportsHeld (identity : SessionIdentity) (gatewaysNotAnnounced : Nat)
  | heldReportsReleased (compId : Bytes) (protocol : Int) (sent dropped : Nat)
  | reportDroppedUnbound (identity : SessionIdentity) (erSeqNo : Int)
  | reportDroppedGatewayNotConnected (gateway : GatewayKey) (erSeqNo : Int)
  | reportsHeldForGateway (gateway : GatewayKey) (erSeqNo : Int)
  | reportsSentToGateway (gateway : GatewayKey) (sent dropped : Nat)
  | heldReportsDropped (total : Nat)
  deriving DecidableEq

/-- The report that a call hands to a connection. -/
def LinkCall.sent : LinkCall → Option (ConnectionID × ReportEnvelope)
  | .sendReport connection _ envelope => some (connection, envelope)
  | .sendEncodedReport connection _ envelope => some (connection, envelope)
  | _ => none

/-- **`ReportForwarding`**. A gateway that has announced its sessions is found with its link. -/
structure ReportForwarding where
  gatewayConnections : List (GatewayKey × ConnectionID)
  announcements : GatewayKey → Option ConnectionID
  pending : List (Int × Pending)
  latestReportSeen : Option EngineReportPosition
  heldReports : ReportsHeld HeldReport
  reportsHeldSinceSessionsKnown : Bool
  heldReportsOldestPosition : Option EngineReportPosition
  heldForGateways : GatewayKey → ReportsHeld HeldEnvelope
  gatewaysHoldingReports : List GatewayKey
  gatewayDroppedReported : GatewayKey → Nat

/-- What does not change while a sequencer runs: the gateways in its configuration, the comp ids
under which a test sends commands with no session, and how many bytes an envelope takes when
encoded. -/
structure SequencerConfig where
  gateways : List GatewayKey
  expectsNoSessionFor : Bytes → Bool
  encodedSize : ReportEnvelope → Nat

/-- **What of a sequencer's thread reports go through**: `reports_` and `sessions_`, whether it
leads, how far its WAL is written and committed and whether it waits for its follower, the reports
in the WAL, what the records written since it leads say that it has forwarded, the calls it has
made, the reports it has handled since it leads, by record and position, and the records of those it
has dropped. -/
structure ReportPath where
  reports : ReportForwarding
  sessions : MemberSessions
  leading : Bool
  lastSeqNo : Int
  committedThrough : Int
  waitsForFollower : Bool
  written : List ReportEnvelope
  stamps : List (Option EngineReportPosition)
  calls : List LinkCall
  seen : List (Int × Option EngineReportPosition)
  dropped : List Int

namespace ReportForwarding

/-- Nothing waits and no gateway is connected. -/
def fresh : ReportForwarding :=
  { gatewayConnections := [], announcements := fun _ => none, pending := [], latestReportSeen := none
    heldReports := .fresh, reportsHeldSinceSessionsKnown := false, heldReportsOldestPosition := none
    heldForGateways := fun _ => .fresh, gatewaysHoldingReports := []
    gatewayDroppedReported := fun _ => 0 }

section

variable (r : ReportForwarding)

/-- The connection for reports to a gateway, if there is one. -/
def connectionFor (gateway : GatewayKey) : Option ConnectionID :=
  (r.gatewayConnections.lookup gateway).filter (· ≠ 0)

/-- `gateways_not_announced`. -/
def gatewaysNotAnnounced (config : SequencerConfig) : Nat :=
  (config.gateways.dedup.filter fun gateway => (r.announcements gateway).isNone).length

/-- `wait_for_commit`: the reports that wait are in the order of the records they wait for, those
for one record in the order they came. -/
def waitForCommit (gate : Int) (p : Pending) : ReportForwarding :=
  { r with
    pending := r.pending.takeWhile (fun w => w.1 ≤ gate) ++
      (gate, p) :: r.pending.dropWhile fun w => w.1 ≤ gate }

/-- `report_seen`. -/
def reportSeen (position : Option EngineReportPosition) : ReportForwarding :=
  match position, r.latestReportSeen with
  | none, _ => r
  | some p, none => { r with latestReportSeen := some p }
  | some p, some latest => if p.IsAfter latest then { r with latestReportSeen := some p } else r

/-- The oldest position of a report that waits or is held for an unannounced session, as far as it
is kept. -/
def oldestWaiting : Option EngineReportPosition :=
  EngineReportPosition.older
    (EngineReportPosition.oldest none (r.pending.map fun w => w.2.position)) r.heldReportsOldestPosition

/-- **`forwarded_through`**: just before the oldest report that waits, or else the latest one seen. -/
def forwardedThrough : Option EngineReportPosition :=
  match r.latestReportSeen with
  | none => none
  | some latest => some ((r.oldestWaiting.map EngineReportPosition.justBefore).getD latest)

/-- `held_reports_left_the_room`: the oldest held position, worked out afresh. -/
def heldReportsLeftTheRoom : ReportForwarding :=
  { r with
    heldReportsOldestPosition :=
      EngineReportPosition.oldest none (r.heldReports.held.map fun e => e.record.position) }

/-- `connection_lost`: what was announced on the connection is not known any more, and reports go to
no gateway on it. -/
def connectionLost (connection : ConnectionID) : ReportForwarding :=
  { r with
    announcements := fun gateway =>
      if r.announcements gateway = some connection then none else r.announcements gateway
    gatewayConnections := r.gatewayConnections.eraseP fun c => c.2 = connection }

end

end ReportForwarding

namespace ReportPath

variable (config : SequencerConfig) (s : ReportPath)

/-- A call is made. -/
def call (c : LinkCall) : ReportPath := { s with calls := s.calls ++ [c] }

/-- The reports of these records are dropped. -/
def drop (records : List Int) : ReportPath := { s with dropped := s.dropped ++ records }

variable (identity : SessionIdentity)

/-- `MemberSessions::report_dropped_unbound`, for the report of a record. -/
def reportDroppedUnbound (erSeqNo record : Int) : ReportPath :=
  ({ s with
      sessions := s.sessions.reportDroppedUnbound identity (config.expectsNoSessionFor identity.compId)
    }.call (.reportDroppedUnbound identity erSeqNo)).drop [record]

/-- A report that ends its order: which session placed it is forgotten. -/
def orderEnded (ends : Bool) (seqNo : Int) : ReportPath :=
  if ends then { s with sessions := s.sessions.orderEnded seqNo } else s

variable (gateway : GatewayKey)

/-- `hold_for_gateway`, of a leader, for a gateway that is configured. -/
def holdForGateway (erSeqNo : Int) (envelope : ReportEnvelope) : ReportPath :=
  let identity := SessionIdentity.make (envelope.senderCompId.getD []) gateway.1
  let kept := (s.reports.heldForGateways gateway).hold identity (8 + config.encodedSize envelope)
    ⟨erSeqNo, envelope⟩
  let t := { s with
    reports := { s.reports with
      heldForGateways := Function.update s.reports.heldForGateways gateway kept.1
      gatewaysHoldingReports :=
        if gateway ∈ s.reports.gatewaysHoldingReports then s.reports.gatewaysHoldingReports
        else gateway :: s.reports.gatewaysHoldingReports } }
  (if gateway ∈ s.reports.gatewaysHoldingReports then t
    else t.call (.reportsHeldForGateway gateway erSeqNo)).drop (kept.2.map fun h => h.envelope.seqNo)

/-- **`send_to_gateway`**: handed to the gateway's connection or, if there is none, held by a leader
for a gateway that is configured, and dropped otherwise. -/
def sendToGateway (erSeqNo : Int) (envelope : ReportEnvelope) (isNewOrderAck : Bool) :
    ReportPath :=
  match s.reports.connectionFor gateway with
  | some connection =>
    let t := s.call (.sendReport connection erSeqNo envelope)
    if isNewOrderAck then t.call (.acknowledgementSent envelope) else t
  | none =>
    if s.leading ∧ gateway ∈ config.gateways then s.holdForGateway config gateway erSeqNo envelope
    else (s.call (.reportDroppedGatewayNotConnected gateway erSeqNo)).drop [envelope.seqNo]

/-- Whether `hold_for_unannounced_session` holds a report for a session that is connected nowhere. -/
def holdsFor : Bool :=
  s.leading && !config.expectsNoSessionFor identity.compId && s.reports.gatewaysNotAnnounced config ≠ 0

/-- `hold_for_unannounced_session`, once it holds the report. -/
def holdForUnannouncedSession (p : Pending) : ReportPath :=
  let kept := s.reports.heldReports.hold p.identity (HeldReport.encode p).size (HeldReport.encode p)
  let t := { s with
    reports := { s.reports with
      heldReports := kept.1
      heldReportsOldestPosition :=
        EngineReportPosition.older s.reports.heldReportsOldestPosition p.position
      reportsHeldSinceSessionsKnown := true } }
  ((if s.reports.reportsHeldSinceSessionsKnown then t
      else t.call (.reportsHeld p.identity (s.reports.gatewaysNotAnnounced config))).call
    (.heldReportsDropped kept.1.droppedForRoom)).drop (kept.2.map HeldReport.logSeqNo)

/-- The envelope of a report that waited, for where its session is now. -/
def envelopeOf (p : Pending) (destination : SessionDestination) : ReportEnvelope :=
  { seqNo := p.logSeqNo, payload := p.payload
    gatewaySessionConnId := some destination.connId, originGatewayId := some p.identity.protocol
    gatewayInstanceId := some destination.instanceId, gatewayIngressNs := p.gatewayIngressNs
    senderCompId := if p.identity.empty then none else some p.identity.compId
    clOrdId := if p.clOrdId.isEmpty then none else some p.clOrdId
    possResend := p.possResend }

/-- **`deliver`**: a report that waited is sent to where its session is now, or held, or dropped. -/
def deliver (p : Pending) : ReportPath :=
  if p.identity.empty then s.orderEnded p.eraseRoutingEntry p.seqNo
  else
    match s.sessions.destinations p.identity with
    | some destination =>
      let t := s.sendToGateway config (p.identity.protocol, destination.instanceId) p.seqNo
        (envelopeOf p destination) p.isNewOrderAck
      { t with sessions := t.sessions.reportForwarded p.identity }.orderEnded p.eraseRoutingEntry p.seqNo
    | none =>
      if s.holdsFor config p.identity then
        (s.holdForUnannouncedSession config p).orderEnded p.eraseRoutingEntry p.seqNo
      else
        (s.reportDroppedUnbound config p.identity p.seqNo p.logSeqNo).orderEnded p.eraseRoutingEntry p.seqNo

/-- Deliver the reports of a list one after another. -/
def deliverAll (waiting : List Pending) : ReportPath := waiting.foldl (fun t p => t.deliver config p) s

/-- **`deliver_committed_through`**: every report whose record is committed is delivered, and waits
no more. -/
def deliverCommittedThrough (committed : Int) : ReportPath :=
  let covered := s.reports.pending.takeWhile fun w => w.1 ≤ committed
  let t := s.deliverAll config (covered.map Prod.snd)
  { t with
    reports := { t.reports with pending := t.reports.pending.dropWhile fun w => w.1 ≤ committed } }

/-- **`send_held_for_session`**: the session is bound, and every report held for it is delivered. -/
def sendHeldForSession : ReportPath :=
  let released := s.reports.heldReports.release identity
  if released.2.isEmpty then s
  else
    ({ s with
        reports := { s.reports with heldReports := released.1 }.heldReportsLeftTheRoom
      }.deliverAll config (released.2.map (HeldReport.decode identity))).call
      (.heldReportsReleased identity.compId identity.protocol released.2.length 0)

/-- `release_held_for_session`: the reports held for a session that logs on are left to the reports
that its gateway asks for. -/
def releaseHeldForSession : ReportPath :=
  let released := s.reports.heldReports.release identity
  if released.2.isEmpty then s
  else
    ({ s with
        reports := { s.reports with heldReports := released.1 }.heldReportsLeftTheRoom
      }.call (.heldReportsReleased identity.compId identity.protocol 0 released.2.length)).drop
      (released.2.map HeldReport.logSeqNo)

/-- `drop_held_reports_for_sessions_connected_nowhere`. -/
def dropHeldReports : ReportPath :=
  let taken := s.reports.heldReports.takeAll
  let t := { s with reports := { s.reports with reportsHeldSinceSessionsKnown := false } }
  if taken.2.isEmpty then t
  else
    (taken.2.foldl
      (fun (t : ReportPath) e => t.reportDroppedUnbound config e.identity e.record.seqNo
        e.record.logSeqNo)
      { t with reports := { t.reports with heldReports := taken.1 }.heldReportsLeftTheRoom }).call
      (.heldReportsReleased [] 0 0 taken.2.length)

/-- **`sessions_announced`**: a gateway has announced its sessions on a link; when every one has,
the reports still held are for sessions connected nowhere. -/
def sessionsAnnounced (link : ConnectionID) : ReportPath :=
  if gateway ∈ config.gateways then
    let t := { s with
      reports := { s.reports with
        announcements := Function.update s.reports.announcements gateway (some link) } }
    if t.reports.gatewaysNotAnnounced config = 0 then t.dropHeldReports config else t
  else s

/-- **`gateway_connected`**: the connection for reports to a gateway is made, and every report held
for it is sent. -/
def gatewayConnected (connection : ConnectionID) : ReportPath :=
  let taken := (s.reports.heldForGateways gateway).takeAll
  let t := { s with
    reports := { s.reports with
      gatewayConnections :=
        (gateway, connection) :: s.reports.gatewayConnections.filter fun c => c.1 ≠ gateway
      gatewaysHoldingReports := s.reports.gatewaysHoldingReports.filter (· ≠ gateway) } }
  if taken.2.isEmpty then t
  else
    (taken.2.foldl
      (fun (t : ReportPath) e => t.call
        (.sendEncodedReport connection e.record.erSeqNo e.record.envelope))
      { t with
        reports := { t.reports with
          heldForGateways := Function.update t.reports.heldForGateways gateway taken.1
          gatewayDroppedReported :=
            Function.update t.reports.gatewayDroppedReported gateway taken.1.droppedForRoom } }).call
      (.reportsSentToGateway gateway taken.2.length
        (taken.1.droppedForRoom - s.reports.gatewayDroppedReported gateway))

/-- The records of the reports that are held, for a session or for a gateway of the configuration. -/
def recordsHeld : List Int :=
  s.reports.heldReports.held.map (fun e => e.record.logSeqNo) ++ config.gateways.flatMap fun gateway =>
      (s.reports.heldForGateways gateway).held.map fun e => e.record.envelope.seqNo

/-- **`stopped_leading`**: every report held is discarded. -/
def stoppedLeading : ReportPath :=
  { s with
    reports := { s.reports with
      heldReports := s.reports.heldReports.discardAll
      reportsHeldSinceSessionsKnown := false
      heldForGateways := fun gateway => (s.reports.heldForGateways gateway).discardAll
      gatewaysHoldingReports := [] }.heldReportsLeftTheRoom }.drop (s.recordsHeld config)

/-! ## What sending leaves alone -/

/-- **What sending, holding and dropping reports leaves alone**: which reports wait and have been
handled, the connections, where sessions are bound, and the WAL; calls made and reports dropped stay
so. -/
structure Frame (s t : ReportPath) : Prop where
  pending : t.reports.pending = s.reports.pending
  latest : t.reports.latestReportSeen = s.reports.latestReportSeen
  connections : t.reports.gatewayConnections = s.reports.gatewayConnections
  announcements : t.reports.announcements = s.reports.announcements
  destinations : t.sessions.destinations = s.sessions.destinations
  leading : t.leading = s.leading
  lastSeqNo : t.lastSeqNo = s.lastSeqNo
  committedThrough : t.committedThrough = s.committedThrough
  waits : t.waitsForFollower = s.waitsForFollower
  seen : t.seen = s.seen
  written : t.written = s.written
  stamps : t.stamps = s.stamps
  calls : s.calls <+: t.calls
  dropped : s.dropped <+: t.dropped

namespace Frame

variable {config} {s} {t u : ReportPath}

/-- Nothing happens. -/
theorem refl (s : ReportPath) : Frame s s :=
  ⟨rfl, rfl, rfl, rfl, rfl, rfl, rfl, rfl, rfl, rfl, rfl, rfl, prefix_refl _, prefix_refl _⟩

/-- One after the other. -/
theorem trans (h₁ : Frame s t) (h₂ : Frame t u) : Frame s u :=
  ⟨h₂.1.trans h₁.1, h₂.2.trans h₁.2, h₂.3.trans h₁.3, h₂.4.trans h₁.4, h₂.5.trans h₁.5, h₂.6.trans h₁.6,
    h₂.7.trans h₁.7, h₂.8.trans h₁.8, h₂.9.trans h₁.9, h₂.10.trans h₁.10, h₂.11.trans h₁.11,
    h₂.12.trans h₁.12, h₁.13.trans h₂.13, h₁.14.trans h₂.14⟩

section

variable (s : ReportPath)

theorem call (c : LinkCall) : Frame s (s.call c) :=
  { refl s with calls := prefix_append _ _ }

theorem drop (records : List Int) : Frame s (s.drop records) :=
  { refl s with dropped := prefix_append _ _ }

theorem orderEnded (ends : Bool) (seqNo : Int) : Frame s (s.orderEnded ends seqNo) := by
  unfold ReportPath.orderEnded
  split
  · exact { refl s with }
  · exact refl s

theorem reportForwarded (identity : SessionIdentity) :
    Frame s { s with sessions := s.sessions.reportForwarded identity } := by
  have hdest : (s.sessions.reportForwarded identity).destinations = s.sessions.destinations := by
    unfold MemberSessions.reportForwarded
    split <;> rfl
  exact { refl s with destinations := hdest }

end

section

variable (config : SequencerConfig) (s : ReportPath)

theorem reportDroppedUnbound (identity : SessionIdentity)
    (erSeqNo record : Int) : Frame s (s.reportDroppedUnbound config identity erSeqNo record) := by
  have hcount : Frame s { s with
      sessions := s.sessions.reportDroppedUnbound identity (config.expectsNoSessionFor identity.compId) } :=
    { refl s with }
  exact (hcount.trans (call _ _)).trans (drop _ _)

theorem holdForGateway (gateway : GatewayKey) (erSeqNo : Int)
    (envelope : ReportEnvelope) : Frame s (s.holdForGateway config gateway erSeqNo envelope) := by
  unfold ReportPath.holdForGateway
  split
  · exact { refl s with dropped := prefix_append _ _ }
  · exact { refl s with calls := prefix_append _ _, dropped := prefix_append _ _ }

/-- Sending a report to a gateway. -/
theorem sendToGateway (gateway : GatewayKey) (erSeqNo : Int) (envelope : ReportEnvelope)
    (isNewOrderAck : Bool) :
    Frame s (s.sendToGateway config gateway erSeqNo envelope isNewOrderAck) := by
  unfold ReportPath.sendToGateway
  split
  · simp only
    split
    · exact (call s _).trans (call _ _)
    · exact call s _
  · split
    · exact holdForGateway config s gateway erSeqNo envelope
    · exact (call s _).trans (drop _ _)

theorem holdForUnannouncedSession (p : Pending) : Frame s (s.holdForUnannouncedSession config p) := by
  unfold ReportPath.holdForUnannouncedSession
  split
  · exact { refl s with calls := prefix_append _ _, dropped := prefix_append _ _ }
  · exact { refl s with calls := (prefix_append _ _).trans (prefix_append _ _)
                        dropped := prefix_append _ _ }

/-- Delivering a report that waited. -/
theorem deliver (p : Pending) : Frame s (s.deliver config p) := by
  unfold ReportPath.deliver
  split
  · exact orderEnded s _ _
  · split
    · exact ((sendToGateway config s _ _ _ _).trans (reportForwarded _ _)).trans (orderEnded _ _ _)
    · split
      · exact (holdForUnannouncedSession config s p).trans (orderEnded _ _ _)
      · exact (reportDroppedUnbound config s _ _ _).trans (orderEnded _ _ _)

/-- Delivering the reports of a list. -/
theorem deliverAll (ps : List Pending) : Frame s (s.deliverAll config ps) := by
  induction ps generalizing s with
  | nil => exact refl s
  | cons p ps ih => exact (deliver config s p).trans (ih _)

/-- Delivering the reports that a commit covers, which wait no more. -/
theorem deliverCommittedThrough (committed : Int) : Frame { s with
        reports := { s.reports with pending := s.reports.pending.dropWhile fun w => w.1 ≤ committed } }
      (s.deliverCommittedThrough config committed) := by
  have h := deliverAll config s ((s.reports.pending.takeWhile fun w => decide (w.1 ≤ committed)).map Prod.snd)
  refine { h with pending := ?_ }
  simp only [ReportPath.deliverCommittedThrough, h.pending]

end

end Frame

end ReportPath

end PubsubVenue
