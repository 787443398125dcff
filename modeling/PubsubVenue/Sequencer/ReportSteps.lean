import PubsubVenue.Sequencer.ReportForwarding
import PubsubVenue.Machine

/-! # What the sequencer's thread does with reports

A leading sequencer writes each report that the matching engine sends as a record of its own, and
sends it to its member's gateway at once or once the record that it depends on is committed
(`SequencerThread::forward_report_from_engine`). The module has that function, the handlers of what
the gateways say about sessions, and the machine whose runs are the interleavings of all of them in
one leadership. -/

namespace PubsubVenue

/-- `OrdStatus`, as far as the sequencer tells the statuses apart. -/
inductive OrdStatus
  | new | filled | canceled | rejected | expired | doneForDay | replaced | other
  deriving DecidableEq

/-- The statuses of a report that ends its order. -/
def OrdStatus.endsOrder : OrdStatus → Bool
  | .filled | .canceled | .rejected | .expired | .doneForDay | .replaced => true
  | .new | .other => false

/-- `ReportSource`. -/
inductive ReportSource
  | matchingEngine | keptWhileNotLeading
  deriving DecidableEq

/-- A report as it comes from the matching engine, in its envelope and with the number in its
transport header. -/
structure EngineReport where
  erSeqNo : Int
  payload : Bytes
  ordStatus : OrdStatus
  clOrdId : Option Bytes
  position : Option EngineReportPosition
  possResend : Bool
  senderCompId : Option Bytes
  originGatewayId : Option Int
  source : ReportSource
  wallTimeNs : Int
  leaderEpoch : Int
  deriving DecidableEq

namespace ReportPath

variable (config : SequencerConfig) (s : ReportPath)

/-- The record after the last one is written, saying how far reports have been forwarded. -/
def append : ReportPath :=
  { s with lastSeqNo := s.lastSeqNo + 1, stamps := s.stamps ++ [s.reports.forwardedThrough] }

/-- The records up to one are committed, which the reports that wait are told (`committed_through`). -/
def commit (through : Int) : ReportPath :=
  if s.committedThrough < through then
    { s with committedThrough := through }.deliverCommittedThrough config through
  else s

section

variable (r : EngineReport)

/-- Whose report it is: the session that placed the order, or the one that the envelope names. -/
def identityOf : SessionIdentity :=
  match s.sessions.origins r.erSeqNo with
  | some origin => origin.identity
  | none =>
    match r.senderCompId.filter fun compId => !compId.isEmpty with
    | some compId => .make compId (r.originGatewayId.getD fixOrderGateway)
    | none => ⟨fixOrderGateway, []⟩

/-- Where its session is connected. -/
def destinationOf : Option SessionDestination :=
  if (s.identityOf r).empty then none else s.sessions.destinations (s.identityOf r)

/-- The gateway that the report is sent to, addressed or not. -/
def gatewayOf : GatewayKey :=
  match s.destinationOf r with
  | some destination => ((s.identityOf r).protocol, destination.instanceId)
  | none => (fixOrderGateway, firstInstance)

/-- When its order's gateway read the order. -/
def ingressOf : Option Int :=
  (s.sessions.origins r.erSeqNo).bind OriginSession.gatewayIngressNs

/-- Whether it ends the order whose session is kept. -/
def endsOrder : Bool := (s.sessions.origins r.erSeqNo).isSome && r.ordStatus.endsOrder

end

end ReportPath

/-- Whether the member may already hold the report. -/
def EngineReport.possibleRepeat (r : EngineReport) : Bool :=
  r.possResend || r.source = .keptWhileNotLeading

/-- Whether it acknowledges a new order, and is not a kept report. -/
def EngineReport.isNewOrderAck (r : EngineReport) : Bool :=
  r.source = .matchingEngine && r.ordStatus = .new

/-- The record that must be committed before the report, written as a record, goes to its gateway:
its order's, or its own if it answers no order or may be a repeat. -/
def EngineReport.gate (r : EngineReport) (record : Int) : Int :=
  if r.erSeqNo = 0 || r.possibleRepeat then record else r.erSeqNo

namespace ReportPath

variable (config : SequencerConfig) (s : ReportPath)

section

variable (r : EngineReport)

/-- The envelope of the report as it is written in the WAL. -/
def walEnvelope : ReportEnvelope :=
  { seqNo := s.lastSeqNo + 1, payload := r.payload, wallTimeNs := r.wallTimeNs
    leaderEpoch := some r.leaderEpoch
    gatewaySessionConnId := (s.destinationOf r).map SessionDestination.connId
    originGatewayId := (s.destinationOf r).map fun _ => (s.identityOf r).protocol
    gatewayInstanceId := (s.destinationOf r).map SessionDestination.instanceId
    gatewayIngressNs := s.ingressOf r
    senderCompId := if (s.identityOf r).empty then none else some (s.identityOf r).compId
    clOrdId := r.clOrdId, possResend := r.possibleRepeat, reportPosition := r.position
    answersSeqNo := if 0 < r.erSeqNo then some r.erSeqNo else none
    reportsForwardedThrough := s.reports.forwardedThrough }

/-- The report as it would wait. -/
def asPending : Pending :=
  { seqNo := r.erSeqNo, payload := r.payload, clOrdId := r.clOrdId.getD [], logSeqNo := s.lastSeqNo + 1
    position := r.position, identity := s.identityOf r, gatewayIngressNs := s.ingressOf r
    isNewOrderAck := r.isNewOrderAck, possResend := r.possibleRepeat, eraseRoutingEntry := s.endsOrder r }

/-- `send_now`, of a report found as in the state `s` and sent in the state `t`: it goes to its
gateway, unless its session is not known and it is held. -/
def sendNow (t : ReportPath) : ReportPath :=
  if (s.destinationOf r).isNone && !(s.identityOf r).empty && t.holdsFor config (s.identityOf r) then
    (t.holdForUnannouncedSession config (s.asPending r)).orderEnded (s.endsOrder r) r.erSeqNo
  else
    let u :=
      if (s.destinationOf r).isNone && !(s.identityOf r).empty then
        t.reportDroppedUnbound config (s.identityOf r) r.erSeqNo (s.lastSeqNo + 1)
      else t
    let v := u.sendToGateway config (s.gatewayOf r) r.erSeqNo (s.walEnvelope r) r.isNewOrderAck
    { v with sessions := v.sessions.reportForwarded (s.identityOf r) }.orderEnded (s.endsOrder r) r.erSeqNo

/-- A report is written as the next record. -/
abbrev withReport : ReportPath :=
  { s.append with
    written := s.written ++ [s.walEnvelope r]
    seen := s.seen ++ [(s.lastSeqNo + 1, r.position)] }

/-- **`forward_report_from_engine`**: the report is written as a record of its own, on which records
up to `committed` may be committed, and is then sent, held, dropped or waits. -/
def forwardReportFromEngine (committed : Int) : ReportPath :=
  let t := (s.withReport r).commit config committed
  let gate := r.gate (s.lastSeqNo + 1)
  let u :=
    if !t.waitsForFollower || gate ≤ t.committedThrough then s.sendNow config r t
    else { t with reports := t.reports.waitForCommit gate (s.asPending r) }
  { u with reports := u.reports.reportSeen r.position }

end

section

variable (identity : SessionIdentity)

/-- `handle_session_bound`: a session is announced again or logs on. The gateway of a FIX member
that logs on asks for the reports it missed, so those held for it are left to that. -/
def handleSessionBound (destination : SessionDestination) (stillConnected resetSeqNums : Bool) : ReportPath :=
  if identity.empty then s
  else
    let bound := s.sessions.bind identity destination stillConnected
    let t := { s with sessions := bound.1 }
    if stillConnected then t.sendHeldForSession config identity
    else
      let u :=
        if identity.protocol = fixOrderGateway then t.releaseHeldForSession identity
        else t.sendHeldForSession config identity
      { u with
        sessions :=
          (u.sessions.resume identity resetSeqNums bound.2.previousSessionDied u.leading u.lastSeqNo).1 }

/-- The record belongs to the session. -/
def belongsTo (r : ReportEnvelope) : Bool :=
  match r.senderCompId with
  | none => false
  | some compId => SessionIdentity.make compId (r.originGatewayId.getD fixOrderGateway) = identity

/-- The envelope in which a report that a member missed is sent to it. -/
def undeliveredEnvelope (u : Undelivered) (r : ReportEnvelope) : ReportEnvelope :=
  { seqNo := r.seqNo, payload := r.payload, gatewaySessionConnId := some u.destination.connId
    originGatewayId := some identity.protocol, gatewayInstanceId := some u.destination.instanceId
    gatewayIngressNs := none, senderCompId := some identity.compId, clOrdId := none
    possResend := r.possResend || u.possibleRepeat }

/-- **`handle_undelivered_reports_request`**: the reports that a member missed are sent from the
WAL. -/
def handleUndeliveredReportsRequest : ReportPath :=
  if s.leading then
    let taken := s.sessions.takeUndelivered identity
    let t := { s with sessions := taken.1 }
    match taken.2 with
    | none => t
    | some u =>
      (s.written.filter fun r =>
          u.after < r.seqNo && r.seqNo ≤ u.through && belongsTo identity r).foldl
        (fun (t : ReportPath) r =>
          t.sendToGateway config (identity.protocol, u.destination.instanceId) 0
            (undeliveredEnvelope identity u r) false) t
  else s

end

end ReportPath

/-- What happens at a leading sequencer, as far as its reports are concerned. Writing a record may
itself commit records, up to `committed`. -/
inductive ReportAction
  /-- A command is written, and the session that placed it noted. -/
  | command (origin : Option OriginSession) (committed : Int)
  /-- A report comes from the matching engine, or from those kept while following. -/
  | report (r : EngineReport) (committed : Int)
  | commit (through : Int)
  /-- The leader begins or ceases to wait for its follower. -/
  | waitForFollower (waits : Bool)
  | sessionBound (identity : SessionIdentity) (destination : SessionDestination)
    (stillConnected resetSeqNums : Bool)
  | sessionUnbound (identity : SessionIdentity) (instanceId connection : Int) (reported : Reported)
  | sequenceUpdate (identity : SessionIdentity) (reported : Reported)
  | undeliveredReportsRequest (identity : SessionIdentity)
  | sessionsAnnounced (gateway : GatewayKey) (link : ConnectionID)
  | gatewayConnected (gateway : GatewayKey) (connection : ConnectionID)
  | connectionLost (connection : ConnectionID)
  /-- The sequencer ceases to lead, for good. -/
  | stopLeading

namespace ReportPath

variable (config : SequencerConfig)

/-- A command is written. -/
def writeCommand (s : ReportPath) (origin : Option OriginSession) (committed : Int) : ReportPath :=
  let t := s.append.commit config committed
  match origin with
  | none => t
  | some o => { t with sessions := t.sessions.orderPlaced (s.lastSeqNo + 1) o }

/-- **What each thing that happens does.** Only a leader writes records, and no record is committed
that is not written. -/
def step : Machine ReportPath ReportAction
  | s, .command origin committed =>
    if s.leading ∧ committed ≤ s.lastSeqNo + 1 then some (s.writeCommand config origin committed) else none
  | s, .report r committed =>
    if s.leading ∧ committed ≤ s.lastSeqNo + 1 then some (s.forwardReportFromEngine config r committed)
    else none
  | s, .commit through => if through ≤ s.lastSeqNo then some (s.commit config through) else none
  | s, .waitForFollower waits => some { s with waitsForFollower := waits }
  | s, .sessionBound identity destination stillConnected resetSeqNums =>
    some (s.handleSessionBound config identity destination stillConnected resetSeqNums)
  | s, .sessionUnbound identity instanceId connection reported =>
    some { s with sessions := s.sessions.unbind identity instanceId connection reported }
  | s, .sequenceUpdate identity reported =>
    some { s with sessions := s.sessions.sequenceUpdate identity reported }
  | s, .undeliveredReportsRequest identity => some (s.handleUndeliveredReportsRequest config identity)
  | s, .sessionsAnnounced gateway link => some (s.sessionsAnnounced config gateway link)
  | s, .gatewayConnected gateway connection =>
    if connection = 0 then none else some (s.gatewayConnected gateway connection)
  | s, .connectionLost connection => some { s with reports := s.reports.connectionLost connection }
  | s, .stopLeading => if s.leading then some { s.stoppedLeading config with leading := false } else none

/-- **A sequencer that begins to lead**: it may know sessions and be connected to gateways, and its
WAL may hold reports, but no report has been handled in this leadership. -/
structure Begins (s : ReportPath) : Prop where
  leading : s.leading = true
  pending : s.reports.pending = []
  latestReportSeen : s.reports.latestReportSeen = none
  heldReports : s.reports.heldReports = .fresh
  heldReportsOldestPosition : s.reports.heldReportsOldestPosition = none
  heldForGateways : ∀ gateway, s.reports.heldForGateways gateway = .fresh
  written : ∀ r ∈ s.written, r.seqNo ≤ s.lastSeqNo
  stamps : s.stamps = []
  calls : s.calls = []
  seen : s.seen = []
  dropped : s.dropped = []

end ReportPath

end PubsubVenue
