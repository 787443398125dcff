import PubsubVenue.Sequencer.ReportStores
import PubsubVenue.Gateway.SeqNumRanges
import Mathlib.Logic.Function.Basic

/-! # The members' sessions

Where each member's session is bound, what is remembered of a session between its connections, and
which session placed each order that is still open (`MemberSessions`). Only a leader answers a
logon; the answer settles from which record on the reports that the member missed are sent to it
(`take_undelivered`). -/

namespace PubsubVenue

/-- `SessionDestination`: a connection on a gateway instance. -/
structure SessionDestination where
  instanceId : Int
  connId : Int
  deriving DecidableEq

/-- `MemberSessions::SequenceState`: what is remembered of a session between connections. -/
structure SequenceState where
  outboundSeqNum : Int := 1
  ersSinceReport : Int := 0
  inboundSeqNum : Int := 1
  reportSeqNums : List SeqNumRange := []
  lastReportDelivered : Int := 0
  boundAtLogSeqNo : Int := 0
  deliveredFigureMayBeBehind : Bool := false
  deriving DecidableEq

/-- `MemberSessions::OriginSession`: the session that placed an order, and when its gateway read it. -/
structure OriginSession where
  identity : SessionIdentity
  gatewayIngressNs : Option Int
  deriving DecidableEq

/-- `MemberSessions::Bound`. -/
structure Bound where
  stillConnected : Bool
  previousSessionDied : Bool
  deriving DecidableEq

/-- `MemberSessions::Resume`: the numbers that a logon resumes from. -/
structure Resume where
  known : Bool
  outboundSeqNum : Int
  inboundSeqNum : Int
  reportSeqNums : List SeqNumRange
  deriving DecidableEq

/-- `MemberSessions::Undelivered`: the reports that a member missed, by their records. -/
structure Undelivered where
  after : Int
  through : Int
  possibleRepeat : Bool
  destination : SessionDestination
  deriving DecidableEq

/-- `MemberSessions::Reported`: what a gateway reports of a session. -/
structure Reported where
  outboundSeqNum : Int
  inboundSeqNum : Int
  reportSeqNums : List SeqNumRange
  lastReportDelivered : Option Int
  deriving DecidableEq

/-- **`MemberSessions`**. -/
structure MemberSessions where
  destinations : SessionIdentity → Option SessionDestination
  sequenceStates : SessionIdentity → Option SequenceState
  origins : Int → Option OriginSession
  sessionsWithReportsDropped : List SessionIdentity
  reportsDroppedUnbound : Nat

namespace MemberSessions

/-- `unclean_resume_admin_allowance`. -/
def uncleanResumeAdminAllowance : Int := 64

/-- No session is known. -/
def fresh : MemberSessions :=
  { destinations := fun _ => none, sequenceStates := fun _ => none, origins := fun _ => none,
    sessionsWithReportsDropped := [], reportsDroppedUnbound := 0 }

section

variable (m : MemberSessions) (identity : SessionIdentity)

/-- What is remembered of a session; a session of which nothing is has the defaults. -/
def sequenceState : SequenceState :=
  (m.sequenceStates identity).getD {}

/-- Remember this of a session. -/
def setSequenceState (state : SequenceState) : MemberSessions :=
  { m with sequenceStates := Function.update m.sequenceStates identity (some state) }

/-- `bind`: where the session is, and whether its previous gateway died without unbinding it. -/
def bind (destination : SessionDestination) (stillConnected : Bool) : MemberSessions × Bound :=
  ({ m with
      destinations := Function.update m.destinations identity (some destination)
      sessionsWithReportsDropped := m.sessionsWithReportsDropped.filter (· ≠ identity) },
    { stillConnected, previousSessionDied := !stillConnected && (m.destinations identity).isSome })

/-- What a reset at a logon leaves: nothing is remembered of the session. -/
def forget (resetSeqNums : Bool) : MemberSessions :=
  if resetSeqNums then { m with sequenceStates := Function.update m.sequenceStates identity none } else m

/-- **`resume`**: the numbers that a logon resumes from, which only the leader answers. After the
gateway died, the outbound number is raised by the reports forwarded since, and an allowance. -/
def resume (resetSeqNums previousSessionDied leading : Bool) (walLastSeqNo : Int) :
    MemberSessions × Option Resume :=
  let kept := m.forget identity resetSeqNums
  if leading then
    match kept.sequenceStates identity with
    | none =>
      (kept, some { known := false, outboundSeqNum := 1, inboundSeqNum := 1, reportSeqNums := [] })
    | some state =>
      let outboundSeqNum :=
        if previousSessionDied then
          state.outboundSeqNum + (state.ersSinceReport + uncleanResumeAdminAllowance)
        else state.outboundSeqNum
      (kept.setSequenceState identity { state with
          outboundSeqNum
          ersSinceReport := 0
          boundAtLogSeqNo := walLastSeqNo
          deliveredFigureMayBeBehind := previousSessionDied },
        some
          { known := true, outboundSeqNum, inboundSeqNum := state.inboundSeqNum
            reportSeqNums := state.reportSeqNums })
  else (kept, none)

end

/-- The figure a gateway gives for the last report it delivered, if it is the higher one. -/
def raised (last : Int) : Option Int → Int
  | none => last
  | some reported => max last reported

/-- The numbers that held reports, with those that a gateway reports. -/
def withReported (ranges reported : List SeqNumRange) : List SeqNumRange :=
  SeqNumRange.trim (SeqNumRange.merge ranges reported) SeqNumRange.maxRemembered

section

variable (m : MemberSessions)

section

variable (identity : SessionIdentity)

/-- **`unbind`**: only the connection that the session is bound to unbinds it, and what its gateway
reports is remembered. -/
def unbind (instanceId connection : Int) (reported : Reported) : MemberSessions :=
  match m.destinations identity with
  | none => m
  | some destination =>
    if destination = ⟨instanceId, connection⟩ then
      let state := m.sequenceState identity
      { m with destinations := Function.update m.destinations identity none }.setSequenceState
        identity { state with
          outboundSeqNum := reported.outboundSeqNum
          inboundSeqNum := max state.inboundSeqNum reported.inboundSeqNum
          reportSeqNums := withReported state.reportSeqNums reported.reportSeqNums
          lastReportDelivered := raised state.lastReportDelivered reported.lastReportDelivered }
    else m

/-- `sequence_update`: nothing is lowered. -/
def sequenceUpdate (reported : Reported) :
    MemberSessions :=
  let state := m.sequenceState identity
  m.setSequenceState identity { state with
      outboundSeqNum := max state.outboundSeqNum reported.outboundSeqNum
      ersSinceReport :=
        if state.outboundSeqNum < reported.outboundSeqNum then 0 else state.ersSinceReport
      inboundSeqNum := max state.inboundSeqNum reported.inboundSeqNum
      reportSeqNums := withReported state.reportSeqNums reported.reportSeqNums
      lastReportDelivered := raised state.lastReportDelivered reported.lastReportDelivered }

/-- **`take_undelivered`**: the reports that a member missed, answered once for each binding. -/
def takeUndelivered : MemberSessions × Option Undelivered :=
  match m.sequenceStates identity, m.destinations identity with
  | some state, some destination =>
    if state.boundAtLogSeqNo = 0 then (m, none)
    else
      (m.setSequenceState identity { state with boundAtLogSeqNo := 0 },
        if state.boundAtLogSeqNo ≤ state.lastReportDelivered then none
        else
          some
            { after := state.lastReportDelivered, through := state.boundAtLogSeqNo
              possibleRepeat := state.deliveredFigureMayBeBehind, destination })
  | _, _ => (m, none)

/-- `report_forwarded`: counted against the position last reported. -/
def reportForwarded : MemberSessions :=
  if identity.empty then m
  else
    let state := m.sequenceState identity
    m.setSequenceState identity { state with ersSinceReport := state.ersSinceReport + 1 }

/-- `report_dropped_unbound`: counted, and the session noted on the first. -/
def reportDroppedUnbound (expectsNoSession : Bool) :
    MemberSessions :=
  { m with
    reportsDroppedUnbound := m.reportsDroppedUnbound + 1
    sessionsWithReportsDropped :=
      if expectsNoSession || m.sessionsWithReportsDropped.contains identity then
        m.sessionsWithReportsDropped
      else m.sessionsWithReportsDropped ++ [identity] }

end

/-- `order_placed`. -/
def orderPlaced (seqNo : Int) (origin : OriginSession) : MemberSessions :=
  { m with origins := Function.update m.origins seqNo (some origin) }

/-- `order_ended`. -/
def orderEnded (seqNo : Int) : MemberSessions :=
  { m with origins := Function.update m.origins seqNo none }

end

end MemberSessions

end PubsubVenue
