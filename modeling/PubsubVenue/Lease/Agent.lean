import PubsubVenue.Lease.Participant

/-! # The lease agent and the record of its promises

`PairLeaseAgent` drives one instance's lease rules. It keeps the promise its voter has made in a
record on disk, written in the background, so that a restart does not forget it: a grant that the
record does not yet cover is refused. The model has everything that changes the participant, the
record or what is sent; logging, metrics and test events are left out.

Times are in milliseconds. The random wait before asking again, and how long writing the epoch took,
are arguments. -/

namespace PubsubVenue

/-- The timings of a pair: the lease terms, and how often a leader asks for its lease to be renewed. -/
structure LeaseTiming where
  terms : LeaseTerms
  renewalInterval : Nat

/-- A lease period of three seconds with an allowance of 250 ms, renewed each second. -/
def LeaseTiming.threeSeconds : LeaseTiming := ⟨⟨3000, 250, by decide⟩, 1000⟩

/-- What an instance keeps on disk about its vote. -/
structure LeasePromiseRecord where
  /-- The instance the vote is promised to, or zero for none. -/
  promisedTo : Int
  untilTime : Nat
  statement : LeaderStatement
  deriving DecidableEq, Repr

/-- The recorder: the write asked of the writer thread, whether it has reached the disk, and the
outcome of the last write until it is read. -/
structure BackgroundPromiseRecorder where
  writing : Option LeasePromiseRecord := none
  /-- Whether that write has replaced the file. -/
  landed : Bool := false
  /-- The outcome of a write that has finished, until it is read. -/
  outcome : Option Bool := none
  deriving DecidableEq, Repr

/-- Start a write; `false`, and nothing asked for, if one is in progress. -/
def BackgroundPromiseRecorder.recordInBackground (b : BackgroundPromiseRecorder)
    (record : LeasePromiseRecord) : Bool × BackgroundPromiseRecorder :=
  if b.writing.isSome then (false, b) else (true, { writing := some record })

/-- The outcome of the last write, once, after it has finished. -/
def BackgroundPromiseRecorder.backgroundResult (b : BackgroundPromiseRecorder) :
    Option Bool × BackgroundPromiseRecorder :=
  (b.outcome, { b with outcome := none })

/-- A change in what an instance may do, which its owner must act on. -/
inductive LeaseChange where
  | nothing
  | becameLeader
  | stoppedLeading
  | agreedPeerLeads
  deriving DecidableEq, Repr

/-- Why a request was refused. -/
inductive LeaseRefusalReason where
  | restarting
  | promisedElsewhere
  | epochBehind
  | mayNotLead
  | recordingPromise
  | unknown
  deriving DecidableEq, Repr

/-- The answer sent to a request. -/
inductive LeaseReply where
  | grant (voterId epoch requestId echoedStatementNumber : Int)
  | refusal (voterId highestEpoch requestId : Int) (reason : LeaseRefusalReason)
  deriving DecidableEq, Repr

/-- What `on_request` tells the owner, along with the answer it sends. -/
def LeaseReply.change : LeaseReply → LeaseChange
  | grant _ _ _ _ => .agreedPeerLeads
  | refusal _ _ _ _ => .nothing

/-- What an agent knows of the record of its promises: what is on disk, what is being written, and
what waits to be written. -/
structure PromiseRecords where
  recorder : BackgroundPromiseRecorder := {}
  recordedTo : Int := 0
  recordedUntil : Nat := 0
  recordedStatement : LeaderStatement := {}
  /-- The record being written, until its outcome is read. -/
  background : Option LeasePromiseRecord := none
  /-- A promise asked to be recorded while another write was in progress. -/
  wanted : Option (Int × Nat) := none
  deriving DecidableEq, Repr

namespace PromiseRecords

/-- How far beyond the true expiry a promise is recorded. -/
def promiseRecordMargin : Nat := 10000

/-- How close the promise's expiry may come to the record's before a fresh record is written. -/
def refreshAhead : Nat := promiseRecordMargin / 2

section

variable (k : PromiseRecords) (held : LeaderStatement) (promisedTo : Int)

/-- Start writing a record with the statement held now, or keep it to be started later. -/
def startRecord (untilTime : Nat) :
    PromiseRecords :=
  let (started, recorder) := k.recorder.recordInBackground ⟨promisedTo, untilTime, held⟩
  if k.background.isNone && started then
    { k with recorder := recorder, background := some ⟨promisedTo, untilTime, held⟩, wanted := none }
  else { k with wanted := some (promisedTo, untilTime) }

/-- Start the record kept while another write was in progress, once that write has finished. -/
def startWantedRecord : PromiseRecords :=
  match k.wanted with
  | some (promisedTo, untilTime) =>
    if k.background.isNone then k.startRecord held promisedTo untilTime else k
  | none => k

/-- Start writing the record when the statement held is not the one on disk. -/
def writeStatementIfNeeded : PromiseRecords :=
  if k.background.isSome || k.wanted.isSome || k.recordedStatement.sameAs held then k
  else k.startRecord held k.recordedTo k.recordedUntil

/-- Take the outcome of a background write, if one has finished, as what the record now says. -/
def adoptBackgroundRecord : PromiseRecords :=
  match k.background with
  | none => k
  | some record =>
    match k.recorder.backgroundResult with
    | (none, _) => k
    | (some written, recorder) =>
      let k' := { k with background := none, recorder := recorder }
      if written then
        { k' with recordedTo := record.promisedTo, recordedUntil := record.untilTime,
                  recordedStatement := record.statement }
      else k'

/-- Start writing a fresh record when the one held is close to no longer covering the promise. -/
def refreshInBackground (expiresAt : Nat) : PromiseRecords :=
  if k.background.isSome || k.wanted.isSome || decide (k.recordedUntil > expiresAt + refreshAhead) then k
  else k.startRecord held promisedTo (expiresAt + promiseRecordMargin)

/-- Whether the write in progress, or the one waiting to be started, will cover a promise. -/
def writeInProgressCovers (expiresAt : Nat) : Bool :=
  match k.wanted with
  | some (wantedTo, wantedUntil) => decide (wantedTo = promisedTo) && decide (expiresAt ≤ wantedUntil)
  | none =>
    k.background.any fun record =>
      decide (record.promisedTo = promisedTo) && decide (expiresAt ≤ record.untilTime)

/-- Whether the record on disk covers a promise; if it does not, start the write that will. This is
the common part of `promise_recorded` and `record_leading`. -/
def covers (expiresAt : Nat) : Bool × PromiseRecords :=
  let k := k.adoptBackgroundRecord
  if k.recordedTo = promisedTo ∧ expiresAt ≤ k.recordedUntil then
    (true, k.refreshInBackground held promisedTo expiresAt)
  else if !k.writeInProgressCovers promisedTo expiresAt then
    (false, k.startRecord held promisedTo (expiresAt + promiseRecordMargin))
  else (false, k)

end

end PromiseRecords

/-- Everything an instance does to decide whether it leads. -/
structure PairLeaseAgent where
  peerId : Int
  thirdVoterId : Int
  timing : LeaseTiming
  participant : LeaseParticipant
  records : PromiseRecords := {}
  lastRenewal : Nat := 0
  askedAt : Nat := 0
  /-- Whether the peer has refused the present request because its vote is promised elsewhere. -/
  peerRefusedPromisedElsewhere : Bool := false
  /-- Whether the third voter has. -/
  thirdVoterRefusedPromisedElsewhere : Bool := false
  /-- Until when an instance restarted while it led is resuming that lead. -/
  resumingLeadUntil : Nat := 0
  /-- `false` once the owner has said this instance is not to lead. -/
  asksToLead : Bool := true

namespace PairLeaseAgent

/-! ## The record -/

section

variable (a : PairLeaseAgent)

/-- The statement this instance's voter holds. -/
def held : LeaderStatement := a.participant.voter.recordedStatement

/-- Start writing the record when the statement held is not the one on disk. -/
def writeStatementIfNeeded : PairLeaseAgent :=
  { a with records := a.records.writeStatementIfNeeded a.held }

/-- Whether the record on disk covers the promise just made to a candidate; if it does not, start
the write that will. -/
def promiseRecorded (candidateId : Int) : Bool × PairLeaseAgent :=
  let (covered, records) := a.records.covers a.held candidateId a.participant.voter.promiseExpires
  (covered, { a with records := records })

/-- Record, while leading, that this instance's vote is promised to itself. -/
def recordLeading : PairLeaseAgent :=
  if a.participant.holder.state ≠ .leading then a
  else { a with records :=
    (a.records.covers a.held a.participant.selfId a.participant.holder.leaseExpiresAt).2 }

end

/-! ## Starting -/

/-- An agent that starts now. The secondary gives the primary a head start. -/
def start (selfId peerId thirdVoterId : Int) (timing : LeaseTiming) (startedAt : Nat)
    (persistedEpoch : Int) (flag : PeerStatementsFlag) : Except String PairLeaseAgent := do
  let p ← LeaseParticipant.start selfId timing.terms startedAt persistedEpoch flag
  let participant := if selfId > peerId then
      p.stop startedAt (timing.terms.leasePeriod + timing.renewalInterval) else p
  return { peerId, thirdVoterId, timing, participant }

/-- Keep promises in a record, and resume with the one recorded before restarting. A vote the
instance gave itself while leading is not carried across the restart. -/
def keepPromisesIn (a : PairLeaseAgent) (kept : Option LeasePromiseRecord)
    (keptStatement : LeaderStatement) (now : Nat) : PairLeaseAgent :=
  let voter := a.participant.voter.restoreRecordedStatement keptStatement
  let a := { a with participant := { a.participant with voter := voter }
                    records := { a.records with recordedStatement := keptStatement } }
  match kept with
  | none => a
  | some kept =>
    let wasLeading := decide (kept.promisedTo = a.participant.selfId) && decide (kept.untilTime > now)
    let voter := a.participant.voter.resumeWithKeptPromise
      (if wasLeading then 0 else kept.promisedTo) (if wasLeading then now else kept.untilTime) now
    let p := { a.participant with voter := voter }
    let a := { a with participant := p,
                      records := { a.records with recordedTo := kept.promisedTo,
                                                  recordedUntil := kept.untilTime } }
    if wasLeading then
      { a with participant := p.stop now 0, resumingLeadUntil := kept.untilTime }
    else a

/-! ## Asking -/

section

variable (a : PairLeaseAgent)

/-- Ask both other voters, noting each request. -/
def askVoters (now : Nat) : PairLeaseAgent :=
  let p := (a.participant.recordRequest a.peerId now).2
  { a with participant := (p.recordRequest a.thirdVoterId now).2 }

/-- Renew the lease, or send the request to lead again, if it is time to. -/
def askAgain (now : Nat) : PairLeaseAgent :=
  if now ≥ a.lastRenewal + a.timing.renewalInterval then
    { a with lastRenewal := now }.askVoters now
  else a

/-- Begin to ask to lead, the epoch having been written to disk in `recordTook`. -/
def beginAsking (now recordTook : Nat) : Except String PairLeaseAgent := do
  let (_, p) ← a.participant.beginAskingToLead
  let sentAt := now + recordTook
  return { a with participant := p, askedAt := sentAt, lastRenewal := sentAt,
                  peerRefusedPromisedElsewhere := false,
                  thirdVoterRefusedPromisedElsewhere := false }.askVoters sentAt

/-- The part of a tick that stops what must stop. -/
def stopOnTick (now wait : Nat) : Bool × PairLeaseAgent :=
  let p := if !a.asksToLead && decide (a.participant.holder.state = .candidate) then
      a.participant.stop now wait else a.participant
  let (stopped, p) := p.stopIfLeaseRanOut now
  (stopped, { a with participant := p })

/-- A leader whose lease has not run out asks for it to be renewed, if it is time to. -/
def renew (now : Nat) : PairLeaseAgent :=
  if a.participant.acting now then a.askAgain now else a

/-- A request to lead that no voter has granted is sent again, if it is time to. -/
def repeatRequest (now : Nat) : PairLeaseAgent :=
  if a.participant.holder.state = .candidate then a.askAgain now else a

/-- A request to lead that has gone unanswered for a lease period is given up. -/
def giveUpUnanswered (now wait : Nat) : PairLeaseAgent :=
  if a.participant.holder.state = .candidate ∧ now > a.askedAt + a.timing.terms.leasePeriod then
    { a with participant := a.participant.stop now wait }
  else a

/-- The part of a tick that sees to the record: a finished write is adopted and the next started. -/
def updateRecords : PairLeaseAgent :=
  { a with records :=
    (a.records.adoptBackgroundRecord.startWantedRecord a.held).writeStatementIfNeeded a.held }

/-- Apply the lease rules. -/
def onTick (now wait recordTook : Nat) : Except String (LeaseChange × PairLeaseAgent) := do
  let (stopped, a) := a.updateRecords.stopOnTick now wait
  let change := if stopped then LeaseChange.stoppedLeading else .nothing
  let a := ((a.renew now).repeatRequest now).giveUpUnanswered now wait
  if a.asksToLead && a.participant.mayAskToLead now then
    return (change, ← a.beginAsking now recordTook)
  else return (change, a)

end

/-! ## Messages -/

/-- The reason sent for a verdict. -/
def refusalReasonFor : Verdict → LeaseRefusalReason
  | .refusedWhileRestarting => .restarting
  | .refusedPromisedElsewhere => .promisedElsewhere
  | .refusedEpochBehind => .epochBehind
  | .refusedMayNotLead => .mayNotLead
  | .granted => .unknown

/-- A statement newer than the one held replaces it before a request is decided. -/
def adoptNewerStatement (p : LeaseParticipant) (statement : LeaderStatement) :
    Except String LeaseParticipant :=
  if statement.leaderId ≠ 0 ∧ statement.newerThan p.voter.recordedStatement then
    (p.recordPeerStatement statement).map (·.2)
  else .ok p

/-- A grant records the statement its request carries, and echoes it if it is the one now held. -/
def echoStatement (p : LeaseParticipant) (granted : Bool) (statement : LeaderStatement) :
    Except String (Int × LeaseParticipant) :=
  if granted && decide (statement.leaderId ≠ 0) then p.recordPeerStatement statement
  else .ok (0, p)

section

variable (a : PairLeaseAgent)

/-- The peer asks for a lease. -/
def onRequest (candidateId epoch requestId : Int) (statement : LeaderStatement)
    (now : Nat) : Except String (LeaseReply × PairLeaseAgent) := do
  let p ← adoptNewerStatement a.participant statement
  let (answer, p) := p.onPeerRequest candidateId epoch now
  let granted := decide (answer.verdict = .granted)
  let (echoed, p) ← echoStatement p granted statement
  let a := { a with participant := p }
  let (covered, a) := if granted then a.promiseRecorded candidateId else (false, a)
  if covered then
    return (.grant a.participant.selfId epoch requestId echoed, a.writeStatementIfNeeded)
  else
    return (.refusal a.participant.selfId answer.highestEpoch requestId
      (if granted then .recordingPromise else refusalReasonFor answer.verdict), a)

/-- A voter granted one of this instance's requests. -/
def onGrant (voterId epoch requestId echoed : Int) (now : Nat) :
    Except String (LeaseChange × PairLeaseAgent) := do
  let (event, p) ← a.participant.onGrant voterId requestId epoch now
  let p := if voterId = a.peerId then p.noteEchoFromPeer epoch echoed else p
  let a := { a with participant := p }
  if event = .leaseExtended then return (.nothing, a.recordLeading)
  else if event ≠ .becameLeader then return (.nothing, a)
  else
    let a := { a with resumingLeadUntil := 0 }.recordLeading
    if a.participant.statement.leaderId ≠ 0 then
      return (.becameLeader, { a with lastRenewal := now }.askVoters now)
    else return (.becameLeader, a)

/-- Note which voters have refused the present request because their vote is promised elsewhere. -/
def noteRefusal (voterId : Int) (reason : LeaseRefusalReason) :
    PairLeaseAgent :=
  if reason = .promisedElsewhere ∧ a.participant.holder.state = .candidate then
    if voterId = a.thirdVoterId then { a with thirdVoterRefusedPromisedElsewhere := true }
    else { a with peerRefusedPromisedElsewhere := true }
  else a

/-- A voter refused one of this instance's requests. -/
def onRefusal (voterId highestEpoch requestId : Int)
    (reason : LeaseRefusalReason) (now wait : Nat) : LeaseChange × PairLeaseAgent :=
  let wasLeading := decide (a.participant.holder.state = .leading)
  let wait := if now < a.resumingLeadUntil then 0 else wait
  let asking := decide (a.participant.holder.state = .candidate)
  let a := a.noteRefusal voterId reason
  if a.peerRefusedPromisedElsewhere && a.thirdVoterRefusedPromisedElsewhere && asking then
    (.nothing, { a with
      peerRefusedPromisedElsewhere := false, thirdVoterRefusedPromisedElsewhere := false
      participant := a.participant.stop now (a.timing.terms.leasePeriod + wait) })
  else
    let (event, p) := a.participant.onRefusal requestId highestEpoch now wait
    (if event = .newerEpochKnown && wasLeading then .stoppedLeading
      else .nothing, { a with participant := p })

/-- An arbiter says it holds a statement of this instance's and has written it to disk. -/
def onStatementHeld (arbiterInstanceId : Int) (held : LeaderStatement) (alone : Bool) : PairLeaseAgent :=
  { a with participant := a.participant.noteHeldByArbiter arbiterInstanceId held alone }

/-- The leader's own statement changed: start writing it, and tell both other voters at once. -/
def statementChanged (now : Nat) : PairLeaseAgent :=
  let a := a.writeStatementIfNeeded
  if a.participant.acting now then { a with lastRenewal := now }.askVoters now else a

/-- Say whether the peer may lead. -/
def say (peerMayLead : Bool) (now : Nat) : Except String PairLeaseAgent := do
  let p ← a.participant.sayWhetherPeerMayLead peerMayLead
  return { a with participant := p }.statementChanged now

/-- From now on this instance never asks to lead. -/
def stopAskingToLead : PairLeaseAgent := { a with asksToLead := false }

end

end PairLeaseAgent

end PubsubVenue
