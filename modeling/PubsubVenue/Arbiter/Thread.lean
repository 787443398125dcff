import PubsubVenue.Arbiter.ComponentVoters
import PubsubVenue.Lease.Agent

/-! # The arbiter

`Arbiter` is one arbiter of the pool: its own lease on being the active one, the votes it gives
while it is active, and the statements of the component leaders, which it keeps in a file and copies
to the other arbiter. `Arbiter.handle` is what it does on each event of its thread's queue, and what
it then sends. What it sends to the other arbiter and the witness about its own lease is left out,
and so are logging, metrics and test events. The clock is read once for each event. -/

namespace PubsubVenue

/-! ## Contact with the other arbiter -/

/-- What an arbiter knows of its contact with the other. -/
structure ArbiterPeerContact where
  timing : LeaseTiming
  lastHeard : Nat
  /-- The newest send time received from the other arbiter, on its clock. -/
  newestReceived : Int := 0
  /-- The newest send time of this arbiter's own heartbeats that the other has echoed. -/
  newestEcho : Int := 0

namespace ArbiterPeerContact

section

variable (p : ArbiterPeerContact)

/-- How old the newest echo may be when this arbiter becomes active. -/
def mayBeBehindAfter : Nat :=
  2 * p.timing.terms.leasePeriod + p.timing.renewalInterval

/-- How long nothing must have been heard before a confirmation is enough on its own. -/
def confirmsAloneAfter : Nat :=
  p.mayBeBehindAfter + p.timing.terms.leasePeriod

/-- Any message has arrived from the other arbiter. -/
def heard (now : Nat) : ArbiterPeerContact :=
  { p with lastHeard := if now > p.lastHeard then now else p.lastHeard }

/-- A heartbeat from the other arbiter has arrived. -/
def onHeartbeat (sentAt echoed : Int) (now : Nat) : ArbiterPeerContact :=
  let p := p.heard now
  { p with
    newestReceived := if sentAt > p.newestReceived then sentAt else p.newestReceived
    newestEcho := if echoed > p.newestEcho then echoed else p.newestEcho }

/-- Whether this arbiter's confirmation of a statement is enough on its own. -/
def mayConfirmAlone (now : Nat) : Bool :=
  decide ((now : Int) - p.lastHeard ≥ p.confirmsAloneAfter)

/-- Whether the other arbiter may have confirmed alone a statement this one lacks. -/
def mayBeBehind (now : Nat) : Bool :=
  decide (p.newestEcho = 0) || decide ((now : Int) - p.newestEcho ≥ p.mayBeBehindAfter)

end

end ArbiterPeerContact

/-! ## Messages -/

/-- The two connections between the arbiters, as one of them sees them. -/
inductive PeerLink where
  /-- The one it made. -/
  | outbound
  /-- The one the other made. -/
  | inbound
  deriving DecidableEq, Repr

/-- What one arbiter tells the other about a pair: the highest epoch granted, and the newest
statement held. -/
structure ArbiterStateRecord where
  pairId : Int
  /-- The highest epoch granted in it. -/
  epoch : Int
  statement : LeaderStatement
  deriving DecidableEq, Repr

/-- What one arbiter sends the other about the components. -/
inductive PeerMessage where
  /-- The moment it was sent, and the newest such moment received. -/
  | heartbeat (sentAt echoed : Int)
  /-- What is known of one pair. -/
  | stateRecord (record : ArbiterStateRecord)
  deriving DecidableEq, Repr

/-- A component instance's request for a lease. -/
structure ComponentRequest where
  pairId : Int
  candidateId : Int
  epoch : Int
  requestId : Int
  statement : LeaderStatement
  /-- Its epoch is an `int32_t`. -/
  epoch_fits : statement.epoch ≤ LeaderEpoch.int32Max := by decide

/-- What an arbiter sends. -/
inductive ArbiterOutput where
  /-- To a component: the arbiter holds a statement and has written it to disk. -/
  | statementHeld (pairId : Int) (statement : LeaderStatement) (alone : Bool)
  /-- To a component: its request is granted. -/
  | grant (pairId candidateId epoch requestId : Int)
  /-- To a component: its request is refused. -/
  | refusal (pairId highestEpoch requestId : Int) (reason : LeaseRefusalReason)
  | toPeer (link : PeerLink) (message : PeerMessage)
  deriving DecidableEq, Repr

/-- What an arbiter's thread has to handle. -/
inductive ArbiterEvent where
  /-- The lease tick. `wait` is the random wait before asking again. -/
  | tick (wait : Nat)
  /-- The other arbiter asks for the vote on which arbiter is active. -/
  | poolRequest (candidateId epoch requestId : Int) (statement : LeaderStatement)
  /-- The other arbiter, or the witness, grants this arbiter's request. -/
  | poolGrant (fromPeer : Bool) (voterId epoch requestId echoed : Int)
  /-- The other arbiter, or the witness, refuses it. -/
  | poolRefusal (fromPeer : Bool) (voterId highestEpoch requestId : Int)
    (reason : LeaseRefusalReason) (wait : Nat)
  /-- The writer thread has tried to replace the record of this arbiter's promise. -/
  | promiseWritten (landed : Bool)
  /-- A component asks for a lease. `saved` is whether the statements reach the disk, if written. -/
  | componentRequest (request : ComponentRequest) (saved : Bool)
  | heartbeat (sentAt echoed : Int)
  | stateRecord (record : ArbiterStateRecord) (saved : Bool)
  | connectionEstablished (link : PeerLink)
  | connectionLost (link : PeerLink)

/-! ## The arbiter -/

/-- Whether an arbiter is active (leader), passive (follower), or not yet decided. -/
inductive ArbiterRole where
  | unknown
  | leader
  | follower
  deriving DecidableEq, Repr

/-- What an arbiter reads from its configuration. -/
structure ArbiterConfiguration where
  instanceId : Int
  peerInstanceId : Int
  lease : LeaseTiming
  votingPairs : List Int
  /-- A pair's number is positive and fits in an `int32_t`, or the configuration is refused. -/
  votingPairs_valid : ∀ p ∈ votingPairs, 1 ≤ p ∧ p ≤ LeaderEpoch.int32Max

/-- One arbiter of the pool. -/
structure Arbiter where
  config : ArbiterConfiguration
  /-- Its own lease on being the active arbiter. -/
  poolLease : PairLeaseAgent
  componentVoters : ComponentLeaseVoters
  peerContact : ArbiterPeerContact
  /-- The file of statements on its disk. -/
  store : Statements
  role : ArbiterRole := .unknown
  /-- Whether the statements held differ from those on disk, because a write failed. -/
  componentStatementsUnsaved : Bool := false
  outboundValid : Bool := false
  inboundValid : Bool := false
  /-- Whether the whole state must be sent before the next heartbeat, on each connection. -/
  oweWholeStateOnOutbound : Bool := true
  oweWholeStateOnInbound : Bool := true
  /-- Whether it became active while it may lack a statement the other confirmed alone. -/
  mayBeBehind : Bool := false

namespace Arbiter

/-- The witness's id as a voter. -/
def witnessVoterId : Int := 3

section

variable (a : Arbiter)

/-- Whether this arbiter votes in a pair. -/
def votesIn (pairId : Int) : Bool := a.config.votingPairs.contains pairId

/-- Change the state of one connection. -/
def setValid (link : PeerLink) (valid : Bool) : Arbiter :=
  match link with
  | .outbound => { a with outboundValid := valid }
  | .inbound => { a with inboundValid := valid }

/-- Whether a connection is there. -/
def valid : PeerLink → Bool
  | .outbound => a.outboundValid
  | .inbound => a.inboundValid

/-- Whether the whole state is owed on a connection. -/
def owes : PeerLink → Bool
  | .outbound => a.oweWholeStateOnOutbound
  | .inbound => a.oweWholeStateOnInbound

/-- The connection to send on, if there is one. -/
def peerActiveConn : Option PeerLink :=
  if a.outboundValid then some .outbound else if a.inboundValid then some .inbound else none

end

/-! ### Role -/

/-- Take a role. An arbiter that becomes active asks whether it may be behind. -/
def adoptRole (a : Arbiter) (role : ArbiterRole) (now : Nat) : Arbiter :=
  if role = a.role then a
  else if role = .leader then
    { a with role := role, componentVoters := a.componentVoters.becameActive now
             mayBeBehind := a.peerContact.mayBeBehind now }
  else
    { a with role := role, componentVoters := a.componentVoters.becamePassive, mayBeBehind := false }

/-- Follow what the lease rules have just decided. -/
def actOn (a : Arbiter) (change : LeaseChange) (now : Nat) : Arbiter :=
  match change with
  | .becameLeader => a.adoptRole .leader now
  | .stoppedLeading => a.adoptRole .follower now
  | .agreedPeerLeads => a.adoptRole .follower now
  | .nothing => a

/-! ### The other arbiter -/

section

variable (a : Arbiter)

/-- What the other arbiter is told about a pair. -/
def groupState (pairId : Int) : ArbiterStateRecord :=
  ⟨pairId, a.componentVoters.highestEpoch pairId, a.componentVoters.statement pairId⟩

/-- The pairs about which anything is known. -/
def groups : List Int :=
  (a.componentVoters.highestEpochs.keys ++ a.componentVoters.statements.keys).dedup

/-- Send the other arbiter everything known, on one connection. -/
def sendWholeStateToPeer (link : PeerLink) : List ArbiterOutput × Arbiter :=
  (a.groups.map fun p => .toPeer link (.stateRecord (a.groupState p)), match link with
    | .outbound => { a with oweWholeStateOnOutbound := false }
    | .inbound => { a with oweWholeStateOnInbound := false })

/-- Send the whole state on a connection, if it is owed. -/
def sendOwedState (link : PeerLink) : List ArbiterOutput × Arbiter :=
  if a.owes link then a.sendWholeStateToPeer link else ([], a)

/-- Send a heartbeat on one connection, after the whole state if it is owed. -/
def sendHeartbeat (link : PeerLink) (now : Nat) : List ArbiterOutput × Arbiter :=
  if a.valid link then
    ((a.sendOwedState link).1 ++ [.toPeer link (.heartbeat now a.peerContact.newestReceived)],
      (a.sendOwedState link).2)
  else ([], a)

/-- Send a heartbeat on each connection to the other arbiter. -/
def sendHeartbeatsToPeer (now : Nat) : List ArbiterOutput × Arbiter :=
  let (out, a) := a.sendHeartbeat .outbound now
  let (out', a) := a.sendHeartbeat .inbound now
  (out ++ out', a)

end

/-! ### The statements -/

section

variable (a : Arbiter)

/-- Write every statement held to disk. -/
def saveComponentStatements (saved : Bool) : Bool × Arbiter :=
  (saved, if saved then { a with store := a.componentVoters.statements } else a)

/-- Save the statements if they changed or an earlier save failed, and note whether that failed. -/
def saveIfNeeded (changed saved : Bool) : Arbiter :=
  if changed || a.componentStatementsUnsaved then
    let (ok, a) := a.saveComponentStatements saved
    { a with componentStatementsUnsaved := !ok }
  else a

variable (request : ComponentRequest)

/-- Confirm a statement to its leader. A confirmation that is enough on its own puts this arbiter in
debt of its whole state to the other. -/
def confirmStatement (now : Nat) : List ArbiterOutput × Arbiter :=
  let alone := a.componentVoters.active && a.peerContact.mayConfirmAlone now
  ([.statementHeld request.pairId request.statement alone],
    if alone then { a with oweWholeStateOnOutbound := true, oweWholeStateOnInbound := true } else a)

/-- Record the statement a request carries, write it to disk if it is new, and tell its leader that
this arbiter holds it. The result says whether the statement held changed. -/
def recordComponentStatement (saved : Bool) (now : Nat) :
    Except String (Bool × List ArbiterOutput × Arbiter) := do
  if request.statement.leaderId = 0 then return (false, [], a)
  let before := a.componentVoters.statement request.pairId
  let (held, voters) ← a.componentVoters.recordStatement request.pairId request.statement
  let changed := !(voters.statement request.pairId).sameAs before
  let a := { a with componentVoters := voters }.saveIfNeeded changed saved
  if a.componentStatementsUnsaved || decide (held = 0) then return (changed, [], a)
  let (out, a) := a.confirmStatement request now
  return (changed, out, a)

/-- Whether this arbiter answers no request because it may be behind: asked anew each time until a
fresh echo has arrived. -/
def stillBehind (now : Nat) : Bool := a.mayBeBehind && a.peerContact.mayBeBehind now

/-- Answer a component's request, being active and not behind. -/
def answerComponent (statementChanged : Bool) (now : Nat) : Except String (List ArbiterOutput × Arbiter) := do
  let highestBefore := a.componentVoters.highestEpoch request.pairId
  let (answer, voters) ← a.componentVoters.consider request.pairId request.candidateId request.epoch now
  let a := { a with componentVoters := voters, mayBeBehind := false }
  if answer.verdict = .granted then
    let copy := if answer.highestEpoch > highestBefore || statementChanged then
        a.peerActiveConn.toList.map fun link =>
          ArbiterOutput.toPeer link (.stateRecord (a.groupState request.pairId))
      else []
    return (.grant request.pairId request.candidateId request.epoch request.requestId :: copy, a)
  else
    return ([.refusal request.pairId answer.highestEpoch request.requestId
      (PairLeaseAgent.refusalReasonFor answer.verdict)], a)

/-- A component instance asks the arbiter pool for a lease. -/
def handleComponentLeaseRequest (saved : Bool) (now : Nat) :
    Except String (List ArbiterOutput × Arbiter) := do
  if !a.votesIn request.pairId then return ([], a)
  let (changed, out, a) ← a.recordComponentStatement request saved now
  if !a.componentVoters.active || a.stillBehind now then return (out, a)
  let (out', a) ← a.answerComponent request changed now
  return (out ++ out', a)

/-- The other arbiter reports what it knows of a pair. -/
def handleArbiterStateRecord (record : ArbiterStateRecord) (saved : Bool) :
    Except String Arbiter := do
  let a := { a with componentVoters := a.componentVoters.learnEpoch record.pairId record.epoch }
  if record.statement.leaderId = 0 then return a
  let (learnt, voters) ← a.componentVoters.learnStatement record.pairId record.statement
  let a := { a with componentVoters := voters }
  -- whether the save succeeded is only logged
  return if learnt then (a.saveComponentStatements saved).2 else a

end

/-! ### Events -/

/-- Anything has arrived from the other arbiter. -/
def hear (a : Arbiter) (now : Nat) : Arbiter := { a with peerContact := a.peerContact.heard now }

/-- The lease rules have been applied, to a message of the other arbiter's or not: follow what they
decided. -/
def follow (a : Arbiter) (fromPeer : Bool) (change : LeaseChange) (lease : PairLeaseAgent)
    (now : Nat) : Arbiter :=
  { (if fromPeer then a.hear now else a) with poolLease := lease }.actOn change now

/-- The writer thread reports the outcome of a write of the promise, if one is in progress. -/
def promiseWritten (a : Arbiter) (landed : Bool) : Arbiter :=
  let records := a.poolLease.records
  if records.recorder.writing.isSome then
    { a with poolLease := { a.poolLease with records := { records with
      recorder := { writing := none, landed := false, outcome := some landed } } } }
  else a

/-- **What an arbiter does on an event**, and what it then sends. -/
def handle (a : Arbiter) (now : Nat) : ArbiterEvent → Except String (List ArbiterOutput × Arbiter)
  | .tick wait => do
    let (change, lease) ← a.poolLease.onTick now wait 0
    return (a.follow false change lease now).sendHeartbeatsToPeer now
  | .poolRequest candidateId epoch requestId statement => do
    let (reply, lease) ← a.poolLease.onRequest candidateId epoch requestId statement now
    return ([], a.follow true reply.change lease now)
  | .poolGrant fromPeer voterId epoch requestId echoed => do
    let (change, lease) ← a.poolLease.onGrant voterId epoch requestId echoed now
    return ([], a.follow fromPeer change lease now)
  | .poolRefusal fromPeer voterId highestEpoch requestId reason wait =>
    let (change, lease) := a.poolLease.onRefusal voterId highestEpoch requestId reason now wait
    .ok ([], a.follow fromPeer change lease now)
  | .promiseWritten landed => .ok ([], a.promiseWritten landed)
  | .componentRequest request saved => a.handleComponentLeaseRequest request saved now
  | .heartbeat sentAt echoed =>
    .ok ([], { a with peerContact := (a.peerContact.heard now).onHeartbeat sentAt echoed now })
  | .stateRecord record saved => do
    let a ← (a.hear now).handleArbiterStateRecord record saved
    return ([], a)
  | .connectionEstablished link => .ok ((a.setValid link true).sendWholeStateToPeer link)
  | .connectionLost link => .ok ([], a.setValid link false)

/-- Learn the statements read from disk, those of the pairs this arbiter votes in. -/
def learnAtStart (config : ArbiterConfiguration) (c : ComponentLeaseVoters) :
    List (Int × LeaderStatement) → Except String ComponentLeaseVoters
  | [] => .ok c
  | (pairId, statement) :: rest =>
    if !config.votingPairs.contains pairId then learnAtStart config c rest
    else do
      let (_, c) ← c.learnStatement pairId statement
      learnAtStart config c rest

/-- An arbiter that starts, with the promise and the statements found on its disk. -/
def start (config : ArbiterConfiguration) (store : Statements) (kept : Option LeasePromiseRecord)
    (keptStatement : LeaderStatement) (now : Nat) : Except String Arbiter := do
  let lease ← PairLeaseAgent.start config.instanceId config.peerInstanceId witnessVoterId config.lease
    now 0 .peerAlwaysMayLead
  let voters ← learnAtStart config { leasePeriod := config.lease.terms.leasePeriod }
    (ComponentStatementStore.load store)
  return { config, store, poolLease := lease.keepPromisesIn kept keptStatement now
           componentVoters := voters, peerContact := { timing := config.lease, lastHeard := now } }

end Arbiter

end PubsubVenue
