import PubsubVenue.Lease.OwnEpoch
import PubsubVenue.Replication.Replica

/-! # A pair of replicated logs

The two replicas of a pair, the leases that decide which of them leads, and the connections between
them. Each instance opens a connection to the other and sends on its own while it has it, otherwise
on the other's; on each connection messages arrive in the order they were sent, or not at all once
it is lost, which each end notices by itself. `Replicas.step` is the machine of everything that can
happen to the pair.

What a message or the state carries beyond the source is for proofs only, and no rule reads it: the
leadership a message was sent in and the request a reply answers, the leadership whose reply a
follower agreed with, what it has acknowledged, and the log of each leadership. -/

namespace PubsubVenue

/-- The epoch a replica leads in, if it leads. -/
def Replica.leadership {α : Type} (x : Replica α) : Option Int :=
  if x.role = .leader then some x.epoch else none

/-- A message on its way. -/
structure Sent (α : Type) where
  receiver : Instance
  connection : ConnectionId
  message : LogMessage α
  /-- The leadership it was sent in, if its sender led. -/
  sentIn : Option Int
  /-- The request it answers, if it answers one. -/
  answers : Option PositionRequest

/-- Two replicas, their leases and the messages between them. -/
structure Replicas (α : Type) where
  lease : Pair
  replica : Instance → Replica α
  /-- The messages on their way, in the order they were sent. -/
  inFlight : List (Sent α) := []
  /-- The last connection each instance has seen made, by who opened it. -/
  seen : Instance → Instance → Nat := fun _ _ => 0
  /-- The leadership whose reply made each instance's agreement. -/
  agreedIn : Instance → Option Int := fun _ => none
  /-- The records each instance has acknowledged, with the leadership that sent them. -/
  acknowledged : Instance → List (Int × SequencedRecord α) := fun _ => []
  leaderLog : Int → List (SequencedRecord α) := fun _ => []

/-- What can happen to the pair. -/
inductive ReplicasAction (α : Type) where
  /-- Something happens to the leases, and both instances act on it. -/
  | lease (a : PairAction)
  /-- An instance's voter resumes with a promise kept from before a restart. -/
  | resumeWithKeptPromise (i : Instance) (promisedTo : Int) (until_ : Nat)
  | append (i : Instance) (contents : α)
  /-- An instance takes the next message from a connection. -/
  | deliver (i : Instance) (c : ConnectionId)
  /-- An instance's lease tick comes, and it asks where the logs agree if it does not know. -/
  | tick (i : Instance)
  | established (i : Instance) (c : ConnectionId)
  | lost (i : Instance) (c : ConnectionId)
  /-- An instance's reading thread sends the follower the next record. -/
  | readingSends (i : Instance)
  /-- An instance hears that its reading thread has sent the follower every record. -/
  | readingCaughtUp (i : Instance)
  /-- An instance hears from its reading thread that it has stopped. -/
  | readingConfirms (i : Instance)

namespace Replicas

variable {α : Type}

section

variable (s : Replicas α)

section

variable (i : Instance)

/-- Change one replica. -/
def put (x : Replica α) : Replicas α :=
  { s with replica := Function.update s.replica i x }

/-- An instance sends messages on a connection, if it has one. -/
def send (c : Option ConnectionId) (answers : Option PositionRequest) (ms : List (LogMessage α)) :
    Replicas α :=
  match c with
  | none => s
  | some c =>
    { s with
      inFlight := s.inFlight ++ ms.map fun m =>
        { receiver := i.peer, connection := c, message := m
          sentIn := (s.replica i).leadership, answers := answers } }

/-- A replica has done something, and sends its peer what it returned. -/
def act (answers : Option PositionRequest) (result : Replica α × List (LogMessage α)) : Replicas α :=
  (s.put i result.1).send i result.1.peerActiveConn answers result.2

/-- Whether an instance has an end of a connection. -/
def hasEnd (c : ConnectionId) : Bool :=
  decide ((s.replica i).outbound = some c) || decide ((s.replica i).inbound = some c)

/-- Note that an instance has seen a connection made. -/
def sees (c : ConnectionId) : Replicas α :=
  { s with seen := Function.update s.seen i (Function.update (s.seen i) c.dialledBy c.made) }

end

/-- Keep the log of each leadership. -/
def note : Replicas α :=
  { s with
    leaderLog := fun e =>
      if (s.replica .one).leadership = some e then (s.replica .one).wal
      else if (s.replica .two).leadership = some e then (s.replica .two).wal
      else s.leaderLog e }

end

/-! ## Leases -/

/-- Whether an action is an instance's granting its peer a lease. -/
def grantsPeer (s : Pair) (i : Instance) : PairAction → Bool
  | .deliverRequest r =>
    decide (r.voter = .member i) &&
      decide (((s.inst i).participant.onPeerRequest r.candidate.id r.epoch s.now).1.verdict = .granted)
  | _ => false

/-- A replica acts on what has happened to its leases: it raises its epoch, and takes or leaves the
lead. -/
def actOnLease (x : Replica α) (p : LeaseParticipant) (grantsPeer : Bool) : Replica α × List (LogMessage α) :=
  let raised := x.setEpoch p.highestEpoch
  if p.holder.state = .leading then raised.changeRole .leader
  else if x.role = .leader ∨ grantsPeer then raised.changeRole .follower
  else (raised, [])

/-- What a lease action leaves of the replicas: an instance that starts again opens its log. -/
def reopened (s : Replicas α) (lease : Pair) : PairAction → Instance → Replica α
  | .restart i => Function.update s.replica i ((s.replica i).reopen (lease.inst i).recording.stored)
  | _ => s.replica

/-- Something has happened to the leases. -/
def onLease (s : Replicas α) (a : PairAction) (lease : Pair) : Replicas α :=
  let moved := { s with lease := lease, replica := s.reopened lease a }
  let acted := moved.act .one none (actOnLease (moved.replica .one) (lease.inst .one).participant
    (grantsPeer s.lease .one a))
  acted.act .two none
    (actOnLease (acted.replica .two) (lease.inst .two).participant (grantsPeer s.lease .two a))

/-! ## Messages -/

section

variable (s : Replicas α) (i : Instance)

/-- The acknowledgements an instance has given, once it has handled a record. -/
def acknowledge (sentIn : Option Int) (r : SequencedRecord α)
    (acks : List (LogMessage α)) : Instance → List (Int × SequencedRecord α) :=
  match sentIn, acks with
  | some e, _ :: _ => Function.update s.acknowledged i ((e, r) :: s.acknowledged i)
  | _, _ => s.acknowledged

/-- The leadership an instance agrees with, once it has handled a reply. -/
def agree (sentIn : Option Int) (x : Replica α) : Instance → Option Int :=
  if x.followerWalAgreed ∧ (s.replica i).followerWalAgreed = false then
    Function.update s.agreedIn i sentIn
  else s.agreedIn

/-- An instance handles a message that has come on a connection. -/
def handle (c : ConnectionId) (m : Sent α) : Option (Replicas α) :=
  let x := s.replica i
  match m.message with
  | .record r =>
    let result := x.handleRecord r
    some (({ s with acknowledged := s.acknowledge i m.sentIn r result.2 }.put i result.1).send i
      (some c) none result.2)
  | .ack seqNo => some (s.put i (x.handleAck seqNo))
  | .request q => (x.handlePositionRequest q).toOption.map (s.act i (some q))
  | .reply p => (x.handlePositionReply p).toOption.map fun result =>
    { s with agreedIn := s.agree i m.sentIn result.1 }.act i none result

/-- The next message for an instance on a connection. -/
def next (c : ConnectionId) : Option (Sent α) :=
  s.inFlight.find? fun m => decide (m.receiver = i) && decide (m.connection = c)

/-- The state without the next message for an instance on a connection. -/
def taken (c : ConnectionId) : Replicas α :=
  { s with
    inFlight := s.inFlight.eraseP fun m => decide (m.receiver = i) && decide (m.connection = c) }

end

/-! ## The reading thread -/

variable (s : Replicas α)

/-- The reading thread sends the next record. -/
def readingSends (i : Instance) : Option (Replicas α) :=
  let x := s.replica i
  match x.reading with
  | none => none
  | some reading =>
    match x.wal.find? fun r => decide (r.seqNo = reading.next) with
    | none => none
    | some r =>
      let on := if s.hasEnd i reading.connection then some reading.connection else none
      some ((s.put i { x with reading := some { reading with next := reading.next + 1 } }).send i on
        none [.record r])

/-- The reading thread has sent everything written. -/
def readingCaughtUp (i : Instance) : Option (Replicas α) :=
  let x := s.replica i
  match x.reading with
  | none => none
  | some reading =>
    if reading.stopping = false ∧ x.lastSeqNo < reading.next then
      some (s.put i ({ x with reading := none }.onPeerCaughtUp x.lastSeqNo))
    else none

/-- The reading thread confirms that it has stopped. -/
def readingConfirms (i : Instance) : Option (Replicas α) :=
  let x := s.replica i
  if x.confirmationsAwaited = 0 then none
  else
    let y := { x with
      reading := x.reading.filter fun reading => !reading.stopping
      confirmationsAwaited := x.confirmationsAwaited - 1 }
    if y.readingHasStopped then
      y.onPeerCatchUpStopped.toOption.map (s.act i y.unansweredRequest)
    else some (s.put i y)

/-! ## The machine -/

/-- What an action does, before the log of each leadership is kept. -/
def move : ReplicasAction α → Option (Replicas α)
  | .lease a => (Pair.step s.lease a).map (s.onLease a)
  | .resumeWithKeptPromise i promisedTo until_ =>
    some { s with
      lease := s.lease.setVoter (.member i)
        ((s.lease.voter (.member i)).resumeWithKeptPromise promisedTo until_ s.lease.now) }
  | .append i contents =>
    if (s.replica i).role = .leader then some (s.act i none ((s.replica i).append contents))
    else none
  | .deliver i c =>
    if s.hasEnd i c then (s.next i c).bind ((s.taken i c).handle i c) else none
  | .tick i => some (s.act i none (s.replica i, (s.replica i).sendPositionRequest))
  | .established i c =>
    if s.seen i c.dialledBy < c.made then
      some ((s.sees i c).act i none ((s.replica i).onPeerConnectionEstablished (decide (c.dialledBy = i)) c))
    else none
  | .lost i c =>
    if (s.replica i).outbound = some c then
      some (s.act i none ((s.replica i).onPeerConnectionLost true))
    else if (s.replica i).inbound = some c then
      some (s.act i none ((s.replica i).onPeerConnectionLost false))
    else none
  | .readingSends i => s.readingSends i
  | .readingCaughtUp i => s.readingCaughtUp i
  | .readingConfirms i => s.readingConfirms i

/-- **The machine of the pair.** -/
def step : Machine (Replicas α) (ReplicasAction α) := fun s a => (s.move a).map note

/-- The pair with empty logs, when its leases start. -/
def start (lease : Pair) (hasReadingThread : Bool) : Replicas α where
  lease := lease
  replica := fun i => { hasReadingThread, epoch := (lease.inst i).recording.stored }

end Replicas

end PubsubVenue
