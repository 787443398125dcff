import PubsubVenue.Machine
import Mathlib.Data.Fintype.Basic

/-! # The commands a gateway waits to have answered

A gateway keeps a copy of each command that it sends to the sequencers until it is answered. When a
new leader announces itself, and when a connection to a sequencer is made again, the copies still
held are sent again, a batch at a time, each batch when the connection has written the one before.
The copies are taken at one moment (`UnansweredSnapshot`); whenever copies are taken anew, a sending
that has not finished begins again with the new ones. A command that a member sends meanwhile is
forwarded at once.

The bytes of the copies are not looked at: a copy is the command. Whether the block of bytes has
room for a copy is for each command to say. -/

namespace PubsubVenue

/-- A command of a member, with its place in the order in which the members' commands were sent. -/
structure MemberCommand (Id : Type) where
  number : Nat
  compId : Id
  clOrdId : Id
  deriving DecidableEq

/-- `PacedResend`: how far the sending of the copies has got on a connection. -/
structure PacedResend where
  total : Nat := 0
  next : Nat := 0
  active : Bool := false
  deriving DecidableEq

namespace PacedResend

/-- The most commands sent in one batch. -/
def batchSize : Nat := 256

/-- `start`. -/
def start (total : Nat) : PacedResend := { total, next := 0, active := decide (0 < total) }

section

variable (r : PacedResend)

/-- `abandon`. -/
def abandon : PacedResend := { r with active := false }

/-- Where the next batch ends. -/
def batchEnd : Nat := if r.next + batchSize < r.total then r.next + batchSize else r.total

/-- `send_next_batch`: the copies that it sends. -/
def batch {α : Type} (r : PacedResend) (copies : List α) : List α :=
  (copies.drop r.next).take (r.batchEnd - r.next)

/-- `send_next_batch`: how far the sending has got after it. -/
def sendNextBatch : PacedResend :=
  if r.active then { r with next := r.batchEnd, active := decide (r.batchEnd < r.total) } else r

end

end PacedResend

/-- `UnansweredCommands::Destination`, a sequencer. Beside the fields of the source: what has been
sent on its connection since the last announcement of a new leader, and on the connections that it
had in that time before. -/
structure SequencerLink (Id : Type) where
  connected : Bool := false
  connectedBefore : Bool := false
  resend : PacedResend := {}
  sent : List (MemberCommand Id) := []
  past : List (List (MemberCommand Id)) := []
  deriving DecidableEq

namespace SequencerLink

variable {Id : Type}

/-- Forward a command, if there is a connection. -/
def forward (command : MemberCommand Id) (l : SequencerLink Id) : SequencerLink Id :=
  if l.connected then { l with sent := l.sent ++ [command] } else l

/-- `continue_resend`: send the next batch of the copies. -/
def continueResend (snapshot : List (MemberCommand Id)) (l : SequencerLink Id) : SequencerLink Id :=
  if l.resend.active then
    { l with sent := l.sent ++ l.resend.batch snapshot, resend := l.resend.sendNextBatch }
  else l

/-- What `start_resends` does with a destination: where it is wanted, or has not finished, and is
connected, the sending begins with the new copies, and the first batch goes. -/
def startResend (snapshot : List (MemberCommand Id)) (wanted : Bool) (l : SequencerLink Id) :
    SequencerLink Id :=
  if (wanted || l.resend.active) && l.connected then
    continueResend snapshot { l with resend := .start snapshot.length }
  else { l with resend := l.resend.abandon }

/-- The connection is gone, or another takes its place. -/
def close (l : SequencerLink Id) : SequencerLink Id := { l with sent := [], past := l.sent :: l.past }

/-- Everything that was sent belongs to the time before an announcement. -/
def forget (l : SequencerLink Id) : SequencerLink Id := { l with sent := [], past := [] }

end SequencerLink

/-- **A gateway's unanswered commands**: the copies held, oldest first, the copies being sent again,
and the destinations, one for each `ι`. -/
structure UnansweredCommands (ι Id : Type) where
  store : List (MemberCommand Id) := []
  snapshot : List (MemberCommand Id) := []
  destinations : ι → SequencerLink Id := fun _ => {}
  highestLeaderEpochSeen : Int := 0
  commandsSent : Nat := 0

/-- What happens to the gateway. -/
inductive GatewayEvent (ι Id : Type)
  | command (compId clOrdId : Id) (room : Bool)
  | answered (compId clOrdId : Id)
  | dropSession (compId : Id)
  /-- A sequencer says whether orders are accepted, and at which epoch it leads. -/
  | orderAcceptance (leaderEpoch : Option Int)
  | connectionEstablished (destination : ι)
  | connectionLost (destination : ι)
  /-- A connection has written everything that waited on it. -/
  | connectionWritable (destination : ι)
  deriving DecidableEq

namespace UnansweredCommands

variable {ι Id : Type}

/-- `start_resends`: take the copies anew, and send them where they are wanted. -/
def startResends (u : UnansweredCommands ι Id) (wanted : ι → Bool) : UnansweredCommands ι Id :=
  { u with
    snapshot := u.store
    destinations := fun d => (u.destinations d).startResend u.store (wanted d) }

/-- `on_new_leader`. Everything sent before belongs to the time before the announcement. -/
def onNewLeader (u : UnansweredCommands ι Id) (firstLeaderSeen : Bool) : UnansweredCommands ι Id :=
  let u := { u with destinations := fun d => (u.destinations d).forget }
  if firstLeaderSeen && u.store.isEmpty then u else u.startResends fun _ => true

variable [DecidableEq Id]

section

variable (u : UnansweredCommands ι Id)

/-- `holds`: the command is waiting for its answer. -/
def holds (compId clOrdId : Id) : Bool :=
  u.store.any fun c => c.compId = compId && c.clOrdId = clOrdId

/-- `forward_order_in_envelope`, for a command of a member: it is refused where the copy cannot be
kept, and otherwise forwarded to every sequencer that is connected. -/
def command (compId clOrdId : Id) (room : Bool) : UnansweredCommands ι Id :=
  if room && !u.holds compId clOrdId then
    let command := { number := u.commandsSent, compId, clOrdId }
    { u with
      store := u.store ++ [command]
      destinations := fun d => (u.destinations d).forward command
      commandsSent := u.commandsSent + 1 }
  else u

/-- `answered`. -/
def answered (compId clOrdId : Id) : UnansweredCommands ι Id :=
  { u with store := u.store.filter fun c => !(c.compId = compId && c.clOrdId = clOrdId) }

/-- `drop_session`. -/
def dropSession (compId : Id) : UnansweredCommands ι Id :=
  { u with store := u.store.filter fun c => c.compId ≠ compId }

/-- `handle_order_acceptance`, as far as it is about who leads: a higher epoch than any before is a
new leader. -/
def orderAcceptance (leaderEpoch : Option Int) : UnansweredCommands ι Id :=
  match leaderEpoch with
  | none => u
  | some epoch =>
    if u.highestLeaderEpochSeen < epoch then
      { u with highestLeaderEpochSeen := epoch }.onNewLeader (u.highestLeaderEpochSeen == 0)
    else u

end

variable [DecidableEq ι]

section

variable (u : UnansweredCommands ι Id)

/-- Change one destination. -/
def withDestination (d : ι) (f : SequencerLink Id → SequencerLink Id) :
    UnansweredCommands ι Id :=
  { u with destinations := Function.update u.destinations d (f (u.destinations d)) }

/-- `on_connection_established`: the first time nothing is sent; after that the copies are sent
again on the new connection. -/
def connectionEstablished (d : ι) : UnansweredCommands ι Id :=
  let v := u.withDestination d fun l => { l.close with connected := true, connectedBefore := true }
  if (u.destinations d).connectedBefore then v.startResends fun d' => d' = d else v

/-- `on_connection_lost`. -/
def connectionLost (d : ι) : UnansweredCommands ι Id :=
  u.withDestination d fun l => { l.close with connected := false, resend := l.resend.abandon }

/-- `on_connection_writable`. -/
def connectionWritable (d : ι) : UnansweredCommands ι Id :=
  if (u.destinations d).connected then u.withDestination d (SequencerLink.continueResend u.snapshot) else u

end

/-- **What happens to the gateway, one event after another.** -/
def step : Machine (UnansweredCommands ι Id) (GatewayEvent ι Id)
  | u, .command compId clOrdId room => some (u.command compId clOrdId room)
  | u, .answered compId clOrdId => some (u.answered compId clOrdId)
  | u, .dropSession compId => some (u.dropSession compId)
  | u, .orderAcceptance leaderEpoch => some (u.orderAcceptance leaderEpoch)
  | u, .connectionEstablished d => some (u.connectionEstablished d)
  | u, .connectionLost d => some (u.connectionLost d)
  | u, .connectionWritable d => some (u.connectionWritable d)

end UnansweredCommands

end PubsubVenue
