import PubsubVenue.Arbiter.Role
import PubsubVenue.Lease.Pair

/-! # The arbiter pool

`ArbiterPool` is both arbiters, each on a machine with a clock of its own, and the two connections
between them. A connection delivers in order, or is cut and loses the end of what it carries; a
process stops and starts again at any point, and a machine reboots, after which its clock starts
again from zero. What the witness and the components send is not restricted at all.

The state also notes, for the properties that are proved of it, what the arbiters have granted and
confirmed, and when each message was sent by the time common to all. -/

namespace PubsubVenue

/-- A message under way between the arbiters. -/
structure Carried where
  message : PeerMessage
  sentAt : Nat
  /-- When the heartbeat was sent whose send time it echoes, if it is a heartbeat that does. -/
  echoSentAt : Nat

/-- A statement an arbiter has confirmed alone. -/
structure AloneConfirmation where
  pairId : Int
  statement : LeaderStatement
  confirmedAt : Nat
  deriving DecidableEq, Repr

/-- A lease granted to a component. -/
structure ComponentGrant where
  arbiter : Instance
  pairId : Int
  candidateId : Int
  grantedAt : Nat
  /-- Whether the arbiter's own lease was then unexpired. -/
  underLease : Bool
  /-- What the other arbiter had confirmed alone and this one did not hold. -/
  lacking : List AloneConfirmation
  deriving DecidableEq, Repr

/-- Both arbiters and what is between them. -/
structure ArbiterPool where
  now : Nat
  bootedAt : Instance → Nat
  /-- The process on each machine, with its file. -/
  arbiter : Instance → Arbiter
  /-- What each has sent over each of its connections and the other has not handled, oldest first. -/
  channel : Instance → PeerLink → List Carried := fun _ _ => []
  /-- Whether what each now sends over a connection can arrive. -/
  live : Instance → PeerLink → Bool := fun _ _ => false
  /-- When the heartbeat was sent whose send time is the newest each has received. -/
  receivedSentAt : Instance → Nat := fun _ => 0
  granted : List ComponentGrant := []
  confirmedAlone : Instance → List AloneConfirmation := fun _ => []

/-- What can happen to the pool. -/
inductive PoolAction where
  | advance (time : Nat)
  /-- An arbiter handles an event that does not come over a connection to the other. -/
  | handle (i : Instance) (event : ArbiterEvent)
  /-- The other arbiter handles the oldest message an arbiter sent over a connection. -/
  | deliver (i : Instance) (link : PeerLink) (saved : Bool)
  /-- The connection an arbiter made is cut; of what it carries, so much still arrives. -/
  | cut (i : Instance) (fromI toI : Nat)
  /-- A process stops and starts again, or its machine reboots. -/
  | restart (i : Instance) (reboot : Bool) (kept : Option LeasePromiseRecord)
    (keptStatement : LeaderStatement)

/-- What comes over a connection to the other arbiter. -/
def ArbiterEvent.carried : ArbiterEvent → Bool
  | heartbeat _ _ => true
  | stateRecord _ _ => true
  | _ => false

/-- The event a message is to the arbiter that handles it. -/
def PeerMessage.event (saved : Bool) : PeerMessage → ArbiterEvent
  | heartbeat sentAt echoed => .heartbeat sentAt echoed
  | stateRecord record => .stateRecord record saved

namespace ArbiterPool

/-- The clock of an arbiter's machine. -/
def clock (s : ArbiterPool) (i : Instance) : Nat := s.now - s.bootedAt i

/-- Whether an arbiter's own lease is unexpired. -/
def leaseUnexpired (s : ArbiterPool) (i : Instance) : Bool :=
  (s.arbiter i).poolLease.participant.acting (s.clock i)

/-- What was sent over a connection. -/
def messagesOn (link : PeerLink) (out : List ArbiterOutput) : List PeerMessage :=
  out.filterMap fun
    | .toPeer l message => if l = link then some message else none
    | _ => none

section

variable (s : ArbiterPool)

/-- What the other arbiter has confirmed alone and this one does not hold. -/
def lacking (i : Instance) : List AloneConfirmation :=
  (s.confirmedAlone i.peer).filter fun c =>
    !decide ((s.arbiter i).componentVoters.Holds c.pairId c.statement)

/-- The leases granted. -/
def grantsIn (i : Instance) (out : List ArbiterOutput) : List ComponentGrant :=
  out.filterMap fun
    | .grant pairId candidateId _ _ =>
      some ⟨i, pairId, candidateId, s.now, s.leaseUnexpired i, s.lacking i⟩
    | _ => none

/-- The statements confirmed alone. -/
def aloneIn (out : List ArbiterOutput) : List AloneConfirmation :=
  out.filterMap fun
    | .statementHeld pairId statement true => some ⟨pairId, statement, s.now⟩
    | _ => none

section

variable (i : Instance)

/-- An arbiter has handled an event and sends what it has to. -/
def emit (a : Arbiter) (out : List ArbiterOutput) : ArbiterPool :=
  { s with
    arbiter := fun j => if j = i then a else s.arbiter j
    channel := fun j link =>
      if j = i ∧ s.live i link = true then
        s.channel j link ++ (messagesOn link out).map fun m => ⟨m, s.now, s.receivedSentAt i⟩
      else s.channel j link
    granted := s.grantsIn i out ++ s.granted
    confirmedAlone := fun j =>
      if j = i then s.aloneIn out ++ s.confirmedAlone j else s.confirmedAlone j }

/-- A connection made can carry what is sent over it. -/
def connect : ArbiterEvent → ArbiterPool
  | .connectionEstablished link =>
    { s with live := fun j l => if j = i ∧ l = link then true else s.live j l }
  | _ => s

/-- The oldest message of a connection has been taken by the other arbiter. -/
def taken (link : PeerLink) (m : Carried) (rest : List Carried) :
    ArbiterPool :=
  { s with
    channel := fun j l => if j = i ∧ l = link then rest else s.channel j l
    receivedSentAt := fun j =>
      if j = i.peer then
        match m.message with
        | .heartbeat sentAt _ =>
          if sentAt > (s.arbiter j).peerContact.newestReceived then m.sentAt
          else s.receivedSentAt j
        | .stateRecord _ => s.receivedSentAt j
      else s.receivedSentAt j }

/-- The connection an arbiter made is cut. -/
def cutLink (fromI toI : Nat) : ArbiterPool :=
  { s with
    channel := fun j link =>
      if j = i ∧ link = .outbound then (s.channel j link).take fromI
      else if j = i.peer ∧ link = .inbound then (s.channel j link).take toI
      else s.channel j link
    live := fun j link =>
      if (j = i ∧ link = .outbound) ∨ (j = i.peer ∧ link = .inbound) then false
      else s.live j link }

/-- The state in which a process starts: its connections are gone, and with them what it had not
handled. -/
def stopped (reboot : Bool) : ArbiterPool :=
  { s with
    bootedAt := fun j => if j = i ∧ reboot = true then s.now else s.bootedAt j
    channel := fun j link => if j = i.peer then [] else s.channel j link
    live := fun _ _ => false
    receivedSentAt := fun j => if j = i then 0 else s.receivedSentAt j }

/-- An arbiter has started again. -/
def restarted (reboot : Bool) (a : Arbiter) : ArbiterPool :=
  { s.stopped i reboot with arbiter := fun j => if j = i then a else s.arbiter j }

end

end

/-- **The machine of the arbiter pool.** -/
def step : Machine ArbiterPool PoolAction
  | s, .advance time => if s.now ≤ time then some { s with now := time } else none
  | s, .handle i event =>
    if event.carried then none
    else ((s.arbiter i).handle (s.clock i) event).toOption.map fun r =>
      (s.connect i event).emit i r.2 r.1
  | s, .deliver i link saved =>
    match s.channel i link with
    | [] => none
    | m :: rest =>
      ((s.arbiter i.peer).handle (s.clock i.peer) (m.message.event saved)).toOption.map fun r =>
        (s.taken i link m rest).emit i.peer r.2 r.1
  | s, .cut i fromI toI => some (s.cutLink i fromI toI)
  | s, .restart i reboot kept keptStatement =>
    (Arbiter.start (s.arbiter i).config (s.arbiter i).store kept keptStatement
      ((s.stopped i reboot).clock i)).toOption.map (s.restarted i reboot)

/-- An arbiter's configuration in the pool: it knows which of the two it is, and both have the same
lease timings. -/
def configFor (lease : LeaseTiming) (config : Instance → ArbiterConfiguration) (i : Instance) :
    ArbiterConfiguration :=
  { config i with instanceId := i.id, peerInstanceId := i.peer.id, lease := lease }

/-- A pool whose arbiters have just started, with whatever is on their disks. -/
def start (lease : LeaseTiming) (config : Instance → ArbiterConfiguration)
    (store : Instance → Statements) (kept : Instance → Option LeasePromiseRecord)
    (bootedAt : Instance → Nat) (began : Nat) : Except String ArbiterPool := do
  let arbiter := fun i => Arbiter.start (configFor lease config i) (store i) (kept i) {} (began - bootedAt i)
  let one ← arbiter .one
  let two ← arbiter .two
  return { now := began, bootedAt
           arbiter := fun
             | .one => one
             | .two => two }

/-! ## What a step does -/

/-- What each action does, and when it can happen. -/
inductive Steps (s : ArbiterPool) : PoolAction → ArbiterPool → Prop
  | advance {time : Nat} (later : s.now ≤ time) : Steps s (.advance time) { s with now := time }
  | handle {i : Instance} {event : ArbiterEvent} {out : List ArbiterOutput} {a : Arbiter}
      (own : event.carried = false) (handled : (s.arbiter i).handle (s.clock i) event = .ok (out, a)) :
      Steps s (.handle i event) ((s.connect i event).emit i a out)
  | deliver {i : Instance} {link : PeerLink} {saved : Bool} {m : Carried} {rest : List Carried}
      {out : List ArbiterOutput} {a : Arbiter} (oldest : s.channel i link = m :: rest)
      (handled : (s.arbiter i.peer).handle (s.clock i.peer) (m.message.event saved) = .ok (out, a)) :
      Steps s (.deliver i link saved) ((s.taken i link m rest).emit i.peer a out)
  | cut {i : Instance} {fromI toI : Nat} : Steps s (.cut i fromI toI) (s.cutLink i fromI toI)
  | restart {i : Instance} {reboot : Bool} {kept : Option LeasePromiseRecord}
      {keptStatement : LeaderStatement} {a : Arbiter}
      (started : Arbiter.start (s.arbiter i).config (s.arbiter i).store kept keptStatement
        ((s.stopped i reboot).clock i) = .ok a) :
      Steps s (.restart i reboot kept keptStatement) (s.restarted i reboot a)

/-- **Every step of the machine is one of these.** -/
theorem steps_of_step {s t : ArbiterPool} {action : PoolAction} (h : step s action = some t) :
    Steps s action t := by
  cases action with
  | advance =>
    obtain ⟨hle, ht⟩ := Option.ite_none_right_eq_some.mp h
    cases ht
    exact .advance hle
  | handle =>
    obtain ⟨hown, ht⟩ := Option.ite_none_left_eq_some.mp h
    obtain ⟨⟨out, a⟩, he, rfl⟩ := Option.map_eq_some_iff.mp ht
    exact .handle (Bool.eq_false_iff.mpr hown) (toOption_eq_some.mp he)
  | deliver =>
    simp only [step] at h
    split at h
    · cases h
    · next hchannel =>
      obtain ⟨⟨out, a⟩, he, rfl⟩ := Option.map_eq_some_iff.mp h
      exact .deliver hchannel (toOption_eq_some.mp he)
  | cut =>
    cases h
    exact .cut
  | restart =>
    obtain ⟨a, ha, rfl⟩ := Option.map_eq_some_iff.mp h
    exact .restart (toOption_eq_some.mp ha)

/-! ## What the parts of the state are after a step -/

variable {s : ArbiterPool} {i : Instance}

/-- The arbiter that has handled an event. -/
@[simp] theorem emit_arbiter (s : ArbiterPool) (i : Instance) (a : Arbiter)
    (out : List ArbiterOutput) (j : Instance) :
    (s.emit i a out).arbiter j = if j = i then a else s.arbiter j := rfl

/-- A lease granted now is one of those sent. -/
theorem mem_grantsIn {out : List ArbiterOutput} {g : ComponentGrant} :
    g ∈ s.grantsIn i out ↔ ∃ p c e r, ArbiterOutput.grant p c e r ∈ out ∧
      g = ⟨i, p, c, s.now, s.leaseUnexpired i, s.lacking i⟩ := by
  unfold grantsIn
  rw [List.mem_filterMap]
  constructor
  · rintro ⟨o, ho, hg⟩
    cases o with
    | grant p c e r => exact ⟨p, c, e, r, ho, (Option.some.inj hg).symm⟩
    | statementHeld | refusal | toPeer => cases hg
  · rintro ⟨p, c, e, r, ho, rfl⟩
    exact ⟨_, ho, rfl⟩

section

variable (s : ArbiterPool) (i : Instance)

/-- The arbiter that has started again. -/
@[simp] theorem restarted_arbiter (reboot : Bool) (a : Arbiter)
    (j : Instance) : (s.restarted i reboot a).arbiter j = if j = i then a else s.arbiter j := rfl

section

variable (event : ArbiterEvent)

/-- Making a connection changes only what can arrive. -/
@[simp] theorem connect_arbiter : (s.connect i event).arbiter = s.arbiter := by
  cases event <;> rfl

/-- Making a connection takes no time. -/
@[simp] theorem connect_now : (s.connect i event).now = s.now := by
  cases event <;> rfl

/-- Making a connection boots no machine. -/
@[simp] theorem connect_bootedAt : (s.connect i event).bootedAt = s.bootedAt := by
  cases event <;> rfl

/-- Making a connection grants nothing. -/
@[simp] theorem connect_granted : (s.connect i event).granted = s.granted := by
  cases event <;> rfl

end

end

end ArbiterPool

end PubsubVenue
