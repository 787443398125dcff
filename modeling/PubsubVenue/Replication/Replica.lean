import PubsubVenue.Lease.Pair
import PubsubVenue.Replication.Repair

/-! # A replicated log

One instance's write-ahead log and its part in replication. As the leader it numbers and writes
records and sends them to its peer once the two logs are known to agree; as a follower it asks where
they agree, cuts its own log back to there, and then writes the records it is sent. `Replica` has
the state of one instance, and one function for each thing that can happen to it, which returns what
it sends its peer. What decides when a record is committed is not here.

* **`Replica.Sound`**: the log is numbered without a gap, its table has every record's epoch, and a
  leader's next number is its last plus one; every operation keeps it. -/

namespace PubsubVenue

open List LogEpochTable

/-- An entry of the write-ahead log. -/
structure SequencedRecord (α : Type) extends LogRecord α where
  seqNo : Nat
  deriving DecidableEq, Repr

/-- Whether an instance leads. -/
inductive ReplicaRole where
  | unknown
  | leader
  | follower
  deriving DecidableEq, Repr

/-- A connection between the two instances: who opened it, and for the how manyth time. -/
structure ConnectionId where
  dialledBy : Instance
  /-- Which of the connections that instance has opened. -/
  made : Nat
  deriving DecidableEq, Repr

/-- What the instances of a pair send each other about their logs. -/
inductive LogMessage (α : Type) where
  | record (r : SequencedRecord α)
  /-- A follower has written a record. -/
  | ack (seqNo : Nat)
  | request (q : PositionRequest)
  | reply (p : PositionReply)
  deriving DecidableEq, Repr

/-- The reading of the log by a thread of its own, for a follower that is behind. -/
structure Reading where
  connection : ConnectionId
  next : Nat
  stopping : Bool := false
  deriving DecidableEq, Repr

/-- One instance's log, and what it knows of its peer's. -/
structure Replica (α : Type) where
  /-- Whether followers that are behind are sent records by a thread of its own. -/
  hasReadingThread : Bool
  role : ReplicaRole := .unknown
  /-- The epoch put on records written. -/
  epoch : Int := 0
  wal : List (SequencedRecord α) := []
  logEpochs : LogEpochTable := {}
  /-- The number of the next record written as leader. -/
  nextSeqNo : Nat := 1
  /-- The highest record written as follower. -/
  highestReplicatedSeqNo : Nat := 0
  /-- As follower: this log and the leader's are known to agree. -/
  followerWalAgreed : Bool := false
  /-- As leader: the follower is sent each new record. -/
  followerWalMatches : Bool := false
  /-- As leader: the highest record the follower has acknowledged. -/
  peerAckedThrough : Nat := 0
  /-- As leader: the last record the follower was sent when it was handed over to new records. -/
  peerHandedOverAt : Nat := 0
  /-- As leader: the follower is being sent the records it lacks. -/
  peerCatchingUp : Bool := false
  /-- The record after which it is being sent them. -/
  peerCatchUpAfter : Nat := 0
  /-- A request that waits for the reading to stop. -/
  unansweredRequest : Option PositionRequest := none
  outbound : Option ConnectionId := none
  /-- The connection the peer opened. -/
  inbound : Option ConnectionId := none
  reading : Option Reading := none
  /-- How many confirmations that the reading thread has stopped are still to come. -/
  confirmationsAwaited : Nat := 0
  deriving DecidableEq, Repr

namespace Replica

variable {α : Type}

section

variable (x : Replica α)

/-- The connection this instance sends on. -/
def peerActiveConn : Option ConnectionId := x.outbound <|> x.inbound

/-- Whether the peer is connected. -/
def peerConnected : Bool := x.peerActiveConn.isSome

/-- Whether everything the reading thread was told to stop has stopped. -/
def readingHasStopped : Bool := decide (x.confirmationsAwaited = 0)

/-- The number of the last record the table knows of. -/
def lastSeqNo : Nat := x.logEpochs.lastSeqNo

/-- Write a record. One that does not follow the last is written too, but the table is not extended
past the gap. -/
def write (r : SequencedRecord α) : Replica α :=
  { x with
    wal := x.wal ++ [r]
    logEpochs := if r.seqNo ≠ x.lastSeqNo + 1 then x.logEpochs else x.logEpochs.extend r.epoch }

/-- As the leader: number a record, write it and send it to the follower. -/
def append (contents : α) : Replica α × List (LogMessage α) :=
  let r : SequencedRecord α := { seqNo := x.nextSeqNo, epoch := x.epoch, contents }
  ({ x.write r with nextSeqNo := x.nextSeqNo + 1 },
    if x.followerWalMatches && x.peerConnected then [.record r] else [])

/-- A record arrives. What is returned is sent on the connection it came on. -/
def handleRecord (r : SequencedRecord α) : Replica α × List (LogMessage α) :=
  if x.role = .leader ∨ x.followerWalAgreed = false then (x, [])
  else if r.seqNo ≤ x.lastSeqNo then (x, [])
  else if r.seqNo > x.lastSeqNo + 1 then ({ x with followerWalAgreed := false }, [])
  else
    ({ x.write r with highestReplicatedSeqNo := max x.highestReplicatedSeqNo r.seqNo }, [.ack r.seqNo])

/-- An acknowledgement arrives. -/
def handleAck (seqNo : Nat) : Replica α :=
  if x.role ≠ .leader then x else { x with peerAckedThrough := max x.peerAckedThrough seqNo }

/-- Tell the reading thread to stop sending to the follower, and to confirm it. -/
def stopPeerCatchUp : Replica α :=
  match x.reading with
  | none => x
  | some reading =>
    { x with
      reading := some { reading with stopping := true }
      confirmationsAwaited := x.confirmationsAwaited + 1 }

/-- Forget that the logs agree. A leader tells its follower to ask again. -/
def forgetAgreement : Replica α × List (LogMessage α) :=
  let stopped := if x.peerCatchingUp then x.stopPeerCatchUp else x
  ({ stopped with
      unansweredRequest := none, followerWalAgreed := false, followerWalMatches := false
      peerHandedOverAt := 0, peerCatchingUp := false },
    if x.role = .leader ∧ x.peerConnected then [.reply { askAgain := true }] else [])

/-- A follower whose log is not known to agree asks where it does. -/
def sendPositionRequest : List (LogMessage α) :=
  if x.role = .leader ∨ x.peerConnected = false ∨ x.followerWalAgreed then []
  else [.request x.logEpochs.positionRequest]

/-- The reply to a request is sent, and if the logs agree the records after that position follow it:
from the reading thread, or at once. -/
def answerPositionRequest (q : PositionRequest) (reply : PositionReply) : Replica α × List (LogMessage α) :=
  let answered := { x with unansweredRequest := none }
  if reply.agreed = false then (answered, [.reply reply])
  else
    let afresh :=
      { answered with
        peerHandedOverAt := if x.followerWalMatches then 0 else x.peerHandedOverAt
        followerWalMatches := false, peerAckedThrough := q.lastSeqNo }
    if x.hasReadingThread then
      ({ afresh with
          peerCatchingUp := true, peerCatchUpAfter := q.lastSeqNo
          reading := x.peerActiveConn.map fun c => { connection := c, next := q.lastSeqNo + 1 } },
        [.reply reply])
    else
      ({ afresh with followerWalMatches := true, peerHandedOverAt := x.lastSeqNo },
        .reply reply :: (x.wal.filter fun r => decide (q.lastSeqNo < r.seqNo)).map .record)

/-- A request arrives. -/
def handlePositionRequest (q : PositionRequest) : Except String (Replica α × List (LogMessage α)) :=
  if x.role ≠ .leader ∨ x.peerConnected = false then .ok (x, [])
  else
    (x.logEpochs.positionReply q).map fun reply =>
      if x.hasReadingThread ∧ reply.agreed ∧ x.peerCatchingUp ∧ q.lastSeqNo = x.peerCatchUpAfter then
        -- The records after that position are being sent already.
        (x, [])
      else if x.hasReadingThread ∧ x.peerCatchingUp then
        ({ x.stopPeerCatchUp with peerCatchingUp := false, unansweredRequest := some q }, [])
      else if x.hasReadingThread ∧ x.readingHasStopped = false then
        ({ x with unansweredRequest := some q }, [])
      else x.answerPositionRequest q reply

/-- The reading thread has sent the follower every record. -/
def onPeerCaughtUp (through : Nat) : Replica α :=
  if x.peerCatchingUp = false ∨ x.role ≠ .leader then x
  else { x with peerCatchingUp := false, followerWalMatches := true, peerHandedOverAt := through }

/-- The reading thread has confirmed that it has stopped: a request that waited is handled. -/
def onPeerCatchUpStopped : Except String (Replica α × List (LogMessage α)) :=
  match x.unansweredRequest with
  | none => .ok (x, [])
  | some q =>
    if x.hasReadingThread = false ∨ x.readingHasStopped = false then .ok (x, [])
    else { x with unansweredRequest := none }.handlePositionRequest q

/-- Discard every record after one. -/
def truncateAfter (seqNo : Nat) : Except String (Replica α) := do
  let table ← x.logEpochs.truncateAfter seqNo
  return { x with
    wal := x.wal.takeWhile fun r => decide (r.seqNo ≤ seqNo)
    logEpochs := table, highestReplicatedSeqNo := seqNo, nextSeqNo := seqNo + 1 }

/-- What a follower does with a reply that tells it through which record to keep its log. Nothing is
cut while the log may still be being read. -/
def takeStep (step : FollowerStep) : Except String (Replica α × List (LogMessage α)) :=
  if step.keepThrough < x.lastSeqNo ∧ x.hasReadingThread ∧ x.readingHasStopped = false then
    .ok (x, [])
  else
    (if step.keepThrough < x.lastSeqNo then x.truncateAfter step.keepThrough else .ok x).map fun kept =>
        if step.agreed then ({ kept with followerWalAgreed := true }, [])
        else (kept, kept.sendPositionRequest)

/-- A reply arrives. -/
def handlePositionReply (reply : PositionReply) : Except String (Replica α × List (LogMessage α)) :=
  if x.role = .leader then .ok (x, [])
  else if reply.askAgain then
    .ok ({ x with followerWalAgreed := false }, sendPositionRequest { x with followerWalAgreed := false })
  else if x.followerWalAgreed then .ok (x, [])
  else x.logEpochs.onPositionReply reply >>= x.takeStep

/-- Set the connection this instance opened, or the one its peer did. -/
def setConnection (outward : Bool) (c : Option ConnectionId) : Replica α :=
  if outward then { x with outbound := c } else { x with inbound := c }

/-- A connection to the peer has been established: one this instance opened, or one its peer did. -/
def onPeerConnectionEstablished (outward : Bool) (c : ConnectionId) : Replica α × List (LogMessage α) :=
  let forgot := (x.setConnection outward (some c)).forgetAgreement
  (forgot.1, forgot.2 ++ forgot.1.sendPositionRequest)

/-- A connection to the peer has gone. -/
def onPeerConnectionLost (outward : Bool) : Replica α × List (LogMessage α) :=
  (x.setConnection outward none).forgetAgreement

/-- Take or leave the lead. A new leader numbers its records above every record its log holds; one
that leaves the lead stops every reading of its log. -/
def changeRole (role : ReplicaRole) : Replica α × List (LogMessage α) :=
  if role = x.role then (x, [])
  else
    let (forgot, told) := { x with role := role }.forgetAgreement
    let stopped := if x.role = .leader ∧ x.hasReadingThread then
      { forgot with confirmationsAwaited := forgot.confirmationsAwaited + 1 } else forgot
    if role = .leader then
      ({ stopped with
          nextSeqNo := if stopped.highestReplicatedSeqNo ≥ stopped.nextSeqNo
            then stopped.highestReplicatedSeqNo + 1 else stopped.nextSeqNo
          peerAckedThrough := 0 }, told)
    else if role = .follower then (stopped, told ++ stopped.sendPositionRequest)
    else (stopped, told)

/-- Raise the epoch. It never goes back. -/
def setEpoch (epoch : Int) : Replica α :=
  if epoch < x.epoch then x else { x with epoch := epoch }

end

/-- The records read when the log is opened: those before the first gap. -/
def readAtOpen (expected : Nat) : List (SequencedRecord α) → List (SequencedRecord α)
  | [] => []
  | r :: rest => if r.seqNo ≠ expected then [] else r :: readAtOpen (expected + 1) rest

/-- Open the log left on disk, with the epoch kept beside it. -/
def reopen (x : Replica α) (epoch : Int) : Replica α :=
  let kept := readAtOpen 1 x.wal
  { hasReadingThread := x.hasReadingThread
    epoch := epoch
    wal := kept
    logEpochs := ofEpochs (kept.map fun r => r.epoch)
    nextSeqNo := kept.length + 1
    highestReplicatedSeqNo := kept.length }

/-! ## A log numbered without a gap -/

/-- The records of a log are numbered from one, without a gap. -/
def Numbered (wal : List (SequencedRecord α)) : Prop := ∀ n r, wal[n]? = some r → r.seqNo = n + 1

/-- **A sound replica.** The log is numbered without a gap, the table has every record's epoch, and
the next number and the highest replicated one are never past the end, which one of them is at. -/
structure Sound (x : Replica α) : Prop where
  numbered : Numbered x.wal
  table : x.logEpochs = ofEpochs (x.wal.map fun r => r.epoch)
  next : x.nextSeqNo ≤ x.wal.length + 1
  replicated : x.highestReplicatedSeqNo ≤ x.wal.length
  last : x.nextSeqNo = x.wal.length + 1 ∨ x.highestReplicatedSeqNo = x.wal.length
  /-- A leader's next number is its last plus one. -/
  leads : x.role = .leader → x.nextSeqNo = x.wal.length + 1
  /-- A leader does not take itself for a follower. -/
  follows : x.role = .leader → x.followerWalAgreed = false

variable {x y : Replica α}

open SequencedRecord

/-- The table of a sound replica is the table of its log. -/
theorem Sound.table_ofLog (h : Sound x) : x.logEpochs = ofLog (x.wal.map toLogRecord) := by
  rw [h.table, ofLog, map_map]
  rfl

/-- The last record of a sound replica is as many as there are. -/
theorem Sound.lastSeqNo_eq (h : Sound x) : x.lastSeqNo = x.wal.length := by
  rw [lastSeqNo, h.table, lastSeqNo_ofEpochs, length_map]

variable {wal : List (SequencedRecord α)} {r : SequencedRecord α}

section

variable (h : Numbered wal)
include h

/-- A log numbered without a gap, and the next record. -/
theorem Numbered.concat (hr : r.seqNo = wal.length + 1) : Numbered (wal ++ [r]) := by
  intro n r' hn
  rcases getElem?_concat_eq_some hn with hold | ⟨rfl, rfl⟩
  · exact h n r' hold
  · exact hr

/-- The beginning of a log numbered without a gap. -/
theorem Numbered.take (k : Nat) : Numbered (wal.take k) := by
  intro n r hn
  obtain ⟨hlt, -⟩ := List.getElem?_eq_some_iff.mp hn
  rw [length_take] at hlt
  rw [getElem?_take_of_lt (by omega)] at hn
  exact h n r hn

/-- The record of a number is at its place. -/
theorem Numbered.getElem?_of_mem (hr : r ∈ wal) : ∃ n, r.seqNo = n + 1 ∧ wal[n]? = some r := by
  obtain ⟨n, hn⟩ := mem_iff_getElem?.mp hr
  exact ⟨n, h n r hn, hn⟩

/-- The records numbered `k` or lower are the first `k`. -/
theorem Numbered.takeWhile_eq (k : Nat) : wal.takeWhile (fun r => decide (r.seqNo ≤ k)) = wal.take k := by
  have hkept : ∀ r ∈ wal.take k, decide (r.seqNo ≤ k) = true := by
    intro r hr
    obtain ⟨n, hseq, hn⟩ := (h.take k).getElem?_of_mem hr
    obtain ⟨hlt, -⟩ := List.getElem?_eq_some_iff.mp hn
    rw [length_take] at hlt
    exact decide_eq_true (by omega)
  have hcut : (wal.drop k).takeWhile (fun r => decide (r.seqNo ≤ k)) = [] := by
    cases hdrop : wal.drop k with
    | nil => rfl
    | cons r =>
      have hget : wal[k]? = some r := by
        rw [show wal[k]? = (wal.drop k)[0]? by rw [getElem?_drop, Nat.add_zero], hdrop]
        rfl
      rw [takeWhile_cons_of_neg]
      rw [h k r hget, decide_eq_true_eq]
      omega
  calc wal.takeWhile (fun r => decide (r.seqNo ≤ k))
      = (wal.take k ++ wal.drop k).takeWhile (fun r => decide (r.seqNo ≤ k)) := by
        rw [take_append_drop]
    _ = wal.take k ++ (wal.drop k).takeWhile (fun r => decide (r.seqNo ≤ k)) :=
        takeWhile_append_of_pos hkept
    _ = wal.take k := by rw [hcut, append_nil]

end

/-- What is read when a log numbered without a gap is opened is all of it. -/
theorem Numbered.readAtOpen_eq {k : Nat} (h : ∀ n r, wal[n]? = some r → r.seqNo = n + k) :
    readAtOpen k wal = wal := by
  induction wal generalizing k with
  | nil => rfl
  | cons r rest ih =>
    have hr := h 0 r rfl
    rw [readAtOpen, if_neg (by omega), ih fun n r' hn => ?_]
    have := h (n + 1) r' hn
    omega

/-! ## What leaves the log alone -/

/-- An operation that leaves the log, the role and the epoch alone, and makes no agreement. -/
structure Quiet (x y : Replica α) : Prop where
  wal : y.wal = x.wal
  logEpochs : y.logEpochs = x.logEpochs
  nextSeqNo : y.nextSeqNo = x.nextSeqNo
  highestReplicatedSeqNo : y.highestReplicatedSeqNo = x.highestReplicatedSeqNo
  role : y.role = x.role
  epoch : y.epoch = x.epoch
  agreed : y.followerWalAgreed = true → x.followerWalAgreed = true

/-- Doing nothing is quiet. -/
theorem Quiet.refl (x : Replica α) : Quiet x x := ⟨rfl, rfl, rfl, rfl, rfl, rfl, id⟩

/-- Two quiet operations are quiet. -/
theorem Quiet.trans {z : Replica α} (h : Quiet x y) (h' : Quiet y z) : Quiet x z :=
  ⟨h'.wal.trans h.wal, h'.logEpochs.trans h.logEpochs, h'.nextSeqNo.trans h.nextSeqNo,
    h'.highestReplicatedSeqNo.trans h.highestReplicatedSeqNo, h'.role.trans h.role,
    h'.epoch.trans h.epoch, fun ha => h.agreed (h'.agreed ha)⟩

/-- A replica whose log, numbers and table are a sound one's, and that does not lead or leads with
the next number its last plus one. -/
theorem Sound.of_same (h : Sound x) (hwal : y.wal = x.wal) (htable : y.logEpochs = x.logEpochs)
    (hrep : y.highestReplicatedSeqNo = x.highestReplicatedSeqNo)
    (hnext : y.nextSeqNo = x.nextSeqNo ∨ y.nextSeqNo = x.wal.length + 1)
    (hlead : y.role = .leader → y.nextSeqNo = x.wal.length + 1 ∧ y.followerWalAgreed = false) : Sound y where
  numbered := hwal ▸ h.numbered
  table := by rw [htable, hwal, h.table]
  next := by
    have := h.next
    rw [hwal]
    omega
  replicated := by
    rw [hrep, hwal]
    exact h.replicated
  last := by
    have := h.last
    rw [hrep, hwal]
    omega
  leads := fun hl => by
    rw [hwal]
    exact (hlead hl).1
  follows := fun hl => (hlead hl).2

/-- A quiet operation keeps a replica sound. -/
theorem Sound.quiet (h : Sound x) (hq : Quiet x y) : Sound y := by
  refine h.of_same hq.wal hq.logEpochs hq.highestReplicatedSeqNo (.inl hq.nextSeqNo) fun hlead => ?_
  rw [hq.role] at hlead
  refine ⟨hq.nextSeqNo.trans (h.leads hlead), Bool.eq_false_iff.mpr fun hagreed => ?_⟩
  exact Bool.false_ne_true ((h.follows hlead).symm.trans (hq.agreed hagreed))

section

variable (x : Replica α)

/-- Stopping the reading is quiet. -/
theorem quiet_stopPeerCatchUp : Quiet x x.stopPeerCatchUp := by
  unfold stopPeerCatchUp
  split
  · exact Quiet.refl x
  · exact ⟨rfl, rfl, rfl, rfl, rfl, rfl, id⟩

/-- Forgetting the agreement is quiet, and there is none afterwards. -/
theorem quiet_forgetAgreement :
    Quiet x x.forgetAgreement.1 ∧ x.forgetAgreement.1.followerWalAgreed = false := by
  have hstop : Quiet x (if x.peerCatchingUp then x.stopPeerCatchUp else x) := by
    split
    · exact quiet_stopPeerCatchUp x
    · exact Quiet.refl x
  exact ⟨⟨hstop.wal, hstop.logEpochs, hstop.nextSeqNo, hstop.highestReplicatedSeqNo, hstop.role,
    hstop.epoch, nofun⟩, rfl⟩

/-- An acknowledgement is quiet. -/
theorem quiet_handleAck (seqNo : Nat) : Quiet x (x.handleAck seqNo) := by
  unfold handleAck
  split
  · exact Quiet.refl x
  · exact ⟨rfl, rfl, rfl, rfl, rfl, rfl, id⟩

/-- The hand-over to new records is quiet. -/
theorem quiet_onPeerCaughtUp (through : Nat) : Quiet x (x.onPeerCaughtUp through) := by
  unfold onPeerCaughtUp
  split
  · exact Quiet.refl x
  · exact ⟨rfl, rfl, rfl, rfl, rfl, rfl, id⟩

/-- A connection made or lost is quiet. -/
theorem quiet_setConnection (outward : Bool) (c : Option ConnectionId) :
    Quiet x (x.setConnection outward c) := by
  cases outward with
  | true | false => exact ⟨rfl, rfl, rfl, rfl, rfl, rfl, id⟩

/-! ## What is sent -/

/-- What a replica's message says of it: a record is in its log, a request is for the position its
log ends at, and only a leader says that logs agree, in a reply it finds in its own table. -/
def Says (answers : Option PositionRequest) : LogMessage α → Prop
  | .record r => r ∈ x.wal
  | .ack _ => True
  | .request q => q = x.logEpochs.positionRequest
  | .reply p => (p.agreed = false ∧ answers = none) ∨
      (x.role = .leader ∧ ∃ q, answers = some q ∧ x.logEpochs.positionReply q = .ok p)

end

/-- What a message says is as true of a replica with the same log and role. -/
theorem Says.quiet (hq : Quiet x y) {answers : Option PositionRequest} {m : LogMessage α}
    (h : Says x answers m) : Says y answers m := by
  cases m with
  | record r =>
    show r ∈ y.wal
    rw [hq.wal]
    exact h
  | ack => trivial
  | request q =>
    show q = y.logEpochs.positionRequest
    rw [hq.logEpochs]
    exact h
  | reply =>
    rcases h with h | ⟨hrole, q, hans, hp⟩
    · exact .inl h
    · exact .inr ⟨hq.role.trans hrole, q, hans, hq.logEpochs.symm ▸ hp⟩

/-- What is sent when an agreement is forgotten. -/
theorem says_forgetAgreement (x y : Replica α) : ∀ m ∈ x.forgetAgreement.2, Says y none m := by
  intro m hm
  simp only [forgetAgreement] at hm
  split at hm
  · rw [mem_singleton.mp hm]
    exact .inl ⟨rfl, rfl⟩
  · cases hm

/-- What is sent to ask where the logs agree. -/
theorem says_sendPositionRequest (x : Replica α) (answers : Option PositionRequest) :
    ∀ m ∈ x.sendPositionRequest, Says x answers m := by
  intro m hm
  unfold sendPositionRequest at hm
  split at hm
  · cases hm
  · rw [mem_singleton.mp hm]
    exact rfl

/-- What answering a request does: the reply is sent, and no request waits any more. -/
theorem answerPositionRequest_spec (x : Replica α) {q : PositionRequest} {reply : PositionReply}
    (hsaid : Says x (some q) (.reply reply)) : Quiet x (x.answerPositionRequest q reply).1 ∧
      (∀ m ∈ (x.answerPositionRequest q reply).2, Says x (some q) m) ∧
      (x.answerPositionRequest q reply).1.unansweredRequest = none := by
  unfold answerPositionRequest
  dsimp only
  split
  · exact ⟨⟨rfl, rfl, rfl, rfl, rfl, rfl, id⟩, fun m hm => mem_singleton.mp hm ▸ hsaid, rfl⟩
  split
  · exact ⟨⟨rfl, rfl, rfl, rfl, rfl, rfl, id⟩, fun m hm => mem_singleton.mp hm ▸ hsaid, rfl⟩
  · refine ⟨⟨rfl, rfl, rfl, rfl, rfl, rfl, id⟩, fun m hm => ?_, rfl⟩
    rcases mem_cons.mp hm with rfl | hm
    · exact hsaid
    · obtain ⟨r, hr, rfl⟩ := mem_map.mp hm
      exact (mem_filter.mp hr).1

variable {ms : List (LogMessage α)} {q : PositionRequest}

/-- **What a request does**: it is quiet, what is sent answers it, and the request that waits
afterwards is the one that did or the new one. -/
theorem handlePositionRequest_spec (h : x.handlePositionRequest q = .ok (y, ms)) :
    Quiet x y ∧ (∀ m ∈ ms, Says y (some q) m) ∧
      ∀ q', y.unansweredRequest = some q' → x.unansweredRequest = some q' ∨ q' = q := by
  unfold handlePositionRequest at h
  split at h
  · cases h
    exact ⟨Quiet.refl x, nofun, fun _ hq => .inl hq⟩
  rename_i hleads
  rw [not_or, not_not] at hleads
  obtain ⟨reply, hr, hreply⟩ := map_eq_ok.mp h
  split at hreply
  · cases hreply
    exact ⟨Quiet.refl x, nofun, fun _ hq => .inl hq⟩
  split at hreply
  · cases hreply
    have hstop := quiet_stopPeerCatchUp x
    exact ⟨⟨hstop.wal, hstop.logEpochs, hstop.nextSeqNo, hstop.highestReplicatedSeqNo, hstop.role,
      hstop.epoch, hstop.agreed⟩, nofun, fun _ hq => .inr (Option.some.inj hq).symm⟩
  split at hreply
  · cases hreply
    exact ⟨⟨rfl, rfl, rfl, rfl, rfl, rfl, id⟩, nofun, fun _ hq => .inr (Option.some.inj hq).symm⟩
  · obtain ⟨hquiet, hsaid, hnone⟩ := answerPositionRequest_spec x (.inr ⟨hleads.1, q, rfl, hr⟩)
    rw [hreply] at hquiet hsaid hnone
    exact ⟨hquiet, fun m hm => (hsaid m hm).quiet hquiet, fun q' hq => by cases hnone.symm.trans hq⟩

/-- The end of a reading is quiet, and a request that waited is answered. -/
theorem onPeerCatchUpStopped_spec (h : x.onPeerCatchUpStopped = .ok (y, ms)) :
    Quiet x y ∧ (∀ m ∈ ms, Says y x.unansweredRequest m) ∧
      ∀ q, y.unansweredRequest = some q → x.unansweredRequest = some q := by
  unfold onPeerCatchUpStopped at h
  split at h
  · cases h
    exact ⟨Quiet.refl x, nofun, fun _ hq => hq⟩
  rename_i asked hasked
  split at h
  · cases h
    exact ⟨Quiet.refl x, nofun, fun _ hq => hq⟩
  · have hq : Quiet x { x with unansweredRequest := none } := ⟨rfl, rfl, rfl, rfl, rfl, rfl, id⟩
    obtain ⟨hquiet, hsaid, hwaits⟩ := handlePositionRequest_spec h
    refine ⟨hq.trans hquiet, hasked ▸ hsaid, fun q hq => ?_⟩
    rcases hwaits q hq with hc | rfl
    · cases hc
    · exact hasked

/-! ## What writes the log, and what cuts it back -/

/-- Writing the next record keeps the log numbered and its table right. -/
theorem Sound.write (h : Sound x) (hr : r.seqNo = x.wal.length + 1) : Numbered (x.wal ++ [r]) ∧
      (x.write r).logEpochs = ofEpochs ((x.wal ++ [r]).map fun r => r.epoch) := by
  refine ⟨h.numbered.concat hr, ?_⟩
  have hnext : ¬ r.seqNo ≠ x.lastSeqNo + 1 := by
    rw [h.lastSeqNo_eq, hr]
    exact not_not.mpr rfl
  show (if r.seqNo ≠ x.lastSeqNo + 1 then x.logEpochs else x.logEpochs.extend r.epoch) = _
  rw [if_neg hnext, map_append, map_singleton, ofEpochs_concat, h.table]

/-- **A leader that appends stays sound.** -/
theorem Sound.append (h : Sound x) (hlead : x.role = .leader) (contents : α) : Sound (x.append contents).1 ∧
      ∃ r : SequencedRecord α, r.seqNo = x.wal.length + 1 ∧ r.epoch = x.epoch ∧
        (x.append contents).1.wal = x.wal ++ [r] ∧ ∀ m ∈ (x.append contents).2, m = .record r := by
  have hnext := h.leads hlead
  obtain ⟨hnum, htable⟩ := h.write (r := { seqNo := x.nextSeqNo, epoch := x.epoch, contents }) hnext
  have hlen : (x.append contents).1.wal.length = x.wal.length + 1 := length_append
  have hnext' : (x.append contents).1.nextSeqNo = (x.append contents).1.wal.length + 1 := by
    rw [hlen, ← hnext]
    rfl
  refine ⟨⟨hnum, htable, hnext'.le, ?_, .inl hnext', fun _ => hnext', h.follows⟩, _, hnext, rfl, rfl, ?_⟩
  · rw [hlen]
    exact h.replicated.trans (Nat.le_succ _)
  · intro m hm
    simp only [Replica.append] at hm
    split at hm
    · exact mem_singleton.mp hm
    · cases hm

/-- **What a record does** to a sound replica: nothing, the end of the agreement, or the record is
written after the last and acknowledged. -/
theorem Sound.handleRecord (h : Sound x) (r : SequencedRecord α) :
    (Quiet x (x.handleRecord r).1 ∧ (x.handleRecord r).2 = []) ∨
      (x.role ≠ .leader ∧ x.followerWalAgreed = true ∧ r.seqNo = x.wal.length + 1 ∧
        Sound (x.handleRecord r).1 ∧ (x.handleRecord r).1.wal = x.wal ++ [r] ∧
        (x.handleRecord r).1.role = x.role ∧ (x.handleRecord r).1.epoch = x.epoch ∧
        (x.handleRecord r).2 = [.ack r.seqNo]) := by
  unfold Replica.handleRecord
  rw [h.lastSeqNo_eq]
  split
  · exact .inl ⟨Quiet.refl x, rfl⟩
  rename_i hfollows
  rw [not_or, Bool.not_eq_false] at hfollows
  split
  · exact .inl ⟨Quiet.refl x, rfl⟩
  split
  · exact .inl ⟨⟨rfl, rfl, rfl, rfl, rfl, rfl, nofun⟩, rfl⟩
  · have hr : r.seqNo = x.wal.length + 1 := by omega
    obtain ⟨hnum, htable⟩ := h.write hr
    refine .inr ⟨hfollows.1, hfollows.2, hr, ?_, rfl, rfl, rfl, rfl⟩
    have hlen : (x.wal ++ [r]).length = x.wal.length + 1 := by simp
    have hrep : max x.highestReplicatedSeqNo r.seqNo = (x.wal ++ [r]).length := by
      have := h.replicated
      omega
    exact
      { numbered := hnum
        table := htable
        next := h.next.trans (by show _ ≤ (x.wal ++ [r]).length + 1; omega)
        replicated := hrep.le
        last := .inr hrep
        leads := fun hc => absurd hc hfollows.1
        follows := fun hc => absurd hc hfollows.1 }

/-- Cutting a sound replica's log back. -/
theorem Sound.truncateAfter (h : Sound x) (hrole : x.role ≠ .leader) {k : Nat}
    (hk : k ≤ x.wal.length) (hy : x.truncateAfter k = .ok y) :
    Sound y ∧ y.wal = x.wal.take k ∧ y.role = x.role ∧ y.epoch = x.epoch ∧
      y.followerWalAgreed = x.followerWalAgreed ∧ y.unansweredRequest = x.unansweredRequest := by
  unfold Replica.truncateAfter at hy
  rw [h.table, truncateAfter_ofEpochs (by rwa [length_map]), h.numbered.takeWhile_eq] at hy
  cases hy
  have hlen : (x.wal.take k).length = k := by
    rw [length_take]
    omega
  refine ⟨⟨h.numbered.take k, ?_, ?_, ?_, .inl ?_, fun hc => absurd hc hrole, fun hc => absurd hc hrole⟩,
    rfl, rfl, rfl, rfl, rfl⟩
  · rw [map_take]
  all_goals rw [hlen]

variable {reply : PositionReply}

/-- **What a reply does** to a sound replica: nothing, the end of the agreement, or a follower whose
log was not known to agree keeps the part of it that the reply says. The request that waits is left
alone. -/
theorem Sound.handlePositionReply (h : Sound x) (hy : x.handlePositionReply reply = .ok (y, ms)) :
    (∀ m ∈ ms, Says y none m) ∧ y.unansweredRequest = x.unansweredRequest ∧
      (Quiet x y ∨ (x.role ≠ .leader ∧ x.followerWalAgreed = false ∧ reply.askAgain = false ∧
        Sound y ∧ y.role = x.role ∧ y.epoch = x.epoch ∧
        ∃ step, x.logEpochs.onPositionReply reply = .ok step ∧ step.keepThrough ≤ x.wal.length ∧
          y.wal = x.wal.take step.keepThrough ∧ y.followerWalAgreed = step.agreed)) := by
  unfold Replica.handlePositionReply at hy
  split at hy
  · cases hy
    exact ⟨nofun, rfl, .inl (Quiet.refl x)⟩
  rename_i hrole
  split at hy
  · cases hy
    exact ⟨says_sendPositionRequest _ none, rfl, .inl ⟨rfl, rfl, rfl, rfl, rfl, rfl, nofun⟩⟩
  rename_i hask
  split at hy
  · cases hy
    exact ⟨nofun, rfl, .inl (Quiet.refl x)⟩
  rename_i hagreed
  rw [Bool.not_eq_true] at hask hagreed
  obtain ⟨step, hstep, hy⟩ := bind_eq_ok.mp hy
  have hkeep : step.keepThrough ≤ x.wal.length := by
    have := (onPositionReply_ofLog (h.table_ofLog ▸ hstep)).1
    rwa [length_map] at this
  unfold takeStep at hy
  rw [h.lastSeqNo_eq] at hy
  split at hy
  · cases hy
    exact ⟨nofun, rfl, .inl (Quiet.refl x)⟩
  obtain ⟨kept, hkept, hy⟩ := map_eq_ok.mp hy
  -- Whether or not anything is cut, what is kept is the log through that record.
  have hk : Sound kept ∧ kept.wal = x.wal.take step.keepThrough ∧ kept.role = x.role ∧
      kept.epoch = x.epoch ∧ kept.followerWalAgreed = x.followerWalAgreed ∧
      kept.unansweredRequest = x.unansweredRequest := by
    split at hkept
    · exact h.truncateAfter hrole hkeep hkept
    · cases hkept
      exact ⟨h, (take_of_length_le (by omega)).symm, rfl, rfl, rfl, rfl⟩
  obtain ⟨hsound, hwal, hkrole, hkepoch, hkagreed, hkwaits⟩ := hk
  split at hy
  · rename_i hstepAgreed
    cases hy
    have hnot : kept.role ≠ .leader := by
      rw [hkrole]
      exact hrole
    exact ⟨nofun, hkwaits, .inr ⟨hrole, hagreed, hask, { hsound with follows := fun hc => absurd hc hnot },
      hkrole, hkepoch, step, hstep, hkeep, hwal, hstepAgreed.symm⟩⟩
  · rename_i hstepAgreed
    cases hy
    rw [Bool.not_eq_true] at hstepAgreed
    exact ⟨says_sendPositionRequest _ none, hkwaits, .inr ⟨hrole, hagreed, hask, hsound, hkrole, hkepoch,
      step, hstep, hkeep, hwal, by rw [hkagreed, hagreed, hstepAgreed]⟩⟩

/-- **What a change of role does** to a sound replica: the log is as it was, an agreement ends
unless the role is the same, and no other request waits. -/
theorem Sound.changeRole (h : Sound x) (role : ReplicaRole) :
    Sound (x.changeRole role).1 ∧ (x.changeRole role).1.wal = x.wal ∧
      (x.changeRole role).1.role = role ∧ (x.changeRole role).1.epoch = x.epoch ∧
      ((x.changeRole role).1.followerWalAgreed = true → x.followerWalAgreed = true) ∧
      (∀ m ∈ (x.changeRole role).2, Says (x.changeRole role).1 none m) ∧
      ∀ q, (x.changeRole role).1.unansweredRequest = some q → x.unansweredRequest = some q := by
  unfold Replica.changeRole
  split
  · rename_i hsame
    exact ⟨h, rfl, hsame.symm, rfl, id, nofun, fun _ hq => hq⟩
  dsimp only
  obtain ⟨hq, hforgot⟩ := quiet_forgetAgreement { x with role := role }
  have hsaid := says_forgetAgreement { x with role := role }
  have hwaits : (forgetAgreement { x with role := role }).1.unansweredRequest = none := rfl
  generalize forgetAgreement { x with role := role } = forgot at hq hforgot hsaid hwaits ⊢
  -- Whether or not a confirmation is awaited, nothing else changes.
  set stopped := if x.role = .leader ∧ x.hasReadingThread then
    { forgot.1 with confirmationsAwaited := forgot.1.confirmationsAwaited + 1 } else forgot.1 with hs
  have hstop : stopped.wal = x.wal ∧ stopped.logEpochs = x.logEpochs ∧ stopped.nextSeqNo = x.nextSeqNo ∧
      stopped.highestReplicatedSeqNo = x.highestReplicatedSeqNo ∧ stopped.role = role ∧
      stopped.epoch = x.epoch ∧ stopped.followerWalAgreed = false ∧ stopped.unansweredRequest = none := by
    rw [hs]
    split <;> exact ⟨hq.wal, hq.logEpochs, hq.nextSeqNo, hq.highestReplicatedSeqNo, hq.role,
      hq.epoch, hforgot, hwaits⟩
  obtain ⟨hwal, htable, hnext, hrep, hrole, hepoch, hagreed, hnone⟩ := hstop
  have hended : stopped.followerWalAgreed = true → x.followerWalAgreed = true :=
    fun ha => absurd ha (by rw [hagreed]; decide)
  have hsilent : ∀ q, stopped.unansweredRequest = some q → x.unansweredRequest = some q :=
    fun q hq => by cases hnone.symm.trans hq
  split
  · have hfirst : (if stopped.highestReplicatedSeqNo ≥ stopped.nextSeqNo
        then stopped.highestReplicatedSeqNo + 1 else stopped.nextSeqNo) = x.wal.length + 1 := by
      have := h.last
      have := h.next
      have := h.replicated
      rw [hrep, hnext]
      split <;> omega
    exact ⟨h.of_same hwal htable hrep (.inr hfirst) fun _ => ⟨hfirst, hagreed⟩, hwal, hrole, hepoch,
      hended, hsaid _, hsilent⟩
  · rename_i hnot
    have hsound : Sound stopped :=
      h.of_same hwal htable hrep (.inl hnext) fun hl => absurd (hrole ▸ hl) hnot
    split
    · refine ⟨hsound, hwal, hrole, hepoch, hended, fun m hm => ?_, hsilent⟩
      rcases mem_append.mp hm with hm | hm
      · exact hsaid _ m hm
      · exact says_sendPositionRequest _ none m hm
    · exact ⟨hsound, hwal, hrole, hepoch, hended, hsaid _, hsilent⟩

/-- **Opening the log** of a sound replica keeps all of it. -/
theorem Sound.reopen (h : Sound x) (epoch : Int) :
    Sound (x.reopen epoch) ∧ (x.reopen epoch).wal = x.wal ∧ (x.reopen epoch).role = .unknown ∧
      (x.reopen epoch).followerWalAgreed = false := by
  have hread : readAtOpen 1 x.wal = x.wal := Numbered.readAtOpen_eq h.numbered
  unfold Replica.reopen
  rw [hread]
  have hidle : ReplicaRole.unknown ≠ .leader := by decide
  exact ⟨⟨h.numbered, rfl, le_refl _, le_refl _, .inl rfl, fun hc => absurd hc hidle,
    fun hc => absurd hc hidle⟩, rfl, rfl, rfl⟩

/-- What is sent when a connection is established. -/
theorem says_onPeerConnectionEstablished (x : Replica α) (outward : Bool) (c : ConnectionId) :
    ∀ m ∈ (x.onPeerConnectionEstablished outward c).2,
      Says (x.onPeerConnectionEstablished outward c).1 none m := by
  intro m hm
  rcases mem_append.mp hm with hm | hm
  · exact says_forgetAgreement _ _ m hm
  · exact says_sendPositionRequest _ none m hm

/-- **A reply a leader finds in its table** is about a record of its log, or about none. -/
theorem Sound.mem_of_positionReply (h : Sound x) (hr : x.logEpochs.positionReply q = .ok reply) :
    reply.seqNo = 0 ∨ ∃ r ∈ x.wal, r.seqNo = reply.seqNo ∧ r.epoch = reply.epoch := by
  obtain ⟨seqNo, hseq, hreply⟩ := positionReply_ofLog (x.wal.map toLogRecord) q
  rw [h.table_ofLog, hreply] at hr
  obtain rfl := Except.ok.inj hr
  cases hn : seqNo with
  | zero => exact .inl rfl
  | succ n =>
    have hle := IsPrefix.length_le <| rdropWhile_prefix
      (fun e => decide (q.lastEpoch < e)) ((x.wal.map toLogRecord).map LogRecord.epoch)
    rw [length_map, length_map] at hle
    have hlt : n < x.wal.length := by omega
    have hget := getElem?_eq_getElem hlt
    refine .inr ⟨_, getElem_mem hlt, h.numbered n _ hget, ?_⟩
    rw [epochAt_succ (r := x.wal[n].toLogRecord) (by rw [getElem?_map, hget]; rfl)]

end Replica

end PubsubVenue
