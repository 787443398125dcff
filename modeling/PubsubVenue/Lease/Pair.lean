import Mathlib.Logic.Function.Basic
import PubsubVenue.Machine
import PubsubVenue.Lease.Participant

/-! # A pair and its third voter

Two instances, each voting through its own voter, and a third voter, on one clock. `Pair.step` is
the machine of everything that can happen to them: the clock moves on; an instance applies its lease
rules, asks to lead, sends a request; a message that was ever sent is delivered, once, late, again,
or never; an instance or the third voter stops at any point and starts again knowing only the epoch
it kept on disk.

What a message or an instance carries beyond the source is for proofs only, and no rule reads it:
the life of the candidate that asked, the time a grant was made, the epochs led in. -/

namespace PubsubVenue

/-- One of the two instances of a pair. -/
inductive Instance where
  | one
  | two
  deriving DecidableEq, Repr

namespace Instance

/-- The instance's id. -/
def id : Instance → Int
  | one => 1
  | two => 2

/-- The other instance. -/
def peer : Instance → Instance
  | one => two
  | two => one

/-- The peer's peer is the instance itself. -/
@[simp] theorem peer_peer (i : Instance) : i.peer.peer = i := by cases i <;> rfl

/-- An instance is not its peer. -/
theorem peer_ne (i : Instance) : i.peer ≠ i := by cases i <;> decide

/-- There are only the two. -/
theorem eq_peer_of_ne {i j : Instance} (h : j ≠ i) : j = i.peer := by
  cases i <;> cases j <;> first | rfl | exact absurd rfl h

/-- What holds of an instance and of its peer holds of both. -/
theorem forall_of {p : Instance → Prop} {i : Instance} (hi : p i) (hpeer : p i.peer)
    (j : Instance) : p j := by
  by_cases hj : j = i
  · rwa [hj]
  · rwa [eq_peer_of_ne hj]

end Instance

/-- One of the three voters of a pair. -/
inductive VoterName where
  | member (i : Instance)
  | third
  deriving DecidableEq, Repr

/-- The id that appears on a voter's grants and refusals. -/
def VoterName.id : VoterName → Int
  | member i => i.id
  | third => 3

/-! ## The epoch on disk -/

/-- The epoch an instance keeps on disk, and the highest this process has written there. -/
structure EpochRecording where
  /-- What the file holds. -/
  stored : Int
  highestWritten : Int := 0
  deriving DecidableEq, Repr

/-- Record an epoch, unless one as high has been written: the write succeeds or leaves the file as
it was. -/
def EpochRecording.record (r : EpochRecording) (epoch : Int) (written : Bool) : EpochRecording :=
  if epoch ≤ r.highestWritten then r
  else if written then ⟨epoch, epoch⟩ else r

/-- Whether an epoch asked to be recorded is known to be on disk. -/
def EpochRecording.recorded (r : EpochRecording) (epoch : Int) (written : Bool) : Bool :=
  decide (epoch ≤ r.highestWritten) || written

/-! ## Messages and state -/

/-- A request for a lease. -/
structure Request where
  candidate : Instance
  /-- In which of its lives. -/
  life : Nat
  voter : VoterName
  requestId : Int
  epoch : Int
  deriving DecidableEq, Repr

/-- A grant of a request. -/
structure Grant where
  request : Request
  grantedAt : Nat
  deriving DecidableEq, Repr

/-- A refusal of a request. -/
structure Refusal where
  request : Request
  highestEpoch : Int
  deriving DecidableEq, Repr

/-- An instance: the process that runs, and what it keeps on disk. -/
structure InstanceState where
  participant : LeaseParticipant
  /-- The epoch on disk. -/
  recording : EpochRecording
  /-- How often the instance has started before. -/
  life : Nat := 0
  /-- The epoch this life started from. -/
  startedFrom : Int
  /-- The epochs the instance has begun to lead in, the latest first. -/
  led : List Int := []

/-- The pair, its third voter, the clock and every message ever sent. -/
structure Pair where
  /-- The clock common to all. -/
  now : Nat
  inst : Instance → InstanceState
  third : LeaseVoter
  requests : List Request := []
  grants : List Grant := []
  refusals : List Refusal := []

/-- What can happen to a pair. -/
inductive PairAction where
  | advance (time : Nat)
  | stopIfLeaseRanOut (i : Instance)
  /-- An instance gives up leading or asking to lead, and waits. -/
  | stop (i : Instance) (wait : Nat)
  /-- An instance that may ask to lead begins to, having tried to write the epoch to disk. -/
  | beginAskingToLead (i : Instance) (written : Bool)
  | sendRequest (i : Instance) (voter : VoterName)
  | deliverRequest (r : Request)
  | deliverGrant (g : Grant)
  | deliverRefusal (f : Refusal) (wait : Nat)
  /-- An instance's owner tries to write an epoch to disk: it never goes back from the epoch it
  started from. -/
  | recordEpoch (i : Instance) (epoch : Int) (written : Bool)
  /-- A leading instance says whether its peer may lead. -/
  | say (i : Instance) (peerMayLead : Bool)
  | recordStatement (voter : VoterName) (statement : LeaderStatement)
  /-- An instance stops and starts again with the epoch on its disk. -/
  | restart (i : Instance)
  | restartThird (persistedEpoch : Int)

namespace Pair

section

variable (s : Pair) (i : Instance)

/-- Change one instance. -/
def setInst (x : InstanceState) : Pair :=
  { s with inst := Function.update s.inst i x }

/-- Change one instance's process. -/
def setParticipant (p : LeaseParticipant) : Pair :=
  s.setInst i { s.inst i with participant := p }

/-- The voter of a name. -/
def voter : VoterName → LeaseVoter
  | .member i => (s.inst i).participant.voter
  | .third => s.third

/-- Change one voter. -/
def setVoter (v : VoterName) (x : LeaseVoter) : Pair :=
  match v with
  | .member i => s.setParticipant i { (s.inst i).participant with voter := x }
  | .third => { s with third := x }

/-- Send the answer to a request: a grant, or a refusal with the highest epoch granted. -/
def reply (r : Request) (answer : Answer) : Pair :=
  if answer.verdict = .granted then { s with grants := ⟨r, s.now⟩ :: s.grants }
  else { s with refusals := ⟨r, answer.highestEpoch⟩ :: s.refusals }

/-- A request reaches its voter, which answers it. -/
def answerRequest (r : Request) : Pair :=
  match r.voter with
  | .member i =>
    let (answer, p) := (s.inst i).participant.onPeerRequest r.candidate.id r.epoch s.now
    (s.setParticipant i p).reply r answer
  | .third =>
    let (answer, v) := s.third.consider r.candidate.id r.epoch s.now
    { s with third := v }.reply r answer

/-- A grant reaches its candidate. -/
def takeGrant (g : Grant) : Except String Pair := do
  let i := g.request.candidate
  let (event, p) ← (s.inst i).participant.onGrant g.request.voter.id g.request.requestId g.request.epoch s.now
  let led := if event = .becameLeader then g.request.epoch :: (s.inst i).led else (s.inst i).led
  return s.setInst i { s.inst i with participant := p, led := led }

/-- An instance begins to ask to lead, having tried to write the epoch it asks for to disk. -/
def beginAsking (written : Bool) : Except String Pair := do
  let (epoch, p) ← (s.inst i).participant.beginAskingToLead
  return s.setInst i { s.inst i with
    participant := p, recording := (s.inst i).recording.record epoch written }

/-- An instance sends a request to another voter. -/
def sendRequest (v : VoterName) : Pair :=
  let (requestId, p) := (s.inst i).participant.recordRequest v.id s.now
  { s.setParticipant i p with
    requests := ⟨i, (s.inst i).life, v, requestId, p.holder.epoch⟩ :: s.requests }

/-- An instance starts again, knowing only the epoch on its disk. -/
def restart : Except String Pair := do
  let x := s.inst i
  let p ← LeaseParticipant.start i.id x.participant.holder.terms s.now x.recording.stored
    x.participant.peerStatements
  return s.setInst i { participant := p, recording := ⟨x.recording.stored, 0⟩, life := x.life + 1,
                       startedFrom := x.recording.stored, led := x.led }

end

/-- **The machine of a pair.** An exception leaves no state to go on from. -/
def step : Machine Pair PairAction
  | s, .advance time => if s.now ≤ time then some { s with now := time } else none
  | s, .stopIfLeaseRanOut i =>
    some (s.setParticipant i ((s.inst i).participant.stopIfLeaseRanOut s.now).2)
  | s, .stop i wait => some (s.setParticipant i ((s.inst i).participant.stop s.now wait))
  | s, .beginAskingToLead i written =>
    if (s.inst i).participant.mayAskToLead s.now then (s.beginAsking i written).toOption else none
  | s, .sendRequest i v => if v ≠ .member i then some (s.sendRequest i v) else none
  | s, .deliverRequest r => if r ∈ s.requests then some (s.answerRequest r) else none
  | s, .deliverGrant g => if g ∈ s.grants then (s.takeGrant g).toOption else none
  | s, .deliverRefusal f wait =>
    if f ∈ s.refusals then
      some (s.setParticipant f.request.candidate
        ((s.inst f.request.candidate).participant.onRefusal f.request.requestId f.highestEpoch s.now wait).2)
    else none
  | s, .recordEpoch i epoch written =>
    if (s.inst i).startedFrom ≤ epoch then
      some (s.setInst i { s.inst i with recording := (s.inst i).recording.record epoch written })
    else none
  | s, .say i peerMayLead =>
    (((s.inst i).participant.sayWhetherPeerMayLead peerMayLead).map (s.setParticipant i)).toOption
  | s, .recordStatement v statement =>
    (((s.voter v).recordStatement statement).map (s.setVoter v)).toOption
  | s, .restart i => (s.restart i).toOption
  | s, .restartThird persistedEpoch =>
    ((LeaseVoter.start s.third.leasePeriod s.now persistedEpoch).map fun v => { s with third := v }).toOption

/-- A pair that starts: both instances and the third voter start at the same moment, each instance
with the epoch on its disk. -/
def start (terms : LeaseTerms) (peerStatements : PeerStatementsFlag) (now : Nat)
    (stored : Instance → Int) (thirdEpoch : Int) : Except String Pair := do
  let p₁ ← LeaseParticipant.start 1 terms now (stored .one) peerStatements
  let p₂ ← LeaseParticipant.start 2 terms now (stored .two) peerStatements
  let third ← LeaseVoter.start terms.leasePeriod now thirdEpoch
  return {
    now, third
    inst := fun i =>
      { participant := match i with
          | .one => p₁
          | .two => p₂
        recording := ⟨stored i, 0⟩, startedFrom := stored i } }

/-- A pair started at zero, with a lease period of ten and nothing on disk. -/
def startAtZero : Pair where
  now := 0
  third := { leasePeriod := 10, quietUntil := 10, highestEpoch := 0 }
  inst := fun i =>
    { participant :=
        { selfId := i.id
          voter := { leasePeriod := 10, quietUntil := 10, highestEpoch := 0 }
          holder := { terms := ⟨10, 1, by decide⟩ }
          peerStatements := .peerAlwaysMayLead }
      recording := ⟨0, 0⟩
      startedFrom := 0 }

/-- `startAtZero` is a pair that has just started. -/
theorem start_eq_startAtZero :
    start ⟨10, 1, by decide⟩ .peerAlwaysMayLead 0 (fun _ => 0) 0 = .ok startAtZero := by
  refine congrArg Except.ok (congrArg (fun f => ({ startAtZero with inst := f } : Pair)) ?_)
  funext i
  cases i <;> rfl

/-! ## What changing a part leaves -/

section

variable (s : Pair)

/-- An instance after `setInst`. -/
theorem setInst_inst (i j : Instance) (x : InstanceState) :
    (s.setInst i x).inst j = if j = i then x else s.inst j :=
  Function.update_apply _ _ _ _

/-- A voter after `setInst`. -/
theorem setInst_voter (i : Instance) (x : InstanceState) (v : VoterName) :
    (s.setInst i x).voter v = if v = .member i then x.participant.voter else s.voter v := by
  cases v with
  | third => rfl
  | member =>
    simp only [voter, setInst_inst, VoterName.member.injEq]
    split <;> rfl

/-- A voter after `setVoter`. -/
theorem setVoter_voter (v w : VoterName) (x : LeaseVoter) :
    (s.setVoter v x).voter w = if w = v then x else s.voter w := by
  cases v with
  | third => cases w <;> rfl
  | member => exact setInst_voter _ _ _ _

/-- Changing a voter to what it is changes nothing. -/
theorem setVoter_self (v : VoterName) : s.setVoter v (s.voter v) = s := by
  cases v with
  | third => rfl
  | member i => exact congrArg (fun f => { s with inst := f }) (Function.update_eq_self i s.inst)

/-- Change an instance's process and then its voter: the process is changed once. -/
theorem setVoter_setParticipant (i : Instance) (p : LeaseParticipant) (v : LeaseVoter) :
    (s.setParticipant i p).setVoter (.member i) v = s.setParticipant i { p with voter := v } := by
  simp only [setVoter, setParticipant, setInst, Function.update_self, Function.update_idem]

/-- A reply changes no instance. -/
theorem reply_inst (r : Request) (answer : Answer) : (s.reply r answer).inst = s.inst := by
  unfold reply
  split <;> rfl

end

/-! ## What an action does to an instance -/

/-- What each action can make of an instance. -/
inductive InstanceStep (s : Pair) (i : Instance) : PairAction → InstanceState → Prop
  | unchanged (a : PairAction) : InstanceStep s i a (s.inst i)
  | stopIfLeaseRanOut : InstanceStep s i (.stopIfLeaseRanOut i)
      { s.inst i with participant := ((s.inst i).participant.stopIfLeaseRanOut s.now).2 }
  | stop (wait : Nat) : InstanceStep s i (.stop i wait)
      { s.inst i with participant := (s.inst i).participant.stop s.now wait }
  | beginAskingToLead (written : Bool) (epoch : Int) (p : LeaseParticipant)
      (may : (s.inst i).participant.mayAskToLead s.now = true)
      (asks : (s.inst i).participant.beginAskingToLead = .ok (epoch, p)) :
      InstanceStep s i (.beginAskingToLead i written)
        { s.inst i with participant := p, recording := (s.inst i).recording.record epoch written }
  | sendRequest (v : VoterName) : InstanceStep s i (.sendRequest i v)
      { s.inst i with participant := ((s.inst i).participant.recordRequest v.id s.now).2 }
  | deliverRequest (r : Request) (own : r.voter = .member i) : InstanceStep s i (.deliverRequest r)
    { s.inst i with
        participant := ((s.inst i).participant.onPeerRequest r.candidate.id r.epoch s.now).2 }
  | deliverGrant (g : Grant) (own : g.request.candidate = i) (event : HolderEvent) (p : LeaseParticipant)
      (granted : (s.inst i).participant.onGrant g.request.voter.id g.request.requestId
        g.request.epoch s.now = .ok (event, p)) : InstanceStep s i (.deliverGrant g) { s.inst i with
          participant := p
          led := if event = .becameLeader then g.request.epoch :: (s.inst i).led else (s.inst i).led }
  | deliverRefusal (f : Refusal) (own : f.request.candidate = i) (wait : Nat) :
      InstanceStep s i (.deliverRefusal f wait) { s.inst i with
          participant := ((s.inst i).participant.onRefusal f.request.requestId f.highestEpoch s.now wait).2 }
  | recordEpoch (epoch : Int) (written : Bool) (after : (s.inst i).startedFrom ≤ epoch) :
      InstanceStep s i (.recordEpoch i epoch written)
        { s.inst i with recording := (s.inst i).recording.record epoch written }
  | say (peerMayLead : Bool) (p : LeaseParticipant)
      (said : (s.inst i).participant.sayWhetherPeerMayLead peerMayLead = .ok p) :
      InstanceStep s i (.say i peerMayLead) { s.inst i with participant := p }
  | recordStatement (statement : LeaderStatement) (v : LeaseVoter)
      (recorded : (s.inst i).participant.voter.recordStatement statement = .ok v) :
      InstanceStep s i (.recordStatement (.member i) statement)
        { s.inst i with participant := { (s.inst i).participant with voter := v } }
  | restart (p : LeaseParticipant)
    (started : LeaseParticipant.start i.id (s.inst i).participant.holder.terms s.now
        (s.inst i).recording.stored (s.inst i).participant.peerStatements = .ok p) :
      InstanceStep s i (.restart i)
        { participant := p, recording := ⟨(s.inst i).recording.stored, 0⟩
          life := (s.inst i).life + 1, startedFrom := (s.inst i).recording.stored
          led := (s.inst i).led }

/-- What changes one instance leaves the other as it was. -/
theorem instanceStep_setInst {s : Pair} {i j : Instance} {a : PairAction} {x : InstanceState}
    (h : InstanceStep s j a x) : InstanceStep s i a ((s.setInst j x).inst i) := by
  rw [setInst_inst]
  split
  · rename_i heq
    exact heq ▸ h
  · exact .unchanged a

/-- **Every action is one of these**, for each instance. -/
theorem instanceStep_of_step {s t : Pair} {a : PairAction} (h : step s a = some t) (i : Instance) :
    InstanceStep s i a (t.inst i) := by
  -- an action that may not be taken gives no pair; the others change one instance at most
  cases a with
  | advance =>
    simp only [step] at h
    split at h
    · cases h
      exact .unchanged _
    · cases h
  | stopIfLeaseRanOut =>
    cases h
    exact instanceStep_setInst .stopIfLeaseRanOut
  | stop j wait =>
    cases h
    exact instanceStep_setInst (.stop wait)
  | beginAskingToLead j written =>
    simp only [step] at h
    split at h
    · rename_i hmay
      obtain ⟨⟨epoch, p⟩, hb, ht⟩ := bind_eq_ok.mp (toOption_eq_some.mp h)
      cases ht
      exact instanceStep_setInst (.beginAskingToLead written epoch p hmay hb)
    · cases h
  | sendRequest j v =>
    simp only [step] at h
    split at h
    · cases h
      exact instanceStep_setInst (.sendRequest v)
    · cases h
  | deliverRequest r =>
    simp only [step] at h
    split at h
    · cases h
      unfold answerRequest
      split
      · rename_i hown
        rw [reply_inst]
        exact instanceStep_setInst (.deliverRequest r hown)
      · rw [reply_inst]
        exact .unchanged _
    · cases h
  | deliverGrant g =>
    simp only [step] at h
    split at h
    · obtain ⟨⟨event, p⟩, hg, ht⟩ := bind_eq_ok.mp (toOption_eq_some.mp h)
      cases ht
      exact instanceStep_setInst (.deliverGrant g rfl event p hg)
    · cases h
  | deliverRefusal f wait =>
    simp only [step] at h
    split at h
    · cases h
      exact instanceStep_setInst (.deliverRefusal f rfl wait)
    · cases h
  | recordEpoch j epoch written =>
    simp only [step] at h
    split at h
    · rename_i hafter
      cases h
      exact instanceStep_setInst (.recordEpoch epoch written hafter)
    · cases h
  | say j peerMayLead =>
    obtain ⟨p, hp, rfl⟩ := map_eq_ok.mp (toOption_eq_some.mp h)
    exact instanceStep_setInst (.say peerMayLead p hp)
  | recordStatement v statement =>
    obtain ⟨y, hy, rfl⟩ := map_eq_ok.mp (toOption_eq_some.mp h)
    cases v with
    | member => exact instanceStep_setInst (.recordStatement statement y hy)
    | third => exact .unchanged _
  | restart =>
    obtain ⟨p, hp, ht⟩ := bind_eq_ok.mp (toOption_eq_some.mp h)
    cases ht
    exact instanceStep_setInst (.restart p hp)
  | restartThird =>
    obtain ⟨v, -, rfl⟩ := map_eq_ok.mp (toOption_eq_some.mp h)
    exact .unchanged _

end Pair

end PubsubVenue
