import Mathlib.Algebra.Order.Group.Int
import Mathlib.Order.Bounds.Basic
import Mathlib.Tactic.Basic
import PubsubVenue.Fallible

/-! # The voter's side of a lease

An instance of a pair leads only while a majority of three voters has granted it a lease. This
module has one voter: the promises it has made (`LeaseVoter`), the newest statement a leader has
made about its peer (`LeaderStatement`) and the choice of the next leadership epoch (`nextFor`).

Times are ticks of the steady clock, which starts at zero when the machine boots, so they are
natural numbers. Epochs, instance ids and statement numbers are the integers the source uses for
them. A function that throws `PreconditionAssertion` returns its message. -/

namespace PubsubVenue

/-! ## Statements a leader makes about its peer -/

/-- What a leader says about its peer: whether the peer may lead. -/
structure LeaderStatement where
  /-- The instance that made the statement, 1 or 2; zero when there is none. -/
  leaderId : Int := 0
  /-- The epoch of the leadership that made it. -/
  epoch : Int := 0
  /-- Goes up by one each time that leadership changes what it says. -/
  number : Int := 0
  /-- `false`: the leader's peer may not lead. -/
  peerMayLead : Bool := true
  deriving DecidableEq, Repr

namespace LeaderStatement

/-- A later epoch, or the same epoch and a higher number. -/
def newerThan (s other : LeaderStatement) : Bool :=
  decide (s.epoch > other.epoch) || (decide (s.epoch = other.epoch) && decide (s.number > other.number))

/-- The same leader, epoch and number. -/
def sameAs (s other : LeaderStatement) : Bool :=
  decide (s.leaderId = other.leaderId) && decide (s.epoch = other.epoch) && decide (s.number = other.number)

/-- The instance a statement says may not lead, or zero if it says none. -/
def instanceThatMayNotLead (s : LeaderStatement) : Int :=
  if s.leaderId = 0 || s.peerMayLead then 0
  else if s.leaderId = 1 then 2 else 1

end LeaderStatement

/-- Whether a pair's leader says whether its peer may lead, and what it says first. -/
inductive PeerStatementsFlag where
  | peerAlwaysMayLead
  | sayWhetherPeerMayLead
  | sayWhenPeerMayNotLead
  deriving DecidableEq, Repr

/-! ## The next leadership epoch -/

namespace LeaderEpoch

/-- Room for the instance ids in use. -/
def epochStride : Int := 4

/-- The largest value of an `int32_t`. -/
def int32Max : Int := 2147483647

/-- The smallest epoch above a known one in which a given instance leads. -/
def nextFor (above : Int) (leaderInstanceId : Int) : Except String Int :=
  if leaderInstanceId < 1 ∨ leaderInstanceId ≥ epochStride then
    .error s!"LeaderEpoch::next_for: instance id {leaderInstanceId} is not in [1, {epochStride})"
  else if above < 0 ∨ above > int32Max - 2 * epochStride then
    .error s!"LeaderEpoch::next_for: epoch {above} is out of range"
  else
    let base := above.tdiv epochStride * epochStride
    .ok (if base + leaderInstanceId > above then base + leaderInstanceId
      else base + epochStride + leaderInstanceId)

variable {above leaderInstanceId : Int}

/-- **The next epoch is the least one above that names the instance**: what `nextFor` returns is
above `above`, leaves the instance's id on division by four, and no smaller epoch does both. -/
theorem nextFor_eq_ok_iff {e : Int} : nextFor above leaderInstanceId = .ok e ↔
      (1 ≤ leaderInstanceId ∧ leaderInstanceId < 4) ∧ (0 ≤ above ∧ above ≤ int32Max - 8) ∧
        above < e ∧ e % 4 = leaderInstanceId ∧ e ≤ above + 4 := by
  unfold nextFor epochStride int32Max
  split
  · simp
    omega
  split
  · simp
    omega
  · simp only [Except.ok.injEq]
    rw [Int.tdiv_eq_ediv_of_nonneg (by omega)]
    split <;> omega

/-- Below the range the guard leaves out there is a next epoch, and it is the least. -/
theorem exists_nextFor (h1 : 1 ≤ leaderInstanceId) (h4 : leaderInstanceId < 4) (hnonneg : 0 ≤ above)
    (hmax : above ≤ int32Max - 8) : ∃ e, nextFor above leaderInstanceId = .ok e ∧
      IsLeast { e | above < e ∧ e % 4 = leaderInstanceId } e := by
  have hbounded : ∃ e, above < e ∧ e % 4 = leaderInstanceId ∧ e ≤ above + 4 :=
    ⟨above + 1 + (leaderInstanceId - (above + 1)) % 4, by omega, by omega, by omega⟩
  obtain ⟨e, hlt, hmod, hle⟩ := hbounded
  refine ⟨e, nextFor_eq_ok_iff.mpr ⟨⟨h1, h4⟩, ⟨hnonneg, hmax⟩, hlt, hmod, hle⟩, ⟨hlt, hmod⟩, ?_⟩
  rintro e' ⟨hlt', hmod'⟩
  omega

end LeaderEpoch

/-! ## The voter -/

/-- What a voter did with a request. -/
inductive Verdict where
  | granted
  | refusedWhileRestarting
  | refusedPromisedElsewhere
  | refusedEpochBehind
  | refusedMayNotLead
  deriving DecidableEq, Repr

/-- The answer to one request. -/
structure Answer where
  /-- Whether the request was granted, or why not. -/
  verdict : Verdict
  /-- The highest epoch the voter has granted, after answering. -/
  highestEpoch : Int
  deriving DecidableEq, Repr

/-- One voter's record of the promises it has made. -/
structure LeaseVoter where
  leasePeriod : Nat
  /-- Before this the voter grants nothing: it has forgotten what it promised. -/
  quietUntil : Nat
  /-- Whom the vote is promised to, or zero. -/
  promisedTo : Int := 0
  promiseExpires : Nat := 0
  /-- Whether the voter's own instance leads or asks to lead, and so has the vote. -/
  heldForSelf : Bool := false
  /-- The highest epoch granted or learnt of. -/
  highestEpoch : Int
  /-- The newest statement a leader has made about its peer. -/
  recordedStatement : LeaderStatement := {}
  deriving DecidableEq, Repr

namespace LeaseVoter

/-- A voter that starts now, knowing only the highest epoch it kept on disk. -/
def start (leasePeriod : Nat) (startedAt : Nat) (highestEpochGranted : Int) :
    Except String LeaseVoter :=
  if leasePeriod = 0 then .error "LeaseVoter: the lease period must be positive"
  else if highestEpochGranted < 0 then
    .error s!"LeaseVoter: epoch {highestEpochGranted} is negative"
  else .ok { leasePeriod, quietUntil := startedAt + leasePeriod, highestEpoch := highestEpochGranted }

section

variable (v : LeaseVoter)

/-- Whether the voter started less than one lease period ago. -/
def restarting (now : Nat) : Bool := decide (now < v.quietUntil)

/-- Whether a promise is running. -/
def promiseLive (now : Nat) : Bool :=
  decide (v.promisedTo ≠ 0) && decide (now < v.promiseExpires)

/-- Whether the vote is promised to an instance other than `selfId`. -/
def promisedElsewhere (selfId : Int) (now : Nat) : Bool :=
  v.promiseLive now && decide (v.promisedTo ≠ selfId)

/-- Whether the voter holds no statement that the instance may not lead. -/
def mayLead (instanceId : Int) : Bool :=
  decide (v.recordedStatement.instanceThatMayNotLead ≠ instanceId)

/-- Decide a request for a lease, and record the promise if it is granted. -/
def consider (candidateId : Int) (epoch : Int) (now : Nat) : Answer × LeaseVoter :=
  if v.restarting now then (⟨.refusedWhileRestarting, v.highestEpoch⟩, v)
  else if v.heldForSelf || (v.promiseLive now && decide (v.promisedTo ≠ candidateId)) then
    (⟨.refusedPromisedElsewhere, v.highestEpoch⟩, v)
  else if epoch < v.highestEpoch then (⟨.refusedEpochBehind, v.highestEpoch⟩, v)
  else if !v.mayLead candidateId then (⟨.refusedMayNotLead, v.highestEpoch⟩, v)
  else
    (⟨.granted, epoch⟩,
      { v with promisedTo := candidateId, promiseExpires := now + v.leasePeriod,
               highestEpoch := epoch })

/-- **What `consider` does**: it grants and promises the vote, or refuses and changes nothing. -/
theorem consider_cases (candidateId : Int) (epoch : Int) (now : Nat) :
    ((v.consider candidateId epoch now).1.verdict ≠ .granted ∧ (v.consider candidateId epoch now).2 = v) ∨
    ((v.consider candidateId epoch now).1 = ⟨.granted, epoch⟩ ∧ v.quietUntil ≤ now ∧
      v.heldForSelf = false ∧ (v.promiseLive now → v.promisedTo = candidateId) ∧
      v.highestEpoch ≤ epoch ∧ v.mayLead candidateId ∧ (v.consider candidateId epoch now).2 =
        { v with promisedTo := candidateId, promiseExpires := now + v.leasePeriod,
                 highestEpoch := epoch }) := by
  by_cases hr : v.restarting now
  · simp [consider, hr]
  by_cases he : v.heldForSelf || (v.promiseLive now && decide (v.promisedTo ≠ candidateId))
  · simp only [consider, hr, he]
    simp
  by_cases hb : epoch < v.highestEpoch
  · simp only [consider, hr, he, hb]
    simp
  by_cases hm : v.mayLead candidateId
  · right
    simp only [consider, hr, he, hb, hm]
    simp only [Bool.or_eq_true, Bool.and_eq_true, decide_eq_true_eq, not_or, not_and,
      Decidable.not_not, Bool.not_eq_true] at he
    simp only [restarting, decide_eq_true_eq] at hr
    exact ⟨rfl, by omega, he.1, he.2, by omega, trivial, rfl⟩
  · simp only [consider, hr, he, hb, hm]
    simp

/-- Vote for the instance the voter belongs to. -/
def holdForSelf : LeaseVoter := { v with heldForSelf := true }

/-- Stop voting for the instance the voter belongs to. -/
def releaseSelf : LeaseVoter := { v with heldForSelf := false }

/-- Resume with a promise recorded before a restart, instead of waiting. -/
def resumeWithKeptPromise (promisedTo : Int) (until_ now : Nat) : LeaseVoter :=
  { v with quietUntil := now, promisedTo := promisedTo, promiseExpires := until_ }

section

variable (statement : LeaderStatement)

/-- Record a leader's statement if it is newer than the one held. -/
def recordStatement : Except String LeaseVoter :=
  if statement.leaderId < 1 ∨ statement.leaderId > 2 ∨ statement.number < 1 then
    .error (s!"LeaseVoter::record_statement: leader {statement.leaderId} and number " ++
      s!"{statement.number} do not name a statement")
  else if statement.newerThan v.recordedStatement then
    .ok { v with recordedStatement := statement }
  else .ok v

/-- Whether the statement held is this one, so that a grant may echo its number. -/
def holdsStatement : Bool :=
  v.recordedStatement.sameAs statement

/-- Take back the statement recorded durably before a restart. -/
def restoreRecordedStatement : LeaseVoter :=
  { v with recordedStatement := statement }

end

/-- Record an epoch learnt from elsewhere, so that nothing below it is granted. -/
def learnEpoch (epoch : Int) : LeaseVoter :=
  if epoch > v.highestEpoch then { v with highestEpoch := epoch } else v

end

/-! ## What leaves a promise alone -/

/-- A voter that has made no promise since: only its statement may differ, and the highest epoch it
knows may have risen. -/
structure SamePromise (v v' : LeaseVoter) : Prop where
  leasePeriod : v'.leasePeriod = v.leasePeriod
  quietUntil : v'.quietUntil = v.quietUntil
  promisedTo : v'.promisedTo = v.promisedTo
  promiseExpires : v'.promiseExpires = v.promiseExpires
  heldForSelf : v'.heldForSelf = v.heldForSelf
  highestEpoch : v.highestEpoch ≤ v'.highestEpoch

/-- A voter makes no promise by doing nothing. -/
theorem SamePromise.refl (v : LeaseVoter) : SamePromise v v := ⟨rfl, rfl, rfl, rfl, rfl, le_refl _⟩

/-- Promises left alone twice are left alone. -/
theorem SamePromise.trans {v v' v'' : LeaseVoter} (h : SamePromise v v') (h' : SamePromise v' v'') :
    SamePromise v v'' :=
  ⟨h'.leasePeriod.trans h.leasePeriod, h'.quietUntil.trans h.quietUntil,
    h'.promisedTo.trans h.promisedTo, h'.promiseExpires.trans h.promiseExpires,
    h'.heldForSelf.trans h.heldForSelf, h.highestEpoch.trans h'.highestEpoch⟩

/-- Learning an epoch raises the highest epoch known to at least that. -/
theorem le_highestEpoch_learnEpoch (v : LeaseVoter) (epoch : Int) :
    epoch ≤ (v.learnEpoch epoch).highestEpoch := by
  unfold learnEpoch
  split
  · exact le_refl _
  · omega

/-- Learning an epoch leaves the promise alone. -/
theorem samePromise_learnEpoch (v : LeaseVoter) (epoch : Int) : SamePromise v (v.learnEpoch epoch) := by
  unfold learnEpoch
  split
  · exact ⟨rfl, rfl, rfl, rfl, rfl, le_of_lt ‹_›⟩
  · exact SamePromise.refl v

/-- Recording a statement leaves the promise alone. -/
theorem samePromise_recordStatement {v v' : LeaseVoter} {statement : LeaderStatement}
    (h : v.recordStatement statement = .ok v') : SamePromise v v' := by
  unfold recordStatement at h
  split at h
  · cases h
  split at h
  · cases h
    exact ⟨rfl, rfl, rfl, rfl, rfl, le_refl _⟩
  · cases h
    exact SamePromise.refl v

/-- A voter that has started is quiet for a lease period, and has promised nothing. -/
theorem start_eq_ok {leasePeriod startedAt : Nat} {epoch : Int} {v : LeaseVoter}
    (h : start leasePeriod startedAt epoch = .ok v) :
    v = { leasePeriod, quietUntil := startedAt + leasePeriod, highestEpoch := epoch } := by
  unfold start at h
  split at h
  · cases h
  split at h
  · cases h
  · exact (Except.ok.inj h).symm

end LeaseVoter

end PubsubVenue
