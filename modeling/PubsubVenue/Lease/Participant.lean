import PubsubVenue.Lease.Voter
import PubsubVenue.Lease.Holder

/-! # One instance of a pair

An instance both votes and may lead. `LeaseParticipant` joins its voter and its holder: while it
leads or asks to lead its own vote is held for itself; while its vote is promised to the peer it
does not ask; and it gives up asking when the peer asks at a higher epoch. -/

namespace PubsubVenue

open LeaseVoter

/-- One instance of a pair: its voter and its lease holder. -/
structure LeaseParticipant where
  /-- This instance's id: 1 or 2. -/
  selfId : Int
  voter : LeaseVoter
  holder : LeaseHolder
  /-- It does not ask to lead before this. -/
  waitUntil : Nat := 0
  /-- Whether this pair's leader says whether its peer may lead. -/
  peerStatements : PeerStatementsFlag
  /-- What this instance, while leading, says about its peer. -/
  statement : LeaderStatement := {}
  /-- The highest statement number the peer's grants in this leadership have echoed. -/
  echoedByPeer : Int := 0
  /-- The highest statement number of this leadership arbiter 1 says it holds. -/
  heldByArbiter1 : Int := 0
  /-- The highest statement number of this leadership arbiter 2 says it holds. -/
  heldByArbiter2 : Int := 0
  /-- The highest statement number of this leadership an active arbiter has confirmed alone. -/
  heldAlone : Int := 0

namespace LeaseParticipant

/-- An instance that starts now, knowing only the epoch it kept on disk. -/
def start (selfId : Int) (terms : LeaseTerms) (startedAt : Nat) (persistedEpoch : Int)
    (peerStatements : PeerStatementsFlag) : Except String LeaseParticipant := do
  let voter ← LeaseVoter.start terms.leasePeriod startedAt persistedEpoch
  return { selfId, voter, holder := { terms }, peerStatements }

section

variable (p : LeaseParticipant)

/-- Whether answering a peer's request at this epoch ends this instance's own request to lead. -/
def givesUpAsking (epoch : Int) (now : Nat) : Bool :=
  decide (p.holder.state = .candidate) && decide (epoch > p.holder.epoch) && !p.voter.restarting now

/-- Stop leading or asking to lead, at once and without a wait. -/
def standDown : LeaseParticipant :=
  { p with holder := p.holder.stop, voter := p.voter.releaseSelf }

/-- The instance that answers a request, having given up its own if it must. -/
def yieldTo (epoch : Int) (now : Nat) : LeaseParticipant :=
  if p.givesUpAsking epoch now then p.standDown else p

/-- The peer asks this instance for a lease. -/
def onPeerRequest (candidateId epoch : Int) (now : Nat) : Answer × LeaseParticipant :=
  let p' := p.yieldTo epoch now
  let (answer, voter) := p'.voter.consider candidateId epoch now
  (answer, { p' with voter := voter })

/-- Whether this instance may start asking to lead now. -/
def mayAskToLead (now : Nat) : Bool :=
  decide (p.holder.state = .idle) && !p.voter.restarting now &&
    !p.voter.promisedElsewhere p.selfId now && decide (now ≥ p.waitUntil) && p.voter.mayLead p.selfId

/-- Start asking to lead, at the next epoch in which this instance leads. -/
def beginAskingToLead : Except String (Int × LeaseParticipant) := do
  let epoch ← LeaderEpoch.nextFor p.voter.highestEpoch p.selfId
  return (epoch, { p with holder := p.holder.beginCandidacy epoch, voter := p.voter.holdForSelf })

/-- Note that a request, to lead or to renew, is being sent now. -/
def recordRequest (voterId : Int) (now : Nat) : Int × LeaseParticipant :=
  let (requestId, holder) := p.holder.recordRequest voterId now
  (requestId, { p with holder := holder })

/-- What a leadership starts by saying: in the sequencer pair that the peer may not lead, in the
matching engine pair that it may. -/
def firstStatement (epoch : Int) : LeaderStatement :=
  { leaderId := p.selfId, epoch := epoch, number := 1,
    peerMayLead := decide (p.peerStatements = .sayWhenPeerMayNotLead) }

/-- Start a leadership's statements, if this pair's leader makes any. -/
def startStatements (epoch : Int) : Except String LeaseParticipant :=
  if p.peerStatements = .peerAlwaysMayLead then .ok p
  else do
    let voter ← p.voter.recordStatement (p.firstStatement epoch)
    return { p with statement := p.firstStatement epoch, echoedByPeer := 0, heldByArbiter1 := 0,
                    heldByArbiter2 := 0, heldAlone := 0, voter := voter }

/-- A voter granted a request. -/
def onGrant (voterId requestId epoch : Int) (now : Nat) : Except String (HolderEvent × LeaseParticipant) :=
  let (event, holder) := p.holder.onGrant voterId requestId epoch now
  let p' := { p with holder := holder }
  if event = .becameLeader then do
    let p'' ← { p' with voter := p'.voter.learnEpoch epoch }.startStatements epoch
    return (event, p'')
  else .ok (event, p')

/-- The peer's grant echoed the number of the statement the peer recorded. -/
def noteEchoFromPeer (epoch number : Int) : LeaseParticipant :=
  if p.holder.state = .leading ∧ epoch = p.holder.epoch ∧ number > p.echoedByPeer then
    { p with echoedByPeer := number }
  else p

/-- An arbiter says it holds a statement of this instance's, and has written it to disk. -/
def noteHeldByArbiter (arbiterInstanceId : Int) (held : LeaderStatement) (alone : Bool) : LeaseParticipant :=
  if arbiterInstanceId ≠ 1 ∧ arbiterInstanceId ≠ 2 then p
  else if p.holder.state ≠ .leading ∨ held.leaderId ≠ p.selfId ∨ held.epoch ≠ p.holder.epoch then p
  else
    let p' := if arbiterInstanceId = 1 then
        { p with heldByArbiter1 := max p.heldByArbiter1 held.number }
      else { p with heldByArbiter2 := max p.heldByArbiter2 held.number }
    if alone then { p' with heldAlone := max p'.heldAlone held.number } else p'

/-- The check made before a statement about the peer. -/
def requireLeading (caller : String) : Except String Unit :=
  if p.peerStatements = .peerAlwaysMayLead then
    .error s!"LeaseParticipant::{caller}: this pair makes no statements about the peer"
  else if p.holder.state ≠ .leading then
    .error s!"LeaseParticipant::{caller}: this instance is not leading"
  else .ok ()

/-- Say whether the peer may lead, if the current statement says otherwise. -/
def say (caller : String) (peerMayLead : Bool) :
    Except String LeaseParticipant := do
  p.requireLeading caller
  if p.statement.peerMayLead = peerMayLead then return p
  let statement := { p.statement with number := p.statement.number + 1, peerMayLead := peerMayLead }
  let voter ← p.voter.recordStatement statement
  return { p with statement := statement, voter := voter }

/-- Say that the peer may not lead. -/
def sayPeerMayNotLead : Except String LeaseParticipant :=
  p.say "say_peer_may_not_lead" false

/-- Say that the peer may lead again. -/
def sayPeerMayLead : Except String LeaseParticipant :=
  p.say "say_peer_may_lead" true

/-- Say whether the peer may lead. -/
def sayWhetherPeerMayLead (peerMayLead : Bool) :
    Except String LeaseParticipant :=
  if peerMayLead then p.sayPeerMayLead else p.sayPeerMayNotLead

/-- The peer, leading, made a statement; the number returned is the one to echo, or zero. -/
def recordPeerStatement (statement : LeaderStatement) : Except String (Int × LeaseParticipant) := do
  let voter ← p.voter.recordStatement statement
  return (if voter.holdsStatement statement then statement.number else 0, { p with voter := voter })

/-- Stop leading or asking to lead, and wait before asking again. -/
def stop (now waitBeforeAskingAgain : Nat) : LeaseParticipant :=
  { p.standDown with waitUntil := now + waitBeforeAskingAgain }

/-- A voter refused a request. -/
def onRefusal (requestId highestEpoch : Int) (now wait : Nat) : HolderEvent × LeaseParticipant :=
  let (event, holder) := p.holder.onRefusal requestId highestEpoch
  let p' := { p with holder := holder, voter := p.voter.learnEpoch highestEpoch }
  (event, if event = .newerEpochKnown then p'.stop now wait else p')

/-- If this instance leads but its last lease has run out, stop leading. -/
def stopIfLeaseRanOut (now : Nat) : Bool × LeaseParticipant :=
  if p.holder.state ≠ .leading ∨ p.holder.acting now then (false, p) else (true, p.standDown)

/-- Whether this instance leads and holds an unexpired lease, and so may act as leader. -/
def acting (now : Nat) : Bool := p.holder.acting now

/-- The highest epoch this instance has granted, led in, or learnt of. -/
def highestEpoch : Int := p.voter.highestEpoch

end

/-! ## What the operations do -/

variable {epoch : Int} {flag : PeerStatementsFlag} {terms : LeaseTerms} {selfId : Int} {startedAt : Nat}

/-- An instance that has started is idle, and its voter is quiet. -/
theorem start_eq_ok {p : LeaseParticipant} (h : start selfId terms startedAt epoch flag = .ok p) :
    p = { selfId, holder := { terms }, peerStatements := flag
          voter := { leasePeriod := terms.leasePeriod
                     quietUntil := startedAt + terms.leasePeriod, highestEpoch := epoch } } := by
  obtain ⟨voter, hv, hp⟩ := bind_eq_ok.mp h
  rw [← Except.ok.inj hp, LeaseVoter.start_eq_ok hv]

/-- An instance starts only with an epoch that is not negative. -/
theorem nonneg_of_start {p : LeaseParticipant}
    (h : start selfId terms startedAt epoch flag = .ok p) : 0 ≤ epoch := by
  obtain ⟨voter, hv, -⟩ := bind_eq_ok.mp h
  unfold LeaseVoter.start at hv
  by_contra hneg
  rw [if_neg (by have := terms.drift_lt; omega), if_pos (by omega)] at hv
  cases hv

variable {p p' : LeaseParticipant}

/-- Starting a leadership's statements touches neither the holder nor the promise. -/
theorem startStatements_eq_ok (h : p.startStatements epoch = .ok p') :
    p'.selfId = p.selfId ∧ p'.holder = p.holder ∧ SamePromise p.voter p'.voter := by
  unfold startStatements at h
  split at h
  · cases h
    exact ⟨rfl, rfl, SamePromise.refl _⟩
  · obtain ⟨voter, hv, hp⟩ := bind_eq_ok.mp h
    cases hp
    exact ⟨rfl, rfl, samePromise_recordStatement hv⟩

variable {event : HolderEvent} {now : Nat} {requestId voterId : Int}

/-- **What a grant does**: what it does to the holder; the voter's promise is left alone, and an
instance that now leads knows its epoch. -/
theorem onGrant_eq_ok {epoch : Int} (h : p.onGrant voterId requestId epoch now = .ok (event, p')) :
    p.holder.onGrant voterId requestId epoch now = (event, p'.holder) ∧ p'.selfId = p.selfId ∧
      SamePromise p.voter p'.voter ∧ (event = .becameLeader → epoch ≤ p'.voter.highestEpoch) := by
  unfold onGrant at h
  dsimp only at h
  split at h
  · obtain ⟨p'', hs, hp⟩ := bind_eq_ok.mp h
    cases hp
    obtain ⟨hid, hh, hv⟩ := startStatements_eq_ok hs
    refine ⟨by rw [hh], hid, (samePromise_learnEpoch _ _).trans hv, fun _ => ?_⟩
    exact (le_highestEpoch_learnEpoch _ _).trans hv.highestEpoch
  · cases h
    exact ⟨rfl, rfl, SamePromise.refl _, fun h => absurd h ‹_›⟩

/-- **What asking to lead does**: the candidacy is at the next epoch above the highest known in
which this instance leads, and the vote is held for it. -/
theorem beginAskingToLead_eq_ok (h : p.beginAskingToLead = .ok (epoch, p')) :
    LeaderEpoch.nextFor p.voter.highestEpoch p.selfId = .ok epoch ∧
      p' = { p with holder := p.holder.beginCandidacy epoch, voter := p.voter.holdForSelf } := by
  obtain ⟨e, he, hp⟩ := bind_eq_ok.mp h
  cases hp
  exact ⟨he, rfl⟩

/-- **When an instance may ask to lead**: it is idle, its voter is not quiet, and no promise of its
vote to another instance runs. -/
theorem mayAskToLead_iff {p : LeaseParticipant} :
    p.mayAskToLead now = true ↔ p.holder.state = .idle ∧ p.voter.quietUntil ≤ now ∧
      (p.voter.promisedTo = 0 ∨ p.voter.promiseExpires ≤ now ∨ p.voter.promisedTo = p.selfId) ∧
      p.waitUntil ≤ now ∧ p.voter.mayLead p.selfId = true := by
  simp only [mayAskToLead, restarting, promisedElsewhere,
    promiseLive, Bool.and_eq_true, decide_eq_true_eq, Bool.not_eq_true',
    decide_eq_false_iff_not, Bool.and_eq_false_iff, not_lt, ne_eq, not_not, ge_iff_le, and_assoc, or_assoc]

/-- An instance that has done no more than give up a request, use up an answer or change what it
says: it holds no lease and awaits no answer that it did not before, and its promise is the same. -/
structure Settles (p p' : LeaseParticipant) : Prop where
  selfId : p'.selfId = p.selfId
  terms : p'.holder.terms = p.holder.terms
  lastRequestId : p'.holder.lastRequestId = p.holder.lastRequestId
  leasePeriod : p'.voter.leasePeriod = p.voter.leasePeriod
  quietUntil : p'.voter.quietUntil = p.voter.quietUntil
  promisedTo : p'.voter.promisedTo = p.voter.promisedTo
  promiseExpires : p'.voter.promiseExpires = p.voter.promiseExpires
  highestEpoch : p.voter.highestEpoch ≤ p'.voter.highestEpoch
  active : p'.holder.state ≠ .idle → p'.holder.state = p.holder.state ∧
    p'.holder.epoch = p.holder.epoch ∧ p'.voter.heldForSelf = p.voter.heldForSelf
  outstanding : ∀ id o, p'.holder.outstanding.lookup id = some o → p.holder.outstanding.lookup id = some o
  expiries : ∀ voter x, p'.holder.expiries.lookup voter = some x → p.holder.expiries.lookup voter = some x

section

variable (hid : p'.selfId = p.selfId) (hv : SamePromise p.voter p'.voter)
include hid hv

/-- An instance that awaits no answer that it did not before, and whose promise is left alone,
settles. -/
theorem settles_of_outstanding {outstanding : AList fun _ : Int => Outstanding}
    (hh : p'.holder = { p.holder with outstanding })
    (hout : ∀ id o, outstanding.lookup id = some o → p.holder.outstanding.lookup id = some o) :
    Settles p p' where
  selfId := hid
  terms := by rw [hh]
  lastRequestId := by rw [hh]
  leasePeriod := hv.leasePeriod
  quietUntil := hv.quietUntil
  promisedTo := hv.promisedTo
  promiseExpires := hv.promiseExpires
  highestEpoch := hv.highestEpoch
  active := fun _ => ⟨by rw [hh], by rw [hh], hv.heldForSelf⟩
  outstanding := fun id o h => hout id o (by rwa [hh] at h)
  expiries := fun _ _ h => by rwa [hh] at h

/-- An instance whose holder is as it was, and whose promise is left alone, settles. -/
theorem settles_of_samePromise (hh : p'.holder = p.holder) : Settles p p' :=
  settles_of_outstanding hid hv hh fun _ _ h => h

/-- Using up an answer settles. -/
theorem settles_of_erase
    (hh : p'.holder = { p.holder with outstanding := p.holder.outstanding.erase requestId }) : Settles p p' :=
  settles_of_outstanding hid hv hh fun _ _ => lookup_of_lookup_erase

end

/-- **What a grant can do to an instance**: it settles, or the instance leads by the lease granted. -/
theorem onGrant_cases {epoch : Int} (h : p.onGrant voterId requestId epoch now = .ok (event, p')) :
    event = .nothing ∧ Settles p p' ∨
      ∃ request, p.holder.outstanding.lookup requestId = some request ∧ epoch = p.holder.epoch ∧
        p.holder.state ≠ .idle ∧
          event = (if p.holder.state = .candidate then .becameLeader else .leaseExtended) ∧
        p'.holder = p.holder.granted voterId requestId (p.holder.leaseEnd request.sentAt) := by
  obtain ⟨hholder, hid, hv, -⟩ := onGrant_eq_ok h
  rcases p.holder.onGrant_cases voterId requestId epoch now with
    hn | hn | ⟨request, hreq, -, hepoch, hactive, -, hn⟩
  all_goals obtain ⟨he, hh⟩ := Prod.mk.inj (hholder.symm.trans hn)
  · exact .inl ⟨he, settles_of_samePromise hid hv hh⟩
  · exact .inl ⟨he, settles_of_erase hid hv hh⟩
  · exact .inr ⟨request, hreq, hepoch, hactive, he, hh⟩

section

variable (p : LeaseParticipant)

/-- Standing down settles. -/
theorem settles_standDown : Settles p p.standDown where
  selfId := rfl
  terms := rfl
  lastRequestId := rfl
  leasePeriod := rfl
  quietUntil := rfl
  promisedTo := rfl
  promiseExpires := rfl
  highestEpoch := le_refl _
  active := fun h => absurd rfl h
  outstanding := nofun
  expiries := nofun

/-- Giving up a request to answer another settles. -/
theorem settles_yieldTo (epoch : Int) (now : Nat) : Settles p (p.yieldTo epoch now) := by
  unfold yieldTo
  split
  · exact settles_standDown p
  · exact settles_of_samePromise rfl (SamePromise.refl _) rfl

/-- What settles twice settles. -/
theorem Settles.trans {p p' p'' : LeaseParticipant} (h : Settles p p') (h' : Settles p' p'') :
    Settles p p'' where
  selfId := h'.selfId.trans h.selfId
  terms := h'.terms.trans h.terms
  lastRequestId := h'.lastRequestId.trans h.lastRequestId
  leasePeriod := h'.leasePeriod.trans h.leasePeriod
  quietUntil := h'.quietUntil.trans h.quietUntil
  promisedTo := h'.promisedTo.trans h.promisedTo
  promiseExpires := h'.promiseExpires.trans h.promiseExpires
  highestEpoch := h.highestEpoch.trans h'.highestEpoch
  active := fun ha => by
    obtain ⟨hs', he', hv'⟩ := h'.active ha
    obtain ⟨hs, he, hv⟩ := h.active (hs' ▸ ha)
    exact ⟨hs'.trans hs, he'.trans he, hv'.trans hv⟩
  outstanding := fun _ _ ho => h.outstanding _ _ (h'.outstanding _ _ ho)
  expiries := fun _ _ hx => h.expiries _ _ (h'.expiries _ _ hx)

/-- Stopping settles. -/
theorem settles_stop (now wait : Nat) : Settles p (p.stop now wait) :=
  (settles_standDown p).trans (settles_of_samePromise rfl (SamePromise.refl _) rfl)

/-- Stopping when the lease has run out settles. -/
theorem settles_stopIfLeaseRanOut (now : Nat) : Settles p (p.stopIfLeaseRanOut now).2 := by
  unfold stopIfLeaseRanOut
  split
  · exact settles_of_samePromise rfl (SamePromise.refl _) rfl
  · exact settles_standDown p

/-- A refusal settles. -/
theorem settles_onRefusal (requestId highestEpoch : Int) (now wait : Nat) :
    Settles p (p.onRefusal requestId highestEpoch now wait).2 := by
  have hh : (p.holder.onRefusal requestId highestEpoch).2 =
      { p.holder with outstanding := p.holder.outstanding.erase requestId } := by
    unfold LeaseHolder.onRefusal
    split <;> rfl
  have hu : Settles p { p with holder := (p.holder.onRefusal requestId highestEpoch).2,
                               voter := p.voter.learnEpoch highestEpoch } :=
    settles_of_erase rfl (samePromise_learnEpoch _ _) hh
  unfold onRefusal
  dsimp only
  split
  · exact hu.trans (settles_stop _ _ _)
  · exact hu

end

/-- Saying whether the peer may lead settles. -/
theorem settles_say {caller : String} {peerMayLead : Bool} (h : p.say caller peerMayLead = .ok p') :
    Settles p p' := by
  obtain ⟨_, _, h⟩ := bind_eq_ok.mp h
  split at h
  · cases h
    exact settles_of_samePromise rfl (SamePromise.refl _) rfl
  · obtain ⟨voter, hv, hp⟩ := bind_eq_ok.mp h
    cases hp
    exact settles_of_samePromise rfl (samePromise_recordStatement hv) rfl

/-- Saying whether the peer may lead settles, either way. -/
theorem settles_sayWhetherPeerMayLead {peerMayLead : Bool}
    (h : p.sayWhetherPeerMayLead peerMayLead = .ok p') : Settles p p' := by
  unfold sayWhetherPeerMayLead at h
  split at h
  · exact settles_say h
  · exact settles_say h

variable {statement : LeaderStatement} {echoed : Int}

/-- Recording a statement of the peer's changes no lease and no request. -/
theorem holder_recordPeerStatement (h : p.recordPeerStatement statement = .ok (echoed, p')) :
    p'.holder = p.holder := by
  obtain ⟨v, -, h⟩ := bind_eq_ok.mp h
  cases h
  rfl

/-- Recording the peer's statement settles. -/
theorem settles_recordPeerStatement (h : p.recordPeerStatement statement = .ok (echoed, p')) :
    Settles p p' := by
  obtain ⟨voter, hv, hp⟩ := bind_eq_ok.mp h
  cases hp
  exact settles_of_samePromise rfl (samePromise_recordStatement hv) rfl

end LeaseParticipant

end PubsubVenue
