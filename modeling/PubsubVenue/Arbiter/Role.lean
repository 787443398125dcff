import PubsubVenue.Arbiter.StatementsOnDisk
import PubsubVenue.Lease.Faithful

/-! # An arbiter's role follows its lease

An arbiter is active from when its lease agent says that it became leader until the agent says that
it stopped. `PairLeaseAgent.Tells` says that the agent leaves nothing out: whenever an operation
takes or gives up the lead, it tells its owner. So the arbiter is active exactly while its agent
leads (`Arbiter.Agrees`), whether or not the lease has run out in the meantime.

* **`Tells`** holds of every operation: `tells_onTick`, `tells_onRequest`, `tells_onGrant`,
  `tells_onRefusal`.
* **`tells_onTick`** also says that a tick ends a lead whose lease has run out.
* **`agrees_handle`**: every event keeps the role and the lease together. -/

namespace PubsubVenue

open LeaseParticipant PairLeaseAgent ComponentLeaseVoters

namespace PairLeaseAgent

/-- Whether the agent leads, whether or not its lease has run out. -/
def Leading (a : PairLeaseAgent) : Prop := a.participant.holder.state = .leading
  deriving Decidable

/-- **What an operation tells its owner** is what became of the lead. -/
structure Tells (a a' : PairLeaseAgent) (change : LeaseChange) : Prop where
  peerId : a'.peerId = a.peerId
  selfId : a'.participant.selfId = a.participant.selfId
  self : a.participant.VotesForSelf → a'.participant.VotesForSelf
  became : change = .becameLeader → ¬ a.Leading ∧ a'.Leading
  stopped : change = .stoppedLeading ∨ change = .agreedPeerLeads → ¬ a'.Leading
  nothing : change = .nothing → (a'.Leading ↔ a.Leading)

variable {a a' : PairLeaseAgent} {now : Nat}

section

variable (a : PairLeaseAgent)

/-- The part of a tick that stops what must stop: the lead ends exactly if its lease has run out. -/
theorem stopOnTick_spec (now wait : Nat) :
    ((a.stopOnTick now wait).1 = true ↔ a.Leading ∧ a.participant.acting now = false) ∧
      ((a.stopOnTick now wait).2.Leading ↔ a.Leading ∧ a.participant.acting now = true) := by
  unfold stopOnTick stopIfLeaseRanOut Leading acting
  by_cases hlead : a.participant.holder.state = .leading
  · -- a leader is not asking, so only its lease matters
    have hasking : (!a.asksToLead && decide (a.participant.holder.state = .candidate)) = false := by
      simp [hlead]
    simp only [hasking, Bool.false_eq_true, if_false]
    cases hact : a.participant.holder.acting now with
    | true => simp [hlead]
    | false => simp [hlead, standDown, LeaseHolder.stop]
  · have hidle : ∀ p : LeaseParticipant, p.holder.state ≠ .leading →
        (if p.holder.state ≠ .leading ∨ p.holder.acting now = true then (false, p)
          else (true, p.standDown)) = (false, p) := fun p hp => if_pos (.inl hp)
    dsimp only
    split
    · rw [hidle _ (by simp [stop, standDown, LeaseHolder.stop])]
      simp [hlead, stop, standDown, LeaseHolder.stop]
    · rw [hidle _ hlead]
      simp [hlead]

/-- Asking again keeps the lead. -/
theorem leading_askAgain (now : Nat) : (a.askAgain now).Leading ↔ a.Leading := by
  unfold askAgain
  split <;> exact Iff.rfl

/-- Renewing keeps the lead. -/
theorem leading_renew (now : Nat) : (a.renew now).Leading ↔ a.Leading := by
  unfold renew
  split
  · exact leading_askAgain a now
  · exact Iff.rfl

/-- Repeating a request keeps the lead. -/
theorem leading_repeatRequest (now : Nat) : (a.repeatRequest now).Leading ↔ a.Leading := by
  unfold repeatRequest
  split
  · exact leading_askAgain a now
  · exact Iff.rfl

/-- Giving up a request keeps the lead: a leader is not asking. -/
theorem leading_giveUpUnanswered (now wait : Nat) : (a.giveUpUnanswered now wait).Leading ↔ a.Leading := by
  unfold giveUpUnanswered
  split
  · rename_i hask
    unfold Leading
    simp [hask.1, stop, standDown, LeaseHolder.stop]
  · exact Iff.rfl

end

/-- **A tick tells its owner when the lead ends**, and ends a lead whose lease has run out. -/
theorem tells_onTick (hself : a.peerId ≠ a.participant.selfId) (hpeer : a.peerId ≠ 0)
    {wait recordTook : Nat} {change : LeaseChange} (h : a.onTick now wait recordTook = .ok (change, a')) :
    Tells a a' change ∧ (a'.Leading → a.participant.acting now = true) := by
  have hf : Faithful now none a a' := faithful_onTick hself hpeer h
  obtain ⟨hstop, hlead⟩ := stopOnTick_spec a.updateRecords now wait
  unfold onTick at h
  dsimp only at h
  generalize hb : a.updateRecords.stopOnTick now wait = r at h hstop hlead
  have hstate : ∀ b : PairLeaseAgent,
      (((b.renew now).repeatRequest now).giveUpUnanswered now wait).Leading ↔ b.Leading := fun b =>
    ((leading_giveUpUnanswered _ _ _).trans (leading_repeatRequest _ _)).trans (leading_renew _ _)
  -- what the rest of the tick does is to ask to lead, which a leader does not
  have hrest : change = (if r.1 = true then .stoppedLeading else .nothing) ∧ (a'.Leading ↔ r.2.Leading) := by
    split at h
    · rename_i hmay
      obtain ⟨a'', hask, h⟩ := bind_eq_ok.mp h
      cases h
      rw [Bool.and_eq_true] at hmay
      have hidle := (mayAskToLead_iff.mp hmay.2).1
      obtain ⟨⟨epoch, p⟩, hbegin, hask⟩ := bind_eq_ok.mp hask
      cases hask
      obtain ⟨-, rfl⟩ := beginAskingToLead_eq_ok hbegin
      refine ⟨rfl, ?_⟩
      rw [← hstate r.2]
      unfold Leading
      rw [hidle]
      simp [askVoters, recordRequest, LeaseHolder.recordRequest, LeaseHolder.beginCandidacy]
    · cases h
      exact ⟨rfl, hstate r.2⟩
  obtain ⟨rfl, hlead'⟩ := hrest
  rw [hlead] at hlead'
  refine ⟨?_, fun hl => (hlead'.mp hl).2⟩
  split
  · next hr =>
    refine ⟨hf.peerId, hf.participant.selfId, hf.participant.self, nofun, fun _ hl => ?_, nofun⟩
    cases (hlead'.mp hl).2.symm.trans (hstop.mp hr).2
  · next hr =>
    refine ⟨hf.peerId, hf.participant.selfId, hf.participant.self, nofun, nofun, fun _ => ?_⟩
    rw [hlead']
    refine ⟨fun hl => hl.1, fun hl => ⟨hl, ?_⟩⟩
    by_contra hact
    exact hr (hstop.mpr ⟨hl, by simpa using hact⟩)

/-- A leader that answers a request goes on leading, and nobody else starts. -/
theorem leading_onPeerRequest (p : LeaseParticipant) (candidateId epoch : Int) (now : Nat) :
    (p.onPeerRequest candidateId epoch now).2.holder.state = .leading ↔ p.holder.state = .leading := by
  change (p.yieldTo epoch now).holder.state = .leading ↔ _
  unfold yieldTo
  split
  · rename_i hgive
    simp only [givesUpAsking, Bool.and_eq_true, decide_eq_true_eq] at hgive
    simp [hgive.1.1, standDown, LeaseHolder.stop]
  · exact Iff.rfl

/-- **Answering a request tells its owner** if the peer now leads: then this instance does not. -/
theorem tells_onRequest (hpeer : a.peerId ≠ 0) (hself : a.participant.VotesForSelf)
    {candidateId epoch requestId : Int} {statement : LeaderStatement} {reply : LeaseReply}
    (h : a.onRequest candidateId epoch requestId statement now = .ok (reply, a')) :
    Tells a a' reply.change := by
  obtain ⟨p₁, p₂, hs₁, hs₂, hh₁, hh₂, hid, -, hp₂, hcases⟩ := onRequest_cases h
  have hf₁ : LeaseParticipant.Faithful a.peerId now a.participant p₁ := hs₁.faithful
  have hf : LeaseParticipant.Faithful a.peerId now a.participant p₂ :=
    (hf₁.trans (faithful_onPeerRequest hpeer candidateId epoch)).trans hs₂.faithful
  have hlead : a'.Leading ↔ a.Leading := by
    unfold Leading
    rw [hp₂, hh₂, leading_onPeerRequest, hh₁]
  refine ⟨hid, hp₂ ▸ hf.selfId, fun hs => hp₂ ▸ hf.self hs, fun hc => ?_, fun hc => ?_, fun _ => hlead⟩
  · cases reply <;> cases hc
  · -- a grant is sent only by an instance that neither leads nor asks to lead
    rcases hcases with ⟨hg, -⟩ | ⟨-, ⟨_, _, rfl⟩, -⟩
    · have hidle := (onPeerRequest_granted hpeer hg (hf₁.self hself)).2.1
      unfold Leading
      rw [hp₂, hh₂, hidle]
      exact nofun
    · rcases hc with hc | hc <;> cases hc

/-- What an agent records changes no lead. -/
theorem leading_recordLeading (a : PairLeaseAgent) : a.recordLeading.Leading ↔ a.Leading := by
  unfold recordLeading
  split <;> exact Iff.rfl

/-- **Taking a grant tells its owner** if this instance now leads. -/
theorem tells_onGrant (hself : a.peerId ≠ a.participant.selfId)
    {voterId epoch requestId echoed : Int} {change : LeaseChange}
    (h : a.onGrant voterId epoch requestId echoed now = .ok (change, a')) : Tells a a' change := by
  have hf : Faithful now none a a' := faithful_onGrant hself h
  obtain ⟨⟨event, p⟩, hg, h⟩ := bind_eq_ok.mp h
  obtain ⟨hholder, -⟩ := onGrant_eq_ok hg
  -- the lead changes only by the event that says so
  have hevent : (event = .becameLeader → a.participant.holder.state = .candidate ∧
    p.holder.state = .leading) ∧
      (event ≠ .becameLeader → (p.holder.state = .leading ↔ a.Leading)) := by
    rcases LeaseHolder.onGrant_cases a.participant.holder voterId requestId epoch now with
      hn | hn | ⟨req, -, -, -, hactive, -, hn⟩
    · obtain ⟨rfl, hp⟩ := Prod.mk.inj (hholder.symm.trans hn)
      exact ⟨nofun, fun _ => (by rw [hp]; exact Iff.rfl)⟩
    · obtain ⟨rfl, hp⟩ := Prod.mk.inj (hholder.symm.trans hn)
      exact ⟨nofun, fun _ => (by rw [hp]; exact Iff.rfl)⟩
    · obtain ⟨he, hp⟩ := Prod.mk.inj (hholder.symm.trans hn)
      have hp' : p.holder.state = .leading := by rw [hp]; rfl
      refine ⟨fun hb => ⟨?_, hp'⟩, fun hb => ?_⟩
      · by_contra hc
        rw [he, if_neg hc] at hb
        cases hb
      · have hc : a.participant.holder.state ≠ .candidate := fun hc => hb (by rw [he, if_pos hc])
        have hl : a.Leading := HolderState.eq_leading hactive hc
        exact ⟨fun _ => hl, fun _ => hp'⟩
  dsimp only at h
  generalize hq : (if voterId = a.peerId then p.noteEchoFromPeer epoch echoed else p) = q at h
  have hqh : q.holder = p.holder := by
    rw [← hq]
    unfold noteEchoFromPeer
    split
    · split <;> rfl
    · rfl
  have hlead : ∀ b : PairLeaseAgent, b.participant = q → (b.Leading ↔ p.holder.state = .leading) :=
    fun b hb => by unfold Leading; rw [hb, hqh]
  have hcases : (a'.Leading ↔ p.holder.state = .leading) ∧
      (change = .nothing ∧ event ≠ .becameLeader ∨ change = .becameLeader ∧ event = .becameLeader) := by
    split at h
    · next he =>
      cases h
      exact ⟨(leading_recordLeading _).trans (hlead _ rfl), .inl ⟨rfl, by rw [he]; nofun⟩⟩
    split at h
    · next he =>
      cases h
      exact ⟨hlead _ rfl, .inl ⟨rfl, he⟩⟩
    · next he =>
      split at h <;> cases h <;>
        exact ⟨(leading_recordLeading _).trans (hlead _ rfl), .inr ⟨rfl, not_not.mp he⟩⟩
  obtain ⟨hl, ⟨rfl, he⟩ | ⟨rfl, he⟩⟩ := hcases
  · exact ⟨hf.peerId, hf.participant.selfId, hf.participant.self, nofun, nofun,
      fun _ => hl.trans (hevent.2 he)⟩
  · refine ⟨hf.peerId, hf.participant.selfId, hf.participant.self,
      fun _ => ⟨fun hlead => ?_, hl.mpr (hevent.1 he).2⟩, nofun, nofun⟩
    rw [Leading, (hevent.1 he).1] at hlead
    cases hlead

/-- A refusal that makes a newer epoch known ends the lead; no other does. -/
theorem leading_participant_onRefusal (p : LeaseParticipant) (requestId highestEpoch : Int) (now wait : Nat) :
    (p.onRefusal requestId highestEpoch now wait).2.holder.state = .leading ↔ p.holder.state = .leading ∧
        (p.onRefusal requestId highestEpoch now wait).1 ≠ .newerEpochKnown := by
  unfold LeaseParticipant.onRefusal LeaseHolder.onRefusal
  dsimp only
  split <;> simp [stop, standDown, LeaseHolder.stop]

variable (a : PairLeaseAgent) (voterId highestEpoch requestId : Int) (reason : LeaseRefusalReason)
    (now wait : Nat)

/-- What a refusal does to the lead: it ends it and says so, or does nothing to it. -/
theorem onRefusal_lead : ((a.onRefusal voterId highestEpoch requestId reason now wait).1 = .nothing ∧
      ((a.onRefusal voterId highestEpoch requestId reason now wait).2.Leading ↔ a.Leading)) ∨
    ((a.onRefusal voterId highestEpoch requestId reason now wait).1 = .stoppedLeading ∧
      ¬ (a.onRefusal voterId highestEpoch requestId reason now wait).2.Leading) := by
  have hparticipant : (a.noteRefusal voterId reason).participant = a.participant := by
    unfold noteRefusal
    split
    · split <;> rfl
    · rfl
  unfold onRefusal Leading
  dsimp only
  split
  · -- both other voters are promised elsewhere: a candidate gives up
    rename_i hboth
    rw [Bool.and_eq_true, decide_eq_true_eq] at hboth
    refine .inl ⟨rfl, ?_⟩
    simp [hboth.2, stop, standDown, LeaseHolder.stop]
  · rw [hparticipant]
    generalize (if now < a.resumingLeadUntil then 0 else wait) = w
    rw [leading_participant_onRefusal]
    by_cases hn : (a.participant.onRefusal requestId highestEpoch now w).1 = .newerEpochKnown
    · by_cases hl : a.participant.holder.state = .leading
      · exact .inr ⟨by simp [hn, hl], by simp [hn]⟩
      · exact .inl ⟨by simp [hl], by simp [hl]⟩
    · exact .inl ⟨by simp [hn], by simp [hn]⟩

/-- **Taking a refusal tells its owner** if this instance led and has learnt of a newer epoch. -/
theorem tells_onRefusal : Tells a (a.onRefusal voterId highestEpoch requestId reason now wait).2
      (a.onRefusal voterId highestEpoch requestId reason now wait).1 := by
  have hf : Faithful now none a (a.onRefusal voterId highestEpoch requestId reason now wait).2 :=
    faithful_onRefusal voterId highestEpoch requestId reason wait
  rcases onRefusal_lead a voterId highestEpoch requestId reason now wait with ⟨hc, hl⟩ | ⟨hc, hl⟩
  · rw [hc]
    exact ⟨hf.peerId, hf.participant.selfId, hf.participant.self, nofun, nofun, fun _ => hl⟩
  · rw [hc]
    exact ⟨hf.peerId, hf.participant.selfId, hf.participant.self, nofun, fun _ => hl, nofun⟩

end PairLeaseAgent

/-! ## The role -/

namespace Arbiter

/-- **An arbiter's role agrees with its lease**: it is active exactly while its agent leads. -/
structure Agrees (a : Arbiter) : Prop where
  peer_ne_self : a.poolLease.peerId ≠ a.poolLease.participant.selfId
  peer_ne_zero : a.poolLease.peerId ≠ 0
  self : a.poolLease.participant.VotesForSelf
  role : a.role = .leader ↔ a.poolLease.Leading
  active : a.componentVoters.active = true ↔ a.poolLease.Leading

variable {a a' : Arbiter} {now : Nat} {lease : PairLeaseAgent} {change : LeaseChange}

/-- **Following what the lease rules tell keeps the role and the lease together.** -/
theorem Agrees.follow {a : Arbiter} (h : a.Agrees) {fromPeer : Bool}
    (ht : a.poolLease.Tells lease change) : (a.follow fromPeer change lease now).Agrees := by
  have hself : lease.peerId ≠ lease.participant.selfId := by
    rw [ht.peerId, ht.selfId]
    exact h.peer_ne_self
  have hpeer : lease.peerId ≠ 0 := by
    rw [ht.peerId]
    exact h.peer_ne_zero
  have hvote := ht.self h.self
  obtain ⟨b, rfl, ⟨he, hc⟩ | ⟨he, hc⟩ | ⟨he, hc⟩⟩ := follow_cases a fromPeer change lease now <;> rw [he]
  · -- it has the role that the change asks for
    have hlead : lease.Leading ↔ a.poolLease.Leading := by
      rcases hc with hc | ⟨hc, hr⟩ | ⟨hc, hr⟩
      · exact ht.nothing hc
      · exact absurd (h.role.mp hr) (ht.became hc).1
      · exact iff_of_false (ht.stopped hc) fun hl => by cases hr.symm.trans (h.role.mpr hl)
    exact ⟨hself, hpeer, hvote, h.role.trans hlead.symm, h.active.trans hlead.symm⟩
  · have hl := (ht.became hc).2
    exact ⟨hself, hpeer, hvote, iff_of_true rfl hl, iff_of_true rfl hl⟩
  · have hl := ht.stopped hc
    exact ⟨hself, hpeer, hvote, iff_of_false nofun hl, iff_of_false nofun hl⟩

/-! ## What does not touch the role -/

variable {out : List ArbiterOutput} {request : ComponentRequest} {saved : Bool} {event : ArbiterEvent}

/-- An arbiter whose role and lead stay as they are. -/
structure KeepsRole (a a' : Arbiter) : Prop where
  config : a'.config = a.config
  peerId : a'.poolLease.peerId = a.poolLease.peerId
  participant : a'.poolLease.participant = a.poolLease.participant
  role : a'.role = a.role
  term : SameTerm a.componentVoters a'.componentVoters

/-- Where nothing moves, the role is kept. -/
theorem Unmoved.keepsRole (h : Unmoved a a') : KeepsRole a a' :=
  ⟨h.config, h.peerId, h.participant, h.role, by rw [h.componentVoters]; exact ⟨rfl, rfl, rfl⟩⟩

/-- **What a component's request does to the role**: nothing; and a lease is granted only by an
active arbiter that is not behind, a lease period after it became active. -/
theorem handleComponentLeaseRequest_role (hw : a.componentVoters.WellFormed)
    (h : a.handleComponentLeaseRequest request saved now = .ok (out, a')) :
    KeepsRole a a' ∧ ∀ p c e r, .grant p c e r ∈ out → a.componentVoters.active = true ∧
      a.componentVoters.activeSince + a.componentVoters.leasePeriod ≤ now := by
  rcases handleComponentLeaseRequest_eq_ok h with ⟨rfl, rfl⟩ | ⟨-, changed, out₁, b, hr, hcases⟩
  · exact ⟨(Unmoved.refl _).keepsRole, nofun⟩
  have hrec := recorded hw hr
  have hno : ∀ p c e r, .grant p c e r ∉ out₁ := fun p c e r hm => by
    obtain ⟨alone, ⟨⟩⟩ := hrec.confirms _ hm
  have hkeeps : KeepsRole a b :=
    ⟨hrec.config, by rw [hrec.poolLease], by rw [hrec.poolLease], hrec.role, hrec.term⟩
  rcases hcases with ⟨rfl, rfl⟩ | ⟨hactive, -, out₂, ha, rfl⟩
  · exact ⟨hkeeps, fun p c e r hm => absurd hm (hno p c e r)⟩
  obtain ⟨answer, voters, hc, rfl, hout⟩ := answerComponent_eq_ok ha
  obtain ⟨-, hterm, -, -, hquiet⟩ := consider_eq_ok hrec.wellFormed hc
  refine ⟨⟨hkeeps.config, hkeeps.peerId, hkeeps.participant, hkeeps.role, hkeeps.term.trans hterm⟩,
    fun p c e r hm => ⟨hrec.term.active ▸ hactive, ?_⟩⟩
  rw [← hrec.term.activeSince, ← hrec.term.leasePeriod]
  rcases hout _ ((List.mem_append.mp hm).resolve_left (hno p c e r)) with
    ⟨-, hg⟩ | ⟨_, _, _, _, ⟨⟩⟩ | ⟨_, _, ⟨⟩⟩
  exact hquiet hg

/-- A report of the other arbiter's does not touch the role. -/
theorem keepsRole_handleArbiterStateRecord (hw : a.componentVoters.WellFormed)
    {record : ArbiterStateRecord} (h : a.handleArbiterStateRecord record saved = .ok a') :
    KeepsRole a a' := by
  obtain ⟨hwe, hterm, -⟩ := learnEpoch_spec hw record.pairId record.epoch
  rcases handleArbiterStateRecord_eq_ok h with ⟨-, rfl⟩ | ⟨-, learnt, voters, hl, rfl⟩
  · exact ⟨rfl, rfl, rfl, rfl, hterm⟩
  · have hterm' := (learnStatement_eq_ok hwe hl).2.1
    exact ⟨rfl, rfl, rfl, rfl, hterm.trans hterm'⟩

/-- Then the role and the lease stay together. -/
theorem Agrees.of_keepsRole (h : a.Agrees) (hk : KeepsRole a a') : a'.Agrees where
  peer_ne_self := by rw [hk.peerId, hk.participant]; exact h.peer_ne_self
  peer_ne_zero := by rw [hk.peerId]; exact h.peer_ne_zero
  self := by rw [hk.participant]; exact h.self
  role := by rw [hk.role, Leading, hk.participant]; exact h.role
  active := by rw [hk.term.active, Leading, hk.participant]; exact h.active

/-- The lease rules tell what they have decided. -/
theorem Agrees.tells (h : a.Agrees) (hd : Decided a now change lease) : a.poolLease.Tells lease change := by
  cases hd with
  | tick ht => exact (tells_onTick h.peer_ne_self h.peer_ne_zero ht).1
  | request hr => exact tells_onRequest h.peer_ne_zero h.self hr
  | grant hg => exact tells_onGrant h.peer_ne_self hg
  | refusal => exact tells_onRefusal _ _ _ _ _ _ _

/-- **What an event does to the role**: the arbiter follows what the lease rules have decided, or
keeps its role. -/
theorem handle_cases (hw : a.componentVoters.WellFormed) (he : a.handle now event = .ok (out, a')) :
    (∃ fromPeer change lease, Decided a now change lease ∧
      KeepsRole (a.follow fromPeer change lease now) a') ∨ KeepsRole a a' := by
  rcases handle_eq_ok he with ⟨request, saved, -, h⟩ | ⟨-, ⟨record, saved, -, h⟩ |
    ⟨fromPeer, change, lease, hd, hsame⟩ | hsame⟩
  · exact .inr (handleComponentLeaseRequest_role hw h).1
  · obtain ⟨hconfig, hpeer, hp, hrole, hterm⟩ :=
      keepsRole_handleArbiterStateRecord (a := a.hear now) hw h
    exact .inr ⟨hconfig, hpeer, hp, hrole, hterm⟩
  · exact .inl ⟨fromPeer, change, lease, hd, hsame.keepsRole⟩
  · exact .inr hsame.keepsRole

/-- **Every event keeps the role and the lease together.** -/
theorem agrees_handle (h : a.Agrees) (hw : a.componentVoters.WellFormed)
    (he : a.handle now event = .ok (out, a')) : a'.Agrees := by
  rcases handle_cases hw he with ⟨fromPeer, change, lease, hd, hk⟩ | hk
  · exact (h.follow (h.tells hd)).of_keepsRole hk
  · exact h.of_keepsRole hk

/-! ## The time as the active arbiter -/

/-- How an event changes an arbiter's time as the active one: it stays as it is, ends, or begins
now. -/
structure Term (now : Nat) (a a' : Arbiter) : Prop where
  config : a'.config = a.config
  leasePeriod : a'.componentVoters.leasePeriod = a.componentVoters.leasePeriod
  active : a'.componentVoters.active = true → (a.componentVoters.active = true ∧
      a'.componentVoters.activeSince = a.componentVoters.activeSince) ∨ a'.componentVoters.activeSince = now

/-- Keeping the role afterwards changes nothing in this. -/
theorem Term.trans_keepsRole {a b c : Arbiter} (h : Term now a b) (hk : KeepsRole b c) : Term now a c :=
  ⟨hk.config.trans h.config, hk.term.leasePeriod.trans h.leasePeriod, fun ha => by
    rw [hk.term.active] at ha
    rw [hk.term.activeSince]
    exact h.active ha⟩

/-- Following the lease rules keeps the time as the active arbiter, ends it, or begins it now. -/
theorem term_follow (a : Arbiter) (fromPeer : Bool) (change : LeaseChange) (lease : PairLeaseAgent)
    (now : Nat) : Term now a (a.follow fromPeer change lease now) := by
  obtain ⟨b, rfl, ⟨h, -⟩ | ⟨h, -⟩ | ⟨h, -⟩⟩ := follow_cases a fromPeer change lease now <;> rw [h]
  · exact ⟨rfl, rfl, fun ha => .inl ⟨ha, rfl⟩⟩
  · exact ⟨rfl, rfl, fun _ => .inr rfl⟩
  · exact ⟨rfl, rfl, nofun⟩

/-- **What an event does to an arbiter's time as the active one.** -/
theorem term_handle (hw : a.componentVoters.WellFormed) (he : a.handle now event = .ok (out, a')) :
    Term now a a' := by
  rcases handle_cases hw he with ⟨fromPeer, change, lease, -, hk⟩ | hk
  · exact (term_follow a fromPeer change lease now).trans_keepsRole hk
  · exact .trans_keepsRole ⟨rfl, rfl, fun ha => .inl ⟨ha, rfl⟩⟩ hk

/-- **A tick ends the time of an arbiter whose lease has run out.** -/
theorem passive_of_tick (h : a.Agrees) (hw : a.componentVoters.WellFormed)
    {now wait : Nat} (he : a.handle now (.tick wait) = .ok (out, a'))
    (hran : a.poolLease.participant.acting now = false) : a'.componentVoters.active = false := by
  have hagrees := agrees_handle h hw he
  obtain ⟨⟨change, lease⟩, ht, he⟩ := bind_eq_ok.mp he
  have ha : ((a.follow false change lease now).sendHeartbeatsToPeer now).2 = a' :=
    congrArg Prod.snd (Except.ok.inj he)
  obtain ⟨-, hlead⟩ := tells_onTick h.peer_ne_self h.peer_ne_zero ht
  have hlease : a'.poolLease.participant = lease.participant := by
    rw [← ha, (unmoved_sendHeartbeats _ now).participant]
    obtain ⟨b, rfl, ⟨h, -⟩ | ⟨h, -⟩ | ⟨h, -⟩⟩ := follow_cases a false change lease now <;> rw [h]
  rw [Bool.eq_false_iff]
  intro hactive
  have := hagrees.active.mp hactive
  rw [Leading, hlease] at this
  rw [hlead this] at hran
  cases hran

/-- **When a lease is granted**: on a component's request, by an active arbiter, a lease period
after it became active. -/
theorem grant_handle (hw : a.componentVoters.WellFormed) (he : a.handle now event = .ok (out, a'))
    {p c e r : Int} (hm : .grant p c e r ∈ out) :
    (∃ request saved, event = .componentRequest request saved) ∧ a.componentVoters.active = true ∧
      a.componentVoters.activeSince + a.componentVoters.leasePeriod ≤ now := by
  obtain ⟨request, saved, rfl⟩ := componentRequest_of_mem he hm nofun
  exact ⟨⟨_, _, rfl⟩, (handleComponentLeaseRequest_role hw he).2 p c e r hm⟩

/-- **An arbiter that starts is passive**, and follows its own configuration. -/
theorem agrees_start {config : ArbiterConfiguration} {store : Statements}
    {kept : Option LeasePromiseRecord} {keptStatement : LeaderStatement} {a : Arbiter}
    (hself : config.peerInstanceId ≠ config.instanceId) (hzero : config.peerInstanceId ≠ 0)
    (h : start config store kept keptStatement now = .ok a) : a.Agrees ∧ a.config = config := by
  have hpassive := (onDisk_start h).2.2.1
  obtain ⟨lease, hl, h⟩ := bind_eq_ok.mp h
  obtain ⟨voters, hv, h⟩ := bind_eq_ok.mp h
  cases h
  have hs := started hl kept keptStatement
  have hidle : ¬ (lease.keepPromisesIn kept keptStatement now).Leading := by
    intro hlead
    have := hs.idle.symm.trans hlead
    cases this
  refine ⟨?_, rfl⟩
  exact
    { peer_ne_self := by rw [hs.peer_eq, hs.self_eq]; exact hself
      peer_ne_zero := by rw [hs.peer_eq]; exact hzero
      self := fun hne => absurd hs.idle hne
      role := ⟨nofun, fun hl => absurd hl hidle⟩
      active := ⟨fun ha => absurd (hpassive.symm.trans ha) (by decide), fun hl => absurd hl hidle⟩ }

end Arbiter

end PubsubVenue
