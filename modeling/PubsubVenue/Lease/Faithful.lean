import PubsubVenue.Lease.PromiseRecords

/-! # What breaks no promise

An operation of an instance is *faithful* if it breaks no running promise to the peer: the vote kept
for the peer stays kept, in memory (`LeaseParticipant.Faithful`) and in the records
(`PairLeaseAgent.Faithful`). Every operation of an agent is faithful, whatever it is told:

* **`faithful_onTick`**, **`faithful_onGrant`**, **`faithful_onRefusal`**, **`faithful_say`**: an
  instance whose vote is kept for the peer neither takes the lead nor asks for it.
* **`faithful_onRequest`**: it grants its vote to nobody else, and a grant sent is a promise kept.
* **`started`**: an agent that starts again has what the record on disk says. -/

namespace PubsubVenue

open LeaseParticipant

/-! ## The vote -/

namespace LeaseParticipant

/-- An instance keeps its vote for the peer until `b`: it neither leads nor asks to, and grants the
vote to nobody else. -/
structure KeepsFor (peer : Int) (b : Nat) (p : LeaseParticipant) : Prop where
  idle : p.holder.state = .idle
  promise : b ≤ p.voter.quietUntil ∨ (p.voter.promisedTo = peer ∧ b ≤ p.voter.promiseExpires)

/-- An instance's vote is held for it while it leads or asks to lead. -/
def VotesForSelf (p : LeaseParticipant) : Prop :=
  p.holder.state ≠ .idle → p.voter.heldForSelf = true

/-- What an instance does at `now` that breaks no running promise to the peer. -/
structure Faithful (peer : Int) (now : Nat) (p p' : LeaseParticipant) : Prop where
  selfId : p'.selfId = p.selfId
  leasePeriod : p'.voter.leasePeriod = p.voter.leasePeriod
  self : p.VotesForSelf → p'.VotesForSelf
  keeps : ∀ b, now < b → b ≤ now + p.voter.leasePeriod → p.KeepsFor peer b → p'.KeepsFor peer b

variable {peer : Int} {now : Nat} {p p' p'' : LeaseParticipant}

/-- Faithful acts compose. -/
theorem Faithful.trans (h : Faithful peer now p p') (h' : Faithful peer now p' p'') :
    Faithful peer now p p'' where
  selfId := h'.selfId.trans h.selfId
  leasePeriod := h'.leasePeriod.trans h.leasePeriod
  self := fun hs => h'.self (h.self hs)
  keeps := fun b hlt hle hk => h'.keeps b hlt (by rw [h.leasePeriod]; exact hle) (h.keeps b hlt hle hk)

/-- An act that touches no promise and starts no candidacy is faithful. -/
theorem faithful_of_eq (hid : p'.selfId = p.selfId) (hperiod : p'.voter.leasePeriod = p.voter.leasePeriod)
    (hquiet : p'.voter.quietUntil = p.voter.quietUntil) (hto : p'.voter.promisedTo = p.voter.promisedTo)
    (hexp : p'.voter.promiseExpires = p.voter.promiseExpires)
    (hactive : p'.holder.state ≠ .idle → p.holder.state ≠ .idle ∧
      p'.voter.heldForSelf = p.voter.heldForSelf) : Faithful peer now p p' where
  selfId := hid
  leasePeriod := hperiod
  self := fun hs ha => (hactive ha).2.trans (hs (hactive ha).1)
  keeps := fun b _ _ hk =>
    { idle := by
        by_contra ha
        exact (hactive ha).1 hk.idle
      promise := by
        rw [hquiet, hto, hexp]
        exact hk.promise }

/-- What settles is faithful. -/
theorem Settles.faithful (h : Settles p p') : Faithful peer now p p' :=
  faithful_of_eq h.selfId h.leasePeriod h.quietUntil h.promisedTo h.promiseExpires fun ha => by
    obtain ⟨hs, -, hv⟩ := h.active ha
    exact ⟨hs ▸ ha, hv⟩

/-- Doing nothing is faithful. -/
theorem Faithful.refl (p : LeaseParticipant) : Faithful peer now p p :=
  faithful_of_eq rfl rfl rfl rfl rfl fun ha => ⟨ha, rfl⟩

/-- Noting a request is faithful. -/
theorem faithful_recordRequest (voterId : Int) (at_ : Nat) :
    Faithful peer now p (p.recordRequest voterId at_).2 :=
  faithful_of_eq rfl rfl rfl rfl rfl fun ha => ⟨ha, rfl⟩

/-- Noting what the peer has echoed is faithful. -/
theorem faithful_noteEcho (epoch number : Int) : Faithful peer now p (p.noteEchoFromPeer epoch number) := by
  unfold noteEchoFromPeer
  split
  · exact faithful_of_eq rfl rfl rfl rfl rfl fun ha => ⟨ha, rfl⟩
  · exact Faithful.refl p

/-- Noting what an arbiter holds is faithful. -/
theorem faithful_noteHeldByArbiter (arbiterInstanceId : Int) (held : LeaderStatement)
    (alone : Bool) : Faithful peer now p (p.noteHeldByArbiter arbiterInstanceId held alone) := by
  unfold noteHeldByArbiter
  split
  · exact Faithful.refl p
  split
  · exact Faithful.refl p
  split <;> split <;> exact faithful_of_eq rfl rfl rfl rfl rfl fun ha => ⟨ha, rfl⟩

/-- Asking to lead is faithful: no promise to the peer runs. -/
theorem faithful_beginAskingToLead (hself : peer ≠ p.selfId) (hpeer : peer ≠ 0)
    (hmay : p.mayAskToLead now = true) {epoch : Int}
    (hb : p.beginAskingToLead = .ok (epoch, p')) : Faithful peer now p p' := by
  obtain ⟨-, rfl⟩ := beginAskingToLead_eq_ok hb
  obtain ⟨-, hquiet, hprom, -, -⟩ := mayAskToLead_iff.mp hmay
  refine
    { selfId := rfl
      leasePeriod := rfl
      self := fun _ _ => rfl
      keeps := fun b hlt _ hk => ?_ }
  exfalso
  rcases hk.promise with hq | ⟨hto, hexp⟩
  · omega
  · rcases hprom with h0 | hle | hs
    · exact hpeer (hto.symm.trans h0)
    · omega
    · exact hself (hto.symm.trans hs)

/-- Taking a grant is faithful: an idle instance takes none. -/
theorem faithful_onGrant {voterId requestId epoch : Int} {event : HolderEvent}
    (hg : p.onGrant voterId requestId epoch now = .ok (event, p')) : Faithful peer now p p' := by
  obtain ⟨-, hid, hv, -⟩ := onGrant_eq_ok hg
  rcases onGrant_cases hg with ⟨-, hsettles⟩ | ⟨_, -, -, hactive, -⟩
  · exact hsettles.faithful
  · exact
      { selfId := hid
        leasePeriod := hv.leasePeriod
        self := fun hs _ => hv.heldForSelf.trans (hs hactive)
        keeps := fun b _ _ hk => absurd hk.idle hactive }

section

variable (hpeer : peer ≠ 0)
include hpeer

/-- A voter that has promised its vote to the peer grants it to nobody else. -/
theorem candidate_eq_of_keepsFor {b : Nat} (hlt : now < b) (hk : p.KeepsFor peer b) {candidateId epoch : Int}
    (hg : (p.voter.consider candidateId epoch now).1.verdict = .granted) : candidateId = peer := by
  rcases p.voter.consider_cases candidateId epoch now with ⟨hno, -⟩ | ⟨-, hquiet, -, hlive, -⟩
  · exact absurd hg hno
  rcases hk.promise with hq | ⟨hto, hexp⟩
  · omega
  · have hid := hlive (by
      unfold LeaseVoter.promiseLive
      rw [hto]
      simp only [ne_eq, hpeer, not_false_eq_true, decide_true, Bool.true_and, decide_eq_true_eq]
      omega)
    exact hid.symm.trans hto

/-- Letting the voter decide a request is faithful. -/
theorem faithful_consider (candidateId epoch : Int) :
    Faithful peer now p { p with voter := (p.voter.consider candidateId epoch now).2 } := by
  rcases p.voter.consider_cases candidateId epoch now with ⟨-, hv⟩ | ⟨hg, hquiet, -, -, -, -, hv⟩
  · rw [hv]
    exact Faithful.refl p
  · refine
      { selfId := rfl
        leasePeriod := by rw [hv]
        self := fun hs ha => ?_
        keeps := fun b hlt hle hk => ⟨hk.idle, ?_⟩ }
    · rw [hv]
      exact hs ha
    · have hc := candidate_eq_of_keepsFor hpeer hlt hk (congrArg Answer.verdict hg)
      rw [hv]
      exact .inr ⟨hc, hle⟩

/-- Answering a request is faithful. -/
theorem faithful_onPeerRequest (candidateId epoch : Int) :
    Faithful peer now p (p.onPeerRequest candidateId epoch now).2 :=
  (settles_yieldTo p epoch now).faithful.trans (faithful_consider hpeer candidateId epoch)

/-- **What granting a request means**: the instance is idle and has promised its vote to the
candidate for a lease period; if the vote was kept for the peer, the candidate is the peer. -/
theorem onPeerRequest_granted {candidateId epoch : Int}
    (hg : (p.onPeerRequest candidateId epoch now).1.verdict = .granted) (hself : p.VotesForSelf) :
    (∀ b, now < b → b ≤ now + p.voter.leasePeriod → p.KeepsFor peer b → candidateId = peer) ∧
      (p.onPeerRequest candidateId epoch now).2.holder.state = .idle ∧
      (p.onPeerRequest candidateId epoch now).2.voter.promisedTo = candidateId ∧
      (p.onPeerRequest candidateId epoch now).2.voter.promiseExpires = now + p.voter.leasePeriod := by
  have hy : Faithful peer now p (p.yieldTo epoch now) := (settles_yieldTo p epoch now).faithful
  unfold onPeerRequest at hg ⊢
  dsimp only at hg ⊢
  rcases (p.yieldTo epoch now).voter.consider_cases candidateId epoch now with
    ⟨hno, -⟩ | ⟨-, -, hfree, -, -, -, hv⟩
  · exact absurd hg hno
  rw [hv, ← hy.leasePeriod]
  refine ⟨fun b hlt hle hk => ?_, ?_, rfl, rfl⟩
  · exact candidate_eq_of_keepsFor hpeer hlt (hy.keeps b hlt (hy.leasePeriod ▸ hle) hk) hg
  · by_contra ha
    rw [hy.self hself ha] at hfree
    cases hfree

end

end LeaseParticipant

/-! ## The agent -/

namespace PairLeaseAgent

open PromiseRecords (Sound Binds promiseRecordMargin)

variable {now : Nat} {disk : Option LeasePromiseRecord} {a a' a'' : PairLeaseAgent}

/-- When a promise made at `now` is recorded to run out. -/
def recordLimit (a : PairLeaseAgent) (now : Nat) : Nat :=
  now + a.participant.voter.leasePeriod + promiseRecordMargin

/-- What an agent does at `now` that breaks no running promise to the peer, in memory or on disk. -/
structure Faithful (now : Nat) (disk : Option LeasePromiseRecord) (a a' : PairLeaseAgent) : Prop where
  peerId : a'.peerId = a.peerId
  timing : a'.timing = a.timing
  participant : LeaseParticipant.Faithful a.peerId now a.participant a'.participant
  sound : Sound a.peerId (a.recordLimit now) a.records disk →
    Sound a.peerId (a.recordLimit now) a'.records disk
  binds : ∀ b, now < b → b ≤ now + a.participant.voter.leasePeriod →
    a.participant.KeepsFor a.peerId b → Binds a.peerId b a.records disk → Binds a.peerId b a'.records disk

/-- Faithful acts of an agent compose. -/
theorem Faithful.trans (h : Faithful now disk a a') (h' : Faithful now disk a' a'') :
    Faithful now disk a a'' := by
  have hlimit : a'.recordLimit now = a.recordLimit now := by
    unfold recordLimit
    rw [h.participant.leasePeriod]
  have hp := h'.participant
  have hs := h'.sound
  have hb := h'.binds
  rw [h.peerId] at hp hs hb
  rw [hlimit] at hs
  rw [h.participant.leasePeriod] at hb
  exact
    { peerId := h'.peerId.trans h.peerId
      timing := h'.timing.trans h.timing
      participant := h.participant.trans hp
      sound := fun hr => hs (h.sound hr)
      binds := fun b hlt hle hk hr =>
        hb b hlt hle (h.participant.keeps b hlt hle hk) (h.binds b hlt hle hk hr) }

/-- An act that leaves the records alone is as faithful as what the participant does. -/
theorem faithful_of_participant (hpeer : a'.peerId = a.peerId) (htiming : a'.timing = a.timing)
    (hrecords : a'.records = a.records)
    (hp : LeaseParticipant.Faithful a.peerId now a.participant a'.participant) :
    Faithful now disk a a' where
  peerId := hpeer
  timing := htiming
  participant := hp
  sound := fun hs => by rwa [hrecords]
  binds := fun _ _ _ _ hb => by rwa [hrecords]

/-- An act on the records alone. -/
theorem faithful_of_records {k : PromiseRecords}
    (hs : ∀ limit, Sound a.peerId limit a.records disk → Sound a.peerId limit k disk)
    (hb : ∀ b, a.participant.KeepsFor a.peerId b → Binds a.peerId b a.records disk →
      Binds a.peerId b k disk) :
    Faithful now disk a { a with records := k } where
  peerId := rfl
  timing := rfl
  participant := LeaseParticipant.Faithful.refl _
  sound := hs _
  binds := fun b _ _ hk hr => hb b hk hr

/-- Writing a statement is faithful. -/
theorem faithful_writeStatementIfNeeded : Faithful now disk a a.writeStatementIfNeeded :=
  faithful_of_records (fun _ h => h.writeStatement _) (fun _ _ h => h.writeStatement _)

/-- Recording that this instance leads is faithful: an instance that leads has promised its vote to
nobody. -/
theorem faithful_recordLeading (hself : a.peerId ≠ a.participant.selfId) :
    Faithful now disk a a.recordLeading := by
  unfold recordLeading
  split
  · exact faithful_of_participant rfl rfl rfl (LeaseParticipant.Faithful.refl _)
  · rename_i hlead
    refine faithful_of_records (fun _ h => h.covers fun hp => absurd hp.symm hself) fun b hk _ => ?_
    rw [not_not] at hlead
    exact absurd (hlead.symm.trans hk.idle) (by decide)

/-- Asking again is faithful. -/
theorem faithful_askAgain (at_ : Nat) : Faithful now disk a (a.askAgain at_) := by
  unfold askAgain
  split
  · exact faithful_of_participant rfl rfl rfl
      ((faithful_recordRequest _ _).trans (faithful_recordRequest _ _))
  · exact faithful_of_participant rfl rfl rfl (LeaseParticipant.Faithful.refl _)

/-- Beginning to ask to lead is faithful. -/
theorem faithful_beginAsking (hself : a.peerId ≠ a.participant.selfId) (hpeer : a.peerId ≠ 0)
    (hmay : a.participant.mayAskToLead now = true) {recordTook : Nat}
    (h : a.beginAsking now recordTook = .ok a') : Faithful now disk a a' := by
  obtain ⟨⟨epoch, p⟩, hb, ha⟩ := bind_eq_ok.mp h
  cases ha
  exact faithful_of_participant rfl rfl rfl ((faithful_beginAskingToLead hself hpeer hmay hb).trans
      ((faithful_recordRequest _ _).trans (faithful_recordRequest _ _)))

/-- Stopping what must stop is faithful. -/
theorem faithful_stopOnTick (wait : Nat) : Faithful now disk a (a.stopOnTick now wait).2 := by
  refine faithful_of_participant rfl rfl rfl ?_
  have hstop : ∀ p : LeaseParticipant,
    LeaseParticipant.Faithful a.peerId now p (p.stopIfLeaseRanOut now).2 := fun p =>
    (settles_stopIfLeaseRanOut p now).faithful
  unfold stopOnTick
  split
  · exact (settles_stop _ _ _).faithful.trans (hstop _)
  · exact hstop _

/-- Doing nothing is faithful. -/
theorem Faithful.refl (a : PairLeaseAgent) : Faithful now disk a a :=
  faithful_of_participant rfl rfl rfl (LeaseParticipant.Faithful.refl _)

/-- Seeing to the record is faithful. -/
theorem faithful_updateRecords : Faithful now disk a a.updateRecords :=
  faithful_of_records (fun _ h => (h.adopt.startWanted _).writeStatement _)
    (fun _ _ h => (h.adopt.startWanted _).writeStatement _)

/-- Renewing is faithful. -/
theorem faithful_renew (at_ : Nat) : Faithful now disk a (a.renew at_) := by
  unfold renew
  split
  · exact faithful_askAgain _
  · exact Faithful.refl a

/-- Sending a request again is faithful. -/
theorem faithful_repeatRequest (at_ : Nat) : Faithful now disk a (a.repeatRequest at_) := by
  unfold repeatRequest
  split
  · exact faithful_askAgain _
  · exact Faithful.refl a

/-- Giving up a request is faithful. -/
theorem faithful_giveUpUnanswered (at_ wait : Nat) : Faithful now disk a (a.giveUpUnanswered at_ wait) := by
  unfold giveUpUnanswered
  split
  · exact faithful_of_participant rfl rfl rfl (settles_stop _ _ _).faithful
  · exact Faithful.refl a

/-- A tick is faithful. -/
theorem faithful_onTick (hself : a.peerId ≠ a.participant.selfId) (hpeer : a.peerId ≠ 0)
    {wait recordTook : Nat} {change : LeaseChange}
    (h : a.onTick now wait recordTook = .ok (change, a')) : Faithful now disk a a' := by
  unfold onTick at h
  dsimp only at h
  have hupdate : Faithful now disk a a.updateRecords := faithful_updateRecords
  have hf := (((hupdate.trans (faithful_stopOnTick wait)).trans (faithful_renew now)).trans
    (faithful_repeatRequest now)).trans (faithful_giveUpUnanswered now wait)
  split at h
  · rename_i hmay
    obtain ⟨a'', hb, ha⟩ := bind_eq_ok.mp h
    cases ha
    rw [Bool.and_eq_true] at hmay
    refine hf.trans (faithful_beginAsking ?_ ?_ hmay.2 hb)
    · rw [hf.peerId, hf.participant.selfId]
      exact hself
    · rw [hf.peerId]
      exact hpeer
  · cases h
    exact hf

/-- Taking a grant is faithful. -/
theorem faithful_onGrant (hself : a.peerId ≠ a.participant.selfId)
    {voterId epoch requestId echoed : Int} {change : LeaseChange}
    (h : a.onGrant voterId epoch requestId echoed now = .ok (change, a')) :
    Faithful now disk a a' := by
  obtain ⟨⟨event, p⟩, hg, h⟩ := bind_eq_ok.mp h
  dsimp only at h
  generalize hp' : (if voterId = a.peerId then p.noteEchoFromPeer epoch echoed else p) = p' at h
  have hp : LeaseParticipant.Faithful a.peerId now a.participant p' := by
    rw [← hp']
    split
    · exact (LeaseParticipant.faithful_onGrant hg).trans (LeaseParticipant.faithful_noteEcho _ _)
    · exact LeaseParticipant.faithful_onGrant hg
  have hself' : a.peerId ≠ p'.selfId := by
    rw [hp.selfId]
    exact hself
  have hplain : Faithful now disk a { a with participant := p' } :=
    faithful_of_participant rfl rfl rfl hp
  have htakes : Faithful now disk a { a with participant := p', resumingLeadUntil := 0 } :=
    faithful_of_participant rfl rfl rfl hp
  have hlead := htakes.trans (faithful_recordLeading hself')
  split at h
  · cases h
    exact hplain.trans (faithful_recordLeading hself')
  split at h
  · cases h
    exact hplain
  split at h
  · cases h
    exact hlead.trans (faithful_of_participant rfl rfl rfl ((faithful_recordRequest _ _).trans
        (faithful_recordRequest _ _)))
  · cases h
    exact hlead

/-- Taking a refusal is faithful. -/
theorem faithful_onRefusal (voterId highestEpoch requestId : Int) (reason : LeaseRefusalReason) (wait : Nat) :
    Faithful now disk a (a.onRefusal voterId highestEpoch requestId reason now wait).2 := by
  have hsame : Faithful now disk a (a.noteRefusal voterId reason) := by
    unfold noteRefusal
    split
    · split <;> exact faithful_of_participant rfl rfl rfl (LeaseParticipant.Faithful.refl _)
    · exact Faithful.refl a
  unfold onRefusal
  dsimp only
  split
  · exact hsame.trans (faithful_of_participant rfl rfl rfl (settles_stop _ _ _).faithful)
  · exact hsame.trans (faithful_of_participant rfl rfl rfl (settles_onRefusal _ _ _ _ _).faithful)

/-- Learning that an arbiter holds a statement is faithful. -/
theorem faithful_onStatementHeld (arbiterInstanceId : Int) (held : LeaderStatement) (alone : Bool) :
    Faithful now disk a (a.onStatementHeld arbiterInstanceId held alone) :=
  faithful_of_participant rfl rfl rfl (faithful_noteHeldByArbiter _ _ _)

/-- Saying whether the peer may lead is faithful. -/
theorem faithful_say {peerMayLead : Bool} (h : a.say peerMayLead now = .ok a') :
    Faithful now disk a a' := by
  obtain ⟨p, hp, h⟩ := bind_eq_ok.mp h
  cases h
  have hsay : LeaseParticipant.Faithful a.peerId now a.participant p :=
    (settles_sayWhetherPeerMayLead hp).faithful
  have hp' : Faithful now disk a { a with participant := p } :=
    faithful_of_participant rfl rfl rfl hsay
  have hwrite := hp'.trans faithful_writeStatementIfNeeded
  unfold statementChanged
  dsimp only
  split
  · exact hwrite.trans (faithful_of_participant rfl rfl rfl ((faithful_recordRequest _ _).trans
        (faithful_recordRequest _ _)))
  · exact hwrite

variable {statement : LeaderStatement} {reply : LeaseReply} {candidateId : Int}

/-- **What a request does**: the voter answers it, and if it grants it the record is asked whether
it covers the promise; a grant is sent only if it does. -/
theorem onRequest_cases {epoch requestId : Int}
    (h : a.onRequest candidateId epoch requestId statement now = .ok (reply, a')) :
    ∃ p₁ p₂, Settles a.participant p₁ ∧
      Settles (p₁.onPeerRequest candidateId epoch now).2 p₂ ∧ p₁.holder = a.participant.holder ∧
      p₂.holder = (p₁.onPeerRequest candidateId epoch now).2.holder ∧
      a'.peerId = a.peerId ∧ a'.timing = a.timing ∧ a'.participant = p₂ ∧
      (((p₁.onPeerRequest candidateId epoch now).1.verdict = .granted ∧
        (((a.records.covers p₂.voter.recordedStatement candidateId p₂.voter.promiseExpires).1 = true ∧
          (∃ echoed, reply = .grant p₂.selfId epoch requestId echoed) ∧
          a'.records = (a.records.covers p₂.voter.recordedStatement candidateId
            p₂.voter.promiseExpires).2.writeStatementIfNeeded p₂.voter.recordedStatement) ∨
        ((∃ highest reason, reply = .refusal p₂.selfId highest requestId reason) ∧
          a'.records = (a.records.covers p₂.voter.recordedStatement candidateId
            p₂.voter.promiseExpires).2))) ∨
      ((p₁.onPeerRequest candidateId epoch now).1.verdict ≠ .granted ∧
        (∃ highest reason, reply = .refusal p₂.selfId highest requestId reason) ∧
          a'.records = a.records)) := by
  obtain ⟨p₁, hp₁, h⟩ := bind_eq_ok.mp h
  have hs₁ : Settles a.participant p₁ ∧ p₁.holder = a.participant.holder := by
    unfold adoptNewerStatement at hp₁
    split at hp₁
    · obtain ⟨⟨echoed, p⟩, hr, rfl⟩ := map_eq_ok.mp hp₁
      exact ⟨settles_recordPeerStatement hr, holder_recordPeerStatement hr⟩
    · cases hp₁
      exact ⟨settles_of_samePromise rfl (LeaseVoter.SamePromise.refl _) rfl, rfl⟩
  dsimp only at h
  obtain ⟨⟨echoed, p₂⟩, hp₂, h⟩ := bind_eq_ok.mp h
  have hs₂ : Settles (p₁.onPeerRequest candidateId epoch now).2 p₂ ∧
      p₂.holder = (p₁.onPeerRequest candidateId epoch now).2.holder := by
    unfold echoStatement at hp₂
    split at hp₂
    · exact ⟨settles_recordPeerStatement hp₂, holder_recordPeerStatement hp₂⟩
    · cases hp₂
      exact ⟨settles_of_samePromise rfl (LeaseVoter.SamePromise.refl _) rfl, rfl⟩
  refine ⟨p₁, p₂, hs₁.1, hs₂.1, hs₁.2, hs₂.2, ?_⟩
  by_cases hg : (p₁.onPeerRequest candidateId epoch now).1.verdict = .granted
  · simp only [hg, decide_true, if_true, promiseRecorded, held] at h
    split at h
    · rename_i hc
      cases h
      exact ⟨rfl, rfl, rfl, .inl ⟨hg, .inl ⟨hc, ⟨echoed, rfl⟩, rfl⟩⟩⟩
    · cases h
      exact ⟨rfl, rfl, rfl, .inl ⟨hg, .inr ⟨⟨_, _, rfl⟩, rfl⟩⟩⟩
  · simp only [hg, decide_false, Bool.false_eq_true, if_false] at h
    cases h
    exact ⟨rfl, rfl, rfl, .inr ⟨hg, ⟨_, _, rfl⟩, rfl⟩⟩

/-- **Answering a request is faithful**, and a grant that is sent is a promise kept: the vote was
not kept for another instance, and now is kept for this one, in memory and, if no other record is
pending, on disk. -/
theorem faithful_onRequest (hpeer : a.peerId ≠ 0) (hself : a.participant.VotesForSelf)
    (hsound : Sound a.peerId (a.recordLimit now) a.records disk) {epoch requestId : Int}
    (h : a.onRequest candidateId epoch requestId statement now = .ok (reply, a')) :
    Faithful now disk a a' ∧ ∀ voterId grantedEpoch grantedId echoed,
      reply = .grant voterId grantedEpoch grantedId echoed →
        (∀ b, now < b → b ≤ now + a.participant.voter.leasePeriod →
        a.participant.KeepsFor a.peerId b → candidateId = a.peerId) ∧
      (candidateId = a.peerId → a.records.adoptBackgroundRecord.recordedTo = a.peerId ∧
          now + a.participant.voter.leasePeriod ≤ a.records.adoptBackgroundRecord.recordedUntil ∧
        ((∀ record, a.records.adoptBackgroundRecord.background = some record → record.promisedTo = a.peerId) →
          (∀ wanted, a.records.adoptBackgroundRecord.wanted = some wanted → wanted.1 = a.peerId) →
          a'.participant.KeepsFor a.peerId (now + a.participant.voter.leasePeriod) ∧
            Binds a.peerId (now + a.participant.voter.leasePeriod) a'.records disk)) := by
  obtain ⟨p₁, p₂, hs₁, hs₂, -, -, hid, htiming, hp₂, hcases⟩ := onRequest_cases h
  have hf₁ : LeaseParticipant.Faithful a.peerId now a.participant p₁ := hs₁.faithful
  have hf : LeaseParticipant.Faithful a.peerId now a.participant p₂ :=
    (hf₁.trans (faithful_onPeerRequest hpeer candidateId epoch)).trans hs₂.faithful
  rcases hcases with ⟨hg, hcases⟩ | ⟨-, ⟨_, _, rfl⟩, hrec⟩
  · -- the vote is granted, so the record is asked whether it covers a promise for a lease period
    obtain ⟨honly, hidle, hto, hexp⟩ :=
      onPeerRequest_granted hpeer hg (hf₁.self hself)
    rw [hf₁.leasePeriod] at hexp honly
    replace hexp := hs₂.promiseExpires.trans hexp
    replace honly : ∀ b, now < b → b ≤ now + a.participant.voter.leasePeriod →
        a.participant.KeepsFor a.peerId b → candidateId = a.peerId :=
      fun b hlt hle hk => honly b hlt hle (hf₁.keeps b hlt hle hk)
    rw [hexp] at hcases
    have hsound' : Sound a.peerId (a.recordLimit now) (a.records.covers p₂.voter.recordedStatement
        candidateId (now + a.participant.voter.leasePeriod)).2 disk := hsound.covers fun _ => rfl
    have hbinds : ∀ b, now < b → b ≤ now + a.participant.voter.leasePeriod →
        a.participant.KeepsFor a.peerId b → Binds a.peerId b a.records disk →
        Binds a.peerId b (a.records.covers p₂.voter.recordedStatement candidateId
          (now + a.participant.voter.leasePeriod)).2 disk := fun b hlt hle hk hb => by
      rw [honly b hlt hle hk]
      exact hb.covers (by omega)
    rcases hcases with ⟨hcov, ⟨_, rfl⟩, hrec⟩ | ⟨⟨_, _, rfl⟩, hrec⟩
    · refine ⟨⟨hid, htiming, hp₂ ▸ hf, fun _ => ?_, fun b hlt hle hk hb => ?_⟩,
        fun _ _ _ _ _ => ⟨honly, fun hc => ?_⟩⟩
      · rw [hrec]
        exact hsound'.writeStatement _
      · rw [hrec]
        exact (hbinds b hlt hle hk hb).writeStatement _
      · subst hc
        obtain ⟨hto', hle'⟩ := PromiseRecords.recorded_of_covers hcov
        refine ⟨hto', hle', fun hback hwant => ⟨⟨?_, .inr ⟨?_, ?_⟩⟩, ?_⟩⟩
        · rw [hp₂]
          by_contra ha
          exact ha ((hs₂.active ha).1.trans hidle)
        · rw [hp₂]
          exact hs₂.promisedTo.trans hto
        · rw [hp₂, hexp]
        · rw [hrec]
          exact (hsound.binds_of_covers hpeer hcov hback hwant).writeStatement _
    · refine ⟨⟨hid, htiming, hp₂ ▸ hf, fun _ => ?_, fun b hlt hle hk hb => ?_⟩, nofun⟩
      · rw [hrec]
        exact hsound'
      · rw [hrec]
        exact hbinds b hlt hle hk hb
  · exact ⟨faithful_of_participant hid htiming hrec (hp₂ ▸ hf), nofun⟩

/-- **What an agent that starts knows**: it is idle and has what the record on disk says. -/
structure Started (selfId peerId : Int) (timing : LeaseTiming) (kept : Option LeasePromiseRecord)
    (a : PairLeaseAgent) : Prop where
  peer_eq : a.peerId = peerId
  timing_eq : a.timing = timing
  self_eq : a.participant.selfId = selfId
  leasePeriod : a.participant.voter.leasePeriod = timing.terms.leasePeriod
  idle : a.participant.holder.state = .idle
  recorder : a.records.recorder = {}
  background : a.records.background = none
  wanted : a.records.wanted = none
  nothingKept : kept = none → a.records.recordedTo = 0
  recorded : ∀ d, kept = some d → a.records.recordedTo = d.promisedTo ∧ a.records.recordedUntil = d.untilTime
  promise : ∀ d, kept = some d → d.promisedTo ≠ selfId → a.participant.voter.promisedTo = d.promisedTo ∧
      a.participant.voter.promiseExpires = d.untilTime

variable {timing : LeaseTiming} {peerId selfId : Int}

/-- An agent that starts has what the record on disk says. -/
theorem started {thirdVoterId : Int} {startedAt : Nat} {persistedEpoch : Int} {flag : PeerStatementsFlag}
    (h : start selfId peerId thirdVoterId timing startedAt persistedEpoch flag = .ok a)
    (kept : Option LeasePromiseRecord) (keptStatement : LeaderStatement) :
    Started selfId peerId timing kept (a.keepPromisesIn kept keptStatement startedAt) := by
  obtain ⟨p, hp, ha⟩ := bind_eq_ok.mp h
  cases ha
  cases start_eq_ok hp
  -- a fresh participant that stops is a fresh participant but for its waiting time
  have hfresh : ∀ q : LeaseParticipant, q.selfId = selfId →
      q.voter.leasePeriod = timing.terms.leasePeriod → q.holder.state = .idle →
        Started selfId peerId timing kept
        (keepPromisesIn { peerId, thirdVoterId, timing, participant := q } kept keptStatement startedAt) := by
    intro q hid hperiod hidle
    cases kept with
    | none =>
      exact ⟨rfl, rfl, hid, hperiod, hidle, rfl, rfl, rfl, fun _ => rfl, nofun, nofun⟩
    | some d =>
      by_cases hlead : d.promisedTo = selfId ∧ d.untilTime > startedAt
      · have : (decide (d.promisedTo = q.selfId) && decide (d.untilTime > startedAt)) = true := by
          simp [hid, hlead]
        unfold keepPromisesIn
        simp only [this, if_true]
        refine ⟨rfl, rfl, hid, hperiod, ?_, rfl, rfl, rfl, nofun, fun _ hd => ?_, fun _ hd hne => ?_⟩
        · rfl
        · cases hd
          exact ⟨rfl, rfl⟩
        · cases hd
          exact absurd hlead.1 hne
      · have : (decide (d.promisedTo = q.selfId) && decide (d.untilTime > startedAt)) = false := by
          simpa [hid] using hlead
        unfold keepPromisesIn
        simp only [this, Bool.false_eq_true, if_false]
        refine ⟨rfl, rfl, hid, hperiod, hidle, rfl, rfl, rfl, nofun, fun _ hd => ?_, fun _ hd _ => ?_⟩
        · cases hd
          exact ⟨rfl, rfl⟩
        · cases hd
          exact ⟨rfl, rfl⟩
  split
  · exact hfresh _ rfl rfl rfl
  · exact hfresh _ rfl rfl rfl

/-- The records of an agent that starts are sound, if the record on disk is. -/
theorem Started.sound {limit : Nat} (h : Started selfId peerId timing disk a)
    (hdisk : ∀ d, disk = some d → d.promisedTo = peerId → d.untilTime ≤ limit) (hpeer : peerId ≠ 0) :
    Sound peerId limit a.records disk where
  idle := fun _ => by rw [h.recorder]
  busy := fun r hr => by rw [h.background] at hr; cases hr
  landed := fun r hr => by rw [h.background] at hr; cases hr
  before := fun _ => by
    cases hd : disk with
    | none => exact .inl ⟨rfl, h.nothingKept hd⟩
    | some d =>
      obtain ⟨hto, huntil⟩ := h.recorded d hd
      exact .inr ⟨d, rfl, hto.symm, huntil.symm⟩
  recorded_le := fun hp => by
    cases hd : disk with
    | none => exact absurd (hp.symm.trans (h.nothingKept hd)) hpeer
    | some d =>
      obtain ⟨hto, huntil⟩ := h.recorded d hd
      rw [huntil]
      exact hdisk d hd (hto.symm.trans hp)
  background_le := fun r hr => by rw [h.background] at hr; cases hr
  wanted_le := fun u hw => by rw [h.wanted] at hw; cases hw

end PairLeaseAgent

end PubsubVenue
