import PubsubVenue.Machine
import PubsubVenue.Lease.Faithful
import PubsubVenue.Lease.Pair

/-! # A promise made is a promise kept across restarts

`Keeper` is one instance: its agent, the promise record on its disk and every grant it has sent. Its
writer thread replaces the record and reports the outcome at any time, or fails; the process stops
at any point and starts again from whatever record is on disk.

A grant to the peer is sent once the record on disk covers it. The record stays good only if no
write that names another instance is still to come, which `Keeper.noOtherRecordPending` says: then
the promise is kept (`promise_kept_across_restarts`). Without it a write begun while the instance
led can land after the grant (`asks_while_promised`). -/

namespace PubsubVenue

open PairLeaseAgent Option

/-- A grant that was sent: to whom, and when. -/
structure SentGrant where
  candidateId : Int
  grantedAt : Nat
  deriving DecidableEq, Repr

/-- One instance: the process that runs, the record on its disk and the grants it has sent, the
latest first. -/
structure Keeper where
  /-- The steady clock, which a restart of the process does not change. -/
  now : Nat
  agent : PairLeaseAgent
  /-- The promise record on disk, written during this boot. -/
  disk : Option LeasePromiseRecord := none
  /-- Every grant sent during this boot. -/
  sent : List SentGrant := []

/-- What can happen to an instance. -/
inductive KeeperAction where
  | advance (time : Nat)
  /-- The agent applies the lease rules. -/
  | tick (wait recordTook : Nat)
  | request (candidateId epoch requestId : Int) (statement : LeaderStatement)
  | grant (voterId epoch requestId echoed : Int)
  | refusal (voterId highestEpoch requestId : Int) (reason : LeaseRefusalReason) (wait : Nat)
  /-- An arbiter says it holds a statement. -/
  | statementHeld (arbiterInstanceId : Int) (statement : LeaderStatement) (alone : Bool)
  /-- The owner says whether the peer may lead. -/
  | say (peerMayLead : Bool)
  | stopAskingToLead
  | writeLands
  | writeFinishes
  | restart (persistedEpoch : Int)

namespace Keeper

variable (s : Keeper)

/-- The process starts again, with what is on disk. -/
def restart (persistedEpoch : Int) : Except String Keeper := do
  let a ← start s.agent.participant.selfId s.agent.peerId s.agent.thirdVoterId
    s.agent.timing s.now persistedEpoch s.agent.participant.peerStatements
  return { s with
    agent := a.keepPromisesIn s.disk ((s.disk.map (·.statement)).getD {}) s.now }

/-- Change the state of the recorder. -/
def setRecorder (b : BackgroundPromiseRecorder) : Keeper :=
  { s with agent := { s.agent with records := { s.agent.records with recorder := b } } }

/-- The process has answered a request. -/
def answered (candidateId : Int) (reply : LeaseReply) (a : PairLeaseAgent) : Keeper :=
  match reply with
  | .grant _ _ _ _ => { s with agent := a, sent := ⟨candidateId, s.now⟩ :: s.sent }
  | .refusal _ _ _ _ => { s with agent := a }

/-- **The machine of one instance.** -/
def step : Machine Keeper KeeperAction
  | s, .advance time => if s.now ≤ time then some { s with now := time } else none
  | s, .tick wait recordTook =>
    ((s.agent.onTick s.now wait recordTook).map fun r => { s with agent := r.2 }).toOption
  | s, .request candidateId epoch requestId statement =>
    ((s.agent.onRequest candidateId epoch requestId statement s.now).map fun r =>
      s.answered candidateId r.1 r.2).toOption
  | s, .grant voterId epoch requestId echoed =>
    ((s.agent.onGrant voterId epoch requestId echoed s.now).map fun r =>
      { s with agent := r.2 }).toOption
  | s, .refusal voterId highestEpoch requestId reason wait =>
    some { s with agent :=
      (s.agent.onRefusal voterId highestEpoch requestId reason s.now wait).2 }
  | s, .statementHeld arbiterInstanceId statement alone =>
    some { s with agent := s.agent.onStatementHeld arbiterInstanceId statement alone }
  | s, .say peerMayLead =>
    ((s.agent.say peerMayLead s.now).map fun a => { s with agent := a }).toOption
  | s, .stopAskingToLead => some { s with agent := s.agent.stopAskingToLead }
  | s, .writeLands =>
    let b := s.agent.records.recorder
    b.writing.map fun record =>
      { s.setRecorder { b with landed := true } with disk := some record }
  | s, .writeFinishes =>
    let b := s.agent.records.recorder
    b.writing.map fun _ =>
      s.setRecorder { writing := none, landed := false, outcome := some b.landed }
  | s, .restart persistedEpoch => (s.restart persistedEpoch).toOption

/-- An instance of a pair that starts in a fresh boot of its machine, with no record. -/
def start (selfId peerId thirdVoterId : Int) (timing : LeaseTiming) (startedAt : Nat)
    (persistedEpoch : Int) (flag : PeerStatementsFlag) (keptStatement : LeaderStatement) :
    Except String Keeper :=
  (PairLeaseAgent.start selfId peerId thirdVoterId timing startedAt persistedEpoch flag).map
    fun a => { now := startedAt, agent := a.keepPromisesIn none keptStatement startedAt }

/-- When the record on disk covers a promise to the peer made now, no record that names another
instance is being written or waits to be. -/
def noOtherRecordPending : KeeperAction → Prop
  | .request candidateId _ _ _ =>
    let k := s.agent.records.adoptBackgroundRecord
    candidateId = s.agent.peerId → k.recordedTo = candidateId →
    s.now + s.agent.timing.terms.leasePeriod ≤ k.recordedUntil →
    k.background.all (fun record => decide (record.promisedTo = candidateId)) = true ∧
      k.wanted.all (fun wanted => decide (wanted.1 = candidateId)) = true
  | _ => True

instance (a : KeeperAction) : Decidable (s.noOtherRecordPending a) := by
  unfold noOtherRecordPending
  split <;> infer_instance

/-! ## The invariant -/

/-- When the promise a grant makes runs out. -/
def ends (g : SentGrant) : Nat := g.grantedAt + s.agent.timing.terms.leasePeriod

/-- What holds of an instance. -/
structure Inv (peerId : Int) (timing : LeaseTiming) (s : Keeper) : Prop where
  peer_eq : s.agent.peerId = peerId
  timing_eq : s.agent.timing = timing
  peer_ne_self : s.agent.peerId ≠ s.agent.participant.selfId
  peer_ne_zero : s.agent.peerId ≠ 0
  period : s.agent.participant.voter.leasePeriod = s.agent.timing.terms.leasePeriod
  self : s.agent.participant.VotesForSelf
  sound : PromiseRecords.Sound s.agent.peerId (s.agent.recordLimit s.now) s.agent.records s.disk
  sent_le : ∀ g ∈ s.sent, g.grantedAt ≤ s.now
  /-- A promise to the peer that runs is kept in memory and on disk. -/
  kept : ∀ g ∈ s.sent, g.candidateId = s.agent.peerId → s.now < s.ends g →
    s.agent.participant.KeepsFor s.agent.peerId (s.ends g) ∧
      PromiseRecords.Binds s.agent.peerId (s.ends g) s.agent.records s.disk
  /-- Nobody else was granted the vote while a promise to the peer ran. -/
  apart : s.sent.Pairwise fun later earlier => earlier.candidateId = s.agent.peerId →
    later.candidateId ≠ s.agent.peerId → s.ends earlier ≤ later.grantedAt

variable {peerId : Int} {timing : LeaseTiming} {s : Keeper}

section

variable (h : Inv peerId timing s)
include h

/-- A faithful act keeps the invariant. -/
theorem Inv.faithful {a : PairLeaseAgent}
    (ha : Faithful s.now s.disk s.agent a) : Inv peerId timing { s with agent := a } := by
  have hends : ∀ g, ends { s with agent := a } g = s.ends g := fun g => by
    unfold ends
    rw [ha.timing]
  have hlimit : a.recordLimit s.now = s.agent.recordLimit s.now := by
    unfold recordLimit
    rw [ha.participant.leasePeriod]
  refine
    { peer_eq := ha.peerId.trans h.peer_eq
      timing_eq := ha.timing.trans h.timing_eq
      peer_ne_self := by rw [ha.peerId, ha.participant.selfId]; exact h.peer_ne_self
      peer_ne_zero := by rw [ha.peerId]; exact h.peer_ne_zero
      period := by rw [ha.participant.leasePeriod, ha.timing]; exact h.period
      self := ha.participant.self h.self
      sound := by rw [ha.peerId, hlimit]; exact ha.sound h.sound
      sent_le := h.sent_le
      kept := fun g hg hc hlt => ?_
      apart := ?_ }
  · rw [hends] at hlt ⊢
    rw [ha.peerId] at hc ⊢
    obtain ⟨hk, hb⟩ := h.kept g hg hc hlt
    have hle : s.ends g ≤ s.now + s.agent.participant.voter.leasePeriod := by
      have := h.sent_le g hg
      unfold ends
      rw [h.period]
      omega
    exact ⟨ha.participant.keeps _ hlt hle hk, ha.binds _ hlt hle hk hb⟩
  · rw [ha.peerId]
    simp only [hends]
    exact h.apart

/-- Time passing keeps the invariant. -/
theorem Inv.advance {time : Nat} (ht : s.now ≤ time) : Inv peerId timing { s with now := time } :=
  { h with
    sound := h.sound.mono (Nat.add_le_add_right (Nat.add_le_add_right ht _) _)
    sent_le := fun g hg => (h.sent_le g hg).trans ht
    kept := fun g hg hc hlt => h.kept g hg hc (lt_of_le_of_lt ht hlt) }

/-- A promise of an earlier grant runs out within a lease period. -/
theorem Inv.ends_le {g : SentGrant} (hg : g ∈ s.sent) :
    s.ends g ≤ s.now + s.agent.participant.voter.leasePeriod := by
  have := h.sent_le g hg
  unfold ends
  rw [h.period]
  omega

/-- **Answering a request keeps the invariant**, if no record that names another instance is pending
when the record on disk covers a promise to the peer. -/
theorem Inv.request {candidateId epoch requestId : Int} {statement : LeaderStatement}
    {reply : LeaseReply} {a : PairLeaseAgent}
    (hreq : s.agent.onRequest candidateId epoch requestId statement s.now = .ok (reply, a))
    (hcond : s.noOtherRecordPending (.request candidateId epoch requestId statement)) :
    Inv peerId timing (s.answered candidateId reply a) := by
  obtain ⟨hf, hgrant⟩ := faithful_onRequest h.peer_ne_zero h.self h.sound hreq
  have h' := h.faithful hf
  cases reply with
  | refusal => exact h'
  | grant =>
    obtain ⟨honly, hkept⟩ := hgrant _ _ _ _ rfl
    change Inv peerId timing { s with agent := a, sent := ⟨candidateId, s.now⟩ :: s.sent }
    refine { h' with
        sent_le := fun g hg => ?_
        kept := fun g hg hc hlt => ?_
        apart := List.pairwise_cons.mpr ⟨fun g hg hc hne => ?_, h'.apart⟩ }
    · rcases List.mem_cons.mp hg with rfl | hg
      · exact le_refl _
      · exact h.sent_le g hg
    · rcases List.mem_cons.mp hg with rfl | hg
      · -- the grant just sent, to the peer
        have hc' : candidateId = s.agent.peerId := hc.trans hf.peerId
        obtain ⟨hto, hle, hbind⟩ := hkept hc'
        have hends : ends { s with agent := a, sent := ⟨candidateId, s.now⟩ :: s.sent }
            ⟨candidateId, s.now⟩ = s.now + s.agent.participant.voter.leasePeriod := by
          unfold ends
          rw [h.period, hf.timing]
        rw [hends, hf.peerId]
        obtain ⟨hback, hwant⟩ := hcond hc' (hto.trans hc'.symm) (h.period ▸ hle)
        refine hbind (fun r hr => ?_) (fun w hw => ?_)
        · rw [hr, all_some, decide_eq_true_eq] at hback
          exact hback.trans hc'
        · rw [hw, all_some, decide_eq_true_eq] at hwant
          exact hwant.trans hc'
      · exact h'.kept g hg hc hlt
    · -- a promise to the peer that ran would have kept the vote from anyone else
      by_contra hlt
      have hends : ends { s with agent := a, sent := ⟨candidateId, s.now⟩ :: s.sent } g = s.ends g := by
        unfold ends
        rw [hf.timing]
      rw [hends, not_le] at hlt
      have hkeeps := (h.kept g hg (hc.trans hf.peerId) hlt).1
      exact hne ((honly _ hlt (h.ends_le hg) hkeeps).trans hf.peerId.symm)

end

/-- An instance that starts in a fresh boot keeps every promise: it has made none. -/
theorem inv_of_start {selfId thirdVoterId : Int} {startedAt : Nat}
    {persistedEpoch : Int} {flag : PeerStatementsFlag} {keptStatement : LeaderStatement}
    (hself : peerId ≠ selfId) (hpeer : peerId ≠ 0)
    (h : start selfId peerId thirdVoterId timing startedAt persistedEpoch flag keptStatement =
      .ok s) : Inv peerId timing s := by
  obtain ⟨a, ha, rfl⟩ := map_eq_ok.mp h
  have hs := started ha none keptStatement
  exact
    { peer_eq := hs.peer_eq
      timing_eq := hs.timing_eq
      peer_ne_self := by rw [hs.peer_eq, hs.self_eq]; exact hself
      peer_ne_zero := by rw [hs.peer_eq]; exact hpeer
      period := by rw [hs.timing_eq]; exact hs.leasePeriod
      self := fun hn => absurd hs.idle hn
      sound := by
        rw [hs.peer_eq]
        exact hs.sound nofun hpeer
      sent_le := nofun
      kept := nofun
      apart := List.Pairwise.nil }

/-- **A restart keeps the invariant**: the record on disk names the peer for long enough. -/
theorem Inv.restart (h : Inv peerId timing s) {persistedEpoch : Int} {t : Keeper}
    (hr : s.restart persistedEpoch = .ok t) : Inv peerId timing t := by
  obtain ⟨a, ha, hr⟩ := bind_eq_ok.mp hr
  cases hr
  have hs := started ha s.disk ((s.disk.map (·.statement)).getD {})
  refine
    { peer_eq := hs.peer_eq.trans h.peer_eq
      timing_eq := hs.timing_eq.trans h.timing_eq
      peer_ne_self := by rw [hs.peer_eq, hs.self_eq]; exact h.peer_ne_self
      peer_ne_zero := by rw [hs.peer_eq]; exact h.peer_ne_zero
      period := by rw [hs.timing_eq]; exact hs.leasePeriod
      self := fun hn => absurd hs.idle hn
      sound := ?_
      sent_le := h.sent_le
      kept := fun g hg hc hlt => ?_
      apart := ?_ }
  · rw [hs.peer_eq]
    refine hs.sound (fun d hd hp => ?_) h.peer_ne_zero
    have hle := h.sound.disk_le hd hp
    unfold recordLimit at hle ⊢
    rw [hs.leasePeriod, ← h.period]
    exact hle
  · unfold ends at hlt ⊢
    rw [hs.timing_eq] at hlt ⊢
    rw [hs.peer_eq] at hc ⊢
    obtain ⟨-, hb⟩ := h.kept g hg hc hlt
    obtain ⟨d, hd, hp, hle⟩ := hb.onDisk
    obtain ⟨hto, huntil⟩ := hs.recorded d hd
    obtain ⟨hto', hexp⟩ := hs.promise d hd (hp ▸ h.peer_ne_self)
    refine ⟨⟨hs.idle, .inr ⟨hto'.trans hp, hexp ▸ hle⟩⟩, ?_⟩
    exact
      { recorded := ⟨hto.trans hp, huntil ▸ hle⟩
        background := fun r hr => by rw [hs.background] at hr; cases hr
        wanted := fun w hw => by rw [hs.wanted] at hw; cases hw
        onDisk := ⟨d, hd, hp, hle⟩ }
  · unfold ends
    rw [hs.timing_eq, hs.peer_eq]
    exact h.apart

/-- The writer thread's acts keep the invariant, if they keep the records sound and a record in
progress that lands is one the agent has in progress. -/
theorem Inv.recorder (h : Inv peerId timing s) {b : BackgroundPromiseRecorder}
    {disk : Option LeasePromiseRecord}
    (hsound : PromiseRecords.Sound s.agent.peerId (s.agent.recordLimit s.now)
      { s.agent.records with recorder := b } disk)
    (hdisk : disk = s.disk ∨ disk = s.agent.records.background ∧ disk.isSome) :
    Inv peerId timing { s.setRecorder b with disk := disk } := by
  refine { h with sound := hsound, kept := fun g hg hc hlt => ?_ }
  obtain ⟨hk, hb⟩ := h.kept g hg hc hlt
  refine ⟨hk, { hb with onDisk := ?_ }⟩
  rcases hdisk with rfl | ⟨hd, hsome⟩
  · exact hb.onDisk
  · obtain ⟨d, rfl⟩ := isSome_iff_exists.mp hsome
    exact ⟨d, rfl, hb.background d hd.symm⟩

/-- **Every action keeps the invariant**, if no record that names another instance is pending when a
grant is sent. -/
theorem invariant_step : (step.restrict noOtherRecordPending).Invariant (Inv peerId timing) := by
  intro s action t h hstep
  obtain ⟨hcond, hstep⟩ := Machine.restrict_eq_some.mp hstep
  cases action with
  | advance =>
    simp only [step, ite_none_right_eq_some, some.injEq] at hstep
    obtain ⟨hle, rfl⟩ := hstep
    exact h.advance hle
  | tick =>
    obtain ⟨⟨changes, a⟩, ha, rfl⟩ := map_eq_ok.mp (toOption_eq_some.mp hstep)
    exact h.faithful (faithful_onTick h.peer_ne_self h.peer_ne_zero ha)
  | request =>
    obtain ⟨⟨reply, a⟩, ha, rfl⟩ := map_eq_ok.mp (toOption_eq_some.mp hstep)
    exact h.request ha hcond
  | grant =>
    obtain ⟨⟨changes, a⟩, ha, rfl⟩ := map_eq_ok.mp (toOption_eq_some.mp hstep)
    exact h.faithful (faithful_onGrant h.peer_ne_self ha)
  | refusal =>
    cases hstep
    exact h.faithful (faithful_onRefusal _ _ _ _ _)
  | statementHeld =>
    cases hstep
    exact h.faithful (faithful_onStatementHeld _ _ _)
  | say =>
    obtain ⟨a, ha, rfl⟩ := map_eq_ok.mp (toOption_eq_some.mp hstep)
    exact h.faithful (faithful_say ha)
  | stopAskingToLead =>
    cases hstep
    exact h.faithful (faithful_of_participant rfl rfl rfl (LeaseParticipant.Faithful.refl _))
  | writeLands =>
    obtain ⟨record, hw, rfl⟩ := map_eq_some_iff.mp hstep
    exact h.recorder (h.sound.lands hw) (.inr ⟨(h.sound.background_eq hw).1.symm, rfl⟩)
  | writeFinishes =>
    obtain ⟨record, hw, rfl⟩ := map_eq_some_iff.mp hstep
    exact h.recorder (h.sound.finishes hw) (.inl rfl)
  | restart => exact h.restart (toOption_eq_some.mp hstep)

/-- **A promise made is a promise kept across restarts.** Take any run of an instance in which, when
a request of the peer's is answered and the record on disk covers it, no record that names another
instance is being written or waits to be. While a promise of a grant sent to the peer runs, the
instance neither leads nor asks to lead, and nobody but the peer has been granted its vote. -/
theorem promise_kept_across_restarts (i : Instance) (thirdVoterId : Int) (timing : LeaseTiming)
    (startedAt : Nat) (persistedEpoch : Int) (flag : PeerStatementsFlag)
    (keptStatement : LeaderStatement) (actions : List KeeperAction) {s₀ s : Keeper}
    (h₀ : start i.id i.peer.id thirdVoterId timing startedAt persistedEpoch flag keptStatement = .ok s₀)
    (hrun : (step.restrict noOtherRecordPending).run s₀ actions = some s) :
    (∀ g ∈ s.sent, g.candidateId = i.peer.id → s.now < g.grantedAt + timing.terms.leasePeriod →
      s.agent.participant.holder.state = .idle) ∧
    s.sent.Pairwise fun later earlier => earlier.candidateId = i.peer.id →
      later.candidateId ≠ i.peer.id →
        earlier.grantedAt + timing.terms.leasePeriod ≤ later.grantedAt := by
  have h := invariant_step.run (inv_of_start (by cases i <;> decide) (by cases i <;> decide) h₀) hrun
  have hends : ∀ g, s.ends g = g.grantedAt + timing.terms.leasePeriod := fun g => by
    rw [← h.timing_eq]
    rfl
  refine ⟨fun g hg hc hlt => ?_, ?_⟩
  · exact (h.kept g hg (hc.trans h.peer_eq.symm) (by rw [hends]; exact hlt)).1.idle
  · simpa only [hends, h.peer_eq] using h.apart

/-- Instance 1 of a pair just started at zero, with a lease period of three seconds. -/
def primary : Keeper where
  now := 0
  agent :=
    { peerId := 2
      thirdVoterId := 3
      timing := .threeSeconds
      participant :=
        { selfId := 1
          voter := { leasePeriod := 3000, quietUntil := 3000, highestEpoch := 0 }
          holder := { terms := LeaseTiming.threeSeconds.terms }
          peerStatements := .peerAlwaysMayLead } }

/-- The instance does start so. -/
theorem start_eq_primary : start Instance.one.id Instance.one.peer.id 3 .threeSeconds
    0 0 .peerAlwaysMayLead {} = .ok primary := rfl

/-- The peer asks twice: its first request starts the record, the second finds it on disk and is
granted. The instance then stops, starts again and finds its time to ask come. -/
def grantsAndRestarts : List KeeperAction :=
  [.advance 3000, .request 2 2 1 {}, .writeLands, .writeFinishes, .advance 3100, .request 2 2 2 {},
    .restart 2, .advance 6000, .tick 500 0]

/-- There are such runs in which a promise to the peer still runs after a restart. -/
theorem promise_kept_across_restarts_grantsAndRestarts :
    ∃ s, (step.restrict noOtherRecordPending).run primary grantsAndRestarts = some s ∧
      s.sent = [⟨2, 3100⟩] ∧ s.now = 6000 ∧ s.agent.participant.holder.state = .idle := by
  obtain ⟨s, hs, hsent, hnow⟩ := Machine.exists_run_of_any (step.restrict noOtherRecordPending) primary
    grantsAndRestarts (fun s => s.sent = [⟨2, 3100⟩] ∧ s.now = 6000) (by decide)
  obtain ⟨hidle, -⟩ := promise_kept_across_restarts .one _ _ _ _ _ _ _ start_eq_primary hs
  have hrunning : s.now < 3100 + 3000 := by omega
  exact ⟨s, hs, hsent, hnow, hidle ⟨2, 3100⟩ (by simp [hsent]) rfl hrunning⟩

/-- The peer is granted the vote, and its promise runs out. The instance leads, and a write of its
own name begins that takes long. Its lease runs out and the peer asks: the old record on disk still
covers the promise, so the grant is sent. Then the write lands, and the process stops and starts
again. -/
def lateSelfRecord : List KeeperAction :=
  [.advance 3000, .request 2 2 1 {}, .writeLands, .writeFinishes, .advance 3100, .request 2 2 2 {},
    .advance 6200, .tick 500 0, .advance 6210, .grant 3 5 2 0, .advance 8950, .tick 500 0,
    .advance 9000, .request 2 10 3 {}, .writeLands, .restart 10, .advance 9100, .tick 500 0]

/-- **A late record breaks a promise**: the vote was granted to the peer at 9000, for three seconds,
and at 9100 the instance asks to lead. -/
theorem asks_while_promised : ∃ s g, step.run primary lateSelfRecord = some s ∧ g ∈ s.sent ∧
      g.candidateId = Instance.one.peer.id ∧ s.now < g.grantedAt + 3000 ∧
      s.agent.participant.holder.state = .candidate := by
  obtain ⟨s, hs, hsent, hnow, hstate⟩ := Machine.exists_run_of_any step primary lateSelfRecord
    (fun s => ⟨2, 9000⟩ ∈ s.sent ∧ s.now < 12000 ∧ s.agent.participant.holder.state = .candidate)
    (by decide)
  exact ⟨s, ⟨2, 9000⟩, hs, hsent, rfl, hnow, hstate⟩

end Keeper

end PubsubVenue
