import PubsubVenue.Replication.LogMatching

/-! # A follower keeps what it has acknowledged

A reply to a position request names no request. One that answers an older request, sent again by the
lease tick or on another connection, can arrive when the follower has since agreed, written and
acknowledged more, and has forgotten its agreement; it then cuts off what was acknowledged. A
follower that acts only on replies to its present position keeps everything, because the leader's
answer to the position of a log that is the beginning of its own is that position.

* **`Replicas.keeps_what_it_acknowledged`**: in every run in which followers act only on such
  replies, while the leader goes on leading.
* **`Replicas.discards_what_it_acknowledged`**: not in every run. -/

namespace PubsubVenue

open List SequencedRecord Pair

variable {α : Type}

/-! ## Positions -/

/-- A position asked about is a position of the log it names. -/
def Placed (written : Int → List (SequencedRecord α)) (q : PositionRequest) : Prop :=
  q.lastSeqNo = 0 ∨ q.lastSeqNo ≤ (written q.lastEpoch).length

/-- A position stays in a log that grows. -/
theorem Placed.mono {written written' : Int → List (SequencedRecord α)} {q : PositionRequest}
    (h : Placed written q) (hg : Grows written written') : Placed written' q := by
  rcases h with h0 | hle
  · exact .inl h0
  · exact .inr (hle.trans (hg q.lastEpoch).length_le)

variable {x : Replica α}

/-- The position a sound replica asks about: the end of its log. -/
theorem Replica.Sound.positionRequest_eq (h : x.Sound) : x.logEpochs.positionRequest =
      ⟨x.wal.length, epochAt (x.wal.map toLogRecord) x.wal.length⟩ := by
  rw [h.table_ofLog, LogEpochTable.positionRequest, lastSeqNo_ofLog, lastEpoch_ofLog, length_map]

/-- The position a sound replica asks about is one of the log it names, if its log is attributed. -/
theorem Replica.Sound.placed (h : x.Sound) {written : Int → List (SequencedRecord α)}
    (hx : Attributed written x.wal) : Placed written x.logEpochs.positionRequest := by
  rw [h.positionRequest_eq]
  cases hlen : x.wal.length with
  | zero => exact .inl rfl
  | succ n =>
    have hget : x.wal[n]? = some x.wal[n] := getElem?_eq_getElem _
    have hp := (hx n _ hget).length_le
    rw [length_take, min_eq_left (by omega)] at hp
    refine .inr ?_
    rwa [epochAt_succ (r := (x.wal[n]).toLogRecord) (by rw [getElem?_map, hget]; rfl)]

/-- **A leader that holds the record asked about answers with it.** -/
theorem Replica.Sound.positionReply_of_holds (h : x.Sound) {q : PositionRequest} {p : PositionReply}
    (hp : x.logEpochs.positionReply q = .ok p) {n : Nat} {r : SequencedRecord α}
    (hn : q.lastSeqNo = n + 1) (hget : x.wal[n]? = some r) (hr : r.epoch = q.lastEpoch) :
    p.seqNo = q.lastSeqNo ∧ p.epoch = q.lastEpoch ∧ p.agreed = true := by
  obtain ⟨k, hk, hreply⟩ := positionReply_ofLog (x.wal.map toLogRecord) q
  rw [h.table_ofLog, hreply] at hp
  obtain rfl := Except.ok.inj hp
  have hget' : (x.wal.map toLogRecord)[n]? = some r.toLogRecord := by
    rw [getElem?_map, hget]
    rfl
  -- The record asked about is not from a later epoch, so nothing up to it is passed over.
  have hle : n + 1 ≤ (((x.wal.map toLogRecord).map LogRecord.epoch).rdropWhile
      fun e => decide (q.lastEpoch < e)).length := by
    by_contra hlt
    have hlater := of_length_rdropWhile_le (x := r.epoch) (Nat.le_of_lt_succ (not_le.mp hlt))
      (by rw [getElem?_map, hget']; rfl)
    rw [decide_eq_true_eq, hr] at hlater
    exact lt_irrefl _ hlater
  have hkn : k = n + 1 := by omega
  have hepoch : epochAt (x.wal.map toLogRecord) k = q.lastEpoch := by
    rw [hkn, epochAt_succ hget']
    exact hr
  refine ⟨hkn.trans hn.symm, hepoch, ?_⟩
  rw [Bool.and_eq_true, Bool.or_eq_true, decide_eq_true_eq, decide_eq_true_eq, decide_eq_true_eq]
  exact ⟨hkn.trans hn.symm, .inr hepoch⟩

/-- A follower told of its own last record keeps its log. -/
theorem Replica.Sound.keeps_of_reply (h : x.Sound) {p : PositionReply} {told : FollowerStep}
    (htold : x.logEpochs.onPositionReply p = .ok told) (hseq : p.seqNo = x.wal.length)
    (hepoch : p.epoch = epochAt (x.wal.map toLogRecord) x.wal.length) : told.keepThrough = x.wal.length := by
  rw [h.table_ofLog] at htold
  obtain ⟨k, hk, hstep⟩ := followerStep_ofLog (x.wal.map toLogRecord) ⟨p.seqNo, p.epoch⟩
  unfold LogEpochTable.onPositionReply at htold
  rw [hstep] at htold
  obtain rfl := Except.ok.inj htold
  rw [length_map] at hk
  have hkx : k = x.wal.length := by
    rw [hk]
    show min p.seqNo _ = _
    rw [hseq, min_self]
  split
  · rename_i h0
    exact h0.symm.trans hkx
  · rw [if_pos (by rw [hkx]; exact hepoch.symm)]
    exact hkx

/-! ## The invariant -/

/-- A grant makes an instance leader only while its peer does not lead. -/
def Pair.oneLeads (s : Pair) : PairAction → Prop
  | .deliverGrant g => (s.inst g.request.candidate).participant.holder.state = .candidate →
      (s.inst g.request.candidate.peer).participant.holder.state ≠ .leading
  | _ => True

instance (s : Pair) (a : PairAction) : Decidable (s.oneLeads a) :=
  match a with
  | .deliverGrant _ => @instDecidableForall _ _ inferInstance inferInstance
  | .advance _ | .stopIfLeaseRanOut _ | .stop _ _ | .beginAskingToLead _ _ | .sendRequest _ _
  | .deliverRequest _ | .deliverRefusal _ _ | .recordEpoch _ _ _ | .say _ _ | .recordStatement _ _
  | .restart _ | .restartThird _ => .isTrue trivial

namespace Replicas

variable (s : Replicas α)

/-- A reply that a follower acts on, while its peer leads, was sent in that leadership and answers a
request for the position the follower's log now ends at. -/
def answersItsPosition (i : Instance) (m : Sent α) : Prop :=
  match m.message with
  | .reply p =>
    (s.replica i).role ≠ .leader ∧ (s.replica i).followerWalAgreed = false ∧ p.askAgain = false ∧
        (s.replica i.peer).role = .leader → m.sentIn = (s.replica i.peer).leadership ∧
        m.answers = some (s.replica i).logEpochs.positionRequest
  | _ => True

instance (i : Instance) (m : Sent α) : Decidable (s.answersItsPosition i m) := by
  unfold answersItsPosition
  exact match m.message with
  | .reply _ => @instDecidableForall _ _ inferInstance inferInstance
  | .record _ | .ack _ | .request _ => .isTrue trivial

/-- **A follower acts only on replies to its present position**, one instance leads at a time, and
followers write only records sent in the leadership they have agreed with. -/
def actsOnCurrentReplies : ReplicasAction α → Prop
  | .lease a => s.lease.epochIsRecordedBeforeAsking a ∧ s.lease.oneLeads a
  | .deliver i c => ∀ m ∈ s.next i c, s.fromItsLeader i m ∧ s.answersItsPosition i m
  | _ => True

instance (a : ReplicasAction α) : Decidable (s.actsOnCurrentReplies a) :=
  match a with
  | .lease a => inferInstanceAs (Decidable (s.lease.epochIsRecordedBeforeAsking a ∧ s.lease.oneLeads a))
  | .deliver i c => inferInstanceAs
      (Decidable (∀ m ∈ s.next i c, s.fromItsLeader i m ∧ s.answersItsPosition i m))
  | .resumeWithKeptPromise _ _ _ | .append _ _ | .tick _ | .established _ _ | .lost _ _ | .readingSends _
  | .readingCaughtUp _ | .readingConfirms _ => .isTrue trivial

/-- Such an action is one that keeps the logs attributed. -/
theorem actsOnCurrentReplies.followsOneLeadership {s : Replicas α} {a : ReplicasAction α}
    (h : s.actsOnCurrentReplies a) : s.followsOneLeadership a := by
  cases a with
  | lease => exact h.1
  | deliver => exact fun m hm => (h m hm).1
  | _ => trivial

/-- What a reply says of the position it answers: if its leadership's log has the record asked
about, the reply names that record, and says that the logs agree. -/
def Truthful (written : Int → List (SequencedRecord α)) (m : Sent α) : Prop :=
  ∀ p q e, m.message = .reply p → m.answers = some q → m.sentIn = some e →
    Placed written q ∧ ∀ n r, q.lastSeqNo = n + 1 → (written e)[n]? = some r → r.epoch = q.lastEpoch →
      p.seqNo = q.lastSeqNo ∧ p.epoch = q.lastEpoch ∧ p.agreed = true

/-- What a follower has acknowledged to a leader is in its log, which is the beginning of the
leader's. -/
structure Held (s : Replicas α) (i : Instance) (e : Int) : Prop where
  isPrefix : (s.replica i).wal <+: s.leaderLog e
  agreed : (s.replica i).followerWalAgreed = true → s.agreedIn i = some e
  holds : ∀ r, (e, r) ∈ s.acknowledged i → r ∈ (s.replica i).wal

/-- **Followers hold what they have acknowledged** to the leader that leads now. -/
structure AcknowledgedInv (s : Replicas α) : Prop where
  logs : LogsInv s
  alone : ∀ i, (s.replica i).role = .leader → (s.replica i.peer).role ≠ .leader
  /-- What is acknowledged, and what is sent in a leadership, is of a leadership that has begun. -/
  begun : ∀ i e r, (e, r) ∈ s.acknowledged i → e ∈ (s.lease.inst i.peer).led
  sent : ∀ m ∈ s.inFlight, ∀ e, m.sentIn = some e → e ∈ (s.lease.inst m.receiver.peer).led
  asked : ∀ q, s.Asked q → Placed s.leaderLog q
  replies : ∀ m ∈ s.inFlight, Truthful s.leaderLog m
  held : ∀ i e r, (s.replica i.peer).leadership = some e → (e, r) ∈ s.acknowledged i → Held s i e

/-! ## Every action keeps it -/

section Step

variable {s t : Replicas α} {a : ReplicasAction α}

section

variable (h : AcknowledgedInv s) (hm : s.Moves a t)
include h hm

/-- One instance leads at a time. -/
theorem AcknowledgedInv.alone_moves (hc : s.actsOnCurrentReplies a)
    (hroles : RolesInv t.lease t.replica) (i : Instance) (hlead : (t.replica i).role = .leader) :
    (t.replica i.peer).role ≠ .leader := by
  -- Before the action, not both lease holders led.
  have hbefore : ∀ j, (s.lease.inst j).participant.holder.state = .leading →
      (s.lease.inst j.peer).participant.holder.state ≠ .leading := fun j hj hp =>
    h.alone j ((h.logs.roles.role j).mpr hj) ((h.logs.roles.role j.peer).mpr hp)
  rw [hroles.role] at hlead
  rw [ne_eq, hroles.role]
  have hlease := hm.lease
  generalize t.lease = lease' at hlease hlead ⊢
  cases hlease with
  | same => exact hbefore i hlead
  | @lease b _ step =>
    intro hpeer
    -- A grant that makes one of them leader goes to a candidate whose peer does not lead.
    have hbegins : ∀ j e, Begins s.lease b j (lease'.inst j) e →
        (lease'.inst j.peer).participant.holder.state ≠ .leading := by
      intro j e hj hp
      obtain ⟨g, rfl, rfl⟩ := hj.grant
      rcases goesOn_or_begins step g.request.candidate.peer with ⟨-, hgoes⟩ | ⟨e', hother⟩
      · exact hc.2 hj.candidate (hgoes hp).1
      · obtain ⟨g', hg, hpeer'⟩ := hother.grant
        cases hg
        exact Instance.peer_ne _ hpeer'.symm
    rcases goesOn_or_begins step i with ⟨-, hgoes⟩ | ⟨e, hi⟩
    · rcases goesOn_or_begins step i.peer with ⟨-, hgoes'⟩ | ⟨e, hi⟩
      · exact hbefore i (hgoes hlead).1 (hgoes' hpeer).1
      · exact hbegins i.peer e hi (by rw [Instance.peer_peer]; exact hlead)
    · exact hbegins i e hi hpeer
  | resumeWithKeptPromise j promisedTo until_ =>
    have hsame : ∀ k, ((s.lease.setVoter (.member j) ((s.lease.voter (.member j)).resumeWithKeptPromise
        promisedTo until_ s.lease.now)).inst k).participant.holder = (s.lease.inst k).participant.holder := by
      intro k
      show (Function.update s.lease.inst j _ k).participant.holder = _
      by_cases hk : k = j
      · rw [hk, Function.update_self]
      · rw [Function.update_of_ne hk]
    rw [hsame] at hlead ⊢
    exact hbefore i hlead

/-- What has been acknowledged was sent in a leadership that has begun. -/
theorem AcknowledgedInv.begun_moves {i : Instance} {e : Int}
    {r : SequencedRecord α} (hr : (e, r) ∈ t.acknowledged i) : e ∈ (s.lease.inst i.peer).led := by
  have hstep := hm.replica i
  generalize t.replica i = y, t.agreedIn i = g, t.acknowledged i = k at hstep hr
  cases hstep with
  | quiet | lease | reply => exact h.begun i e r hr
  | append => exact h.begun i e _ hr
  | write m r next =>
    rcases mem_append.mp hr with hnew | hold
    · obtain ⟨e', he', heq⟩ := mem_map.mp hnew
      cases heq
      obtain ⟨hmem, hto⟩ := mem_of_next next
      have := h.sent m hmem e (Option.mem_toList.mp he')
      rwa [hto] at this
    · exact h.begun i e _ hold

/-- What is sent in a leadership is of a leadership that has begun. -/
theorem AcknowledgedInv.sent_moves (hroles : RolesInv t.lease t.replica) {m : Sent α}
    (hmem : m ∈ t.inFlight) {e : Int} (he : m.sentIn = some e) :
    e ∈ (t.lease.inst m.receiver.peer).led := by
  rcases hm.sent m hmem with hold | ⟨i, hnew⟩
  · exact led_subset_of_moves hm _ (h.sent m hold e he)
  · rw [hnew.receiver, Instance.peer_peer]
    exact (hroles.mem_led (hnew.sentIn.symm.trans he)).1

/-- Positions asked about stay positions of the logs they name. -/
theorem AcknowledgedInv.asked_moves
    (hlogs : LogsInv t.note) (hgrows : Grows s.leaderLog t.note.leaderLog) {q : PositionRequest}
    (hq : t.Asked q) : Placed t.note.leaderLog q := by
  rcases hq with ⟨m, hmem, hreq⟩ | ⟨i, hi⟩
  · rcases hm.sent m hmem with hold | ⟨i, hnew⟩
    · exact (h.asked q (.inl ⟨m, hold, hreq⟩)).mono hgrows
    · have hsaid := hnew.content
      rw [hreq] at hsaid
      obtain rfl : q = (t.replica i).logEpochs.positionRequest := hsaid
      exact (hlogs.sound i).placed (hlogs.logs i)
  · exact (h.asked q (hm.unanswered i q hi)).mono hgrows

end

variable {written : Int → List (SequencedRecord α)} {m : Sent α}

/-- **Replies stay truthful**: a leadership's log goes on with records of its own epoch, and no
position in it was asked about before it was written. -/
theorem Truthful.moves {written' : Int → List (SequencedRecord α)} (h : Truthful written m)
    (hgrows : Grows written written')
    (hown : ∀ e, m.sentIn = some e → ∃ new, written' e = written e ++ new ∧ ∀ r ∈ new, r.epoch = e) :
    Truthful written' m := by
  intro p q e hp hq he
  obtain ⟨hplaced, hreply⟩ := h p q e hp hq he
  obtain ⟨new, hnew, hepoch⟩ := hown e he
  refine ⟨hplaced.mono hgrows, fun n r hn hget hr => ?_⟩
  rw [hnew] at hget
  rcases Nat.lt_or_ge n (written e).length with hlt | hge
  · rw [getElem?_append_left hlt] at hget
    exact hreply n r hn hget hr
  · rw [getElem?_append_right hge] at hget
    rw [hepoch r (mem_of_getElem? hget)] at hr
    rcases hplaced with h0 | hle
    · omega
    · rw [← hr] at hle
      omega

/-- A reply just sent is truthful. -/
theorem SentBy.truthful {i : Instance} {y : Replica α} (h : s.SentBy i y m) (hy : y.Sound)
    (hlog : ∀ e, y.leadership = some e → written e = y.wal) (hasked : ∀ q, s.Asked q → Placed written q) :
    Truthful written m := by
  intro p q e hp hq he
  refine ⟨hasked q (h.asked q hq), fun n r hn hget hr => ?_⟩
  have hsaid := h.content
  rw [hp, hq] at hsaid
  rcases hsaid with ⟨-, hnone⟩ | ⟨-, q', hq', hreply⟩
  · cases hnone
  · obtain rfl := Option.some.inj hq'
    rw [hlog e (h.sentIn.symm.trans he)] at hget
    exact hy.positionReply_of_holds hreply hn hget hr

variable {r : SequencedRecord α} {e : Int}

/-- **A follower that holds what it has acknowledged** and is told of its present position keeps its
log. -/
theorem AcknowledgedInv.keeps (h : AcknowledgedInv s) {i : Instance} (hr : (e, r) ∈ s.acknowledged i)
    (hheld : Held s i e) {p : PositionReply} {told : FollowerStep} (hmem : m ∈ s.inFlight)
    (hp : m.message = .reply p) (hin : m.sentIn = some e)
    (hans : m.answers = some (s.replica i).logEpochs.positionRequest)
    (htold : (s.replica i).logEpochs.onPositionReply p = .ok told) :
    told.keepThrough = (s.replica i).wal.length := by
  have hsound := h.logs.sound i
  cases hlen : (s.replica i).wal.length with
  | zero =>
    have hnil := length_eq_zero_iff.mp hlen
    have := hheld.holds r hr
    rw [hnil] at this
    cases this
  | succ n =>
    have hget : (s.replica i).wal[n]? = some (s.replica i).wal[n] := getElem?_eq_getElem _
    obtain ⟨rest, hrest⟩ := hheld.isPrefix
    have hleader : (s.leaderLog e)[n]? = some (s.replica i).wal[n] := by
      rw [← hrest, getElem?_append_left (by omega), hget]
    have hepoch : epochAt ((s.replica i).wal.map toLogRecord) (n + 1) = (s.replica i).wal[n].epoch :=
      epochAt_succ (r := ((s.replica i).wal[n]).toLogRecord) (by rw [getElem?_map, hget]; rfl)
    have hpos := hsound.positionRequest_eq
    rw [hlen, hepoch] at hpos
    rw [hpos] at hans
    obtain ⟨hseq, hep, -⟩ := (h.replies m hmem p _ e hp hans hin).2 n _ rfl hleader rfl
    have hkeep := hsound.keeps_of_reply htold (hseq.trans hlen.symm) (by rw [hlen, hepoch]; exact hep)
    exact hkeep.trans hlen

/-- **What every action leaves of a follower's log**, while its leader goes on leading. -/
theorem AcknowledgedInv.held_moves (h : AcknowledgedInv s) (hm : s.Moves a t)
    (hc : s.actsOnCurrentReplies a) (hcont : ∀ i, Continues s t i)
    (hgrows : Grows s.leaderLog t.note.leaderLog) {i : Instance}
    (hlead : (t.replica i.peer).leadership = some e) (hr : (e, r) ∈ t.acknowledged i) : Held t.note i e := by
  -- The leader led before: nothing has been acknowledged to a leadership that has just begun.
  have hled : (s.replica i.peer).leadership = some e := by
    rcases (hcont i.peer).leading e hlead with ⟨hx, -⟩ | ⟨hfresh, -⟩
    · exact hx
    · exact absurd (h.begun_moves hm hr) (hfresh i.peer)
  have hpeer := (Replica.leadership_eq_some.mp hled).1
  -- It is enough to find the follower's log, its agreement and its acknowledgements as they were.
  have same : ∀ {y : Replica α} {g : Option Int} {k : List (Int × SequencedRecord α)},
      t.replica i = y → t.agreedIn i = g → t.acknowledged i = k → (e, r) ∈ s.acknowledged i →
      (Held s i e → y.wal = (s.replica i).wal ∧ (y.followerWalAgreed = true → g = some e)) →
      k = s.acknowledged i → Held t.note i e := by
    rintro y g k hy hg hk hrs hkept hacks
    have hheld := h.held i e r hled hrs
    obtain ⟨hwal, hagreed⟩ := hkept hheld
    refine ⟨?_, fun ha => ?_, fun r' hr' => ?_⟩
    · show (t.replica i).wal <+: _
      rw [hy, hwal]
      exact hheld.isPrefix.trans (hgrows e)
    · exact hg.trans (hagreed (hy ▸ ha))
    · show r' ∈ (t.replica i).wal
      rw [hy, hwal]
      apply hheld.holds
      rw [← hacks, ← hk]
      exact hr'
  have hstep := hm.replica i
  generalize hy : t.replica i = y, hg : t.agreedIn i = g, hk : t.acknowledged i = k at hstep
  cases hstep with
  | quiet other keeps =>
    exact same hy hg hk (hk ▸ hr) (fun hheld => ⟨keeps.wal, fun ha => hheld.agreed (keeps.agreed ha)⟩) rfl
  | append r' leads => exact absurd hpeer (h.alone i leads)
  | @write c _ m r' next message follows agreed seqNo sound wal =>
    obtain ⟨e', he', hin, hnew⟩ :=
      h.logs.isPrefix_of_write next message follows agreed seqNo (hc m next).1
    rw [hin] at hk
    rw [hk] at hr
    -- A follower that has acknowledged something to this leader has agreed with it and no other.
    have hleader : e' = e := by
      rcases mem_cons.mp hr with hnow | hbefore
      · exact (Prod.mk.inj hnow).1.symm
      · exact Option.some.inj (he'.symm.trans ((h.held i e r hled hbefore).agreed agreed))
    subst hleader
    refine ⟨?_, fun _ => hg.trans he', fun r'' hr'' => ?_⟩
    · show (t.replica i).wal <+: _
      rw [hy, wal]
      exact hnew.trans (hgrows e')
    · show r'' ∈ (t.replica i).wal
      rw [hy, wal]
      rw [show t.note.acknowledged i = _ from hk] at hr''
      rcases mem_cons.mp hr'' with hnow | hbefore
      · rw [(Prod.mk.inj hnow).2]
        exact mem_append_right _ (mem_singleton_self r')
      · exact mem_append_left _ ((h.held i e' r'' hled hbefore).holds r'' hbefore)
  | @reply c _ m p told next message follows agreed askAgain tells keep sound wal role epoch agrees =>
    have hcur := (hc m next).2
    unfold answersItsPosition at hcur
    rw [message] at hcur
    obtain ⟨hin, hans⟩ := hcur ⟨follows, agreed, askAgain, hpeer⟩
    rw [hled] at hin
    refine same hy hg hk (hk ▸ hr) (fun hheld => ⟨?_, fun ha => ?_⟩) rfl
    · rw [wal, h.keeps (hk ▸ hr) hheld (mem_of_next next).1 message hin hans tells, take_length]
    · rw [if_pos (agrees.symm.trans ha), hin]
  | lease step sound wal role epoch agreed =>
    exact same hy hg hk (hk ▸ hr) (fun hheld => ⟨wal, fun ha => hheld.agreed (agreed ha)⟩) rfl

end Step

/-- **Every action keeps what has been acknowledged**, when followers act only on replies to their
present position. -/
theorem acknowledgedInv_invariant :
    (step.restrict (actsOnCurrentReplies (α := α))).Invariant AcknowledgedInv := by
  intro s a t h hst
  obtain ⟨hc, hst⟩ := Machine.restrict_eq_some.mp hst
  have hlogs := logsInv_invariant h.logs (Machine.restrict_eq_some.mpr ⟨hc.followsOneLeadership, hst⟩)
  obtain ⟨u, hu, rfl⟩ := Option.map_eq_some_iff.mp hst
  have hm := moves_of_move h.logs.sound hu
  have hroles : RolesInv u.lease u.replica := hlogs.roles
  have hcont := h.logs.continues hm hc.followsOneLeadership hroles
  have hgrows := h.logs.grows hm.leaderLog hcont
  exact
    { logs := hlogs
      alone := fun i hlead => h.alone_moves hm hc hroles i hlead
      begun := fun i e r hr => led_subset_of_moves hm _ (h.begun_moves hm hr)
      sent := fun m hmem e he => h.sent_moves hm hroles hmem he
      asked := fun q hq => h.asked_moves hm hlogs hgrows hq
      replies := fun m hmem => by
        rcases hm.sent m hmem with hold | ⟨i, hnew⟩
        · exact (h.replies m hold).moves hgrows fun e he =>
            h.logs.goesOn hm.leaderLog hcont (h.sent m hold e he)
        · exact hnew.truthful (hlogs.sound i) (hlogs.current i) fun q hq => (h.asked q hq).mono hgrows
      held := fun i e r hlead hr => h.held_moves hm hc hcont hgrows hlead hr }

/-- Nothing has been acknowledged when the pair starts. -/
theorem acknowledgedInv_start {terms : LeaseTerms} {flag : PeerStatementsFlag} {began : Nat}
    {stored : Instance → Int} {thirdEpoch : Int} {lease : Pair}
    (h : Pair.start terms flag began stored thirdEpoch = .ok lease) (hasReadingThread : Bool) :
    AcknowledgedInv (start (α := α) lease hasReadingThread) where
  logs := logsInv_start h hasReadingThread
  alone := fun _ hlead => absurd (show ReplicaRole.unknown = .leader from hlead) (by decide)
  begun := nofun
  sent := nofun
  asked := fun q hq => by
    rcases hq with ⟨m, hm, -⟩ | ⟨i, hi⟩
    · cases hm
    · cases hi
  replies := nofun
  held := nofun

/-! ## Nothing acknowledged is discarded -/

/-- **A follower keeps what it has acknowledged to the leader that leads now**, in every run in
which followers act only on replies to their present position. -/
theorem keeps_what_it_acknowledged (terms : LeaseTerms) (flag : PeerStatementsFlag) (began : Nat)
    (stored : Instance → Int) (thirdEpoch : Int) (hasReadingThread : Bool)
    (actions : List (ReplicasAction α)) {lease : Pair} {s : Replicas α}
    (h₀ : Pair.start terms flag began stored thirdEpoch = .ok lease)
    (hrun : (step.restrict actsOnCurrentReplies).run (start lease hasReadingThread) actions = some s)
    (i : Instance) (e : Int) (r : SequencedRecord α)
    (hleads : (s.replica i.peer).role = .leader ∧ (s.replica i.peer).epoch = e)
    (hacked : (e, r) ∈ s.acknowledged i) : r ∈ (s.replica i).wal := by
  have hinv := acknowledgedInv_invariant.run (acknowledgedInv_start h₀ hasReadingThread) hrun
  exact (hinv.held i e r (Replica.leadership_eq_some.mpr hleads) hacked).holds r hacked

/-- There are such runs in which a record is acknowledged. -/
theorem keeps_what_it_acknowledged_writesOneRecord :
    ∃ s, (step.restrict actsOnCurrentReplies).run (start startAtZero true) writesOneRecord = some s ∧
      ((s.replica .two).role = .leader ∧ (s.replica .two).epoch = 2) ∧
      (2, ⟨⟨2, 11⟩, 1⟩) ∈ s.acknowledged .one ∧ ⟨⟨2, 11⟩, 1⟩ ∈ (s.replica .one).wal := by
  obtain ⟨s, hs, ht⟩ := Machine.exists_run_of_any (step.restrict actsOnCurrentReplies)
    (start startAtZero true) writesOneRecord
    (fun s => ((s.replica .two).role = .leader ∧ (s.replica .two).epoch = 2) ∧
      (2, ⟨⟨2, 11⟩, 1⟩) ∈ s.acknowledged .one) (by decide +kernel)
  exact ⟨s, hs, ht.1, ht.2, keeps_what_it_acknowledged _ _ _ _ _ _ _ start_eq_startAtZero hs .one 2 _
    ht.1 ht.2⟩

/-- Instance 1 asks twice on the connection it opened, when it is made and at its lease tick.
Instance 2, which leads, answers the first request, and the second on the connection it has opened
since. Instance 1 agrees, writes record 1 and acknowledges it; it then sees the other connection
made, forgets the agreement, and reads the answer to its second request, from when its log was
empty. -/
def lateReply : List (ReplicasAction Nat) :=
  secondLeads ++ [.append .two 11, .established .one firstOpens, .tick .one, .established .two firstOpens,
      .deliver .two firstOpens, .readingSends .two, .readingCaughtUp .two, .established .two secondOpens,
      .deliver .two firstOpens, .deliver .one firstOpens, .deliver .one firstOpens,
      .deliver .one firstOpens, .established .one secondOpens, .deliver .one secondOpens,
        .deliver .one secondOpens]

/-- **A follower discards a record it has acknowledged** to the leader that still leads. -/
theorem discards_what_it_acknowledged : ∃ s, step.run (start startAtZero true) lateReply = some s ∧
      ((s.replica .two).role = .leader ∧ (s.replica .two).epoch = 2) ∧
      (2, ⟨⟨2, 11⟩, 1⟩) ∈ s.acknowledged .one ∧ ⟨⟨2, 11⟩, 1⟩ ∈ (s.replica .two).wal ∧
      (s.replica .one).wal = [] := by
  obtain ⟨s, hs, hleads, hacked, hheld, hgone⟩ := Machine.exists_run_of_any step
    (start startAtZero true) lateReply
    (fun s => ((s.replica .two).role = .leader ∧ (s.replica .two).epoch = 2) ∧
      (2, ⟨⟨2, 11⟩, 1⟩) ∈ s.acknowledged .one ∧
      ⟨⟨2, 11⟩, 1⟩ ∈ (s.replica .two).wal ∧ (s.replica .one).wal = []) (by decide +kernel)
  exact ⟨s, hs, hleads, hacked, hheld, hgone⟩

end Replicas

end PubsubVenue
