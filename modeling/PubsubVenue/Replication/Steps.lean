import PubsubVenue.Replication.Links

/-! # What a step of the pair of logs can do

Said once, for every action: what becomes of each replica, and what is sent. Both properties of the
pair's logs are proved from this and not from the machine.

* **`Replicas.ReplicaStep`**: what an action makes of one replica.
* **`Replicas.moves_of_move`**: every action does one of these to each replica, and sends what
  `Replica.Says` allows. -/

namespace PubsubVenue

open Function List Replica Option

variable {α : Type}

/-- A replica that leads. -/
theorem Replica.leadership_eq_some {x : Replica α} {e : Int} :
    x.leadership = some e ↔ x.role = .leader ∧ x.epoch = e := by
  unfold leadership
  split
  · rename_i h
    simp [h]
  · rename_i h
    simp [h]

/-- A replica that does not lead. -/
theorem Replica.leadership_eq_none {x : Replica α} : x.leadership = none ↔ x.role ≠ .leader := by
  unfold leadership
  split
  · rename_i h
    simp [h]
  · rename_i h
    simp [h]

/-- Whether something has happened to the leases. -/
def ReplicasAction.isLease : ReplicasAction α → Bool
  | .lease _ => true
  | _ => false

namespace Replicas

/-- A position somebody has asked about and is owed an answer on. -/
def Asked (s : Replicas α) (q : PositionRequest) : Prop :=
  (∃ m ∈ s.inFlight, m.message = .request q) ∨ ∃ i, (s.replica i).unansweredRequest = some q

/-- A message an instance has just sent, and the replica is `y` as it sends it. -/
structure SentBy (s : Replicas α) (i : Instance) (y : Replica α) (m : Sent α) : Prop where
  receiver : m.receiver = i.peer
  sentIn : m.sentIn = y.leadership
  content : y.Says m.answers m.message
  asked : ∀ q, m.answers = some q → s.Asked q

/-- **What an action makes of a replica**, of the leadership it has agreed with and of what it has
acknowledged. -/
inductive ReplicaStep (s : Replicas α) (i : Instance) :
    ReplicasAction α → Replica α → Option Int → List (Int × SequencedRecord α) → Prop
  /-- Its log and its role stay, and it makes no agreement. -/
  | quiet {a : ReplicasAction α} {y : Replica α} (other : a.isLease = false) (keeps : Quiet (s.replica i) y) :
      ReplicaStep s i a y (s.agreedIn i) (s.acknowledged i)
  /-- It leads and writes a record of its own. -/
  | append {contents : α} {y : Replica α} (r : SequencedRecord α)
      (leads : (s.replica i).role = .leader) (own : r.epoch = (s.replica i).epoch)
      (sound : y.Sound) (wal : y.wal = (s.replica i).wal ++ [r])
      (role : y.role = (s.replica i).role) (epoch : y.epoch = (s.replica i).epoch) :
      ReplicaStep s i (.append i contents) y (s.agreedIn i) (s.acknowledged i)
  /-- It follows, has agreed, and writes and acknowledges the record that comes next. -/
  | write {c : ConnectionId} {y : Replica α} (m : Sent α) (r : SequencedRecord α)
      (next : s.next i c = some m) (message : m.message = .record r)
      (follows : (s.replica i).role ≠ .leader) (agreed : (s.replica i).followerWalAgreed = true)
      (seqNo : r.seqNo = (s.replica i).wal.length + 1) (sound : y.Sound)
    (wal : y.wal = (s.replica i).wal ++ [r])
      (role : y.role = (s.replica i).role) (epoch : y.epoch = (s.replica i).epoch) :
      ReplicaStep s i (.deliver i c) y (s.agreedIn i)
        (m.sentIn.toList.map (fun e => (e, r)) ++ s.acknowledged i)
  /-- It follows, has not agreed, and a reply tells it how much of its log to keep. -/
  | reply {c : ConnectionId} {y : Replica α} (m : Sent α) (p : PositionReply) (told : FollowerStep)
      (next : s.next i c = some m) (message : m.message = .reply p)
      (follows : (s.replica i).role ≠ .leader) (agreed : (s.replica i).followerWalAgreed = false)
      (askAgain : p.askAgain = false) (tells : (s.replica i).logEpochs.onPositionReply p = .ok told)
      (keep : told.keepThrough ≤ (s.replica i).wal.length)
      (sound : y.Sound) (wal : y.wal = (s.replica i).wal.take told.keepThrough)
      (role : y.role = (s.replica i).role) (epoch : y.epoch = (s.replica i).epoch)
      (agrees : y.followerWalAgreed = told.agreed) :
      ReplicaStep s i (.deliver i c) y (if told.agreed then m.sentIn else s.agreedIn i) (s.acknowledged i)
  /-- It acts on what has happened to its leases, having started again if that is what happened. -/
  | lease {a : PairAction} {lease : Pair} {y : Replica α} (step : Pair.step s.lease a = some lease)
      (sound : y.Sound) (wal : y.wal = (s.replica i).wal)
      (role : y.role = .leader ↔ (lease.inst i).participant.holder.state = .leading)
      (epoch : y.epoch = max (s.reopened lease a i).epoch (lease.inst i).participant.highestEpoch)
      (agreed : y.followerWalAgreed = true → (s.replica i).followerWalAgreed = true) :
      ReplicaStep s i (.lease a) y (s.agreedIn i) (s.acknowledged i)

/-- What an action can do to the leases. -/
inductive LeaseStep (s : Replicas α) : ReplicasAction α → Pair → Prop
  | same {a : ReplicasAction α} (other : a.isLease = false) : LeaseStep s a s.lease
  | lease {a : PairAction} {lease : Pair} (step : Pair.step s.lease a = some lease) :
    LeaseStep s (.lease a) lease
  | resumeWithKeptPromise (i : Instance) (promisedTo : Int) (until_ : Nat) :
      LeaseStep s (.resumeWithKeptPromise i promisedTo until_) (s.lease.setVoter (.member i)
        ((s.lease.voter (.member i)).resumeWithKeptPromise promisedTo until_ s.lease.now))

/-- **What an action does**, before the logs of the leaderships are noted. -/
structure Moves (s : Replicas α) (a : ReplicasAction α) (t : Replicas α) : Prop where
  leaderLog : t.leaderLog = s.leaderLog
  lease : LeaseStep s a t.lease
  replica : ∀ i, ReplicaStep s i a (t.replica i) (t.agreedIn i) (t.acknowledged i)
  sent : ∀ m ∈ t.inFlight, m ∈ s.inFlight ∨ ∃ i, SentBy s i (t.replica i) m
  unanswered : ∀ i q, (t.replica i).unansweredRequest = some q → s.Asked q

/-! ## What one instance does -/

section

variable (s : Replicas α)

/-- Sending changes the messages only, and those it adds are the instance's. -/
theorem send_eq (i : Instance) (c : Option ConnectionId) (answers : Option PositionRequest)
    (ms : List (LogMessage α)) :
    ∃ sent : List (Sent α), s.send i c answers ms = { s with inFlight := s.inFlight ++ sent } ∧
      ∀ m ∈ sent, m.receiver = i.peer ∧ m.sentIn = (s.replica i).leadership ∧ m.answers = answers ∧
        m.message ∈ ms := by
  cases c with
  | none => exact ⟨[], by rw [append_nil]; rfl, nofun⟩
  | some =>
    refine ⟨_, rfl, fun m hm => ?_⟩
    obtain ⟨message, hmem, rfl⟩ := mem_map.mp hm
    exact ⟨rfl, rfl, rfl, hmem⟩

/-- The replica changed. -/
theorem put_self (i : Instance) (y : Replica α) : (s.put i y).replica i = y :=
  update_self ..

/-- The other replica. -/
theorem put_of_ne {i j : Instance} (h : j ≠ i) (y : Replica α) : (s.put i y).replica j = s.replica j :=
  update_of_ne h ..

/-- An instance that acts changes its replica, and the messages it adds are its own. -/
theorem act_eq (i : Instance) (answers : Option PositionRequest) (result : Replica α × List (LogMessage α)) :
    ∃ sent : List (Sent α), s.act i answers result =
      { s.put i result.1 with inFlight := s.inFlight ++ sent } ∧
      ∀ m ∈ sent, m.receiver = i.peer ∧ m.sentIn = result.1.leadership ∧
        m.answers = answers ∧ m.message ∈ result.2 := by
  obtain ⟨sent, hsend, hnew⟩ := send_eq (s.put i result.1) i result.1.peerActiveConn answers result.2
  rw [put_self] at hnew
  exact ⟨sent, hsend, hnew⟩

end

variable {a : ReplicasAction α} {y : Replica α}

/-- **One instance acts**: its replica becomes `y` and it sends what `y` allows. -/
theorem moves_of_one {s u : Replicas α} {i : Instance} {g : Option Int}
    {k : List (Int × SequencedRecord α)} {c : Option ConnectionId} {q : Option PositionRequest}
    {l : List (LogMessage α)} (ha : a.isLease = false) (hlog : u.leaderLog = s.leaderLog)
    (hlease : u.lease = s.lease) (hreplica : u.replica = update s.replica i y)
    (hagreed : u.agreedIn = update s.agreedIn i g)
    (hacks : u.acknowledged = update s.acknowledged i k) (hflight : u.inFlight ⊆ s.inFlight)
    (hstep : ReplicaStep s i a y g k) (hsaid : ∀ m ∈ l, y.Says q m)
    (hasked : ∀ p, q = some p → s.Asked p) (hun : ∀ p, y.unansweredRequest = some p → s.Asked p) :
    Moves s a (u.send i c q l) := by
  obtain ⟨sent, hsend, hnew⟩ := send_eq u i c q l
  rw [hsend]
  have hself : u.replica i = y := by rw [hreplica, update_self]
  refine ⟨hlog, ?_, fun j => ?_, fun m hm => ?_, fun j p hp => ?_⟩
  · show LeaseStep s a u.lease
    rw [hlease]
    exact .same ha
  · show ReplicaStep s j a (u.replica j) (u.agreedIn j) (u.acknowledged j)
    by_cases hj : j = i
    · rw [hj, hself, hagreed, hacks, update_self, update_self]
      exact hstep
    · rw [hreplica, hagreed, hacks, update_of_ne hj, update_of_ne hj, update_of_ne hj]
      exact .quiet ha (Quiet.refl _)
  · rcases mem_append.mp hm with hm | hm
    · exact .inl (hflight hm)
    · obtain ⟨hto, hin, hans, hmem⟩ := hnew m hm
      refine .inr ⟨i, ?_⟩
      show SentBy s i (u.replica i) m
      rw [hself]
      rw [hself] at hin
      exact ⟨hto, hin, hans ▸ hsaid _ hmem, hans ▸ hasked⟩
  · change (u.replica j).unansweredRequest = some p at hp
    by_cases hj : j = i
    · rw [hj, hself] at hp
      exact hun p hp
    · rw [hreplica, update_of_ne hj] at hp
      exact .inr ⟨j, hp⟩

/-- One instance acts, and neither agrees with a leadership nor acknowledges. -/
theorem moves_act {s : Replicas α} {i : Instance} {result : Replica α × List (LogMessage α)}
    {answers : Option PositionRequest} (ha : a.isLease = false)
    (hstep : ReplicaStep s i a result.1 (s.agreedIn i) (s.acknowledged i))
    (hsaid : ∀ m ∈ result.2, result.1.Says answers m) (hasked : ∀ q, answers = some q → s.Asked q)
    (hun : ∀ q, result.1.unansweredRequest = some q → s.Asked q) : Moves s a (s.act i answers result) :=
  moves_of_one ha rfl rfl rfl (update_eq_self i s.agreedIn).symm
    (update_eq_self i s.acknowledged).symm (Subset.refl _) hstep hsaid hasked hun

/-- One instance changes and sends nothing. -/
theorem moves_put {s : Replicas α} {i : Instance} (ha : a.isLease = false) (hquiet : Quiet (s.replica i) y)
    (hun : ∀ q, y.unansweredRequest = some q → (s.replica i).unansweredRequest = some q) :
    Moves s a (s.put i y) :=
  moves_of_one (c := none) (q := none) (l := []) ha rfl rfl rfl
    (update_eq_self i s.agreedIn).symm (update_eq_self i s.acknowledged).symm
    (Subset.refl _) (.quiet ha hquiet) nofun nofun fun q hq => .inr ⟨i, hun q hq⟩

/-! ## Messages -/

/-- What is next on a connection is on its way. -/
theorem mem_of_next {s : Replicas α} {i : Instance} {c : ConnectionId} {m : Sent α}
    (h : s.next i c = some m) : m ∈ s.inFlight ∧ m.receiver = i := by
  obtain ⟨hm, hmem⟩ := And.intro (find?_some h) (mem_of_find?_eq_some h)
  simp only [Bool.and_eq_true, decide_eq_true_eq] at hm
  exact ⟨hmem, hm.1⟩

variable {s t : Replicas α} {i : Instance} {c : ConnectionId} {m : Sent α}

section

variable (hs : ∀ i, (s.replica i).Sound) (hnext : s.next i c = some m)
include hs hnext

/-- A record arrives. -/
theorem moves_record {r : SequencedRecord α} (hm : m.message = .record r)
    (h : (s.taken i c).handle i c m = some t) : Moves s (.deliver i c) t := by
  unfold handle at h
  rw [hm] at h
  obtain rfl := some.inj h
  have hun : ∀ q, ((s.replica i).handleRecord r).1.unansweredRequest = some q → s.Asked q := by
    intro q hq
    refine .inr ⟨i, hq ▸ ?_⟩
    unfold handleRecord
    split_ifs <;> rfl
  rcases (hs i).handleRecord r with ⟨hquiet, hnone⟩ | ⟨hrole, hagreed, hseq, hsound, hwal, hr, he, hack⟩
  · refine moves_of_one (k := s.acknowledged i) rfl rfl rfl rfl
      (update_eq_self i s.agreedIn).symm ?_ eraseP_sublist.subset (.quiet rfl hquiet) ?_ nofun hun
    · show acknowledge (s.taken i c) i m.sentIn r ((s.replica i).handleRecord r).2 = _
      rw [hnone, update_eq_self]
      cases m.sentIn <;> rfl
    · show ∀ m ∈ ((s.replica i).handleRecord r).2, _
      rw [hnone]
      exact nofun
  · refine moves_of_one rfl rfl rfl rfl (update_eq_self i s.agreedIn).symm ?_ eraseP_sublist.subset
      (.write m r hnext hm hrole hagreed hseq hsound hwal hr he) ?_ nofun hun
    · show acknowledge (s.taken i c) i m.sentIn r ((s.replica i).handleRecord r).2 = _
      rw [hack]
      cases m.sentIn with
      | none => exact (update_eq_self i s.acknowledged).symm
      | some => rfl
    · show ∀ m ∈ ((s.replica i).handleRecord r).2, _
      rw [hack]
      intro m hm
      rw [mem_singleton.mp hm]
      trivial

/-- A reply arrives. -/
theorem moves_reply {p : PositionReply} (hm : m.message = .reply p)
    (h : (s.taken i c).handle i c m = some t) :
    Moves s (.deliver i c) t := by
  unfold handle at h
  rw [hm] at h
  obtain ⟨⟨y, ms⟩, hy, rfl⟩ := map_eq_some_iff.mp h
  have hok := toOption_eq_some.mp hy
  obtain ⟨hsaid, hwaits, hcases⟩ := (hs i).handlePositionReply hok
  have hun : ∀ q, y.unansweredRequest = some q → s.Asked q := fun q hq =>
    .inr ⟨i, hwaits.symm.trans hq⟩
  rcases hcases with hquiet | ⟨hrole, hagreed, hask, hsound, hr, he, told, htold, hkeep, hwal, hagrees⟩
  · refine moves_of_one (g := s.agreedIn i) rfl rfl rfl rfl ?_
      (update_eq_self i s.acknowledged).symm eraseP_sublist.subset (.quiet rfl hquiet) hsaid nofun hun
    -- A reply that changes nothing makes no agreement.
    show agree (s.taken i c) i m.sentIn y = _
    unfold agree
    rw [update_eq_self, if_neg]
    · rfl
    · rintro ⟨hnew, hold⟩
      exact absurd (hquiet.agreed hnew)
        (by rw [show (s.replica i).followerWalAgreed = false from hold]; decide)
  · refine moves_of_one rfl rfl rfl rfl ?_ (update_eq_self i s.acknowledged).symm eraseP_sublist.subset
      (.reply m p told hnext hm hrole hagreed hask htold hkeep hsound hwal hr he hagrees) hsaid nofun hun
    show agree (s.taken i c) i m.sentIn y = _
    unfold agree
    rw [hagrees]
    by_cases ht : told.agreed = true
    · rw [if_pos ⟨ht, hagreed⟩, if_pos ht]
      rfl
    · rw [if_neg fun hc => ht hc.1, if_neg ht, update_eq_self]
      rfl

/-- A message arrives. -/
theorem moves_deliver (h : (s.taken i c).handle i c m = some t) : Moves s (.deliver i c) t := by
  cases hm : m.message with
  | record => exact moves_record hs hnext hm h
  | reply => exact moves_reply hs hnext hm h
  | ack seqNo =>
    unfold handle at h
    rw [hm] at h
    obtain rfl := some.inj h
    refine moves_of_one (c := none) (q := none) (l := []) rfl rfl rfl rfl
      (update_eq_self i s.agreedIn).symm (update_eq_self i s.acknowledged).symm
      eraseP_sublist.subset (.quiet rfl (quiet_handleAck _ seqNo)) nofun nofun fun q hq => .inr ⟨i, hq ▸ ?_⟩
    show _ = ((s.replica i).handleAck seqNo).unansweredRequest
    unfold handleAck
    split <;> rfl
  | request q =>
    unfold handle at h
    rw [hm] at h
    obtain ⟨⟨y, ms⟩, hy, rfl⟩ := map_eq_some_iff.mp h
    have hok := toOption_eq_some.mp hy
    obtain ⟨hquiet, hsaid, hwaits⟩ := handlePositionRequest_spec hok
    have hasked : s.Asked q := .inl ⟨m, (mem_of_next hnext).1, hm⟩
    refine moves_of_one rfl rfl rfl rfl (update_eq_self i s.agreedIn).symm
      (update_eq_self i s.acknowledged).symm eraseP_sublist.subset (.quiet rfl hquiet) hsaid
      (fun q' hq => ?_) fun q' hq => ?_
    · obtain rfl := some.inj hq
      exact hasked
    · rcases hwaits q' hq with hold | rfl
      · exact .inr ⟨i, hold⟩
      · exact hasked

end

/-! ## Leases -/

/-- The epoch is raised, and nothing else changes. -/
theorem setEpoch_eq (x : Replica α) (epoch : Int) :
    x.setEpoch epoch = { x with epoch := max x.epoch epoch } := by
  unfold setEpoch
  split
  · rename_i hlt
    rw [max_eq_left hlt.le]
  · rename_i hge
    rw [max_eq_right (not_lt.mp hge)]

/-- **What a replica makes of its leases.** -/
structure ActsOnLease (x : Replica α) (p : LeaseParticipant)
    (result : Replica α × List (LogMessage α)) : Prop where
  sound : result.1.Sound
  wal : result.1.wal = x.wal
  role : result.1.role = .leader ↔ p.holder.state = .leading
  epoch : result.1.epoch = max x.epoch p.highestEpoch
  agreed : result.1.followerWalAgreed = true → x.followerWalAgreed = true
  content : ∀ m ∈ result.2, result.1.Says none m
  unanswered : ∀ q, result.1.unansweredRequest = some q → x.unansweredRequest = some q

/-- A replica leads after it has acted on its leases exactly if its lease holder does. -/
theorem actsOnLease {x : Replica α} (h : x.Sound) (p : LeaseParticipant) (grants : Bool) :
    ActsOnLease x p (actOnLease x p grants) := by
  unfold actOnLease
  rw [setEpoch_eq]
  have hraised : Sound { x with epoch := max x.epoch p.highestEpoch } :=
    h.of_same rfl rfl rfl (.inl rfl) fun hl => ⟨h.leads hl, h.follows hl⟩
  have hchange : ∀ role : ReplicaRole, (role = .leader ↔ p.holder.state = .leading) → ActsOnLease x p
      (changeRole { x with epoch := max x.epoch p.highestEpoch } role) := by
    intro role hrole
    obtain ⟨hsound, hwal, hr, he, hagreed, hsaid, hwaits⟩ := hraised.changeRole role
    exact ⟨hsound, hwal, hr.symm ▸ hrole, he, hagreed, hsaid, hwaits⟩
  split
  · rename_i hleads
    exact hchange .leader ⟨fun _ => hleads, fun _ => rfl⟩
  rename_i hidle
  split
  · exact hchange .follower ⟨nofun, fun hc => absurd hc hidle⟩
  · rename_i hnot
    exact ⟨hraised, rfl, ⟨fun hc => absurd (.inl hc) hnot, fun hc => absurd hc hidle⟩, rfl, id,
      nofun, fun q hq => hq⟩

/-- What starting again leaves of a replica. -/
theorem reopened_spec (hs : ∀ i, (s.replica i).Sound) (lease : Pair) (a : PairAction) (i : Instance) :
    (s.reopened lease a i).Sound ∧ (s.reopened lease a i).wal = (s.replica i).wal ∧
      ((s.reopened lease a i).followerWalAgreed = true → (s.replica i).followerWalAgreed = true) ∧
      ∀ q, (s.reopened lease a i).unansweredRequest = some q → (s.replica i).unansweredRequest = some q := by
  unfold reopened
  split
  · rename_i j
    by_cases hi : i = j
    · subst hi
      rw [update_self]
      obtain ⟨hsound, hwal, -, hagreed⟩ := (hs i).reopen (lease.inst i).recording.stored
      exact ⟨hsound, hwal, fun ha => absurd ha (by rw [hagreed]; decide), nofun⟩
    · rw [update_of_ne hi]
      exact ⟨hs i, rfl, id, fun q hq => hq⟩
  · exact ⟨hs i, rfl, id, fun q hq => hq⟩

/-- Something happens to the leases, and both instances act on it. -/
theorem moves_onLease (hs : ∀ i, (s.replica i).Sound) {a : PairAction} {lease : Pair}
    (h : Pair.step s.lease a = some lease) : Moves s (.lease a) (s.onLease a lease) := by
  have hacts : ∀ i, ActsOnLease (s.reopened lease a i) (lease.inst i).participant
      (actOnLease (s.reopened lease a i) (lease.inst i).participant (grantsPeer s.lease i a)) :=
    fun i => actsOnLease (reopened_spec hs lease a i).1 _ _
  set moved : Replicas α := { s with lease := lease, replica := s.reopened lease a } with hmoved
  set y : Instance → Replica α × List (LogMessage α) := fun i =>
    actOnLease (s.reopened lease a i) (lease.inst i).participant (grantsPeer s.lease i a) with hy
  obtain ⟨sent₁, hact₁, hnew₁⟩ := act_eq moved .one none (y .one)
  set acted : Replicas α := moved.act .one none (y .one) with hacted
  obtain ⟨sent₂, hact₂, hnew₂⟩ := act_eq acted .two none (y .two)
  have hone : acted.replica .one = (y .one).1 := by
    rw [hact₁]
    exact put_self moved .one (y .one).1
  -- The second instance acts on its own replica, which the first has left as it was.
  have htwo : acted.replica .two = s.reopened lease a .two := by
    rw [hact₁]
    exact put_of_ne moved (i := .one) (j := .two) (by decide) (y .one).1
  have hend : s.onLease a lease = { acted.put .two (y .two).1 with
      inFlight := acted.inFlight ++ sent₂ } := by
    show acted.act .two none (actOnLease (acted.replica .two) _ _) = _
    rw [htwo]
    exact hact₂
  have hreplica : ∀ i, (s.onLease a lease).replica i = (y i).1 := by
    intro i
    rw [hend]
    cases i with
    | one => exact (put_of_ne acted (i := .two) (by decide) (y .two).1).trans hone
    | two => exact put_self acted .two (y .two).1
  have hrest : (s.onLease a lease).leaderLog = s.leaderLog ∧ (s.onLease a lease).lease = lease ∧
      (s.onLease a lease).agreedIn = s.agreedIn ∧ (s.onLease a lease).acknowledged = s.acknowledged ∧
      (s.onLease a lease).inFlight = (s.inFlight ++ sent₁) ++ sent₂ := by
    rw [hend, hact₁]
    exact ⟨rfl, rfl, rfl, rfl, rfl⟩
  obtain ⟨hlog, hlease, hagreed, hacks, hflight⟩ := hrest
  refine ⟨hlog, ?_, fun i => ?_, fun m hm => ?_, fun i q hq => ?_⟩
  · rw [hlease]
    exact .lease h
  · obtain ⟨hsound, hwal, hrole, hepoch, hag, -, -⟩ := hacts i
    obtain ⟨-, hwal₀, hag₀, -⟩ := reopened_spec hs lease a i
    rw [hreplica, hagreed, hacks]
    exact .lease h hsound (hwal.trans hwal₀) hrole hepoch fun ha => hag₀ (hag ha)
  · rw [hflight] at hm
    rcases mem_append.mp hm with hm | hm
    · rcases mem_append.mp hm with hm | hm
      · exact .inl hm
      · obtain ⟨hto, hin, hans, hmem⟩ := hnew₁ m hm
        refine .inr ⟨.one, ?_⟩
        rw [hreplica]
        exact ⟨hto, hin, hans ▸ (hacts .one).content _ hmem, hans ▸ nofun⟩
    · obtain ⟨hto, hin, hans, hmem⟩ := hnew₂ m hm
      refine .inr ⟨.two, ?_⟩
      rw [hreplica]
      exact ⟨hto, hin, hans ▸ (hacts .two).content _ hmem, hans ▸ nofun⟩
  · rw [hreplica] at hq
    exact .inr ⟨i, (reopened_spec hs lease a i).2.2.2 q ((hacts i).unanswered q hq)⟩

/-! ## The reading thread -/

/-- The reading thread sends the next record. -/
theorem moves_readingSends (h : s.readingSends i = some t) : Moves s (.readingSends i) t := by
  unfold readingSends at h
  dsimp only at h
  split at h
  · cases h
  rename_i reading hreading
  split at h
  · cases h
  rename_i r hr
  obtain rfl := some.inj h
  refine moves_of_one rfl rfl rfl rfl (update_eq_self i s.agreedIn).symm
    (update_eq_self i s.acknowledged).symm (Subset.refl _)
    (.quiet rfl ⟨rfl, rfl, rfl, rfl, rfl, rfl, id⟩) (fun m hm => ?_) nofun fun q hq => .inr ⟨i, hq⟩
  rw [mem_singleton.mp hm]
  exact mem_of_find?_eq_some hr

/-- The reading thread has sent everything. -/
theorem moves_readingCaughtUp (h : s.readingCaughtUp i = some t) : Moves s (.readingCaughtUp i) t := by
  unfold readingCaughtUp at h
  dsimp only at h
  split at h
  · cases h
  split at h
  · obtain rfl := some.inj h
    have hdone : Quiet (s.replica i) { s.replica i with reading := none } :=
      ⟨rfl, rfl, rfl, rfl, rfl, rfl, id⟩
    refine moves_put rfl (hdone.trans (quiet_onPeerCaughtUp _ _)) fun q hq => hq ▸ ?_
    unfold onPeerCaughtUp
    split <;> rfl
  · cases h

/-- The reading thread confirms that it has stopped. -/
theorem moves_readingConfirms (h : s.readingConfirms i = some t) : Moves s (.readingConfirms i) t := by
  unfold readingConfirms at h
  dsimp only at h
  split at h
  · cases h
  set x : Replica α := { s.replica i with
      reading := (s.replica i).reading.filter fun reading => !reading.stopping
      confirmationsAwaited := (s.replica i).confirmationsAwaited - 1 } with hx
  have hstopped : Quiet (s.replica i) x := ⟨rfl, rfl, rfl, rfl, rfl, rfl, id⟩
  split at h
  · obtain ⟨⟨y, ms⟩, hy, rfl⟩ := map_eq_some_iff.mp h
    have hok := toOption_eq_some.mp hy
    obtain ⟨hquiet, hsaid, hwaits⟩ := onPeerCatchUpStopped_spec (x := x) hok
    exact moves_act rfl (.quiet rfl (hstopped.trans hquiet)) hsaid (fun q hq => .inr ⟨i, hq⟩)
      fun q hq => .inr ⟨i, hwaits q hq⟩
  · obtain rfl := some.inj h
    exact moves_put rfl hstopped fun q hq => hq

/-! ## Every action -/

/-- A connection lost. -/
theorem moves_lost {c : ConnectionId} (outward : Bool) :
    Moves s (.lost i c) (s.act i none ((s.replica i).onPeerConnectionLost outward)) :=
  moves_act rfl (.quiet rfl ((quiet_setConnection _ _ _).trans (quiet_forgetAgreement _).1))
    (says_forgetAgreement _ _) nofun nofun

/-- **What every action does.** -/
theorem moves_of_move (hs : ∀ i, (s.replica i).Sound) (h : s.move a = some t) : Moves s a t := by
  cases a with
  | lease =>
    obtain ⟨lease, hstep, rfl⟩ := map_eq_some_iff.mp h
    exact moves_onLease hs hstep
  | resumeWithKeptPromise i promisedTo until_ =>
    obtain rfl := some.inj h
    exact ⟨rfl, .resumeWithKeptPromise i promisedTo until_, fun i => .quiet rfl (Quiet.refl _),
      fun m hm => .inl hm, fun i q hq => .inr ⟨i, hq⟩⟩
  | append i contents =>
    obtain ⟨hlead, h⟩ := ite_none_right_eq_some.mp h
    obtain rfl := some.inj h
    obtain ⟨hsound, r, -, hown, hwal, hms⟩ := (hs i).append hlead contents
    refine moves_act rfl (.append r hlead hown hsound hwal rfl rfl) (fun m hm => ?_) nofun
      fun q hq => .inr ⟨i, hq⟩
    rw [hms m hm]
    show r ∈ ((s.replica i).append contents).1.wal
    rw [hwal]
    exact mem_append_right _ (mem_singleton_self r)
  | deliver =>
    obtain ⟨-, h⟩ := ite_none_right_eq_some.mp h
    obtain ⟨m, hnext, h⟩ := bind_eq_some_iff.mp h
    exact moves_deliver hs hnext h
  | tick i =>
    obtain rfl := some.inj h
    exact moves_act rfl (.quiet rfl (Quiet.refl _)) (says_sendPositionRequest _ none) nofun
      fun q hq => .inr ⟨i, hq⟩
  | established i =>
    obtain ⟨-, h⟩ := ite_none_right_eq_some.mp h
    obtain rfl := some.inj h
    exact moves_of_one rfl rfl rfl rfl (update_eq_self i s.agreedIn).symm
      (update_eq_self i s.acknowledged).symm (Subset.refl _)
      (.quiet rfl ((quiet_setConnection _ _ _).trans (quiet_forgetAgreement _).1))
      (says_onPeerConnectionEstablished _ _ _) nofun nofun
  | lost =>
    simp only [move] at h
    split at h
    · obtain rfl := some.inj h
      exact moves_lost true
    split at h
    · obtain rfl := some.inj h
      exact moves_lost false
    · cases h
  | readingSends => exact moves_readingSends h
  | readingCaughtUp => exact moves_readingCaughtUp h
  | readingConfirms => exact moves_readingConfirms h

end Replicas

end PubsubVenue
