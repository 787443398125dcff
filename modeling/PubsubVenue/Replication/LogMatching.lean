import PubsubVenue.Replication.Steps

/-! # The logs of a pair match

Every record is written in one leadership, and each leadership has an epoch of its own; so a
record's epoch names the log it was written in, and a log that holds the record should be that log
up to it. `Attributed` says that it is. It holds of both logs in every run in which a follower
writes only records sent in the leadership it has agreed with, which is more than the source checks:
a record says who wrote it, not who sends it.

* **`LogsInv.note`**: what a step must do to keep the logs matching, said once.
* **`Replicas.logs_match`**: they match in every such run, and each log is numbered without a gap.
* **`Replicas.logs_diverge`**: they do not in every run. -/

namespace PubsubVenue

open List Pair Replica Function LeaseParticipant Machine

variable {α : Type}

/-! ## Logs and the logs their records were written in -/

/-- **Every record of a log names the log it was written in**: up to the record, the two are the
same. -/
def Attributed (written : Int → List (SequencedRecord α)) (log : List (SequencedRecord α)) : Prop :=
  ∀ n r, log[n]? = some r → log.take (n + 1) <+: written r.epoch

/-- Every leadership's log goes on from what it was. -/
def Grows (written written' : Int → List (SequencedRecord α)) : Prop :=
  ∀ e, written e <+: written' e

variable {written written' : Int → List (SequencedRecord α)} {log : List (SequencedRecord α)}

/-- A log stays attributed while the leaderships' logs grow. -/
theorem Attributed.mono (h : Attributed written log) (hg : Grows written written') :
    Attributed written' log :=
  fun n r hn => (h n r hn).trans (hg r.epoch)

/-- The beginning of an attributed log is attributed. -/
theorem Attributed.of_isPrefix {log' : List (SequencedRecord α)} (h : Attributed written log)
    (hp : log' <+: log) : Attributed written log' := by
  intro n r hn
  obtain ⟨rest, rfl⟩ := hp
  obtain ⟨hlt, -⟩ := List.getElem?_eq_some_iff.mp hn
  have hn' : (log' ++ rest)[n]? = some r := by rwa [getElem?_append_left hlt]
  have := h n r hn'
  rwa [take_append_of_le_length hlt] at this

/-- The empty log is attributed. -/
theorem attributed_nil (written : Int → List (SequencedRecord α)) : Attributed written [] :=
  nofun

/-- **A leader's own records** keep its log attributed, once they are in its leadership's log. -/
theorem Attributed.append {new : List (SequencedRecord α)} {e : Int} (h : Attributed written log)
    (hnew : ∀ r ∈ new, r.epoch = e) (hlog : written e = log ++ new) : Attributed written (log ++ new) := by
  intro n r hn
  rcases Nat.lt_or_ge n log.length with hlt | hge
  · rw [getElem?_append_left hlt] at hn
    rw [take_append_of_le_length hlt]
    exact h n r hn
  · rw [getElem?_append_right hge] at hn
    rw [hnew r (mem_of_getElem? hn), hlog]
    exact take_prefix _ _

/-- **Attributed logs match**: where two of them hold a record from one epoch, they are the same up
to it. -/
theorem Attributed.take_eq {l m : List (SequencedRecord α)} (hl : Attributed written l)
    (hm : Attributed written m) {n : Nat} {r r' : SequencedRecord α} (hr : l[n]? = some r)
    (hr' : m[n]? = some r') (hepoch : r.epoch = r'.epoch) : l.take (n + 1) = m.take (n + 1) := by
  obtain ⟨hnl, -⟩ := List.getElem?_eq_some_iff.mp hr
  obtain ⟨hnm, -⟩ := List.getElem?_eq_some_iff.mp hr'
  have hpl := hl n r hr
  have hpm := hm n r' hr'
  rw [← hepoch] at hpm
  apply IsPrefix.eq_of_length
  · exact prefix_of_prefix_length_le hpl hpm (by simp only [length_take]; omega)
  · simp only [length_take]
    omega

/-! ## Messages -/

/-- What a message says is so in a log: a record is in it, and an agreement is about a record in
it. -/
def Backed (log : List (SequencedRecord α)) : LogMessage α → Prop
  | .record r => r ∈ log
  | .reply p => p.agreed = true → p.seqNo = 0 ∨ ∃ r ∈ log, r.seqNo = p.seqNo ∧ r.epoch = p.epoch
  | .ack _ => True
  | .request _ => True

/-- What is so in a log is so in a longer one. -/
theorem Backed.mono {log' : List (SequencedRecord α)} (h : log ⊆ log') {m : LogMessage α}
    (hm : Backed log m) : Backed log' m := by
  cases m with
  | record => exact h hm
  | reply =>
    intro ha
    rcases hm ha with h0 | ⟨r, hr, hrp⟩
    · exact .inl h0
    · exact .inr ⟨r, h hr, hrp⟩
  | ack | request => trivial

/-- What a message says is so in the log of the leadership it was sent in; and outside a leadership
no agreement is sent. -/
def Valid (written : Int → List (SequencedRecord α)) (m : Sent α) : Prop :=
  match m.sentIn with
  | some e => Backed (written e) m.message
  | none => ∀ p, m.message = .reply p → p.agreed = false

/-- A message stays valid while the leaderships' logs grow. -/
theorem Valid.mono {m : Sent α} (h : Valid written m) (hg : Grows written written') : Valid written' m := by
  unfold Valid at h ⊢
  split
  · rename_i e he
    rw [he] at h
    exact h.mono (hg e).subset
  · rename_i he
    rwa [he] at h

/-- What a sound replica sends is valid, if the log of its leadership is its own. -/
theorem Replicas.SentBy.valid {s : Replicas α} {i : Instance} {y : Replica α} {m : Sent α}
    (h : s.SentBy i y m) (hy : y.Sound) (hlog : ∀ e, y.leadership = some e → written e = y.wal) :
    Valid written m := by
  unfold Valid
  have hsaid := h.content
  split
  · rename_i e he
    rw [hlog e (h.sentIn.symm.trans he)]
    cases hm : m.message with
    | record =>
      rw [hm] at hsaid
      exact hsaid
    | ack | request => trivial
    | reply =>
      rw [hm] at hsaid
      intro ha
      rcases hsaid with ⟨hnot, -⟩ | ⟨-, q, -, hp⟩
      · rw [hnot] at ha
        cases ha
      · exact hy.mem_of_positionReply hp
  · rename_i hnone
    intro p hm
    rw [hm] at hsaid
    rcases hsaid with ⟨hnot, -⟩ | ⟨hrole, -⟩
    · exact hnot
    · exact absurd hrole (leadership_eq_none.mp (h.sentIn.symm.trans hnone))

/-! ## Roles -/

/-- What leases make of the replicas: an instance leads exactly while its lease holder does, in the
holder's epoch. -/
structure RolesInv (lease : Pair) (replica : Instance → Replica α) : Prop where
  epochs : lease.EpochsInv
  own : lease.OwnEpochs
  role : ∀ i, (replica i).role = .leader ↔ (lease.inst i).participant.holder.state = .leading
  known : ∀ i, (replica i).epoch ≤ (lease.inst i).participant.highestEpoch
  leads : ∀ i, (replica i).role = .leader → (replica i).epoch = (lease.inst i).participant.holder.epoch

namespace RolesInv

variable {lease lease' : Pair} {replica replica' : Instance → Replica α}

section

variable (h : RolesInv lease replica)
include h

/-- An instance leads in an epoch it has begun to lead in, and that is its own. -/
theorem mem_led {i : Instance} {e : Int}
    (hl : (replica i).leadership = some e) : e ∈ (lease.inst i).led ∧ e % 4 = i.id := by
  obtain ⟨hrole, rfl⟩ := leadership_eq_some.mp hl
  have hlast := (h.own i).2 ((h.role i).mp hrole)
  rw [← h.leads i hrole] at hlast
  have hmem := mem_of_mem_head? hlast
  exact ⟨hmem, ((h.epochs i).led _ hmem).1⟩

/-- No epoch is led by both instances. -/
theorem eq_of_mem_led {i j : Instance} {e : Int}
    (hi : e ∈ (lease.inst i).led) (hj : e ∈ (lease.inst j).led) : i = j := by
  have h₁ := ((h.epochs i).led e hi).1
  have h₂ := ((h.epochs j).led e hj).1
  rw [h₁] at h₂
  cases i <;> cases j <;> first | rfl | exact absurd h₂ (by decide)

/-- No two instances lead in one epoch. -/
theorem leadership_inj {i j : Instance} {e : Int}
    (hi : (replica i).leadership = some e) (hj : (replica j).leadership = some e) : i = j :=
  h.eq_of_mem_led (h.mem_led hi).1 (h.mem_led hj).1

/-- Replicas with the same roles and epochs. -/
theorem of_same (hrole : ∀ i, (replica' i).role = (replica i).role)
    (hepoch : ∀ i, (replica' i).epoch = (replica i).epoch) : RolesInv lease replica' :=
  { h with
    role := fun i => by rw [hrole]; exact h.role i
    known := fun i => by rw [hepoch]; exact h.known i
    leads := fun i hl => by rw [hepoch]; exact h.leads i (hrole i ▸ hl) }

/-- A voter that resumes with a kept promise leaves roles and epochs alone. -/
theorem resumeWithKeptPromise (i : Instance) (promisedTo : Int) (until_ : Nat) :
    RolesInv (lease.setVoter (.member i)
      ((lease.voter (.member i)).resumeWithKeptPromise promisedTo until_ lease.now)) replica := by
  set x : InstanceState := { lease.inst i with
    participant := { (lease.inst i).participant with
      voter := (lease.voter (.member i)).resumeWithKeptPromise promisedTo until_ lease.now } } with hx
  have hinst : ∀ j, (lease.setVoter (.member i)
      ((lease.voter (.member i)).resumeWithKeptPromise promisedTo until_ lease.now)).inst j =
      if j = i then x else lease.inst j := by
    intro j
    show update lease.inst i x j = _
    rw [update_apply]
  refine ⟨fun j => ?_, fun j => ?_, fun j => ?_, fun j => ?_, fun j => ?_⟩
  · rw [hinst]
    split
    · rename_i hj
      rw [hj]
      exact (h.epochs i).setVoter (le_refl _)
    · exact h.epochs j
  · rw [hinst]
    split
    · obtain ⟨⟨hself, hbound, hleads⟩, hlast⟩ := h.own i
      exact ⟨⟨hself, hbound, hleads⟩, hlast⟩
    · exact h.own j
  · rw [hinst]
    split
    · rename_i hj
      rw [hj]
      exact h.role i
    · exact h.role j
  · rw [hinst]
    split
    · rename_i hj
      rw [hj]
      exact h.known i
    · exact h.known j
  · rw [hinst]
    split
    · rename_i hj
      rw [hj]
      exact h.leads i
    · exact h.leads j

end

/-- An instance knows, after an action of the leases, at least the epoch its replica has: what it
knew before, or what is on disk if it starts again. -/
theorem reopened_le {s : Replicas α} (h : RolesInv s.lease s.replica) {a : PairAction}
    (hstep : step s.lease a = some lease') (i : Instance) :
    (s.reopened lease' a i).epoch ≤ (lease'.inst i).participant.highestEpoch := by
  by_cases ha : a = .restart i
  · subst ha
    show (update s.replica i ((s.replica i).reopen (lease'.inst i).recording.stored) i).epoch ≤ _
    rw [update_self]
    show (lease'.inst i).recording.stored ≤ _
    obtain ⟨p, hp, ht⟩ := bind_eq_ok.mp (toOption_eq_some.mp hstep)
    cases ht
    rw [setInst_inst, if_pos rfl, start_eq_ok hp]
    exact le_refl _
  · have hsame : s.reopened lease' a i = s.replica i := by
      unfold Replicas.reopened
      split
      · rename_i j
        exact update_of_ne (fun hc => ha (by rw [hc])) _ _
      · rfl
    rw [hsame]
    exact (h.known i).trans (highestEpoch_le_of_step hstep ha)

/-- **Every action keeps the roles**, if epochs are recorded before they are asked for. -/
theorem moves {s t : Replicas α} {a : ReplicasAction α} (h : RolesInv s.lease s.replica)
    (hm : s.Moves a t) (hc : ∀ b, a = .lease b → s.lease.epochIsRecordedBeforeAsking b) :
    RolesInv t.lease t.replica := by
  have hkeeps : a.isLease = false → ∀ i, (t.replica i).role = (s.replica i).role ∧
      (t.replica i).epoch = (s.replica i).epoch := by
    intro ha i
    have hstep := hm.replica i
    generalize t.replica i = y, t.agreedIn i = g, t.acknowledged i = k at hstep ⊢
    cases hstep with
    | quiet other keeps => exact ⟨keeps.role, keeps.epoch⟩
    | append r leads own sound wal role epoch => exact ⟨role, epoch⟩
    | write m r next message follows agreed seqNo sound wal role epoch => exact ⟨role, epoch⟩
    | reply m p told next message follows agreed askAgain tells keep sound wal role epoch =>
      exact ⟨role, epoch⟩
    | lease => cases ha
  have hlease := hm.lease
  generalize hl : t.lease = lease' at hlease ⊢
  cases hlease with
  | same other => exact h.of_same (fun i => (hkeeps other i).1) fun i => (hkeeps other i).2
  | resumeWithKeptPromise i promisedTo until_ =>
    exact (h.resumeWithKeptPromise i promisedTo until_).of_same (fun i => (hkeeps rfl i).1)
      fun i => (hkeeps rfl i).2
  | @lease b lease' hstep =>
    have hepochs : lease'.EpochsInv :=
      epochsInv_invariant h.epochs (restrict_eq_some.mpr ⟨hc b rfl, hstep⟩)
    have hown : lease'.OwnEpochs := ownEpochs_invariant h.own hstep
    -- What each instance has made of the new leases.
    have hacts : ∀ i, ((t.replica i).role = .leader ↔ (lease'.inst i).participant.holder.state = .leading) ∧
        (t.replica i).epoch = max (s.reopened lease' b i).epoch (lease'.inst i).participant.highestEpoch := by
      intro i
      have hr := hm.replica i
      generalize t.replica i = y, t.agreedIn i = g, t.acknowledged i = k at hr ⊢
      cases hr with
      | quiet other => cases other
      | lease step sound wal role epoch =>
        obtain rfl := Option.some.inj (step.symm.trans hstep)
        exact ⟨role, epoch⟩
    have hknown : ∀ i, (t.replica i).epoch = (lease'.inst i).participant.highestEpoch := by
      intro i
      rw [(hacts i).2]
      apply max_eq_right
      exact reopened_le h hstep i
    refine ⟨hepochs, hown, fun i => (hacts i).1, fun i => (hknown i).le, fun i hlead => ?_⟩
    rw [hknown]
    have hstate := (hacts i).1.mp hlead
    have hk := (hown i).1
    exact le_antisymm (hk.bound (by rw [hstate]; decide)) (hk.leads hstate)

end RolesInv

/-! ## The invariant -/

/-- Whether a follower would write a record: it has agreed, and the record is the next. -/
def Replica.takes (x : Replica α) (r : SequencedRecord α) : Bool :=
  decide (x.role ≠ .leader) && x.followerWalAgreed && decide (r.seqNo = x.lastSeqNo + 1)

namespace Replicas

variable (s : Replicas α)

/-- A record that an instance would write was sent in the leadership it has agreed with. -/
def fromItsLeader (i : Instance) (m : Sent α) : Prop :=
  match m.message with
  | .record r => (s.replica i).takes r = true → m.sentIn = s.agreedIn i
  | _ => True

instance (i : Instance) (m : Sent α) : Decidable (s.fromItsLeader i m) := by
  unfold fromItsLeader
  cases m.message <;> infer_instance

/-- **A follower writes only records sent in the leadership it has agreed with**; and an instance
asks to lead only in an epoch it has on disk. -/
def followsOneLeadership : ReplicasAction α → Prop
  | .lease a => s.lease.epochIsRecordedBeforeAsking a
  | .deliver i c => ∀ m ∈ s.next i c, s.fromItsLeader i m
  | _ => True

instance (a : ReplicasAction α) : Decidable (s.followsOneLeadership a) := by
  cases a <;> unfold followsOneLeadership <;> infer_instance

/-- **The logs of a pair are attributed**, to the logs of its leaderships: those of both instances
and those of the leaderships themselves. -/
structure LogsInv (s : Replicas α) : Prop where
  roles : RolesInv s.lease s.replica
  sound : ∀ i, (s.replica i).Sound
  /-- A leader's log is its leadership's. -/
  current : ∀ i e, (s.replica i).leadership = some e → s.leaderLog e = (s.replica i).wal
  /-- A leadership that has not begun has no log. -/
  fresh : ∀ e, (∀ i, e ∉ (s.lease.inst i).led) → s.leaderLog e = []
  numbered : ∀ e, Numbered (s.leaderLog e)
  logs : ∀ i, Attributed s.leaderLog (s.replica i).wal
  leaders : ∀ e, Attributed s.leaderLog (s.leaderLog e)
  messages : ∀ m ∈ s.inFlight, Valid s.leaderLog m
  /-- A follower that has agreed holds the beginning of a leadership's log. -/
  agreed : ∀ i, (s.replica i).followerWalAgreed = true →
    ∃ e, s.agreedIn i = some e ∧ (s.replica i).wal <+: s.leaderLog e

/-- **What an action may make of an instance's log.** A leader's log goes on with records of its
epoch, or is the log the instance had when it began to lead; a follower's is attributed, and the
beginning of a leadership's if it has agreed. -/
structure Continues (s t : Replicas α) (i : Instance) : Prop where
  sound : (t.replica i).Sound
  leading : ∀ e, (t.replica i).leadership = some e → ((s.replica i).leadership = some e ∧
      ∃ new, (t.replica i).wal = (s.replica i).wal ++ new ∧ ∀ r ∈ new, r.epoch = e) ∨
    ((∀ j, e ∉ (s.lease.inst j).led) ∧ (t.replica i).wal = (s.replica i).wal)
  following : (t.replica i).leadership = none → Attributed s.leaderLog (t.replica i).wal
  agreed : (t.replica i).followerWalAgreed = true → ∃ e, t.agreedIn i = some e ∧
    (t.replica i).wal <+: s.leaderLog e

variable {s t : Replicas α}

/-- The logs of the leaderships, once they have been noted. -/
theorem note_leaderLog (t : Replicas α) (e : Int) :
    (∃ i, (t.replica i).leadership = some e ∧ t.note.leaderLog e = (t.replica i).wal) ∨
      ((∀ i, (t.replica i).leadership ≠ some e) ∧ t.note.leaderLog e = t.leaderLog e) := by
  unfold note
  dsimp only
  split
  · rename_i h
    exact .inl ⟨.one, h, rfl⟩
  rename_i h₁
  split
  · rename_i h
    exact .inl ⟨.two, h, rfl⟩
  · rename_i h₂
    refine .inr ⟨fun i => ?_, rfl⟩
    cases i
    · exact h₁
    · exact h₂

variable {i : Instance} {e : Int}

/-- A leader's log is noted as its leadership's. -/
theorem note_leaderLog_of_leads (hroles : RolesInv t.lease t.replica)
    (h : (t.replica i).leadership = some e) : t.note.leaderLog e = (t.replica i).wal := by
  rcases note_leaderLog t e with ⟨j, hj, hlog⟩ | ⟨hnone, -⟩
  · rw [hlog, hroles.leadership_inj h hj]
  · exact absurd h (hnone i)

section

variable (h : LogsInv s) (hlog : t.leaderLog = s.leaderLog) (hcont : ∀ i, Continues s t i)
include h hlog hcont

/-- **The log of a leadership goes on with records of its own**, once it has begun. -/
theorem LogsInv.goesOn {j : Instance} (he : e ∈ (s.lease.inst j).led) :
    ∃ new, t.note.leaderLog e = s.leaderLog e ++ new ∧ ∀ r ∈ new, r.epoch = e := by
  rcases note_leaderLog t e with ⟨i, hi, hnoted⟩ | ⟨-, hnoted⟩
  · rcases (hcont i).leading e hi with ⟨hx, new, hwal, hnew⟩ | ⟨hfresh, -⟩
    · exact ⟨new, by rw [hnoted, h.current i e hx, hwal], hnew⟩
    · exact absurd he (hfresh j)
  · exact ⟨[], by rw [hnoted, hlog, append_nil], nofun⟩

/-- Every leadership's log goes on from what it was. -/
theorem LogsInv.grows : Grows s.leaderLog t.note.leaderLog := by
  intro e
  by_cases hled : ∃ j, e ∈ (s.lease.inst j).led
  · obtain ⟨j, hj⟩ := hled
    obtain ⟨new, hnew, -⟩ := h.goesOn hlog hcont hj
    exact ⟨new, hnew.symm⟩
  · rw [h.fresh e fun i hi => hled ⟨i, hi⟩]
    exact nil_prefix

/-- **What keeps the logs attributed.** -/
theorem LogsInv.note (hroles : RolesInv t.lease t.replica)
    (hled : ∀ i, (s.lease.inst i).led ⊆ (t.lease.inst i).led)
    (hsent : ∀ m ∈ t.inFlight, m ∈ s.inFlight ∨ ∃ i, s.SentBy i (t.replica i) m) :
    LogsInv t.note := by
  have hgrows := h.grows hlog hcont
  -- what a leader appended is noted in the log of its leadership
  have hlogs : ∀ i, Attributed t.note.leaderLog (t.replica i).wal := by
    intro i
    cases hl : (t.replica i).leadership with
    | none => exact ((hcont i).following hl).mono hgrows
    | some e =>
      have hx := (h.logs i).mono hgrows
      rcases (hcont i).leading e hl with ⟨-, new, hwal, hnew⟩ | ⟨-, hwal⟩
      · rw [hwal]
        exact hx.append hnew (by rw [note_leaderLog_of_leads hroles hl, hwal])
      · rw [hwal]
        exact hx
  have hboth : ∀ e, Numbered (t.note.leaderLog e) ∧ Attributed t.note.leaderLog (t.note.leaderLog e) := by
    intro e
    rcases note_leaderLog t e with ⟨i, -, hnoted⟩ | ⟨-, hnoted⟩
    · rw [hnoted]
      exact ⟨(hcont i).sound.numbered, hlogs i⟩
    · rw [hnoted, hlog]
      exact ⟨h.numbered e, (h.leaders e).mono hgrows⟩
  refine
    { roles := hroles
      sound := fun i => (hcont i).sound
      current := fun i e hl => note_leaderLog_of_leads hroles hl
      fresh := fun e he => ?_
      numbered := fun e => (hboth e).1
      logs := hlogs
      leaders := fun e => (hboth e).2
      messages := fun m hm => ?_
      agreed := fun i ha => ?_ }
  · rcases note_leaderLog t e with ⟨i, hi, -⟩ | ⟨-, hnoted⟩
    · exact absurd (hroles.mem_led hi).1 (he i)
    · rw [hnoted, hlog]
      exact h.fresh e fun i hmem => he i (hled i hmem)
  · rcases hsent m hm with hold | ⟨i, hnew⟩
    · exact (h.messages m hold).mono hgrows
    · exact hnew.valid (hcont i).sound fun e hl => note_leaderLog_of_leads hroles hl
  · obtain ⟨e, he, hp⟩ := (hcont i).agreed ha
    exact ⟨e, he, hp.trans (hgrows e)⟩

end

/-! ## Every action keeps it -/

/-- The next record of a log that a follower holds the beginning of. -/
theorem concat_isPrefix {log wal : List (SequencedRecord α)} {r : SequencedRecord α}
    (hlog : Numbered log) (hp : wal <+: log) (hr : r ∈ log) (hseq : r.seqNo = wal.length + 1) :
    wal ++ [r] <+: log := by
  obtain ⟨n, hn, hget⟩ := hlog.getElem?_of_mem hr
  obtain ⟨rest, rfl⟩ := hp
  obtain rfl : n = wal.length := by omega
  rw [getElem?_append_right (le_refl _), Nat.sub_self] at hget
  cases rest with
  | nil => cases hget
  | cons r' rest =>
    obtain rfl := Option.some.inj hget
    exact ⟨rest, by rw [append_assoc, singleton_append]⟩

/-- A message of a leadership that says the logs agree, to a follower whose last record is from the
epoch it names and not after it: the follower's log is the beginning of the leadership's. -/
theorem LogsInv.isPrefix_of_reply (h : LogsInv s) {epoch : Int} {seqNo : Nat}
    {wal : List (SequencedRecord α)} (hwal : Attributed s.leaderLog wal)
    (hreply : seqNo = 0 ∨ ∃ r ∈ s.leaderLog e, r.seqNo = seqNo ∧ r.epoch = epoch)
    (hlast : ∀ n r, wal.length = n + 1 → wal[n]? = some r → wal.length ≤ seqNo ∧ r.epoch = epoch) :
    wal <+: s.leaderLog e := by
  cases hw : wal.length with
  | zero =>
    rw [length_eq_zero_iff.mp hw]
    exact nil_prefix
  | succ n =>
    have hget : wal[n]? = some wal[n] := getElem?_eq_getElem _
    obtain ⟨hle, hepoch⟩ := hlast n _ hw hget
    rcases hreply with h0 | ⟨r, hr, hseq, hre⟩
    · omega
    obtain ⟨k, hk, hgetr⟩ := (h.numbered e).getElem?_of_mem hr
    -- Both logs, up to these records, are the beginning of the log of the epoch they name.
    have hl := h.leaders e k r hgetr
    have hf := hwal _ _ hget
    rw [hre, ← hepoch] at hl
    rw [take_of_length_le (by omega)] at hf
    obtain ⟨hklt, -⟩ := List.getElem?_eq_some_iff.mp hgetr
    have hp := prefix_of_prefix_length_le hf hl (by rw [length_take]; omega)
    exact hp.trans ( take_prefix _ _)

/-- What a reply leaves of a follower's log, when it says that the logs agree. -/
theorem LogsInv.isPrefix_of_agrees (h : LogsInv s) {m : Sent α} {p : PositionReply} {told : FollowerStep}
    (hm : m ∈ s.inFlight) (hp : m.message = .reply p)
    (htold : (s.replica i).logEpochs.onPositionReply p = .ok told) (hagreed : told.agreed = true) :
    ∃ e, m.sentIn = some e ∧ (s.replica i).wal.take told.keepThrough <+: s.leaderLog e := by
  rw [(h.sound i).table_ofLog] at htold
  obtain ⟨hkeep, hsaid, hlast⟩ := (onPositionReply_ofLog htold).2 hagreed
  rw [length_map] at hkeep hlast
  rw [hkeep, take_length]
  have hvalid := h.messages m hm
  unfold Valid at hvalid
  cases hin : m.sentIn with
  | none =>
    rw [hin] at hvalid
    exact absurd (hvalid p hp) (by rw [hsaid]; decide)
  | some e =>
    rw [hin, hp] at hvalid
    refine ⟨e, rfl, h.isPrefix_of_reply (h.logs i) (hvalid hsaid) fun n r hn hget => ?_⟩
    rcases hlast with h0 | ⟨hle, hepoch⟩
    · omega
    · refine ⟨hle, ?_⟩
      rw [hn, epochAt_succ (r := r.toLogRecord) (by rw [getElem?_map, hget]; rfl)] at hepoch
      exact hepoch

/-- **What a follower writes** goes on with the log of the leadership it has agreed with, if that
leadership sent it. -/
theorem LogsInv.isPrefix_of_write (h : LogsInv s) {c : ConnectionId} {m : Sent α} {r : SequencedRecord α}
    (hnext : s.next i c = some m) (hm : m.message = .record r) (hfollows : (s.replica i).role ≠ .leader)
    (hagreed : (s.replica i).followerWalAgreed = true) (hseq : r.seqNo = (s.replica i).wal.length + 1)
    (hfrom : s.fromItsLeader i m) :
    ∃ e, s.agreedIn i = some e ∧ m.sentIn = some e ∧ (s.replica i).wal ++ [r] <+: s.leaderLog e := by
  obtain ⟨e, he, hp⟩ := h.agreed i hagreed
  have htakes : (s.replica i).takes r = true := by
    unfold takes
    rw [(h.sound i).lastSeqNo_eq]
    simp [hfollows, hagreed, hseq]
  unfold fromItsLeader at hfrom
  rw [hm] at hfrom
  have hin : m.sentIn = some e := (hfrom htakes).trans he
  have hvalid := h.messages m (mem_of_next hnext).1
  unfold Valid at hvalid
  rw [hin, hm] at hvalid
  exact ⟨e, he, hin, concat_isPrefix (h.numbered e) hp hvalid hseq⟩

/-- A replica with the same role and epoch leads in the same epoch, if it leads. -/
theorem leadership_congr {x y : Replica α} (hrole : y.role = x.role) (hepoch : y.epoch = x.epoch) :
    y.leadership = x.leadership := by
  unfold leadership
  rw [hrole, hepoch]

/-- Leaderships are begun, never taken back. -/
theorem led_subset_of_moves {a : ReplicasAction α} (hm : s.Moves a t) (i : Instance) :
    (s.lease.inst i).led ⊆ (t.lease.inst i).led := by
  have hlease := hm.lease
  generalize t.lease = lease' at hlease ⊢
  cases hlease with
  | same => exact Subset.refl _
  | lease step =>
    rcases goesOn_or_begins step i with ⟨hled, -⟩ | ⟨e, hbegins⟩
    · rw [hled]
      exact Subset.refl _
    · rw [hbegins.led]
      exact subset_cons_self _ _
  | resumeWithKeptPromise j =>
    show (s.lease.inst i).led ⊆ (update s.lease.inst j _ i).led
    by_cases hij : i = j
    · rw [hij, update_self]
      exact Subset.refl _
    · rw [update_of_ne hij]
      exact Subset.refl _

/-- An instance that leads after an action of the leases led before, in the same epoch, or has begun
to lead in an epoch nobody has led in. -/
theorem LogsInv.leads_or_begins (h : LogsInv s) {b : PairAction} {lease' : Pair}
    (hstep : Pair.step s.lease b = some lease') (hepochs : lease'.EpochsInv)
    (hlead : (lease'.inst i).participant.holder.state = .leading) :
    (s.replica i).leadership = some (lease'.inst i).participant.holder.epoch ∨
      ∀ j, (lease'.inst i).participant.holder.epoch ∉ (s.lease.inst j).led := by
  rcases goesOn_or_begins hstep i with ⟨-, hgoes⟩ | ⟨e, -, -, hled, -, he⟩
  · obtain ⟨hwas, hsame⟩ := hgoes hlead
    have hrole := (h.roles.role i).mpr hwas
    exact .inl (leadership_eq_some.mpr ⟨hrole, (h.roles.leads i hrole).trans hsame.symm⟩)
  · refine .inr fun j hj => ?_
    rw [he] at hj
    have hinv := hepochs i
    by_cases hij : j = i
    · subst hij
      have hrise := hinv.rise
      rw [hled] at hrise
      exact absurd (rel_of_pairwise_cons hrise hj) (lt_irrefl e)
    · have hi := (hinv.led e (by rw [hled]; exact mem_cons_self)).1
      have hj' := ((h.roles.epochs j).led e hj).1
      rw [hi] at hj'
      cases i <;> cases j <;> first | exact hij rfl | exact absurd hj' (by decide)

/-- **What every action makes of an instance's log**, when followers write only what their leader
sends. -/
theorem LogsInv.continues (h : LogsInv s) {a : ReplicasAction α} (hm : s.Moves a t)
    (hc : s.followsOneLeadership a) (hroles : RolesInv t.lease t.replica) (i : Instance) :
    Continues s t i := by
  -- An instance that does not lead has its log to account for, and its agreement.
  have follower : ∀ {y : Replica α}, t.replica i = y → y.Sound → y.role ≠ .leader →
    Attributed s.leaderLog y.wal →
      (y.followerWalAgreed = true → ∃ e, t.agreedIn i = some e ∧ y.wal <+: s.leaderLog e) →
      Continues s t i := by
    rintro y rfl hsound hrole hwal hagreed
    refine ⟨hsound, fun e he => ?_, fun _ => hwal, hagreed⟩
    exact absurd (leadership_eq_some.mp he).1 hrole
  have hstep := hm.replica i
  generalize hy : t.replica i = y, hg : t.agreedIn i = g, t.acknowledged i = k at hstep
  cases hstep with
  | quiet other keeps =>
    have hlead : y.leadership = (s.replica i).leadership := leadership_congr keeps.role keeps.epoch
    refine ⟨hy ▸ (h.sound i).quiet keeps, fun e he => ?_, fun _ => ?_, fun ha => ?_⟩
    · rw [hy] at he ⊢
      exact .inl ⟨hlead.symm.trans he, [], by rw [keeps.wal, append_nil], nofun⟩
    · rw [hy, keeps.wal]
      exact h.logs i
    · rw [hy] at ha ⊢
      rw [hg, keeps.wal]
      exact h.agreed i (keeps.agreed ha)
  | append r leads own sound wal role epoch =>
    have hrole : (t.replica i).role = .leader := by rw [hy, role, leads]
    refine ⟨hy ▸ sound, fun e he => ?_, fun hn => ?_, fun ha => ?_⟩
    · rw [hy, leadership_congr role epoch] at he
      rw [hy]
      refine .inl ⟨he, [r], wal, fun r' hr => ?_⟩
      rw [mem_singleton.mp hr, own]
      exact (leadership_eq_some.mp he).2
    · exact absurd hrole (leadership_eq_none.mp hn)
    · have hnot := (hy ▸ sound : (t.replica i).Sound).follows hrole
      rw [hnot] at ha
      cases ha
  | @write c _ m r next message follows agreed seqNo sound wal role =>
    obtain ⟨e, he, -, hnew⟩ := h.isPrefix_of_write next message follows agreed seqNo (hc m next)
    rw [← wal] at hnew
    exact follower hy sound (role ▸ follows) ((h.leaders e).of_isPrefix hnew) fun _ =>
      ⟨e, hg.trans he, hnew⟩
  | reply m p told next message follows agreed askAgain tells keep sound wal role epoch agrees =>
    have hpre : y.wal <+: (s.replica i).wal := wal ▸ take_prefix _ _
    refine follower hy sound (role ▸ follows) ((h.logs i).of_isPrefix hpre) fun ha => ?_
    rw [agrees] at ha
    obtain ⟨e, he, hp⟩ := h.isPrefix_of_agrees (mem_of_next next).1 message tells ha
    rw [if_pos ha] at hg
    exact ⟨e, hg.trans he, wal ▸ hp⟩
  | @lease b lease' _ step sound wal role epoch agreed =>
    have hl : t.lease = lease' := by
      have hlease := hm.lease
      generalize t.lease = l at hlease
      cases hlease with
      | same other => cases other
      | lease step' => exact Option.some.inj (step'.symm.trans step)
    refine ⟨hy ▸ sound, fun e he => ?_, fun _ => ?_, fun ha => ?_⟩
    · obtain ⟨hrole, hepoch⟩ := leadership_eq_some.mp he
      rw [hroles.leads i hrole, hl] at hepoch
      rw [hy] at hrole ⊢
      rcases h.leads_or_begins step (hl ▸ hroles.epochs) (role.mp hrole) with hgoes | hbegins
      · exact .inl ⟨hepoch ▸ hgoes, [], by rw [wal, append_nil], nofun⟩
      · exact .inr ⟨hepoch ▸ hbegins, wal⟩
    · rw [hy, wal]
      exact h.logs i
    · rw [hy] at ha ⊢
      rw [hg, wal]
      exact h.agreed i (agreed ha)

/-- **Every action keeps the logs attributed**, when followers write only what their leader sends. -/
theorem logsInv_invariant : (step.restrict (followsOneLeadership (α := α))).Invariant LogsInv := by
  intro s a t h hst
  obtain ⟨hc, hst⟩ := restrict_eq_some.mp hst
  obtain ⟨u, hu, rfl⟩ := Option.map_eq_some_iff.mp hst
  have hm := moves_of_move h.sound hu
  have hroles : RolesInv u.lease u.replica := h.roles.moves hm fun b hb => by
    subst hb
    exact hc
  exact h.note hm.leaderLog (h.continues hm hc hroles) hroles (led_subset_of_moves hm) hm.sent

/-- Two empty logs, when the pair's leases start. -/
theorem logsInv_start {terms : LeaseTerms} {flag : PeerStatementsFlag} {began : Nat}
    {stored : Instance → Int} {thirdEpoch : Int} {lease : Pair}
    (h : Pair.start terms flag began stored thirdEpoch = .ok lease) (hasReadingThread : Bool) :
    LogsInv (start (α := α) lease hasReadingThread) := by
  have hepochs := epochsInv_start h
  have hown := ownEpochs_start h
  have hinst : ∀ i, (lease.inst i).participant.holder.state = .idle ∧
      (lease.inst i).recording.stored ≤ (lease.inst i).participant.highestEpoch := by
    obtain ⟨p₁, hp₁, h⟩ := bind_eq_ok.mp h
    obtain ⟨p₂, hp₂, h⟩ := bind_eq_ok.mp h
    obtain ⟨third, -, h⟩ := bind_eq_ok.mp h
    rw [start_eq_ok hp₁, start_eq_ok hp₂] at h
    cases h
    intro i
    cases i <;> exact ⟨rfl, le_refl _⟩
  have hidle : ReplicaRole.unknown ≠ .leader := by decide
  refine
    { roles := ⟨hepochs, hown, fun i => ⟨fun hc => absurd hc hidle, fun hc => ?_⟩,
        fun i => (hinst i).2, fun i hc => absurd hc hidle⟩
      sound := fun i => ⟨nofun, rfl, le_refl _, le_refl _, .inl rfl,
        fun hc => absurd hc hidle, fun hc => absurd hc hidle⟩
      current := fun i e hl => rfl
      fresh := fun e _ => rfl
      numbered := nofun
      logs := fun i => attributed_nil _
      leaders := fun e => attributed_nil _
      messages := nofun
      agreed := fun i ha => nomatch ha }
  exact absurd ((hinst i).1.symm.trans hc) (by decide)

/-- **Every action keeps both replicas sound.** -/
theorem sound_invariant : step.Invariant fun s : Replicas α => ∀ i, (s.replica i).Sound := by
  intro s a t h hst i
  obtain ⟨u, hu, rfl⟩ := Option.map_eq_some_iff.mp hst
  have hstep := (moves_of_move h hu).replica i
  show (u.replica i).Sound
  generalize u.replica i = y, u.agreedIn i = g, u.acknowledged i = k at hstep
  cases hstep with
  | quiet other keeps => exact (h i).quiet keeps
  | append r leads own sound => exact sound
  | write m r next message follows agreed seqNo sound => exact sound
  | reply m p told next message follows agreed askAgain tells keep sound =>
    exact sound
  | lease step sound => exact sound

/-! ## The logs match -/

/-- **Log matching.** Records of one number and one epoch are the same record, and so are all
records of a lower number that both logs hold. -/
def LogMatching (l m : List (SequencedRecord α)) : Prop :=
  ∀ r ∈ l, ∀ r' ∈ m, r.seqNo = r'.seqNo → r.epoch = r'.epoch →
    r = r' ∧ ∀ q ∈ l, ∀ q' ∈ m, q.seqNo = q'.seqNo → q.seqNo < r.seqNo → q = q'

/-- Attributed logs that are numbered without a gap match. -/
theorem logMatching_of_attributed {written : Int → List (SequencedRecord α)}
    {l m : List (SequencedRecord α)} (hl : Attributed written l) (hm : Attributed written m)
    (hnl : Numbered l) (hnm : Numbered m) : LogMatching l m := by
  intro r hr r' hr' hseq hepoch
  obtain ⟨n, hn, hget⟩ := hnl.getElem?_of_mem hr
  obtain ⟨n', hn', hget'⟩ := hnm.getElem?_of_mem hr'
  obtain rfl : n' = n := by omega
  have htake := hl.take_eq hm hget hget' hepoch
  -- At every place up to the record's, the logs hold the same.
  have hsame : ∀ k ≤ n', l[k]? = m[k]? := fun k hk => by
    rw [← getElem?_take_of_lt (show k < n' + 1 by omega), htake,
      getElem?_take_of_lt (show k < n' + 1 by omega)]
  refine ⟨Option.some.inj (hget.symm.trans ((hsame n' (le_refl _)).trans hget')), ?_⟩
  intro q hq q' hq' hqseq hlt
  obtain ⟨k, hk, hgetq⟩ := hnl.getElem?_of_mem hq
  obtain ⟨k', hk', hgetq'⟩ := hnm.getElem?_of_mem hq'
  obtain rfl : k' = k := by omega
  exact Option.some.inj (hgetq.symm.trans ((hsame k' (by omega)).trans hgetq'))

/-- **The logs of a pair.** In every run each log is numbered without a gap, its table gives the epoch
of each record it holds, and a leader's next number is its last plus one. And in every run in which
followers write only records sent in the leadership they have agreed with, the two logs match. -/
theorem logs_match (terms : LeaseTerms) (flag : PeerStatementsFlag) (began : Nat)
    (stored : Instance → Int) (thirdEpoch : Int) (hasReadingThread : Bool)
    (actions : List (ReplicasAction α)) {lease : Pair} {s : Replicas α}
    (h₀ : Pair.start terms flag began stored thirdEpoch = .ok lease)
    (hrun : step.run (start lease hasReadingThread) actions = some s) :
    (∀ i, Replica.Numbered (s.replica i).wal ∧
      (s.replica i).logEpochs.lastSeqNo = (s.replica i).wal.length ∧
      (∀ r ∈ (s.replica i).wal, (s.replica i).logEpochs.epochOf r.seqNo = .ok r.epoch) ∧
      ((s.replica i).role = .leader → (s.replica i).nextSeqNo = (s.replica i).lastSeqNo + 1)) ∧
    ((step.restrict followsOneLeadership).run (start lease hasReadingThread) actions = some s →
      LogMatching (s.replica .one).wal (s.replica .two).wal) := by
  have hstart := logsInv_start (α := α) h₀ hasReadingThread
  have hsound := sound_invariant.run hstart.sound hrun
  refine ⟨fun i => ⟨(hsound i).numbered, (hsound i).lastSeqNo_eq, fun r hr => ?_, fun hlead => ?_⟩,
    fun hfollows => ?_⟩
  · obtain ⟨n, hn, hget⟩ := (hsound i).numbered.getElem?_of_mem hr
    rw [(hsound i).table, hn]
    exact LogEpochTable.epochOf_ofEpochs (by rw [getElem?_map, hget]; rfl)
  · rw [(hsound i).leads hlead, (hsound i).lastSeqNo_eq]
  · have hinv := logsInv_invariant.run hstart hfollows
    exact logMatching_of_attributed (hinv.logs .one) (hinv.logs .two) (hinv.sound .one).numbered
      (hinv.sound .two).numbered

/-! ### Two runs -/

/-- The connection instance 1 opens. -/
def firstOpens : ConnectionId := ⟨.one, 1⟩

/-- The connection instance 2 opens. -/
def secondOpens : ConnectionId := ⟨.two, 1⟩

/-- Instance 2 becomes leader in epoch 2. -/
def secondLeads : List (ReplicasAction Nat) :=
  [.advance 10, .beginAskingToLead .two true, .sendRequest .two (.member .one),
    .deliverRequest ⟨.two, 0, .member .one, 1, 2⟩,
      .deliverGrant ⟨⟨.two, 0, .member .one, 1, 2⟩, 10⟩].map .lease

/-- Instance 1 follows it over the connection instance 2 opened. -/
def firstFollows : List (ReplicasAction Nat) :=
  [.established .two secondOpens, .established .one secondOpens, .deliver .two secondOpens,
    .deliver .one secondOpens, .deliver .one secondOpens, .readingCaughtUp .two]

/-- A run in which the follower writes what its leader sends. -/
def writesOneRecord : List (ReplicasAction Nat) :=
  secondLeads ++ firstFollows ++ [.append .two 11, .deliver .one secondOpens]

/-- There are such runs in which both logs hold a record. -/
theorem logs_match_writesOneRecord :
    ∃ s, (step.restrict followsOneLeadership).run (start startAtZero true) writesOneRecord = some s ∧
      (s.replica .one).wal = [⟨⟨2, 11⟩, 1⟩] ∧ (s.replica .two).wal = [⟨⟨2, 11⟩, 1⟩] ∧
      LogMatching (s.replica .one).wal (s.replica .two).wal := by
  obtain ⟨s, hs, ht⟩ := exists_run_of_any (step.restrict followsOneLeadership)
    (start startAtZero true) writesOneRecord
    (fun s => (s.replica .one).wal = [⟨⟨2, 11⟩, 1⟩] ∧ (s.replica .two).wal = [⟨⟨2, 11⟩, 1⟩])
    (by decide +kernel)
  exact ⟨s, hs, ht.1, ht.2, (logs_match _ _ _ _ _ _ _ start_eq_startAtZero
    (run_of_restrict hs)).2 hs⟩

/-- Instance 1 becomes leader in epoch 5, once instance 2 has stopped. -/
def firstLeads : List (ReplicasAction Nat) :=
  [.advance 20, .stopIfLeaseRanOut .two, .beginAskingToLead .one true, .sendRequest .one .third,
    .deliverRequest ⟨.one, 0, .third, 1, 5⟩, .deliverGrant ⟨⟨.one, 0, .third, 1, 5⟩, 20⟩].map .lease

/-- Instance 2 becomes leader again, in epoch 6. -/
def secondLeadsAgain : List (ReplicasAction Nat) :=
  [.advance 30, .stopIfLeaseRanOut .one, .beginAskingToLead .two true, .sendRequest .two .third,
    .deliverRequest ⟨.two, 0, .third, 2, 6⟩, .deliverGrant ⟨⟨.two, 0, .third, 2, 6⟩, 30⟩].map .lease

/-- Instance 2 sends records 1 and 2 of epoch 2 on the connection it opened, and notices that it is
lost before they arrive. Instance 1 leads and its record 1 replaces instance 2's. When instance 2
leads again and the logs agree, the record 2 sent in epoch 2 arrives at last, and follows on. -/
def lateRecord : List (ReplicasAction Nat) :=
  secondLeads ++ firstFollows ++ [.append .two 11, .append .two 12, .lost .two secondOpens] ++ firstLeads ++
    [.readingConfirms .two, .append .one 21, .established .one firstOpens, .established .two firstOpens,
      .deliver .one firstOpens, .deliver .two firstOpens, .deliver .two firstOpens,
      .deliver .one firstOpens, .deliver .one firstOpens, .readingSends .one, .readingCaughtUp .one,
      .deliver .two firstOpens, .deliver .two firstOpens, .deliver .two firstOpens] ++ secondLeadsAgain ++
    [.deliver .two firstOpens, .readingCaughtUp .two, .deliver .one firstOpens,
      .deliver .one firstOpens, .deliver .one firstOpens, .deliver .one firstOpens,
      .deliver .one secondOpens, .deliver .one secondOpens, .append .two 32, .append .two 33,
      .deliver .one firstOpens, .deliver .one firstOpens]

/-- **The logs do not match in every run**: both hold record 3 of epoch 6, and their records 2
differ. -/
theorem logs_diverge : ∃ s, step.run (start startAtZero true) lateRecord = some s ∧
      (s.replica .one).wal = [⟨⟨5, 21⟩, 1⟩, ⟨⟨2, 12⟩, 2⟩, ⟨⟨6, 33⟩, 3⟩] ∧
      (s.replica .two).wal = [⟨⟨5, 21⟩, 1⟩, ⟨⟨6, 32⟩, 2⟩, ⟨⟨6, 33⟩, 3⟩] ∧
      ¬ LogMatching (s.replica .one).wal (s.replica .two).wal := by
  obtain ⟨s, hs, ht⟩ := exists_run_of_any step (start startAtZero true) lateRecord
    (fun s => (s.replica .one).wal = [⟨⟨5, 21⟩, 1⟩, ⟨⟨2, 12⟩, 2⟩, ⟨⟨6, 33⟩, 3⟩] ∧
      (s.replica .two).wal = [⟨⟨5, 21⟩, 1⟩, ⟨⟨6, 32⟩, 2⟩, ⟨⟨6, 33⟩, 3⟩]) (by decide +kernel)
  refine ⟨s, hs, ht.1, ht.2, fun hmatch => ?_⟩
  rw [ht.1, ht.2] at hmatch
  have hlower := (hmatch ⟨⟨6, 33⟩, 3⟩ (by decide) ⟨⟨6, 33⟩, 3⟩ (by decide) rfl rfl).2
  exact absurd (hlower ⟨⟨2, 12⟩, 2⟩ (by decide) ⟨⟨6, 32⟩, 2⟩ (by decide) rfl (by decide)) (by decide)

end Replicas

end PubsubVenue
