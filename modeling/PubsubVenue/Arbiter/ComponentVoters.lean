import Mathlib.Data.List.AList
import Mathlib.Order.Basic
import PubsubVenue.Lease.Voter

/-! # The arbiter pool's votes and the statements it holds

`ComponentLeaseVoters` is the arbiter pool's vote in deciding which instance of each component pair
leads: a `LeaseVoter` for each pair, made afresh when the arbiter becomes active. What carries
across is the highest epoch granted in each pair and the newest statement its leader has made, which
the arbiter keeps in a file (`ComponentStatementStore`).

* **`recordStatement_eq_ok`**, **`learnStatement_eq_ok`**: what the two ways in which a statement
  reaches the arbiter do to the statements held.
* **`LeaderStatement.AtLeast`**: a statement or a later one, the order in which statements replace
  each other. -/

namespace PubsubVenue

open AList

/-! ## The order of statements -/

namespace LeaderStatement

/-- `held` is at least as new as `s`: `s` would not replace it. -/
def AtLeast (held s : LeaderStatement) : Prop := s.newerThan held = false
  deriving Decidable

/-- The order is that of epochs, and within an epoch that of numbers. -/
theorem atLeast_iff {held s : LeaderStatement} :
    held.AtLeast s ↔ s.epoch < held.epoch ∨ (s.epoch = held.epoch ∧ s.number ≤ held.number) := by
  unfold AtLeast newerThan
  rw [Bool.or_eq_false_iff, Bool.and_eq_false_iff, decide_eq_false_iff_not,
    decide_eq_false_iff_not, decide_eq_false_iff_not]
  omega

/-- A statement is at least as new as itself. -/
theorem AtLeast.refl (s : LeaderStatement) : s.AtLeast s :=
  atLeast_iff.mpr (.inr ⟨rfl, le_refl _⟩)

/-- What is at least as new as something newer is at least as new. -/
theorem AtLeast.trans {a b c : LeaderStatement} (h : a.AtLeast b) (h' : b.AtLeast c) : a.AtLeast c := by
  rw [atLeast_iff] at *
  omega

/-- A newer statement is at least as new. -/
theorem AtLeast.of_newerThan {a b : LeaderStatement} (h : a.newerThan b = true) : a.AtLeast b := by
  rw [atLeast_iff]
  simp only [newerThan, Bool.or_eq_true, Bool.and_eq_true, decide_eq_true_eq] at h
  omega

/-- The same statement is at least as new. -/
theorem AtLeast.of_sameAs {a b : LeaderStatement} (h : a.sameAs b = true) : a.AtLeast b := by
  rw [atLeast_iff]
  simp only [sameAs, Bool.and_eq_true, decide_eq_true_eq] at h
  omega

end LeaderStatement

/-! ## The file of statements -/

/-- The statements held, by pair: what the arbiter has in memory, and what its file holds. -/
abbrev Statements := AList fun _ : Int => LeaderStatement

namespace ComponentStatementStore

/-- Whether a line of the file can be read back. -/
def readable (pairId : Int) (s : LeaderStatement) : Bool :=
  decide (1 ≤ pairId) && decide (pairId ≤ LeaderEpoch.int32Max) &&
    (decide (s.leaderId = 1) || decide (s.leaderId = 2)) && decide (0 ≤ s.epoch) &&
    decide (s.epoch ≤ LeaderEpoch.int32Max) && decide (1 ≤ s.number)

/-- Read back every statement recorded. A line that cannot be read is skipped. -/
def load (file : Statements) : List (Int × LeaderStatement) :=
  (file.entries.map fun e => (e.1, e.2)).filter fun e => readable e.1 e.2

/-- What is read back is in the file. -/
theorem mem_load {file : Statements} {pairId : Int} {s : LeaderStatement} :
    (pairId, s) ∈ load file ↔ file.lookup pairId = some s ∧ readable pairId s = true := by
  unfold load
  rw [List.mem_filter, ← Option.mem_def, mem_lookup_iff]
  simp only [List.mem_map, Prod.mk.injEq]
  constructor
  · rintro ⟨⟨e, he, rfl, rfl⟩, hr⟩
    exact ⟨he, hr⟩
  · rintro ⟨he, hr⟩
    exact ⟨⟨_, he, rfl, rfl⟩, hr⟩

end ComponentStatementStore

/-! ## The votes -/

/-- The arbiter pool's vote on which instance of each pair leads. -/
structure ComponentLeaseVoters where
  leasePeriod : Nat
  active : Bool := false
  activeSince : Nat := 0
  /-- The voters made since then, by pair. -/
  voters : AList fun _ : Int => LeaseVoter := ∅
  /-- The highest epoch known to have been granted, by pair. -/
  highestEpochs : AList fun _ : Int => Int := ∅
  /-- The newest statement held, by pair. -/
  statements : Statements := ∅

namespace ComponentLeaseVoters

section

variable (c : ComponentLeaseVoters)

/-- This arbiter has become active. -/
def becameActive (now : Nat) : ComponentLeaseVoters :=
  { c with active := true, activeSince := now, voters := ∅ }

/-- This arbiter is no longer active. -/
def becamePassive : ComponentLeaseVoters :=
  { c with active := false, voters := ∅ }

/-- The highest epoch known to have been granted in a pair. -/
def highestEpoch (pairId : Int) : Int :=
  (c.highestEpochs.lookup pairId).getD 0

/-- The newest statement held for a pair. -/
def statement (pairId : Int) : LeaderStatement :=
  (c.statements.lookup pairId).getD {}

/-- The statement held for a pair is this one or a later one. -/
def Holds (pairId : Int) (s : LeaderStatement) : Prop :=
  (c.statement pairId).leaderId ≠ 0 ∧ (c.statement pairId).AtLeast s
  deriving Decidable

end

section

variable (c : ComponentLeaseVoters)

/-- The voter for a pair, made when first needed with the highest epoch and the statement held. -/
def voterFor (pairId : Int) : Except String (LeaseVoter × ComponentLeaseVoters) :=
  match c.voters.lookup pairId with
  | some voter => .ok (voter, c)
  | none => do
    let voter ← LeaseVoter.start c.leasePeriod c.activeSince (c.highestEpoch pairId)
    let voter := match c.statements.lookup pairId with
      | some statement => voter.restoreRecordedStatement statement
      | none => voter
    return (voter, { c with
      voters := c.voters.insert pairId voter
      highestEpochs := c.highestEpochs.insert pairId (c.highestEpoch pairId) })

/-- Record an epoch granted in a pair, by this arbiter or by the other. -/
def learnEpoch (pairId epoch : Int) : ComponentLeaseVoters :=
  let highest := if epoch > c.highestEpoch pairId then epoch else c.highestEpoch pairId
  { c with
    highestEpochs := c.highestEpochs.insert pairId highest
    voters := match c.voters.lookup pairId with
      | some voter => c.voters.insert pairId (voter.learnEpoch epoch)
      | none => c.voters }

/-- Decide a component instance's request for a lease. -/
def consider (pairId candidateId epoch : Int) (now : Nat) :
    Except String (Answer × ComponentLeaseVoters) := do
  if !c.active then
    .error "ComponentLeaseVoters: only an active arbiter answers a component's request for a lease"
  let (voter, c) ← c.voterFor pairId
  let (answer, voter) := voter.consider candidateId epoch now
  return (answer, { c with voters := c.voters.insert pairId voter }.learnEpoch pairId answer.highestEpoch)

/-- Record the statement a request carries, and give its number if it is the one now held. -/
def recordStatement (pairId : Int) (statement : LeaderStatement) :
    Except String (Int × ComponentLeaseVoters) := do
  let (voter, c) ← c.voterFor pairId
  let voter ← voter.recordStatement statement
  return (if voter.holdsStatement statement then statement.number else 0,
    { c with voters := c.voters.insert pairId voter
             statements := c.statements.insert pairId voter.recordedStatement })

/-- Take a statement read from disk or sent by the other arbiter, if it is newer than the one held. -/
def learnStatement (pairId : Int) (statement : LeaderStatement) :
    Except String (Bool × ComponentLeaseVoters) :=
  let held := c.statement pairId
  if !statement.newerThan held then
    .ok (false, { c with statements := c.statements.insert pairId held })
  else do
    let c := { c with statements := c.statements.insert pairId statement }
    match c.voters.lookup pairId with
    | some voter =>
      let voter ← voter.recordStatement statement
      return (true, { c with voters := c.voters.insert pairId voter })
    | none => return (true, c)

end

/-! ## What the operations do -/

/-- What holds of the voters: each has the statement held for its pair, and is quiet for a lease
period from when this arbiter became active. -/
structure WellFormed (c : ComponentLeaseVoters) : Prop where
  held : ∀ p v, c.voters.lookup p = some v → v.recordedStatement = c.statement p
  quiet : ∀ p v, c.voters.lookup p = some v → v.quietUntil = c.activeSince + c.leasePeriod

/-- Being active, and since when, does not change. -/
structure SameTerm (c c' : ComponentLeaseVoters) : Prop where
  leasePeriod : c'.leasePeriod = c.leasePeriod
  active : c'.active = c.active
  activeSince : c'.activeSince = c.activeSince

variable {c c' : ComponentLeaseVoters} {pairId : Int}

/-- Changes that leave the term alone compose. -/
theorem SameTerm.trans {c'' : ComponentLeaseVoters} (h : SameTerm c c') (h' : SameTerm c' c'') :
    SameTerm c c'' :=
  ⟨h'.leasePeriod.trans h.leasePeriod, h'.active.trans h.active, h'.activeSince.trans h.activeSince⟩

/-- An arbiter that becomes active has no voters yet. -/
theorem wellFormed_becameActive (c : ComponentLeaseVoters) (now : Nat) : (c.becameActive now).WellFormed :=
  ⟨fun _ _ h => by simp [becameActive] at h, fun _ _ h => by simp [becameActive] at h⟩

/-- An arbiter that becomes passive has no voters any more. -/
theorem wellFormed_becamePassive (c : ComponentLeaseVoters) : c.becamePassive.WellFormed :=
  ⟨fun _ _ h => by simp [becamePassive] at h, fun _ _ h => by simp [becamePassive] at h⟩

section

variable (h : c.WellFormed)
include h

/-- Replacing one voter, and the statement held for its pair by the voter's, keeps the voters well
formed. -/
theorem WellFormed.insert {v : LeaseVoter} {highest : AList fun _ : Int => Int} {statements : Statements}
    (hother : ∀ q, q ≠ pairId → statements.lookup q = c.statements.lookup q)
    (hheld : (statements.lookup pairId).getD {} = v.recordedStatement)
    (hquiet : v.quietUntil = c.activeSince + c.leasePeriod) :
    WellFormed { c with voters := c.voters.insert pairId v, highestEpochs := highest
                        statements := statements } := by
  constructor
  · intro q w hw
    by_cases hq : q = pairId
    · subst hq
      rw [lookup_insert] at hw
      cases hw
      exact hheld.symm
    · rw [lookup_insert_ne hq] at hw
      have hc := h.held q w hw
      unfold statement at hc ⊢
      rw [hother q hq]
      exact hc
  · intro q w hw
    by_cases hq : q = pairId
    · subst hq
      rw [lookup_insert] at hw
      cases hw
      exact hquiet
    · rw [lookup_insert_ne hq] at hw
      exact h.quiet q w hw

/-- **The voter of a pair** has the statement held, and is quiet from when this arbiter became
active. -/
theorem voterFor_eq_ok {v : LeaseVoter} (hv : c.voterFor pairId = .ok (v, c')) :
    c'.WellFormed ∧ SameTerm c c' ∧ c'.statements = c.statements ∧ v.recordedStatement = c.statement pairId ∧
      v.quietUntil = c.activeSince + c.leasePeriod := by
  unfold voterFor at hv
  cases hl : c.voters.lookup pairId with
  | some =>
    rw [hl] at hv
    cases hv
    exact ⟨h, ⟨rfl, rfl, rfl⟩, rfl, h.held _ _ hl, h.quiet _ _ hl⟩
  | none =>
    rw [hl] at hv
    obtain ⟨w, hw, hv⟩ := bind_eq_ok.mp hv
    cases LeaseVoter.start_eq_ok hw
    have hheld : v.recordedStatement = c.statement pairId ∧ v.quietUntil = c.activeSince + c.leasePeriod := by
      unfold statement
      cases hs : c.statements.lookup pairId <;> rw [hs] at hv <;> cases hv <;> exact ⟨rfl, rfl⟩
    obtain ⟨hv, hc⟩ := Prod.mk.inj (Except.ok.inj hv)
    refine ⟨?_, ?_, ?_, hheld⟩
    · rw [← hc]
      exact h.insert (fun _ _ => rfl) (hv ▸ hheld.1).symm (hv ▸ hheld.2)
    · rw [← hc]
      exact ⟨rfl, rfl, rfl⟩
    · rw [← hc]

/-- Learning an epoch keeps the voters well formed, and touches neither the term nor a statement. -/
theorem learnEpoch_spec (pairId epoch : Int) :
    (c.learnEpoch pairId epoch).WellFormed ∧ SameTerm c (c.learnEpoch pairId epoch) ∧
      (c.learnEpoch pairId epoch).statements = c.statements := by
  refine ⟨?_, ⟨rfl, rfl, rfl⟩, rfl⟩
  unfold learnEpoch
  cases hl : c.voters.lookup pairId with
  | none => exact ⟨h.held, h.quiet⟩
  | some v =>
    have hv := LeaseVoter.samePromise_learnEpoch v epoch
    have hheld : (v.learnEpoch epoch).recordedStatement = v.recordedStatement := by
      unfold LeaseVoter.learnEpoch
      split <;> rfl
    refine h.insert (fun _ _ => rfl) ?_ (hv.quietUntil.trans (h.quiet _ _ hl))
    rw [hheld]
    exact (h.held _ _ hl).symm

/-- **What deciding a request does**: only an active arbiter does it; nothing is granted in the
first lease period, and no statement changes. -/
theorem consider_eq_ok {candidateId epoch : Int} {now : Nat} {answer : Answer}
    (hc : c.consider pairId candidateId epoch now = .ok (answer, c')) :
    c'.WellFormed ∧ SameTerm c c' ∧ c'.statements = c.statements ∧ c.active = true ∧
      (answer.verdict = .granted → c.activeSince + c.leasePeriod ≤ now) := by
  unfold consider at hc
  cases ha : c.active with
  | false =>
    simp only [ha] at hc
    cases hc
  | true =>
    simp only [ha, Bool.not_true, Bool.false_eq_true, if_false] at hc
    obtain ⟨⟨v, c₁⟩, hv, hc⟩ := bind_eq_ok.mp hc
    obtain ⟨hw, hterm, hst, hheld, hquiet⟩ := voterFor_eq_ok h hv
    obtain ⟨hans, hc⟩ := Prod.mk.inj (Except.ok.inj hc)
    have hcases := v.consider_cases candidateId epoch now
    -- what the voter knows of the statement and its quiet time is the same afterwards
    have hsame : (v.consider candidateId epoch now).2.recordedStatement = v.recordedStatement ∧
        (v.consider candidateId epoch now).2.quietUntil = v.quietUntil := by
      rcases hcases with ⟨-, hv'⟩ | ⟨-, -, -, -, -, -, hv'⟩ <;> rw [hv'] <;> exact ⟨rfl, rfl⟩
    have hins : WellFormed
      { c₁ with voters := c₁.voters.insert pairId (v.consider candidateId epoch now).2 } := by
      refine hw.insert (fun _ _ => rfl) ?_ ?_
      · rw [hsame.1, hheld, hst]
        rfl
      · rw [hsame.2, hquiet, hterm.activeSince, hterm.leasePeriod]
    obtain ⟨hw', hterm', hst'⟩ := learnEpoch_spec hins pairId answer.highestEpoch
    rw [hans] at hc
    rw [← hc]
    refine ⟨hw', hterm.trans ⟨hterm'.leasePeriod, hterm'.active, hterm'.activeSince⟩,
      hst'.trans hst, rfl, fun hg => ?_⟩
    rcases hcases with ⟨hno, -⟩ | ⟨-, hle, -⟩
    · exact absurd (hans ▸ hg) hno
    · rw [← hquiet]
      exact hle

end

/-- The statement a statement leaves behind when it is recorded: the newer of the two. -/
def newest (held s : LeaderStatement) : LeaderStatement := if s.newerThan held then s else held

/-- The newer of two statements is at least as new as both. -/
theorem newest_atLeast (held s : LeaderStatement) :
    (newest held s).AtLeast held ∧ (newest held s).AtLeast s := by
  unfold newest
  split
  · rename_i hn
    exact ⟨.of_newerThan hn, .refl s⟩
  · rename_i hn
    exact ⟨.refl held, by simpa [LeaderStatement.AtLeast] using hn⟩

variable {s : LeaderStatement}

/-- A voter that records a statement holds the newer one, and the statement names a leader. -/
theorem voter_recordStatement_eq_ok {v v' : LeaseVoter} (hr : v.recordStatement s = .ok v') :
    v'.recordedStatement = newest v.recordedStatement s ∧ v'.quietUntil = v.quietUntil ∧
      1 ≤ s.leaderId ∧ s.leaderId ≤ 2 ∧ 1 ≤ s.number := by
  unfold LeaseVoter.recordStatement at hr
  unfold newest
  split at hr
  · cases hr
  · rename_i hnames
    have hnames' : 1 ≤ s.leaderId ∧ s.leaderId ≤ 2 ∧ 1 ≤ s.number := by omega
    split at hr
    · rename_i hn
      cases hr
      rw [if_pos hn]
      exact ⟨rfl, rfl, hnames'⟩
    · rename_i hn
      cases hr
      rw [if_neg hn]
      exact ⟨rfl, rfl, hnames'⟩

/-- A statement that names a leader is held. -/
theorem lookup_statements {p : Int} (h : (c.statement p).leaderId ≠ 0) :
    c.statements.lookup p = some (c.statement p) := by
  unfold statement at h ⊢
  cases hl : c.statements.lookup p with
  | none =>
    rw [hl] at h
    exact absurd rfl h
  | some => rfl

/-- The statement held for a pair whose statement was replaced. -/
theorem statement_of_insert (h : c'.statements = c.statements.insert pairId s) (q : Int) :
    c'.statement q = if q = pairId then s else c.statement q := by
  unfold statement
  rw [h]
  split
  · rename_i hq
    rw [hq, lookup_insert]
    rfl
  · rename_i hq
    rw [lookup_insert_ne hq]

/-- **What recording a statement does**: the newer of the statement and the one held is held. -/
theorem recordStatement_eq_ok (h : c.WellFormed) {held : Int}
    (hr : c.recordStatement pairId s = .ok (held, c')) : c'.WellFormed ∧ SameTerm c c' ∧
      c'.statements = c.statements.insert pairId (newest (c.statement pairId) s) ∧
      (held ≠ 0 → (newest (c.statement pairId) s).sameAs s = true) ∧
      1 ≤ s.leaderId ∧ s.leaderId ≤ 2 ∧ 1 ≤ s.number := by
  obtain ⟨⟨v, c₁⟩, hv, hr⟩ := bind_eq_ok.mp hr
  obtain ⟨v', hv', hr⟩ := bind_eq_ok.mp hr
  obtain ⟨hw, hterm, hst, hheld, hquiet⟩ := voterFor_eq_ok h hv
  obtain ⟨hnew, hquiet', hnames⟩ := voter_recordStatement_eq_ok hv'
  rw [hheld] at hnew
  obtain ⟨hnum, hc⟩ := Prod.mk.inj (Except.ok.inj hr)
  rw [← hc]
  refine ⟨?_, ⟨hterm.leasePeriod, hterm.active, hterm.activeSince⟩, ?_, fun hne => ?_, hnames⟩
  · refine hw.insert (fun q hq => lookup_insert_ne hq) ?_ ?_
    · rw [lookup_insert]
      rfl
    · rw [hquiet', hquiet, hterm.activeSince, hterm.leasePeriod]
  · dsimp only
    rw [hnew, hst]
  · -- the number is given only if the voter holds the statement
    rw [← hnew]
    by_contra hno
    have : v'.holdsStatement s = false := by simpa [LeaseVoter.holdsStatement] using hno
    rw [this] at hnum
    exact hne hnum.symm

/-- **What learning a statement does**: the newer of the statement and the one held is held, and the
caller is told whether that changed it. -/
theorem learnStatement_eq_ok (h : c.WellFormed) {learnt : Bool}
    (hl : c.learnStatement pairId s = .ok (learnt, c')) : c'.WellFormed ∧ SameTerm c c' ∧
      c'.statements = c.statements.insert pairId (newest (c.statement pairId) s) ∧
      learnt = s.newerThan (c.statement pairId) := by
  unfold learnStatement at hl
  cases hn : s.newerThan (c.statement pairId) with
  | false =>
    simp only [hn, Bool.not_false, if_true] at hl
    cases hl
    have hnew : newest (c.statement pairId) s = c.statement pairId := by simp [newest, hn]
    rw [hnew]
    refine ⟨⟨fun q v hv => ?_, h.quiet⟩, ⟨rfl, rfl, rfl⟩, rfl, rfl⟩
    have hheld := h.held q v hv
    rw [statement_of_insert rfl]
    split
    · rename_i hq
      rw [hheld, hq]
    · exact hheld
  | true =>
    simp only [hn, Bool.not_true, Bool.false_eq_true, if_false] at hl
    have hnew : newest (c.statement pairId) s = s := by simp [newest, hn]
    rw [hnew]
    cases hv : c.voters.lookup pairId with
    | none =>
      rw [hv] at hl
      cases hl
      refine ⟨⟨fun q v hq => ?_, h.quiet⟩, ⟨rfl, rfl, rfl⟩, rfl, rfl⟩
      have hne : q ≠ pairId := by
        rintro rfl
        rw [hv] at hq
        cases hq
      rw [statement_of_insert rfl, if_neg hne]
      exact h.held q v hq
    | some =>
      rw [hv] at hl
      obtain ⟨v', hv', hl⟩ := bind_eq_ok.mp hl
      cases hl
      obtain ⟨hrec, hquiet, -⟩ := voter_recordStatement_eq_ok hv'
      rw [h.held _ _ hv, hnew] at hrec
      refine ⟨h.insert (fun q hq => lookup_insert_ne hq) ?_ (hquiet.trans (h.quiet _ _ hv)),
        ⟨rfl, rfl, rfl⟩, rfl, rfl⟩
      rw [lookup_insert, hrec]
      rfl

end ComponentLeaseVoters

end PubsubVenue
