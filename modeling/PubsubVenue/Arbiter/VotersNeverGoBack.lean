import PubsubVenue.Arbiter.ComponentVoters
import PubsubVenue.Machine

/-! # The pool's voters over whole runs

What the arbiter pool knows of a pair is kept twice: in maps that survive a change of role, and in
the voter of the pair, made afresh when the arbiter becomes active. This module follows both through
any sequence of operations, whether each returns or throws.

* **`InStep`**: each voter has the highest epoch and the statement held for its pair.
* **`Advances`**: no pair's highest epoch falls and no pair's statement is replaced by an older one.
* **`VotingHistory.apart`**: two instances of a pair are granted votes only a lease period apart,
  also across a change of role.

A statement that names no leader reaches the map before the voter refuses it
(`afterLearnStatement`), and a vote granted to instance zero is not seen to be promised. The results
are for runs without either. -/

namespace PubsubVenue

open AList ComponentLeaseVoters LeaseVoter

namespace ComponentLeaseVoters

/-! ## What an operation leaves, also when it throws -/

section

variable (c : ComponentLeaseVoters) (pairId : Int)

/-- The entry for a pair that has none is made before a voter can throw. -/
def noteEpochEntry : ComponentLeaseVoters :=
  { c with highestEpochs := c.highestEpochs.insert pairId (c.highestEpoch pairId) }

/-- What `voter_for` leaves. -/
def afterVoterFor : ComponentLeaseVoters :=
  match c.voterFor pairId with
  | .ok (_, c') => c'
  | .error _ => c.noteEpochEntry pairId

/-- What `consider` leaves. -/
def afterConsider (pairId candidateId epoch : Int) (now : Nat) :
    ComponentLeaseVoters :=
  match c.consider pairId candidateId epoch now with
  | .ok (_, c') => c'
  | .error _ => if c.active then c.afterVoterFor pairId else c

/-- What `record_statement` leaves: the voter may have been made before it refuses the statement. -/
def afterRecordStatement (statement : LeaderStatement) :
    ComponentLeaseVoters :=
  match c.recordStatement pairId statement with
  | .ok (_, c') => c'
  | .error _ => c.afterVoterFor pairId

/-- What `learn_statement` leaves: the statement is in the map before the voter can refuse it. -/
def afterLearnStatement (statement : LeaderStatement) :
    ComponentLeaseVoters :=
  match c.learnStatement pairId statement with
  | .ok (_, c') => c'
  | .error _ => { c with statements := c.statements.insert pairId statement }

/-- Whether a request for a lease is granted. -/
def grantsVote (pairId candidateId epoch : Int) (now : Nat) : Bool :=
  match c.consider pairId candidateId epoch now with
  | .ok (answer, _) => decide (answer.verdict = .granted)
  | .error _ => false

end

/-! ## Two copies in step -/

/-- Each voter knows what the maps know of its pair, and waits and promises by the pool's lease
period. -/
structure InStep (c : ComponentLeaseVoters) : Prop extends c.WellFormed where
  highest : ∀ p v, c.voters.lookup p = some v → v.highestEpoch = c.highestEpoch p
  period : ∀ p v, c.voters.lookup p = some v → v.leasePeriod = c.leasePeriod

/-- No pair's highest epoch falls and no pair's statement is replaced by an older one. -/
structure Advances (c c' : ComponentLeaseVoters) : Prop where
  highest : ∀ p, c.highestEpoch p ≤ c'.highestEpoch p
  statement : ∀ p, (c'.statement p).AtLeast (c.statement p)

/-- The term goes on, and so does each voter's promise. -/
structure KeepsPromises (c c' : ComponentLeaseVoters) : Prop extends SameTerm c c' where
  promise : ∀ p v, c.voters.lookup p = some v → ∃ v', c'.voters.lookup p = some v' ∧
    v'.promisedTo = v.promisedTo ∧ v'.promiseExpires = v.promiseExpires

variable {c c' c'' : ComponentLeaseVoters} {pairId : Int}

/-- Nothing changes. -/
theorem Advances.refl (c : ComponentLeaseVoters) : Advances c c :=
  ⟨fun _ => le_refl _, fun _ => .refl _⟩

/-- Advances compose. -/
theorem Advances.trans (h : Advances c c') (h' : Advances c' c'') : Advances c c'' :=
  ⟨fun p => (h.highest p).trans (h'.highest p), fun p => (h'.statement p).trans (h.statement p)⟩

/-- Nothing changes. -/
theorem KeepsPromises.refl (c : ComponentLeaseVoters) : KeepsPromises c c :=
  ⟨⟨rfl, rfl, rfl⟩, fun _ v hv => ⟨v, hv, rfl, rfl⟩⟩

/-- Promises that go on compose. -/
theorem KeepsPromises.trans (h : KeepsPromises c c') (h' : KeepsPromises c' c'') : KeepsPromises c c'' := by
  refine ⟨h.toSameTerm.trans h'.toSameTerm, fun p v hv => ?_⟩
  obtain ⟨v', hv', hto, hexp⟩ := h.promise p v hv
  obtain ⟨v'', hv'', hto', hexp'⟩ := h'.promise p v' hv'
  exact ⟨v'', hv'', hto'.trans hto, hexp'.trans hexp⟩

/-- The highest epoch of a pair whose entry was replaced. -/
theorem highestEpoch_of_insert {e : Int} (h : c'.highestEpochs = c.highestEpochs.insert pairId e) (q : Int) :
    c'.highestEpoch q = if q = pairId then e else c.highestEpoch q := by
  unfold highestEpoch
  rw [h]
  split
  · rename_i hq
    rw [hq, lookup_insert]
    rfl
  · rename_i hq
    rw [lookup_insert_ne hq]

/-- Making an entry for a pair changes no pair's highest epoch. -/
theorem highestEpoch_of_insert_self
    (h : c'.highestEpochs = c.highestEpochs.insert pairId (c.highestEpoch pairId)) (q : Int) :
    c'.highestEpoch q = c.highestEpoch q := by
  rw [highestEpoch_of_insert h]
  split
  · rename_i hq
    rw [hq]
  · rfl

variable {v : LeaseVoter} {highest : AList fun _ : Int => Int} {statements : Statements}

/-- **Replacing one voter** and what the maps know of its pair, both at once, keeps them in step. -/
theorem InStep.insert (h : c.InStep) (hothers : ∀ q, q ≠ pairId → statements.lookup q = c.statements.lookup q)
    (hheld : (statements.lookup pairId).getD {} = v.recordedStatement)
    (hepochs : ∀ q, q ≠ pairId → highest.lookup q = c.highestEpochs.lookup q)
    (hhighest : (highest.lookup pairId).getD 0 = v.highestEpoch)
    (hquiet : v.quietUntil = c.activeSince + c.leasePeriod) (hperiod : v.leasePeriod = c.leasePeriod) :
    InStep { c with voters := c.voters.insert pairId v, highestEpochs := highest
                    statements := statements } := by
  refine ⟨h.toWellFormed.insert hothers hheld hquiet, fun q w hw => ?_, fun q w hw => ?_⟩
  · by_cases hq : q = pairId
    · subst hq
      rw [lookup_insert] at hw
      cases hw
      exact hhighest.symm
    · rw [lookup_insert_ne hq] at hw
      have hc := h.highest q w hw
      unfold highestEpoch at hc ⊢
      rw [hepochs q hq]
      exact hc
  · by_cases hq : q = pairId
    · subst hq
      rw [lookup_insert] at hw
      cases hw
      exact hperiod
    · rw [lookup_insert_ne hq] at hw
      exact h.period q w hw

/-- Replacing one voter by one with the same promise keeps every promise. -/
theorem keepsPromises_insert (h : ∀ w, c.voters.lookup pairId = some w →
      v.promisedTo = w.promisedTo ∧ v.promiseExpires = w.promiseExpires) :
    KeepsPromises c { c with voters := c.voters.insert pairId v, highestEpochs := highest
                             statements := statements } := by
  refine ⟨⟨rfl, rfl, rfl⟩, fun q w hw => ?_⟩
  by_cases hq : q = pairId
  · subst hq
    exact ⟨v, lookup_insert _, h w hw⟩
  · exact ⟨w, (lookup_insert_ne hq).trans hw, rfl, rfl⟩

/-! ## What each operation does -/

/-- A step that breaks nothing: the copies are in step after it, nothing goes back and every promise
goes on. -/
structure Steady (c c' : ComponentLeaseVoters) : Prop where
  inStep : c'.InStep
  advances : Advances c c'
  keeps : KeepsPromises c c'

/-- Doing nothing breaks nothing. -/
theorem Steady.refl (h : c.InStep) : Steady c c := ⟨h, .refl c, .refl c⟩

/-- Steps that break nothing compose. -/
theorem Steady.trans (h : Steady c c') (h' : Steady c' c'') : Steady c c'' :=
  ⟨h'.inStep, h.advances.trans h'.advances, h.keeps.trans h'.keeps⟩

/-- **The voter of a pair** is made with what the maps know, if there is none yet. -/
theorem voterFor_steady (h : c.InStep) (hv : c.voterFor pairId = .ok (v, c')) :
    Steady c c' ∧ c'.voters.lookup pairId = some v ∧ c'.statements = c.statements ∧
      ∀ q, c'.highestEpoch q = c.highestEpoch q := by
  obtain ⟨-, -, hst, hheld, hquiet⟩ := voterFor_eq_ok h.toWellFormed hv
  unfold voterFor at hv
  cases hl : c.voters.lookup pairId with
  | some =>
    rw [hl] at hv
    cases hv
    exact ⟨.refl h, hl, rfl, fun _ => rfl⟩
  | none =>
    rw [hl] at hv
    obtain ⟨w, hw, hv⟩ := bind_eq_ok.mp hv
    cases start_eq_ok hw
    obtain ⟨hv, hc⟩ := Prod.mk.inj (Except.ok.inj hv)
    rw [hv] at hc
    -- restoring the statement changes neither the epoch nor the lease period
    have hfresh : v.highestEpoch = c.highestEpoch pairId ∧ v.leasePeriod = c.leasePeriod := by
      rw [← hv]
      cases c.statements.lookup pairId <;> exact ⟨rfl, rfl⟩
    have hsame : ∀ q, c'.highestEpoch q = c.highestEpoch q := by
      rw [← hc]
      exact highestEpoch_of_insert_self rfl
    refine ⟨⟨?_, ⟨fun q => (hsame q).ge, fun q => ?_⟩, ?_⟩, ?_, hst, hsame⟩
    · rw [← hc]
      refine h.insert (fun _ _ => rfl) hheld.symm (fun q hq => lookup_insert_ne hq) ?_ hquiet hfresh.2
      rw [lookup_insert]
      exact hfresh.1.symm
    · unfold statement
      rw [hst]
      exact .refl _
    · rw [← hc]
      refine keepsPromises_insert fun w hw => ?_
      rw [hl] at hw
      cases hw
    · rw [← hc]
      exact lookup_insert _

/-- Making an entry for a pair breaks nothing. -/
theorem noteEpochEntry_steady (h : c.InStep) (pairId : Int) : Steady c (c.noteEpochEntry pairId) := by
  have hsame : ∀ q, (c.noteEpochEntry pairId).highestEpoch q = c.highestEpoch q :=
    highestEpoch_of_insert_self rfl
  refine ⟨⟨⟨h.held, h.quiet⟩, fun q v hv => ?_, h.period⟩, ⟨fun q => (hsame q).ge, fun q => .refl _⟩,
    ⟨⟨rfl, rfl, rfl⟩, fun q v hv => ⟨v, hv, rfl, rfl⟩⟩⟩
  rw [hsame]
  exact h.highest q v hv

/-- Asking for a voter breaks nothing, also when it cannot be made. -/
theorem afterVoterFor_steady (h : c.InStep) (pairId : Int) : Steady c (c.afterVoterFor pairId) := by
  unfold afterVoterFor
  cases hv : c.voterFor pairId with
  | error => exact noteEpochEntry_steady h pairId
  | ok => exact (voterFor_steady h hv).1

/-- Learning an epoch raises it in the map and in the voter alike. -/
theorem learnEpoch_steady (h : c.InStep) (pairId epoch : Int) : Steady c (c.learnEpoch pairId epoch) ∧
      (c.learnEpoch pairId epoch).highestEpoch pairId = max (c.highestEpoch pairId) epoch := by
  have hhighest : ∀ q, (c.learnEpoch pairId epoch).highestEpoch q =
      if q = pairId then max (c.highestEpoch pairId) epoch else c.highestEpoch q := by
    intro q
    rw [highestEpoch_of_insert rfl]
    congr 1
    rw [max_def]
    split <;> split <;> omega
  refine ⟨⟨?_, ⟨fun q => ?_, fun q => .refl _⟩, ?_⟩, by rw [hhighest, if_pos rfl]⟩
  · unfold learnEpoch
    cases hl : c.voters.lookup pairId with
    | none =>
      refine ⟨⟨h.held, h.quiet⟩, fun q v hv => ?_, h.period⟩
      have hne : q ≠ pairId := by
        rintro rfl
        rw [hl] at hv
        cases hv
      rw [highestEpoch_of_insert rfl, if_neg hne]
      exact h.highest q v hv
    | some v =>
      have hheld : (v.learnEpoch epoch).recordedStatement = v.recordedStatement := by
        unfold LeaseVoter.learnEpoch
        split <;> rfl
      have hp := samePromise_learnEpoch v epoch
      refine h.insert (fun _ _ => rfl) (hheld ▸ (h.held _ _ hl).symm)
        (fun q hq => lookup_insert_ne hq) ?_ (hp.quietUntil.trans (h.quiet _ _ hl))
        (hp.leasePeriod.trans (h.period _ _ hl))
      rw [lookup_insert, ← h.highest _ _ hl]
      unfold LeaseVoter.learnEpoch
      split <;> rfl
  · rw [hhighest]
    split
    · rename_i hq
      rw [hq]
      exact le_max_left _ _
    · exact le_refl _
  · unfold learnEpoch
    cases hl : c.voters.lookup pairId with
    | none => exact ⟨⟨rfl, rfl, rfl⟩, fun q v hv => ⟨v, hv, rfl, rfl⟩⟩
    | some v =>
      have hp := samePromise_learnEpoch v epoch
      refine keepsPromises_insert fun w hw => ?_
      obtain rfl := Option.some.inj (hl.symm.trans hw)
      exact ⟨hp.promisedTo, hp.promiseExpires⟩

/-- A statement that a voter takes. -/
def names (s : LeaderStatement) : Bool :=
  decide (1 ≤ s.leaderId) && decide (s.leaderId ≤ 2) && decide (1 ≤ s.number)

variable {s : LeaderStatement}

/-- A voter throws at a statement that names no leader, and only then. -/
theorem names_of_recordStatement {e : String} (h : v.recordStatement s = .error e) : names s = false := by
  unfold LeaseVoter.recordStatement at h
  split at h
  · rename_i hbad
    unfold names
    rw [Bool.and_eq_false_iff, Bool.and_eq_false_iff, decide_eq_false_iff_not,
      decide_eq_false_iff_not, decide_eq_false_iff_not]
    omega
  · split at h <;> cases h

/-- Recording a statement leaves the highest epoch alone. -/
theorem highestEpoch_recordStatement {v' : LeaseVoter} (h : v.recordStatement s = .ok v') :
    v'.highestEpoch = v.highestEpoch := by
  unfold LeaseVoter.recordStatement at h
  split at h
  · cases h
  · split at h <;> cases h <;> rfl

/-- Putting the newer of a statement and the one held in the map takes nothing back. -/
theorem advances_of_newest (hepochs : ∀ q, c'.highestEpoch q = c.highestEpoch q)
    (h : c'.statements = c.statements.insert pairId (newest (c.statement pairId) s)) :
    Advances c c' := by
  refine ⟨fun q => (hepochs q).ge, fun q => ?_⟩
  rw [statement_of_insert h]
  split
  · rename_i hq
    rw [hq]
    exact (newest_atLeast _ _).1
  · exact .refl _

/-- Recording a statement breaks nothing, also when the voter refuses it. -/
theorem afterRecordStatement_steady (h : c.InStep) (pairId : Int) (s : LeaderStatement) :
    Steady c (c.afterRecordStatement pairId s) := by
  unfold afterRecordStatement
  cases hr : c.recordStatement pairId s with
  | error => exact afterVoterFor_steady h pairId
  | ok r =>
    obtain ⟨held, c₂⟩ := r
    obtain ⟨-, -, hst, -⟩ := recordStatement_eq_ok h.toWellFormed hr
    obtain ⟨⟨v, c₁⟩, hv, hr⟩ := bind_eq_ok.mp hr
    obtain ⟨v', hv', hr⟩ := bind_eq_ok.mp hr
    obtain ⟨hsteady, hlookup, hsame, hepochs⟩ := voterFor_steady h hv
    obtain ⟨-, hc⟩ := Prod.mk.inj (Except.ok.inj hr)
    have hp := samePromise_recordStatement hv'
    have hin := hsteady.inStep
    refine ⟨?_, advances_of_newest (fun q => ?_) hst, hsteady.keeps.trans ?_⟩
    · rw [← hc]
      refine hin.insert (fun q hq => lookup_insert_ne hq) ?_ (fun _ _ => rfl) ?_
        (hp.quietUntil.trans (hin.quiet _ _ hlookup)) (hp.leasePeriod.trans (hin.period _ _ hlookup))
      · rw [lookup_insert]
        rfl
      · exact ((highestEpoch_recordStatement hv').trans (hin.highest _ _ hlookup)).symm
    · rw [← hc]
      exact hepochs q
    · rw [← hc]
      refine keepsPromises_insert fun w hw => ?_
      obtain rfl := Option.some.inj (hlookup.symm.trans hw)
      exact ⟨hp.promisedTo, hp.promiseExpires⟩

/-- Where learning a statement cannot leave the copies out of step: there is no voter to refuse it,
or it is not newer, or it names a leader. -/
def takesStatement (c : ComponentLeaseVoters) (pairId : Int) (s : LeaderStatement) : Bool :=
  (c.voters.lookup pairId).isNone || !s.newerThan (c.statement pairId) || names s

/-- Learning a statement breaks nothing where no voter can refuse it. -/
theorem afterLearnStatement_steady (h : c.InStep) (ht : c.takesStatement pairId s = true) :
    Steady c (c.afterLearnStatement pairId s) := by
  unfold afterLearnStatement
  cases hl : c.learnStatement pairId s with
  | ok r =>
    obtain ⟨learnt, c₁⟩ := r
    obtain ⟨hw, -, hst, -⟩ := learnStatement_eq_ok h.toWellFormed hl
    simp only [learnStatement] at hl
    split at hl
    · cases hl
      exact ⟨⟨hw, h.highest, h.period⟩, advances_of_newest (fun _ => rfl) hst,
        ⟨⟨rfl, rfl, rfl⟩, fun _ v hv => ⟨v, hv, rfl, rfl⟩⟩⟩
    · split at hl
      · rename_i hv
        obtain ⟨v', hv', hl⟩ := bind_eq_ok.mp hl
        cases hl
        have hp := samePromise_recordStatement hv'
        refine ⟨h.insert (fun q hq => lookup_insert_ne hq)
          (hw.held pairId v' (lookup_insert _)).symm (fun _ _ => rfl) ?_
          (hp.quietUntil.trans (h.quiet _ _ hv)) (hp.leasePeriod.trans (h.period _ _ hv)),
          advances_of_newest (fun _ => rfl) hst, keepsPromises_insert fun w hw => ?_⟩
        · exact ((highestEpoch_recordStatement hv').trans (h.highest _ _ hv)).symm
        · obtain rfl := Option.some.inj (hv.symm.trans hw)
          exact ⟨hp.promisedTo, hp.promiseExpires⟩
      · cases hl
        exact ⟨⟨hw, h.highest, h.period⟩, advances_of_newest (fun _ => rfl) hst,
          ⟨⟨rfl, rfl, rfl⟩, fun _ v hv => ⟨v, hv, rfl, rfl⟩⟩⟩
  | error =>
    -- only a voter throws, at a newer statement that names no leader
    exfalso
    simp only [learnStatement] at hl
    split at hl
    · cases hl
    · rename_i hn
      split at hl
      · rename_i v hv
        cases hv' : v.recordStatement s with
        | ok =>
          simp only [hv'] at hl
          cases hl
        | error =>
          have hno := names_of_recordStatement hv'
          simp_all [takesStatement]
      · cases hl

/-- What a vote may be granted for, by what is held before the request. -/
structure MayGrant (c : ComponentLeaseVoters) (pairId candidateId epoch : Int) (now : Nat) : Prop where
  active : c.active = true
  quiet : c.activeSince + c.leasePeriod ≤ now
  epoch : c.highestEpoch pairId ≤ epoch
  statement : (c.statement pairId).instanceThatMayNotLead ≠ candidateId

/-- What granting a vote does: the promise of the pair is to the asker, for a lease period from now,
and no other promise changes. -/
structure Granted (c c' : ComponentLeaseVoters) (pairId candidateId : Int) (now : Nat) : Prop
    extends SameTerm c c' where
  inStep : c'.InStep
  advances : Advances c c'
  free : ∀ v, c.voters.lookup pairId = some v → v.promiseLive now → v.promisedTo = candidateId
  promise : ∃ v', c'.voters.lookup pairId = some v' ∧ v'.promisedTo = candidateId ∧
    v'.promiseExpires = now + c.leasePeriod
  others : ∀ q v, q ≠ pairId → c.voters.lookup q = some v → ∃ v', c'.voters.lookup q = some v' ∧
    v'.promisedTo = v.promisedTo ∧ v'.promiseExpires = v.promiseExpires

/-- Putting back a voter that has not changed changes nothing that is held. -/
theorem steady_insert_self (h : c.InStep) (hv : c.voters.lookup pairId = some v) :
    Steady c { c with voters := c.voters.insert pairId v } := by
  refine ⟨h.insert (fun _ _ => rfl) (h.held _ _ hv).symm (fun _ _ => rfl) (h.highest _ _ hv).symm
    (h.quiet _ _ hv) (h.period _ _ hv), ⟨fun _ => le_refl _, fun _ => .refl _⟩,
      keepsPromises_insert fun w hw => ?_⟩
  obtain rfl := Option.some.inj (hv.symm.trans hw)
  exact ⟨rfl, rfl⟩

/-- A voter that grants a vote, and the map that learns its epoch, end in step. -/
theorem granted_learnEpoch (h : c.InStep) {v' : LeaseVoter} (hv : c.voters.lookup pairId = some v)
    {candidateId epoch : Int} {now : Nat} (hle : v.highestEpoch ≤ epoch)
    (hfree : v.promiseLive now → v.promisedTo = candidateId)
    (hv' : v' = { v with promisedTo := candidateId, promiseExpires := now + v.leasePeriod,
                         highestEpoch := epoch }) :
    Granted c ({ c with voters := c.voters.insert pairId v' }.learnEpoch pairId epoch)
      pairId candidateId now := by
  -- the voter knows the epoch already, so that it stays as it is
  have hsame : v'.learnEpoch epoch = v' := by
    unfold LeaseVoter.learnEpoch
    rw [if_neg (by rw [hv']; exact lt_irrefl _)]
  have hhighest : (if epoch > c.highestEpoch pairId then epoch else c.highestEpoch pairId) = epoch := by
    have := h.highest _ _ hv
    split <;> omega
  have hafter : { c with voters := c.voters.insert pairId v' }.learnEpoch pairId epoch =
      { c with voters := c.voters.insert pairId v'
               highestEpochs := c.highestEpochs.insert pairId epoch } := by
    unfold learnEpoch
    simp only [lookup_insert, hsame, insert_insert]
    rw [show ({ c with voters := c.voters.insert pairId v' } : ComponentLeaseVoters).highestEpoch
      pairId = c.highestEpoch pairId from rfl, hhighest]
  rw [hafter]
  refine ⟨⟨rfl, rfl, rfl⟩, ?_, ⟨fun q => ?_, fun q => .refl _⟩, fun w hw => ?_, ?_, fun q w hq hw => ?_⟩
  · refine h.insert (fun _ _ => rfl) ?_ (fun q hq => lookup_insert_ne hq) ?_ ?_ ?_
    · rw [hv']
      exact (h.held _ _ hv).symm
    · rw [lookup_insert, hv']
      rfl
    · rw [hv']
      exact h.quiet pairId v hv
    · rw [hv']
      exact h.period pairId v hv
  · refine le_of_le_of_eq ?_ (highestEpoch_of_insert (c := c) rfl q).symm
    split
    · rename_i hq
      rw [hq, ← h.highest _ _ hv]
      exact hle
    · exact le_refl _
  · obtain rfl := Option.some.inj (hv.symm.trans hw)
    exact hfree
  · refine ⟨v', lookup_insert _, ?_, ?_⟩
    · rw [hv']
    · rw [hv', h.period _ _ hv]
  · exact ⟨w, (lookup_insert_ne hq).trans hw, rfl, rfl⟩

/-- A vote granted after a step that breaks nothing. -/
theorem Granted.after {candidateId : Int} {now : Nat} (h : Granted c' c'' pairId candidateId now)
    (hs : Steady c c') : Granted c c'' pairId candidateId now := by
  refine ⟨hs.keeps.toSameTerm.trans h.toSameTerm, h.inStep, hs.advances.trans h.advances,
    fun v hv hlive => ?_, ?_, fun q v hq hv => ?_⟩
  · obtain ⟨w, hw, hto, hexp⟩ := hs.keeps.promise _ v hv
    rw [← hto]
    refine h.free w hw ?_
    unfold promiseLive at hlive ⊢
    rw [hto, hexp]
    exact hlive
  · rw [← hs.keeps.leasePeriod]
    exact h.promise
  · obtain ⟨w, hw, hto, hexp⟩ := hs.keeps.promise _ v hv
    obtain ⟨w', hw', hto', hexp'⟩ := h.others q w hq hw
    exact ⟨w', hw', hto'.trans hto, hexp'.trans hexp⟩

/-- **What deciding a request does**: it is granted for good reason and the vote promised, or
nothing is broken. -/
theorem afterConsider_cases (h : c.InStep) (pairId candidateId epoch : Int) (now : Nat) :
    (c.grantsVote pairId candidateId epoch now = false ∧
      Steady c (c.afterConsider pairId candidateId epoch now)) ∨
    (c.grantsVote pairId candidateId epoch now = true ∧ c.MayGrant pairId candidateId epoch now ∧
      Granted c (c.afterConsider pairId candidateId epoch now) pairId candidateId now) := by
  unfold grantsVote afterConsider
  cases hc : c.consider pairId candidateId epoch now with
  | error =>
    refine .inl ⟨rfl, ?_⟩
    dsimp only
    split
    · exact afterVoterFor_steady h pairId
    · exact .refl h
  | ok r =>
    obtain ⟨answer, c₂⟩ := r
    obtain ⟨-, -, -, hactive, hquiet⟩ := consider_eq_ok h.toWellFormed hc
    unfold consider at hc
    simp only [hactive, Bool.not_true, Bool.false_eq_true, if_false] at hc
    obtain ⟨⟨v, c₁⟩, hv, hc⟩ := bind_eq_ok.mp hc
    obtain ⟨hsteady, hlookup, hst, hepochs⟩ := voterFor_steady h hv
    obtain ⟨hans, hc⟩ := Prod.mk.inj (Except.ok.inj hc)
    have hin := hsteady.inStep
    rcases v.consider_cases candidateId epoch now with
      ⟨hno, hv'⟩ | ⟨hyes, -, -, hfree, hle, hmay, hv'⟩
    · -- refused: the voter and the epoch it answers with are as they were
      left
      rw [hans] at hno
      refine ⟨decide_eq_false hno, hsteady.trans ?_⟩
      rw [← hc, hv']
      have hself := steady_insert_self hin hlookup
      exact hself.trans (learnEpoch_steady hself.inStep _ _).1
    · right
      rw [hyes] at hans hc
      rw [← hans] at hquiet ⊢
      refine ⟨rfl, ⟨hactive, hquiet rfl, ?_, ?_⟩, ?_⟩
      · rw [← hepochs, ← hin.highest _ _ hlookup]
        exact hle
      · have hheld : v.recordedStatement = c.statement pairId := by
          rw [hin.held _ _ hlookup]
          unfold statement
          rw [hst]
        rw [← hheld]
        simpa [mayLead] using hmay
      · rw [← hc]
        exact (granted_learnEpoch hin hlookup hle hfree hv').after hsteady

end ComponentLeaseVoters

/-! ## Runs -/

/-- An operation on the pool's voters. -/
inductive VotersOperation where
  | becameActive (now : Nat)
  | becamePassive
  | consider (pairId candidateId epoch : Int) (now : Nat)
  | learnEpoch (pairId epoch : Int)
  | recordStatement (pairId : Int) (statement : LeaderStatement)
  | learnStatement (pairId : Int) (statement : LeaderStatement)

/-- A vote granted. -/
structure VoteGranted where
  pairId : Int
  candidateId : Int
  at_ : Nat
  deriving DecidableEq

/-- Two votes are of different pairs, or to the same instance, or a lease period apart. The second
is the earlier one. -/
def VoteGranted.Apart (leasePeriod : Nat) (later earlier : VoteGranted) : Prop :=
  earlier.pairId = later.pairId → earlier.candidateId ≠ later.candidateId →
    earlier.at_ + leasePeriod ≤ later.at_
  deriving Decidable

/-- The voters, the time of the last operation that had one, and the votes granted, last first. -/
structure VotingHistory where
  voters : ComponentLeaseVoters
  /-- The steady clock when it was last read. -/
  clock : Nat := 0
  grants : List VoteGranted := []

namespace VotingHistory

/-- The voters as the arbiter makes them. -/
def start (leasePeriod : Nat) : VotingHistory := { voters := { leasePeriod } }

/-- One operation, returning or throwing. The steady clock does not go back. -/
def step : Machine VotingHistory VotersOperation := fun s op =>
  match op with
  | .becameActive now =>
    if s.clock ≤ now then some { s with voters := s.voters.becameActive now, clock := now } else none
  | .becamePassive => some { s with voters := s.voters.becamePassive }
  | .consider pairId candidateId epoch now =>
    if s.clock ≤ now then
      some { voters := s.voters.afterConsider pairId candidateId epoch now
             clock := now
             grants := if s.voters.grantsVote pairId candidateId epoch now then
               ⟨pairId, candidateId, now⟩ :: s.grants else s.grants }
    else none
  | .learnEpoch pairId epoch => some { s with voters := s.voters.learnEpoch pairId epoch }
  | .recordStatement pairId statement =>
    some { s with voters := s.voters.afterRecordStatement pairId statement }
  | .learnStatement pairId statement =>
    some { s with voters := s.voters.afterLearnStatement pairId statement }

/-- An operation that asks for an instance, not for nobody, and tells a voter of no newer statement
that names no leader. -/
def Meets (s : VotingHistory) : VotersOperation → Prop
  | .consider _ candidateId _ _ => candidateId ≠ 0
  | .learnStatement pairId statement => s.voters.takesStatement pairId statement = true
  | _ => True

instance (s : VotingHistory) (op : VotersOperation) : Decidable (s.Meets op) := by
  unfold Meets
  split <;> infer_instance

/-- Why no vote can yet be granted to another instance than a vote was: the arbiter is passive, or
became active since, or the vote is still promised; or a lease period has passed. -/
def Guarded (s : VotingHistory) (g : VoteGranted) : Prop :=
  s.voters.active = false ∨ g.at_ ≤ s.voters.activeSince ∨
    (∃ v, s.voters.voters.lookup g.pairId = some v ∧ v.promisedTo = g.candidateId ∧
      g.at_ + s.voters.leasePeriod ≤ v.promiseExpires) ∨ g.at_ + s.voters.leasePeriod ≤ s.clock

/-- What holds in every state a run reaches. -/
structure Sound (leasePeriod : Nat) (s : VotingHistory) : Prop where
  period : s.voters.leasePeriod = leasePeriod
  inStep : s.voters.InStep
  instances : ∀ g ∈ s.grants, g.candidateId ≠ 0
  past : ∀ g ∈ s.grants, g.at_ ≤ s.clock
  guarded : ∀ g ∈ s.grants, s.Guarded g
  apart : s.grants.Pairwise (VoteGranted.Apart leasePeriod)

variable {leasePeriod : Nat} {s s' : VotingHistory}

/-- The voters start out sound. -/
theorem sound_start (leasePeriod : Nat) : (start leasePeriod).Sound leasePeriod where
  period := rfl
  inStep := ⟨⟨fun _ _ h => by simp [start] at h, fun _ _ h => by simp [start] at h⟩,
    fun _ _ h => by simp [start] at h, fun _ _ h => by simp [start] at h⟩
  instances := fun _ h => by simp [start] at h
  past := fun _ h => by simp [start] at h
  guarded := fun _ h => by simp [start] at h
  apart := List.Pairwise.nil

variable {c : ComponentLeaseVoters} {now : Nat}

/-- A step that breaks nothing leaves each vote guarded. -/
theorem Guarded.steady {g : VoteGranted} (h : s.Guarded g) (hc : s.voters.KeepsPromises c)
    (hnow : s.clock ≤ now) (grants : List VoteGranted) :
    Guarded { voters := c, clock := now, grants := grants } g := by
  rcases h with hp | ha | ⟨v, hv, hto, hexp⟩ | hpast
  · exact .inl (hc.active.trans hp)
  · exact .inr (.inl (hc.activeSince ▸ ha))
  · obtain ⟨v', hv', hto', hexp'⟩ := hc.promise _ v hv
    refine .inr (.inr (.inl ⟨v', hv', hto'.trans hto, ?_⟩))
    rw [hexp']
    exact hc.leasePeriod ▸ hexp
  · refine .inr (.inr (.inr ?_))
    rw [show (⟨c, now, grants⟩ : VotingHistory).voters.leasePeriod = _ from hc.leasePeriod]
    exact hpast.trans hnow

/-- A step that breaks nothing keeps the voters sound. -/
theorem Sound.steady (h : s.Sound leasePeriod) (hc : s.voters.Steady c) (hnow : s.clock ≤ now) :
    Sound leasePeriod { voters := c, clock := now, grants := s.grants } where
  period := hc.keeps.leasePeriod.trans h.period
  inStep := hc.inStep
  instances := h.instances
  past := fun g hg => (h.past g hg).trans hnow
  guarded := fun g hg => (h.guarded g hg).steady hc.keeps hnow _
  apart := h.apart

section Granting

variable {c : ComponentLeaseVoters} {pairId candidateId epoch : Int} {now : Nat} {g : VoteGranted}
  (hm : s.voters.MayGrant pairId candidateId epoch now) (hg : s.voters.Granted c pairId candidateId now)
  (hnow : s.clock ≤ now)
include hm hg hnow

/-- **A vote that can be granted** to another instance comes a lease period later. -/
theorem Guarded.apart (h : s.Guarded g) (hinstance : g.candidateId ≠ 0) (hpair : g.pairId = pairId)
    (hother : g.candidateId ≠ candidateId) : g.at_ + s.voters.leasePeriod ≤ now := by
  rcases h with hp | ha | ⟨v, hv, hto, hexp⟩ | hpast
  · rw [hm.active] at hp
    cases hp
  · have := hm.quiet
    omega
  · -- a promise still running would be to the asker
    rw [hpair] at hv
    have hfree := hg.free v hv
    by_contra hlt
    refine hother (hto.symm.trans (hfree ?_))
    have hlive : now < v.promiseExpires := by omega
    simp [promiseLive, hlive, hto, hinstance]
  · omega

/-- Granting a vote leaves the votes granted before guarded. -/
theorem Guarded.granted (h : s.Guarded g) (hinstance : g.candidateId ≠ 0) (hpast : g.at_ ≤ s.clock)
    (grants : List VoteGranted) : Guarded { voters := c, clock := now, grants := grants } g := by
  unfold Guarded
  rw [hg.leasePeriod, hg.activeSince]
  by_cases hpair : g.pairId = pairId
  · by_cases hsame : g.candidateId = candidateId
    · -- the promise is renewed
      obtain ⟨v', hv', hto, hexp⟩ := hg.promise
      refine .inr (.inr (.inl ⟨v', hpair ▸ hv', hto.trans hsame.symm, ?_⟩))
      omega
    · exact .inr (.inr (.inr (h.apart hm hg hnow hinstance hpair hsame)))
  · rcases h with hp | ha | ⟨v, hv, hto, hexp⟩ | hpast
    · exact .inl (hg.active.trans hp)
    · exact .inr (.inl ha)
    · obtain ⟨v', hv', hto', hexp'⟩ := hg.others _ v hpair hv
      exact .inr (.inr (.inl ⟨v', hv', hto'.trans hto, hexp'.symm ▸ hexp⟩))
    · exact .inr (.inr (.inr (hpast.trans hnow)))

/-- **Granting a vote** keeps the voters sound. -/
theorem Sound.granted (h : s.Sound leasePeriod) (hinstance : candidateId ≠ 0) : Sound leasePeriod
      { voters := c, clock := now, grants := ⟨pairId, candidateId, now⟩ :: s.grants } where
  period := hg.leasePeriod.trans h.period
  inStep := hg.inStep
  instances := List.forall_mem_cons.mpr ⟨hinstance, h.instances⟩
  past := List.forall_mem_cons.mpr ⟨le_refl _, fun g hmem => (h.past g hmem).trans hnow⟩
  guarded := by
    refine List.forall_mem_cons.mpr ⟨?_, fun g hmem => ?_⟩
    · obtain ⟨v', hv', hto, hexp⟩ := hg.promise
      refine .inr (.inr (.inl ⟨v', hv', hto, ?_⟩))
      exact (congrArg (now + ·) hg.leasePeriod).trans_le hexp.ge
    · exact (h.guarded g hmem).granted hm hg hnow (h.instances g hmem) (h.past g hmem) _
  apart := by
    refine List.Pairwise.cons (fun g hmem hpair hother => ?_) h.apart
    rw [← h.period]
    exact (h.guarded g hmem).apart hm hg hnow (h.instances g hmem) hpair hother

end Granting

section

variable (h : s.Sound leasePeriod)
include h

/-- A change of role keeps the voters sound: whoever becomes active waits out every vote. -/
theorem Sound.becameActive {now : Nat} (hnow : s.clock ≤ now) :
    Sound leasePeriod { s with voters := s.voters.becameActive now, clock := now } where
  period := h.period
  inStep := ⟨wellFormed_becameActive _ _, fun _ _ hv => by simp [ComponentLeaseVoters.becameActive] at hv,
    fun _ _ hv => by simp [ComponentLeaseVoters.becameActive] at hv⟩
  instances := h.instances
  past := fun g hg => (h.past g hg).trans hnow
  guarded := fun g hg => .inr (.inl ((h.past g hg).trans hnow))
  apart := h.apart

/-- An arbiter that is passive grants nothing. -/
theorem Sound.becamePassive : Sound leasePeriod { s with voters := s.voters.becamePassive } where
  period := h.period
  inStep := ⟨wellFormed_becamePassive _, fun _ _ hv => by simp [ComponentLeaseVoters.becamePassive] at hv,
    fun _ _ hv => by simp [ComponentLeaseVoters.becamePassive] at hv⟩
  instances := h.instances
  past := h.past
  guarded := fun _ _ => .inl rfl
  apart := h.apart

/-- **One operation** that meets the condition keeps the voters sound and takes nothing back. -/
theorem sound_step {op : VotersOperation} (hmeets : s.Meets op)
    (hs : step s op = some s') : s'.Sound leasePeriod ∧ s.voters.Advances s'.voters := by
  cases op with
  | becameActive now =>
    simp only [step] at hs
    split at hs
    · cases hs
      exact ⟨h.becameActive ‹_›, ⟨fun _ => le_refl _, fun _ => .refl _⟩⟩
    · cases hs
  | becamePassive =>
    cases hs
    exact ⟨h.becamePassive, ⟨fun _ => le_refl _, fun _ => .refl _⟩⟩
  | consider pairId candidateId epoch now =>
    simp only [step] at hs
    split at hs
    · rename_i hnow
      cases hs
      rcases s.voters.afterConsider_cases h.inStep pairId candidateId epoch now with
        ⟨hno, hsteady⟩ | ⟨hyes, hm, hg⟩
      · rw [hno]
        exact ⟨h.steady hsteady hnow, hsteady.advances⟩
      · rw [hyes]
        exact ⟨h.granted hm hg hnow hmeets, hg.advances⟩
    · cases hs
  | learnEpoch pairId epoch =>
    cases hs
    have hsteady := (learnEpoch_steady h.inStep pairId epoch).1
    exact ⟨h.steady hsteady (le_refl _), hsteady.advances⟩
  | recordStatement pairId statement =>
    cases hs
    have hsteady := afterRecordStatement_steady h.inStep pairId statement
    exact ⟨h.steady hsteady (le_refl _), hsteady.advances⟩
  | learnStatement =>
    cases hs
    have hsteady := afterLearnStatement_steady h.inStep hmeets
    exact ⟨h.steady hsteady (le_refl _), hsteady.advances⟩

/-- Along a run nothing is taken back. -/
theorem sound_run {ops : List VotersOperation} (hr : (step.restrict Meets).run s ops = some s') :
    s'.Sound leasePeriod ∧ s.voters.Advances s'.voters := by
  induction ops generalizing s with
  | nil =>
    cases hr
    exact ⟨h, .refl _⟩
  | cons op ops ih =>
    obtain ⟨r, hsr, hrt⟩ := Machine.run_cons_eq_some.mp hr
    obtain ⟨hmeets, hstep⟩ := Machine.restrict_eq_some.mp hsr
    obtain ⟨hsound, hadv⟩ := sound_step h hmeets hstep
    obtain ⟨hsound', hadv'⟩ := ih hsound hrt
    exact ⟨hsound', hadv.trans hadv'⟩

end

/-- Each voter there is has the highest epoch and the statement held for its pair. -/
def Agree (s : VotingHistory) : Prop :=
  ∀ p v, s.voters.voters.lookup p = some v →
    v.highestEpoch = s.voters.highestEpoch p ∧ v.recordedStatement = s.voters.statement p

/-- **The pool's voters never go back.** In every run all of whose operations ask for an instance
and tell no voter of a newer statement that names no leader, the copies agree in every state
reached; from there on no highest epoch falls and no statement is replaced by an older one; a vote
is granted only by an active arbiter, a lease period after it became active, in no epoch below the
highest known and to no instance the statement held bars; and votes to two instances of a pair are a
lease period apart. -/
theorem voters_never_go_back {first rest : List VotersOperation}
    (h : (step.restrict Meets).run (start leasePeriod) first = some s)
    (h' : (step.restrict Meets).run s rest = some s') :
    s.Agree ∧ s.voters.Advances s'.voters ∧
      (∀ pairId candidateId epoch now, s.voters.grantsVote pairId candidateId epoch now = true →
        s.voters.MayGrant pairId candidateId epoch now) ∧
      s.grants.Pairwise (VoteGranted.Apart leasePeriod) := by
  have hsound := (sound_run (sound_start leasePeriod) h).1
  refine ⟨fun p v hv => ⟨hsound.inStep.highest p v hv, hsound.inStep.held p v hv⟩,
    (sound_run hsound h').2, fun pairId candidateId epoch now hgrant => ?_, hsound.apart⟩
  rcases s.voters.afterConsider_cases hsound.inStep pairId candidateId epoch now with
    ⟨hno, -⟩ | ⟨-, hm, -⟩
  · rw [hno] at hgrant
    cases hgrant
  · exact hm

/-- A run with a vote granted, a change of role, a statement that bars an instance and a vote
granted to the other one. -/
theorem voters_never_go_back_changeOfRole : ∃ s s', (step.restrict Meets).run (start 10)
        [.becameActive 0, .consider 1 2 6 10, .becamePassive, .becameActive 15,
          .learnStatement 1 ⟨1, 9, 1, false⟩, .consider 1 1 9 25] = some s ∧
      (step.restrict Meets).run s [.learnEpoch 1 13] = some s' ∧ s.grants.length = 2 ∧
      s.Agree ∧ s.voters.Advances s'.voters ∧
      s.grants.Pairwise (VoteGranted.Apart 10) := by
  obtain ⟨s, hs, hlength⟩ := (step.restrict Meets).exists_run_of_any (start 10)
    [.becameActive 0, .consider 1 2 6 10, .becamePassive, .becameActive 15,
      .learnStatement 1 ⟨1, 9, 1, false⟩, .consider 1 1 9 25]
    (fun s => s.grants.length = 2) (by decide +kernel)
  have hs' : (step.restrict Meets).run s [.learnEpoch 1 13] =
      some { s with voters := s.voters.learnEpoch 1 13 } := rfl
  obtain ⟨hagree, hadvances, -, hapart⟩ := voters_never_go_back hs hs'
  exact ⟨s, _, hs, hs', hlength, hagree, hadvances, hapart⟩

/-- A newer statement with number zero is in the map and not in the voter, which refused it; and a
vote granted to instance zero does not keep another from being granted at the next tick. -/
theorem refused_statement_is_in_the_map : (∃ s, step.run (start 10)
        [.becameActive 0, .recordStatement 1 ⟨1, 5, 1, false⟩, .learnStatement 1 ⟨1, 9, 0, false⟩] =
          some s ∧ ¬ s.Agree) ∧
    ∃ s, step.run (start 10) [.becameActive 0, .recordStatement 1 ⟨1, 5, 1, false⟩, .consider 1 0 5 10,
          .consider 1 1 5 11] = some s ∧ ¬ s.grants.Pairwise (VoteGranted.Apart 10) := by
  constructor
  · obtain ⟨s, hs, hdiffer⟩ := step.exists_run_of_any (start 10)
      [.becameActive 0, .recordStatement 1 ⟨1, 5, 1, false⟩, .learnStatement 1 ⟨1, 9, 0, false⟩]
      (fun s => (s.voters.voters.lookup 1).any fun v =>
        decide (v.recordedStatement ≠ s.voters.statement 1)) (by decide +kernel)
    obtain ⟨v, hv, hdiffer⟩ := (Option.any_eq_true _ _).mp hdiffer
    exact ⟨s, hs, fun hagree => of_decide_eq_true hdiffer (hagree 1 v hv).2⟩
  · exact step.exists_run_of_any (start 10)
      [.becameActive 0, .recordStatement 1 ⟨1, 5, 1, false⟩, .consider 1 0 5 10, .consider 1 1 5 11] _
      (by decide +kernel)

end VotingHistory

end PubsubVenue
