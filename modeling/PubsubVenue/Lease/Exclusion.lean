import PubsubVenue.Lease.Pair

/-! # No two instances act as leader at once

The holder counts its lease from when it sent the request, the voter its promise from when it
granted it, and a voter that has restarted is quiet until every promise it can have forgotten has
run out. `PairInv` says this of a pair: every lease held is covered by a grant whose promise its
voter keeps, and promises of one voter to different instances do not overlap.

Request ids start again at one when a process restarts, so a grant that outlives the process it
answers can be taken for the answer to a later request. `Pair.grantIsOfThisLife` is the condition
that keeps this from happening. -/

namespace PubsubVenue

open LeaseParticipant List LeaseVoter LeaseHolder

/-- When the promise a grant makes runs out, as the voter counts it. -/
def Grant.ends (terms : LeaseTerms) (g : Grant) : Nat := g.grantedAt + terms.leasePeriod

/-- A voter keeps a promise: it grants nothing until the promise has run out, or it knows the
promise and that it runs at least so long. -/
def LeaseVoter.Keeps (v : LeaseVoter) (terms : LeaseTerms) (g : Grant) : Prop :=
  g.ends terms ≤ v.quietUntil ∨ (v.promisedTo = g.request.candidate.id ∧ g.ends terms ≤ v.promiseExpires)

namespace Pair

/-- A grant delivered answers a request of the process that receives it, or is for an epoch at or
below the one that process started from. -/
def grantIsOfThisLife (s : Pair) : PairAction → Prop
  | .deliverGrant g => g.request.life = (s.inst g.request.candidate).life ∨
      g.request.epoch ≤ (s.inst g.request.candidate).startedFrom
  | _ => True

instance (s : Pair) (a : PairAction) : Decidable (s.grantIsOfThisLife a) := by
  unfold grantIsOfThisLife
  split <;> infer_instance

/-! ## The invariant -/

/-- What holds of one instance. -/
structure InstInv (terms : LeaseTerms) (now : Nat) (requests : List Request) (grants : List Grant)
    (i : Instance) (x : InstanceState) : Prop where
  /-- Every process of the pair has the same timings and knows its own id. -/
  terms_eq : x.participant.holder.terms = terms
  selfId_eq : x.participant.selfId = i.id
  /-- An instance that leads or asks to lead has its own vote, and has promised it to nobody. -/
  self : x.participant.holder.state ≠ .idle → x.participant.voter.heldForSelf = true
  free : x.participant.holder.state ≠ .idle → ∀ g ∈ grants, g.request.voter = .member i → g.ends terms ≤ now
  /-- Request ids of this life have been issued. -/
  issued : ∀ r ∈ requests, r.candidate = i →
    r.life ≤ x.life ∧ (r.life = x.life → r.requestId ≤ x.participant.holder.lastRequestId)
  /-- A request is sent before it is granted. -/
  sent : ∀ id o, x.participant.holder.outstanding.lookup id = some o → o.sentAt ≤ now ∧
    ∀ g ∈ grants, g.request.candidate = i → g.request.life = x.life → g.request.requestId = id →
      o.sentAt ≤ g.grantedAt
  /-- A lease held is covered by a grant's promise. -/
  backed : ∀ voter expires, x.participant.holder.expiries.lookup voter = some expires →
    ∃ g ∈ grants, g.request.candidate = i ∧ expires ≤ g.ends terms
  /-- An instance asks above the epoch this life started from. -/
  started : x.startedFrom ≤ x.participant.voter.highestEpoch
  above : x.participant.holder.state ≠ .idle → x.startedFrom < x.participant.holder.epoch

/-- What holds of a pair. -/
structure PairInv (terms : LeaseTerms) (s : Pair) : Prop where
  period : ∀ v, (s.voter v).leasePeriod = terms.leasePeriod
  /-- Nobody asks itself. -/
  asked : ∀ r ∈ s.requests, r.voter ≠ .member r.candidate
  /-- A grant answers a request that was sent, and was made by now. -/
  answered : ∀ g ∈ s.grants, g.request ∈ s.requests ∧ g.grantedAt ≤ s.now
  /-- A voter keeps each promise until it has run out. -/
  kept : ∀ g ∈ s.grants, s.now < g.ends terms → (s.voter g.request.voter).Keeps terms g
  /-- Promises of one voter to different instances do not overlap. -/
  apart : ∀ g ∈ s.grants, ∀ g' ∈ s.grants, g.request.voter = g'.request.voter →
    g.request.candidate ≠ g'.request.candidate → g.ends terms ≤ g'.grantedAt ∨ g'.ends terms ≤ g.grantedAt
  inst : ∀ i, InstInv terms s.now s.requests s.grants i (s.inst i)

variable {terms : LeaseTerms} {s : Pair} {now : Nat}

/-- **Under the invariant no two instances act at once.** Each acting instance holds a lease covered
by a running promise. If one of the promises is the other instance's, that instance would have to be
idle; if both are the third voter's, they would overlap. -/
theorem PairInv.not_both_acting (h : PairInv terms s) (hnow : s.now ≤ now) :
    ¬ ((s.inst .one).participant.acting now = true ∧ (s.inst .two).participant.acting now = true) := by
  rintro ⟨h₁, h₂⟩
  obtain ⟨lead₁, v₁, x₁, hx₁, lt₁⟩ := (acting_iff _ _).mp h₁
  obtain ⟨lead₂, v₂, x₂, hx₂, lt₂⟩ := (acting_iff _ _).mp h₂
  obtain ⟨g₁, hg₁, c₁, le₁⟩ := (h.inst .one).backed v₁ x₁ hx₁
  obtain ⟨g₂, hg₂, c₂, le₂⟩ := (h.inst .two).backed v₂ x₂ hx₂
  have active₁ : (s.inst .one).participant.holder.state ≠ .idle := by rw [lead₁]; decide
  have active₂ : (s.inst .two).participant.holder.state ≠ .idle := by rw [lead₂]; decide
  have self₁ := h.asked _ (h.answered g₁ hg₁).1
  have self₂ := h.asked _ (h.answered g₂ hg₂).1
  rw [c₁] at self₁
  rw [c₂] at self₂
  have notTwo : g₁.request.voter ≠ .member .two := fun hv => by
    have := (h.inst .two).free active₂ g₁ hg₁ hv
    omega
  have notOne : g₂.request.voter ≠ .member .one := fun hv => by
    have := (h.inst .one).free active₁ g₂ hg₂ hv
    omega
  have third₁ : g₁.request.voter = .third := by
    rcases hv : g₁.request.voter with (_ | _) | _ <;> simp_all
  have third₂ : g₂.request.voter = .third := by
    rcases hv : g₂.request.voter with (_ | _) | _ <;> simp_all
  have le₁' := (h.answered g₁ hg₁).2
  have le₂' := (h.answered g₂ hg₂).2
  rcases h.apart g₁ hg₁ g₂ hg₂ (third₁.trans third₂.symm) (by rw [c₁, c₂]; decide) with ha | ha <;>
    omega

/-! ## What one action keeps -/

/-- Time passing keeps the invariant: promises only run out. -/
theorem PairInv.advance (h : PairInv terms s) {time : Nat} (ht : s.now ≤ time) :
    PairInv terms { s with now := time } where
  period := h.period
  asked := h.asked
  answered := fun g hg => ⟨(h.answered g hg).1, (h.answered g hg).2.trans ht⟩
  kept := fun g hg hlt => h.kept g hg (lt_of_le_of_lt ht hlt)
  apart := h.apart
  inst := fun i =>
    { h.inst i with
      free := fun ha g hg hv => ((h.inst i).free ha g hg hv).trans ht
      sent := fun id o ho =>
        ⟨((h.inst i).sent id o ho).1.trans ht, ((h.inst i).sent id o ho).2⟩ }

variable {i : Instance} {requests : List Request} {grants : List Grant} {x : InstanceState}

/-- An instance that settles keeps what holds of it. -/
theorem InstInv.settle (h : InstInv terms now requests grants i x) {p : LeaseParticipant}
    (hp : Settles x.participant p) (recording : EpochRecording) (led : List Int) :
    InstInv terms now requests grants i
      { x with participant := p, recording := recording, led := led } where
  terms_eq := hp.terms.trans h.terms_eq
  selfId_eq := hp.selfId.trans h.selfId_eq
  self := fun ha => by
    obtain ⟨hs, -, hv⟩ := hp.active ha
    exact hv.trans (h.self (hs ▸ ha))
  free := fun ha => h.free ((hp.active ha).1 ▸ ha)
  issued := fun r hr hc => by
    rw [hp.lastRequestId]
    exact h.issued r hr hc
  sent := fun id o ho => h.sent id o (hp.outstanding id o ho)
  backed := fun v x hx => h.backed v x (hp.expiries v x hx)
  started := h.started.trans hp.highestEpoch
  above := fun ha => by
    obtain ⟨hs, he, -⟩ := hp.active ha
    exact he ▸ h.above (hs ▸ ha)

section

variable (h : PairInv terms s)
include h

/-- Changing an instance keeps the invariant if the instance is sound and its voter still keeps its
promises. -/
theorem PairInv.setInst {y : InstanceState} (hperiod : y.participant.voter.leasePeriod = terms.leasePeriod)
    (hkept : ∀ g ∈ s.grants, g.request.voter = .member i → s.now < g.ends terms →
      (s.inst i).participant.voter.Keeps terms g → y.participant.voter.Keeps terms g)
    (hy : InstInv terms s.now s.requests s.grants i y) : PairInv terms (s.setInst i y) where
  period := fun v => by
    rw [setInst_voter]
    split
    · exact hperiod
    · exact h.period v
  asked := h.asked
  answered := h.answered
  kept := fun g hg hlt => by
    have hk := h.kept g hg hlt
    rw [setInst_voter]
    split
    · rename_i hv
      rw [hv] at hk
      exact hkept g hg hv hlt hk
    · exact hk
  apart := h.apart
  inst := fun j => by
    rw [setInst_inst]
    split
    · subst j
      exact hy
    · exact h.inst j

/-- Changing an instance keeps the invariant if the instance is sound and its promise is the same. -/
theorem PairInv.setInst_of_samePromise {y : InstanceState}
    (hperiod : y.participant.voter.leasePeriod = (s.inst i).participant.voter.leasePeriod)
    (hquiet : y.participant.voter.quietUntil = (s.inst i).participant.voter.quietUntil)
    (hto : y.participant.voter.promisedTo = (s.inst i).participant.voter.promisedTo)
    (hexp : y.participant.voter.promiseExpires = (s.inst i).participant.voter.promiseExpires)
    (hy : InstInv terms s.now s.requests s.grants i y) : PairInv terms (s.setInst i y) := by
  refine h.setInst (hperiod.trans (h.period (.member i))) (fun g _ _ _ hk => ?_) hy
  unfold Keeps at hk ⊢
  rwa [hquiet, hto, hexp]

/-- An instance that settles keeps the invariant, whatever it writes to disk. -/
theorem PairInv.settle {p : LeaseParticipant} (hp : Settles (s.inst i).participant p)
    (recording : EpochRecording) (led : List Int) : PairInv terms (s.setInst i
      { s.inst i with participant := p, recording := recording, led := led }) :=
  h.setInst_of_samePromise hp.leasePeriod hp.quietUntil hp.promisedTo hp.promiseExpires
    ((h.inst i).settle hp recording led)

/-- Beginning to ask to lead keeps the invariant: no promise of the instance's vote runs. -/
theorem PairInv.beginAsking {written : Bool} {t : Pair}
    (hmay : (s.inst i).participant.mayAskToLead s.now = true) (ht : s.beginAsking i written = .ok t) :
    PairInv terms t := by
  obtain ⟨⟨epoch, p⟩, hb, ht⟩ := bind_eq_ok.mp ht
  obtain ⟨hnext, rfl⟩ := beginAskingToLead_eq_ok hb
  cases ht
  obtain ⟨-, hquiet, hprom, -, -⟩ := mayAskToLead_iff.mp hmay
  have hi := h.inst i
  refine h.setInst_of_samePromise rfl rfl rfl rfl ?_
  refine { hi with
    self := fun _ => rfl
    free := fun _ g hg hv => ?_
    sent := nofun
    backed := nofun
    above := fun _ => ?_ }
  · by_contra hlt
    have hk := h.kept g hg (not_le.mp hlt)
    rw [hv] at hk
    have hself := h.asked _ (h.answered g hg).1
    rw [hv] at hself
    change _ ≤ (s.inst i).participant.voter.quietUntil ∨
      ((s.inst i).participant.voter.promisedTo = _ ∧ _ ≤ (s.inst i).participant.voter.promiseExpires) at hk
    rcases hk with hk | ⟨hto, hexp⟩
    · omega
    · rw [hto, hi.selfId_eq] at hprom
      rcases hprom with h0 | hle | heq
      · rcases hc : g.request.candidate <;> rw [hc] at h0 <;> cases h0
      · omega
      · have hci : g.request.candidate = i := by
          rcases hc : g.request.candidate <;> rcases i <;> rw [hc] at heq <;> first | rfl | cases heq
        exact hself (by rw [hci])
  · have hlt := (LeaderEpoch.nextFor_eq_ok_iff.mp hnext).2.2.1
    exact lt_of_le_of_lt hi.started hlt

/-- Noting a request keeps what holds of the instance: its id is new, so no grant answers it yet. -/
theorem PairInv.recordRequest (i : Instance) (voterId : Int) :
    PairInv terms (s.setParticipant i ((s.inst i).participant.recordRequest voterId s.now).2) := by
  have hi := h.inst i
  refine h.setInst_of_samePromise rfl rfl rfl rfl ?_
  refine { hi with
    issued := fun r hr hc => ?_
    sent := fun id o ho => ?_ }
  · obtain ⟨hlife, hid⟩ := hi.issued r hr hc
    exact ⟨hlife, fun hl => (hid hl).trans
      (by simp [LeaseParticipant.recordRequest, LeaseHolder.recordRequest])⟩
  · rcases lookup_outstanding_recordRequest ho with ⟨rfl, rfl⟩ | ⟨-, ho⟩
    · refine ⟨le_refl _, fun g hg hc hlife hreq => ?_⟩
      have := (hi.issued _ (h.answered g hg).1 hc).2 hlife
      omega
    · exact hi.sent id o ho

end

variable {r : Request}

section

variable (h : PairInv terms s)
include h

/-- A request with an id its candidate has issued keeps the invariant. -/
theorem PairInv.addRequest (hself : r.voter ≠ .member r.candidate)
    (hlife : r.life = (s.inst r.candidate).life)
    (hid : r.requestId ≤ (s.inst r.candidate).participant.holder.lastRequestId) :
    PairInv terms { s with requests := r :: s.requests } where
  period := h.period
  asked := fun r' hr => by
    rcases mem_cons.mp hr with rfl | hr
    · exact hself
    · exact h.asked r' hr
  answered := fun g hg => ⟨mem_cons_of_mem _ (h.answered g hg).1, (h.answered g hg).2⟩
  kept := h.kept
  apart := h.apart
  inst := fun i =>
    { h.inst i with
      issued := fun r' hr hc => by
        rcases mem_cons.mp hr with rfl | hr
        · subst hc
          exact ⟨hlife.le, fun _ => hid⟩
        · exact (h.inst i).issued r' hr hc }

/-- Sending a request keeps the invariant. -/
theorem PairInv.sendRequest {v : VoterName} (hv : v ≠ .member i) : PairInv terms (s.sendRequest i v) := by
  refine (h.recordRequest i v.id).addRequest hv ?_ ?_
  · simp [setParticipant, setInst_inst]
  · simp [setParticipant, setInst_inst, LeaseParticipant.recordRequest, LeaseHolder.recordRequest]

/-- Taking a grant keeps the invariant, if it is of the process's own life: the lease it gives is
counted from when the request was sent, so it ends before the promise does. -/
theorem PairInv.takeGrant {g : Grant} {t : Pair} (hg : g ∈ s.grants)
    (hlife : s.grantIsOfThisLife (.deliverGrant g)) (ht : s.takeGrant g = .ok t) :
    PairInv terms t := by
  obtain ⟨⟨event, p⟩, hgr, ht⟩ := bind_eq_ok.mp ht
  obtain ⟨-, hid, hv, -⟩ := onGrant_eq_ok hgr
  cases ht
  set i := g.request.candidate with hi
  change g.request.life = (s.inst i).life ∨ g.request.epoch ≤ (s.inst i).startedFrom at hlife
  have hinv := h.inst i
  rcases onGrant_cases hgr with ⟨-, hsettles⟩ | ⟨req, hreq, hepoch, hactive, -, hh⟩
  · exact h.settle hsettles _ _
  -- the instance asks or leads, and the lease granted is covered by the voter's promise
  have hthis : g.request.life = (s.inst i).life := by
    rcases hlife with hl | hle
    · exact hl
    · have := hinv.above hactive
      omega
  have hcover : (s.inst i).participant.holder.leaseEnd req.sentAt ≤ g.ends terms := by
    have hsent := (hinv.sent _ _ hreq).2 g hg rfl hthis rfl
    unfold leaseEnd Grant.ends
    rw [hinv.terms_eq]
    omega
  refine h.setInst_of_samePromise hv.leasePeriod hv.quietUntil hv.promisedTo hv.promiseExpires ?_
  exact
    { terms_eq := by rw [hh]; exact hinv.terms_eq
      selfId_eq := hid.trans hinv.selfId_eq
      self := fun _ => hv.heldForSelf.trans (hinv.self hactive)
      free := fun _ => hinv.free hactive
      issued := fun r hr hc => by
        rw [hh]
        exact hinv.issued r hr hc
      sent := fun id o ho => by
        rw [hh] at ho
        exact hinv.sent id o (lookup_outstanding_granted ho)
      backed := fun voter expires hx => by
        rw [hh] at hx
        rcases lookup_expiries_granted hx with rfl | hold
        · exact ⟨g, hg, rfl, hcover⟩
        · exact hinv.backed _ _ hold
      started := hinv.started.trans hv.highestEpoch
      above := fun _ => by
        rw [hh]
        exact hinv.above hactive }

/-- A running promise binds its voter: a voter that may grant to an instance has no running promise
to the other. -/
theorem PairInv.candidate_eq {g : Grant} (hg : g ∈ s.grants) (hrun : s.now < g.ends terms)
    {candidate : Instance} (hquiet : (s.voter g.request.voter).quietUntil ≤ s.now)
    (hlive : (s.voter g.request.voter).promiseLive s.now = true →
      (s.voter g.request.voter).promisedTo = candidate.id) :
    g.request.candidate = candidate := by
  rcases h.kept g hg hrun with hk | ⟨hto, hexp⟩
  · omega
  have hpos : g.request.candidate.id ≠ 0 := by rcases g.request.candidate <;> decide
  have hid := hlive (by
    unfold promiseLive
    rw [hto]
    simp only [ne_eq, hpos, not_false_eq_true, decide_true, Bool.true_and, decide_eq_true_eq]
    omega)
  rw [hto] at hid
  rcases hc : g.request.candidate <;> rcases candidate <;> rw [hc] at hid <;> first | rfl | cases hid

end

/-- A grant, and the promise it makes. -/
def grantTo (s : Pair) (r : Request) : Pair :=
  { s.setVoter r.voter { s.voter r.voter with
      promisedTo := r.candidate.id
      promiseExpires := s.now + (s.voter r.voter).leasePeriod
      highestEpoch := r.epoch } with
    grants := ⟨r, s.now⟩ :: s.grants }

/-- A new grant by a voter whose vote is not held for its own instance keeps what holds of each
instance. -/
theorem InstInv.addGrant (h : InstInv terms now requests grants i x)
    (hfree : r.voter = .member i → x.participant.voter.heldForSelf = false) :
    InstInv terms now requests (⟨r, now⟩ :: grants) i x :=
  { h with
    free := fun ha g hg hv => by
      rcases mem_cons.mp hg with rfl | hg
      · exact absurd (h.self ha) (by rw [hfree hv]; decide)
      · exact h.free ha g hg hv
    sent := fun id o ho => by
      refine ⟨(h.sent id o ho).1, fun g hg hc hl hid => ?_⟩
      rcases mem_cons.mp hg with rfl | hg
      · exact (h.sent id o ho).1
      · exact (h.sent id o ho).2 g hg hc hl hid
    backed := fun v x hx => by
      obtain ⟨g, hg, hc, hle⟩ := h.backed v x hx
      exact ⟨g, mem_cons_of_mem _ hg, hc, hle⟩ }

variable {v : LeaseVoter}

/-- A voter that holds its vote for itself as before, and knows no lower an epoch, keeps what holds
of its instance. -/
theorem InstInv.setVoter (h : InstInv terms now requests grants i x)
    (hself : v.heldForSelf = x.participant.voter.heldForSelf)
    (hepoch : x.participant.voter.highestEpoch ≤ v.highestEpoch) :
    InstInv terms now requests grants i { x with participant := { x.participant with voter := v } } :=
  { h with
    self := fun ha => hself.trans (h.self ha)
    started := h.started.trans hepoch }

section

variable (h : PairInv terms s)

include h

/-- **Granting keeps the invariant**: a voter that grants has no running promise to the other
instance, and the promise it now makes outlasts those it made to this one. -/
theorem PairInv.grantTo (hr : r ∈ s.requests)
    (hquiet : (s.voter r.voter).quietUntil ≤ s.now) (hself : (s.voter r.voter).heldForSelf = false)
    (hlive : (s.voter r.voter).promiseLive s.now = true → (s.voter r.voter).promisedTo = r.candidate.id)
    (hepoch : (s.voter r.voter).highestEpoch ≤ r.epoch) : PairInv terms (s.grantTo r) := by
  -- a promise of this voter that still runs is one to the same candidate
  have hsame : ∀ g ∈ s.grants, g.request.voter = r.voter → s.now < g.ends terms →
      g.request.candidate = r.candidate := fun g hg hv hrun =>
    h.candidate_eq hg hrun (hv ▸ hquiet) (hv ▸ hlive)
  have hvoter : ∀ w, (s.grantTo r).voter w = if w = r.voter then
      { s.voter r.voter with
        promisedTo := r.candidate.id
        promiseExpires := s.now + (s.voter r.voter).leasePeriod
        highestEpoch := r.epoch } else s.voter w := fun w => setVoter_voter _ _ _ _
  have hnow : (s.grantTo r).now = s.now := by
    unfold Pair.grantTo setVoter
    split <;> rfl
  have hreqs : (s.grantTo r).requests = s.requests := by
    unfold Pair.grantTo setVoter
    split <;> rfl
  refine
    { period := fun w => ?_
      asked := fun r' hr' => h.asked r' (hreqs ▸ hr')
      answered := fun g hg => ?_
      kept := fun g hg hlt => ?_
      apart := fun g hg g' hg' hv hc => ?_
      inst := fun i => ?_ }
  · rw [hvoter]
    split
    · exact h.period r.voter
    · exact h.period w
  · rw [hnow, hreqs]
    rcases mem_cons.mp hg with rfl | hg
    · exact ⟨hr, le_refl _⟩
    · exact h.answered g hg
  · rw [hnow] at hlt
    rw [hvoter]
    rcases mem_cons.mp hg with rfl | hg
    · rw [if_pos rfl]
      exact .inr ⟨rfl, by rw [h.period]; exact le_refl _⟩
    · split
      · rename_i hv
        refine .inr ⟨by rw [hsame g hg hv hlt], ?_⟩
        have := (h.answered g hg).2
        simp only [h.period, Grant.ends]
        omega
      · exact h.kept g hg hlt
  · -- an old promise to the other instance has run out by now
    have hold : ∀ g ∈ s.grants, g.request.voter = r.voter → g.request.candidate ≠ r.candidate →
        g.ends terms ≤ s.now := fun g hg hv hc => by
      by_contra hlt
      exact hc (hsame g hg hv (not_le.mp hlt))
    rcases mem_cons.mp hg with rfl | hg <;> rcases mem_cons.mp hg' with rfl | hg'
    · exact absurd rfl hc
    · exact .inr (hold g' hg' hv.symm (Ne.symm hc))
    · exact .inl (hold g hg hv hc)
    · exact h.apart g hg g' hg' hv hc
  · rw [hnow, hreqs]
    have hi := (h.inst i).addGrant (r := r) fun hv => by
      have := hself
      rw [hv] at this
      exact this
    unfold Pair.grantTo setVoter
    split
    · rename_i j hj
      simp only [setParticipant, setInst_inst]
      split
      · subst i
        rw [hj] at hepoch ⊢
        exact hi.setVoter rfl hepoch
      · exact hi
    · exact hi

/-- A refusal sent keeps the invariant, which says nothing of refusals. -/
theorem PairInv.addRefusal (f : Refusal) : PairInv terms { s with refusals := f :: s.refusals } :=
  ⟨h.period, h.asked, h.answered, h.kept, h.apart, h.inst⟩

/-- Replying to a request as its voter decides keeps the invariant. -/
theorem PairInv.consider (hr : r ∈ s.requests) {answer : Answer}
    (hc : (s.voter r.voter).consider r.candidate.id r.epoch s.now = (answer, v)) :
    PairInv terms ((s.setVoter r.voter v).reply r answer) := by
  have hcases := consider_cases (s.voter r.voter) r.candidate.id r.epoch s.now
  rw [hc] at hcases
  rcases hcases with ⟨hno, hv⟩ | ⟨hyes, hquiet, hself, hlive, hepoch, -, hv⟩
  · rw [show v = s.voter r.voter from hv, setVoter_self]
    unfold reply
    rw [if_neg hno]
    exact h.addRefusal _
  · have hreply : (s.setVoter r.voter v).reply r answer = s.grantTo r := by
      rw [show v = _ from hv]
      unfold reply Pair.grantTo Pair.setVoter
      rw [if_pos (congrArg Answer.verdict hyes)]
      split <;> rfl
    rw [hreply]
    exact h.grantTo hr hquiet hself hlive hepoch

/-- Answering a request keeps the invariant. -/
theorem PairInv.answerRequest (hr : r ∈ s.requests) : PairInv terms (s.answerRequest r) := by
  unfold Pair.answerRequest
  split
  · rename_i i hi
    -- the instance gives up its own request first, if it must, and then its voter decides
    unfold onPeerRequest
    dsimp only
    have hsettle := settles_yieldTo (s.inst i).participant r.epoch s.now
    revert hsettle
    generalize (s.inst i).participant.yieldTo r.epoch s.now = p'
    intro hsettle
    have h' : PairInv terms (s.setParticipant i p') :=
      h.settle hsettle (s.inst i).recording (s.inst i).led
    have hvoter : (s.setParticipant i p').voter r.voter = p'.voter := by
      rw [hi, setParticipant, setInst_voter, if_pos rfl]
    rw [← setVoter_setParticipant, ← hi]
    exact h'.consider hr (congrArg (fun v => v.consider r.candidate.id r.epoch s.now) hvoter)
  · rename_i hi
    have hcons := h.consider hr rfl
    rw [hi] at hcons
    exact hcons

/-- An instance that starts again keeps the invariant: it is quiet until every promise it has
forgotten has run out. -/
theorem PairInv.restart {t : Pair} (ht : s.restart i = .ok t) : PairInv terms t := by
  obtain ⟨p, hp, ht⟩ := bind_eq_ok.mp ht
  rw [start_eq_ok hp] at ht
  cases ht
  have hi := h.inst i
  refine h.setInst (congrArg LeaseTerms.leasePeriod hi.terms_eq) (fun g hg _ _ _ => ?_) ?_
  · have := (h.answered g hg).2
    left
    simp only [Grant.ends, hi.terms_eq]
    omega
  · exact
      { terms_eq := hi.terms_eq
        selfId_eq := rfl
        self := fun ha => absurd rfl ha
        free := fun ha => absurd rfl ha
        issued := fun r hr hc => by
          have := (hi.issued r hr hc).1
          exact ⟨by simp only; omega, fun hl => by simp only at hl; omega⟩
        sent := nofun
        backed := nofun
        started := le_refl _
        above := fun ha => absurd rfl ha }

/-- Changing the third voter keeps the invariant if it still keeps its promises. -/
theorem PairInv.setThird (hperiod : v.leasePeriod = terms.leasePeriod)
    (hkept : ∀ g ∈ s.grants, s.now < g.ends terms → s.third.Keeps terms g → v.Keeps terms g) :
    PairInv terms { s with third := v } where
  period := fun w => by
    cases w with
    | member i => exact h.period (.member i)
    | third => exact hperiod
  asked := h.asked
  answered := h.answered
  kept := fun g hg hlt => by
    have hk := h.kept g hg hlt
    rcases hv : g.request.voter with i | _
    · rw [hv] at hk
      exact hk
    · rw [hv] at hk
      exact hkept g hg hlt hk
  apart := h.apart
  inst := h.inst

/-- A voter that makes no promise keeps the invariant. -/
theorem PairInv.setVoter_of_samePromise {v : VoterName} {x : LeaseVoter}
    (hx : SamePromise (s.voter v) x) : PairInv terms (s.setVoter v x) := by
  cases v with
  | member i =>
    have hp : Settles (s.inst i).participant { (s.inst i).participant with voter := x } :=
      settles_of_samePromise rfl hx rfl
    exact h.settle hp (s.inst i).recording (s.inst i).led
  | third =>
    refine h.setThird (hx.leasePeriod.trans (h.period .third)) fun g _ _ hk => ?_
    unfold Keeps at hk ⊢
    rwa [hx.quietUntil, hx.promisedTo, hx.promiseExpires]

end

/-- **Every action keeps the invariant**, as long as grants are of the life that receives them. -/
theorem pairInv_invariant (terms : LeaseTerms) :
    (step.restrict grantIsOfThisLife).Invariant (PairInv terms) := by
  intro s a t h hs
  obtain ⟨hlife, hs⟩ := Machine.restrict_eq_some.mp hs
  cases a with
  | advance time =>
    simp only [step] at hs
    split at hs
    · cases hs
      exact h.advance ‹_›
    · cases hs
  | stopIfLeaseRanOut =>
    cases hs
    exact h.settle (settles_stopIfLeaseRanOut _ _) _ _
  | stop =>
    cases hs
    exact h.settle (settles_stop _ _ _) _ _
  | beginAskingToLead i written =>
    simp only [step] at hs
    split at hs
    · exact h.beginAsking ‹_› (toOption_eq_some.mp hs)
    · cases hs
  | sendRequest i v =>
    simp only [step] at hs
    split at hs
    · cases hs
      exact h.sendRequest ‹_›
    · cases hs
  | deliverRequest r =>
    simp only [step] at hs
    split at hs
    · cases hs
      exact h.answerRequest ‹_›
    · cases hs
  | deliverGrant g =>
    simp only [step] at hs
    split at hs
    · exact h.takeGrant ‹_› hlife (toOption_eq_some.mp hs)
    · cases hs
  | deliverRefusal =>
    simp only [step] at hs
    split at hs
    · cases hs
      exact h.settle (settles_onRefusal _ _ _ _ _) _ _
    · cases hs
  | recordEpoch =>
    simp only [step] at hs
    split at hs
    · cases hs
      exact h.settle (settles_of_samePromise rfl (SamePromise.refl _) rfl) _ _
    · cases hs
  | say =>
    obtain ⟨p, hp, rfl⟩ := map_eq_ok.mp (toOption_eq_some.mp hs)
    exact h.settle (settles_sayWhetherPeerMayLead hp) _ _
  | recordStatement =>
    obtain ⟨x, hx, rfl⟩ := map_eq_ok.mp (toOption_eq_some.mp hs)
    exact h.setVoter_of_samePromise (samePromise_recordStatement hx)
  | restart => exact h.restart (toOption_eq_some.mp hs)
  | restartThird =>
    obtain ⟨v, hv, rfl⟩ := map_eq_ok.mp (toOption_eq_some.mp hs)
    -- a voter that starts again is quiet for as long as any promise it made can run
    have hperiod := h.period .third
    rw [start_eq_ok hv]
    refine h.setThird hperiod fun g hg _ _ => ?_
    have := (h.answered g hg).2
    left
    change s.third.leasePeriod = _ at hperiod
    simp only [Grant.ends, hperiod]
    omega

/-- A pair that has just started meets the invariant. -/
theorem pairInv_start {flag : PeerStatementsFlag} {stored : Instance → Int}
    {thirdEpoch : Int} (h : start terms flag now stored thirdEpoch = .ok s) : PairInv terms s := by
  obtain ⟨p₁, hp₁, h⟩ := bind_eq_ok.mp h
  obtain ⟨p₂, hp₂, h⟩ := bind_eq_ok.mp h
  obtain ⟨third, hthird, h⟩ := bind_eq_ok.mp h
  rw [start_eq_ok hp₁, start_eq_ok hp₂, start_eq_ok hthird] at h
  cases h
  refine
    { period := fun v => by rcases v with (_ | _) | _ <;> rfl
      asked := nofun
      answered := nofun
      kept := nofun
      apart := nofun
      inst := fun i => ?_ }
  cases i <;> exact
    { terms_eq := rfl
      selfId_eq := rfl
      self := fun ha => absurd rfl ha
      free := fun ha => absurd rfl ha
      issued := nofun
      sent := nofun
      backed := nofun
      started := le_refl _
      above := fun ha => absurd rfl ha }

/-! ## Mutual exclusion -/

/-- **Mutual exclusion of leadership.** In every run of a pair in which no grant of an earlier life
is delivered for an epoch above the one the present life started from, there is no time at which
both instances act as leader. -/
theorem leadership_exclusive (terms : LeaseTerms) (flag : PeerStatementsFlag) (began : Nat)
    (stored : Instance → Int) (thirdEpoch : Int) (actions : List PairAction) {s₀ s : Pair}
    (h₀ : start terms flag began stored thirdEpoch = .ok s₀)
    (hrun : (step.restrict grantIsOfThisLife).run s₀ actions = some s)
    (hnow : s.now ≤ now) :
    ¬ ((s.inst .one).participant.acting now = true ∧ (s.inst .two).participant.acting now = true) :=
  PairInv.not_both_acting ((pairInv_invariant terms).run (pairInv_start h₀) hrun) hnow

/-- Instance 1 asks the third voter, which grants, and leads. -/
def takesTheLead : List PairAction :=
  [.advance 10, .beginAskingToLead .one true, .sendRequest .one .third,
    .deliverRequest ⟨.one, 0, .third, 1, 1⟩, .deliverGrant ⟨⟨.one, 0, .third, 1, 1⟩, 10⟩]

/-- There are such runs in which an instance acts as leader. -/
theorem leadership_exclusive_takesTheLead :
    ∃ s, (step.restrict grantIsOfThisLife).run startAtZero takesTheLead = some s ∧
      (s.inst .one).participant.acting 12 = true ∧
      ¬ ((s.inst .one).participant.acting 12 = true ∧ (s.inst .two).participant.acting 12 = true) := by
  obtain ⟨s, hs, ht⟩ := Machine.exists_run_of_any (step.restrict grantIsOfThisLife) startAtZero
    takesTheLead (fun s => (s.inst .one).participant.acting 12 = true ∧ s.now ≤ 12) (by decide)
  exact ⟨s, hs, ht.1, leadership_exclusive _ _ _ _ _ _ start_eq_startAtZero hs ht.2⟩

/-- Instance 1 asks the third voter for epoch 1, which grants; the instance stops and starts again
before the grant arrives, and asks for epoch 1 again with the same request ids. Meanwhile the
promise runs out, and the third voter grants instance 2. -/
def grantOutlivesItsCandidate : List PairAction :=
  [.advance 10, .beginAskingToLead .one false, .sendRequest .one (.member .two),
    .sendRequest .one .third, .deliverRequest ⟨.one, 0, .third, 2, 1⟩, .restart .one,
    .advance 20, .beginAskingToLead .two false, .sendRequest .two .third,
    .deliverRequest ⟨.two, 0, .third, 1, 2⟩, .deliverGrant ⟨⟨.two, 0, .third, 1, 2⟩, 20⟩,
    .beginAskingToLead .one false, .sendRequest .one (.member .two), .sendRequest .one .third,
    .deliverGrant ⟨⟨.one, 0, .third, 2, 1⟩, 10⟩]

/-- **A grant that outlives its candidate can make two leaders**: without the condition on grants
there is a run at whose end both instances act as leader. -/
theorem both_acting_grantOutlivesItsCandidate :
    ∃ s, step.run startAtZero grantOutlivesItsCandidate = some s ∧
      (s.inst .one).participant.acting s.now = true ∧
      (s.inst .two).participant.acting s.now = true := by
  exact Machine.exists_run_of_any step startAtZero grantOutlivesItsCandidate _ (by decide)

end Pair

end PubsubVenue
