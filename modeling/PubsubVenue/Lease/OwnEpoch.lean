import PubsubVenue.Lease.Epochs

/-! # A leading instance knows no epoch but its own

The epoch an instance puts on what it does as leader is the highest its voter knows. While the
instance leads, that is the epoch it leads in: its vote is held for itself, so it grants no other;
and a refusal that tells of a later epoch ends the leadership.

* **`Pair.ownEpochs_invariant`**: every action of the pair keeps this; and the epoch an instance
  leads in is the last it has begun to lead in. -/

namespace PubsubVenue

open LeaseParticipant LeaseVoter

/-- The epoch of an instance that asks to lead is at least what its voter knows, and the same once
it leads. -/
structure KnowsOwnEpoch (p : LeaseParticipant) : Prop where
  self : p.holder.state ≠ .idle → p.voter.heldForSelf = true
  bound : p.holder.state ≠ .idle → p.voter.highestEpoch ≤ p.holder.epoch
  leads : p.holder.state = .leading → p.holder.epoch ≤ p.voter.highestEpoch

namespace KnowsOwnEpoch

variable {p p' : LeaseParticipant}

/-- An idle instance has nothing to know. -/
theorem of_idle (h : p.holder.state = .idle) : KnowsOwnEpoch p where
  self := fun ha => absurd h ha
  bound := fun ha => absurd h ha
  leads := fun hl => by rw [h] at hl; cases hl

/-- An instance that settles without learning of an epoch. -/
theorem settle (h : KnowsOwnEpoch p) (hp : Settles p p')
    (hsame : p'.voter.highestEpoch = p.voter.highestEpoch) : KnowsOwnEpoch p' where
  self := fun ha => by
    obtain ⟨hs, -, hv⟩ := hp.active ha
    rw [hv]
    exact h.self (hs ▸ ha)
  bound := fun ha => by
    obtain ⟨hs, he, -⟩ := hp.active ha
    rw [hsame, he]
    exact h.bound (hs ▸ ha)
  leads := fun hl => by
    obtain ⟨hs, he, -⟩ := hp.active (by rw [hl]; decide)
    rw [hsame, he]
    exact h.leads (hs ▸ hl)

/-- Standing down. -/
theorem standDown : KnowsOwnEpoch p.standDown := of_idle rfl

/-- Stopping when the lease has run out. -/
theorem stopIfLeaseRanOut (h : KnowsOwnEpoch p) (now : Nat) : KnowsOwnEpoch (p.stopIfLeaseRanOut now).2 := by
  unfold LeaseParticipant.stopIfLeaseRanOut
  split
  · exact h
  · exact standDown

/-- Answering the peer's request: an instance that still asks or leads refuses it. -/
theorem onPeerRequest (h : KnowsOwnEpoch p) (candidateId epoch : Int) (now : Nat) :
    KnowsOwnEpoch (p.onPeerRequest candidateId epoch now).2 := by
  have hy : KnowsOwnEpoch (p.yieldTo epoch now) := by
    unfold yieldTo
    split
    · exact standDown
    · exact h
  unfold LeaseParticipant.onPeerRequest
  dsimp only
  rcases consider_cases (p.yieldTo epoch now).voter candidateId epoch now with
    ⟨-, hv⟩ | ⟨-, -, hself, -⟩
  · rw [hv]
    exact hy
  · apply of_idle
    by_contra hactive
    have hheld := hy.self hactive
    rw [hself] at hheld
    cases hheld

/-- Beginning to ask to lead, above everything known. -/
theorem beginAsking (h : p.beginAskingToLead = .ok (epoch, p')) : KnowsOwnEpoch p' := by
  obtain ⟨e, he, hp⟩ := bind_eq_ok.mp h
  cases hp
  exact
    { self := fun _ => rfl
      bound := fun _ => (LeaderEpoch.nextFor_eq_ok_iff.mp he).2.2.1.le
      leads := fun hl => by cases hl }

/-- Recording a statement teaches no epoch. -/
theorem highestEpoch_recordStatement {v v' : LeaseVoter} {statement : LeaderStatement}
    (h : v.recordStatement statement = .ok v') : v'.highestEpoch = v.highestEpoch := by
  unfold recordStatement at h
  split at h
  · cases h
  split at h
  · cases h
    rfl
  · cases h
    rfl

/-- Starting a leadership's statements teaches no epoch. -/
theorem highestEpoch_startStatements {epoch : Int} (h : p.startStatements epoch = .ok p') :
    p'.voter.highestEpoch = p.voter.highestEpoch := by
  unfold startStatements at h
  split at h
  · cases h
    rfl
  · obtain ⟨voter, hv, hp⟩ := bind_eq_ok.mp h
    cases hp
    exact highestEpoch_recordStatement hv

/-- A grant: an instance that becomes leader learns its own epoch. -/
theorem onGrant (h : KnowsOwnEpoch p) {voterId requestId epoch : Int} {now : Nat}
    {event : HolderEvent} (hg : p.onGrant voterId requestId epoch now = .ok (event, p')) :
    KnowsOwnEpoch p' := by
  unfold LeaseParticipant.onGrant at hg
  rcases p.holder.onGrant_cases voterId requestId epoch now with
    hc | hc | ⟨request, -, -, hepoch, hactive, -, hc⟩
  · rw [hc] at hg
    cases hg
    exact h
  · rw [hc] at hg
    cases hg
    exact ⟨h.self, h.bound, h.leads⟩
  · rw [hc] at hg
    dsimp only at hg
    have hbound := h.bound hactive
    by_cases hcand : p.holder.state = .candidate
    · rw [if_pos hcand, if_pos rfl] at hg
      obtain ⟨p'', hs, hp⟩ := bind_eq_ok.mp hg
      cases hp
      obtain ⟨-, hholder, hvoter⟩ := startStatements_eq_ok hs
      have hhigh : p'.voter.highestEpoch = p'.holder.epoch := by
        rw [highestEpoch_startStatements hs, hholder]
        show (p.voter.learnEpoch epoch).highestEpoch = p.holder.epoch
        unfold learnEpoch
        split
        · exact hepoch
        · omega
      have hself : p'.voter.heldForSelf = true := by
        rw [hvoter.heldForSelf]
        show (p.voter.learnEpoch epoch).heldForSelf = true
        rw [(samePromise_learnEpoch p.voter epoch).heldForSelf]
        exact h.self hactive
      exact ⟨fun _ => hself, fun _ => hhigh.le, fun _ => hhigh.ge⟩
    · have hleads := HolderState.eq_leading hactive hcand
      rw [if_neg hcand, if_neg (by decide)] at hg
      cases hg
      exact ⟨fun _ => h.self hactive, fun _ => hbound, fun _ => h.leads hleads⟩

/-- A refusal: one that tells of a later epoch ends the candidacy or the leadership. -/
theorem onRefusal (h : KnowsOwnEpoch p) (requestId highestEpoch : Int) (now wait : Nat) :
    KnowsOwnEpoch (p.onRefusal requestId highestEpoch now wait).2 := by
  unfold LeaseParticipant.onRefusal LeaseHolder.onRefusal
  dsimp only
  by_cases hnewer : p.holder.state ≠ .idle ∧ highestEpoch > p.holder.epoch
  · rw [if_pos hnewer, if_pos rfl]
    exact of_idle rfl
  · rw [if_neg hnewer]
    dsimp only
    rw [if_neg (by decide)]
    have hsame := samePromise_learnEpoch p.voter highestEpoch
    refine ⟨fun ha => hsame.heldForSelf.trans (h.self ha), fun ha => ?_, fun hl =>
      (h.leads hl).trans hsame.highestEpoch⟩
    have hle : highestEpoch ≤ p.holder.epoch := not_lt.mp fun hlt => hnewer ⟨ha, hlt⟩
    have hbound : p.voter.highestEpoch ≤ p.holder.epoch := h.bound ha
    show (p.voter.learnEpoch highestEpoch).highestEpoch ≤ p.holder.epoch
    unfold learnEpoch
    split
    · exact hle
    · exact hbound

/-- Saying whether the peer may lead. -/
theorem say (h : KnowsOwnEpoch p) {peerMayLead : Bool}
    (hp : p.sayWhetherPeerMayLead peerMayLead = .ok p') : KnowsOwnEpoch p' := by
  refine h.settle (settles_sayWhetherPeerMayLead hp) ?_
  have hsay : ∀ {caller b}, p.say caller b = .ok p' → p'.voter.highestEpoch = p.voter.highestEpoch := by
    intro caller b hs
    obtain ⟨_, _, hs⟩ := bind_eq_ok.mp hs
    split at hs
    · cases hs
      rfl
    · obtain ⟨voter, hv, hs⟩ := bind_eq_ok.mp hs
      cases hs
      exact highestEpoch_recordStatement hv
  unfold sayWhetherPeerMayLead at hp
  split at hp
  · exact hsay hp
  · exact hsay hp

end KnowsOwnEpoch

namespace Pair

/-- An instance that leads does so in the last epoch it has begun to lead in. -/
def LeadsInLast (x : InstanceState) : Prop :=
  x.participant.holder.state = .leading → x.led.head? = some x.participant.holder.epoch

/-- What an instance that goes on leading, and has begun no other leadership, was before. -/
def GoesOn (x x' : InstanceState) : Prop :=
  x'.led = x.led ∧ (x'.participant.holder.state = .leading →
    x.participant.holder.state = .leading ∧ x'.participant.holder.epoch = x.participant.holder.epoch)

/-- An instance that settles goes on, or stops. -/
theorem GoesOn.settle {x : InstanceState} {p : LeaseParticipant}
    (hp : Settles x.participant p) : GoesOn x { x with participant := p } := by
  refine ⟨rfl, fun hl => ?_⟩
  obtain ⟨hs, he, -⟩ := hp.active (by show p.holder.state ≠ .idle; rw [hl]; decide)
  exact ⟨hs ▸ hl, he⟩

/-- A candidate that a grant makes leader in one more epoch. -/
structure Begins (s : Pair) (a : PairAction) (i : Instance) (x' : InstanceState) (e : Int) : Prop where
  grant : ∃ g : Grant, a = .deliverGrant g ∧ g.request.candidate = i
  candidate : (s.inst i).participant.holder.state = .candidate
  led : x'.led = e :: (s.inst i).led
  leads : x'.participant.holder.state = .leading
  epoch : x'.participant.holder.epoch = e

/-- **A leadership begins with a grant.** Each action leaves an instance to go on as it was, or
makes it leader in one more epoch. -/
theorem goesOn_or_begins {s t : Pair} {a : PairAction} (h : step s a = some t) (i : Instance) :
    GoesOn (s.inst i) (t.inst i) ∨ ∃ e, Begins s a i (t.inst i) e := by
  have hstep := instanceStep_of_step h i
  generalize t.inst i = x at hstep ⊢
  cases hstep with
  | unchanged | sendRequest | recordEpoch | recordStatement => exact .inl ⟨rfl, fun hl => ⟨hl, rfl⟩⟩
  | stopIfLeaseRanOut => exact .inl (GoesOn.settle (settles_stopIfLeaseRanOut _ _))
  | stop => exact .inl (GoesOn.settle (settles_stop _ _ _))
  | beginAskingToLead written epoch p may asks =>
    obtain ⟨-, rfl⟩ := beginAskingToLead_eq_ok asks
    exact .inl ⟨rfl, nofun⟩
  | deliverRequest r =>
    have hyield := GoesOn.settle (x := s.inst i) (settles_yieldTo (s.inst i).participant r.epoch s.now)
    exact .inl ⟨rfl, fun hl => hyield.2 hl⟩
  | deliverGrant g own event p granted =>
    rcases onGrant_cases granted with ⟨rfl, hsettles⟩ | ⟨_, -, hepoch, hactive, rfl, hh⟩
    · exact .inl (GoesOn.settle hsettles)
    · have hstate : p.holder.state = .leading := by rw [hh]; rfl
      have hsame : p.holder.epoch = (s.inst i).participant.holder.epoch := by rw [hh]; rfl
      by_cases hcand : (s.inst i).participant.holder.state = .candidate
      · refine .inr ⟨g.request.epoch, ⟨g, rfl, own⟩, hcand, ?_, hstate, hsame.trans hepoch.symm⟩
        rw [if_pos hcand, if_pos rfl]
      · refine .inl ⟨?_, fun _ => ⟨HolderState.eq_leading hactive hcand, hsame⟩⟩
        rw [if_neg hcand, if_neg (by decide)]
  | deliverRefusal =>
    exact .inl (GoesOn.settle (settles_onRefusal _ _ _ _ _))
  | say peerMayLead p said =>
    exact .inl (GoesOn.settle (settles_sayWhetherPeerMayLead said))
  | restart p started =>
    rw [start_eq_ok started]
    exact .inl ⟨rfl, nofun⟩

/-- An instance that goes on leads in the epoch it did, and one that begins in the epoch it begins. -/
theorem LeadsInLast.step {s t : Pair} {a : PairAction} {i : Instance} (h : LeadsInLast (s.inst i))
    (hs : step s a = some t) : LeadsInLast (t.inst i) := by
  intro hl
  rcases goesOn_or_begins hs i with ⟨hled, hgoes⟩ | ⟨e, hbegins⟩
  · obtain ⟨hwas, he⟩ := hgoes hl
    rw [hled, he]
    exact h hwas
  · rw [hbegins.led, hbegins.epoch]
    rfl

/-- Both instances know their own epochs, and lead in the last they have begun to lead in. -/
def OwnEpochs (s : Pair) : Prop :=
  ∀ i, KnowsOwnEpoch (s.inst i).participant ∧ LeadsInLast (s.inst i)

variable {s : Pair}

/-- **Every action keeps it**: an instance that leads knows no epoch but its own. -/
theorem ownEpochs_invariant : step.Invariant OwnEpochs := by
  intro s a t h hs i
  obtain ⟨hown, hlast⟩ := h i
  refine ⟨?_, hlast.step hs⟩
  have hstep := instanceStep_of_step hs i
  generalize t.inst i = x at hstep ⊢
  cases hstep with
  | unchanged | recordEpoch => exact hown
  | stopIfLeaseRanOut => exact hown.stopIfLeaseRanOut _
  | stop => exact KnowsOwnEpoch.of_idle rfl
  | beginAskingToLead written epoch p may asks => exact KnowsOwnEpoch.beginAsking asks
  | sendRequest => exact ⟨hown.self, hown.bound, hown.leads⟩
  | deliverRequest => exact hown.onPeerRequest _ _ _
  | deliverGrant g own event p granted => exact hown.onGrant granted
  | deliverRefusal => exact hown.onRefusal _ _ _ _
  | say peerMayLead p said => exact hown.say said
  | recordStatement statement v recorded =>
    have hself := (samePromise_recordStatement recorded).heldForSelf
    have hhigh := KnowsOwnEpoch.highestEpoch_recordStatement recorded
    exact ⟨fun ha => hself.trans (hown.self ha), fun ha => hhigh.trans_le (hown.bound ha),
      fun hl => (hown.leads hl).trans_eq hhigh.symm⟩
  | restart p started =>
    rw [start_eq_ok started]
    exact KnowsOwnEpoch.of_idle rfl

/-- **The highest epoch an instance knows never falls**, unless the instance starts again. -/
theorem highestEpoch_le_of_step {s t : Pair} {a : PairAction} (h : step s a = some t)
    {i : Instance} (ha : a ≠ .restart i) :
    (s.inst i).participant.highestEpoch ≤ (t.inst i).participant.highestEpoch := by
  have hstep := instanceStep_of_step h i
  generalize t.inst i = x at hstep ⊢
  cases hstep with
  | unchanged | stop | sendRequest | recordEpoch => exact le_refl _
  | stopIfLeaseRanOut => exact (settles_stopIfLeaseRanOut _ _).highestEpoch
  | beginAskingToLead written epoch p may asks =>
    obtain ⟨-, rfl⟩ := beginAskingToLead_eq_ok asks
    exact le_refl _
  | deliverRequest r =>
    exact (settles_yieldTo _ r.epoch s.now).highestEpoch.trans (highestEpoch_le_consider _ _ _ _)
  | deliverGrant g own event p granted =>
    exact (onGrant_eq_ok granted).2.2.1.highestEpoch
  | deliverRefusal => exact (settles_onRefusal _ _ _ _ _).highestEpoch
  | say peerMayLead p said => exact (settles_sayWhetherPeerMayLead said).highestEpoch
  | recordStatement statement v recorded =>
    exact (samePromise_recordStatement recorded).highestEpoch
  | restart => exact absurd rfl ha

/-- A pair that has just started. -/
theorem ownEpochs_start {terms : LeaseTerms} {flag : PeerStatementsFlag} {now : Nat}
    {stored : Instance → Int} {thirdEpoch : Int}
    (h : start terms flag now stored thirdEpoch = .ok s) : OwnEpochs s := by
  obtain ⟨p₁, hp₁, h⟩ := bind_eq_ok.mp h
  obtain ⟨p₂, hp₂, h⟩ := bind_eq_ok.mp h
  obtain ⟨third, -, h⟩ := bind_eq_ok.mp h
  rw [start_eq_ok hp₁, start_eq_ok hp₂] at h
  cases h
  intro i
  cases i <;> exact ⟨KnowsOwnEpoch.of_idle rfl, nofun⟩

end Pair

end PubsubVenue
