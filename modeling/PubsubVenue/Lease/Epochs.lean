import PubsubVenue.Lease.Pair

/-! # Every leadership has an epoch of its own

Across the two instances an epoch is led once because its remainder on division by four is the id
of the instance that leads in it. Across the lives of one instance it is led once because the epoch
is on disk before the instance asks for it, and the instance asks only above what it knows.

`EpochInv` is the invariant of one instance: the disk never goes back, and everything the instance
has led in is on disk and known to its voter. -/

namespace PubsubVenue

open LeaseParticipant LeaderEpoch

namespace Pair

/-- An instance that begins to ask to lead has the epoch it asks for on disk. -/
def epochIsRecordedBeforeAsking (s : Pair) : PairAction → Prop
  | .beginAskingToLead i written =>
    (s.inst i).participant.beginAskingToLead.toOption.all
      (fun asked => (s.inst i).recording.recorded asked.1 written) = true
  | _ => True

instance (s : Pair) (a : PairAction) : Decidable (s.epochIsRecordedBeforeAsking a) := by
  unfold epochIsRecordedBeforeAsking
  split <;> infer_instance

/-! ## The invariant of one instance -/

/-- What holds of one instance's epochs. -/
structure EpochInv (i : Instance) (x : InstanceState) : Prop where
  selfId_eq : x.participant.selfId = i.id
  /-- What this process has written is on disk, and the disk never goes back. -/
  written : x.recording.highestWritten ≤ x.recording.stored
  stored : x.recording.stored ≤ max x.startedFrom x.recording.highestWritten
  started : x.startedFrom ≤ x.participant.voter.highestEpoch
  nonneg : 0 ≤ x.recording.stored
  /-- The epoch the instance leads in or asks for is its own, and is on disk. -/
  active : x.participant.holder.state ≠ .idle →
    x.participant.holder.epoch % 4 = i.id ∧ x.participant.holder.epoch ≤ x.recording.stored
  /-- It is above every epoch the instance has led in, until it leads in it. -/
  fresh : x.participant.holder.state = .candidate → ∀ e ∈ x.led, e < x.participant.holder.epoch
  /-- The epochs led in are the instance's own, known to its voter, on disk, and rise. -/
  led : ∀ e ∈ x.led, e % 4 = i.id ∧ e ≤ x.participant.voter.highestEpoch ∧ e ≤ x.recording.stored
  rise : x.led.Pairwise (· > ·)

variable {i : Instance} {x : InstanceState}

section

variable (h : EpochInv i x)
include h

/-- Recording an epoch at or above where the process started keeps the invariant. -/
theorem EpochInv.record {epoch : Int} (hepoch : x.startedFrom ≤ epoch) (written : Bool) :
    EpochInv i { x with recording := x.recording.record epoch written } ∧
      x.recording.stored ≤ (x.recording.record epoch written).stored := by
  unfold EpochRecording.record
  split
  · exact ⟨h, le_refl _⟩
  split
  · have hle : x.recording.stored ≤ epoch := by
      have := h.stored
      omega
    refine ⟨?_, hle⟩
    exact { h with
        written := le_refl _
        stored := le_max_right _ _
        nonneg := h.nonneg.trans hle
        active := fun ha => ⟨(h.active ha).1, (h.active ha).2.trans hle⟩
        led := fun e he => ⟨(h.led e he).1, (h.led e he).2.1, (h.led e he).2.2.trans hle⟩ }
  · exact ⟨h, le_refl _⟩

/-- An epoch whose recording succeeded is on disk. -/
theorem EpochInv.le_stored_record {epoch : Int} {written : Bool}
    (hrec : x.recording.recorded epoch written = true) :
    epoch ≤ (x.recording.record epoch written).stored := by
  unfold EpochRecording.recorded at hrec
  unfold EpochRecording.record
  split
  · have := h.written
    omega
  · rename_i hlt
    simp only [hlt, decide_false, Bool.false_or] at hrec
    rw [if_pos hrec]

variable {p : LeaseParticipant}

/-- An instance that settles keeps the invariant. -/
theorem EpochInv.settle (hp : Settles x.participant p) : EpochInv i { x with participant := p } :=
  { h with
    selfId_eq := hp.selfId.trans h.selfId_eq
    started := h.started.trans hp.highestEpoch
    active := fun ha => by
      obtain ⟨hs, he, -⟩ := hp.active ha
      exact he ▸ h.active (hs ▸ ha)
    fresh := fun hc => by
      obtain ⟨hs, he, -⟩ := hp.active (by rw [hc]; decide)
      exact he ▸ h.fresh (hs ▸ hc)
    led := fun e he => ⟨(h.led e he).1, (h.led e he).2.1.trans hp.highestEpoch, (h.led e he).2.2⟩ }

/-- A voter that learns of a higher epoch keeps the invariant. -/
theorem EpochInv.setVoter {v : LeaseVoter} (hv : x.participant.voter.highestEpoch ≤ v.highestEpoch) :
    EpochInv i { x with participant := { x.participant with voter := v } } :=
  { h with
    started := h.started.trans hv
    led := fun e he => ⟨(h.led e he).1, (h.led e he).2.1.trans hv, (h.led e he).2.2⟩ }

/-- An instance that asks to lead, with the epoch on disk, keeps the invariant: the epoch is above
everything it knows, and so above everything it has led in. -/
theorem EpochInv.beginAsking {epoch : Int} {written : Bool}
    (hb : x.participant.beginAskingToLead = .ok (epoch, p))
    (hrec : x.recording.recorded epoch written = true) :
    EpochInv i { x with participant := p, recording := x.recording.record epoch written } := by
  obtain ⟨hnext, rfl⟩ := beginAskingToLead_eq_ok hb
  obtain ⟨-, -, habove, hmod, -⟩ := nextFor_eq_ok_iff.mp hnext
  rw [h.selfId_eq] at hmod
  have hstart := h.started
  have hle : x.startedFrom ≤ epoch := by omega
  obtain ⟨hr, -⟩ := h.record hle written
  refine { hr with
    active := fun _ => ⟨hmod, h.le_stored_record hrec⟩
    fresh := fun _ e he => ?_ }
  have := (h.led e he).2.1
  exact lt_of_le_of_lt this habove

/-- A grant keeps the invariant. The epoch of a leadership that begins is above those before it. -/
theorem EpochInv.onGrant {voterId requestId epoch : Int} {now : Nat} {event : HolderEvent}
    (hg : x.participant.onGrant voterId requestId epoch now = .ok (event, p)) : EpochInv i { x with
      participant := p
      led := if event = .becameLeader then epoch :: x.led else x.led } := by
  obtain ⟨-, hid, hv, hlearn⟩ := onGrant_eq_ok hg
  rcases onGrant_cases hg with ⟨he, hsettles⟩ | ⟨_, -, hepoch, hactive, he, hh⟩
  · rw [he, if_neg (by decide)]
    exact h.settle hsettles
  have hact := h.active hactive
  have hold : ∀ e ∈ x.led, e % 4 = i.id ∧ e ≤ p.voter.highestEpoch ∧ e ≤ x.recording.stored := fun e he' =>
    ⟨(h.led e he').1, (h.led e he').2.1.trans hv.highestEpoch, (h.led e he').2.2⟩
  have hleads : p.holder.state = .leading ∧ p.holder.epoch = x.participant.holder.epoch := by
    rw [hh]
    exact ⟨rfl, rfl⟩
  have hbase : ∀ led : List Int,
    (∀ e ∈ led, e % 4 = i.id ∧ e ≤ p.voter.highestEpoch ∧ e ≤ x.recording.stored) →
      led.Pairwise (· > ·) → EpochInv i { x with participant := p, led := led } := fun led hl hr =>
    { h with
      selfId_eq := hid.trans h.selfId_eq
      started := h.started.trans hv.highestEpoch
      active := fun _ => by
        rw [hleads.2]
        exact hact
      fresh := fun hc => by
        rw [hleads.1] at hc
        cases hc
      led := hl
      rise := hr }
  by_cases hc : x.participant.holder.state = .candidate
  · rw [if_pos hc] at he
    rw [he, if_pos rfl]
    refine hbase _ (fun e he' => ?_) (List.pairwise_cons.mpr ⟨fun e he' => ?_, h.rise⟩)
    · rcases List.mem_cons.mp he' with rfl | he'
      · exact ⟨hepoch ▸ hact.1, hlearn he, hepoch ▸ hact.2⟩
      · exact hold e he'
    · rw [hepoch]
      exact h.fresh hc e he'
  · rw [if_neg hc] at he
    rw [he, if_neg (by decide)]
    exact hbase _ hold h.rise

/-- An instance that starts again keeps the invariant: it knows the epoch on its disk. -/
theorem EpochInv.restart {now : Nat}
    (hp : LeaseParticipant.start i.id x.participant.holder.terms now x.recording.stored
      x.participant.peerStatements = .ok p) :
    EpochInv i { participant := p, recording := ⟨x.recording.stored, 0⟩, life := x.life + 1,
                 startedFrom := x.recording.stored, led := x.led } := by
  rw [start_eq_ok hp]
  exact
    { selfId_eq := rfl
      written := h.nonneg
      stored := le_max_left _ _
      started := le_refl _
      nonneg := h.nonneg
      active := fun ha => absurd rfl ha
      fresh := nofun
      led := fun e he => ⟨(h.led e he).1, (h.led e he).2.2, (h.led e he).2.2⟩
      rise := h.rise }

end

/-! ## The invariant of the pair -/

/-- What holds of both instances' epochs. -/
def EpochsInv (s : Pair) : Prop := ∀ i, EpochInv i (s.inst i)

variable {s : Pair}

/-- Considering a request never lowers the highest epoch known. -/
theorem highestEpoch_le_consider (v : LeaseVoter) (candidateId epoch : Int) (now : Nat) :
    v.highestEpoch ≤ (v.consider candidateId epoch now).2.highestEpoch := by
  rcases v.consider_cases candidateId epoch now with ⟨-, hv⟩ | ⟨-, -, -, -, he, -, hv⟩
  · rw [hv]
  · rw [hv]
    exact he

/-- **Every action keeps the invariant**, as long as epochs are recorded before they are asked for. -/
theorem epochsInv_invariant : (step.restrict epochIsRecordedBeforeAsking).Invariant EpochsInv := by
  intro s a t h hs i
  obtain ⟨hrec, hs⟩ := Machine.restrict_eq_some.mp hs
  have hstep := instanceStep_of_step hs i
  generalize t.inst i = x at hstep ⊢
  cases hstep with
  | unchanged => exact h i
  | stopIfLeaseRanOut => exact (h i).settle (settles_stopIfLeaseRanOut _ _)
  | stop => exact (h i).settle (settles_stop _ _ _)
  | beginAskingToLead written epoch p may asks =>
    simp only [epochIsRecordedBeforeAsking] at hrec
    rw [asks] at hrec
    exact (h i).beginAsking asks hrec
  | sendRequest => exact { h i with }
  | deliverRequest =>
    exact ((h i).settle (settles_yieldTo _ _ _)).setVoter (highestEpoch_le_consider _ _ _ _)
  | deliverGrant g own event p granted => exact (h i).onGrant granted
  | deliverRefusal => exact (h i).settle (settles_onRefusal _ _ _ _ _)
  | recordEpoch epoch written after => exact ((h i).record after written).1
  | say peerMayLead p said => exact (h i).settle (settles_sayWhetherPeerMayLead said)
  | recordStatement statement v recorded =>
    exact (h i).setVoter (LeaseVoter.samePromise_recordStatement recorded).highestEpoch
  | restart p started => exact (h i).restart started

/-- A pair that has just started meets the invariant. -/
theorem epochsInv_start {terms : LeaseTerms} {flag : PeerStatementsFlag} {now : Nat}
    {stored : Instance → Int} {thirdEpoch : Int}
    (h : start terms flag now stored thirdEpoch = .ok s) : EpochsInv s := by
  obtain ⟨p₁, hp₁, h⟩ := bind_eq_ok.mp h
  obtain ⟨p₂, hp₂, h⟩ := bind_eq_ok.mp h
  obtain ⟨third, -, h⟩ := bind_eq_ok.mp h
  have h₁ := start_eq_ok hp₁
  have h₂ := start_eq_ok hp₂
  have n₁ := nonneg_of_start hp₁
  have n₂ := nonneg_of_start hp₂
  rw [h₁, h₂] at h
  cases h
  intro i
  have hn : 0 ≤ stored i := by
    cases i
    · exact n₁
    · exact n₂
  cases i <;> exact
    { selfId_eq := rfl
      written := hn
      stored := le_max_left _ _
      started := le_refl _
      nonneg := hn
      active := fun ha => absurd rfl ha
      fresh := nofun
      led := nofun
      rise := List.Pairwise.nil }

/-! ## Leadership epochs -/

/-- **Every leadership has an epoch of its own.** In every run in which epochs are recorded before
they are asked for, no epoch is led by both instances, none is led twice by one, and each
instance's epochs rise. And for every `above` an instance's next epoch is the least one above it
whose remainder on division by four is the instance's id, unless `above` is within eight of the
largest `int32_t`. -/
theorem leaderships_have_their_own_epochs (terms : LeaseTerms) (flag : PeerStatementsFlag)
    (began : Nat) (stored : Instance → Int) (thirdEpoch : Int) (actions : List PairAction)
    {s₀ s : Pair} (h₀ : start terms flag began stored thirdEpoch = .ok s₀)
    (hrun : (step.restrict epochIsRecordedBeforeAsking).run s₀ actions = some s) :
    (∀ e, ¬ (e ∈ (s.inst .one).led ∧ e ∈ (s.inst .two).led)) ∧
      (∀ i, (s.inst i).led.Nodup ∧ (s.inst i).led.Pairwise (· > ·)) ∧
      ∀ i : Instance, ∀ above : Int, 0 ≤ above → above ≤ int32Max - 8 →
        ∃ e, nextFor above i.id = .ok e ∧ IsLeast { e | above < e ∧ e % 4 = i.id } e := by
  have h : EpochsInv s := epochsInv_invariant.run (epochsInv_start h₀) hrun
  refine ⟨fun e he => ?_, fun i => ⟨(h i).rise.imp fun hgt => ne_of_gt hgt, (h i).rise⟩,
    fun i above hnonneg hmax => ?_⟩
  · have h₁ := ((h .one).led e he.1).1
    have h₂ := ((h .two).led e he.2).1
    exact absurd (h₁.symm.trans h₂) (by decide)
  · exact exists_nextFor (by cases i <;> decide) (by cases i <;> decide) hnonneg hmax

/-- Instance 1 leads, stops, starts again, and leads once more at the next epoch. -/
def leadsTwice : List PairAction :=
  [.advance 10, .beginAskingToLead .one true, .sendRequest .one .third,
    .deliverRequest ⟨.one, 0, .third, 1, 1⟩, .deliverGrant ⟨⟨.one, 0, .third, 1, 1⟩, 10⟩,
    .restart .one, .advance 20, .beginAskingToLead .one true, .sendRequest .one .third,
    .deliverRequest ⟨.one, 1, .third, 1, 5⟩, .deliverGrant ⟨⟨.one, 1, .third, 1, 5⟩, 20⟩]

/-- There are such runs in which an instance leads more than once. -/
theorem leaderships_have_their_own_epochs_leadsTwice :
    ∃ s, (step.restrict epochIsRecordedBeforeAsking).run startAtZero leadsTwice = some s ∧
      (s.inst .one).led = [5, 1] ∧ ∀ i, (s.inst i).led.Nodup ∧ (s.inst i).led.Pairwise (· > ·) := by
  obtain ⟨s, hs, ht⟩ := Machine.exists_run_of_any (step.restrict epochIsRecordedBeforeAsking)
    startAtZero leadsTwice (fun s => (s.inst .one).led = [5, 1]) (by decide)
  exact ⟨s, hs, ht, (leaderships_have_their_own_epochs _ _ _ _ _ _ start_eq_startAtZero hs).2.1⟩

/-- **The last epochs are out of reach**: 2147483641 is the least epoch above 2147483640 that leaves
1 on division by four, and it fits in an `int32_t`, but `nextFor` refuses to give it. -/
theorem nextFor_refuses_near_int32Max : IsLeast { e : Int | 2147483640 < e ∧ e % 4 = 1 } 2147483641 ∧
      2147483641 ≤ int32Max ∧ ∀ e, nextFor 2147483640 1 ≠ .ok e := by
  refine ⟨⟨⟨by decide, by decide⟩, fun e he => ?_⟩, by decide, fun e he => ?_⟩
  · exact Int.add_one_le_of_lt he.1
  · obtain ⟨-, ⟨-, hle⟩, -⟩ := nextFor_eq_ok_iff.mp he
    exact absurd hle (by decide)

end Pair

end PubsubVenue
