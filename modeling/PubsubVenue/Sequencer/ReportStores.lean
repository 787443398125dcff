import PubsubVenue.Bytes
import PubsubVenue.Room
import Mathlib.Data.List.TakeWhile

/-! # The stores of reports

Execution reports wait in a sequencer in stores of a fixed room. A leading sequencer holds the
reports it cannot send yet (`ReportsHeldForUnknownSessions`: one store for the reports of sessions
that no gateway has announced, and one for each gateway). One that does not lead keeps a copy of
every report it receives (`KeptReports`), to forward them if it takes the lead, and discards those
the leader says it has forwarded.

* **`ReportsHeld.mem_held_hold`**: holding a report loses none but those it counts as dropped.
* **`ReportsHeld.held_release`**: releasing a session's reports hands back those and no others.
* **`KeptReports.mem_discardForwarded`**: what a follower discards stands at or before a position
  that a record of the leader gave. -/

namespace PubsubVenue

open List

/-! ## Positions, sessions, gateways -/

/-- `EngineReportPosition`: where a report stands in the reports the matching engine sends, by
leadership first and number second. -/
structure EngineReportPosition where
  epoch : Int
  number : Int
  deriving DecidableEq

namespace EngineReportPosition

variable {p q r : EngineReportPosition}

section

variable (p q : EngineReportPosition)

/-- `is_before_or_at`. -/
def IsBeforeOrAt : Prop :=
  p.epoch < q.epoch ∨ p.epoch = q.epoch ∧ p.number ≤ q.number
  deriving Decidable

/-- `is_after`. -/
def IsAfter : Prop := ¬ p.IsBeforeOrAt q
  deriving Decidable

end

/-- `just_before`: everything before this report, in the same leadership. -/
def justBefore (p : EngineReportPosition) : EngineReportPosition := ⟨p.epoch, p.number - 1⟩

theorem IsBeforeOrAt.refl (p : EngineReportPosition) : p.IsBeforeOrAt p := by
  unfold IsBeforeOrAt
  omega

theorem IsBeforeOrAt.trans (h₁ : p.IsBeforeOrAt q) (h₂ : q.IsBeforeOrAt r) : p.IsBeforeOrAt r := by
  unfold IsBeforeOrAt at *
  omega

/-- Of two positions, one is after the other or at or before it. -/
theorem IsAfter.isBeforeOrAt (h : p.IsAfter q) : q.IsBeforeOrAt p := by
  unfold IsAfter IsBeforeOrAt at *
  omega

/-- What is at or before the position just before this one is before this one. -/
theorem IsBeforeOrAt.not_of_justBefore (h : q.IsBeforeOrAt p.justBefore) : ¬ p.IsBeforeOrAt q := by
  simp only [IsBeforeOrAt, justBefore] at h ⊢
  omega

theorem justBefore_isBeforeOrAt (p : EngineReportPosition) : p.justBefore.IsBeforeOrAt p := by
  refine .inr ⟨rfl, ?_⟩
  simp only [justBefore]
  omega

/-- The older of the position found so far, if any, and another, if there is one. -/
def older (found other : Option EngineReportPosition) : Option EngineReportPosition :=
  match other, found with
  | none, found => found
  | some p, none => some p
  | some p, some o => if o.IsAfter p then some p else some o

/-- The oldest position found is at or before this one. -/
def Bounds (found : Option EngineReportPosition) (p : EngineReportPosition) : Prop :=
  ∃ o, found = some o ∧ o.IsBeforeOrAt p

/-- The older of two is at or before the second. -/
theorem bounds_older (found : Option EngineReportPosition) (p : EngineReportPosition) :
    Bounds (older found (some p)) p := by
  cases found with
  | none => exact ⟨p, rfl, .refl p⟩
  | some o =>
    simp only [older]
    split
    · exact ⟨p, rfl, .refl p⟩
    · rename_i h
      exact ⟨o, rfl, not_not.mp h⟩

variable {found : Option EngineReportPosition}

/-- The older of two is at or before whatever the first was at or before. -/
theorem Bounds.older (h : Bounds found p) (other : Option EngineReportPosition) :
    Bounds (older found other) p := by
  obtain ⟨o, rfl, ho⟩ := h
  cases other with
  | none => exact ⟨o, rfl, ho⟩
  | some q =>
    simp only [older]
    split
    · rename_i hq
      exact ⟨q, rfl, (IsAfter.isBeforeOrAt hq).trans ho⟩
    · exact ⟨o, rfl, ho⟩

/-- The oldest of a list of positions, and of one found before. -/
def oldest (found : Option EngineReportPosition) (positions : List (Option EngineReportPosition)) :
    Option EngineReportPosition :=
  positions.foldl older found

theorem Bounds.oldest (h : Bounds found p) (positions : List (Option EngineReportPosition)) :
    Bounds (oldest found positions) p := by
  induction positions generalizing found with
  | nil => exact h
  | cons q positions ih => exact ih (h.older q)

variable {positions : List (Option EngineReportPosition)}

/-- **The oldest of a list is at or before each of its positions.** -/
theorem bounds_oldest (h : some p ∈ positions) (found : Option EngineReportPosition) :
    Bounds (oldest found positions) p := by
  induction positions generalizing found with
  | nil => cases h
  | cons q positions ih =>
    rcases mem_cons.mp h with rfl | h
    · exact (bounds_older found p).oldest positions
    · exact ih h _

/-- The older of two is one of them. -/
theorem eq_of_older {found other : Option EngineReportPosition} (h : older found other = some p) :
    found = some p ∨ other = some p := by
  cases other with
  | none => exact .inl h
  | some =>
    cases found with
    | none => exact .inr h
    | some =>
      simp only [older] at h
      split at h
      · exact .inr h
      · exact .inl h

/-- The oldest of a list, and of one found before, is one of them. -/
theorem mem_of_oldest (h : oldest found positions = some p) : found = some p ∨ some p ∈ positions := by
  induction positions generalizing found with
  | nil => exact .inl h
  | cons q positions ih =>
    rcases ih h with hq | hin
    · rcases eq_of_older hq with hf | rfl
      · exact .inl hf
      · exact .inr (mem_cons_self ..)
    · exact .inr (mem_cons_of_mem _ hin)

end EngineReportPosition

/-- `SessionIdentity`: which session a record belongs to, by protocol and comp id. -/
structure SessionIdentity where
  protocol : Int
  compId : Bytes
  deriving DecidableEq

namespace SessionIdentity

/-- `fix_order_limits::max_comp_id_length`. -/
def maxCompIdLength : Nat := 64

/-- `SessionIdentity::make`, which clamps the comp id. -/
def make (compId : Bytes) (protocol : Int) : SessionIdentity := ⟨protocol, compId.take maxCompIdLength⟩

/-- `empty`: it names no session. -/
def empty (i : SessionIdentity) : Bool := i.compId.isEmpty

end SessionIdentity

/-- `gateway_ids::fix_order_gateway`, which is also `default_when_absent`. -/
def fixOrderGateway : Int := 1

/-- `gateway_ids::first_instance`. -/
def firstInstance : Int := 1

/-! ## Reports held by a leader -/

/-- An entry of `ReportsHeldForUnknownSessions`: a record for a session, and whether it has been
handed back and only keeps its room until every older entry has gone. -/
structure HeldEntry (ρ : Type) where
  identity : SessionIdentity
  record : ρ
  handedBack : Bool
  deriving DecidableEq

/-- **`ReportsHeldForUnknownSessions`**: records held until their session, or their gateway, is
there, and how many were dropped to make room. -/
structure ReportsHeld (ρ : Type) where
  room : Room (HeldEntry ρ)
  droppedForRoom : Nat

namespace ReportsHeld

variable {ρ : Type} {h : ReportsHeld ρ} {i identity : SessionIdentity} {x record : ρ} {size : Nat}

/-- `held_report_capacity_bytes`. -/
def capacityBytes : Nat := 16777216

/-- `held_report_capacity_reports`. -/
def capacityReports : Nat := 32768

/-- A store as it is made. -/
def fresh : ReportsHeld ρ := { room := Room.empty capacityBytes capacityReports, droppedForRoom := 0 }

section

variable (h : ReportsHeld ρ)

/-- The entries still held, oldest first: what `for_each_held` shows. -/
def held : List (HeldEntry ρ) := h.room.items.filter fun e => !e.handedBack

/-- `hold`: the oldest records still held are dropped until there is room; one larger than the whole
block is dropped itself. Gives the records dropped too. -/
def hold (identity : SessionIdentity) (size : Nat) (record : ρ) : ReportsHeld ρ × List ρ :=
  if h.room.capacityBytes < size then
    ({ h with droppedForRoom := h.droppedForRoom + 1 }, [record])
  else
    let pushed := h.room.push size ⟨identity, record, false⟩
    let dropped := (pushed.2.filter fun e => !e.handedBack).map HeldEntry.record
    ({ room := pushed.1, droppedForRoom := h.droppedForRoom + dropped.length }, dropped)

/-- `release`: the records held for a session are handed back, oldest first, and are held no more. -/
def release (identity : SessionIdentity) : ReportsHeld ρ × List ρ :=
  ({ h with
      room := (h.room.mapItems fun e =>
        if e.identity = identity then { e with handedBack := true } else e).removeWhile
          HeldEntry.handedBack },
    (h.held.filter fun e => e.identity = identity).map HeldEntry.record)

/-- `discard_all`. -/
def discardAll : ReportsHeld ρ := { h with room := h.room.clear }

/-- `take_all`: every record still held is handed back, oldest first. -/
def takeAll : ReportsHeld ρ × List (HeldEntry ρ) := (h.discardAll, h.held)

@[simp] theorem held_discardAll : h.discardAll.held = [] := rfl

end

/-- **Holding a report loses none but those it drops.** -/
theorem mem_held_hold {e : HeldEntry ρ} (he : e ∈ h.held) :
    e ∈ (h.hold identity size record).1.held ∨ e.record ∈ (h.hold identity size record).2 := by
  unfold hold
  split
  · exact .inl he
  · obtain ⟨hitem, hback⟩ := mem_filter.mp he
    have hor : e ∈ (h.room.push size ⟨identity, record, false⟩).1.items ∨
        e ∈ (h.room.push size ⟨identity, record, false⟩).2 := Room.mem_push_or_removed hitem
    rcases hor with hin | hout
    · exact .inl (mem_filter.mpr ⟨hin, hback⟩)
    · exact .inr (mem_map_of_mem (mem_filter.mpr ⟨hout, hback⟩))

/-- **The report itself is held, or dropped at once.** -/
theorem mem_held_hold_self (h : ReportsHeld ρ) (identity : SessionIdentity) (size : Nat) (record : ρ) :
    ⟨identity, record, false⟩ ∈ (h.hold identity size record).1.held ∨
      record ∈ (h.hold identity size record).2 := by
  unfold hold
  split
  · exact .inr (mem_singleton_self _)
  · exact .inl (mem_filter.mpr ⟨Room.mem_push_self .., rfl⟩)

/-- What is held after holding a report was held before, or is that report. -/
theorem of_mem_held_hold {e : HeldEntry ρ} (he : e ∈ (h.hold identity size record).1.held) :
    e ∈ h.held ∨ e = ⟨identity, record, false⟩ := by
  unfold hold at he
  split at he
  · exact .inl he
  · obtain ⟨hitem, hback⟩ := mem_filter.mp he
    rcases Room.of_mem_push hitem with hin | rfl
    · exact .inl (mem_filter.mpr ⟨hin, hback⟩)
    · exact .inr rfl

/-- What is still held does not depend on entries handed back at the oldest end. -/
theorem filter_dropWhile_handedBack (entries : List (HeldEntry ρ)) :
    (entries.dropWhile HeldEntry.handedBack).filter (fun e => !e.handedBack) =
      entries.filter fun e => !e.handedBack := by
  induction entries with
  | nil => rfl
  | cons e entries ih =>
    cases he : e.handedBack with
    | true => simpa [dropWhile_cons, he] using ih
    | false => simp [he]

/-- **Releasing a session's reports leaves those of the others held.** -/
theorem held_release (h : ReportsHeld ρ) (identity : SessionIdentity) :
    (h.release identity).1.held = h.held.filter fun e => e.identity ≠ identity := by
  simp only [release, held, Room.items_removeWhile, filter_dropWhile_handedBack, Room.items_mapItems]
  induction h.room.items with
  | nil => rfl
  | cons e entries ih =>
    by_cases hi : e.identity = identity
    · cases hb : e.handedBack <;> simpa [hi, hb] using ih
    · cases hb : e.handedBack <;> simpa [hi, hb] using ih

end ReportsHeld

/-! ## Reports kept by a follower -/

/-- A copy of a report: the number the engine sent with it, its bytes, when it arrived, and where it
stands in the engine's reports, when it says. -/
structure KeptReport where
  seqNo : Int
  bytes : Bytes
  receivedAt : Int
  position : Option EngineReportPosition
  deriving DecidableEq

/-- `ForwardedSample`: what a record of the leader said about how far it had forwarded, and when the
leader wrote it. -/
structure ForwardedSample where
  writtenNs : Int
  through : EngineReportPosition
  deriving DecidableEq

/-- **`KeptReports`**, with its `KeptReportStore`. A time is a number of nanoseconds; zero is a
clock's `time_point{}`. -/
structure KeptReports where
  leasePeriod : Int
  driftAllowance : Int
  store : Room KeptReport
  lost : Nat
  lastGrantedToLeader : Int
  discardedAt : Int
  samples : List ForwardedSample
  latestRecordWrittenNs : Int

namespace KeptReports

/-- `capacity_bytes`. -/
def capacityBytes : Nat := 134217728

/-- `capacity_reports`. -/
def capacityReports : Nat := 262144

/-- `forwarded_sample_capacity`. -/
def forwardedSampleCapacity : Nat := 4096

/-- `reports_forwarded_delay`. -/
def reportsForwardedDelay : Int := 100000000

/-- `discard_interval`. -/
def discardInterval : Int := 1000000000

/-- The store as it is made. -/
def fresh (leasePeriod driftAllowance : Int) : KeptReports :=
  { leasePeriod, driftAllowance, store := Room.empty capacityBytes capacityReports, lost := 0,
    lastGrantedToLeader := 0, discardedAt := 0, samples := [], latestRecordWrittenNs := 0 }

section

variable (k : KeptReports)

/-- The copies kept, oldest first. -/
def copies : List KeptReport := k.store.items

/-- `granted_lease_to_leader`. -/
def grantedLeaseToLeader (time : Int) : KeptReports :=
  { k with lastGrantedToLeader := time }

/-- `needed_from`: the time from which on a copy may be needed, or none for every copy. -/
def neededFrom : Option Int :=
  if k.lastGrantedToLeader = 0 then none
  else some (k.lastGrantedToLeader - k.leasePeriod - k.driftAllowance)

/-- The copy arrived before the time from which on copies are needed. -/
def isTooOld (r : KeptReport) : Bool :=
  match k.neededFrom with
  | none => false
  | some time => r.receivedAt < time

/-- `KeptReportStore::discard_received_before`, of the time from which on copies are needed. -/
def discardTooOld : KeptReports := { k with store := k.store.removeWhile k.isTooOld }

/-- `KeptReportStore::keep`: the oldest copies are overwritten to make room, and those still needed
are counted as lost, as is a report larger than the whole block. -/
def keepCopy (r : KeptReport) : KeptReports :=
  if k.store.capacityBytes < r.bytes.length then { k with lost := k.lost + 1 }
  else
    let pushed := k.store.push r.bytes.length r
    { k with
      store := pushed.1
      lost := k.lost + (pushed.2.filter fun o => !k.isTooOld o).length }

/-- `keep`. -/
def keep (seqNo : Int) (bytes : Bytes) (position : Option EngineReportPosition) (now : Int) : KeptReports :=
  k.discardTooOld.keepCopy { seqNo, bytes, receivedAt := now, position }

/-- Add a sample, over the oldest one if there are as many as fit. -/
def addSample (sample : ForwardedSample) : KeptReports :=
  { k with
    samples :=
      (if k.samples.length = forwardedSampleCapacity then k.samples.tail else k.samples) ++ [sample] }

/-- `leader_record_written`: only a position after the newest one is worth keeping. -/
def leaderRecordWritten (writtenNs : Int) (through : Option EngineReportPosition) :
    KeptReports :=
  let noted := { k with latestRecordWrittenNs := max k.latestRecordWrittenNs writtenNs }
  match through with
  | none => noted
  | some position =>
    match k.samples.getLast? with
    | some newest => if position.IsAfter newest.through then noted.addSample ⟨writtenNs, position⟩ else noted
    | none => noted.addSample ⟨writtenNs, position⟩

end

/-- The samples from the newest one on that the leader wrote no later than a time. -/
def samplesFrom (cutoffNs : Int) : List ForwardedSample → List ForwardedSample
  | sample :: next :: rest =>
    if next.writtenNs ≤ cutoffNs then samplesFrom cutoffNs (next :: rest) else sample :: next :: rest
  | samples => samples

/-- The copy is at or before the position; one that does not say where it stands is not. -/
def isThrough (through : EngineReportPosition) (r : KeptReport) : Bool :=
  match r.position with
  | none => false
  | some position => position.IsBeforeOrAt through

variable (k : KeptReports)

/-- **`discard_those_the_leader_forwarded`**: what the newest sample written long enough before the
latest record says the leader had forwarded. -/
def discardForwarded : KeptReports :=
  let cutoffNs := k.latestRecordWrittenNs - reportsForwardedDelay
  let samples := samplesFrom cutoffNs k.samples
  match samples with
  | [] => { k with samples }
  | sample :: _ =>
    if cutoffNs < sample.writtenNs then { k with samples }
    else { k with samples, store := k.store.removeWhile (isThrough sample.through) }

/-- `tick`: those the leader forwarded are discarded now and then. -/
def tick (now : Int) : KeptReports :=
  if discardInterval ≤ now - k.discardedAt then { k with discardedAt := now }.discardForwarded else k

/-- What happens at a sequencer that does not lead, as far as the reports it keeps are concerned. -/
inductive Action
  | grantedLease (time : Int)
  | keep (seqNo : Int) (bytes : Bytes) (position : Option EngineReportPosition) (now : Int)
  | leaderRecord (writtenNs : Int) (through : Option EngineReportPosition)
  | tick (now : Int)

/-- What each thing that happens does. -/
def act : Action → KeptReports
  | .grantedLease time => k.grantedLeaseToLeader time
  | .keep seqNo bytes position now => k.keep seqNo bytes position now
  | .leaderRecord writtenNs through => k.leaderRecordWritten writtenNs through
  | .tick now => k.tick now

/-- The positions that records of the leader gave. -/
def told (history : List Action) : List EngineReportPosition :=
  history.filterMap fun
    | .leaderRecord _ through => through
    | _ => none

/-- The follower after a history. -/
def after (history : List Action) : KeptReports := history.foldl act k

/-- The samples kept are among those there were. -/
theorem samplesFrom_suffix (cutoffNs : Int) (samples : List ForwardedSample) :
    samplesFrom cutoffNs samples <:+ samples := by
  fun_induction samplesFrom cutoffNs samples with
  | case1 sample next rest h ih => exact ih.trans (suffix_cons _ _)
  | case2 sample next rest h => exact suffix_refl _
  | case3 samples h => exact suffix_refl _

variable {k : KeptReports}

/-- **A copy that is discarded as forwarded stands at or before a position that a sample gave.** -/
theorem mem_discardForwarded {r : KeptReport} (hr : r ∈ k.copies) : r ∈ k.discardForwarded.copies ∨
      ∃ sample ∈ k.samples, ∃ p, r.position = some p ∧ p.IsBeforeOrAt sample.through := by
  unfold discardForwarded
  have hsuffix := samplesFrom_suffix (k.latestRecordWrittenNs - reportsForwardedDelay) k.samples
  simp only
  split
  · exact .inl hr
  · rename_i sample rest hs
    split
    · exact .inl hr
    · by_cases hin : r ∈ k.copies.dropWhile (isThrough sample.through)
      · refine .inl ?_
        simpa [copies] using hin
      · -- Dropped from the oldest end, so it passes the test.
        have htake : r ∈ k.copies.takeWhile (isThrough sample.through) := by
          rw [← takeWhile_append_dropWhile (p := isThrough sample.through) (l := k.copies)] at hr
          exact (mem_append.mp hr).resolve_right hin
        have htest : isThrough sample.through r = true := mem_takeWhile_imp htake
        refine .inr ⟨sample, hsuffix.subset (hs ▸ mem_cons_self ..), ?_⟩
        cases hp : r.position with
        | none => simp [isThrough, hp] at htest
        | some p => exact ⟨p, rfl, by simpa [isThrough, hp] using htest⟩

variable {sample : ForwardedSample}

/-- Discarding leaves no sample that was not there. -/
theorem mem_samples_discardForwarded (h : sample ∈ k.discardForwarded.samples) : sample ∈ k.samples := by
  have hsuffix := samplesFrom_suffix (k.latestRecordWrittenNs - reportsForwardedDelay) k.samples
  unfold discardForwarded at h
  simp only at h
  split at h
  · exact hsuffix.subset (by assumption)
  · split at h <;> exact hsuffix.subset h

/-- A sample that is added is the only new one. -/
theorem mem_samples_addSample {sample added : ForwardedSample}
    (h : sample ∈ (k.addSample added).samples) : sample ∈ k.samples ∨ sample = added := by
  rcases mem_append.mp h with h | h
  · refine .inl ?_
    split at h
    · exact mem_of_mem_tail h
    · exact h
  · exact .inr (mem_singleton.mp h)

/-- **A sample is one that was there, or gives what a record of the leader gave.** -/
theorem mem_samples_act {a : Action}
    (h : sample ∈ (k.act a).samples) : sample ∈ k.samples ∨ sample.through ∈ told [a] := by
  cases a with
  | grantedLease => exact .inl h
  | keep =>
    simp only [act, keep, keepCopy] at h
    split at h <;> exact .inl h
  | leaderRecord writtenNs through =>
    cases through with
    | none => exact .inl h
    | some p =>
      have hadd : ∀ k' : KeptReports, k'.samples = k.samples →
        sample ∈ (k'.addSample ⟨writtenNs, p⟩).samples →
          sample ∈ k.samples ∨ sample.through ∈ told [.leaderRecord writtenNs (some p)] := by
        intro k' hk hin
        rcases mem_samples_addSample hin with hin | rfl
        · exact .inl (hk ▸ hin)
        · exact .inr (mem_singleton_self _)
      simp only [act, leaderRecordWritten] at h
      split at h
      · split at h
        · exact hadd _ rfl h
        · exact .inl h
      · exact hadd _ rfl h
  | tick =>
    simp only [act, tick] at h
    split at h
    · have hin := mem_samples_discardForwarded h
      exact .inl hin
    · exact .inl h

/-- After any history, a sample gives what a record of the leader gave. -/
theorem mem_samples_after {history : List Action}
    (h : sample ∈ (k.after history).samples) : sample ∈ k.samples ∨ sample.through ∈ told history := by
  induction history generalizing k with
  | nil => exact .inl h
  | cons a history ih =>
    have hcons : told (a :: history) = told [a] ++ told history := by
      simp only [told, ← filterMap_append, singleton_append]
    rw [hcons, mem_append]
    rcases ih h with hin | hin
    · exact (mem_samples_act hin).imp_right .inl
    · exact .inr (.inr hin)

end KeptReports

end PubsubVenue
