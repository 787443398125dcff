import PubsubVenue.Lease.Agent

/-! # The record of a promise

Four records can name an instance: the one the agent takes to be on disk, the one being written, the
one waiting to be written, and the one on disk. `PromiseRecords.Sound` relates them whatever the
writer thread has done, and `PromiseRecords.Binds` says that all of them name the peer for long
enough:

* **`Sound.covers`**, **`Sound.adopt`**, **`Sound.lands`**, **`Sound.finishes`**: what the agent and
  the writer thread do keeps the records sound.
* **`Binds.covers`**: a later promise to the peer keeps the records bound to it.
* **`Sound.binds_of_covers`**: a promise the record on disk covers binds every record, if those
  still to be written name the peer. -/

namespace PubsubVenue

open BackgroundPromiseRecorder

/-- The write in progress has reached the disk, or its outcome says that it has. -/
def BackgroundPromiseRecorder.hasLanded (b : BackgroundPromiseRecorder) : Bool :=
  (b.writing.isSome && b.landed) || decide (b.outcome = some true)

namespace PromiseRecords

/-- What holds of an agent's records and the disk. `peer` is the other instance; no promise to it
runs beyond `limit`. -/
structure Sound (peer : Int) (limit : Nat) (k : PromiseRecords) (disk : Option LeasePromiseRecord) :
    Prop where
  /-- The writer thread writes the record the agent takes to be in progress. -/
  idle : k.background = none → k.recorder.writing = none
  busy : ∀ record, k.background = some record →
    (k.recorder.writing = some record ∧ k.recorder.outcome = none) ∨
      (k.recorder.writing = none ∧ k.recorder.outcome ≠ none)
  /-- The disk has the record in progress once it has landed, and the one taken to be there before. -/
  landed : ∀ record, k.background = some record → k.recorder.hasLanded = true → disk = some record
  before : k.background = none ∨ k.recorder.hasLanded = false → (disk = none ∧ k.recordedTo = 0) ∨
      ∃ d, disk = some d ∧ d.promisedTo = k.recordedTo ∧ d.untilTime = k.recordedUntil
  /-- Of the records that name the peer, a later one runs out no earlier. -/
  recorded_le : k.recordedTo = peer → k.recordedUntil ≤ limit
  background_le : ∀ record, k.background = some record → record.promisedTo = peer →
    record.untilTime ≤ limit ∧ (k.recordedTo = peer → k.recordedUntil ≤ record.untilTime)
  wanted_le : ∀ untilTime, k.wanted = some (peer, untilTime) →
    untilTime ≤ limit ∧ (k.recordedTo = peer → k.recordedUntil ≤ untilTime) ∧
      ∀ record, k.background = some record → record.promisedTo = peer → record.untilTime ≤ untilTime

/-- Every record names the peer and runs at least until `b`. -/
structure Binds (peer : Int) (b : Nat) (k : PromiseRecords) (disk : Option LeasePromiseRecord) : Prop where
  recorded : k.recordedTo = peer ∧ b ≤ k.recordedUntil
  background : ∀ record, k.background = some record → record.promisedTo = peer ∧ b ≤ record.untilTime
  wanted : ∀ wanted, k.wanted = some wanted → wanted.1 = peer ∧ b ≤ wanted.2
  onDisk : ∃ d, disk = some d ∧ d.promisedTo = peer ∧ b ≤ d.untilTime

variable {peer : Int} {limit b : Nat} {k : PromiseRecords} {disk : Option LeasePromiseRecord}

/-- Records stay sound as time passes. -/
theorem Sound.mono (h : Sound peer limit k disk) {limit' : Nat} (hle : limit ≤ limit') :
    Sound peer limit' k disk :=
  { h with
    recorded_le := fun hp => (h.recorded_le hp).trans hle
    background_le := fun r hr hp =>
      ⟨(h.background_le r hr hp).1.trans hle, (h.background_le r hr hp).2⟩
    wanted_le := fun u hw => ⟨(h.wanted_le u hw).1.trans hle, (h.wanted_le u hw).2⟩ }

/-- **What `startRecord` does**: nothing is in progress and the write is started, or it is kept. -/
theorem startRecord_cases (k : PromiseRecords) (held : LeaderStatement) (promisedTo : Int) (untilTime : Nat) :
    (k.background = none ∧ k.startRecord held promisedTo untilTime =
      { k with recorder := { writing := some ⟨promisedTo, untilTime, held⟩ }
               background := some ⟨promisedTo, untilTime, held⟩
               wanted := none }) ∨
    k.startRecord held promisedTo untilTime = { k with wanted := some (promisedTo, untilTime) } := by
  unfold startRecord recordInBackground
  cases hb : k.background with
  | some => exact .inr rfl
  | none =>
    cases hw : k.recorder.writing with
    | some => exact .inr rfl
    | none => exact .inl ⟨rfl, rfl⟩

/-- A record on disk that names the peer runs out by the limit. -/
theorem Sound.disk_le (h : Sound peer limit k disk) {d : LeasePromiseRecord} (hd : disk = some d)
    (hp : d.promisedTo = peer) : d.untilTime ≤ limit := by
  by_cases hl : k.background = none ∨ k.recorder.hasLanded = false
  · rcases h.before hl with ⟨hn, -⟩ | ⟨d', hd', hto, huntil⟩
    · rw [hn] at hd
      cases hd
    · rw [hd] at hd'
      cases hd'
      rw [huntil]
      exact h.recorded_le (hto.symm.trans hp)
  · obtain ⟨hb, hl⟩ := not_or.mp hl
    obtain ⟨r, hr⟩ := Option.ne_none_iff_exists'.mp hb
    rw [h.landed r hr (by simpa using hl)] at hd
    cases hd
    exact (h.background_le _ hr hp).1

variable {record : LeasePromiseRecord}

section

variable (h : Sound peer limit k disk) (hw : k.recorder.writing = some record)
include h hw

/-- The write the writer thread does is the one the agent takes to be in progress. -/
theorem Sound.background_eq : k.background = some record ∧ k.recorder.outcome = none := by
  cases hb : k.background with
  | none =>
    rw [h.idle hb] at hw
    cases hw
  | some r =>
    rcases h.busy r hb with ⟨hr, ho⟩ | ⟨hn, -⟩
    · rw [hr] at hw
      exact ⟨hw, ho⟩
    · rw [hn] at hw
      cases hw

/-- The record in progress reaching the disk keeps the records sound. -/
theorem Sound.lands :
    Sound peer limit { k with recorder := { k.recorder with landed := true } } (some record) := by
  obtain ⟨hb, ho⟩ := h.background_eq hw
  have hlanded : hasLanded { k.recorder with landed := true } = true := by
    simp [hasLanded, hw]
  refine { h with landed := fun r hr _ => ?_, before := fun hn => ?_ }
  · exact hb.symm.trans hr
  · rcases hn with hn | hn
    · rw [show k.background = none from hn] at hb
      cases hb
    · rw [hlanded] at hn
      cases hn

/-- The writer thread reporting keeps the records sound. -/
theorem Sound.finishes : Sound peer limit { k with recorder :=
      { writing := none, landed := false, outcome := some k.recorder.landed } } disk := by
  obtain ⟨hb, ho⟩ := h.background_eq hw
  have hlanded : hasLanded { writing := none, landed := false, outcome := some k.recorder.landed } =
        k.recorder.hasLanded := by
    simp [hasLanded, hw, ho]
  exact { h with
      idle := fun _ => rfl
      busy := fun _ _ => .inr ⟨rfl, by simp⟩
      landed := fun r hr hl => h.landed r hr (hlanded ▸ hl)
      before := fun hn => h.before (hn.imp id fun hl => hlanded ▸ hl) }

end

variable {held : LeaderStatement} {promisedTo : Int}

/-- Starting a record keeps the records sound, if one that names the peer runs out no earlier than
those before it. -/
theorem Sound.startRecord (h : Sound peer limit k disk)
    {untilTime : Nat} (hnew : promisedTo = peer → untilTime ≤ limit ∧
      (k.recordedTo = peer → k.recordedUntil ≤ untilTime) ∧
      ∀ record, k.background = some record → record.promisedTo = peer → record.untilTime ≤ untilTime) :
    Sound peer limit (k.startRecord held promisedTo untilTime) disk := by
  rcases k.startRecord_cases held promisedTo untilTime with ⟨hb, hk⟩ | hk <;> rw [hk]
  · refine
      { idle := nofun
        busy := fun r hr => .inl ⟨hr, rfl⟩
        landed := fun r hr hl => by
          simp [hasLanded] at hl
        before := fun _ => h.before (.inl hb)
        recorded_le := h.recorded_le
        background_le := fun r hr hp => ?_
        wanted_le := fun u hw => by cases hw }
    cases hr
    exact ⟨(hnew hp).1, (hnew hp).2.1⟩
  · refine { h with wanted_le := fun u hw => ?_ }
    cases hw
    exact hnew rfl

/-- Starting a record that names the peer for long enough keeps every record so. -/
theorem Binds.startRecord (h : Binds peer b k disk) {untilTime : Nat}
    (hle : b ≤ untilTime) : Binds peer b (k.startRecord held peer untilTime) disk := by
  rcases k.startRecord_cases held peer untilTime with ⟨-, hk⟩ | hk <;> rw [hk]
  · exact { h with
        background := fun r hr => by cases hr; exact ⟨rfl, hle⟩
        wanted := fun w hw => by cases hw }
  · exact { h with wanted := fun w hw => by cases hw; exact ⟨rfl, hle⟩ }

/-- **What adopting does**: nothing, or the write in progress has ended and the record is what it
wrote, or what it was. -/
theorem adoptBackgroundRecord_cases (k : PromiseRecords) : k.adoptBackgroundRecord = k ∨
    ∃ record, k.background = some record ∧ ((k.recorder.outcome = some true ∧ k.adoptBackgroundRecord =
        { k with background := none, recorder := { k.recorder with outcome := none }
                 recordedTo := record.promisedTo, recordedUntil := record.untilTime
                 recordedStatement := record.statement }) ∨
                   (k.recorder.outcome = some false ∧ k.adoptBackgroundRecord =
        { k with background := none, recorder := { k.recorder with outcome := none } })) := by
  unfold adoptBackgroundRecord backgroundResult
  cases hb : k.background with
  | none => exact .inl rfl
  | some record =>
    cases ho : k.recorder.outcome with
    | none => exact .inl rfl
    | some written =>
      refine .inr ⟨record, rfl, ?_⟩
      cases written with
      | true => exact .inl ⟨rfl, rfl⟩
      | false => exact .inr ⟨rfl, rfl⟩

/-- Adopting a finished write keeps the records sound. -/
theorem Sound.adopt (h : Sound peer limit k disk) : Sound peer limit k.adoptBackgroundRecord disk := by
  rcases k.adoptBackgroundRecord_cases with hk | ⟨record, hb, hk⟩
  · rw [hk]
    exact h
  have hwriting : k.recorder.writing = none := by
    rcases h.busy record hb with ⟨-, hn⟩ | ⟨hw, -⟩
    · rcases hk with ⟨ho, -⟩ | ⟨ho, -⟩ <;> rw [ho] at hn <;> cases hn
    · exact hw
  rcases hk with ⟨ho, hk⟩ | ⟨ho, hk⟩ <;> rw [hk]
  · have hdisk := h.landed record hb (by simp [hasLanded, ho])
    exact
      { idle := fun _ => hwriting
        busy := nofun
        landed := nofun
        before := fun _ => .inr ⟨record, hdisk, rfl, rfl⟩
        recorded_le := fun hp => (h.background_le record hb hp).1
        background_le := nofun
        wanted_le := fun u hw =>
          ⟨(h.wanted_le u hw).1, fun hp => (h.wanted_le u hw).2.2 record hb hp,
            nofun⟩ }
  · have hbefore := h.before (.inr (by
      simp [hasLanded, ho, hwriting]))
    exact
      { h with
        idle := fun _ => hwriting
        busy := nofun
        landed := nofun
        before := fun _ => hbefore
        background_le := nofun
        wanted_le := fun u hw =>
          ⟨(h.wanted_le u hw).1, (h.wanted_le u hw).2.1, nofun⟩ }

/-- Adopting a finished write keeps every record naming the peer for long enough. -/
theorem Binds.adopt (h : Binds peer b k disk) : Binds peer b k.adoptBackgroundRecord disk := by
  rcases k.adoptBackgroundRecord_cases with hk | ⟨record, hb, ⟨-, hk⟩ | ⟨-, hk⟩⟩ <;> rw [hk]
  · exact h
  · exact
      { recorded := h.background record hb
        background := nofun
        wanted := h.wanted
        onDisk := h.onDisk }
  · exact { h with background := fun _ hr => by cases hr }

/-- Starting the record that waits keeps the records sound. -/
theorem Sound.startWanted (h : Sound peer limit k disk) (held : LeaderStatement) :
    Sound peer limit (k.startWantedRecord held) disk := by
  unfold startWantedRecord
  split
  · rename_i promisedTo untilTime hw
    split
    · refine h.startRecord fun hp => ?_
      rw [hp] at hw
      exact h.wanted_le untilTime hw
    · exact h
  · exact h

/-- Starting the record that waits keeps every record naming the peer for long enough. -/
theorem Binds.startWanted (h : Binds peer b k disk) (held : LeaderStatement) :
    Binds peer b (k.startWantedRecord held) disk := by
  unfold startWantedRecord
  split
  · rename_i promisedTo untilTime hw
    obtain ⟨hp, hle⟩ := h.wanted _ hw
    split
    · rw [show promisedTo = peer from hp]
      exact h.startRecord hle
    · exact h
  · exact h

/-- Writing a statement keeps the records sound: the promise is written unchanged. -/
theorem Sound.writeStatement (h : Sound peer limit k disk) (held : LeaderStatement) :
    Sound peer limit (k.writeStatementIfNeeded held) disk := by
  unfold writeStatementIfNeeded
  split
  · exact h
  · rename_i hn
    refine h.startRecord fun hp => ⟨h.recorded_le hp, fun _ => le_refl _, fun r hr => ?_⟩
    simp [hr] at hn

/-- Writing a statement keeps every record naming the peer for long enough. -/
theorem Binds.writeStatement (h : Binds peer b k disk) (held : LeaderStatement) :
    Binds peer b (k.writeStatementIfNeeded held) disk := by
  unfold writeStatementIfNeeded
  split
  · exact h
  · rw [h.recorded.1]
    exact h.startRecord h.recorded.2

variable {expiresAt : Nat}

/-- **What asking whether a promise is covered can do**: adopt a finished write, and start the one
that will cover the promise. -/
theorem covers_cases (k : PromiseRecords) (held : LeaderStatement) (promisedTo : Int) (expiresAt : Nat) :
    (k.covers held promisedTo expiresAt).2 = k.adoptBackgroundRecord ∨
      (k.covers held promisedTo expiresAt).2 =
        k.adoptBackgroundRecord.startRecord held promisedTo (expiresAt + promiseRecordMargin) := by
  unfold covers refreshInBackground
  dsimp only
  split
  · split
    · exact .inl rfl
    · exact .inr rfl
  split
  · exact .inr rfl
  · exact .inl rfl

/-- Asking whether a promise is covered keeps the records sound, if a promise to the peer runs as
long as any can. -/
theorem Sound.covers (h : Sound peer limit k disk)
    (hp : promisedTo = peer → expiresAt + promiseRecordMargin = limit) :
    Sound peer limit (k.covers held promisedTo expiresAt).2 disk := by
  have h' := h.adopt
  rcases k.covers_cases held promisedTo expiresAt with hk | hk <;> rw [hk]
  · exact h'
  · refine h'.startRecord fun hpeer => ?_
    rw [hp hpeer]
    exact ⟨le_refl _, h'.recorded_le, fun r hr hpr => (h'.background_le r hr hpr).1⟩

/-- Asking whether a promise to the peer is covered keeps every record naming the peer for long
enough. -/
theorem Binds.covers (h : Binds peer b k disk) (hle : b ≤ expiresAt + promiseRecordMargin) :
    Binds peer b (k.covers held peer expiresAt).2 disk := by
  rcases k.covers_cases held peer expiresAt with hk | hk <;> rw [hk]
  · exact h.adopt
  · exact h.adopt.startRecord hle

/-- A promise is covered only if the record on disk names its candidate for long enough. -/
theorem recorded_of_covers (hc : (k.covers held promisedTo expiresAt).1 = true) :
    k.adoptBackgroundRecord.recordedTo = promisedTo ∧ expiresAt ≤ k.adoptBackgroundRecord.recordedUntil := by
  unfold covers at hc
  dsimp only at hc
  split at hc
  · assumption
  · split at hc <;> cases hc

/-- **A covered promise binds every record**, if no record that names another instance is being
written or waits to be. -/
theorem Sound.binds_of_covers (h : Sound peer limit k disk) (hpeer : peer ≠ 0)
    (hc : (k.covers held peer expiresAt).1 = true)
    (hbackground : ∀ record, k.adoptBackgroundRecord.background = some record → record.promisedTo = peer)
    (hwanted : ∀ wanted, k.adoptBackgroundRecord.wanted = some wanted → wanted.1 = peer) :
    Binds peer expiresAt (k.covers held peer expiresAt).2 disk := by
  have h' := h.adopt
  have hrec := recorded_of_covers hc
  have hcases := k.covers_cases held peer expiresAt
  generalize k.adoptBackgroundRecord = k' at h' hbackground hwanted hrec hcases
  have hbinds : Binds peer expiresAt k' disk :=
    { recorded := hrec
      background := fun r hr =>
        ⟨hbackground r hr, hrec.2.trans ((h'.background_le r hr (hbackground r hr)).2 hrec.1)⟩
      wanted := fun w hw => by
        obtain ⟨wantedTo, wantedUntil⟩ := w
        obtain rfl : wantedTo = peer := hwanted _ hw
        exact ⟨rfl, hrec.2.trans ((h'.wanted_le wantedUntil hw).2.1 hrec.1)⟩
      onDisk := by
        -- the disk has the record the agent takes to be there, or the one being written
        by_cases hl : k'.background = none ∨ k'.recorder.hasLanded = false
        · rcases h'.before hl with ⟨-, h0⟩ | ⟨d, hd, hto, huntil⟩
          · exact absurd (hrec.1.symm.trans h0) hpeer
          · exact ⟨d, hd, hto.trans hrec.1, huntil ▸ hrec.2⟩
        · obtain ⟨hb, hl⟩ := not_or.mp hl
          obtain ⟨r, hr⟩ := Option.ne_none_iff_exists'.mp hb
          have hp := hbackground r hr
          exact ⟨r, h'.landed r hr (by simpa using hl), hp,
            hrec.2.trans ((h'.background_le r hr hp).2 hrec.1)⟩ }
  rcases hcases with hk | hk <;> rw [hk]
  · exact hbinds
  · exact hbinds.startRecord (Nat.le_add_right _ _)

end PromiseRecords

end PubsubVenue
