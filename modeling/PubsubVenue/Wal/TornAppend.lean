import PubsubVenue.Wal.Cursor
import PubsubVenue.Wal.Writer

/-! # Recovery after a torn append

A process appends to the log, dies inside an append and leaves some first bytes of the entry behind.
The log is opened again, written on and opened once more. `WalReader.cpp` calls such bytes the
unfinished entry a crash leaves, not damage. The entries that follow are written over them, but only
as far as they reach: when the segment is left before all of them are overwritten, the readers find
bytes that are not an entry before the entries of the next segment. `Wal::truncate_after` zeroes the
rest of the segment for this reason; `Wal::open` does not.

* **`TornAppend.recovers_iff`**: the readers hand on exactly the entries whose append completed, at
  both openings, if and only if no valid entry starts in what the crash left, the entries that
  follow overwrite all of it before the segment is left, and six digits number the segments.
* **`TornAppend.reported_damaged`**: 30 bytes left behind by a crash, and an entry after them that
  does not fit into the segment, have the log reported damaged. -/

namespace PubsubVenue

open List WalWriter

/-- `Wal::open`, without a snapshot: the writer, and what is replayed. -/
def Wal.openAt (directory : String) (segmentSize : Nat) (segments : List Bytes) :
    Except String (WalWriter × List WalRecord) :=
  match replay directory segments WalPosition.start with
  | .error e => .error e
  | .ok (records, reached) => (WalWriter.openAt segmentSize segments reached).map fun w => (w, records)

/-- A history of a log: what was appended, the append a crash ended and how many of its bytes it had
written, whether the helper had made the segment after that one, and what was appended after the log
was opened again. -/
structure TornAppend where
  directory : String
  segmentSize : Nat
  appended : List WalAction
  torn : WalEntry
  written : Nat
  prepared : Bool
  further : List WalAction
  openable : 58 ≤ segmentSize
  unfinished : written < torn.size

namespace TornAppend

variable (h : TornAppend)

/-- The files after the crash. -/
def crash (w : WalWriter) : List Bytes :=
  if h.prepared then (w.tornAppend h.torn h.written).prepare.segments
  else (w.tornAppend h.torn h.written).segments

/-- The entries whose append completed before the crash and after it, and what each reader handed on
at each of the two openings that follow. -/
structure Outcome where
  completed : List WalRecord
  more : List WalRecord
  firstReplay : List WalRecord
  firstCursor : List WalRecord
  secondReplay : List WalRecord
  secondCursor : List WalRecord
  deriving DecidableEq

/-- Open the log and read it from its start: the writer, what is replayed and what the cursor hands
on. -/
def reopen (segments : List Bytes) : Except String (WalWriter × List WalRecord × List WalRecord) := do
  let opened ← Wal.openAt h.directory h.segmentSize segments
  let read ← WalCursor.readFromStart h.directory segments
  return (opened.1, opened.2, read)

/-- The history as it happens. -/
def outcome : Except String Outcome := do
  let opened ← Wal.openAt h.directory h.segmentSize []
  let appended := opened.1.run h.appended
  let first ← h.reopen (h.crash appended.1)
  let further := first.1.run h.further
  let second ← h.reopen further.1.segments
  return { completed := appended.2, more := further.2, firstReplay := first.2.1, firstCursor := first.2.2,
           secondReplay := second.2.1, secondCursor := second.2.2 }

/-- **The log recovers**: no opening fails and no reader reports the log damaged, and each hands on
exactly the entries whose append completed. -/
def Recovers : Prop :=
  match h.outcome with
  | .error _ => False
  | .ok o =>
    o.firstReplay = o.completed ∧ o.firstCursor = o.completed ∧ o.secondReplay = o.completed ++ o.more ∧
      o.secondCursor = o.completed ++ o.more

/-! ## What a history leaves behind -/

/-- How far the log reaches before the torn append. -/
def extent : Extent :=
  Extent.run h.segmentSize { current := 0, offset := 0, files := 1 } h.appended

/-- The bytes that the torn append wrote. An entry that no segment can hold is refused before. -/
def tornBytes : Bytes :=
  if h.torn.size > h.segmentSize then [] else h.torn.bytes.take h.written

/-- The torn append went to the next segment. -/
def Rolled : Prop :=
  h.torn.size ≤ h.segmentSize ∧ h.segmentSize < h.extent.offset + h.torn.size
  deriving Decidable

/-- Where in its segment the torn append wrote. -/
def tornOffset : Nat := if h.Rolled then 0 else h.extent.offset

/-- What the crash left in that segment, from there to its end. -/
def leftBehind : Bytes :=
  h.tornBytes ++ blank (h.segmentSize - h.tornOffset - h.tornBytes.length)

/-- How far that segment is filled after the crash, and the actions from the one on that leaves it.
When the torn append went to the next segment, the log is opened at the end of the one before it,
which is filled first. -/
def filled : Nat × List WalAction :=
  let first := fillSegment h.segmentSize h.extent.offset h.further
  if h.Rolled then fillSegment h.segmentSize 0 first.2 else first

/-- **The torn bytes are overwritten** before the segment is left, or are zero from there on. -/
def Overwritten : Prop :=
  h.filled.2 ≠ [] → Zero (h.tornBytes.drop (h.filled.1 - h.tornOffset))

/-- How many segment files the crash leaves. -/
def crashedFiles : Nat :=
  let current := if h.Rolled then h.extent.current + 1 else h.extent.current
  let files := max h.extent.files (current + 1)
  if h.prepared then max files (current + 2) else files

/-- How many segment files there are in the end. -/
def files : Nat :=
  (Extent.run h.segmentSize { h.extent with files := h.crashedFiles } h.further).files

/-! ## The log after the crash -/

/-- **What a log opened again after the crash is**: the tape `t` of before, with what the crash left
in the segment that the torn append wrote to. -/
structure Crashed (h : TornAppend) (t : Tape) (t' : Tape) : Prop where
  before : t'.before = t.before
  entries : t'.current.entries = t.current.entries
  sized : ∀ s ∈ t'.log, s.bytes.length = h.segmentSize
  files : t'.log.length = h.crashedFiles
  few : t'.after.length ≤ 2
  stayed : ¬h.Rolled → t'.current.tail = h.leftBehind ∧ ∀ s ∈ t'.after, s.Unused
  rolled : h.Rolled → Zero t'.current.tail ∧
    ∃ rest, t'.after = { entries := [], tail := h.leftBehind } :: rest ∧ ∀ s ∈ rest, s.Unused

/-- The tape of a log that was just made. -/
def blankTape (segmentSize : Nat) : Tape :=
  { before := [], current := { entries := [], tail := blank segmentSize }, after := [] }

variable {h} {w : WalWriter} {t : Tape}

/-- A tape that only entries were appended to. -/
structure Appended (h : TornAppend) (t : Tape) : Prop where
  zero : ∀ s ∈ t.log, Zero s.tail
  unstarted : ∀ s ∈ t.after, s.entries = []
  extent : t.extent = h.extent
  few : t.after.length ≤ 1
  sized : ∀ s ∈ t.log, s.bytes.length = h.segmentSize

theorem Appended.unused (ht : h.Appended t) : ∀ s ∈ t.after, s.Unused := fun s hs =>
  ⟨ht.unstarted s hs, ht.zero s (mem_append_right _ (mem_cons_of_mem _ hs))⟩

/-- Where a tape stands, by its segments. -/
theorem Appended.place (ht : h.Appended t) :
    h.extent.current = t.before.length ∧ h.extent.files = t.before.length + 1 + t.after.length := by
  rw [← ht.extent]
  refine ⟨rfl, ?_⟩
  simp only [Tape.extent, Tape.log, length_append, length_cons]
  omega

/-- Zeros are the space never written of their length. -/
theorem eq_blank {bs : Bytes} (h : Zero bs) : bs = blank bs.length :=
  eq_replicate_iff.mpr ⟨rfl, h⟩

/-- Bytes over the start of space never written. -/
theorem smear_blank {bytes tail : Bytes} (hzero : Zero tail) :
    bytes ++ tail.drop bytes.length = bytes ++ blank (tail.length - bytes.length) := by
  rw [eq_blank (hzero.drop bytes.length), length_drop]

theorem length_tornBytes_le (h : TornAppend) : h.tornBytes.length ≤ h.torn.size := by
  unfold tornBytes
  split
  · exact Nat.zero_le _
  · rw [length_take, h.torn.length_bytes]
    exact Nat.min_le_right _ _

theorem tail_length {n : Nat} (hsized : ∀ s ∈ t.log, s.bytes.length = n) :
    t.current.tail.length = n - t.offset := by
  have hcurrent := hsized t.current (mem_append_right _ mem_cons_self)
  rw [Segment.length_bytes] at hcurrent
  unfold Tape.offset
  omega

/-- **The torn append** leaves its bytes over the tail of the segment it went to. -/
theorem tornAppend_stands (hw : w.Writes t) (hsize : w.segmentSize = h.segmentSize) (ht : h.Appended t) :
    ∃ r, (w.tornAppend h.torn h.written).Stands r ∧
      (w.tornAppend h.torn h.written).segmentSize = h.segmentSize ∧
      (¬h.Rolled → r.before = t.before ∧ r.after = t.after ∧
        r.current = { entries := t.current.entries, tail := h.leftBehind }) ∧
      (h.Rolled → r.before = t.before ++ [t.current] ∧ r.after = t.after.tail ∧
        r.current = { entries := [], tail := h.leftBehind }) := by
  have hoffset : t.offset = h.extent.offset := congrArg Extent.offset ht.extent
  have hzero : Zero t.current.tail := ht.zero _ (mem_append_right _ mem_cons_self)
  by_cases hfits : h.torn.size > h.segmentSize
  · -- refused: nothing is written
    have hrolled : ¬h.Rolled := fun hr => absurd hr.1 (Nat.not_le.mpr hfits)
    have hrefused : w.tornAppend h.torn h.written = w := by
      unfold tornAppend ensureCapacity
      rw [hsize, if_pos hfits]
    have hleft : h.leftBehind = t.current.tail := by
      rw [eq_blank hzero, tail_length ht.sized, hoffset]
      unfold leftBehind tornBytes tornOffset
      rw [if_neg hrolled, if_pos hfits]
      rfl
    rw [hrefused]
    exact ⟨t, hw.toStands, hsize, fun _ => ⟨rfl, rfl, by rw [hleft]⟩, fun hr => absurd hr hrolled⟩
  · have hbytes : h.tornBytes = h.torn.bytes.take h.written := if_neg hfits
    obtain ⟨w', hensure, hsize', hstands, hroom⟩ := hw.ensureCapacity (hsize.symm ▸ Nat.le_of_not_lt hfits)
    have htorn : w.tornAppend h.torn h.written = w'.copy h.tornBytes := by
      unfold tornAppend
      rw [hensure, hbytes]
    have hwithin := length_tornBytes_le h
    rw [hsize] at hstands hroom hsize'
    rw [htorn]
    refine ⟨_, hstands.smear (by omega), hsize', fun hstay => ?_, fun hroll => ?_⟩
    · have hroom' : t.offset + h.torn.size ≤ h.segmentSize := by
        by_contra hover
        exact hstay ⟨Nat.le_of_not_lt hfits, by omega⟩
      rw [Tape.ensureCapacity, if_pos hroom']
      refine ⟨rfl, rfl, ?_⟩
      simp only [Tape.smear, smear_blank hzero, tail_length ht.sized, leftBehind, tornOffset,
        if_neg hstay, hoffset]
    · have hover : ¬t.offset + h.torn.size ≤ h.segmentSize := by
        have := hroll.2
        omega
      have hnext : Zero (t.roll h.segmentSize).current.tail :=
        (Tape.clean_roll fun s hs => (ht.unused s hs).2).1
      have hlength : (t.roll h.segmentSize).current.tail.length = h.segmentSize := by
        have hsized := hstands.sized
        rw [Tape.ensureCapacity, if_neg hover, hsize'] at hsized
        rw [tail_length hsized, Tape.offset_roll ht.unstarted, Nat.sub_zero]
      rw [Tape.ensureCapacity, if_neg hover]
      refine ⟨Tape.before_roll, ?_, ?_⟩
      · unfold Tape.smear Tape.roll
        cases t.after <;> rfl
      · simp only [Tape.smear, smear_blank hnext, hlength, leftBehind, tornOffset, if_pos hroll,
          (Tape.unstarted_roll ht.unstarted).2, Nat.sub_zero]

/-- **The tape `r'` is `r` with the helper's segment behind it**, where the helper had made one. -/
structure Prepared (h : TornAppend) (r r' : Tape) : Prop where
  before : r'.before = r.before
  current : r'.current = r.current
  sized : ∀ s ∈ r'.log, s.bytes.length = h.segmentSize
  files : r'.log.length = if h.prepared then max r.log.length (r.before.length + 2) else r.log.length
  after : (r.after.length ≤ 1 → r'.after.length ≤ 1) ∧
    ((∀ s ∈ r.after, s.Unused) → ∀ s ∈ r'.after, s.Unused)

variable {r r' : Tape}

/-- The files that the crash leaves, from those that the torn append left. -/
theorem crash_prepared (hstands : (w.tornAppend h.torn h.written).Stands r)
    (hsize : (w.tornAppend h.torn h.written).segmentSize = h.segmentSize) :
    ∃ r', h.crash w = r'.log.map Segment.bytes ∧ h.Prepared r r' := by
  have hsized := hsize ▸ hstands.sized
  unfold crash
  cases hp : h.prepared with
  | false => exact ⟨r, hstands.segments, rfl, rfl, hsized, by simp [hp], id, id⟩
  | true =>
    have hafter : (r.prepare h.segmentSize).after = r.after ∨
        (r.prepare h.segmentSize).after = [{ entries := [], tail := blank h.segmentSize }] := by
      unfold Tape.prepare
      cases hafter : r.after with
      | nil => exact .inr rfl
      | cons => exact .inl hafter
    refine ⟨r.prepare h.segmentSize, hsize ▸ hstands.createAndMap, Tape.before_prepare, Tape.current_prepare,
      Tape.sized_prepare hsized, by simp only [hp, if_true, Tape.files_prepare], ?_⟩
    rcases hafter with hsame | hnew
    · rw [hsame]
      exact ⟨id, id⟩
    · rw [hnew]
      refine ⟨fun _ => Nat.le_refl 1, fun _ s hs => ?_⟩
      rw [mem_singleton.mp hs]
      exact ⟨rfl, zero_replicate _⟩

section

variable (ht : h.Appended t) (hr : h.Prepared r r')
include ht hr

/-- The torn append went to the current segment. -/
theorem Prepared.of_stayed (hrolled : ¬h.Rolled) (hb : r.before = t.before) (ha : r.after = t.after)
    (hc : r.current = { entries := t.current.entries, tail := h.leftBehind }) : h.Crashed t r' where
  before := hr.before.trans hb
  entries := by rw [hr.current, hc]
  sized := hr.sized
  files := by
    rw [hr.files, Tape.log, hb, ha, length_append, length_cons]
    unfold crashedFiles
    simp only [if_neg hrolled, ht.place]
    split <;> omega
  few := (hr.after.1 (ha ▸ ht.few)).trans (Nat.le_succ 1)
  stayed _ := ⟨by rw [hr.current, hc], hr.after.2 (ha ▸ ht.unused)⟩
  rolled h := absurd h hrolled

/-- The torn append rolled over to the next segment, which is taken for one behind the current. -/
theorem Prepared.of_rolled (hrolled : h.Rolled) (hb : r.before = t.before ++ [t.current])
    (ha : r.after = t.after.tail) (hc : r.current = { entries := [], tail := h.leftBehind }) :
    h.Crashed t { before := t.before, current := t.current, after := r'.current :: r'.after } := by
  have hfew := ht.few
  have hlog : (Tape.log
    { before := t.before, current := t.current, after := r'.current :: r'.after }) = r'.log := by
    unfold Tape.log
    rw [hr.before, hb, append_assoc, singleton_append]
  refine
    { before := rfl
      entries := rfl
      sized := hlog ▸ hr.sized
      files := ?_
      few := Nat.succ_le_succ (hr.after.1 (by rw [ha, length_tail]; omega))
      stayed := fun hstay => absurd hrolled hstay
      rolled := fun _ => ⟨ht.zero _ (mem_append_right _ mem_cons_self), r'.after, ?_, hr.after.2 ?_⟩ }
  · rw [hlog, hr.files, Tape.log, hb, ha]
    unfold crashedFiles
    simp only [if_pos hrolled, ht.place, length_append, length_cons, length_nil, length_tail]
    split <;> omega
  · rw [hr.current, hc]
  · rw [ha]
    exact fun s hs => ht.unused s (mem_of_mem_tail hs)

end

/-- **The crash** leaves the files of a tape with the torn bytes in it. -/
theorem crash_eq (hw : w.Writes t) (hsize : w.segmentSize = h.segmentSize) (ht : h.Appended t) :
    ∃ t', h.crash w = t'.log.map Segment.bytes ∧ h.Crashed t t' := by
  obtain ⟨r, hstands, hsize', hstay, hroll⟩ := tornAppend_stands hw hsize ht
  obtain ⟨r', hcrash, hr⟩ := crash_prepared hstands hsize'
  by_cases hrolled : h.Rolled
  · obtain ⟨hb, ha, hc⟩ := hroll hrolled
    refine ⟨_, ?_, hr.of_rolled ht hrolled hb ha hc⟩
    rw [hcrash, Tape.log, hr.before, hb, append_assoc]
    rfl
  · obtain ⟨hb, ha, hc⟩ := hstay hrolled
    exact ⟨r', hcrash, hr.of_stayed ht hrolled hb ha hc⟩

/-! ## Opening the log again -/

/-- Where the entries of a tape end. -/
theorem reached_log (hstarted : t.current.entries ≠ [] ∨ t.before = [])
    (hunstarted : ∀ s ∈ t.after, s.entries = []) :
    reachedFrom WalPosition.start 0 t.log = { segment := t.before.length, offset := t.offset } := by
  unfold Tape.log Tape.offset
  rw [reachedFrom_append, reachedFrom, reachedFrom_of_nil hunstarted, Nat.zero_add]
  by_cases hentries : t.current.entries = []
  · rw [hstarted.resolve_left (not_not.mpr hentries), Segment.written_of_nil hentries]
    rfl
  · rw [if_pos (Segment.written_length_pos.mpr hentries)]

theorem bytes_ne_nil (hw : w.Writes t) (hn : 58 ≤ w.segmentSize) : ∀ s ∈ t.log, s.bytes ≠ [] := by
  intro s hs hnil
  have hlength := hw.sized s hs
  rw [hnil, length_nil] at hlength
  omega

/-- **Opening a log that is readable** hands on its entries and takes the writer to their end. -/
theorem openAt_of_readable (directory : String) (hw : w.Writes t) (hn : 58 ≤ w.segmentSize)
    (hread : Readable t.log) (hcount : t.log.length ≤ 1000000) :
    Wal.openAt directory w.segmentSize w.segments = .ok (w, recordsFrom 0 t.log) := by
  have hreplay := replay_of_readable directory hcount (bytes_ne_nil hw hn) hread
  have hexists : t.before.length < w.segments.length := by
    rw [hw.segments, length_map, Tape.log, length_append, length_cons]
    omega
  unfold Wal.openAt openAt
  rw [hw.segments, hreplay, reached_log hw.started hw.unstarted, ← hw.segments]
  simp only
  rw [if_neg (by omega), PubsubVenue.createAndMap, if_pos hexists, ← hw.current, ← hw.offset]
  rfl

/-- **A log that opens with exactly its entries** has no more segments than six digits number, and
no valid entry in its tails. -/
theorem quiet_of_openAt {directory : String} {w' : WalWriter} (hw : w.Writes t) (hn : 58 ≤ w.segmentSize)
    (hfew : t.after.length ≤ 2)
    (h : Wal.openAt directory w.segmentSize w.segments = .ok (w', recordsFrom 0 t.log)) :
    t.log.length ≤ 1000000 ∧ ∀ s ∈ t.log, Quiet s.tail := by
  obtain ⟨reached, hreplay⟩ : ∃ reached,
      replay directory w.segments WalPosition.start = .ok (recordsFrom 0 t.log, reached) := by
    unfold Wal.openAt at h
    split at h
    · cases h
    · rename_i hreplay
      obtain ⟨_, -, hpair⟩ := map_eq_ok.mp h
      exact ⟨_, (Prod.mk.inj hpair).2 ▸ hreplay⟩
  rw [hw.segments] at hreplay
  refine quiet_of_replay (bytes_ne_nil hw hn) (fun s hs hmany => ?_) hreplay
  -- all but the last segments hold entries
  have hlength : t.log.length = t.before.length + (t.after.length + 1) := by
    rw [Tape.log, length_append, length_cons]
  refine hw.filled s ?_
  rw [Tape.log, getElem?_append_left (by omega)] at hs
  exact mem_of_getElem? hs

/-! ## The log after the entries that follow -/

variable {t' : Tape}

/-- The tape after the crash. -/
theorem Crashed.unstarted (hc : h.Crashed t t') : ∀ s ∈ t'.after, s.entries = [] := by
  by_cases hrolled : h.Rolled
  · obtain ⟨-, rest, hafter, hunused⟩ := hc.rolled hrolled
    rw [hafter]
    intro s hs
    rcases mem_cons.mp hs with rfl | hs
    · rfl
    · exact (hunused s hs).1
  · exact fun s hs => ((hc.stayed hrolled).2 s hs).1

/-- The writer after the log is opened again. -/
def reopened (h : TornAppend) (t : Tape) : WalWriter :=
  { segmentSize := h.segmentSize
    segments := t.log.map Segment.bytes
    currentSegment := t.before.length
    writeOffset := t.offset }

section

variable (hc : h.Crashed t t')

include hc

theorem Crashed.writes (hw : w.Writes t) : (h.reopened t').Writes t' where
  segments := rfl
  current := rfl
  offset := rfl
  sized := hc.sized
  filled := hc.before.symm ▸ hw.filled
  unstarted := hc.unstarted
  started := by
    rw [hc.before, hc.entries]
    exact hw.started

/-- The crash takes no entry away and adds none. -/
theorem Crashed.records (ht : h.Appended t) : recordsFrom 0 t'.log = recordsFrom 0 t.log := by
  rw [Tape.records_log hc.unstarted, Tape.records_log ht.unstarted, hc.before, hc.entries]

/-- Where the next entry goes is as before the crash. -/
theorem Crashed.offset (ht : h.Appended t) : t'.offset = h.extent.offset := by
  have hoffset : t.offset = h.extent.offset := congrArg Extent.offset ht.extent
  rw [← hoffset]
  unfold Tape.offset Segment.written
  rw [hc.entries]

/-- **A log with what the crash left is readable** when no valid entry starts in it. -/
theorem Crashed.readable (ht : h.Appended t) (hquiet : Quiet h.leftBehind) : Readable t'.log := by
  have hbefore : ∀ s ∈ t'.before, Zero s.tail := by
    rw [hc.before]
    exact fun s hs => ht.zero s (mem_append_left _ hs)
  by_cases hrolled : h.Rolled
  · obtain ⟨hzero, rest, hafter, hunused⟩ := hc.rolled hrolled
    refine readable_append hbefore ⟨hzero.quiet, .inl ⟨hzero, ?_⟩⟩
    rw [hafter]
    exact ⟨hquiet, .inr hunused⟩
  · obtain ⟨htail, hunused⟩ := hc.stayed hrolled
    exact readable_append hbefore ⟨htail.symm ▸ hquiet, .inr hunused⟩

/-- One of its tails is what the crash left. -/
theorem Crashed.mem_log : ∃ s ∈ t'.log, s.tail = h.leftBehind := by
  by_cases hrolled : h.Rolled
  · obtain ⟨-, rest, hafter, -⟩ := hc.rolled hrolled
    refine ⟨{ entries := [], tail := h.leftBehind }, ?_, rfl⟩
    refine mem_append_right _ (mem_cons_of_mem _ ?_)
    rw [hafter]
    exact mem_cons_self
  · exact ⟨t'.current, mem_append_right _ mem_cons_self, (hc.stayed hrolled).1⟩

/-- **The log after the entries that follow the crash**: in one segment stands what is left of the
torn bytes; entries follow in the next one when the segment was left. -/
theorem Crashed.log_run (ht : h.Appended t) :
    ∃ before s later, (t'.run h.segmentSize h.further).log = before ++ s :: later ∧
      (∀ u ∈ before, Zero u.tail) ∧ s.tail = h.leftBehind.drop (h.filled.1 - h.tornOffset) ∧
      (∀ u ∈ later, Zero u.tail) ∧ (h.filled.2 = [] → ∀ u ∈ later, u.Unused) ∧
      (h.filled.2 ≠ [] → ∃ next more, later = next :: more ∧ next.entries ≠ []) := by
  have hbefore : ∀ s ∈ t'.before, Zero s.tail := by
    rw [hc.before]
    exact fun s hs => ht.zero s (mem_append_left _ hs)
  have hoffset := hc.offset ht
  -- the torn bytes are in the segment behind the current one, or in the current one itself
  by_cases hrolled : h.Rolled
  · obtain ⟨hzero, rest, hafter, hunused⟩ := hc.rolled hrolled
    have hfilled : h.filled =
        fillSegment h.segmentSize 0 (fillSegment h.segmentSize t'.offset h.further).2 := by
      unfold filled
      rw [if_pos hrolled, hoffset]
    have htornOffset : h.tornOffset = 0 := if_pos hrolled
    obtain ⟨r, hrun, hrbefore, hroffset, hrtail, hrafter⟩ := Tape.run_fill (n := h.segmentSize) t' h.further
    have hrnext : r.after = { entries := [], tail := h.leftBehind } :: rest := by
      rcases hrafter with hrafter | ⟨hnil, -⟩
      · rw [hrafter, hafter]
      · rw [hafter] at hnil
        cases hnil
    have hrbefore' : ∀ u ∈ t'.before ++ [r.current], Zero u.tail := by
      intro u hu
      rcases mem_append.mp hu with hu | hu
      · exact hbefore u hu
      · rw [mem_singleton.mp hu, hrtail]
        exact hzero.drop _
    rcases fillSegment_rest h.segmentSize t'.offset h.further with hrest | ⟨e, more, hrest, hfits, hroom⟩
    · -- the segment before the torn bytes is not left
      have hnone : h.filled = (0, []) := by
        rw [hfilled, hrest]
        rfl
      refine ⟨t'.before ++ [r.current], { entries := [], tail := h.leftBehind }, rest, ?_, hrbefore', ?_,
        fun u hu => (hunused u hu).2, fun _ => hunused, fun hne => absurd (congrArg Prod.snd hnone) hne⟩
      · rw [hrun, hrest]
        unfold Tape.run Tape.log
        rw [foldl_nil, hrbefore, hrnext, append_assoc, singleton_append]
      · rw [hnone, htornOffset]
        rfl
    · -- it is left, and the torn bytes are at the start of the segment that is written then
      rw [← hroffset] at hroom
      have hrunstarted : ∀ s ∈ r.after, s.entries = [] := by
        rw [hrnext]
        intro s hs
        rcases mem_cons.mp hs with rfl | hs
        · rfl
        · exact (hunused s hs).1
      have hroll : r.roll h.segmentSize =
          { before := t'.before ++ [r.current]
            current := { entries := [], tail := h.leftBehind }
            after := rest } := by
        unfold Tape.roll
        rw [hrnext, hrbefore]
      obtain ⟨s, later, hlog, htail, hlater, hlast, hleft⟩ :=
        Tape.run_torn (n := h.segmentSize) (t := r.roll h.segmentSize) (by rw [hroll]; exact hunused)
          (.append e :: more)
      rw [Tape.offset_roll hrunstarted, ← hrest, ← hfilled] at htail hlast hleft
      refine ⟨t'.before ++ [r.current], s, later, ?_, hrbefore', ?_, hlater, hlast, hleft⟩
      · rw [hrun, hrest, Tape.run_roll hfits hroom hrunstarted, hlog, hroll]
      · rw [htail, hroll, htornOffset]
  · obtain ⟨htail, hunused⟩ := hc.stayed hrolled
    have hfilled : h.filled = fillSegment h.segmentSize t'.offset h.further := by
      unfold filled
      rw [if_neg hrolled, hoffset]
    have htornOffset : h.tornOffset = t'.offset := by
      rw [hoffset]
      exact if_neg hrolled
    obtain ⟨s, later, hlog, hstail, hlater, hlast, hleft⟩ :=
      Tape.run_torn (n := h.segmentSize) hunused h.further
    rw [← hfilled] at hstail hlast hleft
    refine ⟨t'.before, s, later, hlog, hbefore, ?_, hlater, hlast, hleft⟩
    rw [hstail, htail, htornOffset]

end

/-! ## The history -/

/-- A readable log is opened and read. -/
theorem reopen_of_readable (hw : w.Writes t) (hsize : w.segmentSize = h.segmentSize) (hread : Readable t.log)
    (hcount : t.log.length ≤ 1000000) :
    h.reopen w.segments = .ok (w, recordsFrom 0 t.log, recordsFrom 0 t.log) := by
  have hopen := openAt_of_readable h.directory hw (hsize ▸ h.openable) hread hcount
  have hnil : t.log ≠ [] := append_ne_nil_of_right_ne_nil _ (cons_ne_nil _ _)
  have hcursor := WalCursor.readFromStart_of_readable h.directory hnil hread
  rw [← hw.segments] at hcursor
  unfold reopen
  rw [← hsize, hopen]
  simp only [bind, Except.bind, hcursor]
  rfl

/-- A log that is opened and read with exactly its entries. -/
theorem quiet_of_reopen {w' : WalWriter} {read : List WalRecord} (hw : w.Writes t)
    (hsize : w.segmentSize = h.segmentSize) (hfew : t.after.length ≤ 2)
    (hopen : h.reopen w.segments = .ok (w', recordsFrom 0 t.log, read)) :
    t.log.length ≤ 1000000 ∧ ∀ s ∈ t.log, Quiet s.tail := by
  unfold reopen at hopen
  obtain ⟨opened, hfirst, hopen⟩ := bind_eq_ok.mp hopen
  obtain ⟨found, -, hopen⟩ := bind_eq_ok.mp hopen
  have hrecords : opened.2 = recordsFrom 0 t.log := congrArg (fun p => p.2.1) (Except.ok.inj hopen)
  have hopened : Wal.openAt h.directory w.segmentSize w.segments =
      .ok (opened.1, recordsFrom 0 t.log) := by rw [hsize, hfirst, ← hrecords]
  exact quiet_of_openAt hw (hsize ▸ h.openable) hfew hopened

section

variable (h)

/-- A log that does not exist is made. -/
theorem openAt_nil :
    Wal.openAt h.directory h.segmentSize [] = .ok (h.reopened (blankTape h.segmentSize), []) := by
  have hreplay : replay h.directory [] WalPosition.start = .ok ([], WalPosition.start) :=
    replay_of_readable h.directory (Nat.zero_le _) (fun s hs => (not_mem_nil hs).elim) trivial
  have hopenable := h.openable
  unfold Wal.openAt openAt
  rw [hreplay]
  simp only
  rw [if_neg (by omega)]
  rfl

theorem writes_blank : (h.reopened (blankTape h.segmentSize)).Writes (blankTape h.segmentSize) where
  segments := rfl
  current := rfl
  offset := rfl
  sized := by
    intro s hs
    rw [show (blankTape h.segmentSize).log = [{ entries := [], tail := blank h.segmentSize }] from rfl] at hs
    rw [mem_singleton.mp hs]
    exact length_replicate
  filled := nofun
  unstarted := nofun
  started := .inr rfl

/-- The tape before the crash. -/
theorem appended_run : h.Appended ((blankTape h.segmentSize).run h.segmentSize h.appended) := by
  obtain ⟨hsize, hwrites, -⟩ := writes_run (writes_blank h) h.appended
  have hclean : (blankTape h.segmentSize).Clean :=
    ⟨zero_replicate _, nofun⟩
  obtain ⟨s, later, hlog, -, hzero⟩ := Tape.run_clean (n := h.segmentSize) hclean h.appended
  exact
    { zero := by
        rw [hlog]
        exact hzero
      unstarted := hwrites.unstarted
      extent := Tape.extent_run (t := blankTape h.segmentSize) nofun h.appended
      few := Tape.length_after_run (Nat.zero_le 1) (Nat.le_refl 1) h.appended
      sized := fun s hs => (hwrites.sized s hs).trans hsize }

/-- **The history, up to the first opening after the crash.** -/
theorem exists_crashed :
    ∃ t t' : Tape, ∃ w : WalWriter, w.Writes t ∧ h.Appended t ∧ h.Crashed t t' ∧ h.outcome = (do
        let first ← h.reopen (h.reopened t').segments
        let further := first.1.run h.further
        let second ← h.reopen further.1.segments
        return { completed := recordsFrom 0 t'.log, more := further.2, firstReplay := first.2.1,
                 firstCursor := first.2.2, secondReplay := second.2.1, secondCursor := second.2.2 }) := by
  obtain ⟨hsize, hwrites, hrecords⟩ := writes_run (writes_blank h) h.appended
  have happended := appended_run h
  obtain ⟨t', hcrash, hcrashed⟩ := crash_eq hwrites hsize happended
  refine ⟨_, t', _, hwrites, happended, hcrashed, ?_⟩
  have hcompleted : ((h.reopened (blankTape h.segmentSize)).run h.appended).2 = recordsFrom 0 t'.log := by
    rw [hcrashed.records happended]
    exact hrecords.symm
  unfold outcome
  rw [openAt_nil h]
  simp only [bind, Except.bind, hcrash, hcompleted]
  rfl

end

/-- The number of files at the end is what the sizes of the entries say. -/
theorem Crashed.files_run (hc : h.Crashed t t') (ht : h.Appended t) :
    (t'.run h.segmentSize h.further).log.length = h.files := by
  have hextent : t'.extent = { h.extent with files := h.crashedFiles } := by
    have hcurrent : t.before.length = h.extent.current := congrArg Extent.current ht.extent
    unfold Tape.extent
    rw [hc.before, hcurrent, hc.offset ht, hc.files]
  have hrun := congrArg Extent.files (Tape.extent_run (n := h.segmentSize) hc.unstarted h.further)
  rw [hextent] at hrun
  exact hrun

/-- What is left of the torn bytes is zero when the log says so. -/
theorem zero_leftBehind {n : Nat} : Zero (h.leftBehind.drop n) ↔ Zero (h.tornBytes.drop n) := by
  unfold leftBehind
  rw [drop_append, zero_append]
  exact ⟨fun hz => hz.1, fun hz => ⟨hz, (zero_replicate _).drop _⟩⟩

/-- **The log at the end is readable** when the torn bytes are overwritten. -/
theorem Crashed.readable_run (hc : h.Crashed t t') (ht : h.Appended t) (hquiet : Quiet h.leftBehind)
    (hover : h.Overwritten) : Readable (t'.run h.segmentSize h.further).log := by
  obtain ⟨before, s, later, hlog, hbefore, htail, hlater, hlast, -⟩ := hc.log_run ht
  have hs : Quiet s.tail := htail.symm ▸ hquiet.drop _
  rw [hlog]
  refine readable_append hbefore ⟨hs, ?_⟩
  by_cases hleft : h.filled.2 = []
  · exact .inr (hlast hleft)
  · exact .inl ⟨htail.symm ▸ zero_leftBehind.mpr (hover hleft), readable_of_zero hlater⟩

/-- **The log at the end is reported damaged** when they are not. -/
theorem Crashed.damaged_run (hc : h.Crashed t t') (ht : h.Appended t)
    (hw : w.Writes (t'.run h.segmentSize h.further)) (hsize : w.segmentSize = h.segmentSize)
    (hquiet : Quiet h.leftBehind) (hcount : h.files ≤ 1000000) (hover : ¬h.Overwritten) :
    ∃ e, h.reopen w.segments = .error e := by
  obtain ⟨before, s, later, hlog, -, htail, hlater, -, hnext⟩ := hc.log_run ht
  obtain ⟨hleft, hnonzero⟩ := Classical.not_imp.mp hover
  obtain ⟨next, more, rfl, hentries⟩ := hnext hleft
  have hs : Quiet s.tail := htail.symm ▸ hquiet.drop _
  have hnonzero' : ¬Zero s.tail := by
    rw [htail, zero_leftBehind]
    exact hnonzero
  have hfiles := hc.files_run ht
  obtain ⟨e, herror⟩ := replay_of_left_behind h.directory hlog (by omega)
    (bytes_ne_nil hw (hsize ▸ h.openable)) hs hnonzero' (hlater next mem_cons_self).quiet hentries
  refine ⟨e, ?_⟩
  unfold reopen Wal.openAt
  rw [hw.segments, herror]
  rfl

/-- **What recovery takes**: a log that recovers had nothing valid in what the crash left, its torn
bytes were overwritten, and six digits number its segments. -/
theorem condition_of_recovers (hrecovers : h.Recovers) :
    Quiet h.leftBehind ∧ h.Overwritten ∧ h.files ≤ 1000000 := by
  obtain ⟨t, t', w, hw, ht, hc, houtcome⟩ := exists_crashed h
  have hwrites := hc.writes hw
  obtain ⟨hsize, hwrites', hrecords⟩ := writes_run hwrites h.further
  have hfiles : (Tape.run (h.reopened t').segmentSize t' h.further).log.length = h.files := hc.files_run ht
  unfold Recovers at hrecovers
  cases hresult : h.outcome with
  | error =>
    rw [hresult] at hrecovers
    exact hrecovers.elim
  | ok =>
    rw [hresult] at hrecovers houtcome
    obtain ⟨first, hopen, hrest⟩ := bind_eq_ok.mp houtcome.symm
    obtain ⟨second, hlast, hrest⟩ := bind_eq_ok.mp hrest
    cases hrest
    obtain ⟨hcompleted, -, hall, -⟩ := hrecovers
    simp only at hcompleted hall
    -- the first opening finds exactly the entries, so nothing valid was left
    have hexact : h.reopen (h.reopened t').segments = .ok (first.1, recordsFrom 0 t'.log, first.2.2) := by
      rw [hopen, ← hcompleted]
    obtain ⟨hcount, hquiets⟩ := quiet_of_reopen hwrites rfl hc.few hexact
    obtain ⟨s, hs, htail⟩ := hc.mem_log
    have hquiet : Quiet h.leftBehind := htail ▸ hquiets s hs
    -- and the writer goes on from the end of the entries
    have hfirst := reopen_of_readable hwrites rfl (hc.readable ht hquiet) hcount
    rw [hopen] at hfirst
    have hwriter : first.1 = h.reopened t' := congrArg Prod.fst (Except.ok.inj hfirst)
    rw [hwriter] at hlast hall
    have hexact' : h.reopen ((h.reopened t').run h.further).1.segments =
        .ok (second.1, recordsFrom 0 (Tape.run (h.reopened t').segmentSize t' h.further).log,
          second.2.2) := by
      rw [hlast, hrecords, ← hall]
    have hcount' :=
      (quiet_of_reopen hwrites' hsize (Tape.length_after_run hc.few (by decide) h.further)
        hexact').1
    refine ⟨hquiet, ?_, by omega⟩
    by_contra hover
    obtain ⟨e, herror⟩ := hc.damaged_run ht hwrites' hsize hquiet (by omega) hover
    rw [herror] at hlast
    cases hlast

/-- **Recovery of the log after a torn append.** Whatever was appended, however much of an entry a
crash left behind and whatever is appended after it: both readers hand on exactly the entries whose
append completed, at each of the two openings, and never report the log damaged, if and only if no
valid entry starts in what the crash left, the entries that follow overwrite the torn bytes before
the segment is left, and six digits number the segments. -/
theorem recovers_iff (h : TornAppend) :
    h.Recovers ↔ Quiet h.leftBehind ∧ h.Overwritten ∧ h.files ≤ 1000000 := by
  refine ⟨condition_of_recovers, ?_⟩
  rintro ⟨hquiet, hover, hcount⟩
  obtain ⟨t, t', w, hw, ht, hc, houtcome⟩ := exists_crashed h
  have hwrites := hc.writes hw
  obtain ⟨hsize, hwrites', hrecords⟩ := writes_run hwrites h.further
  have hfiles : (Tape.run (h.reopened t').segmentSize t' h.further).log.length = h.files := hc.files_run ht
  have hmore : h.crashedFiles ≤ h.files :=
    Extent.le_run h.segmentSize { h.extent with files := h.crashedFiles } h.further
  have hcrashed := hc.files
  have hfirst := reopen_of_readable hwrites rfl (hc.readable ht hquiet) (by omega)
  have hsecond := reopen_of_readable hwrites' hsize (hc.readable_run ht hquiet hover) (by omega)
  unfold Recovers
  rw [houtcome]
  simp only [bind, Except.bind, hfirst, hsecond]
  exact ⟨rfl, rfl, hrecords, hrecords⟩

/-- An entry with a payload of the size given. -/
def entryOf (recordId : Int64) (size : Fin 1000) : WalEntry :=
  { recordId := recordId
    payload := replicate size 7
    fits := by
      rw [length_replicate]
      omega }

/-- A crash that leaves 30 of the 48 bytes of an entry behind the first one, in a segment of 100
bytes, and then an entry of 70 bytes, which goes to the next segment. -/
def leavesThirtyBytes : TornAppend :=
  { directory := "wal"
    segmentSize := 100
    appended := [.append (entryOf 1 12)]
    torn := entryOf 2 20
    written := 30
    prepared := false
    further := [.append (entryOf 3 42)]
    openable := by decide
    unfinished := by decide }

/-- **Reported damaged.** The torn bytes stay behind in the first segment, and the second opening
reports them. -/
theorem reported_damaged : ¬leavesThirtyBytes.Recovers := by
  have hleft : leavesThirtyBytes.filled.2 ≠ [] := by decide +kernel
  have hwritten : ¬Zero (leavesThirtyBytes.tornBytes.drop
      (leavesThirtyBytes.filled.1 - leavesThirtyBytes.tornOffset)) := by decide +kernel
  exact mt condition_of_recovers fun hcondition => hwritten (hcondition.2.1 hleft)

end TornAppend

end PubsubVenue
