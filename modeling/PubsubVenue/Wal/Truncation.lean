import PubsubVenue.Wal.Cursor
import PubsubVenue.Wal.Writer

/-! # Cutting back the log

`Wal::truncate_after`, and `ReplicatedWal::open`, which cuts a log back to before a gap in its
numbers. Between its writes and its deletions a directory may lack segments in the middle, so the
files are a list with a place for every number. A cursor opened on a segment goes on to the next
number only while there is a file, and so sees the files before the first that is missing.

* **`truncating`**: the files left when the process dies after some of the writes and deletions.
* **`truncationPoint_of_cut`**: where the record to keep ends. -/

namespace PubsubVenue

open List WalCursor

/-- The segment files of a directory by their numbers; `none` where there is no file. -/
abbrev WalFiles := List (Option Bytes)

namespace WalFiles

/-- The bytes under each number, none for a file that does not exist. -/
def contents (files : WalFiles) : List Bytes := files.map fun file => file.getD []

/-- The numbers of the files there are. -/
def present (files : WalFiles) : List Nat :=
  (range files.length).filter fun n => files[n]?.join.isSome

/-- The files before the first that is missing. -/
def leading (files : WalFiles) : List Bytes := (files.takeWhile Option.isSome).map fun file => file.getD []

end WalFiles

variable (directory : String) (files : WalFiles)

/-- `WalReader::replay`, from the start, of the files there are. -/
def replayFiles : Except String (List WalRecord × WalPosition) :=
  (((files.present.map scannedNumber).insertionSort (· ≤ ·)).foldlM
      (Replay.step directory files.contents WalPosition.start)
      { delivered := [], reached := WalPosition.start, unclean := none }).map fun r =>
        (r.delivered, r.reached)

/-! ## Where a record ends -/

/-- `comes_before` in `Wal::scan_start_for`: the segment does not exist, or its first entry is
numbered as given or below. -/
def comesBefore (seqNo : Int) (segment : Nat) : Bool :=
  match files[segment]?.join with
  | none => true
  | some file =>
    decide (24 ≤ file.length) && decide ((EntryHeader.read file).magic = entryMagic) &&
      decide ((EntryHeader.read file).recordId.toInt ≤ seqNo)

/-- One round of the loop of `Wal::scan_start_for`, on `low` and `high`: the loop goes on while they
differ and ends when they have met, from where on a round changes nothing. -/
def searchRound (test : Nat → Bool) : Nat × Nat → Nat × Nat
  | (low, high) =>
    if low < high then
      let middle := low + (high - low + 1) / 2
      if test middle then (middle, high) else (low, middle - 1)
    else (low, high)

/-- `Wal::scan_start_for`: the start of the segment that holds a record, for a writer in segment
`last`. Each round of the search leaves fewer segments, so it needs no more rounds than `last`. -/
def scanStartFor (last : Nat) (seqNo : Int) : WalPosition :=
  if comesBefore files seqNo 0 = false then WalPosition.start
  else
    let low := ((searchRound (comesBefore files seqNo))^[last] (0, last)).1
    if files[low]?.join.isNone then WalPosition.start else { segment := low, offset := 0 }

/-- Call `read_next` until it hands on the record with a number, at most as often as given. -/
def findRecord (directory : String) (segments : List Bytes) (seqNo : Int) :
    Nat → WalCursor → Except String (Option WalCursor)
  | 0, _ => .ok none
  | left + 1, c =>
    match c.readNext directory segments with
    | .error e => .error e
    | .ok (none, _) => .ok none
    | .ok (some x, c) =>
      if x.recordId.toInt = seqNo then .ok (some c) else findRecord directory segments seqNo left c

/-- The part of `Wal::truncate_after` that only reads: where the record to keep ends. The records
after it are read too, to count them. -/
def truncationPoint (last : Nat) (seqNo : Int) :
    Except String WalPosition :=
  if seqNo > 0 then
    let segments := files.leading
    let calls := (segments.map length).sum + 1
    (findRecord directory segments seqNo calls
      (openAt segments (scanStartFor files last seqNo))).bind fun found =>
      match found with
      | none => .error s!"Wal::truncate_after: record {seqNo} was not found in {directory}"
      | some c => (readAll directory segments calls c).map fun _ => c.position
  else .ok WalPosition.start

/-! ## Zeroing and deleting -/

/-- The loop that zeroes the rest of a segment: each `pwrite` is of 64 KiB at most, and may write
fewer bytes than it was given; those it wrote are given. -/
def zeroing (segmentSize : Nat) : Bytes → Nat → List Nat → Bytes × Nat
  | file, offset, [] => (file, offset)
  | file, offset, w :: writes =>
    let written := min w (min (64 * 1024) (segmentSize - offset))
    zeroing segmentSize (overwrite file offset (replicate written 0)) (offset + written) writes

/-- `Wal::delete_segments_after`, as far as it has come: the files deleted are those with the lowest
numbers. `Wal::segment_numbers` finds the names with six digits. -/
def deleteAfter (segment deleted : Nat) : WalFiles :=
  let doomed := (files.present.filter fun n => decide (segment < n ∧ n < 1000000)).take deleted
  files.mapIdx fun n file => if n ∈ doomed then none else file

/-- `Wal::truncate_after`, on a log whose last record is `lastSeqNo` and whose writer is in segment
`last`: **the files left when the process dies** after some of the writes, and after some of the
deletions if the writes were all. -/
def truncating (segmentSize : Nat) (files : WalFiles) (last : Nat)
    (lastSeqNo seqNo : Int) (writes : List Nat) (deleted : Nat) : Except String WalFiles :=
  if seqNo < 0 ∨ seqNo > lastSeqNo then
    .error s!"Wal::truncate_after: record {seqNo} is not in a log whose last record is {lastSeqNo}"
  else if seqNo = lastSeqNo then .ok files
  else
    (truncationPoint directory files last seqNo).bind fun reached =>
      match files[reached.segment]?.join with
      | none => .error
        s!"Wal::truncate_after: open({segmentPath directory reached.segment}): No such file or directory"
      | some file =>
        let zeroed := zeroing segmentSize file reached.offset writes
        let left := files.set reached.segment (some zeroed.1)
        .ok (if zeroed.2 < segmentSize then left else deleteAfter left reached.segment deleted)

/-! ## Opening -/

/-- The entries that `Wal::open` hands on: those long enough for the fields `Wal::append` stores. -/
def replayed (records : List WalRecord) : List WalRecord :=
  records.filter fun r => decide (14 ≤ r.payload.length)

/-- The records before the first that is not numbered one more than the one before it. -/
def beforeGap : Nat → List WalRecord → List WalRecord
  | _, [] => []
  | expected, r :: rest =>
    if r.recordId.toInt ≠ expected then [] else r :: beforeGap (expected + 1) rest

/-- `ReplicatedWal::open`, as far as the log goes: **the log that is read**. One with a gap is cut
back to before it. -/
def openLog (segmentSize : Nat) (files : WalFiles) : Except String (List WalRecord) :=
  (replayFiles directory files).bind fun (records, reached) =>
    if segmentSize < (24 + 1 + 4) * 2 then .error "WalWriter: segment_size too small"
    else
      let read := replayed records
      let kept := beforeGap 1 read
      if kept.length = read.length then .ok read
      else
        let lastSeqNo := (read.getLast?.map fun r => r.recordId.toInt).getD 0
        (truncating directory segmentSize files reached.segment lastSeqNo kept.length
            (replicate segmentSize (64 * 1024)) files.length).map fun _ => kept

/-! ## A log and a place in it -/

/-- The entries of a segment, in two parts. -/
theorem recordsAt_append_list (segment offset : Nat) (as bs : List WalEntry) :
    recordsAt segment offset (as ++ bs) = recordsAt segment offset as ++
      recordsAt segment (offset + (as.flatMap WalEntry.bytes).length) bs := by
  induction as generalizing offset with
  | nil => simp [recordsAt]
  | cons a as ih =>
    rw [cons_append, recordsAt, recordsAt, ih, cons_append, flatMap_cons, length_append,
      a.length_bytes, Nat.add_assoc]

/-- A log cut after its first records: the segments before the one they end in, and the entries of
that one that are kept and that are not. -/
structure Cut where
  before : List Segment
  kept : List WalEntry
  lost : List WalEntry
  tail : Bytes
  rest : List Segment
  /-- A record that is kept is in the segment, unless there is none. -/
  here : kept ≠ [] ∨ before = []

namespace Cut

/-- The segment the records that are kept end in. -/
def segment (c : Cut) : Segment := { entries := c.kept ++ c.lost, tail := c.tail }

/-- The log. -/
def log (c : Cut) : List Segment := c.before ++ c.segment :: c.rest

/-- Where the records that are kept end. -/
def offset (c : Cut) : Nat := (c.kept.flatMap WalEntry.bytes).length

/-- The records that are kept. -/
def records (c : Cut) : List WalRecord :=
  recordsFrom 0 c.before ++ recordsAt c.before.length 0 c.kept

/-- The records of a log, by the cut. -/
theorem records_append (c : Cut) :
    recordsFrom 0 c.log = c.records ++ (recordsAt c.before.length c.offset c.lost ++
      recordsFrom (c.before.length + 1) c.rest) := by
  unfold log records offset
  have hat : recordsAt c.before.length 0 (c.kept ++ c.lost) = recordsAt c.before.length 0 c.kept ++
      recordsAt c.before.length (c.kept.flatMap WalEntry.bytes).length c.lost := by
    rw [recordsAt_append_list, Nat.zero_add]
  rw [recordsFrom_append, recordsFrom, Nat.zero_add]
  show _ ++ (recordsAt _ 0 (c.kept ++ c.lost) ++ _) = _
  rw [hat, append_assoc, append_assoc]

end Cut

/-! ## Finding the place -/

/-- A cursor finds a record that it has still to hand on, and stops behind it. -/
theorem findRecord_of_within (directory : String) {segments : List Bytes} {c : WalCursor} {seqNo : Int}
    {earlier later : List WalRecord} {x : WalRecord} {calls : Nat}
    (h : Within segments (earlier ++ x :: later) c) (hx : x.recordId.toInt = seqNo)
    (hearlier : ∀ y ∈ earlier, y.recordId.toInt ≠ seqNo) (hcalls : earlier.length < calls) :
    ∃ c', findRecord directory segments seqNo calls c = .ok (some c') ∧ Within segments later c' ∧
      c'.position = { segment := x.segment, offset := x.offset + (24 + x.payload.length + 4) } := by
  induction earlier generalizing c calls with
  | nil =>
    obtain ⟨n, rfl⟩ : ∃ n, calls = n + 1 := ⟨calls - 1, by omega⟩
    obtain ⟨c', hnext, hwithin, hpos⟩ := readNext_of_within_cons directory h
    refine ⟨c', ?_, hwithin, hpos⟩
    rw [findRecord, hnext]
    simp only
    rw [if_pos hx]
  | cons y earlier ih =>
    obtain ⟨n, rfl⟩ : ∃ n, calls = n + 1 := ⟨calls - 1, by omega⟩
    obtain ⟨c', hnext, hwithin, -⟩ := readNext_of_within_cons directory h
    have hlen : earlier.length < n := by
      rw [length_cons] at hcalls
      omega
    obtain ⟨c'', hfound⟩ := ih hwithin (fun z hz => hearlier z (mem_cons_of_mem _ hz)) hlen
    refine ⟨c'', ?_, hfound.2⟩
    rw [findRecord, hnext]
    simp only
    rw [if_neg (hearlier y mem_cons_self), hfound.1]

/-- **The search ends at the last number for which the test holds**, if it holds for exactly the
numbers up to it: after as many rounds as there are numbers to choose from, `low` and `high` have
met there. -/
theorem searchRound_iterate {test : Nat → Bool} {rounds low high b : Nat}
    (htest : ∀ n, low ≤ n → n ≤ high → test n = decide (n ≤ b)) (hlow : low ≤ b) (hhigh : b ≤ high)
    (hrounds : high - low ≤ rounds) : (searchRound test)^[rounds] (low, high) = (b, b) := by
  induction rounds generalizing low high with
  | zero =>
    obtain rfl : low = b := by omega
    obtain rfl : high = low := by omega
    rfl
  | succ rounds ih =>
    rw [Function.iterate_succ_apply, searchRound]
    split
    · rename_i hlt
      dsimp only
      rw [htest _ (by omega) (by omega)]
      split
      · rename_i hm
        rw [decide_eq_true_eq] at hm
        exact ih (fun n h₁ h₂ => htest n (by omega) h₂) hm hhigh (by omega)
      · rename_i hm
        rw [decide_eq_true_eq] at hm
        exact ih (fun n h₁ h₂ => htest n h₁ (by omega)) hlow (by omega) (by omega)
    · exact ih htest hlow hhigh (by omega)

/-- The end part of a readable log is readable. -/
theorem Readable.of_append {as bs : List Segment} (h : Readable (as ++ bs)) : Readable bs := by
  induction as with
  | nil => exact h
  | cons a as ih =>
    rcases h.2 with ⟨-, hread⟩ | hunused
    · exact ih hread
    · exact readable_of_zero fun u hu => (hunused u (mem_append_right _ hu)).2

/-- Records numbered from one, without a gap. -/
def NumberedFromOne (records : List WalRecord) : Prop :=
  ∀ (k : Nat) (r : WalRecord), records[k]? = some r → r.recordId.toInt = (k : Int) + 1

/-- A cut that keeps records keeps one in its segment. -/
theorem Cut.kept_ne_nil {c : Cut} (h : c.records ≠ []) : c.kept ≠ [] := by
  intro hnil
  rcases c.here with hc | hc
  · exact hc hnil
  · exact h (by unfold records; rw [hnil, hc]; rfl)

/-- The record a cut keeps last. -/
theorem Cut.exists_last (c : Cut) (h : c.records ≠ []) :
    ∃ earlier x, recordsAt c.before.length 0 c.kept = earlier ++ [x] ∧
      x.segment = c.before.length ∧ x.offset + (24 + x.payload.length + 4) = c.offset := by
  obtain ⟨es, e, he⟩ := eq_nil_or_concat c.kept |>.resolve_left (kept_ne_nil h)
  refine ⟨recordsAt c.before.length 0 es, e.record c.before.length (0 + (es.flatMap WalEntry.bytes).length),
    ?_, rfl, ?_⟩
  · rw [he, concat_eq_append, recordsAt_append]
  · unfold offset
    rw [he, concat_eq_append, flatMap_append, length_append, flatMap_singleton, e.length_bytes, Nat.zero_add]
    rfl

/-- **Where the records that are kept end is found**, from the start of the log or of their last
segment. -/
theorem truncationPoint_of_cut (directory : String) (c : Cut) {files : WalFiles} {last : Nat}
    (hleading : files.leading = c.log.map Segment.bytes) (hread : Readable c.log)
    (hids : NumberedFromOne c.records)
    (hstart : c.records ≠ [] → scanStartFor files last c.records.length = WalPosition.start ∨
      scanStartFor files last c.records.length = { segment := c.before.length, offset := 0 }) :
    truncationPoint directory files last c.records.length =
      .ok { segment := c.before.length, offset := c.offset } := by
  unfold truncationPoint
  by_cases hnone : c.records = []
  · rw [hnone]
    have hzero : c.before = [] ∧ c.kept = [] := by
      obtain ⟨hbefore, hkept⟩ := append_eq_nil_iff.mp hnone
      have hk : c.kept = [] := by
        rw [← length_eq_zero_iff, ← length_recordsAt c.before.length 0, hkept]
        rfl
      exact ⟨c.here.resolve_left fun hc => hc hk, hk⟩
    rw [if_neg (by decide), hzero.1, Cut.offset, hzero.2]
    rfl
  · obtain ⟨earlier, x, hkept, hseg, hoff⟩ := c.exists_last hnone
    have hrecords : c.records = (recordsFrom 0 c.before ++ earlier) ++ [x] := by
      unfold Cut.records
      rw [hkept, append_assoc]
    have hcount : c.records.length = (recordsFrom 0 c.before ++ earlier).length + 1 := by
      rw [hrecords, length_append]
      rfl
    -- The record to keep is the last of those kept, and no other has its number.
    have hx : x.recordId.toInt = (c.records.length : Int) := by
      rw [hids _ x (by rw [hrecords]; exact getElem?_concat_length), hcount]
      rfl
    have hothers : ∀ y ∈ recordsFrom 0 c.before ++ earlier, y.recordId.toInt ≠ (c.records.length : Int) := by
      intro y hy
      obtain ⟨k, hk⟩ := mem_iff_getElem?.mp hy
      obtain ⟨hlt, -⟩ := List.getElem?_eq_some_iff.mp hk
      rw [hids k y (by rw [hrecords, getElem?_append_left hlt, hk]), hcount]
      omega
    set later : List WalRecord := recordsAt c.before.length c.offset c.lost ++
      recordsFrom (c.before.length + 1) c.rest with hlater
    have hlog : recordsFrom 0 c.log = (recordsFrom 0 c.before ++ earlier) ++ x :: later := by
      rw [c.records_append, hrecords, append_assoc, singleton_append]
    have hcalls : (recordsFrom 0 c.log).length ≤ (files.leading.map length).sum := by
      rw [hleading]
      exact length_recordsFrom 0 c.log
    rw [hlog, length_append, length_append, length_cons] at hcalls
    have hfind : ∃ earlier', (∀ y ∈ earlier', y.recordId.toInt ≠ (c.records.length : Int)) ∧
        earlier'.length ≤ (recordsFrom 0 c.before).length + earlier.length ∧
        Within files.leading (earlier' ++ x :: later)
          (openAt files.leading (scanStartFor files last c.records.length)) := by
      rcases hstart hnone with hst | hst
      · refine ⟨recordsFrom 0 c.before ++ earlier, hothers, by rw [length_append], ?_⟩
        rw [hst, ← hlog]
        obtain ⟨s, rest, hcons⟩ := exists_cons_of_ne_nil
          (show c.log ≠ [] from append_ne_nil_of_right_ne_nil _ (cons_ne_nil _ _))
        rw [hcons] at hleading hread ⊢
        exact within_openAt (show files.leading = ([] ++ s :: rest).map Segment.bytes from hleading) hread
      · refine ⟨earlier, fun y hy => hothers y (mem_append_right _ hy), by omega, ?_⟩
        have hsegment : recordsFrom c.before.length (c.segment :: c.rest) = earlier ++ x :: later := by
          rw [recordsFrom]
          show recordsAt _ 0 (c.kept ++ c.lost) ++ _ = _
          rw [recordsAt_append_list, hkept, Nat.zero_add, append_assoc, append_assoc, singleton_append]
          rfl
        rw [hst, ← hsegment]
        exact within_openAt hleading (Readable.of_append hread)
    obtain ⟨earlier', hnot, hlen, hwithin⟩ := hfind
    obtain ⟨cursor, hfound, hrest, hpos⟩ := findRecord_of_within directory hwithin hx hnot
      (show earlier'.length < (files.leading.map length).sum + 1 by omega)
    have hpositive : (c.records.length : Int) > 0 := by
      omega
    rw [if_pos hpositive]
    simp only
    rw [hfound]
    show (readAll directory files.leading _ cursor).map _ = _
    rw [readAll_of_within directory hrest (by omega)]
    show Except.ok cursor.position = _
    rw [hpos, hseg, hoff]

end PubsubVenue
