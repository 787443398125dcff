import PubsubVenue.Wal.Entry
import Mathlib.Data.List.Flatten
import Mathlib.Data.List.Sort
import Mathlib.Data.Nat.Log

/-! # Reading the log from its segments

`WalReader` in `WalReader.cpp`. A log is a directory of segment files, numbered from nought on;
`replay` reads them in order and hands on every valid entry. Bytes that are neither a valid entry
nor space never written are taken for the entry that a crash left unfinished, unless a valid entry
follows them, in their segment or the next: then the log is reported damaged.

A segment that the writer left is some entries and then a tail (`Segment`).

* **`scanSegment_of_quiet`**: a segment whose tail is quiet hands on exactly its entries.
* **`replay_of_readable`**: a log that is readable hands on exactly its entries.
* **`replay_of_left_behind`**: a log in which torn bytes are left before an entry of the next
  segment is reported damaged. -/

namespace PubsubVenue

open List

/-- `WalPosition`. -/
structure WalPosition where
  segment : Nat
  offset : Nat
  deriving DecidableEq

variable (directory : String)

/-- `segment_path`: the number with at least six digits. -/
def segmentPath (segment : Nat) : String :=
  let digits := toString segment
  directory ++ "/wal_" ++ "".pushn '0' (6 - digits.length) ++ digits ++ ".log"

/-- The number that `sscanf` reads from the name of a segment file with `"wal_%06" SCNu64 ".log"`:
at most six digits of it. -/
def scannedNumber (segment : Nat) : Nat := segment / 10 ^ (Nat.log 10 segment - 5)

/-- The segments that listing the directory finds, sorted. -/
def segmentNumbers (count : Nat) : List Nat :=
  ((range count).map scannedNumber).insertionSort (· ≤ ·)

/-- `WalReader::SegmentScan`. -/
structure SegmentScan where
  consumed : Nat
  stoppedCleanly : Bool
  deriving DecidableEq

/-- The loop of `scan_segment`. In files that do not change, the second look at an entry that was
not valid finds it as it was. -/
def scanLoop (path : String) (segment : Nat) (base : Bytes) :
    Nat → Nat → Except String (List WalRecord × SegmentScan)
  | 0, offset => .ok ([], { consumed := offset, stoppedCleanly := true })
  | left + 1, offset =>
    if validEntrySizeAt base offset ≠ 0 then
      (scanLoop path segment base left (offset + validEntrySizeAt base offset)).map
        fun found => (recordAt segment base offset :: found.1, found.2)
    else if allZero base offset then .ok ([], { consumed := offset, stoppedCleanly := true })
    else if nextValidEntryAfter base offset = base.length then
      .ok ([], { consumed := offset, stoppedCleanly := false })
    else
      .error (s!"WalReader: the write-ahead log is damaged -- {path} has an entry at byte {offset} that is " ++
        s!"not valid, followed by a valid entry at byte {nextValidEntryAfter base offset}. Records after " ++
        "the damage would be lost, so the log is not read past it")

variable (segments : List Bytes)

/-- `WalReader::scan_segment`. An entry has at least one byte, so the loop runs at most once for
every byte and once more. -/
def scanSegment (segment startOffset : Nat) : Except String (List WalRecord × SegmentScan) :=
  match segments[segment]? with
  | none => .error s!"WalReader: open({segmentPath directory segment}): No such file or directory"
  | some base =>
    if base.length = 0 ∨ startOffset ≥ base.length then
      .ok ([], { consumed := startOffset, stoppedCleanly := true })
    else scanLoop (segmentPath directory segment) segment base (base.length + 1) startOffset

/-- The variables of `replay`: what was handed on, the end, and where the reading of the last
segment stopped if it did not stop cleanly. -/
structure Replay where
  delivered : List WalRecord
  reached : WalPosition
  unclean : Option (Nat × Nat)
  deriving DecidableEq

/-- The part of the loop of `replay` for a segment before this one that did not stop cleanly. -/
def Replay.settle (r : Replay) (segment start : Nat) :
    Except String Replay :=
  match r.unclean with
  | none => .ok r
  | some (unclean, offset) =>
    match scanSegment directory segments unclean offset with
    | .error e => .error e
    | .ok (found, again) =>
      let settled : Replay :=
        { delivered := r.delivered ++ found
          reached :=
            if again.consumed > offset then { r.reached with offset := again.consumed } else r.reached
          unclean := none }
      if again.stoppedCleanly then .ok settled
      else
        match scanSegment directory segments segment start with
        | .error e => .error e
        | .ok (_, here) =>
          if here.consumed > start then
            .error (s!"WalReader: the write-ahead log is damaged -- {segmentPath directory unclean} " ++
              s!"has an entry at byte {again.consumed} that is not valid, and " ++
              s!"{segmentPath directory segment} holds valid entries after it. Records after the " ++
              "damage would be lost, so the log is not read past it")
          else .ok settled

/-- The loop of `replay` for one segment. -/
def Replay.step (anchor : WalPosition) (r : Replay) (segment : Nat) : Except String Replay :=
  if segment < anchor.segment then .ok r
  else
    let start := if segment = anchor.segment then anchor.offset else 0
    match r.settle directory segments segment start with
    | .error e => .error e
    | .ok r =>
      match scanSegment directory segments segment start with
      | .error e => .error e
      | .ok (found, scan) =>
        .ok
          { delivered := r.delivered ++ found
            reached :=
              if scan.consumed > start then { segment := segment, offset := scan.consumed } else r.reached
            unclean := if scan.stoppedCleanly then r.unclean else some (segment, scan.consumed) }

/-- `WalReader::replay`: what is handed on, and the end. -/
def replay (anchor : WalPosition) : Except String (List WalRecord × WalPosition) :=
  ((segmentNumbers segments.length).foldlM (Replay.step directory segments anchor)
      { delivered := [], reached := anchor, unclean := none }).map fun r => (r.delivered, r.reached)

/-! ## The numbers of the segments -/

/-- A number of at most six digits is read whole. -/
theorem scannedNumber_of_lt {segment : Nat} (h : segment < 1000000) : scannedNumber segment = segment := by
  have hlog : Nat.log 10 segment < 6 := Nat.log_lt_of_lt_pow' (by decide) h
  unfold scannedNumber
  rw [show Nat.log 10 segment - 5 = 0 by omega, Nat.pow_zero, Nat.div_one]

theorem map_scannedNumber {numbers : List Nat} (h : ∀ n ∈ numbers, n < 1000000) :
    numbers.map scannedNumber = numbers :=
  (map_congr_left fun n hn => scannedNumber_of_lt (h n hn)).trans (map_id' _)

/-- **As many segments as six digits number are found in order.** -/
theorem segmentNumbers_of_le {count : Nat} (h : count ≤ 1000000) : segmentNumbers count = range count := by
  rw [segmentNumbers, map_scannedNumber fun n hn => (mem_range.mp hn).trans_le h]
  exact Pairwise.insertionSort_eq (pairwise_le_range)

/-- **With more segments, the one numbered 100000 is found twice**: the name of segment 1000000
starts with its six digits. -/
theorem segmentNumbers_of_gt {count : Nat} (h : 1000000 < count) :
    Sublist [100000, 100000] (segmentNumbers count) := by
  have hpair : Sublist [100000, 1000000] (range count) := by
    have hlow : Sublist [100000] (range 100001) :=
      singleton_sublist.mpr (mem_range.mpr (by decide))
    have hhigh : Sublist [1000000] ((range (count - 100001)).map (100001 + ·)) :=
      singleton_sublist.mpr (mem_map.mpr ⟨899999, mem_range.mpr (by omega), by decide⟩)
    rw [show count = 100001 + (count - 100001) by omega, range_add]
    exact hlow.append hhigh
  have hfirst : scannedNumber 100000 = 100000 := scannedNumber_of_lt (by decide)
  have hsecond : scannedNumber 1000000 = 100000 := by
    unfold scannedNumber
    rw [show Nat.log 10 1000000 = 6 from Nat.log_eq_of_pow_le_of_lt_pow (by decide) (by decide)]
    decide
  have hmapped : Sublist [100000, 100000] ((range count).map scannedNumber) := by
    have := hpair.map scannedNumber
    rwa [map_cons, map_cons, map_nil, hfirst, hsecond] at this
  -- sorting keeps how often each number is found
  have hcount := (perm_insertionSort (· ≤ ·) ((range count).map scannedNumber)).count_eq 100000
  have htwice : 2 ≤ (segmentNumbers count).count 100000 := by
    unfold segmentNumbers
    rw [hcount]
    exact replicate_sublist_iff.mp hmapped
  exact replicate_sublist_iff.mpr htwice

/-! ## Segments as the writer leaves them -/

/-- A segment: the entries that were appended to it and the bytes after them. -/
structure Segment where
  entries : List WalEntry
  tail : Bytes

/-- The bytes of the entries. -/
def Segment.written (s : Segment) : Bytes := s.entries.flatMap WalEntry.bytes

/-- The file. -/
def Segment.bytes (s : Segment) : Bytes := s.written ++ s.tail

/-- The entries from an offset of a segment on, as a reader hands them on. -/
def recordsAt (segment : Nat) : Nat → List WalEntry → List WalRecord
  | _, [] => []
  | offset, e :: es => e.record segment offset :: recordsAt segment (offset + e.size) es

@[simp] theorem length_recordsAt (segment offset : Nat) (es : List WalEntry) :
    (recordsAt segment offset es).length = es.length := by
  induction es generalizing offset with
  | nil => rfl
  | cons e es ih => simp only [recordsAt, length_cons, ih]

/-- Every entry has bytes. -/
theorem length_le_written (es : List WalEntry) : es.length ≤ (es.flatMap WalEntry.bytes).length := by
  induction es with
  | nil => exact Nat.le_refl _
  | cons e =>
    have := e.size_ge
    rw [flatMap_cons, length_append, e.length_bytes, length_cons]
    omega

/-- A segment without entries has no bytes of entries. -/
theorem Segment.written_length_pos {s : Segment} : 0 < s.written.length ↔ s.entries ≠ [] := by
  unfold Segment.written
  cases hentries : s.entries with
  | nil => simp
  | cons e es =>
    have := e.size_ge
    rw [flatMap_cons, length_append, e.length_bytes]
    exact ⟨fun _ => cons_ne_nil e es, fun _ => by omega⟩

theorem validEntrySizeAt_append (before rest : Bytes) :
    validEntrySizeAt (before ++ rest) before.length = validEntrySizeAt rest 0 := by
  have h := validEntrySizeAt_drop (before ++ rest) before.length 0
  rwa [drop_left, Nat.add_zero, eq_comm] at h

/-- The loop reads entries that were written one after the other. -/
theorem scanLoop_entries (path : String) (segment : Nat) (before : Bytes) (es : List WalEntry)
    (tail : Bytes) (left : Nat) :
    scanLoop path segment (before ++ (es.flatMap WalEntry.bytes ++ tail)) (left + es.length) before.length =
      (scanLoop path segment (before ++ (es.flatMap WalEntry.bytes ++ tail)) left
          (before.length + (es.flatMap WalEntry.bytes).length)).map
        fun found => (recordsAt segment before.length es ++ found.1, found.2) := by
  induction es generalizing before with
  | nil =>
    simp only [flatMap_nil, nil_append, length_nil, Nat.add_zero, recordsAt]
    cases scanLoop path segment (before ++ tail) left before.length <;> rfl
  | cons e es ih =>
    -- the bytes split after the first entry, where the rest is read by induction
    have hsplit : before ++ ((e :: es).flatMap WalEntry.bytes ++ tail) =
        (before ++ e.bytes) ++ (es.flatMap WalEntry.bytes ++ tail) := by
      simp only [flatMap_cons, append_assoc]
    have hshape : before ++ ((e :: es).flatMap WalEntry.bytes ++ tail) =
        before ++ (e.bytes ++ (es.flatMap WalEntry.bytes ++ tail)) := by
      simp only [flatMap_cons, append_assoc]
    have hvalid : validEntrySizeAt (before ++ ((e :: es).flatMap WalEntry.bytes ++ tail))
      before.length = e.size := by
      rw [hshape, validEntrySizeAt_append, e.validEntrySizeAt_bytes]
    have hrecord : recordAt segment (before ++ ((e :: es).flatMap WalEntry.bytes ++ tail)) before.length =
        e.record segment before.length := by
      rw [hshape, e.recordAt_bytes]
    have hpos : e.size ≠ 0 := by
      have := e.size_ge
      omega
    have hoffset : before.length + e.size = (before ++ e.bytes).length := by
      rw [length_append, e.length_bytes]
    have hend : (before ++ e.bytes).length + (es.flatMap WalEntry.bytes).length =
        before.length + ((e :: es).flatMap WalEntry.bytes).length := by
      simp only [flatMap_cons, length_append]
      omega
    rw [length_cons, ← Nat.add_assoc, scanLoop, hvalid, if_pos hpos, hrecord, hoffset, hsplit,
      ih (before ++ e.bytes), hend]
    cases scanLoop path segment (before ++ e.bytes ++ (es.flatMap WalEntry.bytes ++ tail)) left
      (before.length + ((e :: es).flatMap WalEntry.bytes).length) with
    | error e => rfl
    | ok found => simp only [Except.map, recordsAt, hoffset, cons_append]

/-- The loop stops where no valid entry starts from there on. -/
theorem scanLoop_of_quiet (path : String) (segment : Nat) {base : Bytes} {offset : Nat} (left : Nat)
    (hoffset : offset ≤ base.length) (h : Quiet (base.drop offset)) :
    scanLoop path segment base (left + 1) offset =
      .ok ([], { consumed := offset, stoppedCleanly := decide (Zero (base.drop offset)) }) := by
  have hnone := (quiet_drop_iff hoffset).mp h
  rw [scanLoop, if_neg (not_not.mpr hnone.1)]
  by_cases hzero : Zero (base.drop offset)
  · rw [if_pos (allZero_iff.mpr hzero), decide_eq_true hzero]
  · rw [if_neg (fun hall => hzero (allZero_iff.mp hall)), if_pos hnone.2, decide_eq_false hzero]

/-- **Where the loop stops**, no valid entry starts from there on, and it stopped cleanly when
nothing is written there. -/
theorem scanLoop_stops {path : String} {segment : Nat} {base : Bytes} {left offset : Nat}
    {found : List WalRecord} {scan : SegmentScan} (hleft : base.length < offset + left)
    (hoffset : offset ≤ base.length) (h : scanLoop path segment base left offset = .ok (found, scan)) :
    scan.consumed ≤ base.length ∧ Quiet (base.drop scan.consumed) ∧
      scan.stoppedCleanly = decide (Zero (base.drop scan.consumed)) := by
  induction left generalizing offset found with
  | zero => omega
  | succ left ih =>
    by_cases hvalid : validEntrySizeAt base offset = 0
    · by_cases hzero : Zero (base.drop offset)
      · rw [scanLoop_of_quiet path segment left hoffset hzero.quiet] at h
        cases h
        exact ⟨hoffset, hzero.quiet, rfl⟩
      · rw [scanLoop, if_neg (not_not.mpr hvalid), if_neg (fun hall => hzero (allZero_iff.mp hall))] at h
        split at h
        · rename_i hnone
          cases h
          exact ⟨hoffset, (quiet_drop_iff hoffset).mpr ⟨hvalid, hnone⟩, (decide_eq_false hzero).symm⟩
        · cases h
    · have hsize := validEntrySizeAt_le base offset hvalid
      rw [scanLoop, if_pos hvalid] at h
      obtain ⟨rest, hrest, h⟩ := map_eq_ok.mp h
      cases h
      exact ih (by omega) hsize.2 hrest

/-! ## One segment -/

section OneSegment

variable {directory : String} {segments : List Bytes} {segment : Nat} {s : Segment}

section

variable (directory : String) (hfile : segments[segment]? = some s.bytes) (hbytes : s.bytes ≠ [])

include hfile hbytes

/-- The scan of a segment from its start: first its entries, then whatever is found in its tail. -/
theorem scanSegment_eq : s.bytes.drop s.written.length = s.tail ∧ s.written.length ≤ s.bytes.length ∧ ∃ left,
      scanSegment directory segments segment 0 =
        (scanLoop (segmentPath directory segment) segment s.bytes (left + 1) s.written.length).map
          fun found => (recordsAt segment 0 s.entries ++ found.1, found.2) := by
  have hlen : s.bytes.length = s.written.length + s.tail.length := length_append
  have hcount : s.entries.length ≤ s.written.length := length_le_written s.entries
  refine ⟨drop_left, by omega, s.bytes.length - s.entries.length, ?_⟩
  have hpos : 0 < s.bytes.length := length_pos_iff.mpr hbytes
  have hread := scanLoop_entries (segmentPath directory segment) segment [] s.entries s.tail
    (s.bytes.length - s.entries.length + 1)
  unfold scanSegment
  rw [hfile]
  simp only
  rw [if_neg (by omega)]
  rw [show s.bytes.length - s.entries.length + 1 + s.entries.length = s.bytes.length + 1 by omega] at hread
  rw [nil_append, length_nil, Nat.zero_add] at hread
  exact hread

/-- **A segment whose tail is quiet hands on exactly its entries.** -/
theorem scanSegment_of_quiet (h : Quiet s.tail) :
    scanSegment directory segments segment 0 = .ok (recordsAt segment 0 s.entries,
        { consumed := s.written.length, stoppedCleanly := decide (Zero s.tail) }) := by
  obtain ⟨htail, hwithin, left, hscan⟩ := scanSegment_eq directory hfile hbytes
  have hstop := scanLoop_of_quiet (segmentPath directory segment) segment left hwithin (htail.symm ▸ h)
  rw [hscan, hstop, htail]
  simp only [Except.map, append_nil]

/-- A segment is damaged if its tail does not start with a valid entry but one starts in it. -/
theorem scanSegment_of_hidden (hfirst : validEntrySizeAt s.tail 0 = 0) (h : ¬Quiet s.tail) :
    ∃ e, scanSegment directory segments segment 0 = .error e := by
  obtain ⟨htail, hwithin, left, hscan⟩ := scanSegment_eq directory hfile hbytes
  have hnone : validEntrySizeAt s.bytes s.written.length = 0 := by
    unfold Segment.bytes
    rw [validEntrySizeAt_append, hfirst]
  have hnonzero : ¬allZero s.bytes s.written.length = true := fun hzero =>
    h (htail ▸ (allZero_iff.mp hzero).quiet)
  have hnext : ¬nextValidEntryAfter s.bytes s.written.length = s.bytes.length := fun hlast =>
    h (htail ▸ (quiet_drop_iff hwithin).mpr ⟨hnone, hlast⟩)
  rw [hscan, scanLoop, if_neg (not_not.mpr hnone), if_neg hnonzero, if_neg hnext]
  exact ⟨_, rfl⟩

end

variable {found : List WalRecord} {scan : SegmentScan}

/-- A scan of a segment hands on its entries first, and more when its tail is not quiet. -/
theorem scanSegment_eq_ok (hfile : segments[segment]? = some s.bytes) (hbytes : s.bytes ≠ [])
    (h : scanSegment directory segments segment 0 = .ok (found, scan)) :
    ∃ more, found = recordsAt segment 0 s.entries ++ more ∧ (more = [] → Quiet s.tail) := by
  obtain ⟨htail, hwithin, left, hscan⟩ := scanSegment_eq directory hfile hbytes
  rw [hscan] at h
  obtain ⟨rest, hrest, h⟩ := map_eq_ok.mp h
  cases h
  refine ⟨rest.1, rfl, fun hnil => ?_⟩
  by_cases hvalid : validEntrySizeAt s.bytes s.written.length = 0
  · by_cases hzero : Zero (s.bytes.drop s.written.length)
    · exact htail ▸ hzero.quiet
    · rw [scanLoop, if_neg (not_not.mpr hvalid), if_neg (fun hall => hzero (allZero_iff.mp hall))] at hrest
      split at hrest
      · rename_i hnone
        exact htail ▸ (quiet_drop_iff hwithin).mpr ⟨hvalid, hnone⟩
      · cases hrest
  · -- an entry found at the start of the tail is handed on
    rw [scanLoop, if_pos hvalid] at hrest
    obtain ⟨later, -, rfl⟩ := map_eq_ok.mp hrest
    cases hnil

/-- A segment that did not stop cleanly stops at the same place when it is read again. -/
theorem scanSegment_again (h : scanSegment directory segments segment 0 = .ok (found, scan))
    (hunclean : scan.stoppedCleanly = false) : scanSegment directory segments segment scan.consumed =
      .ok ([], { consumed := scan.consumed, stoppedCleanly := false }) := by
  unfold scanSegment at h ⊢
  cases hfile : segments[segment]? with
  | none =>
    rw [hfile] at h
    cases h
  | some base =>
    rw [hfile] at h
    simp only at h ⊢
    split at h
    · cases h
      cases hunclean
    · rename_i hstart
      obtain ⟨hwithin, hquiet, hclean⟩ := scanLoop_stops (by omega) (by omega) h
      have hwritten : ¬Zero (base.drop scan.consumed) := by
        rw [hunclean] at hclean
        exact of_decide_eq_false hclean.symm
      have hlt : scan.consumed < base.length := by
        refine lt_of_le_of_ne hwithin fun heq => hwritten ?_
        rw [heq, drop_length]
        exact nofun
      rw [if_neg (by omega), scanLoop_of_quiet _ _ _ hwithin hquiet, decide_eq_false hwritten]

end OneSegment

/-! ## The segments in order -/

/-- The start of the log. -/
def WalPosition.start : WalPosition := { segment := 0, offset := 0 }

namespace Replay

variable {directory : String} {segments : List Bytes} {r r' : Replay} {segment : Nat}

/-- A segment that did not stop cleanly stops at the same place again. -/
def Settled (directory : String) (segments : List Bytes) (r : Replay) : Prop :=
  ∀ p, r.unclean = some p →
    scanSegment directory segments p.1 p.2 = .ok ([], { consumed := p.2, stoppedCleanly := false })

/-- At the start of the log there is none. -/
theorem settled_of_clean (hclean : r.unclean = none) : Settled directory segments r := by
  intro p hp
  rw [hclean] at hp
  cases hp

/-- The replay after one more segment. -/
def advance (r : Replay) (segment : Nat) (found : List WalRecord × SegmentScan) : Replay :=
  { delivered := r.delivered ++ found.1
    reached := if found.2.consumed > 0 then { segment := segment, offset := found.2.consumed } else r.reached
    unclean := if found.2.stoppedCleanly then none else some (segment, found.2.consumed) }

/-- The replay from the start reads every segment from its start. -/
theorem step_start : step directory segments WalPosition.start r segment =
    match r.settle directory segments segment 0 with
    | .error e => .error e
    | .ok r =>
      match scanSegment directory segments segment 0 with
      | .error e => .error e
      | .ok (found, scan) =>
        .ok
          { delivered := r.delivered ++ found
            reached :=
              if scan.consumed > 0 then { segment := segment, offset := scan.consumed } else r.reached
            unclean := if scan.stoppedCleanly then r.unclean else some (segment, scan.consumed) } := by
  unfold step WalPosition.start
  rw [if_neg (Nat.not_lt_zero segment)]
  simp only [ite_self]

section

variable (hr : r.Settled directory segments)
include hr

/-- **A step over a segment that is read**: it is reported damaged exactly when the segment before
it did not stop cleanly and this one holds entries. -/
theorem step_of_ok {found : List WalRecord × SegmentScan}
    (hscan : scanSegment directory segments segment 0 = .ok found) :
    (r.unclean = none ∨ found.2.consumed = 0 →
      step directory segments WalPosition.start r segment = .ok (r.advance segment found)) ∧
    (r.unclean ≠ none → 0 < found.2.consumed →
      ∃ e, step directory segments WalPosition.start r segment = .error e) := by
  rw [step_start]
  unfold settle
  cases hunclean : r.unclean with
  | none =>
    refine ⟨fun _ => ?_, fun h => absurd rfl h⟩
    simp only [hscan, advance, hunclean]
  | some p =>
    have hagain := hr p hunclean
    refine ⟨fun h => ?_, fun _ hpos => ?_⟩
    · have hnone : ¬found.2.consumed > 0 := by
        rcases h with h | h
        · cases h
        · omega
      simp only [hagain, hscan, hnone, advance, Nat.lt_irrefl, gt_iff_lt, if_false, Bool.false_eq_true,
        append_nil]
    · simp only [hagain, hscan, gt_iff_lt, hpos, if_true, if_false, Bool.false_eq_true]
      exact ⟨_, rfl⟩

/-- A segment that is not read is reported. -/
theorem step_of_error {e : String} (hscan : scanSegment directory segments segment 0 = .error e) :
    step directory segments WalPosition.start r segment = .error e := by
  rw [step_start]
  unfold settle
  cases hunclean : r.unclean with
  | none => simp only [hscan]
  | some p =>
    have hagain := hr p hunclean
    simp only [hagain, hscan, if_false, Bool.false_eq_true]

/-- **A step that reports nothing** read the segment. -/
theorem step_eq_ok (h : step directory segments WalPosition.start r segment = .ok r') :
    ∃ found, scanSegment directory segments segment 0 = .ok found ∧ r' = r.advance segment found := by
  cases hscan : scanSegment directory segments segment 0 with
  | error =>
    rw [step_of_error hr hscan] at h
    cases h
  | ok found =>
    refine ⟨found, rfl, ?_⟩
    have hstep := step_of_ok hr hscan
    by_cases hread : r.unclean = none ∨ found.2.consumed = 0
    · rw [hstep.1 hread] at h
      cases h
      rfl
    · rw [not_or] at hread
      obtain ⟨e, herror⟩ := hstep.2 hread.1 (Nat.pos_of_ne_zero hread.2)
      rw [herror] at h
      cases h

end

/-- What an unclean segment is known to be holds after every segment. -/
theorem settled_advance {found : List WalRecord × SegmentScan}
    (hscan : scanSegment directory segments segment 0 = .ok found) :
    (r.advance segment found).Settled directory segments := by
  intro p hp
  unfold advance at hp
  simp only at hp
  split at hp
  · cases hp
  · rename_i hunclean
    cases hp
    exact scanSegment_again hscan (Bool.eq_false_iff.mpr hunclean)

/-- The entries that the scan of a segment hands on. -/
def scanned (directory : String) (segments : List Bytes) (segment : Nat) : List WalRecord :=
  match scanSegment directory segments segment 0 with
  | .ok found => found.1
  | .error _ => []

/-- **A replay that reports nothing** read every segment and handed on what it found. -/
theorem foldlM_eq_ok {numbers : List Nat} (hr : r.Settled directory segments)
    (h : numbers.foldlM (step directory segments WalPosition.start) r = .ok r') :
    r'.delivered = r.delivered ++ numbers.flatMap (scanned directory segments) ∧
      (∀ n ∈ numbers, ∃ found, scanSegment directory segments n 0 = .ok found) ∧
        r'.Settled directory segments := by
  induction numbers generalizing r with
  | nil =>
    cases h
    exact ⟨(append_nil _).symm, nofun, hr⟩
  | cons n numbers ih =>
    rw [foldlM_cons] at h
    obtain ⟨r₁, hstep, h⟩ := bind_eq_ok.mp h
    obtain ⟨found, hscan, rfl⟩ := step_eq_ok hr hstep
    obtain ⟨hdelivered, hread, hsettled⟩ := ih (settled_advance hscan) h
    refine ⟨?_, fun m hm => ?_, hsettled⟩
    · rw [hdelivered, flatMap_cons]
      simp only [advance, scanned, hscan, append_assoc]
    · rcases mem_cons.mp hm with rfl | hm
      · exact ⟨found, hscan⟩
      · exact hread m hm

end Replay

/-! ## Logs as the writer leaves them -/

/-- The entries of the segments, the first of which has the number given. -/
def recordsFrom : Nat → List Segment → List WalRecord
  | _, [] => []
  | n, s :: rest => recordsAt n 0 s.entries ++ recordsFrom (n + 1) rest

/-- Where the entries of the segments end. -/
def reachedFrom (reached : WalPosition) : Nat → List Segment → WalPosition
  | _, [] => reached
  | n, s :: rest =>
    reachedFrom (if s.written.length > 0 then { segment := n, offset := s.written.length }
      else reached) (n + 1) rest

/-- A segment with nothing in it. -/
def Segment.Unused (s : Segment) : Prop := s.entries = [] ∧ Zero s.tail

/-- A log that is read to its end: only after its last entry is there anything but space never
written. -/
def Readable : List Segment → Prop
  | [] => True
  | s :: rest => Quiet s.tail ∧ (Zero s.tail ∧ Readable rest ∨ ∀ u ∈ rest, u.Unused)

theorem Segment.written_of_nil {s : Segment} (h : s.entries = []) : s.written = [] := by
  unfold Segment.written
  rw [h, flatMap_nil]

variable {rest : List Segment} {n : Nat}

/-- Segments without entries hand on none. -/
theorem recordsFrom_of_nil (h : ∀ u ∈ rest, u.entries = []) : recordsFrom n rest = [] := by
  induction rest generalizing n with
  | nil => rfl
  | cons u rest ih =>
    rw [recordsFrom, h u mem_cons_self, ih fun v hv => h v (mem_cons_of_mem _ hv)]
    rfl

/-- Segments without entries do not move the end. -/
theorem reachedFrom_of_nil {reached : WalPosition} (h : ∀ u ∈ rest, u.entries = []) :
    reachedFrom reached n rest = reached := by
  induction rest generalizing n with
  | nil => rfl
  | cons u rest ih =>
    rw [reachedFrom, Segment.written_of_nil (h u mem_cons_self), if_neg (by simp),
      ih fun v hv => h v (mem_cons_of_mem _ hv)]

theorem recordsFrom_append (n : Nat) (as bs : List Segment) :
    recordsFrom n (as ++ bs) = recordsFrom n as ++ recordsFrom (n + as.length) bs := by
  induction as generalizing n with
  | nil => rfl
  | cons a as ih =>
    rw [cons_append, recordsFrom, recordsFrom, ih, append_assoc, length_cons,
      show n + 1 + as.length = n + (as.length + 1) by omega]

theorem reachedFrom_append (reached : WalPosition) (n : Nat) (as bs : List Segment) :
    reachedFrom reached n (as ++ bs) = reachedFrom (reachedFrom reached n as) (n + as.length) bs := by
  induction as generalizing n reached with
  | nil => rfl
  | cons a as ih =>
    rw [cons_append, reachedFrom, reachedFrom, ih, length_cons,
      show n + 1 + as.length = n + (as.length + 1) by omega]

/-- Segments that are full of entries and zeros come before anything readable. -/
theorem readable_append {as bs : List Segment} (has : ∀ a ∈ as, Zero a.tail) (hbs : Readable bs) :
    Readable (as ++ bs) := by
  induction as with
  | nil => exact hbs
  | cons a as ih =>
    have ha : Zero a.tail := has a mem_cons_self
    exact ⟨ha.quiet, .inl ⟨ha, ih fun b hb => has b (mem_cons_of_mem _ hb)⟩⟩

theorem readable_of_zero (h : ∀ s ∈ rest, Zero s.tail) : Readable rest :=
  append_nil rest ▸ readable_append h trivial

namespace Replay

variable {directory : String} {segments : List Bytes} {before rest : List Segment} {r : Replay}

/-- The file of a segment of the log. -/
theorem file_eq {s : Segment} (hlog : (before ++ s :: rest).map Segment.bytes <+: segments) :
    segments[before.length]? = some s.bytes := by
  obtain ⟨more, rfl⟩ := hlog
  rw [map_append, append_assoc, getElem?_append_right (by rw [length_map]), length_map, Nat.sub_self]
  rfl

/-- **A log that is readable is read to its end**, and nothing is left over where zeros are behind
the entries. After a segment that did not stop cleanly only segments with nothing in them are. -/
theorem foldlM_of_readable (directory : String) (before : List Segment) (r : Replay)
    (hlog : (before ++ rest).map Segment.bytes <+: segments) (hbytes : ∀ s ∈ rest, s.bytes ≠ [])
    (hr : r.Settled directory segments)
    (hread : r.unclean = none ∧ Readable rest ∨ ∀ u ∈ rest, u.Unused) :
    ∃ unclean, (range' before.length rest.length).foldlM (step directory segments WalPosition.start) r =
      .ok { delivered := r.delivered ++ recordsFrom before.length rest
            reached := reachedFrom r.reached before.length rest
            unclean := unclean } ∧ (r.unclean = none → (∀ s ∈ rest, Zero s.tail) → unclean = none) := by
  induction rest generalizing before r with
  | nil => exact ⟨r.unclean, by simp [recordsFrom, reachedFrom, pure, Except.pure], fun hclean _ => hclean⟩
  | cons s rest ih =>
    have hquiet : Quiet s.tail := hread.elim (·.2.1) fun hunused => (hunused s mem_cons_self).2.quiet
    have hscan := scanSegment_of_quiet directory (file_eq hlog) (hbytes s mem_cons_self) hquiet
    have hstep := (step_of_ok hr hscan).1 (hread.imp (·.1) fun hunused => by
      rw [Segment.written_of_nil (hunused s mem_cons_self).1]
      rfl)
    have hclean : Zero s.tail → (r.advance before.length (recordsAt before.length 0 s.entries,
        { consumed := s.written.length, stoppedCleanly := decide (Zero s.tail) })).unclean = none :=
          fun hzero => by
      simp [advance, hzero]
    have hlog' : ((before ++ [s]) ++ rest).map Segment.bytes <+: segments := by
      rwa [append_assoc, singleton_append]
    obtain ⟨unclean, hrest, hnone⟩ :=
      ih _ _ hlog' (fun s hs => hbytes s (mem_cons_of_mem _ hs)) (settled_advance hscan) (by
      rcases hread with ⟨-, -, ⟨hzero, hread⟩ | hunused⟩ | hunused
      · exact .inl ⟨hclean hzero, hread⟩
      · exact .inr hunused
      · exact .inr fun u hu => hunused u (mem_cons_of_mem _ hu))
    refine ⟨unclean, ?_, fun _ hall => ?_⟩
    · rw [length_append, length_singleton] at hrest
      rw [length_cons, range'_succ, foldlM_cons, hstep]
      refine hrest.trans ?_
      simp [advance, recordsFrom, reachedFrom]
    · exact hnone (hclean (hall s mem_cons_self)) fun u hu => hall u (mem_cons_of_mem _ hu)

section

variable (hlog : (before ++ rest).map Segment.bytes <+: segments)
include hlog

/-- **What the scans of the segments hand on is at least their entries**, and exactly those only
where nothing is found in the tails. -/
theorem scanned_recordsFrom (hbytes : ∀ s ∈ rest, s.bytes ≠ [])
    (hread : ∀ n ∈ range' before.length rest.length,
      ∃ found, scanSegment directory segments n 0 = .ok found) : (recordsFrom before.length rest).length ≤
        ((range' before.length rest.length).flatMap (scanned directory segments)).length ∧
      ((range' before.length rest.length).flatMap (scanned directory segments) =
        recordsFrom before.length rest → ∀ s ∈ rest, Quiet s.tail) := by
  induction rest generalizing before with
  | nil => exact ⟨Nat.le_refl _, fun _ _ hs => absurd hs not_mem_nil⟩
  | cons s rest ih =>
    rw [length_cons, range'_succ] at hread ⊢
    obtain ⟨found, hscan⟩ := hread before.length mem_cons_self
    obtain ⟨more, hfound, hquiet⟩ := scanSegment_eq_ok (file_eq hlog) (hbytes s mem_cons_self) hscan
    have hlog' : ((before ++ [s]) ++ rest).map Segment.bytes <+: segments := by
      rwa [append_assoc, singleton_append]
    have hrest := ih hlog' fun s hs => hbytes s (mem_cons_of_mem _ hs)
    rw [length_append, length_singleton] at hrest
    obtain ⟨hlater, hexactly⟩ := hrest fun n hn => hread n (mem_cons_of_mem _ hn)
    have hscanned : scanned directory segments before.length =
      recordsAt before.length 0 s.entries ++ more := by
      unfold scanned
      rw [hscan]
      exact hfound
    rw [recordsFrom, flatMap_cons, hscanned, append_assoc]
    refine ⟨by simp only [length_append]; omega, fun hexact => ?_⟩
    have hsplit := append_cancel_left hexact
    -- the later segments already hand on as much as there is
    have hnone : more = [] := by
      have hlen := congrArg length hsplit
      rw [length_append] at hlen
      exact eq_nil_of_length_eq_zero (by omega)
    rw [hnone, nil_append] at hsplit
    exact forall_mem_cons.mpr ⟨hquiet hnone, hexactly hsplit⟩

end

end Replay

/-! ## Entries are handed on once -/

theorem mem_recordsAt {segment offset : Nat} {es : List WalEntry} {x : WalRecord}
    (h : x ∈ recordsAt segment offset es) : x.segment = segment ∧ offset ≤ x.offset := by
  induction es generalizing offset with
  | nil => exact (not_mem_nil h).elim
  | cons e es ih =>
    rcases mem_cons.mp h with rfl | h
    · exact ⟨rfl, Nat.le_refl _⟩
    · have hlater := ih h
      exact ⟨hlater.1, by omega⟩

theorem nodup_recordsAt (segment offset : Nat) (es : List WalEntry) :
    (recordsAt segment offset es).Nodup := by
  induction es generalizing offset with
  | nil => exact nodup_nil
  | cons e es ih =>
    refine nodup_cons.mpr ⟨fun hmem => ?_, ih _⟩
    have hlater := (mem_recordsAt hmem).2
    have hsize := e.size_ge
    simp only [WalEntry.record] at hlater
    omega

theorem mem_recordsFrom {log : List Segment} {x : WalRecord} (h : x ∈ recordsFrom n log) : n ≤ x.segment := by
  induction log generalizing n with
  | nil => exact (not_mem_nil h).elim
  | cons s log ih =>
    rcases mem_append.mp h with h | h
    · exact (mem_recordsAt h).1.ge
    · exact Nat.le_of_succ_le (ih h)

/-- No entry of a log stands twice among its entries. -/
theorem nodup_recordsFrom (n : Nat) (log : List Segment) : (recordsFrom n log).Nodup := by
  induction log generalizing n with
  | nil => exact nodup_nil
  | cons s log ih =>
    refine nodup_append.mpr ⟨nodup_recordsAt n 0 s.entries, ih (n + 1), ?_⟩
    intro x hx y hy heq
    have hfirst := (mem_recordsAt hx).1
    have hlater := mem_recordsFrom hy
    rw [heq] at hfirst
    omega

/-! ## Replay -/

section Replays

variable {directory : String} {log : List Segment}

/-- The loop of the replay from the start of the log. -/
def replaying (directory : String) (log : List Segment) (numbers : List Nat) : Except String Replay :=
  numbers.foldlM (Replay.step directory (log.map Segment.bytes) WalPosition.start)
    { delivered := [], reached := WalPosition.start, unclean := none }

theorem replay_start : replay directory (log.map Segment.bytes) WalPosition.start =
    (replaying directory log (segmentNumbers log.length)).map fun r => (r.delivered, r.reached) := by
  unfold replay replaying
  rw [length_map]

open Replay

/-- **A log that is readable hands on exactly its entries**, and ends with the last of them. -/
theorem replay_of_readable (directory : String) (hcount : log.length ≤ 1000000)
    (hbytes : ∀ s ∈ log, s.bytes ≠ []) (hread : Readable log) :
    replay directory (log.map Segment.bytes) WalPosition.start =
      .ok (recordsFrom 0 log, reachedFrom WalPosition.start 0 log) := by
  obtain ⟨unclean, hfold, -⟩ := foldlM_of_readable directory []
    { delivered := [], reached := WalPosition.start, unclean := none } (prefix_refl _) hbytes
      (settled_of_clean rfl)
    (.inl ⟨rfl, hread⟩)
  rw [nil_append] at hfold
  rw [replay_start, segmentNumbers_of_le hcount, range_eq_range']
  unfold replaying
  rw [show range' 0 log.length = range' ([] : List Segment).length log.length from rfl, hfold]
  rfl

/-- What a replay that reports nothing handed on. -/
theorem replay_eq_ok {records : List WalRecord} {reached : WalPosition}
    (h : replay directory (log.map Segment.bytes) WalPosition.start = .ok (records, reached)) :
    records = (segmentNumbers log.length).flatMap (Replay.scanned directory (log.map Segment.bytes)) ∧
      ∀ n ∈ segmentNumbers log.length, ∃ found, scanSegment directory (log.map Segment.bytes) n 0 =
        .ok found := by
  rw [replay_start] at h
  obtain ⟨r, hfold, h⟩ := map_eq_ok.mp h
  cases h
  obtain ⟨hdelivered, hread, -⟩ := foldlM_eq_ok (settled_of_clean rfl) hfold
  exact ⟨hdelivered, hread⟩

/-- **A log in which torn bytes are left before an entry of the next segment is reported damaged.** -/
theorem replay_of_left_behind (directory : String) {before after : List Segment} {s t : Segment}
    (hlog : log = before ++ s :: t :: after) (hcount : log.length ≤ 1000000)
    (hbytes : ∀ u ∈ log, u.bytes ≠ []) (hquiet : Quiet s.tail) (hleft : ¬Zero s.tail)
    (hnext : Quiet t.tail) (hentries : t.entries ≠ []) :
    ∃ e, replay directory (log.map Segment.bytes) WalPosition.start = .error e := by
  have hnumbers : segmentNumbers log.length = range' 0 before.length ++
      (before.length :: (before.length + 1) :: range' (before.length + 2) after.length) := by
    rw [segmentNumbers_of_le hcount, range_eq_range', hlog, length_append, ← range'_append_1, Nat.zero_add]
    rfl
  have hs : s ∈ log := hlog ▸ mem_append_right _ mem_cons_self
  have ht : t ∈ log := hlog ▸ mem_append_right _ (mem_cons_of_mem _ mem_cons_self)
  have hhere : (before ++ s :: t :: after).map Segment.bytes <+: log.map Segment.bytes :=
    ⟨[], by rw [hlog, append_nil]⟩
  have hscan := scanSegment_of_quiet directory (file_eq hhere) (hbytes s hs) hquiet
  have hfile : (before ++ [s] ++ t :: after).map Segment.bytes <+: log.map Segment.bytes :=
    ⟨[], by rw [hlog, append_nil, append_assoc, singleton_append]⟩
  have hscan' := scanSegment_of_quiet directory (file_eq hfile) (hbytes t ht) hnext
  rw [length_append, length_singleton] at hscan'
  rw [replay_start, hnumbers]
  unfold replaying
  rw [foldlM_append]
  cases hfold : (range' 0 before.length).foldlM
    (Replay.step directory (log.map Segment.bytes) WalPosition.start)
      { delivered := [], reached := WalPosition.start, unclean := none } with
  | error e => exact ⟨e, rfl⟩
  | ok r =>
    -- the segment with the torn bytes is read, if it is, up to them, and then the next one is not
    have hsettled := (foldlM_eq_ok (settled_of_clean rfl) hfold).2.2
    cases hstep : Replay.step directory (log.map Segment.bytes) WalPosition.start r before.length with
    | error e =>
      refine ⟨e, ?_⟩
      simp [foldlM_cons, hstep, bind, Except.bind, Except.map]
    | ok =>
      obtain ⟨found, hfound, rfl⟩ := step_eq_ok hsettled hstep
      rw [hscan] at hfound
      cases hfound
      have hunclean : (r.advance before.length (recordsAt before.length 0 s.entries,
          { consumed := s.written.length, stoppedCleanly := decide (Zero s.tail) })).unclean ≠ none := by
        simp [Replay.advance, hleft]
      obtain ⟨e, herror⟩ := (step_of_ok (settled_advance hscan) hscan').2 hunclean
        (Segment.written_length_pos.mpr hentries)
      refine ⟨e, ?_⟩
      simp [foldlM_cons, hstep, herror, bind, Except.bind, Except.map]

/-- **A log in which a valid entry follows bytes that are none, in one segment, is reported
damaged.** -/
theorem replay_of_hidden (directory : String) {before after : List Segment} {s : Segment}
    (hlog : log = before ++ s :: after) (hcount : log.length ≤ 1000000) (hbytes : s.bytes ≠ [])
    (hfirst : validEntrySizeAt s.tail 0 = 0) (h : ¬Quiet s.tail) :
    ∃ e, replay directory (log.map Segment.bytes) WalPosition.start = .error e := by
  have hhere : (before ++ s :: after).map Segment.bytes <+: log.map Segment.bytes :=
    ⟨[], by rw [hlog, append_nil]⟩
  have hnumber : before.length ∈ segmentNumbers log.length := by
    rw [segmentNumbers_of_le hcount, mem_range, hlog, length_append, length_cons]
    omega
  cases hreplay : replay directory (log.map Segment.bytes) WalPosition.start with
  | error e => exact ⟨e, rfl⟩
  | ok =>
    obtain ⟨found, hscan⟩ := (replay_eq_ok hreplay).2 _ hnumber
    obtain ⟨e, herror⟩ := scanSegment_of_hidden directory (file_eq hhere) hbytes hfirst h
    rw [hscan] at herror
    cases herror

/-- **A replay that hands on exactly the entries** read at most as many segments as six digits
number, and found nothing in their tails. -/
theorem quiet_of_replay {reached : WalPosition} (hbytes : ∀ s ∈ log, s.bytes ≠ [])
    (hentries : ∀ s, log[100000]? = some s → 1000000 < log.length → s.entries ≠ [])
    (h : replay directory (log.map Segment.bytes) WalPosition.start = .ok (recordsFrom 0 log, reached)) :
    log.length ≤ 1000000 ∧ ∀ s ∈ log, Quiet s.tail := by
  obtain ⟨hrecords, hread⟩ := replay_eq_ok h
  have hcount : log.length ≤ 1000000 := by
    by_contra hgt
    have htwice := segmentNumbers_of_gt (Nat.lt_of_not_le hgt)
    obtain ⟨s, hs⟩ : ∃ s, log[100000]? = some s := ⟨_, getElem?_eq_getElem (by omega)⟩
    have hfile : (log.map Segment.bytes)[100000]? = some s.bytes := by rw [getElem?_map, hs]; rfl
    obtain ⟨found, hscan⟩ := hread 100000 (htwice.subset mem_cons_self)
    obtain ⟨more, hfound, -⟩ :=
      scanSegment_eq_ok hfile (hbytes s (mem_of_getElem? hs)) hscan
    -- its first entry is handed on twice
    obtain ⟨e, es, hcons⟩ := exists_cons_of_ne_nil (hentries s hs (Nat.lt_of_not_le hgt))
    have hfirst : List.Sublist [e.record 100000 0]
      (Replay.scanned directory (log.map Segment.bytes) 100000) := by
      unfold Replay.scanned
      rw [hscan]
      simp only [hfound, hcons, recordsAt, cons_append]
      exact singleton_sublist.mpr mem_cons_self
    have hboth : List.Sublist ([e.record 100000 0] ++ [e.record 100000 0]) (recordsFrom 0 log) := by
      rw [hrecords]
      have hscans := htwice.flatMap (Replay.scanned directory (log.map Segment.bytes))
      rw [flatMap_cons, flatMap_cons, flatMap_nil, append_nil] at hscans
      exact (hfirst.append hfirst).trans hscans
    exact (nodup_iff_sublist.mp (nodup_recordsFrom 0 log)) _ hboth
  refine ⟨hcount, ?_⟩
  rw [segmentNumbers_of_le hcount, range_eq_range'] at hrecords hread
  have hlog : ([] ++ log).map Segment.bytes <+: log.map Segment.bytes := prefix_refl _
  exact (scanned_recordsFrom hlog hbytes hread).2 hrecords.symm

end Replays

end PubsubVenue
