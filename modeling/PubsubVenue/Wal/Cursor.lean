import PubsubVenue.Wal.Reader

/-! # Reading the log entry by entry

`WalCursor` in `WalCursor.cpp`: the other reader of the log. It opens segments by their numbers,
hands on one entry a call, and at bytes that are neither an entry nor space never written it looks
for a valid entry in the same segment and for the start of one in any later segment.

* **`WalCursor.readFromStart_of_readable`**: a log that is readable is handed on entry by entry,
  exactly. -/

namespace PubsubVenue

open List

/-- `WalCursor`. -/
structure WalCursor where
  segment : Nat
  everySegmentRead : Bool
  offset : Nat
  position : WalPosition
  deriving DecidableEq

namespace WalCursor

/-- `WalCursor::first_segment_from`, with the numbers that listing the directory finds. -/
def firstSegmentFrom (count segment : Nat) : Option Nat :=
  (((range count).map scannedNumber).filter (segment ≤ ·)).min?

variable (segments : List Bytes)

/-- `WalCursor::open`. -/
def openAt (start : WalPosition) : WalCursor :=
  if start.segment < segments.length then
    { segment := start.segment, everySegmentRead := false, offset := start.offset, position := start }
  else
    let first := firstSegmentFrom segments.length start.segment
    { segment := first.getD 0, everySegmentRead := first.isNone, offset := 0, position := start }

/-- `WalCursor::move_to_next_segment`. -/
def moveToNextSegment (c : WalCursor) : WalCursor :=
  if c.segment + 1 < segments.length then { c with segment := c.segment + 1, offset := 0 }
  else { c with everySegmentRead := true, offset := 0 }

/-- What `later_segment_has_entries` looks for in the first page of a file. -/
def startsWithEntry (file : Bytes) : Bool :=
  let first := file.take 4096
  decide (24 ≤ first.length) && (validEntrySizeAt first 0 != 0 || leNat (first.take 4) == entryMagic)

/-- `WalCursor::later_segment_has_entries`. -/
def laterSegmentHasEntries (c : WalCursor) : Bool :=
  (segments.drop (c.segment + 1)).any startsWithEntry

/-- The loop of `read_next`. It goes on only to the next segment. -/
def readLoop (directory : String) (segments : List Bytes) :
    Nat → WalCursor → Except String (Option WalRecord × WalCursor)
  | 0, c => .ok (none, c)
  | left + 1, c =>
    if c.everySegmentRead then .ok (none, c)
    else
      match segments[c.segment]? with
      | none => readLoop directory segments left (c.moveToNextSegment segments)
      | some base =>
        if base.length = 0 ∨ c.offset + 24 > base.length then
          readLoop directory segments left (c.moveToNextSegment segments)
        else if validEntrySizeAt base c.offset = 0 then
          if allZero base c.offset then
            readLoop directory segments left (c.moveToNextSegment segments)
          else if nextValidEntryAfter base c.offset = base.length ∧ ¬c.laterSegmentHasEntries segments then
            .ok (none, c)
          else
            .error (s!"WalCursor: the write-ahead log is damaged -- {segmentPath directory c.segment} " ++
              s!"has an entry at byte {c.offset} that is not valid, followed by valid entries. Records " ++
              "after the damage would be skipped, so the log is not read past it")
        else
          let offset := c.offset + validEntrySizeAt base c.offset
          .ok (some (recordAt c.segment base c.offset),
            { c with offset := offset, position := { segment := c.segment, offset := offset } })

/-- `WalCursor::read_next`. The segments are numbered without gaps, so the loop runs at most once
for every segment left and once more. -/
def readNext (directory : String) (segments : List Bytes) (c : WalCursor) :
    Except String (Option WalRecord × WalCursor) :=
  readLoop directory segments (segments.length + 1 - c.segment) c

/-- Call `read_next` until it finds no entry, at most as often as given. -/
def readAll (directory : String) (segments : List Bytes) : Nat → WalCursor → Except String (List WalRecord)
  | 0, _ => .ok []
  | left + 1, c =>
    match c.readNext directory segments with
    | .error e => .error e
    | .ok (none, _) => .ok []
    | .ok (some x, c) => (readAll directory segments left c).map (x :: ·)

/-- Read the log from its start. It has fewer entries than bytes. -/
def readFromStart (directory : String) (segments : List Bytes) : Except String (List WalRecord) :=
  readAll directory segments ((segments.map length).sum + 1) (openAt segments WalPosition.start)

/-! ## Logs as the writer leaves them -/

/-- Space never written does not look like an entry. -/
theorem startsWithEntry_of_zero {file : Bytes} (h : Zero file) : startsWithEntry file = false := by
  have hquiet := (h.take 4096).quiet 0
  have hmagic : leNat ((file.take 4096).take 4) = 0 := leNat_zero ((h.take 4096).take 4)
  unfold startsWithEntry
  simp [hquiet, hmagic, entryMagic]

section OneLog

variable {directory : String} {segments : List Bytes} {before rest : List Segment} {s : Segment}
    {c : WalCursor}

/-- A cursor within the log: before it are whole segments and the entries it has handed on. -/
structure At (segments : List Bytes) (before : List Segment) (s : Segment) (rest : List Segment)
    (done : Bytes) (left : List WalEntry) (c : WalCursor) : Prop where
  log : segments = (before ++ s :: rest).map Segment.bytes
  split : s.bytes = done ++ (left.flatMap WalEntry.bytes ++ s.tail)
  segment : c.segment = before.length
  offset : c.offset = done.length
  reading : c.everySegmentRead = false

variable {done : Bytes} {left : List WalEntry}

theorem At.file (h : At segments before s rest done left c) : segments[c.segment]? = some s.bytes := by
  have hlog : (before ++ s :: rest).map Segment.bytes <+: segments :=
    ⟨[], by rw [h.log, append_nil]⟩
  rw [h.segment]
  exact Replay.file_eq hlog

theorem At.fuel (h : At segments before s rest done left c) :
    segments.length + 1 - c.segment = rest.length + 1 + 1 := by
  rw [h.log, h.segment, length_map, length_append, length_cons]
  omega

/-- **The next entry is handed on.** -/
theorem readNext_entry (directory : String) {e : WalEntry}
    (h : At segments before s rest done (e :: left) c) :
    ∃ c', c.readNext directory segments = .ok (some (e.record before.length done.length), c') ∧
      At segments before s rest (done ++ e.bytes) left c' ∧
      c'.position = { segment := before.length, offset := done.length + e.size } := by
  have hbytes : s.bytes = done ++ (e.bytes ++ (left.flatMap WalEntry.bytes ++ s.tail)) := by
    rw [h.split, flatMap_cons, append_assoc]
  have hvalid : validEntrySizeAt s.bytes c.offset = e.size := by
    rw [hbytes, h.offset, validEntrySizeAt_append, e.validEntrySizeAt_bytes]
  have hrecord : recordAt c.segment s.bytes c.offset = e.record before.length done.length := by
    rw [hbytes, h.offset, h.segment, e.recordAt_bytes]
  have hsize := e.size_ge
  have hlen : s.bytes.length = done.length + (e.size + (left.flatMap WalEntry.bytes ++ s.tail).length) := by
    rw [hbytes, length_append, length_append, e.length_bytes]
  have hoffset := h.offset
  refine ⟨{ c with offset := c.offset + e.size, position := { segment := c.segment, offset := c.offset + e.size } },
    ?_, ?_, by rw [h.segment, h.offset]⟩
  · unfold readNext
    rw [h.fuel, readLoop, h.reading, if_neg (by decide), h.file]
    simp only
    rw [if_neg (by omega), hvalid, if_neg (by omega), hrecord]
  · exact
      { log := h.log
        split := by rw [hbytes, append_assoc]
        segment := h.segment
        offset := by
          rw [length_append, e.length_bytes]
          exact congrArg (· + e.size) h.offset
        reading := h.reading }

/-- What is left in the segment is its tail. -/
theorem At.tail (h : At segments before s rest done [] c) : s.bytes.drop c.offset = s.tail := by
  rw [h.split, h.offset, drop_left]
  rfl

/-- With no entry left in a segment whose tail is not written, or too short for a header, the cursor
goes on to the next segment. -/
theorem readLoop_skip {left : Nat} (h : At segments before s rest done [] c)
    (hmove : c.offset + 24 > s.bytes.length ∨ Zero s.tail) : readLoop directory segments (left + 1) c =
      readLoop directory segments left (c.moveToNextSegment segments) := by
  rw [readLoop, h.reading, if_neg (by decide), h.file]
  simp only
  by_cases hroom : s.bytes.length = 0 ∨ c.offset + 24 > s.bytes.length
  · rw [if_pos hroom]
  · have hzero : Zero s.tail := hmove.resolve_left fun h => hroom (.inr h)
    have hvalid : validEntrySizeAt s.bytes c.offset = 0 := by
      have := hzero.quiet 0
      rwa [← h.tail, validEntrySizeAt_drop, Nat.add_zero] at this
    have hall : allZero s.bytes c.offset = true := allZero_iff.mpr (h.tail.symm ▸ hzero)
    rw [if_neg hroom, if_pos hvalid, if_pos hall]

/-- The next segment is read from its start. -/
theorem At.next {t : Segment} (h : At segments before s (t :: rest) done [] c) :
    At segments (before ++ [s]) t rest [] t.entries (c.moveToNextSegment segments) := by
  have hexists : c.segment + 1 < segments.length := by
    rw [h.log, h.segment, length_map, length_append, length_cons, length_cons]
    omega
  unfold moveToNextSegment
  rw [if_pos hexists]
  exact
    { log := by rw [h.log, append_assoc, singleton_append]
      split := rfl
      segment := by
        rw [length_append, length_singleton]
        exact congrArg (· + 1) h.segment
      offset := rfl
      reading := h.reading }

/-- At what a torn append left behind the cursor stays, when no later segment was written. -/
theorem readNext_torn (h : At segments before s rest done [] c) (hquiet : Quiet s.tail)
    (hunused : ∀ u ∈ rest, u.Unused) (htorn : ¬(c.offset + 24 > s.bytes.length ∨ Zero s.tail)) :
    c.readNext directory segments = .ok (none, c) := by
  obtain ⟨hroom, hwritten⟩ := not_or.mp htorn
  have hnone := (quiet_drop_iff (show c.offset ≤ s.bytes.length by omega)).mp (h.tail.symm ▸ hquiet)
  have hlater : c.laterSegmentHasEntries segments = false := by
    have hdrop : segments.drop (c.segment + 1) = rest.map Segment.bytes := by
      rw [h.log, h.segment, ← singleton_append, ← append_assoc, map_append]
      exact drop_left' (by rw [length_map, length_append, length_singleton])
    unfold laterSegmentHasEntries
    rw [hdrop, any_eq_false]
    intro file hfile
    obtain ⟨u, hu, rfl⟩ := mem_map.mp hfile
    have hzero : Zero u.bytes := by
      unfold Segment.bytes
      rw [Segment.written_of_nil (hunused u hu).1]
      exact (hunused u hu).2
    rw [startsWithEntry_of_zero hzero]
    decide
  unfold readNext
  rw [h.fuel, readLoop, h.reading, if_neg (by decide), h.file]
  simp only
  rw [if_neg (by omega), if_pos hnone.1,
    if_neg (fun hall => hwritten (h.tail ▸ allZero_iff.mp hall)), hlater, if_pos ⟨hnone.2, by decide⟩]

section

variable (directory : String)

/-- **After the last entry the cursor finds no other**, whatever a torn append left behind. -/
theorem readNext_end (h : At segments before s rest done [] c)
    (hquiet : Quiet s.tail) (hunused : ∀ u ∈ rest, u.Unused) :
    ∃ c', c.readNext directory segments = .ok (none, c') := by
  induction rest generalizing before s done c with
  | nil =>
    by_cases hmove : c.offset + 24 > s.bytes.length ∨ Zero s.tail
    · -- there is no next segment
      have hlast : ¬c.segment + 1 < segments.length := by
        rw [h.log, h.segment, length_map, length_append, length_singleton]
        omega
      unfold readNext
      rw [h.fuel, readLoop_skip h hmove, readLoop, moveToNextSegment, if_neg hlast, if_pos rfl]
      exact ⟨_, rfl⟩
    · exact ⟨c, readNext_torn h hquiet hunused hmove⟩
  | cons u rest ih =>
    have hu := hunused u mem_cons_self
    by_cases hmove : c.offset + 24 > s.bytes.length ∨ Zero s.tail
    · have hnext := h.next
      rw [hu.1] at hnext
      obtain ⟨c', hend⟩ := ih hnext hu.2.quiet fun v hv => hunused v (mem_cons_of_mem _ hv)
      refine ⟨c', ?_⟩
      rw [← hend]
      unfold readNext
      rw [h.fuel, hnext.fuel, readLoop_skip h hmove, length_cons]
    · exact ⟨c, readNext_torn h hquiet hunused hmove⟩

/-- A cursor within a readable log, and the records it has still to hand on. -/
def Within (segments : List Bytes) (left : List WalRecord) (c : WalCursor) : Prop :=
  ∃ before s rest done entries, At segments before s rest done entries c ∧ Readable (s :: rest) ∧
    left = recordsAt before.length done.length entries ++ recordsFrom (before.length + 1) rest

/-- The end of the log is found. -/
theorem readNext_of_within_nil (h : Within segments [] c) :
    ∃ c', c.readNext directory segments = .ok (none, c') := by
  obtain ⟨before, s, rest, done, entries, hat, hread, hleft⟩ := h
  obtain ⟨hentries, hrest⟩ := append_eq_nil_iff.mp hleft.symm
  have hnone : entries = [] := by
    rw [← length_eq_zero_iff, ← length_recordsAt before.length done.length, hentries]
    rfl
  subst hnone
  clear hleft hentries
  induction rest generalizing before s done c with
  | nil => exact readNext_end directory hat hread.1 nofun
  | cons t rest ih =>
    obtain ⟨hquiet, ⟨hzero, hread⟩ | hunused⟩ := hread
    · obtain ⟨ht, hlater⟩ := append_eq_nil_iff.mp (show recordsAt _ 0 t.entries ++ _ = [] from hrest)
      have hempty : t.entries = [] := by
        rw [← length_eq_zero_iff, ← length_recordsAt (before.length + 1) 0, ht]
        rfl
      have hnext := hat.next
      rw [hempty] at hnext
      have hlen : (before ++ [s]).length = before.length + 1 := by
        rw [length_append, length_singleton]
      obtain ⟨c', hend⟩ := ih _ _ _ hread (by rw [hlen]; exact hlater) hnext
      refine ⟨c', ?_⟩
      rw [← hend]
      unfold readNext
      rw [hat.fuel, hnext.fuel, readLoop_skip hat (.inr hzero), length_cons]
    · exact readNext_end directory hat hquiet hunused

/-- **The records of a readable log are handed on one after the other.** -/
theorem readNext_of_within_cons {x : WalRecord} {left : List WalRecord} (h : Within segments (x :: left) c) :
    ∃ c', c.readNext directory segments = .ok (some x, c') ∧ Within segments left c' ∧
      c'.position = { segment := x.segment, offset := x.offset + (24 + x.payload.length + 4) } := by
  obtain ⟨before, s, rest, done, entries, hat, hread, hleft⟩ := h
  induction rest generalizing before s done entries c with
  | nil =>
    cases entries with
    | nil => cases hleft
    | cons e entries =>
      obtain ⟨c', hnext, hat', hpos⟩ := readNext_entry directory hat
      obtain ⟨rfl, rfl⟩ := cons.inj hleft
      refine ⟨c', hnext, ⟨before, s, [], _, entries, hat', hread, ?_⟩, hpos⟩
      rw [length_append, e.length_bytes]
      rfl
  | cons t rest ih =>
    cases entries with
    | cons e entries =>
      obtain ⟨c', hnext, hat', hpos⟩ := readNext_entry directory hat
      obtain ⟨rfl, rfl⟩ := cons.inj hleft
      refine ⟨c', hnext, ⟨before, s, t :: rest, _, entries, hat', hread, ?_⟩, hpos⟩
      rw [length_append, e.length_bytes]
      rfl
    | nil =>
      -- the segment is finished, and the next one is read from its start
      obtain ⟨hquiet, ⟨hzero, hread⟩ | hunused⟩ := hread
      · have hnext := hat.next
        have hlen : (before ++ [s]).length = before.length + 1 := by
          rw [length_append, length_singleton]
        obtain ⟨c', hfound, hwithin, hpos⟩ := ih _ _ _ _ hnext hread (by rw [hlen]; exact hleft)
        refine ⟨c', ?_, hwithin, hpos⟩
        rw [← hfound]
        unfold readNext
        rw [hat.fuel, hnext.fuel, readLoop_skip hat (.inr hzero), length_cons]
      · rw [recordsFrom_of_nil fun u hu => (hunused u hu).1] at hleft
        cases hleft

/-- **From anywhere in a readable log** the cursor hands on the records that are left. -/
theorem readAll_of_within {left : List WalRecord} {calls : Nat}
    (h : Within segments left c) (hcalls : left.length < calls) :
    readAll directory segments calls c = .ok left := by
  induction left generalizing c calls with
  | nil =>
    obtain ⟨n, rfl⟩ : ∃ n, calls = n + 1 := ⟨calls - 1, by omega⟩
    obtain ⟨c', hend⟩ := readNext_of_within_nil directory h
    rw [readAll, hend]
  | cons x left ih =>
    obtain ⟨n, rfl⟩ : ∃ n, calls = n + 1 := ⟨calls - 1, by omega⟩
    obtain ⟨c', hnext, hwithin, -⟩ := readNext_of_within_cons directory h
    rw [readAll, hnext]
    simp only
    rw [ih hwithin (by rw [length_cons] at hcalls; omega)]
    rfl

end

/-- A cursor opened at the start of a segment has the records from there on to hand on. -/
theorem within_openAt (hlog : segments = (before ++ s :: rest).map Segment.bytes)
    (hread : Readable (s :: rest)) :
    Within segments (recordsFrom before.length (s :: rest))
      (openAt segments { segment := before.length, offset := 0 }) := by
  refine ⟨before, s, rest, [], s.entries, ?_, hread, rfl⟩
  have hexists : before.length < segments.length := by
    rw [hlog, length_map, length_append, length_cons]
    omega
  unfold openAt
  rw [if_pos hexists]
  exact { log := hlog, split := rfl, segment := rfl, offset := rfl, reading := rfl }

end OneLog

/-- A log has no more entries than bytes. -/
theorem length_recordsFrom (n : Nat) (log : List Segment) :
    (recordsFrom n log).length ≤ ((log.map Segment.bytes).map length).sum := by
  induction log generalizing n with
  | nil => exact Nat.le_refl _
  | cons s log ih =>
    have hhere := length_le_written s.entries
    have hlater := ih (n + 1)
    have hbytes : s.bytes.length = s.written.length + s.tail.length := length_append
    rw [recordsFrom, length_append, length_recordsAt, map_cons, map_cons, sum_cons, hbytes]
    unfold Segment.written
    omega

/-- **A log that is readable is handed on entry by entry, exactly.** -/
theorem readFromStart_of_readable (directory : String) {log : List Segment} (hlog : log ≠ [])
    (hread : Readable log) : readFromStart directory (log.map Segment.bytes) = .ok (recordsFrom 0 log) := by
  obtain ⟨s, rest, rfl⟩ := exists_cons_of_ne_nil hlog
  have hcount := length_recordsFrom 0 (s :: rest)
  have hwithin : Within ((s :: rest).map Segment.bytes) (recordsFrom 0 (s :: rest))
      (openAt ((s :: rest).map Segment.bytes) WalPosition.start) :=
    within_openAt (show _ = ([] ++ s :: rest).map Segment.bytes from rfl) hread
  exact readAll_of_within directory hwithin (by omega)

end WalCursor

end PubsubVenue
