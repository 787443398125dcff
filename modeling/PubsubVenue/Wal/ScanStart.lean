import PubsubVenue.Wal.TruncationCrash

/-! # Where a search for a record starts

`Wal::scan_start_for` looks for the segment that holds a record by a binary search on the first
entries of the segments, of which some may have been deleted from the start of the log and some be
made ahead of the writer.

* **`KeptLog.scanStartFor_delivers`**: the search ends, and a cursor opened where it says hands on
  the record. -/

namespace PubsubVenue

open List

/-- `WalCursor::open`, in a directory that may lack segments. -/
def WalCursor.openIn (files : WalFiles) (start : WalPosition) : WalCursor :=
  if files[start.segment]?.join.isSome then
    { segment := start.segment, everySegmentRead := false, offset := start.offset, position := start }
  else
    let first := ((files.present.map scannedNumber).filter (start.segment ≤ ·)).min?
    { segment := first.getD 0, everySegmentRead := first.isNone, offset := 0, position := start }

/-- A log that lacks some segments from its start: those that hold entries, numbered without a gap,
and those that hold none yet. The writer is in the last that holds entries or in one that holds
none. -/
structure KeptLog where
  deleted : Nat
  used : List Segment
  ahead : List Segment
  /-- The segment the writer is in. -/
  last : Nat
  /-- The number of the first record. -/
  first : Int
  started : ∀ s ∈ used, s.entries ≠ []
  blank : ∀ s ∈ ahead, s.Unused
  readable : Readable (used ++ ahead)
  numbered : ∀ (k : Nat) (r : WalRecord), (recordsFrom deleted (used ++ ahead))[k]? = some r →
    r.recordId.toInt = first + k
  writing : deleted + used.length ≤ last + 1 ∧ last < deleted + used.length + ahead.length

namespace KeptLog

variable (w : KeptLog)

/-- The files. -/
def files : WalFiles := withHole [] w.deleted (w.used ++ w.ahead)

/-- The records. -/
def records : List WalRecord := recordsFrom w.deleted (w.used ++ w.ahead)

/-- The records are numbered in rising order. -/
theorem rising : w.records.Pairwise fun r r' => r.recordId.toInt < r'.recordId.toInt := by
  rw [pairwise_iff_getElem]
  intro i j hi hj hij
  rw [w.numbered i _ (getElem?_eq_getElem hi), w.numbered j _ (getElem?_eq_getElem hj)]
  omega

variable {log : List Segment} {s : Segment} {n : Nat}

/-- A segment's first entry is among the records of a log that has the segment. -/
theorem exists_first (hs : s ∈ log) {e : WalEntry} {es : List WalEntry} (he : s.entries = e :: es) :
    ∃ r ∈ recordsFrom n log, r.recordId = e.recordId := by
  obtain ⟨before, rest, rfl⟩ := append_of_mem hs
  refine ⟨e.record (n + before.length) 0, ?_, rfl⟩
  rw [recordsFrom_append, recordsFrom, he]
  exact mem_append_right _ (mem_append_left _ mem_cons_self)

variable {w}

/-- A record is in one of the segments that hold entries. -/
theorem exists_segment {x : WalRecord} (hx : x ∈ recordsFrom n log) :
    ∃ before s rest, log = before ++ s :: rest ∧ x ∈ recordsAt (n + before.length) 0 s.entries := by
  induction log generalizing n with
  | nil => cases hx
  | cons s log ih =>
    rcases mem_append.mp hx with hx | hx
    · exact ⟨[], s, log, rfl, hx⟩
    · obtain ⟨before, t, rest, rfl, ht⟩ := ih hx
      refine ⟨s :: before, t, rest, rfl, ?_⟩
      rwa [length_cons, show n + (before.length + 1) = n + 1 + before.length by omega]

/-- **The search ends at the segment that holds the record**: after as many rounds as there are
segments before the writer's, `low` and `high` have met there. -/
theorem searchRound_iterate_segment {before rest : List Segment} {x : WalRecord}
    (hlog : w.used ++ w.ahead = before ++ s :: rest)
    (hx : x ∈ recordsAt (w.deleted + before.length) 0 s.entries) :
    comesBefore w.files x.recordId.toInt 0 = true ∧
      (searchRound (comesBefore w.files x.recordId.toInt))^[w.last] (0, w.last) =
        (w.deleted + before.length, w.deleted + before.length) := by
  have hrising := w.rising
  unfold records at hrising
  rw [hlog, recordsFrom_append, recordsFrom, pairwise_append, pairwise_append] at hrising
  obtain ⟨-, ⟨hhere, -, hafter⟩, hbefore⟩ := hrising
  have hs : s.entries ≠ [] := fun hnil => by rw [hnil] at hx; cases hx
  have hlen := congrArg length hlog
  have hlast := w.writing
  simp only [length_append, length_cons] at hlen
  have hused : before ++ [s] <+: w.used := by
    refine prefix_of_prefix_length_le ⟨rest, by rw [hlog, append_assoc]; rfl⟩ (prefix_append _ w.ahead) ?_
    by_contra hge
    rw [length_append, length_singleton] at hge
    have hget : (w.used ++ w.ahead)[before.length]? = some s := by rw [hlog]; simp
    rw [getElem?_append_right (by omega)] at hget
    exact hs (w.blank s (mem_of_getElem? hget)).1
  -- the segments up to the one with the record start at or below it, as its first entry does
  have hearly : ∀ u ∈ [] ++ (before ++ [s]), ∃ e es, u.entries = e :: es ∧
    e.recordId.toInt ≤ x.recordId.toInt := by
    intro u hu
    rw [nil_append] at hu
    obtain ⟨e, es, he⟩ := exists_cons_of_ne_nil (w.started u (hused.subset hu))
    refine ⟨e, es, he, ?_⟩
    rcases mem_append.mp hu with hu | hu
    · obtain ⟨r, hr, hid⟩ := exists_first (n := w.deleted) hu he
      exact hid ▸ (hbefore r hr x (mem_append_left _ hx)).le
    · obtain rfl := mem_singleton.mp hu
      rw [he, recordsAt] at hx hhere
      rcases mem_cons.mp hx with rfl | hx
      · exact le_refl _
      · exact ((pairwise_cons.mp hhere).1 x hx).le
  have hlate : ∀ u ∈ rest, u.Unused ∨ ∃ e es, u.entries = e :: es ∧ x.recordId.toInt < e.recordId.toInt := by
    intro u hu
    have hin : u ∈ w.used ++ w.ahead := by rw [hlog]; simp [hu]
    rcases mem_append.mp hin with hin | hin
    · obtain ⟨e, es, he⟩ := exists_cons_of_ne_nil (w.started u hin)
      obtain ⟨r, hr, hid⟩ := exists_first (n := w.deleted + before.length + 1) hu he
      exact .inr ⟨e, es, he, hid ▸ hafter x hx r hr⟩
    · exact .inl (w.blank u hin)
  have hfiles : w.files = withHole [] w.deleted ((before ++ [s]) ++ rest) := by
    rw [files, hlog, append_assoc, singleton_append]
  have htest : ∀ n, n ≤ w.last →
      comesBefore w.files x.recordId.toInt n = decide (n ≤ w.deleted + before.length) := by
    intro n hn
    rw [hfiles, comesBefore_withHole hearly hlate (by simp; omega), decide_eq_decide]
    simp only [length_nil, length_append, length_singleton]
    omega
  have hend : w.deleted + before.length ≤ w.last := by
    have := hused.length_le
    rw [length_append, length_singleton] at this
    omega
  refine ⟨by rw [htest 0 (Nat.zero_le _), decide_eq_true (Nat.zero_le _)], ?_⟩
  exact searchRound_iterate (fun n _ hn => htest n hn) (Nat.zero_le _) hend (Nat.sub_le _ _)

/-- **The search start is never too late.** For every record of the log, the binary search for its
number ends, its two bounds having met after at most as many rounds as the writer's segment number,
and a cursor opened where it says hands on the record. -/
theorem scanStartFor_delivers (w : KeptLog) (directory : String) {x : WalRecord} (hx : x ∈ w.records) :
    (∃ rounds ≤ w.last, ∃ segment,
      (searchRound (comesBefore w.files x.recordId.toInt))^[rounds] (0, w.last) = (segment, segment)) ∧
    ∃ delivered, x ∈ delivered ∧ ∀ calls, w.records.length < calls →
      WalCursor.readAll directory w.files.contents calls
        (WalCursor.openIn w.files (scanStartFor w.files w.last x.recordId.toInt)) = .ok delivered := by
  obtain ⟨before, s, rest, hlog, hs⟩ := exists_segment hx
  obtain ⟨hzero, hsearch⟩ := searchRound_iterate_segment hlog hs
  refine ⟨⟨w.last, le_refl _, _, hsearch⟩,
    recordsFrom (w.deleted + before.length) (s :: rest), mem_append_left _ hs, fun calls hcalls => ?_⟩
  have hfile : w.files[w.deleted + before.length]? = some (some s.bytes) := by
    unfold files
    rw [withHole_get, hlog]
    simp
  have hstart : scanStartFor w.files w.last x.recordId.toInt =
      { segment := w.deleted + before.length, offset := 0 } := by
    unfold scanStartFor
    simp only [hzero, hsearch, hfile]
    rfl
  have hcontents : w.files.contents =
      ((replicate w.deleted (Segment.mk [] []) ++ before) ++ s :: rest).map Segment.bytes := by
    unfold files
    rw [contents_withHole, hlog, nil_append, append_assoc]
  have hopen : WalCursor.openIn w.files { segment := w.deleted + before.length, offset := 0 } =
      WalCursor.openAt w.files.contents
        { segment := (replicate w.deleted (Segment.mk [] []) ++ before).length, offset := 0 } := by
    unfold WalCursor.openIn WalCursor.openAt
    simp [hfile, hcontents]
  have hread : Readable (s :: rest) := Readable.of_append (hlog ▸ w.readable)
  rw [hstart, hopen]
  have hwithin := WalCursor.within_openAt hcontents hread
  rw [length_append, length_replicate] at hwithin ⊢
  refine WalCursor.readAll_of_within directory hwithin (lt_of_le_of_lt ?_ hcalls)
  unfold records
  rw [hlog, recordsFrom_append, length_append]
  exact Nat.le_add_left _ _

/-- An entry without payload. -/
def entry (recordId : Int64) : WalEntry := ⟨recordId, [], by decide⟩

/-- A log of which the first two segments are gone, with two records in a segment, one in the next
and a segment that holds none yet. -/
def threeRecords : KeptLog where
  deleted := 2
  used := [⟨[entry 2, entry 3], []⟩, ⟨[entry 4], []⟩]
  ahead := [⟨[], [0]⟩]
  last := 4
  first := 2
  started := by simp
  blank := by simp [Segment.Unused, Zero]
  readable := by
    have hzero : Zero ([] : Bytes) := by simp [Zero]
    exact ⟨hzero.quiet, .inl ⟨hzero, hzero.quiet, .inr (by simp [Segment.Unused, Zero])⟩⟩
  numbered := by
    rintro (_ | _ | _ | k) r hk <;> cases hk <;> rfl
  writing := by decide

theorem scanStartFor_delivers_threeRecords :
    (entry 3).record 2 28 ∈ threeRecords.records ∧ ∃ delivered, (entry 3).record 2 28 ∈ delivered ∧
      ∀ calls, 3 < calls → WalCursor.readAll "wal" threeRecords.files.contents calls
        (WalCursor.openIn threeRecords.files (scanStartFor threeRecords.files 4 3)) = .ok delivered :=
  ⟨mem_cons_of_mem _ mem_cons_self,
    (scanStartFor_delivers threeRecords "wal" (mem_cons_of_mem _ mem_cons_self)).2⟩

end KeptLog

end PubsubVenue
