import PubsubVenue.Wal.Truncation

/-! # A process that dies while it cuts back its log

`Wal::truncate_after` zeroes the rest of the segment in which the record to keep ends, from the
front, and then deletes the later segments, from the lowest number. When the process dies in
between, the next opening finds zeros where an entry should start. If nothing but zeros is left in
the segment, what is left of the later segments follows a gap, and opening the log cuts it back
again. But if an entry of the segment is still whole, or part of one is left and a later segment
holds entries, the reader takes the zeros for damage, and the log does not open.

* **`OpenLog.survives_crash_iff`**: the log opens, with every record to be kept and no other than
  were there, exactly if none of this is the case.
* **`OpenLog.does_not_open`**: a record of more than 64 KiB and one after it, the first write done. -/

namespace PubsubVenue

open List

/-! ## The files that are left -/

/-- How far the rest of a segment has been zeroed after some writes. -/
def zeroedThrough (segmentSize : Nat) : Nat → List Nat → Nat
  | offset, [] => offset
  | offset, w :: writes =>
    zeroedThrough segmentSize (offset + min w (min (64 * 1024) (segmentSize - offset))) writes

/-- It is zeroed from the front, and no further than the segment goes. -/
theorem zeroedThrough_bounds {segmentSize offset : Nat} (h : offset ≤ segmentSize) (writes : List Nat) :
    offset ≤ zeroedThrough segmentSize offset writes ∧
      zeroedThrough segmentSize offset writes ≤ segmentSize := by
  induction writes generalizing offset with
  | nil => exact ⟨le_refl _, h⟩
  | cons w writes ih =>
    obtain ⟨hlow, hhigh⟩ :=
      ih (show offset + min w (min (64 * 1024) (segmentSize - offset)) ≤ segmentSize by omega)
    rw [zeroedThrough]
    exact ⟨by omega, hhigh⟩

/-- What zeroing leaves of a segment: zeros up to where it has come, and the rest as it was. -/
theorem zeroing_eq {segmentSize offset : Nat} {file : Bytes} (hlen : file.length = segmentSize)
    (hoffset : offset ≤ segmentSize) (writes : List Nat) : zeroing segmentSize file offset writes =
      (file.take offset ++ (replicate (zeroedThrough segmentSize offset writes - offset) 0 ++
          file.drop (zeroedThrough segmentSize offset writes)), zeroedThrough segmentSize offset writes) := by
  induction writes generalizing file offset with
  | nil => simp [zeroing, zeroedThrough]
  | cons w writes ih =>
    set k := min w (min (64 * 1024) (segmentSize - offset)) with hk
    have hfront : (file.take offset ++ replicate k 0).length = offset + k := by
      rw [length_append, length_take, length_replicate]
      omega
    have hover : overwrite file offset (replicate k 0) =
        (file.take offset ++ replicate k 0) ++ file.drop (offset + k) := by
      rw [overwrite, length_replicate]
    have hnext := ih (show (overwrite file offset (replicate k 0)).length = segmentSize by
      rw [hover, length_append, hfront, length_drop]
      omega) (show offset + k ≤ segmentSize by omega)
    obtain ⟨hlow, -⟩ := zeroedThrough_bounds (show offset + k ≤ segmentSize by omega) writes
    rw [zeroing, zeroedThrough, ← hk, hnext]
    set z := zeroedThrough segmentSize (offset + k) writes
    rw [hover, take_left' hfront, drop_append, drop_of_length_le (by omega), hfront, drop_drop, nil_append,
      show offset + k + (z - (offset + k)) = z by omega, show z - offset = k + (z - (offset + k)) by omega,
      replicate_add, append_assoc, append_assoc]

/-- The files of a log of which some segments in the middle have been deleted. -/
def withHole (before : List Segment) (deleted : Nat) (after : List Segment) : WalFiles :=
  before.map (fun s => some s.bytes) ++ (replicate deleted none ++ after.map fun s => some s.bytes)

section Hole

variable {before after : List Segment} {deleted : Nat}

/-- A file of such a log. -/
theorem withHole_get (n : Nat) : (withHole before deleted after)[n]? =
    if n < before.length then (before[n]?).map fun s => some s.bytes
      else if n < before.length + deleted then some none
    else (after[n - before.length - deleted]?).map fun s => some s.bytes := by
  unfold withHole
  split
  · rename_i h
    rw [getElem?_append_left (by rwa [length_map]), getElem?_map]
  · rename_i h
    rw [getElem?_append_right (by rw [length_map]; omega), length_map]
    split
    · rename_i h'
      rw [getElem?_append_left (by rw [length_replicate]; omega), getElem?_replicate, if_pos (by omega)]
    · rename_i h'
      rw [getElem?_append_right (by rw [length_replicate]; omega), length_replicate, getElem?_map]

/-- The numbers of its files. -/
theorem present_withHole : (withHole before deleted after).present =
    range' 0 before.length ++ range' (before.length + deleted) after.length := by
  have hlen : (withHole before deleted after).length = before.length + (deleted + after.length) := by
    unfold withHole
    simp
  unfold WalFiles.present
  rw [hlen, range_eq_range', ← range'_append_1, ← range'_append_1, filter_append, filter_append, Nat.zero_add]
  have hfirst : ∀ n ∈ range' 0 before.length, ((withHole before deleted after)[n]?.join.isSome) = true := by
    intro n hn
    obtain ⟨-, hlt⟩ := mem_range'_1.mp hn
    rw [withHole_get, if_pos (by omega), getElem?_eq_getElem (by omega)]
    rfl
  have hhole : ∀ n ∈ range' before.length deleted,
    ¬ ((withHole before deleted after)[n]?.join.isSome) = true := by
    intro n hn
    obtain ⟨hge, hlt⟩ := mem_range'_1.mp hn
    rw [withHole_get, if_neg (by omega), if_pos (by omega)]
    decide
  have hrest : ∀ n ∈ range' (before.length + deleted) after.length,
      ((withHole before deleted after)[n]?.join.isSome) = true := by
    intro n hn
    obtain ⟨hge, hlt⟩ := mem_range'_1.mp hn
    rw [withHole_get, if_neg (by omega), if_neg (by omega), getElem?_eq_getElem (by omega)]
    rfl
  rw [filter_eq_self.mpr hfirst, filter_eq_nil_iff.mpr hhole, filter_eq_self.mpr hrest, nil_append]

/-- Its files in order, with an empty one for each that is missing. -/
theorem contents_withHole : (withHole before deleted after).contents =
    ((before ++ replicate deleted (Segment.mk [] [])) ++ after).map Segment.bytes := by
  unfold WalFiles.contents withHole
  rw [map_append, map_append, map_map, map_map, map_append, map_append, map_replicate,
    map_replicate, append_assoc]
  rfl

/-- The files before the first that is missing. -/
theorem leading_withHole : (withHole before deleted after).leading =
    (if deleted = 0 then before ++ after else before).map Segment.bytes := by
  have hall : ∀ l : List Segment, ∀ x ∈ l.map (fun s => some s.bytes), Option.isSome x = true := by
    intro l x hx
    obtain ⟨s, -, rfl⟩ := mem_map.mp hx
    rfl
  unfold WalFiles.leading withHole
  split
  · rename_i hnone
    have htake : (((before ++ after).map fun s : Segment => some s.bytes) ++ []).takeWhile Option.isSome =
        ((before ++ after).map fun s : Segment => some s.bytes) ++ [] :=
      takeWhile_append_of_pos (hall _)
    rw [append_nil] at htake
    rw [hnone, replicate_zero, nil_append, ← map_append, htake, map_map]
    rfl
  · rename_i hsome
    obtain ⟨n, rfl⟩ : ∃ n, deleted = n + 1 := ⟨deleted - 1, by omega⟩
    rw [takeWhile_append_of_pos (hall _), replicate_succ, cons_append,
      takeWhile_cons_of_neg (by decide), append_nil, map_map]
    rfl

/-- **Deleting the segments after one**, from the lowest number on. -/
theorem deleteAfter_withHole (count : Nat) (hcount : (before ++ after).length ≤ 1000000)
    (hbefore : before ≠ []) :
    deleteAfter (withHole before 0 after) (before.length - 1) count =
      withHole before (min count after.length) (after.drop (min count after.length)) := by
  have hpos : 0 < before.length := length_pos_iff.mpr hbefore
  rw [length_append] at hcount
  -- the segments after the cut go from the first on, as many as were deleted
  have hdoomed : ((withHole before 0 after).present.filter
      fun n => decide (before.length - 1 < n ∧ n < 1000000)).take count =
      range' before.length (min count after.length) := by
    rw [present_withHole, filter_append, filter_eq_nil_iff.mpr, filter_eq_self.mpr,
      nil_append, Nat.add_zero, range'_eq_map_range, ← map_take, take_range, ← range'_eq_map_range]
    · intro n hn
      have := mem_range'_1.mp hn
      exact decide_eq_true ⟨by omega, by omega⟩
    · intro n hn
      have := mem_range'_1.mp hn
      rw [decide_eq_true_eq]
      omega
  unfold deleteAfter
  rw [hdoomed]
  apply ext_getElem?
  intro n
  rw [getElem?_mapIdx, withHole_get, withHole_get, getElem?_drop]
  by_cases h₁ : n < before.length
  · have hkept : n ∉ range' before.length (min count after.length) := by
      rw [mem_range'_1]
      omega
    rw [if_pos h₁, if_pos h₁, getElem?_eq_getElem h₁, Option.map_some, Option.map_some, if_neg hkept]
  · rw [if_neg h₁, if_neg (by omega), if_neg h₁]
    by_cases h₂ : n < before.length + min count after.length
    · have hgone : n ∈ range' before.length (min count after.length) := by
        rw [mem_range'_1]
        omega
      rw [if_pos h₂, getElem?_eq_getElem (by omega), Option.map_some, Option.map_some, if_pos hgone]
    · have hkept : n ∉ range' before.length (min count after.length) := by
        rw [mem_range'_1]
        omega
      rw [if_neg h₂, show min count after.length + (n - before.length - min count after.length) =
        n - before.length - 0 by omega]
      cases after[n - before.length - 0]? with
      | none => rfl
      | some => rw [Option.map_some, Option.map_some, if_neg hkept]

end Hole

/-! ## Reading what is left -/

variable {rest : List Segment} (directory : String)

/-- Six digits number the files: they are found in order. -/
theorem replayFiles_eq {files : WalFiles} (hsorted : files.present.Pairwise (· ≤ ·))
    (hcount : files.length ≤ 1000000) : replayFiles directory files = (files.present.foldlM
        (Replay.step directory files.contents WalPosition.start)
        { delivered := [], reached := WalPosition.start, unclean := none }).map fun r =>
          (r.delivered, r.reached) := by
  have hsmall : ∀ n ∈ files.present, n < 1000000 :=
    fun n hn => (mem_range.mp (mem_filter.mp hn).1).trans_le hcount
  unfold replayFiles
  rw [map_scannedNumber hsmall, Pairwise.insertionSort_eq hsorted]

/-- The numbers of the files are sorted. -/
theorem pairwise_present (files : WalFiles) : files.present.Pairwise (· ≤ ·) :=
  Pairwise.filter _ pairwise_le_range

variable {before after : List Segment} {deleted : Nat}

/-- **A log of which some segments in the middle are missing** is read, if nothing is left over
before them: the records of the segments there are. -/
theorem replayFiles_withHole (hcount : before.length + deleted + after.length ≤ 1000000)
    (hbytes : ∀ s ∈ before ++ after, s.bytes ≠ []) (hzero : ∀ s ∈ before, Zero s.tail)
    (hread : Readable after) : replayFiles directory (withHole before deleted after) =
      .ok (recordsFrom 0 before ++ recordsFrom (before.length + deleted) after,
        reachedFrom (reachedFrom WalPosition.start 0 before) (before.length + deleted) after) := by
  have hlen : (withHole before deleted after).length ≤ 1000000 := by
    unfold withHole
    simp only [length_append, length_map, length_replicate]
    omega
  have hfirst : (([] : List Segment) ++ before).map
    Segment.bytes <+: (withHole before deleted after).contents := by
    rw [contents_withHole, nil_append, append_assoc, map_append]
    exact prefix_append _ _
  have hsecond : ((before ++ replicate deleted (Segment.mk [] [])) ++ after).map Segment.bytes <+:
      (withHole before deleted after).contents :=
    ⟨[], by rw [contents_withHole, append_nil]⟩
  obtain ⟨unclean, hone, hnone⟩ := Replay.foldlM_of_readable directory []
    { delivered := [], reached := WalPosition.start, unclean := none } hfirst
    (fun s hs => hbytes s (mem_append_left _ hs)) (Replay.settled_of_clean rfl)
      (.inl ⟨rfl, readable_of_zero hzero⟩)
  obtain rfl := hnone rfl hzero
  obtain ⟨unclean, htwo, -⟩ := Replay.foldlM_of_readable directory _
    { delivered := [] ++ recordsFrom 0 before, reached := reachedFrom WalPosition.start 0 before, unclean := none }
    hsecond (fun s hs => hbytes s (mem_append_right _ hs)) (Replay.settled_of_clean rfl) (.inl ⟨rfl, hread⟩)
  rw [length_append, length_replicate] at htwo
  rw [replayFiles_eq directory (pairwise_present _) hlen, present_withHole, foldlM_append]
  rw [show range' 0 before.length = range' ([] : List Segment).length before.length from rfl, hone]
  show Except.map _ (foldlM _ _ (range' _ _)) = _
  rw [show ([] : List Segment).length = 0 from rfl, htwo, nil_append]
  rfl

/-- The files of a log are read as the log is. -/
theorem replayFiles_log (before after : List Segment) : replayFiles directory (withHole before 0 after) =
      replay directory ((before ++ after).map Segment.bytes) WalPosition.start := by
  unfold replayFiles replay segmentNumbers
  rw [present_withHole, contents_withHole, Nat.add_zero, replicate_zero, append_nil,
    length_map, length_append, range_eq_range', ← range'_append_1, Nat.zero_add]

/-! ## Where the search starts -/

variable {s : Segment} {n : Nat} {seqNo : Int}

/-- A segment that holds entries comes before if its first is numbered as given or below. -/
theorem comesBefore_of_entry {files : WalFiles} {e : WalEntry} {es : List WalEntry}
    (hfile : files[n]? = some (some s.bytes)) (hentries : s.entries = e :: es) :
    comesBefore files seqNo n = decide (e.recordId.toInt ≤ seqNo) := by
  have hbytes : s.bytes = e.bytes ++ (es.flatMap WalEntry.bytes ++ s.tail) := by
    unfold Segment.bytes Segment.written
    rw [hentries, flatMap_cons, append_assoc]
  have hlen : 24 ≤ s.bytes.length := by
    have := e.size_ge
    rw [hbytes, length_append, e.length_bytes]
    omega
  unfold comesBefore
  rw [hfile]
  show (decide (24 ≤ s.bytes.length) && decide ((EntryHeader.read s.bytes).magic = entryMagic) &&
    decide ((EntryHeader.read s.bytes).recordId.toInt ≤ seqNo)) = _
  rw [decide_eq_true hlen, hbytes, e.read_bytes]
  simp

/-- A segment with nothing in it does not come before. -/
theorem comesBefore_of_unused {files : WalFiles} (hfile : files[n]? = some (some s.bytes))
    (hunused : s.Unused) : comesBefore files seqNo n = false := by
  have hzero : Zero s.bytes := by
    unfold Segment.bytes
    rw [Segment.written_of_nil hunused.1]
    exact hunused.2
  have hmagic : (EntryHeader.read s.bytes).magic = 0 := leNat_zero (hzero.take 4)
  unfold comesBefore
  rw [hfile]
  show (decide (24 ≤ s.bytes.length) && decide ((EntryHeader.read s.bytes).magic = entryMagic) &&
    decide ((EntryHeader.read s.bytes).recordId.toInt ≤ seqNo)) = _
  rw [hmagic, decide_eq_false (show ¬ (0 = entryMagic) by decide), Bool.and_false, Bool.false_and]

/-- **The segments that come before are the first ones**: those missing and those whose first entry
is numbered as given or below, if the later ones hold no entry or start above. -/
theorem comesBefore_withHole {early late : List Segment}
    (hearly : ∀ s ∈ before ++ early, ∃ e es, s.entries = e :: es ∧ e.recordId.toInt ≤ seqNo)
    (hlate : ∀ s ∈ late, s.Unused ∨ ∃ e es, s.entries = e :: es ∧ seqNo < e.recordId.toInt)
    (hn : n < before.length + deleted + (early.length + late.length)) :
    comesBefore (withHole before deleted (early ++ late)) seqNo n =
      decide (n < before.length + deleted + early.length) := by
  have htrue : ∀ s ∈ before ++ early, (withHole before deleted (early ++ late))[n]? = some (some s.bytes) →
      comesBefore (withHole before deleted (early ++ late)) seqNo n = true := by
    intro s hs hfile
    obtain ⟨e, es, hentries, hle⟩ := hearly s hs
    rw [comesBefore_of_entry hfile hentries, decide_eq_true hle]
  by_cases h₁ : n < before.length
  · rw [decide_eq_true (by omega)]
    refine htrue before[n] (mem_append_left _ (getElem_mem h₁)) ?_
    rw [withHole_get, if_pos h₁, getElem?_eq_getElem h₁, Option.map_some]
  by_cases h₂ : n < before.length + deleted
  · rw [decide_eq_true (by omega), comesBefore, withHole_get, if_neg h₁, if_pos h₂]
    rfl
  have hget : (withHole before deleted (early ++ late))[n]? = _ := withHole_get n
  rw [if_neg h₁, if_neg h₂] at hget
  by_cases h₃ : n - before.length - deleted < early.length
  · rw [decide_eq_true (by omega)]
    refine htrue _ (mem_append_right _ (getElem_mem h₃)) ?_
    rw [hget, getElem?_append_left h₃, getElem?_eq_getElem h₃, Option.map_some]
  · have h₄ : n - before.length - deleted - early.length < late.length := by omega
    rw [getElem?_append_right (by omega), getElem?_eq_getElem h₄, Option.map_some] at hget
    rw [decide_eq_false (by omega)]
    rcases hlate _ (getElem_mem h₄) with hunused | ⟨e, es, hentries, hgt⟩
    · exact comesBefore_of_unused hget hunused
    · rw [comesBefore_of_entry hget hentries, decide_eq_false (not_le.mpr hgt)]

/-- **The search starts in the segment that holds the record**, or at the start of the log if
segments after it are missing. -/
theorem scanStartFor_withHole {last : Nat}
    (hbefore : ∀ s ∈ before, ∃ e es, s.entries = e :: es ∧ e.recordId.toInt ≤ seqNo)
    (hafter : ∀ s ∈ after, s.Unused ∨ ∃ e es, s.entries = e :: es ∧ seqNo < e.recordId.toInt)
    (hpos : before ≠ []) (hlow : before.length - 1 + deleted ≤ last)
    (hhigh : last < before.length + deleted + after.length) :
    scanStartFor (withHole before deleted after) last seqNo =
      if deleted = 0 then { segment := before.length - 1, offset := 0 } else WalPosition.start := by
  have hlen := length_pos_iff.mpr hpos
  have htest : ∀ n, 0 ≤ n → n ≤ last → comesBefore (withHole before deleted after) seqNo n =
      decide (n ≤ before.length - 1 + deleted) := by
    intro n _ hn
    have h : comesBefore (withHole before deleted ([] ++ after)) seqNo n = _ :=
      comesBefore_withHole (by rwa [append_nil]) hafter (by rw [length_nil]; omega)
    rw [nil_append, length_nil] at h
    rw [h, decide_eq_decide]
    omega
  unfold scanStartFor
  rw [htest 0 (le_refl 0) (Nat.zero_le last), decide_eq_true (Nat.zero_le _), if_neg (by decide)]
  simp only
  rw [searchRound_iterate htest (Nat.zero_le _) hlow (by omega), withHole_get]
  split
  · rename_i hin
    have hzero : deleted = 0 := by omega
    subst hzero
    rw [getElem?_eq_getElem hin, if_pos rfl]
    rfl
  · rename_i hout
    have hsome : deleted ≠ 0 := by omega
    rw [if_pos (show before.length - 1 + deleted < before.length + deleted by omega), if_neg hsome]
    rfl

/-! ## Logs that are open -/

/-- A log that is open: the segments with entries, and those made ahead of the writer. Opening it
read its records, which are numbered from one, without a gap, and were written by `Wal::append`. -/
structure OpenLog where
  directory : String
  segmentSize : Nat
  used : List Segment
  unused : List Segment
  openable : 58 ≤ segmentSize
  started : ∀ s ∈ used, s.entries ≠ []
  /-- They are made of zeros. An append torn as it rolled leaves bytes in one until the next append,
  and such a log is not among these. -/
  blank : ∀ s ∈ unused, s.Unused
  /-- The segment being written, before its first entry, and the one its helper has made. -/
  ahead : unused.length ≤ 2
  created : used ++ unused ≠ []
  sized : ∀ s ∈ used ++ unused, s.bytes.length = segmentSize
  opened : ∃ reached, replay directory ((used ++ unused).map Segment.bytes) WalPosition.start =
    .ok (recordsFrom 0 (used ++ unused), reached)
  numbered : NumberedFromOne (recordsFrom 0 (used ++ unused))
  complete : ∀ r ∈ recordsFrom 0 (used ++ unused), 14 ≤ r.payload.length

namespace OpenLog

section

variable (w : OpenLog)

/-- The segments. -/
def segments : List Segment := w.used ++ w.unused

/-- The files. -/
def files : WalFiles := withHole w.segments 0 []

/-- The records. -/
def records : List WalRecord := recordsFrom 0 w.segments

/-- The segment the writer is in. -/
def last : Nat := w.used.length - 1

/-- **The files left when the process dies** while it cuts the log back. A call that is refused
leaves them as they are. -/
def leftFiles (seqNo : Int) (writes : List Nat) (deleted : Nat) : WalFiles :=
  match truncating w.directory w.segmentSize w.files w.last w.records.length seqNo writes deleted with
  | .ok files => files
  | .error _ => w.files

/-- **Crash safety**: the log opens, and what is read is the beginning of what it was, with every
record that was to be kept. -/
def Recovers (seqNo : Int) (writes : List Nat) (deleted : Nat) : Prop :=
  ∃ log, openLog w.directory w.segmentSize (w.leftFiles seqNo writes deleted) = .ok log ∧
    log <+: w.records ∧ ∀ r ∈ w.records, r.recordId.toInt ≤ seqNo → r ∈ log

end

variable (w : OpenLog)

/-- Every segment has bytes. -/
theorem bytes_ne_nil : ∀ s ∈ w.segments, s.bytes ≠ [] := by
  intro s hs hnil
  have := w.sized s hs
  have := w.openable
  rw [hnil, length_nil] at *
  omega

/-- Six digits number its segments. -/
theorem few : w.segments.length ≤ 1000000 ∧ ∀ s ∈ w.segments, Quiet s.tail := by
  obtain ⟨reached, hopened⟩ := w.opened
  refine quiet_of_replay w.bytes_ne_nil (fun s hs hmany => ?_) hopened
  have hlen : w.segments.length = w.used.length + w.unused.length := length_append
  have hahead := w.ahead
  have hused : (100000 : Nat) < w.used.length := by omega
  change (w.used ++ w.unused)[100000]? = some s at hs
  rw [getElem?_append_left hused] at hs
  exact w.started s (mem_of_getElem? hs)

/-- It is readable. -/
theorem readable : Readable w.segments := by
  obtain ⟨hcount, hquiet⟩ := w.few
  obtain ⟨reached, hopened⟩ := w.opened
  -- Torn bytes before a segment that holds entries would have been reported.
  have hzero : ∀ before s t after, w.segments = before ++ s :: t :: after → t.entries ≠ [] → Zero s.tail := by
    intro before s t after hsplit hentries
    by_contra hleft
    have hs : s ∈ w.segments := hsplit ▸ mem_append_right _ mem_cons_self
    have ht : t ∈ w.segments := hsplit ▸ mem_append_right _ (mem_cons_of_mem _ mem_cons_self)
    obtain ⟨e, herror⟩ := replay_of_left_behind w.directory hsplit hcount w.bytes_ne_nil (hquiet s hs) hleft
      (hquiet t ht) hentries
    rw [show replay w.directory (w.segments.map Segment.bytes) WalPosition.start = _ from hopened] at herror
    cases herror
  suffices h : ∀ before rest, w.segments = before ++ (rest ++ w.unused) → (∀ s ∈ rest, s ∈ w.used) →
      Readable (rest ++ w.unused) from h [] w.used rfl fun s hs => hs
  intro before rest
  induction rest generalizing before with
  | nil => exact fun _ _ => readable_of_zero fun u hu => (w.blank u hu).2
  | cons s rest ih =>
    intro hsplit hused
    have hs : s ∈ w.segments := by rw [hsplit]; simp
    refine ⟨hquiet s hs, ?_⟩
    cases rest with
    | nil => exact .inr w.blank
    | cons t rest =>
      have hrest := ih (before ++ [s]) (by rw [hsplit]; simp) fun u hu => hused u (mem_cons_of_mem _ hu)
      refine .inl ⟨hzero before s t (rest ++ w.unused) hsplit ?_, hrest⟩
      exact w.started t (hused t (mem_cons_of_mem _ mem_cons_self))

end OpenLog

/-! ## Cutting back twice -/

/-- Segments before one that holds entries have nothing left over. -/
theorem Readable.zero_of_entries (h : Readable (before ++ s :: rest)) (hs : s.entries ≠ []) :
    ∀ b ∈ before, Zero b.tail := by
  induction before with
  | nil => exact nofun
  | cons b before ih =>
    rcases h.2 with ⟨hzero, hread⟩ | hunused
    · intro b' hb'
      rcases mem_cons.mp hb' with rfl | hb'
      · exact hzero
      · exact ih hread b' hb'
    · exact absurd (hunused s (mem_append_right _ mem_cons_self)).1 hs

/-- A log can be cut after as many records as one likes. -/
theorem exists_cut_of_pos {log : List Segment} {first : Nat} (hpos : 0 < n)
    (hn : n ≤ (recordsFrom first log).length) :
    ∃ before kept lost tail rest, log = before ++ ⟨kept ++ lost, tail⟩ :: rest ∧ kept ≠ [] ∧
      (recordsFrom first before).length + kept.length = n := by
  induction log generalizing first n with
  | nil =>
    rw [recordsFrom, length_nil] at hn
    omega
  | cons s log ih =>
    rw [recordsFrom, length_append, length_recordsAt] at hn
    rcases Nat.lt_or_ge s.entries.length n with hlt | hge
    · obtain ⟨before, kept, lost, tail, rest, rfl, hkept, hlen⟩ :=
        ih (show 0 < n - s.entries.length by omega) (show _ ≤ (recordsFrom (first + 1) log).length by omega)
      refine ⟨s :: before, kept, lost, tail, rest, rfl, hkept, ?_⟩
      rw [recordsFrom, length_append, length_recordsAt]
      omega
    · refine ⟨[], s.entries.take n, s.entries.drop n, s.tail, log, ?_, ?_, ?_⟩
      · rw [take_append_drop]
        rfl
      · rw [ne_eq, take_eq_nil_iff, not_or]
        refine ⟨by omega, fun hnil => ?_⟩
        rw [hnil, length_nil] at hge
        omega
      · rw [recordsFrom, length_nil, length_take]
        omega

/-- The two ways to write the files of a log. -/
theorem withHole_zero (before after : List Segment) :
    withHole before 0 after = withHole (before ++ after) 0 [] := by
  unfold withHole
  rw [replicate_zero, nil_append, nil_append, map_append, map_nil, append_nil]

namespace Cut

variable (c : Cut)

/-- The segments up to the one the records that are kept end in. -/
def through : List Segment := c.before ++ [c.segment]

/-- The segments up to there and others. -/
theorem through_append (rest : List Segment) : c.through ++ rest = c.before ++ c.segment :: rest :=
  (append_cons _ _ _).symm

/-- The bytes of the segment, by the cut. -/
theorem bytes_segment : c.segment.bytes = c.kept.flatMap WalEntry.bytes ++
    (c.lost.flatMap WalEntry.bytes ++ c.tail) := by
  show (c.kept ++ c.lost).flatMap WalEntry.bytes ++ c.tail = _
  rw [flatMap_append, append_assoc]

/-- The records that are kept end within the segment. -/
theorem offset_le : c.offset ≤ c.segment.bytes.length := by
  rw [bytes_segment, length_append]
  exact Nat.le_add_right _ _

/-- What a cut leaves unsaid about the numbers of its records: those kept are numbered up to their
number, and the entries of later segments above it. -/
structure Separates (n : Int) : Prop where
  kept : ∀ r ∈ c.records, r.recordId.toInt ≤ n
  rest : ∀ s ∈ c.rest, s.Unused ∨ s.entries ≠ [] ∧ ∀ e ∈ s.entries, n < e.recordId.toInt
  before : ∀ s ∈ c.before, s.entries ≠ []

/-- The first entry of each segment up to the one the records that are kept end in. -/
theorem Separates.first {c : Cut} {n : Int} (h : c.Separates n) (hkept : c.kept ≠ []) :
    ∀ s ∈ c.through, ∃ e es, s.entries = e :: es ∧ e.recordId.toInt ≤ n := by
  intro s hs
  rcases mem_append.mp hs with hs | hs
  · obtain ⟨e, es, he⟩ := exists_cons_of_ne_nil (h.before s hs)
    refine ⟨e, es, he, ?_⟩
    obtain ⟨as, bs, hsplit⟩ := append_of_mem hs
    refine h.kept (e.record (0 + as.length) 0) (mem_append_left _ ?_)
    rw [hsplit, recordsFrom_append, recordsFrom, he]
    exact mem_append_right _ (mem_append_left _ mem_cons_self)
  · obtain ⟨e, es, he⟩ := exists_cons_of_ne_nil hkept
    rw [mem_singleton.mp hs]
    refine ⟨e, es ++ c.lost, ?_, ?_⟩
    · show c.kept ++ c.lost = _
      rw [he]
      rfl
    · refine h.kept (e.record c.before.length 0) (mem_append_right _ ?_)
      rw [he]
      exact mem_cons_self

end Cut

/-- A segment of which the rest has been zeroed up to some byte. -/
def Cut.zeroed (c : Cut) (through : Nat) : Cut :=
  { c with
    lost := []
    tail := replicate (through - c.offset) 0 ++ c.segment.bytes.drop through }

/-- Its bytes. -/
theorem Cut.bytes_zeroed (c : Cut) (z : Nat) : (c.zeroed z).segment.bytes =
    c.segment.bytes.take c.offset ++ (replicate (z - c.offset) 0 ++ c.segment.bytes.drop z) := by
  have hkept : c.segment.bytes.take c.offset = c.kept.flatMap WalEntry.bytes := by
    rw [c.bytes_segment]
    exact take_left' rfl
  show (c.kept ++ []).flatMap WalEntry.bytes ++ _ = _
  rw [append_nil, hkept]
  rfl

/-- The records of the segments up to the cut, when the rest of the last has been zeroed. -/
theorem Cut.records_zeroed (c : Cut) (z : Nat) : recordsFrom 0 (c.zeroed z).through = c.records := by
  show recordsFrom 0 (c.before ++ [⟨c.kept ++ [], _⟩]) = _
  rw [recordsFrom_append, recordsFrom, recordsFrom, append_nil, append_nil, Nat.zero_add]
  rfl

section

variable (c : Cut) {last : Nat}
    (hread : Readable (if deleted = 0 then c.log else c.through)) (hids : NumberedFromOne c.records)
    (hsep : c.Separates c.records.length) (hlow : c.before.length + deleted ≤ last)
    (hhigh : last < c.before.length + 1 + deleted + c.rest.length)
include hread hids hsep hlow hhigh

/-- **Where the records that are kept end is found** although later segments are missing. -/
theorem truncationPoint_withHole :
    truncationPoint directory (withHole c.through deleted c.rest) last c.records.length =
      .ok { segment := c.before.length, offset := c.offset } := by
  -- A cursor sees the segments before the first that is missing.
  set seen : Cut := { c with rest := if deleted = 0 then c.rest else [] } with hseen
  have hlog : seen.log = if deleted = 0 then c.log else c.through := by
    show c.before ++ c.segment :: (if deleted = 0 then c.rest else []) = _
    split <;> rfl
  have hthrough : c.through.length = c.before.length + 1 := length_append
  refine truncationPoint_of_cut directory seen ?_ (hlog ▸ hread) hids fun hsome => ?_
  · rw [leading_withHole, hlog]
    split
    · rw [c.through_append]
      rfl
    · rfl
  · have hrest : ∀ s ∈ c.rest, s.Unused ∨
        ∃ e es, s.entries = e :: es ∧ (c.records.length : Int) < e.recordId.toInt := by
      intro s hs
      refine (hsep.rest s hs).imp id fun ⟨hne, hgt⟩ => ?_
      obtain ⟨e, es, he⟩ := exists_cons_of_ne_nil hne
      exact ⟨e, es, he, hgt e (he ▸ mem_cons_self)⟩
    have hstart : scanStartFor (withHole c.through deleted c.rest) last c.records.length =
        if deleted = 0 then { segment := c.through.length - 1, offset := 0 } else WalPosition.start :=
      scanStartFor_withHole (hsep.first (Cut.kept_ne_nil hsome)) hrest
        (append_ne_nil_of_right_ne_nil _ (cons_ne_nil _ _)) (by omega) (by omega)
    show scanStartFor _ _ (c.records.length : Int) = _ ∨ scanStartFor _ _ (c.records.length : Int) = _
    rw [hstart]
    split
    · refine .inr ?_
      rw [hthrough]
      rfl
    · exact .inl rfl

/-- **Cutting a log back** that may lack segments after the record to keep. -/
theorem truncating_withHole (segmentSize : Nat) {lastSeqNo : Int}
    (hlast : (c.records.length : Int) < lastSeqNo) (hsize : c.segment.bytes.length = segmentSize)
    (writes : List Nat) (count : Nat) :
    truncating directory segmentSize (withHole c.through deleted c.rest) last lastSeqNo
      c.records.length writes count =
      .ok (let left := withHole (c.zeroed (zeroedThrough segmentSize c.offset writes)).through deleted c.rest
        if zeroedThrough segmentSize c.offset writes < segmentSize then left
        else deleteAfter left c.before.length count) := by
  have hfile : (withHole c.through deleted c.rest)[c.before.length]? = some (some c.segment.bytes) := by
    rw [withHole_get, if_pos (by unfold Cut.through; simp)]
    unfold Cut.through
    rw [getElem?_append_right (le_refl _), Nat.sub_self]
    rfl
  set z := zeroedThrough segmentSize c.offset writes
  have hzeroing : zeroing segmentSize c.segment.bytes c.offset writes = ((c.zeroed z).segment.bytes, z) := by
    rw [zeroing_eq hsize (hsize ▸ c.offset_le), c.bytes_zeroed]
  have hset : (withHole c.through deleted c.rest).set c.before.length (some (c.zeroed z).segment.bytes) =
      withHole (c.zeroed z).through deleted c.rest := by
    unfold withHole Cut.through
    rw [map_append, map_append, append_assoc, append_assoc,
      set_append_right _ _ (by rw [length_map]), length_map, Nat.sub_self]
    rfl
  unfold truncating
  rw [if_neg (by omega), if_neg (by omega), truncationPoint_withHole directory c hread hids hsep hlow hhigh]
  simp only [Except.bind, hfile, Option.join_some, hzeroing, hset]

end

/-- No entry starts with a zero. -/
theorem validEntrySizeAt_zero_cons (bs : Bytes) : validEntrySizeAt (0 :: bs) 0 = 0 := by
  by_contra hvalid
  have hmagic : (0 :: bs).take 4 = leBytes 4 entryMagic := beq_iff_eq.mp (magicAt_of_valid hvalid)
  exact absurd (cons.inj hmagic).1 (by decide)

/-- Zeros before some bytes are not part of a valid entry. -/
theorem quiet_zeros_append (k : Nat) (bs : Bytes) : Quiet (replicate k 0 ++ bs) ↔ Quiet bs := by
  have hdrop : (replicate k 0 ++ bs).drop k = bs := by
    rw [drop_append, drop_of_length_le (by rw [length_replicate]), length_replicate,
      Nat.sub_self, drop_zero, nil_append]
  refine ⟨fun h => hdrop ▸ h.drop k, fun h n => ?_⟩
  rcases Nat.lt_or_ge n k with hlt | hge
  · have hfirst := validEntrySizeAt_drop (replicate k 0 ++ bs) n 0
    rw [drop_append, drop_replicate, length_replicate, show n - k = 0 by omega, drop_zero,
      show k - n = (k - n - 1) + 1 by omega, replicate_succ, cons_append, Nat.add_zero] at hfirst
    rw [← hfirst, validEntrySizeAt_zero_cons]
  · have hvalid := h (n - k)
    rw [← hdrop, validEntrySizeAt_drop, Nat.add_sub_cancel' hge] at hvalid
    exact hvalid

/-- Zeros before some bytes are space never written if those are. -/
theorem zero_zeros_append (k : Nat) (bs : Bytes) : Zero (replicate k 0 ++ bs) ↔ Zero bs := by
  rw [zero_append, and_iff_right (zero_replicate k)]

/-! ## A gap -/

/-- Records without a gap are all before it. -/
theorem beforeGap_append {as bs : List WalRecord} {expected : Nat}
    (h : ∀ (k : Nat) (r : WalRecord), as[k]? = some r → r.recordId.toInt = (expected + k : Nat)) :
    beforeGap expected (as ++ bs) = as ++ beforeGap (expected + as.length) bs := by
  induction as generalizing expected with
  | nil => rfl
  | cons a as ih =>
    have ha : a.recordId.toInt = (expected : Int) := h 0 a rfl
    have hnext : ∀ (k : Nat) (r : WalRecord), as[k]? = some r →
      r.recordId.toInt = (expected + 1 + k : Nat) := by
      intro k r hk
      rw [h (k + 1) r hk]
      congr 1
      omega
    have hrest := ih hnext
    rw [cons_append, beforeGap, if_neg (not_not.mpr ha), hrest, cons_append, length_cons]
    congr 3
    omega

/-- The records of a log numbered from one are all before a gap. -/
theorem NumberedFromOne.beforeGap_append {as : List WalRecord} (h : NumberedFromOne as)
    (bs : List WalRecord) :
    beforeGap 1 (as ++ bs) = as ++ beforeGap (1 + as.length) bs := by
  refine PubsubVenue.beforeGap_append fun k r hk => ?_
  rw [h k r hk]
  push_cast
  omega

/-- The last entry that is read is in one of the segments that hold entries. -/
theorem reachedFrom_segment {log : List Segment} (reached : WalPosition) (h : recordsFrom n log ≠ []) :
    n ≤ (reachedFrom reached n log).segment ∧ (reachedFrom reached n log).segment < n + log.length := by
  induction log generalizing n reached with
  | nil => exact absurd rfl h
  | cons s log ih =>
    rw [reachedFrom, length_cons]
    by_cases hrest : recordsFrom (n + 1) log = []
    · have hentries : ∀ u ∈ log, u.entries = [] := by
        intro u hu
        obtain ⟨as, bs, rfl⟩ := append_of_mem hu
        rw [recordsFrom_append, recordsFrom, append_eq_nil_iff, append_eq_nil_iff] at hrest
        rw [← length_eq_zero_iff, ← length_recordsAt (n + 1 + as.length) 0, hrest.2.1]
        rfl
      have hs : s.entries ≠ [] := by
        intro hnil
        rw [recordsFrom, hnil, hrest] at h
        exact h rfl
      rw [reachedFrom_of_nil hentries, if_pos (Segment.written_length_pos.mpr hs)]
      exact ⟨le_refl n, by show n < _; omega⟩
    · obtain ⟨hlow, hhigh⟩ := ih
        (if s.written.length > 0 then { segment := n, offset := s.written.length } else reached) hrest
      exact ⟨by omega, by omega⟩

/-! ## The log that is left -/

namespace OpenLog

variable (w : OpenLog)

/-- Where the first records of the log end. -/
def endOf (n : Nat) : WalPosition :=
  match n with
  | 0 => WalPosition.start
  | n + 1 =>
    match w.records[n]? with
    | none => WalPosition.start
    | some r => { segment := r.segment, offset := r.offset + (24 + r.payload.length + 4) }

/-- The log is cut after its first records. -/
structure CutAt (n : Nat) (c : Cut) : Prop where
  log : c.log = w.segments
  records : c.records = w.records.take n
  below : n < w.records.length
  position : w.endOf n = { segment := c.before.length, offset := c.offset }

variable {w} {n : Nat} {c : Cut}

/-- A segment is in use, or has nothing in it. -/
theorem unused_or_started {s : Segment} (hs : s ∈ w.segments) : s.Unused ∨ s.entries ≠ [] :=
  (mem_append.mp hs).symm.imp (w.blank s) (w.started s)

/-- The records after the cut are numbered above it. -/
theorem lt_of_mem_drop {r : WalRecord} (hr : r ∈ w.records.drop n) : (n : Int) < r.recordId.toInt := by
  obtain ⟨k, hk⟩ := mem_iff_getElem?.mp hr
  rw [getElem?_drop] at hk
  rw [w.numbered (n + k) r hk]
  push_cast
  omega

/-- There is no gap in its numbers. -/
theorem beforeGap_records (w : OpenLog) : beforeGap 1 w.records = w.records := by
  have hall := w.numbered.beforeGap_append []
  rwa [append_nil, beforeGap, append_nil] at hall

/-- The segments before one that holds entries are in use. -/
theorem used_of_entries {before rest : List Segment} {s t : Segment}
    (hsplit : w.segments = before ++ s :: rest) (ht : t ∈ s :: rest) (hentries : t.entries ≠ []) :
    before ++ [s] <+: w.used := by
  have hused : ¬∀ u ∈ s :: rest, u ∈ w.unused := fun hall => hentries (w.blank t (hall t ht)).1
  rcases append_eq_append_iff.mp (show w.used ++ w.unused = before ++ s :: rest from hsplit)
    with ⟨more, -, hunused⟩ | ⟨more, hbefore, hrest⟩
  · exact absurd (fun u hu => hunused ▸ mem_append_right _ hu) hused
  · cases more with
    | nil =>
      have hunused : s :: rest = w.unused := hrest
      exact absurd (fun u hu => hunused ▸ hu) hused
    | cons x more =>
      obtain ⟨rfl, -⟩ := cons.inj hrest
      exact ⟨more, by rw [hbefore, append_assoc, singleton_append]⟩

/-- **A log can be cut** after any of its records but the last, and before the first. -/
theorem exists_cutAt (hn : n < w.records.length) : ∃ c, w.CutAt n c := by
  cases n with
  | zero =>
    obtain ⟨s, rest, hsegments⟩ := exists_cons_of_ne_nil w.created
    refine ⟨⟨[], [], s.entries, s.tail, rest, .inr rfl⟩, hsegments.symm, rfl, hn, rfl⟩
  | succ n =>
    obtain ⟨before, kept, lost, tail, rest, hlog, hkept, hlen⟩ :=
      exists_cut_of_pos (Nat.succ_pos n) (show n + 1 ≤ (recordsFrom 0 w.segments).length from hn.le)
    set c : Cut := ⟨before, kept, lost, tail, rest, .inl hkept⟩ with hc
    have hcount : c.records.length = n + 1 := by
      show (recordsFrom 0 before ++ recordsAt before.length 0 kept).length = _
      rw [length_append, length_recordsAt, hlen]
    have hrecords : w.records = c.records ++ (recordsAt c.before.length c.offset c.lost ++
        recordsFrom (c.before.length + 1) c.rest) := by
      rw [← c.records_append]
      exact congrArg (recordsFrom 0) hlog
    have hne : c.records ≠ [] := by
      intro hnil
      rw [hnil] at hcount
      cases hcount
    obtain ⟨earlier, x, hlast, hsegment, hoffset⟩ := c.exists_last hne
    refine ⟨c, hlog.symm, by rw [hrecords, take_left' hcount], hn, ?_⟩
    have hx : w.records[n]? = some x := by
      have hsplit : c.records = (recordsFrom 0 c.before ++ earlier) ++ [x] := by
        unfold Cut.records
        rw [hlast, append_assoc]
      rw [hrecords, getElem?_append_left (by omega), hsplit]
      rw [hsplit, length_append, length_singleton] at hcount
      rw [show n = (recordsFrom 0 c.before ++ earlier).length by omega]
      exact getElem?_concat_length
    simp only [endOf, hx]
    rw [hsegment, hoffset]

namespace CutAt

variable (h : w.CutAt n c)
include h

/-- As many records are kept. -/
theorem length_records : c.records.length = n := by
  rw [h.records, length_take]
  exact Nat.min_eq_left h.below.le

/-- The records after the cut. -/
theorem drop_records : w.records.drop n = recordsAt c.before.length c.offset c.lost ++
    recordsFrom (c.before.length + 1) c.rest := by
  have hall : w.records = c.records ++ (recordsAt c.before.length c.offset c.lost ++
      recordsFrom (c.before.length + 1) c.rest) := by
    rw [← c.records_append, h.log]
    rfl
  rw [hall, drop_left' h.length_records]

/-- A segment of the log. -/
theorem mem_segments {s : Segment} (hs : s ∈ c.before ∨ s = c.segment ∨ s ∈ c.rest) : s ∈ w.segments := by
  rw [← h.log]
  rcases hs with hs | rfl | hs
  · exact mem_append_left _ hs
  · exact mem_append_right _ mem_cons_self
  · exact mem_append_right _ (mem_cons_of_mem _ hs)

/-- The records that are kept are numbered from one. -/
theorem numbered : NumberedFromOne c.records := by
  intro k r hk
  refine w.numbered k r ?_
  obtain ⟨hlt, -⟩ := List.getElem?_eq_some_iff.mp hk
  rw [h.records, length_take] at hlt
  rw [h.records, getElem?_take_of_lt (by omega)] at hk
  exact hk

/-- The segments up to the one in which the records that are kept end are in use. -/
theorem through_prefix (hkept : c.kept ≠ []) : c.through <+: w.used :=
  used_of_entries h.log.symm mem_cons_self fun hnil => hkept (append_eq_nil_iff.mp hnil).1

/-- The entries of later segments are numbered above the cut. -/
theorem separates : c.Separates c.records.length := by
  rw [h.length_records]
  refine ⟨fun r hr => ?_, fun s hs => ?_, fun s hs => ?_⟩
  · obtain ⟨k, hk⟩ := mem_iff_getElem?.mp hr
    obtain ⟨hlt, -⟩ := List.getElem?_eq_some_iff.mp hk
    rw [h.length_records] at hlt
    rw [h.numbered k r hk]
    omega
  · refine (unused_or_started (h.mem_segments (.inr (.inr hs)))).imp id fun hne => ⟨hne, fun e he => ?_⟩
    obtain ⟨as, bs, hsplit⟩ := append_of_mem hs
    obtain ⟨es, fs, hentries⟩ := append_of_mem he
    refine lt_of_mem_drop (w := w) (r := e.record (c.before.length + 1 + as.length)
      (0 + (es.flatMap WalEntry.bytes).length)) ?_
    rw [h.drop_records, hsplit, recordsFrom_append, recordsFrom, hentries, recordsAt_append_list]
    exact mem_append_right _ (mem_append_right _ (mem_append_left _ (mem_append_right _ mem_cons_self)))
  · rcases c.here with hkept | hnone
    · exact w.started s ((h.through_prefix hkept).subset (mem_append_left _ hs))
    · rw [hnone] at hs
      exact (not_mem_nil hs).elim

/-- The segment in which the records that are kept end is not after the one the writer is in. -/
theorem le_last : c.before.length ≤ w.last := by
  rcases c.here with hkept | hnone
  · have hle := (h.through_prefix hkept).length_le
    rw [Cut.through, length_append, length_singleton] at hle
    unfold last
    omega
  · rw [hnone]
    exact Nat.zero_le _

/-- The writer is in a segment of the log. -/
theorem last_lt : w.last < c.before.length + 1 + c.rest.length := by
  have hlen : w.segments.length = c.before.length + (c.rest.length + 1) := by
    rw [← h.log, Cut.log, length_append, length_cons]
  have hle : w.used.length ≤ w.segments.length := by
    unfold segments
    rw [length_append]
    exact Nat.le_add_right _ _
  unfold last
  omega

/-- Before the segment in which the records that are kept end, nothing is left over. -/
theorem zero_of_mem_before : ∀ s ∈ c.before, Zero s.tail := by
  rcases c.here with hkept | hnone
  · exact Readable.zero_of_entries (h.log ▸ w.readable) fun hnil => hkept (append_eq_nil_iff.mp hnil).1
  · rw [hnone]
    exact nofun

/-- The size of the segment. -/
theorem length_segment : c.segment.bytes.length = w.segmentSize :=
  w.sized _ (h.mem_segments (.inr (.inl rfl)))

/-- The records that are kept end within the segment. -/
theorem offset_le : c.offset ≤ w.segmentSize := by
  rw [← h.length_segment]
  exact c.offset_le

/-- Six digits number what is left. -/
theorem length_left (z : Nat) : ((c.zeroed z).through ++ c.rest).length ≤ 1000000 := by
  have hfew := w.few.1
  rw [← h.log, Cut.log, length_append, length_cons] at hfew
  rw [length_append, Cut.through, length_append, length_singleton]
  show c.before.length + 1 + c.rest.length ≤ 1000000
  omega

variable (writes : List Nat)

/-- **The files that are left**: segments are deleted once the writes have come to the end of
theirs. -/
theorem leftFiles_eq (deleted : Nat) : let z := zeroedThrough w.segmentSize c.offset writes
    let d := if z < w.segmentSize then 0 else min deleted c.rest.length
    w.leftFiles n writes deleted = withHole (c.zeroed z).through d (c.rest.drop d) := by
  intro z d
  have hfiles : w.files = withHole c.through 0 c.rest := by
    rw [withHole_zero]
    unfold OpenLog.files
    rw [← h.log, Cut.log, c.through_append]
  have hread : Readable (if 0 = 0 then c.log else c.through) := by
    rw [if_pos rfl, h.log]
    exact w.readable
  have hlast : (c.records.length : Int) < w.records.length := by
    have := h.length_records
    have := h.below
    omega
  have hcut := truncating_withHole w.directory c hread h.numbered h.separates h.le_last
    h.last_lt w.segmentSize hlast h.length_segment writes deleted
  rw [h.length_records] at hcut
  unfold OpenLog.leftFiles
  rw [hfiles, hcut]
  show (if z < w.segmentSize then withHole (c.zeroed z).through 0 c.rest
    else deleteAfter (withHole (c.zeroed z).through 0 c.rest) c.before.length deleted) = _
  split
  · rename_i hlt
    rw [show d = 0 from if_pos hlt, drop_zero]
  · rename_i hge
    rw [show d = min deleted c.rest.length from if_neg hge]
    have hdelete :=
      deleteAfter_withHole deleted (h.length_left z)
        (append_ne_nil_of_right_ne_nil _ (cons_ne_nil _ _))
    rwa [show (c.zeroed z).through.length - 1 = c.before.length by
      rw [Cut.through, length_append, length_singleton]; rfl] at hdelete

/-- **What opening makes of the records that were read**: those up to the cut, and some of the last.
If there are records missing in between, the log is cut back again. -/
theorem openLog_of_replay {files : WalFiles} {reached : WalPosition} {later : List WalRecord}
    (hreplay : replayFiles w.directory files = .ok (c.records ++ later, reached))
    (hlater : later <:+ w.records.drop n)
    (hcut : later ≠ [] →
      ∃ left, truncating w.directory w.segmentSize files reached.segment w.records.length n
      (replicate w.segmentSize (64 * 1024)) files.length = .ok left) :
    ∃ log, openLog w.directory w.segmentSize files = .ok log ∧
      (log = w.records.take n ∨ log = w.records) := by
  obtain ⟨missing, hmissing⟩ := hlater
  have hall : w.records = c.records ++ (missing ++ later) := by
    rw [hmissing, h.records, take_append_drop]
  have hlong : replayed (c.records ++ later) = c.records ++ later := by
    refine filter_eq_self.mpr fun r hr => decide_eq_true (w.complete r ?_)
    show r ∈ w.records
    rw [hall]
    rcases mem_append.mp hr with hr | hr
    · exact mem_append_left _ hr
    · exact mem_append_right _ (mem_append_right _ hr)
  have hgap : beforeGap 1 (c.records ++ later) = c.records ++ beforeGap (1 + n) later := by
    rw [h.numbered.beforeGap_append, h.length_records]
  unfold openLog
  rw [hreplay]
  show ∃ log, (if w.segmentSize < (24 + 1 + 4) * 2 then _ else _) = _ ∧ _
  rw [if_neg (by have := w.openable; omega)]
  simp only
  rw [hlong]
  cases later with
  | nil =>
    -- nothing behind the cut is read
    refine ⟨c.records ++ [], ?_, .inl ?_⟩
    · rw [hgap]
      exact if_pos rfl
    · rw [append_nil, h.records]
  | cons r later =>
    cases missing with
    | nil =>
      -- all of it is read, as before the truncation
      have hwhole : c.records ++ r :: later = w.records := hall.symm
      refine ⟨w.records, ?_, .inr rfl⟩
      rw [hwhole, w.beforeGap_records, if_pos rfl]
    | cons m missing =>
      -- a record is missing in between, so the log is cut there when it is opened
      have hr : r.recordId.toInt ≠ ((1 + n : Nat) : Int) := by
        have hget : w.records[n + (missing.length + 1)]? = some r := by
          rw [hall, getElem?_append_right (by rw [h.length_records]; omega), h.length_records,
            getElem?_append_right (by rw [length_cons]; omega), length_cons,
            show n + (missing.length + 1) - n - (missing.length + 1) = 0 by omega]
          rfl
        rw [w.numbered _ r hget]
        push_cast
        omega
      have hkept : beforeGap 1 (c.records ++ r :: later) = c.records := by
        rw [hgap, beforeGap, if_pos hr, append_nil]
      have hlast : ((c.records ++ r :: later).getLast?.map fun r => r.recordId.toInt).getD 0 =
          (w.records.length : Int) := by
        have hsame : (c.records ++ r :: later).getLast? = w.records.getLast? := by
          rw [hall]
          simp [getLast?_append, getLast?_cons]
        have hbelow := h.below
        obtain ⟨x, hx⟩ : ∃ x, w.records[w.records.length - 1]? = some x :=
          ⟨_, getElem?_eq_getElem (by omega)⟩
        rw [hsame, getLast?_eq_getElem?, hx]
        show x.recordId.toInt = _
        rw [w.numbered _ x hx]
        show ((w.records.length - 1 : Nat) : Int) + 1 = _
        omega
      obtain ⟨left, hleft⟩ := hcut (cons_ne_nil _ _)
      refine ⟨c.records, ?_, .inl h.records⟩
      rw [hkept, if_neg (by rw [length_append, length_cons]; omega), hlast, h.length_records, hleft]
      rfl

/-- Zeroing leaves the segment as large as it was. -/
theorem length_zeroed {z : Nat} (hlow : c.offset ≤ z) (hhigh : z ≤ w.segmentSize) :
    (c.zeroed z).segment.bytes.length = w.segmentSize := by
  have := h.offset_le
  rw [c.bytes_zeroed, length_append, length_append, length_take, length_replicate, length_drop,
    h.length_segment]
  omega

/-- Every segment that is left has bytes. -/
theorem bytes_left {z : Nat} (hlow : c.offset ≤ z) (hhigh : z ≤ w.segmentSize) :
    ∀ s ∈ (c.zeroed z).through ++ c.rest, s.bytes ≠ [] := by
  intro s hs
  rcases mem_append.mp hs with hs | hs
  · rcases mem_append.mp hs with hs | hs
    · exact w.bytes_ne_nil s (h.mem_segments (.inl hs))
    · rw [mem_singleton.mp hs]
      intro hnil
      have hlen := h.length_zeroed hlow hhigh
      have := w.openable
      rw [hnil, length_nil] at hlen
      omega
  · exact w.bytes_ne_nil s (h.mem_segments (.inr (.inr hs)))

/-- A log of which the rest of the segment has been zeroed is cut back again. -/
theorem truncating_again {z d last : Nat} (hlow : c.offset ≤ z) (hhigh : z ≤ w.segmentSize)
    (htail : ∀ s ∈ (c.zeroed z).through, Zero s.tail) (hafter : Readable (c.rest.drop d))
    (hfirst : c.before.length + d ≤ last) (hlast : last < c.before.length + 1 + d + (c.rest.drop d).length)
    (writes : List Nat) (count : Nat) :
    ∃ left, truncating w.directory w.segmentSize (withHole (c.zeroed z).through d (c.rest.drop d)) last
      w.records.length n writes count = .ok left := by
  set again : Cut := { c.zeroed z with rest := c.rest.drop d }
  have hread : Readable (if d = 0 then again.log else again.through) := by
    split
    · rw [Cut.log, ← again.through_append]
      exact readable_append htail hafter
    · exact readable_of_zero htail
  have hsep : again.Separates again.records.length :=
    ⟨h.separates.kept, fun s hs => h.separates.rest s (mem_of_mem_drop hs), h.separates.before⟩
  have hcount : again.records.length = n := h.length_records
  have hbelow : (again.records.length : Int) < w.records.length := by
    have := h.below
    omega
  have hagain := truncating_withHole w.directory again hread h.numbered hsep hfirst hlast w.segmentSize hbelow
    (h.length_zeroed hlow hhigh) writes count
  rw [hcount] at hagain
  exact ⟨_, hagain⟩

/-- What is left of the segment ends within it, if it is not only zeros. -/
theorem zeroedThrough_lt {z : Nat} (hleft : ¬Zero (c.segment.bytes.drop z)) : z < w.segmentSize := by
  by_contra hge
  refine hleft ?_
  rw [drop_of_length_le (by rw [h.length_segment]; omega)]
  exact nofun

variable {writes} (deleted : Nat) {z : Nat} (hz : zeroedThrough w.segmentSize c.offset writes = z)
include hz

/-- If the zeros do not go to the end of the segment, no segment is deleted. -/
theorem leftFiles_of_lt (hlt : z < w.segmentSize) :
    w.leftFiles n writes deleted = withHole (c.zeroed z).through 0 c.rest := by
  have hleft := h.leftFiles_eq writes deleted
  simp only [hz, if_pos hlt, drop_zero] at hleft
  exact hleft

/-- **If nothing is left over that the zeros would make damage**, the log opens. -/
theorem openLog_of_quiet (hquiet : Quiet (c.segment.bytes.drop z))
    (hleft : Zero (c.segment.bytes.drop z) ∨ ∀ s ∈ c.rest, s.Unused) :
    ∃ log, openLog w.directory w.segmentSize (w.leftFiles n writes deleted) = .ok log ∧
      (log = w.records.take n ∨ log = w.records) := by
  obtain ⟨hlow, hhigh⟩ := zeroedThrough_bounds h.offset_le writes
  rw [h.leftFiles_eq writes deleted, hz]
  rw [hz] at hlow hhigh
  set d := if z < w.segmentSize then 0 else min deleted c.rest.length with hd
  have hdle : d ≤ c.rest.length := by
    rw [hd]
    split
    · exact Nat.zero_le _
    · exact Nat.min_le_right _ _
  have hthrough : (c.zeroed z).through.length = c.before.length + 1 := length_append
  have hfew := h.length_left z
  rw [length_append, hthrough] at hfew
  have hbytes := h.bytes_left hlow hhigh
  have hrestread : Readable c.rest := by
    have hread := w.readable
    rw [← h.log, Cut.log, ← singleton_append, ← append_assoc] at hread
    exact hread.of_append
  have hlater : recordsFrom (c.before.length + 1 + d) (c.rest.drop d) <:+ w.records.drop n := by
    rw [h.drop_records]
    refine IsSuffix.trans ?_ (suffix_append _ _)
    refine ⟨recordsFrom (c.before.length + 1) (c.rest.take d), ?_⟩
    conv_rhs => rw [← take_append_drop d c.rest]
    rw [recordsFrom_append, length_take, Nat.min_eq_left hdle]
  by_cases hzero : Zero (c.segment.bytes.drop z)
  · have htail : ∀ s ∈ (c.zeroed z).through, Zero s.tail := by
      intro s hs
      rcases mem_append.mp hs with hs | hs
      · exact h.zero_of_mem_before s hs
      · rw [mem_singleton.mp hs]
        exact (zero_zeros_append _ _).mpr hzero
    have hafter : Readable (c.rest.drop d) := by
      rw [← take_append_drop d c.rest] at hrestread
      exact hrestread.of_append
    have hcount : (c.zeroed z).through.length + d + (c.rest.drop d).length ≤ 1000000 := by
      rw [hthrough, length_drop]
      omega
    have hbytes' : ∀ s ∈ (c.zeroed z).through ++ c.rest.drop d, s.bytes ≠ [] := fun s hs =>
      hbytes s ((mem_append.mp hs).elim (mem_append_left _) fun hs => mem_append_right _ (mem_of_mem_drop hs))
    have hreplay := replayFiles_withHole w.directory hcount hbytes' htail hafter
    rw [c.records_zeroed, hthrough] at hreplay
    refine h.openLog_of_replay hreplay hlater fun hne => ?_
    -- There is a gap, and what is left is cut back at the same place.
    obtain ⟨hreach, hreach'⟩ := reachedFrom_segment (reachedFrom WalPosition.start 0 (c.zeroed z).through) hne
    exact h.truncating_again hlow hhigh htail hafter (by omega) hreach' _ _
  · have hrest := hleft.resolve_left hzero
    have hnone : d = 0 := if_pos (h.zeroedThrough_lt hzero)
    have hlog : Readable ((c.zeroed z).through ++ c.rest) := by
      rw [Cut.through_append]
      exact readable_append h.zero_of_mem_before ⟨(quiet_zeros_append _ _).mpr hquiet, .inr hrest⟩
    have hreplay := replay_of_readable w.directory (h.length_left z) hbytes hlog
    rw [recordsFrom_append, c.records_zeroed, recordsFrom_of_nil fun u hu => (hrest u hu).1] at hreplay
    rw [hnone, drop_zero]
    exact h.openLog_of_replay ((replayFiles_log _ _ _).trans hreplay) nil_suffix fun hne => absurd rfl hne

/-- **If an entry after the zeros is still whole**, the log does not open. -/
theorem openLog_of_hidden (hsome : c.offset < z) (hwhole : ¬Quiet (c.segment.bytes.drop z)) :
    ∃ e, openLog w.directory w.segmentSize (w.leftFiles n writes deleted) = .error e := by
  have hlt := h.zeroedThrough_lt fun hzero => hwhole hzero.quiet
  rw [h.leftFiles_of_lt deleted hz hlt]
  have hlen := h.length_zeroed hsome.le hlt.le
  have hbytes : (c.zeroed z).segment.bytes ≠ [] := by
    intro hnil
    rw [hnil, length_nil] at hlen
    omega
  have hfirst : validEntrySizeAt (c.zeroed z).segment.tail 0 = 0 := by
    show validEntrySizeAt (replicate (z - c.offset) 0 ++ _) 0 = 0
    rw [show z - c.offset = (z - c.offset - 1) + 1 by omega,
      replicate_succ, cons_append, validEntrySizeAt_zero_cons]
  obtain ⟨e, herror⟩ :=
    replay_of_hidden w.directory ((c.zeroed z).through_append _) (h.length_left z) hbytes hfirst
    fun hquiet => hwhole ((quiet_zeros_append _ _).mp hquiet)
  refine ⟨e, ?_⟩
  unfold openLog
  rw [replayFiles_log, herror]
  rfl

/-- **If part of an entry is left and a later segment holds entries**, the log does not open. -/
theorem openLog_of_left_behind (hquiet : Quiet (c.segment.bytes.drop z))
    (hleft : ¬Zero (c.segment.bytes.drop z)) (hentries : ¬∀ s ∈ c.rest, s.entries = []) :
    ∃ e, openLog w.directory w.segmentSize (w.leftFiles n writes deleted) = .error e := by
  obtain ⟨hlow, hhigh⟩ := zeroedThrough_bounds h.offset_le writes
  rw [h.leftFiles_of_lt deleted hz (h.zeroedThrough_lt hleft)]
  rw [hz] at hlow hhigh
  push Not at hentries
  obtain ⟨u, hu, hne⟩ := hentries
  obtain ⟨t, after, hrest⟩ := exists_cons_of_ne_nil (ne_nil_of_mem hu)
  have ht : t ∈ w.used := by
    have hsplit : w.segments = c.through ++ t :: after := by
      rw [← h.log, c.through_append, Cut.log, hrest]
    exact (used_of_entries hsplit (hrest ▸ hu) hne).subset (mem_append_right _ (mem_singleton_self t))
  have hsplit : (c.zeroed z).through ++ c.rest = c.before ++ (c.zeroed z).segment :: t :: after :=
    hrest ▸ (c.zeroed z).through_append _
  obtain ⟨e, herror⟩ := replay_of_left_behind w.directory hsplit (h.length_left z) (h.bytes_left hlow hhigh)
    ((quiet_zeros_append _ _).mpr hquiet) (fun hzero => hleft ((zero_zeros_append _ _).mp hzero))
    (w.few.2 t (mem_append_left _ ht)) (w.started t ht)
  refine ⟨e, ?_⟩
  unfold openLog
  rw [replayFiles_log, herror]
  rfl

end CutAt

/-! ## When the log opens -/

/-- The bytes of the segment in which the first records end that have not been zeroed. -/
def left (w : OpenLog) (n : Nat) (writes : List Nat) : Bytes :=
  (((w.segments[(w.endOf n).segment]?).map Segment.bytes).getD []).drop
    (zeroedThrough w.segmentSize (w.endOf n).offset writes)

/-- **What is left makes no damage of the zeros**: nothing has been zeroed, or no whole entry is
left in the segment, and no part of one if a later segment holds entries. -/
def LeavesNoDamage (w : OpenLog) (n : Nat) (writes : List Nat) : Prop :=
  zeroedThrough w.segmentSize (w.endOf n).offset writes = (w.endOf n).offset ∨ Quiet (w.left n writes) ∧
      (Zero (w.left n writes) ∨ ∀ s ∈ w.segments.drop ((w.endOf n).segment + 1), s.entries = [])

/-- What the cut makes of it. -/
theorem CutAt.leavesNoDamage_iff (h : w.CutAt n c) (writes : List Nat) : w.LeavesNoDamage n writes ↔
      zeroedThrough w.segmentSize c.offset writes = c.offset ∨
        Quiet (c.segment.bytes.drop (zeroedThrough w.segmentSize c.offset writes)) ∧
          (Zero (c.segment.bytes.drop (zeroedThrough w.segmentSize c.offset writes)) ∨
            ∀ s ∈ c.rest, s.entries = []) := by
  have hget : w.segments[c.before.length]? = some c.segment := by
    rw [← h.log, Cut.log, getElem?_append_right (le_refl _), Nat.sub_self]
    rfl
  have hdrop : w.segments.drop (c.before.length + 1) = c.rest := by
    rw [← h.log, Cut.log, ← singleton_append, ← append_assoc,
      drop_left' (by rw [length_append, length_singleton])]
  unfold LeavesNoDamage left
  rw [h.position, hget, hdrop]
  rfl

/-- The log as it was opens. -/
theorem openLog_files (w : OpenLog) : openLog w.directory w.segmentSize w.files = .ok w.records := by
  obtain ⟨reached, hopened⟩ := w.opened
  have hreplay : replayFiles w.directory w.files = .ok (w.records, reached) := by
    unfold files
    rw [replayFiles_log, append_nil]
    exact hopened
  have hlong : replayed w.records = w.records :=
    filter_eq_self.mpr fun r hr => decide_eq_true (w.complete r hr)
  unfold openLog
  rw [hreplay]
  show (if w.segmentSize < (24 + 1 + 4) * 2 then _ else _) = _
  rw [if_neg (by have := w.openable; omega)]
  rw [hlong, w.beforeGap_records, if_pos rfl]

variable {writes : List Nat}

/-- As long as nothing has been zeroed and no segment deleted, the files are as they were. -/
theorem CutAt.leftFiles_of_eq (h : w.CutAt n c)
    (hnone : zeroedThrough w.segmentSize c.offset writes = c.offset) (hlt : c.offset < w.segmentSize)
    (deleted : Nat) : w.leftFiles n writes deleted = w.files := by
  have hsame : (c.zeroed c.offset).segment.bytes = c.segment.bytes := by
    rw [c.bytes_zeroed, Nat.sub_self, replicate_zero, nil_append, take_append_drop]
  rw [h.leftFiles_of_lt deleted hnone hlt]
  unfold files withHole
  rw [← h.log, Cut.log, Cut.through, map_append, map_append, map_cons, map_cons, hsame]
  simp [Cut.zeroed]

/-- **If what is left makes no damage of the zeros, the log opens**: with the records up to the cut,
or as it was. -/
theorem CutAt.openLog_of_no_damage (h : w.CutAt n c) (hleft : w.LeavesNoDamage n writes) (deleted : Nat) :
    ∃ log, openLog w.directory w.segmentSize (w.leftFiles n writes deleted) = .ok log ∧
      (log = w.records.take n ∨ log = w.records) := by
  rcases (h.leavesNoDamage_iff writes).mp hleft with hnone | ⟨hquiet, hleft⟩
  · rcases Nat.lt_or_ge c.offset w.segmentSize with hlt | hge
    · rw [h.leftFiles_of_eq hnone hlt]
      exact ⟨w.records, w.openLog_files, .inr rfl⟩
    · -- The record ends with its segment: there is nothing to zero.
      have hzero : Zero (c.segment.bytes.drop (zeroedThrough w.segmentSize c.offset writes)) := by
        by_contra hleft
        have := h.zeroedThrough_lt hleft
        omega
      exact h.openLog_of_quiet deleted rfl hzero.quiet (.inl hzero)
  · refine h.openLog_of_quiet deleted rfl hquiet (hleft.imp id fun hnil s hs => ?_)
    exact (unused_or_started (h.mem_segments (.inr (.inr hs)))).resolve_right fun hne => hne (hnil s hs)

/-- **If it makes damage of them, the log does not open.** -/
theorem CutAt.openLog_of_damage (h : w.CutAt n c) (hleft : ¬w.LeavesNoDamage n writes) (deleted : Nat) :
    ∃ e, openLog w.directory w.segmentSize (w.leftFiles n writes deleted) = .error e := by
  rw [h.leavesNoDamage_iff, not_or] at hleft
  obtain ⟨hne, hleft⟩ := hleft
  by_cases hquiet : Quiet (c.segment.bytes.drop (zeroedThrough w.segmentSize c.offset writes))
  · refine h.openLog_of_left_behind deleted rfl hquiet (fun hzero => ?_) fun hnil => ?_
    · exact hleft ⟨hquiet, .inl hzero⟩
    · exact hleft ⟨hquiet, .inr hnil⟩
  · have hlow := (zeroedThrough_bounds h.offset_le writes).1
    exact h.openLog_of_hidden deleted rfl (by omega) hquiet

/-- A call that is refused, or has nothing to do, leaves the files as they are. -/
theorem leftFiles_of_out {seqNo : Int} (h : seqNo < 0 ∨ (w.records.length : Int) ≤ seqNo)
    (writes : List Nat) (deleted : Nat) : w.leftFiles seqNo writes deleted = w.files := by
  unfold leftFiles truncating
  by_cases hrefused : seqNo < 0 ∨ seqNo > w.records.length
  · rw [if_pos hrefused]
  · rw [if_neg hrefused, if_pos (by omega)]

/-- **Cutting back the log is crash-safe exactly if** the call leaves the log as it is, or what the
writes have left makes no damage of the zeros. -/
theorem survives_crash_iff (w : OpenLog) (seqNo : Int) (writes : List Nat) (deleted : Nat) :
    w.Recovers seqNo writes deleted ↔
      seqNo < 0 ∨ (w.records.length : Int) ≤ seqNo ∨ w.LeavesNoDamage seqNo.toNat writes := by
  by_cases hout : seqNo < 0 ∨ (w.records.length : Int) ≤ seqNo
  · refine ⟨fun _ => hout.imp id .inl, fun _ => ⟨w.records, ?_, prefix_refl _, fun r hr _ => hr⟩⟩
    rw [leftFiles_of_out hout, openLog_files]
  · obtain ⟨n, rfl⟩ : ∃ n : Nat, seqNo = n := ⟨seqNo.toNat, by omega⟩
    obtain ⟨c, hc⟩ := w.exists_cutAt (show n < w.records.length by omega)
    rw [Int.toNat_natCast]
    constructor
    · rintro ⟨log, hopen, -⟩
      refine .inr (.inr ?_)
      by_contra hdamage
      obtain ⟨e, herror⟩ := hc.openLog_of_damage hdamage deleted
      rw [hopen] at herror
      cases herror
    · intro hleft
      have hleft := hleft.resolve_left (by omega)
      obtain ⟨log, hopen, hlog⟩ := hc.openLog_of_no_damage (hleft.resolve_left (by omega)) deleted
      refine ⟨log, hopen, ?_, fun r hr hle => ?_⟩
      · rcases hlog with rfl | rfl
        · exact take_prefix n _
        · exact prefix_refl _
      · rcases hlog with rfl | rfl
        · rw [← take_append_drop n w.records] at hr
          refine (mem_append.mp hr).resolve_right fun hdrop => ?_
          have := lt_of_mem_drop hdrop
          omega
        · exact hr

/-! ## A log that does not open -/

/-- A record larger than one write zeroes. -/
def large : WalEntry := ⟨1, replicate 70000 0, by rw [length_replicate]; decide⟩

/-- A record after it. -/
def small : WalEntry := ⟨2, replicate 14 0, by decide⟩

theorem length_large : large.bytes.length = 70028 := by
  rw [large.length_bytes]
  simp only [large, WalEntry.size, length_replicate]

/-- A segment that they fill. -/
def twoRecords : Segment := { entries := [large, small], tail := [] }

theorem length_twoRecords : twoRecords.bytes.length = 70070 := by
  show (large.bytes ++ (small.bytes ++ []) ++ []).length = _
  rw [append_nil, append_nil, length_append, length_large, small.length_bytes]
  rfl

theorem records_twoRecords :
    recordsFrom 0 [twoRecords] = [large.record 0 0, small.record 0 (0 + large.size)] := by
  simp only [recordsFrom, recordsAt, twoRecords, append_nil]

theorem readable_twoRecords : Readable [twoRecords] :=
  ⟨Zero.quiet nofun, .inr nofun⟩

/-- The log. -/
def filled : OpenLog where
  directory := "wal"
  segmentSize := 70070
  used := [twoRecords]
  unused := []
  openable := by decide
  started := by
    intro s hs
    rw [mem_singleton.mp hs]
    exact cons_ne_nil _ _
  blank := fun s hs => (not_mem_nil hs).elim
  ahead := by decide
  created := cons_ne_nil _ _
  sized := by
    intro s hs
    rw [mem_singleton.mp hs, length_twoRecords]
  opened := by
    refine ⟨_, replay_of_readable "wal" (show [twoRecords].length ≤ 1000000 by decide) (fun s hs hnil => ?_)
      readable_twoRecords⟩
    have hlen := length_twoRecords
    rw [← mem_singleton.mp hs, hnil] at hlen
    cases hlen
  numbered := by
    intro k r hk
    rw [append_nil, records_twoRecords] at hk
    rcases k with - | - | k
    · rw [getElem?_cons_zero, Option.some_inj] at hk
      rw [← hk]
      rfl
    · rw [getElem?_cons_succ, getElem?_cons_zero, Option.some_inj] at hk
      rw [← hk]
      rfl
    · rw [getElem?_cons_succ, getElem?_cons_succ, getElem?_nil] at hk
      cases hk
  complete := by
    intro r hr
    rw [append_nil, records_twoRecords] at hr
    rcases mem_pair.mp hr with rfl | rfl
    · simp only [WalEntry.record, large, length_replicate]
      decide
    · decide

/-- **A process that dies after the first write** of cutting the log back to nothing. The second
record is still whole, and the log is taken for damaged. -/
theorem does_not_open :
    (∃ e, openLog filled.directory filled.segmentSize (filled.leftFiles 0 [65536] 0) = .error e) ∧
      ¬filled.Recovers 0 [65536] 0 := by
  have hcut : filled.CutAt 0 ⟨[], [], [large, small], [], [], .inr rfl⟩ := ⟨rfl, rfl, by decide, rfl⟩
  have hwhole : ¬Quiet (twoRecords.bytes.drop 65536) := by
    intro hquiet
    have hvalid := hquiet 4492
    have hbytes : twoRecords.bytes = large.bytes ++ (small.bytes ++ []) := append_nil _
    rw [validEntrySizeAt_drop, hbytes, show 65536 + 4492 = large.bytes.length from length_large.symm,
      validEntrySizeAt_append, small.validEntrySizeAt_bytes] at hvalid
    cases hvalid
  have herror : ∃ e, openLog filled.directory filled.segmentSize (filled.leftFiles 0 [65536] 0) = .error e :=
    hcut.openLog_of_hidden 0 (rfl : zeroedThrough _ _ [65536] = _) (by decide) hwhole
  refine ⟨herror, fun ⟨log, hopen, _⟩ => ?_⟩
  obtain ⟨e, herror⟩ := herror
  rw [hopen] at herror
  cases herror

end OpenLog

end PubsubVenue
