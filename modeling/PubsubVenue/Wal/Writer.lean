import PubsubVenue.Wal.Reader

/-! # Appending to the log

`WalWriter` in `WalWriter.cpp`. An entry that does not fit into what is left of the current segment
goes to the start of the next one, which is made when it does not exist and used as it is when it
does: the helper makes it ahead of time, and a crash can leave one behind.

A `Tape` is the log as the writer sees it: the segments it has left, the one it writes and those
made ahead.

* **`WalWriter.Writes`**: the files are the segments of a tape, and the writer stands behind the
  last entry. Appending keeps it (**`WalWriter.writes_run`**).
* **`Tape.run_fill`**: up to the first roll, entries go over the tail of the current segment. -/

namespace PubsubVenue

open List Segment

/-- `WalWriter`, with the segment files of its directory. -/
structure WalWriter where
  segmentSize : Nat
  segments : List Bytes
  currentSegment : Nat
  writeOffset : Nat
  deriving DecidableEq

/-- A segment that was never written. -/
def blank (segmentSize : Nat) : Bytes := replicate segmentSize 0

/-- `WalWriter::create_and_map`, as far as the files go: a new file is filled with zeros, and one
that exists is used as it is. -/
def createAndMap (segmentSize : Nat) (segments : List Bytes) (segment : Nat) : List Bytes :=
  if segment < segments.length then segments else segments ++ [blank segmentSize]

/-- `WalWriter::open`. -/
def WalWriter.openAt (segmentSize : Nat) (segments : List Bytes) (start : WalPosition) :
    Except String WalWriter :=
  if segmentSize < (24 + 1 + 4) * 2 then .error "WalWriter: segment_size too small"
  else
    .ok
      { segmentSize := segmentSize
        segments := createAndMap segmentSize segments start.segment
        currentSegment := start.segment
        writeOffset := start.offset }

namespace WalWriter

section

variable (w : WalWriter)

/-- `WalWriter::ensure_capacity`. -/
def ensureCapacity (bytesNeeded : Nat) : Except String WalWriter :=
  if bytesNeeded > w.segmentSize then .error "WalWriter: single entry exceeds segment_size"
  else if w.writeOffset + bytesNeeded ≤ w.segmentSize then .ok w
  else
    .ok { w with
        segments := createAndMap w.segmentSize w.segments (w.currentSegment + 1)
        currentSegment := w.currentSegment + 1
        writeOffset := 0 }

/-- Copy bytes into the mapping of the current segment. -/
def copy (bytes : Bytes) : WalWriter :=
  { w with segments := w.segments.modify w.currentSegment (overwrite · w.writeOffset bytes) }

/-- `WalWriter::append`. -/
def append (e : WalEntry) : Except String WalWriter :=
  (w.ensureCapacity e.size).map fun w =>
    let w := w.copy e.bytes
    { w with writeOffset := w.writeOffset + e.size }

/-- An append that a crash ends after some of its bytes. Only the files are left. -/
def tornAppend (e : WalEntry) (written : Nat) : WalWriter :=
  match w.ensureCapacity e.size with
  | .error _ => w
  | .ok w => w.copy (e.bytes.take written)

/-- The helper makes the next segment ahead of time. -/
def prepare : WalWriter :=
  { w with segments := createAndMap w.segmentSize w.segments (w.currentSegment + 1) }

end

end WalWriter

/-- What changes the log: an append, and the helper making the next segment. -/
inductive WalAction where
  | append (e : WalEntry)
  | prepare
  deriving DecidableEq

namespace WalWriter

/-- One action, and the entry whose append completed. -/
def act (w : WalWriter) : WalAction → WalWriter × List WalRecord
  | .append e =>
    match w.append e with
    | .error _ => (w, [])
    | .ok w => (w, [e.record w.currentSegment (w.writeOffset - e.size)])
  | .prepare => (w.prepare, [])

/-- Some actions, and the entries whose append completed. -/
def run (w : WalWriter) : List WalAction → WalWriter × List WalRecord
  | [] => (w, [])
  | a :: as =>
    let next := w.act a
    let last := next.1.run as
    (last.1, next.2 ++ last.2)

end WalWriter

/-! ## The log as the writer sees it -/

/-- The segments the writer has left, the one it writes and those made ahead. -/
structure Tape where
  before : List Segment
  current : Segment
  after : List Segment

namespace Tape

/-- All segments. -/
def log (t : Tape) : List Segment := t.before ++ t.current :: t.after

/-- Where the next entry goes. -/
def offset (t : Tape) : Nat := t.current.written.length

/-- Write an entry over the start of the tail. -/
def put (t : Tape) (e : WalEntry) : Tape :=
  { t with current := { entries := t.current.entries ++ [e], tail := t.current.tail.drop e.size } }

/-- Write bytes over the start of the tail that are not an entry. -/
def smear (t : Tape) (bytes : Bytes) : Tape :=
  { t with current := { t.current with tail := bytes ++ t.current.tail.drop bytes.length } }

section

variable (segmentSize : Nat) (t : Tape)

/-- Go on to the next segment. -/
def roll : Tape :=
  match t.after with
  | [] => { before := t.before ++ [t.current], current := { entries := [], tail := blank segmentSize }, after := [] }
  | s :: rest => { before := t.before ++ [t.current], current := s, after := rest }

/-- Go on to the next segment when fewer bytes are left than needed. -/
def ensureCapacity (bytesNeeded : Nat) : Tape :=
  if t.offset + bytesNeeded ≤ segmentSize then t else t.roll segmentSize

/-- The next segment exists. -/
def prepare : Tape :=
  match t.after with
  | [] => { t with after := [{ entries := [], tail := blank segmentSize }] }
  | _ :: _ => t

/-- One action. -/
def act : WalAction → Tape
  | .append e =>
    if e.size > segmentSize then t else (t.ensureCapacity segmentSize e.size).put e
  | .prepare => t.prepare segmentSize

/-- Some actions. -/
def run (as : List WalAction) : Tape := as.foldl (act segmentSize) t

end

end Tape

/-! ## The files are the log -/

/-- The files are the segments of the tape, and the writer stands behind the entries of the current
one. -/
structure WalWriter.Stands (w : WalWriter) (t : Tape) : Prop where
  segments : w.segments = t.log.map bytes
  current : w.currentSegment = t.before.length
  offset : w.writeOffset = t.offset
  sized : ∀ s ∈ t.log, s.bytes.length = w.segmentSize
  filled : ∀ s ∈ t.before, s.entries ≠ []
  unstarted : ∀ s ∈ t.after, s.entries = []

/-- **The writer of a tape**: it stands behind the last entry. -/
structure WalWriter.Writes (w : WalWriter) (t : Tape) : Prop extends Stands w t where
  started : t.current.entries ≠ [] ∨ t.before = []

theorem Segment.length_bytes (s : Segment) : s.bytes.length = s.written.length + s.tail.length :=
  length_append

theorem recordsAt_append (segment offset : Nat) (es : List WalEntry) (e : WalEntry) :
    recordsAt segment offset (es ++ [e]) =
      recordsAt segment offset es ++ [e.record segment (offset + (es.flatMap WalEntry.bytes).length)] := by
  induction es generalizing offset with
  | nil => rfl
  | cons d es ih =>
    rw [cons_append, recordsAt, recordsAt, ih, flatMap_cons, length_append, d.length_bytes, Nat.add_assoc]
    rfl

namespace Tape

variable {n : Nat} {t : Tape} {e : WalEntry}

/-- Only the segments up to the current one hold entries. -/
theorem records_log (h : ∀ s ∈ t.after, s.entries = []) :
    recordsFrom 0 t.log = recordsFrom 0 t.before ++ recordsAt t.before.length 0 t.current.entries := by
  unfold log
  rw [recordsFrom_append, recordsFrom, recordsFrom_of_nil h, append_nil, Nat.zero_add]

/-- Going on to the next segment makes it, when it does not exist. -/
theorem log_roll : (t.roll n).log = (t.prepare n).log := by
  unfold roll prepare log
  cases hafter : t.after with
  | nil => simp only [append_assoc, singleton_append]
  | cons => simp only [hafter, append_assoc, singleton_append]

theorem before_prepare : (t.prepare n).before = t.before := by
  unfold prepare
  cases t.after <;> rfl

theorem current_prepare : (t.prepare n).current = t.current := by
  unfold prepare
  cases t.after <;> rfl

theorem offset_prepare : (t.prepare n).offset = t.offset := by
  unfold offset
  rw [current_prepare]

section

variable (h : ∀ s ∈ t.after, s.entries = [])
include h

/-- The segments made ahead are without entries. -/
theorem unstarted_prepare : ∀ s ∈ (t.prepare n).after, s.entries = [] := by
  unfold prepare
  cases hafter : t.after with
  | nil =>
    intro s hs
    rw [mem_singleton.mp hs]
  | cons => exact h

/-- A segment that is made holds no entry. -/
theorem records_prepare : recordsFrom 0 (t.prepare n).log = recordsFrom 0 t.log := by
  rw [records_log h, records_log (unstarted_prepare h), before_prepare, current_prepare]

/-- An entry is the last one after it is written. -/
theorem records_put :
    recordsFrom 0 (t.put e).log = recordsFrom 0 t.log ++ [e.record t.before.length t.offset] := by
  have hput : recordsFrom 0 (t.put e).log = recordsFrom 0 t.before ++
      recordsAt t.before.length 0 (t.current.entries ++ [e]) := records_log h
  rw [hput, records_log h, recordsAt_append, append_assoc, Nat.zero_add]
  rfl

/-- The segments made ahead stay without entries. -/
theorem unstarted_roll : (∀ s ∈ (t.roll n).after, s.entries = []) ∧ (t.roll n).current.entries = [] := by
  unfold roll
  cases hafter : t.after with
  | nil => exact ⟨nofun, rfl⟩
  | cons s =>
    rw [hafter] at h
    exact ⟨fun u hu => h u (mem_cons_of_mem _ hu), h s mem_cons_self⟩

/-- The next segment is written from its start. -/
theorem offset_roll : (t.roll n).offset = 0 := by
  unfold offset
  rw [written_of_nil (unstarted_roll h).2]
  rfl

end

theorem before_roll : (t.roll n).before = t.before ++ [t.current] := by
  unfold roll
  cases t.after <;> rfl

/-- Every segment that is made has the size of a segment. -/
theorem sized_prepare (h : ∀ s ∈ t.log, s.bytes.length = n) :
    ∀ s ∈ (t.prepare n).log, s.bytes.length = n := by
  unfold prepare
  cases hafter : t.after with
  | nil =>
    intro s hs
    rcases mem_append.mp hs with hs | hs
    · exact h s (mem_append_left _ hs)
    · rcases mem_cons.mp hs with rfl | hs
      · exact h _ (mem_append_right _ mem_cons_self)
      · rw [mem_singleton.mp hs]
        exact length_replicate
  | cons => exact h

/-- Writing within the tail keeps the sizes. -/
theorem sized_smear {bytes : Bytes} (h : ∀ s ∈ t.log, s.bytes.length = n)
    (hroom : t.offset + bytes.length ≤ n) :
    ∀ s ∈ (t.smear bytes).log, s.bytes.length = n := by
  intro s hs
  rcases mem_append.mp hs with hs | hs
  · exact h s (mem_append_left _ hs)
  · rcases mem_cons.mp hs with rfl | hs
    · have hcurrent := h t.current (mem_append_right _ mem_cons_self)
      rw [length_bytes] at hcurrent ⊢
      simp only [smear, length_append, length_drop]
      unfold offset written at *
      simp only at *
      omega
    · exact h s (mem_append_right _ (mem_cons_of_mem _ hs))

/-- An entry that is written is its bytes, written over the tail. -/
theorem log_put : (t.put e).log.map bytes = (t.smear e.bytes).log.map bytes := by
  have hcurrent : (t.put e).current.bytes = (t.smear e.bytes).current.bytes := by
    simp only [put, smear, bytes, written, flatMap_append, flatMap_cons,
      flatMap_nil, append_nil, append_assoc, e.length_bytes]
  unfold log
  rw [map_append, map_append, map_cons, map_cons, hcurrent]
  rfl

theorem offset_put : (t.put e).offset = t.offset + e.size := by
  unfold offset put written
  rw [flatMap_append, length_append, flatMap_singleton, e.length_bytes]

end Tape

namespace WalWriter

variable {w : WalWriter} {t : Tape} {e : WalEntry}

/-- Making the next segment. -/
theorem Stands.createAndMap (h : w.Stands t) : createAndMap w.segmentSize w.segments (w.currentSegment + 1) =
      (t.prepare w.segmentSize).log.map bytes := by
  unfold PubsubVenue.createAndMap Tape.prepare
  rw [h.current, h.segments, length_map]
  unfold Tape.log
  rw [length_append, length_cons]
  cases hafter : t.after with
  | nil =>
    rw [if_neg (by simp)]
    simp [bytes, written]
  | cons =>
    rw [if_pos (by simp)]
    simp only [hafter]

/-- **The helper's segment** is made ahead. -/
theorem Writes.prepare (h : w.Writes t) : w.prepare.Writes (t.prepare w.segmentSize) where
  segments := h.createAndMap
  current := by
    rw [Tape.before_prepare]
    exact h.current
  offset := by
    rw [Tape.offset_prepare]
    exact h.offset
  sized := Tape.sized_prepare h.sized
  filled := by
    rw [Tape.before_prepare]
    exact h.filled
  unstarted := Tape.unstarted_prepare h.unstarted
  started := by
    rw [Tape.before_prepare, Tape.current_prepare]
    exact h.started

/-- **Room for an entry** that a segment can hold: in the current segment or in the next one. -/
theorem Writes.ensureCapacity (h : w.Writes t) {bytesNeeded : Nat} (hfits : bytesNeeded ≤ w.segmentSize) :
    ∃ w', w.ensureCapacity bytesNeeded = .ok w' ∧ w'.segmentSize = w.segmentSize ∧
      w'.Stands (t.ensureCapacity w.segmentSize bytesNeeded) ∧
      (t.ensureCapacity w.segmentSize bytesNeeded).offset + bytesNeeded ≤ w.segmentSize := by
  unfold WalWriter.ensureCapacity Tape.ensureCapacity
  rw [if_neg (by omega), h.offset]
  by_cases hroom : t.offset + bytesNeeded ≤ w.segmentSize
  · rw [if_pos hroom, if_pos hroom]
    exact ⟨w, rfl, rfl, h.toStands, hroom⟩
  · rw [if_neg hroom, if_neg hroom]
    have hoffset : (t.roll w.segmentSize).offset = 0 := Tape.offset_roll h.unstarted
    -- a segment that is left has entries, since an empty one has room for every entry
    have hcurrent : t.current.entries ≠ [] := by
      refine written_length_pos.mp ?_
      unfold Tape.offset at hroom
      omega
    refine ⟨_, rfl, rfl, ?_, by omega⟩
    exact
      { segments := by
          rw [Tape.log_roll]
          exact h.createAndMap
        current := by
          rw [Tape.before_roll, length_append, length_singleton]
          exact congrArg (· + 1) h.current
        offset := hoffset.symm
        sized := by
          rw [Tape.log_roll]
          exact Tape.sized_prepare h.sized
        filled := by
          rw [Tape.before_roll]
          intro s hs
          rcases mem_append.mp hs with hs | hs
          · exact h.filled s hs
          · rw [mem_singleton.mp hs]
            exact hcurrent
        unstarted := (Tape.unstarted_roll h.unstarted).1 }

/-- Bytes copied into the current segment go over its tail. -/
theorem Stands.copy (h : w.Stands t) (bytes : Bytes) :
    (w.copy bytes).segments = (t.smear bytes).log.map Segment.bytes := by
  have hover : overwrite t.current.bytes t.offset bytes = (t.smear bytes).current.bytes :=
    overwrite_append t.current.written t.current.tail bytes
  have hlength : t.before.length = (t.before.map Segment.bytes).length := (length_map _).symm
  unfold WalWriter.copy Tape.log
  rw [h.segments, h.current, h.offset]
  unfold Tape.log
  rw [map_append, map_append, map_cons, map_cons, hlength, modify_eq_take_drop,
    take_left, drop_left, modifyHead_cons, hover]
  rfl

/-- Bytes that are no entry leave the writer where it stands. -/
theorem Stands.smear (h : w.Stands t) {bytes : Bytes} (hroom : t.offset + bytes.length ≤ w.segmentSize) :
    (w.copy bytes).Stands (t.smear bytes) where
  segments := h.copy bytes
  current := h.current
  offset := h.offset
  sized := Tape.sized_smear h.sized hroom
  filled := h.filled
  unstarted := h.unstarted

/-- **An append** puts the entry behind the last one. -/
theorem Writes.append (h : w.Writes t) (hfits : e.size ≤ w.segmentSize) :
    ∃ w', w.append e = .ok w' ∧ w'.segmentSize = w.segmentSize ∧
      w'.Writes ((t.ensureCapacity w.segmentSize e.size).put e) := by
  obtain ⟨w₁, hensure, hsize, hstands, hroom⟩ := h.ensureCapacity hfits
  have happend : w.append e =
    .ok { w₁.copy e.bytes with writeOffset := (w₁.copy e.bytes).writeOffset + e.size } := by
    rw [WalWriter.append, hensure]
    rfl
  refine ⟨_, happend, hsize, ?_⟩
  exact
    { segments := by
        rw [Tape.log_put]
        exact hstands.copy e.bytes
      current := hstands.current
      offset := by
        rw [Tape.offset_put]
        exact congrArg (· + e.size) hstands.offset
      sized := by
        intro s hs
        have hmem : s.bytes ∈ (Tape.log _).map bytes := mem_map_of_mem hs
        rw [Tape.log_put] at hmem
        obtain ⟨u, hu, heq⟩ := mem_map.mp hmem
        rw [← heq]
        refine (hstands.smear ?_).sized u hu
        rw [e.length_bytes, hsize]
        exact hroom
      filled := hstands.filled
      unstarted := hstands.unstarted
      started := .inl (append_ne_nil_of_right_ne_nil _ (cons_ne_nil e [])) }

/-- **One action** keeps the files the segments of the tape, and adds the entry whose append
completed. -/
theorem writes_act (h : w.Writes t) (a : WalAction) :
    (w.act a).1.segmentSize = w.segmentSize ∧ (w.act a).1.Writes (t.act w.segmentSize a) ∧
      recordsFrom 0 (t.act w.segmentSize a).log = recordsFrom 0 t.log ++ (w.act a).2 := by
  cases a with
  | prepare =>
    refine ⟨rfl, h.prepare, ?_⟩
    rw [show (w.act .prepare).2 = [] from rfl, append_nil]
    exact Tape.records_prepare h.unstarted
  | append e =>
    by_cases hfits : e.size > w.segmentSize
    · have herror : w.append e = .error "WalWriter: single entry exceeds segment_size" := by
        rw [append, ensureCapacity, if_pos hfits]
        rfl
      unfold act Tape.act
      simp only [herror, if_pos hfits, append_nil]
      exact ⟨trivial, h, trivial⟩
    · obtain ⟨w', happend, hsize, hwrites⟩ := h.append (Nat.le_of_not_lt hfits)
      unfold act Tape.act
      simp only [happend, if_neg hfits]
      refine ⟨hsize, hwrites, ?_⟩
      have hunstarted : ∀ s ∈ (t.ensureCapacity w.segmentSize e.size).after, s.entries = [] :=
        hwrites.unstarted
      have hoffset := hwrites.offset
      rw [Tape.offset_put] at hoffset
      have hsame : recordsFrom 0 (t.ensureCapacity w.segmentSize e.size).log = recordsFrom 0 t.log := by
        unfold Tape.ensureCapacity
        split
        · rfl
        · rw [Tape.log_roll, Tape.records_prepare h.unstarted]
      rw [Tape.records_put hunstarted, hsame, hoffset, Nat.add_sub_cancel, hwrites.current]
      rfl

/-- **Any actions** keep the files the segments of the tape, and add the entries whose appends
completed. -/
theorem writes_run (h : w.Writes t) (as : List WalAction) :
    (w.run as).1.segmentSize = w.segmentSize ∧ (w.run as).1.Writes (t.run w.segmentSize as) ∧
      recordsFrom 0 (t.run w.segmentSize as).log = recordsFrom 0 t.log ++ (w.run as).2 := by
  induction as generalizing w t with
  | nil => exact ⟨rfl, h, (append_nil _).symm⟩
  | cons a as ih =>
    obtain ⟨hsize, hwrites, hrecords⟩ := writes_act h a
    obtain ⟨hsize', hwrites', hrecords'⟩ := ih hwrites
    rw [hsize] at hsize' hwrites' hrecords'
    refine ⟨hsize', hwrites', ?_⟩
    rw [Tape.run, foldl_cons]
    refine hrecords'.trans ?_
    rw [hrecords, append_assoc]
    rfl

end WalWriter

/-! ## How far a segment is filled -/

/-- Where the entries end that go into a segment from an offset on, and the actions from the first
entry on that goes to the next segment. -/
def fillSegment (segmentSize : Nat) : Nat → List WalAction → Nat × List WalAction
  | offset, [] => (offset, [])
  | offset, .prepare :: as => fillSegment segmentSize offset as
  | offset, .append e :: as =>
    if e.size > segmentSize then fillSegment segmentSize offset as
    else if offset + e.size ≤ segmentSize then fillSegment segmentSize (offset + e.size) as
    else (offset, .append e :: as)

/-- Entries only go forward. -/
theorem le_fillSegment (segmentSize offset : Nat) (as : List WalAction) :
    offset ≤ (fillSegment segmentSize offset as).1 := by
  induction as generalizing offset with
  | nil => exact Nat.le_refl _
  | cons a as ih =>
    cases a with
    | prepare => exact ih offset
    | append =>
      unfold fillSegment
      split
      · exact ih offset
      · split
        · exact Nat.le_trans (Nat.le_add_right _ _) (ih _)
        · exact Nat.le_refl _

/-- What is left starts with an entry that fits into a segment, but not into this one. -/
theorem fillSegment_rest (segmentSize offset : Nat) (as : List WalAction) :
    (fillSegment segmentSize offset as).2 = [] ∨
      ∃ e rest, (fillSegment segmentSize offset as).2 = .append e :: rest ∧ e.size ≤ segmentSize ∧
        segmentSize < (fillSegment segmentSize offset as).1 + e.size := by
  induction as generalizing offset with
  | nil => exact .inl rfl
  | cons a as ih =>
    cases a with
    | prepare => exact ih offset
    | append e =>
      unfold fillSegment
      split
      · exact ih offset
      · rename_i hfits
        split
        · exact ih _
        · rename_i hroom
          exact .inr ⟨e, as, rfl, Nat.le_of_not_lt hfits, Nat.lt_of_not_le hroom⟩

namespace Tape

variable {n : Nat}

variable {e : WalEntry}

/-- An entry that fits into what is left goes there. -/
theorem act_put {t : Tape} (hfits : ¬e.size > n) (hroom : t.offset + e.size ≤ n) :
    t.act n (.append e) = t.put e := by
  simp only [act, ensureCapacity, if_neg hfits, if_pos hroom]

/-- **Up to the first roll entries go over the tail of the current segment.** -/
theorem run_fill (t : Tape) (as : List WalAction) :
    ∃ t' : Tape, t.run n as = t'.run n (fillSegment n t.offset as).2 ∧ t'.before = t.before ∧
      t'.offset = (fillSegment n t.offset as).1 ∧
      t'.current.tail = t.current.tail.drop ((fillSegment n t.offset as).1 - t.offset) ∧
      (t'.after = t.after ∨ t.after = [] ∧ t'.after = [{ entries := [], tail := blank n }]) := by
  induction as generalizing t with
  | nil => exact ⟨t, rfl, rfl, rfl, by simp [fillSegment], .inl rfl⟩
  | cons a as ih =>
    cases a with
    | prepare =>
      obtain ⟨t', hrun, hbefore, hoffset, htail, hafter⟩ := ih (t.prepare n)
      rw [offset_prepare] at hrun hoffset htail
      rw [before_prepare] at hbefore
      rw [current_prepare] at htail
      refine ⟨t', hrun, hbefore, hoffset, htail, ?_⟩
      unfold prepare at hafter
      cases hnext : t.after with
      | nil =>
        rw [hnext] at hafter
        rcases hafter with hafter | ⟨hnil, -⟩
        · exact .inr ⟨rfl, hafter⟩
        · cases hnil
      | cons =>
        rw [hnext] at hafter
        rcases hafter with hafter | ⟨hnil, -⟩
        · exact .inl (hafter.trans hnext)
        · rw [hnext] at hnil
          cases hnil
    | append e =>
      unfold fillSegment
      by_cases hfits : e.size > n
      · -- no segment can hold the entry, which is refused
        have hsame : t.act n (.append e) = t := if_pos hfits
        rw [if_pos hfits, run, foldl_cons, hsame]
        exact ih t
      · rw [if_neg hfits]
        by_cases hroom : t.offset + e.size ≤ n
        · -- the entry goes to the current segment
          rw [if_pos hroom, run, foldl_cons, act_put hfits hroom]
          obtain ⟨t', hrun, hbefore, hoffset, htail, hafter⟩ := ih (t.put e)
          rw [offset_put] at hrun hoffset htail
          refine ⟨t', hrun, hbefore, hoffset, ?_, hafter⟩
          have hle := le_fillSegment n (t.offset + e.size) as
          rw [htail, show (t.put e).current.tail = t.current.tail.drop e.size from rfl, drop_drop]
          congr 1
          omega
        · -- the segment is left here
          rw [if_neg hroom]
          exact ⟨t, rfl, rfl, rfl, by simp, .inl rfl⟩

variable {t : Tape}

/-- An entry that does not fit into what is left goes to the next segment. -/
theorem act_roll (hfits : e.size ≤ n) (hroom : n < t.offset + e.size) :
    t.act n (.append e) = (t.roll n).put e := by
  simp only [act, ensureCapacity, if_neg (Nat.not_lt.mpr hfits), if_neg (Nat.not_le.mpr hroom)]

/-- It would go there just as well if the writer had gone on to that segment before. -/
theorem run_roll (hfits : e.size ≤ n) (hroom : n < t.offset + e.size)
    (hunstarted : ∀ s ∈ t.after, s.entries = []) (as : List WalAction) :
    t.run n (.append e :: as) = (t.roll n).run n (.append e :: as) := by
  have hroom' : (t.roll n).offset + e.size ≤ n := by
    rw [offset_roll hunstarted]
    omega
  rw [run, run, foldl_cons, foldl_cons, act_roll hfits hroom, act_put (Nat.not_lt.mpr hfits) hroom']

/-- From the current segment on, there is nothing but entries and space never written. -/
def Clean (t : Tape) : Prop := Zero t.current.tail ∧ ∀ s ∈ t.after, Zero s.tail

theorem clean_roll (h : ∀ s ∈ t.after, Zero s.tail) : (t.roll n).Clean := by
  unfold roll
  cases hafter : t.after with
  | nil => exact ⟨zero_replicate n, nofun⟩
  | cons s =>
    rw [hafter] at h
    exact ⟨h s mem_cons_self, fun u hu => h u (mem_cons_of_mem _ hu)⟩

/-- An action keeps that, and either writes on or goes on to the next segment. -/
theorem clean_act (h : t.Clean) (a : WalAction) : (t.act n a).Clean ∧
      ((t.act n a).before = t.before ∧ (t.current.entries ≠ [] → (t.act n a).current.entries ≠ []) ∨
        (t.act n a).before = t.before ++ [t.current]) := by
  have hput (t : Tape) (e : WalEntry) (h : t.Clean) : (t.put e).Clean := ⟨h.1.drop e.size, h.2⟩
  cases a with
  | prepare =>
    unfold act prepare
    cases hafter : t.after with
    | nil =>
      refine ⟨⟨h.1, fun s hs => ?_⟩, .inl ⟨rfl, id⟩⟩
      rw [mem_singleton.mp hs]
      exact zero_replicate n
    | cons => exact ⟨h, .inl ⟨rfl, id⟩⟩
  | append e =>
    by_cases hfits : e.size > n
    · rw [show t.act n (.append e) = t from if_pos hfits]
      exact ⟨h, .inl ⟨rfl, id⟩⟩
    · by_cases hroom : t.offset + e.size ≤ n
      · rw [act_put hfits hroom]
        refine ⟨hput t e h, .inl ⟨rfl, fun _ => ?_⟩⟩
        exact append_ne_nil_of_right_ne_nil _ (cons_ne_nil e [])
      · rw [act_roll (Nat.le_of_not_lt hfits) (Nat.lt_of_not_le hroom)]
        exact ⟨hput _ e (clean_roll h.2), .inr before_roll⟩

/-- **Nothing is left behind** in the segments that are written from then on. -/
theorem run_clean (h : t.Clean) (as : List WalAction) :
    ∃ s later, (t.run n as).log = t.before ++ s :: later ∧ (t.current.entries ≠ [] → s.entries ≠ []) ∧
      ∀ u ∈ s :: later, Zero u.tail := by
  induction as generalizing t with
  | nil =>
    refine ⟨t.current, t.after, rfl, id, fun u hu => ?_⟩
    rcases mem_cons.mp hu with rfl | hu
    · exact h.1
    · exact h.2 u hu
  | cons a as ih =>
    obtain ⟨hclean, hact⟩ := clean_act (n := n) h a
    obtain ⟨s, later, hlog, hentries, hzero⟩ := ih hclean
    rw [run, foldl_cons]
    rcases hact with ⟨hbefore, hsame⟩ | hbefore
    · rw [hbefore] at hlog
      exact ⟨s, later, hlog, fun hne => hentries (hsame hne), hzero⟩
    · refine ⟨t.current, s :: later, ?_, id, fun u hu => ?_⟩
      · rw [hbefore, append_assoc, singleton_append] at hlog
        exact hlog
      · rcases mem_cons.mp hu with rfl | hu
        · exact h.1
        · exact hzero u hu

/-- **What further actions do with bytes in the tail of the current segment**: the entries that go
into the segment are written over them, and the rest stays. -/
theorem run_torn (hafter : ∀ s ∈ t.after, s.Unused) (as : List WalAction) :
    ∃ s later, (t.run n as).log = t.before ++ s :: later ∧
      s.tail = t.current.tail.drop ((fillSegment n t.offset as).1 - t.offset) ∧ (∀ u ∈ later, Zero u.tail) ∧
      ((fillSegment n t.offset as).2 = [] → ∀ u ∈ later, u.Unused) ∧
      ((fillSegment n t.offset as).2 ≠ [] → ∃ next more, later = next :: more ∧ next.entries ≠ []) := by
  obtain ⟨t', hrun, hbefore, hoffset, htail, hnext⟩ := run_fill (n := n) t as
  have hunused : ∀ s ∈ t'.after, s.Unused := by
    rcases hnext with hnext | ⟨-, hnext⟩
    · rw [hnext]
      exact hafter
    · rw [hnext]
      intro s hs
      rw [mem_singleton.mp hs]
      exact ⟨rfl, zero_replicate n⟩
  rcases fillSegment_rest n t.offset as with hrest | ⟨e, rest, hrest, hfits, hroom⟩
  · -- no roll
    rw [hrest] at hrun
    refine ⟨t'.current, t'.after, ?_, htail, fun u hu => (hunused u hu).2, fun _ => hunused,
      fun h => absurd hrest h⟩
    rw [hrun, ← hbefore]
    rfl
  · -- the writer goes on, and what it left is as it is
    rw [← hoffset] at hroom
    have hclean : ((t'.roll n).put e).Clean := by
      have h := clean_roll (n := n) fun s hs => (hunused s hs).2
      exact ⟨h.1.drop e.size, h.2⟩
    obtain ⟨s, later, hlog, hentries, hzero⟩ := run_clean (n := n) hclean rest
    refine ⟨t'.current, s :: later, ?_, htail, hzero, fun h => ?_, fun _ => ⟨s, later, rfl, ?_⟩⟩
    · rw [hrun, hrest, run, foldl_cons, act_roll hfits hroom]
      refine hlog.trans ?_
      rw [show ((t'.roll n).put e).before = t'.before ++ [t'.current] from before_roll, hbefore,
        append_assoc, singleton_append]
    · rw [hrest] at h
      cases h
    · exact hentries (append_ne_nil_of_right_ne_nil _ (cons_ne_nil e []))

end Tape

/-! ## How many segments there are -/

/-- How far a log reaches: the number of the current segment, the offset in it and how many segment
files there are. It depends on the sizes of the entries only. -/
structure Extent where
  current : Nat
  offset : Nat
  files : Nat
  deriving DecidableEq

/-- How far the log reaches after an action. -/
def Extent.act (segmentSize : Nat) (x : Extent) : WalAction → Extent
  | .append e =>
    if e.size > segmentSize then x
    else if x.offset + e.size ≤ segmentSize then { x with offset := x.offset + e.size }
    else { current := x.current + 1, offset := e.size, files := max x.files (x.current + 2) }
  | .prepare => { x with files := max x.files (x.current + 2) }

/-- How far the log reaches after some actions. -/
def Extent.run (segmentSize : Nat) (x : Extent) (as : List WalAction) : Extent :=
  as.foldl (Extent.act segmentSize) x

/-- How far the tape reaches. -/
def Tape.extent (t : Tape) : Extent :=
  { current := t.before.length, offset := t.offset, files := t.log.length }

namespace Tape

variable {n : Nat} {t : Tape}

theorem files_prepare : (t.prepare n).log.length = max t.log.length (t.before.length + 2) := by
  unfold prepare log
  cases hafter : t.after with
  | nil => simp
  | cons => simp [hafter]

/-- How far the tape reaches follows from the sizes of the entries. -/
theorem extent_act (hunstarted : ∀ s ∈ t.after, s.entries = []) (a : WalAction) :
    (t.act n a).extent = t.extent.act n a ∧ ∀ s ∈ (t.act n a).after, s.entries = [] := by
  cases a with
  | prepare =>
    refine ⟨?_, unstarted_prepare hunstarted⟩
    unfold extent act Extent.act
    simp only [before_prepare, offset_prepare, files_prepare]
  | append e =>
    by_cases hfits : e.size > n
    · rw [show t.act n (.append e) = t from if_pos hfits]
      exact ⟨(if_pos hfits).symm, hunstarted⟩
    · by_cases hroom : t.offset + e.size ≤ n
      · rw [act_put hfits hroom]
        refine ⟨?_, hunstarted⟩
        simp only [extent, Extent.act, hfits, hroom, if_true, if_false, offset_put]
        simp [log, put]
      · rw [act_roll (Nat.le_of_not_lt hfits) (Nat.lt_of_not_le hroom)]
        refine ⟨?_, (unstarted_roll hunstarted).1⟩
        have hfiles : ((t.roll n).put e).log.length = (t.prepare n).log.length := by
          rw [← log_roll]
          simp [log, put]
        have hcurrent : ((t.roll n).put e).before.length = t.before.length + 1 := by
          rw [show ((t.roll n).put e).before = t.before ++ [t.current] from before_roll,
            length_append, length_singleton]
        simp only [extent, Extent.act, hfits, hroom, if_false, offset_put, offset_roll hunstarted,
          hfiles, files_prepare, hcurrent, Nat.zero_add]

/-- How far the tape reaches after some actions. -/
theorem extent_run (hunstarted : ∀ s ∈ t.after, s.entries = []) (as : List WalAction) :
    (t.run n as).extent = t.extent.run n as := by
  induction as generalizing t with
  | nil => rfl
  | cons a as ih =>
    obtain ⟨hact, hunstarted'⟩ := extent_act (n := n) hunstarted a
    rw [run, foldl_cons, Extent.run, foldl_cons, ← hact]
    exact ih hunstarted'

/-- Few segments are ever made ahead. -/
theorem length_after_act {k : Nat} (h : t.after.length ≤ k) (hk : 1 ≤ k) (a : WalAction) :
    (t.act n a).after.length ≤ k := by
  have hroll : (t.roll n).after.length ≤ k := by
    unfold roll
    cases hafter : t.after with
    | nil => exact Nat.zero_le k
    | cons =>
      rw [hafter, length_cons] at h
      exact Nat.le_of_succ_le h
  cases a with
  | prepare =>
    unfold act prepare
    cases hafter : t.after with
    | nil => exact hk
    | cons => exact h
  | append =>
    unfold act ensureCapacity
    simp only
    split
    · exact h
    · split
      · exact h
      · exact hroll

theorem length_after_run {k : Nat} (h : t.after.length ≤ k) (hk : 1 ≤ k) (as : List WalAction) :
    (t.run n as).after.length ≤ k := by
  induction as generalizing t with
  | nil => exact h
  | cons a as ih => exact ih (length_after_act h hk a)

end Tape

/-- The number of files never falls. -/
theorem Extent.le_run (segmentSize : Nat) (x : Extent) (as : List WalAction) :
    x.files ≤ (x.run segmentSize as).files := by
  induction as generalizing x with
  | nil => exact Nat.le_refl _
  | cons a as ih =>
    refine Nat.le_trans ?_ (ih (x.act segmentSize a))
    cases a with
    | prepare => exact Nat.le_max_left _ _
    | append =>
      unfold Extent.act
      simp only
      split
      · exact Nat.le_refl _
      · split
        · exact Nat.le_refl _
        · exact Nat.le_max_left _ _

end PubsubVenue
