import Mathlib.Data.List.DropRight
import PubsubVenue.Lease.Voter

/-! # The table of a log's epochs

Each record of a sequencer's log carries the epoch of the leadership that wrote it. `LogEpochTable`
keeps them as the record at which each run of records from one epoch begins, and answers a
follower's and a leader's questions from the runs alone. What it stands for is the plain list of the
log's epochs, `LogEpochTable.ofEpochs`, from which every answer is read off:

* **`stands_for_epochs`**: extending and cutting back the log.
* **`epochOf_ofEpochs`**: the epoch of each record.
* **`lastRecordAtOrBefore_ofEpochs`**: the log without its last records from later epochs.
* **`firstOfRunHolding_ofEpochs`**: the log without its last records from one epoch. -/

namespace PubsubVenue

open List

/-- A run of records from one epoch. -/
structure Run where
  epoch : Int
  firstSeqNo : Nat
  deriving DecidableEq, Repr

/-- Which leadership wrote each record of a log, by the record at which each run begins. -/
structure LogEpochTable where
  /-- The runs, the latest first: the order in which the table is searched. -/
  runs : List Run := []
  /-- The number of the last record, or zero. -/
  lastSeqNo : Nat := 0
  deriving DecidableEq, Repr

/-- The leader's answer to a follower: a record of the leader's log, and its epoch there. -/
structure PositionAnswer where
  seqNo : Nat
  epoch : Int
  deriving DecidableEq, Repr

/-- What a follower does with the leader's answer. -/
structure FollowerStep where
  keepThrough : Nat
  agreed : Bool
  deriving DecidableEq, Repr

namespace LogEpochTable

section

variable (t : LogEpochTable)

/-- Append a record from an epoch. -/
def extend (epoch : Int) : LogEpochTable :=
  match t.runs with
  | [] => ⟨[⟨epoch, t.lastSeqNo + 1⟩], t.lastSeqNo + 1⟩
  | run :: rest =>
    if run.epoch ≠ epoch then ⟨⟨epoch, t.lastSeqNo + 1⟩ :: run :: rest, t.lastSeqNo + 1⟩
    else ⟨run :: rest, t.lastSeqNo + 1⟩

/-- A record has been appended: it must be one more than the last. -/
def noteRecord (seqNo : Nat) (epoch : Int) : Except String LogEpochTable :=
  if seqNo ≠ t.lastSeqNo + 1 then
    .error s!"LogEpochTable: record {seqNo} follows record {t.lastSeqNo}"
  else .ok (t.extend epoch)

/-- The epoch of the last record, or zero for an empty log. -/
def lastEpoch : Int :=
  match t.runs with
  | [] => 0
  | run :: _ => run.epoch

/-- The run that holds a record. -/
def runHolding (seqNo : Nat) : Option Run :=
  t.runs.find? fun run => decide (run.firstSeqNo ≤ seqNo)

/-- The epoch of a record, which must be in the log. -/
def epochOf (seqNo : Nat) : Except String Int :=
  if seqNo < 1 ∨ seqNo > t.lastSeqNo then
    .error s!"LogEpochTable::epoch_of: record {seqNo} is not in a log of {t.lastSeqNo}"
  else .ok (((t.runHolding seqNo).map Run.epoch).getD 0)

/-- The first record of the run that holds a record of the log. -/
def firstOfRunHolding (seqNo : Nat) : Nat :=
  ((t.runHolding seqNo).map Run.firstSeqNo).getD 1

end

/-- The search of `lastRecordAtOrBefore`: `last` is the last record of the run at hand. -/
def searchAtOrBefore (epoch : Int) : List Run → Nat → Nat
  | [], _ => 0
  | run :: rest, last =>
    if run.epoch ≤ epoch then last else searchAtOrBefore epoch rest (run.firstSeqNo - 1)

section

variable (t : LogEpochTable)

/-- The last record written in an epoch or an earlier one, or zero if there is none. -/
def lastRecordAtOrBefore (epoch : Int) : Nat :=
  searchAtOrBefore epoch t.runs t.lastSeqNo

/-- The leader's answer to a follower whose last record is `followerLastSeqNo`. -/
def answerPosition (followerLastSeqNo : Nat) (followerLastEpoch : Int) :
    Except String PositionAnswer :=
  let seqNo := min followerLastSeqNo (t.lastRecordAtOrBefore followerLastEpoch)
  (if seqNo = 0 then .ok 0 else t.epochOf seqNo).map fun epoch => ⟨seqNo, epoch⟩

/-- What a follower holding this log does with the leader's answer: keep its log through the record
answered, or discard the whole run that holds its own record there. -/
def followerStep (answer : PositionAnswer) : Except String FollowerStep :=
  let seqNo := min answer.seqNo t.lastSeqNo
  if seqNo = 0 then .ok ⟨0, true⟩
  else do
    let epoch ← t.epochOf seqNo
    if epoch = answer.epoch then return ⟨seqNo, true⟩
    return ⟨t.firstOfRunHolding seqNo - 1, false⟩

/-- Records after `seqNo` have been discarded from the log. -/
def truncateAfter (seqNo : Nat) : Except String LogEpochTable :=
  if seqNo > t.lastSeqNo then
    .error s!"LogEpochTable::truncate_after: record {seqNo} is not in a log of {t.lastSeqNo}"
  else .ok ⟨t.runs.dropWhile fun run => decide (run.firstSeqNo > seqNo), seqNo⟩

end

/-! ## The list of epochs the table stands for -/

/-- The table of a log whose records carry these epochs, the first record's first. -/
def ofEpochs (epochs : List Int) : LogEpochTable := epochs.foldl extend {}

/-- The table of a log with one record more. -/
theorem ofEpochs_concat (epochs : List Int) (epoch : Int) :
    ofEpochs (epochs ++ [epoch]) = (ofEpochs epochs).extend epoch := by
  rw [ofEpochs, foldl_append]
  rfl

/-- Extending a table adds a run, if the latest is of another epoch, or goes to the run at hand. -/
theorem extend_runs (t : LogEpochTable) (epoch : Int) :
    ((t.extend epoch).runs = ⟨epoch, t.lastSeqNo + 1⟩ :: t.runs ∧
        ∀ run rest, t.runs = run :: rest → run.epoch ≠ epoch) ∨
      (t.extend epoch).runs = t.runs ∧ ∃ run rest, t.runs = run :: rest ∧ run.epoch = epoch := by
  unfold extend
  split
  · rename_i hruns
    exact .inl ⟨by rw [hruns], fun run rest h => by rw [hruns] at h; cases h⟩
  · rename_i run rest hruns
    split
    · rename_i hepoch
      exact .inl ⟨by rw [hruns], fun run' rest' h => by rw [hruns] at h; cases h; exact hepoch⟩
    · rename_i hepoch
      exact .inr ⟨hruns.symm, run, rest, hruns, not_not.mp hepoch⟩

/-- Extending a table moves its last record on by one. -/
@[simp] theorem extend_lastSeqNo (t : LogEpochTable) (epoch : Int) :
    (t.extend epoch).lastSeqNo = t.lastSeqNo + 1 := by
  unfold extend
  split
  · rfl
  · split <;> rfl

section

variable (epochs : List Int)

/-- **The last record's number** is how many records there are. -/
@[simp] theorem lastSeqNo_ofEpochs : (ofEpochs epochs).lastSeqNo = epochs.length := by
  induction epochs using reverseRecOn with
  | nil => rfl
  | append_singleton epochs epoch ih =>
    rw [ofEpochs_concat, extend_lastSeqNo, ih, length_append, length_singleton]

/-- The runs' first records fall from the latest run to the first, and none is after the last. -/
theorem runs_ofEpochs_firstSeqNo_le :
    ∀ run ∈ (ofEpochs epochs).runs, 1 ≤ run.firstSeqNo ∧ run.firstSeqNo ≤ epochs.length := by
  induction epochs using reverseRecOn with
  | nil => simp [ofEpochs]
  | append_singleton epochs epoch ih =>
    intro run hrun
    rw [length_append, length_singleton]
    rw [ofEpochs_concat] at hrun
    rcases extend_runs (ofEpochs epochs) epoch with ⟨hruns, -⟩ | ⟨hruns, -⟩
    · rw [hruns, mem_cons, lastSeqNo_ofEpochs] at hrun
      rcases hrun with rfl | hrun
      · exact ⟨Nat.le_add_left 1 _, le_refl _⟩
      · have := ih run hrun
        omega
    · rw [hruns] at hrun
      have := ih run hrun
      omega

/-- The latest run of a log that ends in a record from an epoch is of that epoch. -/
theorem runs_ofEpochs_concat (epoch : Int) :
    ∃ run rest, (ofEpochs (epochs ++ [epoch])).runs = run :: rest ∧ run.epoch = epoch ∧
      run.firstSeqNo ≤ epochs.length + 1 := by
  rw [ofEpochs_concat]
  rcases extend_runs (ofEpochs epochs) epoch with ⟨hruns, -⟩ | ⟨hruns, run, rest, hrest, hepoch⟩
  · exact ⟨_, _, hruns, rfl, by rw [lastSeqNo_ofEpochs]⟩
  · refine ⟨run, rest, hruns.trans hrest, hepoch, ?_⟩
    have := (runs_ofEpochs_firstSeqNo_le epochs run (by rw [hrest]; exact mem_cons_self)).2
    omega

/-- **The last epoch** is that of the last record. -/
theorem lastEpoch_ofEpochs : (ofEpochs epochs).lastEpoch = epochs.getLast?.getD 0 := by
  induction epochs using reverseRecOn with
  | nil => rfl
  | append_singleton epochs epoch =>
    obtain ⟨run, rest, hruns, hepoch, -⟩ := runs_ofEpochs_concat epochs epoch
    unfold lastEpoch
    rw [hruns, getLast?_concat]
    exact hepoch

end

/-! ## Looking up a record -/

variable {epochs : List Int} {seqNo : Nat}

/-- A record appended later does not change which run holds a record. -/
theorem runHolding_concat (h : seqNo ≤ epochs.length) (epoch : Int) :
    (ofEpochs (epochs ++ [epoch])).runHolding seqNo = (ofEpochs epochs).runHolding seqNo := by
  unfold runHolding
  rw [ofEpochs_concat]
  rcases extend_runs (ofEpochs epochs) epoch with ⟨hruns, -⟩ | ⟨hruns, -⟩
  · rw [hruns, find?_cons_of_neg]
    rw [lastSeqNo_ofEpochs, decide_eq_true_eq]
    exact not_le.mpr (Nat.lt_succ_of_le h)
  · rw [hruns]

/-- The last record is held by the latest run. -/
theorem runHolding_last {run : Run} {rest : List Run} (h : (ofEpochs epochs).runs = run :: rest)
    (hseq : epochs.length ≤ seqNo) : (ofEpochs epochs).runHolding seqNo = some run := by
  unfold runHolding
  rw [h, find?_cons_of_pos]
  have := (runs_ofEpochs_firstSeqNo_le epochs run (by rw [h]; exact mem_cons_self)).2
  rw [decide_eq_true_eq]
  omega

/-- A record of a list with one more is a record of the list, or the one more. -/
theorem getElem?_concat_eq_some {α : Type} {l : List α} {a b : α} {n : Nat}
    (h : (l ++ [a])[n]? = some b) : l[n]? = some b ∨ n = l.length ∧ a = b := by
  rcases Nat.lt_trichotomy n l.length with hn | hn | hn
  · rw [getElem?_append_left hn] at h
    exact .inl h
  · rw [hn, getElem?_concat_length] at h
    exact .inr ⟨hn, Option.some.inj h⟩
  · rw [getElem?_eq_none (by rw [length_append, length_singleton]; omega)] at h
    cases h

/-- The run that holds a record is of the record's epoch. -/
theorem exists_runHolding {n : Nat} {e : Int} (h : epochs[n]? = some e) :
    ∃ run, (ofEpochs epochs).runHolding (n + 1) = some run ∧ run.epoch = e := by
  induction epochs using reverseRecOn with
  | nil => cases h
  | append_singleton epochs epoch ih =>
    rcases getElem?_concat_eq_some h with hlt | ⟨rfl, rfl⟩
    · obtain ⟨hn, -⟩ := List.getElem?_eq_some_iff.mp hlt
      rw [runHolding_concat (by omega)]
      exact ih hlt
    · obtain ⟨run, rest, hruns, hepoch, -⟩ := runs_ofEpochs_concat epochs epoch
      exact ⟨run, runHolding_last hruns (by simp), hepoch⟩

/-- **The epoch of a record** of the log. -/
theorem epochOf_ofEpochs {n : Nat} {e : Int} (h : epochs[n]? = some e) :
    (ofEpochs epochs).epochOf (n + 1) = .ok e := by
  obtain ⟨run, hrun, hepoch⟩ := exists_runHolding h
  obtain ⟨hn, -⟩ := List.getElem?_eq_some_iff.mp h
  unfold epochOf
  rw [if_neg (by rw [lastSeqNo_ofEpochs]; omega), hrun, Option.map_some, Option.getD_some, hepoch]

/-- **The last record at or before an epoch**: the log without its last records from later ones. -/
theorem lastRecordAtOrBefore_ofEpochs (epochs : List Int) (epoch : Int) :
    (ofEpochs epochs).lastRecordAtOrBefore epoch =
      (epochs.rdropWhile fun e => decide (epoch < e)).length := by
  unfold lastRecordAtOrBefore
  rw [lastSeqNo_ofEpochs]
  induction epochs using reverseRecOn with
  | nil => rfl
  | append_singleton epochs e ih =>
    rw [rdropWhile_concat, length_append, length_singleton, ofEpochs_concat]
    by_cases hle : e ≤ epoch
    · -- The latest run is the record's, and it is early enough.
      rw [if_neg (by simpa using hle), length_append, length_singleton]
      obtain ⟨run, rest, hruns, hrun, -⟩ := runs_ofEpochs_concat epochs e
      rw [ofEpochs_concat] at hruns
      rw [hruns, searchAtOrBefore, if_pos (hrun ▸ hle)]
    · rw [if_pos (by simpa using hle), ← ih]
      rcases extend_runs (ofEpochs epochs) e with ⟨hruns, -⟩ | ⟨hruns, run, rest, hrest, hepoch⟩
      · rw [hruns, searchAtOrBefore, if_neg hle, lastSeqNo_ofEpochs, Nat.add_sub_cancel]
      · -- The search passes over the run whether it ends here or one record earlier.
        rw [hruns, hrest, searchAtOrBefore, searchAtOrBefore, if_neg (hepoch ▸ hle), if_neg (hepoch ▸ hle)]

/-- **The run that holds a record** begins where the log, cut after the record, loses its last
records from that epoch. -/
theorem firstOfRunHolding_ofEpochs {n : Nat} {e : Int} (h : epochs[n]? = some e) :
    (ofEpochs epochs).firstOfRunHolding (n + 1) - 1 =
      ((epochs.take (n + 1)).rdropWhile fun x => decide (x = e)).length := by
  unfold firstOfRunHolding
  induction epochs using reverseRecOn generalizing n with
  | nil => cases h
  | append_singleton epochs epoch ih =>
    rcases getElem?_concat_eq_some h with hlt | ⟨rfl, rfl⟩
    · obtain ⟨hn, -⟩ := List.getElem?_eq_some_iff.mp hlt
      rw [runHolding_concat (by omega), take_append_of_le_length (by omega)]
      exact ih hlt
    · rw [take_of_length_le (by simp), rdropWhile_concat_pos _ _ _ (by simp)]
      rcases extend_runs (ofEpochs epochs) epoch with ⟨hruns, hnew⟩ | ⟨hruns, run, rest, hrest, hepoch⟩
      · -- The record begins a run: no record before it is lost.
        rw [← ofEpochs_concat] at hruns
        rw [runHolding_last hruns (by simp), Option.map_some, Option.getD_some,
          lastSeqNo_ofEpochs, Nat.add_sub_cancel, rdropWhile_eq_self_iff.mpr]
        intro hne hlast
        obtain ⟨run, rest, hrest, hrun, -⟩ :=
          runs_ofEpochs_concat epochs.dropLast (epochs.getLast hne)
        rw [dropLast_append_getLast] at hrest
        exact hnew run rest hrest (hrun.trans (of_decide_eq_true hlast))
      · -- The record joins the run of the record before it.
        have hne : epochs ≠ [] := by
          rintro rfl
          cases hrest
        have hlast : epochs[epochs.length - 1]? = some epoch := by
          obtain ⟨run', rest', hrest', hrun', -⟩ :=
            runs_ofEpochs_concat epochs.dropLast (epochs.getLast hne)
          rw [dropLast_append_getLast, hrest] at hrest'
          cases hrest'
          rw [← getLast?_eq_getElem?, getLast?_eq_some_getLast hne, ← hrun', hepoch]
        have hlen := length_pos_iff.mpr hne
        have := ih hlast
        rw [Nat.sub_add_cancel hlen, take_length, runHolding_last hrest (le_refl _)] at this
        rw [← this, runHolding_last (by rw [ofEpochs_concat, hruns]; exact hrest) (by simp)]

/-- **Cutting back the log** cuts back the list. -/
theorem truncateAfter_ofEpochs (h : seqNo ≤ epochs.length) :
    (ofEpochs epochs).truncateAfter seqNo = .ok (ofEpochs (epochs.take seqNo)) := by
  unfold truncateAfter
  rw [if_neg (by rw [lastSeqNo_ofEpochs]; omega)]
  congr 1
  induction epochs using reverseRecOn with
  | nil => simp_all [ofEpochs]
  | append_singleton epochs epoch ih =>
    rw [length_append, length_singleton] at h
    rcases Nat.lt_or_ge epochs.length seqNo with hlt | hle
    · -- Nothing is cut: the latest run begins at the last record or before.
      obtain ⟨run, rest, hruns, -, hfirst⟩ := runs_ofEpochs_concat epochs epoch
      obtain rfl : seqNo = epochs.length + 1 := by omega
      have hlast : (ofEpochs (epochs ++ [epoch])).lastSeqNo = epochs.length + 1 := by simp
      rw [take_of_length_le (by simp), hruns, dropWhile_cons_of_neg, ← hruns]
      · exact congrArg (mk _) hlast.symm
      · simpa using hfirst
    · rw [take_append_of_le_length hle, ← ih hle, ofEpochs_concat]
      rcases extend_runs (ofEpochs epochs) epoch with ⟨hruns, -⟩ | ⟨hruns, -⟩
      · rw [hruns, dropWhile_cons_of_pos]
        rw [lastSeqNo_ofEpochs]
        exact decide_eq_true (Nat.lt_succ_of_le hle)
      · rw [hruns]

/-! ## The table over its life -/

/-- What happens to a log: `note_record` or `truncate_after`. -/
inductive LogChange
  | note (seqNo : Nat) (epoch : Int)
  | truncate (seqNo : Nat)

/-- What it does to the table. -/
def follow (t : LogEpochTable) : LogChange → Except String LogEpochTable
  | .note seqNo epoch => t.noteRecord seqNo epoch
  | .truncate seqNo => t.truncateAfter seqNo

/-- What it does to the plain list. -/
def change (epochs : List Int) : LogChange → Option (List Int)
  | .note seqNo epoch => if seqNo = epochs.length + 1 then some (epochs ++ [epoch]) else none
  | .truncate seqNo => if seqNo ≤ epochs.length then some (epochs.take seqNo) else none

theorem follow_ofEpochs (epochs : List Int) (c : LogChange) :
    ((ofEpochs epochs).follow c).toOption = (change epochs c).map ofEpochs := by
  cases c with
  | note seqNo epoch =>
    simp only [follow, noteRecord, change, lastSeqNo_ofEpochs, ← ofEpochs_concat]
    split <;> simp_all [Except.toOption]
  | truncate seqNo =>
    by_cases h : seqNo ≤ epochs.length
    · rw [follow, truncateAfter_ofEpochs h, change, if_pos h]
      rfl
    · simp [follow, truncateAfter, change, h, Nat.not_le.mp h, Except.toOption]

/-- **The table stands for the list**, however records are appended and discarded. -/
theorem stands_for_epochs (changes : List LogChange) (epochs : List Int) :
    (changes.foldlM follow (ofEpochs epochs)).toOption = (changes.foldlM change epochs).map ofEpochs := by
  induction changes generalizing epochs with
  | nil => rfl
  | cons c changes ih =>
    have hstep := follow_ofEpochs epochs c
    rw [foldlM_cons, foldlM_cons]
    cases hc : change epochs c with
    | none =>
      cases hf : (ofEpochs epochs).follow c with
      | error => rfl
      | ok => simp [hc, hf, Except.toOption] at hstep
    | some after =>
      rw [hc] at hstep
      rw [toOption_eq_some.mp hstep]
      exact ih after

end LogEpochTable

end PubsubVenue
