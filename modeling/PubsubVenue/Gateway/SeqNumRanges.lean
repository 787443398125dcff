import Mathlib.Data.List.Sort

/-! # Which numbers carried a report

A session remembers which of its outbound numbers carried an execution report, as runs of numbers
(`seq_num_ranges`): sorted, and none of them next to another. A number that no run covers is filled
by a gap fill when the member asks for it again. -/

namespace PubsubVenue

/-- `SeqNumRange`: an inclusive run of outbound numbers that carried reports. -/
structure SeqNumRange where
  fromSeqNum : Int
  toSeqNum : Int
  deriving DecidableEq

namespace SeqNumRange

/-- Join a run to the last of those joined so far, if the two meet. -/
def join (joined : List SeqNumRange) (range : SeqNumRange) : List SeqNumRange :=
  match joined.getLast? with
  | none => [range]
  | some last =>
    if range.fromSeqNum ≤ last.toSeqNum + 1 then
      joined.dropLast ++ [{ last with toSeqNum := max last.toSeqNum range.toSeqNum }]
    else joined ++ [range]

/-- `seq_num_ranges::merge`. -/
def merge (ranges incoming : List SeqNumRange) : List SeqNumRange :=
  if incoming.isEmpty then ranges
  else
    ((ranges ++ incoming).insertionSort fun left right => left.fromSeqNum ≤ right.fromSeqNum).foldl join []

section

variable (ranges : List SeqNumRange)

/-- `seq_num_ranges::from_seq_num`: the runs from a number upward. -/
def fromFloor (floor : Int) : List SeqNumRange :=
  (ranges.filter fun r => floor ≤ r.toSeqNum).map fun r => { r with fromSeqNum := max r.fromSeqNum floor }

/-- `seq_num_ranges::trim`: at most so many numbers are covered. -/
def trim (keep : Int) : List SeqNumRange :=
  match ranges.head?, ranges.getLast? with
  | some first, some last =>
    if keep ≤ 0 then ranges
    else if last.toSeqNum - keep + 1 ≤ first.fromSeqNum then ranges
    else fromFloor ranges (last.toSeqNum - keep + 1)
  | _, _ => ranges

end

/-- `seq_num_ranges::max_remembered`. -/
def maxRemembered : Int := 100000

end SeqNumRange

end PubsubVenue
