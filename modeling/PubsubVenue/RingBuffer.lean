import Mathlib.Data.List.Basic
import Mathlib.Logic.Function.Basic

/-! # A ring of fixed capacity

Elements are added at the back and removed from the front of a block of slots; past its end the ring
continues from the start of the block. The module names nothing of the programs that use it.

* **`RingBuffer.contents_pushBack`**, **`RingBuffer.contents_popFront`**: the ring is a queue that
  refuses what it has no slot for. -/

namespace PubsubVenue

open List

universe u

variable {α : Type u}

/-- A ring: its slots, which one is the front, and how many from there on hold an element. -/
structure RingBuffer (α : Type u) where
  capacity : Nat
  slots : Nat → α
  front : Nat
  size : Nat
  front_lt : front < capacity
  size_le : size ≤ capacity

namespace RingBuffer

/-- An empty ring; its slots hold whatever was there. -/
def create (capacity : Nat) (slots : Nat → α) (h : 0 < capacity) : RingBuffer α :=
  { capacity, slots, front := 0, size := 0, front_lt := h, size_le := capacity.zero_le }

variable (r : RingBuffer α)

/-- The slot so many places after the front. -/
def indexAfterFront (offset : Nat) : Nat :=
  if r.capacity ≤ r.front + offset then r.front + offset - r.capacity else r.front + offset

/-- The elements, oldest first. -/
def contents : List α := (range r.size).map fun i => r.slots (r.indexAfterFront i)

@[simp] theorem length_contents : r.contents.length = r.size := by simp [contents]

/-- Add an element at the back, if there is a slot for it. -/
def pushBack (value : α) : Bool × RingBuffer α :=
  if h : r.size < r.capacity then
    (true, { r with
        slots := Function.update r.slots (r.indexAfterFront r.size) value
        size := r.size + 1
        size_le := h })
  else (false, r)

/-- The slot that comes next is inside the block. -/
theorem indexAfterFront_lt {offset : Nat} (h : offset ≤ r.capacity) :
    r.indexAfterFront offset < r.capacity := by
  have := r.front_lt
  unfold indexAfterFront
  split <;> omega

/-- Remove the oldest element. -/
def popFront : RingBuffer α :=
  { r with
    front := r.indexAfterFront 1
    size := r.size - 1
    front_lt := r.indexAfterFront_lt (Nat.zero_lt_of_lt r.front_lt)
    size_le := Nat.le_trans (Nat.sub_le ..) r.size_le }

/-- **An element that is added comes last**, and one that is refused changes nothing. -/
theorem contents_pushBack (value : α) : (r.pushBack value).1 = decide (r.size < r.capacity) ∧
      (r.pushBack value).2.contents = if r.size < r.capacity then r.contents ++ [value] else r.contents := by
  unfold pushBack
  split
  · rename_i h
    refine ⟨(decide_eq_true h).symm, ?_⟩
    simp only [contents, range_succ, map_append, map_singleton]
    refine congrArg₂ _ (map_congr_left fun i hi => ?_) (congrArg ([·]) (Function.update_self ..))
    -- two places of the ring are one slot only if they are the same
    refine Function.update_of_ne (fun heq => ?_) ..
    have hlt := mem_range.mp hi
    have := r.front_lt
    simp only [indexAfterFront] at heq
    split at heq <;> split at heq <;> omega
  · rename_i h
    exact ⟨(decide_eq_false h).symm, rfl⟩

/-- **The element that is removed is the oldest.** -/
@[simp] theorem contents_popFront : r.popFront.contents = r.contents.tail := by
  unfold contents
  cases hs : r.size with
  | zero => simp [popFront, hs]
  | succ =>
    rw [range_succ_eq_map, map_cons, tail_cons, map_map]
    simp only [popFront, hs, Nat.add_sub_cancel]
    refine map_congr_left fun i hi => congrArg r.slots ?_
    have hlt := mem_range.mp hi
    have := r.front_lt
    have := r.size_le
    simp only [indexAfterFront]
    split <;> split <;> split <;> omega

end RingBuffer

end PubsubVenue
