import Mathlib.Data.List.Basic
import Mathlib.Algebra.Order.Group.Nat

/-! # A room for records

Records of bytes are written one after another into a block of fixed size, continuing from its start
when its end is reached; a list, oldest first, says where each record lies. When there is no room
for a record, or no place in the list, the oldest records are removed until there is. The module
names nothing of the programs that use it: what a record stands for is its `item`.

* **`Room.removed_append_items_push`**: a push adds its own record, and loses none but the oldest,
  which it reports. -/

namespace PubsubVenue

open List

universe u

variable {α : Type u}

/-- A record in the room: where it begins, how many bytes it takes, and what it is. -/
structure RoomRecord (α : Type u) where
  offset : Nat
  size : Nat
  item : α
  deriving DecidableEq

/-- A room: the records in it, oldest first, where the next one goes, and whether the records have
continued from the start of the block. -/
structure Room (α : Type u) where
  capacityBytes : Nat
  capacityRecords : Nat
  placed : List (RoomRecord α)
  nextOffset : Nat
  wrapped : Bool

namespace Room

/-- A room with nothing in it. -/
def empty (capacityBytes capacityRecords : Nat) : Room α :=
  { capacityBytes, capacityRecords, placed := [], nextOffset := 0, wrapped := false }

section

variable (r : Room α)

/-- What stands in the room, oldest first. -/
def items : List α := r.placed.map RoomRecord.item

/-- Stop holding every record. -/
def clear : Room α := { r with placed := [], nextOffset := 0, wrapped := false }

/-- Whether a record fits behind the newest one or, while the records lie in one stretch, at the
start of the block: where it would begin, and whether the records have then continued from the
start. -/
def placeFor (oldest : RoomRecord α) (size : Nat) : Option (Nat × Bool) :=
  if r.placed.length < r.capacityRecords then
    if r.wrapped then
      if size ≤ oldest.offset - r.nextOffset then some (r.nextOffset, true) else none
    else if size ≤ r.capacityBytes - r.nextOffset then some (r.nextOffset, false)
    else if size ≤ oldest.offset then some (0, true)
    else none
  else none

/-- The room without its oldest record: in one stretch again if the records before the continuation
are gone, and as new if that was the last one. -/
def removeOldest : Room α :=
  match r.placed with
  | [] => r
  | [_] => r.clear
  | oldest :: next :: rest =>
    { r with placed := next :: rest, wrapped := r.wrapped && !decide (next.offset < oldest.offset) }

/-- Removing the oldest record leaves the others. -/
@[simp] theorem removeOldest_placed : r.removeOldest.placed = r.placed.tail := by
  unfold removeOldest
  split
  · simp [*]
  · simp [clear, *]
  · simp [*]

end

/-- The room once the oldest records are removed that a record of this size needs gone, where the
record begins, and the records removed. The number bounds how many can be. -/
def makeRoomIn (size : Nat) : Nat → Room α → Room α × Nat × List α
  | 0, r => (r.clear, 0, [])
  | n + 1, r =>
    match r.placed with
    | [] => (r.clear, 0, [])
    | oldest :: _ =>
      match r.placeFor oldest size with
      | some (offset, wrapped) => ({ r with wrapped }, offset, [])
      | none =>
        let made := makeRoomIn size n r.removeOldest
        (made.1, made.2.1, oldest.item :: made.2.2)

variable (r : Room α)

/-- Make room for a record of this size. -/
def makeRoom (size : Nat) : Room α × Nat × List α := makeRoomIn size r.placed.length r

/-- Write a record, making room for it; the records removed for it. -/
def push (size : Nat) (item : α) : Room α × List α :=
  let made := r.makeRoom size
  ({ made.1 with
      placed := made.1.placed ++ [⟨made.2.1, size, item⟩], nextOffset := made.2.1 + size }, made.2.2)

/-! ## What is in the room -/

/-- **The records removed stood before those that stay.** -/
theorem removed_append_items_makeRoomIn (size n : Nat) (r : Room α) (h : r.placed.length ≤ n) :
    (makeRoomIn size n r).2.2 ++ (makeRoomIn size n r).1.items = r.items := by
  induction n generalizing r with
  | zero =>
    have hnil : r.placed = [] := eq_nil_of_length_eq_zero (Nat.le_zero.mp h)
    simp [makeRoomIn, items, clear, hnil]
  | succ n ih =>
    cases hp : r.placed with
    | nil => simp [makeRoomIn, items, clear, hp]
    | cons oldest =>
      cases hf : r.placeFor oldest size with
      | some => simp [makeRoomIn, items, hp, hf]
      | none =>
        have hlen : r.removeOldest.placed.length ≤ n := by
          rw [removeOldest_placed, hp, tail_cons]
          rw [hp, length_cons] at h
          omega
        have hrest := ih r.removeOldest hlen
        simp only [makeRoomIn, hp, hf, cons_append, hrest]
        simp [items, hp]

/-- **A push adds its record, and what it removes is the oldest of what was there.** -/
theorem removed_append_items_push (size : Nat) (item : α) :
    (r.push size item).2 ++ (r.push size item).1.items = r.items ++ [item] := by
  have h := removed_append_items_makeRoomIn size r.placed.length r (Nat.le_refl _)
  have hitems : (r.push size item).1.items = (r.makeRoom size).1.items ++ [item] := by
    simp [push, items]
  have hremoved : (r.push size item).2 = (r.makeRoom size).2.2 := rfl
  rw [hitems, hremoved, ← append_assoc]
  exact congrArg (· ++ [item]) h

/-- A record that was in the room is still there, or was removed. -/
theorem mem_push_or_removed {r : Room α} {size : Nat} {item x : α} (h : x ∈ r.items) :
    x ∈ (r.push size item).1.items ∨ x ∈ (r.push size item).2 := by
  have hmem : x ∈ (r.push size item).2 ++ (r.push size item).1.items := by
    rw [removed_append_items_push]
    exact mem_append_left _ h
  exact (mem_append.mp hmem).symm

/-- What is in the room after a push was there before, or is the record pushed. -/
theorem of_mem_push {r : Room α} {size : Nat} {item x : α} (h : x ∈ (r.push size item).1.items) :
    x ∈ r.items ∨ x = item := by
  have hmem : x ∈ r.items ++ [item] := by
    rw [← removed_append_items_push]
    exact mem_append_right _ h
  simpa using hmem

/-- The record pushed is in the room. -/
theorem mem_push_self (size : Nat) (item : α) : item ∈ (r.push size item).1.items := by
  simp [push, items]

/-! ## Changing and removing records -/

/-- What the records stand for, changed; where they lie stays. -/
def mapItems (f : α → α) (r : Room α) : Room α :=
  { r with placed := r.placed.map fun p => { p with item := f p.item } }

@[simp] theorem items_mapItems (f : α → α) (r : Room α) : (r.mapItems f).items = r.items.map f := by
  simp [items, mapItems, Function.comp_def]

/-- Remove the oldest records for as long as they pass a test. -/
def removeWhileIn (test : α → Bool) : Nat → Room α → Room α
  | 0, r => r
  | n + 1, r =>
    match r.placed with
    | [] => r
    | oldest :: _ => if test oldest.item then removeWhileIn test n r.removeOldest else r

/-- Remove the oldest records for as long as they pass a test. -/
def removeWhile (test : α → Bool) : Room α := removeWhileIn test r.placed.length r

/-- Removing from the oldest end drops the records that pass the test before the first that does
not. -/
@[simp] theorem items_removeWhile (test : α → Bool) :
    (r.removeWhile test).items = r.items.dropWhile test := by
  have key : ∀ n (r : Room α), r.placed.length ≤ n →
    (removeWhileIn test n r).items = r.items.dropWhile test := by
    intro n
    induction n with
    | zero =>
      intro r h
      have hnil : r.placed = [] := eq_nil_of_length_eq_zero (Nat.le_zero.mp h)
      simp [removeWhileIn, items, hnil]
    | succ n ih =>
      intro r h
      cases hp : r.placed with
      | nil => simp [removeWhileIn, items, hp]
      | cons oldest =>
        have hlen : r.removeOldest.placed.length ≤ n := by
          rw [removeOldest_placed, hp, tail_cons]
          rw [hp, length_cons] at h
          omega
        cases ht : test oldest.item with
        | true =>
          simp only [removeWhileIn, hp, ht, if_true, ih _ hlen]
          simp [items, hp, ht]
        | false => simp [removeWhileIn, items, hp, ht]
  exact key _ r (Nat.le_refl _)

end Room

end PubsubVenue
