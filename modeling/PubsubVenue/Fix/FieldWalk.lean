import PubsubVenue.Fix.Reader

/-! # Walking the fields of a framed message

`FixMessageReader::const_iterator` walks the bytes of a framed message field by field. The value of
a field that follows a LENGTH field is taken by that length, which is an `int` converted to a
`size_t` and added to a pointer.

* **`walk_reaches_end_iff`**: the walk ends, each field starts after the one before it and every
  value lies inside the message, exactly if no such addition passes the end of the address space.
  For a message that is not within 2 GiB of an end of the address space, that is exactly if its
  bytes are cut into fields (`cutFields`) without a negative LENGTH before another field.
* **`walk_for_ever`**: a message that the reader frames, with a negative LENGTH, whose walk does not
  end. -/

namespace PubsubVenue

namespace FixMessageReader

/-- How many values a pointer or a `size_t` has. -/
def addresses : Nat := 18446744073709551616

/-- The bytes a view shows of the memory. -/
def bytesAt (memory : Nat → UInt8) (start size : Nat) : Bytes :=
  (List.range size).map fun i => memory ((start + i) % addresses)

/-- `FixField`: a tag and a value. -/
structure FixField where
  tag : Int
  value : Bytes
  deriving DecidableEq

/-- `const_iterator`: where the field starts, where the next one does, the length its value has, and
the field itself. -/
structure ConstIterator where
  fieldStart : Nat
  next : Nat
  pendingDataLength : Nat := 0
  tag : Int := 0
  valueStart : Nat := 0
  valueSize : Nat := 0
  deriving DecidableEq

/-- The field at an iterator. -/
def ConstIterator.field (memory : Nat → UInt8) (it : ConstIterator) : FixField :=
  ⟨it.tag, bytesAt memory it.valueStart it.valueSize⟩

-- the tags of LENGTH fields that have a DATA field, the memory, and the end of the message
variable (isDataLengthTag : Int → Bool) (memory : Nat → UInt8) (last : Nat)

/-- `find_char`. -/
def findChar (first : Nat) (target : UInt8) : Option Nat :=
  ((bytesAt memory first (last - first)).findIdx? (· == target)).map (first + ·)

/-- An `int` converted to a `size_t`. -/
def toSize (i : Int) : Nat := (i % addresses).toNat

/-- The length that a field carries to the next one: the value of a LENGTH field, as an `int`. -/
def carriedLength (tag : Int) (value : Bytes) : Int :=
  if tag ≠ 0 ∧ isDataLengthTag tag then (parseInt value).getD 0 else 0

/-- `parse`, of the field at `fieldStart`. -/
def parse (fieldStart incomingDataLength : Nat) : ConstIterator :=
  if last ≤ fieldStart then { fieldStart := last, next := last } else
    match findChar memory last fieldStart 61 with
    | none => { fieldStart := last, next := last }
    | some equals =>
      let valueStart := equals + 1
      let dataEnd := (valueStart + incomingDataLength) % addresses
      -- a value's end at address 0 is the null pointer, which stands for "not found"
      match if 0 < incomingDataLength ∧ dataEnd ≤ last then if dataEnd = 0 then none else some dataEnd
        else findChar memory last valueStart soh with
      | none => { fieldStart := last, next := last }
      | some valueEnd =>
        if last ≤ valueEnd then { fieldStart := last, next := last } else
          let tag := (parseInt (bytesAt memory fieldStart (equals - fieldStart))).getD 0
          let valueSize := (valueEnd + addresses - valueStart) % addresses
          { fieldStart, next := valueEnd + 1, tag, valueStart, valueSize
            pendingDataLength :=
              toSize (carriedLength isDataLengthTag tag (bytesAt memory valueStart valueSize)) }

/-- `operator++`. -/
def ConstIterator.increment (it : ConstIterator) : ConstIterator :=
  parse isDataLengthTag memory last it.next it.pendingDataLength

/-- `begin()`, incremented `n` times. -/
def walk (first n : Nat) : ConstIterator :=
  (ConstIterator.increment isDataLengthTag memory last)^[n] (parse isDataLengthTag memory last first 0)

/-! ## The walk ends -/

variable {isDataLengthTag memory last} {first start incoming : Nat}

theorem toSize_lt (i : Int) : toSize i < addresses := by
  unfold toSize addresses
  omega

@[simp] theorem length_bytesAt (size : Nat) : (bytesAt memory start size).length = size := by
  rw [bytesAt, List.length_map, List.length_range]

/-- A byte that is found is where it was looked for. -/
theorem findChar_spec {target : UInt8} {c : Nat} (h : findChar memory last start target = some c) :
    start ≤ c ∧ c < last := by
  obtain ⟨i, hi, rfl⟩ := Option.map_eq_some_iff.mp h
  have := (List.findIdx?_eq_some_iff_findIdx_eq.mp hi).1
  rw [length_bytesAt] at this
  omega

/-- The length taken for the value of the field at `start` does not pass the end of the address
space. -/
def LengthFits (memory : Nat → UInt8) (last start incoming : Nat) : Prop :=
  ∀ equals, findChar memory last start 61 = some equals → equals + 1 + incoming ≤ addresses

/-- A field at `start` that lies before the end and that the next one follows. -/
structure FieldAt (last start : Nat) (it : ConstIterator) : Prop where
  fieldStart : it.fieldStart = start
  value : start < it.valueStart
  next : it.next = it.valueStart + it.valueSize + 1
  next_le : it.next ≤ last

/-- **What parsing a field gives**: the end, or a field of which no part lies after it. -/
theorem parse_spec (hlast : last < addresses) (hfits : LengthFits memory last start incoming) :
    (parse isDataLengthTag memory last start incoming).fieldStart = last ∨
      FieldAt last start (parse isDataLengthTag memory last start incoming) := by
  unfold parse
  split
  · exact .inl rfl
  split
  · exact .inl rfl
  rename_i equals hequals
  have hfit := hfits equals hequals
  obtain ⟨hge, hlt⟩ := findChar_spec hequals
  simp only
  split
  · exact .inl rfl
  rename_i valueEnd hend
  -- the value does not end before it starts
  have hvalue : equals + 1 ≤ valueEnd := by
    split at hend
    · split at hend
      · cases hend
      · rename_i hnull
        have hlt : equals + 1 + incoming < addresses :=
          hfit.lt_of_ne fun heq => hnull (by rw [heq, Nat.mod_self])
        rw [Nat.mod_eq_of_lt hlt] at hend
        cases hend
        omega
    · exact (findChar_spec hend).1
  split
  · exact .inl rfl
  · have hsize : (valueEnd + addresses - (equals + 1)) % addresses = valueEnd - (equals + 1) := by
      rw [show valueEnd + addresses - (equals + 1) = valueEnd - (equals + 1) + addresses by omega,
        Nat.add_mod_right, Nat.mod_eq_of_lt (by omega)]
    exact .inr ⟨rfl, Nat.lt_succ_of_le hge, by simp only; omega, by simp only; omega⟩

variable (isDataLengthTag) in
/-- **A length that passes the end of the address space** gives a field before the end with a value
that is not. -/
theorem parse_of_not_lengthFits (hlast : last < addresses) (hincoming : incoming < addresses)
    (h : ¬LengthFits memory last start incoming) :
    (parse isDataLengthTag memory last start incoming).fieldStart < last ∧
      last ≤ (parse isDataLengthTag memory last start incoming).valueStart +
        (parse isDataLengthTag memory last start incoming).valueSize := by
  unfold LengthFits at h
  push Not at h
  obtain ⟨equals, hequals, hpasses⟩ := h
  obtain ⟨hge, hlt⟩ := findChar_spec hequals
  have hend : (equals + 1 + incoming) % addresses = equals + 1 + incoming - addresses := by
    rw [Nat.mod_eq_sub_mod hpasses.le, Nat.mod_eq_of_lt (by omega)]
  unfold parse
  rw [if_neg (by omega), hequals]
  simp only
  rw [hend, if_pos ⟨by omega, by omega⟩, if_neg (by omega)]
  simp only
  rw [if_neg (by omega)]
  refine ⟨by simp only; omega, ?_⟩
  simp only
  rw [Nat.mod_eq_of_lt (by omega)]
  omega

/-- The length kept for the next field is a `size_t`, and nothing follows the end. -/
theorem parse_bounds : (parse isDataLengthTag memory last start incoming).pendingDataLength < addresses ∧
    ((parse isDataLengthTag memory last start incoming).fieldStart = last →
      (parse isDataLengthTag memory last start incoming).next = last) := by
  have hpos : 0 < addresses := by decide
  unfold parse
  split
  · exact ⟨hpos, fun _ => rfl⟩
  rename_i hbefore
  split
  · exact ⟨hpos, fun _ => rfl⟩
  simp only
  split
  · exact ⟨hpos, fun _ => rfl⟩
  split
  · exact ⟨hpos, fun _ => rfl⟩
  exact ⟨toSize_lt _, fun h => absurd h.ge hbefore⟩

/-- The walk ends, and each of its fields lies inside the message, with its value, and before the
next. -/
def ReachesEnd (last first : Nat) (w : Nat → ConstIterator) : Prop :=
  ∃ n, (w n).fieldStart = last ∧ ∀ m < n, first ≤ (w m).fieldStart ∧ (w m).fieldStart < (w m).valueStart ∧
      (w m).valueStart + (w m).valueSize < last ∧ (w m).valueStart + (w m).valueSize < (w (m + 1)).fieldStart

section Places

-- the places of a walk: each is the end, or a field where the one before ends
variable {w : Nat → ConstIterator} (hfirst : (w 0).fieldStart = last ∨ FieldAt last first (w 0))
  (hnext : ∀ n, (w (n + 1)).fieldStart = last ∨ FieldAt last (w n).next (w (n + 1)))
include hfirst hnext

/-- While a walk has not ended it has moved on by a byte or more for each field. -/
theorem fieldAt_of_ne {n : Nat} (hn : ∀ m ≤ n, (w m).fieldStart ≠ last) :
    first + n ≤ (w n).fieldStart ∧ FieldAt last (w n).fieldStart (w n) := by
  induction n with
  | zero =>
    have hfield := hfirst.resolve_left (hn 0 le_rfl)
    exact ⟨hfield.fieldStart.ge, hfield.fieldStart ▸ hfield⟩
  | succ n ih =>
    obtain ⟨hlt, hbefore⟩ := ih fun m hm => hn m (by omega)
    have hfield := (hnext n).resolve_left (hn (n + 1) le_rfl)
    have := hbefore.value
    have := hbefore.next
    exact ⟨by rw [hfield.fieldStart]; omega, hfield.fieldStart ▸ hfield⟩

/-- A walk ends, and its fields lie one after the other. -/
theorem places_reach_end : ReachesEnd last first w := by
  have hends : ∃ n, (w n).fieldStart = last := by
    by_contra hnever
    rw [not_exists] at hnever
    obtain ⟨hfar, hfield⟩ := fieldAt_of_ne hfirst hnext fun m (_ : m ≤ last) => hnever m
    have := hfield.value
    have := hfield.next
    have := hfield.next_le
    omega
  refine ⟨Nat.find hends, Nat.find_spec hends, fun m hm => ?_⟩
  obtain ⟨hstart, hfield⟩ := fieldAt_of_ne hfirst hnext fun k (hk : k ≤ m) => Nat.find_min hends (by omega)
  have hend := hfield.next
  have hle := hfield.next_le
  refine ⟨by omega, hfield.value, by omega, ?_⟩
  rcases hnext m with hlast | hfollows
  · omega
  · rw [hfollows.fieldStart]
    omega

end Places

/-! ## The fields of the bytes -/

/-- The first field of some bytes and what follows it, or nothing if no field ends before they do.
Its value has the length given, if that is positive and no more than what is left. -/
def cutField (rest : Bytes) (length : Int) : Option (FixField × Bytes) :=
  (rest.findIdx? (· == 61)).bind fun equals =>
    let after := rest.drop (equals + 1)
    (if 0 < length ∧ length ≤ after.length then some length.toNat
      else after.findIdx? (· == soh)).bind fun size =>
      if size < after.length then
        some (⟨(parseInt (rest.take equals)).getD 0, after.take size⟩, after.drop (size + 1))
      else none

/-- The fields that bytes are cut into, at most as many as given, or nothing if a negative length is
carried to one of them. -/
def cutFields (isDataLengthTag : Int → Bool) : Nat → Bytes → Int → Option (List FixField)
  | 0, _, _ => some []
  | fuel + 1, rest, length =>
    if length < 0 ∧ 61 ∈ rest then none else
      match cutField rest length with
      | none => some []
      | some (field, after) =>
        (cutFields isDataLengthTag fuel after
          (carriedLength isDataLengthTag field.tag field.value)).map (field :: ·)

theorem bytesAt_drop (size k : Nat) :
    (bytesAt memory start size).drop k = bytesAt memory (start + k) (size - k) := by
  refine List.ext_getElem (by simp) fun i _ _ => ?_
  simp [bytesAt, Nat.add_assoc]

theorem bytesAt_take {size k : Nat} (hk : k ≤ size) :
    (bytesAt memory start size).take k = bytesAt memory start k := by
  refine List.ext_getElem (by simp [hk]) fun i _ _ => ?_
  simp [bytesAt]

/-- A number that is read is an `int`. -/
theorem parseInt_bounds {text : Bytes} {i : Int} (h : parseInt text = some i) :
    -2147483648 ≤ i ∧ i < 2147483648 := by
  unfold parseInt at h
  split at h <;> obtain ⟨n, -, h⟩ := Option.bind_eq_some_iff.mp h <;> split at h <;> cases h <;> omega

theorem carriedLength_bounds (tag : Int) (value : Bytes) :
    -2147483648 ≤ carriedLength isDataLengthTag tag value ∧
      carriedLength isDataLengthTag tag value < 2147483648 := by
  unfold carriedLength
  split
  · cases h : parseInt value with
    | none => decide
    | some => exact parseInt_bounds h
  · decide

/-- Where the walk goes on, at the bytes still to be cut and with the length carried to them. The
message is not within 2 GiB of an end of the address space. -/
structure GoesOn (memory : Nat → UInt8) (last : Nat) (it : ConstIterator) (rest : Bytes) (length : Int) :
    Prop where
  low : 2147483648 ≤ it.next
  high : last + 2147483648 ≤ addresses
  rest : bytesAt memory it.next (last - it.next) = rest
  pending : it.pendingDataLength = toSize length
  int : -2147483648 ≤ length ∧ length < 2147483648

section GoesOn

variable {it : ConstIterator} {rest : Bytes} {length : Int} (h : GoesOn memory last it rest length)
include h

theorem GoesOn.findChar_eq (target : UInt8) :
    findChar memory last it.next target = (rest.findIdx? (· == target)).map (it.next + ·) := by
  rw [findChar, h.rest]

/-- The length fits unless it is negative and another field follows. -/
theorem GoesOn.lengthFits_iff :
    LengthFits memory last it.next it.pendingDataLength ↔ ¬(length < 0 ∧ 61 ∈ rest) := by
  have hlow := h.low
  have hhigh := h.high
  have hint := h.int
  have hsize : toSize length = if length < 0 then addresses - (-length).toNat else length.toNat := by
    unfold toSize addresses
    split <;> omega
  have hfound : (rest.findIdx? (· == 61)).isSome ↔ 61 ∈ rest := by simp [List.findIdx?_isSome]
  rw [LengthFits, h.pending, hsize]
  constructor
  · rintro hfits ⟨hneg, hmem⟩
    obtain ⟨i, hi⟩ := Option.isSome_iff_exists.mp (hfound.mpr hmem)
    have := hfits (it.next + i) (by rw [h.findChar_eq, hi]; rfl)
    rw [if_pos hneg] at this
    unfold addresses at this hhigh
    omega
  · intro hsign equals hequals
    have hlt := (findChar_spec hequals).2
    obtain ⟨i, hi, -⟩ := Option.map_eq_some_iff.mp (h.findChar_eq 61 ▸ hequals)
    rw [if_neg fun hneg => hsign ⟨hneg, hfound.mp (Option.isSome_of_mem hi)⟩]
    omega

/-- **The walk follows the cut**: it is at the end if no field is cut off, and otherwise at that
field, from which it goes on at what follows. -/
theorem GoesOn.parse (hsign : ¬(length < 0 ∧ 61 ∈ rest)) {next : ConstIterator}
    (hnext : next = parse isDataLengthTag memory last it.next it.pendingDataLength) :
    (cutField rest length = none → next.fieldStart = last) ∧
    ∀ field after, cutField rest length = some (field, after) →
      next.fieldStart < last ∧ next.field memory = field ∧ after.length < rest.length ∧
        GoesOn memory last next after (carriedLength isDataLengthTag field.tag field.value) := by
  have hlow := h.low
  have hhigh := h.high
  have hint := h.int
  have hrest := h.rest
  have hlen : rest.length = last - it.next := by rw [← hrest, length_bytesAt]
  have hchar := h.findChar_eq 61
  subst hnext
  unfold FixMessageReader.parse
  rw [hchar]
  cases hequals : rest.findIdx? (· == 61) with
  | none =>
    rw [cutField, hequals]
    refine ⟨fun _ => ?_, nofun⟩
    split <;> rfl
  | some e =>
    have hmem : 61 ∈ rest := by
      obtain ⟨he, heq⟩ := List.findIdx?_eq_some_iff_getElem.mp hequals
      exact beq_iff_eq.mp heq.1 ▸ List.getElem_mem he
    have he := (List.findIdx?_eq_some_iff_findIdx_eq.mp hequals).1
    have hpending : it.pendingDataLength = length.toNat := by
      have hpos : ¬length < 0 := fun hneg => hsign ⟨hneg, hmem⟩
      rw [h.pending, toSize]
      unfold addresses
      omega
    have hafter : rest.drop (e + 1) = bytesAt memory (it.next + e + 1) (last - (it.next + e + 1)) := by
      rw [← hrest, bytesAt_drop]
      congr 1
      omega
    have hleft : (rest.drop (e + 1)).length = last - (it.next + e + 1) := by rw [hafter, length_bytesAt]
    -- the value ends where its length says, or at the next SOH
    have hend : (if 0 < it.pendingDataLength ∧
      (it.next + e + 1 + it.pendingDataLength) % addresses ≤ last then
          if (it.next + e + 1 + it.pendingDataLength) % addresses = 0 then none
          else some ((it.next + e + 1 + it.pendingDataLength) % addresses)
        else findChar memory last (it.next + e + 1) soh) =
        (if 0 < length ∧ length ≤ (rest.drop (e + 1)).length then some length.toNat
          else (rest.drop (e + 1)).findIdx? (· == soh)).map (it.next + e + 1 + ·) := by
      rw [hpending, Nat.mod_eq_of_lt (by omega), hleft]
      by_cases hfits : 0 < length ∧ length ≤ ((last - (it.next + e + 1) : Nat) : Int)
      · rw [if_pos (by omega), if_neg (by omega), if_pos hfits, Option.map_some]
      · rw [if_neg (by omega), if_neg hfits, findChar, hafter]
    rw [if_neg (by omega), cutField, hequals]
    simp only [Option.map_some, Option.bind_some, hend]
    cases (if 0 < length ∧ length ≤ (rest.drop (e + 1)).length then some length.toNat
          else (rest.drop (e + 1)).findIdx? (· == soh)) with
    | none => exact ⟨fun _ => rfl, nofun⟩
    | some size =>
      simp only [Option.map_some, Option.bind_some, hleft]
      by_cases hin : last ≤ it.next + e + 1 + size
      · rw [if_pos hin, if_neg (by omega)]
        exact ⟨fun _ => rfl, nofun⟩
      rw [if_neg hin, if_pos (by omega)]
      refine ⟨nofun, ?_⟩
      rintro field after ⟨⟩
      have hvalue : (it.next + e + 1 + size + addresses - (it.next + e + 1)) % addresses = size := by
        rw [show it.next + e + 1 + size + addresses - (it.next + e + 1) = size + addresses by omega,
          Nat.add_mod_right, Nat.mod_eq_of_lt (by omega)]
      have htag : rest.take e = bytesAt memory it.next (it.next + e - it.next) := by
        rw [← hrest, bytesAt_take (by omega), Nat.add_sub_cancel_left]
      have htake : (rest.drop (e + 1)).take size = bytesAt memory (it.next + e + 1) size := by
        rw [hafter, bytesAt_take (by omega)]
      simp only [hvalue, htag, htake, ConstIterator.field]
      refine ⟨by omega, trivial, ?_, ?_, hhigh, ?_, rfl, carriedLength_bounds _ _⟩
      · rw [List.length_drop, hleft]
        omega
      · simp only
        omega
      · rw [hafter, bytesAt_drop, Nat.sub_sub, ← Nat.add_assoc (it.next + e + 1)]

end GoesOn

/-- Where the walk has ended it stays, and every length fits. -/
theorem lengthFits_of_end {it : ConstIterator} (hend : last ≤ it.next) (n : Nat) :
    LengthFits memory last ((ConstIterator.increment isDataLengthTag memory last)^[n] it).next
      ((ConstIterator.increment isDataLengthTag memory last)^[n] it).pendingDataLength := by
  induction n generalizing it with
  | zero =>
    intro equals h
    have := findChar_spec h
    rw [Function.iterate_zero_apply] at this
    omega
  | succ n ih =>
    rw [Function.iterate_succ_apply]
    refine ih ?_
    rw [ConstIterator.increment, parse, if_pos hend]

/-- **The lengths fit exactly if the bytes are cut into fields.** -/
theorem GoesOn.fits_iff {it : ConstIterator} {rest : Bytes} {length : Int} {fuel : Nat}
    (h : GoesOn memory last it rest length) (hfuel : rest.length ≤ fuel) :
    (∀ n, LengthFits memory last ((ConstIterator.increment isDataLengthTag memory last)^[n] it).next
      ((ConstIterator.increment isDataLengthTag memory last)^[n] it).pendingDataLength) ↔
      (cutFields isDataLengthTag fuel rest length).isSome := by
  induction fuel generalizing it rest length with
  | zero =>
    have hlen := congrArg List.length h.rest
    rw [length_bytesAt] at hlen
    exact ⟨fun _ => rfl, fun _ => lengthFits_of_end (by omega)⟩
  | succ fuel ih =>
    rw [← Nat.and_forall_add_one, Function.iterate_zero_apply, h.lengthFits_iff, cutFields]
    by_cases hsign : length < 0 ∧ 61 ∈ rest
    · rw [if_pos hsign]
      exact ⟨fun hfits => absurd hsign hfits.1, nofun⟩
    rw [if_neg hsign]
    obtain ⟨hnone, hsome⟩ := h.parse hsign (rfl : it.increment isDataLengthTag memory last = _)
    cases hcut : cutField rest length with
    | none =>
      have hend := parse_bounds.2 (hnone hcut)
      exact ⟨fun _ => rfl, fun _ => ⟨hsign, fun n => by
        rw [Function.iterate_succ_apply]; exact lengthFits_of_end hend.ge n⟩⟩
    | some cut =>
      obtain ⟨-, -, hshorter, hgoes⟩ := hsome cut.1 cut.2 hcut
      simp only [Option.isSome_map, ← ih hgoes (by omega), Function.iterate_succ_apply]
      exact and_iff_right hsign

/-- **A framed message is walked to its end** exactly if no length taken for a value passes the end
of the address space, wherever in memory the window is: then the walk from `begin()` is at `end()`
after finitely many fields, and each of them lies inside the message, with its value, and before the
next. Of a message that is not within 2 GiB of an end of the address space that is true exactly if
its bytes are cut into fields. -/
theorem walk_reaches_end_iff {size : Nat} (hsize : first + size < addresses)
    (hframed : (frame (bytesAt memory first size)).status = .valid ∨
      (frame (bytesAt memory first size)).status = .checksumError)
    (hlast : last = first + (frame (bytesAt memory first size)).messageSize)
    {w : Nat → ConstIterator} (hw : w = walk isDataLengthTag memory last first) :
    (ReachesEnd last first w ↔ ∀ n, LengthFits memory last (w n).next (w n).pendingDataLength) ∧
    (2147483648 ≤ first → last + 2147483648 ≤ addresses → (ReachesEnd last first w ↔
      (cutFields isDataLengthTag size (bytesAt memory first (last - first)) 0).isSome)) := by
  have hinside : last ≤ first + size := by
    have hwhole : (frame (bytesAt memory first size)).status ≠ .incomplete := by
      rcases hframed with h | h <;> rw [h] <;> decide
    have hframe := (frame_append [] hwhole).2.1
    rw [length_bytesAt] at hframe
    omega
  have hbound : last < addresses := by omega
  have hstep : ∀ n, w (n + 1) = parse isDataLengthTag memory last (w n).next (w n).pendingDataLength := by
    intro n
    rw [hw, walk, Function.iterate_succ_apply']
    rfl
  have hfirst : w 0 = parse isDataLengthTag memory last first 0 := by
    rw [hw]
    rfl
  suffices hiff : ReachesEnd last first w ↔
      ∀ n, LengthFits memory last (w n).next (w n).pendingDataLength by
    refine ⟨hiff, fun hlow hhigh => ?_⟩
    have hstart : GoesOn memory last ⟨first, first, 0, 0, 0, 0⟩ (bytesAt memory first (last - first)) 0 :=
      ⟨hlow, hhigh, rfl, rfl, by decide⟩
    rw [hiff, ← hstart.fits_iff (by rw [length_bytesAt]; omega), hw]
    refine Iff.trans ?_ Nat.and_forall_add_one
    exact (and_iff_right (hstart.lengthFits_iff.mpr (by omega))).symm
  constructor
  · rintro ⟨n, hend, hfields⟩ k
    have hbounds : ∀ m, (w m).pendingDataLength < addresses ∧
      ((w m).fieldStart = last → (w m).next = last) := by
      intro m
      cases m with
      | zero => exact hfirst ▸ parse_bounds
      | succ m => exact hstep m ▸ parse_bounds
    have hstays : ∀ m, n ≤ m → (w m).fieldStart = last := by
      intro m hm
      induction m, hm using Nat.le_induction with
      | base => exact hend
      | succ m _ ih => rw [hstep, (hbounds m).2 ih, parse, if_pos le_rfl]
    -- where a length does not fit, the value ends before it begins, short of the end
    by_contra hpasses
    obtain ⟨hbefore, hvalue⟩ :=
      hstep k ▸ parse_of_not_lengthFits isDataLengthTag hbound (hbounds k).1 hpasses
    rcases Nat.lt_or_ge (k + 1) n with hlt | hge
    · exact absurd (hfields (k + 1) hlt).2.2.1 (not_lt.mpr hvalue)
    · exact absurd (hstays (k + 1) hge) hbefore.ne
  · intro hfits
    refine places_reach_end (hfirst ▸ parse_spec hbound fun equals h => ?_) fun n => ?_
    · have := (findChar_spec h).2
      omega
    · rw [hstep]
      exact parse_spec hbound (hfits n)

/-- What holds until the iterates come back to where they were holds for ever. -/
theorem iterate_all {α : Type} (p : α → Prop) (j k : Nat) {f : α → α} {a : α} (hp : ∀ i < k, p (f^[i] a))
    (hj : j < k) (hback : f^[k] a = f^[j] a) (n : Nat) : p (f^[n] a) := by
  suffices ∃ i < k, f^[n] a = f^[i] a by
    obtain ⟨i, hi, hn⟩ := this
    exact hn ▸ hp i hi
  induction n with
  | zero => exact ⟨0, by omega, rfl⟩
  | succ n ih =>
    obtain ⟨i, hi, hn⟩ := ih
    rw [Function.iterate_succ_apply', hn, ← Function.iterate_succ_apply' f]
    rcases Nat.lt_or_eq_of_le (Nat.succ_le_of_lt hi) with hlt | rfl
    · exact ⟨i + 1, hlt, rfl⟩
    · exact ⟨j, hj, hback⟩

/-- A message at address 2^32 that starts `8=F 9=12`, with a byte 1 after each field. -/
def messageAt (fields : Bytes) (address : Nat) : UInt8 :=
  ([56, 61, 70, 1, 57, 61, 49, 50, 1] ++ fields).getD (address - 4294967296) 0

/-- The fields `95=3 96=a.b 10=230`, where the dot is a byte 1. -/
def dataOfThree : Nat → UInt8 :=
  messageAt [57, 53, 61, 51, 1, 57, 54, 61, 97, 1, 98, 1, 49, 48, 61, 50, 51, 48, 1]

/-- A DATA field with a byte 1 in it. -/
theorem walk_reaches_end_data : (frame (bytesAt dataOfThree 4294967296 28)).status = .valid ∧
    ReachesEnd 4294967324 4294967296 (walk (· == 95) dataOfThree 4294967324 4294967296) := by
  have hframe : (frame (bytesAt dataOfThree 4294967296 28)).status = .valid := by decide +kernel
  refine ⟨hframe, ((walk_reaches_end_iff (by decide) (.inl hframe) (by decide +kernel) rfl).2
    (by decide) (by decide)).mpr ?_⟩
  decide +kernel

/-- The fields `95=-11 96=x 10=246`. -/
def negativeLength : Nat → UInt8 :=
  messageAt [57, 53, 61, 45, 49, 49, 1, 57, 54, 61, 120, 1, 49, 48, 61, 50, 52, 54, 1]

/-- **A walk that does not end**: the length -11 takes the walk from the DATA field back to the
LENGTH field. -/
theorem walk_for_ever : (frame (bytesAt negativeLength 4294967296 28)).status = .valid ∧
    ∀ n, (walk (· == 95) negativeLength 4294967324 4294967296 n).fieldStart ≠ 4294967324 :=
  ⟨by decide +kernel, iterate_all (fun it : ConstIterator => it.fieldStart ≠ 4294967324) 2 4 (by decide +kernel)
    (by decide) (by decide +kernel)⟩

end FixMessageReader

end PubsubVenue
