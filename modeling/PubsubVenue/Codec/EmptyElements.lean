import PubsubVenue.Codec.DecodingCost
import Mathlib.Tactic.IntervalCases

/-! # Elements that take no byte

Where the elements of a list may take no byte, bytes can be made that reach the list and end with
its count. From there on every element is found, with nothing in it, until the count is reached.

* **`reach_runs`**: on those bytes decoding takes as many steps as the list claims elements.
* **`cost_bounded_iff`**: the steps of decoding and skipping are bounded by a constant times the
  bytes, whatever the counts claim, exactly where every element of a list takes a byte. -/

namespace PubsubVenue

open Decoder

/-! ## At the end of the buffer -/

section AtEnd

variable (claimed : Bytes → Nat) (host : Host)

mutual

/-- What need not take a byte is found at the end of the buffer, and leaves the arena as it is. -/
theorem decodeType_atEnd : (type : WireType) → type.takesAByte = false → (steps : Nat) → (s : Arena) →
    ∃ v steps', decodeType claimed host type ⟨[], steps, s⟩ = (some v, ⟨[], steps', s⟩)
  | .primitive _, h, _, _ | .string, h, _, _ | .bytes, h, _, _ | .primitiveList _, h, _, _
  | .list _, h, _, _ | .enum _, h, _, _ => by cases h
  | .array p 0, _, steps, s => ⟨_, steps, rfl⟩
  | .array p (n + 1), h, _, _ => by simp [WireType.takesAByte] at h
  | .message fields, h, steps, s => by
    obtain ⟨vs, steps', hfields⟩ := decodeFields_atEnd fields h steps (s.setExhausted false)
    refine ⟨vs, steps', ?_⟩
    rw [decodeType, look_bind, change_bind, bind_of_some hfields, look_bind, change_bind]
    show (if fields.requiresArena && false then fail else pure vs : Decoder Arena _) _ = _
    rw [Bool.and_false, if_neg (by decide)]
    rfl

/-- Fields that need not take a byte are found at the end of the buffer. -/
theorem decodeFields_atEnd : (fields : WireFields) → fields.takeAByte = false → (steps : Nat) →
    (s : Arena) → ∃ vs steps', decodeFields claimed host fields ⟨[], steps, s⟩ = (some vs, ⟨[], steps', s⟩)
  | .nil, _, steps, _ => ⟨(), steps, rfl⟩
  | .cons true type rest, h, steps, s => by
    obtain ⟨vs, steps', hrest⟩ := decodeFields_atEnd rest h (steps + 1) s
    exact ⟨(none, vs), steps', bind_of_some (f := fun vs => pure (none, vs)) hrest⟩
  | .cons false type rest, h, steps, s => by
    have h : (type.takesAByte || rest.takeAByte) = false := h
    rw [Bool.or_eq_false_iff] at h
    obtain ⟨v, steps₁, hv⟩ := decodeType_atEnd type h.1 (steps + 1) s
    obtain ⟨vs, steps₂, hvs⟩ := decodeFields_atEnd rest h.2 steps₁ s
    refine ⟨(v, vs), steps₂, ?_⟩
    rw [decodeFields, tick_bind, bind_of_some hv, bind_of_some hvs, pure_apply]

end

/-- A loop over what need not take a byte runs to its count. -/
theorem decodeLoop_runs {element : WireType} (h : element.takesAByte = false) (n : Nat) :
    Runs (times (do tick; decodeType claimed host element) n) [] n := by
  refine Runs.times (fun steps s => ?_) n
  obtain ⟨v, steps', hv⟩ := decodeType_atEnd claimed host element h (steps + 1) s
  have hle := ((decodeType_takes claimed host element).advances ⟨[], steps + 1, s⟩).2
  simp only [hv] at hle
  exact ⟨v, steps', s, hv, hle⟩

mutual

/-- What need not take a byte is skipped at the end of the buffer. -/
theorem skipType_atEnd : (type : WireType) → type.takesAByte = false → (steps : Nat) →
    ∃ steps', skipType claimed type ⟨[], steps, ()⟩ = (some (), ⟨[], steps', ()⟩)
  | .primitive _, h, _ | .string, h, _ | .bytes, h, _ | .primitiveList _, h, _
  | .list _, h, _ | .enum _, h, _ => by cases h
  | .array p 0, _, steps => ⟨steps, by rw [skipType, Nat.zero_mul]; rfl⟩
  | .array p (n + 1), h, _ => by simp [WireType.takesAByte] at h
  | .message fields, h, steps => skipFields_atEnd fields h steps

/-- Fields that need not take a byte are skipped at the end of the buffer. -/
theorem skipFields_atEnd : (fields : WireFields) → fields.takeAByte = false → (steps : Nat) →
    ∃ steps', skipFields claimed fields ⟨[], steps, ()⟩ = (some (), ⟨[], steps', ()⟩)
  | .nil, _, steps => ⟨steps, rfl⟩
  | .cons true type rest, h, steps => skipFields_atEnd rest h (steps + 1)
  | .cons false type rest, h, steps => by
    have h : (type.takesAByte || rest.takeAByte) = false := h
    rw [Bool.or_eq_false_iff] at h
    obtain ⟨steps₁, htype⟩ := skipType_atEnd type h.1 (steps + 1)
    obtain ⟨steps₂, hrest⟩ := skipFields_atEnd rest h.2 steps₁
    refine ⟨steps₂, ?_⟩
    rw [skipFields, tick_bind, bind_of_some htype, hrest]

end

theorem skipLoop_runs {element : WireType} (h : element.takesAByte = false) (n : Nat) :
    Runs (times (do tick; skipType claimed element) n) [] n := by
  refine Runs.times (fun steps s => ?_) n
  obtain ⟨steps', hskip⟩ := skipType_atEnd claimed element h (steps + 1)
  have hle := ((skipType_takes claimed element).advances ⟨[], steps + 1, ()⟩).2
  simp only [hskip] at hle
  exact ⟨(), steps', (), hskip, hle⟩

end AtEnd

/-! ## Reaching a list -/

mutual

/-- A value with nothing in it: zeros, empty strings and lists, and no optional field. -/
def emptyValue : (type : WireType) → Value type
  | .primitive p => p.read []
  | .string | .bytes | .primitiveList _ | .list _ => []
  | .array p n => List.Vector.replicate n (p.read [])
  | .enum _ => BitVec.ofNat _ 0
  | .message fields => emptyValues fields

/-- A message with nothing in it. -/
def emptyValues : (fields : WireFields) → Values fields
  | .nil => ()
  | .cons true _ rest => (none, emptyValues rest)
  | .cons false type rest => (emptyValue type, emptyValues rest)

end

mutual

theorem fits_emptyValue {limit : Nat} (h : 0 < limit) : (type : WireType) → Fits limit type (emptyValue type)
  | .primitive _ | .array _ _ | .enum _ => trivial
  | .string | .bytes | .primitiveList _ => h
  | .list _ => ⟨h, fun _ hv => absurd hv List.not_mem_nil⟩
  | .message fields => fieldsFit_emptyValues h fields

theorem fieldsFit_emptyValues {limit : Nat} (h : 0 < limit) : (fields : WireFields) →
    FieldsFit limit fields (emptyValues fields)
  | .nil => trivial
  | .cons true _ rest => fieldsFit_emptyValues h rest
  | .cons false type rest => ⟨fits_emptyValue h type, fieldsFit_emptyValues h rest⟩

end

mutual

/-- A value with nothing in it takes nothing of the arena. -/
theorem arenaRoom_emptyValue (host : Host) : (type : WireType) → arenaRoom host type (emptyValue type) = 0
  | .primitive _ | .string | .bytes | .array _ _ | .enum _ | .list _ => rfl
  | .primitiveList p => by simp [arenaRoom, emptyValue]
  | .message fields => fieldsRoom_emptyValues host fields

theorem fieldsRoom_emptyValues (host : Host) :
    (fields : WireFields) → fieldsRoom host fields (emptyValues fields) = 0
  | .nil => rfl
  | .cons true _ rest => fieldsRoom_emptyValues host rest
  | .cons false type rest => by
    rw [emptyValues, fieldsRoom, arenaRoom_emptyValue host type, fieldsRoom_emptyValues host rest]

end

/-- The largest count that four bytes can hold. -/
def largestCount : Bytes := [255, 255, 255, 255]

mutual

/-- Bytes that reach a list whose elements need not take a byte, and end with its count. -/
def reach : WireType → Bytes
  | .list element => if element.takesAByte then leBytes 4 1 ++ reach element else largestCount
  | .message fields => reachFields fields
  | .primitive _ | .string | .bytes | .array _ _ | .primitiveList _ | .enum _ => []

/-- Bytes that reach such a list in one of the fields. The fields before it have nothing in them. -/
def reachFields : WireFields → Bytes
  | .nil => []
  | .cons true type rest => if type.elementsTakeAByte then [0] ++ reachFields rest else [1] ++ reach type
  | .cons false type rest =>
    if type.elementsTakeAByte then wire type (emptyValue type) ++ reachFields rest else reach type

end

/-- Counts as the code reads them, but for the largest, which claims `n` elements. -/
def claiming (n : Nat) (header : Bytes) : Nat := if header = largestCount then n else leNat header

theorem readsCounts_claiming (n : Nat) : ReadsCounts (claiming n) 2 := by
  refine ⟨fun k hk => ?_, by decide⟩
  interval_cases k <;> rfl

section Reach

variable (host : Host) (n : Nat)

/-- A field with nothing in it is decoded from its bytes, with nothing of the arena. -/
theorem decodeType_emptyValue (type : WireType) :
    Yields arenaSupply (decodeType (claiming n) host type) (wire type (emptyValue type))
      (emptyValue type) 0 := by
  have h := decodeType_yields host (readsCounts_claiming n) type (emptyValue type)
    (fits_emptyValue (by decide) type)
  rwa [arenaRoom_emptyValue] at h

theorem ready_zero (s : Arena) : arenaSupply.ready 0 s := fun h => absurd h (Nat.lt_irrefl 0)

mutual

/-- **On the bytes that reach a list whose elements need not take a byte, decoding takes as many
steps as the list claims elements.** -/
theorem reach_runs : (type : WireType) → type.elementsTakeAByte = false →
    Runs (decodeType (claiming n) host type) (reach type) n
  | .primitive _, h | .string, h | .bytes, h | .array _ _, h | .primitiveList _, h | .enum _, h => by cases h
  | .list element, h => by
    rw [WireType.elementsTakeAByte] at h
    rw [decodeType, reach]
    by_cases hbyte : element.takesAByte = true
    · rw [if_pos hbyte]
      rw [hbyte, Bool.true_and] at h
      have hclaimed : claiming n (leBytes 4 1) = 1 := (readsCounts_claiming n).claimed_leBytes 1 (by decide)
      refine Runs.bind_right ready_zero (take_leBytes_yields 4 1) (Advances.take 4) (Runs.change ?_)
      rw [hclaimed, if_pos (by decide)]
      refine Runs.change ?_
      rw [times_succ]
      refine Runs.bind_left ?_ fun _ => Advances.pure _
      exact (reach_runs element h).ticked
    · rw [if_neg hbyte, ← List.append_nil largestCount]
      have htake : Yields arenaSupply (take 4) largestCount largestCount 0 := Yields.take largestCount
      have hclaimed : claiming n largestCount = n := if_pos rfl
      refine Runs.bind_right ready_zero htake (Advances.take 4) (Runs.change ?_)
      rw [hclaimed]
      split
      · exact Runs.change (decodeLoop_runs _ host (Bool.eq_false_iff.mpr hbyte) n)
      · rename_i hzero
        obtain rfl : n = 0 := by omega
        exact fun _ _ => le_rfl
  | .message fields, h => by
    refine Runs.look fun outer => Runs.change (Runs.bind_left (reachFields_runs fields h) fun vs => ?_)
    refine (Advances.look _).bind fun exhausted => (Advances.change _).bind fun _ => ?_
    split
    · exact Advances.fail
    · exact Advances.pure _

/-- On the bytes that reach such a list in one of the fields, decoding takes as many steps. -/
theorem reachFields_runs : (fields : WireFields) → fields.elementsTakeAByte = false →
    Runs (decodeFields (claiming n) host fields) (reachFields fields) n
  | .cons true type rest, h => by
    rw [WireFields.elementsTakeAByte] at h
    rw [decodeFields, reachFields]
    have hrest := (decodeFields_takes (claiming n) host rest).advances
    refine Runs.ticked ?_
    by_cases htype : type.elementsTakeAByte = true
    · rw [htype, Bool.true_and] at h
      rw [if_pos htype]
      refine Runs.unlessAtEnd (by simp) (Runs.bind_right ready_zero (Yields.take [0]) (Advances.take 1) ?_)
      exact (reachFields_runs rest h).bind_left fun _ => Advances.pure _
    · rw [if_neg htype]
      refine Runs.unlessAtEnd (by simp) (Runs.bind_right ready_zero (Yields.take [1]) (Advances.take 1) ?_)
      exact (reach_runs type (Bool.eq_false_iff.mpr htype)).bind_left fun _ =>
        hrest.bind fun _ => Advances.pure _
  | .cons false type rest, h => by
    rw [WireFields.elementsTakeAByte] at h
    rw [decodeFields, reachFields]
    refine Runs.ticked ?_
    by_cases htype : type.elementsTakeAByte = true
    · rw [htype, Bool.true_and] at h
      rw [if_pos htype]
      refine Runs.bind_right ready_zero (decodeType_emptyValue host n type)
        (decodeType_takes (claiming n) host type).advances ?_
      exact (reachFields_runs rest h).bind_left fun _ => Advances.pure _
    · rw [if_neg htype]
      exact (reach_runs type (Bool.eq_false_iff.mpr htype)).bind_left fun _ =>
        (decodeFields_takes (claiming n) host rest).advances.bind fun _ => Advances.pure _

end

end Reach

/-! ## The bound holds exactly where every element takes a byte -/

/-- **Decoding and skipping cost no more than the bytes received, whatever list counts the buffer claims and
however small the arena, exactly where every element of a list takes at least a byte.** -/
theorem cost_bounded_iff (host : Host) (fields : WireFields) :
    (∃ constant, ∀ (claimed : Bytes → Nat) (bytes : Bytes) (allocator : BumpAllocator),
      decodeSteps claimed host fields bytes allocator ≤ constant * (bytes.length + 1) ∧
        skipSteps claimed fields bytes ≤ constant * (bytes.length + 1)) ↔
      fields.elementsTakeAByte = true := by
  constructor
  · rintro ⟨constant, hbound⟩
    by_contra hfields
    -- The bytes that reach the list are fixed by the definition; its count is then chosen too
    -- large.
    let bytes := reach (.message fields)
    let count := constant * (bytes.length + 1) + 1
    have hrun : 0 + count ≤ decodeSteps (claiming count) host fields bytes ⟨false, 0, 0⟩ :=
      reach_runs host count (.message fields) (Bool.eq_false_iff.mpr hfields) 0 { allocator := ⟨false, 0, 0⟩ }
    have hsteps := (hbound (claiming count) bytes ⟨false, 0, 0⟩).1
    rw [Nat.zero_add] at hrun
    exact absurd (le_trans hrun hsteps) (Nat.not_succ_le_self _)
  · intro hfields
    refine ⟨fields.weight, fun claimed bytes allocator => ⟨?_, ?_⟩⟩
    · exact (decodeType_costs claimed host (.message fields) hfields).steps_le bytes { allocator }
    · exact (skipType_costs claimed (.message fields) hfields).steps_le bytes ()

/-! ## Four bytes -/

/-- What an order says of one of the instruments under it: three strings, each optional. -/
def underlyingFields : WireFields := .cons true .string (.cons true .string (.cons true .string .nil))

/-- An order, as far as it lists the instruments under it. -/
def underlyingsFields : WireFields := .cons false (.list (.message underlyingFields)) .nil

/-- The definitions of the two. -/
def underlyingsFile : DslFile :=
  [.message "Underlyings" [⟨"underlying_symbol", .string, true⟩, ⟨"underlying_security_id", .string, true⟩,
     ⟨"underlying_qty", .string, true⟩],
   .message "NewOrderSingle" [⟨"no_underlyings", .list (.reference "Underlyings"), false⟩]]

theorem claiming_largest : claiming 4294967295 = leNat := by
  funext header
  unfold claiming
  split
  · rename_i h
    rw [h]
    rfl
  · rfl

/-- Skipping a list whose elements need not take a byte runs to the count. -/
theorem skipList_runs {element : WireType} (h : element.takesAByte = false) (n : Nat) :
    Runs (skipType (claiming n) (.list element)) largestCount n := by
  have htake : Yields (Supply.still Unit) (take 4) largestCount largestCount 0 := Yields.take largestCount
  have hclaimed : claiming n largestCount = n := if_pos rfl
  rw [skipType, ← List.append_nil largestCount]
  refine Runs.bind_right (fun _ => trivial) htake (Advances.take 4) ?_
  rw [hclaimed]
  exact (skipLoop_runs (claiming n) h n).bind_left fun _ => Advances.pure _

/-- Decoding and skipping four bytes that claim `n` instruments. -/
theorem underlyings_run (allocator : BumpAllocator) (n : Nat) :
    n ≤ decodeSteps (claiming n) plainHost underlyingsFields largestCount allocator ∧
      n ≤ skipSteps (claiming n) underlyingsFields largestCount := by
  have hdecode := reach_runs plainHost n (.message underlyingsFields) rfl 0 { allocator }
  have hskip : Runs (skipType (claiming n) (.message underlyingsFields)) largestCount n :=
    ((skipList_runs rfl n).bind_left fun _ => (skipFields_takes (claiming n) .nil).advances).ticked
  have hskip := hskip 0 ()
  rw [Nat.zero_add] at hdecode hskip
  exact ⟨hdecode, hskip⟩

/-- **Four bytes that claim as many elements as they can make decoding and skipping take more than
four thousand million steps**, against the forty-five that the definition would allow. -/
theorem four_bytes_cost :
    emit underlyingsFile = some [("Underlyings", underlyingFields), ("NewOrderSingle", underlyingsFields)] ∧
      underlyingsFields.weight * (largestCount.length + 1) = 45 ∧
      4294967295 ≤ decodeSteps leNat plainHost underlyingsFields largestCount ⟨true, 65536, 0⟩ ∧
      4294967295 ≤ skipSteps leNat underlyingsFields largestCount := by
  refine ⟨rfl, rfl, ?_⟩
  rw [← claiming_largest]
  exact underlyings_run ⟨true, 65536, 0⟩ 4294967295

end PubsubVenue
