import PubsubVenue.Codec.RoundTrip

/-! # What decoding costs

The loop over a list runs to the count that the bytes claim. An element may take no byte: a message
without fields, or one whose fields are all optional when the buffer has ended. Then nothing stops
the loop before its count.

* **`decodeType_costs`**, **`skipType_costs`**: where every element of a list takes a byte, decoding
  and skipping take no more steps than a constant of the definition times the bytes and one more,
  whatever the counts claim and whatever the arena holds.
* **`reach_runs`**: where some element takes no byte, there are bytes that reach its list, and on
  which decoding takes as many steps as the list claims elements. -/

namespace PubsubVenue

open Decoder WireFields

mutual

/-- A value of the type takes at least a byte, whatever is left of the buffer. -/
def WireType.takesAByte : WireType → Bool
  | .primitive _ | .string | .bytes | .primitiveList _ | .list _ | .enum _ => true
  | .array _ n => decide (0 < n)
  | .message fields => fields.takeAByte

/-- The fields take at least a byte: one of them is not optional, and takes one. -/
def WireFields.takeAByte : WireFields → Bool
  | .nil => false
  | .cons optional type rest => (!optional && type.takesAByte) || rest.takeAByte

end

mutual

/-- Every element of a list within the type takes at least a byte. -/
def WireType.elementsTakeAByte : WireType → Bool
  | .primitive _ | .string | .bytes | .primitiveList _ | .array _ _ | .enum _ => true
  | .list element => element.takesAByte && element.elementsTakeAByte
  | .message fields => fields.elementsTakeAByte

/-- Every element of a list within the fields takes at least a byte. -/
def WireFields.elementsTakeAByte : WireFields → Bool
  | .nil => true
  | .cons _ type rest => type.elementsTakeAByte && rest.elementsTakeAByte

end

mutual

/-- What reading a field may cost for each byte that it takes, and once more. -/
def WireType.weight : WireType → Nat
  | .primitive _ | .string | .bytes | .enum _ => 0
  | .array _ _ | .primitiveList _ => 2
  | .list element => 2 * (1 + element.weight)
  | .message fields => fields.weight

/-- What reading the fields of a message may cost for each byte that they take, and once more. -/
def WireFields.weight : WireFields → Nat
  | .nil => 0
  | .cons _ type rest => 1 + (type.weight + rest.weight)

end

/-! ## A bound -/

section Bound

variable {σ : Type} (claimed : Bytes → Nat) (host : Host) (p : PrimitiveType)

theorem decodePrimitive_takes : Takes (decodePrimitive p : Decoder σ p.Value) true :=
  (Takes.take p.wireSize_pos).bind_left fun _ => Advances.pure _

theorem decodeCounted_takes : Takes (decodeCounted : Decoder σ Bytes) true :=
  (Takes.take (by decide)).bind_left fun _ => Advances.take _

mutual

/-- A field that takes a byte takes one when it is decoded. -/
theorem decodeType_takes : (type : WireType) → Takes (decodeType claimed host type) type.takesAByte
  | .primitive p => decodePrimitive_takes p
  | .string | .bytes => decodeCounted_takes
  | .array p n => (Takes.bind_right Advances.tick fun _ => decodePrimitive_takes p).vector n
  | .primitiveList p => by
    refine (Takes.take (by decide)).bind_left fun header => ?_
    split
    · split
      · exact (Advances.take _).bind fun _ => Advances.pure _
      · exact (Advances.change _).bind fun _ => (Advances.change _).bind fun _ =>
          (Advances.tick.bind fun _ => (decodePrimitive_takes p).advances).times _
    · exact Advances.pure _
  | .list element => by
    refine (Takes.take (by decide)).bind_left fun header => (Advances.change _).bind fun _ => ?_
    split
    · exact (Advances.change _).bind fun _ =>
        (Advances.tick.bind fun _ => (decodeType_takes element).advances).times _
    · exact Advances.pure _
  | .enum u => (Takes.take u.wireSize_pos).bind_left fun _ => Advances.pure _
  | .message fields => by
    refine Takes.bind_right (Advances.look _) fun outer => Takes.bind_right (Advances.change _) fun _ =>
      (decodeFields_takes fields).bind_left fun vs => (Advances.look _).bind fun exhausted =>
      (Advances.change _).bind fun _ => ?_
    split
    · exact Advances.fail
    · exact Advances.pure _

/-- Fields of which one takes a byte take one when they are decoded. -/
theorem decodeFields_takes : (fields : WireFields) → Takes (decodeFields claimed host fields) fields.takeAByte
  | .nil => ⟨Advances.pure _, fun h => by cases h⟩
  | .cons true type rest => by
    have hrest := decodeFields_takes rest
    refine Takes.bind_right Advances.tick fun _ => Takes.bind_right Advances.atEnd fun ended => ?_
    split
    · exact hrest.bind_left fun _ => Advances.pure _
    · refine ((Takes.take (by decide)).bind_left fun flag => ?_).weaken
      split
      · exact hrest.advances.bind fun _ => Advances.pure _
      · exact (decodeType_takes type).advances.bind fun _ => hrest.advances.bind fun _ => Advances.pure _
  | .cons false type rest => Takes.bind_right Advances.tick fun _ => (decodeType_takes type).bind fun _ =>
    (decodeFields_takes rest).bind_left fun _ => Advances.pure _

end

theorem decodePrimitive_costs : Costs (decodePrimitive p : Decoder σ p.Value) 0 :=
  (Costs.take _).bind fun _ => Costs.pure _

theorem decodeCounted_costs : Costs (decodeCounted : Decoder σ Bytes) 0 :=
  (Costs.take _).bind fun _ => Costs.take _

/-- One turn of a loop over primitives. -/
theorem primitive_turn : Costs (do tick; decodePrimitive p : Decoder σ p.Value) 1 ∧
      Consumes (do tick; decodePrimitive p : Decoder σ p.Value) :=
  ⟨Costs.tick.bind fun _ => decodePrimitive_costs p,
    Consumes.bind_right Advances.tick fun _ => (decodePrimitive_takes p).consumes rfl⟩

mutual

/-- **Decoding a field costs its weight for each byte it takes, and once more.** -/
theorem decodeType_costs : (type : WireType) → type.elementsTakeAByte = true →
    Costs (decodeType claimed host type) type.weight
  | .primitive p, _ => decodePrimitive_costs p
  | .string, _ | .bytes, _ => decodeCounted_costs
  | .array p n, _ => (primitive_turn p).1.vector (primitive_turn p).2 n
  | .primitiveList p, _ => by
    refine (Costs.take 4).bind (l := 2) fun header => ?_
    split
    · split
      · exact ((Costs.take _).bind fun _ => Costs.pure _).mono (Nat.zero_le _)
      · exact (Costs.change _).bind fun _ => (Costs.change _).bind fun _ =>
          (primitive_turn p).1.times (primitive_turn p).2 _
    · exact (Costs.pure _).mono (Nat.zero_le _)
  | .list element, h => by
    rw [WireType.elementsTakeAByte, Bool.and_eq_true] at h
    have hturn : Costs (do tick; decodeType claimed host element) (1 + element.weight) :=
      Costs.tick.bind fun _ => decodeType_costs element h.2
    have hbyte : Consumes (do tick; decodeType claimed host element) :=
      Consumes.bind_right Advances.tick fun _ => (decodeType_takes claimed host element).consumes h.1
    have hloop : Costs (decodeType claimed host (.list element)) (0 + (0 + 2 * (1 + element.weight))) := by
      refine (Costs.take 4).bind fun header => (Costs.change _).bind fun _ => ?_
      split
      · exact ((Costs.change _).bind fun _ => hturn.times hbyte _).mono (by omega)
      · exact (Costs.pure _).mono (Nat.zero_le _)
    exact hloop.mono (by rw [WireType.weight]; omega)
  | .enum u, _ => (Costs.take _).bind fun _ => Costs.pure _
  | .message fields, h => by
    have hfields := decodeFields_costs fields h
    have hmessage : Costs (decodeType claimed host (.message fields))
      (0 + (0 + (fields.weight + (0 + (0 + 0))))) := by
      refine (Costs.look _).bind fun outer => (Costs.change _).bind fun _ => hfields.bind fun vs =>
        (Costs.look _).bind fun exhausted => (Costs.change _).bind fun _ => ?_
      split
      · exact Costs.fail
      · exact Costs.pure _
    exact hmessage.mono (by rw [WireType.weight]; omega)

/-- Decoding the fields of a message costs their weight for each byte they take, and once more. -/
theorem decodeFields_costs : (fields : WireFields) → fields.elementsTakeAByte = true →
    Costs (decodeFields claimed host fields) fields.weight
  | .nil, _ => Costs.pure _
  | .cons true type rest, h => by
    rw [elementsTakeAByte, Bool.and_eq_true] at h
    have htype := decodeType_costs type h.1
    have hrest : Costs (decodeFields claimed host rest) rest.weight := decodeFields_costs rest h.2
    have hfield : Costs (decodeFields claimed host (.cons true type rest))
        (1 + (0 + (0 + (type.weight + rest.weight)))) := by
      refine Costs.tick.bind fun _ => Costs.atEnd.bind fun ended => ?_
      split
      · exact (hrest.bind fun _ => Costs.pure _).mono (by omega)
      · refine (Costs.take 1).bind fun flag => ?_
        split
        · exact (hrest.bind fun _ => Costs.pure _).mono (by omega)
        · exact htype.bind fun _ => hrest.bind fun _ => Costs.pure _
    exact hfield.mono (by rw [weight]; omega)
  | .cons false type rest, h => by
    rw [elementsTakeAByte, Bool.and_eq_true] at h
    exact Costs.tick.bind fun _ => (decodeType_costs type h.1).bind fun _ =>
      (decodeFields_costs rest h.2).bind fun _ => Costs.pure _

end

mutual

/-- A field that takes a byte takes one when it is skipped. -/
theorem skipType_takes : (type : WireType) → Takes (skipType claimed type) type.takesAByte
  | .primitive p => (Takes.take p.wireSize_pos).bind_left fun _ => Advances.pure _
  | .string | .bytes => decodeCounted_takes.bind_left fun _ => Advances.pure _
  | .array p n => ⟨(Advances.take _).bind fun _ => Advances.pure _, fun hn =>
    (Consumes.take (Nat.mul_pos (of_decide_eq_true hn) p.wireSize_pos)).bind_left fun _ => Advances.pure _⟩
  | .primitiveList _ => (Takes.take (by decide)).bind_left fun _ =>
    (Advances.take _).bind fun _ => Advances.pure _
  | .list element => (Takes.take (by decide)).bind_left fun _ =>
    ((Advances.tick.bind fun _ => (skipType_takes element).advances).times _).bind fun _ => Advances.pure _
  | .enum u => (Takes.take u.wireSize_pos).bind_left fun _ => Advances.pure _
  | .message fields => skipFields_takes fields

/-- Fields of which one takes a byte take one when they are skipped. -/
theorem skipFields_takes : (fields : WireFields) → Takes (skipFields claimed fields) fields.takeAByte
  | .nil => ⟨Advances.pure _, fun h => by cases h⟩
  | .cons true type rest => by
    have hrest := skipFields_takes rest
    refine Takes.bind_right Advances.tick fun _ => Takes.bind_right Advances.atEnd fun ended => ?_
    split
    · exact hrest
    · refine ((Takes.take (by decide)).bind_left fun flag => ?_).weaken
      split
      · exact hrest.advances
      · exact (skipType_takes type).advances.bind fun _ => hrest.advances
  | .cons false type rest => Takes.bind_right Advances.tick fun _ => (skipType_takes type).bind fun _ =>
    skipFields_takes rest

end

mutual

/-- **Skipping a field costs its weight for each byte it takes, and once more.** -/
theorem skipType_costs : (type : WireType) → type.elementsTakeAByte = true →
    Costs (skipType claimed type) type.weight
  | .primitive _, _ | .enum _, _ => (Costs.take _).bind fun _ => Costs.pure _
  | .string, _ | .bytes, _ => decodeCounted_costs.bind fun _ => Costs.pure _
  | .array _ _, _ => ((Costs.take _).bind fun _ => Costs.pure _).mono (Nat.zero_le _)
  | .primitiveList _, _ =>
    ((Costs.take 4).bind fun _ => (Costs.take _).bind fun _ => Costs.pure _).mono (Nat.zero_le _)
  | .list element, h => by
    rw [WireType.elementsTakeAByte, Bool.and_eq_true] at h
    have hturn : Costs (do tick; skipType claimed element) (1 + element.weight) :=
      Costs.tick.bind fun _ => skipType_costs element h.2
    have hbyte : Consumes (do tick; skipType claimed element) :=
      Consumes.bind_right Advances.tick fun _ => (skipType_takes claimed element).consumes h.1
    have hloop : Costs (skipType claimed (.list element)) (0 + (2 * (1 + element.weight) + 0)) :=
      (Costs.take 4).bind fun header => (hturn.times hbyte _).bind fun _ => Costs.pure _
    exact hloop.mono (by rw [WireType.weight]; omega)
  | .message fields, h => skipFields_costs fields h

/-- Skipping the fields of a message costs their weight for each byte they take, and once more. -/
theorem skipFields_costs : (fields : WireFields) → fields.elementsTakeAByte = true →
    Costs (skipFields claimed fields) fields.weight
  | .nil, _ => Costs.pure _
  | .cons true type rest, h => by
    rw [elementsTakeAByte, Bool.and_eq_true] at h
    have htype := skipType_costs type h.1
    have hrest : Costs (skipFields claimed rest) rest.weight := skipFields_costs rest h.2
    have hfield : Costs (skipFields claimed (.cons true type rest))
      (1 + (0 + (0 + (type.weight + rest.weight)))) := by
      refine Costs.tick.bind fun _ => Costs.atEnd.bind fun ended => ?_
      split
      · exact hrest.mono (by omega)
      · refine (Costs.take 1).bind fun flag => ?_
        split
        · exact hrest.mono (by omega)
        · exact htype.bind fun _ => hrest
    exact hfield.mono (by rw [weight]; omega)
  | .cons false type rest, h => by
    rw [elementsTakeAByte, Bool.and_eq_true] at h
    exact Costs.tick.bind fun _ => (skipType_costs type h.1).bind fun _ => skipFields_costs rest h.2

end

end Bound

end PubsubVenue
