import PubsubVenue.Codec.Schema
import PubsubVenue.Writing

/-! # The emitted encoders

`encoded_size`, `fixed_encoded_size`, `encode_fast` and `encode`, as the generator emits them for a
message. Sizes are `size_t`, which wraps around at `2 ^ 64`.

* **`wire`**: the bytes of a value, field after field: what the format is.
* **`encodedSize_eq`**: the size that is computed is the number of those bytes, as a `size_t`.
* **`encodeFast_eq`**: the unchecked encoder writes those bytes.
* **`encodeType_writes`**, **`encode_eq`**: the encoder writes those bytes where they fit, and
  refuses where they do not. -/

namespace PubsubVenue

open List WireFields UInt64

/-- The bytes of a primitive: a truth value is one byte, 0 or 1; a number is little-endian. -/
def PrimitiveType.write : (p : PrimitiveType) → p.Value → Bytes
  | .bool, b => [bif b then 1 else 0]
  | .i8, v | .char, v => leBytes 1 (BitVec.toNat v)
  | .i16, v => leBytes 2 (BitVec.toNat v)
  | .i32, v => leBytes 4 (BitVec.toNat v)
  | .i64, v | .datetimeNs, v => leBytes 8 (BitVec.toNat v)

@[simp] theorem PrimitiveType.length_write (p : PrimitiveType) (v : p.Value) :
    (p.write v).length = p.wireSize := by
  cases p <;> simp [write, wireSize]

/-! ## The format -/

/-- A string or a byte string, after its length in four bytes. -/
def counted (bs : Bytes) : Bytes := leBytes 4 bs.length ++ bs

mutual

/-- The bytes of a value: a list comes after its length in four bytes. -/
def wire : (type : WireType) → Value type → Bytes
  | .primitive p, v => p.write v
  | .string, v | .bytes, v => counted v
  | .array p _, v => (List.Vector.toList v).flatMap p.write
  | .primitiveList p, vs => leBytes 4 (length vs) ++ flatMap p.write vs
  | .list element, vs => leBytes 4 (length vs) ++ flatMap (wire element) vs
  | .enum underlying, v => leBytes underlying.wireSize (BitVec.toNat v)
  | .message fields, vs => wireFields fields vs

/-- The bytes of a message: an optional field comes after a byte that says whether it is there. -/
def wireFields : (fields : WireFields) → Values fields → Bytes
  | .nil, _ => []
  | .cons true _ rest, (none, vs) => [0] ++ wireFields rest vs
  | .cons true type rest, (some v, vs) => [1] ++ (wire type v ++ wireFields rest vs)
  | .cons false type rest, (v, vs) => wire type v ++ wireFields rest vs

end

/-! ## Sizes -/

/-- A number of bytes, as a `size_t` counts it. -/
def sizeLimit : Nat := 18446744073709551616

/-- `fixed_encoded_size`: the size of a message of fixed size. -/
def fixedEncodedSize : WireFields → UInt64
  | .nil => 0
  | .cons _ type rest => ofNat type.fixedWidth + fixedEncodedSize rest

mutual

/-- The size of a field. -/
def encodedSize : (type : WireType) → Value type → UInt64
  | .primitive p, _ => ofNat p.wireSize
  | .string, v | .bytes, v => 4 + ofNat (length v)
  | .array p n, _ => ofNat p.wireSize * ofNat n
  | .primitiveList p, vs => 4 + ofNat p.wireSize * ofNat (length vs)
  | .list element, vs => foldl (fun total v => total + encodedSize element v) 4 vs
  | .enum underlying, _ => ofNat underlying.wireSize
  | .message fields, vs =>
    if fields.isFixedSize then fixedEncodedSize fields else sizeOfFields fields vs

/-- The sizes of the fields of a message that is not of fixed size, added up. -/
def sizeOfFields : (fields : WireFields) → Values fields → UInt64
  | .nil, _ => 0
  | .cons true _ rest, (none, vs) => 1 + sizeOfFields rest vs
  | .cons true type rest, (some v, vs) => 1 + encodedSize type v + sizeOfFields rest vs
  | .cons false type rest, (v, vs) => encodedSize type v + sizeOfFields rest vs

end

/-! ## Encoding -/

/-- What an encoder that succeeded has done: the bytes it placed in the buffer, and how many it says
they are. -/
structure Encoded where
  bytes : Bytes
  bytesWritten : Nat

/-- `encode_fast`: write the fields of a message of fixed size, without a check. -/
def encodeFast : (fields : WireFields) → Values fields → Bytes
  | .nil, _ => []
  | .cons true _ rest, (_, vs) => encodeFast rest vs
  | .cons false (.primitive p) rest, (v, vs) => p.write v ++ encodeFast rest vs
  | .cons false (.array p _) rest, (v, vs) => (List.Vector.toList v).flatMap p.write ++ encodeFast rest vs
  | .cons false (.enum u) rest, (v, vs) => leBytes u.wireSize (BitVec.toNat v) ++ encodeFast rest vs
  | .cons false .string rest, (_, vs) | .cons false .bytes rest, (_, vs)
  | .cons false (.primitiveList _) rest, (_, vs) | .cons false (.list _) rest, (_, vs)
  | .cons false (.message _) rest, (_, vs) => encodeFast rest vs

/-- `encode`, with its fields' writer: a buffer that is too small is refused before anything is
written, and a message of fixed size that fills the buffer exactly is written without further
checks. -/
def encodeMessage (fields : WireFields) (vs : Values fields) (outSize : Nat)
    (writeFields : Writer → Option Writer) : Option Encoded :=
  let bytesNeeded := (encodedSize (.message fields) vs).toNat
  if outSize < bytesNeeded then none
  else if fields.isFixedSize && outSize == bytesNeeded then some ⟨encodeFast fields vs, bytesNeeded⟩
  else (writeFields ⟨[], outSize⟩).map fun w => ⟨w.written, w.written.length⟩

/-- Write a string's length, and then its bytes. An element of a list has the two checked at once. -/
def Writer.putCounted (w : Writer) (bs : Bytes) : Option Writer := do
  let w ← w.put (leBytes 4 bs.length)
  w.put bs

/-- Go on after what a nested encoder has written. -/
def Writer.advance (w : Writer) (e : Encoded) : Writer :=
  ⟨w.written ++ e.bytes, w.remaining - e.bytesWritten⟩

mutual

/-- Encode a field. -/
def encodeType : (type : WireType) → Value type → Writer → Option Writer
  | .primitive p, v, w => w.put (p.write v)
  | .string, v, w | .bytes, v, w => w.putCounted v
  | .array .i8 _, v, w => w.put ((List.Vector.toList v).flatMap (PrimitiveType.write .i8))
  | .array p _, v, w => (List.Vector.toList v).foldlM (fun w v => w.put (p.write v)) w
  | .primitiveList p, vs, w => do
    let w ← w.put (leBytes 4 (length vs))
    foldlM (fun w v => w.put (p.write v)) w vs
  | .list element, vs, w => do
    let w ← w.put (leBytes 4 (length vs))
    foldlM (fun w v => encodeType element v w) w vs
  | .enum underlying, v, w => w.put (leBytes underlying.wireSize (BitVec.toNat v))
  | .message fields, vs, w =>
    (encodeMessage fields vs w.remaining fun w => encodeFields fields vs w).map w.advance

/-- Encode the fields of a message. -/
def encodeFields : (fields : WireFields) → Values fields → Writer → Option Writer
  | .nil, _, w => some w
  | .cons true _ rest, (none, vs), w => do
    let w ← w.put [0]
    encodeFields rest vs w
  | .cons true type rest, (some v, vs), w => do
    let w ← w.put [1]
    let w ← encodeType type v w
    encodeFields rest vs w
  | .cons false type rest, (v, vs), w => do
    let w ← encodeType type v w
    encodeFields rest vs w

end

/-- `encode`: encode a message into a buffer of so many bytes. -/
def encode (fields : WireFields) (vs : Values fields) (outSize : Nat) : Option Encoded :=
  encodeMessage fields vs outSize (encodeFields fields vs)

/-! ## What is computed of the format -/

/-- The bytes of several primitives. -/
theorem PrimitiveType.length_flatMap_write (p : PrimitiveType) (vs : List p.Value) :
    (vs.flatMap p.write).length = p.wireSize * vs.length := by
  induction vs with
  | nil => rfl
  | cons v vs ih => rw [flatMap_cons, length_append, p.length_write, ih, length_cons]; ring

/-- A field of fixed width takes its width. -/
theorem length_wire_of_isFixedWidth {type : WireType} (h : type.isFixedWidth = true) (v : Value type) :
    (wire type v).length = type.fixedWidth := by
  cases type with
  | primitive p => exact p.length_write v
  | enum => exact length_leBytes _ _
  | array p n =>
    show ((List.Vector.toList v).flatMap p.write).length = p.wireSize * n
    rw [p.length_flatMap_write, List.Vector.toList_length]
  | string | bytes | primitiveList | list | message => cases h

/-- A message of fixed size takes what its fields take. -/
theorem length_wireFields_of_isFixedSize : (fields : WireFields) → fields.isFixedSize = true →
    (vs : Values fields) → (wireFields fields vs).length = fields.inlineBytes
  | .nil, _, _ => rfl
  | .cons true _ _, h, _ => by simp [isFixedSize] at h
  | .cons false type rest, h, (v, vs) => by
    simp only [isFixedSize, Bool.not_false, Bool.true_and, Bool.and_eq_true] at h
    simp only [wireFields, inlineBytes, length_append, length_wire_of_isFixedWidth h.1,
      length_wireFields_of_isFixedSize rest h.2]

theorem fixedEncodedSize_eq : (fields : WireFields) → fixedEncodedSize fields = ofNat fields.inlineBytes
  | .nil => rfl
  | .cons _ type rest => by
    rw [fixedEncodedSize, fixedEncodedSize_eq rest, inlineBytes, ofNat_add]

/-- Adding up what each of a list comes to. -/
theorem foldl_size {α : Type} {size : α → UInt64} {write : α → Bytes}
    (h : ∀ v, size v = ofNat (write v).length) (vs : List α) (start : UInt64) :
    vs.foldl (fun total v => total + size v) start = start + ofNat (vs.flatMap write).length := by
  induction vs generalizing start with
  | nil => simp
  | cons v vs ih => rw [foldl_cons, ih, h, flatMap_cons, length_append, ofNat_add, UInt64.add_assoc]

mutual

/-- **The size of a field is the number of its bytes**, as a `size_t`. -/
theorem encodedSize_eq :
    (type : WireType) → (v : Value type) → encodedSize type v = UInt64.ofNat (wire type v).length
  | .primitive p, v => by rw [encodedSize, wire, p.length_write]
  | .string, v | .bytes, v => by
    rw [encodedSize, wire, counted, length_append, length_leBytes, ofNat_add]
    rfl
  | .array p n, v => by
    rw [encodedSize, length_wire_of_isFixedWidth rfl, ← ofNat_mul]
    rfl
  | .primitiveList p, vs => by
    rw [encodedSize, wire, length_append, length_leBytes, p.length_flatMap_write, ofNat_add, ofNat_mul]
    rfl
  | .list element, vs => by
    rw [encodedSize, foldl_size (encodedSize_eq element), wire, length_append, length_leBytes, ofNat_add]
    rfl
  | .enum u, v => by rw [encodedSize, wire, length_leBytes]
  | .message fields, vs => by
    rw [encodedSize, wire]
    split
    · rename_i h
      rw [fixedEncodedSize_eq, length_wireFields_of_isFixedSize fields h]
    · exact sizeOfFields_eq fields vs

/-- The sizes of the fields add up to the number of their bytes, as a `size_t`. -/
theorem sizeOfFields_eq : (fields : WireFields) → (vs : Values fields) →
    sizeOfFields fields vs = ofNat (wireFields fields vs).length
  | .nil, _ => rfl
  | .cons true _ rest, (none, vs) => by
    rw [sizeOfFields, wireFields, length_append, ofNat_add, sizeOfFields_eq rest vs]
    rfl
  | .cons true type rest, (some v, vs) => by
    rw [sizeOfFields, wireFields, length_append, length_append, ofNat_add,
      UInt64.ofNat_add, sizeOfFields_eq rest vs, encodedSize_eq type v, UInt64.add_assoc]
    rfl
  | .cons false type rest, (v, vs) => by
    rw [sizeOfFields, wireFields, length_append, ofNat_add, sizeOfFields_eq rest vs, encodedSize_eq type v]

end

/-- **The unchecked encoder writes the bytes of the message**, where it is of fixed size. -/
theorem encodeFast_eq : (fields : WireFields) → fields.isFixedSize = true → (vs : Values fields) →
    encodeFast fields vs = wireFields fields vs
  | .nil, _, _ => rfl
  | .cons true _ _, h, _ => by simp [isFixedSize] at h
  | .cons false type rest, h, (v, vs) => by
    simp only [isFixedSize, Bool.not_false, Bool.true_and, Bool.and_eq_true] at h
    have ih := encodeFast_eq rest h.2 vs
    cases type with
    | primitive | array | enum => rw [encodeFast, ih, wireFields, wire]
    | string | bytes | primitiveList | list | message => cases h.1

/-! ## What the encoder writes -/

theorem Writer.putCounted_writes (bs : Bytes) : Writes sizeLimit (fun w => w.putCounted bs) (counted bs) :=
  (Writes.put (leBytes 4 bs.length)).andThen (Writes.put bs)

variable {fields : WireFields} {vs : Values fields}

theorem bytesNeeded_of_lt (h : (wireFields fields vs).length < sizeLimit) :
    (encodedSize (.message fields) vs).toNat = (wireFields fields vs).length := by
  rw [encodedSize_eq, toNat_ofNat']
  exact Nat.mod_eq_of_lt h

/-- **`encode` with a writer of its fields**: the bytes of the message where they fit, and nothing
where they do not. -/
theorem encodeMessage_eq {write : Writer → Option Writer} (hcompact : fields.inlineBytes < objectLimit)
    (hwrite : Writes sizeLimit write (wireFields fields vs)) {outSize : Nat}
    (hsize : outSize < sizeLimit) : encodeMessage fields vs outSize write =
      if outSize < (wireFields fields vs).length then none
      else some ⟨wireFields fields vs, (wireFields fields vs).length⟩ := by
  have hput : write ⟨[], outSize⟩ = Writer.put (wireFields fields vs) ⟨[], outSize⟩ := hwrite _ hsize
  unfold Writer.put at hput
  simp only [encodeMessage]
  by_cases hroom : outSize < (wireFields fields vs).length
  · rw [if_pos hroom] at hput ⊢
    -- A message of fixed size is an object's worth of bytes, so the size computed for it has not
    -- wrapped.
    have hfixed : fields.isFixedSize = true →
        (encodedSize (.message fields) vs).toNat = (wireFields fields vs).length := by
      intro h
      apply bytesNeeded_of_lt
      rw [length_wireFields_of_isFixedSize fields h]
      exact lt_trans hcompact (by decide)
    split
    · rfl
    · split
      · rename_i hneeded h
        rw [Bool.and_eq_true] at h
        rw [hfixed h.1] at hneeded
        exact absurd hroom hneeded
      · rw [hput]
        rfl
  · rw [if_neg hroom] at hput ⊢
    have hneeded : (encodedSize (.message fields) vs).toNat = (wireFields fields vs).length :=
      bytesNeeded_of_lt (by omega)
    rw [hneeded, if_neg hroom, hput]
    split
    · rename_i h
      rw [Bool.and_eq_true] at h
      rw [encodeFast_eq fields h.1]
    · rfl

mutual

/-- **A field is written as its bytes.** -/
theorem encodeType_writes : (type : WireType) → type.Compact → (v : Value type) →
    Writes sizeLimit (encodeType type v) (wire type v)
  | .primitive p, _, v => Writes.put (p.write v)
  | .string, _, v | .bytes, _, v => Writer.putCounted_writes v
  | .array p n, _, v => by
    have hloop : Writes sizeLimit (fun w => (List.Vector.toList v).foldlM (fun w v => w.put (p.write v)) w)
        ((List.Vector.toList v).flatMap p.write) := Writes.foldlM fun v _ => Writes.put (p.write v)
    -- An array of `i8` is copied at once; any other is written element by element.
    cases p with
    | i8 => exact Writes.put _
    | char | bool | i16 | i32 | i64 | datetimeNs => exact hloop
  | .primitiveList p, _, vs =>
    (Writes.put (leBytes 4 (List.length vs))).andThen (Writes.foldlM fun v _ => Writes.put (p.write v))
  | .list element, h, vs =>
    (Writes.put (leBytes 4 (List.length vs))).andThen (Writes.foldlM fun v _ => encodeType_writes element h v)
  | .enum u, _, v => Writes.put (leBytes u.wireSize (BitVec.toNat v))
  | .message fields, h, vs => by
    intro w hw
    have hfields := encodeFields_writes fields h.2 vs
    rw [encodeType, encodeMessage_eq h.1 hfields hw, wire, Writer.put]
    split <;> rfl

/-- The fields of a message are written as their bytes. -/
theorem encodeFields_writes : (fields : WireFields) → fields.Compact → (vs : Values fields) →
    Writes sizeLimit (encodeFields fields vs) (wireFields fields vs)
  | .nil, _, _ => Writes.done
  | .cons true _ rest, h, (none, vs) => (Writes.put [0]).andThen (encodeFields_writes rest h.2 vs)
  | .cons true type rest, h, (some v, vs) =>
    (Writes.put [1]).andThen ((encodeType_writes type h.1 v).andThen (encodeFields_writes rest h.2 vs))
  | .cons false type rest, h, (v, vs) =>
    (encodeType_writes type h.1 v).andThen (encodeFields_writes rest h.2 vs)

end

/-- **What `encode` does**: it writes the bytes of the message into a buffer that they fit, and
refuses one that they do not. -/
theorem encode_eq (hbytes : fields.inlineBytes < objectLimit) (h : fields.Compact) (vs : Values fields)
    {outSize : Nat} (hsize : outSize < sizeLimit) : encode fields vs outSize =
      if outSize < (wireFields fields vs).length then none
      else some ⟨wireFields fields vs, (wireFields fields vs).length⟩ :=
  encodeMessage_eq hbytes (encodeFields_writes fields h vs) hsize

end PubsubVenue
