import PubsubVenue.Codec.Decode

/-! # Encoding and decoding again

* **`decodeType_yields`**: from the bytes of a value, whatever follows them, the decoder gives the
  value back and leaves what follows, if there is room in the arena for the views.
* **`skipType_yields`**: `skip` takes the same bytes. -/

namespace PubsubVenue

open Decoder List

/-! ## Room in the arena -/

theorem alignedOffset_le (offset : Nat) {alignment : Nat} (h : 0 < alignment) :
    alignedOffset offset alignment < offset + alignment := by
  have hdiv : (offset + alignment - 1) / alignment * alignment ≤ offset + alignment - 1 :=
    Nat.div_mul_le_self _ _
  unfold alignedOffset
  omega

/-- The arena as a supply of bytes: while there are enough left, allocating does not exhaust it. -/
def arenaSupply : Supply Arena where
  ready n s := 0 < n → s.allocator.hasStorage = true ∧ s.allocator.bytesUsed + n ≤ s.allocator.capacity ∧
    s.allocator.capacity < sizeLimit
  uses n s s' := s'.exhausted = s.exhausted ∧ s'.allocator.hasStorage = s.allocator.hasStorage ∧
    s'.allocator.capacity = s.allocator.capacity ∧ s'.allocator.bytesUsed ≤ s.allocator.bytesUsed + n
  ready_left h hm := by
    obtain ⟨hstorage, hroom, hcapacity⟩ := h (by omega)
    exact ⟨hstorage, by omega, hcapacity⟩
  ready_of_uses h hu hn := by
    obtain ⟨hstorage, hroom, hcapacity⟩ := h (by omega)
    obtain ⟨-, hsame, hcap, hused⟩ := hu
    exact ⟨hsame.trans hstorage, by omega, by omega⟩
  uses_refl s := ⟨rfl, rfl, rfl, Nat.le_refl _⟩
  uses_trans h h' := ⟨h'.1.trans h.1, h'.2.1.trans h.2.1, h'.2.2.1.trans h.2.2.1, by omega⟩

theorem need_yields (size alignment count : Nat) :
    Yields arenaSupply (change (Arena.need size alignment count)) [] () 0 :=
  fun s _ _ steps => ⟨steps, s.need size alignment count, rfl, rfl, rfl, rfl, Nat.le_refl _⟩

/-- Allocating where there is room. -/
theorem allocate_yields (size count : Nat) {alignment : Nat} (h : 0 < alignment) :
    Yields arenaSupply (change (Arena.allocate size alignment count)) [] () (alignment + size * count) := by
  intro s hs rest steps
  obtain ⟨hstorage, hroom, hcapacity⟩ := hs (by omega)
  have haligned := alignedOffset_le s.allocator.bytesUsed h
  have hrequired : (alignedOffset s.allocator.bytesUsed alignment + size * count) % sizeLimit =
      alignedOffset s.allocator.bytesUsed alignment + size * count := Nat.mod_eq_of_lt (by omega)
  refine ⟨steps, s.allocate size alignment count, rfl, ?_, rfl, rfl, ?_⟩
  · simp only [Arena.allocate, BumpAllocator.allocate, hrequired, hstorage, Bool.true_and]
    rw [decide_eq_true (by omega), Bool.not_true, Bool.or_false]
  · simp only [Arena.allocate, BumpAllocator.allocate, hrequired]
    omega

section

variable (host : Host)

mutual

/-- The bytes of the arena that decoding a value takes at most. -/
def arenaRoom : (type : WireType) → Value type → Nat
  | .primitive _, _ | .string, _ | .bytes, _ | .array _ _, _ | .enum _, _ => 0
  | .primitiveList p, vs =>
    if host.littleEndian || isEmpty vs then 0 else p.wireSize + p.wireSize * length vs
  | .list element, vs =>
    (if isEmpty vs then 0 else host.viewAlign element + host.viewSize element * length vs) +
      total (arenaRoom element) vs
  | .message fields, vs => fieldsRoom fields vs

/-- The bytes of the arena that decoding the fields of a message takes at most. -/
def fieldsRoom : (fields : WireFields) → Values fields → Nat
  | .nil, _ => 0
  | .cons true _ rest, (none, vs) => fieldsRoom rest vs
  | .cons true type rest, (some v, vs) => arenaRoom type v + fieldsRoom rest vs
  | .cons false type rest, (v, vs) => arenaRoom type v + fieldsRoom rest vs

end

end

/-! ## Primitives -/

/-- The bits of a number are read back from its bytes. -/
theorem ofNat_leNat_leBytes {k : Nat} (v : BitVec (8 * k)) :
    BitVec.ofNat (8 * k) (leNat (leBytes k v.toNat)) = v := by
  have hlt : v.toNat < 256 ^ k := by
    rw [show 256 = 2 ^ 8 from rfl, ← Nat.pow_mul]
    exact v.isLt
  rw [leNat_leBytes hlt, BitVec.ofNat_toNat, BitVec.setWidth_eq]

variable (p : PrimitiveType)

/-- **A primitive is read back from its bytes.** -/
theorem PrimitiveType.read_write (v : p.Value) : p.read (p.write v) = v := by
  cases p with
  | bool => cases v <;> decide
  | i8 | char | i16 | i32 | i64 | datetimeNs => exact ofNat_leNat_leBytes v

theorem PrimitiveType.readAll_flatMap (vs : List p.Value) :
    p.readAll vs.length (vs.flatMap p.write) = vs := by
  induction vs with
  | nil => rfl
  | cons v vs ih =>
    have hlen := p.length_write v
    rw [flatMap_cons, length_cons, readAll, take_left' hlen, drop_left' hlen, p.read_write, ih]

section Primitives

variable {σ : Type} {supply : Supply σ}

theorem decodePrimitive_yields (p : PrimitiveType) (v : p.Value) :
    Yields supply (decodePrimitive p) (p.write v) v 0 := by
  have htake : Yields supply (take p.wireSize) (p.write v) (p.write v) 0 := by
    have h : Yields supply (take (p.write v).length) (p.write v) (p.write v) 0 := Yields.take _
    rwa [p.length_write] at h
  have hread : Yields supply (pure (p.read (p.write v))) [] v 0 := by
    rw [p.read_write]
    exact Yields.pure v
  exact htake.map (f := fun bs => pure (p.read bs)) hread

/-- A number in so many bytes: an enumeration, or a length at the head of a string or a list. -/
theorem take_leBytes_yields (k n : Nat) : Yields supply (take k) (leBytes k n) (leBytes k n) 0 := by
  have h : Yields supply (take (leBytes k n).length) (leBytes k n) (leBytes k n) 0 := Yields.take _
  rwa [length_leBytes] at h

theorem decodeCounted_yields {bs : Bytes} (h : bs.length < 4294967296) :
    Yields supply decodeCounted (counted bs) bs 0 := by
  have hbytes : Yields supply (take (leNat (leBytes 4 bs.length))) bs bs 0 := by
    rw [leNat_leBytes h]
    exact Yields.take bs
  exact (take_leBytes_yields 4 bs.length).bind (f := fun header => take (leNat header)) hbytes

end Primitives

/-! ## Values -/

section RoundTrip

/-- The counts of lists below a limit, which fit in four bytes, are read as they are written. -/
structure ReadsCounts (claimed : Bytes → Nat) (limit : Nat) : Prop where
  claimed_leBytes : ∀ n < limit, claimed (leBytes 4 n) = n
  limit_le : limit ≤ 4294967296

variable {claimed : Bytes → Nat} {limit : Nat} (host : Host)

theorem decodePrimitiveList_yields (hreads : ReadsCounts claimed limit) (p : PrimitiveType)
    (vs : List p.Value) (hfits : vs.length < limit) :
    Yields arenaSupply (decodeType claimed host (.primitiveList p)) (wire (.primitiveList p) vs) vs
      (arenaRoom host (.primitiveList p) vs) := by
  have hcount := hreads.claimed_leBytes _ hfits
  rw [decodeType, wire, arenaRoom]
  refine (take_leBytes_yields 4 _).after ?_
  rw [hcount]
  cases vs with
  | nil =>
    simp only [length_nil, Nat.lt_irrefl, if_false, isEmpty_nil, Bool.or_true, if_true]
    exact Yields.pure []
  | cons v vs =>
    rw [if_pos (by simp), isEmpty_cons, Bool.or_false]
    by_cases hendian : host.littleEndian = true
    · rw [if_pos hendian, if_pos hendian, ← p.length_flatMap_write]
      refine (Yields.take _).map ?_
      rw [p.readAll_flatMap]
      exact Yields.pure _
    · rw [if_neg hendian, if_neg hendian]
      have hloop : Yields arenaSupply (times (do tick; decodePrimitive p) (v :: vs).length)
          ((v :: vs).flatMap p.write) ((v :: vs).map id) (total (fun _ => 0) (v :: vs)) :=
        Yields.times fun v _ => (decodePrimitive_yields p v).ticked
      rw [total_zero, map_id] at hloop
      have hrest := (allocate_yields p.wireSize (v :: vs).length p.wireSize_pos).follow
        (f := fun _ => times (do tick; decodePrimitive p) (v :: vs).length) hloop
      exact (need_yields _ _ _).after hrest

/-- The fields of a message are decoded with a flag of their own, which stays clear where there is
room. -/
theorem decodeMessage_yields {fields : WireFields} {vs : Values fields}
    (h : Yields arenaSupply (decodeFields claimed host fields) (wireFields fields vs) vs
      (fieldsRoom host fields vs)) :
    Yields arenaSupply (decodeType claimed host (.message fields)) (wire (.message fields) vs) vs
      (arenaRoom host (.message fields) vs) := by
  intro s hs rest steps
  obtain ⟨steps', s', hfields, hclear, hstorage, hcapacity, hused⟩ := h (s.setExhausted false) hs rest steps
  have hflag : s'.exhausted = false := hclear
  refine ⟨steps', s'.setExhausted s.exhausted, ?_, rfl, hstorage, hcapacity, hused⟩
  rw [decodeType, wire, look_bind, change_bind, bind_of_some hfields, look_bind, change_bind, hflag,
    Bool.and_false, if_neg (by decide), pure_apply]

mutual

/-- **A value is decoded from its bytes**, whatever follows them. -/
theorem decodeType_yields (hreads : ReadsCounts claimed limit) :
    (type : WireType) → (v : Value type) → Fits limit type v →
    Yields arenaSupply (decodeType claimed host type) (wire type v) v (arenaRoom host type v)
  | .primitive p, v, _ => decodePrimitive_yields p v
  | .string, v, h | .bytes, v, h => decodeCounted_yields (Nat.lt_of_lt_of_le h hreads.limit_le)
  | .array p n, v, _ => Yields.vector v fun v => (decodePrimitive_yields p v).ticked
  | .primitiveList p, vs, h => decodePrimitiveList_yields host hreads p vs h
  | .list element, vs, h => by
    have hcount := hreads.claimed_leBytes _ h.1
    have hloop : Yields arenaSupply (times (do tick; decodeType claimed host element) (length vs))
        (flatMap (wire element) vs) (map id vs) (total (arenaRoom host element) vs) :=
      Yields.times fun v hv => (decodeType_yields hreads element v (h.2 v hv)).ticked
    rw [map_id] at hloop
    rw [decodeType, wire, arenaRoom]
    refine (take_leBytes_yields 4 _).after ((need_yields _ _ _).after ?_)
    rw [hcount]
    cases vs with
    | nil =>
      simp only [length_nil, Nat.lt_irrefl, if_false, isEmpty_nil, if_true]
      exact Yields.pure []
    | cons =>
      rw [if_pos (by simp), isEmpty_cons, if_neg (by simp)]
      exact (allocate_yields _ _ (host.viewAlign_pos element)).follow hloop
  | .enum u, v, _ => by
    rw [decodeType, wire]
    refine (take_leBytes_yields _ _).map ?_
    rw [ofNat_leNat_leBytes]
    exact Yields.pure v
  | .message fields, vs, h => decodeMessage_yields host (decodeFields_yields hreads fields vs h)

/-- The fields of a message are decoded from their bytes. -/
theorem decodeFields_yields (hreads : ReadsCounts claimed limit) : (fields : WireFields) →
    (vs : Values fields) → FieldsFit limit fields vs →
    Yields arenaSupply (decodeFields claimed host fields) (wireFields fields vs) vs
      (fieldsRoom host fields vs)
  | .nil, _, _ => Yields.pure ()
  | .cons true type rest, (none, vs), h => by
    have hrest := decodeFields_yields hreads rest vs h
    rw [decodeFields, wireFields, fieldsRoom]
    refine Yields.ticked (Yields.unlessAtEnd (by simp) ((Yields.take [0]).after ?_))
    exact hrest.map (Yields.pure _)
  | .cons true type rest, (some v, vs), h => by
    have htype := decodeType_yields hreads type v h.1
    have hrest := decodeFields_yields hreads rest vs h.2
    rw [decodeFields, wireFields, fieldsRoom]
    refine Yields.ticked (Yields.unlessAtEnd (by simp) ((Yields.take [1]).after ?_))
    exact htype.bind (hrest.map (Yields.pure _))
  | .cons false type rest, (v, vs), h => by
    have htype := decodeType_yields hreads type v h.1
    have hrest := decodeFields_yields hreads rest vs h.2
    rw [decodeFields, wireFields, fieldsRoom]
    exact Yields.ticked (htype.bind (hrest.map (Yields.pure _)))

end

/-! ## Skipping -/

mutual

/-- **`skip` takes the bytes of a value**, whatever follows them. -/
theorem skipType_yields (hreads : ReadsCounts claimed limit) : (type : WireType) → (v : Value type) →
    Fits limit type v → Yields (Supply.still Unit) (skipType claimed type) (wire type v) () 0
  | .primitive p, v, _ => by
    rw [skipType, ← p.length_write v]
    exact (Yields.take _).map (Yields.pure ())
  | .string, v, h | .bytes, v, h =>
    (decodeCounted_yields (Nat.lt_of_lt_of_le h hreads.limit_le)).map (Yields.pure ())
  | .array p n, v, _ => by
    have hlen : n * p.wireSize = (wire (.array p n) v).length := by
      rw [length_wire_of_isFixedWidth rfl, WireType.fixedWidth, Nat.mul_comm]
    rw [skipType, hlen]
    exact (Yields.take _).map (Yields.pure ())
  | .primitiveList p, vs, h => by
    rw [skipType, wire]
    refine (take_leBytes_yields 4 _).after ?_
    rw [hreads.claimed_leBytes _ h, ← p.length_flatMap_write]
    exact (Yields.take _).map (Yields.pure ())
  | .list element, vs, h => by
    have hloop : Yields (Supply.still Unit) (times (do tick; skipType claimed element) (length vs))
        (flatMap (wire element) vs) (map (fun _ => ()) vs) (total (fun _ => 0) vs) :=
      Yields.times fun v hv => (skipType_yields hreads element v (h.2 v hv)).ticked
    rw [total_zero] at hloop
    rw [skipType, wire]
    refine (take_leBytes_yields 4 _).after ?_
    rw [hreads.claimed_leBytes _ h.1]
    exact hloop.map (Yields.pure ())
  | .enum u, v, _ => (take_leBytes_yields _ _).map (Yields.pure ())
  | .message fields, vs, h => skipFields_yields hreads fields vs h

/-- `skip` takes the bytes of the fields of a message. -/
theorem skipFields_yields (hreads : ReadsCounts claimed limit) : (fields : WireFields) →
    (vs : Values fields) → FieldsFit limit fields vs →
    Yields (Supply.still Unit) (skipFields claimed fields) (wireFields fields vs) () 0
  | .nil, _, _ => Yields.pure ()
  | .cons true type rest, (none, vs), h => by
    rw [skipFields, wireFields]
    refine Yields.ticked (Yields.unlessAtEnd (by simp) ((Yields.take [0]).after ?_))
    exact skipFields_yields hreads rest vs h
  | .cons true type rest, (some v, vs), h => by
    rw [skipFields, wireFields]
    refine Yields.ticked (Yields.unlessAtEnd (by simp) ((Yields.take [1]).after ?_))
    exact (skipType_yields hreads type v h.1).after (skipFields_yields hreads rest vs h.2)
  | .cons false type rest, (v, vs), h => by
    rw [skipFields, wireFields]
    exact Yields.ticked ((skipType_yields hreads type v h.1).after (skipFields_yields hreads rest vs h.2))

end

end RoundTrip

/-! ## Messages -/

/-- Four bytes hold any count below `2 ^ 32`, little-endian. -/
theorem readsCounts_leNat : ReadsCounts leNat 4294967296 := ⟨fun _ h => leNat_leBytes h, le_rfl⟩

variable {fields : WireFields} {vs : Values fields}

/-- Decoding the bytes of a message, whatever follows them, with room in the arena. -/
theorem decode_wireFields (host : Host) (hfits : FieldsFit 4294967296 fields vs)
    {allocator : BumpAllocator} (hstorage : allocator.hasStorage = true)
    (hroom : allocator.bytesUsed + fieldsRoom host fields vs ≤ allocator.capacity)
    (hcapacity : allocator.capacity < sizeLimit) (rest : Bytes) :
    decode host fields (wireFields fields vs ++ rest) allocator =
      some (vs, (wireFields fields vs).length) := by
  have hyields := decodeType_yields host readsCounts_leNat (.message fields) vs hfits
  obtain ⟨steps, s, h, -⟩ := hyields { allocator } (fun _ => ⟨hstorage, hroom, hcapacity⟩) rest 0
  simp only [decode, decodeWith, Reader.start]
  rw [wire] at h
  rw [h, length_append]
  simp

/-- Skipping the bytes of a message, whatever follows them. -/
theorem skip_wireFields (hfits : FieldsFit 4294967296 fields vs) (rest : Bytes) :
    skip fields (wireFields fields vs ++ rest) = some (wireFields fields vs).length := by
  have hyields := skipType_yields readsCounts_leNat (.message fields) vs hfits
  obtain ⟨steps, s, h, -⟩ := hyields () trivial rest 0
  simp only [skip, skipWith]
  rw [wire] at h
  rw [h, length_append]
  simp

/-- The functions emitted for a message agree on a value: `encode` succeeds exactly when the buffer
holds `encoded_size` bytes, and writes that many; `decode` with enough arena and `skip` consume
those bytes, whatever follows them, and `decode` gives the value; `encode_fast` writes the same. -/
structure RoundTrips (host : Host) (fields : WireFields) (vs : Values fields) : Prop where
  succeeds : ∀ outSize : UInt64,
    (encode fields vs outSize.toNat).isSome = true ↔ encodedSize (.message fields) vs ≤ outSize
  written : ∀ (outSize : UInt64) e, encode fields vs outSize.toNat = some e →
    e.bytes.length = (encodedSize (.message fields) vs).toNat ∧ e.bytesWritten = e.bytes.length
  decoded : ∀ (outSize : UInt64) e, encode fields vs outSize.toNat = some e → ∃ room,
    ∀ allocator : BumpAllocator, allocator.hasStorage = true →
      allocator.bytesUsed + room ≤ allocator.capacity → allocator.capacity < sizeLimit → ∀ rest,
        decode host fields (e.bytes ++ rest) allocator = some (vs, (encodedSize (.message fields) vs).toNat)
  skipped : ∀ (outSize : UInt64) e, encode fields vs outSize.toNat = some e → ∀ rest,
    skip fields (e.bytes ++ rest) = some (encodedSize (.message fields) vs).toNat
  fast : fields.isFixedSize = true → ∀ (outSize : UInt64) e, encode fields vs outSize.toNat = some e →
    encodeFast fields vs = e.bytes

/-- **The emitted functions agree on every value whose bytes a `size_t` can count**, and on no
other: past that `encoded_size` wraps around, and `encode` refuses a buffer that is said to be large
enough. -/
theorem roundTrips_iff {file : DslFile} {messages : List (String × WireFields)}
    (hemit : emit file = some messages) {name : String} {fields : WireFields}
    (hmem : (name, fields) ∈ messages) (host : Host) (vs : Values fields)
    (hfits : FieldsFit 4294967296 fields vs) :
    RoundTrips host fields vs ↔ (wireFields fields vs).length < sizeLimit := by
  have hcompact : fields.inlineBytes < objectLimit ∧ fields.Compact := emit_compact hemit _ hmem
  have hencode (outSize : UInt64) := encode_eq hcompact.1 hcompact.2 vs outSize.toNat_lt
  constructor
  · intro h
    by_contra hlarge
    have hmax : encodedSize (.message fields) vs ≤ 18446744073709551615 :=
      UInt64.le_iff_toNat_le.mpr (Nat.le_of_lt_succ (UInt64.toNat_lt _))
    have hsome := (h.succeeds 18446744073709551615).mpr hmax
    rw [hencode, if_pos (lt_of_lt_of_le (UInt64.toNat_lt _) (not_lt.mp hlarge))] at hsome
    cases hsome
  · intro hlt
    have hsize := bytesNeeded_of_lt hlt
    have hresult (outSize : UInt64) (e : Encoded) (he : encode fields vs outSize.toNat = some e) :
        e = ⟨wireFields fields vs, (wireFields fields vs).length⟩ := by
      rw [hencode] at he
      split at he
      · cases he
      · exact (Option.some.inj he).symm
    refine ⟨fun outSize => ?_, fun outSize e he => ?_, fun outSize e he => ?_, fun outSize e he rest => ?_,
      fun hfixed outSize e he => ?_⟩
    · rw [hencode, UInt64.le_iff_toNat_le, hsize]
      split <;> simp <;> omega
    all_goals obtain rfl := hresult outSize e he
    · exact ⟨hsize.symm, rfl⟩
    · refine ⟨fieldsRoom host fields vs, fun allocator hstorage hroom hcapacity rest => ?_⟩
      rw [decode_wireFields host hfits hstorage hroom hcapacity, hsize]
    · rw [skip_wireFields hfits, hsize]
    · exact encodeFast_eq fields hfixed vs

/-- A little-endian host on which the view of an element takes sixteen bytes. -/
def plainHost : Host := ⟨true, fun _ => 16, fun _ => 8, fun _ => by decide⟩

/-- An order: an enumeration, two numbers, a string, and an optional number. -/
def orderFields : WireFields :=
  .cons false (.enum .i8) (.cons false (.primitive .i64) (.cons false (.primitive .i64)
    (.cons false .string (.cons true (.primitive .i32) .nil))))

/-- An order in a definition. -/
def orderFile : DslFile :=
  [.enum "OrderSide" .i8,
   .message "NewOrder" [⟨"side", .reference "OrderSide", false⟩, ⟨"quantity", .primitive .i64, false⟩,
     ⟨"price_tenths", .primitive .i64, false⟩, ⟨"symbol", .string, false⟩,
       ⟨"client_order_id", .primitive .i32, true⟩]]

/-- The functions emitted for an order agree on one that sells two hundred of a stock. -/
theorem roundTrips_order : emit orderFile = some [("NewOrder", orderFields)] ∧
      RoundTrips plainHost orderFields (2#8, 200#64, 1015#64, [86, 79, 68], none, ()) :=
  ⟨rfl, (roundTrips_iff (show emit orderFile = some [("NewOrder", orderFields)] from rfl)
    mem_cons_self plainHost (2#8, 200#64, 1015#64, [86, 79, 68], none, ())
    ⟨trivial, trivial, trivial, show 3 < 4294967296 by decide, trivial⟩).mpr (by decide)⟩

/-! ## A value that is too large -/

/-- A message that holds a list of lists of bytes. -/
def gridFile : DslFile := [.message "Grid" [⟨"rows", .list (.list (.primitive .i8)), false⟩]]

def gridFields : WireFields := .cons false (.list (.primitiveList .i8)) .nil

/-- As many rows as a count can say, each the same and as long as a count can say. -/
def largestGrid : Values gridFields :=
  (replicate 4294967295 (replicate 4294967295 (BitVec.ofNat _ 0)), ())

theorem length_wire_primitiveList (vs : List p.Value) :
    (wire (.primitiveList p) vs).length = 4 + p.wireSize * vs.length := by
  rw [wire, length_append, length_leBytes, p.length_flatMap_write]

/-- A list of one value over and over. -/
theorem length_wire_replicate {element : WireType} (v : Value element) (n : Nat) :
    (wire (.list element) (replicate n v)).length = 4 + n * (wire element v).length := by
  rw [wire, length_append, length_leBytes]
  congr 1
  induction n with
  | zero => rw [Nat.zero_mul]; rfl
  | succ n ih => rw [replicate_succ, flatMap_cons, length_append, ih, Nat.succ_mul, Nat.add_comm]

theorem length_wireFields_largestGrid :
    (wireFields gridFields largestGrid).length = 18446744082299486209 := by
  show (wire (.list (.primitiveList .i8)) largestGrid.1 ++ []).length = _
  rw [append_nil, largestGrid, length_wire_replicate, length_wire_primitiveList, length_replicate]
  rfl

/-- **A buffer of `encoded_size` bytes is refused**: the sizes of the rows of the largest grid add
up to more than `2 ^ 64`, and what is left after wrapping around is far too little. -/
theorem refuses_encodedSize :
    emit gridFile = some [("Grid", gridFields)] ∧ FieldsFit 4294967296 gridFields largestGrid ∧
      encodedSize (.message gridFields) largestGrid = 8589934593 ∧
      encode gridFields largestGrid 8589934593 = none := by
  have hlen := length_wireFields_largestGrid
  refine ⟨rfl, ⟨⟨?_, ?_⟩, trivial⟩, ?_, ?_⟩
  · rw [length_replicate]
    decide
  · intro row hrow
    obtain rfl := eq_of_mem_replicate hrow
    rw [Fits, length_replicate]
    decide
  · rw [encodedSize_eq, wire, hlen]
    rfl
  · have hcompact : gridFields.Compact := ⟨trivial, trivial⟩
    have hsize : 8589934593 < sizeLimit := by decide
    rw [encode_eq (by decide) hcompact largestGrid hsize, if_pos (by rw [hlen]; decide)]

end PubsubVenue
