import PubsubVenue.Codec.Encode
import PubsubVenue.Decoding

/-! # The emitted decoders

`decode` and `skip`, as the generator emits them for a message. The views of the elements of a list
are put in an arena; when it is exhausted the decoder reads on, to find out how much it would have
needed, and fails at the end of the message. Lists of primitives are left where they are, on a
little-endian host.

The number of elements that the four bytes at the head of a list claim is a parameter, `claimed`;
the code reads it as a little-endian number. Each field and each element that is looked at counts as
a step. -/

namespace PubsubVenue

open Decoder

/-! ## The arena -/

/-- What is the compiler's: the byte order, and the size and the alignment of the view of an
element. -/
structure Host where
  littleEndian : Bool
  viewSize : WireType → Nat
  viewAlign : WireType → Nat
  viewAlign_pos : ∀ type, 0 < viewAlign type

/-- An allocator that only moves forward, over a buffer if there is one. -/
structure BumpAllocator where
  hasStorage : Bool
  capacity : Nat
  bytesUsed : Nat
  deriving DecidableEq

/-- The next offset that is a multiple of the alignment. -/
def alignedOffset (offset alignment : Nat) : Nat := (offset + alignment - 1) / alignment * alignment

/-- Allocate elements of a size and an alignment. The bytes are counted whether they are there or
not. -/
def BumpAllocator.allocate (a : BumpAllocator) (size alignment count : Nat) : Bool × BumpAllocator :=
  let requiredBytes := (alignedOffset a.bytesUsed alignment + size * count) % sizeLimit
  (a.hasStorage && decide (requiredBytes ≤ a.capacity), { a with bytesUsed := requiredBytes })

/-- What a decoder keeps: the arena, the bytes of it that are needed, and whether it was exhausted
for the message that is being decoded. -/
structure Arena where
  allocator : BumpAllocator
  bytesNeeded : Nat := 0
  exhausted : Bool := false
  deriving DecidableEq

namespace Arena

/-- Count the bytes that the elements need. -/
def need (size alignment count : Nat) (s : Arena) : Arena :=
  { s with bytesNeeded := (alignedOffset s.bytesNeeded alignment + size * count) % sizeLimit }

/-- Allocate the elements, and note if the arena is exhausted. -/
def allocate (size alignment count : Nat) (s : Arena) : Arena :=
  let (ok, allocator) := s.allocator.allocate size alignment count
  { s with allocator := allocator, exhausted := s.exhausted || !ok }

/-- Note whether the arena is exhausted. -/
def setExhausted (exhausted : Bool) (s : Arena) : Arena := { s with exhausted := exhausted }

end Arena

/-! ## Reading -/

/-- A primitive, from its bytes. -/
def PrimitiveType.read : (p : PrimitiveType) → Bytes → p.Value
  | .bool, bs => leNat bs != 0
  | .i8, bs | .char, bs | .i16, bs | .i32, bs | .i64, bs | .datetimeNs, bs => BitVec.ofNat _ (leNat bs)

/-- So many primitives, from bytes that lie one after another. -/
def PrimitiveType.readAll (p : PrimitiveType) : Nat → Bytes → List p.Value
  | 0, _ => []
  | n + 1, bs => p.read (bs.take p.wireSize) :: p.readAll n (bs.drop p.wireSize)

/-- Decode a primitive. -/
def decodePrimitive {σ : Type} (p : PrimitiveType) : Decoder σ p.Value := do
  let bs ← take p.wireSize
  pure (p.read bs)

/-- Decode a string or a byte string. -/
def decodeCounted {σ : Type} : Decoder σ Bytes := do
  let header ← take 4
  take (leNat header)

/-- Decoding the message may allocate: it has a list of something else than primitives, or it refers
to a message or an enumeration. -/
def WireFields.requiresArena : WireFields → Bool
  | .nil => false
  | .cons _ (.list _) _ | .cons _ (.message _) _ | .cons _ (.enum _) _ => true
  | .cons _ _ rest => rest.requiresArena

section Decode

variable (claimed : Bytes → Nat) (host : Host)

mutual

/-- Decode a field. -/
def decodeType : (type : WireType) → Decoder Arena (Value type)
  | .primitive p => decodePrimitive p
  | .string | .bytes => decodeCounted
  | .array p n => vector (do tick; decodePrimitive p) n
  | .primitiveList p => do
    let header ← take 4
    if 0 < claimed header then
      if host.littleEndian then do
        let bs ← take (p.wireSize * claimed header)
        pure (p.readAll (claimed header) bs)
      else do
        change (Arena.need p.wireSize p.wireSize (claimed header))
        change (Arena.allocate p.wireSize p.wireSize (claimed header))
        times (do tick; decodePrimitive p) (claimed header)
    else pure []
  | .list element => do
    let header ← take 4
    change (Arena.need (host.viewSize element) (host.viewAlign element) (claimed header))
    if 0 < claimed header then do
      change (Arena.allocate (host.viewSize element) (host.viewAlign element) (claimed header))
      times (do tick; decodeType element) (claimed header)
    else pure []
  | .enum underlying => do
    let bs ← take underlying.wireSize
    pure (BitVec.ofNat _ (leNat bs))
  | .message fields => do
    let outer ← look Arena.exhausted
    change (Arena.setExhausted false)
    let vs ← decodeFields fields
    let exhausted ← look Arena.exhausted
    change (Arena.setExhausted outer)
    if fields.requiresArena && exhausted then fail else pure vs

/-- Decode the fields of a message. A message that ends where an optional field would begin lacks
it. -/
def decodeFields : (fields : WireFields) → Decoder Arena (Values fields)
  | .nil => pure ()
  | .cons true type rest => do
    tick
    if ← atEnd then do
      let vs ← decodeFields rest
      pure (none, vs)
    else do
      let flag ← take 1
      if leNat flag = 0 then do
        let vs ← decodeFields rest
        pure (none, vs)
      else do
        let v ← decodeType type
        let vs ← decodeFields rest
        pure (some v, vs)
  | .cons false type rest => do
    tick
    let v ← decodeType type
    let vs ← decodeFields rest
    pure (v, vs)

end

mutual

/-- Skip a field. -/
def skipType : (type : WireType) → Decoder Unit Unit
  | .primitive p => do
    let _ ← take p.wireSize
    pure ()
  | .string | .bytes => do
    let _ ← decodeCounted
    pure ()
  | .array p n => do
    let _ ← take (n * p.wireSize)
    pure ()
  | .primitiveList p => do
    let header ← take 4
    let _ ← take (p.wireSize * claimed header)
    pure ()
  | .list element => do
    let header ← take 4
    let _ ← times (do tick; skipType element) (claimed header)
    pure ()
  | .enum underlying => do
    let _ ← take underlying.wireSize
    pure ()
  | .message fields => skipFields fields

/-- Skip the fields of a message. -/
def skipFields : WireFields → Decoder Unit Unit
  | .nil => pure ()
  | .cons true type rest => do
    tick
    if ← atEnd then skipFields rest
    else do
      let flag ← take 1
      if leNat flag = 0 then skipFields rest
      else do
        skipType type
        skipFields rest
  | .cons false type rest => do
    tick
    skipType type
    skipFields rest

end

/-- A reading of a message that starts, with an arena that nothing has been taken from for it. -/
def Reader.start (bytes : Bytes) (allocator : BumpAllocator) : Reader Arena := ⟨bytes, 0, { allocator }⟩

section

variable (fields : WireFields) (bytes : Bytes)

/-- `decode`: the message, and the bytes consumed. -/
def decodeWith (allocator : BumpAllocator) : Option (Values fields × Nat) :=
  let (result, r) := decodeType claimed host (.message fields) (Reader.start bytes allocator)
  result.map fun vs => (vs, bytes.length - r.bytes.length)

/-- The steps that `decode` takes. -/
def decodeSteps (allocator : BumpAllocator) : Nat :=
  (decodeType claimed host (.message fields) (Reader.start bytes allocator)).2.steps

/-- `skip`: the bytes skipped. -/
def skipWith : Option Nat :=
  let (result, r) := skipType claimed (.message fields) ⟨bytes, 0, ()⟩
  result.map fun _ => bytes.length - r.bytes.length

/-- The steps that `skip` takes. -/
def skipSteps : Nat :=
  (skipType claimed (.message fields) ⟨bytes, 0, ()⟩).2.steps

end

end Decode

/-- `decode`, with counts read as little-endian numbers. -/
def decode (host : Host) (fields : WireFields) (bytes : Bytes) (allocator : BumpAllocator) :
    Option (Values fields × Nat) := decodeWith leNat host fields bytes allocator

/-- `skip`, with counts read as little-endian numbers. -/
def skip (fields : WireFields) (bytes : Bytes) : Option Nat := skipWith leNat fields bytes

end PubsubVenue
