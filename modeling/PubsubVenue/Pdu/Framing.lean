import PubsubVenue.Bytes
import PubsubVenue.Machine

/-! # Frames on a stream

`PduFramer` puts a header before each payload and writes the frame as the stream takes it.
`PduParser` at the other end reads a header, takes a chunk of its size from the slab allocator,
reads the payload into the chunk, and dispatches it.

* **`PduFrame.headerField_header`**: a header is read as it was written.
* **`PduStream.frames_received`**: however the frames are written and read, those dispatched are the
  frames of which all bytes have arrived, in order, and every chunk is dispatched or given back
  once, unless the connection is torn down with a chunk in hand.
* **`PduStream.keeps_a_chunk`**: a connection that is torn down in the middle of a payload. -/

namespace PubsubVenue

open List

/-! ## The frame -/

/-- `pdu_canary_value`. -/
def pduCanaryValue : Nat := 0xC0FFEE00

/-- `sizeof(PduHeader)`. -/
def headerSize : Nat := 24

/-- A PDU, as it is handed to `send`. -/
structure PduFrame where
  pduId : BitVec 16
  version : UInt8
  seqNo : BitVec 64
  payload : Bytes
  deriving DecidableEq

/-- A number in network byte order. -/
def beBytes (n v : Nat) : Bytes := (leBytes n v).reverse

/-- The number in network byte order at a place of a header. -/
def headerField (offset size : Nat) (header : Bytes) : Nat :=
  leNat ((header.drop offset).take size).reverse

namespace PduFrame

variable (f : PduFrame)

/-- `PduHeader`, as it is written. -/
def header : Bytes :=
  beBytes 4 f.payload.length ++ (beBytes 2 f.pduId.toNat ++ ([f.version, 0] ++
    (beBytes 8 f.seqNo.toNat ++ (beBytes 4 pduCanaryValue ++ beBytes 4 0))))

/-- The frame on the stream. -/
def bytes : Bytes := f.header ++ f.payload

/-- What is dispatched of it: the PDU id, the sequence number, and the payload with its size. -/
def content : BitVec 16 × BitVec 64 × Int × Bytes := (f.pduId, f.seqNo, f.payload.length, f.payload)

@[simp] theorem length_header : f.header.length = headerSize := by
  simp [header, beBytes, headerSize]

theorem length_bytes : f.bytes.length = headerSize + f.payload.length := by
  rw [bytes, length_append, length_header]

/-- A field of a header is read back. -/
theorem headerField_append (before after : Bytes) {n v : Nat} (hv : v < 256 ^ n) :
    headerField before.length n (before ++ (beBytes n v ++ after)) = v := by
  have hlen : (beBytes n v).length = n := by simp [beBytes]
  unfold headerField
  rw [drop_left, take_left' hlen, beBytes, reverse_reverse, leNat_leBytes hv]

/-- **A header is read as it was written.** -/
theorem headerField_header (hsize : f.bytes.length < 2 ^ 32) :
    headerField 0 4 f.header = f.payload.length ∧ headerField 4 2 f.header = f.pduId.toNat ∧
      headerField 8 8 f.header = f.seqNo.toNat ∧ headerField 16 4 f.header = pduCanaryValue := by
  have hsize : f.payload.length < 256 ^ 4 := by
    rw [bytes, length_append] at hsize
    omega
  have hid : f.pduId.toNat < 256 ^ 2 := f.pduId.isLt
  have hseq : f.seqNo.toNat < 256 ^ 8 := f.seqNo.isLt
  have hcanary : pduCanaryValue < 256 ^ 4 := by decide
  let id := beBytes 2 f.pduId.toNat ++ [f.version, 0]
  exact ⟨headerField_append [] _ hsize, headerField_append (beBytes 4 f.payload.length) _ hid,
    headerField_append (beBytes 4 f.payload.length ++ id) _ hseq,
    headerField_append (beBytes 4 f.payload.length ++ (id ++ beBytes 8 f.seqNo.toNat)) _ hcanary⟩

end PduFrame

/-! ## The parser -/

/-- What becomes of a chunk of the slab allocator: it is dispatched with what it holds, or given
back. -/
inductive ChunkFate
  | dispatched (content : BitVec 16 × BitVec 64 × Int × Bytes)
  | returned
  deriving DecidableEq

/-- `PduParser`. Once the header has been validated there is a chunk, with what has been read into
it. The size, the PDU id and the sequence number are what the header says, which is kept until the
frame is dispatched. Chunks are numbered as they are taken; beside the fields of the source: how
many have been, and what became of them. -/
structure PduParser where
  headerBuffer : Bytes := []
  payloadChunk : Option (Nat × Bytes) := none
  isOpen : Bool := true
  allocated : Nat := 0
  fates : List (Nat × ChunkFate) := []
  deriving DecidableEq

/-- What `stream_.receive` can give: bytes, nothing for now, or the end of the stream or an error. -/
inductive StreamRead
  | data (bytes : Bytes)
  | wouldBlock
  | ended
  deriving DecidableEq

/-- The bytes read. -/
def StreamRead.bytes : StreamRead → Bytes
  | .data bytes => bytes
  | .wouldBlock | .ended => []

namespace PduParser

variable (p : PduParser)

/-- `current_payload_size_`. -/
def payloadSize : Nat := headerField 0 4 p.headerBuffer

/-- The room that is offered to `stream_.receive`. -/
def room : Nat :=
  match p.payloadChunk with
  | none => headerSize - p.headerBuffer.length
  | some (_, received) => p.payloadSize - received.length

/-- The chunk in hand. -/
def inHand : Option Nat := p.payloadChunk.map Prod.fst

/-- What has been dispatched, in order. -/
def dispatched : List (BitVec 16 × BitVec 64 × Int × Bytes) :=
  p.fates.filterMap fun
    | (_, .dispatched content) => some content
    | (_, .returned) => none

/-- The bytes complete the header that is being read. -/
def completesHeader (bytes : Bytes) : Bool :=
  p.payloadChunk.isNone && decide (headerSize ≤ p.headerBuffer.length + bytes.length)

/-- `receive` returns false: a chunk in hand is given back. -/
def fail : PduParser :=
  { p with
    isOpen := false
    payloadChunk := none
    fates := p.fates ++ p.inHand.toList.map fun chunk => (chunk, .returned) }

variable (slabSize : Nat) (hasChunk : Bool)

/-- A complete header: it is checked, and a chunk is taken for the payload if the allocator has one. -/
def validate : PduParser :=
  if headerField 16 4 p.headerBuffer ≠ pduCanaryValue then p.fail
  else if p.payloadSize = 0 then p.fail
  else if slabSize < p.payloadSize then p.fail
  else if hasChunk then
    { p with payloadChunk := some (p.allocated, []), allocated := p.allocated + 1 }
  else p.fail

/-- `~PduParser`, which is the default one: a chunk in hand is not given back. -/
def destroy : PduParser := { p with isOpen := false }

/-- `dispatch_pdu`, which hands the size on as an `int`, and `reset_header`. -/
def dispatch (chunk : Nat) (payload : Bytes) : PduParser :=
  let pduId := BitVec.ofNat 16 (headerField 4 2 p.headerBuffer)
  let seqNo := BitVec.ofNat 64 (headerField 8 8 p.headerBuffer)
  let size := (BitVec.ofNat 32 p.payloadSize).toInt
  { p with
    headerBuffer := []
    payloadChunk := none
    fates := p.fates ++ [(chunk, .dispatched (pduId, seqNo, size, payload))] }

/-- `receive`, from one read of the stream to the next. -/
def receive : StreamRead → PduParser
  | .wouldBlock => p
  | .ended => p.fail
  | .data bytes =>
    match p.payloadChunk with
    | none =>
      let p := { p with headerBuffer := p.headerBuffer ++ bytes }
      if p.headerBuffer.length < headerSize then p else p.validate slabSize hasChunk
    | some (chunk, received) =>
      let received := received ++ bytes
      if received.length < p.payloadSize then { p with payloadChunk := some (chunk, received) }
      else p.dispatch chunk received

/-- Every chunk that was taken is in hand or has met its fate, once. -/
def Accounts : Prop := p.fates.map Prod.fst ++ p.inHand.toList = range p.allocated

/-- **The parser has this part of the frames to come**: less than the header of the next, or its
header and what is in the chunk. -/
def Holds (part : Bytes) (rest : List PduFrame) : Prop :=
  match p.payloadChunk with
  | none => p.headerBuffer = part ∧ part.length < headerSize
  | some (_, received) => ∃ f ∈ rest.head?, p.headerBuffer = f.header ∧ part = f.header ++ received

/-- The frame has a payload, which the slab allocator has chunks for. -/
abbrev Fits (f : PduFrame) : Prop :=
  f.payload ≠ [] ∧ f.payload.length ≤ slabSize ∧ f.bytes.length < 2 ^ 32

variable {p slabSize} {part : Bytes} {rest : List PduFrame} {f : PduFrame}

/-- Frames that come later do not matter. -/
theorem Holds.append (h : p.Holds part rest) (f : PduFrame) : p.Holds part (rest ++ [f]) := by
  unfold Holds at h ⊢
  split at h
  · exact h
  · obtain ⟨g, hg, hc⟩ := h
    exact ⟨g, mem_head?_append_of_mem_head? hg, hc⟩

/-- Failing gives back a chunk in hand, and dispatches nothing. -/
theorem fail_spec (ha : p.Accounts) : p.fail.Accounts ∧ p.fail.dispatched = p.dispatched := by
  unfold Accounts at ha
  simp [Accounts, dispatched, fail, ← ha, inHand, Function.comp_def]

variable (hasChunk : Bool)

/-- **The header of a frame passes.** -/
theorem validate_header (hf : Fits slabSize f) (hheader : p.headerBuffer = f.header) :
    p.validate slabSize hasChunk = if hasChunk then
        { p with payloadChunk := some (p.allocated, []), allocated := p.allocated + 1 }
      else p.fail := by
  obtain ⟨hsize, -, -, hcanary⟩ := f.headerField_header hf.2.2
  have hslab := Nat.not_lt.mpr hf.2.1
  simp [validate, payloadSize, hheader, hsize, hcanary, hf.1, hslab]

/-- **What a read makes of the parser**, of which `part` was read before: every chunk is accounted
for; the parser stops exactly at the end of the stream and for want of a chunk, and then has none in
hand; and what is read is added to the part of the next frame that the parser holds, or completes
the frame, which is dispatched. -/
structure Reads (p : PduParser) (hasChunk : Bool) (part : Bytes) (rest : List PduFrame) (r : StreamRead)
    (q : PduParser) : Prop where
  accounts : q.Accounts
  stops : q.isOpen = false ↔ r = .ended ∨ hasChunk = false ∧ p.completesHeader r.bytes = true
  inHand : q.isOpen = false → q.inHand = none
  progress : (q.dispatched = p.dispatched ∧ (q.isOpen = true → q.Holds (part ++ r.bytes) rest) ∧
      ∀ f ∈ rest.head?, (part ++ r.bytes).length < f.bytes.length) ∨
    ∃ f later, rest = f :: later ∧ part ++ r.bytes = f.bytes ∧ q.Holds [] later ∧
      q.dispatched = p.dispatched ++ [f.content]

section Data

variable {bytes more : Bytes} (hf : Fits slabSize f) (ha : p.Accounts) (hopen : p.isOpen = true)
include hf ha hopen

/-- **Bytes of a header**: it is still incomplete, or it is checked and a chunk is taken. -/
theorem reads_header (hc : p.payloadChunk = none) (hshort : p.headerBuffer.length < headerSize)
    (hroom : bytes.length ≤ headerSize - p.headerBuffer.length)
    (hbytes : p.headerBuffer ++ (bytes ++ more) = f.header ++ (f.payload ++ rest.flatMap PduFrame.bytes)) :
    p.Reads hasChunk p.headerBuffer (f :: rest) (.data bytes)
      (p.receive slabSize hasChunk (.data bytes)) := by
  have hpos := length_pos_iff.mpr hf.1
  have hlen : (p.headerBuffer ++ bytes).length = p.headerBuffer.length + bytes.length := length_append
  have hless : ∀ g ∈ (f :: rest).head?, (p.headerBuffer ++ bytes).length < g.bytes.length := fun g hg => by
    obtain rfl := Option.some.inj hg
    rw [PduFrame.length_bytes]
    omega
  have hnew : Accounts { p with headerBuffer := p.headerBuffer ++ bytes } := ha
  rw [← append_assoc] at hbytes
  simp only [receive, hc] at hnew ⊢
  split
  · next hincomplete =>
    have hgoes : p.completesHeader bytes = false := by
      simp only [completesHeader, hc, Option.isNone_none, Bool.true_and, decide_eq_false_iff_not]
      omega
    exact ⟨hnew, by simp [hopen, StreamRead.bytes, hgoes], by simp [hopen],
      .inl ⟨rfl, fun _ => ⟨rfl, hincomplete⟩, hless⟩⟩
  · next hfull =>
    have hcompletes : p.completesHeader bytes = true := by
      simp only [completesHeader, hc, Option.isNone_none, Bool.true_and, decide_eq_true_eq]
      omega
    have heq : p.headerBuffer ++ bytes = f.header :=
      (append_inj hbytes (by rw [PduFrame.length_header]; omega)).1
    rw [validate_header hasChunk hf heq]
    cases hasChunk with
    | true =>
      refine ⟨?_, by simp [hopen], by simp [hopen], .inl ⟨rfl, fun _ => ⟨f, rfl, heq, ?_⟩, hless⟩⟩
      · simpa [Accounts, PduParser.inHand, range_succ, hc] using ha
      · rw [append_nil, ← heq]
        rfl
    | false =>
      obtain ⟨hacc, hsame⟩ := fail_spec hnew
      exact ⟨hacc, by simp [fail, StreamRead.bytes, hcompletes], fun _ => rfl,
        .inl ⟨hsame, by simp [fail], hless⟩⟩

/-- **Bytes of a payload**: it is still incomplete, or the frame is dispatched. -/
theorem reads_payload (hslab : slabSize < 2 ^ 31) {chunk : Nat} {received : Bytes}
    (hc : p.payloadChunk = some (chunk, received)) (hheader : p.headerBuffer = f.header)
    (hroom : bytes.length ≤ f.payload.length - received.length)
    (hbytes : received ++ (bytes ++ more) = f.payload ++ rest.flatMap PduFrame.bytes)
    (hlt : received.length < f.payload.length) :
    p.Reads hasChunk (f.header ++ received) (f :: rest) (.data bytes)
      (p.receive slabSize hasChunk (.data bytes)) := by
  obtain ⟨hsize, hid, hseq, -⟩ := f.headerField_header hf.2.2
  have hint : (BitVec.ofNat 32 f.payload.length).toInt = f.payload.length := by
    have := hf.2.1
    rw [BitVec.toInt_eq_toNat_of_lt] <;> rw [BitVec.toNat_ofNat, Nat.mod_eq_of_lt (by omega)]
    omega
  have hgoes : p.completesHeader bytes = false := by simp [completesHeader, hc]
  simp only [receive, hc]
  rw [payloadSize, hheader, hsize]
  split
  · next hincomplete =>
    refine ⟨?_, by simp [hopen, StreamRead.bytes, hgoes], by simp [hopen],
      .inl ⟨rfl, fun _ => ⟨f, rfl, rfl, append_assoc ..⟩, fun g hg => ?_⟩⟩
    · simpa [Accounts, PduParser.inHand, hc] using ha
    · obtain rfl := Option.some.inj hg
      rw [PduFrame.length_bytes, append_assoc, length_append, PduFrame.length_header]
      exact Nat.add_lt_add_left hincomplete _
  · next hfull =>
    have heq : received ++ bytes = f.payload := by
      rw [← append_assoc] at hbytes
      refine (append_inj hbytes ?_).1
      rw [length_append] at hfull ⊢
      omega
    refine ⟨?_, by simp [dispatch, hopen, StreamRead.bytes, hgoes], by simp [dispatch, hopen],
      .inr ⟨f, rest, rfl, ?_, ⟨rfl, Nat.zero_lt_succ _⟩, ?_⟩⟩
    · simpa [Accounts, PduParser.inHand, dispatch, hc] using ha
    · rw [append_assoc, PduFrame.bytes]
      exact congrArg _ heq
    · simp [dispatched, dispatch, payloadSize, hheader, hsize, hint, hid, hseq, heq, PduFrame.content]

end Data

/-- **What is read of a stream of frames.** -/
theorem receive_spec {r : StreamRead} {more : Bytes} (hslab : slabSize < 2 ^ 31)
    (hfits : ∀ f ∈ rest, Fits slabSize f)
    (h : p.Holds part rest) (hlt : ∀ f ∈ rest.head?, part.length < f.bytes.length) (ha : p.Accounts)
    (hopen : p.isOpen = true) (hdata : r ≠ .data []) (hroom : r.bytes.length ≤ p.room)
    (hbytes : part ++ (r.bytes ++ more) = rest.flatMap PduFrame.bytes) :
    p.Reads hasChunk part rest r (p.receive slabSize hasChunk r) := by
  cases r with
  | wouldBlock =>
    -- nothing is read, so no header is completed that was not complete before
    have hgoes : p.completesHeader [] = false := by
      unfold Holds at h
      cases hc : p.payloadChunk with
      | none =>
        rw [hc] at h
        obtain ⟨rfl, hshort⟩ := h
        simpa [completesHeader, hc] using hshort
      | some => simp [completesHeader, hc]
    refine ⟨ha, by simp [receive, hopen, StreamRead.bytes, hgoes], by simp [receive, hopen], .inl ⟨rfl, ?_⟩⟩
    simp only [StreamRead.bytes, append_nil, receive]
    exact ⟨fun _ => h, hlt⟩
  | ended =>
    obtain ⟨hacc, hsame⟩ := fail_spec ha
    refine ⟨hacc, by simp [receive, fail], fun _ => rfl, .inl ⟨hsame, by simp [receive, fail], ?_⟩⟩
    rwa [StreamRead.bytes, append_nil]
  | data bytes =>
    obtain ⟨f, rest, rfl⟩ : ∃ f later, rest = f :: later :=
      exists_cons_of_ne_nil (by rintro rfl; simp_all [StreamRead.bytes])
    have hf := hfits f mem_cons_self
    have hlt := hlt f rfl
    rw [flatMap_cons, PduFrame.bytes, append_assoc] at hbytes
    unfold Holds at h
    unfold room at hroom
    cases hc : p.payloadChunk with
    | none =>
      simp only [hc, StreamRead.bytes] at h hroom
      obtain ⟨rfl, hshort⟩ := h
      exact reads_header hasChunk hf ha hopen hc hshort hroom hbytes
    | some c =>
      obtain ⟨chunk, received⟩ := c
      simp only [hc, StreamRead.bytes] at h hroom
      obtain ⟨g, hg, hheader, rfl⟩ := h
      obtain rfl := Option.some.inj hg
      rw [payloadSize, hheader, (f.headerField_header hf.2.2).1] at hroom
      rw [append_assoc] at hbytes
      rw [PduFrame.length_bytes, length_append, PduFrame.length_header] at hlt
      exact reads_payload hasChunk hf ha hopen hslab hc hheader hroom (append_cancel_left hbytes) (by omega)

end PduParser

/-! ## The two ends -/

/-- A framer and a parser with a stream between them: the frames that the framer has accepted, the
bytes of the last that are not written yet, the bytes on their way and those that the parser has
read. -/
structure PduStream where
  accepted : List PduFrame := []
  unsent : Bytes := []
  /-- A write has failed: the framer's connection is torn down, and these bytes are never written. -/
  unwritten : Option Bytes := none
  inFlight : Bytes := []
  arrived : Bytes := []
  parser : PduParser := {}
  /-- The stream has ended or failed for the parser, or there was no chunk for it, or its connection
  has been torn down. -/
  broken : Bool := false
  /-- The parser's connection was torn down with a chunk in hand. -/
  heldAtTeardown : Bool := false

/-- What happens to the two ends. -/
inductive StreamAction
  /-- A frame is handed to `send`, or, ready made, to `send_prebuilt`. -/
  | send (f : PduFrame) (prebuilt : Bool)
  /-- The stream takes so many bytes from `continue_send`. -/
  | write (n : Nat)
  /-- The stream gives an error to `continue_send`. -/
  | writeFails
  | receive (r : StreamRead) (hasChunk : Bool)
  /-- `teardown_connection` at the parser's end, other than after a read: a send has failed, nothing
  has been received for too long, or the application has asked for it. -/
  | teardown

namespace PduStream

/-- `PduFramer::max_payload_size`. -/
def maxPayloadSize : Nat := 256

/-- **One thing that happens to the two ends.** A zero-byte read is the end of the stream. -/
def step (slabSize : Nat) : Machine PduStream StreamAction
  | s, .send f prebuilt =>
    if s.unwritten = none ∧ s.unsent = [] ∧ (prebuilt ∨ f.payload.length ≤ maxPayloadSize) ∧
        PduParser.Fits slabSize f then
      some { s with accepted := s.accepted ++ [f], unsent := f.bytes }
    else none
  | s, .write n => some { s with unsent := s.unsent.drop n, inFlight := s.inFlight ++ s.unsent.take n }
  | s, .writeFails =>
    if s.unwritten = none then some { s with unsent := [], unwritten := some s.unsent } else none
  | s, .receive r hasChunk =>
    if s.parser.isOpen ∧ r ≠ .data [] ∧ r.bytes.length ≤ s.parser.room ∧ r.bytes <+: s.inFlight then
      some { s with
        inFlight := s.inFlight.drop r.bytes.length
        arrived := s.arrived ++ r.bytes
        parser := s.parser.receive slabSize hasChunk r
        broken := s.broken || r = .ended || !hasChunk && s.parser.completesHeader r.bytes }
    else none
  | s, .teardown =>
    if s.parser.isOpen then
      some { s with parser := s.parser.destroy, broken := true, heldAtTeardown := s.parser.inHand.isSome }
    else none

/-- The bytes of the frames accepted that have not been put on the stream. -/
def unput (s : PduStream) : Bytes := s.unsent ++ s.unwritten.getD []

variable {slabSize : Nat} {s : PduStream}

/-- **What holds of the two ends**: what the parser has of a frame, the bytes on their way and those
not written are the bytes of the frames not dispatched. -/
structure Delivers (slabSize : Nat) (s : PduStream) : Prop where
  fits : ∀ f ∈ s.accepted, PduParser.Fits slabSize f
  accounts : s.parser.Accounts
  stopped : s.parser.isOpen = false ↔ s.broken = true
  held : s.heldAtTeardown = true → s.parser.isOpen = false
  inHand : s.parser.isOpen = false → (s.parser.inHand = none ↔ s.heldAtTeardown = false)
  failed : s.unwritten ≠ none → s.unsent = []
  frames : ∃ done rest part, s.accepted = done ++ rest ∧
    s.parser.dispatched = done.map PduFrame.content ∧ s.arrived = done.flatMap PduFrame.bytes ++ part ∧
    part ++ (s.inFlight ++ s.unput) = rest.flatMap PduFrame.bytes ∧
    (s.parser.isOpen = true → s.parser.Holds part rest) ∧ ∀ f ∈ rest.head?, part.length < f.bytes.length

/-- **Reading keeps it.** -/
theorem Delivers.receive (hslab : slabSize < 2 ^ 31) (h : s.Delivers slabSize) {r : StreamRead}
    {hasChunk : Bool} {t : PduStream} (hstep : step slabSize s (.receive r hasChunk) = some t) :
    t.Delivers slabSize := by
  obtain ⟨⟨hopen, hdata, hroom, more, hmore⟩, ⟨⟩⟩ := Option.ite_none_right_eq_some.mp hstep
  obtain ⟨done, rest, part, hacc, hdone, harrived, hbytes, hholds, hlt⟩ := h.frames
  rw [← hmore, append_assoc] at hbytes
  have hfits : ∀ f ∈ rest, PduParser.Fits slabSize f := fun f hf => h.fits f (by simp [hacc, hf])
  obtain ⟨haccounts, hstops, hinHand, hcases⟩ :=
    PduParser.receive_spec hasChunk hslab hfits (hholds hopen) hlt
    h.accounts hopen hdata hroom hbytes
  have hwhole : s.broken = false := by
    rw [← Bool.not_eq_true, ← h.stopped, hopen]
    decide
  have hnever : s.heldAtTeardown = false := by
    rw [← Bool.not_eq_true]
    exact fun hheld => absurd (h.held hheld) (by simp [hopen])
  refine ⟨h.fits, haccounts, ?_, fun hheld => by simp [hnever] at hheld, fun hclosed => ?_, h.failed, ?_⟩
  · rw [hstops]
    simp [hwhole]
  · exact iff_of_true (hinHand hclosed) hnever
  have hdrop : s.inFlight.drop r.bytes.length = more := by rw [← hmore, drop_left]
  simp only [hdrop, harrived]
  rcases hcases with ⟨hsame, hnext, hless⟩ | ⟨f, later, rfl, hall, hnext, hsent⟩
  · exact ⟨done, rest, part ++ r.bytes, hacc, hsame.trans hdone, append_assoc ..,
      by simpa [unput] using hbytes, hnext, hless⟩
  · rw [← append_assoc, hall, flatMap_cons] at hbytes
    exact ⟨done ++ [f], later, [], by simp [hacc], by simp [hsent, hdone], by simp [hall],
      append_cancel_left hbytes, fun _ => hnext, by simp [PduFrame.bytes, headerSize]⟩

/-- **Whatever happens keeps it.** -/
theorem delivers_invariant (hslab : slabSize < 2 ^ 31) : (step slabSize).Invariant (Delivers slabSize) := by
  intro s action t h hstep
  obtain ⟨done, rest, part, hacc, hdone, harrived, hbytes, hholds, hlt⟩ := h.frames
  cases action with
  | receive => exact h.receive hslab hstep
  | send f =>
    obtain ⟨⟨hunwritten, hunsent, -, hf⟩, ⟨⟩⟩ := Option.ite_none_right_eq_some.mp hstep
    refine { h with
      fits := fun g hg => ?_
      failed := fun hne => absurd hunwritten hne
      frames := ⟨done, rest ++ [f], part, by simp [hacc], hdone, harrived, ?_,
        fun hopen => (hholds hopen).append f, ?_⟩ }
    · exact (mem_append.mp hg).elim (h.fits g) fun hg => mem_singleton.mp hg ▸ hf
    · rw [unput, hunsent, hunwritten] at hbytes
      simp [unput, hunwritten, ← hbytes]
    · -- With nothing left to dispatch the parser has no part of a frame.
      cases rest with
      | nil =>
        obtain rfl := (append_eq_nil_iff.mp hbytes).1
        simp [PduFrame.bytes, headerSize]
      | cons => exact hlt
  | write =>
    obtain rfl := Option.some.inj hstep
    refine { h with
      failed := fun hne => by simp [h.failed hne]
      frames := ⟨done, rest, part, hacc, hdone, harrived, ?_, hholds, hlt⟩ }
    rw [← hbytes, unput, unput, append_assoc, ← append_assoc (take ..), take_append_drop]
  | writeFails =>
    obtain ⟨hunwritten, ⟨⟩⟩ := Option.ite_none_right_eq_some.mp hstep
    rw [unput, hunwritten, Option.getD_none, append_nil] at hbytes
    exact { h with
      failed := fun _ => rfl
      frames := ⟨done, rest, part, hacc, hdone, harrived, hbytes, hholds, hlt⟩ }
  | teardown =>
    obtain ⟨hopen, ⟨⟩⟩ := Option.ite_none_right_eq_some.mp hstep
    exact { h with
      stopped := by simp [PduParser.destroy]
      held := fun _ => rfl
      inHand := fun _ => by simp [PduParser.destroy, PduParser.inHand]
      frames := ⟨done, rest, part, hacc, hdone, harrived, hbytes, nofun, hlt⟩ }

/-- **Frames sent are frames received.** In every run those dispatched are the first of the frames
accepted, each with its PDU id, sequence number, payload and size: those of which all bytes have
arrived. The bytes that have arrived, those on their way and those not written are the bytes of the
frames accepted. The parser stops exactly when the stream ends or fails, there is no chunk, or its
connection is torn down. Every chunk has been dispatched or given back once, but for one in hand;
and when the parser has stopped there is one in hand exactly if there was when the connection was
torn down. -/
theorem frames_received (hslab : slabSize < 2 ^ 31) {actions : List StreamAction}
    (hrun : (step slabSize).run {} actions = some s) :
    (∃ done rest part, s.accepted = done ++ rest ∧ s.parser.dispatched = done.map PduFrame.content ∧
        s.arrived = done.flatMap PduFrame.bytes ++ part ∧ ∀ f ∈ rest.head?, part.length < f.bytes.length) ∧
      s.arrived ++ (s.inFlight ++ s.unput) = s.accepted.flatMap PduFrame.bytes ∧
      s.parser.fates.map Prod.fst ++ s.parser.inHand.toList = range s.parser.allocated ∧
      (s.parser.isOpen = false ↔ s.broken = true) ∧
      (s.broken = true → (s.parser.inHand = none ↔ s.heldAtTeardown = false)) := by
  have hstart : Delivers slabSize {} :=
    ⟨by simp, rfl, by simp, nofun, nofun, fun _ => rfl, [], [], [], rfl, rfl, rfl, rfl, fun _ => ⟨rfl, by decide⟩,
      by simp⟩
  have h := (delivers_invariant hslab).run hstart hrun
  obtain ⟨done, rest, part, hacc, hdone, harrived, hbytes, -, hlt⟩ := h.frames
  refine ⟨⟨done, rest, part, hacc, hdone, harrived, hlt⟩, ?_, h.accounts, h.stopped,
    fun hbroken => h.inHand (h.stopped.mpr hbroken)⟩
  simp [harrived, hacc, ← hbytes]

/-- A frame is read in pieces and dispatched, and of the next the header and half of the payload. -/
def readInPieces : List StreamAction :=
  let f : PduFrame := ⟨3, 1, 9, [7, 8]⟩
  [.send f false, .write 20, .receive (.data (f.bytes.take 20)) true, .receive .wouldBlock true, .write 6,
    .receive (.data ((f.bytes.drop 20).take 4)) true, .receive (.data [7, 8]) true, .send f true,
    .write 25, .receive (.data f.header) true, .receive (.data [7]) true]

/-- The first frame is dispatched, and the chunk of the second is given back when the stream ends. -/
theorem frames_received_in_pieces : ∃ s, (step 64).run {} (readInPieces ++ [.receive .ended true]) = some s ∧
      s.parser.fates = [(0, .dispatched (3, 9, 2, [7, 8])), (1, .returned)] ∧ s.parser.inHand = none := by
  obtain ⟨s, hrun, hfates, hbroken, hnever⟩ := Machine.exists_run_of_any (step 64) {}
    (readInPieces ++ [.receive .ended true])
    (fun s => s.parser.fates = [(0, .dispatched (3, 9, 2, [7, 8])), (1, .returned)] ∧ s.broken = true ∧
      s.heldAtTeardown = false) (by decide +kernel)
  exact ⟨s, hrun, hfates, ((frames_received (by decide) hrun).2.2.2.2 hbroken).mpr hnever⟩

/-- **A chunk is neither dispatched nor given back**: the connection is torn down in the middle of a
payload, for a reason other than a read. -/
theorem keeps_a_chunk : ∃ s, (step 64).run {} (readInPieces ++ [.teardown]) = some s ∧
      s.parser.isOpen = false ∧ s.parser.allocated = 2 ∧
      s.parser.fates = [(0, .dispatched (3, 9, 2, [7, 8]))] ∧ s.parser.inHand = some 1 :=
  Machine.exists_run_of_any (step 64) {} _ _ (by decide +kernel)

end PduStream

end PubsubVenue
