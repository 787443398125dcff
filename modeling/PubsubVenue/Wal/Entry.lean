import PubsubVenue.Bytes
import PubsubVenue.Fallible
import Mathlib.Logic.Function.Iterate

/-! # Entries of the write-ahead log

One entry of a segment, as `WalWriter::append` writes it: a header of 24 bytes, the payload and a
checksum over both. `WalEntryChecks.hpp` holds the checks by which both readers tell a valid entry
from one that is damaged or not completely written, and either from space never written.

* **`WalEntry.validEntrySizeAt_bytes`**: an entry that was written is valid, with its length.
* **`validEntrySizeAt_drop`**: whether an entry is valid depends on the bytes from its first on.
* **`Quiet`**: bytes in which no valid entry starts. Every end part of them is quiet too. -/

namespace PubsubVenue

open List

/-! ## The checksum -/

/-- One of the 256 entries of the table of `Crc32`. -/
def Crc32.table (i : UInt32) : UInt32 :=
  (fun c : UInt32 => if c &&& 1 ≠ 0 then (0xEDB88320 : UInt32) ^^^ (c >>> 1) else c >>> 1)^[8] i

/-- `Crc32::feed`. -/
def Crc32.feed (state : UInt32) (data : Bytes) : UInt32 :=
  data.foldl (fun st b => Crc32.table ((st ^^^ b.toUInt32) &&& 0xFF) ^^^ (st >>> 8)) state

/-- A new `Crc32`, fed the bytes and finalized. -/
def Crc32.of (data : Bytes) : UInt32 := Crc32.feed 0xFFFFFFFF data ^^^ 0xFFFFFFFF

/-! ## Entries -/

/-- `WalWriter::entry_magic`. -/
def entryMagic : Nat := 0xFEEDFACE

/-- What `WalWriter::append` is called with. The payload's size is written in 32 bits, and every
caller gives it as an `int`. -/
structure WalEntry where
  recordId : Int64
  payload : Bytes
  fits : payload.length < 2 ^ 32
  deriving DecidableEq

namespace WalEntry

section

variable (e : WalEntry)

/-- The header as it lies in the segment: the magic number, the size, the record id and the filler. -/
def header : Bytes :=
  leBytes 4 entryMagic ++ (leBytes 4 e.payload.length ++ (leBytes 8 e.recordId.toUInt64.toNat ++ leBytes 8 0))

/-- The bytes of the entry, the checksum last. -/
def bytes : Bytes :=
  e.header ++ (e.payload ++ leBytes 4 (Crc32.of (e.header ++ e.payload)).toNat)

/-- The number of its bytes: `total` of `WalWriter::append`. -/
def size : Nat := 24 + e.payload.length + 4

@[simp] theorem length_header : e.header.length = 24 := by
  simp only [header, length_append, length_leBytes]

@[simp] theorem length_bytes : e.bytes.length = e.size := by
  simp only [bytes, size, length_append, length_header, length_leBytes]
  omega

theorem size_ge : 28 ≤ e.size := by
  unfold size
  omega

end

end WalEntry

/-! ## The checks of the readers -/

/-- `EntryHeader`, as it is copied out of a segment. -/
structure EntryHeader where
  magic : Nat
  payloadSize : Nat
  recordId : Int64

/-- The header at the start of the bytes. -/
def EntryHeader.read (bs : Bytes) : EntryHeader :=
  { magic := leNat (bs.take 4)
    payloadSize := leNat ((bs.drop 4).take 4)
    recordId := (UInt64.ofNat (leNat ((bs.drop 8).take 8))).toInt64 }

variable (base : Bytes) (offset : Nat)

/-- `valid_entry_size_at`: the length of a valid entry at an offset, or zero. -/
def validEntrySizeAt : Nat :=
  if offset + 24 + 4 > base.length then 0
  else
    let header := EntryHeader.read (base.drop offset)
    if header.magic ≠ entryMagic then 0
    else
      let entrySize := 24 + header.payloadSize + 4
      if header.payloadSize > base.length ∨ offset + entrySize > base.length then 0
      else
        let stored := UInt32.ofNat (leNat ((base.drop (offset + (24 + header.payloadSize))).take 4))
        if Crc32.of ((base.drop offset).take (24 + header.payloadSize)) = stored then entrySize else 0

/-- The bytes at the offset are the magic number. -/
def magicAt : Bool :=
  (base.drop offset).take 4 == leBytes 4 entryMagic

/-- The loop of `next_valid_entry_after` over the next offsets, as many as are left. -/
def firstValidEntry (base : Bytes) : Nat → Nat → Nat
  | 0, _ => base.length
  | left + 1, offset =>
    if magicAt base offset ∧ validEntrySizeAt base offset ≠ 0 then offset
    else firstValidEntry base left (offset + 1)

/-- `next_valid_entry_after`: the first valid entry after an offset, or the size of the segment. The
offsets tried are those with room for a header. -/
def nextValidEntryAfter : Nat :=
  firstValidEntry base (base.length - 24 - offset) (offset + 1)

/-- `all_zero`, up to the end of the segment. -/
def allZero : Bool := (base.drop offset).all (· == 0)

/-- An entry as a reader hands it on: where it lies, its record id and its payload. -/
structure WalRecord where
  segment : Nat
  offset : Nat
  recordId : Int64
  payload : Bytes
  deriving DecidableEq

/-- The entry at an offset that was found valid. -/
def recordAt (segment : Nat) (base : Bytes) (offset : Nat) : WalRecord :=
  let header := EntryHeader.read (base.drop offset)
  { segment := segment
    offset := offset
    recordId := header.recordId
    payload := (base.drop (offset + 24)).take header.payloadSize }

/-! ## What the checks say -/

variable {base : Bytes} {offset : Nat}

theorem allZero_iff : allZero base offset = true ↔ Zero (base.drop offset) := by
  unfold allZero Zero
  rw [all_eq_true]
  exact forall₂_congr fun b _ => beq_iff_eq

/-- **Whether an entry is valid depends on the bytes from its first on.** -/
theorem validEntrySizeAt_drop (base : Bytes) (n offset : Nat) :
    validEntrySizeAt (base.drop n) offset = validEntrySizeAt base (n + offset) := by
  unfold validEntrySizeAt
  simp only [length_drop, drop_drop]
  by_cases hroom : n + offset + 24 + 4 > base.length
  · rw [if_pos (show offset + 24 + 4 > base.length - n by omega), if_pos hroom]
  · rw [if_neg (show ¬offset + 24 + 4 > base.length - n by omega), if_neg hroom]
    generalize hheader : EntryHeader.read (base.drop (n + offset)) = header
    -- the size check against the whole segment adds nothing to the check against its end
    have hfits : (header.payloadSize > base.length - n ∨
      offset + (24 + header.payloadSize + 4) > base.length - n) ↔
        (header.payloadSize > base.length ∨ n + offset + (24 + header.payloadSize + 4) > base.length) := by
      omega
    simp only [hfits]
    simp only [Nat.add_assoc]

/-- A valid entry lies within its segment. -/
theorem validEntrySizeAt_le (base : Bytes) (offset : Nat) (h : validEntrySizeAt base offset ≠ 0) :
    28 ≤ validEntrySizeAt base offset ∧ offset + validEntrySizeAt base offset ≤ base.length := by
  revert h
  unfold validEntrySizeAt
  simp only
  split
  · exact fun h => absurd rfl h
  · split
    · exact fun h => absurd rfl h
    · split
      · exact fun h => absurd rfl h
      · split
        · omega
        · exact fun h => absurd rfl h

/-- A valid entry starts with the magic number. -/
theorem magicAt_of_valid (h : validEntrySizeAt base offset ≠ 0) : magicAt base offset = true := by
  revert h
  unfold validEntrySizeAt
  simp only
  split
  · exact fun h => absurd rfl h
  · rename_i hroom
    split
    · exact fun h => absurd rfl h
    · rename_i hmagic
      intro _
      have hlen : ((base.drop offset).take 4).length = 4 := by
        rw [length_take, length_drop]
        omega
      have hbytes := leBytes_leNat ((base.drop offset).take 4)
      rw [hlen, show leNat ((base.drop offset).take 4) = entryMagic from not_not.mp hmagic] at hbytes
      exact beq_iff_eq.mpr hbytes.symm

/-- The loop finds nothing exactly when no valid entry starts at the offsets it tries. -/
theorem firstValidEntry_eq_length {left : Nat} (hroom : offset + left ≤ base.length) :
    firstValidEntry base left offset = base.length ↔
      ∀ n, offset ≤ n → n < offset + left → validEntrySizeAt base n = 0 := by
  induction left generalizing offset with
  | zero =>
    refine ⟨fun _ n hge hlt => ?_, fun _ => rfl⟩
    omega
  | succ left ih =>
    unfold firstValidEntry
    by_cases hvalid : validEntrySizeAt base offset = 0
    · rw [if_neg (fun h => h.2 hvalid), ih (by omega)]
      constructor
      · intro h n hge hlt
        rcases Nat.eq_or_lt_of_le hge with rfl | hgt
        · exact hvalid
        · exact h n hgt (by omega)
      · intro h n hge hlt
        exact h n (by omega) (by omega)
    · rw [if_pos ⟨magicAt_of_valid hvalid, hvalid⟩]
      refine ⟨fun heq => ?_, fun h => absurd (h offset (Nat.le_refl _) (by omega)) hvalid⟩
      omega

/-! ## Bytes without a valid entry -/

/-- No valid entry starts anywhere in the bytes. -/
def Quiet (bs : Bytes) : Prop := ∀ n, validEntrySizeAt bs n = 0

/-- Only offsets with room for an entry matter. -/
theorem quiet_iff {bs : Bytes} : Quiet bs ↔ ∀ n ∈ range bs.length, validEntrySizeAt bs n = 0 := by
  refine ⟨fun h n _ => h n, fun h n => ?_⟩
  by_cases hn : n < bs.length
  · exact h n (mem_range.mpr hn)
  · unfold validEntrySizeAt
    exact if_pos (by omega)

instance (bs : Bytes) : Decidable (Quiet bs) := decidable_of_iff _ quiet_iff.symm

/-- The end part of quiet bytes is quiet. -/
theorem Quiet.drop {bs : Bytes} (h : Quiet bs) (n : Nat) : Quiet (bs.drop n) := by
  intro offset
  rw [validEntrySizeAt_drop]
  exact h (n + offset)

/-- Space never written is quiet. -/
theorem Zero.quiet {bs : Bytes} (h : Zero bs) : Quiet bs := by
  intro n
  by_contra hvalid
  have hmagic := magicAt_of_valid hvalid
  have hbytes : (bs.drop n).take 4 = leBytes 4 entryMagic := beq_iff_eq.mp hmagic
  have hzero : leNat ((bs.drop n).take 4) = 0 := leNat_zero ((h.drop n).take 4)
  rw [hbytes, leNat_leBytes (by decide)] at hzero
  exact absurd hzero (by decide)

/-- **When the readers find nothing after an offset**: neither there nor later does a valid entry
start. -/
theorem quiet_drop_iff (hoffset : offset ≤ base.length) : Quiet (base.drop offset) ↔
      validEntrySizeAt base offset = 0 ∧ nextValidEntryAfter base offset = base.length := by
  have hloop : nextValidEntryAfter base offset = base.length ↔
      ∀ n, offset + 1 ≤ n → n < offset + 1 + (base.length - 24 - offset) → validEntrySizeAt base n = 0 := by
    unfold nextValidEntryAfter
    by_cases hroom : offset + 1 + (base.length - 24 - offset) ≤ base.length
    · exact firstValidEntry_eq_length hroom
    · have hnone : base.length - 24 - offset = 0 := by omega
      rw [hnone]
      exact ⟨fun _ n hge hlt => absurd hlt (by omega), fun _ => rfl⟩
  rw [hloop]
  constructor
  · intro h
    refine ⟨?_, fun n hge _ => ?_⟩
    · rw [← Nat.add_zero offset, ← validEntrySizeAt_drop]
      exact h 0
    · rw [show n = offset + (n - offset) by omega, ← validEntrySizeAt_drop]
      exact h (n - offset)
  · rintro ⟨hhere, hlater⟩ n
    rw [validEntrySizeAt_drop]
    by_contra hvalid
    have hlen := validEntrySizeAt_le base (offset + n) hvalid
    rcases Nat.eq_zero_or_pos n with rfl | hn
    · exact hvalid hhere
    · exact hvalid (hlater (offset + n) (by omega) (by omega))

/-! ## Entries that were written -/

/-- The header is read back from an entry. -/
theorem WalEntry.read_bytes (e : WalEntry) (rest : Bytes) : EntryHeader.read (e.bytes ++ rest) =
      { magic := entryMagic, payloadSize := e.payload.length, recordId := e.recordId } := by
  have hsize : leNat (leBytes 4 e.payload.length) = e.payload.length := leNat_leBytes e.fits
  have hid : leNat (leBytes 8 e.recordId.toUInt64.toNat) = e.recordId.toUInt64.toNat :=
    leNat_leBytes e.recordId.toUInt64.toNat_lt
  unfold EntryHeader.read bytes header
  simp only [append_assoc]
  rw [take_left' (length_leBytes 4 entryMagic), drop_left' (length_leBytes 4 entryMagic),
    take_left' (length_leBytes 4 _), leNat_leBytes (by decide), hsize]
  rw [show (8 : Nat) = 4 + 4 from rfl, ← drop_drop, drop_left' (length_leBytes 4 entryMagic),
    drop_left' (length_leBytes 4 _), take_left' (length_leBytes 8 _), hid]
  simp

/-- **An entry that was written is valid, with its length.** -/
theorem WalEntry.validEntrySizeAt_bytes (e : WalEntry) (rest : Bytes) :
    validEntrySizeAt (e.bytes ++ rest) 0 = e.size := by
  have hlen : (e.bytes ++ rest).length = e.size + rest.length := by
    rw [length_append, e.length_bytes]
  have hroom : ¬(0 + 24 + 4 > (e.bytes ++ rest).length) := by
    have := e.size_ge
    omega
  have hfits : ¬(e.payload.length > (e.bytes ++ rest).length ∨
      0 + (24 + e.payload.length + 4) > (e.bytes ++ rest).length) := by
    rw [hlen]
    unfold size
    omega
  -- the bytes under the checksum, and the four after them
  have hcovered : (e.bytes ++ rest).take (24 + e.payload.length) = e.header ++ e.payload := by
    unfold bytes
    rw [← append_assoc e.header, append_assoc]
    exact take_left' (by rw [length_append, e.length_header])
  have hstored : ((e.bytes ++ rest).drop (24 + e.payload.length)).take 4 =
      leBytes 4 (Crc32.of (e.header ++ e.payload)).toNat := by
    unfold bytes
    rw [← append_assoc e.header, append_assoc, drop_left' (by rw [length_append, e.length_header])]
    exact take_left' (length_leBytes 4 _)
  unfold validEntrySizeAt
  simp only [drop_zero, e.read_bytes, Nat.zero_add] at hroom hfits ⊢
  rw [if_neg hroom, if_neg (not_not.mpr rfl), if_neg hfits, hcovered, hstored,
    leNat_leBytes (UInt32.toNat_lt _), UInt32.ofNat_toNat, if_pos rfl]
  rfl

/-- What a reader hands on of an entry that was written. -/
def WalEntry.record (segment offset : Nat) (e : WalEntry) : WalRecord :=
  { segment := segment, offset := offset, recordId := e.recordId, payload := e.payload }

/-- **An entry that was written is handed on with its record id and payload.** -/
theorem WalEntry.recordAt_bytes (segment : Nat) (before : Bytes) (e : WalEntry) (rest : Bytes) :
    recordAt segment (before ++ (e.bytes ++ rest)) before.length = e.record segment before.length := by
  have hpayload : ((before ++ (e.bytes ++ rest)).drop (before.length + 24)).take e.payload.length =
    e.payload := by
    rw [← drop_drop, drop_left]
    unfold bytes
    rw [append_assoc, drop_left' e.length_header, append_assoc]
    exact take_left
  unfold recordAt record
  simp only [drop_left, e.read_bytes, hpayload]

end PubsubVenue
