import PubsubVenue.Bytes

/-! # Framing a FIX message

`FixMessageReader` frames one message at the start of a window of bytes: the BeginString and
BodyLength fields come first, and the BodyLength says where the Checksum field is.

* **`frame_append`**: what is said of a window that holds a whole message, or no message, stays true
  when bytes are added to it. -/

namespace PubsubVenue

open List

/-- The byte after each field. -/
def soh : UInt8 := 1

/-- The value of a text of digits. -/
def digitsValue (text : Bytes) : Option Nat :=
  if text ≠ [] ∧ text.all (fun b => decide (48 ≤ b ∧ b ≤ 57)) then
    some (text.foldl (fun n b => 10 * n + (b.toNat - 48)) 0)
  else none

/-- `parse_number<int>`, where it does not fall back: `std::from_chars` of the whole text. -/
def parseInt : Bytes → Option Int
  | 45 :: digits => (digitsValue digits).bind fun n => if n ≤ 2147483648 then some (-n) else none
  | digits => (digitsValue digits).bind fun n => if n ≤ 2147483647 then some n else none

/-- `find_delimiter`. -/
def findDelimiter (text : Bytes) (start : Nat) : Option Nat :=
  ((text.drop start).findIdx? (· == soh)).map (start + ·)

/-- `compute_checksum`, in an `unsigned int`. -/
def computeChecksum (message : Bytes) : Nat :=
  message.foldl (fun sum b => (sum + b.toNat) % 4294967296) 0 % 256

/-- `checksum_matches`. -/
def checksumMatches (message received : Bytes) : Bool :=
  decide (received.length = 3) && decide (digitsValue received = some (computeChecksum message))

/-- `FixMessageReader::Status`. -/
inductive FixStatus where
  | valid
  | incomplete
  | malformed
  | checksumError
  deriving DecidableEq

/-- `FixMessageReader`: the status, the explanation if it is not valid, and the size of the message. -/
structure FixMessageReader where
  status : FixStatus
  error : Option String := none
  messageSize : Nat := 0
  deriving DecidableEq

namespace FixMessageReader

/-- `frame_checksum`. -/
def frameChecksum (window : Bytes) (bodyLengthEnd bodyLength : Nat) : FixMessageReader :=
  let tagStart := bodyLengthEnd + 1 + bodyLength
  if window.length < tagStart + 3 then
    ⟨.incomplete, "message truncated before the Checksum (tag 10) field", 0⟩
  else if (window.drop tagStart).take 3 ≠ [49, 48, 61] then
    ⟨.malformed, "tag 10 (Checksum) is not at the offset BodyLength indicates", 0⟩
  else
    match findDelimiter window tagStart with
    | none => ⟨.incomplete, "Checksum (tag 10) field is not terminated by SOH", 0⟩
    | some checksumEnd =>
      if checksumMatches (window.take tagStart)
        ((window.drop (tagStart + 3)).take (checksumEnd - tagStart - 3)) then
        ⟨.valid, none, checksumEnd + 1⟩
      else ⟨.checksumError, "Checksum (tag 10) does not match the computed value", checksumEnd + 1⟩

/-- `frame`. -/
def frame (window : Bytes) : FixMessageReader :=
  if window.length < 2 then
    ⟨.incomplete, "message truncated before the BeginString (tag 8) field", 0⟩
  else if window.take 2 ≠ [56, 61] then
    ⟨.malformed, "message does not start with tag 8 (BeginString)", 0⟩
  else
    match findDelimiter window 0 with
    | none => ⟨.incomplete, "BeginString (tag 8) field is not terminated by SOH", 0⟩
    | some beginStringEnd =>
      let tagStart := beginStringEnd + 1
      if window.length < tagStart + 2 then
        ⟨.incomplete, "message truncated before the BodyLength (tag 9) field", 0⟩
      else if (window.drop tagStart).take 2 ≠ [57, 61] then
        ⟨.malformed, "tag 9 (BodyLength) must be the second field", 0⟩
      else
        match findDelimiter window tagStart with
        | none => ⟨.incomplete, "BodyLength (tag 9) field is not terminated by SOH", 0⟩
        | some bodyLengthEnd =>
          match parseInt ((window.drop (tagStart + 2)).take (bodyLengthEnd - tagStart - 2)) with
          | none => ⟨.malformed, "BodyLength (tag 9) is not a number", 0⟩
          | some bodyLength =>
            if bodyLength ≤ 0 then ⟨.malformed, "BodyLength (tag 9) must be a positive integer", 0⟩
            else frameChecksum window bodyLengthEnd bodyLength.toNat

/-! ## More bytes -/

section Append

variable {window : Bytes} (more : Bytes)

/-- A delimiter that is found is within the text, and is the one that is found in a longer text. -/
theorem findDelimiter_append {start i : Nat} (h : findDelimiter window start = some i) :
    i < window.length ∧ start ≤ i ∧ findDelimiter (window ++ more) start = some i := by
  unfold findDelimiter at h ⊢
  obtain ⟨k, hk, rfl⟩ := Option.map_eq_some_iff.mp h
  have hlt := (findIdx?_eq_some_iff_findIdx_eq.mp hk).1
  rw [length_drop] at hlt
  refine ⟨by omega, Nat.le_add_right _ _, ?_⟩
  rw [drop_append_of_le_length (by omega), findIdx?_append, hk]
  rfl

/-- A part of the window is a part of a longer window. -/
theorem drop_take_append {start size : Nat} (h : start + size ≤ window.length) :
    ((window ++ more).drop start).take size = (window.drop start).take size := by
  rw [drop_append_of_le_length (by omega), take_append_of_le_length]
  rw [length_drop]
  omega

/-- What `frame_checksum` says of a window stays true, unless it waits for more bytes. -/
theorem frameChecksum_append {bodyLengthEnd bodyLength : Nat}
    (h : (frameChecksum window bodyLengthEnd bodyLength).status ≠ .incomplete) :
    frameChecksum (window ++ more) bodyLengthEnd bodyLength = frameChecksum window bodyLengthEnd bodyLength ∧
      (frameChecksum window bodyLengthEnd bodyLength).messageSize ≤ window.length ∧
      ((frameChecksum window bodyLengthEnd bodyLength).status ≠ .malformed →
        0 < (frameChecksum window bodyLengthEnd bodyLength).messageSize) := by
  unfold frameChecksum at h ⊢
  simp only at h ⊢
  split at h
  · exact absurd rfl h
  rename_i hlen
  rw [if_neg (by rw [length_append]; omega), if_neg hlen, drop_take_append more (by omega)]
  split
  · exact ⟨rfl, Nat.zero_le _, fun hne => absurd rfl hne⟩
  rename_i htag
  rw [if_neg htag] at h
  cases hend : findDelimiter window (bodyLengthEnd + 1 + bodyLength) with
  | none =>
    rw [hend] at h
    exact absurd rfl h
  | some =>
    obtain ⟨hi, hge, hmore⟩ := findDelimiter_append more hend
    simp only [hmore]
    -- the delimiter is not one of the three bytes of the tag
    rw [drop_take_append more (by omega), take_append_of_le_length (by omega)]
    split <;> exact ⟨rfl, hi, fun _ => Nat.succ_pos _⟩

/-- **What is said of a window stays true when bytes are added**, unless the reader waits for more. -/
theorem frame_append (h : (frame window).status ≠ .incomplete) :
    frame (window ++ more) = frame window ∧ (frame window).messageSize ≤ window.length ∧
      ((frame window).status ≠ .malformed → 0 < (frame window).messageSize) := by
  have hbad : ∀ e, (⟨.malformed, e, 0⟩ : FixMessageReader) = ⟨.malformed, e, 0⟩ ∧ 0 ≤ window.length ∧
      (FixStatus.malformed ≠ .malformed → 0 < 0) := fun _ => ⟨rfl, Nat.zero_le _, fun hne => absurd rfl hne⟩
  -- each field is found in the window alone, so what comes behind it changes nothing
  unfold frame at h ⊢
  split at h
  · exact absurd rfl h
  rename_i hlen
  rw [if_neg (by rw [length_append]; omega), if_neg hlen, take_append_of_le_length (by omega)]
  split
  · exact hbad _
  rename_i htag
  rw [if_neg htag] at h
  cases hbegin : findDelimiter window 0 with
  | none =>
    rw [hbegin] at h
    exact absurd rfl h
  | some i =>
    obtain ⟨-, -, hmore⟩ := findDelimiter_append more hbegin
    simp only [hbegin, hmore] at h ⊢
    split at h
    · exact absurd rfl h
    rename_i hlen
    rw [if_neg (by rw [length_append]; omega), if_neg hlen, drop_take_append more (by omega)]
    split
    · exact hbad _
    rename_i htag
    rw [if_neg htag] at h
    cases hbody : findDelimiter window (i + 1) with
    | none =>
      rw [hbody] at h
      exact absurd rfl h
    | some j =>
      obtain ⟨hj, hge, hmore⟩ := findDelimiter_append more hbody
      simp only [hbody, hmore] at h ⊢
      rw [drop_take_append more (by omega)]
      split at h
      · exact hbad _
      · split at h
        · rename_i hneg
          rw [if_pos hneg, if_pos hneg]
          exact hbad _
        · rename_i hpos
          rw [if_neg hpos, if_neg hpos]
          exact frameChecksum_append more h

end Append

end FixMessageReader

end PubsubVenue
