import PubsubVenue.Fix.Validator
import PubsubVenue.Incremental

/-! # The FIX parser's feed

`FixParser::feed` frames one message after another in the bytes a connection has received, and
starts again one byte on where there is no message. It walks the fields of a framed message where
the bytes are in memory, and that walk may leave the message.

* **`feed_pieces`**: what is handed on, rejected, discarded and skipped, and the bytes left, do not
  depend on the pieces the stream arrives in, if every message framed in it is cut into fields.
* **`pieces_differ`**: a message with a negative LENGTH that is discarded when the stream is fed at
  once, and keeps `feed` from returning when it arrives in a piece of its own. -/

namespace PubsubVenue

open FixMessageReader List

/-- `window.find("8=")`. -/
def findBegin : Bytes → Option Nat
  | [] => none
  | b :: rest => if (b :: rest).take 2 = [56, 61] then some 0 else (findBegin rest).map (· + 1)

/-- What `feed` does with a message: `on_message_` with its fields and its bytes, `on_reject_`, no
Reject for a garbled one, and the reason it gives for starting again one byte on. -/
inductive FixEvent where
  | handedOn (message : List FixField) (bytes : Bytes)
  | rejected (message : List FixField) (reject : FixReject)
  | discarded (bytes : Bytes)
  | skipped (reason : Option String)
  deriving DecidableEq

/-- The start of a message that is found is found in a longer window. -/
theorem findBegin_append {window : Bytes} {start : Nat} (h : findBegin window = some start) (more : Bytes) :
    start < window.length ∧ findBegin (window ++ more) = some start := by
  induction window generalizing start with
  | nil => cases h
  | cons b rest ih =>
    unfold findBegin at h
    rw [cons_append, findBegin]
    split at h
    · rename_i htag
      -- the two bytes of the tag are in the window
      have hlen : 2 ≤ (b :: rest).length := by
        have := congrArg length htag
        rw [length_take] at this
        simp only [length_cons, length_nil] at this ⊢
        omega
      rw [← cons_append, take_append_of_le_length hlen, if_pos htag]
      cases h
      exact ⟨Nat.succ_pos _, rfl⟩
    · rename_i htag
      obtain ⟨i, hi, rfl⟩ := Option.map_eq_some_iff.mp h
      obtain ⟨hlt, hmore⟩ := ih hi
      refine ⟨Nat.succ_lt_succ hlt, ?_⟩
      cases rest with
      | nil => cases hi
      | cons =>
        rw [hmore]
        exact if_neg htag

/-- `ParsedFixMessage::set`, of each field: those beyond `maximum_field_count` are ignored. -/
def parsedFixMessage (fields : List FixField) : List FixField := fields.take 64

/-- What `feed` does with a valid message, once it has walked its fields. -/
def dispatch (dictionary : FixDictionary) (bytes : Bytes) (fields : List FixField) : FixEvent :=
  let message := parsedFixMessage fields
  if message.any (·.tag == 35) then
    match validate dictionary fields with
    | .ok () => .handedOn message bytes
    | .error reject => .rejected message reject
  else .discarded bytes

/-- The body of the `while` loop of `feed`, on the bytes that are not committed: what is done, if
the walk of a valid message's fields gives them, and how many bytes are committed; or nothing where
the loop is left. -/
def feedNext (dictionary : FixDictionary) (fieldsOf : Nat → Nat → Option (List FixField)) (window : Bytes) :
    Option (Option FixEvent × Nat) :=
  match findBegin window with
  | none => none
  | some start =>
    let reader := frame (window.drop start)
    let message := (window.drop start).take reader.messageSize
    match reader.status with
    | .incomplete => none
    | .malformed => some (some (.skipped reader.error), start + 1)
    | .checksumError => some (some (.discarded message), start + reader.messageSize)
    | .valid =>
      some ((fieldsOf start reader.messageSize).map (dispatch dictionary message), start + reader.messageSize)

/-! ## The window in memory -/

/-- Where a window is: the address of its first byte, and what the memory holds elsewhere. -/
structure Place where
  data : Nat
  elsewhere : Nat → UInt8

/-- The memory with a window at its place. -/
def Place.memory (place : Place) (window : Bytes) (address : Nat) : UInt8 :=
  if place.data ≤ address then window.getD (address - place.data) (place.elsewhere address)
  else place.elsewhere address

/-- A window of this size at this place is not within 2 GiB of an end of the address space. -/
def Place.Inside (place : Place) (size : Nat) : Prop :=
  2147483648 ≤ place.data ∧ place.data + size + 2147483648 ≤ addresses

/-- `for (field : reader)`: the fields from an iterator to `end()`, if it gets there in so many
steps. -/
def fieldsFrom (isDataLengthTag : Int → Bool) (memory : Nat → UInt8) (last : Nat) :
    Nat → ConstIterator → Option (List FixField)
  | 0, _ => none
  | fuel + 1, it =>
    if it.fieldStart = last then some []
    else (fieldsFrom isDataLengthTag memory last fuel (it.increment isDataLengthTag memory last)).map
      (it.field memory :: ·)

/-- The fields of a message of the window, from its start and its size. -/
def Place.fields (dictionary : FixDictionary) (place : Place) (window : Bytes) (fuel start size : Nat) :
    Option (List FixField) :=
  let first := place.data + start
  fieldsFrom dictionary.isDataLengthTag (place.memory window) (first + size) fuel
    (parse dictionary.isDataLengthTag (place.memory window) (first + size) first 0)

/-- `FixParser::feed`, after `committed` bytes: what is done, and the committed count it returns, if
it returns within so many steps. -/
def feed (dictionary : FixDictionary) (place : Place) (window : Bytes) :
    Nat → Nat → Option (List FixEvent × Nat)
  | 0, _ => none
  | fuel + 1, committed =>
    match feedNext dictionary (fun start => place.fields dictionary window (fuel + 1) (committed + start))
      (window.drop committed) with
    | none => some ([], committed)
    | some (none, _) => none
    | some (some event, n) =>
      (feed dictionary place window fuel (committed + n)).map fun later => (event :: later.1, later.2)

/-- `feed` is called after each piece with all bytes not yet committed, wherever they are, and the
committed count is removed from the front. -/
def feedPieces (dictionary : FixDictionary) (fuel : Nat) :
    List (Bytes × Place) → Bytes → Option (List FixEvent × Bytes)
  | [], kept => some ([], kept)
  | (piece, place) :: pieces, kept =>
    (feed dictionary place (kept ++ piece) fuel 0).bind fun fed =>
      (feedPieces dictionary fuel pieces ((kept ++ piece).drop fed.2)).map fun later =>
        (fed.1 ++ later.1, later.2)

/-! ## The bytes alone -/

section Cut

variable (dictionary : FixDictionary)

/-- The body of the loop, where the fields of a message are those its bytes are cut into. -/
def cutNext (window : Bytes) : Option (Option FixEvent × Nat) :=
  feedNext dictionary (fun start size =>
    cutFields dictionary.isDataLengthTag size ((window.drop start).take size) 0) window

variable {dictionary}

/-- What one pass commits is in the window, and the pass does the same with more bytes. -/
theorem cutNext_append {window : Bytes} {e : Option FixEvent} {n : Nat}
    (h : cutNext dictionary window = some (e, n)) (more : Bytes) :
    (0 < n ∧ n ≤ window.length) ∧ cutNext dictionary (window ++ more) = some (e, n) := by
  unfold cutNext feedNext at h ⊢
  cases hbegin : findBegin window with
  | none =>
    rw [hbegin] at h
    cases h
  | some start =>
    obtain ⟨hlt, hmore⟩ := findBegin_append hbegin more
    simp only [hbegin] at h
    have hstatus : (frame (window.drop start)).status ≠ .incomplete := by
      intro hs
      rw [hs] at h
      cases h
    obtain ⟨hframe, hsize, hpos⟩ := frame_append more hstatus
    have hdrop : (window.drop start).length = window.length - start := length_drop
    simp only [hmore, drop_append_of_le_length hlt.le, hframe, take_append_of_le_length hsize]
    refine ⟨?_, h⟩
    split at h
    · cases h
    · cases h
      omega
    all_goals
      rename_i hs
      rw [hs] at hpos
      have := hpos FixStatus.noConfusion
      cases h
      omega

variable (dictionary)

/-- The loop on the bytes alone, as a reader of a stream. -/
def cutReader : StreamReader UInt8 (Option FixEvent) where
  next := cutNext dictionary
  next_pos h := (cutNext_append h []).1
  next_append h more := (cutNext_append h more).2

/-- **Every message framed in the stream is cut into fields**: none has a negative LENGTH that
another field follows. -/
def AllCut (stream : Bytes) : Prop := none ∉ ((cutReader dictionary).drainFrom stream 0).1

end Cut

/-! ## The walk gives the fields that the bytes are cut into -/

section Memory

variable {dictionary : FixDictionary} {place : Place} {window : Bytes}

/-- A part of the window, read from memory. -/
theorem bytesAt_memory {start size : Nat} (hplace : place.Inside window.length)
    (h : start + size ≤ window.length) :
    bytesAt (place.memory window) (place.data + start) size = (window.drop start).take size := by
  have hhigh := hplace.2
  refine ext_getElem (by simp; omega) fun i hi _ => ?_
  rw [length_bytesAt] at hi
  simp only [bytesAt, getElem_map, getElem_range, getElem_take, getElem_drop]
  rw [Nat.mod_eq_of_lt (by omega), Place.memory, if_pos (by omega), Nat.add_assoc, Nat.add_sub_cancel_left,
    getD_eq_getElem?_getD, getElem?_eq_getElem (by omega), Option.getD_some]

/-- Where the walk goes on, it gives the fields that the rest is cut into. -/
theorem fieldsFrom_of_goesOn {isDataLengthTag : Int → Bool} {memory : Nat → UInt8} {last : Nat}
    {it : ConstIterator} {rest : Bytes} {length : Int} {fuel steps : Nat} {fields : List FixField}
    (h : GoesOn memory last it rest length) (hcut : cutFields isDataLengthTag fuel rest length = some fields)
    (hfuel : rest.length ≤ fuel) (hsteps : rest.length < steps) :
    fieldsFrom isDataLengthTag memory last steps (it.increment isDataLengthTag memory last) =
      some fields := by
  induction fuel generalizing it rest length steps fields with
  | zero =>
    have hend : (it.increment isDataLengthTag memory last).fieldStart = last := by
      have hlen := congrArg List.length h.rest
      rw [length_bytesAt] at hlen
      rw [ConstIterator.increment, parse, if_pos (by omega)]
    cases hcut
    rw [← Nat.sub_add_cancel (Nat.one_le_of_lt hsteps), fieldsFrom, if_pos hend]
  | succ fuel ih =>
    rw [cutFields] at hcut
    split at hcut
    · cases hcut
    rename_i hsign
    obtain ⟨hnone, hsome⟩ := h.parse hsign (rfl : it.increment isDataLengthTag memory last = _)
    rw [← Nat.sub_add_cancel (Nat.one_le_of_lt hsteps), fieldsFrom]
    split at hcut
    · rename_i hnocut
      cases hcut
      rw [if_pos (hnone hnocut)]
    · rename_i field after hfield
      obtain ⟨later, hlater, rfl⟩ := Option.map_eq_some_iff.mp hcut
      obtain ⟨hbefore, hvalue, hshorter, hgoes⟩ := hsome field after hfield
      rw [if_neg hbefore.ne, hvalue, ih hgoes hlater (by omega) (by omega), Option.map_some]

/-- A walk that never comes to the end gives no fields. -/
theorem fieldsFrom_eq_none {isDataLengthTag : Int → Bool} {memory : Nat → UInt8} {last : Nat}
    {it : ConstIterator}
    (h : ∀ n, ((ConstIterator.increment isDataLengthTag memory last)^[n] it).fieldStart ≠ last)
    (steps : Nat) :
    fieldsFrom isDataLengthTag memory last steps it = none := by
  induction steps generalizing it with
  | zero => rfl
  | succ steps ih =>
    have hbefore : it.fieldStart ≠ last := h 0
    rw [fieldsFrom, if_neg hbefore, ih fun n => h (n + 1), Option.map_none]

/-- The walk of a message of the window gives the fields that its bytes are cut into. -/
theorem Place.fields_of_cut {start size steps : Nat} {fields : List FixField}
    (hplace : place.Inside window.length) (hin : start + size ≤ window.length) (hsteps : size < steps)
    (hcut : cutFields dictionary.isDataLengthTag size ((window.drop start).take size) 0 = some fields) :
    place.fields dictionary window steps start size = some fields := by
  have hlow := hplace.1
  have hhigh := hplace.2
  have hlen : ((window.drop start).take size).length = size := by
    rw [length_take, length_drop]
    omega
  have hstart : GoesOn (place.memory window) (place.data + start + size)
      ⟨place.data + start, place.data + start, 0, 0, 0, 0⟩ ((window.drop start).take size) 0 :=
    ⟨by simp only; omega, by omega,
      by rw [Nat.add_sub_cancel_left, bytesAt_memory hplace hin], rfl, by decide⟩
  exact fieldsFrom_of_goesOn hstart hcut hlen.le (by omega)

/-- A pass of the loop does what it does on the bytes alone, where the walk gives the fields that a
message is cut into. -/
theorem feedNext_of_cutNext {fieldsOf : Nat → Nat → Option (List FixField)}
    (hfields : ∀ start size fields, start < window.length → start + size ≤ window.length →
      cutFields dictionary.isDataLengthTag size ((window.drop start).take size) 0 = some fields →
      fieldsOf start size = some fields) {next : Option (Option FixEvent × Nat)}
    (hnext : cutNext dictionary window = next) (hcut : ∀ n, next ≠ some (none, n)) :
    feedNext dictionary fieldsOf window = next := by
  unfold cutNext feedNext at hnext
  unfold feedNext
  cases hbegin : findBegin window with
  | none => rwa [hbegin] at hnext
  | some start =>
    have hlt := (findBegin_append hbegin []).1
    simp only [hbegin] at hnext ⊢
    cases hstatus : (frame (window.drop start)).status with
    | incomplete | malformed | checksumError => rwa [hstatus] at hnext
    | valid =>
      rw [hstatus] at hnext
      simp only at hnext ⊢
      have hwhole : (frame (window.drop start)).status ≠ .incomplete := by
        rw [hstatus]
        decide
      obtain ⟨-, hsize, -⟩ := frame_append [] hwhole
      rw [length_drop] at hsize
      cases hof : cutFields dictionary.isDataLengthTag (frame (window.drop start)).messageSize
        ((window.drop start).take (frame (window.drop start)).messageSize) 0 with
      | none =>
        rw [hof] at hnext
        exact absurd hnext.symm (hcut _)
      | some fields => rwa [hfields _ _ fields hlt (by omega) hof, ← hof]

/-- **`feed` returns what it does on the bytes alone**, if every message framed in the window is cut
into fields. -/
theorem feed_of_drainFrom (hplace : place.Inside window.length) (k : Nat)
    (hcut : none ∉ ((cutReader dictionary).drainFrom window k).1) {fuel : Nat}
    (hfuel : window.length - k < fuel) :
    ∃ events, ((cutReader dictionary).drainFrom window k).1 = events.map some ∧
      feed dictionary place window fuel k = some (events, ((cutReader dictionary).drainFrom window k).2) := by
  -- the fields of a message after the first `k` bytes
  have hfields : ∀ k steps, window.length - k < steps → ∀ start size fields, start < (window.drop k).length →
      start + size ≤ (window.drop k).length → cutFields dictionary.isDataLengthTag size
        (((window.drop k).drop start).take size) 0 = some fields →
      place.fields dictionary window steps (k + start) size = some fields := by
    intro k steps hsteps start size fields hlt hle hof
    rw [length_drop] at hlt hle
    rw [drop_drop] at hof
    exact Place.fields_of_cut hplace (by omega) (by omega) hof
  induction k using StreamReader.drainFrom_induction (cutReader dictionary) window generalizing fuel with
  | wait k h =>
    obtain ⟨fuel, rfl⟩ := Nat.exists_eq_add_of_lt hfuel
    rw [StreamReader.drainFrom_none h, feed, feedNext_of_cutNext (hfields k _ (by omega)) h nofun]
    exact ⟨[], rfl, rfl⟩
  | take k e n h ih =>
    obtain ⟨fuel, rfl⟩ := Nat.exists_eq_add_of_lt hfuel
    have hn := (cutReader dictionary).next_pos h
    rw [length_drop] at hn
    rw [StreamReader.drainFrom_some h] at hcut ⊢
    rw [mem_cons, not_or] at hcut
    obtain ⟨event, rfl⟩ := Option.ne_none_iff_exists'.mp (Ne.symm hcut.1)
    obtain ⟨events, heq, hlater⟩ := @ih hcut.2 (window.length - k + fuel) (by omega)
    rw [feed, feedNext_of_cutNext (hfields k _ (by omega)) h (by simp)]
    simp only [hlater, heq]
    exact ⟨event :: events, rfl, rfl⟩

/-- **Pieces fed one after the other are read as they are on the bytes alone.** -/
theorem feedPieces_of_deliver {fuel : Nat} (pieces : List (Bytes × Place)) {kept : Bytes}
    (hplaces : ∀ p ∈ pieces, p.2.Inside (kept ++ (pieces.map Prod.fst).flatten).length)
    (hfuel : (kept ++ (pieces.map Prod.fst).flatten).length < fuel)
    (hcut : none ∉ ((cutReader dictionary).deliver (pieces.map Prod.fst) kept).1) :
    ∃ events, ((cutReader dictionary).deliver (pieces.map Prod.fst) kept).1 = events.map some ∧
      feedPieces dictionary fuel pieces kept =
        some (events, ((cutReader dictionary).deliver (pieces.map Prod.fst) kept).2) := by
  induction pieces generalizing kept with
  | nil => exact ⟨[], rfl, rfl⟩
  | cons p pieces ih =>
    obtain ⟨piece, place⟩ := p
    simp only [map_cons, flatten_cons, ← append_assoc, @length_append _ (kept ++ piece)] at hplaces hfuel
    rw [map_cons, StreamReader.deliver] at hcut ⊢
    simp only [mem_append, not_or] at hcut
    have hplace : place.Inside (kept ++ piece).length :=
      have hin := hplaces _ mem_cons_self
      ⟨hin.1, by have := hin.2; simp only at this; omega⟩
    obtain ⟨events, heq, hfed⟩ := feed_of_drainFrom hplace 0 hcut.1 (show _ < fuel by omega)
    have hleft : ((kept ++ piece).drop ((cutReader dictionary).drainFrom (kept ++ piece) 0).2 ++
        (pieces.map Prod.fst).flatten).length ≤
          (kept ++ piece).length + (pieces.map Prod.fst).flatten.length := by
      rw [length_append, length_drop]
      omega
    obtain ⟨later, hlater, hrest⟩ := ih (fun q hq =>
      have hin := hplaces q (mem_cons_of_mem _ hq)
      ⟨hin.1, by have := hin.2; omega⟩) (by omega) hcut.2
    refine ⟨events ++ later, by simp only [heq, hlater, map_append], ?_⟩
    rw [feedPieces, hfed, Option.bind_some, hrest, Option.map_some]

/-- **Framing does not depend on how the bytes arrive**, if every message framed in the stream is
cut into fields, wherever in memory the bytes are when `feed` is called, but not within 2 GiB of an
end of the address space. -/
theorem feed_pieces {pieces : List (Bytes × Place)} {stream : Bytes} {whole : Place} {fuel : Nat}
    (hstream : stream = (pieces.map Prod.fst).flatten) (hplaces : ∀ p ∈ pieces, p.2.Inside stream.length)
    (hwhole : whole.Inside stream.length) (hcut : AllCut dictionary stream) (hfuel : stream.length < fuel) :
    ∃ events committed, feed dictionary whole stream fuel 0 = some (events, committed) ∧
      feedPieces dictionary fuel pieces [] = some (events, stream.drop committed) := by
  have hdeliver := StreamReader.deliver_eq_drain (r := cutReader dictionary) (pieces.map Prod.fst) [] rfl
  rw [nil_append, ← hstream] at hdeliver
  obtain ⟨events, heq, hfed⟩ := feed_of_drainFrom hwhole 0 hcut (show _ < fuel by omega)
  have hcut' : none ∉ ((cutReader dictionary).deliver (pieces.map Prod.fst) []).1 := by
    rw [hdeliver]
    exact hcut
  obtain ⟨events', heq', hpieces⟩ := feedPieces_of_deliver pieces (by rwa [nil_append, ← hstream])
    (by rwa [nil_append, ← hstream]) hcut'
  rw [hdeliver] at heq' hpieces
  obtain rfl : events' = events :=
    map_injective_iff.mpr (Option.some_injective _) (heq'.symm.trans heq)
  exact ⟨events', _, hfed, hpieces⟩

end Memory

/-- A dictionary of RawDataLength and RawData alone. -/
def rawData : FixDictionary :=
  ⟨(· == 95), fun _ => none, fun _ => none, fun _ => [], fun _ => none, fun _ => ⟨0, 0, []⟩⟩

/-- A window at address 2^32, in a memory of zeros. -/
def fourGiB : Place := ⟨4294967296, fun _ => 0⟩

/-- A message with a byte 1 in its DATA field, in two pieces of which the first ends before that
byte. -/
theorem feed_pieces_data : ∃ events committed,
    feed rawData fourGiB (bytesAt dataOfThree 4294967296 28) 29 0 = some (events, committed) ∧
      feedPieces rawData 29 [((bytesAt dataOfThree 4294967296 28).take 18, fourGiB),
        ((bytesAt dataOfThree 4294967296 28).drop 18, fourGiB)] [] =
          some (events, (bytesAt dataOfThree 4294967296 28).drop committed) := by
  have hplace : fourGiB.Inside (bytesAt dataOfThree 4294967296 28).length := ⟨by decide, by decide⟩
  refine feed_pieces (by simp) ?_ hplace ?_ (by decide)
  · simp only [forall_mem_cons]
    exact ⟨hplace, hplace, nofun⟩
  · rw [AllCut, StreamReader.drainFrom_some
      (e := some (.discarded (bytesAt dataOfThree 4294967296 28))) (n := 28)
      (by decide +kernel), StreamReader.drainFrom_none (by decide +kernel)]
    simp

/-- `8= 9=10 95=28 96= 10=000`, with a byte 1 after each field: the checksum is wrong. -/
def garbled : Bytes :=
  [56, 61, 1, 57, 61, 49, 48, 1, 57, 53, 61, 50, 56, 1, 57, 54, 61, 1, 49, 48, 61, 48, 48, 48, 1]

/-- `8=F 9=12 95=-37 96=x 10=254`, with a byte 1 after each field. -/
def backwards : Bytes :=
  [56, 61, 70, 1, 57, 61, 49, 50, 1, 57, 53, 61, 45, 51, 55, 1, 57, 54, 61, 120, 1, 49, 48, 61, 50, 53, 52, 1]

/-- **A message that is discarded when the stream is fed at once, and is never done with in a piece
of its own.** Its LENGTH -37 takes the walk back to the LENGTH 28 of the message before, and that to
the Checksum. In a piece of its own it has zeros before it, and the walk comes back to the LENGTH
-37. -/
theorem pieces_differ :
    feed rawData fourGiB (garbled ++ backwards) 54 0 = some ([.discarded garbled, .discarded backwards], 53) ∧
      ∀ fuel, feedPieces rawData fuel [(garbled, fourGiB), (backwards, fourGiB)] [] = none := by
  refine ⟨by decide +kernel, fun fuel => ?_⟩
  -- the first piece is committed whole
  have hfirst : ∀ fed, feed rawData fourGiB garbled fuel 0 = some fed → fed.2 = 25 := by
    intro fed hfed
    match fuel, hfed with
    | fuel + 2, hfed =>
      cases hfed
      rfl
  -- the walk of the second comes back to where it was
  have hwalk : ∀ steps, fourGiB.fields rawData backwards steps 0 28 = none := fun steps =>
    fieldsFrom_eq_none (iterate_all (fun it : ConstIterator => it.fieldStart ≠ 4294967324) 1 5
      (by decide +kernel) (by decide) (by decide +kernel)) steps
  have hsecond : feed rawData fourGiB backwards fuel 0 = none := by
    cases fuel with
    | zero => rfl
    | succ fuel =>
      have hframe : frame backwards = ⟨.valid, none, 28⟩ := by decide +kernel
      have hbegin : findBegin backwards = some 0 := by decide
      simp [feed, feedNext, hbegin, hframe, hwalk]
  rw [feedPieces, nil_append]
  cases hfed : feed rawData fourGiB garbled fuel 0 with
  | none => rfl
  | some fed =>
    rw [Option.bind_some, hfirst fed hfed, feedPieces, show garbled.drop 25 = [] from rfl,
      nil_append, hsecond]
    rfl

end PubsubVenue
