import PubsubVenue.Engine.OrderBook

/-! # The book and its region agree

Whatever is done to a book, and wherever the process that does it dies, the map and the region agree
whenever the book is in use.

* **`OrderBook.Consistent`**: the map files exactly the live records, each under the identity that
  it carries, and the free list has exactly the other slots.
* **`OrderBook.Consistent.consistencyProblem`**: then `consistency_problem` finds none.
* **`BookProcess.consistent_of_run`**: this holds in every run of operations, deaths and reopenings,
  and an `add` that fails changes nothing that can be seen. -/

namespace PubsubVenue

open Function List MappedSlotStore ValidMap RehashMap

variable {config : RehashConfig OrderKey}

namespace OrderBook

/-- **The map and the region agree.** -/
structure Consistent (b : OrderBook config) : Prop where
  filed : ∀ key slot, b.index.find key = some slot ↔
    slot < b.region.slotCount ∧ b.region.isLive slot = true ∧ (b.entryAt slot).key = key
  free : ∃ free, b.region.Free free

variable {b : OrderBook config} {slot : Nat}

section

variable (h : b.Consistent)
include h

/-- A live record is filed under the identity that it carries. -/
theorem Consistent.find_key (hslot : slot < b.region.slotCount)
    (hlive : b.region.isLive slot = true) : b.index.find (b.entryAt slot).key = some slot :=
  (h.filed _ slot).mpr ⟨hslot, hlive, rfl⟩

/-- No two live records carry the same identity. -/
theorem Consistent.distinct : b.region.Distinct OrderEntry.key := by
  intro i hi j hj hli hlj hkey
  have hfound := h.find_key hi hli
  rw [show (b.entryAt i).key = (b.entryAt j).key from hkey, h.find_key hj hlj] at hfound
  exact (Option.some.inj hfound).symm

/-- The records that the map files are the live ones. -/
theorem Consistent.mem_records :
    slot ∈ b.index.entries.map Prod.snd ↔ slot < b.region.slotCount ∧ b.region.isLive slot = true := by
  constructor
  · intro hin
    obtain ⟨⟨key, _⟩, hentry, rfl⟩ := mem_map.mp hin
    have hfiled := (h.filed key _).mp (mem_entries.mp hentry)
    exact ⟨hfiled.1, hfiled.2.1⟩
  · intro ⟨hslot, hlive⟩
    exact mem_map.mpr ⟨_, mem_entries.mpr (h.find_key hslot hlive), rfl⟩

/-- No record is filed twice. -/
theorem Consistent.nodup_records : (b.index.entries.map Prod.snd).Nodup := by
  have hkeys := b.index.nodup_keys
  refine (nodup_map_iff_inj_on (Nodup.of_map _ hkeys)).mpr ?_
  intro ⟨key, slot⟩ hin ⟨key', slot'⟩ hin' heq
  have hkey := ((h.filed key slot).mp (mem_entries.mp hin)).2.2
  have hkey' := ((h.filed key' slot').mp (mem_entries.mp hin')).2.2
  simp only at heq
  rw [← hkey, ← hkey', heq]

/-- **A book that agrees with its region has no problem.** -/
theorem Consistent.consistencyProblem : b.consistencyProblem = none := by
  have hperm : ((range b.region.slotCount).filter b.region.isLive).Perm (b.index.entries.map Prod.snd) :=
    (perm_ext_iff_of_nodup (nodup_range.filter _) h.nodup_records).mpr fun slot => by
      rw [mem_filter, mem_range, h.mem_records]
  have hcount : (range b.region.slotCount).countP b.region.isLive = b.index.size := by
    rw [countP_eq_length_filter, hperm.length_eq, length_map, b.index.size_eq]
  unfold OrderBook.consistencyProblem
  simp only [hcount, ne_eq, not_true_eq_false, if_false]
  refine findSome?_eq_none_iff.mpr fun entry hin => ?_
  obtain ⟨key, slot⟩ := entry
  have hfound := mem_entries.mp hin
  obtain ⟨-, hlive, hkey⟩ := (h.filed key slot).mp hfound
  simp [hlive, hkey, hfound]

end

/-! ## Adding an order -/

/-- The record that `add` stores. -/
def stored (key : OrderKey) (entry : OrderEntry) : OrderEntry :=
  { entry with session := key.session, clOrdId := key.clOrdId }

/-- The record carries the identity that it is filed under. -/
theorem key_stored (key : OrderKey) (entry : OrderEntry) : (stored key entry).key = key := by
  unfold stored OrderEntry.key OrderKey.make
  simp only [take_of_length_le key.fits]

/-- What `add` writes to the slot that it takes. -/
theorem writeAll_storing (region : MappedSlotStore OrderEntry) (slot : Nat) (key : OrderKey)
    (entry : OrderEntry) (seqNo : Int) :
    region.writeAll ([.freeHead (region.slots slot).nextFree] ++ storing slot key entry seqNo) =
      region.withRecord slot (stored key entry) seqNo := by
  simp [writeAll, storing, commit, write, setSlot, withRecord, stored]

variable {key : OrderKey}

/-- **How `add` may end**, for a key that is not on the book: no slot is free and nothing is changed; a slot is
taken and its record filed; or the map cannot grow, and the slot is given back. -/
theorem add_cases (h : b.Consistent) (allocates : Nat → Bool) (entry : OrderEntry) (seqNo : Int)
    (habsent : b.index.find key = none) : (b.add allocates key entry seqNo = (⟨[], b.index⟩, .full)) ∨
      ∃ slot rest index, b.region.Free (slot :: rest) ∧
        ((index.find = update b.index.find key (some slot) ∧ b.add allocates key entry seqNo =
              (⟨[.freeHead (b.region.slots slot).nextFree] ++ storing slot key entry seqNo, index⟩, .added)) ∨
          (index.find = b.index.find ∧ b.add allocates key entry seqNo =
              (⟨[.freeHead (b.region.slots slot).nextFree] ++ storing slot key entry seqNo ++
                (b.region.withRecord slot (stored key entry) seqNo).release slot, index⟩, .threw))) := by
  obtain ⟨free, hfree⟩ := h.free
  unfold add
  rw [hfree.acquire_eq]
  cases free with
  | nil => exact .inl rfl
  | cons slot rest =>
    have hfind := b.index.find_emplace allocates key slot
    simp only [head?_cons, Option.map_some, writeAll_storing]
    cases hemplace : b.index.emplace allocates key slot with
    | mk index result =>
      rw [hemplace] at hfind
      refine .inr ⟨slot, rest, index, hfree, ?_⟩
      cases result with
      | none => exact .inr ⟨hfind, rfl⟩
      | some =>
        refine .inl ⟨?_, rfl⟩
        simp only [Option.isSome_some, if_true, insertInto, habsent, Option.isSome_none,
          Bool.false_and, Bool.false_eq_true, if_false] at hfind
        exact hfind

variable {index : ValidMap config Nat}

/-- A record that is stored and filed. -/
theorem Consistent.withRecord (h : b.Consistent) {rest : List Nat}
    {entry : OrderEntry} (hfree : b.region.Free (slot :: rest)) (seqNo : Int)
    (habsent : b.index.find key = none) (hindex : index.find = Function.update b.index.find key (some slot)) :
    (OrderBook.mk (b.region.withRecord slot (stored key entry) seqNo) index).Consistent where
  filed := fun key' other => by
    obtain ⟨hslot, hdead⟩ := (hfree.mem slot).mp mem_cons_self
    simp only [MappedSlotStore.withRecord, MappedSlotStore.isLive, entryAt, hindex, update_apply]
    by_cases hother : other = slot
    · rw [if_pos hother, hother]
      simp only [key_stored, hslot, true_and]
      split
      · rename_i hkey
        simp [hkey]
      · rename_i hkey
        refine iff_of_false (fun hfound => ?_) fun hkey' => hkey hkey'.symm
        have hlive := ((h.filed key' slot).mp hfound).2.1
        rw [hdead] at hlive
        exact absurd hlive Bool.false_ne_true
    · rw [if_neg hother]
      split
      · rename_i hkey
        refine iff_of_false (fun heq => hother (Option.some.inj heq).symm) fun hlive => ?_
        have hfound := (h.filed key' other).mpr hlive
        rw [hkey, habsent] at hfound
        exact Option.some_ne_none other hfound.symm
      · exact h.filed key' other
  free := ⟨rest, hfree.withRecord _ _⟩

/-- A live record that is taken out of the map and released. -/
theorem Consistent.withFree (h : b.Consistent) (hslot : slot < b.region.slotCount)
    (hlive : b.region.isLive slot = true)
    (hindex : index.find = Function.update b.index.find (b.entryAt slot).key none) :
    (OrderBook.mk (b.region.withFree slot) index).Consistent where
  filed := fun key other => by
    have hfound := h.find_key hslot hlive
    simp only [MappedSlotStore.withFree, MappedSlotStore.isLive, entryAt, hindex, update_apply]
    by_cases hother : other = slot
    · rw [if_pos hother, hother]
      refine iff_of_false ?_ fun hdead => absurd hdead.2.1 Bool.false_ne_true
      split
      · exact (Option.some_ne_none slot).symm
      · rename_i hkey
        exact fun hfound' => hkey ((h.filed key slot).mp hfound').2.2.symm
    · rw [if_neg hother]
      split
      · rename_i hkey
        refine iff_of_false (Option.some_ne_none other).symm fun hfiled => hother ?_
        have hfound' := (h.filed key other).mpr hfiled
        rw [hkey] at hfound'
        exact Option.some.inj (hfound'.symm.trans hfound)
      · exact h.filed key other
  free := h.free.imp' (fun free => slot :: free) fun _ hfree => hfree.withFree hslot hlive

/-- Nothing that can be seen of a book differs: the orders, the live records, the order in which
slots will be taken, and what is kept beside them. -/
structure SameToSee (b c : OrderBook config) : Prop where
  find : c.index.find = b.index.find
  size : c.size = b.size
  slotCount : c.region.slotCount = b.region.slotCount
  live : c.region.isLive = b.region.isLive
  records : ∀ slot, b.region.isLive slot = true → c.region.slots slot = b.region.slots slot
  free : ∀ free, b.region.Free free → c.region.Free free
  published : c.region.published = b.region.published
  ownerValues : c.region.ownerValues = b.region.ownerValues

/-- A book that looks the same agrees with its region too. -/
theorem Consistent.of_same (h : b.Consistent) {c : OrderBook config} (hsame : SameToSee b c) :
    c.Consistent where
  filed := fun key slot => by
    rw [hsame.find, hsame.slotCount, hsame.live, h.filed key slot]
    refine and_congr_right fun _ => and_congr_right fun hlive => ?_
    unfold entryAt
    rw [hsame.records slot hlive]
  free := h.free.imp hsame.free

/-- Maps that find the same hold as many entries. -/
theorem size_eq_of_find_eq {index index' : ValidMap config Nat} (h : index'.find = index.find) :
    index'.size = index.size := by
  have hperm : index'.entries.Perm index.entries :=
    (perm_ext_iff_of_nodup (Nodup.of_map _ index'.nodup_keys)
      (Nodup.of_map _ index.nodup_keys)).mpr fun ⟨key, slot⟩ => by
        rw [mem_entries, mem_entries, h]
  rw [index'.size_eq, index.size_eq, hperm.length_eq]

/-- **A slot that is taken and given back leaves nothing to see.** -/
theorem sameToSee_of_given_back {rest : List Nat} {record : OrderEntry} {seqNo : Int}
    (hfree : b.region.Free (slot :: rest)) (hindex : index.find = b.index.find) :
    SameToSee b ⟨(b.region.withRecord slot record seqNo).withFree slot, index⟩ := by
  obtain ⟨hslot, hdead⟩ := (hfree.mem slot).mp mem_cons_self
  have hhead : b.region.freeHead = slot := hfree.links.1
  -- the slot is free again, and linked as it was before it was taken
  have hslots : ∀ other, ((b.region.withRecord slot record seqNo).withFree slot).slots other =
    if other = slot then
        { live := false, nextFree := (b.region.slots slot).nextFree, seqNo, payload := record }
      else b.region.slots other := fun other => by
    simp only [withFree, withRecord, update_self, update_idem, update_apply]
  have hlive : ∀ other, ((b.region.withRecord slot record seqNo).withFree slot).isLive other =
      b.region.isLive other := fun other => by
    rw [isLive, hslots]
    split
    · rename_i hother
      rw [hother]
      exact hdead.symm
    · rfl
  refine
    { find := hindex
      size := size_eq_of_find_eq hindex
      slotCount := rfl
      live := funext hlive
      records := ?_
      free := ?_
      published := rfl
      ownerValues := rfl }
  · intro other hother
    have hne : other ≠ slot := fun heq => by
      rw [heq, hdead] at hother
      exact absurd hother Bool.false_ne_true
    exact (hslots other).trans (if_neg hne)
  · intro free hfree'
    refine ⟨?_, hfree'.nodup, fun other => ?_⟩
    · have hsame : ((b.region.withRecord slot record seqNo).withFree slot).Links b.region.freeHead free := by
        refine hfree'.links.congr fun other _ => ?_
        rw [hslots]
        split
        · rename_i hother
          rw [hother]
        · rfl
      rw [hhead] at hsame
      exact hsame
    · rw [hlive other]
      exact hfree'.mem other

section

variable (h : b.Consistent) (allocates : Nat → Bool) (entry : OrderEntry) (seqNo : Int)
  (habsent : b.index.find key = none)
include h habsent

/-- **An `add` that fails or throws changes nothing that can be seen.** -/
theorem sameToSee_add (hfails : (b.add allocates key entry seqNo).2 ≠ .added) :
    SameToSee b (b.after (b.add allocates key entry seqNo).1) := by
  rcases add_cases h allocates entry seqNo habsent with hfull | ⟨slot, rest, index, hfree, hadded | hthrew⟩
  · rw [hfull]
    exact ⟨rfl, rfl, rfl, rfl, fun _ _ => rfl, fun _ hfree => hfree, rfl, rfl⟩
  · rw [hadded.2] at hfails
    exact absurd rfl hfails
  · rw [hthrew.2]
    unfold after
    rw [writeAll_append, writeAll_storing, writeAll_release]
    exact sameToSee_of_given_back hfree hthrew.1

/-- `add` keeps the book and its region in agreement. -/
theorem Consistent.add : (b.after (b.add allocates key entry seqNo).1).Consistent := by
  by_cases hadded : (b.add allocates key entry seqNo).2 = .added
  · rcases add_cases h allocates entry seqNo habsent with hfull | ⟨slot, rest, index, hfree, hyes | hthrew⟩
    · rw [hfull] at hadded
      cases hadded
    · rw [hyes.2]
      unfold after
      rw [writeAll_storing]
      exact h.withRecord hfree seqNo habsent hyes.1
    · rw [hthrew.2] at hadded
      cases hadded
  · exact h.of_same (sameToSee_add h allocates entry seqNo habsent hadded)

end

/-! ## Taking orders off -/

section

variable (h : b.Consistent)
include h

/-- `remove` keeps the book and its region in agreement. -/
theorem Consistent.remove (key : OrderKey) : (b.after (b.remove key).1).Consistent := by
  unfold OrderBook.remove
  split
  · exact h
  · rename_i slot hfound
    obtain ⟨hslot, hlive, hkey⟩ := (h.filed key slot).mp hfound
    unfold after
    rw [writeAll_release]
    refine h.withFree hslot hlive ?_
    rw [hkey]
    exact b.index.find_erase key

/-- **Taking out one record after another** keeps the book and its region in agreement. -/
theorem Consistent.removeEach {slots : List Nat} (hnodup : slots.Nodup)
    (hlive : ∀ slot ∈ slots, slot < b.region.slotCount ∧ b.region.isLive slot = true) :
    (b.after (b.removeEach slots)).Consistent := by
  induction slots generalizing b with
  | nil => exact h
  | cons slot rest ih =>
    obtain ⟨hslot, hlive'⟩ := hlive slot mem_cons_self
    obtain ⟨hnotin, hnodup⟩ := nodup_cons.mp hnodup
    have hfirst : (b.after ⟨b.region.release slot, b.index.erase (b.entryAt slot).key⟩).Consistent := by
      unfold after
      rw [writeAll_release]
      exact h.withFree hslot hlive' (b.index.find_erase _)
    have hrest := ih hfirst hnodup fun other hother => by
      have hne : other ≠ slot := fun heq => hnotin (heq ▸ hother)
      simp only [after, writeAll_release, MappedSlotStore.withFree, MappedSlotStore.isLive, update_of_ne hne]
      exact hlive other (mem_cons_of_mem _ hother)
    unfold OrderBook.removeEach after
    rw [writeAll_append]
    exact hrest

/-- The records that `remove_placed_through` takes out are live, and no record is taken out twice. -/
theorem Consistent.placedThrough (through : Int) : ((b.placedThrough through).map Prod.snd).Nodup ∧
      ∀ slot ∈ (b.placedThrough through).map Prod.snd, slot < b.region.slotCount ∧
        b.region.isLive slot = true := by
  have hperm := perm_insertionSort (fun x y : Int × Nat => x.1 < y.1 ∨ x.1 = y.1 ∧ x.2 ≤ y.2)
    ((b.index.entries.map fun kv => ((b.entryAt kv.2).placedAtSeqNo, kv.2)).filter fun order =>
      order.1 ≤ through)
  have hsub : (((b.index.entries.map fun kv => ((b.entryAt kv.2).placedAtSeqNo, kv.2)).filter fun order =>
      order.1 ≤ through).map Prod.snd).Sublist (b.index.entries.map Prod.snd) := by
    have hmap := (filter_sublist (p := fun order : Int × Nat => decide (order.1 ≤ through))
      (l := b.index.entries.map fun kv => ((b.entryAt kv.2).placedAtSeqNo, kv.2))).map Prod.snd
    rw [map_map] at hmap
    exact hmap
  refine ⟨((hperm.map Prod.snd).nodup_iff).mpr (h.nodup_records.sublist hsub), fun slot hin => ?_⟩
  exact h.mem_records.mp (hsub.subset ((hperm.map Prod.snd).mem_iff.mp hin))

/-- `remove_placed_through` keeps the book and its region in agreement, wherever the function that
it calls throws. -/
theorem Consistent.removePlacedThrough (through : Int) (calls : Nat) :
    (b.after (b.removePlacedThrough through calls)).Consistent := by
  obtain ⟨hnodup, hlive⟩ := h.placedThrough through
  have hsub : (((b.placedThrough through).take calls).map Prod.snd).Sublist
      ((b.placedThrough through).map Prod.snd) := (take_sublist calls _).map Prod.snd
  exact h.removeEach (hnodup.sublist hsub) fun slot hin => hlive slot (hsub.subset hin)

end

variable {region : MappedSlotStore OrderEntry}

/-- What `clear` leaves of the region: the records that were filed are free. -/
theorem free_releaseEach {slots free : List Nat} (hfree : region.Free free)
    (hnodup : slots.Nodup) (hlive : ∀ slot ∈ slots, slot < region.slotCount ∧ region.isLive slot = true) :
    ∃ free', (region.writeAll (releaseEach region slots)).Free free' ∧
      (region.writeAll (releaseEach region slots)).slotCount = region.slotCount ∧
      ∀ slot, (region.writeAll (releaseEach region slots)).isLive slot = true ↔
        region.isLive slot = true ∧ slot ∉ slots := by
  induction slots generalizing region free with
  | nil => exact ⟨free, hfree, rfl, fun slot => by simp [releaseEach, writeAll]⟩
  | cons slot rest ih =>
    obtain ⟨hslot, hlive'⟩ := hlive slot mem_cons_self
    obtain ⟨hnotin, hnodup⟩ := nodup_cons.mp hnodup
    have hstill : ∀ other, (region.withFree slot).isLive other = true ↔
        region.isLive other = true ∧ other ≠ slot := fun other => by
      unfold withFree isLive
      by_cases hother : other = slot
      · simp [hother]
      · simp [hother]
    obtain ⟨free', hfree', hcount, hafter⟩ := ih (hfree.withFree hslot hlive') hnodup fun other hother => by
      refine ⟨(hlive other (mem_cons_of_mem _ hother)).1, (hstill other).mpr ⟨?_, ?_⟩⟩
      · exact (hlive other (mem_cons_of_mem _ hother)).2
      · exact fun heq => hnotin (heq ▸ hother)
    unfold releaseEach
    rw [writeAll_append, writeAll_release]
    refine ⟨free', hfree', hcount, fun other => ?_⟩
    rw [hafter other, hstill other, mem_cons, not_or, and_assoc]

/-- `clear` keeps the book and its region in agreement. -/
theorem Consistent.clear (h : b.Consistent) : (b.after b.clear).Consistent := by
  obtain ⟨free, hfree⟩ := h.free
  obtain ⟨free', hfree', hcount, hafter⟩ := free_releaseEach hfree h.nodup_records fun _ => h.mem_records.mp
  refine ⟨fun key slot => ?_, free', hfree'⟩
  unfold after OrderBook.clear
  rw [find_clear]
  refine iff_of_false nofun fun ⟨hslot, hlive, _⟩ => ?_
  obtain ⟨hlive, hnotin⟩ := (hafter slot).mp hlive
  exact hnotin (h.mem_records.mpr ⟨hcount ▸ hslot, hlive⟩)

/-! ## Opening the region again -/

variable {allocates : Nat → Nat → Bool}

/-- **Filing the records** one after another: after those of `done`, the map files the recoverable
ones among them. -/
theorem find_fileRecords (hdistinct : region.Distinct OrderEntry.key) {done rest : List Nat}
    {index index' : ValidMap config Nat} (hnodup : (done ++ rest).Nodup)
    (hlt : ∀ slot ∈ done ++ rest, slot < region.slotCount) (hdone : ∀ key slot, index.find key = some slot ↔
      slot ∈ done ∧ region.isRecoverable slot = true ∧ (region.slots slot).payload.key = key)
    (hfiled : fileRecords region allocates rest index = some index') :
    ∀ key slot, index'.find key = some slot ↔
      slot ∈ done ++ rest ∧ region.isRecoverable slot = true ∧ (region.slots slot).payload.key = key := by
  induction rest generalizing done index with
  | nil =>
    rw [← Option.some.inj hfiled, append_nil]
    exact hdone
  | cons slot rest ih =>
    have hsplit : done ++ slot :: rest = (done ++ [slot]) ++ rest := by simp
    rw [hsplit] at hnodup hlt ⊢
    unfold fileRecords at hfiled
    split at hfiled
    · rename_i hrecoverable
      have hnotin : slot ∉ done := fun hin =>
        (nodup_append.mp (nodup_append.mp hnodup).1).2.2 slot hin slot mem_cons_self rfl
      -- another record with this identity would be this one
      have habsent : index.find (region.slots slot).payload.key = none := by
        by_contra hsome
        obtain ⟨other, hother⟩ := Option.ne_none_iff_exists'.mp hsome
        obtain ⟨hin, hrec, hkey⟩ := (hdone _ other).mp hother
        have heq := hdistinct other (hlt other (by simp [hin])) slot (hlt slot (by simp))
          (isLive_of_isRecoverable hrec)
          (isLive_of_isRecoverable hrecoverable) hkey
        exact hnotin (heq ▸ hin)
      have hfind := index.find_emplace (allocates slot) (region.slots slot).payload.key slot
      split at hfiled
      · rename_i next isNew hemplace
        rw [hemplace] at hfind
        simp only [Option.isSome_some, if_true, insertInto, habsent, Option.isSome_none,
          Bool.false_and, Bool.false_eq_true, if_false] at hfind
        refine ih hnodup hlt (fun key other => ?_) hfiled
        rw [hfind, update_apply]
        split
        · rename_i hkey
          constructor
          · intro heq
            rw [← Option.some.inj heq]
            exact ⟨by simp, hrecoverable, hkey.symm⟩
          · rintro ⟨hin, hrec, hkey'⟩
            have heq := hdistinct other (hlt other (mem_append_left _ hin)) slot (hlt slot (by simp))
              (isLive_of_isRecoverable hrec) (isLive_of_isRecoverable hrecoverable) (hkey'.trans hkey)
            rw [heq]
        · rename_i hkey
          rw [hdone key other, mem_append, mem_singleton]
          refine and_congr_left fun hfound => ⟨.inl, fun hin => hin.resolve_right fun heq => hkey ?_⟩
          rw [← heq]
          exact hfound.2.symm
      · cases hfiled
    · rename_i hnot
      refine ih hnodup hlt (fun key other => ?_) hfiled
      rw [hdone key other, mem_append, mem_singleton]
      refine and_congr_left fun hfound => ⟨.inl, fun hin => hin.resolve_right fun heq => hnot ?_⟩
      rw [← heq]
      exact hfound.1

/-- **A region in which identities are distinct is opened as a book that agrees with it.** -/
theorem consistent_recover (hdistinct : region.Distinct OrderEntry.key)
    {mapCapacity : { n // (capacityFor n).isSome }} {change : BookChange config}
    (hrecover : recover region mapCapacity allocates = some change) :
    (mk (region.writeAll change.writes) change.index).Consistent := by
  unfold recover at hrecover
  simp only at hrecover
  split at hrecover
  · obtain ⟨index, hfiled, rfl⟩ := Option.map_eq_some_iff.mp hrecover
    have hfind : ∀ key slot, index.find key = some slot ↔ slot ∈ [] ++ range region.slotCount ∧
        region.isRecoverable slot = true ∧ (region.slots slot).payload.key = key :=
      find_fileRecords hdistinct nodup_range (fun slot hin => mem_range.mp hin) (fun key slot => by
          rw [find_reserve, find_fresh]
          simp) hfiled
    have hrebuilt := region.rebuilt
    refine ⟨fun key slot => ?_, _, hrebuilt.free⟩
    rw [hfind key slot, nil_append, mem_range, hrebuilt.slotCount]
    refine and_congr_right fun hslot => ?_
    rw [hrebuilt.live slot hslot]
    refine and_congr_right fun _ => ?_
    unfold entryAt
    rw [hrebuilt.payload slot]
  · cases hrecover

/-! ## Dying in an operation -/

section

variable (h : b.Consistent) (entry : OrderEntry) (seqNo : Int) (habsent : b.index.find key = none)
include h habsent

/-- A record with an identity that is not on the book. -/
theorem Consistent.distinct_withRecord :
    (b.region.withRecord slot (stored key entry) seqNo).Distinct OrderEntry.key := by
  -- no other live record carries the identity
  have hother : ∀ i < b.region.slotCount, i ≠ slot →
      (b.region.withRecord slot (stored key entry) seqNo).isLive i = true →
      (b.region.slots i).payload.key ≠ key ∧ b.region.isLive i = true := by
    intro i hi hne hlive
    simp only [MappedSlotStore.withRecord, MappedSlotStore.isLive, update_of_ne hne] at hlive
    refine ⟨fun hkey => ?_, hlive⟩
    have hfound := (h.filed key i).mpr ⟨hi, hlive, hkey⟩
    rw [habsent] at hfound
    cases hfound
  have hkey : ∀ i, i ≠ slot →
      ((b.region.withRecord slot (stored key entry) seqNo).slots i).payload = (b.region.slots i).payload :=
    fun i hne => by simp only [MappedSlotStore.withRecord, update_of_ne hne]
  have hslot : ((b.region.withRecord slot (stored key entry) seqNo).slots slot).payload.key = key := by
    simp only [MappedSlotStore.withRecord, update_self, key_stored]
  intro i hi j hj hli hlj heq
  by_cases his : i = slot
  · by_cases hjs : j = slot
    · rw [his, hjs]
    · rw [his, hslot, hkey j hjs] at heq
      exact absurd heq.symm (hother j hj hjs hlj).1
  · by_cases hjs : j = slot
    · rw [hjs, hslot, hkey i his] at heq
      exact absurd heq (hother i hi his hli).1
    · rw [hkey i his, hkey j hjs] at heq
      exact h.distinct i hi j hj (hother i hi his hli).2 (hother j hj hjs hlj).2 heq

/-- The writes that store a record are safe. -/
theorem Consistent.safe_storing (hdead : b.region.isLive slot = false) : b.region.Safe OrderEntry.key
      ([.freeHead (b.region.slots slot).nextFree] ++ storing slot key entry seqNo) := by
  have htaken : (b.region.write (.freeHead (b.region.slots slot).nextFree)).Distinct OrderEntry.key :=
    h.distinct.mono rfl fun i hi => ⟨hi, rfl⟩
  have hstored : (b.region.withRecord slot (stored key entry) seqNo).Distinct OrderEntry.key :=
    h.distinct_withRecord entry seqNo habsent
  rw [← writeAll_storing] at hstored
  exact ⟨h.distinct, nofun, htaken.safe_store hdead
    [entry, { entry with session := key.session }, stored key entry] seqNo hstored⟩

/-- **`add` is safe**: the record is copied into a slot that is free, and made live under an
identity that is not on the book. -/
theorem Consistent.safe_add (allocates : Nat → Bool) :
    b.region.Safe OrderEntry.key (b.add allocates key entry seqNo).1.writes := by
  rcases add_cases h allocates entry seqNo habsent with hfull | ⟨slot, rest, index, hfree, hadded | hthrew⟩
  · rw [hfull]
    exact h.distinct
  · rw [hadded.2]
    exact h.safe_storing entry seqNo habsent ((hfree.mem slot).mp mem_cons_self).2
  · rw [hthrew.2]
    refine (h.safe_storing entry seqNo habsent ((hfree.mem slot).mp mem_cons_self).2).append ?_
    rw [writeAll_storing]
    exact (h.distinct_withRecord entry seqNo habsent).safe (shrinks_release _ slot)

end

/-- What `remove_placed_through` writes makes no record live. -/
theorem shrinks_removeEach (b : OrderBook config) (slots : List Nat) :
    ∀ w ∈ (b.removeEach slots).writes, Shrinks w := by
  induction slots generalizing b with
  | nil => exact nofun
  | cons slot rest ih =>
    intro w hin
    rcases mem_append.mp hin with hin | hin
    · exact shrinks_release _ slot w hin
    · exact ih _ w hin

/-- What `clear` writes makes no record live. -/
theorem shrinks_releaseEach (region : MappedSlotStore OrderEntry) (slots : List Nat) :
    ∀ w ∈ releaseEach region slots, Shrinks w := by
  induction slots generalizing region with
  | nil => exact nofun
  | cons slot rest ih =>
    intro w hin
    rcases mem_append.mp hin with hin | hin
    · exact shrinks_release _ slot w hin
    · exact ih _ w hin

/-- **Every operation is safe**: wherever the process dies in it, no two live records carry the same
identity. -/
theorem Consistent.safe_call (h : b.Consistent) {op : BookOp} (hallowed : b.Allows op) :
    b.region.Safe OrderEntry.key (b.call op).writes := by
  cases op with
  | add allocates key entry seqNo => exact h.safe_add entry seqNo hallowed allocates
  | remove =>
    refine h.distinct.safe ?_
    simp only [OrderBook.call, OrderBook.remove]
    split
    · exact fun _ hin => absurd hin not_mem_nil
    · exact shrinks_release _ _
  | removePlacedThrough => exact h.distinct.safe (shrinks_removeEach b _)
  | clear => exact h.distinct.safe (shrinks_releaseEach _ _)
  | publish | setOwnerValue =>
    refine h.distinct.safe fun w hin => ?_
    rw [mem_singleton.mp hin]
    exact trivial

/-- **Every operation keeps the book and its region in agreement.** -/
theorem Consistent.call (h : b.Consistent) {op : BookOp} (hallowed : b.Allows op) :
    (b.after (b.call op)).Consistent := by
  cases op with
  | add allocates key entry seqNo => exact h.add allocates entry seqNo hallowed
  | remove key => exact h.remove key
  | removePlacedThrough through calls => exact h.removePlacedThrough through calls
  | clear => exact h.clear
  | publish | setOwnerValue =>
    exact ⟨h.filed, h.free.imp fun _ hfree => ⟨hfree.links.congr fun _ _ => rfl, hfree.nodup, hfree.mem⟩⟩

end OrderBook

namespace BookProcess

/-- What holds all the time: a book in use agrees with its region, and in a region that is left
behind no two live records carry the same identity. -/
def Sound : BookProcess config → Prop
  | .running b => b.Consistent
  | .dead region => region.Distinct OrderEntry.key

/-- Whatever happens, it stays so. -/
theorem sound_invariant : (step config).Invariant Sound := by
  intro s event t h hstep
  cases s with
  | running b =>
    cases event with
    | call op =>
      simp only [step] at hstep
      split at hstep
      · rename_i hallowed
        cases hstep
        exact OrderBook.Consistent.call h hallowed
      · cases hstep
    | die op writes garbage =>
      simp only [step] at hstep
      split at hstep
      · rename_i hallowed
        cases hstep
        exact (OrderBook.Consistent.safe_call h hallowed).dyingAfter garbage writes
      · cases hstep
    | reopen | dieReopening => cases hstep
  | dead region =>
    cases event with
    | call | die => cases hstep
    | reopen mapCapacity allocates =>
      simp only [step] at hstep
      split at hstep
      · rename_i change hrecover
        cases hstep
        exact OrderBook.consistent_recover h hrecover
      · cases hstep
        exact h
    | dieReopening writes garbage =>
      cases hstep
      exact (Distinct.safe h (region.shrinks_rebuildFrom _ _)).dyingAfter garbage writes

variable {n : Nat} {hpos : 0 < n} {hlt : n < noSlot} {blank : OrderEntry}
  {mapCapacity : { n // (capacityFor n).isSome }} {allocates : Nat → Bool} {b₀ b : OrderBook config}

/-- A new book agrees with its region. -/
theorem consistent_create (h : OrderBook.create n hpos hlt blank mapCapacity allocates = some b) :
    b.Consistent := by
  unfold OrderBook.create at h
  simp only at h
  split at h
  · cases h
    refine ⟨fun key slot => ?_, _, free_create hpos hlt blank⟩
    rw [find_reserve, find_fresh]
    exact iff_of_false nofun fun hlive => absurd hlive.2.1 Bool.false_ne_true
  · cases h

/-- **The book and its region agree whenever the book is in use**, in every run of operations, of
deaths after any of their writes, and of reopenings; and an `add` that fails or throws changes
nothing that can be seen. -/
theorem consistent_of_run
    (hcreate : OrderBook.create n hpos hlt blank mapCapacity allocates = some b₀) {events : List BookEvent}
    (hrun : (step config).run (.running b₀) events = some (.running b)) :
    b.consistencyProblem = none ∧ b.Consistent ∧
      ∀ (allocates : Nat → Bool) (key : OrderKey) (entry : OrderEntry) (seqNo : Int),
        b.contains key = false → (b.add allocates key entry seqNo).2 ≠ .added →
          OrderBook.SameToSee b (b.after (b.add allocates key entry seqNo).1) := by
  have h : b.Consistent :=
    sound_invariant.run (I := Sound) (s := .running b₀) (consistent_create hcreate) hrun
  refine ⟨h.consistencyProblem, h, fun allocates key entry seqNo hnot hfails => ?_⟩
  have habsent : b.index.find key = none := Option.not_isSome_iff_eq_none.mp (Bool.eq_false_iff.mp hnot)
  exact OrderBook.sameToSee_add h allocates entry seqNo habsent hfails

/-- The map's parameters, for a run. -/
def lengthHash : RehashConfig OrderKey :=
  { hash := fun key => key.clOrdId.length, migrationSlotsPerOperation := 8, pos := Nat.succ_pos 7
    allocates := fun _ => true }

/-- An order, for a run. -/
def someEntry : OrderEntry :=
  { placedAtSeqNo := 1, session := ⟨1, [77]⟩, side := 49, ordType := 50, timeInForce := none, expireTime := none
    clOrdId := [], symbol := [65], orderQty := [49], price := none }

/-- Two orders are added, of which the first is published, and the process dies in removing the
first; the next process dies in opening the region, and the one after it opens it. -/
def diesRemoving : List BookEvent :=
  [.call (.add (fun _ => true) (.make ⟨1, [77]⟩ [1]) someEntry 1), .call (.publish 1),
    .call (.add (fun _ => true) (.make ⟨1, [77]⟩ [2]) { someEntry with placedAtSeqNo := 2 } 2),
    .die (.remove (.make ⟨1, [77]⟩ [1])) 0 someEntry, .dieReopening 2 someEntry,
    .reopen ⟨8, by decide⟩ (fun _ _ => true)]

/-- The process is running with so many orders on its book. -/
def holds (n : Nat) : BookProcess lengthHash → Bool
  | .running b => b.size = n
  | .dead _ => false

theorem consistent_of_run_reopened : ∃ b₀ b : OrderBook lengthHash,
      OrderBook.create 3 (by decide) (by decide) someEntry ⟨8, by decide⟩ (fun _ => true) = some b₀ ∧
        (step lengthHash).run (.running b₀) diesRemoving = some (.running b) ∧ b.size = 1 ∧
          b.consistencyProblem = none := by
  obtain ⟨b₀, hcreate⟩ : ∃ b₀ : OrderBook lengthHash,
      OrderBook.create 3 (by decide) (by decide) someEntry ⟨8, by decide⟩ (fun _ => true) =
        some b₀ := ⟨_, rfl⟩
  obtain ⟨p, hrun, htest⟩ := Machine.exists_run_of_any (step lengthHash)
    (.running ((OrderBook.create 3 (by decide) (by decide) someEntry ⟨8, by decide⟩ (fun _ => true)).getD
      ⟨.create 3 (by decide) (by decide) someEntry, .fresh⟩)) diesRemoving
    (fun p => holds 1 p = true) (by decide)
  cases p with
  | dead => cases htest
  | running b =>
    rw [hcreate] at hrun
    exact ⟨b₀, b, hcreate, hrun, of_decide_eq_true htest, (consistent_of_run hcreate hrun).1⟩

end BookProcess

end PubsubVenue
