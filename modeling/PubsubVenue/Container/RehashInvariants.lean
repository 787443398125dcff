import PubsubVenue.Container.IncrementalRehashMap

/-! # What the two tables of the map keep

Each table keeps an empty slot: entries are put into a table only as long as half of its slots are
unused, and those that still have to move there are fewer than the other half.

* **`RehashTable.WellFormed`**: what is true of each table, and **`RehashMap.Valid`** of the two
  together.
* **`RehashMap.Valid.stepMigration`**, **`RehashMap.Valid.makeRoomForOne`**,
  **`RehashMap.Valid.place`**, **`RehashMap.Valid.removeAt`**: what moving, growing, inserting and
  erasing do to the entries.
* **`RehashMap.visit_eq`**: iteration visits the entries of both tables. -/

namespace PubsubVenue

open List Probing RehashTable Slot Option

namespace RehashTable

variable {K V : Type*} {config : RehashConfig K} {t : RehashTable K V}

/-- **What is true of each table**: its counts, its size, that a slot is empty, and that every entry
can be reached. -/
structure WellFormed (config : RehashConfig K) (t : RehashTable K V) : Prop where
  live_eq : t.live = t.slots.countP isOccupied
  used_le : usedCount t.slots ≤ t.used
  shape : t.capacity = 0 ∨ ∃ k, 4 ≤ k ∧ t.capacity = 2 ^ k
  room : t.capacity ≠ 0 → usedCount t.slots < t.capacity
  reachable : Reachable (fun e => t.home (config.hash e.1)) t.slots

section

variable (h : t.WellFormed config)
include h

theorem WellFormed.pow (hc : t.capacity ≠ 0) : ∃ k, 4 ≤ k ∧ t.slots.length = 2 ^ k :=
  h.shape.resolve_left hc

/-- A table has at least 16 slots. -/
theorem WellFormed.le_capacity (hc : t.capacity ≠ 0) : 16 ≤ t.capacity := by
  obtain ⟨k, hk, hlen⟩ := h.pow hc
  calc 16 = 2 ^ 4 := rfl
    _ ≤ 2 ^ k := Nat.pow_le_pow_right (by decide) hk
    _ = t.capacity := hlen.symm

theorem WellFormed.live_le : t.live ≤ usedCount t.slots :=
  h.live_eq ▸ countP_isOccupied_le_usedCount

/-- The search for a hash value begins in the table. -/
theorem WellFormed.home_lt (hc : t.capacity ≠ 0) (hashValue : Nat) : t.home hashValue < t.slots.length := by
  obtain ⟨k, -, hlen⟩ := h.pow hc
  unfold home capacity
  rw [hlen, Nat.and_two_pow_sub_one_eq_mod]
  exact Nat.mod_lt _ (Nat.two_pow_pos k)

end

theorem wellFormed_absent : (absent : RehashTable K V).WellFormed config where
  live_eq := rfl
  used_le := Nat.le_refl 0
  shape := .inl rfl
  room := fun hc => absurd rfl hc
  reachable := fun i entry h => by simp [absent, slotAt] at h

theorem wellFormed_allocate {k : Nat} (hk : 4 ≤ k) :
    (allocate (2 ^ k) : RehashTable K V).WellFormed config where
  live_eq := by simp [allocate, countP_replicate, isOccupied]
  used_le := by simp [allocate]
  shape := .inr ⟨k, hk, by simp [allocate, capacity]⟩
  room := fun _ => by
    simp only [allocate, capacity, usedCount_replicate, length_replicate]
    exact Nat.two_pow_pos k
  reachable := reachable_replicate _ _

section

variable (h : t.WellFormed config)
include h

/-- **`find_slot` finds the key or says that no entry has it.** -/
theorem WellFormed.findSlot [DecidableEq K] (key : K) :
    (t.findSlot key (config.hash key) = t.capacity ∧ ∀ value, (key, value) ∉ entries t.slots) ∨
      t.findSlot key (config.hash key) ≠ t.capacity ∧
        ∃ value, slotAt t.slots (t.findSlot key (config.hash key)) = .occupied (key, value) := by
  by_cases hc : t.capacity = 0
  · refine .inl ⟨by simp [RehashTable.findSlot, hc], fun value hin => ?_⟩
    have hnil : t.slots = [] := eq_nil_of_length_eq_zero hc
    simp [hnil, entries] at hin
  · obtain ⟨k, -, hlen⟩ := h.pow hc
    have hnone := search_eq_none_iff (p := fun e : K × V => decide (e.1 = key)) h.reachable hlen
      (h.home_lt hc (config.hash key)) fun e he => by rw [of_decide_eq_true he]
    unfold RehashTable.findSlot
    rw [if_neg hc]
    cases hs : search t.slots (fun e => decide (e.1 = key)) t.capacity (t.home (config.hash key)) with
    | none =>
      refine .inl ⟨rfl, fun value hin => ?_⟩
      obtain ⟨i, hi⟩ := mem_entries.mp hin
      simpa using hnone.mp hs i _ hi
    | some =>
      obtain ⟨⟨key', value⟩, hentry, hkey⟩ := occupied_of_search hs
      obtain rfl : key' = key := of_decide_eq_true hkey
      exact .inr ⟨Nat.ne_of_lt (lt_length_of_occupied hentry), value, hentry⟩

variable {entry : K × V} {i : Nat}

/-- A table that holds an entry counts it. -/
theorem WellFormed.live_pos (hi : slotAt t.slots i = .occupied entry) : 0 < t.live := by
  rw [h.live_eq, ← length_entries]
  exact length_pos_of_mem (mem_entries.mpr ⟨i, hi⟩)

/-- **A slot is set to one that is not empty**, which a search for what it holds leads to; a slot is
empty still. -/
theorem WellFormed.set {live used : Nat} {slot : Slot (K × V)} (hi : i < t.slots.length)
    (hslot : slot.isUsed = true) (hlive : live = (entries (t.slots.set i slot)).length)
    (hused : usedCount (t.slots.set i slot) ≤ used)
    (hroom : t.capacity ≠ 0 → usedCount (t.slots.set i slot) < t.capacity)
    (hself : ∀ entry, slot = .occupied entry → LeadsTo t.slots (t.home (config.hash entry.1)) i) :
    ({ slots := t.slots.set i slot, live, used } : RehashTable K V).WellFormed config := by
  have hcap : ({ slots := t.slots.set i slot, live, used } : RehashTable K V).capacity =
    t.capacity := length_set
  refine
    { live_eq := hlive.trans length_entries
      used_le := hused
      shape := by rw [hcap]; exact h.shape
      room := by rw [hcap]; exact hroom
      reachable := ?_ }
  unfold home
  rw [hcap]
  exact h.reachable.set hi hslot hself

omit h in
/-- The slot that an entry leaves is used still. -/
theorem usedCount_remove (hi : slotAt t.slots i = .occupied entry) :
    usedCount (t.remove i).slots = usedCount t.slots := by
  unfold remove
  rw [usedCount_set (lt_length_of_occupied hi) rfl, hi]
  exact if_pos rfl

/-- **An entry is taken out.** -/
theorem WellFormed.remove (hi : slotAt t.slots i = .occupied entry) : (t.remove i).WellFormed config := by
  have hused := usedCount_remove hi
  refine h.set (lt_length_of_occupied hi) rfl ?_ (hused.trans_le h.used_le)
    (fun hc => hused.trans_lt (h.room hc))
    fun _ hentry => by cases hentry
  have hlen := (entries_leave hi).length_eq
  rw [length_cons, length_entries, ← h.live_eq] at hlen
  omega

/-- **`find_free_slot` returns a place**, as long as a slot is empty. -/
theorem WellFormed.findFreeSlot (hc : t.capacity ≠ 0) (hashValue : Nat) :
    ∃ i, t.findFreeSlot hashValue = some i ∧ i < t.slots.length ∧ (slotAt t.slots i).isOccupied = false ∧
      LeadsTo t.slots (t.home hashValue) i := by
  obtain ⟨k, -, hlen⟩ := h.pow hc
  obtain ⟨j, hj, hempty⟩ := exists_empty (h.room hc)
  exact exists_free hlen (h.home_lt hc hashValue) hj (by rw [hempty]; rfl)

/-- **An entry is put into a place that a search for it leads to**, and a slot is empty still. -/
theorem WellFormed.occupy {used : Nat} (hi : i < t.slots.length)
    (hfree : (slotAt t.slots i).isOccupied = false)
    (hplace : LeadsTo t.slots (t.home (config.hash entry.1)) i)
    (hused : usedCount (t.slots.set i (.occupied entry)) ≤ used)
    (hroom : usedCount t.slots + 1 < t.capacity) :
    ({ slots := t.slots.set i (.occupied entry), live := t.live + 1, used } :
      RehashTable K V).WellFormed config := by
  have hset := usedCount_set_le hi (show (occupied entry).isUsed = true from rfl)
  refine h.set hi rfl ?_ hused (fun _ => by omega) fun _ hentry => occupied.inj hentry ▸ hplace
  rw [← (entries_occupy hi hfree entry).length_eq, length_cons, length_entries, h.live_eq]

/-- **A new entry is put into a table with room for it.** -/
theorem WellFormed.constructAt (hc : t.capacity ≠ 0)
    (hroom : usedCount t.slots + 1 < t.capacity) (key : K) (value : V) :
    ∃ i, t.findFreeSlot (config.hash key) = some i ∧ (t.constructAt i key value).WellFormed config ∧
      ((key, value) :: entries t.slots).Perm (entries (t.constructAt i key value).slots) ∧
        slotAt (t.constructAt i key value).slots i = .occupied (key, value) ∧
          usedCount (t.constructAt i key value).slots ≤ usedCount t.slots + 1 := by
  obtain ⟨i, hfree, hi, hocc, hplace⟩ := h.findFreeSlot hc (config.hash key)
  have hused := usedCount_set hi (show (occupied (key, value)).isUsed = true from rfl)
  have hcount := h.used_le
  refine ⟨i, hfree, h.occupy hi hocc hplace ?_ hroom, entries_occupy hi hocc _,
    slotAt_set_self hi _, usedCount_set_le hi rfl⟩
  rw [hused]
  split <;> omega

end

end RehashTable

namespace RehashMap

variable {K V : Type*} {config : RehashConfig K} {s t : RehashMap K V}

/-- The entries of the two tables, in the order in which they are visited. -/
def entries (s : RehashMap K V) : List (K × V) :=
  Probing.entries s.current.slots ++ Probing.entries s.next.slots

/-- **What is true while entries move**: the slots already examined hold none, and those that have
still to move are fewer than half the slots they move to, and find room beside those in use. -/
structure Migrating (s : RehashMap K V) : Prop where
  cursor_le : s.migrationCursor ≤ s.current.capacity
  moved : ∀ i < s.migrationCursor, (slotAt s.current.slots i).isOccupied = false
  live_lt : 2 * (s.current.live + 1) ≤ s.next.capacity
  room : usedCount s.next.slots + s.current.live < s.next.capacity

/-- What is true of the two tables together, while an operation moves entries too. -/
structure Sound (config : RehashConfig K) (s : RehashMap K V) : Prop where
  current : s.current.WellFormed config
  next : s.next.WellFormed config
  size_eq : s.size = s.current.live + s.next.live
  nodup : (s.entries.map Prod.fst).Nodup
  migrating : s.isMigrating = true → s.Migrating

/-- **What is true of the map between operations**: a migration is not over. -/
structure Valid (config : RehashConfig K) (s : RehashMap K V) : Prop extends Sound config s where
  unfinished : s.isMigrating = true → s.migrationCursor < s.current.capacity

/-- **The two maps have the same entries.** -/
structure SameEntries (s t : RehashMap K V) : Prop where
  entries : t.entries.Perm s.entries
  size : t.size = s.size

namespace SameEntries

theorem refl (s : RehashMap K V) : SameEntries s s := ⟨Perm.refl _, rfl⟩

theorem trans {u : RehashMap K V} (h₁ : SameEntries s t) (h₂ : SameEntries t u) : SameEntries s u :=
  ⟨h₂.entries.trans h₁.entries, h₂.size.trans h₁.size⟩

theorem nodup (h : SameEntries s t) (hs : (s.entries.map Prod.fst).Nodup) : (t.entries.map Prod.fst).Nodup :=
  (h.entries.map Prod.fst).nodup_iff.mpr hs

end SameEntries

theorem isMigrating_iff : s.isMigrating = true ↔ s.next.capacity ≠ 0 := by
  unfold isMigrating
  rw [decide_eq_true_eq]
  exact Nat.pos_iff_ne_zero

theorem isMigrating_eq_false : s.isMigrating = false ↔ s.next.capacity = 0 := by
  rw [← Bool.not_eq_true, isMigrating_iff, not_not]

variable {entry : K × V} {i : Nat}

/-- A map that holds an entry in the second table is migrating. -/
theorem isMigrating_of_occupied (h : slotAt s.next.slots i = .occupied entry) :
    s.isMigrating = true := isMigrating_iff.mpr (Nat.ne_of_gt (Nat.zero_lt_of_lt (lt_length_of_occupied h)))

/-- A map that is not migrating has one table. -/
theorem next_slots_of_settled (h : s.isMigrating = false) : s.next.slots = [] :=
  eq_nil_of_length_eq_zero (isMigrating_eq_false.mp h)

/-- The size is the number of the entries. -/
theorem Sound.size_eq_length (h : s.Sound config) : s.size = s.entries.length := by
  rw [h.size_eq, entries, length_append, length_entries, length_entries, ← h.current.live_eq,
    ← h.next.live_eq]

section

variable (h : s.Valid config) {u : RehashTable K V} (hu : u.WellFormed config) {size : Nat}
include h hu

/-- **The table that entries move into is changed**, and those that have still to move find room. -/
theorem Valid.setNext (hm : s.isMigrating = true) (hcap : u.capacity = s.next.capacity)
    (hsize : size = s.current.live + u.live) (hroom : usedCount u.slots + s.current.live < u.capacity)
    (hnodup : ((entries { s with next := u, size }).map Prod.fst).Nodup) :
    Valid config { s with next := u, size } where
  current := h.current
  next := hu
  size_eq := hsize
  nodup := hnodup
  migrating := fun _ => { h.migrating hm with live_lt := hcap.symm ▸ (h.migrating hm).live_lt, room := hroom }
  unfinished := fun _ => h.unfinished hm

/-- **The other table is changed**, which while entries move gains none, and none in a slot already
examined. -/
theorem Valid.setCurrent (hcap : u.capacity = s.current.capacity) (hsize : size = u.live + s.next.live)
    (hmoves : s.isMigrating = true → u.live ≤ s.current.live ∧
      ∀ i < s.migrationCursor, (slotAt u.slots i).isOccupied = false)
    (hnodup : ((entries { s with current := u, size }).map Prod.fst).Nodup) :
    Valid config { s with current := u, size } where
  current := hu
  next := h.next
  size_eq := hsize
  nodup := hnodup
  migrating := fun hm => by
    have hlive := (h.migrating hm).live_lt
    have hroom := (h.migrating hm).room
    obtain ⟨hle, hmoved⟩ := hmoves hm
    refine { cursor_le := hcap.symm ▸ (h.migrating hm).cursor_le, moved := hmoved, live_lt := ?_, room := ?_ }
    · simp only
      omega
    · simp only
      omega
  unfinished := fun hm => hcap.symm ▸ h.unfinished hm

end

/-! ## Moving entries -/

/-- **A slot is moved**: its entry finds room in the other table. -/
theorem Sound.moveSlot (h : s.Sound config) (hm : s.isMigrating = true)
    (hc : s.migrationCursor < s.current.capacity) :
    ∃ t, s.moveSlot config s.migrationCursor = some t ∧ t.current.capacity = s.current.capacity ∧
      t.next.capacity = s.next.capacity ∧ SameEntries s { t with migrationCursor := s.migrationCursor + 1 } ∧
        Sound config { t with migrationCursor := s.migrationCursor + 1 } := by
  have hmig := h.migrating hm
  -- The slots before the next one hold no entry, once this one holds none.
  have hmoved : ∀ slots : List (Slot (K × V)), (slotAt slots s.migrationCursor).isOccupied = false →
      (∀ i < s.migrationCursor, slotAt slots i = slotAt s.current.slots i) →
      ∀ i < s.migrationCursor + 1, (slotAt slots i).isOccupied = false := by
    intro slots hself hbefore i hi
    rcases Nat.lt_succ_iff_lt_or_eq.mp hi with hi | rfl
    · rw [hbefore i hi]
      exact hmig.moved i hi
    · exact hself
  have hstays : (slotAt s.current.slots s.migrationCursor).isOccupied = false →
      Sound config { s with migrationCursor := s.migrationCursor + 1 } := fun hnone =>
    { h with migrating := fun _ => { hmig with cursor_le := hc, moved := hmoved _ hnone fun _ _ => rfl } }
  unfold RehashMap.moveSlot
  cases hslot : slotAt s.current.slots s.migrationCursor with
  | empty | tombstone =>
    exact ⟨s, rfl, rfl, rfl, ⟨List.Perm.refl _, rfl⟩, hstays (by rw [hslot]; rfl)⟩
  | occupied entry =>
    have hlt := lt_length_of_occupied hslot
    obtain ⟨i, hfree, hi, hocc, hplace⟩ :=
      h.next.findFreeSlot (isMigrating_iff.mp hm) (config.hash entry.1)
    have hlive := h.current.live_pos hslot
    have hused := usedCount_set_le hi (show (occupied entry).isUsed = true from rfl)
    have hroom := hmig.room
    have hnext := h.next.used_le
    have hleave := entries_leave hslot
    have hoccupy := entries_occupy hi hocc entry
    have hcurrent : (s.current.remove s.migrationCursor).capacity = s.current.capacity := length_set
    have hsame : SameEntries s { s with
          next :=
            { slots := s.next.slots.set i (.occupied entry)
              live := s.next.live + 1, used := s.next.used + 1 }
          current := s.current.remove s.migrationCursor
          migrationCursor := s.migrationCursor + 1 } := by
      refine ⟨?_, rfl⟩
      calc (Probing.entries (s.current.slots.set s.migrationCursor .tombstone) ++
              Probing.entries (s.next.slots.set i (.occupied entry))).Perm
            (Probing.entries (s.current.slots.set s.migrationCursor .tombstone) ++
              (entry :: Probing.entries s.next.slots)) := hoccupy.symm.append_left _
        _ |>.Perm (entry :: (Probing.entries (s.current.slots.set s.migrationCursor .tombstone) ++
              Probing.entries s.next.slots)) := perm_middle
        _ |>.Perm (Probing.entries s.current.slots ++ Probing.entries s.next.slots) :=
            hleave.symm.append_right _
    simp only [hfree, map_some]
    refine ⟨_, rfl, hcurrent, length_set, hsame, ?_⟩
    refine
      { current := h.current.remove hslot
        next := h.next.occupy hi hocc hplace (by omega) (by omega)
        size_eq := ?_
        nodup := hsame.nodup h.nodup
        migrating := fun _ => ?_ }
    · have hsize := h.size_eq
      simp only [remove]
      omega
    · refine
        { cursor_le := hcurrent.symm ▸ hc
          moved := hmoved _ ?_ fun j hj => slotAt_set_of_ne hlt _ (Nat.ne_of_lt hj)
          live_lt := ?_
          room := ?_ }
      · simp only [remove, slotAt_set_self hlt]
        rfl
      · have hlive_lt := hmig.live_lt
        simp only [remove, capacity, length_set] at hlive_lt ⊢
        omega
      · simp only [remove, capacity, length_set] at hroom ⊢
        omega

/-- **So many slots are moved**, or as many as are left. -/
theorem Sound.moveSlots (h : s.Sound config) (hm : s.isMigrating = true) (share : Nat) :
    ∃ t, moveSlots config share s = some t ∧ t.current.capacity = s.current.capacity ∧
      t.next.capacity = s.next.capacity ∧
        t.migrationCursor = min (s.migrationCursor + share) s.current.capacity ∧
          SameEntries s t ∧ t.Sound config := by
  have hle := (h.migrating hm).cursor_le
  induction share generalizing s with
  | zero => exact ⟨s, rfl, rfl, rfl, by omega, .refl s, h⟩
  | succ share ih =>
    unfold moveSlots
    split
    · rename_i hc
      obtain ⟨t, ht, hcurrent, hnext, hsame, hsound⟩ := h.moveSlot hm hc
      have hmt : isMigrating { t with migrationCursor := s.migrationCursor + 1 } = true := by
        unfold isMigrating at hm ⊢
        rwa [hnext]
      obtain ⟨u, hu, hcu, hnu, hcursor, hsu, hsound⟩ := ih hsound hmt (hsound.migrating hmt).cursor_le
      rw [ht, bind_some]
      refine ⟨u, hu, hcu.trans hcurrent, hnu.trans hnext, ?_, hsame.trans hsu, hsound⟩
      rw [hcursor, hcurrent]
      simp only
      omega
    · exact ⟨s, rfl, rfl, rfl, by omega, .refl s, h⟩

/-- **The migration ends when every slot has been examined**: no entry is left behind. -/
theorem Sound.finishMigration (h : s.Sound config) (hm : s.isMigrating = true)
    (hc : s.current.capacity ≤ s.migrationCursor) :
    SameEntries s s.finishMigration ∧ s.finishMigration.Valid config := by
  have hmig := h.migrating hm
  have hnone : Probing.entries s.current.slots = [] := by
    refine eq_nil_iff_forall_not_mem.mpr fun entry hin => ?_
    obtain ⟨i, hi⟩ := Probing.mem_entries.mp hin
    have hocc := hmig.moved i (Nat.lt_of_lt_of_le (Probing.lt_length_of_occupied hi) hc)
    rw [hi] at hocc
    cases hocc
  have hlive : s.current.live = 0 := by
    rw [h.current.live_eq, ← length_entries, hnone]
    rfl
  have hsame : SameEntries s s.finishMigration := by
    refine ⟨?_, rfl⟩
    have hentries : s.finishMigration.entries = s.entries := by
      unfold entries
      rw [hnone]
      simp [RehashMap.finishMigration, absent, Probing.entries]
    rw [hentries]
  have hsettled : s.finishMigration.isMigrating = false := isMigrating_eq_false.mpr rfl
  refine ⟨hsame, ?_⟩
  refine
    { current := h.next
      next := wellFormed_absent
      size_eq := ?_
      nodup := hsame.nodup h.nodup
      migrating := fun hm => by simp [hsettled] at hm
      unfinished := fun hm => by simp [hsettled] at hm }
  have hsize := h.size_eq
  simp only [RehashMap.finishMigration, absent]
  omega

/-- **The share of a migration that an operation pays**: it keeps the entries, and ends the
migration or examines a slot. -/
theorem Valid.stepMigration (h : s.Valid config) :
    ∃ t, s.stepMigration config = some t ∧ SameEntries s t ∧ t.Valid config ∧
      (t.isMigrating = true → t.current.capacity = s.current.capacity ∧
        s.migrationCursor < t.migrationCursor) ∧
        (s.current.capacity ≠ 0 → t.current.capacity ≠ 0) := by
  unfold RehashMap.stepMigration
  split
  · rename_i hm
    obtain ⟨t, ht, hcurrent, hnext, hcursor, hsame, hsound⟩ :=
      h.moveSlots hm config.migrationSlotsPerOperation
    have hmt : t.isMigrating = true := by
      unfold isMigrating at hm ⊢
      rwa [hnext]
    rw [ht, map_some]
    split
    · rename_i hend
      obtain ⟨hfinish, hvalid⟩ := hsound.finishMigration hmt hend
      refine ⟨_, rfl, hsame.trans hfinish, hvalid, fun hm => ?_, fun _ => isMigrating_iff.mp hmt⟩
      have hsettled : t.finishMigration.isMigrating = false := isMigrating_eq_false.mpr rfl
      simp [hsettled] at hm
    · rename_i hgoes
      have hpos := config.pos
      refine ⟨t, rfl, hsame, { hsound with unfinished := fun _ => by omega }, fun _ => ⟨hcurrent, by omega⟩,
        fun hc => hcurrent ▸ hc⟩
  · rename_i hm
    exact ⟨s, rfl, .refl s, h, fun hm' => absurd hm' hm, id⟩

/-- The steps that complete a migration: each examines a slot. -/
theorem Valid.completeWithin (h : s.Valid config) {steps : Nat}
    (hsteps : s.isMigrating = true → s.current.capacity ≤ s.migrationCursor + steps) :
    ∃ t, s.completeWithin config steps = some t ∧ SameEntries s t ∧ t.Valid config ∧
      t.isMigrating = false ∧ (s.current.capacity ≠ 0 → t.current.capacity ≠ 0) := by
  induction steps generalizing s with
  | zero =>
    unfold completeWithin
    cases hm : s.isMigrating with
    | true =>
      have := h.unfinished hm
      have := hsteps hm
      omega
    | false => exact ⟨s, rfl, .refl s, h, hm, id⟩
  | succ steps ih =>
    unfold completeWithin
    cases hm : s.isMigrating with
    | true =>
      obtain ⟨t, ht, hsame, hvalid, hgoes, hcap⟩ := h.stepMigration
      have hleft : t.isMigrating = true → t.current.capacity ≤ t.migrationCursor + steps := fun hmt => by
        have := hgoes hmt
        have := hsteps hm
        omega
      obtain ⟨u, hu, hsu, hvalid, hsettled, hcapu⟩ := ih hvalid hleft
      rw [ht]
      exact ⟨u, hu, hsame.trans hsu, hvalid, hsettled, hcapu ∘ hcap⟩
    | false => exact ⟨s, rfl, .refl s, h, hm, id⟩

/-- **A migration can be completed.** -/
theorem Valid.completeMigration (h : s.Valid config) :
    ∃ t, s.completeMigration config = some t ∧ SameEntries s t ∧ t.Valid config ∧ t.isMigrating = false ∧
      (s.current.capacity ≠ 0 → t.current.capacity ≠ 0) :=
  h.completeWithin fun _ => Nat.le_add_left _ _

/-! ## Making room -/

/-- **A settled map begins to move to another table**, twice as large or at least four times as
large as its entries are many. -/
theorem Valid.beginMigration (h : s.Valid config) (hm : s.isMigrating = false) (hc : s.current.capacity ≠ 0)
    {k : Nat} (hk : 4 ≤ k) (hlarge : 2 * (s.current.live + 1) ≤ 2 ^ k) :
    SameEntries s (s.beginMigration config (2 ^ k)).1 ∧ (s.beginMigration config (2 ^ k)).1.Valid config ∧
      ((s.beginMigration config (2 ^ k)).2 = true →
        (s.beginMigration config (2 ^ k)).1.next = .allocate (2 ^ k)) := by
  unfold RehashMap.beginMigration
  split
  · have hsame : SameEntries s { s with next := .allocate (2 ^ k), migrationCursor := 0 } := by
      refine ⟨?_, rfl⟩
      have hentries : entries { s with next := .allocate (2 ^ k), migrationCursor := 0 } = s.entries := by
        unfold entries
        rw [next_slots_of_settled hm]
        simp [allocate, Probing.entries, Slot.content]
      rw [hentries]
    have hnolive : s.next.live = 0 := by
      rw [h.next.live_eq, next_slots_of_settled hm]
      rfl
    refine ⟨hsame, ?_, fun _ => rfl⟩
    refine
      { current := h.current
        next := wellFormed_allocate hk
        size_eq := ?_
        nodup := hsame.nodup h.nodup
        migrating := fun _ => ?_
        unfinished := fun _ => Nat.pos_of_ne_zero hc }
    · have hsize := h.size_eq
      simp only [allocate]
      omega
    · refine
        { cursor_le := Nat.zero_le _
          moved := fun i hi => absurd hi (Nat.not_lt_zero i)
          live_lt := ?_
          room := ?_ }
      · simpa [allocate, capacity] using hlarge
      · simp only [allocate, capacity, usedCount_replicate, length_replicate]
        omega
  · exact ⟨.refl s, h, fun hstarted => absurd hstarted Bool.false_ne_true⟩

/-- A map without entries may be given another table. -/
theorem Valid.replaceCurrent (h : s.Valid config) (hm : s.isMigrating = false) (hempty : s.entries = [])
    {k : Nat} (hk : 4 ≤ k) : SameEntries s { s with current := .allocate (2 ^ k) } ∧
      Valid config { s with current := .allocate (2 ^ k) } := by
  have hnext := next_slots_of_settled hm
  have hentries : entries { s with current := .allocate (2 ^ k) } = [] := by
    unfold entries
    simp [hnext, allocate, Probing.entries, Slot.content]
  have hsize : s.size = 0 := by rw [h.size_eq_length, hempty, length_nil]
  have hnolive : s.next.live = 0 := by
    have := h.size_eq
    omega
  refine ⟨⟨by rw [hentries, hempty], rfl⟩, ?_⟩
  exact
    { current := wellFormed_allocate hk
      next := h.next
      size_eq := by simp [allocate, hsize, hnolive]
      nodup := by simp [hentries]
      migrating := fun hm' => absurd hm' (Bool.eq_false_iff.mp hm)
      unfinished := fun hm' => absurd hm' (Bool.eq_false_iff.mp hm) }

/-- There is room for an entry in the table that entries are put into. -/
def HasRoom (s : RehashMap K V) : Prop :=
  s.target.capacity ≠ 0 ∧ 2 * (usedCount s.target.slots + 1) ≤ s.target.capacity

/-- The table that a settled map moves to has room for the entries and as many again. -/
theorem Valid.targetCapacity (h : s.Valid config) (hc : s.current.capacity ≠ 0) :
    ∃ k, 4 ≤ k ∧ s.targetCapacity = 2 ^ k ∧ 2 * (s.current.live + 1) ≤ 2 ^ k := by
  obtain ⟨k, hk, hlen⟩ := h.current.pow hc
  have hlive := h.current.live_le
  have hroom := h.current.room hc
  have hlarge := h.current.le_capacity hc
  have hcap : s.current.capacity = 2 ^ k := hlen
  unfold RehashMap.targetCapacity
  split
  · refine ⟨k + 1, by omega, by rw [hcap, Nat.pow_succ], ?_⟩
    rw [Nat.pow_succ, ← hcap]
    omega
  · refine ⟨k, hk, hcap, ?_⟩
    rw [← hcap]
    omega

/-- **Making room keeps the entries**, and makes room if a table can be allocated. -/
theorem Valid.makeRoomForOne (h : s.Valid config) :
    ∃ t ok, s.makeRoomForOne config = some (t, ok) ∧ SameEntries s t ∧ t.Valid config ∧
      (ok = true → t.HasRoom) := by
  -- A settled map with a table moves to another.
  have hbegin : ∀ t : RehashMap K V, SameEntries s t → t.Valid config → t.isMigrating = false →
      t.current.capacity ≠ 0 → ∃ u ok, some (t.beginMigration config t.targetCapacity) = some (u, ok) ∧
        SameEntries s u ∧ u.Valid config ∧ (ok = true → u.HasRoom) := by
    intro t hst ht hm hc
    obtain ⟨k, hk, hcap, hlarge⟩ := ht.targetCapacity hc
    obtain ⟨hsame, hvalid, hnext⟩ := ht.beginMigration hm hc hk hlarge
    rw [hcap]
    refine ⟨(t.beginMigration config (2 ^ k)).1, (t.beginMigration config (2 ^ k)).2, rfl, hst.trans hsame,
      hvalid, fun hok => ?_⟩
    have hcapacity : (allocate (2 ^ k) : RehashTable K V).capacity = 2 ^ k := by
      simp [allocate, capacity]
    have htarget : (t.beginMigration config (2 ^ k)).1.target = .allocate (2 ^ k) := by
      unfold target
      rw [if_pos (isMigrating_iff.mpr (by rw [hnext hok, hcapacity]; omega)), hnext hok]
    unfold HasRoom
    rw [htarget, hcapacity]
    refine ⟨by omega, ?_⟩
    simp only [allocate, usedCount_replicate]
    omega
  unfold RehashMap.makeRoomForOne
  split
  · rename_i hnone
    have hempty : s.entries = [] := by
      unfold entries
      rw [next_slots_of_settled hnone.2, eq_nil_of_length_eq_zero hnone.1]
      rfl
    obtain ⟨hsame, hvalid⟩ := h.replaceCurrent hnone.2 hempty (Nat.le_refl 4)
    split
    · refine ⟨_, true, rfl, hsame, hvalid, fun _ => ?_⟩
      have htarget : target { s with current := .allocate minimumCapacity } = .allocate minimumCapacity := by
        exact if_neg (Bool.eq_false_iff.mp hnone.2)
      unfold HasRoom
      rw [htarget]
      simp only [allocate, capacity, minimumCapacity, usedCount_replicate, length_replicate]
      omega
    · exact ⟨s, false, rfl, .refl s, h, nofun⟩
  · rename_i hsome
    split
    · rename_i hfits
      refine ⟨s, true, rfl, .refl s, h, fun _ => ?_⟩
      have hused : usedCount s.target.slots ≤ s.target.used := by
        unfold target
        split
        · exact h.next.used_le
        · exact h.current.used_le
      exact ⟨by omega, by omega⟩
    · cases hm : s.isMigrating with
      | true =>
        obtain ⟨t, ht, hsame, hvalid, hsettled, hcap⟩ := h.completeMigration
        have hcurrent : s.current.capacity ≠ 0 := Nat.ne_of_gt (Nat.zero_lt_of_lt (h.unfinished hm))
        simp only [if_true, ht, map_some]
        exact hbegin t hsame hvalid hsettled (hcap hcurrent)
      | false =>
        simp only [Bool.false_eq_true, if_false, map_some]
        exact hbegin s (.refl s) h hm fun hc => hsome ⟨hc, hm⟩

/-! ## Putting an entry in and taking one out -/

/-- An iterator at an occupied slot stays there. -/
theorem nextOccupied_of_occupied {table : RehashTable K V} (h : slotAt table.slots i = .occupied entry) :
    table.nextOccupied i = some i := by
  have hlt := lt_length_of_occupied h
  rw [slotAt_eq_getElem hlt] at h
  unfold nextOccupied
  rw [drop_eq_getElem_cons hlt, h, findIdx?_cons]
  simp [isOccupied]

variable {position : RehashPosition}

/-- An iterator that denotes an entry stays there. -/
theorem advanceToOccupied_of_entryAt (h : s.entryAt position = some entry) :
    s.advanceToOccupied position = position := by
  unfold entryAt at h
  rw [content_eq_some] at h
  cases position with
  | current => simp only [advanceToOccupied, nextOccupied_of_occupied h]
  | next => simp only [advanceToOccupied, advanceInNext, nextOccupied_of_occupied h]
  | atEnd => rfl

/-- **An entry whose key is absent is put into the map.** -/
theorem Valid.place [DecidableEq K] (h : s.Valid config) (hroom : s.HasRoom) (key : K) (value : V)
    (habsent : ∀ value, (key, value) ∉ s.entries) :
    ∃ t position, s.place config key value = some (t, position) ∧ t.Valid config ∧
      t.entries.Perm ((key, value) :: s.entries) ∧ t.entryAt position = some (key, value) := by
  -- the key is not in the map yet, so the keys stay distinct
  have hnew : ∀ t : RehashMap K V, t.entries.Perm ((key, value) :: s.entries) →
    (t.entries.map Prod.fst).Nodup := by
    intro t hperm
    refine ((hperm.map Prod.fst).nodup_iff).mpr ?_
    rw [map_cons, nodup_cons]
    refine ⟨fun hin => ?_, h.nodup⟩
    obtain ⟨⟨key', value'⟩, hin', hkey⟩ := mem_map.mp hin
    obtain rfl : key' = key := hkey
    exact habsent value' hin'
  have hsize := h.size_eq
  unfold RehashMap.place
  unfold HasRoom target at hroom
  unfold target
  cases hm : s.isMigrating with
  | true =>
    simp only [hm, if_true] at hroom ⊢
    have hlive := (h.migrating hm).live_lt
    obtain ⟨i, hfree, hwf, hperm, hslot, hused⟩ :=
      h.next.constructAt hroom.1 (by omega) key value
    have hcap : (s.next.constructAt i key value).capacity = s.next.capacity := length_set
    have hentry : entryAt { s with next := s.next.constructAt i key value, size := s.size + 1 } (.next i) =
        some (key, value) := by
      simp [entryAt, slotOf, hslot]
    have hentries : entries { s with next := s.next.constructAt i key value, size := s.size + 1 } |>.Perm
        ((key, value) :: s.entries) := (hperm.symm.append_left _).trans perm_middle
    simp only [hfree, map_some, advanceToOccupied_of_entryAt hentry]
    refine ⟨_, _, rfl, h.setNext hwf hm hcap ?_ (by omega) (hnew _ hentries), hentries, hentry⟩
    simp only [constructAt]
    omega
  | false =>
    simp only [hm, Bool.false_eq_true, if_false] at hroom ⊢
    obtain ⟨i, hfree, hwf, hperm, hslot, hused⟩ :=
      h.current.constructAt hroom.1 (by omega) key value
    have hentry : entryAt { s with current := s.current.constructAt i key value, size := s.size + 1 }
        (.current i) = some (key, value) := by
      simp [entryAt, slotOf, hslot]
    have hentries : entries
      { s with current := s.current.constructAt i key value, size := s.size + 1 } |>.Perm
        ((key, value) :: s.entries) := hperm.symm.append_right _
    simp only [hfree, map_some, advanceToOccupied_of_entryAt hentry]
    refine ⟨_, _, rfl, h.setCurrent hwf length_set ?_ (fun hm' => ?_) (hnew _ hentries), hentries, hentry⟩
    · simp only [constructAt]
      omega
    · exact absurd hm' (Bool.eq_false_iff.mp hm)

/-- **The entry that an iterator denotes is taken out.** -/
theorem Valid.removeAt [DecidableEq K] (h : s.Valid config) (he : s.entryAt position = some entry) :
    (s.removeAt position).Valid config ∧ s.entries.Perm (entry :: (s.removeAt position).entries) := by
  have hslot := content_eq_some.mp he
  have hsize := h.size_eq
  have hold : ∀ t : RehashMap K V, s.entries.Perm (entry :: t.entries) → (t.entries.map Prod.fst).Nodup := by
    intro t hperm
    have hnodup := (hperm.map Prod.fst).nodup_iff.mp h.nodup
    exact (nodup_cons.mp hnodup).2
  cases position with
  | current i =>
    have hperm : s.entries.Perm (entry :: (s.removeAt (.current i)).entries) :=
      (entries_leave hslot).append_right _
    have hlive := h.current.live_pos hslot
    refine ⟨h.setCurrent (h.current.remove hslot) length_set ?_ (fun hm => ⟨Nat.sub_le _ _, fun j hj => ?_⟩)
      (hold _ hperm), hperm⟩
    · simp only [remove]
      omega
    · simp only [remove, slotAt_set (lt_length_of_occupied hslot)]
      split
      · rfl
      · exact (h.migrating hm).moved j hj
  | next i =>
    have hslot : slotAt s.next.slots i = .occupied entry := hslot
    have hperm : s.entries.Perm (entry :: (s.removeAt (.next i)).entries) :=
      ((entries_leave hslot).append_left _).trans perm_middle
    have hcap : (s.next.remove i).capacity = s.next.capacity := length_set
    have hlive := h.next.live_pos hslot
    have hm := isMigrating_of_occupied hslot
    refine ⟨h.setNext (h.next.remove hslot) hm hcap ?_ ?_ (hold _ hperm), hperm⟩
    · simp only [remove]
      omega
    · rw [usedCount_remove hslot, hcap]
      exact (h.migrating hm).room
  | atEnd => cases hslot

/-! ## Iterating -/

/-- **The next occupied slot of a table**, and the entries from there on. -/
theorem entries_of_nextOccupied (table : RehashTable K V) (i : Nat) :
    (table.nextOccupied i = none ∧ Probing.entries (table.slots.drop i) = []) ∨
      ∃ j entry, table.nextOccupied i = some j ∧ slotAt table.slots j = .occupied entry ∧
        Probing.entries (table.slots.drop i) = entry :: Probing.entries (table.slots.drop (j + 1)) := by
  unfold nextOccupied
  rcases entries_of_findIdx? (table.slots.drop i) with
    ⟨hnone, hentries⟩ | ⟨j, entry, hsome, hslot, hentries⟩
  · exact .inl ⟨by rw [hnone]; rfl, hentries⟩
  · refine .inr ⟨i + j, entry, by rw [hsome]; rfl, ?_, ?_⟩
    · unfold slotAt at hslot ⊢
      rwa [getD_eq_getElem?_getD, getElem?_drop, ← getD_eq_getElem?_getD] at hslot
    · rw [hentries, drop_drop, Nat.add_assoc]

/-- The entries that an iterator has still to visit. -/
def remaining (s : RehashMap K V) : RehashPosition → List (K × V)
  | .current slot => Probing.entries (s.current.slots.drop slot) ++ Probing.entries s.next.slots
  | .next slot => Probing.entries (s.next.slots.drop slot)
  | .atEnd => []

theorem advanceToOccupied_of_some {j : Nat} (h : s.current.nextOccupied i = some j) :
    s.advanceToOccupied (.current i) = .current j := by
  simp only [advanceToOccupied, h]

theorem advanceToOccupied_of_none (h : s.current.nextOccupied i = none) :
    s.advanceToOccupied (.current i) = s.advanceInNext 0 := by
  simp only [advanceToOccupied, h]

theorem remaining_advanceInNext (s : RehashMap K V) (i : Nat) :
    s.remaining (s.advanceInNext i) = s.remaining (.next i) := by
  unfold advanceInNext
  rcases entries_of_nextOccupied s.next i with ⟨hnone, hentries⟩ | ⟨j, entry, hsome, hslot, hentries⟩
  · simp [hnone, remaining, hentries]
  · simp only [hsome, remaining, hentries, entries_drop hslot]

/-- **Moving to the next occupied slot skips no entry.** -/
theorem remaining_advanceToOccupied (s : RehashMap K V) (position : RehashPosition) :
    s.remaining (s.advanceToOccupied position) = s.remaining position := by
  cases position with
  | current i =>
    rcases entries_of_nextOccupied s.current i with ⟨hnone, hentries⟩ | ⟨j, entry, hsome, hslot, hentries⟩
    · rw [advanceToOccupied_of_none hnone, remaining_advanceInNext, remaining, remaining, hentries]
      rfl
    · rw [advanceToOccupied_of_some hsome]
      simp only [remaining, hentries, entries_drop hslot]
  | next i => exact remaining_advanceInNext s i
  | atEnd => rfl

/-- An iterator at an entry visits it and then those from the next on. -/
theorem remaining_of_entryAt (h : s.entryAt position = some entry) :
    s.remaining position = entry :: s.remaining (s.increment position) := by
  have hslot := content_eq_some.mp h
  cases position with
  | current =>
    rw [increment, remaining_advanceToOccupied, remaining, remaining, entries_drop hslot]
    rfl
  | next =>
    rw [increment, remaining_advanceToOccupied, remaining, remaining, entries_drop hslot]
  | atEnd => cases hslot

/-- **An iterator that has moved to the next occupied slot denotes an entry, or is at the end.** -/
theorem entryAt_advanceToOccupied (s : RehashMap K V) (position : RehashPosition) :
    s.advanceToOccupied position = .atEnd ∨
      ∃ entry, s.entryAt (s.advanceToOccupied position) = some entry := by
  have hnext : ∀ i, s.advanceInNext i = .atEnd ∨ ∃ entry, s.entryAt (s.advanceInNext i) = some entry := by
    intro i
    unfold advanceInNext
    rcases entries_of_nextOccupied s.next i with ⟨hnone, -⟩ | ⟨j, entry, hsome, hslot, -⟩
    · exact .inl (by rw [hnone])
    · refine .inr ⟨entry, ?_⟩
      rw [hsome]
      exact content_eq_some.mpr hslot
  cases position with
  | current i =>
    rcases entries_of_nextOccupied s.current i with ⟨hnone, -⟩ | ⟨j, entry, hsome, hslot, -⟩
    · rw [advanceToOccupied_of_none hnone]
      exact hnext 0
    · refine .inr ⟨entry, ?_⟩
      rw [advanceToOccupied_of_some hsome]
      exact content_eq_some.mpr hslot
  | next i => exact hnext i
  | atEnd => exact .inl rfl

theorem entryAt_begin (s : RehashMap K V) : s.begin = .atEnd ∨ ∃ entry, s.entryAt s.begin = some entry :=
  entryAt_advanceToOccupied s (.current 0)

theorem entryAt_increment (s : RehashMap K V) (position : RehashPosition) :
    s.increment position = .atEnd ∨ ∃ entry, s.entryAt (s.increment position) = some entry := by
  cases position with
  | current | next =>
    rw [increment]
    exact entryAt_advanceToOccupied s _
  | atEnd => exact .inl rfl

theorem visitFrom_of_entryAt (h : s.entryAt position = some entry) (steps : Nat) :
    s.visitFrom (steps + 1) position =
      (s.visitFrom steps (s.increment position)).map fun rest => entry :: rest := by
  cases position with
  | current | next =>
    rw [visitFrom, h, bind_some]
    simp
  | atEnd => cases h

/-- **Visiting from an iterator on visits every entry that remains, in order.** -/
theorem visitFrom_eq {steps : Nat} (hp : position = .atEnd ∨ ∃ entry, s.entryAt position = some entry)
    (hsteps : (s.remaining position).length ≤ steps) :
    s.visitFrom steps position = some (s.remaining position) := by
  induction steps generalizing position with
  | zero =>
    rcases hp with rfl | ⟨entry, hentry⟩
    · rfl
    · rw [remaining_of_entryAt hentry] at hsteps
      exact absurd hsteps (Nat.not_succ_le_zero _)
  | succ steps ih =>
    rcases hp with rfl | ⟨entry, hentry⟩
    · rfl
    · have hrest := remaining_of_entryAt hentry
      rw [hrest, length_cons] at hsteps
      rw [visitFrom_of_entryAt hentry, ih (entryAt_increment s position) (by omega), hrest]
      rfl

/-- **Iteration visits the entries of both tables, each once.** -/
theorem visit_eq (s : RehashMap K V) : s.visit = some s.entries := by
  have hbegin : s.remaining s.begin = s.entries := remaining_advanceToOccupied s _
  have hlen : s.entries.length ≤ s.current.capacity + s.next.capacity := by
    unfold entries capacity
    rw [length_append, length_entries, length_entries]
    exact Nat.add_le_add countP_le_length countP_le_length
  unfold visit
  rw [visitFrom_eq (entryAt_begin s) (by rwa [hbegin]), hbegin]

end RehashMap

end PubsubVenue
