import Mathlib.Data.Set.Card
import PubsubVenue.Container.RehashInvariants

/-! # The map is a finite map

At every point, in the middle of a migration too, the entries of the two tables are those of the
finite map that the operations describe.

* **`RehashMap.Valid.insertEntry`**, **`RehashMap.Valid.erase`**, **`RehashMap.Valid.reserve`**:
  what each operation does to the finite map.
* **`Described.finite_map`**: along every run the map agrees with the finite map, each table has an
  empty slot, and every operation returns. -/

namespace PubsubVenue

open Function List Probing RehashTable RehashMap

namespace RehashTable

variable {K V : Type*} {config : RehashConfig K} {t : RehashTable K V}

/-- **A value is overwritten**: the entry stays where it is. -/
theorem WellFormed.assign (h : t.WellFormed config) {i : Nat} {key : K} {old : V}
    (hi : slotAt t.slots i = .occupied (key, old)) (value : V) :
    (t.assign i value).WellFormed config ∧ (t.assign i value).capacity = t.capacity ∧
      (t.assign i value).live = t.live ∧ usedCount (t.assign i value).slots = usedCount t.slots ∧
        slotAt (t.assign i value).slots i = .occupied (key, value) ∧
          ((key, value) :: entries t.slots).Perm ((key, old) :: entries (t.assign i value).slots) := by
  have hlt := lt_length_of_occupied hi
  have hassign : t.assign i value = { t with slots := t.slots.set i (.occupied (key, value)) } := by
    simp only [RehashTable.assign, hi]
  have hcap : (t.assign i value).capacity = t.capacity := by
    rw [hassign]
    exact length_set
  have hused : usedCount (t.assign i value).slots = usedCount t.slots := by
    rw [hassign, usedCount_set hlt rfl, hi]
    exact if_pos rfl
  have hperm : ((key, value) :: entries t.slots).Perm ((key, old) :: entries (t.assign i value).slots) := by
    have hset := entries_set_perm hlt (.occupied (key, value))
    rw [hi] at hset
    rwa [hassign]
  refine ⟨?_, hcap, by rw [hassign], hused, by rw [hassign, slotAt_set_self hlt], hperm⟩
  rw [hassign] at hused hperm ⊢
  refine h.set hlt rfl ?_ (hused.trans_le h.used_le) (fun hc => hused.trans_lt (h.room hc))
    fun entry hentry => ?_
  · rw [← Nat.succ_inj.mp hperm.length_eq, length_entries, h.live_eq]
  · rw [← Slot.occupied.inj hentry]
    exact h.reachable i (key, old) hi

end RehashTable

namespace RehashMap

variable {K V : Type*} {config : RehashConfig K} {s t : RehashMap K V}

/-- A value overwritten leaves the keys distinct. -/
theorem nodup_of_assign {key : K} {old value : V} {l l' : List (K × V)}
    (h : ((key, value) :: l).Perm ((key, old) :: l')) (hl : (l.map Prod.fst).Nodup) :
    (l'.map Prod.fst).Nodup := by
  have hkeys := h.map Prod.fst
  rw [map_cons, map_cons] at hkeys
  exact hkeys.cons_inv.nodup_iff.mp hl

/-- **The entries of the map are those of a finite map.** -/
def Describes (s : RehashMap K V) (contents : K → Option V) : Prop :=
  ∀ key value, contents key = some value ↔ (key, value) ∈ s.entries

/-- What can be allocated does not matter for what is in the map. -/
theorem Valid.allocating (h : s.Valid config) (allocates : Nat → Bool) :
    s.Valid (config.allocating allocates) :=
  { h with current := { h.current with }, next := { h.next with } }

/-- The entry that an iterator denotes is an entry of the map. -/
theorem mem_entries_of_entryAt {position : RehashPosition} {entry : K × V}
    (h : s.entryAt position = some entry) : entry ∈ s.entries := by
  have hslot := Slot.content_eq_some.mp h
  cases position with
  | current i => exact mem_append_left _ (mem_entries.mpr ⟨i, hslot⟩)
  | next i => exact mem_append_right _ (mem_entries.mpr ⟨i, hslot⟩)
  | atEnd => cases hslot

/-- A key has one value. -/
theorem Sound.value_unique (h : s.Sound config) {key : K} {v w : V} (hv : (key, v) ∈ s.entries)
    (hw : (key, w) ∈ s.entries) : v = w :=
  congrArg Prod.snd (inj_on_of_nodup_map h.nodup hv hw rfl)

namespace Describes

variable {contents : K → Option V}

theorem sameEntries (h : s.Describes contents) (hs : SameEntries s t) : t.Describes contents :=
  fun key value => (h key value).trans hs.entries.mem_iff.symm

theorem eq_none (h : s.Describes contents) {key : K} (habsent : ∀ value, (key, value) ∉ s.entries) :
    contents key = none := by
  by_contra hsome
  obtain ⟨value, hvalue⟩ := Option.ne_none_iff_exists'.mp hsome
  exact habsent value ((h key value).mp hvalue)

variable [DecidableEq K]

section

variable (h : s.Describes contents)
include h

variable {key : K} {value : V}

/-- An entry more: the finite map has its key too. -/
theorem insert (habsent : ∀ value, (key, value) ∉ s.entries)
    (hperm : t.entries.Perm ((key, value) :: s.entries)) :
    t.Describes (update contents key (some value)) := by
  intro key' value'
  rw [hperm.mem_iff, mem_cons, Prod.mk.injEq, ← h key' value']
  by_cases hkey : key' = key
  · rw [hkey, update_self, h.eq_none habsent, Option.some.injEq]
    constructor
    · exact fun hv => .inl ⟨rfl, hv.symm⟩
    · rintro (⟨-, hv⟩ | hnone)
      · exact hv.symm
      · cases hnone
  · rw [update_of_ne hkey]
    exact ⟨.inr, fun hor => hor.resolve_left fun hboth => hkey hboth.1⟩

/-- An entry less: the finite map no longer has its key. -/
theorem erase (hs : s.Sound config) (hperm : s.entries.Perm ((key, value) :: t.entries)) :
    t.Describes (update contents key none) := by
  have hnodup := (hperm.map Prod.fst).nodup_iff.mp hs.nodup
  rw [map_cons, nodup_cons] at hnodup
  intro key' value'
  by_cases hkey : key' = key
  · rw [hkey, update_self]
    constructor
    · exact nofun
    · exact fun hin => absurd (mem_map_of_mem hin) hnodup.1
  · rw [update_of_ne hkey, h key' value', hperm.mem_iff, mem_cons, Prod.mk.injEq]
    exact ⟨fun hor => hor.resolve_left fun hboth => hkey hboth.1, .inr⟩

/-- A value overwritten. -/
theorem assign (ht : t.Sound config) {old : V}
    (hperm : ((key, value) :: s.entries).Perm ((key, old) :: t.entries)) (hin : (key, value) ∈ t.entries) :
    t.Describes (update contents key (some value)) := by
  intro key' value'
  by_cases hkey : key' = key
  · rw [hkey, update_self, Option.some.injEq]
    exact ⟨fun hv => hv ▸ hin, fun hin' => ht.value_unique hin hin'⟩
  · have hmem := hperm.mem_iff (a := (key', value'))
    simp only [mem_cons, Prod.mk.injEq, hkey, false_and, false_or] at hmem
    rw [update_of_ne hkey, h key' value', hmem]

end

end Describes

section Lookup

variable [DecidableEq K]

section

variable (h : s.Valid config)
include h

/-- **Where a key is**: in the table that entries move into, in the other, or in neither. -/
theorem Valid.lookup (key : K) :
    ((s.isMigrating = true ∧ s.next.findSlot key (config.hash key) ≠ s.next.capacity) ∧
        ∃ value, s.entryAt (.next (s.next.findSlot key (config.hash key))) = some (key, value)) ∨
      (¬ (s.isMigrating = true ∧ s.next.findSlot key (config.hash key) ≠ s.next.capacity) ∧
        s.current.findSlot key (config.hash key) ≠ s.current.capacity ∧
          ∃ value, s.entryAt (.current (s.current.findSlot key (config.hash key))) = some (key, value)) ∨
        (¬ (s.isMigrating = true ∧ s.next.findSlot key (config.hash key) ≠ s.next.capacity) ∧
          s.current.findSlot key (config.hash key) = s.current.capacity ∧
            ∀ value, (key, value) ∉ s.entries) := by
  have hentry : ∀ {slot : Slot (K × V)} {value : V}, slot = .occupied (key, value) →
      slot.content = some (key, value) := fun h => Slot.content_eq_some.mpr h
  rcases h.next.findSlot key with ⟨hnext, hnotin⟩ | ⟨hnext, value, hslot⟩
  · rcases h.current.findSlot key with ⟨hcurrent, hnotin'⟩ | ⟨hcurrent, value, hslot⟩
    · refine .inr (.inr ⟨fun hboth => hboth.2 hnext, hcurrent, fun value hin => ?_⟩)
      rcases mem_append.mp hin with hin | hin
      · exact hnotin' value hin
      · exact hnotin value hin
    · exact .inr (.inl ⟨fun hboth => hboth.2 hnext, hcurrent, value, hentry hslot⟩)
  · exact .inl ⟨⟨isMigrating_of_occupied hslot, hnext⟩, value, hentry hslot⟩

/-- **`find` finds the key or is at the end**, where no entry has it. -/
theorem Valid.find (key : K) : (s.find config key = .atEnd ∧ ∀ value, (key, value) ∉ s.entries) ∨
      s.find config key ≠ .atEnd ∧ ∃ value, s.entryAt (s.find config key) = some (key, value) := by
  unfold RehashMap.find
  rcases h.lookup key with ⟨hnext, value, hentry⟩ | ⟨hnext, hcurrent, value, hentry⟩ |
    ⟨hnext, hcurrent, habsent⟩
  · simp only [if_pos hnext, advanceToOccupied_of_entryAt hentry]
    exact .inr ⟨nofun, value, hentry⟩
  · simp only [if_neg hnext, if_pos hcurrent, advanceToOccupied_of_entryAt hentry]
    exact .inr ⟨nofun, value, hentry⟩
  · rw [if_neg hnext, if_neg (not_not.mpr hcurrent)]
    exact .inl ⟨rfl, habsent⟩

variable {contents : K → Option V}

/-- **`find_value` finds the value of the key.** -/
theorem Valid.findValue (hd : s.Describes contents) (key : K) : s.findValue config key = contents key := by
  have hfound : ∀ {position : RehashPosition} {value : V}, s.entryAt position = some (key, value) →
      (s.slotOf position).content.map Prod.snd = contents key := fun {position value} hentry => by
    rw [(hd key value).mpr (mem_entries_of_entryAt hentry)]
    unfold entryAt at hentry
    rw [hentry]
    rfl
  unfold RehashMap.findValue
  rcases h.lookup key with ⟨hnext, value, hentry⟩ | ⟨hnext, hcurrent, value, hentry⟩ |
    ⟨hnext, hcurrent, habsent⟩
  · rw [if_pos hnext]
    exact hfound hentry
  · rw [if_neg hnext, if_pos hcurrent]
    exact hfound hentry
  · rw [if_neg hnext, if_neg (not_not.mpr hcurrent), hd.eq_none habsent]

/-- A value is overwritten in the table that its iterator denotes. -/
theorem Valid.assignNext {i : Nat} {key : K} {old : V} (he : s.entryAt (.next i) = some (key, old))
    (value : V) (hd : s.Describes contents) : Valid config { s with next := s.next.assign i value } ∧
      Describes { s with next := s.next.assign i value } (update contents key (some value)) := by
  obtain ⟨hwf, hcap, hlive, hused, hslot, hperm⟩ := h.next.assign (Slot.content_eq_some.mp he) value
  have hentries : ((key, value) :: s.entries).Perm
    ((key, old) :: entries { s with next := s.next.assign i value }) :=
    (perm_middle.symm.trans (hperm.append_left _)).trans perm_middle
  have hm := isMigrating_of_occupied (Slot.content_eq_some.mp he)
  have hvalid : Valid config { s with next := s.next.assign i value } := by
    refine h.setNext hwf hm hcap (by rw [h.size_eq, hlive]) ?_ (nodup_of_assign hentries h.nodup)
    rw [hused, hcap]
    exact (h.migrating hm).room
  refine ⟨hvalid, hd.assign hvalid.toSound hentries ?_⟩
  exact mem_append_right _ (mem_entries.mpr ⟨i, hslot⟩)

theorem Valid.assignCurrent {i : Nat} {key : K} {old : V} (he : s.entryAt (.current i) = some (key, old))
    (value : V) (hd : s.Describes contents) : Valid config { s with current := s.current.assign i value } ∧
      Describes { s with current := s.current.assign i value } (update contents key (some value)) := by
  have hi : slotAt s.current.slots i = .occupied (key, old) := Slot.content_eq_some.mp he
  have hlt := lt_length_of_occupied hi
  obtain ⟨hwf, hcap, hlive, -, hslot, hperm⟩ := h.current.assign hi value
  have hentries : ((key, value) :: s.entries).Perm
      ((key, old) :: entries { s with current := s.current.assign i value }) := hperm.append_right _
  have hvalid : Valid config { s with current := s.current.assign i value } := by
    refine h.setCurrent hwf hcap (by rw [h.size_eq, hlive]) (fun hm => ⟨hlive.le, fun j hj => ?_⟩)
      (nodup_of_assign hentries h.nodup)
    -- An occupied slot is not one of those already examined.
    have hmoved := (h.migrating hm).moved j hj
    have hne : j ≠ i := fun heq => by
      rw [heq, hi] at hmoved
      cases hmoved
    have hset : (s.current.assign i value).slots = s.current.slots.set i (.occupied (key, value)) := by
      simp only [assign, hi]
    rwa [hset, slotAt_set_of_ne hlt _ hne]
  refine ⟨hvalid, hd.assign hvalid.toSound hentries ?_⟩
  exact mem_append_left _ (mem_entries.mpr ⟨i, hslot⟩)

end

/-- What an insertion describes: a key that is present keeps its value unless it is assigned. -/
def insertInto (contents : K → Option V) (key : K) (value : V) (assignExisting : Bool) : K → Option V :=
  if (contents key).isSome && !assignExisting then contents else update contents key (some value)

/-- **An insertion does what it describes**, unless no table could be allocated, and always returns. -/
theorem Valid.insertEntry (h : s.Valid config) {contents : K → Option V} (hd : s.Describes contents)
    (key : K) (value : V) (assignExisting : Bool) :
    ∃ t result, s.insertEntry config key value assignExisting = some (t, result) ∧ t.Valid config ∧
      t.Describes (if result.isSome then insertInto contents key value assignExisting else contents) := by
  obtain ⟨t, ht, hst, hvalid, -⟩ := h.stepMigration
  have hdt := hd.sameEntries hst
  -- A key that is present.
  have hpresent : ∀ {position : RehashPosition} {old : V}, t.entryAt position = some (key, old) →
      insertInto contents key value assignExisting =
        if assignExisting then update contents key (some value) else contents := by
    intro position old hentry
    have hsome := (hdt key old).mpr (mem_entries_of_entryAt hentry)
    cases assignExisting <;> simp [insertInto, hsome]
  unfold RehashMap.insertEntry
  rw [ht, Option.bind_some]
  rcases hvalid.lookup key with ⟨hnext, old, hentry⟩ | ⟨hnext, hcurrent, old, hentry⟩ |
    ⟨hnext, hcurrent, habsent⟩
  · simp only [if_pos hnext]
    refine ⟨_, _, rfl, ?_⟩
    rw [Option.isSome_some, if_pos rfl, hpresent hentry]
    cases assignExisting with
    | true => exact hvalid.assignNext hentry value hdt
    | false => exact ⟨hvalid, hdt⟩
  · simp only [if_neg hnext, if_pos hcurrent]
    refine ⟨_, _, rfl, ?_⟩
    rw [Option.isSome_some, if_pos rfl, hpresent hentry]
    cases assignExisting with
    | true => exact hvalid.assignCurrent hentry value hdt
    | false => exact ⟨hvalid, hdt⟩
  · obtain ⟨u, ok, hu, htu, hvu, hroom⟩ := hvalid.makeRoomForOne
    have hdu := hdt.sameEntries htu
    have habsent' : ∀ value, (key, value) ∉ u.entries := fun value hin =>
      habsent value (htu.entries.mem_iff.mp hin)
    simp only [if_neg hnext, if_neg (not_not.mpr hcurrent), hu, Option.bind_some]
    cases ok with
    | true =>
      obtain ⟨v, position, hv, hvv, hperm, -⟩ := hvu.place (hroom rfl) key value habsent'
      rw [if_pos rfl, hv]
      refine ⟨v, some (position, true), rfl, hvv, ?_⟩
      have hnew : insertInto contents key value assignExisting = update contents key (some value) := by
        simp [insertInto, hdu.eq_none habsent']
      rw [Option.isSome_some, if_pos rfl, hnew]
      exact hdu.insert habsent' hperm
    | false => exact ⟨u, none, rfl, hvu, hdu⟩

/-- **An erasure does what it describes**, and always returns. -/
theorem Valid.erase (h : s.Valid config) {contents : K → Option V} (hd : s.Describes contents) (key : K) :
    ∃ t erased, s.erase config key = some (t, erased) ∧ t.Valid config ∧
      t.Describes (update contents key none) := by
  unfold RehashMap.erase
  rcases h.find key with ⟨hend, habsent⟩ | ⟨hfound, value, hentry⟩
  · obtain ⟨t, ht, hst, hvalid, -⟩ := h.stepMigration
    have hnone : update contents key none = contents := by
      rw [← hd.eq_none habsent, update_eq_self]
    simp only [if_pos hend, ht, Option.map_some, hnone]
    exact ⟨t, 0, rfl, hvalid, hd.sameEntries hst⟩
  · obtain ⟨hremoved, hperm⟩ := h.removeAt hentry
    obtain ⟨t, ht, hst, hvalid, -⟩ := hremoved.stepMigration
    simp only [if_neg hfound, eraseAt, ht, Option.map_some]
    exact ⟨t, 1, rfl, hvalid, (hd.erase h.toSound hperm).sameEntries hst⟩

end Lookup

/-- The sizes that `capacity_for` tries, as long as they are not 0, are powers of two. -/
theorem capacityFrom_eq_some {entryCount sizes k wanted : Nat} (hk : 4 ≤ k) (hlt : k < 64)
    (h : capacityFrom entryCount sizes (2 ^ k) = some wanted) : ∃ j, 4 ≤ j ∧ wanted = 2 ^ j := by
  induction sizes generalizing k with
  | zero => cases h
  | succ sizes ih =>
    unfold capacityFrom at h
    split at h
    · rename_i hless
      by_cases hmore : k + 1 < 64
      · have hnext : 2 ^ k * 2 % 18446744073709551616 = 2 ^ (k + 1) := by
          rw [← Nat.pow_succ]
          exact Nat.mod_eq_of_lt (Nat.pow_lt_pow_right (by decide) hmore)
        rw [hnext] at h
        exact ih (by omega) hmore h
      · -- The size is 0 from here on, and never enough.
        obtain rfl : k = 63 := by omega
        have hzero : ∀ sizes, capacityFrom entryCount sizes 0 = none := by
          intro sizes
          induction sizes with
          | zero => rfl
          | succ sizes ih =>
            unfold capacityFrom
            rw [if_pos (by omega)]
            exact ih
        have hwraps : 2 ^ 63 * 2 % 18446744073709551616 = 0 := by decide
        rw [hwraps, hzero] at h
        cases h
    · exact ⟨k, hk, (Option.some.inj h).symm⟩

/-- **Making room ahead keeps the entries.** -/
theorem Valid.reserve (h : s.Valid config) {entryCount wanted : Nat}
    (hw : capacityFor entryCount = some wanted) :
    ∃ t ok, s.reserve config entryCount = some (t, ok) ∧ t.Valid config ∧ SameEntries s t := by
  obtain ⟨k, hk, rfl⟩ : ∃ k, 4 ≤ k ∧ wanted = 2 ^ k := capacityFrom_eq_some (Nat.le_refl 4) (by decide) hw
  unfold RehashMap.reserve
  rw [hw, Option.map_some]
  split
  · rename_i hnone
    have hempty : s.entries = [] := eq_nil_of_length_eq_zero (h.size_eq_length ▸ hnone.1)
    obtain ⟨hsame, hvalid⟩ := h.replaceCurrent hnone.2 hempty hk
    split
    · split
      · exact ⟨_, true, rfl, hvalid, hsame⟩
      · exact ⟨s, false, rfl, h, .refl s⟩
    · exact ⟨s, true, rfl, h, .refl s⟩
  · rename_i hsome
    split
    · rename_i hlarger
      have hc : s.current.capacity ≠ 0 := fun hc => hsome ⟨?_, hlarger.2⟩
      · have hlive := h.current.live_le
        have hroom := h.current.room hc
        obtain ⟨j, hj, hlen⟩ := h.current.shape.resolve_left hc
        have hdouble : 2 * s.current.capacity ≤ 2 ^ k := by
          have hlt : j < k := (Nat.pow_lt_pow_iff_right (by decide)).mp (hlen ▸ hlarger.1)
          calc 2 * s.current.capacity = 2 ^ (j + 1) := by rw [hlen, Nat.pow_succ, Nat.mul_comm]
            _ ≤ 2 ^ k := Nat.pow_le_pow_right (by decide) hlt
        obtain ⟨hsame, hvalid, -⟩ := h.beginMigration hlarger.2 hc hk (by omega)
        exact ⟨_, _, rfl, hvalid, hsame⟩
      · rw [h.size_eq_length, entries, eq_nil_of_length_eq_zero hc, next_slots_of_settled hlarger.2]
        rfl
    · exact ⟨s, true, rfl, h, .refl s⟩

/-- **`clear` leaves no entry.** -/
theorem Valid.clear (h : s.Valid config) : s.clear.Valid config ∧ s.clear.Describes fun _ => none := by
  have hentries : s.clear.entries = [] := by
    simp [RehashMap.clear, entries, destroyEntries, allocate, absent, Probing.entries, Slot.content]
  have hsettled : s.clear.isMigrating = false := isMigrating_eq_false.mpr rfl
  have hcurrent : s.current.destroyEntries.WellFormed config := by
    unfold destroyEntries
    rcases h.current.shape with hc | ⟨k, hk, hc⟩
    · rw [hc]
      exact wellFormed_absent
    · rw [hc]
      exact wellFormed_allocate hk
  refine ⟨?_, fun key value => by simp [hentries]⟩
  exact
    { current := hcurrent
      next := wellFormed_absent
      size_eq := rfl
      nodup := by simp [hentries]
      migrating := fun hm => absurd hm (Bool.eq_false_iff.mp hsettled)
      unfinished := fun hm => absurd hm (Bool.eq_false_iff.mp hsettled) }

end RehashMap

/-! ## The map along every run -/

/-- The operations on a map. -/
inductive RehashOp (K V : Type*)
  | emplace (key : K) (value : V)
  | insertOrAssign (key : K) (value : V)
  | erase (key : K)
  | reserve (entryCount : Nat)
  | clear

/-- A map and the finite map that the operations on it describe. -/
structure Described (K V : Type*) where
  map : RehashMap K V
  contents : K → Option V

namespace Described

variable {K V : Type*} [DecidableEq K] (config : RehashConfig K)

/-- **What each operation does**: to the map, and to the finite map, unless it throws. -/
def step : Machine (Described K V) (RehashOp K V)
  | d, .emplace key value =>
    (d.map.emplace config key value).map fun done =>
      { map := done.1
        contents :=
          if done.2.isSome then insertInto d.contents key value false else d.contents }
  | d, .insertOrAssign key value =>
    (d.map.insertOrAssign config key value).map fun done =>
      { map := done.1
        contents :=
          if done.2.isSome then insertInto d.contents key value true else d.contents }
  | d, .erase key =>
    (d.map.erase config key).map fun done =>
      { map := done.1, contents := update d.contents key none }
  | d, .reserve entryCount => (d.map.reserve config entryCount).map fun done => { d with map := done.1 }
  | d, .clear => some { map := d.map.clear, contents := fun _ => none }

/-- What an operation does when some tables can be allocated, which may be others each time. -/
def stepAllocating : Machine (Described K V) ((Nat → Bool) × RehashOp K V) :=
  fun d op => step (config.allocating op.1) d op.2

/-- A map to which nothing has been done, and the empty finite map. -/
def fresh : Described K V := { map := .fresh, contents := fun _ => none }

/-- **The map agrees with the finite map**: in what it finds, in its size and in what iteration
visits. -/
structure Agrees (d : Described K V) : Prop where
  find_absent : ∀ key, d.map.find config key = .atEnd ↔ d.contents key = none
  find_present : ∀ key value, d.map.entryAt (d.map.find config key) = some (key, value) ↔
    d.contents key = some value
  count : ∀ key, d.map.count config key = if (d.contents key).isSome then 1 else 0
  findValue : ∀ key, d.map.findValue config key = d.contents key
  size : d.map.size = Set.ncard {key | (d.contents key).isSome = true}
  visits : ∃ visited, d.map.visit = some visited ∧ (visited.map Prod.fst).Nodup ∧
    ∀ key value, (key, value) ∈ visited ↔ d.contents key = some value

/-- Each table has an empty slot. -/
def HasEmptySlots (d : Described K V) : Prop :=
  ∀ table ∈ [d.map.current, d.map.next], table.capacity ≠ 0 →
    ∃ i < table.capacity, slotAt table.slots i = .empty

variable {config} {d : Described K V}

section

variable (h : d.map.Valid config) (hd : d.map.Describes d.contents)

include h hd

/-- The number of entries is the number of keys. -/
theorem size_eq_ncard : d.map.size = Set.ncard {key | (d.contents key).isSome = true} := by
  have hset : {key | (d.contents key).isSome = true} = ↑(d.map.entries.map Prod.fst).toFinset := by
    ext key
    rw [Set.mem_ofPred_eq, Finset.mem_coe, mem_toFinset, mem_map, Option.isSome_iff_exists]
    constructor
    · rintro ⟨value, hvalue⟩
      exact ⟨(key, value), (hd key value).mp hvalue, rfl⟩
    · rintro ⟨⟨key', value⟩, hin, rfl⟩
      exact ⟨value, (hd key' value).mpr hin⟩
  rw [hset, Set.ncard_coe_finset, toFinset_card_of_nodup h.nodup, length_map]
  exact h.size_eq_length

/-- **A map whose entries are those of the finite map agrees with it.** -/
theorem agrees : d.Agrees config := by
  -- What is found has the key, and the value that the finite map has.
  have hvalue : ∀ key value, d.map.entryAt (d.map.find config key) = some (key, value) →
      d.contents key = some value := fun key value he =>
    (hd key value).mpr (mem_entries_of_entryAt he)
  have habsent : ∀ key, d.map.find config key = .atEnd ↔ d.contents key = none := by
    intro key
    rcases h.find key with ⟨hend, hnone⟩ | ⟨hfound, value, hentry⟩
    · exact iff_of_true hend (hd.eq_none hnone)
    · refine iff_of_false hfound ?_
      rw [hvalue key value hentry]
      nofun
  refine
    { find_absent := habsent
      find_present := fun key value => ⟨hvalue key value, fun hsome => ?_⟩
      count := fun key => ?_
      findValue := h.findValue hd
      size := size_eq_ncard h hd
      visits := ⟨_, d.map.visit_eq, h.nodup, fun key value => (hd key value).symm⟩ }
  · rcases h.find key with ⟨-, hnone⟩ | ⟨-, other, hentry⟩
    · exact absurd ((hd key value).mp hsome) (hnone value)
    · have hother := hvalue key other hentry
      rw [hsome] at hother
      rw [hentry, Option.some.inj hother]
  · unfold RehashMap.count
    cases hc : d.contents key with
    | none => rw [if_pos ((habsent key).mpr hc)]; rfl
    | some =>
      have hfound : d.map.find config key ≠ .atEnd := fun hend => by
        rw [(habsent key).mp hend] at hc
        cases hc
      rw [if_neg hfound]
      rfl

/-- **Every operation returns, and keeps the map and the finite map together**; only a size that
does not fit in 64 bits is waited for without end. -/
theorem exists_step (op : RehashOp K V)
    (hfits : ∀ entryCount, op = .reserve entryCount → capacityFor entryCount ≠ none) :
    ∃ d', step config d op = some d' ∧ d'.map.Valid config ∧ d'.map.Describes d'.contents := by
  cases op with
  | emplace key value =>
    obtain ⟨t, result, ht, hvalid, hdescribes⟩ := h.insertEntry hd key value false
    simp only [step, emplace, ht, Option.map_some]
    exact ⟨_, rfl, hvalid, hdescribes⟩
  | insertOrAssign key value =>
    obtain ⟨t, result, ht, hvalid, hdescribes⟩ := h.insertEntry hd key value true
    simp only [step, insertOrAssign, ht, Option.map_some]
    exact ⟨_, rfl, hvalid, hdescribes⟩
  | erase key =>
    obtain ⟨t, erased, ht, hvalid, hdescribes⟩ := h.erase hd key
    simp only [step, ht, Option.map_some]
    exact ⟨_, rfl, hvalid, hdescribes⟩
  | reserve entryCount =>
    obtain ⟨wanted, hw⟩ := Option.ne_none_iff_exists'.mp (hfits entryCount rfl)
    obtain ⟨t, ok, ht, hvalid, hsame⟩ := h.reserve hw
    simp only [step, ht, Option.map_some]
    exact ⟨_, rfl, hvalid, hd.sameEntries hsame⟩
  | clear => exact ⟨_, rfl, h.clear⟩

end

/-- An operation that returns keeps the map and the finite map together. -/
theorem invariant_step (config : RehashConfig K) :
    (step config : Machine (Described K V) (RehashOp K V)).Invariant
      fun d => d.map.Valid config ∧ d.map.Describes d.contents := by
  intro d op d' ⟨h, hd⟩ hd'
  have hfits : ∀ entryCount, op = .reserve entryCount → capacityFor entryCount ≠ none := by
    rintro entryCount rfl hnone
    simp [step, reserve, hnone] at hd'
  obtain ⟨e, he, hvalid⟩ := exists_step h hd op hfits
  rw [he] at hd'
  exact Option.some.inj hd' ▸ hvalid

omit [DecidableEq K] in
theorem valid_fresh (config : RehashConfig K) :
    (fresh : Described K V).map.Valid config ∧ (fresh : Described K V).map.Describes fun _ => none := by
  have hentries : (fresh : Described K V).map.entries = [] := rfl
  refine ⟨?_, fun key value => by simp [hentries]⟩
  exact
    { current := wellFormed_absent
      next := wellFormed_absent
      size_eq := rfl
      nodup := by simp [hentries]
      migrating := nofun
      unfinished := nofun }

variable (config) in
/-- **The map is a finite map.** For every hash function, every share of slots that an operation moves, every
sequence of operations and whichever tables can be allocated at each: the map agrees with the finite map that
they describe, each table has an empty slot, and every operation returns. -/
theorem finite_map {ops : List ((Nat → Bool) × RehashOp K V)}
    (hr : (stepAllocating config).run fresh ops = some d) :
    d.Agrees config ∧ d.HasEmptySlots ∧ ∀ allocates op,
      (∀ entryCount, op = .reserve entryCount → capacityFor entryCount ≠ none) →
        (stepAllocating config d (allocates, op)).isSome = true := by
  have hkept : (stepAllocating config : Machine (Described K V) _).Invariant
      fun d => d.map.Valid config ∧ d.map.Describes d.contents := by
    intro d op d' ⟨h, hd⟩ hd'
    obtain ⟨h', hd'⟩ := invariant_step (config.allocating op.1) ⟨h.allocating op.1, hd⟩ hd'
    exact ⟨h'.allocating config.allocates, hd'⟩
  obtain ⟨h, hd⟩ := hkept.run (valid_fresh config) hr
  refine ⟨agrees h hd, fun table htable hc => ?_, fun allocates op hfits => ?_⟩
  · have hwf : table.WellFormed config := by
      simp only [mem_cons, not_mem_nil, or_false] at htable
      rcases htable with rfl | rfl
      · exact h.current
      · exact h.next
    exact exists_empty (hwf.room hc)
  · obtain ⟨e, he, -⟩ := exists_step (h.allocating allocates) hd op hfits
    rw [stepAllocating, he]
    rfl

/-! ## A run -/

/-- Every key has the same hash value, an operation moves one slot, and any table can be allocated. -/
def oneSlotAtATime : RehashConfig Nat :=
  { hash := fun _ => 7, migrationSlotsPerOperation := 1, pos := Nat.one_pos, allocates := fun _ => true }

/-- Nine entries, of which the last begins a migration. -/
def nineEntries : List (RehashOp Nat Nat) := (range 9).map fun key => .emplace key (key + 100)

/-- One of nine entries is erased in the middle of the migration. -/
def tenOperations : List ((Nat → Bool) × RehashOp Nat Nat) :=
  (nineEntries ++ [RehashOp.erase 3]).map fun op => (fun _ => true, op)

theorem finite_map_nine :
    ∃ d, (stepAllocating oneSlotAtATime).run fresh tenOperations = some d ∧ d.map.isMigrating = true ∧
      d.contents 3 = none ∧ d.contents 4 = some 104 ∧ d.map.size = 8 ∧ d.Agrees oneSlotAtATime := by
  obtain ⟨d, hrun, hm, habsent, hpresent, hsize⟩ := Machine.exists_run_of_any
    (stepAllocating oneSlotAtATime) fresh tenOperations
    (fun d => d.map.isMigrating = true ∧ d.contents 3 = none ∧ d.contents 4 = some 104 ∧ d.map.size = 8)
    (by decide)
  exact ⟨d, hrun, hm, habsent, hpresent, hsize, (finite_map oneSlotAtATime hrun).1⟩

end Described

end PubsubVenue
