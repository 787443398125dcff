import Mathlib.Algebra.Group.Nat.Defs
import Mathlib.Data.List.Basic
import Mathlib.Data.List.Count

/-! # Open addressing with linear probing

A table of slots, each empty, occupied by an entry, or a tombstone that an entry has left. An entry
belongs at its home slot, or behind it on the path that goes round the table from there. A search
for an entry follows the path and stops at the first empty slot; a place for a new one is the first
slot on the path that is not occupied.

* **`Probing.search_eq_none_iff`**: where no slot between an entry and its home is empty, a search
  that fails says that no entry is what is looked for.
* **`Probing.exists_free`**: a table with a slot that is not occupied has a place for an entry.
* **`Probing.Reachable.set`**: taking an entry out and putting one where a search for it leads to
  keep every entry reachable.

The number of slots is a power of two, so that the next slot is found with a mask. -/

namespace PubsubVenue

open List

/-- A slot of a table. -/
inductive Slot (α : Type*)
  | empty
  | tombstone
  | occupied (entry : α)
  deriving DecidableEq

namespace Slot

variable {α : Type*}

/-- The entry that a slot holds. -/
def content : Slot α → Option α
  | occupied entry => some entry
  | empty | tombstone => none

/-- The slot holds an entry. -/
def isOccupied : Slot α → Bool
  | occupied _ => true
  | empty | tombstone => false

/-- The slot has held an entry: it is not empty. -/
def isUsed : Slot α → Bool
  | empty => false
  | tombstone | occupied _ => true

variable {slot : Slot α}

@[simp] theorem content_eq_some {entry : α} : slot.content = some entry ↔ slot = occupied entry := by
  cases slot <;> simp [content]

theorem isOccupied_iff : slot.isOccupied = true ↔ ∃ entry, slot = occupied entry := by
  cases slot <;> simp [isOccupied]

theorem isUsed_of_isOccupied (h : slot.isOccupied = true) : slot.isUsed = true := by
  cases slot with
  | empty => cases h
  | tombstone => rfl
  | occupied => rfl

end Slot

namespace Probing

variable {α : Type*} (slots : List (Slot α))

/-- The slot at an index. -/
def slotAt (i : Nat) : Slot α := slots.getD i .empty

/-- The slot after one, round the table. -/
def nextSlot (i : Nat) : Nat := (i + 1) &&& (slots.length - 1)

/-- Search along the path, with so many probes: the slot of the entry that is looked for, unless an
empty slot comes first. -/
def search (p : α → Bool) : Nat → Nat → Option Nat
  | 0, _ => none
  | probes + 1, i =>
    match slotAt slots i with
    | .empty => none
    | .tombstone => search p probes (nextSlot slots i)
    | .occupied entry => if p entry then some i else search p probes (nextSlot slots i)

/-- The first slot on the path that is not occupied, if there is one within so many probes. -/
def free : Nat → Nat → Option Nat
  | 0, _ => none
  | probes + 1, i => if (slotAt slots i).isOccupied then free probes (nextSlot slots i) else some i

/-- The slot that so many steps from a first one lead to. -/
def path (first n : Nat) : Nat := (first + n) % slots.length

/-- **A search from a first slot leads to a slot**: no slot between the two is empty. -/
def LeadsTo (first i : Nat) : Prop :=
  ∃ n < slots.length, path slots first n = i ∧ ∀ m < n, (slotAt slots (path slots first m)).isUsed = true

variable {slots}

/-! ## The slots of a table -/

variable {i : Nat}

theorem slotAt_of_le (h : slots.length ≤ i) : slotAt slots i = .empty := by
  simp [slotAt, getD_eq_getElem?_getD, getElem?_eq_none h]

/-- An index that does not hold an empty slot is in the table. -/
theorem lt_length_of_isUsed (h : (slotAt slots i).isUsed = true) : i < slots.length := by
  by_contra hge
  rw [slotAt_of_le (Nat.le_of_not_lt hge)] at h
  cases h

variable {entry : α}

theorem lt_length_of_occupied (h : slotAt slots i = .occupied entry) : i < slots.length :=
  lt_length_of_isUsed (by rw [h]; rfl)

theorem slotAt_eq_getElem (h : i < slots.length) : slotAt slots i = slots[i] := by
  simp [slotAt, getD_eq_getElem?_getD, h]

/-- The slot that is set, and the others. -/
theorem slotAt_set (h : i < slots.length) (slot : Slot α) (j : Nat) :
    slotAt (slots.set i slot) j = if j = i then slot else slotAt slots j := by
  unfold slotAt
  rw [getD_eq_getElem?_getD, getD_eq_getElem?_getD, getElem?_set]
  by_cases hij : i = j
  · rw [if_pos hij, if_pos h, if_pos hij.symm]
    rfl
  · rw [if_neg hij, if_neg (Ne.symm hij)]

@[simp] theorem slotAt_set_self (h : i < slots.length) (slot : Slot α) :
    slotAt (slots.set i slot) i = slot := by
  rw [slotAt_set h, if_pos rfl]

theorem slotAt_set_of_ne {i j : Nat} (h : i < slots.length) (slot : Slot α) (hij : j ≠ i) :
    slotAt (slots.set i slot) j = slotAt slots j := by
  rw [slotAt_set h, if_neg hij]

theorem slotAt_replicate (n i : Nat) : slotAt (replicate n (.empty : Slot α)) i = .empty := by
  unfold slotAt
  rw [getD_eq_getElem?_getD, getElem?_replicate]
  split <;> rfl

variable {slot : Slot α}

/-- An entry is in a slot of the table. -/
theorem exists_slotAt_iff (hslot : slot.isUsed = true) : (∃ i, slotAt slots i = slot) ↔ slot ∈ slots := by
  constructor
  · rintro ⟨i, rfl⟩
    rw [slotAt_eq_getElem (lt_length_of_isUsed hslot)]
    exact getElem_mem _
  · intro hin
    obtain ⟨i, hi, rfl⟩ := mem_iff_getElem.mp hin
    exact ⟨i, slotAt_eq_getElem hi⟩

/-! ## The path -/

variable {first : Nat}

theorem path_zero (h : first < slots.length) : path slots first 0 = first :=
  Nat.mod_eq_of_lt h

theorem path_lt (h : 0 < slots.length) (n : Nat) : path slots first n < slots.length :=
  Nat.mod_lt _ h

variable {k : Nat}

/-- The mask takes the index round the table. -/
theorem nextSlot_path (hk : slots.length = 2 ^ k) (first n : Nat) :
    nextSlot slots (path slots first n) = path slots first (n + 1) := by
  unfold nextSlot path
  rw [hk, Nat.and_two_pow_sub_one_eq_mod, Nat.mod_add_mod, Nat.add_assoc]

/-- **The path leads to every slot.** -/
theorem exists_path_eq {i : Nat} (hf : first < slots.length) (hi : i < slots.length) :
    ∃ n < slots.length, path slots first n = i := by
  unfold path
  rcases Nat.le_total first i with hle | hle
  · exact ⟨i - first, by omega, by rw [Nat.add_sub_cancel' hle, Nat.mod_eq_of_lt hi]⟩
  · rcases Nat.eq_or_lt_of_le hle with rfl | hlt
    · exact ⟨0, by omega, Nat.mod_eq_of_lt hi⟩
    · refine ⟨i + slots.length - first, by omega, ?_⟩
      rw [show first + (i + slots.length - first) = i + slots.length by omega,
        Nat.add_mod_right, Nat.mod_eq_of_lt hi]

/-! ## A search -/

variable {p : α → Bool}

/-- What a search finds is what is looked for. -/
theorem occupied_of_search {probes i : Nat} (h : search slots p probes first = some i) :
    ∃ entry, slotAt slots i = .occupied entry ∧ p entry = true := by
  induction probes generalizing first with
  | zero => cases h
  | succ probes ih =>
    rw [search] at h
    split at h
    · cases h
    · exact ih h
    · rename_i entry hentry
      split at h
      · cases h
        exact ⟨entry, hentry, by assumption⟩
      · exact ih h

/-- A search that comes to no empty slot before an entry that is looked for finds one. -/
theorem isSome_search (hk : slots.length = 2 ^ k) {n d probes : Nat} (hn : n ≤ d) (hd : d < n + probes)
    (hused : ∀ m, n ≤ m → m < d → (slotAt slots (path slots first m)).isUsed = true)
    (hentry : slotAt slots (path slots first d) = .occupied entry) (hp : p entry = true) :
    (search slots p probes (path slots first n)).isSome = true := by
  induction probes generalizing n with
  | zero => omega
  | succ probes ih =>
    rw [search]
    rcases Nat.eq_or_lt_of_le hn with rfl | hlt
    · simp [hentry, hp]
    · have hrest := ih (Nat.succ_le_of_lt hlt) (by omega) fun m hm => hused m (by omega)
      rw [nextSlot_path hk]
      split
      · -- A slot before the entry is not empty.
        rename_i hempty
        have hcontra := hused n (Nat.le_refl n) hlt
        rw [hempty] at hcontra
        cases hcontra
      · exact hrest
      · split
        · rfl
        · exact hrest

/-- **Every entry can be reached from its home**: no slot between the two is empty. -/
def Reachable (home : α → Nat) (slots : List (Slot α)) : Prop :=
  ∀ i entry, slotAt slots i = .occupied entry → LeadsTo slots (home entry) i

variable {home : α → Nat}

/-- **A search fails only where no entry is what is looked for**, if every entry can be reached. -/
theorem search_eq_none_iff (hr : Reachable home slots) (hk : slots.length = 2 ^ k)
    (hf : first < slots.length) (hhome : ∀ entry, p entry = true → home entry = first) :
    search slots p slots.length first = none ↔ ∀ i entry, slotAt slots i = .occupied entry →
      p entry = false := by
  constructor
  · intro hnone i entry hentry
    by_contra hp
    rw [Bool.not_eq_false] at hp
    obtain ⟨n, hn, hpath, hused⟩ := hr i entry hentry
    rw [hhome entry hp] at hpath hused
    have hwithin : n < 0 + slots.length := by omega
    have hsome := isSome_search hk (Nat.zero_le n) hwithin (fun m _ hm => hused m hm) (hpath ▸ hentry) hp
    rw [path_zero hf, hnone] at hsome
    cases hsome
  · intro hno
    by_contra hsome
    obtain ⟨i, hi⟩ := Option.ne_none_iff_exists'.mp hsome
    obtain ⟨entry, hentry, hp⟩ := occupied_of_search hi
    rw [hno i entry hentry] at hp
    cases hp

/-! ## A place for an entry -/

section

variable (hk : slots.length = 2 ^ k)
include hk

/-- The place is not occupied, and every slot before it is. -/
theorem free_spec {first n probes i : Nat} (h : free slots probes (path slots first n) = some i) :
    (slotAt slots i).isOccupied = false ∧ ∃ d, n ≤ d ∧ d < n + probes ∧ path slots first d = i ∧
      ∀ m, n ≤ m → m < d → (slotAt slots (path slots first m)).isOccupied = true := by
  induction probes generalizing n with
  | zero => cases h
  | succ probes ih =>
    rw [free] at h
    split at h
    · rename_i hocc
      rw [nextSlot_path hk] at h
      obtain ⟨hfree, d, hd, hlt, hpath, hbefore⟩ := ih h
      refine ⟨hfree, d, by omega, by omega, hpath, fun m hm hmd => ?_⟩
      rcases Nat.eq_or_lt_of_le hm with rfl | hm
      · exact hocc
      · exact hbefore m hm hmd
    · rename_i hocc
      cases h
      exact ⟨Bool.eq_false_iff.mpr hocc, n, Nat.le_refl n, by omega, rfl, fun m hm hmn => by omega⟩

/-- A slot on the path that is not occupied is a place, or there is one before it. -/
theorem isSome_free {first n d probes : Nat} (hn : n ≤ d)
    (hd : d < n + probes) (hfree : (slotAt slots (path slots first d)).isOccupied = false) :
    (free slots probes (path slots first n)).isSome = true := by
  induction probes generalizing n with
  | zero => omega
  | succ probes ih =>
    rw [free]
    rcases Nat.eq_or_lt_of_le hn with rfl | hlt
    · simp [hfree]
    · split
      · rw [nextSlot_path hk]
        exact ih (Nat.succ_le_of_lt hlt) (by omega)
      · rfl

/-- **A table with a slot that is not occupied has a place for an entry**, behind occupied slots
only. -/
theorem exists_free {first j : Nat} (hf : first < slots.length)
    (hj : j < slots.length) (hfree : (slotAt slots j).isOccupied = false) :
    ∃ i, free slots slots.length first = some i ∧ i < slots.length ∧
      (slotAt slots i).isOccupied = false ∧ LeadsTo slots first i := by
  obtain ⟨d, hd, rfl⟩ := exists_path_eq hf hj
  have hwithin : d < 0 + slots.length := by omega
  have hsome := isSome_free hk (Nat.zero_le d) hwithin hfree
  rw [path_zero hf] at hsome
  obtain ⟨i, hi⟩ := Option.isSome_iff_exists.mp hsome
  have hfrom : free slots slots.length (path slots first 0) = some i := by rwa [path_zero hf]
  obtain ⟨hocc, n, -, hn, hpath, hbefore⟩ := free_spec hk hfrom
  refine ⟨i, hi, hpath ▸ path_lt (by omega) n, hocc, n, by omega, hpath, fun m hm => ?_⟩
  exact Slot.isUsed_of_isOccupied (hbefore m (Nat.zero_le m) hm)

end

/-! ## Taking entries out and putting them in -/

section

variable (hr : Reachable home slots)
include hr

/-- **A slot that is set to one that is not empty** leaves what was reached through it reachable. -/
theorem Reachable.set (hi : i < slots.length) (hslot : slot.isUsed = true)
    (hself : ∀ entry, slot = .occupied entry → LeadsTo slots (home entry) i) :
    Reachable home (slots.set i slot) := by
  have hpath : ∀ first n, path (slots.set i slot) first n = path slots first n := fun first n => by
    unfold path
    rw [length_set]
  have hused : ∀ j, (slotAt slots j).isUsed = true → (slotAt (slots.set i slot) j).isUsed = true :=
    fun j hj => by
      rw [slotAt_set hi]
      split
      · exact hslot
      · exact hj
  intro j entry hentry
  rw [slotAt_set hi] at hentry
  have hreached : LeadsTo slots (home entry) j := by
    split at hentry
    · rename_i hji
      exact hji ▸ hself entry hentry
    · exact hr j entry hentry
  obtain ⟨n, hn, hj, hbefore⟩ := hreached
  refine ⟨n, by rwa [length_set], by rw [hpath, hj], fun m hm => ?_⟩
  rw [hpath]
  exact hused _ (hbefore m hm)

end

theorem reachable_replicate (home : α → Nat) (n : Nat) :
    Reachable home (replicate n (.empty : Slot α)) := fun i entry h => by
  rw [slotAt_replicate] at h
  cases h

/-! ## The entries of a table -/

/-- The entries of a table, in the order of their slots. -/
def entries (slots : List (Slot α)) : List α := slots.filterMap Slot.content

theorem mem_entries : entry ∈ entries slots ↔ ∃ i, slotAt slots i = .occupied entry := by
  rw [exists_slotAt_iff (by rfl)]
  unfold entries
  simp [mem_filterMap]

@[simp] theorem length_entries : (entries slots).length = slots.countP Slot.isOccupied := by
  induction slots with
  | nil => rfl
  | cons slot slots ih =>
    unfold entries at ih ⊢
    cases slot with
    | empty | tombstone =>
      rwa [filterMap_cons_none rfl, countP_cons_of_neg (by simp [Slot.isOccupied])]
    | occupied entry =>
      have hcontent : (Slot.occupied entry).content = some entry := rfl
      rw [filterMap_cons_some hcontent, length_cons, ih, countP_cons_of_pos rfl]

/-- The entries with one slot set: those of the slots before it, its own, and those behind it. -/
theorem entries_set (hi : i < slots.length) (slot : Slot α) : entries (slots.set i slot) =
      entries (slots.take i) ++ (slot.content.toList ++ entries (slots.drop (i + 1))) := by
  rw [set_eq_take_append_cons_drop, if_pos hi]
  unfold entries
  rw [filterMap_append, filterMap_cons]
  cases slot.content <;> rfl

/-- **Setting a slot changes which entries there are by what was in it and what is.** -/
theorem entries_set_perm (hi : i < slots.length) (slot : Slot α) : (slot.content.toList ++ entries slots).Perm
      ((slotAt slots i).content.toList ++ entries (slots.set i slot)) := by
  have hself : slots.set i (slotAt slots i) = slots := by
    rw [slotAt_eq_getElem hi, set_getElem_self]
  have hbefore := entries_set hi (slotAt slots i)
  rw [hself] at hbefore
  rw [hbefore, entries_set hi]
  generalize entries (slots.take i) = before
  generalize entries (slots.drop (i + 1)) = behind
  generalize slot.content.toList = new
  generalize (slotAt slots i).content.toList = old
  calc (new ++ (before ++ (old ++ behind))).Perm (new ++ (old ++ (before ++ behind))) :=
        Perm.append_left _ (perm_append_comm_assoc ..)
    _ |>.Perm (old ++ (new ++ (before ++ behind))) := perm_append_comm_assoc ..
    _ |>.Perm (old ++ (before ++ (new ++ behind))) :=
        Perm.append_left _ (perm_append_comm_assoc ..)

/-- **An entry that leaves a tombstone** is no longer an entry. -/
theorem entries_leave (h : slotAt slots i = .occupied entry) :
    (entries slots).Perm (entry :: entries (slots.set i .tombstone)) := by
  have hperm := entries_set_perm (lt_length_of_occupied h) .tombstone
  rwa [h] at hperm

/-- **An entry that is put in** is an entry more. -/
theorem entries_occupy (hi : i < slots.length) (hfree : (slotAt slots i).isOccupied = false)
    (entry : α) : (entry :: entries slots).Perm (entries (slots.set i (.occupied entry))) := by
  have hperm := entries_set_perm hi (.occupied entry)
  have hnone : (slotAt slots i).content = none := by
    cases hslot : slotAt slots i with
    | empty => rfl
    | tombstone => rfl
    | occupied =>
      rw [hslot] at hfree
      cases hfree
  rwa [hnone] at hperm

/-- The entries from an occupied slot on. -/
theorem entries_drop (h : slotAt slots i = .occupied entry) :
    entries (slots.drop i) = entry :: entries (slots.drop (i + 1)) := by
  have hlt := lt_length_of_occupied h
  rw [drop_eq_getElem_cons hlt, ← slotAt_eq_getElem hlt, h]
  rfl

/-- The entries from the first occupied slot on. -/
theorem entries_of_findIdx? (slots : List (Slot α)) :
    (slots.findIdx? Slot.isOccupied = none ∧ entries slots = []) ∨
      ∃ i entry, slots.findIdx? Slot.isOccupied = some i ∧ slotAt slots i = .occupied entry ∧
        entries slots = entry :: entries (slots.drop (i + 1)) := by
  induction slots with
  | nil => exact .inl ⟨rfl, rfl⟩
  | cons slot slots ih =>
    cases hocc : slot.isOccupied with
    | true =>
      obtain ⟨entry, rfl⟩ := Slot.isOccupied_iff.mp hocc
      refine .inr ⟨0, entry, ?_, rfl, rfl⟩
      rw [findIdx?_cons, hocc, if_pos rfl]
    | false =>
      have hskip : entries (slot :: slots) = entries slots := by
        cases slot with
        | empty => rfl
        | tombstone => rfl
        | occupied => cases hocc
      rw [hskip, findIdx?_cons, hocc, if_neg (by simp)]
      rcases ih with ⟨hnone, hentries⟩ | ⟨i, entry, hsome, hslot, hentries⟩
      · exact .inl ⟨by rw [hnone]; rfl, hentries⟩
      · exact .inr ⟨i + 1, entry, by rw [hsome]; rfl, hslot, hentries⟩

/-! ## The slots that are used -/

/-- How many slots are not empty. -/
def usedCount (slots : List (Slot α)) : Nat := slots.countP Slot.isUsed

/-- How many slots are not empty, with one set. -/
theorem usedCount_set (hi : i < slots.length) (hslot : slot.isUsed = true) : usedCount (slots.set i slot) =
      if (slotAt slots i).isUsed then usedCount slots else usedCount slots + 1 := by
  unfold usedCount
  rw [countP_set hi, slotAt_eq_getElem hi, hslot, if_pos rfl]
  split
  · rename_i hused
    have hpos : 0 < slots.countP Slot.isUsed := countP_pos_iff.mpr ⟨_, getElem_mem hi, hused⟩
    omega
  · omega

theorem usedCount_set_le (hi : i < slots.length) (hslot : slot.isUsed = true) :
    usedCount (slots.set i slot) ≤ usedCount slots + 1 := by
  rw [usedCount_set hi hslot]
  split <;> omega

@[simp] theorem usedCount_replicate (n : Nat) : usedCount (List.replicate n (.empty : Slot α)) = 0 := by
  simp [usedCount, countP_replicate, Slot.isUsed]

/-- There are no more entries than slots that are used. -/
theorem countP_isOccupied_le_usedCount : slots.countP Slot.isOccupied ≤ usedCount slots :=
  countP_mono_left fun _ _ => Slot.isUsed_of_isOccupied

/-- **A table with fewer used slots than slots has an empty one.** -/
theorem exists_empty (h : usedCount slots < slots.length) : ∃ i < slots.length, slotAt slots i = .empty := by
  obtain ⟨slot, hin, hslot⟩ := countP_lt_length_iff.mp h
  obtain ⟨i, hi, rfl⟩ := mem_iff_getElem.mp hin
  refine ⟨i, hi, ?_⟩
  rw [slotAt_eq_getElem hi]
  cases hs : slots[i] with
  | empty => rfl
  | tombstone | occupied => simp [hs, Slot.isUsed] at hslot

end Probing

end PubsubVenue
