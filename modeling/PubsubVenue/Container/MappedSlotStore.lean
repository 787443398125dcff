import Mathlib.Logic.Function.Basic
import Mathlib.Data.List.Nodup
import Mathlib.Data.List.Basic

/-! # Records in a mapped file

`MappedSlotStore`: equally sized records in a file that is mapped into the memory of a process, so
that the next process finds them as they were left. What an operation does to the file is a list of
writes, made one after another, and a process may die after any of them; of a record that is being
copied in, any part may have been written. The list of the free slots goes through the records
themselves, and is built anew by a process that opens the file.

* **`MappedSlotStore.Free`**: the free list ends, and has every slot that is not live once.
* **`Free.withRecord`**, **`Free.withFree`**: taking a slot and giving one back.
* **`Rebuilt.free`**: the list built anew. -/

namespace PubsubVenue

open Function List

/-- `no_slot`. -/
def noSlot : Nat := 4294967295

/-- `SlotHeader` and the record behind it. -/
structure MappedSlot (α : Type) where
  live : Bool
  nextFree : Nat
  seqNo : Int
  payload : α

/-- The values that the owner of the records keeps beside the published position. -/
inductive OwnerValue
  | halted
  | voidsKnownThrough
  | applying
  deriving DecidableEq

/-- The mapped file: its header and its slots. -/
structure MappedSlotStore (α : Type) where
  slotCount : Nat
  slots : Nat → MappedSlot α
  freeHead : Nat
  published : Int
  ownerValues : OwnerValue → Int
  slotCount_pos : 0 < slotCount
  slotCount_lt : slotCount < noSlot

/-- A write to the file. -/
inductive RegionWrite (α : Type)
  | freeHead (slot : Nat)
  | nextFree (slot next : Nat)
  | payload (slot : Nat) (record : α)
  | seqNo (slot : Nat) (seqNo : Int)
  | state (slot : Nat) (live : Bool)
  | published (seqNo : Int)
  | ownerValue (index : OwnerValue) (value : Int)

namespace MappedSlotStore

variable {α : Type} (s : MappedSlotStore α) (slot : Nat)

/-- Change one slot. -/
def setSlot (f : MappedSlot α → MappedSlot α) : MappedSlotStore α :=
  { s with slots := update s.slots slot (f (s.slots slot)) }

/-- The slots after one has been changed. -/
theorem slots_setSlot (f : MappedSlot α → MappedSlot α) (i : Nat) :
    (s.setSlot slot f).slots i = if i = slot then f (s.slots slot) else s.slots i :=
  update_apply _ _ _ _

/-- Make a write. -/
def write : RegionWrite α → MappedSlotStore α
  | .freeHead slot => { s with freeHead := slot }
  | .nextFree slot next => s.setSlot slot fun r => { r with nextFree := next }
  | .payload slot record => s.setSlot slot fun r => { r with payload := record }
  | .seqNo slot seqNo => s.setSlot slot fun r => { r with seqNo }
  | .state slot live => s.setSlot slot fun r => { r with live }
  | .published seqNo => { s with published := seqNo }
  | .ownerValue index value => { s with ownerValues := update s.ownerValues index value }

/-- Make writes one after another. -/
def writeAll (writes : List (RegionWrite α)) : MappedSlotStore α := writes.foldl write s

/-- Writes after writes. -/
theorem writeAll_append (ws vs : List (RegionWrite α)) :
    s.writeAll (ws ++ vs) = (s.writeAll ws).writeAll vs := foldl_append

/-- The file as a process leaves it that dies after some of its writes. If it dies while it copies a
record in, the slot is left with anything. -/
def dyingAfter (s : MappedSlotStore α) (garbage : α) : Nat → List (RegionWrite α) → MappedSlotStore α
  | 0, .payload slot _ :: _ => s.write (.payload slot garbage)
  | 0, _ => s
  | _ + 1, [] => s
  | n + 1, w :: ws => (s.write w).dyingAfter garbage n ws

/-- `open`, of a file that is not there yet. -/
def create (slotCount : Nat) (hpos : 0 < slotCount) (hlt : slotCount < noSlot) (blank : α) :
    MappedSlotStore α where
  slotCount
  slots i := { live := false, nextFree := if i + 1 < slotCount then i + 1 else noSlot, seqNo := 0, payload := blank }
  freeHead := 0
  published := 0
  ownerValues _ := 0
  slotCount_pos := hpos
  slotCount_lt := hlt

/-- `acquire`: the slot that is taken, and the write that takes it. -/
def acquire : Option (Nat × List (RegionWrite α)) :=
  if s.freeHead = noSlot then none else some (s.freeHead, [.freeHead (s.slots s.freeHead).nextFree])

/-- `commit`. -/
def commit (seqNo : Int) : List (RegionWrite α) := [.seqNo slot seqNo, .state slot true]

/-- `release`. -/
def release : List (RegionWrite α) :=
  [.state slot false, .nextFree slot s.freeHead, .freeHead slot]

/-- `is_live`. -/
def isLive : Bool := (s.slots slot).live

/-- `is_recoverable`. -/
def isRecoverable : Bool :=
  s.isLive slot && decide (0 < (s.slots slot).seqNo) && decide ((s.slots slot).seqNo ≤ s.published)

/-- The loop of `rebuild_free_list`, from the last slot to the first. What it writes for one slot
does not matter to whether another is recoverable. -/
def rebuildFrom (s : MappedSlotStore α) : Nat → Nat → List (RegionWrite α)
  | 0, head => [.freeHead head]
  | slot + 1, head =>
    if s.isRecoverable slot then s.rebuildFrom slot head
    else .state slot false :: .nextFree slot head :: s.rebuildFrom slot slot

/-- `rebuild_free_list`. -/
def rebuildFreeList : List (RegionWrite α) := s.rebuildFrom s.slotCount noSlot

/-! ## The free list -/

/-- From a slot on, the free list goes through the slots of a list, and ends. -/
def Links (s : MappedSlotStore α) : Nat → List Nat → Prop
  | head, [] => head = noSlot
  | head, slot :: rest => head = slot ∧ s.Links (s.slots slot).nextFree rest

/-- **The free list has every slot that is not live, once, and ends.** -/
structure Free (s : MappedSlotStore α) (free : List Nat) : Prop where
  links : s.Links s.freeHead free
  nodup : free.Nodup
  mem : ∀ slot, slot ∈ free ↔ slot < s.slotCount ∧ s.isLive slot = false

variable {s t : MappedSlotStore α}

/-- A free list goes the same way where its slots are linked the same way. -/
theorem Links.congr {free : List Nat} {head : Nat} (h : s.Links head free)
    (hsame : ∀ slot ∈ free, (t.slots slot).nextFree = (s.slots slot).nextFree) : t.Links head free := by
  induction free generalizing head with
  | nil => exact h
  | cons slot rest ih =>
    obtain ⟨hhead, hrest⟩ := h
    refine ⟨hhead, ?_⟩
    rw [hsame slot mem_cons_self]
    exact ih hrest fun slot hslot => hsame slot (mem_cons_of_mem _ hslot)

/-- In a new file every slot is free. -/
theorem free_create {n : Nat} (hpos : 0 < n) (hlt : n < noSlot) (blank : α) :
    (create n hpos hlt blank).Free (range n) where
  links := by
    -- from any slot on, the list goes through the slots that follow
    have hfrom : ∀ rest k, k + rest = n → 0 < rest → (create n hpos hlt blank).Links k (range' k rest) := by
      intro rest
      induction rest with
      | zero => exact fun k _ h => absurd h (Nat.lt_irrefl 0)
      | succ rest ih =>
        intro k hk _
        refine ⟨rfl, ?_⟩
        rcases Nat.eq_zero_or_pos rest with hzero | hmore
        · rw [hzero]
          exact if_neg (by omega)
        · have hnext : ((create n hpos hlt blank).slots k).nextFree = k + 1 := if_pos (by omega)
          rw [hnext]
          exact ih (k + 1) (by omega) hmore
    rw [range_eq_range']
    exact hfrom n 0 (Nat.zero_add n) hpos
  nodup := nodup_range
  mem := fun slot => by simp [create, isLive]

section

variable (s : MappedSlotStore α)

/-- The file after a slot has been taken and a record put in it. -/
def withRecord (slot : Nat) (record : α) (seqNo : Int) : MappedSlotStore α :=
  { s with
    slots := update s.slots slot
      { live := true, nextFree := (s.slots slot).nextFree, seqNo, payload := record }
    freeHead := (s.slots slot).nextFree }

/-- The file after a slot has been given back. -/
def withFree (slot : Nat) : MappedSlotStore α :=
  { s with
    slots := update s.slots slot { s.slots slot with live := false, nextFree := s.freeHead }
    freeHead := slot }

/-- What `release` writes. -/
theorem writeAll_release (slot : Nat) : s.writeAll (s.release slot) = s.withFree slot := by
  simp [writeAll, release, write, setSlot, withFree]

end

/-- A slot can be taken when one is free, and no other slot is. -/
theorem Free.acquire_eq {free : List Nat} (h : s.Free free) :
    s.acquire = free.head?.map fun slot => (slot, [.freeHead (s.slots slot).nextFree]) := by
  unfold acquire
  cases free with
  | nil => exact if_pos h.links
  | cons slot =>
    have hslot := ((h.mem slot).mp mem_cons_self).1
    have hlt := s.slotCount_lt
    have hhead : s.freeHead = slot := h.links.1
    rw [hhead]
    exact if_neg (by omega)

variable {slot : Nat}

/-- **A record in the slot that was taken.** -/
theorem Free.withRecord {rest : List Nat} (h : s.Free (slot :: rest)) (record : α) (seqNo : Int) :
    (s.withRecord slot record seqNo).Free rest where
  links := by
    have hnotin : slot ∉ rest := (nodup_cons.mp h.nodup).1
    refine Links.congr h.links.2 fun other hother => ?_
    have hne : other ≠ slot := fun heq => hnotin (heq ▸ hother)
    simp only [MappedSlotStore.withRecord, update_of_ne hne]
  nodup := (nodup_cons.mp h.nodup).2
  mem := fun other => by
    have hnotin : slot ∉ rest := (nodup_cons.mp h.nodup).1
    have hmem := h.mem other
    by_cases heq : other = slot
    · rw [heq]
      simp [MappedSlotStore.withRecord, isLive, hnotin]
    · simp only [mem_cons, heq, false_or, isLive] at hmem
      simp only [MappedSlotStore.withRecord, isLive, update_of_ne heq]
      exact hmem

/-- **A slot given back.** -/
theorem Free.withFree {free : List Nat} (h : s.Free free) (hslot : slot < s.slotCount)
    (hlive : s.isLive slot = true) : (s.withFree slot).Free (slot :: free) := by
  have hnotin : slot ∉ free := fun hin => by
    rw [((h.mem slot).mp hin).2] at hlive
    exact absurd hlive Bool.false_ne_true
  refine ⟨⟨rfl, ?_⟩, nodup_cons.mpr ⟨hnotin, h.nodup⟩, fun other => ?_⟩
  · simp only [MappedSlotStore.withFree, update_self]
    refine Links.congr h.links fun other hother => ?_
    have hne : other ≠ slot := fun heq => hnotin (heq ▸ hother)
    simp only [update_of_ne hne]
  · by_cases heq : other = slot
    · rw [heq]
      simp [MappedSlotStore.withFree, isLive, hslot]
    · simp only [mem_cons, heq, false_or, MappedSlotStore.withFree, isLive, update_of_ne heq]
      exact h.mem other

/-! ## The list built anew -/

/-- A slot that is recoverable is live. -/
theorem isLive_of_isRecoverable (h : s.isRecoverable slot = true) : s.isLive slot = true := by
  unfold isRecoverable at h
  simp only [Bool.and_eq_true] at h
  exact h.1.1

/-- The slots below one that are not recoverable. -/
def unrecoverable (s : MappedSlotStore α) (k : Nat) : List Nat :=
  (range k).filter fun slot => !s.isRecoverable slot

/-- **What the loop makes of the slots below one**, from a file `t` that has them as `s` does and a
list of the slots that it has linked: only those that are recoverable are live, and the others are
linked. -/
structure Rebuilt (s t u : MappedSlotStore α) (k : Nat) (free : List Nat) : Prop where
  links : u.Links u.freeHead (s.unrecoverable k ++ free)
  live : ∀ slot < k, u.isLive slot = s.isRecoverable slot
  above : ∀ slot, k ≤ slot → u.slots slot = t.slots slot
  payload : ∀ slot, (u.slots slot).payload = (t.slots slot).payload
  seqNo : ∀ slot, (u.slots slot).seqNo = (t.slots slot).seqNo
  slotCount : u.slotCount = t.slotCount
  published : u.published = t.published
  ownerValues : u.ownerValues = t.ownerValues

theorem unrecoverable_succ (s : MappedSlotStore α) (k : Nat) :
    s.unrecoverable (k + 1) = s.unrecoverable k ++ if s.isRecoverable k then [] else [k] := by
  unfold unrecoverable
  rw [range_succ, filter_append]
  cases hr : s.isRecoverable k <;> simp [hr]

/-- The file after the loop has freed a slot and linked it to the one that it freed before. -/
def withLink (s : MappedSlotStore α) (slot head : Nat) : MappedSlotStore α :=
  s.setSlot slot fun r => { r with live := false, nextFree := head }

theorem slots_withLink_of_ne {k head : Nat} (hne : slot ≠ k) :
    (t.withLink k head).slots slot = t.slots slot :=
  update_of_ne hne _ _

section

variable {u : MappedSlotStore α} {k head : Nat} {free : List Nat}

/-- The slot freed is linked before the others. -/
theorem Links.withLink (h : t.Links head free) (hgt : ∀ slot ∈ free, k < slot) :
    (t.withLink k head).Links k (k :: free) := by
  refine ⟨rfl, ?_⟩
  simp only [MappedSlotStore.withLink, setSlot, update_self]
  exact h.congr fun slot hin => congrArg _ (update_of_ne (Nat.ne_of_gt (hgt slot hin)) _ _)

/-- **A slot that is recoverable is kept**, and so stays live. -/
theorem Rebuilt.keep (h : s.Rebuilt t u k free) (hrecoverable : s.isRecoverable k = true)
    (hlive : t.isLive k = s.isLive k) : s.Rebuilt t u (k + 1) free := by
  refine { h with links := ?_, live := fun slot hslot => ?_, above := fun slot hle => ?_ }
  · rw [unrecoverable_succ, if_pos hrecoverable, append_nil]
    exact h.links
  · rcases Nat.lt_succ_iff_lt_or_eq.mp hslot with hlt | rfl
    · exact h.live slot hlt
    · rw [hrecoverable, isLive, h.above slot (Nat.le_refl slot)]
      exact hlive.trans (isLive_of_isRecoverable hrecoverable)
  · exact h.above slot (Nat.le_of_succ_le hle)

/-- **A slot that is not recoverable is freed**, and linked before the others. -/
theorem Rebuilt.link (h : s.Rebuilt (t.withLink k head) u k (k :: free)) (hnot : s.isRecoverable k ≠ true) :
    s.Rebuilt t u (k + 1) free := by
  have hk : (t.withLink k head).slots k = { t.slots k with live := false, nextFree := head } := update_self ..
  -- freeing the slot leaves its record
  have hrecord : ∀ slot, ((t.withLink k head).slots slot).payload = (t.slots slot).payload ∧
      ((t.withLink k head).slots slot).seqNo = (t.slots slot).seqNo := fun slot => by
    by_cases heq : slot = k
    · rw [heq, hk]
      exact ⟨rfl, rfl⟩
    · rw [slots_withLink_of_ne heq]
      exact ⟨rfl, rfl⟩
  refine { h with
      links := ?_
      live := fun slot hslot => ?_
      above := fun slot hle => ?_
      payload := fun slot => (h.payload slot).trans (hrecord slot).1
      seqNo := fun slot => (h.seqNo slot).trans (hrecord slot).2 }
  · rw [unrecoverable_succ, if_neg hnot, append_assoc, singleton_append]
    exact h.links
  · rcases Nat.lt_succ_iff_lt_or_eq.mp hslot with hlt | rfl
    · exact h.live slot hlt
    · rw [isLive, h.above slot (Nat.le_refl slot), hk]
      exact (Bool.eq_false_iff.mpr hnot).symm
  · rw [h.above slot (Nat.le_of_succ_le hle), slots_withLink_of_ne (Nat.ne_of_gt hle)]

/-- **The loop of `rebuild_free_list`.** -/
theorem rebuildFrom_spec (s : MappedSlotStore α) (hsame : ∀ slot < k, t.isLive slot = s.isLive slot)
    (hlinks : t.Links head free) (hge : ∀ slot ∈ free, k ≤ slot) :
    s.Rebuilt t (t.writeAll (s.rebuildFrom k head)) k free := by
  induction k generalizing t head free with
  | zero =>
    exact
      { links := hlinks.congr fun _ _ => rfl
        live := fun _ h => absurd h (Nat.not_lt_zero _)
        above := fun _ _ => rfl
        payload := fun _ => rfl
        seqNo := fun _ => rfl
        slotCount := rfl
        published := rfl
        ownerValues := rfl }
  | succ k ih =>
    have hbelow : ∀ slot < k, t.isLive slot = s.isLive slot :=
      fun slot hlt => hsame slot (Nat.lt_succ_of_lt hlt)
    unfold rebuildFrom
    split
    · next hrecoverable =>
      exact (ih hbelow hlinks fun slot hin => Nat.le_of_succ_le (hge slot hin)).keep hrecoverable
        (hsame k (Nat.lt_succ_self k))
    · next hnot =>
      -- the two writes for the slot leave it free and linked, and the loop goes on from there
      have hfreed : t.writeAll (.state k false :: .nextFree k head :: s.rebuildFrom k k) =
          (t.withLink k head).writeAll (s.rebuildFrom k k) := by
        simp [writeAll, write, setSlot, withLink]
      rw [hfreed]
      refine Rebuilt.link (ih (fun slot hlt => ?_) (hlinks.withLink hge) fun slot hin => ?_) hnot
      · rw [isLive, slots_withLink_of_ne (Nat.ne_of_lt hlt)]
        exact hbelow slot hlt
      · rcases mem_cons.mp hin with rfl | hin
        · exact Nat.le_refl slot
        · exact Nat.le_of_succ_le (hge slot hin)

end

/-- The file with the free list built anew. -/
theorem rebuilt (s : MappedSlotStore α) : s.Rebuilt s (s.writeAll s.rebuildFreeList) s.slotCount [] :=
  rebuildFrom_spec s (fun _ _ => rfl) rfl nofun

/-- **The list built anew is a free list.** -/
theorem Rebuilt.free {u : MappedSlotStore α} (h : s.Rebuilt s u s.slotCount []) :
    u.Free (s.unrecoverable s.slotCount) where
  links := append_nil (s.unrecoverable s.slotCount) ▸ h.links
  nodup := nodup_range.filter _
  mem := fun slot => by
    unfold unrecoverable
    rw [mem_filter, mem_range, h.slotCount, Bool.not_eq_true']
    exact and_congr_right fun hlt => by rw [h.live slot hlt]

/-! ## Dying between two writes -/

/-- **No two live slots hold records with the same key.** -/
def Distinct {κ : Type} (key : α → κ) (s : MappedSlotStore α) : Prop :=
  ∀ i < s.slotCount, ∀ j < s.slotCount, s.isLive i = true → s.isLive j = true →
    key (s.slots i).payload = key (s.slots j).payload → i = j

/-- Records are copied only into slots that are not live, and after each write no two live slots
hold records with the same key. -/
def Safe {κ : Type} (key : α → κ) (s : MappedSlotStore α) : List (RegionWrite α) → Prop
  | [] => s.Distinct key
  | w :: ws =>
    s.Distinct key ∧ (∀ slot record, w = .payload slot record → s.isLive slot = false) ∧
      (s.write w).Safe key ws

variable {κ : Type} {key : α → κ}

/-- Copying a record in makes no slot live or free. -/
theorem isLive_payload (s : MappedSlotStore α) (slot : Nat) (record : α) (i : Nat) :
    (s.write (.payload slot record)).isLive i = s.isLive i := by
  unfold isLive write
  rw [slots_setSlot]
  split
  · rename_i heq
    rw [heq]
  · rfl

/-- What a slot that is not live holds does not matter. -/
theorem Distinct.payload (h : s.Distinct key) (hfree : s.isLive slot = false) (record : α) :
    (s.write (.payload slot record)).Distinct key := by
  have hsame : ∀ i, s.isLive i = true → (s.write (.payload slot record)).slots i = s.slots i := fun i hi => by
    have hne : i ≠ slot := fun heq => by
      rw [heq, hfree] at hi
      exact absurd hi Bool.false_ne_true
    exact update_of_ne hne _ _
  intro i hi j hj hli hlj hkey
  rw [isLive_payload] at hli hlj
  rw [hsame i hli, hsame j hlj] at hkey
  exact h i hi j hj hli hlj hkey

/-- Keys stay distinct where slots are freed and the records of the others stay. -/
theorem Distinct.mono (h : s.Distinct key) (hcount : t.slotCount = s.slotCount)
    (hlive : ∀ i, t.isLive i = true → s.isLive i = true ∧ (t.slots i).payload = (s.slots i).payload) :
    t.Distinct key := by
  intro i hi j hj hli hlj hkey
  rw [(hlive i hli).2, (hlive j hlj).2] at hkey
  rw [hcount] at hi hj
  exact h i hi j hj (hlive i hli).1 (hlive j hlj).1 hkey

/-- The write makes no slot live and copies no record in. -/
def Shrinks : RegionWrite α → Prop
  | .payload _ _ => False
  | .state _ live => live = false
  | _ => True

/-- **A process that dies between safe writes leaves a file in which keys are distinct.** -/
theorem Safe.dyingAfter {writes : List (RegionWrite α)} (h : s.Safe key writes) (garbage : α) (n : Nat) :
    (s.dyingAfter garbage n writes).Distinct key := by
  induction writes generalizing s n with
  | nil => cases n <;> exact h
  | cons w ws ih =>
    obtain ⟨hdistinct, hfree, hrest⟩ := h
    cases n with
    | zero =>
      cases w with
      | payload slot record => exact hdistinct.payload (hfree slot record rfl) garbage
      | _ => exact hdistinct
    | succ n => exact ih hrest n

/-- What a write that makes no slot live and copies no record in leaves of a live slot. -/
theorem isLive_of_shrinks {w : RegionWrite α} (hw : Shrinks w) {i : Nat} (hi : (s.write w).isLive i = true) :
    s.isLive i = true ∧ ((s.write w).slots i).payload = (s.slots i).payload := by
  have hset : ∀ (slot : Nat) (f : MappedSlot α → MappedSlot α),
      (∀ r, ((f r).live = true → r.live = true) ∧ (f r).payload = r.payload) →
        (s.setSlot slot f).isLive i = true →
        s.isLive i = true ∧ ((s.setSlot slot f).slots i).payload = (s.slots i).payload := by
    intro slot f hf hlive
    unfold isLive at hlive ⊢
    rw [slots_setSlot] at hlive ⊢
    split at hlive
    · rename_i heq
      rw [if_pos heq, heq]
      exact ⟨(hf _).1 hlive, (hf _).2⟩
    · rename_i hne
      rw [if_neg hne]
      exact ⟨hlive, rfl⟩
  cases w with
  | freeHead | published | ownerValue => exact ⟨hi, rfl⟩
  | payload => exact absurd hw id
  | nextFree slot next => exact hset slot (fun r => { r with nextFree := next }) (fun _ => ⟨id, rfl⟩) hi
  | seqNo slot seqNo => exact hset slot (fun r => { r with seqNo }) (fun _ => ⟨id, rfl⟩) hi
  | state slot live =>
    refine hset slot (fun r => { r with live }) (fun _ => ⟨fun hlive => ?_, rfl⟩) hi
    have hfalse : live = false := hw
    exact absurd (hfalse.symm.trans hlive) Bool.false_ne_true

/-- Writes that make no slot live and copy no record in are safe. -/
theorem Distinct.safe {writes : List (RegionWrite α)} (h : s.Distinct key)
    (hshrinks : ∀ w ∈ writes, Shrinks w) :
    s.Safe key writes := by
  induction writes generalizing s with
  | nil => exact h
  | cons w ws ih =>
    have hw := hshrinks w mem_cons_self
    refine ⟨h, fun slot record heq => absurd hw (heq ▸ id),
      ih ?_ fun w hin => hshrinks w (mem_cons_of_mem _ hin)⟩
    exact h.mono (by cases w <;> rfl) fun i hi => isLive_of_shrinks hw hi

/-- Safe writes after safe writes. -/
theorem Safe.append {ws vs : List (RegionWrite α)} (h : s.Safe key ws) (h' : (s.writeAll ws).Safe key vs) :
    s.Safe key (ws ++ vs) := by
  induction ws generalizing s with
  | nil => exact h'
  | cons w ws ih => exact ⟨h.1, h.2.1, ih h.2.2 h'⟩

/-- **Records copied one over the other into a slot that is not live, which is then made live.** -/
theorem Distinct.safe_store (h : s.Distinct key) (hfree : s.isLive slot = false) (records : List α)
    (seqNo : Int)
    (hstored : (s.writeAll (records.map (.payload slot) ++ commit slot seqNo)).Distinct key) :
    s.Safe key (records.map (.payload slot) ++ commit slot seqNo) := by
  induction records generalizing s with
  | nil =>
    have hstamped : (s.write (.seqNo slot seqNo)).Distinct key :=
      h.mono rfl fun i hi => isLive_of_shrinks (w := .seqNo slot seqNo) trivial hi
    exact ⟨h, nofun, hstamped, nofun, hstored⟩
  | cons record records ih =>
    refine ⟨h, fun other _ heq => ?_, ih (h.payload hfree record) ?_ hstored⟩
    · obtain ⟨rfl, -⟩ := RegionWrite.payload.inj heq
      exact hfree
    · rw [isLive_payload]
      exact hfree

/-- What `release` writes makes no slot live. -/
theorem shrinks_release (s : MappedSlotStore α) (slot : Nat) : ∀ w ∈ s.release slot, Shrinks w := by
  simp [release, Shrinks]

/-- What `rebuild_free_list` writes makes no slot live. -/
theorem shrinks_rebuildFrom (s : MappedSlotStore α) (k head : Nat) :
    ∀ w ∈ s.rebuildFrom k head, Shrinks w := by
  induction k generalizing head with
  | zero => simp [rebuildFrom, Shrinks]
  | succ k ih =>
    unfold rebuildFrom
    split
    · exact ih head
    · intro w hin
      simp only [mem_cons] at hin
      rcases hin with rfl | rfl | hin
      · rfl
      · exact trivial
      · exact ih k w hin

end MappedSlotStore

end PubsubVenue
