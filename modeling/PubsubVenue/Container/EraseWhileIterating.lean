import PubsubVenue.Container.FiniteMap

/-! # Erasing while iterating

`erase(ConstIterator)` finds the iterator that follows and then advances the migration, which may
move the entry that it denotes to the other table, or release the table that it is in. The
traversals that erase some of the entries they meet are runs of a machine whose actions say which.

* **`Traversal.visits_each_once`**: as long as no erasure moves an entry or ends a migration, a
  traversal visits every entry once, whichever of them it erases.
* **`Traversal.denotes_no_entry`**: an iterator that `erase` has returned, at a slot whose entry has
  moved. -/

namespace PubsubVenue

open Option Machine List RehashMap

open Probing (slotAt)
open Described (oneSlotAtATime nineEntries)

namespace RehashMap

variable {K V : Type*} {config : RehashConfig K} {s : RehashMap K V}

/-- **Erasing an entry through an iterator**: the iterator that follows is found before the map is
advanced. -/
theorem Valid.eraseAt [DecidableEq K] (h : s.Valid config) {position : RehashPosition} {entry : K × V}
    (he : s.entryAt position = some entry) :
    ∃ t, (s.removeAt position).stepMigration config = some t ∧ t.Valid config ∧
      SameEntries (s.removeAt position) t ∧
        s.eraseAt config position = some (t, (s.removeAt position).increment position) := by
  obtain ⟨hremoved, -⟩ := h.removeAt he
  obtain ⟨t, ht, hsame, hvalid, -⟩ := hremoved.stepMigration
  have hne : position ≠ .atEnd := by
    rintro rfl
    cases he
  refine ⟨t, ht, hvalid, hsame, ?_⟩
  simp only [RehashMap.eraseAt, if_neg hne, ht, map_some]

/-- Taking an entry out leaves the iterator that follows it, and what that has still to visit. -/
theorem increment_removeAt (s : RehashMap K V) (position : RehashPosition) :
    (s.removeAt position).increment position = s.increment position ∧
      (s.removeAt position).remaining ((s.removeAt position).increment position) =
        s.remaining (s.increment position) := by
  cases position with
  | current i =>
    have hdrop : (s.removeAt (.current i)).current.slots.drop (i + 1) = s.current.slots.drop (i + 1) :=
      drop_set_of_lt (Nat.lt_succ_self i)
    refine ⟨?_, ?_⟩
    · unfold increment advanceToOccupied RehashTable.nextOccupied
      simp only [hdrop]
      rfl
    · rw [increment, increment, remaining_advanceToOccupied, remaining_advanceToOccupied, remaining,
        remaining, hdrop]
      rfl
  | next i =>
    have hdrop : (s.removeAt (.next i)).next.slots.drop (i + 1) = s.next.slots.drop (i + 1) :=
      drop_set_of_lt (Nat.lt_succ_self i)
    refine ⟨?_, ?_⟩
    · unfold increment advanceToOccupied advanceInNext RehashTable.nextOccupied
      simp only [hdrop]
    · rw [increment, increment, remaining_advanceToOccupied, remaining_advanceToOccupied, remaining,
        remaining, hdrop]
  | atEnd => exact ⟨rfl, rfl⟩

/-- Slots without entries are examined, and nothing moves. -/
theorem moveSlots_of_unoccupied {share : Nat} (hle : s.migrationCursor + share ≤ s.current.capacity)
    (hnone : ∀ i < share, (slotAt s.current.slots (s.migrationCursor + i)).isOccupied = false) :
    moveSlots config share s = some { s with migrationCursor := s.migrationCursor + share } := by
  induction share generalizing s with
  | zero => rfl
  | succ share ih =>
    have hfirst := hnone 0 (Nat.succ_pos share)
    have hmove : s.moveSlot config s.migrationCursor = some s := by
      unfold moveSlot
      cases hslot : slotAt s.current.slots s.migrationCursor with
      | empty => rfl
      | tombstone => rfl
      | occupied =>
        rw [Nat.add_zero, hslot] at hfirst
        cases hfirst
    have hrest : moveSlots config share { s with migrationCursor := s.migrationCursor + 1 } = _ :=
      ih (by simp only; omega) fun i hi => by
        simp only [Nat.add_assoc, Nat.add_comm 1 i]
        exact hnone (i + 1) (Nat.succ_lt_succ hi)
    rw [moveSlots, if_pos (by omega), hmove, bind_some, hrest]
    simp only [Nat.add_assoc, Nat.add_comm 1 share]

end RehashMap

/-! ## Traversals -/

/-- The maps that operations lead to, erasing through an iterator among them, with the finite maps
that they describe. -/
inductive Described.Reached {K V : Type*} [DecidableEq K] (config : RehashConfig K) : Described K V → Prop
  | fresh : Reached config fresh
  | operation {d e : Described K V} {op : RehashOp K V} (h : Reached config d)
      (he : step config d op = some e) : Reached config e
  | eraseAt {d : Described K V} {t : RehashMap K V} {position following : RehashPosition} {entry : K × V}
      (h : Reached config d) (he : d.map.entryAt position = some entry)
      (ht : d.map.eraseAt config position = some (t, following)) :
      Reached config { map := t, contents := Function.update d.contents entry.1 none }

theorem Described.Reached.valid {K V : Type*} [DecidableEq K] {config : RehashConfig K} {d : Described K V}
    (h : d.Reached config) : d.map.Valid config ∧ d.map.Describes d.contents := by
  induction h with
  | fresh => exact Described.valid_fresh config
  | operation _ he ih => exact Described.invariant_step config ih he
  | eraseAt _ he ht ih =>
    obtain ⟨t, -, hvalid, hsame, ht'⟩ := ih.1.eraseAt he
    rw [ht'] at ht
    cases ht
    exact ⟨hvalid, (ih.2.erase ih.1.toSound (ih.1.removeAt he).2).sameEntries hsame⟩

/-- A map that is traversed: the iterator, and the entries visited so far. -/
structure Traversal (K V : Type*) where
  map : RehashMap K V
  position : RehashPosition
  visited : List (K × V)

namespace Traversal

variable {K V : Type*} (config : RehashConfig K)

/-- A traversal that begins. -/
def start (s : RehashMap K V) : Traversal K V := { map := s, position := s.begin, visited := [] }

/-- **One turn of the loop**: visit the entry that the iterator denotes, and erase it or go on to
the next. An iterator that denotes no entry is not visited. -/
def step : Machine (Traversal K V) Bool := fun t erases =>
  (t.map.entryAt t.position).bind fun entry =>
    (if erases then t.map.eraseAt config t.position else some (t.map, t.map.increment t.position)).map
      fun next => { map := next.1, position := next.2, visited := t.visited ++ [entry] }

/-- The iterator is at the end or denotes an entry. -/
def Denotes (t : Traversal K V) : Prop :=
  t.position = .atEnd ∨ ∃ entry, t.map.entryAt t.position = some entry

/-- **The erasure moves no entry and does not end a migration**, or erases the last entry: there is
no migration, or the slots that it examines hold no other entry and are not the last. -/
def Undisturbed (t : Traversal K V) (erases : Bool) : Prop :=
  erases = true → t.map.isMigrating = false ∨ t.map.increment t.position = .atEnd ∨
    (t.map.migrationCursor + config.migrationSlotsPerOperation < t.map.current.capacity ∧
      ∀ i ∈ range config.migrationSlotsPerOperation, t.position ≠ .current (t.map.migrationCursor + i) →
          (slotAt t.map.current.slots (t.map.migrationCursor + i)).isOccupied = false)
  deriving Decidable

/-- **What is true along a traversal**: the entries visited and those that the iterator has still to
visit are those of the map it began with, each once. -/
structure Faithful (original : List (K × V)) (t : Traversal K V) : Prop where
  valid : t.map.Valid config
  denotes : t.Denotes
  visits : (t.visited ++ t.map.remaining t.position).Perm original

variable {config} {t t' : Traversal K V} {original : List (K × V)}

theorem faithful_start {s : RehashMap K V} (h : s.Valid config) : (start s).Faithful config s.entries :=
  { valid := h
    denotes := s.entryAt_begin
    visits := by
      have hbegin : s.remaining s.begin = s.entries := s.remaining_advanceToOccupied _
      simp only [start, hbegin, nil_append]
      exact Perm.refl _ }

/-- **An erasure that is undisturbed leaves the tables as the removal left them**, or erases the
last entry. -/
theorem stepMigration_of_undisturbed (hu : Undisturbed config t true) {u : RehashMap K V}
    (hs : (t.map.removeAt t.position).stepMigration config = some u) : t.map.increment t.position = .atEnd ∨
      ∃ cursor, u = { t.map.removeAt t.position with migrationCursor := cursor } := by
  have hm : (t.map.removeAt t.position).isMigrating = t.map.isMigrating := by
    have hcap : (t.map.removeAt t.position).next.capacity = t.map.next.capacity := by
      cases t.position with
      | current => rfl
      | next => exact length_set
      | atEnd => rfl
    rw [Bool.eq_iff_iff, isMigrating_iff, isMigrating_iff, hcap]
  rcases hu rfl with hsettled | hlast | ⟨hgoes, hnone⟩
  · refine .inr ⟨(t.map.removeAt t.position).migrationCursor, ?_⟩
    rw [hsettled] at hm
    rw [stepMigration, if_neg (by simp [hm])] at hs
    exact (Option.some.inj hs).symm
  · exact .inl hlast
  · refine .inr ?_
    have hcursor : (t.map.removeAt t.position).migrationCursor = t.map.migrationCursor := by
      cases t.position <;> rfl
    have hcap : (t.map.removeAt t.position).current.capacity = t.map.current.capacity := by
      cases t.position with
      | current => exact length_set
      | next => rfl
      | atEnd => rfl
    -- The slots that are examined hold no entry, once the entry erased is taken out.
    have hempty : ∀ i < config.migrationSlotsPerOperation, (slotAt (t.map.removeAt t.position).current.slots
          ((t.map.removeAt t.position).migrationCursor + i)).isOccupied = false := by
      intro i hi
      rw [hcursor]
      have hslot := hnone i (mem_range.mpr hi)
      cases hp : t.position with
      | current j =>
        have hlt : t.map.migrationCursor + i < t.map.current.slots.length := by
          unfold RehashTable.capacity at hgoes
          omega
        by_cases hij : t.map.migrationCursor + i = j
        · subst hij
          simp only [removeAt, RehashTable.remove, Probing.slotAt_set_self hlt]
          rfl
        · have hkept : slotAt (t.map.current.slots.set j .tombstone) (t.map.migrationCursor + i) =
              slotAt t.map.current.slots (t.map.migrationCursor + i) := by
            unfold Probing.slotAt
            rw [getD_eq_getElem?_getD, getD_eq_getElem?_getD, List.getElem?_set_ne (Ne.symm hij)]
          simp only [removeAt, RehashTable.remove, hkept]
          exact hslot (by rw [hp]; simpa using Ne.symm hij)
      | next | atEnd => exact hslot (by simp [hp])
    have hmoved : moveSlots config config.migrationSlotsPerOperation (t.map.removeAt t.position) = _ :=
      moveSlots_of_unoccupied (by rw [hcursor, hcap]; omega) hempty
    unfold stepMigration at hs
    split at hs
    · rw [hmoved, map_some, if_neg (by simp only [hcursor, hcap]; omega)] at hs
      exact ⟨_, (Option.some.inj hs).symm⟩
    · exact ⟨_, (Option.some.inj hs).symm⟩

/-- **One turn of the loop keeps it.** -/
theorem Faithful.step [DecidableEq K] (h : t.Faithful config original) {erases : Bool}
    (hu : Undisturbed config t erases) (ht : step config t erases = some t') :
    t'.Faithful config original := by
  unfold Traversal.step at ht
  rw [bind_eq_some_iff] at ht
  obtain ⟨entry, hentry, ht⟩ := ht
  have hrest := remaining_of_entryAt hentry
  -- The entry is visited, and the iterator goes on to the next.
  have hvisits : (t.visited ++ [entry] ++ t.map.remaining (t.map.increment t.position)).Perm original := by
    rw [append_assoc, singleton_append, ← hrest]
    exact h.visits
  cases erases with
  | false =>
    simp only [Bool.false_eq_true, if_false, map_some, some.injEq] at ht
    rw [← ht]
    exact { valid := h.valid, denotes := t.map.entryAt_increment _, visits := hvisits }
  | true =>
    obtain ⟨u, hstep, hvalid, -, herase⟩ := h.valid.eraseAt hentry
    obtain ⟨hnext, hremaining⟩ := t.map.increment_removeAt t.position
    simp only [if_true, herase, map_some, some.injEq] at ht
    rw [← ht]
    rcases stepMigration_of_undisturbed hu hstep with hlast | ⟨cursor, rfl⟩
    · rw [hlast] at hnext hvisits
      refine { valid := hvalid, denotes := .inl hnext, visits := ?_ }
      simp only [hnext]
      exact hvisits
    · refine { valid := hvalid, denotes := ?_, visits := ?_ }
      · exact (t.map.removeAt t.position).entryAt_increment t.position
      · rw [← hremaining] at hvisits
        exact hvisits

/-- **A traversal that erases any of the entries it meets visits every entry of the map once**, as
long as none of its erasures moves an entry or ends a migration: the iterator is always at the end
or at an entry, at an entry the next turn returns, and at the end every entry has been visited. -/
theorem visits_each_once [DecidableEq K] {d : Described K V} (hd : d.Reached config) {erasures : List Bool}
    (hr : ((step config).restrict (Undisturbed config)).run (start d.map) erasures = some t) :
    t.Denotes ∧ (t.visited ++ t.map.remaining t.position).Perm d.map.entries ∧
      (t.position = .atEnd → t.visited.Perm d.map.entries) ∧
      (t.position ≠ .atEnd → ∀ erases, (step config t erases).isSome = true) := by
  have hkept : ((step config).restrict (Undisturbed config)).Invariant
      (Faithful config d.map.entries) := fun t erases t' h ht => by
    obtain ⟨hu, ht⟩ := restrict_eq_some.mp ht
    exact h.step hu ht
  have h := hkept.run (faithful_start hd.valid.1) hr
  refine ⟨h.denotes, h.visits, fun hend => ?_, fun hne erases => ?_⟩
  · have hvisits := h.visits
    rwa [hend, remaining, append_nil] at hvisits
  · obtain ⟨entry, hentry⟩ := h.denotes.resolve_left hne
    obtain ⟨u, -, -, -, herase⟩ := h.valid.eraseAt hentry
    cases erases <;> simp [step, hentry, herase]

/-! ## Runs -/

/-- Operations on a new map lead to maps that operations lead to. -/
theorem reached_of_run [DecidableEq K] {d e : Described K V} (hd : d.Reached config)
    {ops : List (RehashOp K V)} (hr : (Described.step config).run d ops = some e) : e.Reached config := by
  induction ops generalizing d with
  | nil => exact some.inj hr ▸ hd
  | cons op ops ih =>
    obtain ⟨d', hd', hr⟩ := run_cons_eq_some.mp hr
    exact ih (hd.operation hd') hr

/-- All nine are erased in the middle of the migration. -/
theorem visits_each_once_nine :
    ∃ d t, (Described.step oneSlotAtATime).run .fresh nineEntries = some d ∧ d.map.isMigrating = true ∧
      ((step oneSlotAtATime).restrict (Undisturbed oneSlotAtATime)).run (start d.map)
        (replicate 9 true) = some t ∧ t.position = .atEnd ∧ t.map.size = 0 ∧
          t.visited.Perm d.map.entries := by
  obtain ⟨d, hrun, hm, htest⟩ := exists_run_of_any (Described.step oneSlotAtATime) .fresh nineEntries
    (fun d => d.map.isMigrating = true ∧
      (((step oneSlotAtATime).restrict (Undisturbed oneSlotAtATime)).run (start d.map)
        (replicate 9 true)).any fun t => t.position = .atEnd ∧ t.map.size = 0) (by decide)
  obtain ⟨t, htraversed, hend, hsize⟩ := exists_run_of_any _ _ _ _ htest
  exact ⟨d, t, hrun, hm, htraversed, hend, hsize,
    (visits_each_once (reached_of_run .fresh hrun) htraversed).2.2.1 hend⟩

/-- An operation moves eight slots, as the map is tuned to, and a key is its own hash value. -/
def movesEight : RehashConfig Nat :=
  { hash := fun key => key, migrationSlotsPerOperation := 8, pos := by decide, allocates := fun _ => true }

/-- **The iterator that `erase` returns denotes no entry.** Erasing the first of nine entries moves
the other entries of the first table to the second, and the iterator is at the slot that one of them
has left. -/
theorem denotes_no_entry :
    ∃ d t, (Described.step movesEight).run .fresh nineEntries = some d ∧
      d.map.entryAt d.map.begin = some (0, 100) ∧
      d.map.eraseAt movesEight d.map.begin = some (t, .current 1) ∧ t.entryAt (.current 1) = none ∧
        t.findValue movesEight 1 = some 101 ∧ ¬ ∀ (erasures : List Bool) (u : Traversal Nat Nat),
            (step movesEight).run (start d.map) erasures = some u → u.Denotes := by
  obtain ⟨d, hrun, hentry, htest⟩ := exists_run_of_any (Described.step movesEight) .fresh nineEntries
    (fun d => d.map.entryAt d.map.begin = some (0, 100) ∧
      (d.map.eraseAt movesEight d.map.begin).any (fun e => e.2 = .current 1 ∧
        e.1.entryAt (.current 1) = none ∧ e.1.findValue movesEight 1 = some 101)) (by decide)
  obtain ⟨⟨t, position⟩, herase⟩ : ∃ e, d.map.eraseAt movesEight d.map.begin = some e := by
    cases he : d.map.eraseAt movesEight d.map.begin with
    | none =>
      rw [he] at htest
      cases htest
    | some e => exact ⟨e, rfl⟩
  rw [herase] at htest
  obtain ⟨rfl, hnone, hvalue⟩ := of_decide_eq_true htest
  refine ⟨d, t, hrun, hentry, herase, hnone, hvalue, fun hall => ?_⟩
  have hturn : (step movesEight).run (start d.map) [true] =
      some { map := t, position := .current 1, visited := [(0, 100)] } := by
    refine run_cons_eq_some.mpr ⟨_, ?_, rfl⟩
    simp [step, start, hentry, herase]
  rcases hall [true] _ hturn with hend | ⟨entry, hentry⟩
  · cases hend
  · rw [hnone] at hentry
    cases hentry

end Traversal

end PubsubVenue
