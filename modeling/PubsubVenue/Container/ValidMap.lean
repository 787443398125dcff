import PubsubVenue.Container.FiniteMap

/-! # A map that is valid by construction

The operations of `IncrementalRehashMap` return on every valid map and leave it valid. A `ValidMap`
carries its validity, so that its operations are total, and what they do is said by the finite map
that `find` gives:

* **`ValidMap.mem_entries`**: the entries that a walk visits are what `find` finds.
* **`ValidMap.find_emplace`**, **`ValidMap.find_erase`**, **`ValidMap.find_clear`**: the operations,
  as changes of a finite map.

Whether a table can be allocated may be different each time, so an operation that allocates is told. -/

namespace PubsubVenue

open Option RehashMap

variable {K V : Type}

/-- **A map between operations.** -/
structure ValidMap (config : RehashConfig K) (V : Type) where
  map : RehashMap K V
  valid : map.Valid config

namespace ValidMap

variable {config : RehashConfig K}

/-- A map with no table yet. -/
def fresh : ValidMap config V := ⟨.fresh, (Described.valid_fresh config).1⟩

variable (m : ValidMap config V)

/-- The entries, in the order in which a walk over the map visits them (`RehashMap.visit_eq`). -/
def entries : List (K × V) := m.map.entries

/-- `size`. -/
def size : Nat := m.map.size

/-- `clear`. -/
def clear : ValidMap config V := ⟨m.map.clear, m.valid.clear.1⟩

variable [DecidableEq K]

/-- The value of the entry that `find` finds. -/
def find (m : ValidMap config V) (key : K) : Option V :=
  (m.map.entryAt (m.map.find config key)).map Prod.snd

/-- **The entries are what `find` finds.** -/
theorem mem_entries {m : ValidMap config V} {key : K} {value : V} :
    (key, value) ∈ m.entries ↔ m.find key = some value := by
  unfold find
  rcases m.valid.find key with ⟨hend, habsent⟩ | ⟨-, found, hentry⟩
  · rw [hend]
    exact ⟨fun hin => absurd hin (habsent value), nofun⟩
  · rw [hentry]
    have hfound := mem_entries_of_entryAt hentry
    constructor
    · intro hin
      rw [m.valid.toSound.value_unique hin hfound]
      rfl
    · intro heq
      rw [← some.inj heq]
      exact hfound

variable (m : ValidMap config V)

/-- The map is the finite map that `find` gives. -/
theorem describes : m.map.Describes m.find := fun _ _ => mem_entries.symm

/-- A map that describes a finite map finds what is in it. -/
theorem find_eq_of_describes {m : ValidMap config V} {contents : K → Option V}
    (h : m.map.Describes contents) : m.find = contents := by
  funext key
  ext value
  exact ((m.describes key value).trans (h key value).symm)

omit [DecidableEq K] in
/-- Keys are distinct. -/
theorem nodup_keys : (m.entries.map Prod.fst).Nodup := m.valid.nodup

omit [DecidableEq K] in
/-- The size counts the entries. -/
theorem size_eq : m.size = m.entries.length := by
  unfold size entries RehashMap.entries
  rw [List.length_append, Probing.length_entries, Probing.length_entries, ← m.valid.current.live_eq,
    ← m.valid.next.live_eq]
  exact m.valid.size_eq

/-! ## The operations -/

section

variable (m : ValidMap config V)

section

variable (allocates : Nat → Bool)

/-- What `emplace` gives. -/
theorem exists_emplace (key : K) (value : V) :
    ∃ t result, m.map.emplace (config.allocating allocates) key value = some (t, result) ∧ t.Valid config ∧
      t.Describes (if result.isSome then insertInto m.find key value false else m.find) := by
  obtain ⟨t, result, heq, hvalid, hdescribes⟩ :=
    (m.valid.allocating allocates).insertEntry m.describes key value false
  exact ⟨t, result, heq, hvalid.allocating config.allocates, hdescribes⟩

/-- **`emplace`**, when some tables can be allocated: whether the entry is new, or `none` where no
table could be allocated and the operation throws. -/
def emplace (key : K) (value : V) : ValidMap config V × Option Bool :=
  match h : m.map.emplace (config.allocating allocates) key value with
  | some result =>
    (⟨result.1, by
      obtain ⟨t, r, heq, hvalid, -⟩ := m.exists_emplace allocates key value
      rw [some.inj (h.symm.trans heq)]
      exact hvalid⟩, result.2.map Prod.snd)
  | none => absurd h (by
      obtain ⟨t, r, heq, -⟩ := m.exists_emplace allocates key value
      rw [heq]
      nofun)

/-- **`emplace` adds a key that is absent**, unless it throws, and then the entries are as they
were. -/
theorem find_emplace (key : K) (value : V) : (m.emplace allocates key value).1.find =
      if (m.emplace allocates key value).2.isSome then insertInto m.find key value false else m.find := by
  obtain ⟨t, r, heq, -, hdescribes⟩ := m.exists_emplace allocates key value
  refine find_eq_of_describes ?_
  unfold emplace
  split
  · rename_i result h
    obtain rfl := some.inj (h.symm.trans heq)
    rw [isSome_map]
    exact hdescribes
  · rename_i h
    exact absurd (heq.symm.trans h) (some_ne_none _)

end

/-- What `erase` gives. -/
theorem exists_erase (key : K) : ∃ t erased, m.map.erase config key = some (t, erased) ∧ t.Valid config ∧
      t.Describes (Function.update m.find key none) := m.valid.erase m.describes key

/-- **`erase`**, of an entry that is in the map. -/
def erase (key : K) : ValidMap config V :=
  match h : m.map.erase config key with
  | some result =>
    ⟨result.1, by
      obtain ⟨t, erased, heq, hvalid, -⟩ := m.exists_erase key
      rw [some.inj (h.symm.trans heq)]
      exact hvalid⟩
  | none => absurd h (by
      obtain ⟨t, erased, heq, -⟩ := m.exists_erase key
      rw [heq]
      nofun)

/-- **`erase` takes the key away.** -/
theorem find_erase (key : K) : (m.erase key).find = Function.update m.find key none := by
  obtain ⟨t, erased, heq, -, hdescribes⟩ := m.exists_erase key
  refine find_eq_of_describes ?_
  unfold erase
  split
  · rename_i result h
    obtain rfl := some.inj (h.symm.trans heq)
    exact hdescribes
  · rename_i h
    exact absurd (heq.symm.trans h) (some_ne_none _)

/-- `clear` takes everything away. -/
theorem find_clear : m.clear.find = fun _ => none :=
  find_eq_of_describes m.valid.clear.2

end

/-- Nothing is in a new map. -/
theorem find_fresh : (fresh : ValidMap config V).find = fun _ => none :=
  find_eq_of_describes (Described.valid_fresh config).2

/-- **`reserve`** on a map, when some tables can be allocated: the map, or `none` where the table
could not be allocated. It never returns where the size that is asked for fits no table. -/
def reserve (m : ValidMap config V) (allocates : Nat → Bool) (entryCount : Nat)
    (hfits : (capacityFor entryCount).isSome) : ValidMap config V × Bool :=
  match h : m.map.reserve (config.allocating allocates) entryCount with
  | some result =>
    (⟨result.1, by
      obtain ⟨t, ok, heq, hvalid, -⟩ := (m.valid.allocating allocates).reserve (eq_some_of_isSome hfits)
      rw [some.inj (h.symm.trans heq)]
      exact hvalid.allocating config.allocates⟩, result.2)
  | none => absurd h (by
      obtain ⟨t, ok, heq, -⟩ := (m.valid.allocating allocates).reserve (eq_some_of_isSome hfits)
      rw [heq]
      nofun)

/-- `reserve` keeps the entries. -/
theorem find_reserve (allocates : Nat → Bool) {entryCount : Nat} (hfits : (capacityFor entryCount).isSome) :
    (m.reserve allocates entryCount hfits).1.find = m.find := by
  obtain ⟨t, ok, heq, -, hsame⟩ := (m.valid.allocating allocates).reserve (eq_some_of_isSome hfits)
  refine find_eq_of_describes ?_
  unfold reserve
  split
  · rename_i result h
    obtain rfl := some.inj (h.symm.trans heq)
    exact m.describes.sameEntries hsame
  · rename_i h
    exact absurd (heq.symm.trans h) (some_ne_none _)

end ValidMap

end PubsubVenue
