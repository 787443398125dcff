import Mathlib.Data.List.Dedup
import Mathlib.Data.List.Sort

/-! # The perfect hash of the FIX tags

The dictionary's generator places the tags by compress, hash and displace (`build_perfect_hash`):
each bucket of tags gets the first displacement under which its tags fall on free slots of their
own.

* **`PerfectHash.perfect_of_build`**: what it returns gives every key a slot of its own, which
  `hash_slot` finds from the displacements. -/

namespace PubsubVenue

open List

/-- `PerfectHash`, with the dictionary `slot_of_key` as its assignments in order. -/
structure PerfectHash where
  size : Nat
  bucketCount : Nat
  bucketSeed : Nat
  displacements : List Nat
  slotOfKey : List (Int × Nat)

namespace PerfectHash

/-- `mix`: a hash of 32 bits. -/
def mix (key : Int) (seed : Nat) : Nat :=
  let value := (key % 0x100000000).toNat ^^^ (seed * 0x9E3779B1 % 0x100000000)
  let value := value ^^^ (value >>> 16)
  let value := value * 0x7FEB352D % 0x100000000
  let value := value ^^^ (value >>> 15)
  let value := value * 0x846CA68B % 0x100000000
  value ^^^ (value >>> 16)

/-- `_BUCKET_SEED` -/
def fixedSeed : Nat := 0x9747B28C

/-- Where a key falls among so many, a power of two. -/
def slotOf (size seed : Nat) (key : Int) : Nat := mix key seed &&& (size - 1)

/-- `hash_slot`: none where the bucket has no displacement. -/
def hashSlot (hash : PerfectHash) (key : Int) : Option Nat :=
  hash.displacements[slotOf hash.bucketCount hash.bucketSeed key]?.map (slotOf hash.size · key)

/-- The keys of a bucket under one displacement in `_place_bucket`: none at a clash. -/
def placeKeys (size : Nat) (occupied : Nat → Bool) (displacement : Nat) (placed : List (Int × Nat)) :
    List Int → Option (List (Int × Nat))
  | [] => some placed
  | key :: rest =>
    let slot := slotOf size displacement key
    if occupied slot || slot ∈ placed.map Prod.snd then none
    else placeKeys size occupied displacement (placed ++ [(key, slot)]) rest

/-- `_place_bucket`, from a displacement on, for so many more. -/
def placeBucket (bucket : List Int) (size : Nat) (occupied : Nat → Bool) (displacement : Nat) :
    Nat → Option (Nat × List (Int × Nat))
  | 0 => none
  | tries + 1 =>
    match placeKeys size occupied displacement [] bucket with
    | some placed => some (displacement, placed)
    | none => placeBucket bucket size occupied (displacement + 1) tries

/-- How many displacements `_place_bucket` tries. -/
def displacementLimit : Nat := 1000000

/-- Keys are placed on free slots of their own. -/
def OnFree (occupied : Nat → Bool) (placed : List (Int × Nat)) : Prop :=
  (placed.map Prod.snd).Nodup ∧ ∀ slot ∈ placed.map Prod.snd, occupied slot = false

/-- What `build_perfect_hash` fills in bucket by bucket. -/
structure Placing where
  displacements : List Nat
  slotOfKey : List (Int × Nat)
  occupied : Nat → Bool

section

variable (size count : Nat) (distinct : List Int)

/-- The keys of a bucket. -/
def bucket (index : Nat) : List Int := distinct.filter fun key => slotOf count fixedSeed key = index

/-- One bucket in `build_perfect_hash`. -/
def placeNext (s : Placing) (index : Nat) : Option Placing :=
  if (bucket count distinct index).isEmpty then some s
  else (placeBucket (bucket count distinct index) size s.occupied 0 displacementLimit).map
    fun (displacement, placed) =>
      { displacements := s.displacements.set index displacement
        slotOfKey := s.slotOfKey ++ placed
        occupied := fun slot => s.occupied slot || slot ∈ placed.map Prod.snd }

/-- The buckets in `build_perfect_hash`, the fullest first. -/
def order : List Nat := (range count).insertionSort fun i j =>
  (bucket count distinct j).length ≤ (bucket count distinct i).length

/-- **What holds once some buckets are placed**: their keys have slots of their own, which are
occupied, by the displacements of their buckets. -/
structure Placed (s : Placing) (done : List Nat) : Prop where
  length : s.displacements.length = count
  slots : s.slotOfKey = (done.flatMap (bucket count distinct)).map fun key =>
    (key, slotOf size (s.displacements.getD (slotOf count fixedSeed key) 0) key)
  nodup : (s.slotOfKey.map Prod.snd).Nodup
  occupied : ∀ slot ∈ s.slotOfKey.map Prod.snd, s.occupied slot = true

end

/-- `build_perfect_hash` of keys that are distinct: none where it raises. -/
def buildDistinct (distinct : List Int) : Option PerfectHash :=
  if distinct.isEmpty then some ⟨1, 1, fixedSeed, [0], []⟩
  else
    let power := distinct.length.nextPowerOfTwo
    let size := if power * 3 / 4 < distinct.length then power * 2 else power
    let bucketCount := max 1 (distinct.length / 4).nextPowerOfTwo
    ((order bucketCount distinct).foldlM (placeNext size bucketCount distinct)
      ⟨replicate bucketCount 0, [], fun _ => false⟩).map fun s =>
        ⟨size, bucketCount, fixedSeed, s.displacements, s.slotOfKey⟩

/-- `build_perfect_hash` -/
def build (keys : List Int) : Option PerfectHash := buildDistinct (keys.dedup.insertionSort (· ≤ ·))

variable {size displacement count index : Nat} {occupied : Nat → Bool} {keys : List Int}
  {placed result : List (Int × Nat)} {s t : Placing} {done rest : List Nat} {hash : PerfectHash}

/-- **The keys of a bucket fall on free slots of their own.** -/
theorem placeKeys_spec (h : placeKeys size occupied displacement placed keys = some result)
    (hfree : OnFree occupied placed) : OnFree occupied result ∧
      result = placed ++ keys.map fun key => (key, slotOf size displacement key) := by
  induction keys generalizing placed with
  | nil =>
    cases h
    exact ⟨hfree, (append_nil _).symm⟩
  | cons key rest ih =>
    rw [placeKeys] at h
    split at h
    · cases h
    · rename_i hclash
      rw [Bool.or_eq_true, not_or, Bool.not_eq_true, decide_eq_true_eq] at hclash
      refine (ih h ⟨?_, fun slot hslot => ?_⟩).imp_right fun hresult => hresult.trans (append_assoc ..)
      · rw [map_append]
        exact hfree.1.append (nodup_singleton _) (disjoint_singleton.mpr hclash.2)
      · rw [map_append, mem_append] at hslot
        rcases hslot with hslot | hslot
        · exact hfree.2 slot hslot
        · rw [mem_singleton.mp hslot]
          exact hclash.1

theorem placeBucket_spec {first tries : Nat}
    (h : placeBucket keys size occupied first tries = some (displacement, placed)) :
    OnFree occupied placed ∧ placed = keys.map fun key => (key, slotOf size displacement key) := by
  induction tries generalizing first with
  | zero => cases h
  | succ tries ih =>
    rw [placeBucket] at h
    split at h
    · rename_i hplaced
      cases h
      exact placeKeys_spec hplaced ⟨nodup_nil, nofun⟩
    · exact ih h

theorem slotOf_lt {seed : Nat} {key : Int} (h : size.isPowerOfTwo) : slotOf size seed key < size :=
  Nat.lt_of_le_pred (Nat.pos_of_isPowerOfTwo h) Nat.and_le_right

theorem slotOf_of_mem {key : Int} (h : key ∈ bucket count keys index) : slotOf count fixedSeed key = index :=
  of_decide_eq_true (mem_filter.mp h).2

/-- **Placing a bucket keeps that.** -/
theorem Placed.next (h : Placed size count keys s done) (hnew : index ∉ done) (hindex : index < count)
    (hplace : placeNext size count keys s index = some t) : Placed size count keys t (done ++ [index]) := by
  unfold placeNext at hplace
  split at hplace
  · rename_i hempty
    cases hplace
    refine { h with slots := ?_ }
    rw [flatMap_append, flatMap_singleton, isEmpty_iff.mp hempty, append_nil]
    exact h.slots
  · obtain ⟨⟨displacement, placed⟩, hbucket, rfl⟩ := Option.map_eq_some_iff.mp hplace
    obtain ⟨hfree, rfl⟩ := placeBucket_spec hbucket
    refine ⟨length_set.trans h.length, ?_, ?_, fun slot hslot => ?_⟩
    · simp only [flatMap_append, flatMap_singleton, map_append, h.slots]
      refine congrArg₂ _ (map_congr_left fun key hkey => ?_) (map_congr_left fun key hkey => ?_)
      · obtain ⟨other, hother, hkey⟩ := mem_flatMap.mp hkey
        have hne : index ≠ slotOf count fixedSeed key := fun heq => hnew (by rwa [heq, slotOf_of_mem hkey])
        rw [getD_eq_getElem?_getD, getD_eq_getElem?_getD, getElem?_set_ne hne]
      · rw [slotOf_of_mem hkey, getD_eq_getElem?_getD, getElem?_set_self (h.length ▸ hindex),
          Option.getD_some]
    · rw [map_append]
      refine h.nodup.append hfree.1 fun slot hold hslot => ?_
      exact Bool.false_ne_true ((hfree.2 slot hslot).symm.trans (h.occupied slot hold))
    · rw [map_append, mem_append] at hslot
      rw [Bool.or_eq_true, decide_eq_true_eq]
      exact hslot.imp_left (h.occupied slot)

/-- **Placing all of them keeps that.** -/
theorem Placed.foldlM (h : Placed size count keys s done) (hnodup : (done ++ rest).Nodup)
    (hrest : ∀ index ∈ rest, index < count) (hrun : rest.foldlM (placeNext size count keys) s = some t) :
    Placed size count keys t (done ++ rest) := by
  induction rest generalizing s done with
  | nil =>
    cases hrun
    rwa [append_nil]
  | cons index rest ih =>
    rw [foldlM_cons] at hrun
    obtain ⟨u, hfirst, hrun⟩ := Option.bind_eq_some_iff.mp hrun
    have hnew : index ∉ done := fun hin => disjoint_of_nodup_append hnodup hin mem_cons_self
    have hplaced := h.next hnew (hrest index mem_cons_self) hfirst
    rw [append_cons] at hnodup ⊢
    exact ih hplaced hnodup (fun i hi => hrest i (mem_cons_of_mem _ hi)) hrun

/-- **A hash is perfect** for some keys: it has a slot of its own for each, which `hash_slot` finds. -/
structure Perfect (hash : PerfectHash) (keys : List Int) : Prop where
  size : hash.size.isPowerOfTwo
  bucketCount : hash.bucketCount.isPowerOfTwo
  mem : ∀ key, key ∈ hash.slotOfKey.map Prod.fst ↔ key ∈ keys
  once : (hash.slotOfKey.map Prod.fst).Nodup
  slots : (hash.slotOfKey.map Prod.snd).Nodup
  hashSlot : ∀ entry ∈ hash.slotOfKey, entry.2 < hash.size ∧ hash.hashSlot entry.1 = some entry.2

theorem Placed.perfect (h : Placed size count keys s (order count keys)) (hsize : size.isPowerOfTwo)
    (hcount : count.isPowerOfTwo) : Perfect ⟨size, count, fixedSeed, s.displacements, s.slotOfKey⟩ keys := by
  have hkeys : s.slotOfKey.map Prod.fst = (order count keys).flatMap (bucket count keys) := by
    rw [h.slots, map_map]
    exact map_id _
  have hnodup := h.nodup
  rw [h.slots, map_map, ← hkeys] at hnodup
  refine ⟨hsize, hcount, fun key => ?_, hnodup.of_map _, h.nodup, fun entry hentry => ?_⟩
  · change key ∈ s.slotOfKey.map Prod.fst ↔ _
    rw [hkeys, mem_flatMap]
    constructor
    · rintro ⟨index, -, hkey⟩
      exact mem_of_mem_filter hkey
    · intro hkey
      exact ⟨slotOf count fixedSeed key,
        (perm_insertionSort ..).mem_iff.mpr (mem_range.mpr (slotOf_lt hcount)),
          mem_filter.mpr ⟨hkey, decide_eq_true rfl⟩⟩
  · obtain ⟨key, -, rfl⟩ := mem_map.mp (h.slots ▸ hentry)
    refine ⟨slotOf_lt hsize, ?_⟩
    change (s.displacements[slotOf count fixedSeed key]?).map _ = _
    rw [getD_eq_getElem?_getD, getElem?_eq_getElem ((slotOf_lt hcount).trans_eq h.length.symm)]
    rfl

theorem perfect_of_buildDistinct (h : buildDistinct keys = some hash) : hash.Perfect keys := by
  unfold buildDistinct at h
  split at h
  · rename_i hempty
    cases h
    rw [isEmpty_iff.mp hempty]
    exact ⟨⟨0, rfl⟩, ⟨0, rfl⟩, fun _ => Iff.rfl, nodup_nil, nodup_nil, nofun⟩
  · obtain ⟨s, hrun, rfl⟩ := Option.map_eq_some_iff.mp h
    have hpower := Nat.isPowerOfTwo_nextPowerOfTwo keys.length
    have hcount := Nat.isPowerOfTwo_nextPowerOfTwo (keys.length / 4)
    rw [← Nat.max_eq_right (Nat.pos_of_isPowerOfTwo hcount)] at hcount
    refine ((?_ : Placed _ _ _ _ []).foldlM ?_ ?_ hrun).perfect ?_ hcount
    · exact ⟨length_replicate, rfl, nodup_nil, nofun⟩
    · exact (perm_insertionSort ..).nodup_iff.mpr nodup_range
    · exact fun index hindex => mem_range.mp ((perm_insertionSort ..).mem_iff.mp hindex)
    · split
      · exact Nat.isPowerOfTwo_mul_two_of_isPowerOfTwo hpower
      · exact hpower

/-- **The perfect hash is perfect.** -/
theorem perfect_of_build (h : build keys = some hash) : hash.Perfect keys :=
  { perfect_of_buildDistinct h with
    mem := fun key => ((perfect_of_buildDistinct h).mem key).trans (by rw [mem_insertionSort, mem_dedup]) }

theorem perfect_of_build_twice : ∃ hash, build [35, 49, 35] = some hash ∧ hash.Perfect [35, 49, 35] := by
  have hbuild : (build [35, 49, 35]).isSome := by decide +kernel
  obtain ⟨hash, hhash⟩ := Option.isSome_iff_exists.mp hbuild
  exact ⟨hash, hhash, perfect_of_build hhash⟩

end PerfectHash

end PubsubVenue
