import PubsubVenue.Bytes
import Mathlib.Data.Vector.Defs

/-! # Decoders

A decoder takes bytes off the front of what it reads, counts the steps it takes, and may use up
something of a store, such as an arena. It gives a value or it fails.

* **`Decoder.Yields`**: from given bytes, whatever follows them, and a store with room enough, the
  decoder gives a value and leaves exactly what follows. `Yields.bind` and `Yields.times` compose
  it.
* **`Decoder.Costs`**: the steps are bounded by a constant times the number of bytes taken and one
  more, whether the decoder fails or not. `Costs.bind` and `Costs.times` compose it; a loop is
  bounded whatever its count, where each turn takes a byte.
* **`Decoder.Runs`**: on given bytes the decoder takes at least so many steps. -/

namespace PubsubVenue

open List

/-- A reading in progress: the bytes that are left, the steps taken so far, and what else is kept. -/
structure Reader (σ : Type) where
  bytes : Bytes
  steps : Nat
  store : σ
  deriving DecidableEq

/-- A decoder: it gives a value, unless it fails, and leaves the reading further on. -/
def Decoder (σ α : Type) : Type := Reader σ → Option α × Reader σ

namespace Decoder

variable {σ α β : Type}

/-- One decoder and then, unless it fails, another. -/
def andThen (d : Decoder σ α) (f : α → Decoder σ β) : Decoder σ β := fun r =>
  match d r with
  | (none, r') => (none, r')
  | (some a, r') => f a r'

instance : Monad (Decoder σ) where
  pure a := fun r => (some a, r)
  bind := andThen

/-- Fail. -/
def fail : Decoder σ α := fun r => (none, r)

/-- Count a step. -/
def tick : Decoder σ Unit := fun r => (some (), { r with steps := r.steps + 1 })

/-- Take so many bytes, and fail if there are fewer. -/
def take (n : Nat) : Decoder σ Bytes := fun r =>
  if r.bytes.length < n then (none, r) else (some (r.bytes.take n), { r with bytes := r.bytes.drop n })

/-- No byte is left. -/
def atEnd : Decoder σ Bool := fun r => (some r.bytes.isEmpty, r)

/-- Look at the store. -/
def look (f : σ → α) : Decoder σ α := fun r => (some (f r.store), r)

/-- Change the store. -/
def change (f : σ → σ) : Decoder σ Unit := fun r => (some (), { r with store := f r.store })

/-- So many values, one after another. -/
def times (d : Decoder σ α) : Nat → Decoder σ (List α)
  | 0 => pure []
  | n + 1 => do
    let a ← d
    let as ← times d n
    pure (a :: as)

/-- A vector of values, one after another. -/
def vector (d : Decoder σ α) : (n : Nat) → Decoder σ (List.Vector α n)
  | 0 => pure Vector.nil
  | n + 1 => do
    let a ← d
    let as ← vector d n
    pure (Vector.cons a as)

@[simp] theorem pure_apply (a : α) (r : Reader σ) : (pure a : Decoder σ α) r = (some a, r) := rfl

variable {r r' : Reader σ} {f : α → Decoder σ β} {a : α}

/-- What follows a decoder that gave a value. -/
theorem bind_of_some {d : Decoder σ α} (h : d r = (some a, r')) : (d >>= f) r = f a r' := by
  show andThen d f r = _
  unfold andThen
  rw [h]

/-- Nothing follows a decoder that failed. -/
theorem bind_of_none {d : Decoder σ α} (h : d r = (none, r')) : (d >>= f) r = (none, r') := by
  show andThen d f r = _
  unfold andThen
  rw [h]

theorem tick_bind (f : Unit → Decoder σ β) (r : Reader σ) :
    (tick >>= f) r = f () { r with steps := r.steps + 1 } := rfl

theorem look_bind (g : σ → α) (f : α → Decoder σ β) (r : Reader σ) : (look g >>= f) r = f (g r.store) r := rfl

theorem change_bind (g : σ → σ) (f : Unit → Decoder σ β) (r : Reader σ) :
    (change g >>= f) r = f () { r with store := g r.store } := rfl

variable (d : Decoder σ α)

/-- Making something of the value leaves the reading where it is. -/
theorem bind_pure_snd (g : α → β) (r : Reader σ) : ((d >>= fun a => pure (g a)) r).2 = (d r).2 := by
  rcases h : d r with ⟨_ | a, r'⟩
  · rw [bind_of_none h]
  · rw [bind_of_some h]
    rfl

theorem times_succ (n : Nat) : times d (n + 1) = d >>= fun a => times d n >>= fun as => pure (a :: as) := rfl

theorem vector_succ (n : Nat) :
    vector d (n + 1) = d >>= fun a => vector d n >>= fun as => pure (Vector.cons a as) := rfl

theorem times_succ_of_none {d : Decoder σ α} {n : Nat} (h : d r = (none, r')) :
    times d (n + 1) r = (none, r') := bind_of_none h

theorem times_succ_of_some {d : Decoder σ α} {n : Nat} (h : d r = (some a, r')) :
    (times d (n + 1) r).2 = (times d n r').2 := by
  rw [times_succ, bind_of_some h, bind_pure_snd]

/-- A vector is read as a list is. -/
theorem vector_snd (n : Nat) (r : Reader σ) : (vector d n r).2 = (times d n r).2 := by
  induction n generalizing r with
  | zero => rfl
  | succ n ih =>
    rcases h : d r with ⟨_ | a, r'⟩
    · rw [times_succ_of_none h, vector_succ, bind_of_none h]
    · rw [times_succ_of_some h, ← ih, vector_succ, bind_of_some h, bind_pure_snd]

theorem take_append (as rest : Bytes) (steps : Nat) (s : σ) :
    take as.length ⟨as ++ rest, steps, s⟩ = (some as, ⟨rest, steps, s⟩) := by
  unfold take
  rw [if_neg (by rw [length_append]; omega), take_left, drop_left]

/-! ## What a decoder gives -/

/-- How a store is used up: when it has so much to give, and how it changes when no more than that
is taken. -/
structure Supply (σ : Type) where
  ready : Nat → σ → Prop
  uses : Nat → σ → σ → Prop
  ready_left {m n : Nat} {s : σ} : ready (m + n) s → ready m s
  ready_of_uses {m n : Nat} {s s' : σ} : ready (m + n) s → uses m s s' → ready n s'
  uses_refl (s : σ) : uses 0 s s
  uses_trans {m n : Nat} {s s' s'' : σ} : uses m s s' → uses n s' s'' → uses (m + n) s s''

/-- The supply of a store that nothing is taken from. -/
def Supply.still (σ : Type) : Supply σ where
  ready _ _ := True
  uses _ s s' := s' = s
  ready_left h := h
  ready_of_uses _ _ := trivial
  uses_refl _ := rfl
  uses_trans h h' := h'.trans h

/-- What all the values of a list ask for together. -/
def total (room : α → Nat) (as : List α) : Nat := as.foldr (fun a n => room a + n) 0

theorem total_zero (as : List α) : total (fun _ => 0) as = 0 := by
  induction as with
  | nil => rfl
  | cons a as ih => exact (Nat.zero_add _).trans ih

/-- From these bytes, whatever follows them, the decoder gives this value and leaves what follows,
using no more of the store than `room`. -/
def Yields (supply : Supply σ) (d : Decoder σ α) (bs : Bytes) (a : α) (room : Nat) : Prop :=
  ∀ s, supply.ready room s → ∀ rest steps, ∃ steps' s',
    d ⟨bs ++ rest, steps, s⟩ = (some a, ⟨rest, steps', s'⟩) ∧ supply.uses room s s'

namespace Yields

variable {supply : Supply σ} {d : Decoder σ α} {f : α → Decoder σ β} {as bs : Bytes} {a : α} {b : β}
    {m n : Nat}

protected theorem pure (a : α) : Yields supply (pure a) [] a 0 :=
  fun s _ _ steps => ⟨steps, s, rfl, supply.uses_refl s⟩

protected theorem tick : Yields supply tick [] () 0 :=
  fun s _ _ steps => ⟨steps + 1, s, rfl, supply.uses_refl s⟩

protected theorem take (as : Bytes) : Yields supply (take as.length) as as 0 :=
  fun s _ rest steps => ⟨steps, s, take_append as rest steps s, supply.uses_refl s⟩

/-- Where bytes are left, the branch for the end of the message is not taken. -/
protected theorem unlessAtEnd {absent present : Decoder σ α} (has : as ≠ [])
    (h : Yields supply present as a n) :
    Yields supply (atEnd >>= fun ended => if ended then absent else present) as a n := by
  intro s hs rest steps
  have hatEnd : (atEnd : Decoder σ Bool) ⟨as ++ rest, steps, s⟩ = (some false, ⟨as ++ rest, steps, s⟩) := by
    cases as with
    | nil => exact absurd rfl has
    | cons => rfl
  rw [bind_of_some hatEnd]
  exact h s hs rest steps

/-- **One after another.** -/
protected theorem bind (hd : Yields supply d as a m) (hf : Yields supply (f a) bs b n) :
    Yields supply (d >>= f) (as ++ bs) b (m + n) := by
  intro s hs rest steps
  obtain ⟨steps₁, s₁, h₁, hu₁⟩ := hd s (supply.ready_left hs) (bs ++ rest) steps
  obtain ⟨steps₂, s₂, h₂, hu₂⟩ := hf s₁ (supply.ready_of_uses hs hu₁) rest steps₁
  refine ⟨steps₂, s₂, ?_, supply.uses_trans hu₁ hu₂⟩
  rw [append_assoc, bind_of_some h₁, h₂]

/-- A decoder whose value is used by what takes no bytes. -/
protected theorem map (hd : Yields supply d as a m) (hf : Yields supply (f a) [] b 0) :
    Yields supply (d >>= f) as b m := by
  have h := hd.bind hf
  rwa [append_nil] at h

/-- After a decoder that uses nothing of the store. -/
protected theorem after (hd : Yields supply d as a 0) (hf : Yields supply (f a) bs b n) :
    Yields supply (d >>= f) (as ++ bs) b n := by
  have h := hd.bind hf
  rwa [Nat.zero_add] at h

/-- After a decoder that takes no bytes. -/
protected theorem follow (hd : Yields supply d [] a m) (hf : Yields supply (f a) bs b n) :
    Yields supply (d >>= f) bs b (m + n) := hd.bind hf

/-- Counting a step first changes nothing of what is given. -/
protected theorem ticked (hd : Yields supply d as a m) : Yields supply (tick >>= fun _ => d) as a m := by
  have htick : Yields supply tick [] () 0 := Yields.tick
  exact htick.after (f := fun _ => d) hd

/-- **As many times as there are values.** -/
protected theorem times {ι : Type} {value : ι → α} {write : ι → Bytes} {room : ι → Nat} {is : List ι}
    (h : ∀ i ∈ is, Yields supply d (write i) (value i) (room i)) :
    Yields supply (times d is.length) (is.flatMap write) (is.map value) (total room is) := by
  induction is with
  | nil => exact Yields.pure []
  | cons i is ih =>
    have hfirst := h i mem_cons_self
    have hrest := ih fun j hj => h j (mem_cons_of_mem _ hj)
    have hlast : Yields supply (pure (value i :: is.map value)) [] (value i :: is.map value) 0 :=
      Yields.pure _
    rw [flatMap_cons]
    exact hfirst.bind (f := fun a => times d is.length >>= fun as => pure (a :: as)) (hrest.map hlast)

/-- A vector of as many values as there are. -/
protected theorem vector {write : α → Bytes} {n : Nat} (v : List.Vector α n)
    (h : ∀ a, Yields supply d (write a) a 0) :
    Yields supply (vector d n) (v.toList.flatMap write) v 0 := by
  induction n with
  | zero =>
    rw [show v = Vector.nil from Vector.eq_nil v]
    exact Yields.pure _
  | succ n ih =>
    obtain ⟨a, as, rfl⟩ : ∃ a as, v = List.Vector.cons a as := ⟨v.head, v.tail, by simp⟩
    have hlast : Yields supply (pure (List.Vector.cons a as)) [] (List.Vector.cons a as) 0 := Yields.pure _
    rw [Vector.toList_cons, flatMap_cons]
    exact (h a).bind (f := fun a => vector d n >>= fun as => pure (Vector.cons a as)) ((ih as).map hlast)

end Yields

/-! ## What a decoder costs -/

/-- The decoder leaves no more bytes than there were, and it takes no more steps than a constant
times the bytes it took and one more, whether it fails or not. -/
def Costs (d : Decoder σ α) (k : Nat) : Prop :=
  ∀ r, ∃ taken, (d r).2.bytes.length + taken = r.bytes.length ∧ (d r).2.steps ≤ r.steps + k * (taken + 1)

/-- The decoder takes at least a byte whenever it gives a value. -/
def Consumes (d : Decoder σ α) : Prop :=
  ∀ r a r', d r = (some a, r') → r'.bytes.length < r.bytes.length

namespace Costs

variable {d : Decoder σ α} {f : α → Decoder σ β} {k l : Nat}

protected theorem pure (a : α) : Costs (pure a : Decoder σ α) 0 :=
  fun _ => ⟨0, rfl, Nat.le_add_right _ _⟩

protected theorem fail : Costs (fail : Decoder σ α) 0 := fun _ => ⟨0, rfl, Nat.le_add_right _ _⟩

protected theorem tick : Costs (tick : Decoder σ Unit) 1 := fun _ => ⟨0, rfl, Nat.le_refl _⟩

protected theorem look (g : σ → α) : Costs (look g) 0 := fun _ => ⟨0, rfl, Nat.le_add_right _ _⟩

protected theorem change (g : σ → σ) : Costs (change g) 0 := fun _ => ⟨0, rfl, Nat.le_add_right _ _⟩

protected theorem atEnd : Costs (atEnd : Decoder σ Bool) 0 := fun _ => ⟨0, rfl, Nat.le_add_right _ _⟩

protected theorem take (n : Nat) : Costs (take n : Decoder σ Bytes) 0 := by
  intro r
  unfold take
  split
  · exact ⟨0, rfl, Nat.le_add_right _ _⟩
  · refine ⟨n, ?_, Nat.le_add_right _ _⟩
    rw [length_drop]
    omega

section

variable (hd : Costs d k)
include hd

protected theorem mono (h : k ≤ l) : Costs d l := by
  intro r
  obtain ⟨taken, hbytes, hsteps⟩ := hd r
  have hmul : k * (taken + 1) ≤ l * (taken + 1) := Nat.mul_le_mul_right _ h
  exact ⟨taken, hbytes, by omega⟩

/-- **One after another costs what the two cost together.** -/
protected theorem bind (hf : ∀ a, Costs (f a) l) : Costs (d >>= f) (k + l) := by
  intro r
  obtain ⟨taken, hbytes, hsteps⟩ := hd r
  rcases hdr : d r with ⟨_ | a, r'⟩
  · rw [bind_of_none hdr]
    simp only [hdr] at hbytes hsteps
    refine ⟨taken, hbytes, le_trans hsteps ?_⟩
    have hmul : k * (taken + 1) ≤ (k + l) * (taken + 1) := Nat.mul_le_mul_right _ (Nat.le_add_right _ _)
    omega
  · rw [bind_of_some hdr]
    simp only [hdr] at hbytes hsteps
    obtain ⟨taken', hbytes', hsteps'⟩ := hf a r'
    refine ⟨taken + taken', by omega, ?_⟩
    have hk : k * (taken + 1) ≤ k * (taken + taken' + 1) := Nat.mul_le_mul_left _ (by omega)
    have hl : l * (taken' + 1) ≤ l * (taken + taken' + 1) := Nat.mul_le_mul_left _ (by omega)
    rw [Nat.add_mul]
    omega

/-- **A loop costs no more than the bytes it takes, whatever its count, where each turn takes a
byte.** -/
protected theorem times (hc : Consumes d) (n : Nat) : Costs (times d n) (2 * k) := by
  -- A turn that gives a value took a byte, which pays for the part of its cost that no byte answers
  -- for. Only the turn that fails, the last, is left to be paid for by the one more.
  suffices h : ∀ r, ∃ taken, (times d n r).2.bytes.length + taken = r.bytes.length ∧
      (times d n r).2.steps ≤ r.steps + 2 * k * taken + k by
    intro r
    obtain ⟨taken, hbytes, hsteps⟩ := h r
    refine ⟨taken, hbytes, ?_⟩
    rw [Nat.mul_add]
    omega
  induction n with
  | zero => exact fun r => ⟨0, rfl, by show r.steps ≤ _; omega⟩
  | succ n ih =>
    intro r
    obtain ⟨taken, hbytes, hsteps⟩ := hd r
    rcases hdr : d r with ⟨_ | a, r'⟩
    · rw [times_succ_of_none hdr]
      simp only [hdr] at hbytes hsteps
      have htwice : k * taken ≤ 2 * k * taken := Nat.mul_le_mul_right _ (by omega)
      rw [Nat.mul_add] at hsteps
      exact ⟨taken, hbytes, by show r'.steps ≤ _; omega⟩
    · have hpaid := hc r a r' hdr
      simp only [hdr] at hbytes hsteps
      obtain ⟨taken', hbytes', hsteps'⟩ := ih r'
      rw [times_succ_of_some hdr]
      refine ⟨taken + taken', by omega, ?_⟩
      have hturn : k * (taken + 1) ≤ 2 * k * taken := by
        have hk : k * (taken + 1) ≤ k * (2 * taken) := Nat.mul_le_mul_left _ (by omega)
        rwa [← Nat.mul_assoc, Nat.mul_comm k 2] at hk
      rw [Nat.mul_add]
      omega

/-- The steps of a whole reading, against the bytes there are. -/
theorem steps_le (bytes : Bytes) (s : σ) : (d ⟨bytes, 0, s⟩).2.steps ≤ k * (bytes.length + 1) := by
  obtain ⟨taken, hbytes, hsteps⟩ := hd ⟨bytes, 0, s⟩
  have htaken : taken ≤ bytes.length := (Nat.le_add_left _ _).trans_eq hbytes
  rw [Nat.zero_add] at hsteps
  exact le_trans hsteps (Nat.mul_le_mul_left _ (by omega))

protected theorem vector (hc : Consumes d) (n : Nat) : Costs (vector d n) (2 * k) := by
  intro r
  rw [vector_snd]
  exact hd.times hc n r

end

end Costs

/-! ## Going forward -/

/-- The decoder leaves no more bytes than there were, and never takes steps back. -/
def Advances (d : Decoder σ α) : Prop :=
  ∀ r, (d r).2.bytes.length ≤ r.bytes.length ∧ r.steps ≤ (d r).2.steps

namespace Advances

variable {d : Decoder σ α} {f : α → Decoder σ β}

protected theorem pure (a : α) : Advances (pure a : Decoder σ α) := fun _ => ⟨le_rfl, le_rfl⟩

protected theorem fail : Advances (fail : Decoder σ α) := fun _ => ⟨le_rfl, le_rfl⟩

protected theorem tick : Advances (tick : Decoder σ Unit) := fun _ => ⟨le_rfl, Nat.le_succ _⟩

protected theorem look (g : σ → α) : Advances (look g) := fun _ => ⟨le_rfl, le_rfl⟩

protected theorem change (g : σ → σ) : Advances (change g) := fun _ => ⟨le_rfl, le_rfl⟩

protected theorem atEnd : Advances (atEnd : Decoder σ Bool) := fun _ => ⟨le_rfl, le_rfl⟩

protected theorem take (n : Nat) : Advances (take n : Decoder σ Bytes) := by
  intro r
  unfold take
  split
  · exact ⟨le_rfl, le_rfl⟩
  · refine ⟨?_, le_rfl⟩
    rw [length_drop]
    omega

protected theorem bind (hd : Advances d) (hf : ∀ a, Advances (f a)) : Advances (d >>= f) := by
  intro r
  have hfirst := hd r
  rcases hdr : d r with ⟨_ | a, r'⟩
  · rw [bind_of_none hdr]
    simp only [hdr] at hfirst
    exact hfirst
  · rw [bind_of_some hdr]
    simp only [hdr] at hfirst
    exact ⟨le_trans (hf a r').1 hfirst.1, le_trans hfirst.2 (hf a r').2⟩

protected theorem times (hd : Advances d) (n : Nat) : Advances (times d n) := by
  induction n with
  | zero => exact Advances.pure []
  | succ n ih => exact hd.bind fun _ => ih.bind fun _ => Advances.pure _

protected theorem vector (hd : Advances d) (n : Nat) : Advances (vector d n) := by
  intro r
  rw [vector_snd]
  exact hd.times n r

end Advances

namespace Consumes

variable {d : Decoder σ α} {f : α → Decoder σ β}

protected theorem take {n : Nat} (hn : 0 < n) : Consumes (take n : Decoder σ Bytes) := by
  intro r bs r' h
  unfold take at h
  split at h
  · cases h
  · cases h
    show (r.bytes.drop n).length < r.bytes.length
    rw [length_drop]
    omega

/-- A decoder that starts with one that takes a byte. -/
protected theorem bind_left (hd : Consumes d) (hf : ∀ a, Advances (f a)) : Consumes (d >>= f) := by
  intro r b r'' h
  rcases hdr : d r with ⟨_ | a, r'⟩
  · rw [bind_of_none hdr] at h
    cases h
  · rw [bind_of_some hdr] at h
    have hrest := (hf a r').1
    simp only [h] at hrest
    exact lt_of_le_of_lt hrest (hd r a r' hdr)

/-- A decoder that ends with one that takes a byte. -/
protected theorem bind_right (hd : Advances d) (hf : ∀ a, Consumes (f a)) : Consumes (d >>= f) := by
  intro r b r'' h
  have hfirst := (hd r).1
  rcases hdr : d r with ⟨_ | a, r'⟩
  · rw [bind_of_none hdr] at h
    cases h
  · rw [bind_of_some hdr] at h
    simp only [hdr] at hfirst
    exact lt_of_lt_of_le (hf a r' b r'' h) hfirst

end Consumes

/-- The decoder goes forward, and takes a byte where it must. -/
structure Takes (d : Decoder σ α) (must : Bool) : Prop where
  advances : Advances d
  consumes : must = true → Consumes d

namespace Takes

variable {d : Decoder σ α} {f : α → Decoder σ β} {b c : Bool}

protected theorem take {n : Nat} (hn : 0 < n) : Takes (take n : Decoder σ Bytes) true :=
  ⟨Advances.take n, fun _ => Consumes.take hn⟩

protected theorem weaken (hd : Takes d true) : Takes d b := ⟨hd.advances, fun _ => hd.consumes rfl⟩

protected theorem bind_left (hd : Takes d b) (hf : ∀ a, Advances (f a)) : Takes (d >>= f) b :=
  ⟨hd.advances.bind hf, fun h => (hd.consumes h).bind_left hf⟩

protected theorem bind_right (hd : Advances d) (hf : ∀ a, Takes (f a) c) : Takes (d >>= f) c :=
  ⟨hd.bind fun a => (hf a).advances, fun h => .bind_right hd fun a => (hf a).consumes h⟩

/-- One after another takes a byte where either does. -/
protected theorem bind (hd : Takes d b) (hf : ∀ a, Takes (f a) c) : Takes (d >>= f) (b || c) := by
  cases b with
  | true => exact (hd.bind_left fun a => (hf a).advances).weaken
  | false => exact Takes.bind_right hd.advances hf

protected theorem vector (hd : Takes d true) (n : Nat) : Takes (vector d n) (decide (0 < n)) := by
  refine ⟨hd.advances.vector n, fun hn => ?_⟩
  obtain ⟨n, rfl⟩ := Nat.exists_eq_add_one.mpr (of_decide_eq_true hn)
  exact (hd.consumes rfl).bind_left fun _ => (hd.advances.vector n).bind fun _ => Advances.pure _

end Takes

/-! ## What a decoder is made to do -/

/-- On these bytes, and nothing after them, the decoder takes at least so many steps. -/
def Runs (d : Decoder σ α) (bs : Bytes) (n : Nat) : Prop :=
  ∀ steps s, steps + n ≤ (d ⟨bs, steps, s⟩).2.steps

namespace Runs

variable {d : Decoder σ α} {f : α → Decoder σ β} {as bs : Bytes} {a : α} {n : Nat}

/-- What comes after only adds to the steps. -/
protected theorem bind_left (hd : Runs d bs n) (hf : ∀ a, Advances (f a)) : Runs (d >>= f) bs n := by
  intro steps s
  have hfirst := hd steps s
  rcases hdr : d ⟨bs, steps, s⟩ with ⟨_ | a, r'⟩
  · rw [bind_of_none hdr]
    simp only [hdr] at hfirst
    exact hfirst
  · rw [bind_of_some hdr]
    simp only [hdr] at hfirst
    exact le_trans hfirst (hf a r').2

/-- What comes before leaves the bytes that make the decoder run. -/
protected theorem bind_right {supply : Supply σ} (hready : ∀ s, supply.ready 0 s)
    (hd : Yields supply d as a 0) (hc : Advances d) (hf : Runs (f a) bs n) : Runs (d >>= f) (as ++ bs) n := by
  intro steps s
  obtain ⟨steps', s', h, -⟩ := hd s (hready s) bs steps
  have hle := (hc ⟨as ++ bs, steps, s⟩).2
  have hrun := hf steps' s'
  simp only [h] at hle
  rw [bind_of_some h]
  omega

protected theorem ticked (h : Runs d bs n) : Runs (tick >>= fun _ => d) bs n := by
  intro steps s
  have hle : steps + n ≤ steps + 1 + n := by omega
  exact le_trans hle (h (steps + 1) s)

protected theorem look {g : σ → α} (h : ∀ a, Runs (f a) bs n) : Runs (look g >>= f) bs n :=
  fun steps s => h (g s) steps s

protected theorem change {g : σ → σ} {f : Unit → Decoder σ β} (h : Runs (f ()) bs n) :
    Runs (change g >>= f) bs n := fun steps s => h steps (g s)

/-- Where bytes are left, the branch for the end of the message is not taken. -/
protected theorem unlessAtEnd {absent present : Decoder σ α} (hbs : bs ≠ []) (h : Runs present bs n) :
    Runs (atEnd >>= fun ended => if ended then absent else present) bs n := by
  cases bs with
  | nil => exact absurd rfl hbs
  | cons => exact h

/-- **A loop whose turns need no byte runs to its count**, when no byte is left. -/
protected theorem times (h : ∀ steps s, ∃ a steps' s', d ⟨[], steps, s⟩ = (some a, ⟨[], steps', s'⟩) ∧
    steps < steps') (n : Nat) : Runs (times d n) [] n := by
  induction n with
  | zero => exact fun _ _ => le_rfl
  | succ n ih =>
    intro steps s
    obtain ⟨a, steps', s', hturn, hlt⟩ := h steps s
    have hrest := ih steps' s'
    rw [times_succ_of_some hturn]
    omega

end Runs

end Decoder

end PubsubVenue
