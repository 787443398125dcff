import Mathlib.Data.List.Basic

/-! # Reading a stream as it arrives

A reader takes one item after another from the front of the bytes it has, until it has to wait for
more.

* **`StreamReader.deliver_eq_drain`**: what is read, and what is left, do not depend on the pieces
  the stream arrives in, when an item that can be taken is not changed by what follows it. -/

namespace PubsubVenue

open List

/-- A reader of one item: the item and how much of the stream it takes, or nothing when more is
needed. An item takes something, takes no more than there is, and stays what it is when more
arrives. -/
structure StreamReader (α ε : Type) where
  next : List α → Option (ε × Nat)
  next_pos : ∀ {rest e n}, next rest = some (e, n) → 0 < n ∧ n ≤ rest.length
  next_append : ∀ {rest e n}, next rest = some (e, n) → ∀ more, next (rest ++ more) = some (e, n)

namespace StreamReader

variable {α ε : Type} (r : StreamReader α ε)

/-- Take items from `window`, of which `committed` has been taken, until more is needed: the items,
and how much has been taken. -/
def drainFrom (window : List α) (committed : Nat) : List ε × Nat :=
  match _h : r.next (window.drop committed) with
  | none => ([], committed)
  | some (e, n) =>
    let later := drainFrom window (committed + n)
    (e :: later.1, later.2)
termination_by window.length - committed
decreasing_by
  have := r.next_pos _h
  rw [length_drop] at this
  omega

/-- Each piece is added to what is left, items are taken, and what they took is removed. -/
def deliver : List (List α) → List α → List ε × List α
  | [], kept => ([], kept)
  | piece :: pieces, kept =>
    let taken := r.drainFrom (kept ++ piece) 0
    let later := deliver pieces ((kept ++ piece).drop taken.2)
    (taken.1 ++ later.1, later.2)

variable {r}

theorem drainFrom_none {window : List α} {k : Nat} (h : r.next (window.drop k) = none) :
    r.drainFrom window k = ([], k) := by
  rw [drainFrom]
  split <;> simp_all

theorem drainFrom_some {window : List α} {k n : Nat} {e : ε} (h : r.next (window.drop k) = some (e, n)) :
    r.drainFrom window k = (e :: (r.drainFrom window (k + n)).1, (r.drainFrom window (k + n)).2) := by
  rw [drainFrom]
  split <;> simp_all

/-- What holds where more is needed, and is kept by taking an item, holds of every drain. -/
@[elab_as_elim]
theorem drainFrom_induction (r : StreamReader α ε) (window : List α) {motive : Nat → Prop}
    (wait : ∀ k, r.next (window.drop k) = none → motive k)
    (take : ∀ k e n, r.next (window.drop k) = some (e, n) → motive (k + n) → motive k) (k : Nat) :
    motive k := by
  induction hm : window.length - k using Nat.strongRecOn generalizing k with
  | _ m ih =>
    subst hm
    cases h : r.next (window.drop k) with
    | none => exact wait k h
    | some =>
      have := r.next_pos h
      rw [length_drop] at this
      exact take k _ _ h (ih _ (by omega) _ rfl)

/-- Nothing more can be taken of what a drain leaves. -/
theorem next_drainFrom (window : List α) (k : Nat) :
    r.next (window.drop (r.drainFrom window k).2) = none := by
  induction k using drainFrom_induction r window with
  | wait k h => rwa [drainFrom_none h]
  | take k e n h => rwa [drainFrom_some h]

/-- A drain of a longer window goes on where the drain of the shorter one stopped. -/
theorem drainFrom_append (window more : List α) (k : Nat) (hk : k ≤ window.length) :
    (r.drainFrom window k).2 ≤ window.length ∧ r.drainFrom (window ++ more) k =
        ((r.drainFrom window k).1 ++ (r.drainFrom (window ++ more) (r.drainFrom window k).2).1,
          (r.drainFrom (window ++ more) (r.drainFrom window k).2).2) := by
  induction k using drainFrom_induction r window with
  | wait k h =>
    rw [drainFrom_none h]
    exact ⟨hk, rfl⟩
  | take k e n h ih =>
    have hn := (r.next_pos h).2
    rw [length_drop] at hn
    obtain ⟨hle, heq⟩ := ih (by omega)
    have hmore : r.next ((window ++ more).drop k) = some (e, n) := by
      rw [drop_append_of_le_length hk]
      exact r.next_append h more
    rw [drainFrom_some h, drainFrom_some hmore, heq]
    exact ⟨hle, rfl⟩

/-- A drain does not look at what has been taken. -/
theorem drainFrom_shift (taken window : List α) (k : Nat) : r.drainFrom (taken ++ window) (taken.length + k) =
      ((r.drainFrom window k).1, taken.length + (r.drainFrom window k).2) := by
  have hdrop : ∀ k, (taken ++ window).drop (taken.length + k) = window.drop k := fun k => by
    rw [← drop_drop, drop_left]
  induction k using drainFrom_induction r window with
  | wait k h => rw [drainFrom_none h, drainFrom_none (by rwa [hdrop])]
  | take k e n h ih =>
    rw [drainFrom_some h, drainFrom_some (n := n) (e := e) (by rwa [hdrop]), Nat.add_assoc, ih]

/-- **The pieces a stream arrives in do not matter**, from any state in which more is needed. -/
theorem deliver_eq_drain (pieces : List (List α)) (kept : List α) (h : r.next kept = none) :
    r.deliver pieces kept = ((r.drainFrom (kept ++ pieces.flatten) 0).1,
        (kept ++ pieces.flatten).drop (r.drainFrom (kept ++ pieces.flatten) 0).2) := by
  induction pieces generalizing kept with
  | nil =>
    rw [flatten_nil, append_nil, drainFrom_none (k := 0) h]
    rfl
  | cons piece pieces ih =>
    obtain ⟨hle, heq⟩ := drainFrom_append (r := r) (kept ++ piece) pieces.flatten 0 (Nat.zero_le _)
    have hshift := drainFrom_shift (r := r) ((kept ++ piece).take (r.drainFrom (kept ++ piece) 0).2)
      ((kept ++ piece).drop (r.drainFrom (kept ++ piece) 0).2 ++ pieces.flatten) 0
    rw [← append_assoc, take_append_drop, length_take_of_le hle, Nat.add_zero] at hshift
    rw [deliver, ih _ (next_drainFrom _ 0), flatten_cons, ← append_assoc, heq, hshift,
      ← drop_drop, drop_append_of_le_length hle]

end StreamReader

end PubsubVenue
