import Mathlib.Data.List.Basic
import Mathlib.Algebra.Order.Group.Nat
import Mathlib.Tactic.Ring

/-! # Bytes

Numbers as little-endian bytes, and writing bytes into the middle of others. The module names
nothing of the programs that use it.

* **`leNat_leBytes`**, **`leBytes_leNat`**: a number that fits is read back from its bytes, and
  bytes from the number they stand for.
* **`overwrite_append`**: writing at the end of a known part replaces the start of what follows it. -/

namespace PubsubVenue

open List

/-- Bytes, as they lie in a file. -/
abbrev Bytes := List UInt8

/-- Every byte is zero. -/
def Zero (bs : Bytes) : Prop := ∀ b ∈ bs, b = 0
  deriving Decidable

/-- The lowest bytes of a number, the lowest first. -/
def leBytes : Nat → Nat → Bytes
  | 0, _ => []
  | n + 1, v => UInt8.ofNat (v % 256) :: leBytes n (v / 256)

/-- The number that bytes stand for, the lowest first. -/
def leNat : Bytes → Nat
  | [] => 0
  | b :: bs => b.toNat + 256 * leNat bs

/-- As many bytes as asked for. -/
@[simp] theorem length_leBytes (n v : Nat) : (leBytes n v).length = n := by
  induction n generalizing v with
  | zero => rfl
  | succ n ih => simp only [leBytes, length_cons, ih]

/-- **A number that fits is read back.** -/
theorem leNat_leBytes {n v : Nat} (h : v < 256 ^ n) : leNat (leBytes n v) = v := by
  induction n generalizing v with
  | zero =>
    rw [Nat.pow_zero] at h
    simp only [leBytes, leNat]
    omega
  | succ n ih =>
    have hdiv : v / 256 < 256 ^ n := by
      rw [Nat.div_lt_iff_lt_mul (by decide)]
      rwa [Nat.pow_succ] at h
    have hbyte : (UInt8.ofNat (v % 256)).toNat = v % 256 := by
      rw [UInt8.toNat_ofNat']
      exact Nat.mod_eq_of_lt (Nat.mod_lt _ (by decide))
    simp only [leBytes, leNat, ih hdiv, hbyte]
    omega

/-- **Bytes are the bytes of the number they stand for.** -/
theorem leBytes_leNat (bs : Bytes) : leBytes bs.length (leNat bs) = bs := by
  induction bs with
  | nil => rfl
  | cons b bs ih =>
    have hb : b.toNat < 256 := b.toNat_lt
    have hlow : (b.toNat + 256 * leNat bs) % 256 = b.toNat := by omega
    have hhigh : (b.toNat + 256 * leNat bs) / 256 = leNat bs := by omega
    simp only [leNat, length_cons, leBytes, hlow, hhigh, ih, UInt8.ofNat_toNat]

/-- Zeros stand for zero. -/
theorem leNat_zero {bs : Bytes} (h : Zero bs) : leNat bs = 0 := by
  induction bs with
  | nil => rfl
  | cons b bs ih =>
    have hb : b = 0 := h b mem_cons_self
    have hbs : leNat bs = 0 := ih fun c hc => h c (mem_cons_of_mem _ hc)
    rw [leNat, hb, hbs]
    rfl

/-- Part of zeros is zeros. -/
theorem Zero.drop {bs : Bytes} (h : Zero bs) (n : Nat) : Zero (bs.drop n) :=
  fun b hb => h b (mem_of_mem_drop hb)

/-- Part of zeros is zeros. -/
theorem Zero.take {bs : Bytes} (h : Zero bs) (n : Nat) : Zero (bs.take n) :=
  fun b hb => h b (mem_of_mem_take hb)

/-- Zeros and zeros. -/
theorem zero_append {as bs : Bytes} : Zero (as ++ bs) ↔ Zero as ∧ Zero bs := by
  constructor
  · intro h
    exact ⟨fun b hb => h b (mem_append_left _ hb), fun b hb => h b (mem_append_right _ hb)⟩
  · rintro ⟨ha, hb⟩ b hmem
    exact (mem_append.mp hmem).elim (ha b) (hb b)

/-- Some zeros. -/
theorem zero_replicate (n : Nat) : Zero (replicate n 0) := fun _ hb => eq_of_mem_replicate hb

/-! ## Writing -/

/-- Write bytes over those that start at an offset. -/
def overwrite (base : Bytes) (offset : Nat) (bytes : Bytes) : Bytes :=
  base.take offset ++ bytes ++ base.drop (offset + bytes.length)

/-- **Writing at the end of a part replaces the start of what follows.** -/
theorem overwrite_append (before tail bytes : Bytes) :
    overwrite (before ++ tail) before.length bytes = before ++ (bytes ++ tail.drop bytes.length) := by
  unfold overwrite
  rw [take_left, drop_append, append_assoc]
  simp

end PubsubVenue
