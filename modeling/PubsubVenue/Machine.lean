import Mathlib.Data.List.Basic
import Mathlib.Order.Basic

/-! # Machines, their runs and their invariants

A machine is a partial transition function: what each action does to a state, or `none` where the
action cannot happen. Its runs are the lists of actions that never get stuck. The module has the
rules by which a development proves facts about all runs from facts about one action:

* **`Machine.Invariant.run`**: what every action keeps, every run keeps.
* **`Machine.restrict`**: the runs all of whose actions meet a condition, and
  **`Machine.run_of_restrict`**, that they are runs. -/

namespace PubsubVenue

universe u v

/-- A machine: what an action does to a state, or `none` where it cannot happen. -/
def Machine (σ : Type u) (α : Type v) := σ → α → Option σ

namespace Machine

variable {σ : Type u} {α : Type v}

/-- Take the actions of a list one after another. -/
def run (m : Machine σ α) : σ → List α → Option σ
  | s, [] => some s
  | s, a :: as => (m s a).bind fun t => run m t as

variable {as : List α} {t : σ} {a : α}

/-- A run of `a :: as` is the action `a` and then a run of `as`. -/
theorem run_cons_eq_some {m : Machine σ α} {s : σ} :
    m.run s (a :: as) = some t ↔ ∃ r, m s a = some r ∧ m.run r as = some t := by
  simp only [run, Option.bind_eq_some_iff]

/-- A run whose last state has a property, found by running it. -/
theorem exists_run_of_any (m : Machine σ α) (s : σ) (as : List α) (P : σ → Prop) [DecidablePred P]
    (h : (m.run s as).any (fun t => decide (P t)) = true) : ∃ t, m.run s as = some t ∧ P t := by
  cases hr : m.run s as with
  | none =>
    rw [hr] at h
    cases h
  | some t =>
    rw [hr] at h
    exact ⟨t, rfl, of_decide_eq_true h⟩

/-- A property that every action keeps. -/
def Invariant (m : Machine σ α) (I : σ → Prop) : Prop :=
  ∀ ⦃s a t⦄, I s → m s a = some t → I t

/-- **What every action keeps, every run keeps.** -/
theorem Invariant.run {m : Machine σ α} {I : σ → Prop} (h : m.Invariant I) {s : σ} (hs : I s)
    (hr : m.run s as = some t) : I t := by
  induction as generalizing s with
  | nil => exact Option.some.inj hr ▸ hs
  | cons a as ih =>
    obtain ⟨r, hsr, hrt⟩ := run_cons_eq_some.mp hr
    exact ih (h hs hsr) hrt

/-- The machine that takes an action only where it meets a condition. -/
def restrict (m : Machine σ α) (c : σ → α → Prop) [∀ s a, Decidable (c s a)] : Machine σ α :=
  fun s a => if c s a then m s a else none

variable {m : Machine σ α} {c : σ → α → Prop} [∀ s a, Decidable (c s a)]

/-- An action of the restricted machine is an action of the machine that meets the condition. -/
theorem restrict_eq_some {s : σ} : m.restrict c s a = some t ↔ c s a ∧ m s a = some t := by
  unfold restrict
  split <;> simp_all

/-- A run of the restricted machine is a run of the machine. -/
theorem run_of_restrict {s : σ} (h : (m.restrict c).run s as = some t) : m.run s as = some t := by
  induction as generalizing s with
  | nil => exact h
  | cons a as ih =>
    obtain ⟨r, hsr, hrt⟩ := run_cons_eq_some.mp h
    exact run_cons_eq_some.mpr ⟨r, (restrict_eq_some.mp hsr).2, ih hrt⟩

end Machine

end PubsubVenue
