import Mathlib.Order.Defs.PartialOrder
import Mathlib.Order.RelClasses

/-! # Programs that change a state and may throw

A program of `EStateM` changes a state and returns or throws, and what it did to the state before it
threw stays done. The module has the rules by which a development proves what such a program
ensures:

* **`wp`**: what holds of the state before, where a program returns with one condition or throws
  with another; one simplification lemma for each way to build a program.
* **`wp_mono`**: conditions may be weakened, so that a program is used by what is proved of it.
* **`Keeps`**: what a program never changes, as a reflexive and transitive relation between the
  states before and after, with the rules that put the parts of a program together.
* **`Alike`**: from related states two programs return the same or throw the same, in related
  states; with the same rules. -/

namespace PubsubVenue

namespace Throwing

universe u

variable {ε σ α β : Type u}

/-- **What has to hold before**: the program returns with `Q`, or throws with `E`. -/
def wp (m : EStateM ε σ α) (Q : α → σ → Prop) (E : ε → σ → Prop) (s : σ) : Prop :=
  match m s with
  | .ok a t => Q a t
  | .error e t => E e t

section Rules

variable {Q : α → σ → Prop} {E : ε → σ → Prop} {s : σ}

@[simp] theorem wp_pure (a : α) : wp (pure a : EStateM ε σ α) Q E s ↔ Q a s := Iff.rfl

@[simp] theorem wp_throw (e : ε) : wp (throw e : EStateM ε σ α) Q E s ↔ E e s := Iff.rfl

/-- One program and then another, which is not begun if the first throws. -/
@[simp] theorem wp_bind (m : EStateM ε σ β) (k : β → EStateM ε σ α) :
    wp (m >>= k) Q E s ↔ wp m (fun b t => wp (k b) Q E t) E s := by
  have h : (m >>= k) s = EStateM.bind m k s := rfl
  unfold wp
  rw [h]
  unfold EStateM.bind
  cases m s <;> rfl

@[simp] theorem wp_get {Q : σ → σ → Prop} : wp (get : EStateM ε σ σ) Q E s ↔ Q s s := Iff.rfl

/-- A program that looks at the state first. -/
theorem wp_get_bind (k : σ → EStateM ε σ α) : wp (get >>= k) Q E s ↔ wp (k s) Q E s := Iff.rfl

@[simp] theorem wp_modify {Q : PUnit → σ → Prop} (f : σ → σ) :
    wp (modify f : EStateM ε σ PUnit) Q E s ↔ Q ⟨⟩ (f s) := Iff.rfl

/-- A program whose failure is handled, in the state that the failure left. -/
@[simp] theorem wp_tryCatch (m : EStateM ε σ α) (handle : ε → EStateM ε σ α) :
    wp (tryCatch m handle) Q E s ↔ wp m Q (fun e t => wp (handle e) Q E t) s := by
  have h : (tryCatch m handle) s = EStateM.tryCatch m handle s := rfl
  unfold wp
  rw [h]
  unfold EStateM.tryCatch
  cases m s <;> rfl

/-- A choice between two programs. -/
@[simp] theorem wp_ite (c : Prop) [Decidable c] (m m' : EStateM ε σ α) :
    wp (if c then m else m') Q E s ↔ if c then wp m Q E s else wp m' Q E s := by
  split <;> rfl

variable {m : EStateM ε σ α} {t : σ}

/-- A program that returns. -/
theorem wp_of_ok {a : α} (h : m s = .ok a t) : wp m Q E s ↔ Q a t := by
  unfold wp
  rw [h]

/-- A program that throws. -/
theorem wp_of_error {e : ε} (h : m s = .error e t) : wp m Q E s ↔ E e t := by
  unfold wp
  rw [h]

/-- **Conditions may be weakened.** -/
theorem wp_mono {Q' : α → σ → Prop} {E' : ε → σ → Prop} (h : wp m Q E s) (hQ : ∀ a t, Q a t → Q' a t)
    (hE : ∀ e t, E e t → E' e t) : wp m Q' E' s := by
  cases hm : m s with
  | ok a t => exact (wp_of_ok hm).mpr (hQ a t ((wp_of_ok hm).mp h))
  | error e t => exact (wp_of_error hm).mpr (hE e t ((wp_of_error hm).mp h))

end Rules

/-- The state in which a program ends, whether it returns or throws. -/
def endState (m : EStateM ε σ α) (s : σ) : σ :=
  match m s with
  | .ok _ t => t
  | .error _ t => t

/-- What holds however a program ends holds of the state in which it ends. -/
theorem wp_endState {m : EStateM ε σ α} {P : σ → Prop} {s : σ} :
    wp m (fun _ t => P t) (fun _ t => P t) s ↔ P (endState m s) := by
  unfold wp endState
  cases m s <;> rfl

/-- Programs that end the same end in the same state. -/
theorem endState_congr {m m' : EStateM ε σ α} {s s' : σ} (h : m s = m' s') :
    endState m s = endState m' s' := by
  unfold endState
  rw [h]

/-- A program goes on from where its first part returns. -/
theorem bind_of_ok {m : EStateM ε σ β} {k : β → EStateM ε σ α} {s t : σ} {b : β} (h : m s = .ok b t) :
    (m >>= k) s = k b t := by
  have hbind : (m >>= k) s = EStateM.bind m k s := rfl
  rw [hbind]
  unfold EStateM.bind
  rw [h]

/-- Two programs end the same where one ensures whatever the other does. -/
theorem eq_of_wp {m m' : EStateM ε σ α} {s s' : σ} (h : ∀ Q E, wp m' Q E s' → wp m Q E s) : m s = m' s' := by
  have hsame :=
    h (fun a t => m' s' = .ok a t) (fun e t => m' s' = .error e t)
      (by unfold wp; cases m' s' <;> rfl)
  unfold wp at hsame
  cases hm : m s with
  | ok | error =>
    rw [hm] at hsame
    exact hsame.symm

/-- A handler sees only how the program ends. -/
theorem tryCatch_congr {m m' : EStateM ε σ α} {s s' : σ} (h : m s = m' s') (handle : ε → EStateM ε σ α) :
    (tryCatch m handle) s = (tryCatch m' handle) s' := by
  have htry : ∀ (k : EStateM ε σ α) t, (tryCatch k handle) t = EStateM.tryCatch k handle t := fun _ _ => rfl
  rw [htry, htry]
  unfold EStateM.tryCatch
  rw [h]

/-! ## What a program keeps -/

/-- The states before and after a program are related, whether it returns or throws. -/
def Keeps (R : σ → σ → Prop) (m : EStateM ε σ α) : Prop := ∀ s, wp m (fun _ t => R s t) (fun _ t => R s t) s

section Keeping

variable {R : σ → σ → Prop}

theorem keeps_pure [Std.Refl R] (a : α) : Keeps R (pure a : EStateM ε σ α) := fun s => refl_of R s

theorem keeps_throw [Std.Refl R] (e : ε) : Keeps R (throw e : EStateM ε σ α) := fun s => refl_of R s

theorem keeps_get [Std.Refl R] : Keeps R (get : EStateM ε σ σ) := fun s => refl_of R s

theorem keeps_modify {f : σ → σ} (h : ∀ s, R s (f s)) : Keeps R (modify f : EStateM ε σ PUnit) := h

theorem keeps_bind [IsTrans σ R] {m : EStateM ε σ β} {k : β → EStateM ε σ α} (hm : Keeps R m)
    (hk : ∀ b, Keeps R (k b)) : Keeps R (m >>= k) := by
  intro s
  rw [wp_bind]
  refine wp_mono (hm s) (fun b t hst => ?_) (fun _ _ h => h)
  exact wp_mono (hk b t) (fun _ _ h => trans_of R hst h) (fun _ _ h => trans_of R hst h)

variable {m : EStateM ε σ α}

theorem keeps_tryCatch [IsTrans σ R] {handle : ε → EStateM ε σ α} (hm : Keeps R m)
    (hh : ∀ e, Keeps R (handle e)) : Keeps R (tryCatch m handle) := by
  intro s
  rw [wp_tryCatch]
  refine wp_mono (hm s) (fun _ _ h => h) (fun e t hst => ?_)
  exact wp_mono (hh e t) (fun _ _ h => trans_of R hst h) (fun _ _ h => trans_of R hst h)

theorem keeps_ite {c : Prop} [Decidable c] {m' : EStateM ε σ α} (hm : Keeps R m) (hm' : Keeps R m') :
    Keeps R (if c then m else m') := by
  split
  · exact hm
  · exact hm'

/-- A program that keeps a relation keeps every weaker one. -/
theorem Keeps.mono {R' : σ → σ → Prop} (h : Keeps R m) (hR : ∀ s t, R s t → R' s t) :
    Keeps R' m := fun s => wp_mono (h s) (fun _ t => hR s t) (fun _ t => hR s t)

/-- What a program keeps holds of the state in which it ends. -/
theorem Keeps.endState (h : Keeps R m) (s : σ) : R s (endState m s) :=
  wp_endState.mp (h s)

end Keeping

/-! ## Programs that are alike -/

/-- Two programs end alike: both return the same or both throw the same, in related states. -/
def EndAlike (R : σ → σ → Prop) : EStateM.Result ε σ α → EStateM.Result ε σ α → Prop
  | .ok a t, .ok a' t' => a' = a ∧ R t t'
  | .error e t, .error e' t' => e' = e ∧ R t t'
  | _, _ => False

/-- From related states, the programs end alike. -/
def Alike (R : σ → σ → Prop) (m m' : EStateM ε σ α) : Prop := ∀ s s', R s s' → EndAlike R (m s) (m' s')

section Relating

variable {R : σ → σ → Prop}

theorem alike_pure (a : α) : Alike R (pure a : EStateM ε σ α) (pure a) := fun _ _ h => ⟨rfl, h⟩

theorem alike_throw (e : ε) : Alike R (throw e : EStateM ε σ α) (throw e) := fun _ _ h => ⟨rfl, h⟩

theorem alike_modify {f f' : σ → σ} (h : ∀ s s', R s s' → R (f s) (f' s')) :
    Alike R (modify f : EStateM ε σ PUnit) (modify f') := fun s s' hR => ⟨rfl, h s s' hR⟩

/-- Programs that look at related states first. -/
theorem alike_get_bind {k k' : σ → EStateM ε σ α} (h : ∀ s s', R s s' → Alike R (k s) (k' s')) :
    Alike R (get >>= k) (get >>= k') := fun s s' hR => h s s' hR s s' hR

/-- How programs that end alike end. -/
theorem EndAlike.cases {r r' : EStateM.Result ε σ α} (h : EndAlike R r r') :
    (∃ a t t', r = .ok a t ∧ r' = .ok a t' ∧ R t t') ∨ ∃ e t t', r = .error e t ∧ r' = .error e t' ∧
      R t t' := by
  cases r with
  | ok a t =>
    cases r' with
    | ok a' t' =>
      obtain ⟨rfl, ht⟩ := h
      exact .inl ⟨_, t, t', rfl, rfl, ht⟩
    | error => exact h.elim
  | error e t =>
    cases r' with
    | ok => exact h.elim
    | error e' t' =>
      obtain ⟨rfl, ht⟩ := h
      exact .inr ⟨_, t, t', rfl, rfl, ht⟩

variable {k k' : β → EStateM ε σ α} {s s' : σ}

/-- Programs that go on alike from where they end alike. -/
theorem EndAlike.bind {m m' : EStateM ε σ β} (h : EndAlike R (m s) (m' s'))
    (hk : ∀ b, Alike R (k b) (k' b)) : EndAlike R ((m >>= k) s) ((m' >>= k') s') := by
  have hbind : (m >>= k) s = EStateM.bind m k s := rfl
  have hbind' : (m' >>= k') s' = EStateM.bind m' k' s' := rfl
  rw [hbind, hbind']
  unfold EStateM.bind
  rcases h.cases with ⟨b, t, t', hs, hs', ht⟩ | ⟨e, t, t', hs, hs', ht⟩
  · rw [hs, hs']
    exact hk b t t' ht
  · rw [hs, hs']
    exact ⟨rfl, ht⟩

theorem alike_bind {m m' : EStateM ε σ β} (hm : Alike R m m') (hk : ∀ b, Alike R (k b) (k' b)) :
    Alike R (m >>= k) (m' >>= k') := fun s s' hR => (hm s s' hR).bind hk

theorem alike_tryCatch {m m' : EStateM ε σ α} {handle handle' : ε → EStateM ε σ α} (hm : Alike R m m')
    (hh : ∀ e, Alike R (handle e) (handle' e)) : Alike R (tryCatch m handle) (tryCatch m' handle') := by
  intro s s' hR
  have h : (tryCatch m handle) s = EStateM.tryCatch m handle s := rfl
  have h' : (tryCatch m' handle') s' = EStateM.tryCatch m' handle' s' := rfl
  rw [h, h']
  unfold EStateM.tryCatch
  rcases (hm s s' hR).cases with ⟨b, t, t', hs, hs', ht⟩ | ⟨e, t, t', hs, hs', ht⟩
  · rw [hs, hs']
    exact ⟨rfl, ht⟩
  · rw [hs, hs']
    exact hh e t t' ht

theorem alike_ite {c : Prop} [Decidable c] {m m' n n' : EStateM ε σ α} (hm : Alike R m m')
    (hn : Alike R n n') :
    Alike R (if c then m else n) (if c then m' else n') := by
  split
  · exact hm
  · exact hn

/-- Programs that end alike end in related states. -/
theorem EndAlike.endState {m m' : EStateM ε σ α} (h : EndAlike R (m s) (m' s')) :
    R (endState m s) (endState m' s') := by
  unfold Throwing.endState
  rcases h.cases with ⟨a, t, t', hs, hs', ht⟩ | ⟨e, t, t', hs, hs', ht⟩
  · rw [hs, hs']
    exact ht
  · rw [hs, hs']
    exact ht

end Relating

end Throwing

end PubsubVenue
