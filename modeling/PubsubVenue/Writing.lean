import PubsubVenue.Bytes

/-! # Writing into a buffer

A writer puts bytes into a buffer, and refuses those there is no room for.

* **`Writer.put_append`**: putting bytes in two parts is putting them at once.
* **`Writes`**: a function of the writer comes to putting given bytes. `Writes.andThen` and
  `Writes.foldlM` compose it. -/

namespace PubsubVenue

/-- A buffer that is being written: what has been written, and the room that is left. -/
structure Writer where
  written : Bytes
  remaining : Nat
  deriving DecidableEq

namespace Writer

/-- Put bytes into the buffer, if there is room. -/
def put (bs : Bytes) (w : Writer) : Option Writer :=
  if w.remaining < bs.length then none else some ⟨w.written ++ bs, w.remaining - bs.length⟩

theorem put_nil (w : Writer) : w.put [] = some w := by
  unfold put
  rw [if_neg (by simp), List.append_nil, List.length_nil, Nat.sub_zero]

/-- **Putting bytes in two parts is putting them at once.** -/
theorem put_append (as bs : Bytes) (w : Writer) : w.put (as ++ bs) = (w.put as).bind (put bs) := by
  unfold put
  rw [List.length_append]
  by_cases ha : w.remaining < as.length
  · rw [if_pos ha, if_pos (by omega)]
    rfl
  · rw [if_neg ha]
    simp only [Option.bind_some]
    by_cases hb : w.remaining - as.length < bs.length
    · rw [if_pos hb, if_pos (by omega)]
    · rw [if_neg hb, if_neg (by omega), List.append_assoc, Nat.sub_add_eq]

/-- Writing leaves no more room than there was. -/
theorem remaining_le_of_put {bs : Bytes} {w w' : Writer} (h : w.put bs = some w') :
    w'.remaining ≤ w.remaining := by
  unfold put at h
  split at h
  · cases h
  · cases h
    exact Nat.sub_le _ _

end Writer

/-- In a buffer with less room than `limit`, the function comes to putting these bytes. -/
def Writes (limit : Nat) (f : Writer → Option Writer) (bs : Bytes) : Prop :=
  ∀ w : Writer, w.remaining < limit → f w = w.put bs

namespace Writes

variable {limit : Nat} {f g : Writer → Option Writer} {as bs : Bytes}

protected theorem put (bs : Bytes) : Writes limit (Writer.put bs) bs := fun _ _ => rfl

protected theorem done : Writes limit some [] := fun w _ => (Writer.put_nil w).symm

/-- **One after another.** -/
protected theorem andThen (hf : Writes limit f as) (hg : Writes limit g bs) :
    Writes limit (fun w => (f w).bind g) (as ++ bs) := by
  intro w hw
  show (f w).bind g = _
  rw [hf w hw, Writer.put_append]
  cases h : w.put as with
  | none => rfl
  | some w' => exact hg w' (lt_of_le_of_lt (Writer.remaining_le_of_put h) hw)

/-- **Each of a list, one after another.** -/
protected theorem foldlM {α : Type*} {write : α → Writer → Option Writer} {wire : α → Bytes} {vs : List α}
    (h : ∀ v ∈ vs, Writes limit (write v) (wire v)) :
    Writes limit (fun w => vs.foldlM (fun w v => write v w) w) (vs.flatMap wire) := by
  induction vs with
  | nil => exact Writes.done
  | cons v vs ih =>
    have hfirst := h v List.mem_cons_self
    have hrest := ih fun u hu => h u (List.mem_cons_of_mem _ hu)
    rw [List.flatMap_cons]
    exact hfirst.andThen hrest

end Writes

end PubsubVenue
