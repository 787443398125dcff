import PubsubVenue.RingBuffer
import Mathlib.Data.List.Induction

/-! # The throttle of a session

`RollingWindowThrottle` holds the arrival times of the commands it accepted, in a ring with as many
slots as commands are allowed in a second. A command comes in once the times a second old or older
are out of the ring, and is refused if the ring is still full.

* **`RollingWindowThrottle.accepts_exactly`**: a command is accepted exactly if fewer than the limit
  were in the second before it, and so no second holds more than the limit. -/

namespace PubsubVenue

open List RingBuffer

namespace RollingWindowThrottle

/-- `window`, in the nanoseconds of the clock. -/
def window : Int := 1000000000

/-- The loop of `try_accept`: the times that have left the window are removed. The number bounds how
many there can be. -/
def removeOld (now : Int) : Nat → RingBuffer Int → RingBuffer Int
  | 0, r => r
  | n + 1, r =>
    if r.size ≠ 0 ∧ window ≤ now - r.slots r.front then removeOld now n r.popFront else r

/-- `try_accept`. -/
def tryAccept (r : RingBuffer Int) (now : Int) : Bool × RingBuffer Int :=
  (removeOld now r.size r).pushBack now

/-- A command arrives: the times accepted so far, and the ring. -/
def arrive (s : List Int × RingBuffer Int) (now : Int) : List Int × RingBuffer Int :=
  (if (tryAccept s.2 now).1 then s.1 ++ [now] else s.1, (tryAccept s.2 now).2)

/-- Commands arrive, at these times. -/
def arriveAll (r : RingBuffer Int) (times : List Int) : List Int × RingBuffer Int :=
    times.foldl arrive ([], r)

variable (r : RingBuffer Int)

theorem arriveAll_concat (times : List Int) (now : Int) :
    arriveAll r (times ++ [now]) = arrive (arriveAll r times) now := foldl_concat ..

/-- The commands accepted in the second before a time. -/
def inWindow (now : Int) (accepted : List Int) : List Int := accepted.filter fun t => now - t < window

/-- What is removed are the times at the front that have left the window. -/
theorem contents_removeOld (now : Int) (n : Nat) (r : RingBuffer Int) (h : r.size ≤ n) :
    (removeOld now n r).contents = r.contents.dropWhile fun t => window ≤ now - t := by
  induction n generalizing r with
  | zero => simp [removeOld, contents, Nat.le_zero.mp h]
  | succ n ih =>
    unfold removeOld
    cases hs : r.size with
    | zero => simp [contents, hs]
    | succ m =>
      -- the front is the first of the contents
      have hcons : r.contents = r.slots r.front :: r.popFront.contents := by
        have hzero : r.indexAfterFront 0 = r.front := if_neg (Nat.not_le.mpr r.front_lt)
        rw [contents_popFront, contents, hs, range_succ_eq_map, map_cons, tail_cons, hzero]
      rw [hcons]
      split
      · rename_i hold
        rw [ih r.popFront (by simp only [popFront]; omega), dropWhile_cons_of_pos (by simpa using hold.2)]
      · rename_i hnew
        rw [dropWhile_cons_of_neg (by simpa using hnew), hcons]

/-- The window of a later time, over that of an earlier one. -/
theorem inWindow_inWindow {earlier now : Int} (h : earlier ≤ now) (l : List Int) :
    inWindow now (inWindow earlier l) = inWindow now l := by
  unfold inWindow
  rw [filter_filter]
  refine filter_congr fun t _ => ?_
  grind

/-- Of times in order, those that have left the window come first. -/
theorem dropWhile_eq_inWindow {l : List Int} (h : l.Pairwise (· ≤ ·)) (now : Int) :
    (l.dropWhile fun t => window ≤ now - t) = inWindow now l := by
  induction l with
  | nil => rfl
  | cons t l ih =>
    obtain ⟨hle, hl⟩ := pairwise_cons.mp h
    by_cases ht : window ≤ now - t
    · rw [dropWhile_cons_of_pos (by simpa using ht), ih hl]
      simp [inWindow, ht]
    · rw [dropWhile_cons_of_neg (by simpa using ht)]
      refine (filter_eq_self.mpr fun u hu => ?_).symm
      rcases mem_cons.mp hu with rfl | hu
      · simpa using ht
      · have := hle u hu
        simp only [decide_eq_true_eq]
        omega

/-- The commands accepted are some of those that arrived. -/
theorem accepted_sublist (times : List Int) : (arriveAll r times).1 <+ times := by
  induction times using reverseRecOn with
  | nil => exact nil_sublist _
  | append_singleton times now ih =>
    rw [arriveAll_concat]
    unfold arrive
    split
    · exact ih.append (Sublist.refl _)
    · exact ih.trans (sublist_append_left ..)

/-- Times that leave the window leave the ring as large as it is. -/
theorem capacity_removeOld (now : Int) (n : Nat) (r : RingBuffer Int) :
    (removeOld now n r).capacity = r.capacity := by
  induction n generalizing r with
  | zero => rfl
  | succ n ih =>
    unfold removeOld
    split
    · exact ih _
    · rfl

theorem capacity_pushBack (now : Int) : (r.pushBack now).2.capacity = r.capacity := by
  unfold pushBack
  split <;> rfl

/-- What the ring holds for a decision are the commands accepted in the second before it. -/
def Holds (limit : Nat) (s : List Int × RingBuffer Int) (now : Int) : Prop :=
  s.2.capacity = limit ∧ (removeOld now s.2.size s.2).contents = inWindow now s.1

variable {limit : Nat} {s : List Int × RingBuffer Int} {now : Int}

/-- What is decided then, and what the ring holds after it. -/
theorem Holds.tryAccept (h : Holds limit s now) :
    (tryAccept s.2 now).1 = decide ((inWindow now s.1).length < limit) ∧ (tryAccept s.2 now).2.contents =
        if (inWindow now s.1).length < limit then inWindow now s.1 ++ [now] else inWindow now s.1 := by
  have hsize := (removeOld now s.2.size s.2).length_contents
  have hpush := (removeOld now s.2.size s.2).contents_pushBack now
  rw [h.2] at hsize
  rw [← hsize, capacity_removeOld, h.1, h.2] at hpush
  exact hpush

/-- **The ring holds what a decision needs**, however many commands have arrived before. -/
theorem holds_arriveAll (hlimit : 0 < limit) (slots : Nat → Int) {times : List Int}
    (hs : times.Pairwise (· ≤ ·)) (now : Int) (hnow : ∀ t ∈ times, t ≤ now) :
    Holds limit (arriveAll (.create limit slots hlimit) times) now := by
  induction times using reverseRecOn generalizing now with
  | nil => exact ⟨rfl, rfl⟩
  | append_singleton times last ih =>
    obtain ⟨hbefore, -, hlast⟩ := pairwise_append.mp hs
    have hheld := ih hbefore last fun t ht => hlast t ht last (mem_singleton_self _)
    obtain ⟨hok, hcontents⟩ := hheld.tryAccept
    have hle : last ≤ now := hnow last (mem_append_right _ (mem_singleton_self _))
    have hsub := accepted_sublist (.create limit slots hlimit) times
    rw [arriveAll_concat]
    generalize arriveAll (.create limit slots hlimit) times = s at hheld hok hcontents hsub
    refine ⟨?_, ?_⟩
    · exact (capacity_pushBack ..).trans ((capacity_removeOld ..).trans hheld.1)
    -- what is in the ring is in order, and its window is that of what was accepted
    · have hkept : inWindow last s.1 <+ times := filter_sublist.trans hsub
      rw [contents_removeOld _ _ _ (Nat.le_refl _)]
      simp only [arrive, hok, hcontents, decide_eq_true_eq]
      split
      · rw [dropWhile_eq_inWindow (hs.sublist (hkept.append (Sublist.refl _)))]
        simp only [inWindow, filter_append]
        exact congrArg (· ++ _) (inWindow_inWindow hle s.1)
      · rw [dropWhile_eq_inWindow (hbefore.sublist hkept), inWindow_inWindow hle]

/-- **A command is accepted exactly if fewer than the limit were accepted in the second before it**,
whatever was refused meanwhile; and no second holds more accepted commands than the limit. -/
theorem accepts_exactly (hlimit : 0 < limit) (slots : Nat → Int) {times : List Int}
    (hs : times.Pairwise (· ≤ ·)) :
    (∀ now, (∀ t ∈ times, t ≤ now) →
      ((tryAccept (arriveAll (.create limit slots hlimit) times).2 now).1 = true ↔
        (inWindow now (arriveAll (.create limit slots hlimit) times).1).length < limit)) ∧
      ∀ start, ((arriveAll (.create limit slots hlimit) times).1.filter
        fun t => start ≤ t ∧ t < start + window).length ≤ limit := by
  refine ⟨fun now hnow => ?_, fun start => ?_⟩
  · rw [(holds_arriveAll hlimit slots hs now hnow).tryAccept.1, decide_eq_true_eq]
  induction times using reverseRecOn with
  | nil => exact Nat.zero_le _
  | append_singleton times now ih =>
    obtain ⟨hbefore, -, hlast⟩ := pairwise_append.mp hs
    have hheld := holds_arriveAll hlimit slots hbefore now fun t ht => hlast t ht now (mem_singleton_self _)
    specialize ih hbefore
    rw [arriveAll_concat]
    generalize arriveAll (.create limit slots hlimit) times = s at hheld ih
    unfold arrive
    rw [hheld.tryAccept.1]
    split
    · rename_i hok
      rw [filter_append, length_append]
      by_cases hin : start ≤ now ∧ now < start + window
      · -- the others of that second are in the second before this command
        have hsub : (s.1.filter fun t => start ≤ t ∧ t < start + window).length ≤ (inWindow now s.1).length :=
          (monotone_filter_right _ fun t ht => by grind).length_le
        have hone : ([now].filter fun t => start ≤ t ∧ t < start + window).length ≤ 1 := length_filter_le ..
        have hfewer := of_decide_eq_true hok
        omega
      · simpa [hin] using ih
    · exact ih

/-- Two commands a second: the third is refused, and one that comes a second after the first is not. -/
theorem accepts_exactly_two :
    (arriveAll (.create 2 (fun _ => 0) Nat.two_pos) [0, 1, 2, window]).1 = [0, 1, window] ∧
      ∀ start, ((arriveAll (.create 2 (fun _ => 0) Nat.two_pos) [0, 1, 2, window]).1.filter
        fun t => start ≤ t ∧ t < start + window).length ≤ 2 :=
  ⟨by decide, (accepts_exactly Nat.two_pos _ (by decide)).2⟩

end RollingWindowThrottle

end PubsubVenue
