import Mathlib.Data.List.AList
import Mathlib.Tactic.Basic

/-! # The holder's side of a lease

An instance's own record of the leases it holds. The holder counts each lease from the moment it
sent the request, so it believes the lease ends no later than the voter believes its promise ends.

* **`LeaseHolder.onGrant_cases`**: what a grant can do, from which every later fact about grants
  follows.
* **`LeaseHolder.acting_iff`**: an instance acts as leader exactly while it leads and some lease it
  holds runs. -/

namespace PubsubVenue

open AList

/-- The timings every voter and holder of a pair share. The drift allowance is checked to be less
than the lease period, so the lease period is positive. -/
structure LeaseTerms where
  leasePeriod : Nat
  /-- How much shorter than the lease period a holder takes a lease to be. -/
  driftAllowance : Nat
  /-- What the constructor of `LeaseHolder` throws unless it holds. -/
  drift_lt : driftAllowance < leasePeriod

/-- The part of a finite map whose entries meet a condition. -/
def keepEntries {κ ν : Type} (keep : ν → Bool) (m : AList fun _ : κ => ν) : AList fun _ : κ => ν :=
  ⟨m.entries.filter fun e => keep e.2, m.nodupKeys.sublist List.filter_sublist⟩

/-- An entry is kept exactly when it was there and meets the condition. -/
theorem lookup_keepEntries_eq_some {κ ν : Type} [DecidableEq κ] {keep : ν → Bool}
    {m : AList fun _ : κ => ν} {k : κ} {x : ν} :
    (keepEntries keep m).lookup k = some x ↔ m.lookup k = some x ∧ keep x = true := by
  rw [← Option.mem_def, ← Option.mem_def, mem_lookup_iff, mem_lookup_iff]
  exact List.mem_filter

/-- What is there after an entry is taken out was there before. -/
theorem lookup_of_lookup_erase {κ ν : Type} [DecidableEq κ] {m : AList fun _ : κ => ν} {j k : κ} {x : ν}
    (h : (m.erase j).lookup k = some x) : m.lookup k = some x := by
  by_cases hk : k = j
  · rw [hk, lookup_erase] at h
    cases h
  · rwa [lookup_erase_ne hk] at h

/-- Neither leading nor asking to lead, asking to lead, or granted a lease. -/
inductive HolderState where
  | idle
  | candidate
  | leading
  deriving DecidableEq, Repr

/-- Whoever asks or leads, and does not ask, leads. -/
theorem HolderState.eq_leading {s : HolderState} (hactive : s ≠ .idle) (hcand : s ≠ .candidate) :
    s = .leading := by
  cases s with
  | idle => exact absurd rfl hactive
  | candidate => exact absurd rfl hcand
  | leading => rfl

/-- What a reply changed. -/
inductive HolderEvent where
  | nothing
  | becameLeader
  | leaseExtended
  | newerEpochKnown
  deriving DecidableEq, Repr

/-- A request that has been sent and not yet answered. -/
structure Outstanding where
  voterId : Int
  sentAt : Nat
  deriving DecidableEq, Repr

/-- An instance's record of the leases it holds and the requests it has made for them. -/
structure LeaseHolder where
  terms : LeaseTerms
  /-- Whether the instance leads or asks to lead. -/
  state : HolderState := .idle
  /-- The epoch it leads in, or asks to lead in. -/
  epoch : Int := 0
  lastRequestId : Int := 0
  outstanding : AList fun _ : Int => Outstanding := ∅
  /-- When the lease each voter granted runs out, by voter. -/
  expiries : AList fun _ : Int => Nat := ∅

namespace LeaseHolder

section

variable (h : LeaseHolder)

/-- Start asking to lead. Any lease held before is forgotten. -/
def beginCandidacy (epoch : Int) : LeaseHolder :=
  { h with state := .candidate, epoch := epoch, expiries := ∅, outstanding := ∅ }

/-- Note that a request is being sent now: the requests too old to matter are forgotten, and the
next id is put on this one. -/
def recordRequest (voterId : Int) (now : Nat) : Int × LeaseHolder :=
  let kept := keepEntries (fun o => !decide (o.sentAt + h.terms.leasePeriod < now)) h.outstanding
  let requestId := h.lastRequestId + 1
  (requestId, { h with lastRequestId := requestId,
                       outstanding := kept.insert requestId ⟨voterId, now⟩ })

/-- When a lease asked for at `sentAt` runs out, as the holder counts it. -/
def leaseEnd (sentAt : Nat) : Nat :=
  sentAt + h.terms.leasePeriod - h.terms.driftAllowance

/-- The lease a voter granted now lasts at least until `expires`. -/
def holdUntil (voterId : Int) (expires : Nat) : LeaseHolder :=
  { h with expiries := h.expiries.insert voterId (max ((h.expiries.lookup voterId).getD 0) expires) }

/-- A voter granted a request. -/
def onGrant (voterId requestId epoch : Int) (now : Nat) : HolderEvent × LeaseHolder :=
  match h.outstanding.lookup requestId with
  | none => (.nothing, h)
  | some request =>
    if request.voterId ≠ voterId then (.nothing, h)
    else
      let expires := h.leaseEnd request.sentAt
      let h' := { h with outstanding := h.outstanding.erase requestId }
      if epoch ≠ h.epoch ∨ h.state = .idle ∨ expires ≤ now then (.nothing, h')
      else if h.state = .candidate then
        (.becameLeader, { h'.holdUntil voterId expires with state := .leading })
      else (.leaseExtended, h'.holdUntil voterId expires)

/-- A voter refused a request, saying the highest epoch it has granted. -/
def onRefusal (requestId highestEpoch : Int) : HolderEvent × LeaseHolder :=
  let h' := { h with outstanding := h.outstanding.erase requestId }
  if h.state ≠ .idle ∧ highestEpoch > h.epoch then (.newerEpochKnown, h') else (.nothing, h')

/-- When the latest lease held runs out. -/
def leaseExpiresAt : Nat :=
  h.expiries.entries.foldl (fun latest e => if e.2 > latest then e.2 else latest) 0

/-- Whether the instance leads and holds an unexpired lease, and so may act as leader. -/
def acting (now : Nat) : Bool :=
  decide (h.state = .leading) && decide (now < h.leaseExpiresAt)

/-- Stop leading or asking to lead. -/
def stop : LeaseHolder :=
  { h with state := .idle, expiries := ∅, outstanding := ∅ }

end

/-! ## What the operations do -/

/-- The loop of `leaseExpiresAt` passes `now` exactly when its start or an entry does. -/
theorem lt_foldl_latest_iff (now : Nat) (l : List (Sigma fun _ : Int => Nat)) (start : Nat) :
    now < l.foldl (fun latest e => if e.2 > latest then e.2 else latest) start ↔
      now < start ∨ ∃ e ∈ l, now < e.2 := by
  induction l generalizing start with
  | nil => simp
  | cons e l ih =>
    rw [List.foldl_cons, ih]
    simp only [List.mem_cons, exists_eq_or_imp, ← or_assoc]
    refine or_congr_left ?_
    split <;> omega

/-- **Acting as leader** is leading with an unexpired lease from some voter. -/
theorem acting_iff (h : LeaseHolder) (now : Nat) : h.acting now = true ↔
      h.state = .leading ∧ ∃ voter expires, h.expiries.lookup voter = some expires ∧ now < expires := by
  unfold acting leaseExpiresAt
  rw [Bool.and_eq_true, decide_eq_true_eq, decide_eq_true_eq, lt_foldl_latest_iff]
  refine and_congr_right fun _ => ⟨?_, ?_⟩
  · rintro (h0 | ⟨⟨voter, expires⟩, he, hlt⟩)
    · omega
    · exact ⟨voter, expires, mem_lookup_iff.mpr he, hlt⟩
  · rintro ⟨voter, expires, he, hlt⟩
    exact .inr ⟨⟨voter, expires⟩, mem_lookup_iff.mp he, hlt⟩

variable {h : LeaseHolder} {o : Outstanding} {voterId id : Int}

/-- A request is outstanding after `recordRequest` if it is the new one, or was outstanding. -/
theorem lookup_outstanding_recordRequest {now : Nat}
    (ho : (h.recordRequest voterId now).2.outstanding.lookup id = some o) :
    (id = h.lastRequestId + 1 ∧ o = ⟨voterId, now⟩) ∨
      (id ≠ h.lastRequestId + 1 ∧ h.outstanding.lookup id = some o) := by
  unfold recordRequest at ho
  by_cases hid : id = h.lastRequestId + 1
  · subst hid
    rw [lookup_insert] at ho
    exact .inl ⟨rfl, (Option.some.inj ho).symm⟩
  · rw [lookup_insert_ne hid] at ho
    exact .inr ⟨hid, (lookup_keepEntries_eq_some.mp ho).1⟩

/-- The holder after a lease has been granted: it leads, the request is used up, and the lease the
voter granted lasts at least until `expires`. -/
def granted (h : LeaseHolder) (voterId requestId : Int) (expires : Nat) : LeaseHolder :=
  { h with
    state := .leading
    outstanding := h.outstanding.erase requestId
    expiries := h.expiries.insert voterId (max ((h.expiries.lookup voterId).getD 0) expires) }

/-- **What a grant can do**: nothing; use up the request it answers; or, answering a request of
this candidacy or leadership while it counts, hold the lease it grants. -/
theorem onGrant_cases (h : LeaseHolder) (voterId requestId epoch : Int) (now : Nat) :
    h.onGrant voterId requestId epoch now = (.nothing, h) ∨ h.onGrant voterId requestId epoch now =
      (.nothing, { h with outstanding := h.outstanding.erase requestId }) ∨
    ∃ request, h.outstanding.lookup requestId = some request ∧ request.voterId = voterId ∧
      epoch = h.epoch ∧ h.state ≠ .idle ∧ now < h.leaseEnd request.sentAt ∧
        h.onGrant voterId requestId epoch now =
        (if h.state = .candidate then .becameLeader else .leaseExtended,
          h.granted voterId requestId (h.leaseEnd request.sentAt)) := by
  unfold onGrant
  cases hl : h.outstanding.lookup requestId with
  | none => exact .inl rfl
  | some request =>
    dsimp only
    by_cases hv : request.voterId = voterId
    · rw [if_neg (not_not.mpr hv)]
      by_cases hs : epoch ≠ h.epoch ∨ h.state = .idle ∨ h.leaseEnd request.sentAt ≤ now
      · rw [if_pos hs]
        exact .inr (.inl rfl)
      · rw [if_neg hs]
        push Not at hs
        refine .inr (.inr ⟨request, rfl, hv, hs.1, hs.2.1, hs.2.2, ?_⟩)
        cases hst : h.state with
        | idle => exact absurd hst hs.2.1
        | candidate | leading => simp [holdUntil, granted]
    · rw [if_pos hv]
      exact .inl rfl

/-- A lease held after a grant was held before, or is the one granted. -/
theorem lookup_expiries_granted {requestId : Int} {expires : Nat} {voter : Int} {x : Nat}
    (hx : (h.granted voterId requestId expires).expiries.lookup voter = some x) :
    x = expires ∨ h.expiries.lookup voter = some x := by
  unfold granted at hx
  by_cases hv : voter = voterId
  · rw [hv, lookup_insert] at hx
    rw [← Option.some.inj hx, hv]
    rcases h.expiries.lookup voterId with _ | old
    · left
      simp
    · rcases le_total old expires with hle | hle <;> simp [hle]
  · rw [lookup_insert_ne hv] at hx
    exact .inr hx

/-- A request outstanding after a grant was outstanding before. -/
theorem lookup_outstanding_granted {requestId : Int} {expires : Nat}
    (ho : (h.granted voterId requestId expires).outstanding.lookup id = some o) :
    h.outstanding.lookup id = some o :=
  lookup_of_lookup_erase ho

end LeaseHolder

end PubsubVenue
