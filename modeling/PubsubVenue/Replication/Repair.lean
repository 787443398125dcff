import PubsubVenue.Replication.EpochTable

/-! # Repairing a follower's log

A follower that rejoins tells the leader the number and the epoch of its last record; the leader
answers with the last record of its own log that could be the follower's; the follower keeps its log
through that record, or discards its whole run of records there, and asks again. `repairRound` is
one such exchange between two logs, each with the table of its own epochs, and `repair` repeats it.

* **`repairRound_spec`**: what a round does, on the logs.
* **`repair_ends_and_agrees`**: the exchange ends with a log that begins the leader's, and what it
  may have discarded of the records both logs began with. -/

namespace PubsubVenue

open List LogEpochTable

/-- A record of a log: the epoch of the leadership that wrote it, and what it holds. Its number is
its place in the log. -/
structure LogRecord (α : Type) where
  /-- The epoch of the leadership that wrote it. -/
  epoch : Int
  contents : α
  deriving DecidableEq, Repr

/-- A follower's request: where is the last record my log and yours agree on? -/
structure PositionRequest where
  /-- The number of the follower's last record, or zero. -/
  lastSeqNo : Nat
  lastEpoch : Int
  deriving DecidableEq, Repr

/-- The leader's reply to a request. -/
structure PositionReply where
  /-- The record answered, or zero. -/
  seqNo : Nat := 0
  epoch : Int := 0
  /-- Whether the record answered is the follower's last. -/
  agreed : Bool := false
  /-- Whether the follower is only told to ask again. -/
  askAgain : Bool := false
  deriving DecidableEq, Repr

namespace LogEpochTable

/-- What a follower asks. -/
def positionRequest (t : LogEpochTable) : PositionRequest := ⟨t.lastSeqNo, t.lastEpoch⟩

/-- What a leader replies. -/
def positionReply (t : LogEpochTable) (request : PositionRequest) : Except String PositionReply := do
  let answer ← t.answerPosition request.lastSeqNo request.lastEpoch
  return { seqNo := answer.seqNo
           epoch := answer.epoch
           agreed := decide (answer.seqNo = request.lastSeqNo) &&
             (decide (answer.seqNo = 0) || decide (answer.epoch = request.lastEpoch)) }

/-- What a follower does with a reply: through which record it keeps its log, and whether it then
takes the logs to agree. -/
def onPositionReply (t : LogEpochTable) (reply : PositionReply) : Except String FollowerStep := do
  let step ← t.followerStep ⟨reply.seqNo, reply.epoch⟩
  return { keepThrough := step.keepThrough
           agreed := reply.agreed && step.agreed && decide (step.keepThrough = t.lastSeqNo) }

/-- The table of a log. -/
def ofLog {α : Type} (log : List (LogRecord α)) : LogEpochTable := ofEpochs (log.map LogRecord.epoch)

end LogEpochTable

section Rounds

variable {α : Type}

/-- One exchange: the follower asks, the leader answers, the follower cuts its log back. Returned is
the follower's log, and whether it now takes the logs to agree. -/
def repairRound (leader follower : List (LogRecord α)) : Except String (List (LogRecord α) × Bool) := do
  let table := ofLog follower
  let reply ← (ofLog leader).positionReply table.positionRequest
  let step ← table.onPositionReply reply
  return (follower.take step.keepThrough, step.agreed)

/-- At most so many exchanges, ending with the first that agrees. -/
def repair (leader : List (LogRecord α)) :
    Nat → List (LogRecord α) → Except String (List (LogRecord α) × Bool)
  | 0, follower => .ok (follower, false)
  | rounds + 1, follower => do
    let (kept, agreed) ← repairRound leader follower
    if agreed then return (kept, true)
    repair leader rounds kept

/-- **Two logs match**: where they hold a record with the same number and epoch, they are the same
up to it. -/
def LogsMatch (l m : List (LogRecord α)) : Prop :=
  ∀ n r r', l[n]? = some r → m[n]? = some r' → r.epoch = r'.epoch → l.take (n + 1) = m.take (n + 1)

/-- How many records two logs have in common at their beginning. -/
def commonLength [DecidableEq α] : List (LogRecord α) → List (LogRecord α) → Nat
  | r :: l, r' :: m => if r = r' then commonLength l m + 1 else 0
  | _, _ => 0

/-! ## A round, on the logs -/

/-- The epoch of a record of a log, or zero for record zero. -/
def epochAt (log : List (LogRecord α)) : Nat → Int
  | 0 => 0
  | n + 1 => (log[n]?.map LogRecord.epoch).getD 0

/-- The record a leader answers a follower with. -/
def answered (leader follower : List (LogRecord α)) : Nat :=
  min follower.length (((leader.map LogRecord.epoch).rdropWhile
    fun e => decide (epochAt follower follower.length < e)).length)

/-- What is left of a log when it is cut after a record, and then loses its last records from that
record's epoch. -/
def runStart (log : List (LogRecord α)) (seqNo : Nat) : Nat :=
  (((log.map LogRecord.epoch).take seqNo).rdropWhile fun e => decide (e = epochAt log seqNo)).length

variable {log : List (LogRecord α)} {r : LogRecord α}

/-- The epoch of a record of a log. -/
theorem epochAt_succ {n : Nat} (h : log[n]? = some r) : epochAt log (n + 1) = r.epoch := by
  rw [epochAt, h]
  rfl

/-- The table of a log has the epoch of each of its records. -/
theorem epochOf_ofLog {seqNo : Nat} (h0 : seqNo ≠ 0) (h : seqNo ≤ log.length) :
    (ofLog log).epochOf seqNo = .ok (epochAt log seqNo) := by
  obtain ⟨n, rfl⟩ := Nat.exists_eq_succ_of_ne_zero h0
  have hn : n < log.length := h
  rw [Nat.succ_eq_add_one, epochAt_succ (getElem?_eq_getElem hn)]
  apply epochOf_ofEpochs
  rw [getElem?_map, getElem?_eq_getElem hn, Option.map_some]

section

variable (log : List (LogRecord α))

/-- The table of a log has the number of its last record. -/
@[simp] theorem lastSeqNo_ofLog : (ofLog log).lastSeqNo = log.length := by
  rw [ofLog, lastSeqNo_ofEpochs, length_map]

/-- The table of a log has the epoch of its last record. -/
theorem lastEpoch_ofLog : (ofLog log).lastEpoch = epochAt log log.length := by
  rw [ofLog, lastEpoch_ofEpochs]
  cases log using reverseRecOn with
  | nil => rfl
  | append_singleton =>
    rw [length_append, length_singleton, epochAt_succ getElem?_concat_length,
      map_append, map_singleton, getLast?_concat, Option.getD_some]

/-- **The leader's reply**, on its log. -/
theorem positionReply_ofLog (request : PositionRequest) :
    ∃ q, q = min request.lastSeqNo (((log.map LogRecord.epoch).rdropWhile
          fun e => decide (request.lastEpoch < e)).length) ∧ (ofLog log).positionReply request = .ok
        { seqNo := q, epoch := epochAt log q
          agreed := decide (q = request.lastSeqNo) &&
            (decide (q = 0) || decide (epochAt log q = request.lastEpoch)) } := by
  refine ⟨_, rfl, ?_⟩
  have hle := IsPrefix.length_le <|
    rdropWhile_prefix (fun e => decide (request.lastEpoch < e)) (log.map LogRecord.epoch)
  rw [length_map] at hle
  unfold positionReply answerPosition
  rw [ofLog, lastRecordAtOrBefore_ofEpochs]
  set q := min request.lastSeqNo (((log.map LogRecord.epoch).rdropWhile
    fun e => decide (request.lastEpoch < e)).length) with hq
  have hepoch : (if q = 0 then Except.ok 0 else (ofLog log).epochOf q) = .ok (epochAt log q) := by
    split
    · rename_i hzero
      rw [hzero]
      rfl
    · exact epochOf_ofLog ‹_› (by omega)
  dsimp only
  rw [← ofLog, hepoch]
  rfl

/-- **The follower's step**, on its log. -/
theorem followerStep_ofLog (answer : PositionAnswer) :
    ∃ q, q = min answer.seqNo log.length ∧ (ofLog log).followerStep answer = .ok
      (if q = 0 then ⟨0, true⟩ else if epochAt log q = answer.epoch then ⟨q, true⟩
        else ⟨runStart log q, false⟩) := by
  refine ⟨_, rfl, ?_⟩
  unfold followerStep
  rw [lastSeqNo_ofLog]
  dsimp only
  set q := min answer.seqNo log.length
  have hle : q ≤ log.length := min_le_right _ _
  split
  · rfl
  · rename_i hne
    rw [epochOf_ofLog hne hle]
    show (if epochAt log q = answer.epoch then Except.ok _ else Except.ok _) = _
    split
    · rfl
    · obtain ⟨n, hn⟩ := Nat.exists_eq_succ_of_ne_zero hne
      have hlt : n < log.length := by omega
      have hget := getElem?_eq_getElem hlt
      rw [hn, Nat.succ_eq_add_one, runStart, epochAt_succ hget]
      congr 2
      apply firstOfRunHolding_ofEpochs
      rw [getElem?_map, hget, Option.map_some]

end

/-- A run ends with the record it holds, and so cutting it cuts that record. -/
theorem runStart_lt {seqNo : Nat} (h0 : seqNo ≠ 0) (h : seqNo ≤ log.length) : runStart log seqNo < seqNo := by
  obtain ⟨n, rfl⟩ := Nat.exists_eq_succ_of_ne_zero h0
  have hn : n < log.length := h
  have hget := getElem?_eq_getElem hn
  have htake : (log.map LogRecord.epoch).take (n + 1) = (log.map LogRecord.epoch).take n ++
    [log[n].epoch] := by
    rw [take_add_one, getElem?_map, hget]
    rfl
  rw [runStart, Nat.succ_eq_add_one, htake, epochAt_succ hget, rdropWhile_concat_pos _ _ _ (by simp)]
  calc _ ≤ ((log.map LogRecord.epoch).take n).length :=
        IsPrefix.length_le ( rdropWhile_prefix _ _)
    _ ≤ n := length_take_le _ _
    _ < n + 1 := Nat.lt_succ_self n

/-- What a follower keeps is in its log; and it takes the logs to agree only if it keeps all of it,
the leader says the same, and its last record is from the epoch of the record answered, which is
that record or a later one. -/
theorem onPositionReply_ofLog {reply : PositionReply} {step : FollowerStep}
    (h : (ofLog log).onPositionReply reply = .ok step) : step.keepThrough ≤ log.length ∧
      (step.agreed = true → step.keepThrough = log.length ∧ reply.agreed = true ∧
        (log.length = 0 ∨ log.length ≤ reply.seqNo ∧ epochAt log log.length = reply.epoch)) := by
  obtain ⟨q, hq, hstep⟩ := followerStep_ofLog log ⟨reply.seqNo, reply.epoch⟩
  unfold onPositionReply at h
  rw [hstep, lastSeqNo_ofLog] at h
  have hstep := Except.ok.inj h
  subst hstep
  dsimp only at hq ⊢
  split
  · exact ⟨Nat.zero_le _, fun ha => by simp_all⟩
  · rename_i hne
    split
    · rename_i hepoch
      refine ⟨show q ≤ log.length by omega, fun ha => ?_⟩
      simp only [Bool.and_true, Bool.and_eq_true, decide_eq_true_eq] at ha
      exact ⟨ha.2, ha.1, .inr ⟨by omega, ha.2 ▸ hepoch⟩⟩
    · exact ⟨(runStart_lt hne (by omega)).le.trans (by omega), fun ha => by simp at ha⟩

/-- **What a round does.** The follower cuts its log back to the record answered, and the logs agree
if that is its last; or, if its own record there is from another epoch, to before its run. -/
theorem repairRound_spec (leader follower : List (LogRecord α)) : repairRound leader follower = .ok
      (if epochAt follower (answered leader follower) = epochAt leader (answered leader follower) then
        (follower.take (answered leader follower), decide (answered leader follower = follower.length))
      else (follower.take (runStart follower (answered leader follower)), false)) := by
  obtain ⟨q, hq, hreply⟩ :=
    positionReply_ofLog leader (ofLog follower).positionRequest
  have hlast : (ofLog follower).positionRequest = ⟨follower.length, epochAt follower follower.length⟩ := by
    rw [positionRequest, lastSeqNo_ofLog, lastEpoch_ofLog]
  rw [hlast] at hq hreply
  have hans : answered leader follower = q := hq.symm
  have hle : q ≤ follower.length := by
    rw [hq]
    exact min_le_left _ _
  unfold repairRound onPositionReply
  dsimp only
  rw [hlast, hreply]
  dsimp only [bind, Except.bind]
  obtain ⟨q', hq', hstep⟩ := followerStep_ofLog follower ⟨q, epochAt leader q⟩
  obtain rfl : q' = q := hq'.trans (min_eq_left hle)
  rw [hstep, hans, lastSeqNo_ofLog]
  dsimp only [pure, Except.pure]
  by_cases hzero : q' = 0
  · simp [hzero, epochAt]
  rw [if_neg hzero]
  split
  · rename_i heq
    by_cases hk : q' = follower.length
    · rw [hk] at heq
      simp [hk, heq]
    · simp [hk]
  · simp

/-! ## What a round keeps -/

/-- What `rdropWhile` drops meets the condition. -/
theorem of_length_rdropWhile_le {β : Type} {p : β → Bool} {l : List β} {n : Nat} {x : β}
    (h : (l.rdropWhile p).length ≤ n) (hx : l[n]? = some x) : p x = true := by
  rw [← rdropWhile_append_rtakeWhile (p := p) (l := l), getElem?_append_right h] at hx
  exact mem_rtakeWhile_imp (mem_of_getElem? hx)

/-- The record answered is in both logs. -/
theorem answered_le (leader follower : List (LogRecord α)) :
    answered leader follower ≤ follower.length ∧ answered leader follower ≤ leader.length := by
  have hle := IsPrefix.length_le <| rdropWhile_prefix
    (fun e => decide (epochAt follower follower.length < e)) (leader.map LogRecord.epoch)
  rw [length_map] at hle
  exact ⟨min_le_left _ _, (min_le_right _ _).trans hle⟩

variable {leader follower : List (LogRecord α)}

/-- If the record answered is not the follower's last, every record of the leader's after it is from
a later epoch than the follower's last. -/
theorem epoch_lt_of_answered_le (h : answered leader follower < follower.length) {m : Nat}
    (hm : answered leader follower ≤ m) (hr : leader[m]? = some r) :
    epochAt follower follower.length < r.epoch := by
  have hle : ((leader.map LogRecord.epoch).rdropWhile
      fun e => decide (epochAt follower follower.length < e)).length ≤ m := by
    unfold answered at h hm
    omega
  have hget : (leader.map LogRecord.epoch)[m]? = some r.epoch := by
    rw [getElem?_map, hr, Option.map_some]
  have hlt := of_length_rdropWhile_le hle hget
  exact of_decide_eq_true hlt

/-- The records cut with a run are from its epoch. -/
theorem epoch_eq_of_runStart_le {seqNo n : Nat} (h : runStart log seqNo ≤ n) (hn : n < seqNo)
    (hr : log[n]? = some r) :
    r.epoch = epochAt log seqNo := by
  have hget : ((log.map LogRecord.epoch).take seqNo)[n]? = some r.epoch := by
    rw [getElem?_take_of_lt hn, getElem?_map, hr, Option.map_some]
  have heq := of_length_rdropWhile_le h hget
  exact of_decide_eq_true heq

/-- **A round that does not agree shortens the follower's log**, whatever the two logs hold. -/
theorem length_lt_of_repairRound {leader follower kept : List (LogRecord α)}
    (h : repairRound leader follower = .ok (kept, false)) :
    kept <+: follower ∧ kept.length < follower.length := by
  rw [repairRound_spec] at h
  obtain ⟨hq, -⟩ := answered_le leader follower
  split at h
  · obtain ⟨rfl, hne⟩ := Prod.mk.inj (Except.ok.inj h)
    rw [decide_eq_false_iff_not] at hne
    refine ⟨ take_prefix _ _, ?_⟩
    rw [length_take]
    omega
  · rename_i hepoch
    obtain ⟨rfl, -⟩ := Prod.mk.inj (Except.ok.inj h)
    have h0 : answered leader follower ≠ 0 := by
      intro hzero
      rw [hzero] at hepoch
      exact hepoch rfl
    have hlt := runStart_lt h0 hq
    refine ⟨ take_prefix _ _, ?_⟩
    rw [length_take]
    omega

/-- A log that begins the leader's agrees at once. -/
theorem repairRound_of_isPrefix (h : follower <+: leader) :
    repairRound leader follower = .ok (follower, true) := by
  have hepoch : epochAt follower follower.length = epochAt leader follower.length := by
    cases hlen : follower.length with
    | zero => rfl
    | succ n =>
      have hn : n < follower.length := by omega
      rw [epochAt_succ (getElem?_eq_getElem hn), epochAt_succ (prefix_iff_getElem?.mp h n hn)]
  have hq : answered leader follower = follower.length := by
    refine le_antisymm (answered_le leader follower).1 (le_of_not_gt fun hlt => ?_)
    -- The follower's last record would be in the leader's log, from an epoch later than its own.
    obtain ⟨n, hn⟩ := Nat.exists_eq_succ_of_ne_zero (by omega : follower.length ≠ 0)
    have hlast : n < follower.length := by omega
    have hlater :=
      epoch_lt_of_answered_le hlt (Nat.lt_succ_iff.mp (hn ▸ hlt)) (prefix_iff_getElem?.mp h n hlast)
    rw [hn, Nat.succ_eq_add_one, epochAt_succ (getElem?_eq_getElem hlast)] at hlater
    exact lt_irrefl _ hlater
  rw [repairRound_spec, hq, if_pos hepoch, take_length, decide_eq_true rfl]

/-- A repair that needs one more round. -/
theorem repair_succ {leader follower kept : List (LogRecord α)}
    (h : repairRound leader follower = .ok (kept, false)) (rounds : Nat) :
    repair leader (rounds + 1) follower = repair leader rounds kept := by
  rw [repair, h]
  rfl

/-- A repair that ends. -/
theorem repair_one {leader follower kept : List (LogRecord α)}
    (h : repairRound leader follower = .ok (kept, true)) :
    repair leader 1 follower = .ok (kept, true) := by
  rw [repair, h]
  rfl

variable {l m : List (LogRecord α)}

/-- Cutting the follower's log back keeps the logs matching. -/
theorem LogsMatch.take (h : LogsMatch l m) (k : Nat) : LogsMatch l (m.take k) := by
  intro n r r' hr hr' hepoch
  obtain ⟨hlt, -⟩ := List.getElem?_eq_some_iff.mp hr'
  rw [length_take] at hlt
  have hnk : n < k := by omega
  rw [getElem?_take_of_lt hnk] at hr'
  rw [h n r r' hr hr' hepoch, take_take, min_eq_left hnk]

/-- A log that begins with what another begins with has its records. -/
theorem getElem?_of_take_isPrefix {q n : Nat}
    (h : m.take q <+: l) (hn : n < q) (hr : m[n]? = some r) : l[n]? = some r := by
  obtain ⟨hlt, hget⟩ := List.getElem?_eq_some_iff.mp hr
  have hlen : n < (m.take q).length := by
    rw [length_take]
    omega
  rw [prefix_iff_getElem?.mp h n hlen, getElem_take, hget]

/-! ## The records both logs began with -/

variable [DecidableEq α]

/-- `commonLength` is the length of the longest beginning that both logs have. -/
theorem le_commonLength_iff {n : Nat} : n ≤ commonLength l m ↔ n ≤ m.length ∧ m.take n <+: l := by
  induction l generalizing m n with
  | nil =>
    rw [commonLength, prefix_nil, take_eq_nil_iff, Nat.le_zero]
    · refine ⟨fun h => ⟨by omega, .inl h⟩, ?_⟩
      rintro ⟨hle, h | rfl⟩
      · exact h
      · exact Nat.le_zero.mp hle
    · rintro r l r' m' hc
      cases hc
  | cons r l ih =>
    cases m with
    | nil => simp [commonLength]
    | cons r' m =>
      cases n with
      | zero => simp
      | succ n =>
        rw [commonLength, length_cons, take_succ_cons, cons_prefix_cons]
        split
        · rename_i heq
          rw [Nat.add_le_add_iff_right, ih, Nat.add_le_add_iff_right]
          simp [heq]
        · rename_i hne
          refine iff_of_false (by omega) fun h => hne h.2.1.symm

/-- **What a repair may lose** of the records both logs began with, when it keeps `kept` records:
these are of one epoch, in the follower's log, with the first record after the common ones; or the
follower holds, after the common ones, a record from before every epoch of the leader's log from
there on. -/
def MayLose (leader follower : List (LogRecord α)) (kept : Nat) : Prop :=
  (∃ e, ∀ n, kept ≤ n → n ≤ commonLength leader follower → ∃ r, follower[n]? = some r ∧ r.epoch = e) ∨
    ∃ n r, commonLength leader follower ≤ n ∧ follower[n]? = some r ∧
      ∀ m r', kept ≤ m → leader[m]? = some r' → r.epoch < r'.epoch

/-- **A round between logs that match**: it agrees, and the follower's log begins the leader's; or
it cuts the follower's log back, to the common records or more, or losing only what it may. -/
theorem repairRound_cases (hmatch : LogsMatch leader follower) :
    repairRound leader follower = .ok (follower, true) ∧ follower <+: leader ∨
      ∃ k < follower.length, repairRound leader follower = .ok (follower.take k, false) ∧
        (commonLength leader follower ≤ k ∨ k < commonLength leader follower ∧
          MayLose leader follower k) := by
  obtain ⟨hqF, hqL⟩ := answered_le leader follower
  have hspec := repairRound_spec leader follower
  set q := answered leader follower with hq
  -- Where the epochs are the same the logs are the same up to there, since they match.
  have hsame : epochAt follower q = epochAt leader q → follower.take q <+: leader := by
    intro hepoch
    cases hq : q with
    | zero => exact nil_prefix
    | succ n =>
      have hF := getElem?_eq_getElem (show n < follower.length by omega)
      have hL := getElem?_eq_getElem (show n < leader.length by omega)
      rw [hq, epochAt_succ hF, epochAt_succ hL] at hepoch
      rw [← hmatch n _ _ hL hF hepoch.symm]
      exact take_prefix _ _
  split at hspec
  · rename_i hepoch
    by_cases hlast : q = follower.length
    · rw [hlast, take_length, decide_eq_true rfl] at hspec
      have := hsame hepoch
      rw [hlast, take_length] at this
      exact .inl ⟨hspec, this⟩
    · rw [decide_eq_false hlast] at hspec
      refine .inr ⟨q, by omega, hspec, ?_⟩
      have hle : q ≤ commonLength leader follower := le_commonLength_iff.mpr ⟨hqF, hsame hepoch⟩
      rcases Nat.eq_or_lt_of_le hle with heq | hlt
      · exact .inl heq.ge
      · -- The leader's log is all from later epochs than the follower's last record.
        have hshort : commonLength leader follower < follower.length := by
          by_contra hge
          have hall : follower <+: leader := by
            have := (le_commonLength_iff.mp (not_lt.mp hge)).2
            rwa [take_length] at this
          rw [repairRound_of_isPrefix hall] at hspec
          exact Bool.noConfusion (congrArg Prod.snd (Except.ok.inj hspec))
        obtain ⟨n, hn⟩ := Nat.exists_eq_succ_of_ne_zero (by omega : follower.length ≠ 0)
        have hget := getElem?_eq_getElem (show n < follower.length by omega)
        refine .inr ⟨hlt, .inr ⟨n, _, by omega, hget, fun m r' hm hr' => ?_⟩⟩
        have hlater := epoch_lt_of_answered_le (by omega : q < follower.length) hm hr'
        rwa [hn, Nat.succ_eq_add_one, epochAt_succ hget] at hlater
  · rename_i hepoch
    have h0 : q ≠ 0 := by
      intro hzero
      rw [hzero] at hepoch
      exact hepoch rfl
    have hlt := runStart_lt h0 hqF
    refine .inr ⟨_, by omega, hspec, ?_⟩
    rcases Nat.lt_or_ge (runStart follower q) (commonLength leader follower) with hk | hk
    · -- The run that is cut reaches past the common records, whose epochs would else be the same.
      have hcq : commonLength leader follower < q := by
        by_contra hge
        have hcommon := (le_commonLength_iff.mp (not_lt.mp hge)).2
        obtain ⟨n, hn⟩ := Nat.exists_eq_succ_of_ne_zero h0
        have hF := getElem?_eq_getElem (show n < follower.length by omega)
        have hL : leader[n]? = some follower[n] :=
          getElem?_of_take_isPrefix hcommon (by omega) hF
        rw [hn, Nat.succ_eq_add_one, epochAt_succ hF, epochAt_succ hL] at hepoch
        exact hepoch rfl
      refine .inr ⟨hk, .inl ⟨epochAt follower q, fun n hn hnc => ?_⟩⟩
      have hget := getElem?_eq_getElem (show n < follower.length by omega)
      exact ⟨_, hget, epoch_eq_of_runStart_le hn (by omega) hget⟩
    · exact .inl hk

/-- A log cut back, but not to before the common records, has the same records in common. -/
theorem commonLength_take {k : Nat} (h : commonLength l m ≤ k) :
    commonLength l (m.take k) = commonLength l m := by
  refine eq_of_forall_le_iff fun n => ?_
  rw [le_commonLength_iff, le_commonLength_iff, length_take, take_take]
  constructor
  · rintro ⟨hn, hpre⟩
    rw [min_eq_left (by omega : n ≤ k)] at hpre
    exact ⟨by omega, hpre⟩
  · intro hn
    have := le_commonLength_iff.mpr hn
    rw [min_eq_left (by omega : n ≤ k)]
    exact ⟨by omega, hn.2⟩

/-- What the cut-back log may lose, the log may lose. -/
theorem MayLose.of_take {k kept : Nat}
    (h : commonLength leader follower ≤ k) (hl : MayLose leader (follower.take k) kept) :
    MayLose leader follower kept := by
  have hget : ∀ {n : Nat} {r : LogRecord α}, (follower.take k)[n]? = some r → follower[n]? = some r := by
    intro n r hr
    obtain ⟨hlt, -⟩ := List.getElem?_eq_some_iff.mp hr
    rw [length_take] at hlt
    rwa [getElem?_take_of_lt (by omega)] at hr
  unfold MayLose at hl
  rw [commonLength_take h] at hl
  rcases hl with ⟨e, he⟩ | ⟨n, r, hn, hr, hlater⟩
  · refine .inl ⟨e, fun n hn hnc => ?_⟩
    obtain ⟨r, hr, hre⟩ := he n hn hnc
    exact ⟨r, hget hr, hre⟩
  · exact .inr ⟨n, r, hn, hget hr, hlater⟩

/-- **Repair ends, with a log that begins the leader's.** Between two logs that match, the exchange
ends after at most a round for each of the follower's records and one more; every round that does
not agree cuts the follower's log shorter; and at the end the follower's log begins the leader's.
Of the records both logs began with it has lost none, or only what it may. -/
theorem repair_ends_and_agrees (leader follower : List (LogRecord α)) (hmatch : LogsMatch leader follower) :
    (∀ log kept, repairRound leader log = .ok (kept, false) → kept <+: log ∧ kept.length < log.length) ∧
      ∃ rounds ≤ follower.length + 1, ∃ kept,
        repair leader rounds follower = .ok (kept, true) ∧ kept <+: leader ∧ kept <+: follower ∧
          (kept.length < commonLength leader follower → MayLose leader follower kept.length) := by
  refine ⟨fun log kept h => length_lt_of_repairRound h, ?_⟩
  induction hlen : follower.length using Nat.strong_induction_on generalizing follower with
  | _ length ih =>
    rcases repairRound_cases hmatch with ⟨hround, hpre⟩ | ⟨k, hk, hround, hcut⟩
    · refine ⟨1, by omega, follower, repair_one hround, hpre, prefix_refl _, fun hlt => ?_⟩
      exact absurd (le_commonLength_iff.mp (le_refl (commonLength leader follower))).1 (by omega)
    · rcases hcut with hck | ⟨hkc, hlose⟩
      · -- None of the common records is lost yet: the rest of the exchange is on the shorter log.
        obtain ⟨rounds, hrounds, kept, hrep, hpre, hsub, hlose⟩ :=
          ih k (hlen ▸ hk) (follower.take k) (hmatch.take k) (by rw [length_take]; omega)
        refine ⟨rounds + 1, by omega, kept, ?_, hpre, hsub.trans ( take_prefix _ _), fun hlt => ?_⟩
        · rw [repair_succ hround, hrep]
        · exact (hlose (by rwa [commonLength_take hck])).of_take hck
      · -- What is left begins the leader's log, and the next round agrees.
        have hpre := (le_commonLength_iff.mp hkc.le).2
        refine ⟨2, by omega, follower.take k, ?_, hpre, take_prefix _ _, fun _ => ?_⟩
        · rw [repair_succ hround, repair_one (repairRound_of_isPrefix hpre)]
        · rwa [length_take, min_eq_left hk.le]

/-- A leader's log of three records, each from an epoch of its own. -/
def threeEpochs : List (LogRecord Nat) := [⟨1, 10⟩, ⟨2, 20⟩, ⟨3, 30⟩]

/-- A follower's log that matches it: the first record is the leader's, the others are not. -/
def twoEpochs : List (LogRecord Nat) := [⟨1, 10⟩, ⟨1, 11⟩, ⟨2, 21⟩]

/-- The two logs match. -/
theorem threeEpochs_match_twoEpochs : LogsMatch threeEpochs twoEpochs := by
  intro n r r' hr hr' hepoch
  match n with
  | 0 => rfl
  | 1 => cases hr; cases hr'; exact absurd hepoch (by decide)
  | 2 => cases hr; cases hr'; exact absurd hepoch (by decide)
  | n + 3 => cases hr

/-- **A record both logs hold is discarded.** Record 1 is the same in both logs, and the repair
discards it with record 2, which is from the same epoch in the follower's log. -/
theorem repair_discards_common_record :
    LogsMatch threeEpochs twoEpochs ∧ commonLength threeEpochs twoEpochs = 1 ∧
      repair threeEpochs 2 twoEpochs = .ok ([], true) :=
  ⟨threeEpochs_match_twoEpochs, by decide, by decide⟩

/-- The exchange between these two logs ends with a log that begins the leader's. -/
theorem repair_ends_and_agrees_twoEpochs : LogsMatch threeEpochs twoEpochs ∧ ∃ rounds ≤ 4, ∃ kept,
      repair threeEpochs rounds twoEpochs = .ok (kept, true) ∧ kept <+: threeEpochs := by
  obtain ⟨-, rounds, hrounds, kept, hrep, hpre, -⟩ :=
    repair_ends_and_agrees threeEpochs twoEpochs threeEpochs_match_twoEpochs
  exact ⟨threeEpochs_match_twoEpochs, rounds, hrounds, kept, hrep, hpre⟩

end Rounds

end PubsubVenue
