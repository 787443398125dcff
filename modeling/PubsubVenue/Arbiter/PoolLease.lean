import PubsubVenue.Arbiter.Pool

/-! # Component leases are granted only under the pool lease

Being active is a flag that only the lease tick clears, while requests are judged by the flag. So an
arbiter whose thread is held up can grant a component a lease after its own has run out
(`grants_after_its_lease_ran_out`). If the tick is handled before anything else once the lease has
run out (`ArbiterPool.tickComesFirst`), this cannot happen; and then, given that the two arbiters'
own leases exclude each other, what they grant never overlaps
(`component_leases_under_the_pool_lease`).

`ArbiterPool.Fences` is the invariant behind it: to an arbiter that is active, every lease the other
has granted is either older than its own time as the active arbiter, or was granted when its own
lease had already run out, so that its next event ends it. -/

namespace PubsubVenue

open Machine Arbiter

namespace ArbiterPool

/-! ## The conditions -/

variable (s : ArbiterPool) (i : Instance)

/-- An arbiter leads the pool by a lease that has run out. -/
def RanOut : Prop :=
  (s.arbiter i).poolLease.Leading ∧ s.leaseUnexpired i = false
  deriving Decidable

/-- Once its lease has run out, an arbiter handles the lease tick before anything else. -/
def tickComesFirst : PoolAction → Prop
  | .handle _ (.tick _) => True
  | .handle i _ => ¬ s.RanOut i
  | .deliver i _ _ => ¬ s.RanOut i.peer
  | _ => True

instance (a : PoolAction) : Decidable (s.tickComesFirst a) := by
  unfold tickComesFirst
  split <;> infer_instance

/-- The arbiters' own leases exclude each other when the step is taken. -/
def leasesExclude (_ : PoolAction) : Prop :=
  ¬ (s.leaseUnexpired .one = true ∧ s.leaseUnexpired .two = true)
  deriving Decidable

/-- If the leases exclude each other, then of two arbiters one has none. -/
theorem leasesExclude.peer {s : ArbiterPool} {a : PoolAction} (h : s.leasesExclude a) {i : Instance}
    (hi : s.leaseUnexpired i = true) : s.leaseUnexpired i.peer = false := by
  cases i with
  | one => exact Bool.eq_false_iff.mpr fun hp => h ⟨hi, hp⟩
  | two => exact Bool.eq_false_iff.mpr fun hp => h ⟨hp, hi⟩

/-! ## The invariant -/

/-- When an arbiter became active, by the time common to all. -/
def activeSince : Nat :=
  s.bootedAt i + (s.arbiter i).componentVoters.activeSince

/-- When an arbiter's lease runs out, by the time common to all. -/
def leaseEnds : Nat :=
  s.bootedAt i + (s.arbiter i).poolLease.participant.holder.leaseExpiresAt

/-- An arbiter's configuration names the two of them, and has the pool's lease timings. -/
structure Configured (lease : LeaseTiming) (i : Instance) (config : ArbiterConfiguration) : Prop where
  self : config.instanceId = i.id
  peer : config.peerInstanceId = i.peer.id
  timing : config.lease = lease

/-- What holds of one arbiter. -/
structure Sound (lease : LeaseTiming) (s : ArbiterPool) (i : Instance) : Prop where
  booted : s.bootedAt i ≤ s.now
  agrees : (s.arbiter i).Agrees
  wellFormed : (s.arbiter i).componentVoters.WellFormed
  config : Configured lease i (s.arbiter i).config
  period : (s.arbiter i).componentVoters.leasePeriod = lease.terms.leasePeriod

/-- Every lease was granted under the arbiter's own. -/
structure UnderLease (lease : LeaseTiming) (s : ArbiterPool) : Prop where
  sound : ∀ i, Sound lease s i
  under : ∀ g ∈ s.granted, g.underLease = true

/-- **What holds of the leases granted**, if the arbiters' own exclude each other. -/
structure Fences (lease : LeaseTiming) (s : ArbiterPool) : Prop extends UnderLease lease s where
  granted_le : ∀ g ∈ s.granted, g.grantedAt ≤ s.now
  /-- To an active arbiter, a lease the other granted is older than its own time as the active one,
  or was granted when its lease had run out. -/
  fenced : ∀ g ∈ s.granted, ∀ i, i ≠ g.arbiter → (s.arbiter i).componentVoters.active = true →
      g.grantedAt ≤ s.activeSince i ∨ s.leaseEnds i ≤ g.grantedAt
  /-- What the two arbiters granted does not overlap. -/
  apart : s.granted.Pairwise fun later earlier => later.arbiter ≠ earlier.arbiter →
    earlier.grantedAt + lease.terms.leasePeriod ≤ later.grantedAt

variable {lease : LeaseTiming} {s : ArbiterPool} {i : Instance}

/-- A lease that was unexpired has not run out, and the other way round. -/
theorem leaseEnds_le_iff (hb : s.bootedAt i ≤ s.now) (hl : (s.arbiter i).poolLease.Leading) :
    s.leaseEnds i ≤ s.now ↔ s.leaseUnexpired i = false := by
  unfold leaseUnexpired LeaseParticipant.acting LeaseHolder.acting leaseEnds clock
  rw [hl]
  simp only [decide_true, Bool.true_and, decide_eq_false_iff_not, not_lt]
  omega

/-- An arbiter whose lease ended before now leads by a lease that has run out. -/
theorem Sound.ranOut (h : Sound lease s i)
    (hactive : (s.arbiter i).componentVoters.active = true) (hends : s.leaseEnds i ≤ s.now) : s.RanOut i := by
  have hlead := h.agrees.active.mp hactive
  exact ⟨hlead, (leaseEnds_le_iff h.booted hlead).mp hends⟩

/-! ## Events -/

/-- An arbiter `i` handles an event in `s`, before anything else if it is a tick; the rest of the
state is then `s₁`. -/
structure Handles (s s₁ : ArbiterPool) (i : Instance) (event : ArbiterEvent)
    (out : List ArbiterOutput) (a : Arbiter) : Prop where
  handled : (s.arbiter i).handle (s.clock i) event = .ok (out, a)
  tickFirst : (∃ wait, event = .tick wait) ∨ ¬ s.RanOut i
  now : s₁.now = s.now
  bootedAt : s₁.bootedAt = s.bootedAt
  arbiter : s₁.arbiter = s.arbiter
  granted : s₁.granted = s.granted

variable {s₁ : ArbiterPool} {event : ArbiterEvent} {out : List ArbiterOutput} {a : Arbiter}
    {g : ComponentGrant}

section

variable (he : Handles s s₁ i event out a)
include he

/-- **What is granted is granted under the arbiter's own lease**, a lease period after it became
active. -/
theorem Handles.grant (h : Sound lease s i) (hg : g ∈ s₁.grantsIn i out) :
    g.arbiter = i ∧ g.grantedAt = s.now ∧ g.underLease = true ∧ s.leaseUnexpired i = true ∧
      ¬ s.RanOut i ∧ (s.arbiter i).componentVoters.active = true ∧
      s.activeSince i + lease.terms.leasePeriod ≤ s.now := by
  obtain ⟨p, c, e, r, hm, rfl⟩ := mem_grantsIn.mp hg
  obtain ⟨⟨request, saved, rfl⟩, hactive, hquiet⟩ :=
    grant_handle h.wellFormed he.handled hm
  have hran : ¬ s.RanOut i := he.tickFirst.resolve_left fun ⟨wait, hw⟩ => by cases hw
  have hunexpired : s.leaseUnexpired i = true := by
    by_contra hno
    exact hran ⟨h.agrees.active.mp hactive, by simpa using hno⟩
  have hsame : s₁.leaseUnexpired i = s.leaseUnexpired i := by
    unfold leaseUnexpired clock
    rw [he.arbiter, he.now, he.bootedAt]
  have hsince : s.activeSince i + lease.terms.leasePeriod ≤ s.now := by
    have hb := h.booted
    rw [h.period] at hquiet
    unfold clock at hquiet
    unfold activeSince
    omega
  exact ⟨rfl, he.now, hsame.trans hunexpired, hunexpired, hran, hactive, hsince⟩

/-- What has been granted after the event. -/
theorem Handles.mem_granted : g ∈ (s₁.emit i a out).granted ↔ g ∈ s₁.grantsIn i out ∨ g ∈ s.granted := by
  change g ∈ s₁.grantsIn i out ++ s₁.granted ↔ _
  rw [List.mem_append, he.granted]

/-- Handling an event keeps what holds of each arbiter. -/
theorem Sound.emit (h : ∀ j, Sound lease s j) (j : Instance) : Sound lease (s₁.emit i a out) j := by
  have hbooted : (s₁.emit i a out).bootedAt j ≤ (s₁.emit i a out).now := by
    change s₁.bootedAt j ≤ s₁.now
    rw [he.bootedAt, he.now]
    exact (h j).booted
  by_cases hj : j = i
  · subst hj
    have hterm := term_handle (h j).wellFormed he.handled
    refine ⟨hbooted, ?_, ?_, ?_, ?_⟩
    all_goals rw [emit_arbiter, if_pos rfl]
    · exact agrees_handle (h j).agrees (h j).wellFormed he.handled
    · exact wellFormed_handle (h j).wellFormed he.handled
    · rw [hterm.config]
      exact (h j).config
    · rw [hterm.leasePeriod]
      exact (h j).period
  · refine ⟨hbooted, ?_, ?_, ?_, ?_⟩
    all_goals rw [emit_arbiter, if_neg hj, he.arbiter]
    · exact (h j).agrees
    · exact (h j).wellFormed
    · exact (h j).config
    · exact (h j).period

/-- **Handling an event grants nothing without a lease.** -/
theorem UnderLease.emit (h : UnderLease lease s) : UnderLease lease (s₁.emit i a out) where
  sound := Sound.emit he h.sound
  under g hg := by
    rcases he.mem_granted.mp hg with hg | hg
    · exact (he.grant (h.sound i) hg).2.2.1
    · exact h.under g hg

variable (h : Fences lease s)
include h

/-- To an arbiter that stays active, what the other granted stays where it was; to one that becomes
active, it is past. -/
theorem Fences.fenced_self (hg : g ∈ s.granted) (hne : i ≠ g.arbiter)
    (hactive : a.componentVoters.active = true) :
    g.grantedAt ≤ s.bootedAt i + a.componentVoters.activeSince := by
  have hi := h.sound i
  have hle := h.granted_le g hg
  rcases (term_handle hi.wellFormed he.handled).active hactive with ⟨hwas, hsince⟩ | hsince
  · rw [hsince]
    refine (h.fenced g hg i hne hwas).resolve_right fun hends => ?_
    -- its lease has run out, so this event is the tick that ends its time
    have hran := hi.ranOut hwas (hends.trans hle)
    obtain ⟨wait, rfl⟩ := he.tickFirst.resolve_right (not_not.mpr hran)
    have hpassive := passive_of_tick hi.agrees hi.wellFormed he.handled hran.2
    rw [hpassive] at hactive
    cases hactive
  · have hb := hi.booted
    rw [hsince]
    unfold clock
    omega

/-- What an arbiter grants is clear of what the other has granted. -/
theorem Fences.clear {g g' : ComponentGrant}
    (hg : g ∈ s₁.grantsIn i out) (hg' : g' ∈ s.granted) (hne : i ≠ g'.arbiter) :
    g'.grantedAt + lease.terms.leasePeriod ≤ s.now := by
  obtain ⟨-, -, -, -, hran, hactive, hsince⟩ := he.grant (h.sound i) hg
  rcases h.fenced g' hg' i hne hactive with hold | hends
  · omega
  · exact absurd ((h.sound i).ranOut hactive (hends.trans (h.granted_le g' hg'))) hran

/-- **Handling an event keeps what is granted apart**, if the arbiters' own leases exclude each
other. -/
theorem Fences.emit {action : PoolAction} (hex : s.leasesExclude action) :
    Fences lease (s₁.emit i a out) := by
  refine
    { toUnderLease := h.toUnderLease.emit he
      granted_le := fun g hg => ?_
      fenced := fun g hg j hj hactive => ?_
      apart := ?_ }
  · change g.grantedAt ≤ s₁.now
    rw [he.now]
    rcases he.mem_granted.mp hg with hg | hg
    · exact le_of_eq (he.grant (h.sound i) hg).2.1
    · exact h.granted_le g hg
  · unfold activeSince leaseEnds
    rw [emit_arbiter] at hactive ⊢
    change _ ≤ s₁.bootedAt j + _ ∨ s₁.bootedAt j + _ ≤ _
    rw [he.bootedAt]
    by_cases hji : j = i
    · subst hji
      rw [if_pos rfl] at hactive ⊢
      have hold : g ∈ s.granted := (he.mem_granted.mp hg).resolve_left fun hnew =>
        hj (he.grant (h.sound j) hnew).1.symm
      exact .inl (h.fenced_self he hold hj hactive)
    · rw [if_neg hji, he.arbiter] at hactive ⊢
      rcases he.mem_granted.mp hg with hg | hg
      · -- the lease of the arbiter that grants is unexpired, so this one's has run out
        obtain ⟨-, hat, -, hunexpired, -⟩ := he.grant (h.sound i) hg
        have hpeer := hex.peer hunexpired
        rw [← Instance.eq_peer_of_ne hji] at hpeer
        right
        rw [hat]
        exact (leaseEnds_le_iff (h.sound j).booted ((h.sound j).agrees.active.mp hactive)).mpr hpeer
      · exact h.fenced g hg j hj hactive
  · change (s₁.grantsIn i out ++ s₁.granted).Pairwise _
    rw [he.granted]
    refine List.pairwise_append.mpr ⟨?_, h.apart, fun g hg g' hg' hne => ?_⟩
    · refine List.pairwise_of_forall_mem_list fun g hg g' hg' hne => ?_
      exact absurd ((he.grant (h.sound i) hg).1.trans (he.grant (h.sound i) hg').1.symm) hne
    · obtain ⟨hby, hat, -⟩ := he.grant (h.sound i) hg
      rw [hby] at hne
      rw [hat]
      exact h.clear he hg hg' hne

end

/-! ## Time, restarts and the start -/

variable {kept : Option LeasePromiseRecord} {keptStatement : LeaderStatement}

/-- An arbiter of the pool that starts. -/
theorem Sound.of_start {config : ArbiterConfiguration} {store : Statements} {now : Nat}
    (hc : Configured lease i config)
    (hstart : Arbiter.start config store kept keptStatement now = .ok (s.arbiter i))
    (hb : s.bootedAt i ≤ s.now) : Sound lease s i := by
  have hne : config.peerInstanceId ≠ config.instanceId := by
    rw [hc.self, hc.peer]
    cases i <;> decide
  have hzero : config.peerInstanceId ≠ 0 := by
    rw [hc.peer]
    cases i <;> decide
  obtain ⟨hagrees, hconfig⟩ := agrees_start hne hzero hstart
  obtain ⟨hw, -, -, hperiod⟩ := onDisk_start hstart
  refine ⟨hb, hagrees, hw, ?_, ?_⟩
  · rw [hconfig]
    exact hc
  · rw [hperiod, hc.timing]

/-- An event that does not come over a connection to the other arbiter is handled. -/
theorem handles_own (he : (s.arbiter i).handle (s.clock i) event = .ok (out, a))
    (hfirst : s.tickComesFirst (.handle i event)) : Handles s (s.connect i event) i event out a where
  handled := he
  tickFirst := by cases event <;> first | exact .inl ⟨_, rfl⟩ | exact .inr hfirst
  now := connect_now s i event
  bootedAt := connect_bootedAt s i event
  arbiter := connect_arbiter s i event
  granted := connect_granted s i event

/-- A message of the other arbiter is handled. -/
theorem handles_delivered {link : PeerLink} {saved : Bool} {m : Carried} (rest : List Carried)
    (he : (s.arbiter i.peer).handle (s.clock i.peer) (m.message.event saved) = .ok (out, a))
    (hfirst : s.tickComesFirst (.deliver i link saved)) :
    Handles s (s.taken i link m rest) i.peer (m.message.event saved) out a :=
  ⟨he, .inr hfirst, rfl, rfl, rfl, rfl⟩

section

variable {reboot : Bool} (ha : Arbiter.start (s.arbiter i).config (s.arbiter i).store kept keptStatement
  ((s.stopped i reboot).clock i) = .ok a)
include ha

/-- A restart keeps what holds of each arbiter. -/
theorem Sound.restart (h : ∀ j, Sound lease s j) (j : Instance) : Sound lease (s.restarted i reboot a) j := by
  have hbooted : (s.restarted i reboot a).bootedAt j ≤ s.now := by
    change (if j = i ∧ reboot = true then s.now else s.bootedAt j) ≤ s.now
    split
    · exact le_rfl
    · exact (h j).booted
  by_cases hj : j = i
  · subst hj
    refine Sound.of_start (h j).config (ha.trans ?_) hbooted
    rw [restarted_arbiter, if_pos rfl]
  · refine ⟨hbooted, ?_, ?_, ?_, ?_⟩
    all_goals rw [restarted_arbiter, if_neg hj]
    · exact (h j).agrees
    · exact (h j).wellFormed
    · exact (h j).config
    · exact (h j).period

/-- **A restart keeps what is granted apart**: an arbiter that starts is passive. -/
theorem Fences.restart (h : Fences lease s) : Fences lease (s.restarted i reboot a) where
  sound := Sound.restart ha h.sound
  under := h.under
  granted_le := h.granted_le
  fenced g hg j hj hactive := by
    rw [restarted_arbiter] at hactive
    split at hactive
    · rw [(onDisk_start ha).2.2.1] at hactive
      cases hactive
    · next hji =>
      have hboot : (s.restarted i reboot a).bootedAt j = s.bootedAt j := if_neg fun hc => hji hc.1
      unfold activeSince leaseEnds
      rw [hboot, restarted_arbiter, if_neg hji]
      exact h.fenced g hg j hj hactive
  apart := h.apart

end

/-- **Every step in which the tick comes first grants nothing without a lease.** -/
theorem underLease_step : (step.restrict tickComesFirst).Invariant (UnderLease lease) := by
  intro s action s' h hstep
  obtain ⟨hfirst, hstep⟩ := restrict_eq_some.mp hstep
  cases steps_of_step hstep with
  | advance hle =>
    exact ⟨fun j => { h.sound j with booted := (h.sound j).booted.trans hle }, h.under⟩
  | handle own he => exact h.emit (handles_own he hfirst)
  | deliver oldest he => exact h.emit (handles_delivered _ he hfirst)
  | cut => exact ⟨fun j => { h.sound j with }, h.under⟩
  | restart ha => exact ⟨Sound.restart ha h.sound, h.under⟩

/-- **Every such step keeps what is granted apart**, if the arbiters' own leases exclude each
other. -/
theorem fences_step : ((step.restrict tickComesFirst).restrict leasesExclude).Invariant (Fences lease) := by
  intro s action s' h hstep
  obtain ⟨hex, hstep⟩ := restrict_eq_some.mp hstep
  obtain ⟨hfirst, hstep⟩ := restrict_eq_some.mp hstep
  cases steps_of_step hstep with
  | advance hle =>
    exact { h with
      sound := fun j => { h.sound j with booted := (h.sound j).booted.trans hle }
      granted_le := fun g hg => (h.granted_le g hg).trans hle }
  | handle own he => exact h.emit (handles_own he hfirst) hex
  | deliver oldest he => exact h.emit (handles_delivered _ he hfirst) hex
  | cut => exact { h with sound := fun j => { h.sound j with } }
  | restart ha => exact h.restart ha

/-- A pool whose arbiters have just started has granted nothing. -/
theorem fences_start {config : Instance → ArbiterConfiguration} {store : Instance → Statements}
    {kept : Instance → Option LeasePromiseRecord} {bootedAt : Instance → Nat} {began : Nat}
    (hboot : ∀ i, bootedAt i ≤ began)
    (h : start lease config store kept bootedAt began = .ok s) : Fences lease s := by
  obtain ⟨one, h₁, h⟩ := bind_eq_ok.mp h
  obtain ⟨two, h₂, h⟩ := bind_eq_ok.mp h
  cases h
  refine
    { sound := fun i => ?_
      under := nofun
      granted_le := nofun
      fenced := nofun
      apart := List.Pairwise.nil }
  have hc : Configured lease i (configFor lease config i) := ⟨rfl, rfl, rfl⟩
  cases i with
  | one => exact Sound.of_start hc h₁ (hboot .one)
  | two => exact Sound.of_start hc h₂ (hboot .two)

/-! ## Every run -/

/-- A lease granted to a component has not run out at a time. -/
def unexpiredAt (lease : LeaseTiming) (g : ComponentGrant) (time : Nat) : Prop :=
  g.grantedAt ≤ time ∧ time < g.grantedAt + lease.terms.leasePeriod

/-- What was granted apart is never unexpired at the same time. -/
theorem Fences.not_both (h : Fences lease s) {g g' : ComponentGrant} (hg : g ∈ s.granted)
    (hg' : g' ∈ s.granted) (hne : g.arbiter ≠ g'.arbiter) (time : Nat) :
    ¬ (unexpiredAt lease g time ∧ unexpiredAt lease g' time) := by
  rintro ⟨⟨hle, hlt⟩, ⟨hle', hlt'⟩⟩
  -- whichever of the two came first had run out when the other was granted
  have hsymm : ∀ x ∈ s.granted, ∀ y ∈ s.granted, x.arbiter ≠ y.arbiter →
      y.grantedAt + lease.terms.leasePeriod ≤ x.grantedAt ∨
        x.grantedAt + lease.terms.leasePeriod ≤ y.grantedAt := by
    refine List.Pairwise.forall_of_forall_of_flip (fun x _ hx => absurd rfl hx)
      (h.apart.imp fun hxy hxne => .inl (hxy hxne)) (h.apart.imp fun hxy hxne => .inr (hxy (Ne.symm hxne)))
  rcases hsymm g hg g' hg' hne with hold | hold <;> omega

/-- **Component leases are granted only under the pool lease.** Take any run of the two arbiters,
whatever they handle, however long their threads are held up and whenever they restart, in which an
arbiter whose lease has run out handles the tick before anything else. Whenever one grants a
component a lease, its own is unexpired. And if in that run the arbiters' own leases exclude each
other, then leases the two have granted are never unexpired at the same time, for whichever pair and
instance. -/
theorem component_leases_under_the_pool_lease (lease : LeaseTiming)
    (config : Instance → ArbiterConfiguration) (store : Instance → Statements)
    (kept : Instance → Option LeasePromiseRecord) (bootedAt : Instance → Nat) (began : Nat)
    (actions : List PoolAction) {s₀ s : ArbiterPool} (hboot : ∀ i, bootedAt i ≤ began)
    (h₀ : start lease config store kept bootedAt began = .ok s₀)
    (hrun : (step.restrict tickComesFirst).run s₀ actions = some s) :
    (∀ g ∈ s.granted, g.underLease = true) ∧
      (((step.restrict tickComesFirst).restrict leasesExclude).run s₀ actions = some s →
        ∀ g ∈ s.granted, ∀ g' ∈ s.granted, g.arbiter ≠ g'.arbiter →
          ∀ time, ¬ (unexpiredAt lease g time ∧ unexpiredAt lease g' time)) := by
  have hstart := fences_start hboot h₀
  refine ⟨(underLease_step.run hstart.toUnderLease hrun).under, fun hex g hg g' hg' hne time => ?_⟩
  exact (fences_step.run hstart hex).not_both hg hg' hne time

/-! ## Runs -/

open LeaseTiming (threeSeconds)
open StatementKeeper (votesInSeven)

/-- The part an arbiter that has just started takes in the lease between the two. -/
def freshParticipant (i : Instance) : LeaseParticipant where
  selfId := i.id
  voter := { leasePeriod := 3000, quietUntil := 3000, highestEpoch := 0 }
  holder := { terms := threeSeconds.terms }
  peerStatements := .peerAlwaysMayLead

/-- An arbiter that has just started with an empty disk. The second one lets the first ask first. -/
def freshArbiter (i : Instance) : Arbiter where
  config := configFor threeSeconds (fun _ => votesInSeven) i
  poolLease :=
    { peerId := i.peer.id, thirdVoterId := 3, timing := threeSeconds
      participant := match i with
        | .one => freshParticipant .one
        | .two => (freshParticipant .two).stop 0 4000 }
  componentVoters := { leasePeriod := 3000 }
  peerContact := { timing := threeSeconds, lastHeard := 0 }
  store := ∅

/-- Two such arbiters. -/
def freshPool : ArbiterPool where
  now := 0
  bootedAt := fun _ => 0
  arbiter
    | .one => freshArbiter .one
    | .two => freshArbiter .two

/-- They do start so. -/
theorem start_eq_freshPool :
    start threeSeconds (fun _ => votesInSeven) (fun _ => ∅) (fun _ => none) (fun _ => 0) 0 =
      .ok freshPool := rfl

/-- The arbiters hear each other, and then the first one asks to be the active one and is granted it
by the other. -/
def becomesActive : List PoolAction :=
  [.handle .one (.connectionEstablished .outbound), .handle .two (.connectionEstablished .inbound),
    .advance 100, .handle .one (.tick 0), .deliver .one .outbound true, .handle .two (.tick 0),
    .deliver .two .inbound true, .advance 3000, .handle .one (.tick 0),
    .handle .two (.poolRequest 1 1 1 {}), .handle .one (.poolGrant true 2 1 1 0)]

/-- It renews its lease, and grants one to the leader of pair 7. -/
def renewsAndGrants : List PoolAction :=
  becomesActive ++ [.advance 4000, .handle .one (.tick 0), .handle .two (.poolRequest 1 1 3 {}),
      .handle .one (.poolGrant true 2 1 3 0), .advance 6000,
      .handle .one (.componentRequest StatementKeeper.leaderRequest true)]

/-- There are such runs in which a lease is granted. -/
theorem component_leases_under_the_pool_lease_renewsAndGrants :
    ∃ s, ((step.restrict tickComesFirst).restrict leasesExclude).run freshPool renewsAndGrants = some s ∧
      s.granted = [⟨.one, 7, 1, 6000, true, []⟩] ∧ (∀ g ∈ s.granted, g.underLease = true) ∧
      ∀ g ∈ s.granted, ∀ g' ∈ s.granted, g.arbiter ≠ g'.arbiter →
        ∀ time, ¬ (unexpiredAt threeSeconds g time ∧ unexpiredAt threeSeconds g' time) := by
  obtain ⟨s, hs, ht⟩ := exists_run_of_any
    ((step.restrict tickComesFirst).restrict leasesExclude) freshPool renewsAndGrants
    (fun s => s.granted = [⟨.one, 7, 1, 6000, true, []⟩]) (by decide)
  obtain ⟨hunder, hapart⟩ := component_leases_under_the_pool_lease _ _ _ _ _ _ _
    (fun _ => le_rfl) start_eq_freshPool (run_of_restrict hs)
  exact ⟨s, hs, ht, hunder, hapart hs⟩

/-- Its thread is held up: when it is back, its lease has run out, and a component's request is
ahead of the tick. -/
def heldUpAndGrants : List PoolAction :=
  becomesActive ++ [.advance 6000, .handle .one (.componentRequest StatementKeeper.leaderRequest true)]

/-- **A lease is granted by an arbiter whose own has run out.** -/
theorem grants_after_its_lease_ran_out :
    ∃ s, step.run freshPool heldUpAndGrants = some s ∧ ∃ g ∈ s.granted, g.underLease = false := by
  obtain ⟨s, hs, ht⟩ := exists_run_of_any step freshPool heldUpAndGrants
    (fun s => s.granted.any fun g => !g.underLease) (by decide)
  obtain ⟨g, hg, hno⟩ := List.any_eq_true.mp ht
  exact ⟨s, hs, g, hg, by simpa using hno⟩

end ArbiterPool

end PubsubVenue
