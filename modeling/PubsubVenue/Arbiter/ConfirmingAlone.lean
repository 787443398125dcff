import PubsubVenue.Arbiter.Effects
import PubsubVenue.Arbiter.PoolLease

/-! # Confirming alone is safe

An arbiter that has heard nothing from the other for `confirmsAloneAfter` confirms statements on its
own. One that becomes active works out from the echoes of its own heartbeats whether the other may
have done so. The echoes are send times on a clock that starts again when the machine reboots, and
the other arbiter goes on echoing the largest it has seen: after a reboot an arbiter can take a
moment of its machine's previous life for a fresh echo, and grant leases without a statement the
other confirmed (`grants_without_a_statement_confirmed_alone`). If no such echo is taken, and the
active flag and the saves of the other modules are in order, no lease is granted without such a
statement (`confirming_alone_is_safe`).

* **`Keeps`**: what an arbiter confirmed alone it holds, in memory and on disk.
* **`Times`**: what the send times received and echoed say about real time.
* **`Echoes`**: whatever was confirmed alone, the other holds it, or it is on its way to it ahead of
  the next echo, or it was confirmed `confirmsAloneAfter` after the moment echoed. -/

namespace PubsubVenue

open Arbiter List Instance StatementKeeper

/-- How long nothing must have been heard from the other arbiter before a confirmation is enough. -/
def LeaseTiming.confirmsAloneAfter (timing : LeaseTiming) : Nat :=
  2 * timing.terms.leasePeriod + timing.renewalInterval + timing.terms.leasePeriod

namespace Carried

/-- A message under way is a record that carries what was confirmed. -/
def Conveys (m : Carried) (c : AloneConfirmation) : Prop :=
  ∃ r, m.message = .stateRecord r ∧ r.Conveys c.pairId c.statement

/-- A heartbeat under way to a machine, if it echoes anything, echoes a moment since its boot. -/
def echoesSince (booted : Nat) (m : Carried) : Prop :=
  match m.message with
  | .heartbeat _ echoed => echoed ≠ 0 → booted < m.echoSentAt
  | .stateRecord _ => True

instance (booted : Nat) (m : Carried) : Decidable (m.echoesSince booted) := by
  unfold echoesSince
  split <;> infer_instance

/-- A newer statement under way to an arbiter is saved, or it is known already that what it holds is
not saved. -/
def savedBy (a : Arbiter) (saved : Bool) (m : Carried) : Prop :=
  match m.message with
  | .heartbeat _ _ => True
  | .stateRecord record => record.statement.leaderId ≠ 0 →
      record.statement.newerThan (a.componentVoters.statement record.pairId) = true →
      saved = true ∨ a.componentStatementsUnsaved = true

instance (a : Arbiter) (saved : Bool) (m : Carried) : Decidable (m.savedBy a saved) := by
  unfold savedBy
  split <;> infer_instance

/-- The oldest of the messages under way, if there is one, has a property. -/
def Oldest (p : Carried → Prop) : List Carried → Prop
  | [] => True
  | m :: _ => p m

instance (p : Carried → Prop) [DecidablePred p] : (ms : List Carried) → Decidable (Oldest p ms)
  | [] => .isTrue trivial
  | m :: _ => inferInstanceAs (Decidable (p m))

end Carried

namespace ArbiterPool

/-! ## The conditions -/

variable (s : ArbiterPool)

/-- A heartbeat that is handled echoes a moment since the boot of the machine that handles it. -/
def echoesThisBoot : PoolAction → Prop
  | .deliver i link _ => Carried.Oldest (Carried.echoesSince (s.bootedAt i.peer)) (s.channel i link)
  | _ => True

instance : (a : PoolAction) → Decidable (s.echoesThisBoot a)
  | .deliver .. => inferInstanceAs (Decidable (Carried.Oldest _ _))
  | .advance _ | .handle .. | .cut .. | .restart .. => .isTrue trivial

/-- A newer statement learnt from the other arbiter is saved, or it is known already that what is
held is not saved. -/
def savesRecords : PoolAction → Prop
  | .deliver i link saved =>
    Carried.Oldest (Carried.savedBy (s.arbiter i.peer) saved) (s.channel i link)
  | _ => True

instance : (a : PoolAction) → Decidable (s.savesRecords a)
  | .deliver .. => inferInstanceAs (Decidable (Carried.Oldest _ _))
  | .advance _ | .handle .. | .cut .. | .restart .. => .isTrue trivial

/-- What is required of every step. -/
def dependable (a : PoolAction) : Prop :=
  s.tickComesFirst a ∧ s.leasesExclude a ∧ s.savesRecords a ∧ s.echoesThisBoot a
  deriving Decidable

/-! ## The invariants -/

/-- An arbiter holds what was confirmed. -/
abbrev HoldsIt (x : Instance) (c : AloneConfirmation) : Prop :=
  (s.arbiter x).componentVoters.Holds c.pairId c.statement

/-- **What an arbiter has confirmed alone it holds**, in memory and on disk. -/
structure Keeps (s : ArbiterPool) (y : Instance) : Prop where
  onDisk : (s.arbiter y).OnDisk
  valid : (s.arbiter y).componentVoters.Valid
  held : ∀ c ∈ s.confirmedAlone y, s.HoldsIt y c
  votes : ∀ c ∈ s.confirmedAlone y, (s.arbiter y).votesIn c.pairId = true
  filed : ∀ c ∈ s.confirmedAlone y, ∃ d, (s.arbiter y).store.lookup c.pairId = some d ∧ d.Valid ∧
    d.AtLeast c.statement
  past : ∀ c ∈ s.confirmedAlone y, c.confirmedAt ≤ s.now
  /-- What it has sent to the other names valid statements only. -/
  sent : ∀ link, ∀ m ∈ s.channel y link, ∀ r, m.message = .stateRecord r →
    r.statement.leaderId ≠ 0 → r.statement.Valid

/-- **What send times say about real time**, of an arbiter `x` and its peer `y`. -/
structure Times (lease : LeaseTiming) (s : ArbiterPool) (x y : Instance) : Prop where
  timing : (s.arbiter x).peerContact.timing = lease
  heard : s.bootedAt x + (s.arbiter x).peerContact.lastHeard ≤ s.now
  /-- The heartbeat received was sent before anything was last heard. -/
  received : s.receivedSentAt x ≤ s.bootedAt x + (s.arbiter x).peerContact.lastHeard
  /-- Its send time is on the clock of the sender's present boot, if it was sent since then. -/
  receivedValue : s.bootedAt y < s.receivedSentAt x →
    (s.arbiter x).peerContact.newestReceived = (s.receivedSentAt x : Int) - s.bootedAt y
  sent_le : ∀ link, ∀ m ∈ s.channel x link, m.sentAt ≤ s.now ∧
    m.echoSentAt ≤ s.bootedAt x + (s.arbiter x).peerContact.lastHeard
  sentValue : ∀ link, ∀ m ∈ s.channel x link, ∀ sentAt echoed, m.message = .heartbeat sentAt echoed →
      (s.bootedAt x < m.sentAt → sentAt = (m.sentAt : Int) - s.bootedAt x) ∧
      (s.bootedAt y < m.echoSentAt → echoed = (m.echoSentAt : Int) - s.bootedAt y)

/-- **What an arbiter `x` has of what its peer `y` confirmed alone.** -/
structure Echoes (lease : LeaseTiming) (s : ArbiterPool) (x y : Instance) : Prop where
  /-- What it lacks was confirmed long after the moment echoed. -/
  echo : (s.arbiter x).peerContact.newestEcho = 0 ∨
    ∃ sentAt : Nat, (s.arbiter x).peerContact.newestEcho = (sentAt : Int) - s.bootedAt x ∧
      sentAt ≤ s.bootedAt y + (s.arbiter y).peerContact.lastHeard ∧
      ∀ c ∈ s.confirmedAlone y, s.HoldsIt x c ∨ sentAt + lease.confirmsAloneAfter ≤ c.confirmedAt
  /-- The same will hold when a heartbeat under way arrives. -/
  queued : ∀ link earlier m later, s.channel y link = earlier ++ m :: later →
    ∀ sentAt echoed, m.message = .heartbeat sentAt echoed → s.bootedAt x < m.echoSentAt →
      ∀ c ∈ s.confirmedAlone y, s.HoldsIt x c ∨ (∃ m' ∈ earlier, m'.Conveys c) ∨
        m.echoSentAt + lease.confirmsAloneAfter ≤ c.confirmedAt
  /-- What has not been sent on a connection is owed on it. -/
  owed : ∀ link, s.live y link = true → (s.arbiter y).owes link = true ∨
    ∀ c ∈ s.confirmedAlone y, s.HoldsIt x c ∨ ∃ m ∈ s.channel y link, m.Conveys c
  /-- An active arbiter that does not take itself to be behind holds everything, unless its lease
  has run out. -/
  notBehind : (s.arbiter x).componentVoters.active = true → (s.arbiter x).mayBeBehind = false →
    s.RanOut x ∨ ∀ c ∈ s.confirmedAlone y, s.HoldsIt x c

/-- **The invariant of the pool.** -/
structure Dependable (lease : LeaseTiming) (s : ArbiterPool) : Prop where
  sound : ∀ x, Sound lease s x
  keeps : ∀ x, Keeps s x
  times : ∀ x, Times lease s x x.peer
  echoes : ∀ x, Echoes lease s x x.peer
  granted : ∀ g ∈ s.granted, g.lacking = []

variable {lease : LeaseTiming} {s : ArbiterPool} {x y : Instance}

/-- **An arbiter with a fresh echo lacks nothing.** -/
theorem Echoes.holds_of_fresh (h : Echoes lease s x y) (ht : Times lease s x y) (hy : Keeps s y)
    (hfresh : (s.arbiter x).peerContact.mayBeBehind (s.clock x) = false) :
    ∀ c ∈ s.confirmedAlone y, s.HoldsIt x c := by
  intro c hc
  unfold ArbiterPeerContact.mayBeBehind ArbiterPeerContact.mayBeBehindAfter at hfresh
  rw [Bool.or_eq_false_iff, decide_eq_false_iff_not, decide_eq_false_iff_not, ht.timing] at hfresh
  obtain ⟨hne, hnew⟩ := hfresh
  rcases h.echo with hzero | ⟨sentAt, hvalue, -, hall⟩
  · exact absurd hzero hne
  refine (hall c hc).resolve_right fun hlate => ?_
  have hpast := hy.past c hc
  unfold LeaseTiming.confirmsAloneAfter at hlate
  rw [hvalue] at hnew
  unfold clock at hnew
  push_cast at hnew
  omega

/-! ## Events -/

/-- How an event comes to an arbiter: on its own, or as the oldest message of a connection. -/
structure Arrival (s s₁ : ArbiterPool) (z : Instance) (event : ArbiterEvent) : Prop where
  confirmed : s₁.confirmedAlone = s.confirmedAlone
  own : ∀ link, s₁.channel z link = s.channel z link
  other : ∀ link, s₁.channel z.peer link = s.channel z.peer link ∨
    ∃ m saved, s.channel z.peer link = m :: s₁.channel z.peer link ∧ event = m.message.event saved
  live : ∀ link, s₁.live z link = true → s.live z link = true ∨ event = .connectionEstablished link
  livePeer : ∀ link, s₁.live z.peer link = s.live z.peer link
  receivedPeer : s₁.receivedSentAt z.peer = s.receivedSentAt z.peer
  receivedSame : (∀ sentAt echoed, event ≠ .heartbeat sentAt echoed) →
    s₁.receivedSentAt z = s.receivedSentAt z
  heartbeat : ∀ sentAt echoed, event = .heartbeat sentAt echoed →
    ∃ link m rest, m.message = .heartbeat sentAt echoed ∧ s.channel z.peer link = m :: rest ∧
      m.echoesSince (s.bootedAt z) ∧ s₁.receivedSentAt z =
        if sentAt > (s.arbiter z).peerContact.newestReceived then m.sentAt else s.receivedSentAt z
  record : ∀ r saved, event = .stateRecord r saved →
    ∃ link, ∃ m ∈ s.channel z.peer link, m.message = .stateRecord r
  saved : ∀ r saved, event = .stateRecord r saved → r.statement.leaderId ≠ 0 →
    r.statement.newerThan ((s.arbiter z).componentVoters.statement r.pairId) = true →
    saved = true ∨ (s.arbiter z).componentStatementsUnsaved = true

/-- An event that does not come over a connection to the other arbiter. -/
theorem arrival_own {z : Instance} {event : ArbiterEvent} (hown : event.carried = false) :
    Arrival s (s.connect z event) z event where
  confirmed := by cases event <;> rfl
  own _ := by cases event <;> rfl
  other _ := .inl (by cases event <;> rfl)
  live link hl := by
    cases event with
    | connectionEstablished =>
      simp only [connect] at hl
      split at hl
      · next hc =>
        right
        rw [hc.2]
      · exact .inl hl
    | _ => exact .inl hl
  livePeer link := by
    cases event with
    | connectionEstablished => exact if_neg fun hc => z.peer_ne hc.1
    | _ => rfl
  receivedPeer := by cases event <;> rfl
  receivedSame _ := by cases event <;> rfl
  heartbeat _ _ h := by rw [h] at hown; cases hown
  record _ _ h := by rw [h] at hown; cases hown
  saved _ _ h := by rw [h] at hown; cases hown

variable {m : Carried} {i : Instance} {saved : Bool}

/-- The oldest message of a connection. -/
theorem arrival_delivered {link : PeerLink} {rest : List Carried} (hm : s.channel i link = m :: rest)
    (hsaves : s.savesRecords (.deliver i link saved)) (hecho : s.echoesThisBoot (.deliver i link saved)) :
    Arrival s (s.taken i link m rest) i.peer (m.message.event saved) := by
  have hecho' : m.echoesSince (s.bootedAt i.peer) := by
    have : Carried.Oldest (Carried.echoesSince (s.bootedAt i.peer)) (s.channel i link) := hecho
    rw [hm] at this
    exact this
  have hsaves' : m.savedBy (s.arbiter i.peer) saved := by
    have : Carried.Oldest (Carried.savedBy (s.arbiter i.peer) saved) (s.channel i link) := hsaves
    rw [hm] at this
    exact this
  have htaken : (s.taken i link m rest).channel i link = rest := if_pos ⟨rfl, rfl⟩
  refine
    { confirmed := rfl
      own := fun _ => if_neg fun hc => i.peer_ne hc.1
      other := fun l => ?_
      live := fun _ hl => .inl hl
      livePeer := fun _ => rfl
      receivedPeer := if_neg fun hc => i.peer.peer_ne hc
      receivedSame := fun hne => ?_
      heartbeat := fun sentAt echoed he => ?_
      record := fun r saved' he => ?_
      saved := fun r saved' he => ?_ }
  · rw [peer_peer]
    by_cases hl : l = link
    · subst hl
      exact .inr ⟨m, saved, by rw [htaken, hm], rfl⟩
    · exact .inl (if_neg fun hc => hl hc.2)
  · change (if i.peer = i.peer then _ else _) = _
    rw [if_pos rfl]
    cases hmsg : m.message with
    | heartbeat sentAt echoed => exact absurd (by rw [hmsg]; rfl) (hne sentAt echoed)
    | stateRecord => rfl
  · have hmsg : m.message = .heartbeat sentAt echoed := by
      cases hmsg : m.message <;> rw [hmsg] at he <;> cases he
      rfl
    refine ⟨link, m, rest, hmsg, by rw [peer_peer]; exact hm, hecho', ?_⟩
    change (if i.peer = i.peer then _ else _) = _
    rw [if_pos rfl, hmsg]
  · have hmsg : m.message = .stateRecord r := by
      cases hmsg : m.message <;> rw [hmsg] at he <;> cases he
      rfl
    exact ⟨link, m, by rw [peer_peer, hm]; exact mem_cons_self, hmsg⟩
  · have hmsg : m.message = .stateRecord r ∧ saved' = saved := by
      cases hmsg : m.message <;> rw [hmsg] at he <;> cases he
      exact ⟨rfl, rfl⟩
    unfold Carried.savedBy at hsaves'
    rw [hmsg.1] at hsaves'
    rw [hmsg.2]
    exact hsaves'

/-! ### What is there after an event -/

variable {s₁ : ArbiterPool} {z : Instance} {event : ArbiterEvent} {out : List ArbiterOutput}
  {a : Arbiter} {link : PeerLink}

/-- **What an event leaves**: the arbiter that handled it, and the other, the boots and the time as
they were. -/
theorem Handles.emit_spec (he : Handles s s₁ z event out a) :
    (s₁.emit z a out).arbiter z = a ∧ (s₁.emit z a out).arbiter z.peer = s.arbiter z.peer ∧
      (∀ j, (s₁.emit z a out).bootedAt j = s.bootedAt j) ∧ (s₁.emit z a out).now = s.now := by
  refine ⟨?_, ?_, congrFun he.bootedAt, he.now⟩
  · rw [emit_arbiter, if_pos rfl]
  · rw [emit_arbiter, if_neg z.peer_ne, he.arbiter]

/-- The other arbiter's messages are not touched. -/
theorem emit_channel_peer : (s₁.emit z a out).channel z.peer link = s₁.channel z.peer link :=
  if_neg fun hc => z.peer_ne hc.1

/-- What is under way from an arbiter after an event is what was, and what it sends. -/
theorem emit_channel_self : (s₁.emit z a out).channel z link = if s₁.live z link = true then
      s₁.channel z link ++ (messagesOn link out).map fun m => ⟨m, s₁.now, s₁.receivedSentAt z⟩
    else s₁.channel z link := by
  change (if z = z ∧ s₁.live z link = true then _ else _) = _
  by_cases hl : s₁.live z link = true
  · rw [if_pos ⟨rfl, hl⟩, if_pos hl]
  · rw [if_neg fun hc => hl hc.2, if_neg hl]

/-- A message under way after an event was under way, or is sent now. -/
theorem mem_emit_channel (h : m ∈ (s₁.emit z a out).channel z link) : m ∈ s₁.channel z link ∨
      m.message ∈ messagesOn link out ∧ m = ⟨m.message, s₁.now, s₁.receivedSentAt z⟩ := by
  rw [emit_channel_self] at h
  split at h
  · rcases mem_append.mp h with h | h
    · exact .inl h
    · obtain ⟨msg, hmsg, rfl⟩ := mem_map.mp h
      exact .inr ⟨hmsg, rfl⟩
  · exact .inl h

/-- What was under way still is. -/
theorem mem_emit_channel_of_mem (h : m ∈ s₁.channel z link) : m ∈ (s₁.emit z a out).channel z link := by
  rw [emit_channel_self]
  split
  · exact mem_append_left _ h
  · exact h

/-- What is under way from the other arbiter was under way. -/
theorem Arrival.mem_channel_peer (ha : Arrival s s₁ z event)
    (hm : m ∈ (s₁.emit z a out).channel z.peer link) : m ∈ s.channel z.peer link := by
  rw [emit_channel_peer] at hm
  rcases ha.other link with hsame | ⟨m', saved, hcons, -⟩
  · rw [← hsame]
    exact hm
  · rw [hcons]
    exact mem_cons_of_mem _ hm

/-- What the other arbiter confirmed is not touched. -/
theorem Arrival.confirmedAlone_peer (ha : Arrival s s₁ z event) :
    (s₁.emit z a out).confirmedAlone z.peer = s.confirmedAlone z.peer :=
  (if_neg z.peer_ne).trans (congrFun ha.confirmed _)

variable {c : AloneConfirmation}

section

variable (he : Handles s s₁ z event out a) (ha : Arrival s s₁ z event)

/-- What an arbiter has confirmed after an event. -/
theorem mem_emit_confirmedAlone : c ∈ (s₁.emit z a out).confirmedAlone z ↔
      (∃ p st, .statementHeld p st true ∈ out ∧ c = ⟨p, st, s₁.now⟩) ∨ c ∈ s₁.confirmedAlone z := by
  change c ∈ (if z = z then s₁.aloneIn out ++ s₁.confirmedAlone z else _) ↔ _
  rw [if_pos rfl, mem_append]
  refine or_congr_left ?_
  unfold aloneIn
  rw [mem_filterMap]
  constructor
  · rintro ⟨o, ho, hc⟩
    cases o with
    | statementHeld p st alone =>
      cases alone with
      | true => exact ⟨p, st, ho, (Option.some.inj hc).symm⟩
      | false => cases hc
    | grant | refusal | toPeer => cases hc
  · rintro ⟨p, st, ho, rfl⟩
    exact ⟨_, ho, rfl⟩

include he ha in
/-- **An arbiter keeps what it confirmed alone, whatever it handles.** -/
theorem Keeps.emit_self (h : Keeps s z) (hz : Sound lease s z) (hpeer : Keeps s z.peer) :
    Keeps (s₁.emit z a out) z := by
  have heff := effect_handle hz.wellFormed he.handled
  obtain ⟨hdisk, hconf⟩ := onDisk_handle hz.wellFormed h.onDisk ha.saved he.handled
  have hvalid : a.componentVoters.Valid := by
    refine heff.valid h.valid fun r saved hr hlead => ?_
    obtain ⟨link, m, hm, hmsg⟩ := ha.record r saved hr
    exact hpeer.sent link m hm r hmsg hlead
  obtain ⟨hself, -⟩ := he.emit_spec
  -- what is held is held by a statement that can be read back
  have hfiled : ∀ p st, a.componentVoters.Holds p st → (a.componentVoters.statement p).Valid ∧
        a.componentVoters.statements.lookup p = some (a.componentVoters.statement p) := by
    intro p st hst
    refine ⟨(hvalid p).resolve_left fun hnone => hst.1 (by rw [hnone]), ?_⟩
    exact ComponentLeaseVoters.lookup_statements hst.1
  have hold : ∀ c ∈ s₁.confirmedAlone z, c ∈ s.confirmedAlone z := fun c hc => by
    rw [ha.confirmed] at hc
    exact hc
  have hconfig : a.config = (s.arbiter z).config :=
    (term_handle hz.wellFormed he.handled).config
  have hheld : ∀ c ∈ (s₁.emit z a out).confirmedAlone z, a.componentVoters.Holds c.pairId c.statement := by
    intro c hc
    rcases mem_emit_confirmedAlone.mp hc with ⟨p, st, ho, rfl⟩ | hc
    · exact (heff.alone p st ho).2.2.2.1
    · exact heff.grows _ _ (h.held c (hold c hc))
  refine ⟨?_, ?_, fun c hc => ?_, fun c hc => ?_, fun c hc => ?_, fun c hc => ?_,
    fun link m hm r hmsg hlead => ?_⟩
  · rw [hself]
    exact hdisk
  · rw [hself]
    exact hvalid
  · unfold HoldsIt
    rw [hself]
    exact hheld c hc
  · rw [hself]
    unfold votesIn
    rw [hconfig]
    rcases mem_emit_confirmedAlone.mp hc with ⟨p, st, ho, rfl⟩ | hc
    · exact (heff.alone p st ho).2.2.1
    · exact h.votes c (hold c hc)
  · rw [hself]
    have hholds := hheld c hc
    obtain ⟨hv, hl⟩ := hfiled _ _ hholds
    rcases heff.store with hstore | hstore
    · rcases mem_emit_confirmedAlone.mp hc with ⟨p, st, ho, rfl⟩ | hc
      · obtain ⟨hd, -⟩ := hconf p st true ho
        exact ⟨_, hd, hv, hholds.2⟩
      · rw [hstore]
        exact h.filed c (hold c hc)
    · rw [hstore]
      exact ⟨_, hl, hv, hholds.2⟩
  · change c.confirmedAt ≤ s₁.now
    rcases mem_emit_confirmedAlone.mp hc with ⟨p, st, ho, rfl⟩ | hc
    · exact le_rfl
    · rw [he.now]
      exact h.past c (hold c hc)
  · rcases mem_emit_channel hm with hm | ⟨hm, -⟩
    · rw [ha.own] at hm
      exact h.sent link m hm r hmsg hlead
    · rw [hmsg] at hm
      have hr := heff.records link r hm
      rw [hr] at hlead ⊢
      exact (hvalid r.pairId).resolve_left fun hnone => hlead (by rw [hnone])

include he ha in
/-- The other arbiter keeps what it confirmed. -/
theorem Keeps.emit_peer (h : Keeps s z.peer) : Keeps (s₁.emit z a out) z.peer := by
  obtain ⟨-, hsame, -, hnow⟩ := he.emit_spec
  refine ⟨?_, ?_, ?_, ?_, ?_, ?_, fun link m hm => h.sent link m (ha.mem_channel_peer hm)⟩
  all_goals try unfold HoldsIt
  all_goals try rw [hsame]
  all_goals try rw [ha.confirmedAlone_peer]
  · exact h.onDisk
  · exact h.valid
  · exact h.held
  · exact h.votes
  · exact h.filed
  · rw [hnow]
    exact h.past

/-- What a message does to when something was last heard. -/
theorem le_lastHeard_heard (p : ArbiterPeerContact) (now : Nat) :
    p.lastHeard ≤ (p.heard now).lastHeard ∧ now ≤ (p.heard now).lastHeard ∧
      ((p.heard now).lastHeard = now ∨ (p.heard now).lastHeard = p.lastHeard) := by
  unfold ArbiterPeerContact.heard
  dsimp only
  split
  · exact ⟨by omega, le_rfl, .inl rfl⟩
  · exact ⟨le_rfl, by omega, .inr rfl⟩

/-- **What is heard is heard now**: an event never makes an arbiter have heard less, nor anything
that was not heard by now. -/
theorem lastHeard_effect {a' : Arbiter} {now : Nat} (h : Effect a now event out a') :
    a'.peerContact.timing = a.peerContact.timing ∧ a.peerContact.lastHeard ≤ a'.peerContact.lastHeard ∧
      (a'.peerContact.lastHeard = now ∨ a'.peerContact.lastHeard = a.peerContact.lastHeard) ∧
      ((∃ sentAt echoed, event = .heartbeat sentAt echoed) → now ≤ a'.peerContact.lastHeard) := by
  obtain ⟨hle, hnow, heq⟩ := le_lastHeard_heard a.peerContact now
  rcases h.contact with ⟨sentAt, echoed, -, hc⟩ | ⟨hne, hc | hc⟩
  · obtain ⟨hle', hnow', heq'⟩ := le_lastHeard_heard (a.peerContact.heard now) now
    rw [hc]
    refine ⟨rfl, hle.trans hle', ?_, fun _ => hnow'⟩
    rcases heq' with heq' | heq'
    · exact .inl heq'
    · rcases heq with heq | heq
      · exact .inl (heq'.trans heq)
      · exact .inr (heq'.trans heq)
  · rw [hc]
    exact ⟨rfl, le_rfl, .inr rfl, fun ⟨sentAt, echoed, he⟩ => absurd he (hne sentAt echoed)⟩
  · rw [hc]
    exact ⟨rfl, hle, heq, fun _ => hnow⟩

include he ha in
/-- **Send times keep their meaning**, for the arbiter that handles an event. -/
theorem Times.emit_self (h : Times lease s z z.peer) (hz : Sound lease s z)
    (hpeer : Times lease s z.peer z) : Times lease (s₁.emit z a out) z z.peer := by
  have heff := effect_handle hz.wellFormed he.handled
  obtain ⟨htiming, hmono, hheard, hhb⟩ := lastHeard_effect heff
  obtain ⟨hself, -, hboot, hnow⟩ := he.emit_spec
  have hb := hz.booted
  have hclock : s.bootedAt z + s.clock z = s.now := by
    unfold clock
    omega
  -- the newest heartbeat received, and when it was sent
  have hreceived : s₁.receivedSentAt z ≤ s.bootedAt z + a.peerContact.lastHeard ∧
      (s.bootedAt z.peer < s₁.receivedSentAt z →
        a.peerContact.newestReceived = (s₁.receivedSentAt z : Int) - s.bootedAt z.peer) := by
    have hle := h.received
    rcases heff.contact with ⟨sentAt, echoed, hev, hc⟩ | ⟨hne, hc⟩
    · obtain ⟨link, m, rest, hmsg, hch, -, hr⟩ := ha.heartbeat sentAt echoed hev
      have hm : m ∈ s.channel z.peer link := by rw [hch]; exact mem_cons_self
      have hlast := hhb ⟨sentAt, echoed, hev⟩
      have hnewest : a.peerContact.newestReceived =
        if sentAt > (s.arbiter z).peerContact.newestReceived then sentAt
          else (s.arbiter z).peerContact.newestReceived := by rw [hc]; rfl
      rw [hr, hnewest]
      split
      · have hsent := (hpeer.sent_le link m hm).1
        exact ⟨by omega, (hpeer.sentValue link m hm sentAt echoed hmsg).1⟩
      · exact ⟨by omega, h.receivedValue⟩
    · have hnewest : a.peerContact.newestReceived = (s.arbiter z).peerContact.newestReceived := by
        rcases hc with hc | hc
        · rw [hc]
        · rw [hc]
          rfl
      rw [ha.receivedSame hne, hnewest]
      exact ⟨by omega, h.receivedValue⟩
  refine
    { timing := by rw [hself, htiming]; exact h.timing
      heard := ?_
      received := by rw [hself, hboot]; exact hreceived.1
      receivedValue := by rw [hself, hboot]; exact hreceived.2
      sent_le := fun link m hm => ?_
      sentValue := fun link m hm sentAt echoed hmsg => ?_ }
  · have := h.heard
    rw [hself, hboot, hnow]
    omega
  · rw [hself, hboot, hnow]
    rcases mem_emit_channel hm with hm | ⟨-, hm⟩
    · rw [ha.own] at hm
      obtain ⟨h₁, h₂⟩ := h.sent_le link m hm
      exact ⟨h₁, by omega⟩
    · rw [hm]
      exact ⟨le_of_eq he.now, hreceived.1⟩
  · rw [hboot, hboot]
    rcases mem_emit_channel hm with hm | ⟨hmem, hm⟩
    · rw [ha.own] at hm
      exact h.sentValue link m hm sentAt echoed hmsg
    · rw [hmsg] at hmem
      obtain ⟨earlier, later, hsplit⟩ := append_of_mem hmem
      obtain ⟨hat, hecho, -⟩ := heff.heartbeats link earlier sentAt echoed later hsplit
      rw [hm, hat, hecho]
      refine ⟨fun _ => ?_, hreceived.2⟩
      dsimp only
      rw [he.now]
      omega

include he ha in
/-- Send times keep their meaning, for the other arbiter. -/
theorem Times.emit_peer (h : Times lease s z.peer z) : Times lease (s₁.emit z a out) z.peer z := by
  obtain ⟨-, hsame, hboot, hnow⟩ := he.emit_spec
  have hreceived : (s₁.emit z a out).receivedSentAt z.peer = s.receivedSentAt z.peer :=
    ha.receivedPeer
  refine ⟨?_, ?_, ?_, ?_, fun link m hm => ?_, fun link m hm => ?_⟩
  · rw [hsame]
    exact h.timing
  · rw [hsame, hboot, hnow]
    exact h.heard
  · rw [hsame, hboot, hreceived]
    exact h.received
  · rw [hsame, hboot, hreceived]
    exact h.receivedValue
  · rw [hsame, hboot, hnow]
    exact h.sent_le link m (ha.mem_channel_peer hm)
  · rw [hboot, hboot]
    exact h.sentValue link m (ha.mem_channel_peer hm)

/-- What is held is held as an earlier statement, too. -/
theorem holds_of_atLeast {c : ComponentLeaseVoters} {p : Int} {st st' : LeaderStatement}
    (h : c.Holds p st) (hle : st.AtLeast st') : c.Holds p st' := ⟨h.1, h.2.trans hle⟩

include he in
/-- What an arbiter held before an event it holds after it. -/
theorem Handles.grows (hz : Sound lease s z) (hc : s.HoldsIt z c) : (s₁.emit z a out).HoldsIt z c := by
  unfold HoldsIt
  rw [he.emit_spec.1]
  exact (effect_handle hz.wellFormed he.handled).grows _ _ hc

include he in
/-- **What arrives is learnt.** -/
theorem Handles.learns (hz : Sound lease s z) (hk : Keeps s z) (hpeer : Keeps s z.peer)
    (hm : m ∈ s.channel z.peer link) (hev : event = m.message.event saved) (hc : m.Conveys c) :
    (s₁.emit z a out).HoldsIt z c := by
  have heff := effect_handle hz.wellFormed he.handled
  obtain ⟨r, hmsg, hp, hlead, hle⟩ := hc
  rw [hmsg] at hev
  have hheld := heff.learns hk.valid r saved hev (hpeer.sent link m hm r hmsg hlead)
  unfold HoldsIt
  rw [he.emit_spec.1, ← hp]
  exact holds_of_atLeast hheld hle

include he ha in
/-- **What an event takes from a connection** is what was first under way there, and what it conveys
is held from then on. -/
theorem Arrival.arrived (hz : Sound lease s z) (hk : Keeps s z) (hpeer : Keeps s z.peer) (link : PeerLink) :
    ∃ front, s.channel z.peer link = front ++ (s₁.emit z a out).channel z.peer link ∧
      ∀ m ∈ front, ∀ c, m.Conveys c → (s₁.emit z a out).HoldsIt z c := by
  rw [emit_channel_peer]
  rcases ha.other link with hsame | ⟨m, saved, hcons, hev⟩
  · exact ⟨[], hsame.symm, nofun⟩
  · refine ⟨[m], hcons, fun m' hm' c hc => ?_⟩
    rw [mem_singleton.mp hm'] at hc
    exact he.learns hz hk hpeer (hcons ▸ mem_cons_self) hev hc

include he ha in
/-- **The moment echoed** after an event is the one echoed before, or comes with the heartbeat that
was first under way on a connection. -/
theorem Arrival.newestEcho_cases (hz : Sound lease s z) :
    a.peerContact.newestEcho = (s.arbiter z).peerContact.newestEcho ∨
      ∃ link m rest sentAt, s.channel z.peer link = m :: rest ∧
        m.message = .heartbeat sentAt a.peerContact.newestEcho ∧ m.echoesSince (s.bootedAt z) := by
  rcases (effect_handle hz.wellFormed he.handled).contact with
    ⟨sentAt, echoed, hev, hcontact⟩ | ⟨-, hcontact | hcontact⟩
  · have hnewest : a.peerContact.newestEcho = if echoed > (s.arbiter z).peerContact.newestEcho then echoed
        else (s.arbiter z).peerContact.newestEcho := by rw [hcontact]; rfl
    split at hnewest
    · obtain ⟨link, m, rest, hmsg, hch, hsince, -⟩ := ha.heartbeat sentAt echoed hev
      exact .inr ⟨link, m, rest, sentAt, hch, by rw [hmsg, hnewest], hsince⟩
    · exact .inl hnewest
  · exact .inl (by rw [hcontact])
  · exact .inl (by rw [hcontact]; rfl)

include he ha in
/-- **What the arbiter that handles an event has of what the other confirmed.** -/
theorem Echoes.emit_self (h : Echoes lease s z z.peer) (hz : Sound lease s z)
    (htimes : Times lease s z z.peer) (hpeer : Times lease s z.peer z) (hk : Keeps s z)
    (hkpeer : Keeps s z.peer) : Echoes lease (s₁.emit z a out) z z.peer := by
  obtain ⟨hself, hother, hboot, -⟩ := he.emit_spec
  refine
    { echo := ?_
      queued := fun link earlier m later hch sentAt echoed hmsg hsince c hc => ?_
      owed := fun link hlive => ?_
      notBehind := fun hactive hflag => ?_ }
  · rw [hself, hother, ha.confirmedAlone_peer, hboot, hboot]
    rcases ha.newestEcho_cases he hz with hsame | ⟨link, m, rest, sentAt, hch, hmsg, hsince⟩
    · rw [hsame]
      exact h.echo.imp_right fun ⟨sentAt, hv, hle, hall⟩ =>
        ⟨sentAt, hv, hle, fun c hc => (hall c hc).imp_left (he.grows hz)⟩
    · by_cases hzero : a.peerContact.newestEcho = 0
      · exact .inl hzero
      -- nothing is under way before the heartbeat, so what was known of it while it was is all
      -- there is
      have hm : m ∈ s.channel z.peer link := hch ▸ mem_cons_self
      unfold Carried.echoesSince at hsince
      rw [hmsg] at hsince
      refine .inr ⟨m.echoSentAt, (hpeer.sentValue link m hm sentAt _ hmsg).2 (hsince hzero),
        (hpeer.sent_le link m hm).2, fun c hc => ?_⟩
      rcases h.queued link [] m rest hch sentAt _ hmsg (hsince hzero) c hc with
        hheld | ⟨m', hm', -⟩ | hlate
      · exact .inl (he.grows hz hheld)
      · exact (not_mem_nil hm').elim
      · exact .inr hlate
  · rw [ha.confirmedAlone_peer] at hc
    rw [hboot] at hsince
    obtain ⟨front, hfront, hlearnt⟩ := ha.arrived he hz hk hkpeer link
    rw [hch, ← append_assoc] at hfront
    rcases h.queued link _ m later hfront sentAt echoed hmsg hsince c hc with
      hheld | ⟨m', hm', hconv⟩ | hlate
    · exact .inl (he.grows hz hheld)
    · rcases mem_append.mp hm' with hm' | hm'
      · exact .inl (hlearnt m' hm' c hconv)
      · exact .inr (.inl ⟨m', hm', hconv⟩)
    · exact .inr (.inr hlate)
  · rw [hother, ha.confirmedAlone_peer]
    obtain ⟨front, hfront, hlearnt⟩ := ha.arrived he hz hk hkpeer link
    refine (h.owed link ((ha.livePeer link).symm.trans hlive)).imp_right fun hall c hc => ?_
    rcases hall c hc with hheld | ⟨m, hm, hconv⟩
    · exact .inl (he.grows hz hheld)
    · rw [hfront] at hm
      rcases mem_append.mp hm with hm | hm
      · exact .inl (hlearnt m hm c hconv)
      · exact .inr ⟨m, hm, hconv⟩
  · rw [hself] at hactive hflag
    rw [ha.confirmedAlone_peer]
    right
    rcases (effect_handle hz.wellFormed he.handled).behind hactive hflag with ⟨hwas, hnot⟩ | hfresh
    · rcases h.notBehind hwas hnot with hran | hall
      · -- its lease had run out, so the event was the tick that ended its time
        obtain ⟨wait, rfl⟩ := he.tickFirst.resolve_right (not_not.mpr hran)
        rw [passive_of_tick hz.agrees hz.wellFormed he.handled hran.2] at hactive
        cases hactive
      · exact fun c hc => he.grows hz (hall c hc)
    · exact fun c hc => he.grows hz (h.holds_of_fresh htimes hkpeer hfresh c hc)

/-- An element of two lists one after the other is in the first or in the second. -/
theorem split_append {α : Type} {l n e r : List α} {m : α} (h : l ++ n = e ++ m :: r) :
    (∃ r', l = e ++ m :: r') ∨ ∃ e', e = l ++ e' ∧ n = e' ++ m :: r := by
  rcases append_eq_append_iff.mp h with ⟨e', he, hn⟩ | ⟨c, hl, hc⟩
  · exact .inr ⟨e', he, hn⟩
  · cases c with
    | nil =>
      rw [append_nil] at hl
      exact .inr ⟨[], by rw [hl, append_nil], hc.symm⟩
    | cons x c =>
      obtain ⟨rfl, -⟩ := cons.inj hc
      exact .inl ⟨c, hl⟩

/-- What is confirmed alone is confirmed long after anything was last heard. -/
theorem late_of_alone (hz : Sound lease s z) (htimes : Times lease s z z.peer)
    (hmay : (s.arbiter z).peerContact.mayConfirmAlone (s.clock z) = true) :
    s.bootedAt z + (s.arbiter z).peerContact.lastHeard + lease.confirmsAloneAfter ≤ s.now := by
  unfold ArbiterPeerContact.mayConfirmAlone ArbiterPeerContact.confirmsAloneAfter
    ArbiterPeerContact.mayBeBehindAfter at hmay
  rw [decide_eq_true_eq, htimes.timing] at hmay
  have hb := hz.booted
  unfold clock at hmay
  unfold LeaseTiming.confirmsAloneAfter
  push_cast at hmay
  omega

/-- Messages that carry every statement carry what was confirmed. -/
theorem conveyed_of_carriedBy {ms : List PeerMessage} {now echo : Nat}
    (h : (s.arbiter z).componentVoters.CarriedBy ms) (hc : s.HoldsIt z c) :
    ∃ m ∈ ms.map (fun m => (⟨m, now, echo⟩ : Carried)), m.Conveys c := by
  obtain ⟨r, hr, hconv⟩ := h _ _ hc
  exact ⟨_, mem_map.mpr ⟨_, hr, rfl⟩, r, rfl, hconv⟩

include ha in
/-- **A message under way after an event** was under way before it, or is sent now, behind all that
were. -/
theorem Arrival.channel_split {earlier later : List Carried}
    (hch : (s₁.emit z a out).channel z link = earlier ++ m :: later) :
    (∃ later', s.channel z link = earlier ++ m :: later') ∨ s₁.live z link = true ∧
      ∃ ms ms', messagesOn link out = ms ++ m.message :: ms' ∧
        earlier = s.channel z link ++ ms.map fun m => ⟨m, s₁.now, s₁.receivedSentAt z⟩ := by
  rw [emit_channel_self, ha.own] at hch
  split at hch
  · next hl =>
    refine (split_append hch).imp_right fun ⟨new, hearlier, hnew⟩ => ⟨hl, ?_⟩
    obtain ⟨ms, ms', hms, rfl, hrest⟩ := map_eq_append_iff.mp hnew
    obtain ⟨msg, ms'', rfl, rfl, -⟩ := map_eq_cons_iff.mp hrest
    exact ⟨ms, ms'', hms, hearlier⟩
  · exact .inl ⟨later, hch⟩

include he in
/-- The other arbiter's lease runs out with time, not with this event. -/
theorem Handles.ranOut_peer : (s₁.emit z a out).RanOut z.peer ↔ s.RanOut z.peer := by
  obtain ⟨-, hother, hboot, -⟩ := he.emit_spec
  unfold RanOut leaseUnexpired clock
  rw [hother, hboot]
  change _ ∧ LeaseParticipant.acting _ (s₁.now - _) = _ ↔ _
  rw [he.now]

section Peer

variable (hz : Sound lease s z)
include he hz

/-- **An arbiter that confirms alone leads by an unexpired lease**, so the other's has run out. -/
theorem Handles.ranOut_of_alone (hzpeer : Sound lease s z.peer) {action : PoolAction}
    (hex : s.leasesExclude action) (hactive : (s.arbiter z.peer).componentVoters.active = true)
    {p : Int} {st : LeaderStatement} (ho : .statementHeld p st true ∈ out) : s.RanOut z.peer := by
  have hlead := hz.agrees.active.mp ((effect_handle hz.wellFormed he.handled).alone p st ho).1
  have hnot : ¬ s.RanOut z := by
    obtain ⟨request, saved, rfl⟩ := componentRequest_of_mem he.handled ho nofun
    exact he.tickFirst.resolve_left fun ⟨wait, hw⟩ => by cases hw
  have hunexpired : s.leaseUnexpired z = true := by
    by_contra hno
    exact hnot ⟨hlead, by simpa using hno⟩
  exact ⟨hzpeer.agrees.active.mp hactive, hex.peer hunexpired⟩

include ha

/-- **What an arbiter has confirmed alone** it had confirmed before, or it confirms it now, long
after anything was last heard. -/
theorem Arrival.confirmedAlone_cases (htimes : Times lease s z z.peer)
    (hc : c ∈ (s₁.emit z a out).confirmedAlone z) :
    c ∈ s.confirmedAlone z ∨ .statementHeld c.pairId c.statement true ∈ out ∧
      s.bootedAt z + (s.arbiter z).peerContact.lastHeard + lease.confirmsAloneAfter ≤ c.confirmedAt := by
  rcases mem_emit_confirmedAlone.mp hc with ⟨p, st, ho, rfl⟩ | hc
  · have halone := (effect_handle hz.wellFormed he.handled).alone p st ho
    exact .inr ⟨ho, (late_of_alone hz htimes halone.2.1).trans_eq he.now.symm⟩
  · exact .inl (ha.confirmed ▸ hc)

variable (h : Echoes lease s z.peer z) (htimes : Times lease s z z.peer) (hk : Keeps s z)
include h htimes hk

/-- **A heartbeat is sent behind what its sender owes**: what the sender has confirmed alone is
held, or under way before it. -/
theorem Echoes.ahead_of_heartbeat (hl : s₁.live z link = true) {ms ms' : List PeerMessage}
    {sentAt echoed : Int} (hms : messagesOn link out = ms ++ .heartbeat sentAt echoed :: ms')
    (hc : c ∈ (s₁.emit z a out).confirmedAlone z) : s.HoldsIt z.peer c ∨
      ∃ m ∈ s.channel z link ++ ms.map fun m => ⟨m, s₁.now, s₁.receivedSentAt z⟩, m.Conveys c := by
  have heff := effect_handle hz.wellFormed he.handled
  obtain ⟨-, -, hnot, hcarried⟩ := heff.heartbeats link ms sentAt echoed ms' hms
  rcases ha.confirmedAlone_cases he hz htimes hc with hc | ⟨ho, -⟩
  · rcases h.owed link ((ha.live link hl).resolve_right (hnot link)) with howes | hall
    · -- it was owed, so it is sent ahead of the heartbeat
      obtain ⟨m', hm', hconv⟩ := conveyed_of_carriedBy (hcarried howes) (hk.held c hc)
      exact .inr ⟨m', mem_append_right _ hm', hconv⟩
    · exact (hall c hc).imp_right fun ⟨m', hm', hconv⟩ => ⟨m', mem_append_left _ hm', hconv⟩
  · -- no heartbeat is sent with a confirmation
    refine absurd ?_ ((heff.alone _ _ ho).2.2.2.2.2 link sentAt echoed)
    rw [hms]
    exact mem_append_right _ mem_cons_self

/-- **What an arbiter does not owe on a connection has been sent on it.** -/
theorem Echoes.sent_of_not_owed (hl : s₁.live z link = true) (howes : a.owes link = false)
    (hc : c ∈ (s₁.emit z a out).confirmedAlone z) :
    s.HoldsIt z.peer c ∨ ∃ m ∈ (s₁.emit z a out).channel z link, m.Conveys c := by
  have heff := effect_handle hz.wellFormed he.handled
  rcases ha.confirmedAlone_cases he hz htimes hc with hc | ⟨ho, -⟩
  · have hconveyed : (s.arbiter z).componentVoters.CarriedBy (messagesOn link out) →
        ∃ m ∈ (s₁.emit z a out).channel z link, m.Conveys c := fun hcarried => by
      obtain ⟨m, hm, hconv⟩ := conveyed_of_carriedBy hcarried (hk.held c hc)
      rw [emit_channel_self, if_pos hl]
      exact ⟨m, mem_append_right _ hm, hconv⟩
    rcases ha.live link hl with hlive | hnew
    · by_cases hold : (s.arbiter z).owes link = true
      · exact .inr (hconveyed (heff.settled link hold howes))
      · refine ((h.owed link hlive).resolve_left hold c hc).imp_right fun ⟨m, hm, hconv⟩ => ?_
        exact ⟨m, mem_emit_channel_of_mem ((ha.own link).symm ▸ hm), hconv⟩
    · exact .inr (hconveyed (heff.fresh link hnew))
  · -- a confirmation is owed on every connection
    rw [(heff.alone _ _ ho).2.2.2.2.1 link] at howes
    cases howes

/-- **What the other arbiter has of what the arbiter that handles an event confirmed.** -/
theorem Echoes.emit_peer (hzpeer : Sound lease s z.peer) {action : PoolAction}
    (hex : s.leasesExclude action) :
    Echoes lease (s₁.emit z a out) z.peer z := by
  obtain ⟨-, hmono, -, -⟩ := lastHeard_effect (effect_handle hz.wellFormed he.handled)
  obtain ⟨hself, hother, hboot, -⟩ := he.emit_spec
  have hcases := fun c hc => ha.confirmedAlone_cases (c := c) he hz htimes hc
  have hholds : ∀ c, (s₁.emit z a out).HoldsIt z.peer c ↔ s.HoldsIt z.peer c := by
    intro c
    unfold HoldsIt
    rw [hother]
  refine
    { echo := ?_
      queued := fun link earlier m later hch sentAt echoed hmsg hsince c hc => ?_
      owed := fun link hlive => ?_
      notBehind := fun hactive hflag => ?_ }
  · rw [hself, hother, hboot, hboot]
    refine h.echo.imp_right fun ⟨sentAt, hv, hle, hall⟩ => ⟨sentAt, hv, by omega, fun c hc => ?_⟩
    rcases hcases c hc with hc | ⟨-, hlate⟩
    · exact (hall c hc).imp_left (hholds c).mpr
    · right
      omega
  · rw [hboot] at hsince
    rw [hholds]
    rcases ha.channel_split hch with ⟨later', hold⟩ | ⟨hl, ms, ms', hms, rfl⟩
    · rcases hcases c hc with hc | ⟨-, hlate⟩
      · exact h.queued link earlier m later' hold sentAt echoed hmsg hsince c hc
      · -- a heartbeat under way echoes something that was heard
        have hm : m ∈ s.channel z link := hold ▸ mem_append_right _ mem_cons_self
        have := (htimes.sent_le link m hm).2
        right
        right
        omega
    · rw [hmsg] at hms
      exact (h.ahead_of_heartbeat he ha hz htimes hk hl hms hc).imp_right .inl
  · rw [hself]
    cases howes : a.owes link with
    | true => exact .inl rfl
    | false =>
      refine .inr fun c hc => ?_
      rw [hholds]
      exact h.sent_of_not_owed he ha hz htimes hk hlive howes hc
  · rw [hother] at hactive hflag
    rw [he.ranOut_peer]
    rcases h.notBehind hactive hflag with hr | hall
    · exact .inl hr
    by_cases hnew : ∃ p st, .statementHeld p st true ∈ out
    · obtain ⟨p, st, ho⟩ := hnew
      exact .inl (he.ranOut_of_alone hz hzpeer hex hactive ho)
    · refine .inr fun c hc => ?_
      rcases hcases c hc with hc | ⟨ho, -⟩
      · exact (hholds c).mpr (hall c hc)
      · exact absurd ⟨_, _, ho⟩ hnew

end Peer

/-- The send times and echoes of the other arbiter. -/
theorem Dependable.of_peer (h : Dependable lease s) (z : Instance) :
    Times lease s z.peer z ∧ Echoes lease s z.peer z := by
  have htimes := h.times z.peer
  have hechoes := h.echoes z.peer
  rw [peer_peer] at htimes hechoes
  exact ⟨htimes, hechoes⟩

include he ha in
/-- **An arbiter that grants lacks nothing.** -/
theorem Dependable.lacking_of_grant (h : Dependable lease s) {g : ComponentGrant}
    (hg : g ∈ s₁.grantsIn z out) : g.lacking = [] := by
  obtain ⟨-, -, -, -, hran, hactive, -⟩ := he.grant (h.sound z) hg
  obtain ⟨p, c, e, r, hm, rfl⟩ := mem_grantsIn.mp hg
  have hnot := (effect_handle (h.sound z).wellFormed he.handled).grants p c e r hm
  have hall : ∀ c ∈ s.confirmedAlone z.peer, s.HoldsIt z c := by
    rcases Bool.and_eq_false_iff.mp hnot with hflag | hfresh
    · exact ((h.echoes z).notBehind hactive hflag).resolve_left hran
    · exact (h.echoes z).holds_of_fresh (h.times z) (h.keeps z.peer) hfresh
  unfold lacking
  rw [ha.confirmed, he.arbiter, filter_eq_nil_iff]
  intro c hc
  have := hall c hc
  simpa using this

include he ha in
/-- **Handling an event keeps the invariant.** -/
theorem Dependable.emit (h : Dependable lease s) {action : PoolAction} (hex : s.leasesExclude action) :
    Dependable lease (s₁.emit z a out) := by
  obtain ⟨htimes, hechoes⟩ := h.of_peer z
  refine
    { sound := Sound.emit he h.sound
      keeps := forall_of ((h.keeps z).emit_self he ha (h.sound z) (h.keeps z.peer))
        ((h.keeps z.peer).emit_peer he ha)
      times := forall_of ((h.times z).emit_self he ha (h.sound z) htimes) ?_
      echoes := forall_of ((h.echoes z).emit_self he ha (h.sound z) (h.times z) htimes (h.keeps z)
        (h.keeps z.peer)) ?_
      granted := fun g hg => ?_ }
  · rw [peer_peer]
    exact htimes.emit_peer he ha
  · rw [peer_peer]
    exact hechoes.emit_peer he ha (h.sound z) (h.times z) (h.keeps z) (h.sound z.peer) hex
  · rcases he.mem_granted.mp hg with hg | hg
    · exact h.lacking_of_grant he ha hg
    · exact h.granted g hg

end

/-! ## Time, cut connections, restarts and the start -/

/-- Time passing keeps the invariant: a lease that has run out stays so. -/
theorem Dependable.advance (h : Dependable lease s) {time : Nat} (hle : s.now ≤ time) :
    Dependable lease { s with now := time } where
  sound x := { h.sound x with booted := (h.sound x).booted.trans hle }
  keeps x := { h.keeps x with past := fun c hc => ((h.keeps x).past c hc).trans hle }
  times x :=
    { h.times x with
      heard := (h.times x).heard.trans hle
      sent_le := fun link m hm =>
        ⟨((h.times x).sent_le link m hm).1.trans hle, ((h.times x).sent_le link m hm).2⟩ }
  echoes x :=
    { h.echoes x with
      notBehind := fun hactive hflag => by
        refine ((h.echoes x).notBehind hactive hflag).imp_left fun ⟨hlead, hran⟩ => ⟨hlead, ?_⟩
        have hb := (h.sound x).booted
        rw [← leaseEnds_le_iff hb hlead] at hran
        exact (leaseEnds_le_iff (s := { s with now := time }) (hb.trans hle) hlead).mp (hran.trans hle) }
  granted := h.granted

/-- What of a connection that is cut still arrives came first. -/
theorem cutLink_channel (s : ArbiterPool) (i : Instance) (fromI toI : Nat) (j : Instance)
    (link : PeerLink) : ∃ n, (s.cutLink i fromI toI).channel j link = (s.channel j link).take n ∨
      (s.cutLink i fromI toI).channel j link = s.channel j link := by
  by_cases hfrom : j = i ∧ link = .outbound
  · exact ⟨fromI, .inl (if_pos hfrom)⟩
  · by_cases hto : j = i.peer ∧ link = .inbound
    · exact ⟨toI, .inl ((if_neg hfrom).trans (if_pos hto))⟩
    · exact ⟨0, .inr ((if_neg hfrom).trans (if_neg hto))⟩

/-- A connection that can carry something has not been cut. -/
theorem cutLink_live {fromI toI : Nat} {j : Instance} {link : PeerLink}
    (h : (s.cutLink i fromI toI).live j link = true) :
    s.live j link = true ∧ (s.cutLink i fromI toI).channel j link = s.channel j link := by
  change (if _ then false else s.live j link) = true at h
  split at h
  · cases h
  · next hno =>
    rw [not_or] at hno
    exact ⟨h, (if_neg hno.1).trans (if_neg hno.2)⟩

/-- **A cut keeps the invariant**: what arrives arrives in order. -/
theorem Dependable.cut (h : Dependable lease s) (i : Instance) (fromI toI : Nat) :
    Dependable lease (s.cutLink i fromI toI) := by
  -- what still arrives is what came first
  have hprefix : ∀ j link, ∃ rest, s.channel j link = (s.cutLink i fromI toI).channel j link ++ rest := by
    intro j link
    obtain ⟨n, hn | hn⟩ := cutLink_channel s i fromI toI j link
    · rw [hn]
      exact ⟨_, (take_append_drop n _).symm⟩
    · rw [hn]
      exact ⟨[], (append_nil _).symm⟩
  have hmem : ∀ j link, ∀ m ∈ (s.cutLink i fromI toI).channel j link, m ∈ s.channel j link := by
    intro j link m hm
    obtain ⟨rest, hrest⟩ := hprefix j link
    rw [hrest]
    exact mem_append_left _ hm
  exact
    { sound := fun x => { h.sound x with }
      keeps := fun x => { h.keeps x with
        sent := fun link m hm => (h.keeps x).sent link m (hmem x link m hm) }
      times := fun x => { h.times x with
        sent_le := fun link m hm => (h.times x).sent_le link m (hmem x link m hm)
        sentValue := fun link m hm => (h.times x).sentValue link m (hmem x link m hm) }
      echoes := fun x => { h.echoes x with
        queued := fun link earlier m later hch => by
          obtain ⟨rest, hrest⟩ := hprefix x.peer link
          rw [hch, append_assoc, cons_append] at hrest
          exact (h.echoes x).queued link earlier m (later ++ rest) hrest
        owed := fun link hlive => by
          obtain ⟨hlive', hsame⟩ := cutLink_live hlive
          rw [hsame]
          exact (h.echoes x).owed link hlive' }
      granted := h.granted }

section Restart

variable {reboot : Bool} {kept : Option LeasePromiseRecord} {keptStatement : LeaderStatement}

theorem restarted_self : (s.restarted z reboot a).arbiter z = a := if_pos rfl

/-- What a restart leaves as it was for the other arbiter. -/
theorem restarted_peer : (s.restarted z reboot a).arbiter z.peer = s.arbiter z.peer ∧
    (s.restarted z reboot a).bootedAt z.peer = s.bootedAt z.peer :=
  ⟨(restarted_arbiter s z reboot a z.peer).trans (if_neg z.peer_ne), if_neg fun hc => z.peer_ne hc.1⟩

/-- When the machine booted on which a process restarts. -/
theorem restarted_bootedAt (hb : s.bootedAt z ≤ s.now) : (s.restarted z reboot a).bootedAt z ≤ s.now ∧
      ((s.restarted z reboot a).bootedAt z = s.bootedAt z ∨ (s.restarted z reboot a).bootedAt z = s.now) := by
  change (if z = z ∧ reboot = true then s.now else s.bootedAt z) ≤ s.now ∧
    ((if z = z ∧ reboot = true then s.now else s.bootedAt z) = s.bootedAt z ∨
      (if z = z ∧ reboot = true then s.now else s.bootedAt z) = s.now)
  split
  · exact ⟨le_rfl, .inr rfl⟩
  · exact ⟨hb, .inl rfl⟩

/-- What goes to a process that stops is lost. -/
theorem restarted_channel : (s.restarted z reboot a).channel z link = s.channel z link ∧
    (s.restarted z reboot a).channel z.peer link = [] :=
  ⟨if_neg fun hc => z.peer_ne hc.symm, if_pos rfl⟩

/-- The other arbiter keeps what it confirmed. -/
theorem Keeps.restart_peer (h : Keeps s z.peer) : Keeps (s.restarted z reboot a) z.peer := by
  have hsame : (s.restarted z reboot a).arbiter z.peer = s.arbiter z.peer := restarted_peer.1
  refine ⟨?_, ?_, ?_, ?_, ?_, h.past, fun link m hm => ?_⟩
  all_goals try unfold HoldsIt
  all_goals try rw [hsame]
  · exact h.onDisk
  · exact h.valid
  · exact h.held
  · exact h.votes
  · exact h.filed
  · rw [restarted_channel.2] at hm
    cases hm

/-- Send times keep their meaning when an arbiter restarts, for the other: none was sent since the
machine booted. -/
theorem Times.restart_peer (h : Times lease s z.peer z) (hz : Sound lease s z) :
    Times lease (s.restarted z reboot a) z.peer z := by
  obtain ⟨hsame, hboot⟩ := (restarted_peer : (s.restarted z reboot a).arbiter z.peer = s.arbiter z.peer ∧ _)
  have hreceived : (s.restarted z reboot a).receivedSentAt z.peer = s.receivedSentAt z.peer :=
    if_neg z.peer_ne
  refine ⟨?_, ?_, ?_, fun hlt => ?_, fun link m hm => ?_, fun link m hm => ?_⟩
  · rw [hsame]
    exact h.timing
  · rw [hsame, hboot]
    exact h.heard
  · rw [hsame, hboot, hreceived]
    exact h.received
  · rw [hreceived] at hlt
    have hheard := h.heard
    have hle := h.received
    rw [hsame, hreceived]
    rcases (restarted_bootedAt hz.booted).2 with hb | hb
    · rw [hb] at hlt ⊢
      exact h.receivedValue hlt
    · rw [hb] at hlt
      omega
  · rw [restarted_channel.2] at hm
    cases hm
  · rw [restarted_channel.2] at hm
    cases hm

variable (ha : Arbiter.start (s.arbiter z).config (s.arbiter z).store kept keptStatement
  ((s.stopped z reboot).clock z) = .ok a)
include ha

/-- **An arbiter that restarts keeps what it confirmed alone**: it was on disk. -/
theorem Keeps.restart_self (h : Keeps s z) : Keeps (s.restarted z reboot a) z := by
  obtain ⟨-, hstore, hconfig, hvalid, hheld⟩ := contact_start ha
  refine ⟨?_, ?_, fun c hc => ?_, fun c hc => ?_, fun c hc => ?_, h.past, fun link m hm => ?_⟩
  · rw [restarted_self]
    exact (onDisk_start ha).2.1
  · rw [restarted_self]
    exact hvalid
  · obtain ⟨d, hd, hdv, hle⟩ := h.filed c hc
    unfold HoldsIt
    rw [restarted_self]
    exact holds_of_atLeast (hheld _ d hd (h.votes c hc) hdv) hle
  · rw [restarted_self]
    unfold votesIn
    rw [hconfig]
    exact h.votes c hc
  · rw [restarted_self, hstore]
    exact h.filed c hc
  · rw [restarted_channel.1] at hm
    exact h.sent link m hm

/-- **An arbiter that restarts counts its start as when it last heard anything.** -/
theorem lastHeard_restart (hz : Sound lease s z) :
    a.peerContact.timing = lease ∧ a.peerContact.newestEcho = 0 ∧
      (s.restarted z reboot a).bootedAt z + a.peerContact.lastHeard = s.now := by
  obtain ⟨hcontact, -⟩ := contact_start ha
  have hb := (restarted_bootedAt hz.booted : (s.restarted z reboot a).bootedAt z ≤ s.now ∧ _).1
  rw [hcontact]
  refine ⟨hz.config.timing, rfl, ?_⟩
  change _ + (s.now - (s.restarted z reboot a).bootedAt z) = s.now
  omega

/-- Send times keep their meaning when an arbiter restarts, for it. -/
theorem Times.restart_self (h : Times lease s z z.peer) (hz : Sound lease s z) :
    Times lease (s.restarted z reboot a) z z.peer := by
  obtain ⟨htiming, -, hlast⟩ := lastHeard_restart ha hz
  have hnow : (s.restarted z reboot a).now = s.now := rfl
  have hreceived : (s.restarted z reboot a).receivedSentAt z = 0 := if_pos rfl
  have hheard := h.heard
  refine ⟨?_, ?_, ?_, ?_, fun link m hm => ?_, fun link m hm sentAt echoed hmsg => ?_⟩
  · rw [restarted_self]
    exact htiming
  · rw [restarted_self, hnow]
    exact le_of_eq hlast
  · rw [hreceived]
    exact Nat.zero_le _
  · rw [hreceived]
    exact fun hlt => absurd hlt (Nat.not_lt_zero _)
  · rw [restarted_channel.1] at hm
    obtain ⟨hsent, hecho⟩ := h.sent_le link m hm
    rw [restarted_self, hnow, hlast]
    exact ⟨hsent, by omega⟩
  · rw [restarted_channel.1] at hm
    obtain ⟨hsent, hecho⟩ := h.sentValue link m hm sentAt echoed hmsg
    have hle := (h.sent_le link m hm).1
    rw [restarted_peer.2]
    refine ⟨fun hlt => ?_, hecho⟩
    rcases (restarted_bootedAt hz.booted).2 with hb | hb
    · rw [hb] at hlt ⊢
      exact hsent hlt
    · rw [hb] at hlt
      omega

/-- An arbiter that restarts has no echo yet, and is passive. -/
theorem Echoes.restart_self (hz : Sound lease s z) : Echoes lease (s.restarted z reboot a) z z.peer := by
  obtain ⟨-, hecho, -⟩ := lastHeard_restart ha hz
  refine ⟨?_, fun link earlier m later hch => ?_, fun link hlive => ?_, fun hactive => ?_⟩
  · rw [restarted_self]
    exact .inl hecho
  · rw [restarted_channel.2] at hch
    cases earlier <;> cases hch
  · cases hlive
  · rw [restarted_self, (onDisk_start ha).2.2.1] at hactive
    cases hactive

/-- What the other arbiter has of what was confirmed does not change with a restart. -/
theorem Echoes.restart_peer (h : Echoes lease s z.peer z) (hz : Sound lease s z)
    (htimes : Times lease s z z.peer) : Echoes lease (s.restarted z reboot a) z.peer z := by
  obtain ⟨-, -, hlast⟩ := lastHeard_restart ha hz
  obtain ⟨hsame, hboot⟩ := (restarted_peer : (s.restarted z reboot a).arbiter z.peer = s.arbiter z.peer ∧ _)
  have hheard := htimes.heard
  refine ⟨?_, fun link earlier m later hch => ?_, fun link hlive => ?_, ?_⟩
  · unfold HoldsIt
    rw [hsame, hboot, restarted_self, hlast]
    exact h.echo.imp_right fun ⟨sentAt, hv, hle, hall⟩ => ⟨sentAt, hv, by omega, hall⟩
  · unfold HoldsIt
    rw [restarted_channel.1] at hch
    rw [hsame, hboot]
    exact h.queued link earlier m later hch
  · cases hlive
  · have hran : (s.restarted z reboot a).RanOut z.peer ↔ s.RanOut z.peer := by
      unfold RanOut leaseUnexpired clock
      rw [hsame, hboot]
      rfl
    unfold HoldsIt
    rw [hsame, hran]
    exact h.notBehind

/-- **A restart keeps the invariant.** -/
theorem Dependable.restart (h : Dependable lease s) : Dependable lease (s.restarted z reboot a) := by
  obtain ⟨htimes, hechoes⟩ := h.of_peer z
  refine ⟨Sound.restart ha h.sound,
    forall_of (Keeps.restart_self ha (h.keeps z)) (h.keeps z.peer).restart_peer,
      forall_of (Times.restart_self ha (h.times z) (h.sound z)) ?_,
    forall_of (Echoes.restart_self ha (h.sound z)) ?_, h.granted⟩
  · rw [peer_peer]
    exact htimes.restart_peer (h.sound z)
  · rw [peer_peer]
    exact Echoes.restart_peer ha hechoes (h.sound z) (h.times z)

end Restart

/-- **Every dependable step keeps the invariant.** -/
theorem dependable_step : (step.restrict dependable).Invariant (Dependable lease) := by
  intro s action s' h hstep
  obtain ⟨⟨hfirst, hex, hsaves, hecho⟩, hstep⟩ := Machine.restrict_eq_some.mp hstep
  cases steps_of_step hstep with
  | advance hle => exact h.advance hle
  | handle own he => exact h.emit (handles_own he hfirst) (arrival_own own) hex
  | deliver oldest he =>
    exact h.emit (handles_delivered _ he hfirst) (arrival_delivered oldest hsaves hecho) hex
  | cut => exact h.cut _ _ _
  | restart ha => exact Dependable.restart ha h

/-- A pool whose arbiters have just started. -/
theorem dependable_start {config : Instance → ArbiterConfiguration} {store : Instance → Statements}
    {kept : Instance → Option LeasePromiseRecord} {bootedAt : Instance → Nat} {began : Nat}
    (hboot : ∀ i, bootedAt i ≤ began)
    (h : start lease config store kept bootedAt began = .ok s) : Dependable lease s := by
  have hsound := (fences_start hboot h).sound
  obtain ⟨one, h₁, h⟩ := bind_eq_ok.mp h
  obtain ⟨two, h₂, h⟩ := bind_eq_ok.mp h
  -- each has started from its own file
  have hstarted : ∀ x, ∃ a, Arbiter.start (configFor lease config x) (store x) (kept x) {}
      (began - bootedAt x) = .ok a ∧ s.arbiter x = a := by
    intro x
    cases h
    cases x with
    | one => exact ⟨one, h₁, rfl⟩
    | two => exact ⟨two, h₂, rfl⟩
  cases h
  refine ⟨hsound, fun x => ?_, fun x => ?_, fun x => ?_, nofun⟩
  all_goals obtain ⟨a, ha, hx⟩ := hstarted x
  all_goals obtain ⟨hcontact, -, -, hvalid, -⟩ := Arbiter.contact_start ha
  · refine ⟨?_, ?_, nofun, nofun, nofun, nofun, nofun⟩
    · rw [hx]
      exact (onDisk_start ha).2.1
    · rw [hx]
      exact hvalid
  · refine ⟨?_, ?_, Nat.zero_le _, fun hlt => absurd hlt (Nat.not_lt_zero _), nofun, nofun⟩
    · rw [hx, hcontact]
      rfl
    · rw [hx, hcontact]
      have := hboot x
      dsimp only
      omega
  · refine ⟨?_, fun link earlier m later hch => ?_, fun link hlive => ?_, fun _ _ => .inr nofun⟩
    · rw [hx, hcontact]
      exact .inl rfl
    · cases earlier <;> cases hch
    · cases hlive

/-! ## Every run -/

/-- **Confirming alone is safe.** Take any run of the two arbiters, whatever they handle, whichever
connections are cut and whenever a process restarts or a machine reboots, in which

* an arbiter whose lease has run out handles the tick before anything else, and the arbiters' own
  leases exclude each other,
* a newer statement learnt from the other arbiter is saved, or a failed save is known of already,
* and a heartbeat that is handled, if it echoes anything, echoes a moment since the boot of the
  machine that handles it.

Whenever an arbiter granted a component a lease, it held every statement, of any pair, that the
other had confirmed alone, or a later one. -/
theorem confirming_alone_is_safe (lease : LeaseTiming) (config : Instance → ArbiterConfiguration)
    (store : Instance → Statements) (kept : Instance → Option LeasePromiseRecord)
    (bootedAt : Instance → Nat) (began : Nat) (actions : List PoolAction) {s₀ s : ArbiterPool}
    (hboot : ∀ i, bootedAt i ≤ began)
    (h₀ : start lease config store kept bootedAt began = .ok s₀)
    (hrun : (step.restrict dependable).run s₀ actions = some s) :
    ∀ g ∈ s.granted, g.lacking = [] :=
  (dependable_step.run (dependable_start hboot h₀) hrun).granted

/-- The second arbiter has not heard the first, becomes active by the witness's grant and confirms a
statement alone. Then the two hear each other, and after the second's lease has run out the first
becomes active and grants the leader a lease. -/
def confirmsAndTells : List PoolAction :=
  [.advance 12000, .handle .two (.tick 0), .handle .two (.poolGrant false 3 2 2 0),
    .handle .two (.componentRequest leaderRequest true),
    .handle .two (.connectionEstablished .outbound), .handle .one (.connectionEstablished .inbound),
    .advance 12100, .deliver .two .outbound true, .handle .one (.tick 0),
    .deliver .one .inbound true, .handle .two (.tick 0), .deliver .two .outbound true,
    .handle .one (.poolRefusal false 3 2 2 .promisedElsewhere 3000), .advance 16000,
    .handle .one (.tick 0), .handle .one (.poolGrant false 3 5 4 0), .advance 18000,
    .handle .one (.tick 0), .handle .one (.poolGrant false 3 5 6 0), .advance 19000,
    .handle .one (.componentRequest leaderRequest true)]

/-- There are such runs in which a statement is confirmed alone and the other arbiter then grants. -/
theorem confirming_alone_is_safe_confirmsAndTells :
    ∃ s, (step.restrict dependable).run freshPool confirmsAndTells = some s ∧
      s.confirmedAlone .two = [⟨7, peerMayNotLead, 12000⟩] ∧
      s.granted = [⟨.one, 7, 1, 19000, true, []⟩] ∧ ∀ g ∈ s.granted, g.lacking = [] := by
  obtain ⟨s, hs, ht⟩ := Machine.exists_run_of_any (step.restrict dependable) freshPool
    confirmsAndTells
    (fun s => s.confirmedAlone .two = [⟨7, peerMayNotLead, 12000⟩] ∧
      s.granted = [⟨.one, 7, 1, 19000, true, []⟩]) (by decide)
  exact ⟨s, hs, ht.1, ht.2, confirming_alone_is_safe _ _ _ _ _ _ _ (fun _ => le_rfl) start_eq_freshPool hs⟩

/-- The arbiters connect, and send each other a heartbeat. -/
def hearEachOther (time : Nat) : List PoolAction :=
  [.handle .one (.connectionEstablished .outbound), .handle .two (.connectionEstablished .inbound),
    .advance time, .handle .one (.tick 0), .deliver .one .outbound true, .handle .two (.tick 0),
    .deliver .two .inbound true]

/-- The other instance of pair 7 asks for a lease. -/
def peerRequest : ComponentRequest where
  pairId := 7
  candidateId := 2
  epoch := 6
  requestId := 1
  statement := {}

/-- The first arbiter's machine reboots after 20 s, and its next heartbeat is answered with an echo
of the last one it sent before. The connection is cut. The second arbiter becomes active, confirms
alone that instance 2 may not lead, and stops. The first becomes active, and instance 2 asks it for
a lease. -/
def rebootsAndGrants : List PoolAction :=
  hearEachOther 20000 ++ [.restart .one true none {}] ++ hearEachOther 20100 ++
    [.cut .one 0 0, .advance 28000, .handle .two (.tick 0), .handle .two (.poolGrant false 3 2 6 0),
      .advance 30200, .handle .two (.componentRequest leaderRequest true),
      .advance 34000, .handle .one (.tick 0), .handle .one (.poolRefusal false 3 2 2 .epochBehind 0),
      .handle .one (.tick 0), .handle .one (.poolGrant false 3 5 4 0), .advance 36000,
      .handle .one (.tick 0), .handle .one (.poolGrant false 3 5 6 0), .advance 37000,
      .handle .one (.componentRequest peerRequest true)]

/-- **A lease is granted without a statement confirmed alone**, though the active flags and the
saves were in order: an echo from before the reboot was taken for a fresh one. -/
theorem grants_without_a_statement_confirmed_alone :
    ∃ s, (((step.restrict tickComesFirst).restrict leasesExclude).restrict savesRecords).run freshPool
        rebootsAndGrants = some s ∧
      ∃ g ∈ s.granted, ∃ c ∈ s.confirmedAlone .two, g.arbiter = .one ∧ c ∈ g.lacking := by
  exact Machine.exists_run_of_any
    (((step.restrict tickComesFirst).restrict leasesExclude).restrict savesRecords) freshPool
    rebootsAndGrants _ (by decide)

end ArbiterPool

end PubsubVenue
