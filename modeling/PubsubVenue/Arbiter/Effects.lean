import Mathlib.Data.List.Dedup
import PubsubVenue.Arbiter.Pool

/-! # What an event does to an arbiter's contact with the other

`Arbiter.Effect` says once what handling any event does to the statements an arbiter holds, to its
contact with the other arbiter and to what it owes it, and what it sends. The invariants of the pool
are proved from it.

* **`carriesAll_sendWholeState`**: the whole state carries every statement held.
* **`effect_handle`**: every event has such an effect. -/

namespace PubsubVenue

open ComponentStatementStore ComponentLeaseVoters List

open ArbiterPool (messagesOn)

/-- A record carries a statement of a pair, or a later one. -/
def ArbiterStateRecord.Conveys (r : ArbiterStateRecord) (pairId : Int) (s : LeaderStatement) : Prop :=
  r.pairId = pairId ∧ r.statement.leaderId ≠ 0 ∧ r.statement.AtLeast s

/-- Messages carry every statement held. -/
def ComponentLeaseVoters.CarriedBy (c : ComponentLeaseVoters) (messages : List PeerMessage) : Prop :=
  ∀ p s, c.Holds p s → ∃ r : ArbiterStateRecord, .stateRecord r ∈ messages ∧ r.Conveys p s

/-- What carries every statement carries it among more messages. -/
theorem ComponentLeaseVoters.CarriedBy.append_left {c : ComponentLeaseVoters} {ms : List PeerMessage}
    (h : c.CarriedBy ms) (ms' : List PeerMessage) : c.CarriedBy (ms ++ ms') := by
  intro p s hs
  obtain ⟨r, hr, hc⟩ := h p s hs
  exact ⟨r, mem_append_left _ hr, hc⟩

/-- Which statements are carried depends only on the statements. -/
theorem ComponentLeaseVoters.holds_congr {c c' : ComponentLeaseVoters}
    (h : c'.statements = c.statements) (p : Int) (s : LeaderStatement) : c'.Holds p s ↔ c.Holds p s := by
  unfold Holds statement
  rw [h]

/-! ## Statements that can be read back -/

/-- A statement that can be written to the file and read back. -/
def LeaderStatement.Valid (s : LeaderStatement) : Prop :=
  (1 ≤ s.leaderId ∧ s.leaderId ≤ 2) ∧ 0 ≤ s.epoch ∧ s.epoch ≤ LeaderEpoch.int32Max ∧ 1 ≤ s.number

/-- A valid statement is newer than none. -/
theorem LeaderStatement.Valid.newerThan_none {s : LeaderStatement} (h : s.Valid) : s.newerThan {} = true := by
  obtain ⟨-, hepoch, -, hnumber⟩ := h
  simp only [newerThan, Bool.or_eq_true, Bool.and_eq_true, decide_eq_true_eq]
  omega

namespace ComponentLeaseVoters

/-- For each pair a valid statement is held, or none. -/
def Valid (c : ComponentLeaseVoters) : Prop := ∀ p, c.statement p = {} ∨ (c.statement p).Valid

variable {c c' : ComponentLeaseVoters} {pairId : Int} {s : LeaderStatement}

/-- Which statements are valid depends only on the statements. -/
theorem Valid.of_same (h : c.Valid) (hs : c'.statements = c.statements) : c'.Valid := by
  intro p
  unfold statement
  rw [hs]
  exact h p

section

variable (hs : c'.statements = c.statements.insert pairId (newest (c.statement pairId) s))
include hs

/-- A statement that replaces a valid one, or none, names no earlier epoch. -/
theorem Valid.insert_newest (h : c.Valid) (hlead : 1 ≤ s.leaderId ∧ s.leaderId ≤ 2) (hnumber : 1 ≤ s.number)
    (hepoch : s.epoch ≤ LeaderEpoch.int32Max) : c'.Valid := by
  intro p
  rw [statement_of_insert hs]
  split
  · unfold newest
    split
    · next hnewer =>
      right
      have hheld : 0 ≤ (c.statement pairId).epoch := by
        rcases h pairId with hnone | hvalid
        · rw [hnone]
        · exact hvalid.2.1
      simp only [LeaderStatement.newerThan, Bool.or_eq_true, Bool.and_eq_true, decide_eq_true_eq] at hnewer
      exact ⟨hlead, by omega, hepoch, hnumber⟩
    · exact h pairId
  · exact h p

/-- What was held stays held, or is replaced by something newer. -/
theorem Holds.insert_newest
    (hlead : s.leaderId ≠ 0) {p : Int} {d : LeaderStatement} (h : c.Holds p d) : c'.Holds p d := by
  unfold Holds
  rw [statement_of_insert hs]
  split
  · next hp =>
    subst hp
    refine ⟨?_, (newest_atLeast (c.statement p) s).1.trans h.2⟩
    unfold newest
    split
    · exact hlead
    · exact h.1
  · exact h

/-- **A valid statement that is learnt is held.** -/
theorem Valid.holds_newest (h : c.Valid) (hvalid : s.Valid) : c'.Holds pairId s := by
  unfold Holds
  rw [statement_of_insert hs, if_pos rfl]
  refine ⟨?_, (newest_atLeast (c.statement pairId) s).2⟩
  unfold newest
  split
  · obtain ⟨⟨hlead, -⟩, -⟩ := hvalid
    omega
  · next hnot =>
    rcases h pairId with hnone | hheld
    · rw [hnone, hvalid.newerThan_none] at hnot
      exact absurd rfl hnot
    · obtain ⟨⟨hlead, -⟩, -⟩ := hheld
      omega

end

end ComponentLeaseVoters

namespace Arbiter

/-! ## What is sent -/

/-- What is sent on a connection, of two outputs. -/
theorem messagesOn_append (link : PeerLink) (out out' : List ArbiterOutput) :
    messagesOn link (out ++ out') = messagesOn link out ++ messagesOn link out' :=
  filterMap_append

variable {out : List ArbiterOutput} {link : PeerLink}

/-- A message sent on a connection. -/
theorem mem_messagesOn {m : PeerMessage} : m ∈ messagesOn link out ↔ .toPeer link m ∈ out := by
  unfold messagesOn
  rw [mem_filterMap]
  constructor
  · rintro ⟨o, ho, hm⟩
    cases o with
    | toPeer =>
      dsimp only at hm
      split at hm
      · next hl =>
        cases hm
        rw [← hl]
        exact ho
      · cases hm
    | statementHeld | grant | refusal => cases hm
  · intro ho
    exact ⟨_, ho, if_pos rfl⟩

/-- Nothing goes over the other connection. -/
theorem messagesOn_eq_nil (h : ∀ m, .toPeer link m ∉ out) : messagesOn link out = [] := by
  rw [eq_nil_iff_forall_not_mem]
  exact fun m hm => h m (mem_messagesOn.mp hm)

variable (a : Arbiter)

/-- **The whole state carries every statement held.** -/
theorem carriesAll_sendWholeState (link : PeerLink) :
    a.componentVoters.CarriedBy (messagesOn link (a.sendWholeStateToPeer link).1) := by
  intro p s hs
  refine ⟨a.groupState p, ?_, rfl, hs⟩
  rw [mem_messagesOn]
  refine mem_map.mpr ⟨p, ?_, rfl⟩
  -- a pair with a statement is one about which something is known
  unfold groups
  rw [mem_dedup, mem_append]
  right
  exact AList.mem_keys.mp (AList.lookup_isSome.mp (by rw [lookup_statements hs.1]; rfl))

/-- What is owed, if it is owed, comes before a heartbeat. -/
theorem messagesOn_sendHeartbeat (link : PeerLink) (now : Nat) :
    messagesOn link (a.sendHeartbeat link now).1 = if a.valid link then
        messagesOn link (a.sendOwedState link).1 ++ [.heartbeat now a.peerContact.newestReceived]
      else [] := by
  unfold sendHeartbeat
  split
  · rw [messagesOn_append]
    congr 1
    simp [messagesOn]
  · rfl

/-- A heartbeat on one connection is not sent on the other. -/
theorem messagesOn_sendHeartbeat_ne {link link' : PeerLink} (hne : link' ≠ link)
    (now : Nat) : messagesOn link' (a.sendHeartbeat link now).1 = [] := by
  refine messagesOn_eq_nil fun m hm => ?_
  obtain ⟨m', hm'⟩ := mem_sendHeartbeat hm
  exact hne (by cases hm'; rfl)

/-! ## What an event does -/

/-- An arbiter comes to be active and not behind only with a fresh echo. -/
def ComesNotBehind (now : Nat) (a' : Arbiter) : Prop :=
  a'.componentVoters.active = true → a'.mayBeBehind = false →
    a.componentVoters.active = true ∧ a.mayBeBehind = false ∨ a.peerContact.mayBeBehind now = false

/-- What handling an event does to what is held and to the contact with the other arbiter. -/
structure Takes (a : Arbiter) (now : Nat) (event : ArbiterEvent) (a' : Arbiter) : Prop where
  /-- No statement held is lost. -/
  grows : ∀ p s, a.componentVoters.Holds p s → a'.componentVoters.Holds p s
  /-- What is held is valid, if what comes from the other arbiter is. -/
  valid : a.componentVoters.Valid →
    (∀ r saved, event = .stateRecord r saved → r.statement.leaderId ≠ 0 → r.statement.Valid) →
      a'.componentVoters.Valid
  /-- A record that comes from the other arbiter is learnt. -/
  learns : a.componentVoters.Valid → ∀ r saved, event = .stateRecord r saved → r.statement.Valid →
    a'.componentVoters.Holds r.pairId r.statement
  /-- The file stays, or is written anew with all that is held. -/
  store : a'.store = a.store ∨ a'.store = a'.componentVoters.statements
  /-- Only a heartbeat brings an echo. -/
  contact : (∃ sentAt echoed, event = .heartbeat sentAt echoed ∧
      a'.peerContact = (a.peerContact.heard now).onHeartbeat sentAt echoed now) ∨
    (∀ sentAt echoed, event ≠ .heartbeat sentAt echoed) ∧
      (a'.peerContact = a.peerContact ∨ a'.peerContact = a.peerContact.heard now)
  /-- It comes to be active and not behind only with a fresh echo. -/
  behind : ComesNotBehind a now a'

/-- **What handling an event does**, as far as the other arbiter is concerned. -/
structure Effect (a : Arbiter) (now : Nat) (event : ArbiterEvent) (out : List ArbiterOutput)
    (a' : Arbiter) : Prop extends Takes a now event a' where
  /-- A heartbeat has the time and the echo, and what is owed comes before it. -/
  heartbeats : ∀ link earlier (sentAt echoed : Int) later,
    messagesOn link out = earlier ++ .heartbeat sentAt echoed :: later →
      sentAt = now ∧ echoed = a'.peerContact.newestReceived ∧ (∀ l, event ≠ .connectionEstablished l) ∧
        (a.owes link = true → a.componentVoters.CarriedBy earlier)
  /-- What is no longer owed has been sent. -/
  settled : ∀ link, a.owes link = true → a'.owes link = false →
    a.componentVoters.CarriedBy (messagesOn link out)
  /-- What is sent is what is held. -/
  records : ∀ link r, .stateRecord r ∈ messagesOn link out →
    r.statement = a'.componentVoters.statement r.pairId
  /-- On a new connection everything is sent. -/
  fresh : ∀ link, event = .connectionEstablished link → a.componentVoters.CarriedBy (messagesOn link out)
  /-- What is confirmed alone is held, and owed to the other arbiter. -/
  alone : ∀ p s, .statementHeld p s true ∈ out →
    a.componentVoters.active = true ∧ a.peerContact.mayConfirmAlone now = true ∧
      a.votesIn p = true ∧ a'.componentVoters.Holds p s ∧ (∀ link, a'.owes link = true) ∧
      ∀ link sentAt echoed, .heartbeat sentAt echoed ∉ messagesOn link out
  /-- Leases are granted only by an arbiter that is not behind. -/
  grants : ∀ p c e r, .grant p c e r ∈ out → a.stillBehind now = false

/-- What following the lease rules leaves alone. -/
structure SameContact (a a' : Arbiter) : Prop where
  owes : ∀ link, a'.owes link = a.owes link
  valid : ∀ link, a'.valid link = a.valid link
  statements : a'.componentVoters.statements = a.componentVoters.statements
  store : a'.store = a.store

/-- Following the lease rules after a message leaves the contact alone, but for having heard from
the other arbiter. -/
theorem follow_spec (fromPeer : Bool) (change : LeaseChange) (lease : PairLeaseAgent) (now : Nat) :
    SameContact a (a.follow fromPeer change lease now) ∧ (a.follow fromPeer change lease now).peerContact =
        (if fromPeer then a.peerContact.heard now else a.peerContact) ∧
      ComesNotBehind a now (a.follow fromPeer change lease now) := by
  obtain ⟨b, rfl, ⟨h, -⟩ | ⟨h, -⟩ | ⟨h, -⟩⟩ := follow_cases a fromPeer change lease now <;> rw [h]
  all_goals refine ⟨⟨fun l => by cases l <;> rfl, fun l => by cases l <;> rfl, rfl, rfl⟩, rfl, ?_⟩
  · exact fun ha hf => .inl ⟨ha, hf⟩
  · exact fun _ hf => .inr (by cases fromPeer <;> exact hf)
  · exact nofun

variable {now : Nat} {a a' : Arbiter} {event : ArbiterEvent}

/-- What an event does on which nothing is sent. -/
theorem Takes.effect (h : Takes a now event a') (howes : ∀ link, a'.owes link = a.owes link)
    (hlink : ∀ link, event ≠ .connectionEstablished link) : Effect a now event [] a' where
  toTakes := h
  heartbeats _ earlier _ _ _ h := by cases earlier <;> cases h
  settled link ho ho' := by
    rw [howes, ho] at ho'
    cases ho'
  records _ _ hr := (not_mem_nil hr).elim
  fresh link hl := absurd hl (hlink link)
  alone _ _ hm := (not_mem_nil hm).elim
  grants _ _ _ _ hm := (not_mem_nil hm).elim

section

variable (hcontact : a'.peerContact = a.peerContact ∨ a'.peerContact = a.peerContact.heard now)
  (hbehind : ComesNotBehind a now a') (hevent : ∀ sentAt echoed, event ≠ .heartbeat sentAt echoed)
  (hrecord : ∀ r saved, event ≠ .stateRecord r saved)
include hcontact hbehind hevent hrecord

/-- An event that leaves the statements alone. -/
theorem Takes.of_same (hstatements : a'.componentVoters.statements = a.componentVoters.statements)
    (hstore : a'.store = a.store) : Takes a now event a' where
  grows p s := (holds_congr hstatements p s).mpr
  valid hv _ := hv.of_same hstatements
  learns _ r saved hr := absurd hr (hrecord r saved)
  store := .inl hstore
  contact := .inr ⟨hevent, hcontact⟩
  behind := hbehind

variable (hlink : ∀ link, event ≠ .connectionEstablished link)
include hlink

/-- What an event does that leaves the contact alone. -/
theorem SameContact.effect (h : SameContact a a') : Effect a now event [] a' :=
  (Takes.of_same hcontact hbehind hevent hrecord h.statements h.store).effect h.owes hlink

omit hcontact hbehind in
/-- What an event does that only follows the lease rules. -/
theorem effect_follow {a : Arbiter} (fromPeer : Bool) (change : LeaseChange) (lease : PairLeaseAgent) :
    Effect a now event [] (a.follow fromPeer change lease now) := by
  obtain ⟨hsame, hcontact, hbehind⟩ := follow_spec a fromPeer change lease now
  refine hsame.effect ?_ hbehind hevent hrecord hlink
  cases fromPeer with
  | false => exact .inl hcontact
  | true => exact .inr hcontact

end

/-- What is owed and sent are records. -/
theorem record_of_mem_sendOwedState {a : Arbiter} {link link' : PeerLink} {m : PeerMessage}
    (h : m ∈ messagesOn link' (a.sendOwedState link).1) : ∃ p, m = .stateRecord (a.groupState p) := by
  rw [mem_messagesOn] at h
  unfold sendOwedState at h
  split at h
  · obtain ⟨p, hp⟩ := mem_sendWholeState h
    exact ⟨p, by cases hp; rfl⟩
  · cases h

/-- What is left as it was when a heartbeat is sent. -/
theorem sendHeartbeat_spec (a : Arbiter) (link : PeerLink) (now : Nat) :
    (a.sendHeartbeat link now).2.componentVoters = a.componentVoters ∧
      (a.sendHeartbeat link now).2.peerContact = a.peerContact ∧
        (a.sendHeartbeat link now).2.store = a.store ∧
      (a.sendHeartbeat link now).2.mayBeBehind = a.mayBeBehind ∧
      (∀ l, (a.sendHeartbeat link now).2.valid l = a.valid l) ∧ ∀ l, (a.sendHeartbeat link now).2.owes l =
        if l = link ∧ a.valid link = true then false else a.owes l := by
  unfold sendHeartbeat
  split
  · next hv =>
    unfold sendOwedState
    split
    · refine ⟨?_, ?_, ?_, ?_, fun l => ?_, fun l => ?_⟩
      all_goals cases link <;> try cases l
      all_goals first | rfl | simp [hv, sendWholeStateToPeer, owes]
    · next ho =>
      refine ⟨rfl, rfl, rfl, rfl, fun _ => rfl, fun l => ?_⟩
      split
      · next hl =>
        rw [hl.1]
        exact Bool.eq_false_iff.mpr ho
      · rfl
  · next hv => exact ⟨rfl, rfl, rfl, rfl, fun _ => rfl, fun l => (if_neg fun hc => hv hc.2).symm⟩

/-- What is owed depends on what is known and on whether it is owed. -/
theorem messagesOn_sendOwedState_congr {a b : Arbiter}
    (hv : b.componentVoters = a.componentVoters) (ho : b.owes link = a.owes link) :
    messagesOn link (b.sendOwedState link).1 = messagesOn link (a.sendOwedState link).1 := by
  unfold sendOwedState sendWholeStateToPeer groups groupState
  rw [ho, hv]
  split <;> rfl

/-- **What a tick sends on a connection**: a heartbeat, after the whole state if it is owed. -/
theorem messagesOn_sendHeartbeats (a : Arbiter) (link : PeerLink) (now : Nat) :
    messagesOn link (a.sendHeartbeatsToPeer now).1 = if a.valid link then
        messagesOn link (a.sendOwedState link).1 ++ [.heartbeat now a.peerContact.newestReceived]
      else [] := by
  obtain ⟨hvoters, hcontact, -, -, hvalid, howes⟩ := sendHeartbeat_spec a .outbound now
  change messagesOn link ((a.sendHeartbeat .outbound now).1 ++
    ((a.sendHeartbeat .outbound now).2.sendHeartbeat .inbound now).1) = _
  rw [messagesOn_append]
  cases link with
  | outbound =>
    rw [messagesOn_sendHeartbeat_ne _ (by decide : PeerLink.outbound ≠ .inbound), append_nil]
    exact messagesOn_sendHeartbeat a .outbound now
  | inbound =>
    rw [messagesOn_sendHeartbeat_ne a (by decide : PeerLink.inbound ≠ .outbound), nil_append,
      messagesOn_sendHeartbeat, hvalid, hcontact]
    have hin := howes .inbound
    rw [if_neg (by simp)] at hin
    rw [messagesOn_sendOwedState_congr hvoters hin]

/-- What a tick leaves as it was, and what it no longer owes. -/
theorem sendHeartbeats_spec (a : Arbiter) (now : Nat) :
    (a.sendHeartbeatsToPeer now).2.componentVoters = a.componentVoters ∧
      (a.sendHeartbeatsToPeer now).2.peerContact = a.peerContact ∧
        (a.sendHeartbeatsToPeer now).2.store = a.store ∧
      (a.sendHeartbeatsToPeer now).2.mayBeBehind = a.mayBeBehind ∧
        ∀ link, (a.sendHeartbeatsToPeer now).2.owes link =
        if a.valid link = true then false else a.owes link := by
  obtain ⟨h₁, h₂, h₃, h₄, hvalid, howes⟩ := sendHeartbeat_spec a .outbound now
  obtain ⟨h₁', h₂', h₃', h₄', -, howes'⟩ :=
    sendHeartbeat_spec (a.sendHeartbeat .outbound now).2 .inbound now
  refine ⟨h₁'.trans h₁, h₂'.trans h₂, h₃'.trans h₃, h₄'.trans h₄, fun link => ?_⟩
  change ((a.sendHeartbeat .outbound now).2.sendHeartbeat .inbound now).2.owes link = _
  rw [howes', howes, hvalid]
  cases link <;> simp

/-- The one heartbeat among records. -/
theorem eq_of_records_append {records earlier later : List PeerMessage}
    {sentAt echoed sentAt' echoed' : Int} (hr : ∀ m ∈ records, ∃ r, m = .stateRecord r)
    (h : records ++ [.heartbeat sentAt echoed] = earlier ++ .heartbeat sentAt' echoed' :: later) :
    earlier = records ∧ sentAt' = sentAt ∧ echoed' = echoed := by
  induction records generalizing earlier with
  | nil =>
    cases earlier with
    | nil =>
      cases h
      exact ⟨rfl, rfl, rfl⟩
    | cons e es => cases es <;> cases h
  | cons r rs ih =>
    cases earlier with
    | nil =>
      obtain ⟨x, hx⟩ := hr r mem_cons_self
      rw [hx] at h
      cases h
    | cons =>
      obtain ⟨he, hrest⟩ := cons.inj h
      obtain ⟨hes, hsame⟩ := ih (fun m hm => hr m (mem_cons_of_mem _ hm)) hrest
      exact ⟨by rw [hes, he], hsame⟩

/-- **What a tick does.** -/
theorem effect_tick {a : Arbiter} {now wait : Nat} (change : LeaseChange) (lease : PairLeaseAgent) :
    Effect a now (.tick wait) ((a.follow false change lease now).sendHeartbeatsToPeer now).1
      ((a.follow false change lease now).sendHeartbeatsToPeer now).2 := by
  obtain ⟨hsame, hcontact, hbehind⟩ := follow_spec a false change lease now
  obtain ⟨hvoters, hcontact', hstore, hflag, howes⟩ :=
    sendHeartbeats_spec (a.follow false change lease now) now
  have hmsg := fun link => messagesOn_sendHeartbeats (a.follow false change lease now) link now
  have hout : ∀ o ∈ ((a.follow false change lease now).sendHeartbeatsToPeer now).1,
      ∃ link m, o = .toPeer link m := fun _ => mem_sendHeartbeats
  generalize a.follow false change lease now = b at *
  -- the whole state carries what was held before the tick
  have hcarried : ∀ link, a.owes link = true →
      a.componentVoters.CarriedBy (messagesOn link (b.sendOwedState link).1) := by
    intro link ho p s hs
    rw [← hsame.owes] at ho
    rw [← holds_congr hsame.statements] at hs
    unfold sendOwedState
    rw [if_pos ho]
    exact carriesAll_sendWholeState b link p s hs
  refine
    { grows := fun p s hs => ?_
      valid := fun hv _ => hv.of_same (by rw [hvoters, hsame.statements])
      learns := nofun
      store := .inl (hstore.trans hsame.store)
      contact := .inr ⟨nofun, .inl (hcontact'.trans hcontact)⟩
      behind := fun hactive hf => hbehind (hvoters ▸ hactive) (hflag ▸ hf)
      heartbeats := fun link earlier sentAt echoed later h => ?_
      settled := fun link ho ho' => ?_
      records := fun link r hr => ?_
      fresh := nofun
      alone := fun p s hm => ?_
      grants := fun _ _ _ _ hm => ?_ }
  · rw [hvoters]
    exact (holds_congr hsame.statements p s).mpr hs
  · rw [hmsg] at h
    split at h
    · obtain ⟨rfl, rfl, rfl⟩ := eq_of_records_append
        (fun m hm => let ⟨_, hp⟩ := record_of_mem_sendOwedState hm; ⟨_, hp⟩) h
      exact ⟨rfl, by rw [hcontact'], nofun, hcarried link⟩
    · cases earlier <;> cases h
  · rw [howes] at ho'
    split at ho'
    · next hv =>
      rw [hmsg, if_pos hv]
      exact (hcarried link ho).append_left _
    · rw [hsame.owes, ho] at ho'
      cases ho'
  · rw [hmsg] at hr
    split at hr
    · rcases mem_append.mp hr with hr | hr
      · obtain ⟨p, hp⟩ := record_of_mem_sendOwedState hr
        cases hp
        rw [hvoters]
        rfl
      · cases mem_singleton.mp hr
    · cases hr
  all_goals
    obtain ⟨link, m, h⟩ := hout _ hm
    cases h

/-- **What a new connection does.** -/
theorem effect_connectionEstablished (a : Arbiter) (now : Nat) (link : PeerLink) :
    Effect a now (.connectionEstablished link) ((a.setValid link true).sendWholeStateToPeer link).1
      ((a.setValid link true).sendWholeStateToPeer link).2 := by
  have hcarried : ∀ l, l = link → a.componentVoters.CarriedBy
      (messagesOn l ((a.setValid link true).sendWholeStateToPeer link).1) := by
    rintro l rfl
    have := carriesAll_sendWholeState (a.setValid l true) l
    cases l <;> exact this
  have howes : ∀ l, l ≠ link → ((a.setValid link true).sendWholeStateToPeer link).2.owes l = a.owes l := by
    intro l hl
    cases l <;> cases link <;> first | rfl | exact absurd rfl hl
  have hvoters : ((a.setValid link true).sendWholeStateToPeer link).2.componentVoters =
      a.componentVoters := by cases link <;> rfl
  refine
    { grows := fun p s hs => by rw [hvoters]; exact hs
      valid := fun hv _ => by rw [hvoters]; exact hv
      learns := nofun
      store := .inl (by cases link <;> rfl)
      contact := .inr ⟨nofun, .inl (by cases link <;> rfl)⟩
      behind := fun hactive hf => .inl ⟨?_, ?_⟩
      heartbeats := fun l earlier sentAt echoed later h => ?_
      settled := fun l ho ho' => ?_
      records := fun l r hr => ?_
      fresh := fun l h => hcarried l (by cases h; rfl)
      alone := fun p s hm => ?_
      grants := fun _ _ _ _ hm => ?_ }
  · rw [hvoters] at hactive
    exact hactive
  · cases link <;> exact hf
  · have hmem : PeerMessage.heartbeat sentAt echoed ∈
        messagesOn l ((a.setValid link true).sendWholeStateToPeer link).1 := by
      rw [h]
      exact mem_append_right _ mem_cons_self
    obtain ⟨p, hp⟩ := mem_sendWholeState (mem_messagesOn.mp hmem)
    cases hp
  · by_cases hl : l = link
    · exact hcarried l hl
    · rw [howes l hl, ho] at ho'
      cases ho'
  · obtain ⟨p, hp⟩ := mem_sendWholeState (mem_messagesOn.mp hr)
    cases hp
    rw [hvoters]
    cases link <;> rfl
  all_goals
    obtain ⟨q, hq⟩ := mem_sendWholeState hm
    cases hq

/-- **What a record of the other arbiter's does.** -/
theorem effect_stateRecord (hw : a.componentVoters.WellFormed) {record : ArbiterStateRecord} {saved : Bool}
    (h : (a.hear now).handleArbiterStateRecord record saved = .ok a') :
    Effect a now (.stateRecord record saved) [] a' := by
  obtain ⟨hwe, hterm, hste⟩ := learnEpoch_spec hw record.pairId record.epoch
  rcases handleArbiterStateRecord_eq_ok h with ⟨hnone, rfl⟩ | ⟨hlead, learnt, voters, hl, rfl⟩
  · refine Takes.effect ?_ (fun link => by cases link <;> rfl) nofun
    exact
      { grows := fun p s => (holds_congr hste p s).mpr
        valid := fun hv _ => hv.of_same hste
        learns := fun _ r saved' hr hvalid => by
          cases hr
          obtain ⟨⟨hlead, -⟩, -⟩ := hvalid
          omega
        store := .inl rfl
        contact := .inr ⟨nofun, .inr rfl⟩
        behind := fun ha hf => .inl ⟨hterm.active.symm.trans ha, hf⟩ }
  obtain ⟨-, hterm', hst, -⟩ := learnStatement_eq_ok hwe hl
  -- learning the epoch does not touch the statements
  have hst' : voters.statements = a.componentVoters.statements.insert record.pairId
      (newest (a.componentVoters.statement record.pairId) record.statement) := by
    rw [hst]
    unfold statement
    rw [← hste]
  have hactive : voters.active = a.componentVoters.active := hterm'.active.trans hterm.active
  refine Takes.effect ?_ (fun link => by cases link <;> rfl) nofun
  exact
    { grows := fun p s hs => hs.insert_newest hst' hlead
      valid := fun hv hr => by
        obtain ⟨hl, -, hfits, hnum⟩ := hr record saved rfl hlead
        exact hv.insert_newest hst' hl hnum hfits
      learns := fun hv r saved' hr hvalid => by
        cases hr
        exact hv.holds_newest hst' hvalid
      store := by
        cases learnt <;> cases saved <;> first | exact .inl rfl | exact .inr rfl
      contact := .inr ⟨nofun, .inr rfl⟩
      behind := fun ha hf => .inl ⟨hactive ▸ ha, hf⟩ }

/-- **What a heartbeat of the other arbiter's does.** -/
theorem effect_heartbeat (a : Arbiter) (now : Nat) (sentAt echoed : Int) :
    Effect a now (.heartbeat sentAt echoed) []
      { a with peerContact := (a.peerContact.heard now).onHeartbeat sentAt echoed now } := by
  refine Takes.effect ?_ (fun link => by cases link <;> rfl) nofun
  exact
    { grows := fun _ _ hs => hs
      valid := fun hv _ => hv
      learns := nofun
      store := .inl rfl
      contact := .inl ⟨sentAt, echoed, rfl, rfl⟩
      behind := fun ha hf => .inl ⟨ha, hf⟩ }

/-- **What recording a request's statement does.** -/
structure Records (a : Arbiter) (now : Nat) (request : ComponentRequest) (out : List ArbiterOutput)
    (b : Arbiter) : Prop where
  grows : ∀ p s, a.componentVoters.Holds p s → b.componentVoters.Holds p s
  valid : a.componentVoters.Valid → b.componentVoters.Valid
  store : b.store = a.store ∨ b.store = b.componentVoters.statements
  contact : b.peerContact = a.peerContact
  active : b.componentVoters.active = a.componentVoters.active
  flag : b.mayBeBehind = a.mayBeBehind
  /-- Nothing is settled by it. -/
  owes : ∀ link, a.owes link = true → b.owes link = true
  /-- Only the statement is confirmed. -/
  confirms : ∀ o ∈ out, ∃ alone, o = .statementHeld request.pairId request.statement alone
  /-- What is confirmed is held, and owed to the other arbiter if it is confirmed alone. -/
  alone : .statementHeld request.pairId request.statement true ∈ out →
    a.componentVoters.active = true ∧ a.peerContact.mayConfirmAlone now = true ∧
      b.componentVoters.Holds request.pairId request.statement ∧ ∀ link, b.owes link = true

variable {request : ComponentRequest}

/-- Recording a request's statement does that. -/
theorem records_recordComponentStatement {a b : Arbiter} (hw : a.componentVoters.WellFormed)
    {saved changed : Bool} (h : a.recordComponentStatement request saved now = .ok (changed, out, b)) :
    Records a now request out b := by
  rcases recordComponentStatement_eq_ok h with ⟨rfl, rfl⟩ | ⟨held, voters, d, hr, hd, hcases⟩
  · exact ⟨fun _ _ hs => hs, id, .inl rfl, rfl, rfl, rfl, fun _ ho => ho, nofun, nofun⟩
  obtain ⟨-, hterm, hst, hheld, hlead, hlead', hnumber⟩ := recordStatement_eq_ok hw hr
  obtain ⟨store, unsaved, hsave, hstore⟩ := saveIfNeeded_eq { a with componentVoters := voters } _ saved
  obtain rfl := hsave.symm.trans hd
  -- what holds whether or not the statement is confirmed
  have hbase : Records a now request []
      { a with componentVoters := voters, store, componentStatementsUnsaved := unsaved } :=
    { grows := fun p s hs => hs.insert_newest hst (by omega)
      valid := fun hv => hv.insert_newest hst ⟨hlead, hlead'⟩ hnumber request.epoch_fits
      store := hstore
      contact := rfl
      active := hterm.active
      flag := rfl
      owes := fun link ho => by cases link <;> exact ho
      confirms := nofun
      alone := nofun }
  rcases hcases with ⟨rfl, rfl⟩ | ⟨-, hne, hconf⟩
  · exact hbase
  -- the statement held is the one confirmed
  have hholds : voters.Holds request.pairId request.statement := by
    have hsame := hheld hne
    unfold Holds
    rw [statement_of_insert hst, if_pos rfl]
    refine ⟨?_, .of_sameAs hsame⟩
    simp only [LeaderStatement.sameAs, Bool.and_eq_true, decide_eq_true_eq] at hsame
    omega
  obtain ⟨rfl, rfl⟩ := Prod.mk.inj hconf
  split
  · next hboth =>
    rw [Bool.and_eq_true] at hboth
    exact { hbase with
      owes := fun link _ => by cases link <;> rfl
      confirms := fun o ho => ⟨_, mem_singleton.mp ho⟩
      alone := fun _ => ⟨hterm.active ▸ hboth.1, hboth.2, hholds, fun link => by cases link <;> rfl⟩ }
  · next hno =>
    refine { hbase with
      confirms := fun o ho => ⟨_, mem_singleton.mp ho⟩
      alone := fun hm => ?_ }
    injection mem_singleton.mp hm with _ _ halone
    exact absurd halone.symm hno

/-- Recording a statement sends nothing to the other arbiter. -/
theorem Records.messagesOn_eq_nil {a b : Arbiter} (h : Records a now request out b) (link : PeerLink) :
    messagesOn link out = [] := by
  refine Arbiter.messagesOn_eq_nil fun m hm => ?_
  obtain ⟨alone, ho⟩ := h.confirms _ hm
  cases ho

/-- What recording a statement does is what the request does, if it is not answered. -/
theorem Records.effect {a b : Arbiter} {saved : Bool} (h : Records a now request out b)
    (hvotes : a.votesIn request.pairId = true) : Effect a now (.componentRequest request saved) out b where
  grows := h.grows
  valid hv _ := h.valid hv
  learns _ _ _ hr := by cases hr
  store := h.store
  contact := .inr ⟨nofun, .inl h.contact⟩
  behind ha hf := .inl ⟨h.active ▸ ha, h.flag ▸ hf⟩
  heartbeats link earlier _ _ _ he := by
    rw [h.messagesOn_eq_nil] at he
    cases earlier <;> cases he
  settled link ho ho' := by
    rw [h.owes link ho] at ho'
    cases ho'
  records link r hr := by
    rw [h.messagesOn_eq_nil] at hr
    cases hr
  fresh _ hl := by cases hl
  alone p s hm := by
    obtain ⟨alone, ho⟩ := h.confirms _ hm
    cases ho
    obtain ⟨hactive, hmay, hholds, howes⟩ := h.alone hm
    refine ⟨hactive, hmay, hvotes, hholds, howes, fun link _ _ hb => ?_⟩
    rw [h.messagesOn_eq_nil] at hb
    cases hb
  grants _ _ _ _ hm := by
    obtain ⟨alone, ho⟩ := h.confirms _ hm
    cases ho

section

variable (hw : a.componentVoters.WellFormed)
include hw

/-- **What a component's request does.** -/
theorem effect_componentRequest {saved : Bool}
    (h : a.handleComponentLeaseRequest request saved now = .ok (out, a')) :
    Effect a now (.componentRequest request saved) out a' := by
  rcases handleComponentLeaseRequest_eq_ok h with ⟨rfl, rfl⟩ | ⟨hvotes, changed, out₁, b, hr, hcases⟩
  · have htakes : Takes a' now (.componentRequest request saved) a' :=
      Takes.of_same (.inl rfl) (fun ha hf => .inl ⟨ha, hf⟩) nofun nofun rfl rfl
    exact htakes.effect (fun _ => rfl) nofun
  have hrec := records_recordComponentStatement hw hr
  rcases hcases with ⟨rfl, rfl⟩ | ⟨-, hb, out₂, ha, rfl⟩
  · exact hrec.effect hvotes
  have heffect : Effect a now (.componentRequest request saved) out₁ b := hrec.effect hvotes
  obtain ⟨answer, voters, hc, rfl, hout⟩ := answerComponent_eq_ok ha
  obtain ⟨-, hterm, hstatements, -⟩ := consider_eq_ok (recorded hw hr).wellFormed hc
  have howes : ∀ link, owes { b with componentVoters := voters, mayBeBehind := false } link =
      b.owes link := fun link => by cases link <;> rfl
  have hsent : ∀ link m, m ∈ messagesOn link out₂ → ∃ p,
      m = .stateRecord (groupState { b with componentVoters := voters, mayBeBehind := false } p) := by
    intro link m hm
    obtain ⟨⟨_, _, _, _, ⟨⟩⟩, -⟩ | ⟨_, _, _, _, ⟨⟩⟩ | ⟨_, p, ho⟩ := hout _ (mem_messagesOn.mp hm)
    injection ho with _ hrecord
    exact ⟨p, hrecord⟩
  -- an arbiter that answers is not behind
  have hnot : a.stillBehind now = false := by
    unfold stillBehind at hb ⊢
    rw [← hrec.flag, ← hrec.contact]
    exact hb
  have hmsg : ∀ link, messagesOn link (out₁ ++ out₂) = messagesOn link out₂ := fun link => by
    rw [messagesOn_append, hrec.messagesOn_eq_nil, nil_append]
  have hheld : ∀ p s, .statementHeld p s true ∈ out₁ ++ out₂ → .statementHeld p s true ∈ out₁ :=
    fun p s hm => (mem_append.mp hm).resolve_right fun hm => by
      obtain ⟨⟨_, _, _, _, ⟨⟩⟩, -⟩ | ⟨_, _, _, _, ⟨⟩⟩ | ⟨_, _, ⟨⟩⟩ := hout _ hm
  refine
    { grows := fun p s hs => ?_
      valid := fun hv _ => (hrec.valid hv).of_same hstatements
      learns := nofun
      store := ?_
      contact := .inr ⟨nofun, .inl hrec.contact⟩
      behind := fun hact' _ => ?_
      heartbeats := fun link earlier _ _ _ he => ?_
      settled := fun link ho ho' => ?_
      records := fun link r hm => ?_
      fresh := nofun
      alone := fun p s hm => ?_
      grants := fun _ _ _ _ _ => hnot }
  · exact (holds_congr hstatements p s).mpr (hrec.grows p s hs)
  · exact hstatements ▸ hrec.store
  · -- it was active, and either not behind or with a fresh echo
    rw [hterm.active, hrec.active] at hact'
    rcases Bool.and_eq_false_iff.mp hnot with hflag | hecho
    · exact .inl ⟨hact', hflag⟩
    · exact .inr hecho
  · rw [hmsg] at he
    obtain ⟨p, hp⟩ := hsent link _ (he ▸ mem_append_right _ mem_cons_self)
    cases hp
  · rw [howes, hrec.owes link ho] at ho'
    cases ho'
  · rw [hmsg] at hm
    obtain ⟨p, hp⟩ := hsent link _ hm
    cases hp
    rfl
  · obtain ⟨hact', hmay, hv, hholds, howes', -⟩ := heffect.alone p s (hheld p s hm)
    refine ⟨hact', hmay, hv, (holds_congr hstatements p s).mpr hholds,
      fun link => (howes link).trans (howes' link), fun link _ _ hb => ?_⟩
    rw [hmsg] at hb
    obtain ⟨q, hq⟩ := hsent link _ hb
    cases hq

/-- **Every event has such an effect.** -/
theorem effect_handle (h : a.handle now event = .ok (out, a')) : Effect a now event out a' := by
  cases event with
  | tick wait =>
    obtain ⟨⟨change, lease⟩, -, h⟩ := bind_eq_ok.mp h
    have heffect : Effect a now (.tick wait) _ _ := effect_tick change lease
    rw [Except.ok.inj h] at heffect
    exact heffect
  | poolRequest =>
    obtain ⟨⟨reply, lease⟩, -, h⟩ := bind_eq_ok.mp h
    cases h
    exact effect_follow (by nofun) (by nofun) (by nofun) true _ _
  | poolGrant =>
    obtain ⟨⟨change, lease⟩, -, h⟩ := bind_eq_ok.mp h
    cases h
    exact effect_follow (by nofun) (by nofun) (by nofun) _ _ _
  | poolRefusal =>
    cases h
    exact effect_follow (by nofun) (by nofun) (by nofun) _ _ _
  | promiseWritten landed =>
    cases h
    have hsame : SameContact a (a.promiseWritten landed) ∧
      (a.promiseWritten landed).peerContact = a.peerContact ∧
        ComesNotBehind a now (a.promiseWritten landed) := by
      unfold promiseWritten
      dsimp only
      split
      · exact ⟨⟨fun l => by cases l <;> rfl, fun l => by cases l <;> rfl, rfl, rfl⟩, rfl,
          fun ha hf => .inl ⟨ha, hf⟩⟩
      · exact ⟨⟨fun _ => rfl, fun _ => rfl, rfl, rfl⟩, rfl, fun ha hf => .inl ⟨ha, hf⟩⟩
    exact hsame.1.effect (.inl hsame.2.1) hsame.2.2 nofun nofun nofun
  | componentRequest => exact effect_componentRequest hw h
  | heartbeat sentAt echoed =>
    cases h
    exact effect_heartbeat a now sentAt echoed
  | stateRecord =>
    obtain ⟨b, hb, h⟩ := bind_eq_ok.mp h
    cases h
    exact effect_stateRecord hw hb
  | connectionEstablished link =>
    have heffect := effect_connectionEstablished a now link
    rw [Except.ok.inj h] at heffect
    exact heffect
  | connectionLost link =>
    cases h
    have hcontact : (a.setValid link false).peerContact = a.peerContact := by cases link <;> rfl
    have hbehind : ComesNotBehind a now (a.setValid link false) := by
      intro ha hf
      cases link <;> exact Or.inl ⟨ha, hf⟩
    refine (Takes.of_same (.inl hcontact) hbehind (by nofun) (by nofun) ?_ ?_).effect (fun l => ?_) nofun
    · cases link <;> rfl
    · cases link <;> rfl
    · cases link <;> cases l <;> rfl

end

/-! ## Starting -/

/-- What can be read back is valid. -/
theorem valid_of_readable {p : Int} {s : LeaderStatement} (h : readable p s = true) : s.Valid := by
  simp only [readable, Bool.and_eq_true, Bool.or_eq_true, decide_eq_true_eq] at h
  exact ⟨by omega, h.1.1.2, h.1.2, h.2⟩

variable {config : ArbiterConfiguration}

/-- A valid statement of a pair the arbiter votes in can be read back. -/
theorem readable_of_valid {p : Int} {s : LeaderStatement}
    (hp : config.votingPairs.contains p = true) (h : s.Valid) :
    readable p s = true := by
  obtain ⟨hlead, hepoch, hfits, hnumber⟩ := h
  obtain ⟨hpos, hint⟩ := config.votingPairs_valid p (contains_iff_mem.mp hp)
  simp only [readable, Bool.and_eq_true, Bool.or_eq_true, decide_eq_true_eq]
  exact ⟨⟨⟨⟨⟨hpos, hint⟩, by omega⟩, hepoch⟩, hfits⟩, hnumber⟩

/-- What is learnt at the start is held, and all of it is valid. -/
theorem learnAtStart_holds {l : List (Int × LeaderStatement)}
    (hl : ∀ e ∈ l, readable e.1 e.2 = true) {c c' : ComponentLeaseVoters}
    (hw : c.WellFormed) (hv : c.Valid) (h : learnAtStart config c l = .ok c') :
    c'.Valid ∧ (∀ p s, c.Holds p s → c'.Holds p s) ∧
      ∀ p d, (p, d) ∈ l → config.votingPairs.contains p = true → c'.Holds p d := by
  induction l generalizing c with
  | nil =>
    cases h
    exact ⟨hv, fun _ _ hs => hs, nofun⟩
  | cons e rest ih =>
    have hrest : ∀ e ∈ rest, readable e.1 e.2 = true :=
      fun e he => hl e (mem_cons_of_mem _ he)
    have hvalid := valid_of_readable (hl e mem_cons_self)
    unfold learnAtStart at h
    split at h
    · next hno =>
      obtain ⟨hv', hgrows, hheld⟩ := ih hrest hw hv h
      refine ⟨hv', hgrows, fun p d hm hp => ?_⟩
      rcases mem_cons.mp hm with rfl | hm
      · rw [hp] at hno
        cases hno
      · exact hheld p d hm hp
    · obtain ⟨⟨learnt, c₁⟩, hlearn, h⟩ := bind_eq_ok.mp h
      obtain ⟨hw₁, -, hst, -⟩ := learnStatement_eq_ok hw hlearn
      obtain ⟨hlead, -, hfits, hnumber⟩ := hvalid
      obtain ⟨hv', hgrows, hheld⟩ := ih hrest hw₁ (hv.insert_newest hst hlead hnumber hfits) h
      refine ⟨hv', fun p s hs => hgrows p s (hs.insert_newest hst (by omega)), fun p d hm hp => ?_⟩
      rcases mem_cons.mp hm with rfl | hm
      · exact hgrows p d (hv.holds_newest hst (valid_of_readable (hl _ mem_cons_self)))
      · exact hheld p d hm hp

/-- **An arbiter that starts** has the contact of one that has heard nothing yet, and holds the
valid statements of its file. -/
theorem contact_start {store : Statements}
    {kept : Option LeasePromiseRecord} {keptStatement : LeaderStatement} {a : Arbiter}
    (h : start config store kept keptStatement now = .ok a) :
    a.peerContact = { timing := config.lease, lastHeard := now } ∧ a.store = store ∧
      a.config = config ∧ a.componentVoters.Valid ∧
      ∀ p d, store.lookup p = some d → config.votingPairs.contains p = true → d.Valid →
        a.componentVoters.Holds p d := by
  obtain ⟨lease, -, h⟩ := bind_eq_ok.mp h
  obtain ⟨voters, hv, h⟩ := bind_eq_ok.mp h
  cases h
  have hwellFormed : WellFormed { leasePeriod := config.lease.terms.leasePeriod } :=
    ⟨fun _ _ hl => by simp at hl, fun _ _ hl => by simp at hl⟩
  have hvalid : Valid { leasePeriod := config.lease.terms.leasePeriod } := fun _ => .inl rfl
  obtain ⟨hvalid', -, hheld⟩ := learnAtStart_holds (fun e he => (mem_load.mp he).2) hwellFormed hvalid hv
  exact ⟨rfl, rfl, rfl, hvalid', fun p d hd hp hdv =>
    hheld p d (mem_load.mpr ⟨hd, readable_of_valid hp hdv⟩) hp⟩

end Arbiter

end PubsubVenue
