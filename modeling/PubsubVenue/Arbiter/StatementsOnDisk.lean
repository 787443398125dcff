import PubsubVenue.Arbiter.Thread
import PubsubVenue.Machine

/-! # A statement is confirmed only once it is on disk

`StatementKeeper` is one arbiter with the file of statements on its disk: it handles any events, its
writes of the file succeed or fail, and its process stops and starts again at any point. Every
`StatementHeld` it sends is noted together with what the file then holds.

* **`confirmed_statements_are_on_disk`**: the file holds the statement confirmed or a later one, if
  every statement learnt from the other arbiter is saved.
* **`confirms_a_statement_not_on_disk`**: a save that fails when the other arbiter reports a
  statement is forgotten, and the statement is then confirmed. -/

namespace PubsubVenue

open ComponentLeaseVoters List

namespace Arbiter

/-! ## What the functions return -/

variable {a a' : Arbiter} {now : Nat} {out : List ArbiterOutput} {request : ComponentRequest} {saved : Bool}

/-- Saving changes only the file, which gets all the statements held or stays, and whether they
differ. -/
theorem saveIfNeeded_eq (a : Arbiter) (changed saved : Bool) : ∃ store unsaved,
    a.saveIfNeeded changed saved = { a with store, componentStatementsUnsaved := unsaved } ∧
      (store = a.store ∨ store = a.componentVoters.statements) := by
  unfold saveIfNeeded saveComponentStatements
  split
  · cases saved with
    | true => exact ⟨_, _, rfl, .inr rfl⟩
    | false => exact ⟨_, _, rfl, .inl rfl⟩
  · exact ⟨_, _, rfl, .inl rfl⟩

/-- The voters, the file, the role and the arbiter's part in its own lease are as they were. -/
structure Unmoved (a a' : Arbiter) : Prop where
  config : a'.config = a.config
  componentVoters : a'.componentVoters = a.componentVoters
  store : a'.store = a.store
  unsaved : a'.componentStatementsUnsaved = a.componentStatementsUnsaved
  role : a'.role = a.role
  peerId : a'.poolLease.peerId = a.poolLease.peerId
  participant : a'.poolLease.participant = a.poolLease.participant

section

variable (a : Arbiter)

theorem Unmoved.refl : Unmoved a a := ⟨rfl, rfl, rfl, rfl, rfl, rfl, rfl⟩

theorem unmoved_sendWholeState (link : PeerLink) : Unmoved a (a.sendWholeStateToPeer link).2 := by
  cases link <;> exact ⟨rfl, rfl, rfl, rfl, rfl, rfl, rfl⟩

theorem unmoved_sendHeartbeat (link : PeerLink) (now : Nat) : Unmoved a (a.sendHeartbeat link now).2 := by
  unfold sendHeartbeat
  split
  · unfold sendOwedState
    split
    · exact unmoved_sendWholeState a link
    · exact .refl a
  · exact .refl a

/-- Sending heartbeats moves nothing. -/
theorem unmoved_sendHeartbeats (now : Nat) : Unmoved a (a.sendHeartbeatsToPeer now).2 := by
  obtain ⟨h₁, h₂, h₃, h₄, h₅, h₆, h₇⟩ := unmoved_sendHeartbeat a .outbound now
  obtain ⟨k₁, k₂, k₃, k₄, k₅, k₆, k₇⟩ :=
    unmoved_sendHeartbeat (a.sendHeartbeat .outbound now).2 .inbound now
  exact ⟨k₁.trans h₁, k₂.trans h₂, k₃.trans h₃, k₄.trans h₄, k₅.trans h₅, k₆.trans h₆, k₇.trans h₇⟩

end

/-- **What recording a request's statement returns**: the statement is saved if it changed, and
confirmed if it is held and nothing is unsaved. -/
theorem recordComponentStatement_eq_ok {changed : Bool}
    (h : a.recordComponentStatement request saved now = .ok (changed, out, a')) :
    out = [] ∧ a' = a ∨ ∃ held voters b,
      a.componentVoters.recordStatement request.pairId request.statement = .ok (held, voters) ∧
      { a with componentVoters := voters }.saveIfNeeded (!(voters.statement request.pairId).sameAs
        (a.componentVoters.statement request.pairId)) saved = b ∧ (out = [] ∧ a' = b ∨
        b.componentStatementsUnsaved = false ∧ held ≠ 0 ∧ b.confirmStatement request now = (out, a')) := by
  unfold recordComponentStatement at h
  split at h
  · cases h
    exact .inl ⟨rfl, rfl⟩
  obtain ⟨⟨held, voters⟩, hr, h⟩ := bind_eq_ok.mp h
  refine .inr ⟨held, voters, _, hr, rfl, ?_⟩
  dsimp only at h
  split at h
  · cases h
    exact .inl ⟨rfl, rfl⟩
  · next hconf =>
    obtain ⟨hu, hne⟩ := Bool.or_eq_false_iff.mp (Bool.eq_false_iff.mpr hconf)
    cases h
    exact .inr ⟨hu, of_decide_eq_false hne, rfl⟩

/-- **What answering a request returns**: a grant and perhaps a copy of what is known, or a refusal. -/
theorem answerComponent_eq_ok {changed : Bool}
    (h : a.answerComponent request changed now = .ok (out, a')) : ∃ answer voters,
      a.componentVoters.consider request.pairId request.candidateId request.epoch now =
        .ok (answer, voters) ∧ a' = { a with componentVoters := voters, mayBeBehind := false } ∧
      ∀ o ∈ out, (∃ p c e r, o = .grant p c e r) ∧ answer.verdict = .granted ∨
        (∃ p e r reason, o = .refusal p e r reason) ∨
          ∃ link p, o = .toPeer link (.stateRecord (a'.groupState p)) := by
  obtain ⟨⟨answer, voters⟩, hc, h⟩ := bind_eq_ok.mp h
  refine ⟨answer, voters, hc, ?_⟩
  dsimp only at h
  split at h
  · next hg =>
    cases h
    refine ⟨rfl, fun o ho => ?_⟩
    rcases mem_cons.mp ho with rfl | ho
    · exact .inl ⟨⟨_, _, _, _, rfl⟩, hg⟩
    split at ho
    · obtain ⟨link, -, rfl⟩ := mem_map.mp ho
      exact .inr (.inr ⟨link, _, rfl⟩)
    · cases ho
  · cases h
    exact ⟨rfl, fun o ho => .inr (.inl ⟨_, _, _, _, mem_singleton.mp ho⟩)⟩

/-- **What a component's request returns**: it is recorded, and answered by an active arbiter that
is not behind. -/
theorem handleComponentLeaseRequest_eq_ok
    (h : a.handleComponentLeaseRequest request saved now = .ok (out, a')) :
    out = [] ∧ a' = a ∨ a.votesIn request.pairId = true ∧ ∃ changed out₁ b,
      a.recordComponentStatement request saved now = .ok (changed, out₁, b) ∧ (out = out₁ ∧ a' = b ∨
        b.componentVoters.active = true ∧ b.stillBehind now = false ∧ ∃ out₂,
          b.answerComponent request changed now = .ok (out₂, a') ∧ out = out₁ ++ out₂) := by
  unfold handleComponentLeaseRequest at h
  split at h
  · cases h
    exact .inl ⟨rfl, rfl⟩
  next hvotes =>
  rw [Bool.not_eq_true', Bool.not_eq_false] at hvotes
  obtain ⟨⟨changed, out₁, b⟩, hr, h⟩ := bind_eq_ok.mp h
  refine .inr ⟨hvotes, changed, out₁, b, hr, ?_⟩
  dsimp only at h
  split at h
  · cases h
    exact .inl ⟨rfl, rfl⟩
  next hact =>
  rw [Bool.not_eq_true, Bool.or_eq_false_iff, Bool.not_eq_false'] at hact
  obtain ⟨⟨out₂, b'⟩, ha, h⟩ := bind_eq_ok.mp h
  cases h
  exact .inr ⟨hact.1, hact.2, out₂, ha, rfl⟩

/-- **What a report of the other arbiter's returns**: the epoch is learnt, and the statement if
there is one, which is then saved if it is newer. -/
theorem handleArbiterStateRecord_eq_ok {record : ArbiterStateRecord}
    (h : a.handleArbiterStateRecord record saved = .ok a') : record.statement.leaderId = 0 ∧
        a' = { a with componentVoters := a.componentVoters.learnEpoch record.pairId record.epoch } ∨
      record.statement.leaderId ≠ 0 ∧ ∃ learnt voters,
        (a.componentVoters.learnEpoch record.pairId record.epoch).learnStatement record.pairId
          record.statement = .ok (learnt, voters) ∧
        a' = { a with componentVoters := voters
                      store := if learnt && saved then voters.statements else a.store } := by
  unfold handleArbiterStateRecord at h
  split at h
  · next hnone =>
    cases h
    exact .inl ⟨hnone, rfl⟩
  next hlead =>
  obtain ⟨⟨learnt, voters⟩, hl, h⟩ := bind_eq_ok.mp h
  cases h
  refine .inr ⟨hlead, learnt, voters, hl, ?_⟩
  cases learnt <;> cases saved <;> rfl

/-- **What following the lease rules does**: the arbiter keeps its role, or begins or ends its time
as the active one. -/
theorem follow_cases (a : Arbiter) (fromPeer : Bool) (change : LeaseChange) (lease : PairLeaseAgent)
    (now : Nat) : ∃ b,
      b = { a with poolLease := lease
                   peerContact := if fromPeer then a.peerContact.heard now else a.peerContact } ∧
      (a.follow fromPeer change lease now = b ∧
        (change = .nothing ∨ change = .becameLeader ∧ a.role = .leader ∨
          (change = .stoppedLeading ∨ change = .agreedPeerLeads) ∧ a.role = .follower) ∨
        a.follow fromPeer change lease now = { b with
          role := .leader, componentVoters := a.componentVoters.becameActive now
          mayBeBehind := b.peerContact.mayBeBehind now } ∧ change = .becameLeader ∨
        a.follow fromPeer change lease now = { b with
          role := .follower, componentVoters := a.componentVoters.becamePassive, mayBeBehind := false } ∧
          (change = .stoppedLeading ∨ change = .agreedPeerLeads)) := by
  refine ⟨_, rfl, ?_⟩
  have hfollow : a.follow fromPeer change lease now = actOn { a with
      poolLease := lease
      peerContact := if fromPeer then a.peerContact.heard now else a.peerContact } change now := by
    cases fromPeer <;> rfl
  rw [hfollow]
  cases change with
  | nothing => exact .inl ⟨rfl, .inl rfl⟩
  | becameLeader =>
    by_cases hr : .leader = a.role
    · exact .inl ⟨if_pos hr, .inr (.inl ⟨rfl, hr.symm⟩)⟩
    · exact .inr (.inl ⟨(if_neg hr).trans (if_pos rfl), rfl⟩)
  | stoppedLeading =>
    by_cases hr : .follower = a.role
    · exact .inl ⟨if_pos hr, .inr (.inr ⟨.inl rfl, hr.symm⟩)⟩
    · exact .inr (.inr ⟨(if_neg hr).trans (if_neg nofun), .inl rfl⟩)
  | agreedPeerLeads =>
    by_cases hr : .follower = a.role
    · exact .inl ⟨if_pos hr, .inr (.inr ⟨.inr rfl, hr.symm⟩)⟩
    · exact .inr (.inr ⟨(if_neg hr).trans (if_neg nofun), .inr rfl⟩)

/-- What the lease rules have decided, on an event. -/
inductive Decided (a : Arbiter) (now : Nat) : LeaseChange → PairLeaseAgent → Prop
  | tick {wait change lease} (h : a.poolLease.onTick now wait 0 = .ok (change, lease)) :
    Decided a now change lease
  | request {candidateId epoch requestId statement reply lease}
    (h : a.poolLease.onRequest candidateId epoch requestId statement now = .ok (reply, lease)) :
    Decided a now reply.change lease
  | grant {voterId epoch requestId echoed change lease}
    (h : a.poolLease.onGrant voterId epoch requestId echoed now = .ok (change, lease)) :
    Decided a now change lease
  | refusal (voterId highestEpoch requestId reason wait) : Decided a now
      (a.poolLease.onRefusal voterId highestEpoch requestId reason now wait).1
      (a.poolLease.onRefusal voterId highestEpoch requestId reason now wait).2

variable {event : ArbiterEvent} {o : ArbiterOutput}

/-- Sending the whole state sends only to the other arbiter. -/
theorem mem_sendWholeState {link : PeerLink} (h : o ∈ (a.sendWholeStateToPeer link).1) :
    ∃ p, o = .toPeer link (.stateRecord (a.groupState p)) := by
  obtain ⟨p, -, rfl⟩ := mem_map.mp h
  exact ⟨p, rfl⟩

/-- Sending a heartbeat sends only to the other arbiter. -/
theorem mem_sendHeartbeat {link : PeerLink} (h : o ∈ (a.sendHeartbeat link now).1) :
    ∃ m, o = .toPeer link m := by
  unfold sendHeartbeat at h
  split at h
  · rcases mem_append.mp h with h | h
    · unfold sendOwedState at h
      split at h
      · obtain ⟨p, rfl⟩ := mem_sendWholeState h
        exact ⟨_, rfl⟩
      · cases h
    · exact ⟨_, mem_singleton.mp h⟩
  · cases h

/-- A tick sends only to the other arbiter. -/
theorem mem_sendHeartbeats (h : o ∈ (a.sendHeartbeatsToPeer now).1) : ∃ link m, o = .toPeer link m := by
  rcases mem_append.mp h with h | h
  · exact ⟨_, mem_sendHeartbeat h⟩
  · exact ⟨_, mem_sendHeartbeat h⟩

/-- **What an event does**: it is a component's request; or only the other arbiter is sent anything,
and it is a report of that arbiter's, or the arbiter follows what the lease rules have decided, or
nothing moves. -/
theorem handle_eq_ok (h : a.handle now event = .ok (out, a')) :
    (∃ request saved, event = .componentRequest request saved ∧
      a.handleComponentLeaseRequest request saved now = .ok (out, a')) ∨
    (∀ o ∈ out, ∃ link m, o = .toPeer link m) ∧ ((∃ record saved, event = .stateRecord record saved ∧
          (a.hear now).handleArbiterStateRecord record saved = .ok a') ∨
        (∃ fromPeer change lease, Decided a now change lease ∧
          Unmoved (a.follow fromPeer change lease now) a') ∨ Unmoved a a') := by
  cases event with
  | tick =>
    obtain ⟨⟨change, lease⟩, ht, h⟩ := bind_eq_ok.mp h
    obtain ⟨rfl, rfl⟩ := Prod.mk.inj (Except.ok.inj h)
    exact .inr ⟨fun _ => mem_sendHeartbeats, .inr (.inl ⟨_, _, _, .tick ht, unmoved_sendHeartbeats _ now⟩)⟩
  | poolRequest =>
    obtain ⟨⟨reply, lease⟩, hr, h⟩ := bind_eq_ok.mp h
    cases h
    exact .inr ⟨nofun, .inr (.inl ⟨_, _, _, .request hr, .refl _⟩)⟩
  | poolGrant =>
    obtain ⟨⟨change, lease⟩, hg, h⟩ := bind_eq_ok.mp h
    cases h
    exact .inr ⟨nofun, .inr (.inl ⟨_, _, _, .grant hg, .refl _⟩)⟩
  | poolRefusal =>
    cases h
    exact .inr ⟨nofun, .inr (.inl ⟨_, _, _, .refusal .., .refl _⟩)⟩
  | promiseWritten =>
    cases h
    unfold promiseWritten
    dsimp only
    split <;> exact .inr ⟨nofun, .inr (.inr ⟨rfl, rfl, rfl, rfl, rfl, rfl, rfl⟩)⟩
  | componentRequest request saved => exact .inl ⟨request, saved, rfl, h⟩
  | heartbeat =>
    cases h
    exact .inr ⟨nofun, .inr (.inr ⟨rfl, rfl, rfl, rfl, rfl, rfl, rfl⟩)⟩
  | stateRecord record saved =>
    obtain ⟨b, hb, h⟩ := bind_eq_ok.mp h
    cases h
    exact .inr ⟨nofun, .inl ⟨record, saved, rfl, hb⟩⟩
  | connectionEstablished link =>
    obtain ⟨rfl, rfl⟩ := Prod.mk.inj (Except.ok.inj h)
    refine .inr ⟨fun _ ho => let ⟨_, h⟩ := mem_sendWholeState ho; ⟨_, _, h⟩, .inr (.inr ?_)⟩
    cases link <;> exact ⟨rfl, rfl, rfl, rfl, rfl, rfl, rfl⟩
  | connectionLost link =>
    cases h
    cases link <;> exact .inr ⟨nofun, .inr (.inr ⟨rfl, rfl, rfl, rfl, rfl, rfl, rfl⟩)⟩

/-- What is recorded changes the voters, the file and what is owed only. -/
structure Recorded (a : Arbiter) (request : ComponentRequest) (out : List ArbiterOutput)
    (a' : Arbiter) : Prop where
  wellFormed : a'.componentVoters.WellFormed
  term : SameTerm a.componentVoters a'.componentVoters
  config : a'.config = a.config
  poolLease : a'.poolLease = a.poolLease
  role : a'.role = a.role
  contact : a'.peerContact = a.peerContact
  flag : a'.mayBeBehind = a.mayBeBehind
  /-- Only the statement is confirmed. -/
  confirms : ∀ o ∈ out, ∃ alone, o = .statementHeld request.pairId request.statement alone

/-- Recording a request's statement does that. -/
theorem recorded (hw : a.componentVoters.WellFormed) {changed : Bool}
    (h : a.recordComponentStatement request saved now = .ok (changed, out, a')) :
    Recorded a request out a' := by
  rcases recordComponentStatement_eq_ok h with ⟨rfl, rfl⟩ | ⟨held, voters, b, hr, hb, hcases⟩
  · exact ⟨hw, ⟨rfl, rfl, rfl⟩, rfl, rfl, rfl, rfl, rfl, nofun⟩
  obtain ⟨hw', hterm, -⟩ := recordStatement_eq_ok hw hr
  obtain ⟨store, unsaved, hsave, -⟩ := saveIfNeeded_eq { a with componentVoters := voters } _ saved
  obtain rfl := hsave.symm.trans hb
  rcases hcases with ⟨rfl, rfl⟩ | ⟨-, -, hconf⟩
  · exact ⟨hw', hterm, rfl, rfl, rfl, rfl, rfl, nofun⟩
  · obtain ⟨rfl, rfl⟩ := Prod.mk.inj hconf
    split <;> exact ⟨hw', hterm, rfl, rfl, rfl, rfl, rfl, fun o ho => ⟨_, mem_singleton.mp ho⟩⟩

/-- **Every event keeps the voters well formed.** -/
theorem wellFormed_handle (hw : a.componentVoters.WellFormed) (h : a.handle now event = .ok (out, a')) :
    a'.componentVoters.WellFormed := by
  rcases handle_eq_ok h with ⟨request, saved, -, h⟩ | ⟨-, ⟨record, saved, -, h⟩ |
    ⟨fromPeer, change, lease, -, hsame⟩ | hsame⟩
  · rcases handleComponentLeaseRequest_eq_ok h with ⟨-, rfl⟩ | ⟨-, changed, out₁, b, hr, hcases⟩
    · exact hw
    rcases hcases with ⟨-, rfl⟩ | ⟨-, -, out₂, ha, -⟩
    · exact (recorded hw hr).wellFormed
    obtain ⟨answer, voters, hc, rfl, -⟩ := answerComponent_eq_ok ha
    exact (consider_eq_ok (recorded hw hr).wellFormed hc).1
  · obtain ⟨hwe, -, -⟩ := learnEpoch_spec (c := a.componentVoters) hw record.pairId record.epoch
    rcases handleArbiterStateRecord_eq_ok h with ⟨-, rfl⟩ | ⟨-, learnt, voters, hl, rfl⟩
    · exact hwe
    · exact (learnStatement_eq_ok hwe hl).1
  · rw [hsame.componentVoters]
    obtain ⟨b, rfl, ⟨h, -⟩ | ⟨h, -⟩ | ⟨h, -⟩⟩ := follow_cases a fromPeer change lease now <;> rw [h]
    · exact hw
    · exact wellFormed_becameActive _ _
    · exact wellFormed_becamePassive _
  · rw [hsame.componentVoters]
    exact hw

/-! ## Memory and disk -/

/-- What is held of a statement is on disk, unless it is known that it may not be. -/
def OnDisk (a : Arbiter) : Prop :=
  a.componentStatementsUnsaved = false → ∀ p s, a.componentVoters.statements.lookup p = some s →
    s.leaderId ≠ 0 → a.store.lookup p = some s

/-- The statement held for a pair is on disk, if it names a leader and nothing is unsaved. -/
theorem OnDisk.lookup_store {a : Arbiter} (h : a.OnDisk) (hu : a.componentStatementsUnsaved = false)
    {p : Int} (hs : (a.componentVoters.statement p).leaderId ≠ 0) :
    a.store.lookup p = some (a.componentVoters.statement p) :=
  h hu p _ (lookup_statements hs) hs

/-- What leaves the statements alone leaves them on disk. -/
theorem OnDisk.of_same (h : a.OnDisk)
    (hstatements : a'.componentVoters.statements = a.componentVoters.statements)
    (hstore : a'.store = a.store)
    (hunsaved : a'.componentStatementsUnsaved = a.componentStatementsUnsaved) : a'.OnDisk := by
  unfold OnDisk
  rw [hunsaved, hstatements, hstore]
  exact h

/-- A statement that does not change is not replaced. -/
theorem newest_eq_of_sameAs {held s : LeaderStatement} (h : (newest held s).sameAs held = true) :
    newest held s = held := by
  unfold newest at h ⊢
  split
  · rename_i hn
    rw [if_pos hn] at h
    simp only [LeaderStatement.newerThan, LeaderStatement.sameAs, Bool.or_eq_true, Bool.and_eq_true,
      decide_eq_true_eq] at hn h
    omega
  · rfl

/-- Holding what was held changes nothing that names a leader. -/
theorem OnDisk.of_insert_held (h : a.OnDisk) {p : Int} (hs : a'.componentVoters.statements =
      a.componentVoters.statements.insert p (a.componentVoters.statement p)) (hstore : a'.store = a.store)
    (hu : a'.componentStatementsUnsaved = a.componentStatementsUnsaved) : a'.OnDisk := by
  intro hu' q s hl hlead
  rw [hu] at hu'
  rw [hs] at hl
  rw [hstore]
  by_cases hq : q = p
  · subst hq
    rw [AList.lookup_insert] at hl
    cases hl
    exact h.lookup_store hu' hlead
  · rw [AList.lookup_insert_ne hq] at hl
    exact h hu' q s hl hlead

/-- **Recording a statement keeps memory on disk**: what changed is saved, or known to be unsaved. -/
theorem OnDisk.saveIfNeeded {a : Arbiter} (h : a.OnDisk) {p : Int} {s : LeaderStatement}
    {voters : ComponentLeaseVoters} (hs : voters.statements = a.componentVoters.statements.insert p
      (newest (a.componentVoters.statement p) s)) (saved : Bool) :
    ({ a with componentVoters := voters }.saveIfNeeded
      (!(voters.statement p).sameAs (a.componentVoters.statement p)) saved).OnDisk := by
  unfold Arbiter.saveIfNeeded
  split
  · cases saved with
    | true => exact fun _ _ _ hl _ => hl
    | false => exact nofun
  · rename_i hno
    obtain ⟨hsame, -⟩ := Bool.or_eq_false_iff.mp (Bool.eq_false_iff.mpr hno)
    rw [Bool.not_eq_false', statement_of_insert hs, if_pos rfl] at hsame
    rw [newest_eq_of_sameAs hsame] at hs
    exact h.of_insert_held hs rfl rfl

/-- What is confirmed is held, and on disk. -/
def ConfirmsOnDisk (out : List ArbiterOutput) (a : Arbiter) : Prop :=
  ∀ p s alone, .statementHeld p s alone ∈ out → a.store.lookup p = some (a.componentVoters.statement p) ∧
      (a.componentVoters.statement p).sameAs s = true

section

variable (hw : a.componentVoters.WellFormed) (hdisk : a.OnDisk)
include hw hdisk

/-- **What recording a request's statement does**: memory stays on disk, and what is confirmed is on
disk. -/
theorem recordComponentStatement_spec {changed : Bool}
    (h : a.recordComponentStatement request saved now = .ok (changed, out, a')) :
    a'.OnDisk ∧ ConfirmsOnDisk out a' := by
  rcases recordComponentStatement_eq_ok h with ⟨rfl, rfl⟩ | ⟨held, voters, b, hr, hb, hcases⟩
  · exact ⟨hdisk, nofun⟩
  obtain ⟨-, -, hst, hheld, hnames⟩ := recordStatement_eq_ok hw hr
  have hdisk' := hdisk.saveIfNeeded hst saved
  rw [hb] at hdisk'
  rcases hcases with ⟨rfl, rfl⟩ | ⟨hu, hne, hconf⟩
  · exact ⟨hdisk', nofun⟩
  obtain ⟨rfl, rfl⟩ := Prod.mk.inj hconf
  have hs : b.componentVoters.statement request.pairId =
      newest (a.componentVoters.statement request.pairId) request.statement := by
    obtain ⟨store, unsaved, hsave, -⟩ := saveIfNeeded_eq { a with componentVoters := voters } _ saved
    rw [← hb, hsave, statement_of_insert hst, if_pos rfl]
  have hsame := hheld hne
  rw [← hs] at hsame
  have hlead : (b.componentVoters.statement request.pairId).leaderId ≠ 0 := by
    simp only [LeaderStatement.sameAs, Bool.and_eq_true, decide_eq_true_eq] at hsame
    omega
  -- a confirmation changes only what is owed
  have hlookup := hdisk'.lookup_store hu hlead
  split
  all_goals
    refine ⟨hdisk'.of_same rfl rfl rfl, fun p s alone hm => ?_⟩
    cases mem_singleton.mp hm
    exact ⟨hlookup, hsame⟩

/-- **What handling a component's request does**, of the statements. -/
theorem handleComponentLeaseRequest_spec
    (h : a.handleComponentLeaseRequest request saved now = .ok (out, a')) :
    a'.OnDisk ∧ ConfirmsOnDisk out a' := by
  rcases handleComponentLeaseRequest_eq_ok h with ⟨rfl, rfl⟩ | ⟨-, changed, out₁, b, hr, hcases⟩
  · exact ⟨hdisk, nofun⟩
  obtain ⟨hdiskb, hconf⟩ := recordComponentStatement_spec hw hdisk hr
  rcases hcases with ⟨rfl, rfl⟩ | ⟨-, -, out₂, ha, rfl⟩
  · exact ⟨hdiskb, hconf⟩
  obtain ⟨answer, voters, hc, rfl, hout⟩ := answerComponent_eq_ok ha
  obtain ⟨-, -, hst, -⟩ := consider_eq_ok (recorded hw hr).wellFormed hc
  refine ⟨hdiskb.of_same hst rfl rfl, fun p s alone hm => ?_⟩
  have hstatement : voters.statement p = b.componentVoters.statement p := by
    unfold statement
    rw [hst]
  rw [hstatement]
  rcases mem_append.mp hm with hm | hm
  · exact hconf p s alone hm
  · obtain ⟨⟨_, _, _, _, ⟨⟩⟩, -⟩ | ⟨_, _, _, _, ⟨⟩⟩ | ⟨_, _, ⟨⟩⟩ := hout _ hm

/-- **What a report of the other arbiter's does**, of the statements, if what is learnt is saved or
something was unsaved before. -/
theorem handleArbiterStateRecord_spec {record : ArbiterStateRecord}
    (hsaved : record.statement.leaderId ≠ 0 →
      record.statement.newerThan (a.componentVoters.statement record.pairId) = true →
      saved = true ∨ a.componentStatementsUnsaved = true)
    (h : a.handleArbiterStateRecord record saved = .ok a') : a'.OnDisk := by
  obtain ⟨hwe, -, hste⟩ := learnEpoch_spec hw record.pairId record.epoch
  have hdiske : OnDisk
      { a with componentVoters := a.componentVoters.learnEpoch record.pairId record.epoch } :=
    hdisk.of_same hste rfl rfl
  rcases handleArbiterStateRecord_eq_ok h with ⟨-, rfl⟩ | ⟨hlead, learnt, voters, hl, rfl⟩
  · exact hdiske
  obtain ⟨-, -, hst, hlearnt⟩ := learnStatement_eq_ok hwe hl
  have hheld : (a.componentVoters.learnEpoch record.pairId record.epoch).statement record.pairId =
      a.componentVoters.statement record.pairId := by
    unfold statement
    rw [hste]
  rw [hheld] at hlearnt hst
  cases learnt with
  | false =>
    have hnew : newest (a.componentVoters.statement record.pairId)
        record.statement = a.componentVoters.statement record.pairId := by
      simp [newest, ← hlearnt]
    rw [hnew] at hst
    exact hdiske.of_insert_held (hheld ▸ hst) rfl rfl
  | true =>
    rcases hsaved hlead hlearnt.symm with rfl | hu
    · exact fun _ _ _ hl _ => hl
    · exact fun hu' => Bool.noConfusion (hu.symm.trans hu')

end

/-! ## Starting -/

/-- Learning at the start the statements of a file holds nothing that is not in it. -/
theorem learnAtStart_eq_ok {config : ArbiterConfiguration} {file : Statements}
    {l : List (Int × LeaderStatement)} (hl : ∀ e ∈ l, file.lookup e.1 = some e.2)
    {c c' : ComponentLeaseVoters} (hw : c.WellFormed)
    (hc : ∀ p s, c.statements.lookup p = some s → s.leaderId ≠ 0 → file.lookup p = some s)
    (h : learnAtStart config c l = .ok c') : c'.WellFormed ∧ SameTerm c c' ∧
      ∀ p s, c'.statements.lookup p = some s → s.leaderId ≠ 0 → file.lookup p = some s := by
  induction l generalizing c with
  | nil =>
    cases h
    exact ⟨hw, ⟨rfl, rfl, rfl⟩, hc⟩
  | cons e rest ih =>
    have hrest : ∀ e ∈ rest, file.lookup e.1 = some e.2 :=
      fun e he => hl e (mem_cons_of_mem _ he)
    unfold learnAtStart at h
    split at h
    · exact ih hrest hw hc h
    · obtain ⟨⟨learnt, c₁⟩, hlearn, h⟩ := bind_eq_ok.mp h
      obtain ⟨hw₁, hsame, hst, -⟩ := learnStatement_eq_ok hw hlearn
      suffices hheld : ∀ p s, c₁.statements.lookup p = some s → s.leaderId ≠ 0 → file.lookup p = some s by
        obtain ⟨hw', hsame', hheld'⟩ := ih hrest hw₁ hheld h
        exact ⟨hw', hsame.trans hsame', hheld'⟩
      intro p s hs hlead
      rw [hst] at hs
      by_cases hp : p = e.1
      · -- the statement held is the one just read, or the one read before it
        subst hp
        rw [AList.lookup_insert, Option.some.injEq] at hs
        unfold newest at hs
        split at hs
        · rw [← hs]
          exact hl e mem_cons_self
        · rw [← hs] at hlead ⊢
          exact hc _ _ (lookup_statements hlead) hlead
      · rw [AList.lookup_insert_ne hp] at hs
        exact hc p s hs hlead

/-- An arbiter that starts is passive and holds only what is on its disk. -/
theorem onDisk_start {config : ArbiterConfiguration} {store : Statements}
    {kept : Option LeasePromiseRecord} {keptStatement : LeaderStatement} {a : Arbiter}
    (h : start config store kept keptStatement now = .ok a) :
    a.componentVoters.WellFormed ∧ a.OnDisk ∧ a.componentVoters.active = false ∧
      a.componentVoters.leasePeriod = config.lease.terms.leasePeriod := by
  obtain ⟨lease, -, h⟩ := bind_eq_ok.mp h
  obtain ⟨voters, hv, h⟩ := bind_eq_ok.mp h
  cases h
  have hempty : WellFormed { leasePeriod := config.lease.terms.leasePeriod } :=
    ⟨fun _ _ hl => by simp at hl, fun _ _ hl => by simp at hl⟩
  obtain ⟨hw, hsame, hheld⟩ :=
    learnAtStart_eq_ok (fun e he => (ComponentStatementStore.mem_load.mp he).1) hempty
    (fun _ _ hl => by simp at hl) hv
  exact ⟨hw, fun _ => hheld, hsame.active, hsame.leasePeriod⟩

/-! ## Who confirms -/

/-- Only a component's request is answered with anything but messages to the other arbiter. -/
theorem componentRequest_of_mem (h : a.handle now event = .ok (out, a'))
    (hm : o ∈ out) (ho : ∀ link message, o ≠ .toPeer link message) :
    ∃ request saved, event = .componentRequest request saved := by
  rcases handle_eq_ok h with ⟨request, saved, he, -⟩ | ⟨hout, -⟩
  · exact ⟨request, saved, he⟩
  · obtain ⟨link, message, rfl⟩ := hout o hm
    exact absurd rfl (ho link message)

/-- **Every event keeps memory on disk**, if what is learnt from the other arbiter is saved or
something was unsaved before; and what is confirmed is the statement held, and on disk. -/
theorem onDisk_handle (hw : a.componentVoters.WellFormed) (hdisk : a.OnDisk)
    (hsaved : ∀ record saved, event = .stateRecord record saved → record.statement.leaderId ≠ 0 →
      record.statement.newerThan (a.componentVoters.statement record.pairId) = true →
      saved = true ∨ a.componentStatementsUnsaved = true) (he : a.handle now event = .ok (out, a')) :
    a'.OnDisk ∧ ConfirmsOnDisk out a' := by
  rcases handle_eq_ok he with ⟨request, saved, -, h⟩ | ⟨hout, hcases⟩
  · exact handleComponentLeaseRequest_spec hw hdisk h
  refine ⟨?_, fun p s alone hm => by obtain ⟨_, _, ⟨⟩⟩ := hout _ hm⟩
  rcases hcases with ⟨record, saved, rfl, h⟩ | ⟨fromPeer, change, lease, -, hsame⟩ | hsame
  · exact handleArbiterStateRecord_spec (a := a.hear now) hw hdisk (hsaved record saved rfl) h
  · refine (OnDisk.of_same hdisk ?_ ?_ ?_).of_same (congrArg _ hsame.componentVoters) hsame.store
      hsame.unsaved
    all_goals obtain ⟨b, rfl, ⟨h, -⟩ | ⟨h, -⟩ | ⟨h, -⟩⟩ := follow_cases a fromPeer change lease now <;>
        rw [h] <;> rfl
  · exact hdisk.of_same (congrArg _ hsame.componentVoters) hsame.store hsame.unsaved

end Arbiter

/-! ## The machine -/

/-- A confirmation that was sent, and what the file then held. -/
structure Confirmation where
  pairId : Int
  statement : LeaderStatement
  /-- The file of statements, as last written. -/
  file : Statements

/-- One arbiter, the clock of its machine, and the confirmations it has sent. -/
structure StatementKeeper where
  now : Nat
  arbiter : Arbiter
  confirmed : List Confirmation := []

/-- What can happen to it. -/
inductive StatementAction where
  | advance (time : Nat)
  | event (event : ArbiterEvent)
  /-- The process stops and starts again, or the machine does and its clock starts anew. -/
  | restart (clock : Nat) (kept : Option LeasePromiseRecord) (keptStatement : LeaderStatement)

namespace StatementKeeper

/-- The confirmations among what was sent. -/
def confirmations (file : Statements) (out : List ArbiterOutput) : List Confirmation :=
  out.filterMap fun
    | .statementHeld pairId statement _ => some ⟨pairId, statement, file⟩
    | _ => none

/-- **The machine of one arbiter and its file.** -/
def step : Machine StatementKeeper StatementAction
  | s, .advance time => if s.now ≤ time then some { s with now := time } else none
  | s, .event event =>
    ((s.arbiter.handle s.now event).map fun r =>
      { s with arbiter := r.2, confirmed := confirmations r.2.store r.1 ++ s.confirmed }).toOption
  | s, .restart clock kept keptStatement =>
    ((Arbiter.start s.arbiter.config s.arbiter.store kept keptStatement clock).map fun a =>
      { s with now := clock, arbiter := a }).toOption

/-- A statement the other arbiter reports, newer than the one held, is saved, or it is known already
that what is held is not saved. -/
def savesWhatItLearns (s : StatementKeeper) : StatementAction → Prop
  | .event (.stateRecord record saved) => record.statement.leaderId ≠ 0 →
      record.statement.newerThan (s.arbiter.componentVoters.statement record.pairId) = true →
      saved = true ∨ s.arbiter.componentStatementsUnsaved = true
  | _ => True

instance (s : StatementKeeper) (a : StatementAction) : Decidable (s.savesWhatItLearns a) := by
  unfold savesWhatItLearns
  split <;> infer_instance

/-- The file holds a statement for a pair, or a later one of it. -/
def Holds (file : Statements) (pairId : Int) (statement : LeaderStatement) : Prop :=
  ∃ d, file.lookup pairId = some d ∧ (d.sameAs statement = true ∨ d.newerThan statement = true)

/-- What holds of an arbiter and its file. -/
structure Inv (s : StatementKeeper) : Prop where
  wellFormed : s.arbiter.componentVoters.WellFormed
  onDisk : s.arbiter.OnDisk
  confirmed : ∀ c ∈ s.confirmed, Holds c.file c.pairId c.statement

/-- **Handling an event keeps the invariant**: whatever is confirmed is on disk. -/
theorem Inv.event {s : StatementKeeper} (h : Inv s) {event : ArbiterEvent} {out : List ArbiterOutput}
    {a : Arbiter} (hcond : s.savesWhatItLearns (.event event))
    (he : s.arbiter.handle s.now event = .ok (out, a)) :
    Inv { s with arbiter := a, confirmed := confirmations a.store out ++ s.confirmed } := by
  obtain ⟨hdisk, hconf⟩ := Arbiter.onDisk_handle h.wellFormed h.onDisk
    (fun record saved hrecord => by rwa [hrecord] at hcond) he
  refine ⟨Arbiter.wellFormed_handle h.wellFormed he, hdisk, fun c hc => ?_⟩
  rcases mem_append.mp hc with hc | hc
  · obtain ⟨o, ho, hc⟩ := mem_filterMap.mp hc
    cases o with
    | statementHeld p st alone =>
      cases hc
      obtain ⟨hd, hsame⟩ := hconf p st alone ho
      exact ⟨_, hd, .inl hsame⟩
    | grant | refusal | toPeer => cases hc
  · exact h.confirmed c hc

/-- **Every action keeps the invariant**, if what is learnt from the other arbiter is saved. -/
theorem invariant_step : (step.restrict savesWhatItLearns).Invariant Inv := by
  intro s action t h hstep
  obtain ⟨hcond, hstep⟩ := Machine.restrict_eq_some.mp hstep
  cases action with
  | advance =>
    simp only [step, Option.ite_none_right_eq_some, Option.some.injEq] at hstep
    obtain ⟨-, rfl⟩ := hstep
    exact ⟨h.wellFormed, h.onDisk, h.confirmed⟩
  | event event =>
    obtain ⟨⟨out, a⟩, he, rfl⟩ := map_eq_ok.mp (toOption_eq_some.mp hstep)
    exact h.event hcond he
  | restart =>
    obtain ⟨a, ha, rfl⟩ := map_eq_ok.mp (toOption_eq_some.mp hstep)
    obtain ⟨hw, hdisk, -⟩ := Arbiter.onDisk_start ha
    exact ⟨hw, hdisk, h.confirmed⟩

/-- An arbiter that starts, with whatever is on its disk. -/
def start (config : ArbiterConfiguration) (store : Statements) (kept : Option LeasePromiseRecord)
    (keptStatement : LeaderStatement) (now : Nat) : Except String StatementKeeper :=
  (Arbiter.start config store kept keptStatement now).map fun a => { now := now, arbiter := a }

/-- **A statement is confirmed only once it is on disk.** Take any run of an arbiter, whatever events
it handles, whichever of its saves fail and whenever it restarts, in which every newer statement
learnt from the other arbiter is saved, or a failed save is known of already. Whenever it has sent
`StatementHeld`, the file as last written held the statement or a later one of that pair. -/
theorem confirmed_statements_are_on_disk (config : ArbiterConfiguration) (store : Statements)
    (kept : Option LeasePromiseRecord) (keptStatement : LeaderStatement) (began : Nat)
    (actions : List StatementAction) {s₀ s : StatementKeeper}
    (h₀ : start config store kept keptStatement began = .ok s₀)
    (hrun : (step.restrict savesWhatItLearns).run s₀ actions = some s) :
    ∀ c ∈ s.confirmed, Holds c.file c.pairId c.statement := by
  obtain ⟨a, ha, rfl⟩ := map_eq_ok.mp h₀
  obtain ⟨hw, hdisk, -⟩ := Arbiter.onDisk_start ha
  exact (invariant_step.run ⟨hw, hdisk, fun _ hc => by cases hc⟩ hrun).confirmed

/-- The configuration of an arbiter that votes in pair 7. -/
def votesInSeven : ArbiterConfiguration := ⟨1, 2, .threeSeconds, [7], by decide⟩

/-- An arbiter of a pool that votes in pair 7, just started with an empty disk. -/
def firstArbiter : StatementKeeper where
  now := 0
  arbiter :=
    { config := votesInSeven
      store := ∅
      poolLease :=
        { peerId := 2
          thirdVoterId := 3
          timing := .threeSeconds
          participant :=
            { selfId := 1
              voter := { leasePeriod := 3000, quietUntil := 3000, highestEpoch := 0 }
              holder := { terms := LeaseTiming.threeSeconds.terms }
              peerStatements := .peerAlwaysMayLead } }
      componentVoters := { leasePeriod := 3000 }
      peerContact := { timing := .threeSeconds, lastHeard := 0 } }

/-- It does start so. -/
theorem start_eq_firstArbiter : start votesInSeven ∅ none {} 0 = .ok firstArbiter := rfl

/-- The leader of pair 7, instance 1, says that its peer may not lead. -/
def peerMayNotLead : LeaderStatement := ⟨1, 5, 1, false⟩

/-- A request of its for a renewal, which carries the statement. -/
def leaderRequest : ComponentRequest where
  pairId := 7
  candidateId := 1
  epoch := 5
  requestId := 1
  statement := peerMayNotLead

/-- The leader sends its statement, and the arbiter writes it to disk. -/
def recordsAndConfirms : List StatementAction :=
  [.event (.componentRequest leaderRequest true)]

/-- There are such runs in which a statement is confirmed. -/
theorem confirmed_statements_are_on_disk_recordsAndConfirms :
    ∃ s, (step.restrict savesWhatItLearns).run firstArbiter recordsAndConfirms = some s ∧
      s.confirmed.map (fun c => (c.pairId, c.statement)) = [(7, peerMayNotLead)] ∧
      ∀ c ∈ s.confirmed, Holds c.file c.pairId c.statement := by
  obtain ⟨s, hs, ht⟩ := Machine.exists_run_of_any (step.restrict savesWhatItLearns) firstArbiter
    recordsAndConfirms
    (fun s => s.confirmed.map (fun c => (c.pairId, c.statement)) = [(7, peerMayNotLead)]) (by decide)
  exact ⟨s, hs, ht, confirmed_statements_are_on_disk _ _ _ _ _ _ start_eq_firstArbiter hs⟩

/-- The other arbiter reports the statement, and the save fails. Then the leader's request carries
the same statement: it changes nothing, so nothing is saved, and it is confirmed. -/
def learnsUnsaved : List StatementAction :=
  [.event (.stateRecord ⟨7, 5, peerMayNotLead⟩ false), .event (.componentRequest leaderRequest true)]

/-- **A statement is confirmed that is not on disk**: the save that failed was forgotten, and the
file is still empty. -/
theorem confirms_a_statement_not_on_disk :
    ∃ s c, step.run firstArbiter learnsUnsaved = some s ∧ c ∈ s.confirmed ∧
      ¬ Holds c.file c.pairId c.statement := by
  obtain ⟨s, hs, ht⟩ := Machine.exists_run_of_any step firstArbiter learnsUnsaved
    (fun s => s.confirmed.any fun c => (c.file.lookup c.pairId).isNone) (by decide)
  obtain ⟨c, hc, hnone⟩ := any_eq_true.mp ht
  refine ⟨s, c, hs, hc, ?_⟩
  rintro ⟨d, hd, -⟩
  rw [hd] at hnone
  cases hnone

end StatementKeeper

end PubsubVenue
