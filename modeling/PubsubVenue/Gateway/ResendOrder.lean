import PubsubVenue.Gateway.UnansweredCommands

/-! # The order in which a sequencer first sees the commands

A sequencer acts on the first copy of a command, so the members' commands keep their order when the
first copies of two commands come in the order in which the commands were sent. Two paths lead to a
connection: the copies of the unanswered commands, a batch at a time, and the commands that members
send meanwhile, at once. A member's command that comes between two batches overtakes the commands of
the batches to come, and on a connection that is the first to a sequencer it overtakes every command
held. As long as neither happens, the order is kept over every interleaving of the rest: a sending
that begins again with new copies, connections lost and made again, answers, new leaders.

* **`FirstCopiesInOrder`**: the property of what is sent on a connection.
* **`SequencerLink.Ordered`**: what holds of a destination while the copies are being sent: of the
  commands not sent yet, each is newer than everything sent.
* **`SequencerLink.Complete`**: what holds of a destination since the announcement of a leader: of
  two commands held, the older has been sent if the newer has.
* **`UnansweredCommands.firstCopies_in_order`**: every connection's commands are complete and in
  order in every run in which no command comes between two batches and no sequencer is connected
  late. -/

namespace PubsubVenue

open List

namespace PacedResend

variable {α : Type} (r : PacedResend) (copies : List α)

/-- A batch ends where it begins or later. -/
theorem next_le_batchEnd (h : r.next < r.total) : r.next ≤ r.batchEnd := by
  unfold batchEnd
  split <;> omega

/-- The copies that are left begin with the next batch. -/
theorem drop_eq_batch_append (h : r.next < r.total) :
    copies.drop r.next = r.batch copies ++ copies.drop r.batchEnd := by
  have hdrop : copies.drop r.batchEnd = (copies.drop r.next).drop (r.batchEnd - r.next) := by
    rw [drop_drop, Nat.add_sub_cancel' (r.next_le_batchEnd h)]
  rw [hdrop, batch, take_append_drop]

/-- The copies passed after the next batch are those passed before it, and the batch. -/
theorem take_batchEnd (h : r.next < r.total) :
    copies.take r.batchEnd = copies.take r.next ++ r.batch copies := by
  rw [batch, ← take_add, Nat.add_sub_cancel' (r.next_le_batchEnd h)]

end PacedResend

variable {ι Id : Type} [DecidableEq Id]

/-- Of two commands in the list, the one sent first is the first to occur. -/
def FirstCopiesInOrder (sent : List (MemberCommand Id)) : Prop :=
  ∀ a ∈ sent, ∀ b ∈ sent, a.number < b.number → sent.idxOf a < sent.idxOf b

/-- Every command of the list is newer than the commands before it. -/
def OldestFirst (commands : List (MemberCommand Id)) : Prop :=
  commands.Pairwise fun a b => a.number < b.number

/-- Commands sent once each, oldest first, are in order. -/
theorem OldestFirst.firstCopiesInOrder {commands : List (MemberCommand Id)} (h : OldestFirst commands) :
    FirstCopiesInOrder commands := by
  intro a ha b hb hab
  have hia := idxOf_lt_length_of_mem ha
  have hib := idxOf_lt_length_of_mem hb
  by_contra hle
  rcases Nat.lt_or_eq_of_le (Nat.not_lt.mp hle) with hlt | heq
  · have hba := pairwise_iff_getElem.mp h _ _ hib hia hlt
    rw [getElem_idxOf hib, getElem_idxOf hia] at hba
    omega
  · have hsame : a = b := by
      rw [← getElem_idxOf hia, ← getElem_idxOf hib]
      simp only [heq]
    rw [hsame] at hab
    omega

/-- **Commands in order, sent after commands in order, each newer than everything sent before unless
it was sent before itself, leave all of them in order.** -/
theorem FirstCopiesInOrder.append {sent batch : List (MemberCommand Id)} (hsent : FirstCopiesInOrder sent)
    (hbatch : FirstCopiesInOrder batch) (hnewer : ∀ a ∈ batch, a ∉ sent → ∀ b ∈ sent, b.number < a.number) :
    FirstCopiesInOrder (sent ++ batch) := by
  intro a ha b hb hab
  by_cases has : a ∈ sent
  · rw [idxOf_append_of_mem has]
    by_cases hbs : b ∈ sent
    · rw [idxOf_append_of_mem hbs]
      exact hsent a has b hbs hab
    · rw [idxOf_append_of_notMem hbs]
      exact Nat.lt_of_lt_of_le (idxOf_lt_length_of_mem has) (Nat.le_add_right _ _)
  · have hab' : a ∈ batch := (mem_append.mp ha).resolve_left has
    -- a newer command that was sent before would be older
    have hbs : b ∉ sent := fun hbs => by
      have hba := hnewer a hab' has b hbs
      omega
    have hbb : b ∈ batch := (mem_append.mp hb).resolve_left hbs
    rw [idxOf_append_of_notMem has, idxOf_append_of_notMem hbs]
    exact Nat.add_lt_add_left (hbatch a hab' b hbb hab) _

namespace SequencerLink

/-- What has been sent to a destination is in order, and while copies are being sent again, the
commands held and not yet sent are newer than everything sent. -/
structure InOrder (store : List (MemberCommand Id)) (count : Nat) (l : SequencerLink Id) : Prop where
  sent : FirstCopiesInOrder l.sent
  past : ∀ sent ∈ l.past, FirstCopiesInOrder sent
  sent_lt : ∀ a ∈ l.sent, a.number < count
  held : l.resend.active = true → ∀ a ∈ store, a ∉ l.sent → ∀ b ∈ l.sent, b.number < a.number
  before : l.connected = true → l.connectedBefore = true

/-- **What holds of a destination** while `store` is held and `snapshot` is being sent again: the
copies that the sending has passed have been sent, those still held at least, and those still to
come are newer than everything sent, unless they were sent before. -/
structure Ordered (store snapshot : List (MemberCommand Id)) (count : Nat) (l : SequencerLink Id) : Prop
    extends InOrder store count l where
  connected : l.resend.active = true → l.connected = true
  next_lt : l.resend.active = true → l.resend.next < l.resend.total
  total : l.resend.active = true → l.resend.total = snapshot.length
  passed : l.resend.active = true → ∀ a ∈ store, a ∈ snapshot.take l.resend.next → a ∈ l.sent
  coming : l.resend.active = true → ∀ a ∈ snapshot.drop l.resend.next, a ∉ l.sent →
    ∀ b ∈ l.sent, b.number < a.number

variable {store snapshot : List (MemberCommand Id)} {count : Nat} {l : SequencerLink Id}

/-- Commands that leave the store do no harm. -/
theorem Ordered.of_subset (h : l.Ordered store snapshot count) {store' : List (MemberCommand Id)}
    (hsub : store' ⊆ store) : l.Ordered store' snapshot count :=
  { h with
    held := fun hactive a ha => h.held hactive a (hsub ha)
    passed := fun hactive a ha => h.passed hactive a (hsub ha) }

/-- A destination on which nothing is sent again. -/
theorem Ordered.of_idle (hsent : FirstCopiesInOrder l.sent) (hpast : ∀ sent ∈ l.past, FirstCopiesInOrder sent)
    (hlt : ∀ a ∈ l.sent, a.number < count) (hbefore : l.connected = true → l.connectedBefore = true)
    (hidle : l.resend.active = false) : l.Ordered store snapshot count := by
  have hnot : ¬ l.resend.active = true := Bool.eq_false_iff.mp hidle
  exact
    { sent := hsent
      past := hpast
      sent_lt := hlt
      held := fun hactive => absurd hactive hnot
      before := hbefore
      connected := fun hactive => absurd hactive hnot
      next_lt := fun hactive => absurd hactive hnot
      total := fun hactive => absurd hactive hnot
      passed := fun hactive => absurd hactive hnot
      coming := fun hactive => absurd hactive hnot }

/-- A destination on whose connection nothing has been sent yet. -/
theorem InOrder.of_nothing_sent (hsent : l.sent = []) (hpast : ∀ sent ∈ l.past, FirstCopiesInOrder sent)
    (hbefore : l.connected = true → l.connectedBefore = true) : l.InOrder store count := by
  have hnone : ∀ a, a ∉ l.sent := fun a => hsent ▸ not_mem_nil
  exact
    { sent := fun a ha => absurd ha (hnone a)
      past := hpast
      sent_lt := fun a ha => absurd ha (hnone a)
      held := fun _ _ _ _ b hb => absurd hb (hnone b)
      before := hbefore }

/-- **A batch keeps a destination in order.** -/
theorem Ordered.continueResend (h : l.Ordered store snapshot count) (hsnapshot : OldestFirst snapshot)
    (hlt : ∀ a ∈ snapshot, a.number < count)
    (hnewer : ∀ a ∈ store, a ∉ snapshot → ∀ b ∈ snapshot, b.number < a.number) :
    (l.continueResend snapshot).Ordered store snapshot count := by
  unfold SequencerLink.continueResend
  split
  case isFalse => exact h
  case isTrue hactive =>
    have hnext := h.next_lt hactive
    have hdrop := l.resend.drop_eq_batch_append snapshot hnext
    have htake := l.resend.take_batchEnd snapshot hnext
    have hrest : OldestFirst (l.resend.batch snapshot ++ snapshot.drop l.resend.batchEnd) := by
      rw [← hdrop]
      exact hsnapshot.drop
    have hmem : ∀ a ∈ l.resend.batch snapshot, a ∈ snapshot.drop l.resend.next := fun a ha => by
      rw [hdrop]
      exact mem_append_left _ ha
    -- what is still to be sent is newer than all that was sent, this batch included
    have hnewest : ∀ a, a ∈ snapshot.drop l.resend.batchEnd ∨ a ∈ store →
      a ∉ l.sent ++ l.resend.batch snapshot →
          ∀ b ∈ l.sent ++ l.resend.batch snapshot, b.number < a.number := by
      intro a hin hnot b hb
      have hsent : a ∉ l.sent := fun h => hnot (mem_append_left _ h)
      rcases mem_append.mp hb with hb | hb
      · rcases hin with hin | hin
        · refine h.coming hactive a ?_ hsent b hb
          rw [hdrop]
          exact mem_append_right _ hin
        · exact h.held hactive a hin hsent b hb
      · -- `b` is of the batch: `a` comes after the batch, in the copies or in the store alone
        have hafter := (pairwise_append.mp hrest).2.2 b hb
        rcases hin with hin | hin
        · exact hafter a hin
        · by_cases hcopied : a ∈ snapshot
          · rw [← take_append_drop l.resend.batchEnd snapshot, htake] at hcopied
            rcases mem_append.mp hcopied with hpassed | hlater
            · rcases mem_append.mp hpassed with hpassed | hbatch
              · exact absurd (h.passed hactive a hin hpassed) hsent
              · exact absurd (mem_append_right _ hbatch) hnot
            · exact hafter a hlater
          · exact hnewer a hin hcopied b (mem_of_mem_drop (hmem b hb))
    refine
      { sent := h.sent.append (OldestFirst.firstCopiesInOrder (pairwise_append.mp hrest).1)
          fun a ha hnot => h.coming hactive a (hmem a ha) hnot
        past := h.past
        sent_lt := ?_
        held := fun _ a ha hnot => hnewest a (.inr ha) hnot
        before := h.before
        connected := fun _ => h.connected hactive
        next_lt := ?_
        total := fun _ => ?_
        passed := ?_
        coming := ?_ }
    · intro a ha
      exact (mem_append.mp ha).elim (h.sent_lt a) fun hb => hlt a (mem_of_mem_drop (hmem a hb))
    · intro hafter
      simp only [PacedResend.sendNextBatch, hactive, if_true, decide_eq_true_eq] at hafter ⊢
      exact hafter
    · simp only [PacedResend.sendNextBatch, hactive, if_true]
      exact h.total hactive
    · intro _ a ha hpassed
      simp only [PacedResend.sendNextBatch, hactive, if_true] at hpassed
      rw [htake] at hpassed
      exact mem_append.mpr ((mem_append.mp hpassed).imp_left fun hb => h.passed hactive a ha hb)
    · intro _ a ha hnot
      simp only [PacedResend.sendNextBatch, hactive, if_true] at ha
      exact hnewest a (.inl ha) hnot

/-- **A sending that begins with new copies**: where one goes on already, what is held is newer than
what has been sent, and elsewhere nothing has been sent. -/
theorem InOrder.begin {wanted : Bool} (h : l.InOrder store count) (hwanted : wanted = true → l.sent = [])
    (hsending : ((wanted || l.resend.active) && l.connected) = true) :
    ({ l with resend := .start store.length } : SequencerLink Id).Ordered store store count := by
  obtain ⟨hwhy, hconnected⟩ := Bool.and_eq_true_iff.mp hsending
  have hheld : ∀ a ∈ store, a ∉ l.sent → ∀ b ∈ l.sent, b.number < a.number := by
    intro a ha hnot b hb
    rcases Bool.or_eq_true_iff.mp hwhy with hw | hactive
    · rw [hwanted hw] at hb
      exact absurd hb not_mem_nil
    · exact h.held hactive a ha hnot b hb
  exact
    { h with
      held := fun _ => hheld
      connected := fun _ => hconnected
      next_lt := fun hactive => of_decide_eq_true hactive
      total := fun _ => rfl
      passed := nofun
      coming := fun _ => hheld }

/-- It keeps a destination in order. -/
theorem InOrder.startResend {wanted : Bool} (h : l.InOrder store count) (hstore : OldestFirst store)
    (hlt : ∀ a ∈ store, a.number < count) (hwanted : wanted = true → l.sent = []) :
    (l.startResend store wanted).Ordered store store count := by
  unfold SequencerLink.startResend
  split
  case isFalse => exact .of_idle h.sent h.past h.sent_lt h.before rfl
  case isTrue hsending =>
    exact (h.begin hwanted hsending).continueResend hstore hlt fun a ha hnot => absurd ha hnot

/-- A command newer than everything sent may be forwarded while nothing is sent again. -/
theorem Ordered.forward {command : MemberCommand Id} (h : l.Ordered store snapshot count)
    (hidle : l.resend.active = false) (hnumber : command.number = count) (store' : List (MemberCommand Id)) :
    (l.forward command).Ordered store' snapshot (count + 1) := by
  unfold SequencerLink.forward
  split
  case isFalse => exact .of_idle h.sent h.past (fun a ha => Nat.lt_succ_of_lt (h.sent_lt a ha)) h.before hidle
  case isTrue =>
    refine .of_idle (h.sent.append (OldestFirst.firstCopiesInOrder (pairwise_singleton _ _)) ?_) h.past ?_
      h.before hidle
    · intro a ha _ b hb
      rw [mem_singleton.mp ha, hnumber]
      exact h.sent_lt b hb
    · intro a ha
      rcases mem_append.mp ha with ha | ha
      · exact Nat.lt_succ_of_lt (h.sent_lt a ha)
      · rw [mem_singleton.mp ha, hnumber]
        exact Nat.lt_succ_self _

/-- What was sent on a connection that is gone stays in order. -/
theorem InOrder.past_close (h : l.InOrder store count) : ∀ sent ∈ l.close.past, FirstCopiesInOrder sent :=
  fun sent hsent => (mem_cons.mp hsent).elim (fun heq => heq ▸ h.sent) (h.past sent)

/-! ### Nothing held is left out -/

omit [DecidableEq Id] in
/-- Of two copies in order, the older stands among the first ones if the newer does. -/
theorem mem_take_of_number_lt {n : Nat} {a b : MemberCommand Id} (h : OldestFirst snapshot)
    (ha : a ∈ snapshot) (hb : b ∈ snapshot.take n) (hab : a.number < b.number) :
    a ∈ snapshot.take n := by
  rw [← take_append_drop n snapshot] at ha h
  refine (mem_append.mp ha).resolve_right fun hlater => ?_
  have hba := (pairwise_append.mp h).2.2 b hb a hlater
  omega

/-- **What holds of a destination since the announcement of a leader**, while `store` is held and
`snapshot` is being sent again: a command held has been sent on a connection if a newer one has; and
everything held has been sent on the present connection, or is among the copies being sent. -/
structure Complete (store snapshot : List (MemberCommand Id)) (count : Nat) (l : SequencerLink Id) :
    Prop where
  older : ∀ sent ∈ l.sent :: l.past, ∀ b ∈ sent, ∀ a ∈ store, a.number < b.number → a ∈ sent
  past_lt : ∀ sent ∈ l.past, ∀ b ∈ sent, b.number < count
  all : l.connected = true → l.resend.active = false → ∀ a ∈ store, a ∈ l.sent
  copies : l.resend.active = true → ∀ a ∈ store, a ∈ snapshot

omit [DecidableEq Id] in
/-- Commands that leave the store do no harm. -/
theorem Complete.of_subset (h : l.Complete store snapshot count) {store' : List (MemberCommand Id)}
    (hsub : store' ⊆ store) : l.Complete store' snapshot count :=
  { h with
    older := fun sent hs b hb a ha => h.older sent hs b hb a (hsub ha)
    all := fun hc hidle a ha => h.all hc hidle a (hsub ha)
    copies := fun hactive a ha => h.copies hactive a (hsub ha) }

omit [DecidableEq Id] in
/-- Nothing is held. -/
theorem Complete.of_none (hnone : ∀ a, a ∉ store) (hpast : ∀ sent ∈ l.past, ∀ b ∈ sent, b.number < count) :
    l.Complete store snapshot count :=
  ⟨fun _ _ _ _ a ha => absurd ha (hnone a), hpast, fun _ _ a ha => absurd ha (hnone a),
    fun _ a ha => absurd ha (hnone a)⟩

/-- **A batch leaves nothing out.** -/
theorem Complete.continueResend (h : l.Complete store snapshot count) (ho : l.Ordered store snapshot count)
    (hsnapshot : OldestFirst snapshot) : (l.continueResend snapshot).Complete store snapshot count := by
  unfold SequencerLink.continueResend
  split
  case isFalse => exact h
  case isTrue hactive =>
    have htake := l.resend.take_batchEnd snapshot (ho.next_lt hactive)
    -- what is held and among the copies that have been passed has been sent
    have hsent : ∀ a ∈ store, a ∈ snapshot.take l.resend.batchEnd →
      a ∈ l.sent ++ l.resend.batch snapshot := by
      intro a ha hpassed
      rw [htake] at hpassed
      exact mem_append.mpr ((mem_append.mp hpassed).imp_left (ho.passed hactive a ha))
    refine ⟨?_, h.past_lt, fun _ hdone a ha => ?_, fun _ => h.copies hactive⟩
    · intro sent hs b hb a ha hab
      rcases mem_cons.mp hs with rfl | hs
      · rcases mem_append.mp hb with hb | hb
        · exact mem_append_left _ (h.older _ mem_cons_self b hb a ha hab)
        · refine hsent a ha (mem_take_of_number_lt hsnapshot (h.copies hactive a ha) ?_ hab)
          rw [htake]
          exact mem_append_right _ hb
      · exact h.older sent (mem_cons_of_mem _ hs) b hb a ha hab
    · simp only [PacedResend.sendNextBatch, hactive, if_true, decide_eq_false_iff_not, not_lt,
        ho.total hactive] at hdone
      refine hsent a ha ?_
      rw [take_of_length_le hdone]
      exact h.copies hactive a ha

/-- **Nor does a sending that begins with new copies**, where it is wanted or everything held has
been sent. -/
theorem InOrder.startResend_complete {wanted : Bool} (ho : l.InOrder store count) (hstore : OldestFirst store)
    (hwanted : wanted = true → l.sent = [])
    (holder : ∀ sent ∈ l.sent :: l.past, ∀ b ∈ sent, ∀ a ∈ store, a.number < b.number → a ∈ sent)
    (hpast : ∀ sent ∈ l.past, ∀ b ∈ sent, b.number < count)
    (hall : wanted = false → l.connected = true → l.resend.active = false → ∀ a ∈ store, a ∈ l.sent) :
    (l.startResend store wanted).Complete store store count := by
  unfold SequencerLink.startResend
  split
  case isFalse hnot =>
    refine ⟨holder, hpast, fun hconnected _ => ?_, nofun⟩
    rw [show l.connected = true from hconnected, Bool.and_true, Bool.not_eq_true,
      Bool.or_eq_false_iff] at hnot
    exact hall hnot.1 hconnected hnot.2
  case isTrue hsending =>
    have hbegun :
        ({ l with resend := .start store.length } : SequencerLink Id).Complete store store count := by
      refine ⟨holder, hpast, fun _ hnone a ha => ?_, fun _ _ ha => ha⟩
      have hpos := length_pos_of_mem ha
      exact absurd (decide_eq_true hpos) (Bool.eq_false_iff.mp hnone)
    exact hbegun.continueResend (ho.begin hwanted hsending) hstore

/-- **A command that is forwarded while nothing is sent again** is newer than all that is held, and
that has been sent. -/
theorem Complete.forward {command : MemberCommand Id} (h : l.Complete store snapshot count)
    (ho : l.InOrder store count) (hidle : l.resend.active = false) (hnumber : command.number = count) :
    (l.forward command).Complete (store ++ [command]) snapshot (count + 1) := by
  have hnot : ¬l.resend.active = true := Bool.eq_false_iff.mp hidle
  have hlt : ∀ sent ∈ l.sent :: l.past, ∀ b ∈ sent, b.number < count := fun sent hs =>
    (mem_cons.mp hs).elim (fun heq => heq ▸ ho.sent_lt) (h.past_lt sent)
  -- the new command is older than none of those sent before
  have hold : ∀ sent ∈ l.sent :: l.past, ∀ b ∈ sent, ∀ a ∈ store ++ [command], a.number < b.number →
    a ∈ sent := by
    intro sent hs b hb a ha hab
    rcases mem_append.mp ha with ha | ha
    · exact h.older sent hs b hb a ha hab
    · have := hlt sent hs b hb
      rw [mem_singleton.mp ha] at hab
      omega
  have hpast : ∀ sent ∈ l.past, ∀ b ∈ sent, b.number < count + 1 := fun sent hs b hb =>
    Nat.lt_succ_of_lt (h.past_lt sent hs b hb)
  unfold SequencerLink.forward
  split
  case isFalse hconnected =>
    exact ⟨hold, hpast, fun hc => absurd hc hconnected, fun hactive => absurd hactive hnot⟩
  case isTrue hconnected =>
    have hall := h.all hconnected hidle
    refine ⟨fun sent hs b hb a ha hab => ?_, hpast, fun _ _ a ha => ?_, fun hactive => absurd hactive hnot⟩
    · rcases mem_cons.mp hs with rfl | hs
      · exact mem_append.mpr ((mem_append.mp ha).imp_left (hall a))
      · exact hold sent (mem_cons_of_mem _ hs) b hb a ha hab
    · exact mem_append.mpr ((mem_append.mp ha).imp_left (hall a))

omit [DecidableEq Id] in
/-- A connection that is gone leaves what was sent on it. -/
theorem Complete.close (h : l.Complete store snapshot count) (hlt : ∀ a ∈ l.sent, a.number < count) :
    (∀ sent ∈ [] :: l.close.past, ∀ b ∈ sent, ∀ a ∈ store, a.number < b.number → a ∈ sent) ∧
      ∀ sent ∈ l.close.past, ∀ b ∈ sent, b.number < count :=
  ⟨fun sent hs => (mem_cons.mp hs).elim (fun heq => heq ▸ nofun) (h.older sent),
    fun sent hs => (mem_cons.mp hs).elim (fun heq => heq ▸ hlt) (h.past_lt sent)⟩

end SequencerLink

namespace UnansweredCommands

/-- **What holds of the gateway**: what is held and the copies are oldest first, what is held and
not among the copies is newer than they, every destination is in order, and complete since a leader
announced itself. -/
structure Ordered (u : UnansweredCommands ι Id) : Prop where
  store : OldestFirst u.store
  store_lt : ∀ a ∈ u.store, a.number < u.commandsSent
  snapshot : OldestFirst u.snapshot
  snapshot_lt : ∀ a ∈ u.snapshot, a.number < u.commandsSent
  newer : ∀ a ∈ u.store, a ∉ u.snapshot → ∀ b ∈ u.snapshot, b.number < a.number
  links : ∀ d, (u.destinations d).Ordered u.store u.snapshot u.commandsSent
  complete : 0 < u.highestLeaderEpochSeen → ∀ d, (u.destinations d).Complete u.store u.snapshot u.commandsSent

variable {u : UnansweredCommands ι Id}

/-- A gateway that has started is in order. -/
theorem ordered_start : ({} : UnansweredCommands ι Id).Ordered where
  store := Pairwise.nil
  store_lt := nofun
  snapshot := Pairwise.nil
  snapshot_lt := nofun
  newer := nofun
  links := fun _ => .of_idle nofun nofun nofun (fun hc => absurd hc Bool.false_ne_true) rfl
  complete := nofun

/-- Commands may leave the store. -/
theorem Ordered.filter (h : u.Ordered) (keep : MemberCommand Id → Bool) :
    ({ u with store := u.store.filter keep } : UnansweredCommands ι Id).Ordered :=
  { h with
    store := h.store.filter keep
    store_lt := fun a ha => h.store_lt a (mem_of_mem_filter ha)
    newer := fun a ha => h.newer a (mem_of_mem_filter ha)
    links := fun d => (h.links d).of_subset (filter_subset_self _)
    complete := fun hled d => (h.complete hled d).of_subset (filter_subset_self _) }

/-- New copies of everything held. -/
theorem startResends_ordered {wanted : ι → Bool} (hstore : OldestFirst u.store)
    (hlt : ∀ a ∈ u.store, a.number < u.commandsSent)
    (hlinks : ∀ d, (u.destinations d).InOrder u.store u.commandsSent)
    (hwanted : ∀ d, wanted d = true → (u.destinations d).sent = [])
    (hcomplete : 0 < u.highestLeaderEpochSeen → ∀ d,
      ((u.destinations d).startResend u.store (wanted d)).Complete u.store u.store u.commandsSent) :
    (u.startResends wanted).Ordered where
  store := hstore
  store_lt := hlt
  snapshot := hstore
  snapshot_lt := hlt
  newer := fun _ ha hnot => absurd ha hnot
  links := fun d => (hlinks d).startResend hstore hlt (hwanted d)
  complete := hcomplete

/-- A command of a member that comes while nothing is sent again. -/
theorem Ordered.command (h : u.Ordered) (compId clOrdId : Id) (room : Bool)
    (hidle : ∀ d, (u.destinations d).resend.active = false) : (u.command compId clOrdId room).Ordered := by
  unfold UnansweredCommands.command
  split
  case isFalse => exact h
  case isTrue =>
    refine
      { store := pairwise_append.mpr ⟨h.store, pairwise_singleton _ _, ?_⟩
        store_lt := ?_
        snapshot := h.snapshot
        snapshot_lt := fun a ha => Nat.lt_succ_of_lt (h.snapshot_lt a ha)
        newer := ?_
        links := fun d => (h.links d).forward (hidle d) rfl _
        complete := fun hled d => (h.complete hled d).forward (h.links d).toInOrder (hidle d) rfl }
    · intro a ha b hb
      rw [mem_singleton.mp hb]
      exact h.store_lt a ha
    · intro a ha
      rcases mem_append.mp ha with ha | ha
      · exact Nat.lt_succ_of_lt (h.store_lt a ha)
      · rw [mem_singleton.mp ha]
        exact Nat.lt_succ_self _
    · intro a ha hnot b hb
      rcases mem_append.mp ha with ha | ha
      · exact h.newer a ha hnot b hb
      · rw [mem_singleton.mp ha]
        exact h.snapshot_lt b hb

/-- **A new leader**: nothing has been sent since, and everything held is sent to every sequencer
that is connected. -/
theorem Ordered.onNewLeader (h : u.Ordered) (epoch : Int) (firstLeaderSeen : Bool) :
    ({ u with highestLeaderEpochSeen := epoch }.onNewLeader firstLeaderSeen).Ordered := by
  unfold UnansweredCommands.onNewLeader
  have hforgotten : ∀ d, (u.destinations d).forget.InOrder u.store u.commandsSent := fun d =>
    .of_nothing_sent rfl nofun (h.links d).before
  simp only
  split
  case isTrue hempty =>
    have hnone : ∀ a, a ∉ u.store := fun a => by
      rw [isEmpty_iff.mp (Bool.and_eq_true_iff.mp hempty).2]
      exact not_mem_nil
    exact { h with
        links := fun d =>
          { hforgotten d with
            connected := (h.links d).connected
            next_lt := (h.links d).next_lt
            total := (h.links d).total
            passed := fun _ a ha => absurd ha (hnone a)
            coming := nofun }
        complete := fun _ d => .of_none hnone nofun }
  case isFalse =>
    refine startResends_ordered h.store h.store_lt hforgotten (fun _ _ => rfl) fun _ d => ?_
    refine (hforgotten d).startResend_complete h.store (fun _ => rfl) (fun sent hs => ?_) nofun nofun
    rw [mem_singleton.mp hs]
    nofun

/-- Who leads, as a sequencer tells. -/
theorem Ordered.orderAcceptance (h : u.Ordered) (leaderEpoch : Option Int) :
    (u.orderAcceptance leaderEpoch).Ordered := by
  unfold UnansweredCommands.orderAcceptance
  split
  · exact h
  · split
    · exact h.onNewLeader _ _
    · exact h

variable [DecidableEq ι]

omit [DecidableEq Id] in
/-- What holds of every destination after one has been changed. -/
theorem forall_withDestination {P : SequencerLink Id → Prop} {d : ι} {f : SequencerLink Id → SequencerLink Id}
    (hd : P (f (u.destinations d))) (h : ∀ d', P (u.destinations d')) (d' : ι) :
    P ((u.withDestination d f).destinations d') := by
  have hcases : (u.withDestination d f).destinations d' =
      if d' = d then f (u.destinations d) else u.destinations d' := Function.update_apply _ _ _ _
  rw [hcases]
  split
  · exact hd
  · exact h d'

/-- **A connection made**: again, or for the first time with nothing held. -/
theorem Ordered.connectionEstablished (h : u.Ordered) {d : ι}
    (hagain : (u.destinations d).connectedBefore = true ∨ u.store = [] ∨ u.highestLeaderEpochSeen ≤ 0) :
    (u.connectionEstablished d).Ordered := by
  have hclosed := fun hled => (h.complete hled d).close (h.links d).sent_lt
  unfold UnansweredCommands.connectionEstablished
  split
  case isTrue =>
    refine startResends_ordered h.store h.store_lt ?_ ?_ fun hled d' => ?_
    · exact forall_withDestination (P := fun l => l.InOrder u.store u.commandsSent)
        (.of_nothing_sent rfl (h.links d).past_close fun _ => rfl) fun d' => (h.links d').toInOrder
    · intro d' hd'
      rw [of_decide_eq_true hd']
      simp only [withDestination, Function.update_self]
      rfl
    · by_cases hd : d' = d
      · subst hd
        simp only [withDestination, Function.update_self, decide_true]
        exact SequencerLink.InOrder.startResend_complete
          (.of_nothing_sent rfl (h.links d').past_close fun _ => rfl)
          h.store (fun _ => rfl) (hclosed hled).1 (hclosed hled).2 nofun
      · simp only [withDestination, Function.update_of_ne hd, decide_eq_false hd]
        have hd' := h.complete hled d'
        exact (h.links d').toInOrder.startResend_complete h.store nofun hd'.older hd'.past_lt fun _ => hd'.all
  case isFalse hfirst =>
    -- on a destination that was never connected nothing is sent again
    have hidle : (u.destinations d).resend.active = false :=
      Bool.eq_false_iff.mpr fun hactive => hfirst ((h.links d).before ((h.links d).connected hactive))
    refine { h with links := ?_, complete := fun hled => ?_ }
    · exact forall_withDestination (P := fun l => l.Ordered u.store u.snapshot u.commandsSent)
        (.of_idle nofun (h.links d).past_close nofun (fun _ => rfl) hidle) h.links
    · have hnone : ∀ a, a ∉ u.store := fun a => by
        rw [(hagain.resolve_left hfirst).resolve_right (Int.not_le.mpr hled)]
        exact not_mem_nil
      exact forall_withDestination (P := fun l => l.Complete u.store u.snapshot u.commandsSent)
        (.of_none hnone (hclosed hled).2) (h.complete hled)

/-- A connection lost. -/
theorem Ordered.connectionLost (h : u.Ordered) (d : ι) : (u.connectionLost d).Ordered := by
  refine { h with links := ?_, complete := fun hled => ?_ }
  · exact forall_withDestination (P := fun l => l.Ordered u.store u.snapshot u.commandsSent)
      (.of_idle nofun (h.links d).past_close nofun (fun hc => absurd hc Bool.false_ne_true) rfl) h.links
  · have hclosed := (h.complete hled d).close (h.links d).sent_lt
    exact forall_withDestination (P := fun l => l.Complete u.store u.snapshot u.commandsSent)
      ⟨hclosed.1, hclosed.2, nofun, nofun⟩ (h.complete hled)

/-- A connection that can be written to again. -/
theorem Ordered.connectionWritable (h : u.Ordered) (d : ι) : (u.connectionWritable d).Ordered := by
  unfold UnansweredCommands.connectionWritable
  split
  case isFalse => exact h
  case isTrue =>
    refine { h with links := ?_, complete := fun hled => ?_ }
    · exact forall_withDestination (P := fun l => l.Ordered u.store u.snapshot u.commandsSent)
        ((h.links d).continueResend h.snapshot h.snapshot_lt h.newer) h.links
    · exact forall_withDestination (P := fun l => l.Complete u.store u.snapshot u.commandsSent)
        ((h.complete hled d).continueResend (h.links d) h.snapshot) (h.complete hled)

/-! ## Runs -/

/-- No command of a member comes between two batches, and since a leader announced itself no
sequencer is connected for the first time while commands are held. -/
def KeepsOrder (u : UnansweredCommands ι Id) : GatewayEvent ι Id → Prop
  | .command _ _ _ => ∀ d, (u.destinations d).resend.active = false
  | .connectionEstablished d =>
    (u.destinations d).connectedBefore = true ∨ u.store = [] ∨ u.highestLeaderEpochSeen ≤ 0
  | _ => True

instance [Fintype ι] (u : UnansweredCommands ι Id) (event : GatewayEvent ι Id) :
    Decidable (u.KeepsOrder event) := by
  unfold KeepsOrder
  split <;> infer_instance

/-- **Every event keeps the gateway in order**, under that condition. -/
theorem ordered_invariant [Fintype ι] :
    ((step : Machine (UnansweredCommands ι Id) _).restrict KeepsOrder).Invariant fun u => u.Ordered := by
  intro u event v h hstep
  obtain ⟨hcond, hstep⟩ := Machine.restrict_eq_some.mp hstep
  cases event with
  | command compId clOrdId room => exact Option.some.inj hstep ▸ h.command compId clOrdId room hcond
  | answered | dropSession => exact Option.some.inj hstep ▸ h.filter _
  | orderAcceptance leaderEpoch => exact Option.some.inj hstep ▸ h.orderAcceptance leaderEpoch
  | connectionEstablished d => exact Option.some.inj hstep ▸ h.connectionEstablished hcond
  | connectionLost d => exact Option.some.inj hstep ▸ h.connectionLost d
  | connectionWritable d => exact Option.some.inj hstep ▸ h.connectionWritable d

/-- **The members' commands keep their order**: in every run in which no command of a member comes
between two batches of copies and no sequencer is connected late, on each connection to a sequencer,
the present one and those before it, and of what was sent on it since the last announcement of a new
leader: a command held has its first copy before the first copy of every command sent after it, and
so has every command of which a copy was sent. -/
theorem firstCopies_in_order [Fintype ι] {events : List (GatewayEvent ι Id)} {u : UnansweredCommands ι Id}
    (hrun : (step.restrict KeepsOrder).run {} events = some u) (d : ι) :
    ∀ sent ∈ (u.destinations d).sent :: (u.destinations d).past, ∀ b ∈ sent, ∀ a, a.number < b.number →
      a ∈ sent ∨ a ∈ u.store ∧ 0 < u.highestLeaderEpochSeen → a ∈ sent ∧ sent.idxOf a < sent.idxOf b := by
  have h := ordered_invariant.run ordered_start hrun
  intro sent hsent b hb a hab hheld
  have hin : a ∈ sent := hheld.elim id fun hheld => (h.complete hheld.2 d).older sent hsent b hb a hheld.1 hab
  refine ⟨hin, ?_⟩
  rcases mem_cons.mp hsent with rfl | hpast
  · exact (h.links d).sent a hin b hb hab
  · exact (h.links d).past sent hpast a hin b hb hab

/-- A member sends two commands; the connection is lost and made again; a new leader comes, and a
third command after it. The first command is answered meanwhile. -/
def reconnectedThenNewLeader : List (GatewayEvent Bool Nat) :=
  [.connectionEstablished true, .command 7 1 true, .command 7 2 true, .connectionLost true,
    .connectionEstablished true, .answered 7 1, .command 7 3 true, .orderAcceptance (some 2),
      .command 7 4 true]

theorem firstCopies_in_order_three :
    ∃ u, (step.restrict KeepsOrder).run {} reconnectedThenNewLeader = some u ∧
      (u.destinations true).sent = [⟨1, 7, 2⟩, ⟨2, 7, 3⟩, ⟨3, 7, 4⟩] ∧
        (u.destinations true).sent.idxOf ⟨1, 7, 2⟩ < (u.destinations true).sent.idxOf ⟨3, 7, 4⟩ := by
  obtain ⟨u, hrun, hsent, hheld, hled⟩ := Machine.exists_run_of_any (step.restrict KeepsOrder) {}
    reconnectedThenNewLeader (fun u => (u.destinations true).sent = [⟨1, 7, 2⟩, ⟨2, 7, 3⟩, ⟨3, 7, 4⟩] ∧
      (⟨1, 7, 2⟩ : MemberCommand Nat) ∈ u.store ∧ 0 < u.highestLeaderEpochSeen) (by decide)
  refine ⟨u, hrun, hsent, ?_⟩
  exact (firstCopies_in_order hrun true _ mem_cons_self ⟨3, 7, 4⟩ (by simp [hsent]) ⟨1, 7, 2⟩ (by decide)
    (.inr ⟨hheld, hled⟩)).2

/-- A member has 257 commands unanswered, one more than a batch, when a new leader is announced, and
sends another before the connection has written the first batch. -/
def betweenTwoBatches : List (GatewayEvent Bool Nat) :=
  .connectionEstablished true :: (range 257).map (fun n => .command 7 n true) ++
    [.orderAcceptance (some 1), .command 7 257 true, .connectionWritable true]

/-- **The newer command overtakes**: the last of the 257 was sent before it, and follows it on the
connection. -/
theorem newer_command_overtakes : ∃ u, step.run {} betweenTwoBatches = some u ∧
      ∃ a ∈ (u.destinations true).sent, ∃ b ∈ (u.destinations true).sent,
        a.number < b.number ∧ a ∈ u.store ∧ b ∈ u.store ∧
          (u.destinations true).sent.idxOf b < (u.destinations true).sent.idxOf a := by
  obtain ⟨u, hrun, ha, hb, has, hbs, hlt⟩ := Machine.exists_run_of_any step {} betweenTwoBatches
    (fun u => (⟨256, 7, 256⟩ : MemberCommand Nat) ∈ (u.destinations true).sent ∧
      (⟨257, 7, 257⟩ : MemberCommand Nat) ∈ (u.destinations true).sent ∧
      (⟨256, 7, 256⟩ : MemberCommand Nat) ∈ u.store ∧ (⟨257, 7, 257⟩ : MemberCommand Nat) ∈ u.store ∧
      (u.destinations true).sent.idxOf ⟨257, 7, 257⟩ < (u.destinations true).sent.idxOf ⟨256, 7, 256⟩)
    (by decide +kernel)
  exact ⟨u, hrun, _, ha, _, hb, by decide, has, hbs, hlt⟩

end UnansweredCommands

end PubsubVenue
