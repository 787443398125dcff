import PubsubVenue.Gateway.InboundSequence
import Mathlib.Data.List.TakeWhile

/-! # A member recovers what was lost

A member numbers its messages consecutively from its Logon. Some of them never arrive, and the
gateway asks for everything from the first of them on. The member answers as FIX says: it sends each
order and each cancel again, marked, and replaces each run of session-level messages by one
`SequenceReset` with `GapFillFlag`, whose `NewSeqNo` is the number after the run. The gateway counts
a `SequenceReset` as the one message that its own number stands for, and does not read `NewSeqNo`.

* **`MemberStream.recovers_from_loss_iff`**: the gap is closed by the answer exactly if no two
  session-level messages follow each other from the first message that was lost on.
* **`MemberStream.stays_in_gap`**: two heartbeats, the first lost, and an order.
* **`FixSession.handedOn_increases`**: on one connection no order or cancel is handed on twice, or
  after one with a higher number, whatever the member sends. -/

namespace PubsubVenue

open FixSession List

/-! ## What a member sends -/

/-- A message that a member numbers, after its Logon. -/
inductive MemberMessage
  | newOrderSingle | orderCancelRequest | heartbeat | testRequest | resendRequest | reject
  deriving DecidableEq

namespace MemberMessage

/-- Its type, for the gate. -/
def msgType : MemberMessage → MsgType
  | .newOrderSingle => .newOrderSingle
  | .orderCancelRequest => .orderCancelRequest
  | .heartbeat => .heartbeat
  | .testRequest => .testRequest
  | .resendRequest => .resendRequest
  | .reject => .other

/-- An order or a cancel; the others are session-level. -/
def isCommand (m : MemberMessage) : Bool := m.msgType.isCommand

/-- The message under its number. -/
def numbered (m : MemberMessage) (n : Nat) (possDup : Bool) : ParsedFixMessage :=
  { msgType := m.msgType, msgSeqNum := some n, possDupFlag := possDup, newSeqNo := none }

end MemberMessage

/-- `SequenceReset` with `GapFillFlag`, for the numbers from the first on and below the second. -/
def gapFill (first next : Nat) (possDup : Bool) : ParsedFixMessage :=
  { msgType := .sequenceReset, msgSeqNum := some first, possDupFlag := possDup, newSeqNo := some next }

/-- A message that was sent, and whether it was lost on the way. -/
structure SentMessage where
  message : MemberMessage
  lost : Bool
  deriving DecidableEq

/-- What arrives of the messages numbered from `n` on. -/
def arrivals : Nat → List SentMessage → List ParsedFixMessage
  | _, [] => []
  | n, s :: rest =>
    if s.lost then arrivals (n + 1) rest else s.message.numbered n false :: arrivals (n + 1) rest

/-- The gap fill for a run of session-level messages that ends below `n`. -/
def fillRun (marked : Bool) (run n : Nat) : List ParsedFixMessage :=
  if run = 0 then [] else [gapFill (n - run) n marked]

/-- **The answer to a `ResendRequest`**: the messages numbered from `n` on, after a run of as many
session-level messages. `marked` says whether a gap fill carries `PossDupFlag`. -/
def answerFrom (marked : Bool) : Nat → Nat → List MemberMessage → List ParsedFixMessage
  | run, n, [] => fillRun marked run n
  | run, n, m :: rest =>
    if m.isCommand then fillRun marked run n ++ m.numbered n true :: answerFrom marked 0 (n + 1) rest
    else answerFrom marked (run + 1) (n + 1) rest

/-- The orders and cancels of the messages numbered from `n` on. -/
def commandsFrom : Nat → List MemberMessage → List (MsgType × Nat)
  | _, [] => []
  | n, m :: rest =>
    if m.isCommand then (m.msgType, n) :: commandsFrom (n + 1) rest else commandsFrom (n + 1) rest

/-- **A stream of messages** that a member numbers from its Logon on, the last of which arrives. -/
structure MemberStream where
  logonSeqNum : Nat
  sent : List SentMessage
  positive : 0 < logonSeqNum
  /-- The numbers are `int`s. -/
  fits : logonSeqNum + sent.length < 2147483647
  lastArrives : ∀ s, sent.getLast? = some s → s.lost = false

namespace GatewayEffect

/-- The orders and cancels handed to their handlers. -/
def commands (effects : List GatewayEffect) : List (MsgType × Nat) :=
  effects.filterMap fun
    | .handle msgType seqNum => if msgType.isCommand then some (msgType, seqNum) else none
    | _ => none

/-- The numbers from which on the member is asked to send again. -/
def requests (effects : List GatewayEffect) : List Nat :=
  effects.filterMap fun
    | .resendRequest beginSeqNo => some beginSeqNo
    | _ => none

end GatewayEffect

/-- The number was received, or is filled by a gap fill that was. -/
def Covered (seen : List ParsedFixMessage) (k : Nat) : Prop :=
  ∃ m ∈ seen, inboundSeqNumOf m = k ∨ m.msgType = .sequenceReset ∧ inboundSeqNumOf m ≤ k ∧
    (k : Int) < m.newSeqNo.getD 0

namespace MemberStream

variable (stream : MemberStream)

/-- The session when `SessionBoundAck` has come in time and the Logon has been judged by it: its
number was the one expected. -/
def opened : FixSession :=
  (establishSessionAfterLogonSequence
    { sessionEstablished := false
      expectedInboundSeqNum := stream.logonSeqNum
      inboundGapOpen := false
      inboundGapThrough := 0
      resendRequestTimer := false
      resendRequestsSent := 0
      logonSeqNum := stream.logonSeqNum
      logonPossDup := false
      awaitingSequenceState := true }).1

/-- What arrives. -/
def arriving : List ParsedFixMessage := arrivals (stream.logonSeqNum + 1) stream.sent

/-- The messages the member sent. -/
def messages : List MemberMessage := stream.sent.map SentMessage.message

/-- The answer to the request that what arrives makes the gateway send, if it does. -/
def answer (marked : Bool) : List ParsedFixMessage :=
  match GatewayEffect.requests (stream.opened.receive stream.arriving).2 with
  | [] => []
  | beginSeqNo :: _ =>
    answerFrom marked 0 beginSeqNo (stream.messages.drop (beginSeqNo - (stream.logonSeqNum + 1)))

/-- What the gateway receives. -/
def received (marked : Bool) : List ParsedFixMessage := stream.arriving ++ stream.answer marked

/-- **The member recovers**, in order. -/
structure Recovers (marked : Bool) : Prop where
  /-- The orders and cancels handed on are the member's, each once and in order. -/
  handled : GatewayEffect.commands (stream.opened.receive (stream.received marked)).2 =
    commandsFrom (stream.logonSeqNum + 1) stream.messages
  /-- None is handed on before every lower number was received or filled. -/
  inOrder : ∀ seen msg rest msgType seqNum k, stream.received marked = seen ++ msg :: rest →
    GatewayEffect.handle msgType seqNum ∈ ((stream.opened.receive seen).1.onMessage msg).2 →
    msgType.isCommand → stream.logonSeqNum < k → k < seqNum → Covered seen k
  closed : (stream.opened.receive (stream.received marked)).1.inboundGapOpen = false
  next : (stream.opened.receive (stream.received marked)).1.expectedInboundSeqNum =
    stream.logonSeqNum + 1 + stream.sent.length
  asked : (GatewayEffect.requests (stream.opened.receive (stream.received marked)).2).length ≤ 1
  established : (stream.opened.receive (stream.received marked)).1.sessionEstablished = true

/-- **No two session-level messages follow each other** from the first message that was lost on. -/
def RunsAreShort : Prop :=
  ((stream.sent.dropWhile fun s => !s.lost).map SentMessage.message).IsChain fun a b =>
    a.isCommand ∨ b.isCommand

end MemberStream

/-! ## One message -/

namespace FixSession

variable {session : FixSession} {msg : ParsedFixMessage}

/-- What is done about a message that is let through. -/
def handles (msg : ParsedFixMessage) : List GatewayEffect :=
  match msg.msgType with
  | .sequenceReset | .other => []
  | msgType => [.handle msgType (inboundSeqNumOf msg)]

section

variable (hestablished : session.sessionEstablished = true) (hlogon : msg.msgType ≠ .logon)
  (hlogout : msg.msgType ≠ .logout)
include hestablished hlogon hlogout

/-- Neither a Logon nor a Logout: the session goes on. -/
theorem dispatch_eq : session.dispatch msg = (session, handles msg) := by
  unfold dispatch handles
  cases htype : msg.msgType <;> simp_all

/-- **A message in sequence** is counted and handed on. -/
theorem onMessage_of_eq (hseq : inboundSeqNumOf msg = session.expectedInboundSeqNum)
    (hpos : 0 < inboundSeqNumOf msg) : session.onMessage msg = (session.advance, handles msg) := by
  have hclass : session.classifyInboundSequence msg = .inSequence := by
    unfold classifyInboundSequence
    rw [if_neg (by omega), if_pos hseq]
  have hadvance : session.advance.sessionEstablished = true := by
    unfold advance
    dsimp only
    split <;> exact hestablished
  unfold onMessage
  rw [if_pos ⟨hlogon, hestablished⟩, hclass]
  exact dispatch_eq hadvance hlogon hlogout

/-- **A message above the number expected** reveals a gap, and is handed on only if it is
session-level. -/
theorem onMessage_of_gt (hseq : session.expectedInboundSeqNum < inboundSeqNumOf msg) :
    session.onMessage msg = ((session.requestMissingMessages (inboundSeqNumOf msg)).1,
        (session.requestMissingMessages (inboundSeqNumOf msg)).2 ++
          if msg.msgType.isSessionLevel then handles msg else []) := by
  have hclass : session.classifyInboundSequence msg = .gap := by
    unfold classifyInboundSequence
    rw [if_neg (by omega), if_neg (by omega), if_pos (by omega)]
  have hasked : (session.requestMissingMessages (inboundSeqNumOf msg)).1.sessionEstablished = true := by
    unfold requestMissingMessages
    split <;> exact hestablished
  unfold onMessage
  rw [if_pos ⟨hlogon, hestablished⟩, hclass]
  dsimp only
  split
  · rw [dispatch_eq hasked hlogon hlogout]
  · rw [append_nil]

end

/-- Messages in two parts. -/
theorem receive_append (session : FixSession) (as bs : List ParsedFixMessage) : session.receive (as ++ bs) =
      (((session.receive as).1.receive bs).1,
        (session.receive as).2 ++ ((session.receive as).1.receive bs).2) := by
  induction as generalizing session with
  | nil => rfl
  | cons a as ih =>
    rw [cons_append, receive, receive]
    rw [ih, append_assoc]

/-- The member is at a number, in a gap that a later number has revealed, if that is not passed. -/
structure Within (session : FixSession) (n through : Nat) : Prop where
  established : session.sessionEstablished = true
  expected : session.expectedInboundSeqNum = n
  gap : session.inboundGapOpen = decide (n ≤ through)
  through : n ≤ through → session.inboundGapThrough = through

/-- A message that the gate places: it has a number, and neither opens nor ends the session. -/
structure Placed (msg : ParsedFixMessage) (n : Nat) : Prop where
  number : inboundSeqNumOf msg = n
  logon : msg.msgType ≠ .logon
  logout : msg.msgType ≠ .logout

theorem placed_numbered (m : MemberMessage) (n : Nat) (possDup : Bool) : Placed (m.numbered n possDup) n := by
  refine ⟨?_, fun h => ?_, fun h => ?_⟩
  · show (if (n : Int) ≤ 0 then 0 else (n : Int).toNat) = n
    split <;> omega
  · cases m <;> cases h
  · cases m <;> cases h

theorem placed_gapFill (first next : Nat) (possDup : Bool) : Placed (gapFill first next possDup) first := by
  refine ⟨?_, nofun, nofun⟩
  show (if (first : Int) ≤ 0 then 0 else (first : Int).toNat) = first
  split <;> omega

variable {n through : Nat}

section

variable (h : session.Within n through)
include h

/-- **A message above the number awaited** opens a gap, and what is missing is asked for; a further
one widens the gap and asks for nothing. -/
theorem Within.widens {k : Nat} (hmsg : Placed msg k) (hlt : n < k) :
    (session.onMessage msg).1.Within n (max through k) ∧ (session.onMessage msg).2 =
        (if n ≤ through then [] else [.resendRequest n]) ++
          if msg.msgType.isSessionLevel then handles msg else [] := by
  rw [onMessage_of_gt h.established hmsg.logon hmsg.logout
    (by rw [hmsg.number, h.expected]; exact hlt), hmsg.number]
  have hopened : decide (n ≤ max through k) = true := decide_eq_true (by omega)
  unfold requestMissingMessages sendResendRequest
  rw [h.gap]
  by_cases hopen : n ≤ through
  · rw [if_pos (decide_eq_true hopen), if_pos hopen]
    refine ⟨⟨h.established, h.expected, ?_, fun _ => ?_⟩, rfl⟩
    · exact (decide_eq_true hopen).trans hopened.symm
    · rw [h.through hopen]
  · rw [if_neg (by simpa using hopen), if_neg hopen, Nat.max_eq_right (by omega)]
    refine ⟨⟨h.established, h.expected, ?_, fun _ => rfl⟩, ?_⟩
    · exact (decide_eq_true (Nat.le_of_lt hlt)).symm
    · rw [← h.expected]

/-- **The number awaited** is counted, and closes the gap if the gap ends there. -/
theorem Within.onMessage (hmsg : Placed msg n) (hpos : 0 < n) :
    (session.onMessage msg).1.Within (n + 1) through ∧ (session.onMessage msg).2 = handles msg := by
  rw [onMessage_of_eq h.established hmsg.logon hmsg.logout (by rw [hmsg.number, h.expected])
    (by rw [hmsg.number]; exact hpos)]
  refine ⟨?_, rfl⟩
  unfold advance
  dsimp only
  rw [h.gap, h.expected]
  by_cases hmore : n + 1 ≤ through
  · rw [h.through (by omega), if_neg (by omega)]
    exact ⟨h.established, rfl, decide_eq_decide.mpr (by omega), fun _ => rfl⟩
  · split
    · exact ⟨h.established, rfl, (decide_eq_false hmore).symm, fun hle => absurd hle hmore⟩
    · rename_i hnot
      have hclosed : ¬n ≤ through := fun hle => hnot ⟨decide_eq_true hle, by rw [h.through hle]; omega⟩
      exact ⟨h.established, rfl, decide_eq_decide.mpr (by omega), fun hle => absurd hle hmore⟩

/-- Messages above the number awaited do not close the gap. -/
theorem Within.receive_stuck {messages : List ParsedFixMessage}
    (hmessages : ∀ m ∈ messages, ∃ k, Placed m k ∧ n < k ∧ k ≤ through) :
    (session.receive messages).1.Within n through := by
  induction messages generalizing session with
  | nil => exact h
  | cons m rest ih =>
    obtain ⟨k, hm, hlow, hhigh⟩ := hmessages m mem_cons_self
    have hnext := (h.widens hm hlow).1
    rw [Nat.max_eq_left hhigh] at hnext
    exact ih hnext fun x hx => hmessages x (mem_cons_of_mem _ hx)

end

end FixSession

/-! ## What arrives -/

namespace GatewayEffect

theorem commands_append (as bs : List GatewayEffect) : commands (as ++ bs) = commands as ++ commands bs :=
  filterMap_append

theorem requests_append (as bs : List GatewayEffect) : requests (as ++ bs) = requests as ++ requests bs :=
  filterMap_append

/-- Handing on a message asks for none. -/
@[simp] theorem requests_handles (msg : ParsedFixMessage) : requests (handles msg) = [] := by
  unfold handles
  split <;> rfl

/-- Handing on a message of a member. -/
theorem commands_handles (m : MemberMessage) (n : Nat) (possDup : Bool) :
    commands (handles (m.numbered n possDup)) = if m.isCommand then [(m.msgType, n)] else [] := by
  have hnumber := (placed_numbered m n possDup).number
  unfold handles
  rw [hnumber]
  cases m <;> rfl

/-- In a gap no order or cancel is handed on. -/
theorem commands_handles_of_gap (m : MemberMessage) (n : Nat) (possDup : Bool) :
    commands (if (m.numbered n possDup).msgType.isSessionLevel then
      FixSession.handles (m.numbered n possDup) else []) = [] := by
  split
  · rename_i hlevel
    rw [commands_handles, if_neg]
    cases m <;> simp_all [MemberMessage.numbered, MemberMessage.isCommand, MemberMessage.msgType,
      MsgType.isSessionLevel, MsgType.isCommand]
  · rfl

theorem requests_handles_of_gap (msg : ParsedFixMessage) :
    requests (if msg.msgType.isSessionLevel then handles msg else []) = [] := by
  split
  · exact requests_handles msg
  · rfl

end GatewayEffect

open GatewayEffect

theorem arrivals_append (n : Nat) (as bs : List SentMessage) :
    arrivals n (as ++ bs) = arrivals n as ++ arrivals (n + as.length) bs := by
  induction as generalizing n with
  | nil => rfl
  | cons a as ih =>
    rw [cons_append, arrivals, arrivals, ih, length_cons,
      show n + 1 + as.length = n + (as.length + 1) by omega]
    split <;> rfl

theorem commandsFrom_append (n : Nat) (as bs : List MemberMessage) :
    commandsFrom n (as ++ bs) = commandsFrom n as ++ commandsFrom (n + as.length) bs := by
  induction as generalizing n with
  | nil => rfl
  | cons a as ih =>
    rw [cons_append, commandsFrom, commandsFrom, ih, length_cons,
      show n + 1 + as.length = n + (as.length + 1) by omega]
    split <;> rfl

namespace FixSession

variable {session : FixSession} {n : Nat} {sent : List SentMessage}

/-- **While nothing is lost**, every message is handed on. -/
theorem Within.receive (h : session.Within n 0) (hpos : 0 < n) (harrive : ∀ s ∈ sent, s.lost = false) :
    (session.receive (arrivals n sent)).1.Within (n + sent.length) 0 ∧
      commands (session.receive (arrivals n sent)).2 = commandsFrom n (sent.map SentMessage.message) ∧
      requests (session.receive (arrivals n sent)).2 = [] := by
  induction sent generalizing session n with
  | nil => exact ⟨h, rfl, rfl⟩
  | cons s rest ih =>
    obtain ⟨hnext, heffects⟩ := h.onMessage (placed_numbered s.message n false) hpos
    obtain ⟨hcaught, hcommands, hrequests⟩ := ih hnext (Nat.succ_pos n) fun x hx =>
      harrive x (mem_cons_of_mem _ hx)
    rw [arrivals, harrive s mem_cons_self, if_neg (by decide), FixSession.receive]
    rw [heffects, commands_append, requests_append, hcommands, hrequests, commands_handles,
      requests_handles, length_cons]
    refine ⟨?_, ?_, rfl⟩
    · rwa [show n + 1 + rest.length = n + (rest.length + 1) by omega] at hcaught
    · rw [map_cons, commandsFrom]
      split <;> rfl

/-- The last of the messages still arrives without the first, and there is one if the first is lost. -/
theorem last_arrives {s : SentMessage} (harrives : ∀ x, (s :: sent).getLast? = some x → x.lost = false) :
    (∀ x, sent.getLast? = some x → x.lost = false) ∧ (s.lost = true → sent ≠ []) := by
  refine ⟨fun x hx => harrives x (by rw [getLast?_cons, hx]; rfl), ?_⟩
  rintro hlost rfl
  rw [harrives s rfl] at hlost
  cases hlost

/-- **After a message that was lost** no order or cancel is handed on, and the first message to
arrive asks for what is missing. -/
theorem Within.receive_gap {first through last : Nat} (h : session.Within first through)
    (hlow : max first through < n) (hlast : n + sent.length = last + 1)
    (harrives : ∀ s, sent.getLast? = some s → s.lost = false)
    (hsome : sent = [] → first ≤ through ∧ through = last) :
    (session.receive (arrivals n sent)).1.Within first last ∧
      commands (session.receive (arrivals n sent)).2 = [] ∧
      requests (session.receive (arrivals n sent)).2 = if first ≤ through then [] else [first] := by
  induction sent generalizing session n through with
  | nil =>
    obtain ⟨hopen, rfl⟩ := hsome rfl
    rw [if_pos hopen]
    exact ⟨h, rfl, rfl⟩
  | cons s rest ih =>
    rw [length_cons] at hlast
    obtain ⟨hrest, hne⟩ := last_arrives harrives
    rw [arrivals]
    split
    · rename_i hlost
      exact ih h (by omega) (by omega) hrest fun hnil => absurd hnil (hne hlost)
    · obtain ⟨hnext, heffects⟩ := h.widens (placed_numbered s.message n false) (by omega)
      rw [Nat.max_eq_right (by omega)] at hnext
      have hcount : n + 1 + rest.length = last + 1 := by omega
      obtain ⟨hwithin, hcommands, hrequests⟩ := ih hnext (by omega) hcount hrest fun hnil => by
        rw [hnil, length_nil] at hcount
        omega
      rw [FixSession.receive]
      rw [heffects, commands_append, requests_append, commands_append, requests_append, hcommands, hrequests,
        commands_handles_of_gap, requests_handles_of_gap, if_pos (show first ≤ n by omega),
          append_nil, append_nil,
        append_nil, append_nil]
      refine ⟨hwithin, ?_, ?_⟩ <;> split <;> rfl

end FixSession

/-! ## The answer -/

/-- No two session-level messages follow each other, after a run of as many. -/
def ShortFrom : Nat → List MemberMessage → Prop
  | run, [] => run ≤ 1
  | run, m :: rest => if m.isCommand then run ≤ 1 ∧ ShortFrom 0 rest else ShortFrom (run + 1) rest

/-- A run only grows. -/
theorem not_shortFrom {run : Nat} (h : 2 ≤ run) (messages : List MemberMessage) :
    ¬ShortFrom run messages := by
  induction messages generalizing run with
  | nil =>
    rw [ShortFrom]
    omega
  | cons m rest ih =>
    rw [ShortFrom]
    split
    · omega
    · exact ih (by omega)

/-- What runs of one mean for messages that follow each other. -/
theorem shortFrom_iff (messages : List MemberMessage) :
    (ShortFrom 0 messages ↔ messages.IsChain fun a b => a.isCommand ∨ b.isCommand) ∧
      ∀ m : MemberMessage, m.isCommand = false →
        (ShortFrom 1 messages ↔ (m :: messages).IsChain fun a b => a.isCommand ∨ b.isCommand) := by
  induction messages with
  | nil => exact ⟨by simp [ShortFrom], fun m _ => by simp [ShortFrom]⟩
  | cons x rest ih =>
    obtain ⟨ihnone, ihone⟩ := ih
    have hcons : ShortFrom 0 (x :: rest) ↔ (x :: rest).IsChain fun a b => a.isCommand ∨ b.isCommand := by
      rw [ShortFrom]
      split
      · rename_i hx
        rw [ihnone]
        cases rest with
        | nil => simp
        | cons => simp [isChain_cons_cons, hx]
      · rename_i hx
        exact ihone x (by simpa using hx)
    refine ⟨hcons, fun m hm => ?_⟩
    rw [isChain_cons_cons, ← hcons, ShortFrom, ShortFrom]
    split
    · rename_i hx
      simp [hx]
    · rename_i hx
      exact ⟨fun h => absurd h (not_shortFrom (by omega) rest), fun h => by simp_all⟩

variable {m : ParsedFixMessage} {marked : Bool}

/-- The number of a gap fill. -/
theorem mem_fillRun {run n : Nat} (hrun : run ≤ n) (h : m ∈ fillRun marked run n) :
    ∃ k, Placed m k ∧ n - run ≤ k ∧ k < n := by
  unfold fillRun at h
  split at h
  · exact absurd h not_mem_nil
  · rw [mem_singleton.mp h]
    exact ⟨n - run, placed_gapFill _ _ _, Nat.le_refl _, by omega⟩

/-- The numbers of an answer. -/
theorem mem_answerFrom {run n : Nat} {messages : List MemberMessage} (hrun : run ≤ n)
    (h : m ∈ answerFrom marked run n messages) : ∃ k, Placed m k ∧ n - run ≤ k ∧ k < n + messages.length := by
  induction messages generalizing run n with
  | nil => exact mem_fillRun hrun h
  | cons x rest ih =>
    rw [answerFrom] at h
    rw [length_cons]
    split at h
    · rcases mem_append.mp h with h | h
      · obtain ⟨k, hplaced, hlow, hhigh⟩ := mem_fillRun hrun h
        exact ⟨k, hplaced, hlow, by omega⟩
      · rcases mem_cons.mp h with rfl | h
        · exact ⟨n, placed_numbered x n true, Nat.sub_le _ _, by omega⟩
        · obtain ⟨k, hplaced, hlow, hhigh⟩ := ih (Nat.zero_le _) h
          exact ⟨k, hplaced, by omega, by omega⟩
    · obtain ⟨k, hplaced, hlow, hhigh⟩ := ih (Nat.succ_le_succ hrun) h
      exact ⟨k, hplaced, by omega, by omega⟩

namespace FixSession

variable {session : FixSession} {run n last : Nat} {messages : List MemberMessage}

section

variable (h : session.Within (n - run) last)
include h

/-- A gap fill is counted as one message. -/
theorem Within.receive_fillRun (hpos : 0 < n - run) (marked : Bool) :
    (session.receive (fillRun marked run n)).1.Within (n - run + min run 1) last ∧
      (session.receive (fillRun marked run n)).2 = [] := by
  unfold fillRun
  split
  · rename_i hzero
    rw [hzero] at h ⊢
    exact ⟨h, rfl⟩
  · rename_i hsome
    obtain ⟨hnext, heffects⟩ := h.onMessage (placed_gapFill _ _ _) hpos
    rw [FixSession.receive, FixSession.receive]
    rw [heffects, Nat.min_eq_right (by omega)]
    exact ⟨hnext, rfl⟩

/-- **An answer with runs of one closes the gap**, and hands on every order and cancel; one with a
longer run leaves it open. -/
theorem Within.receive_answer (hpos : 0 < n - run) (hlast : n + messages.length = last + 1) (marked : Bool) :
    (ShortFrom run messages → (session.receive (answerFrom marked run n messages)).1.Within (last + 1) last ∧
      commands (session.receive (answerFrom marked run n messages)).2 = commandsFrom n messages ∧
      requests (session.receive (answerFrom marked run n messages)).2 = []) ∧
    (¬ShortFrom run messages →
      (session.receive (answerFrom marked run n messages)).1.inboundGapOpen = true) := by
  induction messages generalizing session run n with
  | nil =>
    rw [length_nil] at hlast
    -- the gap fill moves the counter by one number at most, however many it is for
    obtain ⟨hnext, heffects⟩ := h.receive_fillRun hpos marked
    rw [ShortFrom, answerFrom, heffects]
    refine ⟨fun hshort => ⟨?_, rfl, rfl⟩, fun hlong => ?_⟩
    · rwa [show n - run + min run 1 = last + 1 by omega] at hnext
    · rw [hnext.gap, decide_eq_true (by omega)]
  | cons m rest ih =>
    rw [length_cons] at hlast
    rw [ShortFrom, answerFrom, commandsFrom]
    split
    · rename_i hcommand
      obtain ⟨hfilled, hnone⟩ := h.receive_fillRun hpos marked
      rw [receive_append, hnone]
      rcases Nat.lt_or_ge 1 run with htwo | hrun
      · -- The counter waits for a number that the gap fill was for, and every later message is above it.
        refine ⟨fun hshort => absurd hshort.1 (by omega), fun _ => ?_⟩
        have habove : ∀ x ∈ m.numbered n true :: answerFrom marked 0 (n + 1) rest,
            ∃ k, Placed x k ∧ n - run + min run 1 < k ∧ k ≤ last := by
          intro x hx
          rcases mem_cons.mp hx with rfl | hx
          · exact ⟨n, placed_numbered m n true, by omega, by omega⟩
          · obtain ⟨k, hk, hlow, hhigh⟩ := mem_answerFrom (Nat.zero_le _) hx
            exact ⟨k, hk, by omega, by omega⟩
        rw [(hfilled.receive_stuck habove).gap, decide_eq_true (by omega)]
      · rw [show n - run + min run 1 = n by omega] at hfilled
        obtain ⟨hnext, heffects⟩ := hfilled.onMessage (placed_numbered m n true) (by omega)
        obtain ⟨hcloses, hstays⟩ := ih (show Within _ (n + 1 - 0) last from hnext) (Nat.succ_pos n) (by omega)
        refine ⟨fun hshort => ?_, fun hlong => hstays fun hshort => hlong ⟨hrun, hshort⟩⟩
        obtain ⟨hclosed, hcommands, hrequests⟩ := hcloses hshort.2
        rw [FixSession.receive]
        rw [heffects, nil_append, commands_append, requests_append, hcommands, hrequests, commands_handles,
          if_pos hcommand, requests_handles]
        exact ⟨hclosed, rfl, rfl⟩
    · refine ih ?_ (by omega) (by omega)
      rwa [show n + 1 - (run + 1) = n - run by omega]

end

end FixSession

/-! ## The stream -/

namespace MemberStream

variable (stream : MemberStream)

/-- The Logon counts as the first message. -/
theorem opened_within : stream.opened.Within (stream.logonSeqNum + 1) 0 := by
  have hpos := stream.positive
  unfold opened establishSessionAfterLogonSequence judgeLogonSequence
  rw [if_neg (by show ¬stream.logonSeqNum = 0; omega), if_pos rfl]
  exact ⟨rfl, rfl, rfl, nofun⟩

/-- No order or cancel is ever handed on before every lower number was received. -/
theorem covered {seen : List ParsedFixMessage} {msg : ParsedFixMessage} {msgType : MsgType} {seqNum k : Nat}
    (h : handle msgType seqNum ∈ ((stream.opened.receive seen).1.onMessage msg).2)
    (hcommand : msgType.isCommand) (hlow : stream.logonSeqNum < k) (hhigh : k < seqNum) : Covered seen k := by
  obtain ⟨m, hm, hk⟩ := handled_of_covered h hcommand (by rw [stream.opened_within.expected]; omega) hhigh
  exact ⟨m, hm, .inl hk⟩

/-- **If nothing is lost**, the member has nothing to recover. -/
theorem recovers_of_none (h : ∀ s ∈ stream.sent, s.lost = false) (marked : Bool) :
    stream.Recovers marked := by
  obtain ⟨hcaught, hcommands, hrequests⟩ :=
    stream.opened_within.receive (Nat.succ_pos stream.logonSeqNum) h
  have hanswer : stream.answer marked = [] := by
    unfold answer arriving
    rw [hrequests]
  have hreceived : stream.received marked = arrivals (stream.logonSeqNum + 1) stream.sent := by
    unfold received
    rw [hanswer, append_nil]
    rfl
  refine ⟨?_, fun seen msg rest msgType seqNum k _ => stream.covered, ?_, ?_, ?_, ?_⟩ <;> rw [hreceived]
  · exact hcommands
  · rw [hcaught.gap, decide_eq_false (by omega)]
  · exact hcaught.expected
  · rw [hrequests]
    exact Nat.zero_le 1
  · exact hcaught.established

variable {stream} {arrived rest : List SentMessage}

section

variable (hsplit : stream.sent = arrived ++ rest) (harrived : ∀ s ∈ arrived, s.lost = false)
  (hrest : ∃ s after, rest = s :: after ∧ s.lost = true)
include hsplit harrived hrest

/-- **What arrives when some of the messages are lost**: those before the first are handed on, and
the member is asked once for the rest. -/
theorem receive_arriving : let first := stream.logonSeqNum + 1 + arrived.length
    (stream.opened.receive stream.arriving).1.Within first (stream.logonSeqNum + stream.sent.length) ∧
      commands (stream.opened.receive stream.arriving).2 =
        commandsFrom (stream.logonSeqNum + 1) (arrived.map SentMessage.message) ∧
      requests (stream.opened.receive stream.arriving).2 = [first] := by
  intro first
  obtain ⟨s, after, hcons, hlost⟩ := hrest
  have hcount : stream.sent.length = arrived.length + (after.length + 1) := by
    rw [hsplit, hcons, length_append, length_cons]
  obtain ⟨hlast, hne⟩ := last_arrives fun x hx =>
    stream.lastArrives x (by rw [hsplit, hcons, getLast?_append, hx]; rfl)
  obtain ⟨hcaught, hcommands, hrequests⟩ :=
    stream.opened_within.receive (Nat.succ_pos stream.logonSeqNum) harrived
  obtain ⟨hwithin, hnone, hasked⟩ :=
    hcaught.receive_gap (Nat.max_lt.mpr ⟨Nat.lt_succ_self first, Nat.succ_pos first⟩)
    (show first + 1 + after.length = (stream.logonSeqNum + stream.sent.length) + 1 by omega) hlast
    fun hnil => absurd hnil (hne hlost)
  have harriving : stream.arriving = arrivals (stream.logonSeqNum + 1) arrived ++
    arrivals (first + 1) after := by
    unfold arriving
    rw [hsplit, arrivals_append, hcons, arrivals, if_pos hlost]
  rw [harriving, receive_append]
  rw [commands_append, requests_append, hcommands, hrequests, hnone, hasked, append_nil, if_neg (by omega)]
  exact ⟨hwithin, rfl, rfl⟩

/-- The answer is for the messages from the first that was lost on. -/
theorem answer_eq (marked : Bool) : stream.answer marked =
      answerFrom marked 0 (stream.logonSeqNum + 1 + arrived.length) (rest.map SentMessage.message) := by
  unfold answer
  rw [(receive_arriving hsplit harrived hrest).2.2]
  dsimp only
  rw [Nat.add_sub_cancel_left, messages, hsplit, map_append, drop_left' (length_map SentMessage.message)]

/-- **If some of the messages are lost**, the member recovers exactly if the runs are short. -/
theorem recovers_iff_of_lost (marked : Bool) :
    stream.Recovers marked ↔ ShortFrom 0 (rest.map SentMessage.message) := by
  obtain ⟨hwithin, hcommands, hrequests⟩ := receive_arriving hsplit harrived hrest
  have hanswer := answer_eq hsplit harrived hrest marked
  have hcount : stream.logonSeqNum + 1 + arrived.length + (rest.map SentMessage.message).length =
      (stream.logonSeqNum + stream.sent.length) + 1 := by
    rw [hsplit, length_append, length_map]
    omega
  have hwhole : stream.opened.receive (stream.received marked) =
      (((stream.opened.receive stream.arriving).1.receive (stream.answer marked)).1,
        (stream.opened.receive stream.arriving).2 ++
          ((stream.opened.receive stream.arriving).1.receive (stream.answer marked)).2) :=
    receive_append _ _ _
  obtain ⟨hcloses, hstays⟩ := hwithin.receive_answer (show 0 < _ - 0 by omega) hcount marked
  constructor
  · intro h
    by_contra hlong
    have hopen := hstays hlong
    have hclosed := h.closed
    rw [hwhole, hanswer, hopen] at hclosed
    cases hclosed
  · intro hshort
    obtain ⟨hclosed, hanswered, hquiet⟩ := hcloses hshort
    rw [← hanswer] at hclosed hanswered hquiet
    refine ⟨?_, fun seen msg rest msgType seqNum k _ => stream.covered, ?_, ?_, ?_, ?_⟩ <;> rw [hwhole]
    · rw [commands_append, hcommands, hanswered, messages, hsplit, map_append, commandsFrom_append,
        length_map]
    · rw [hclosed.gap, decide_eq_false (by omega)]
    · rw [hclosed.expected]
      omega
    · rw [requests_append, hrequests, hquiet]
      exact Nat.le_refl 1
    · exact hclosed.established

end

/-- **A member that answers as FIX says recovers exactly if no two session-level messages follow
each other** from the first message that was lost on. -/
theorem recovers_from_loss_iff (stream : MemberStream) (marked : Bool) :
    stream.Recovers marked ↔ stream.RunsAreShort := by
  have hsplit := (takeWhile_append_dropWhile (p := fun s : SentMessage => !s.lost) (l := stream.sent)).symm
  have harrived : ∀ s ∈ stream.sent.takeWhile fun s => !s.lost, s.lost = false := by
    intro s hs
    simpa using mem_takeWhile_imp hs
  unfold RunsAreShort
  cases hrest : stream.sent.dropWhile fun s => !s.lost with
  | nil =>
    rw [hrest, append_nil] at hsplit
    refine ⟨fun _ => by simp, fun _ => stream.recovers_of_none (fun s hs => ?_) marked⟩
    exact harrived s (hsplit ▸ hs)
  | cons s after =>
    have hlost : s.lost = true := by
      have hhead := head?_dropWhile_not (fun s : SentMessage => !s.lost) stream.sent
      rw [hrest] at hhead
      simpa using hhead
    rw [hrest] at hsplit
    rw [recovers_iff_of_lost hsplit harrived ⟨s, after, rfl, hlost⟩, (shortFrom_iff _).1]

/-- Two heartbeats, the first lost, and an order. -/
def heartbeats : MemberStream where
  logonSeqNum := 1
  sent := [⟨.heartbeat, true⟩, ⟨.heartbeat, false⟩, ⟨.newOrderSingle, false⟩]
  positive := by decide
  fits := by decide
  lastArrives := by
    intro s hs
    cases hs
    rfl

/-- **The gap stays open**: the gap fill from 2 to 4 is counted as number 2, and the order, sent
again as number 4, is discarded. When the timer expires the member is asked again, from 3 on. -/
theorem stays_in_gap : ¬heartbeats.Recovers true ∧
      (heartbeats.opened.receive (heartbeats.received true)).1.expectedInboundSeqNum = 3 ∧
      commands (heartbeats.opened.receive (heartbeats.received true)).2 = [] ∧
      (heartbeats.opened.receive (heartbeats.received true)).1.retryOrAbandonResendRequest.2 =
        [.resendRequest 3] := by
  refine ⟨fun h => ?_, by decide, by decide, by decide⟩
  exact absurd h.closed (by decide)

end MemberStream

/-! ## Whatever a member sends on a connection -/

/-- What the session of a connection answers to. -/
inductive SessionEvent
  | message (msg : ParsedFixMessage)
  /-- A message that fails validation. -/
  | invalid (msg : ParsedFixMessage)
  /-- The timer of a request expires. -/
  | timer
  /-- The member is authenticated, and the session is bound. -/
  | authenticated
  /-- The sequencer did not report the numbering in time. -/
  | notReportedInTime
  /-- `SessionBoundAck`, for a Logon of this number: the number remembered, or nought. -/
  | bound (logonSeqNum : Nat) (logonPossDup : Bool) (inboundSeqNum : Nat)

namespace FixSession

open GatewayEffect (commands)

/-- The callback of an event. -/
def on (session : FixSession) : SessionEvent → FixSession × List GatewayEffect
  | .message msg => session.onMessage msg
  | .invalid msg => session.onReject msg
  | .timer => session.retryOrAbandonResendRequest
  | .authenticated => ({ session with awaitingSequenceState := true }, [])
  | .notReportedInTime => session.completeSessionEstablishment
  | .bound logonSeqNum logonPossDup n =>
    establishSessionAfterLogonSequence
      { session with logonSeqNum, logonPossDup, expectedInboundSeqNum := max session.expectedInboundSeqNum n }

/-- The orders and cancels handed on over a run. -/
def handedOn (session : FixSession) : List SessionEvent → List (MsgType × Nat)
  | [] => []
  | e :: es => commands (session.on e).2 ++ handedOn (session.on e).1 es

variable (session : FixSession)

/-- At most one order or cancel is handed on, under the number expected, which is then passed. -/
def InTurn (next : FixSession × List GatewayEffect) : Prop :=
  session.expectedInboundSeqNum ≤ next.1.expectedInboundSeqNum ∧ (commands next.2 = [] ∨
    ∃ t, commands next.2 = [(t, session.expectedInboundSeqNum)] ∧
      session.expectedInboundSeqNum < next.1.expectedInboundSeqNum)

variable (msg : ParsedFixMessage)

theorem commands_dispatch : commands (session.dispatch msg).2 =
    if session.sessionEstablished ∧ msg.msgType.isCommand then [(msg.msgType, inboundSeqNumOf msg)]
      else [] := by
  unfold dispatch
  cases msg.msgType <;> by_cases h : session.sessionEstablished <;> simp [h, commands, MsgType.isCommand]

theorem inTurn_onMessage : session.InTurn (session.onMessage msg) := by
  have hno : commands (session.requestMissingMessages (inboundSeqNumOf msg)).2 = [] := by
    unfold requestMissingMessages
    split <;> rfl
  unfold onMessage InTurn
  split
  · split
    · rename_i hclass
      rw [dispatch_expected, advance_expected, commands_dispatch, classify_eq_inSequence hclass]
      split <;> simp
    · -- What is acted on in a gap is no order and no cancel.
      dsimp only
      split
      · rw [dispatch_expected, GatewayEffect.commands_append, commands_dispatch, hno,
          requestMissingMessages_expected]
        cases htype : msg.msgType <;> simp_all [MsgType.isCommand, MsgType.isSessionLevel]
      · exact ⟨(requestMissingMessages_expected _ _).ge, .inl hno⟩
    all_goals exact ⟨le_rfl, .inl rfl⟩
  · rw [dispatch_expected, commands_dispatch, if_neg]
    · simp
    · rintro ⟨hestablished, hcommand⟩
      simp_all [MsgType.isCommand]

/-- **Every event keeps the turn.** -/
theorem inTurn_on (e : SessionEvent) : session.InTurn (session.on e) := by
  rcases e with msg | msg | _ | _ | _ | _
  · exact session.inTurn_onMessage msg
  all_goals
    simp only [on, onReject, retryOrAbandonResendRequest, establishSessionAfterLogonSequence,
      judgeLogonSequence, completeSessionEstablishment, requestMissingMessages, sendResendRequest,
        endSessionOnSequenceError, advance]
    repeat' split
    all_goals simp_all [InTurn, commands] <;> omega

/-- **On one connection no order or cancel is handed on twice, or after one with a higher number.** -/
theorem handedOn_increases (events : List SessionEvent) : (session.handedOn events).Pairwise (·.2 < ·.2) ∧
    ∀ c ∈ session.handedOn events, session.expectedInboundSeqNum ≤ c.2 := by
  induction events generalizing session with
  | nil => exact ⟨.nil, nofun⟩
  | cons e es ih =>
    obtain ⟨hpair, hle⟩ := ih (session.on e).1
    obtain ⟨hnext, hnone | ⟨t, hone, hlt⟩⟩ := session.inTurn_on e
    · rw [handedOn, hnone]
      exact ⟨hpair, fun c hc => hnext.trans (hle c hc)⟩
    · rw [handedOn, hone]
      exact ⟨.cons (fun c hc => hlt.trans_le (hle c hc)) hpair,
        forall_mem_cons.mpr ⟨le_rfl, fun c hc => hnext.trans (hle c hc)⟩⟩

end FixSession

end PubsubVenue
