import Mathlib.Data.List.Basic

/-! # The numbers of a member's messages

The gate through which `FixOrderGatewayThread` lets the messages of a member: each is placed by its
`MsgSeqNum` before a handler sees it. A number above the one expected opens a gap; the member is
asked once for everything from the number expected on, and until the counter has passed the number
that revealed the gap, orders and cancels out of sequence are discarded.

* **`FixSession.handled_of_covered`**: no order or cancel is handed to its handler before every
  lower number was received. -/

namespace PubsubVenue

/-- The message types the gate tells apart. -/
inductive MsgType
  | logon | heartbeat | testRequest | resendRequest | sequenceReset | logout
  | newOrderSingle | orderCancelRequest | other
  deriving DecidableEq

/-- An order or a cancel. -/
def MsgType.isCommand : MsgType → Bool
  | .newOrderSingle | .orderCancelRequest => true
  | _ => false

/-- `is_session_level`: acted on even while a gap is open. -/
def MsgType.isSessionLevel : MsgType → Bool
  | .heartbeat | .testRequest | .resendRequest | .sequenceReset => true
  | _ => false

/-- A message of a member, as it is parsed. -/
structure ParsedFixMessage where
  msgType : MsgType
  /-- `MsgSeqNum`, if there is one and `from_chars` reads an `int` from it. -/
  msgSeqNum : Option Int
  possDupFlag : Bool
  /-- `NewSeqNo`, on a `SequenceReset`. -/
  newSeqNo : Option Int
  deriving DecidableEq

/-- `inbound_seq_num_of`: the number, or nought. -/
def inboundSeqNumOf (msg : ParsedFixMessage) : Nat :=
  match msg.msgSeqNum with
  | none => 0
  | some seqNum => if seqNum ≤ 0 then 0 else seqNum.toNat

/-- The part of `FixSession` that places what the member sends. -/
structure FixSession where
  sessionEstablished : Bool
  expectedInboundSeqNum : Nat
  inboundGapOpen : Bool
  inboundGapThrough : Nat
  /-- `resend_request_timer_id` is of a timer that runs. -/
  resendRequestTimer : Bool
  resendRequestsSent : Nat
  logonSeqNum : Nat
  logonPossDup : Bool
  /-- The session is bound and its Logon not yet answered. -/
  awaitingSequenceState : Bool
  deriving DecidableEq

/-- What the gateway does about a message. -/
inductive GatewayEffect
  /-- The handler of the type is called. -/
  | handle (msgType : MsgType) (seqNum : Nat)
  | resendRequest (beginSeqNo : Nat)
  | logout (text : String)
  | disconnect (reason : String)
  /-- `send_fix_reject`. -/
  | reject (seqNum : Nat)
  /-- `complete_session_establishment`: the reply to the Logon goes out. -/
  | logonReply
  deriving DecidableEq

/-- `InboundSequence`. -/
inductive InboundSequence
  | unnumbered | inSequence | gap | duplicate | tooLow
  deriving DecidableEq

namespace FixSession

section

variable (session : FixSession)

/-- `classify_inbound_sequence`. -/
def classifyInboundSequence (msg : ParsedFixMessage) : InboundSequence :=
  let seqNum := inboundSeqNumOf msg
  if seqNum = 0 then .unnumbered
  else if seqNum = session.expectedInboundSeqNum then .inSequence
  else if seqNum > session.expectedInboundSeqNum then .gap
  else if msg.possDupFlag then .duplicate
  else .tooLow

/-- `send_resend_request`. -/
def sendResendRequest : FixSession × List GatewayEffect :=
  ({ session with resendRequestsSent := session.resendRequestsSent + 1, resendRequestTimer := true },
    [.resendRequest session.expectedInboundSeqNum])

/-- `request_missing_messages`. -/
def requestMissingMessages (revealedBySeqNum : Nat) : FixSession × List GatewayEffect :=
  if session.inboundGapOpen then
    ({ session with inboundGapThrough := max session.inboundGapThrough revealedBySeqNum }, [])
  else
    sendResendRequest
      { session with inboundGapOpen := true, inboundGapThrough := revealedBySeqNum, resendRequestsSent := 0 }

/-- `end_session_on_sequence_error`. -/
def endSessionOnSequenceError (receivedSeqNum : Nat) : FixSession × List GatewayEffect :=
  ({ session with sessionEstablished := false },
    [.logout s!"MsgSeqNum too low, expecting {session.expectedInboundSeqNum} but received {receivedSeqNum}",
      .disconnect "inbound MsgSeqNum below expected without PossDupFlag"])

/-- A message in sequence: it is counted, and the gap is closed if that passes its end. -/
def advance : FixSession :=
  let expected := session.expectedInboundSeqNum + 1
  if session.inboundGapOpen ∧ expected > session.inboundGapThrough then
    { session with
      expectedInboundSeqNum := expected, inboundGapOpen := false, resendRequestTimer := false }
  else { session with expectedInboundSeqNum := expected }

section

variable (msg : ParsedFixMessage)

/-- The branch on the type, when the message is let through. `SequenceReset` is among the types that
are ignored: **`NewSeqNo` is not read**. -/
def dispatch : FixSession × List GatewayEffect :=
  match msg.msgType with
  | .logon => (session, [.handle .logon (inboundSeqNumOf msg)])
  | .logout =>
    if session.sessionEstablished then
      ({ session with sessionEstablished := false },
        [.handle .logout (inboundSeqNumOf msg), .disconnect "client sent Logout"])
    else (session, [.disconnect "first message was not Logon"])
  | .sequenceReset | .other =>
    if session.sessionEstablished then (session, [])
      else (session, [.disconnect "first message was not Logon"])
  | msgType =>
    if session.sessionEstablished then (session, [.handle msgType (inboundSeqNumOf msg)])
    else (session, [.disconnect "first message was not Logon"])

/-- The callback for a message that is valid. -/
def onMessage : FixSession × List GatewayEffect :=
  if msg.msgType ≠ .logon ∧ session.sessionEstablished then
    match session.classifyInboundSequence msg with
    | .inSequence => session.advance.dispatch msg
    | .gap =>
      let asked := session.requestMissingMessages (inboundSeqNumOf msg)
      if msg.msgType.isSessionLevel then
        let acted := asked.1.dispatch msg
        (acted.1, asked.2 ++ acted.2)
      else asked
    | .duplicate => (session, [])
    | .tooLow => session.endSessionOnSequenceError (inboundSeqNumOf msg)
    | .unnumbered => (session, [])
  else session.dispatch msg

/-- The callback for a message that fails validation: it has consumed its number all the same. -/
def onReject : FixSession × List GatewayEffect :=
  if session.sessionEstablished ∧ msg.msgType ≠ .logon then
    match session.classifyInboundSequence msg with
    | .inSequence => (session.advance, [.reject (inboundSeqNumOf msg)])
    | .gap => session.requestMissingMessages (inboundSeqNumOf msg)
    | .duplicate => (session, [])
    | .tooLow => session.endSessionOnSequenceError (inboundSeqNumOf msg)
    | .unnumbered => (session, [.reject 0])
  else (session, [.disconnect "message failed FIX validation"])

end

end

/-- `max_resend_requests`. -/
def maxResendRequests : Nat := 3

variable (session : FixSession)

/-- `retry_or_abandon_resend_request`, when the timer of an unanswered request expires. -/
def retryOrAbandonResendRequest : FixSession × List GatewayEffect :=
  if ¬session.inboundGapOpen then (session, [])
  else if session.resendRequestsSent ≥ maxResendRequests then
    ({ session with sessionEstablished := false },
      [.logout (s!"ResendRequest from {session.expectedInboundSeqNum} unanswered after " ++
          s!"{session.resendRequestsSent} attempts"), .disconnect "ResendRequest unanswered"])
  else session.sendResendRequest

/-- `LogonSequence`. -/
inductive LogonSequence
  | proceed | proceedThenAskForGap | endSession

/-- `judge_logon_sequence`. -/
def judgeLogonSequence : FixSession × LogonSequence :=
  if session.logonSeqNum = 0 then (session, .proceed)
  else if session.logonSeqNum = session.expectedInboundSeqNum then
    ({ session with expectedInboundSeqNum := session.logonSeqNum + 1 }, .proceed)
  else if session.logonSeqNum > session.expectedInboundSeqNum then (session, .proceedThenAskForGap)
  else if session.logonPossDup then (session, .proceed)
  else (session, .endSession)

/-- `complete_session_establishment`: the Logon is answered once. -/
def completeSessionEstablishment : FixSession × List GatewayEffect :=
  if session.awaitingSequenceState then
    ({ session with awaitingSequenceState := false, sessionEstablished := true }, [.logonReply])
  else (session, [])

/-- `establish_session_after_logon_sequence`. The Logon is judged also where it has been answered. -/
def establishSessionAfterLogonSequence : FixSession × List GatewayEffect :=
  let judged := session.judgeLogonSequence
  let completed := judged.1.completeSessionEstablishment
  match judged.2 with
  | .endSession => judged.1.endSessionOnSequenceError judged.1.logonSeqNum
  | .proceed => completed
  | .proceedThenAskForGap =>
    let asked := completed.1.requestMissingMessages judged.1.logonSeqNum
    (asked.1, completed.2 ++ asked.2)

/-- Messages, one after the other. -/
def receive (session : FixSession) : List ParsedFixMessage → FixSession × List GatewayEffect
  | [] => (session, [])
  | msg :: rest =>
    let next := session.onMessage msg
    let later := receive next.1 rest
    (later.1, next.2 ++ later.2)

/-! ## What the gate lets through -/

section Gate

variable {session : FixSession} {msg : ParsedFixMessage}

/-- Only what the member has sent moves the counters: the handlers do not. -/
theorem dispatch_expected (session : FixSession) (msg : ParsedFixMessage) :
    (session.dispatch msg).1.expectedInboundSeqNum = session.expectedInboundSeqNum := by
  unfold dispatch
  repeat' split
  all_goals rfl

variable {msgType : MsgType} {seqNum : Nat}

/-- Handlers are called with the message that is let through, and before the Logon only its own. -/
theorem mem_dispatch (h : GatewayEffect.handle msgType seqNum ∈ (session.dispatch msg).2) :
    msgType = msg.msgType ∧ seqNum = inboundSeqNumOf msg ∧
      (msg.msgType = .logon ∨ session.sessionEstablished) := by
  revert h
  unfold dispatch
  repeat' split
  all_goals simp_all

/-- Asking for what is missing moves no counter. -/
theorem requestMissingMessages_expected (session : FixSession) (n : Nat) :
    (session.requestMissingMessages n).1.expectedInboundSeqNum = session.expectedInboundSeqNum := by
  unfold requestMissingMessages
  split <;> rfl

theorem advance_expected (session : FixSession) :
    session.advance.expectedInboundSeqNum = session.expectedInboundSeqNum + 1 := by
  unfold advance
  dsimp only
  split <;> rfl

/-- A message in sequence has the number expected. -/
theorem classify_eq_inSequence (h : session.classifyInboundSequence msg = .inSequence) :
    inboundSeqNumOf msg = session.expectedInboundSeqNum := by
  revert h
  unfold classifyInboundSequence
  dsimp only
  repeat' split
  all_goals simp_all

/-- **The counter moves by one, and only for the message it waits for.** -/
theorem onMessage_expected (session : FixSession) (msg : ParsedFixMessage) :
    (session.onMessage msg).1.expectedInboundSeqNum = session.expectedInboundSeqNum ∨
      (session.onMessage msg).1.expectedInboundSeqNum = session.expectedInboundSeqNum + 1 ∧
        inboundSeqNumOf msg = session.expectedInboundSeqNum := by
  unfold onMessage
  split
  · split
    · rename_i hclass
      rw [dispatch_expected, advance_expected]
      exact .inr ⟨rfl, classify_eq_inSequence hclass⟩
    · dsimp only
      split
      · rw [dispatch_expected, requestMissingMessages_expected]
        exact .inl rfl
      · exact .inl (requestMissingMessages_expected _ _)
    · exact .inl rfl
    · exact .inl rfl
    · exact .inl rfl
  · exact .inl (dispatch_expected _ _)

/-- Asking for what is missing calls no handler. -/
theorem handle_not_mem_requestMissingMessages {n : Nat} :
    GatewayEffect.handle msgType seqNum ∉ (session.requestMissingMessages n).2 := by
  unfold requestMissingMessages sendResendRequest
  split <;> simp

/-- **An order or a cancel is handed on only in sequence.** -/
theorem mem_onMessage_of_command (h : GatewayEffect.handle msgType seqNum ∈ (session.onMessage msg).2)
    (hcommand : msgType.isCommand) :
    seqNum = inboundSeqNumOf msg ∧ seqNum = session.expectedInboundSeqNum := by
  unfold onMessage at h
  split at h
  · split at h
    · rename_i hclass
      obtain ⟨-, hseq, -⟩ := mem_dispatch h
      exact ⟨hseq, hseq.trans (classify_eq_inSequence hclass)⟩
    · dsimp only at h
      split at h
      · -- No type is both acted on in a gap and an order or a cancel.
        rename_i hlevel
        rcases List.mem_append.mp h with h | h
        · exact absurd h handle_not_mem_requestMissingMessages
        · obtain ⟨rfl, -, -⟩ := mem_dispatch h
          cases htype : msg.msgType <;> simp_all [MsgType.isCommand, MsgType.isSessionLevel]
      · exact absurd h handle_not_mem_requestMissingMessages
    · exact absurd h List.not_mem_nil
    · simp [endSessionOnSequenceError] at h
    · exact absurd h List.not_mem_nil
  · rename_i hout
    obtain ⟨rfl, -, hlogon | hestablished⟩ := mem_dispatch h
    · rw [hlogon] at hcommand
      cases hcommand
    · have hlogon : msg.msgType = .logon := by
        by_contra hne
        exact hout ⟨hne, hestablished⟩
      rw [hlogon] at hcommand
      cases hcommand

variable {messages : List ParsedFixMessage} {k : Nat}

/-- **Every number the counter has passed was received.** -/
theorem exists_of_lt_expected (session : FixSession) (hlow : session.expectedInboundSeqNum ≤ k)
    (hhigh : k < (session.receive messages).1.expectedInboundSeqNum) :
    ∃ m ∈ messages, inboundSeqNumOf m = k := by
  induction messages generalizing session with
  | nil => exact absurd hhigh (by show ¬k < session.expectedInboundSeqNum; omega)
  | cons m rest ih =>
    rcases session.onMessage_expected m with hsame | ⟨hnext, hm⟩
    · obtain ⟨x, hx, hk⟩ := ih (session.onMessage m).1 (by omega) hhigh
      exact ⟨x, List.mem_cons_of_mem _ hx, hk⟩
    · rcases Nat.eq_or_lt_of_le hlow with rfl | hlt
      · exact ⟨m, List.mem_cons_self, hm⟩
      · obtain ⟨x, hx, hk⟩ := ih (session.onMessage m).1 (by omega) hhigh
        exact ⟨x, List.mem_cons_of_mem _ hx, hk⟩

/-- **No order or cancel is handed on before every lower number was received.** -/
theorem handled_of_covered
    (h : GatewayEffect.handle msgType seqNum ∈ ((session.receive messages).1.onMessage msg).2)
    (hcommand : msgType.isCommand) (hlow : session.expectedInboundSeqNum ≤ k) (hhigh : k < seqNum) :
    ∃ m ∈ messages, inboundSeqNumOf m = k :=
  session.exists_of_lt_expected hlow ((mem_onMessage_of_command h hcommand).2 ▸ hhigh)

end Gate

end FixSession

end PubsubVenue
