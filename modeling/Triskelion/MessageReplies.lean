import Triskelion.ReplyCorrelation

/-! What the replies of the message requests promise. `send_message` acknowledges every posted
message, also where the ring of the receiver is full. `get_message` finds a message in five places;
in the ring it takes the message out whether or not the request asks for that. -/

namespace Triskelion.MessageReplies

open MessageServer MessageJournal ReplyCorrelation Option

variable {T : MsgTypes} {s : MessageServer} {fd : Int32}

/-! ### Sending -/

section Send
variable {req : SendMessageRequest} {q : ThreadQueue}

def posting (s : MessageServer) (fd : Int32) (req : SendMessageRequest) : QueuedMessage :=
  wireMessage (s.sameProcess fd (s.sendTarget req)) req

/-- Success means one more such message in the ring of the receiver, and a message that is not
queued is an error. -/
def Acknowledged (T : MsgTypes) (s : MessageServer) (fd : Int32) (req : SendMessageRequest) : Prop :=
  let out := s.handleSendMessage T fd req
  let before := ringContents s (s.sendTarget req)
  let after := ringContents out.server (s.sendTarget req)
  (out.reply.error = 0 → after.count (posting s fd req) = before.count (posting s fd req) + 1) ∧
    (after = before → out.reply.error ≠ 0)

theorem post_eq (q : ThreadQueue) (msg : QueuedMessage) :
    (q.post msg).1 = decide (q.posted.count < ringCapacity) := by
  unfold ThreadQueue.post MessageRing.push
  by_cases room : q.posted.count < ringCapacity
  · simp [show (q.posted.writePos - q.posted.readPos).toNat < ringCapacity from room, room]
  · simp [show ¬ (q.posted.writePos - q.posted.readPos).toNat < ringCapacity from room, room]

theorem acknowledged_iff_room (posted : req.msgType = T.posted ∨ req.msgType = T.notify)
    (connected : (s.clientOfThread (s.sendTarget req)).isSome)
    (queue : s.queues.get? (s.sendTarget req) = some q) :
    Acknowledged T s fd req ↔ s.sendTarget req ≠ 0 ∧ q.posted.count < ringCapacity := by
  -- every branch answers with error 0, so all depends on whether the ring has grown
  have kept : ∀ out : MessageOutcome, out.server = s → out.reply.error = 0 →
      s.handleSendMessage T fd req = out → ¬ Acknowledged T s fd req := by
    rintro out server error rfl ⟨-, refused⟩
    exact refused (by rw [server]) error
  obtain ⟨client, found⟩ := isSome_iff_exists.mp connected
  by_cases target : s.sendTarget req = 0
  · exact iff_of_false (kept _ rfl rfl (if_pos target)) fun h => h.1 target
  · have sent := post_eq q (posting s fd req)
    by_cases room : q.posted.count < ringCapacity
    · rw [decide_eq_true room] at sent
      have out : (s.handleSendMessage T fd req).server =
          s.putQueue (s.sendTarget req) (q.post (posting s fd req)).2 := by
        rw [posting] at sent ⊢
        simp [handleSendMessage, target, found, queue, sent, posted]
      have after : ringContents (s.handleSendMessage T fd req).server (s.sendTarget req) =
          q.posted.contents ++ [posting s fd req] := by
        rw [ringContents_insert (congrArg queues out), if_pos rfl]
        exact post_contents (Prod.ext sent rfl)
      have before : ringContents s (s.sendTarget req) = q.posted.contents := by
        simp [ringContents, queue]
      refine iff_of_true ?_ ⟨target, room⟩
      simp [Acknowledged, after, before]
    · refine iff_of_false ?_ fun h => room h.2
      rw [decide_eq_false room, posting] at sent
      refine kept _ ?_ ?_ rfl <;> simp [handleSendMessage, target, found, queue, sent, emptyReply]

theorem posted_acknowledged : Acknowledged headerTypes threeProcesses 4 ⟨10, 6, 0x24, 0x400, 0, 0⟩ :=
  (acknowledged_iff_room (.inl rfl) rfl rfl).mpr (by decide)

def fullQueue : ThreadQueue :=
  ⟨{ ThreadQueue.init.posted with writePos := 256, fits := by decide }, qsPostmessage⟩

theorem full_ring_acknowledged :
    ¬ Acknowledged headerTypes (threeProcesses.putQueue 10 fullQueue) 4 ⟨10, 6, 0x24, 0x400, 0, 0⟩ := by
  rintro ⟨-, refused⟩
  exact refused rfl rfl

end Send

/-! ### Peeking -/

section Peek
variable {req : GetMessageRequest} {tid : UInt32}

/-- The rings, the quit states, the sent messages and the timers of all threads are as before. -/
structure Untouched (s t : MessageServer) : Prop where
  rings : ∀ tid, ringContents t tid = ringContents s tid
  quit : t.threadQuitState = s.threadQuitState
  sent : ∀ tid, t.sentMessages.pendingFor tid = s.sentMessages.pendingFor tid
  expired : t.winTimersExpired = s.winTimersExpired
  pending : t.winTimersPending = s.winTimersPending

/-- A request that leaves everything where it is, and gets the same answer again at any time. -/
structure Pure (T : MsgTypes) (s : MessageServer) (fd : Int32) (req : GetMessageRequest) : Prop where
  untouched : Untouched s (s.handleGetMessage T fd req).server
  again : ∀ now, ((s.handleGetMessage T fd req).server.handleGetMessage T fd { req with now }).reply =
    (s.handleGetMessage T fd req).reply

def sentFirst (s : MessageServer) (tid : UInt32) (req : GetMessageRequest) : Option PendingSentMessage :=
  if admits req qsSendmessage then s.sentMessages.peek tid else none

def fromRing (s : MessageServer) (fd : Int32) (req : GetMessageRequest) : Bool :=
  (s.clientThreadId fd).any fun tid =>
    (sentFirst s tid req).isNone && (s.takePosted tid req).isSome

variable {found : GetMessageReply × MessageServer}

theorem takeQuit_server (peek : removes req = false)
    (taken : s.takeQuit T tid req = some found) : found.2 = s := by
  unfold takeQuit at taken
  split at taken
  · split at taken
    · cases taken
      rw [peek]
      rfl
    · cases taken
  · cases taken

theorem takeTimer_server (peek : removes req = false)
    (taken : s.takeTimer T tid req = some found) : found.2 = s := by
  unfold takeTimer at taken
  split at taken
  · split at taken
    · cases taken
    · cases taken
      rw [peek]
      rfl
  · cases taken

theorem takePosted_server {found : QueuedMessage × MessageServer}
    (taken : s.takePosted tid req = some found) :
    ringContents s tid = found.1 :: ringContents found.2 tid := by
  unfold takePosted at taken
  split at taken
  · obtain ⟨q, queue, rest⟩ := bind_eq_some_iff.mp taken
    obtain ⟨⟨msg, q'⟩, front, rfl⟩ := map_eq_some_iff.mp rest
    have after : ringContents (s.putQueue tid q') tid = q'.posted.contents :=
      (ringContents_insert rfl tid).trans (if_pos rfl)
    rw [after, ← get_contents front]
    simp [ringContents, queue]
  · cases taken

section
variable (peek : removes req = false)
include peek

/-- Every other source leaves the server as it is. -/
theorem server_of_not_fromRing (other : fromRing s fd req = false) :
    (s.handleGetMessage T fd req).server = s := by
  unfold handleGetMessage
  split
  · rfl
  next tid known =>
  split
  · rfl
  next unsent =>
  have empty : s.takePosted tid req = none := by
    simpa [fromRing, known, sentFirst, unsent] using other
  simp only [empty]
  split
  · next quit => exact takeQuit_server peek quit
  split
  · rfl
  split
  · next timer => exact takeTimer_server peek timer
  · rfl

/-- Only a timer that is restarted depends on the clock. -/
theorem handleGetMessage_now (now : Nat) :
    s.handleGetMessage T fd { req with now } = s.handleGetMessage T fd req := by
  have timer : ∀ tid, s.takeTimer T tid { req with now } = s.takeTimer T tid req := by
    intro tid
    have still : removes { req with now } = false := peek
    simp only [takeTimer, still, peek]
    rfl
  unfold handleGetMessage
  simp only [timer]
  rfl

theorem peek_pure_iff : Pure T s fd req ↔ fromRing s fd req = false := by
  refine ⟨fun pure => ?_, fun other => ?_⟩
  · by_contra taken
    rw [Bool.not_eq_false, fromRing, any_eq_true] at taken
    obtain ⟨tid, known, both⟩ := taken
    obtain ⟨unsent, ring⟩ := (Bool.and_eq_true ..).mp both
    obtain ⟨found, front⟩ := isSome_iff_exists.mp ring
    rw [isNone_iff_eq_none, sentFirst] at unsent
    have out : (s.handleGetMessage T fd req).server = found.2 := by
      simp only [handleGetMessage, known, unsent, front]
    have kept := pure.untouched.rings tid
    rw [out, takePosted_server front] at kept
    exact absurd (congrArg List.length kept) (by simp)
  · have server := server_of_not_fromRing (T := T) peek other
    refine ⟨?_, fun now => ?_⟩
    · rw [server]
      exact ⟨fun _ => rfl, rfl, fun _ => rfl, rfl, rfl⟩
    · rw [server, handleGetMessage_now peek]

end

/-- A thread that is to quit is told so each time. -/
theorem quit_peeked : Pure headerTypes
    { threeProcesses with threadQuitState := Table.empty.insert 10 (1, true) } 3 ⟨0, 0⟩ :=
  (peek_pure_iff rfl).mpr (by decide)

theorem peek_takes_posted : ¬ Pure headerTypes
    (threeProcesses.handleSendMessage headerTypes 4 ⟨10, 6, 0x24, 0x400, 0, 0⟩).server 3 ⟨0, 0⟩ := by
  intro pure
  exact absurd (pure.untouched.rings 10) (by decide)

end Peek
end Triskelion.MessageReplies
