import Triskelion.Authority
import Triskelion.ReplySizes

/-! How the descriptor behind a handle gets to a client (`get_handle_fd` of
`event_loop/handles.rs`, `process_request` and `execute_reply` of `csp_loop.rs`): the handler
leaves a copy with the client and reports success, the authority takes the copy from there
and turns it into an effect of the reply, the I/O thread sends it on the message socket and
then writes the reply. A client that reads success waits on its socket.

The request structure is generated, so how a handle is read from a request is a parameter.
What the kernel answers to `fcntl` and `sendmsg` is an input. -/

namespace Triskelion.DescriptorHandover

open Option EventLoop IoThread List Table

open ByteWords (leBytes readWord)
open ReplySizes (Reply ReplyStruct replyFixed failure)

/-- What the handler reads beside the clients; of an ntsync object only that it is there. -/
structure HandleTables where
  processes : Table UInt32 HandleTable
  ntsyncObjects : Table (UInt32 × UInt32) Unit
  sideTables : HandleSideTables

/-- The descriptor that `F_DUPFD_CLOEXEC` returns, and whether the socket takes a message. -/
structure KernelCalls where
  dup : Option Nat
  sendmsg : Bool

/-- A negative number names no descriptor. -/
def KernelCalls.fcntlDup (k : KernelCalls) (fd : RawFd) : Int :=
  if fd < 0 then -1 else (k.dup.map Int.ofNat).getD (-1)

def getHandleFdReply (error type cacheable access options : UInt32) : Reply :=
  replyFixed ⟨error, 0, leBytes type ++ leBytes cacheable ++ leBytes access ++ leBytes options,
    by simp [leBytes]⟩

def isPseudoHandle (handle : UInt32) : Bool :=
  handle ∈ [0xFFFFFFFF, 0x7FFFFFFF, 0xFFFFFFFE, 0xFFFFFFFC, 0xFFFFFFFB, 0xFFFFFFFA] ||
    0xFFFFFFF0 ≤ handle

def HandleTables.entryAt (t : HandleTables) (pid handle : UInt32) : Option HandleEntry :=
  (t.processes.get? pid).bind fun p => p.get handle

/-- Cacheable, so that the client does not ask again. -/
def typeMismatch : Reply := getHandleFdReply 0xC0000024 0 1 0 0

def invalidHandle : Reply := getHandleFdReply 0xC0000008 0 0 0 0

def processOf (ev : EventLoop) (clientFd : RawFd) : Option UInt32 :=
  (ev.clients.get? clientFd).bind fun c => if c.processId ≠ 0 then some c.processId else none

section
variable (t : HandleTables) (k : KernelCalls) (ev : EventLoop) (clientFd : RawFd)

def sendHandleFd (pid handle : UInt32) (entry : HandleEntry) (fd : RawFd) :
    HandleTables × List HandlerEdit × Reply :=
  let unsent := t.sideTables.fdSent.erase (pid, handle)
  let reply := getHandleFdReply 0 entry.objType 1 entry.access entry.options
  if ev.clients.contains clientFd then
    ({ t with sideTables := { t.sideTables with fdSent := unsent.insert (pid, handle) () } },
      -- a `dup` that fails is logged
      if 0 ≤ k.fcntlDup fd then [.setPendingFd (k.fcntlDup fd) handle] else [], reply)
  else ({ t with sideTables := { t.sideTables with fdSent := unsent } }, [], reply)

def handleGetHandleFd : Option UInt32 → HandleTables × List HandlerEdit × Reply
  | none => (t, [], failure 0xC000000D)
  | some handle =>
    let pid := processOf ev clientFd
    if isPseudoHandle handle then (t, [], typeMismatch)
    else if handle = 0 then (t, [], invalidHandle)
    else
      match pid.bind fun p => t.entryAt p handle with
      | some entry =>
        match entry.fd with
        | some fd => sendHandleFd t k ev clientFd (pid.getD 0) handle entry fd
        | none => (t, [], typeMismatch)
      | none =>
        if pid.any fun p => t.ntsyncObjects.contains (p, handle) then (t, [], typeMismatch)
        else (t, [], invalidHandle)

end

section
variable (decode : List UInt8 → Option UInt32) (t : HandleTables) (k : KernelCalls)

def handlers : Handlers :=
  fun ev clientFd _ buf =>
    let handled := handleGetHandleFd t k ev clientFd (decode buf)
    (handled.2.1, handled.2.2.bytes)

def serve (ev : EventLoop) (io : IoThread) (now : Nat) (msg : RequestMsg) : List IoAction :=
  match (ev.processRequest (handlers decode t k) now msg).2.reply with
  | some reply => (io.executeReply reply).2
  | none => []

end

/-! ### What a client sees -/

section
variable (actions : List IoAction)

def sendCalls : List (RawFd × UInt32) :=
  actions.filterMap fun
    | .sendFd target _ version => some (target, version)
    | _ => none

def isWrite : IoAction → Bool
  | .write _ _ => true
  | _ => false

def sendCallsFirst : List (RawFd × UInt32) :=
  sendCalls (actions.takeWhile fun a => !isWrite a)

def writtenError : Option UInt32 :=
  actions.findSome? fun
    | .write _ data => readWord data 0
    | _ => none

end

def KernelCalls.arrived (k : KernelCalls) (calls : List (RawFd × UInt32)) : List (RawFd × UInt32) :=
  if k.sendmsg then calls else []

/-- Success comes after exactly one descriptor with the tag of the handle, an error without
any descriptor. -/
def HandedOver (k : KernelCalls) (msgFd : RawFd) (handle : Option UInt32)
    (actions : List IoAction) : Prop :=
  (writtenError actions = some 0 ∧
    (∃ h, handle = some h ∧ k.arrived (sendCallsFirst actions) = [(msgFd, h)]) ∧
      k.arrived (sendCalls actions) = k.arrived (sendCallsFirst actions)) ∨
    (∃ e, writtenError actions = some e ∧ e ≠ 0) ∧ k.arrived (sendCalls actions) = []

/-! ### The two stages after the handler -/

def sendOf : Effect → Option (RawFd × UInt32)
  | .sendFd target _ version => some (target, version)
  | _ => none

theorem executeEffect_calls (io : IoThread) (effect : Effect) :
    sendCalls (io.executeEffect effect).2 = (sendOf effect).toList ∧
      ∀ a ∈ (io.executeEffect effect).2, isWrite a = false := by
  cases effect with
  | registerClient | watchQueueFd =>
    rw [executeEffect]
    split <;> exact ⟨rfl, by simp⟩
  | sendFd => exact ⟨rfl, by simp [executeEffect, isWrite]⟩
  | watchPipeFd =>
    rw [executeEffect]
    split
    · split
      · exact ⟨rfl, by simp [isWrite]⟩
      · exact ⟨rfl, by simp⟩
    · exact ⟨rfl, by simp⟩
  | rearmQueueFd => exact ⟨rfl, by simp [executeEffect]⟩

theorem executeEffects_calls (effects : List Effect) (io : IoThread) :
    sendCalls (io.executeEffects effects).2 = effects.filterMap sendOf ∧
      ∀ a ∈ (io.executeEffects effects).2, isWrite a = false := by
  induction effects generalizing io with
  | nil => exact ⟨rfl, by simp [executeEffects]⟩
  | cons effect later ih =>
    obtain ⟨first, quiet⟩ := executeEffect_calls io effect
    obtain ⟨rest, quietRest⟩ := ih (io.executeEffect effect).1
    rw [executeEffects]
    refine ⟨?_, fun a mem => ?_⟩
    · rw [sendCalls, filterMap_append]
      change sendCalls _ ++ sendCalls _ = _
      rw [first, rest]
      cases sent : sendOf effect <;> simp [sent]
    · exact (mem_append.mp mem).elim (quiet a) (quietRest a)

theorem executeReply_trace (io : IoThread) (msg : ReplyMsg) {e : UInt32}
    (error : readWord msg.reply 0 = some e) : writtenError (io.executeReply msg).2 = some e ∧
      sendCallsFirst (io.executeReply msg).2 = msg.effects.filterMap sendOf ∧
      sendCalls (io.executeReply msg).2 = msg.effects.filterMap sendOf := by
  obtain ⟨calls, quiet⟩ := executeEffects_calls msg.effects io
  have written : msg.reply.isEmpty = false := by
    cases data : msg.reply with
    | nil =>
      rw [data] at error
      cases error
    | cons => rfl
  have silent : (io.executeEffects msg.effects).2.findSome? (fun
      | .write _ data => readWord data 0
      | _ => none) = none := by
    apply findSome?_eq_none_iff.mpr
    intro a mem
    have other := quiet a mem
    cases a with
    | write => cases other
    | forward | close | sendFd => rfl
  simp only [executeReply, written, Bool.false_eq_true, ↓reduceIte]
  refine ⟨?_, ?_, ?_⟩
  · rw [writtenError, findSome?_append, silent]
    simp [error]
  · rw [sendCallsFirst, takeWhile_append_of_pos fun a mem => by simp [quiet a mem]]
    simpa [isWrite] using calls
  · rw [sendCalls, filterMap_append]
    change sendCalls _ ++ [] = _
    rw [calls, append_nil]

section
variable (ev : EventLoop)

def socketOf (fd : RawFd) : Option (RawFd × UInt32 × Option (RawFd × UInt32)) :=
  (ev.clients.get? fd).map fun c => (c.msgFd, c.processId, c.pendingFd)

theorem socketOf_deposit (fd : RawFd) (inflight : List InflightFd) :
    socketOf (ev.deposit fd inflight).1 fd = socketOf ev fd := by
  unfold deposit
  split
  · rfl
  · dsimp only
    split
    · rfl
    · split
      · exact map_get?_modify (by simp) ..
      · rfl

def sentWith (msgFd : RawFd) : Option (RawFd × UInt32) → List (RawFd × UInt32)
  | some (_, tag) => if 0 ≤ msgFd then [(msgFd, tag)] else []
  | none => []

theorem sendPending_calls {ev : EventLoop} {fd msgFd : RawFd} {pid : UInt32}
    {pending : Option (RawFd × UInt32)} (client : socketOf ev fd = some (msgFd, pid, pending)) :
    (ev.sendPending fd).2.1.filterMap sendOf = sentWith msgFd pending := by
  obtain ⟨c, found, same⟩ := map_eq_some_iff.mp client
  obtain ⟨rfl, -, rfl⟩ := same
  rw [sendPending, found]
  cases left : c.pendingFd with
  | none => simp [left, sentWith]
  | some =>
    simp only [bind_some, left, map_some, sentWith]
    split <;> rfl

theorem announce_calls (n : Nat) : (ev.announce n).2.filterMap sendOf = [] := by
  unfold announce
  split
  · simp [sendOf]
  · rfl

theorem drainWatches_calls : ev.drainWatches.2.filterMap sendOf = [] := by
  simp [drainWatches, sendOf, filterMap_append]

end

def queued (k : KernelCalls) (handle : UInt32) (fd : RawFd) (pending : Option (RawFd × UInt32)) :
    Option (RawFd × UInt32) :=
  if 0 ≤ k.fcntlDup fd then some (k.fcntlDup fd, handle) else pending

def HandleTables.storedFd (t : HandleTables) (pid handle : UInt32) : Option RawFd :=
  if isPseudoHandle handle ∨ handle = 0 ∨ pid = 0 then none
  else (t.entryAt pid handle).bind HandleEntry.fd

theorem readWord_replyFixed (r : ReplyStruct) : readWord (replyFixed r).bytes 0 = some r.error := by
  simp [replyFixed, Reply.bytes, ReplyStruct.padded, ReplyStruct.bytes, leBytes, readWord,
    ByteWords.ofBytes_byteOf]

section Handler
variable {t : HandleTables} {k : KernelCalls} {ev : EventLoop} {fd msgFd : RawFd} {pid : UInt32}
  {pending : Option (RawFd × UInt32)}

section
variable (client : socketOf ev fd = some (msgFd, pid, pending))
include client

theorem processOf_of_socket : processOf ev fd = if pid ≠ 0 then some pid else none := by
  obtain ⟨c, found, same⟩ := map_eq_some_iff.mp client
  cases same
  rw [processOf, found]
  rfl

theorem handle_of_stored {handle : UInt32}
    {stored : RawFd} (has : t.storedFd pid handle = some stored) :
    readWord (handleGetHandleFd t k ev fd (some handle)).2.2.bytes 0 = some 0 ∧
      (handleGetHandleFd t k ev fd (some handle)).2.1 =
        if 0 ≤ k.fcntlDup stored then [.setPendingFd (k.fcntlDup stored) handle] else [] := by
  rw [HandleTables.storedFd] at has
  split at has
  · cases has
  next real =>
    simp only [not_or] at real
    obtain ⟨entry, found, fdOf⟩ := bind_eq_some_iff.mp has
    obtain ⟨c, connected, -⟩ := map_eq_some_iff.mp client
    have contains := contains_of_get? connected
    simp only [handleGetHandleFd, real.1, Bool.false_eq_true, ↓reduceIte, real.2.1,
      processOf_of_socket client, ne_eq, real.2.2, not_false_eq_true, bind_some, found,
      fdOf, sendHandleFd, contains]
    exact ⟨readWord_replyFixed _, trivial⟩

theorem handle_of_unstored
    {req : Option UInt32} (none_ : (req.bind fun h => t.storedFd pid h) = none) :
    (∃ e, readWord (handleGetHandleFd t k ev fd req).2.2.bytes 0 = some e ∧ e ≠ 0) ∧
      (handleGetHandleFd t k ev fd req).2.1 = [] := by
  have mismatch : ∃ e, readWord typeMismatch.bytes 0 = some e ∧ e ≠ 0 :=
    ⟨_, readWord_replyFixed _, by decide⟩
  have invalid : ∃ e, readWord invalidHandle.bytes 0 = some e ∧ e ≠ 0 :=
    ⟨_, readWord_replyFixed _, by decide⟩
  cases req with
  | none => exact ⟨⟨_, readWord_replyFixed _, by decide⟩, rfl⟩
  | some handle =>
    rw [handleGetHandleFd]
    split
    · exact ⟨mismatch, rfl⟩
    next real =>
      split
      · exact ⟨invalid, rfl⟩
      next nonzero =>
        split
        next entry found =>
          split
          next stored fdOf =>
            -- the only branch with success, which `none_` rules out
            rw [processOf_of_socket client] at found
            split at found
            next named =>
              have has : t.storedFd pid handle = some stored := by
                rw [bind_some] at found
                simp [HandleTables.storedFd, real, nonzero, named, found, fdOf]
              rw [bind_some, has] at none_
              cases none_
            · cases found
          · exact ⟨mismatch, rfl⟩
        · split
          · exact ⟨mismatch, rfl⟩
          · exact ⟨invalid, rfl⟩

end

end Handler

/-! ### The whole way -/

theorem socketOf_applyEdits {ev : EventLoop} {fd msgFd : RawFd} {pid : UInt32}
    {pending : Option (RawFd × UInt32)} (client : socketOf ev fd = some (msgFd, pid, pending))
    (k : KernelCalls) (handle : UInt32) (stored : RawFd) : socketOf (ev.applyEdits fd
      (if 0 ≤ k.fcntlDup stored then [.setPendingFd (k.fcntlDup stored) handle] else [])).ev fd =
        some (msgFd, pid, queued k handle stored pending) := by
  obtain ⟨c, found, same⟩ := map_eq_some_iff.mp client
  cases same
  rw [queued]
  split
  · simp [applyEdits, applyEdit, socketOf, get?_modify, found]
  · exact client

variable {msg : RequestMsg}

/-- The reply carries what the handler answered, and its effects send the copy that is with
the client once the handler is done. -/
theorem answer_reply (H : Handlers) (ev : EventLoop) (now : Nat)
    (request : msg.header.req ≠ -1 ∧ msg.header.req ≠ -2) {msgFd : RawFd} {pid : UInt32}
    {pending : Option (RawFd × UInt32)} {edits : List HandlerEdit} {bytes : List UInt8}
    (handled : H (ev.deposit msg.clientFd msg.inflightFds).1 msg.clientFd msg.header msg.buf =
      (edits, bytes)) (client : socketOf ((ev.deposit msg.clientFd msg.inflightFds).1.applyEdits
      msg.clientFd edits).ev msg.clientFd = some (msgFd, pid, pending)) :
    ∃ reply, (ev.processRequest H now msg).2.reply = some reply ∧ reply.reply = bytes ∧
      reply.effects.filterMap sendOf = sentWith msgFd pending := by
  rw [processRequest, if_neg request.1, if_neg request.2, answer]
  simp only [handled, EventLoop.Outcome.reply]
  refine ⟨_, rfl, rfl, ?_⟩
  rw [filterMap_append, filterMap_append, announce_calls, drainWatches_calls, append_nil]
  apply sendPending_calls
  rwa [socketOf, announce_clients]

/-- The copy of a stored descriptor reaches the client, and a client that asks for anything
else has no copy waiting that could. -/
def Deliverable (k : KernelCalls) (t : HandleTables) (c : Client) (req : Option UInt32) : Prop :=
  (∀ h fd, req = some h → t.storedFd c.processId h = some fd → 0 ≤ c.msgFd ∧ k.sendmsg ∧
      (0 ≤ fd ∧ k.dup.isSome ∨ c.pendingFd.map Prod.snd = some h)) ∧
    ((req.bind fun h => t.storedFd c.processId h) = none →
      c.pendingFd = none ∨ c.msgFd < 0 ∨ k.sendmsg = false)

theorem fcntlDup_nonneg (k : KernelCalls) (fd : RawFd) :
    0 ≤ k.fcntlDup fd ↔ 0 ≤ fd ∧ k.dup.isSome := by
  rw [KernelCalls.fcntlDup]
  split
  next negative => exact ⟨fun h => absurd h (by decide), fun h => absurd h.1 (Int.not_le.mpr negative)⟩
  next nonneg => cases k.dup <;> simp [Int.not_lt.mp nonneg]

variable {h : UInt32}

section
variable (k : KernelCalls) (msgFd : RawFd) (pending : Option (RawFd × UInt32))

theorem arrived_sentWith_eq : k.arrived (sentWith msgFd pending) = [(msgFd, h)] ↔
      0 ≤ msgFd ∧ k.sendmsg ∧ pending.map Prod.snd = some h := by
  rw [KernelCalls.arrived]
  cases pending with
  | none => simp [sentWith]
  | some =>
    by_cases open_ : 0 ≤ msgFd
    · cases k.sendmsg <;> simp [sentWith, open_]
    · simp [sentWith, open_]

theorem arrived_sentWith_nil :
    k.arrived (sentWith msgFd pending) = [] ↔ pending = none ∨ msgFd < 0 ∨ k.sendmsg = false := by
  rw [KernelCalls.arrived]
  cases pending with
  | none => simp [sentWith]
  | some =>
    by_cases open_ : 0 ≤ msgFd
    · simp [sentWith, open_, Int.not_lt.mpr open_]
    · simp [sentWith, open_, Int.not_le.mp open_]

end

theorem queued_tag (k : KernelCalls) (fd : RawFd) (pending : Option (RawFd × UInt32)) :
    (queued k h fd pending).map Prod.snd = some h ↔
      0 ≤ fd ∧ k.dup.isSome ∨ pending.map Prod.snd = some h := by
  rw [← fcntlDup_nonneg, queued]
  split <;> simp_all

section
variable {decode : List UInt8 → Option UInt32} {t : HandleTables} {k : KernelCalls} {ev : EventLoop}
  {msgFd : RawFd} {pid : UInt32} {pending : Option (RawFd × UInt32)} (io : IoThread) (now : Nat)
  (request : msg.header.req ≠ -1 ∧ msg.header.req ≠ -2)
include request

section
variable (client : socketOf ev msg.clientFd = some (msgFd, pid, pending))
include client

theorem handedOver_stored {fd : RawFd}
    (asks : decode msg.buf = some h) (stored : t.storedFd pid h = some fd) :
    HandedOver k msgFd (decode msg.buf) (serve decode t k ev io now msg) ↔ 0 ≤ msgFd ∧ k.sendmsg ∧
        (0 ≤ fd ∧ k.dup.isSome ∨ pending.map Prod.snd = some h) := by
  have arrives := (socketOf_deposit ev msg.clientFd msg.inflightFds).trans client
  obtain ⟨success, edits⟩ := handle_of_stored (k := k) arrives stored
  obtain ⟨reply, answered, bytes, effects⟩ := answer_reply (handlers decode t k) ev now request
    (by rw [handlers, asks, edits]) (socketOf_applyEdits arrives k h fd)
  obtain ⟨error, first, calls⟩ := executeReply_trace io reply
    ((congrArg (readWord · 0) bytes).trans success)
  rw [serve, answered, HandedOver]
  rw [error, first, calls, effects, asks]
  constructor
  · rintro (⟨-, ⟨h', asked, one⟩, -⟩ | ⟨⟨e, failed, nonzero⟩, -⟩)
    · cases asked
      rwa [arrived_sentWith_eq, queued_tag] at one
    · cases failed
      exact absurd rfl nonzero
  · intro sent
    refine .inl ⟨rfl, ⟨h, rfl, ?_⟩, rfl⟩
    rwa [arrived_sentWith_eq, queued_tag]

theorem handedOver_unstored (unstored : ((decode msg.buf).bind fun h => t.storedFd pid h) = none) :
    HandedOver k msgFd (decode msg.buf) (serve decode t k ev io now msg) ↔
      pending = none ∨ msgFd < 0 ∨ k.sendmsg = false := by
  have arrives := (socketOf_deposit ev msg.clientFd msg.inflightFds).trans client
  obtain ⟨⟨e, failed, nonzero⟩, edits⟩ := handle_of_unstored (k := k) arrives unstored
  obtain ⟨reply, answered, bytes, effects⟩ :=
    answer_reply (handlers decode t k) ev now request (Prod.ext edits rfl) arrives
  obtain ⟨error, first, calls⟩ := executeReply_trace io reply
    ((congrArg (readWord · 0) bytes).trans failed)
  rw [serve, answered, HandedOver]
  simp only [error, first, calls, effects, arrived_sentWith_nil]
  simp [nonzero]

end

end

theorem handed_over_iff (decode : List UInt8 → Option UInt32) (t : HandleTables) (k : KernelCalls)
    (ev : EventLoop) (io : IoThread) (now : Nat) (msg : RequestMsg)
    (request : msg.header.req ≠ -1 ∧ msg.header.req ≠ -2) (c : Client)
    (connected : ev.clients.get? msg.clientFd = some c) :
    HandedOver k c.msgFd (decode msg.buf) (serve decode t k ev io now msg) ↔
      Deliverable k t c (decode msg.buf) := by
  have client : socketOf ev msg.clientFd = some (c.msgFd, c.processId, c.pendingFd) := by
    rw [socketOf, connected]
    rfl
  cases stored : (decode msg.buf).bind fun h => t.storedFd c.processId h with
  | none =>
    rw [handedOver_unstored io now request client stored]
    constructor
    · refine fun quiet => ⟨fun h fd asks has => ?_, fun _ => quiet⟩
      rw [asks, bind_some, has] at stored
      cases stored
    · exact fun deliverable => deliverable.2 stored
  | some fd =>
    obtain ⟨h, asks, has⟩ := bind_eq_some_iff.mp stored
    rw [handedOver_stored io now request client asks has]
    constructor
    · refine fun sent => ⟨fun h' fd' asks' has' => ?_, fun none_ => ?_⟩
      · cases asks.symm.trans asks'
        cases has.symm.trans has'
        exact sent
      · rw [stored] at none_
        cases none_
    · exact fun deliverable => deliverable.1 h fd asks has

/-! ### A wait handle -/

/-- The handle of a pipe's wait event has the descriptor -1 in its entry. -/
def waitTables (fd : RawFd) : HandleTables where
  processes := empty.insert 0x20
    (HandleTable.new.allocateFull ⟨0x1000, some fd, 1, 0x001F0003, 0x20⟩).2
  ntsyncObjects := empty.insert (0x20, 4) ()
  sideTables := .new

def waitLoop : EventLoop :=
  { new 3 with clients := empty.insert 7 { msgFd := 8, processId := 0x20 } }

def wordAfterHeader (buf : List UInt8) : Option UInt32 :=
  if 16 ≤ buf.length then readWord buf 12 else none

def waitRequest : RequestMsg := ⟨7, ⟨0, 0, 24⟩, replicate 12 0 ++ [4, 0, 0, 0], [], -1⟩

theorem file_descriptor_handed_over : HandedOver ⟨some 30, true⟩ 8 (some 4)
      (serve wordAfterHeader (waitTables 5) ⟨some 30, true⟩ waitLoop .new 0 waitRequest) :=
  (handed_over_iff wordAfterHeader (waitTables 5) ⟨some 30, true⟩ waitLoop .new 0 waitRequest
    ⟨by decide, by decide⟩ { msgFd := 8, processId := 0x20 } rfl).mpr
    ⟨by
      intro h fd asks has
      cases (show wordAfterHeader waitRequest.buf = some 4 by decide +kernel).symm.trans asks
      cases (show (waitTables 5).storedFd 0x20 4 = some 5 by decide +kernel).symm.trans has
      decide, by
      intro none_
      exact absurd none_ (by decide +kernel)⟩

/-- The client of the wait handle is told that a descriptor comes, and none does. -/
theorem wait_handle_not_handed_over :
    writtenError (serve wordAfterHeader (waitTables (-1)) ⟨some 30, true⟩ waitLoop .new 0
      waitRequest) = some 0 ∧
    sendCalls (serve wordAfterHeader (waitTables (-1)) ⟨some 30, true⟩ waitLoop .new 0
      waitRequest) = [] ∧
    ¬ HandedOver ⟨some 30, true⟩ 8 (some 4)
      (serve wordAfterHeader (waitTables (-1)) ⟨some 30, true⟩ waitLoop .new 0 waitRequest) := by
  have error : writtenError (serve wordAfterHeader (waitTables (-1)) ⟨some 30, true⟩ waitLoop .new 0
      waitRequest) = some 0 := by decide +kernel
  have silent : sendCalls (serve wordAfterHeader (waitTables (-1)) ⟨some 30, true⟩ waitLoop .new 0
      waitRequest) = [] := by decide +kernel
  refine ⟨error, silent, fun handed => ?_⟩
  rcases handed with ⟨-, ⟨h, -, one⟩, all⟩ | ⟨⟨e, read, nonzero⟩, -⟩
  · rw [one] at all
    cases all
  · cases error.symm.trans read
    exact nonzero rfl

end Triskelion.DescriptorHandover
