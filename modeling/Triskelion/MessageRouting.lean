import Triskelion.MessageRing
import Triskelion.WindowTable

/-! Window messages between threads: `send_message` puts a message in the ring of
the receiver and may track it as well, `get_message` takes one out, and
`reply_message` wakes a blocked sender. Next to its reply each handler gives the
queue bits it sets and says which way the message went. -/

namespace Triskelion

/-- The values of `enum message_type`, which the build takes from the protocol
header of the client. -/
structure MsgTypes where
  ascii : Int32
  unicode : Int32
  notify : Int32
  callback : Int32
  otherProcess : Int32
  posted : Int32

def MsgTypes.isBlockingSend (T : MsgTypes) (msgType : Int32) : Bool :=
  msgType = T.otherProcess || msgType = T.ascii || msgType = T.unicode || msgType = T.callback

/-! ### Tracked sends -/

structure PendingSentMessage where
  senderTid : UInt32
  receiverTid : UInt32
  msgCode : UInt32
  win : UInt32
  wparam : UInt64
  lparam : UInt64
  msgType : Int32
deriving DecidableEq

structure MsgProfile where
  fastVotes : UInt32
  trackedVotes : UInt32
  observations : UInt32
  promoted : Bool
deriving DecidableEq

namespace MsgProfile

def new : MsgProfile := ⟨0, 0, 0, false⟩

def minObservations : UInt32 := 8

/-- `confidence() >= 0.90`: for 32-bit counts the rounded quotient is at least the
rounded threshold exactly when the quotient is at least nine tenths. -/
def confident (p : MsgProfile) : Bool :=
  minObservations ≤ p.observations && 9 * p.observations.toNat ≤ 10 * p.fastVotes.toNat

def checkPromote (p : MsgProfile) : MsgProfile :=
  if !p.promoted && p.confident then { p with promoted := true } else p

def demote (p : MsgProfile) : MsgProfile :=
  if p.promoted then { p with promoted := false, fastVotes := 0 } else p

end MsgProfile

/-- The newest tracked message of a receiver stands first in its list. -/
structure SentMessages where
  pending : Table UInt32 (List PendingSentMessage)
  profiles : Table UInt32 MsgProfile

namespace SentMessages

section
variable (m : SentMessages)
include m

def shouldFastPath (msgCode : UInt32) : Bool :=
  ((m.profiles.get? msgCode).map (·.promoted)).getD false

section
variable (receiver : UInt32)

def pendingFor : List PendingSentMessage :=
  (m.pending.get? receiver).getD []

def track (msg : PendingSentMessage) : SentMessages :=
  { m with pending := m.pending.insert msg.receiverTid (msg :: m.pendingFor msg.receiverTid) }

def drainOneWithCode : Option ((UInt32 × UInt32) × SentMessages) :=
  match m.pendingFor receiver with
  | [] => none
  | msg :: rest =>
    some ((msg.senderTid, msg.msgCode), { m with
      pending := if rest = [] then m.pending.erase receiver else m.pending.insert receiver rest })

def observeReply (msgCode : UInt32) (result : UInt64) : SentMessages :=
  let p := (m.profiles.get? msgCode).getD MsgProfile.new
  let p := { p with observations := p.observations + 1 }
  let p :=
    if result = 0 then { p with fastVotes := p.fastVotes + 1 }.checkPromote
    else { p with trackedVotes := p.trackedVotes + 1 }.demote
  { m with profiles := m.profiles.insert msgCode p }

def peek : Option PendingSentMessage :=
  (m.pendingFor receiver).head?

end

end

end SentMessages

/-! ### Thread queues -/

def qsPostmessage : UInt32 := 0x0008
def qsTimer : UInt32 := 0x0010
def qsPaint : UInt32 := 0x0020
def qsSendmessage : UInt32 := 0x0040
def qsAllpostmessage : UInt32 := 0x0100
def qsAllinput : UInt32 := 0x04FF
def qsSmresult : UInt32 := 0x8000

structure ThreadQueue where
  posted : MessageRing
  wakeBits : UInt32

namespace ThreadQueue

def init : ThreadQueue :=
  ⟨{ writePos := 0, readPos := 0, buf := fun _ => ⟨0, 0, 0, 0, 0, 0, 0, 0, (0, 0)⟩, fits := by decide }, 0⟩

def post (q : ThreadQueue) (msg : QueuedMessage) : Bool × ThreadQueue :=
  let (ok, posted) := q.posted.push msg
  if ok then (true, ⟨posted, q.wakeBits ||| qsPostmessage⟩) else (false, q)

def get (q : ThreadQueue) : Option (QueuedMessage × ThreadQueue) :=
  q.posted.pop.map fun (msg, posted) =>
    (msg, ⟨posted, if posted.isEmpty then q.wakeBits &&& ~~~qsPostmessage else q.wakeBits⟩)

end ThreadQueue

/-! ### The server -/

structure WinTimer where
  when_ : Nat
  rateMs : UInt32
  win : UInt32
  msg : UInt32
  id : UInt64
  lparam : UInt64
deriving DecidableEq

/-- What the message requests read of the rest of the server. -/
structure MessageSurroundings where
  clients : Table Int32 WindowClient
  windowStates : Table UInt32 WindowState
  desktopTopWindow : UInt32
  desktopMsgWindow : UInt32
  threadQuitState : Table UInt32 (Int32 × Bool)
  winTimersPending : Table UInt32 (List WinTimer)
  winTimersExpired : Table UInt32 (List WinTimer)

structure MessageServer extends MessageSurroundings where
  queues : Table UInt32 ThreadQueue
  sentMessages : SentMessages

structure SendMessageRequest where
  id : UInt32
  msgType : Int32
  win : UInt32
  msg : UInt32
  wparam : UInt64
  lparam : UInt64

/-- `now` is the clock at the time of the request. -/
structure GetMessageRequest where
  flags : UInt32
  now : Nat

structure GetMessageReply where
  error : UInt32
  win : UInt32
  msg : UInt32
  wparam : UInt64
  lparam : UInt64
  msgType : Int32
  x : Int32
  y : Int32
  time : UInt32
deriving DecidableEq

inductive MessageEvent
  | nothing
  /-- put in the ring of the receiver, and tracked or not -/
  | queued (receiver sender : UInt32) (msg : QueuedMessage) (blocking tracked : Bool)
  /-- the newest tracked message was returned -/
  | peeked (receiver : UInt32)
  /-- the oldest message of the ring was taken out and returned -/
  | taken (receiver : UInt32)
  | replied (receiver : UInt32)
deriving DecidableEq

/-- `signals` are the calls of `set_queue_bits_for_tid`, thread and bits. -/
structure MessageOutcome where
  server : MessageServer
  reply : GetMessageReply
  signals : List (UInt32 × UInt32)
  event : MessageEvent

namespace MessageServer

section
variable (s : MessageServer) (fd : Int32)

def clientThreadId : Option UInt32 :=
  (s.clients.get? fd).bind fun c => if c.threadId ≠ 0 then some c.threadId else none

def clientPid : UInt32 :=
  ((s.clients.get? fd).map (·.processId)).getD 0

def clientOfThread (tid : UInt32) : Option (Int32 × WindowClient) :=
  s.clients.entries.find? fun c => c.2.threadId = tid

def putQueue (tid : UInt32) (q : ThreadQueue) : MessageServer :=
  { s with queues := s.queues.insert tid q }

def emptyReply (error : UInt32) : GetMessageReply := ⟨error, 0, 0, 0, 0, 0, 0, 0, 0⟩

def sendTarget (req : SendMessageRequest) : UInt32 :=
  if req.id ≠ 0 then req.id
  else if req.win ≠ 0 then ((s.windowStates.get? req.win).map (·.tid)).getD 0
  else 0

def sameProcess (target : UInt32) : Bool :=
  let senderPid := s.clientPid fd
  let targetPid := ((s.clientOfThread target).map (·.2.processId)).getD 0
  senderPid ≠ 0 && senderPid = targetPid

def useFast (req : SendMessageRequest) : Bool :=
  req.win = s.desktopTopWindow || req.win = s.desktopMsgWindow ||
    s.sentMessages.shouldFastPath req.msg

end

def wireMessage (same : Bool) (req : SendMessageRequest) : QueuedMessage :=
  { win := req.win, msg := req.msg, wparam := req.wparam, lparam := req.lparam
    msgType := if same && req.msgType = 1 then 3 else req.msgType, x := 0, y := 0, time := 0 }

def handleSendMessage (T : MsgTypes) (s : MessageServer) (fd : Int32) (req : SendMessageRequest) :
    MessageOutcome :=
  let target := s.sendTarget req
  let blocking := T.isBlockingSend req.msgType
  let sender := (s.clientThreadId fd).getD 0
  let blocked := blocking && sender ≠ 0
  let release := if blocked then [(sender, qsSmresult)] else []
  let unsent : MessageOutcome := ⟨s, emptyReply 0, release, .nothing⟩
  if target = 0 then unsent
  else if (s.clientOfThread target).isNone then unsent
  else
    let same := s.sameProcess fd target
    let msg := wireMessage same req
    match s.queues.get? target with
    | none => unsent
    | some queue =>
      -- a refused post leaves the queue as it is, so a second try is refused as well
      let (ok, queue) := queue.post msg
      let queued (tracked : Bool) := MessageEvent.queued target sender msg blocking tracked
      if !ok then unsent
      else if req.msgType = T.posted || req.msgType = T.notify then
        ⟨s.putQueue target queue, emptyReply 0, [(target, qsPostmessage ||| qsAllpostmessage)],
          queued false⟩
      else
        let tracked := { s.putQueue target queue with
          sentMessages := s.sentMessages.track
            { senderTid := sender, receiverTid := target, msgCode := req.msg, win := req.win
              wparam := req.wparam, lparam := req.lparam, msgType := req.msgType } }
        if !blocked then
          ⟨s.putQueue target queue, emptyReply 0, [(target, qsSendmessage)], queued false⟩
        else if same then ⟨tracked, emptyReply 0, [(target, qsSendmessage)], queued true⟩
        else if s.useFast req then
          ⟨s.putQueue target queue, emptyReply 0, [(target, qsSendmessage), (sender, qsSmresult)],
            queued false⟩
        else ⟨tracked, emptyReply 0, [(target, qsSendmessage)], queued true⟩

def messageFilter (flags : UInt32) : UInt32 :=
  if flags >>> 16 = 0 then qsAllinput else flags >>> 16

def admits (req : GetMessageRequest) (bits : UInt32) : Bool := messageFilter req.flags &&& bits ≠ 0

def removes (req : GetMessageRequest) : Bool := req.flags &&& 1 ≠ 0

def sentReply (p : PendingSentMessage) : GetMessageReply :=
  ⟨0, p.win, p.msgCode, p.wparam, p.lparam, p.msgType, 0, 0, 0⟩

def queuedReply (m : QueuedMessage) : GetMessageReply :=
  ⟨0, m.win, m.msg, m.wparam, m.lparam, m.msgType, m.x, m.y, m.time⟩

/-- The posted part of `get_message`: the ring, when the filter asks for it. -/
def takePosted (s : MessageServer) (tid : UInt32) (req : GetMessageRequest) :
    Option (QueuedMessage × MessageServer) :=
  if admits req qsPostmessage then
    (s.queues.get? tid).bind fun queue => queue.get.map fun (msg, queue) => (msg, s.putQueue tid queue)
  else none

def wmQuit : UInt32 := 0x0012
def wmPaint : UInt32 := 0x000F

section
variable (T : MsgTypes) (s : MessageServer) (tid : UInt32) (req : GetMessageRequest)
include T

def takeQuit : Option (GetMessageReply × MessageServer) :=
  if admits req qsPostmessage then
    match s.threadQuitState.get? tid with
    | some (exitCode, true) =>
      some (⟨0, 0, wmQuit, exitCode.toInt64.toUInt64, 0, T.posted, 0, 0, 0⟩,
        if removes req then { s with threadQuitState := s.threadQuitState.erase tid } else s)
    | _ => none
  else none

/-- `needs_paint` stays set: `begin_paint` clears it. -/
def takePaint : Option GetMessageReply :=
  if admits req qsPaint then
    (s.windowStates.entries.find? fun w => w.2.tid = tid ∧ w.2.needsPaint).map fun w =>
      ⟨0, w.1, wmPaint, 0, 0, T.posted, 0, 0, 0⟩
  else none

def takeTimer : Option (GetMessageReply × MessageServer) :=
  if admits req qsTimer then
    match (s.winTimersExpired.get? tid).getD [] with
    | [] => none
    | timer :: rest =>
      let restarted := { timer with when_ := req.now + timer.rateMs.toNat }
      some (⟨0, timer.win, timer.msg, timer.id, timer.lparam, T.posted, 0, 0, 0⟩,
        if removes req then
          { s with
            winTimersExpired := s.winTimersExpired.insert tid rest
            winTimersPending := s.winTimersPending.insert tid
              ((s.winTimersPending.get? tid).getD [] ++ [restarted]) }
        else s)
  else none

end

def statusPending : UInt32 := 0x103

/-- Tracked sends first, then the ring, quit, paint and timers. -/
def handleGetMessage (T : MsgTypes) (s : MessageServer) (fd : Int32) (req : GetMessageRequest) :
    MessageOutcome :=
  let idle : MessageOutcome := ⟨s, emptyReply statusPending, [], .nothing⟩
  match s.clientThreadId fd with
  | none => idle
  | some tid =>
    match if admits req qsSendmessage then s.sentMessages.peek tid else none with
    | some pending => ⟨s, sentReply pending, [], .peeked tid⟩
    | none =>
      match s.takePosted tid req with
      | some (msg, s) => ⟨s, queuedReply msg, [], .taken tid⟩
      | none =>
        match s.takeQuit T tid req with
        | some (reply, s) => ⟨s, reply, [], .nothing⟩
        | none =>
          match s.takePaint T tid req with
          | some reply => ⟨s, reply, [], .nothing⟩
          | none =>
            match s.takeTimer T tid req with
            | some (reply, s) => ⟨s, reply, [], .nothing⟩
            | none => idle

def handleReplyMessage (s : MessageServer) (fd : Int32) (result : UInt64) : MessageOutcome :=
  match s.clientThreadId fd with
  | none => ⟨s, emptyReply 0, [], .nothing⟩
  | some receiver =>
    match s.sentMessages.drainOneWithCode receiver with
    | none => ⟨s, emptyReply 0, [], .replied receiver⟩
    | some ((sender, msgCode), drained) =>
      ⟨{ s with sentMessages := drained.observeReply msgCode result }, emptyReply 0,
        [(sender, qsSmresult)], .replied receiver⟩

/-- Threads with new queues and no send under way; clients, windows and learned
profiles are whatever they are. -/
def start (around : MessageSurroundings) (threads : List UInt32)
    (profiles : Table UInt32 MsgProfile) : MessageServer :=
  { toMessageSurroundings := around
    queues := threads.foldl (fun queues tid => queues.insert tid ThreadQueue.init) .empty
    sentMessages := ⟨.empty, profiles⟩ }

end MessageServer

/-- The message requests. `elsewhere` is any other request that leaves the rings
and the tracked sends alone. -/
inductive MessageRequest
  | send (fd : Int32) (req : SendMessageRequest)
  | get (fd : Int32) (req : GetMessageRequest)
  | reply (fd : Int32) (result : UInt64)
  | elsewhere (after : MessageSurroundings)

def MessageServer.handle (T : MsgTypes) (s : MessageServer) : MessageRequest → MessageOutcome
  | .send fd req => s.handleSendMessage T fd req
  | .get fd req => s.handleGetMessage T fd req
  | .reply fd result => s.handleReplyMessage fd result
  | .elsewhere after =>
    ⟨{ s with toMessageSurroundings := after }, MessageServer.emptyReply 0, [], .nothing⟩

end Triskelion
