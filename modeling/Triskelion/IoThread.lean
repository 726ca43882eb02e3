import Triskelion.KeyedTable
import Triskelion.StreamFraming

/-! The I/O thread (`csp_loop.rs`): it owns the descriptors of the clients, cuts what
they write into requests for the authority and carries out the authority's replies.
What the kernel answers to each call is an input; what the thread does to the outside
is recorded as actions, in order. -/

namespace Triskelion

open List

abbrev RawFd := Int

structure RequestHeader where
  req : Int32
  requestSize : UInt32
  replySize : UInt32
deriving DecidableEq

/-- A descriptor received over a message socket, with the thread it was sent for and
the number it has in the client. -/
structure InflightFd where
  tid : UInt32
  fdNum : Int
  fd : RawFd
deriving DecidableEq

structure RequestMsg where
  clientFd : RawFd
  header : RequestHeader
  buf : List UInt8
  inflightFds : List InflightFd
  msgFd : RawFd
deriving DecidableEq

inductive Effect
  | registerClient (requestFd msgFd : RawFd) (isMsgPrimary : Bool)
  | sendFd (targetFd fdToSend : RawFd) (protocolVersion : UInt32)
  | watchPipeFd (pipeFd ntsyncFd : RawFd)
  | watchQueueFd (queueFd ntsyncEventFd : RawFd)
  | rearmQueueFd (queueFd : RawFd)
deriving DecidableEq

structure ReplyMsg where
  clientFd : RawFd
  reply : List UInt8
  replyFd : Option RawFd
  effects : List Effect
deriving DecidableEq

/-! ### Frames -/

def leNat : List UInt8 → Nat
  | [] => 0
  | b :: rest => b.toNat + 256 * leNat rest

def leU32 (bytes : List UInt8) : UInt32 := UInt32.ofNat (leNat (bytes.take 4))

def leI32 (bytes : List UInt8) : Int32 := (leU32 bytes).toInt32

def headerSize : Nat := 12

def readHeader (buf : List UInt8) : RequestHeader :=
  ⟨leI32 buf, leU32 (buf.drop 4), leU32 (buf.drop 8)⟩

def totalSize (header : RequestHeader) : Nat := 64 + header.requestSize.toNat

variable {buf : List UInt8}

variable {more : List UInt8}

theorem readHeader_append (long : headerSize ≤ buf.length) :
    readHeader (buf ++ more) = readHeader buf := by
  rw [headerSize] at long
  have part : ∀ k, k ≤ 8 → leU32 ((buf ++ more).drop k) = leU32 (buf.drop k) := by
    intro k small
    rw [leU32, leU32, drop_append_of_le_length (by omega),
      take_append_of_le_length (by rw [length_drop]; omega)]
  have start := part 0 (by omega)
  rw [drop_zero, drop_zero] at start
  rw [readHeader, readHeader, leI32, leI32, start, part 4 (by omega), part 8 (by omega)]

def frameSize (buf : List UInt8) : Option Nat :=
  if buf.length < headerSize then none else some (totalSize (readHeader buf))

theorem frameSize_some {n : Nat} (size : frameSize buf = some n) :
    headerSize ≤ buf.length ∧ n = totalSize (readHeader buf) := by
  rw [frameSize] at size
  split at size
  · cases size
  · next long => exact ⟨Nat.le_of_not_lt long, (Option.some.inj size).symm⟩

theorem frameSize_of_long (long : headerSize ≤ buf.length) (more : List UInt8) :
    frameSize (buf ++ more) = some (totalSize (readHeader buf)) := by
  rw [frameSize, if_neg (by rw [length_append]; omega), readHeader_append long]

theorem frameSize_completes (buf : List UInt8)
    (short : ∀ n, frameSize buf = some n → buf.length < n) :
    ∃ more, more ≠ [] ∧ frameSize (buf ++ more) = some (buf ++ more).length := by
  by_cases long : headerSize ≤ buf.length
  · have size := frameSize_of_long long []
    rw [append_nil] at size
    have less := short _ size
    refine ⟨replicate (totalSize (readHeader buf) - buf.length) 0, ?_, ?_⟩
    · rw [ne_eq, replicate_eq_nil_iff]
      omega
    · rw [frameSize_of_long long, length_append, length_replicate]
      congr 1
      omega
  · rw [headerSize] at long
    have padded : headerSize ≤ (buf ++ replicate 12 0).length := by
      rw [length_append, length_replicate, headerSize]
      omega
    have total : 64 ≤ totalSize (readHeader (buf ++ replicate 12 0)) := Nat.le_add_right _ _
    refine ⟨replicate 12 0 ++
      replicate (totalSize (readHeader (buf ++ replicate 12 0)) - buf.length - 12) 0, by simp, ?_⟩
    rw [← append_assoc, frameSize_of_long padded]
    simp only [length_append, length_replicate]
    congr 1
    omega

def requestFramer : Framer UInt8 where
  size := frameSize
  stable size more := by
    obtain ⟨long, rfl⟩ := frameSize_some size
    exact frameSize_of_long long more
  pos size := by
    obtain ⟨-, rfl⟩ := frameSize_some size
    exact Nat.lt_of_lt_of_le (by decide) (Nat.le_add_right _ _)
  inside {frame rest} size := by
    obtain ⟨-, length⟩ := frameSize_some size
    have long : headerSize ≤ frame.length := by
      rw [length, totalSize, headerSize]
      omega
    have same := frameSize_of_long long rest
    rw [size] at same
    rw [← append_nil frame, frameSize_of_long long, append_nil, ← same]
  completes := frameSize_completes

/-! ### State -/

structure IoClient where
  msgFd : RawFd
  recvBuf : List UInt8
deriving DecidableEq

structure IoThread where
  ioClients : Table RawFd IoClient
  /-- the clients that share a message socket -/
  msgFdClients : Table RawFd (List RawFd)
  pendingFds : Table RawFd (List InflightFd)
  clientReplyFds : Table RawFd RawFd
  pipeWatchers : Table RawFd RawFd
  queueFdWatchers : Table RawFd RawFd

inductive IoAction
  | forward (msg : RequestMsg)
  | close (fd : RawFd)
  | write (target : RawFd) (data : List UInt8)
  | sendFd (target fd : RawFd) (version : UInt32)
deriving DecidableEq

/-- One message that `recvmsg` returned: its data, never empty, and its descriptors. -/
structure Received where
  data : List UInt8
  fds : List RawFd
  some_ : 0 < data.length

def Received.inflight (r : Received) : List InflightFd :=
  r.fds.map fun fd =>
    if 8 ≤ r.data.length then ⟨leU32 r.data, (leI32 (r.data.drop 4)).toInt, fd⟩ else ⟨0, fd, fd⟩

/-- What one `read` returned: at least one byte and at most a buffer of them. -/
structure ReadChunk where
  bytes : List UInt8
  some_ : 0 < bytes.length
  fits : bytes.length ≤ 4096

/-- The answer of the kernel to `read` on a request pipe; `drains` are the messages
that arrive on the message socket by the time each request is forwarded. -/
inductive ReadResult
  | closed
  | bytes (chunk : ReadChunk) (drains : List (List Received))

inductive AcceptOutcome
  | refused
  | noPipe (msgFd : RawFd)
  | noHandshake (msgFd pipeRead pipeWrite : RawFd)
  | noDup (msgFd pipeRead pipeWrite : RawFd)
  | accepted (msgFd pipeRead pipeWrite requestFd : RawFd)

namespace IoThread

def new : IoThread := ⟨.empty, .empty, .empty, .empty, .empty, .empty⟩

section
variable (s : IoThread) (msgFd : RawFd)

def pushPending (x : InflightFd) : IoThread :=
  { s with pendingFds := s.pendingFds.insert msgFd ((s.pendingFds.get? msgFd).getD [] ++ [x]) }

def drainMsgFd (received : List Received) : IoThread :=
  (received.flatMap Received.inflight).foldl (fun s x => s.pushPending msgFd x) s

def takePending : List InflightFd × IoThread :=
  ((s.pendingFds.get? msgFd).getD [],
    { s with pendingFds := s.pendingFds.modify msgFd fun _ => [] })

end

def forwardFrame (s : IoThread) (fd msgFd : RawFd) (frame : List UInt8)
    (received : List Received) : IoThread × IoAction :=
  let (inflight, s) := (s.drainMsgFd msgFd received).takePending msgFd
  (s, .forward ⟨fd, readHeader frame, frame, inflight, -1⟩)

def forwardFrames (s : IoThread) (fd msgFd : RawFd) :
    List (List UInt8) → List (List Received) → IoThread × List IoAction
  | [], _ => (s, [])
  | frame :: later, drains =>
    let (s, action) := s.forwardFrame fd msgFd frame (drains.head?.getD [])
    let (s, actions) := forwardFrames s fd msgFd later drains.tail
    (s, action :: actions)

section
variable (s : IoThread)

def releaseMsgFd (fd msgFd : RawFd) : IoThread × List IoAction :=
  match s.msgFdClients.get? msgFd with
  | none => (s, [])
  | some clients =>
    let left := clients.filter (· ≠ fd)
    if left.isEmpty then
      ({ s with
        msgFdClients := s.msgFdClients.erase msgFd
        pendingFds := s.pendingFds.erase msgFd }, [.close msgFd])
    else ({ s with msgFdClients := s.msgFdClients.insert msgFd left }, [])

def disconnectIoClient (fd : RawFd) : IoThread × List IoAction :=
  let (s, closed) :=
    match s.ioClients.get? fd with
    | none => (s, [])
    | some client => releaseMsgFd { s with ioClients := s.ioClients.erase fd } fd client.msgFd
  ({ s with clientReplyFds := s.clientReplyFds.erase fd }, closed ++ [.close fd])

def registration (fd msgFd : RawFd) : RequestMsg := ⟨fd, ⟨-1, 0, 0⟩, [], [], msgFd⟩

def disconnection (fd : RawFd) : RequestMsg := ⟨fd, ⟨-2, 0, 0⟩, [], [], -1⟩

def handleClientRead (fd : RawFd) : ReadResult → IoThread × List IoAction
  | .closed =>
    let (s, closed) := s.disconnectIoClient fd
    (s, closed ++ [.forward (disconnection fd)])
  | .bytes chunk drains =>
    match s.ioClients.get? fd with
    | none => (s, [])
    | some client =>
      let (frames, rest) := requestFramer.frames (client.recvBuf ++ chunk.bytes)
      forwardFrames { s with ioClients := s.ioClients.insert fd { client with recvBuf := rest } }
        fd client.msgFd frames drains

theorem handleClientRead_bytes {s : IoThread} {fd : RawFd} {client : IoClient}
    (found : s.ioClients.get? fd = some client) (chunk : ReadChunk)
    (drains : List (List Received)) : s.handleClientRead fd (.bytes chunk drains) =
      { s with ioClients := s.ioClients.insert fd { client with
        recvBuf := (requestFramer.frames (client.recvBuf ++ chunk.bytes)).2 } }.forwardFrames
        fd client.msgFd (requestFramer.frames (client.recvBuf ++ chunk.bytes)).1 drains := by
  rw [handleClientRead, found]

def track (requestFd msgFd : RawFd) : IoThread :=
  { s with
    ioClients := s.ioClients.insert requestFd ⟨msgFd, []⟩
    msgFdClients := s.msgFdClients.insert msgFd
      ((s.msgFdClients.get? msgFd).getD [] ++ [requestFd]) }

def handleAccept : AcceptOutcome → IoThread × List IoAction
  | .refused => (s, [])
  | .noPipe msgFd => (s, [.close msgFd])
  | .noHandshake msgFd pipeRead pipeWrite =>
    (s, [.close msgFd, .close pipeRead, .close pipeWrite])
  | .noDup msgFd pipeRead pipeWrite => (s, [.close pipeWrite, .close pipeRead, .close msgFd])
  | .accepted msgFd pipeRead pipeWrite requestFd =>
    (s.track requestFd msgFd,
      [.close pipeWrite, .close pipeRead, .forward (registration requestFd msgFd)])

def executeEffect : Effect → IoThread × List IoAction
  | .registerClient requestFd msgFd _ =>
    if s.ioClients.contains requestFd then (s, []) else (s.track requestFd msgFd, [])
  | .sendFd target fd version => (s, [.sendFd target fd version, .close fd])
  | .watchPipeFd pipeFd ntsyncFd =>
    ({ s with pipeWatchers := s.pipeWatchers.insert pipeFd ntsyncFd },
      match s.pipeWatchers.get? pipeFd with
      | some old => if old ≠ ntsyncFd then [.close old] else []
      | none => [])
  | .watchQueueFd queueFd ntsyncEventFd =>
    if s.queueFdWatchers.contains queueFd then (s, [])
    else ({ s with queueFdWatchers := s.queueFdWatchers.insert queueFd ntsyncEventFd }, [])
  | .rearmQueueFd _ => (s, [])

end

def executeEffects (s : IoThread) : List Effect → IoThread × List IoAction
  | [] => (s, [])
  | effect :: later =>
    let (s, first) := s.executeEffect effect
    let (s, rest) := executeEffects s later
    (s, first ++ rest)

def executeReply (s : IoThread) (msg : ReplyMsg) : IoThread × List IoAction :=
  let (s, actions) := s.executeEffects msg.effects
  let s :=
    match msg.replyFd with
    | some replyFd => { s with clientReplyFds := s.clientReplyFds.insert msg.clientFd replyFd }
    | none => s
  let target := (s.clientReplyFds.get? msg.clientFd).getD msg.clientFd
  (s, actions ++ if msg.reply.isEmpty then [] else [.write target msg.reply])

/-! ### Events -/

/-- What the kernel has for a descriptor it reports as readable, whichever way the
thread reads it. -/
structure FdInput where
  received : List Received
  read : ReadResult

inductive Event
  | accept (outcome : AcceptOutcome)
  | ready (fd : RawFd) (input : FdInput)
  | reply (msg : ReplyMsg)

inductive PollEvent
  | accept (outcome : AcceptOutcome)
  | ready (fd : RawFd) (input : FdInput)

def PollEvent.toEvent : PollEvent → Event
  | .accept outcome => .accept outcome
  | .ready fd input => .ready fd input

def step (s : IoThread) : Event → IoThread × List IoAction
  | .accept outcome => s.handleAccept outcome
  | .ready fd input =>
    if s.msgFdClients.contains fd then (s.drainMsgFd fd input.received, [])
    else if s.ioClients.contains fd then s.handleClientRead fd input.read
    else (s, [])
  | .reply msg => s.executeReply msg

def run (s : IoThread) : List Event → IoThread × List IoAction
  | [] => (s, [])
  | event :: later =>
    let (s, first) := s.step event
    let (s, rest) := run s later
    (s, first ++ rest)

end IoThread
end Triskelion
