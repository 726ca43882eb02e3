import Triskelion.DescriptorTables
import Triskelion.Sockets

/-! Reads and writes on pipe handles (`file_io.rs`, `handle_get_async_result` of
`sync.rs`) with the bytes that pass. A read that finds nothing is kept in two tables:
under the argument by which its result is asked for, and, if it got a handle to wait on,
in the list that is looked through after every write and at every tick.

Each read has a ticket. The handlers copy it and never look at it; it is there to say
which read is meant. -/

namespace Triskelion.PipeIo

open DescriptorTables (isPipe isStream)

structure Ticket where
  id : Nat
  client : Int
  pid : UInt32
  user : UInt64
deriving DecidableEq

/-- `watched`: the read was also given a handle to wait on. -/
structure PendingRead where
  fd : Int
  maxBytes : Nat
  ticket : Ticket
  watched : Bool
deriving DecidableEq

structure AsyncPipeRead where
  pipeFd : Int
  maxBytes : Nat
  pid : UInt32
  waitHandle : UInt32
  clientFd : Int
  ticket : Ticket
deriving DecidableEq

/-- No data stands for the end of the pipe. -/
structure CompletedPipeRead where
  clientFd : Int
  data : List UInt8
  pid : UInt32
  ticket : Ticket
deriving DecidableEq

/-- `clients` gives the process of a client, `events` whether the event of a wait handle
is set. A daemon that is `stalled` is inside a write that goes on. -/
structure State where
  clients : Table Int UInt32
  processes : Table UInt32 HandleTable
  nextObjectId : UInt64
  ioWaitHandles : Table (UInt32 × UInt32) UInt32
  events : Table (UInt32 × UInt32) Bool
  pendingReads : Table (UInt32 × UInt64) PendingRead
  pendingPipeReads : List AsyncPipeRead
  completedPipeReads : List CompletedPipeRead
  completedIoctls : Table (UInt32 × UInt64) UInt32
  sockets : Sockets
  nextRead : Nat
  stalled : Bool

/-- What happens to the bytes. A socket is named by its number, if the descriptor has
one. -/
inductive Note
  | pended (ticket : Ticket) (socket : Option Nat) (watched : Bool)
  | finished (ticket : Ticket) (socket : Option Nat) (data : List UInt8)
  | answered (pid : UInt32) (user : UInt64) (data : List UInt8)
  | sent (socket : Option Nat) (data : List UInt8)
deriving DecidableEq

section
variable (s : State)

def clientPid (clientFd : Int) : UInt32 := (s.clients.get? clientFd).getD 0

def entryFd (pid handle : UInt32) : Option (Int × HandleEntry) :=
  ((s.processes.get? pid).bind fun t => t.get handle).bind fun e => e.fd.map fun fd => (fd, e)

def socketOf (fd : Int) : Option Nat := s.sockets.ofFd.get? fd

/-! ### Wait handles -/

/-- `made` is whether an event could be created. Handle 0 where there is none. -/
def getPipeWaitHandle (pid pipeHandle : UInt32) (made : Bool) : UInt32 × State :=
  match s.ioWaitHandles.get? (pid, pipeHandle) with
  | some wait => (wait, s)
  | none =>
    if made = false then (0, s)
    else
      let oid := s.nextObjectId
      let s := { s with nextObjectId := s.nextObjectId + 1 }
      match s.processes.get? pid with
      | none => (0, s)
      | some t =>
        let (h, t) := t.allocateFull ⟨oid, some (-1), fdTypeFile, 0x001F0003, 0x20⟩
        let s := { s with processes := s.processes.insert pid t }
        if h ≠ 0 then
          (h, { s with
            events := s.events.insert (pid, h) false
            ioWaitHandles := s.ioWaitHandles.insert (pid, pipeHandle) h })
        else (0, s)

def signalPipeWait (pid waitHandle : UInt32) : State :=
  { s with events := s.events.modify (pid, waitHandle) fun _ => true }

def completeIo (pid handle : UInt32) (made : Bool) : UInt32 × State :=
  let (wait, s) := getPipeWaitHandle s pid handle made
  (wait, if wait ≠ 0 then signalPipeWait s pid wait else s)

end

/-! ### Reads -/

structure ReadRequest where
  clientFd : Int
  handle : UInt32
  user : UInt64
  maxReply : UInt32

structure ReadReply where
  error : UInt32
  wait : UInt32
  options : UInt32
  data : List UInt8
deriving DecidableEq

def maxSize (maxReply : UInt32) : Nat := if maxReply = 0 then 65536 else maxReply.toNat

section
variable (s : State)

def keepRead (ticket : Ticket) (handle : UInt32) (entry : HandleEntry) (fd : Int)
    (max : Nat) (made : Bool) : ReadReply × State × List Note :=
  let (wait, s) :=
    if isStream entry then getPipeWaitHandle s ticket.pid handle made else (0, s)
  let s := { s with
    pendingReads := s.pendingReads.insert (ticket.pid, ticket.user) ⟨fd, max, ticket, wait ≠ 0⟩ }
  (⟨0x103, wait, entry.options, []⟩,
    if wait ≠ 0 then
      { s with pendingPipeReads :=
          s.pendingPipeReads ++ [⟨fd, max, ticket.pid, wait, ticket.client, ticket⟩] }
    else s, [.pended ticket (socketOf s fd) (wait ≠ 0)])

/-- Every call of `recv` for a read request counts as one read. -/
def receive (fd : Int) (max : Nat) : Recv × State :=
  let (got, sockets) := s.sockets.recv fd max
  (got, { s with sockets, nextRead := s.nextRead + 1 })

/-- A descriptor that is not a pipe's fails here: files are not modelled. -/
def handleRead (req : ReadRequest) (made : Bool) : ReadReply × State × List Note :=
  let pid := clientPid s req.clientFd
  match entryFd s pid req.handle with
  | none => (⟨0xC0000008, 0, 0, []⟩, s, [])
  | some (fd, entry) =>
    let max := maxSize req.maxReply
    let ticket : Ticket := ⟨s.nextRead, req.clientFd, pid, req.user⟩
    let (got, s) := receive s fd max
    match got with
    | .data bytes =>
      let (wait, s) := if isPipe entry then completeIo s pid req.handle made else (0, s)
      (⟨0, wait, entry.options, bytes⟩, s,
        [.finished ticket (socketOf s fd) bytes, .answered pid req.user bytes])
    | .eof =>
      (⟨0xC000014B, 0, entry.options, []⟩, s,
        [.finished ticket (socketOf s fd) [], .answered pid req.user []])
    | .wouldBlock => keepRead s ticket req.handle entry fd max made
    | .failed => (⟨0xC0000185, 0, entry.options, []⟩, s, [])

/-! ### The pass over the reads that wait -/

def finishRead (r : AsyncPipeRead) : State × List Note :=
  let (got, sockets) := s.sockets.recv r.pipeFd r.maxBytes
  let s := { s with sockets }
  let complete (data : List UInt8) : State × List Note :=
    ({ signalPipeWait s r.pid r.waitHandle with
        completedPipeReads := s.completedPipeReads ++ [⟨r.clientFd, data, r.pid, r.ticket⟩] },
      [.finished r.ticket (socketOf s r.pipeFd) data])
  match got with
  | .data bytes => complete bytes
  | .eof => complete []
  | .wouldBlock | .failed => (s, [])

end

def finishReads (s : State) : List AsyncPipeRead → State × List Note
  | [] => (s, [])
  | r :: rest =>
    let (s, first) := finishRead s r
    let (s, later) := finishReads s rest
    (s, first ++ later)

def checkPendingPipeReads (s : State) : State × List Note :=
  let ready := s.pendingPipeReads.filter fun r => s.sockets.poll r.pipeFd
  let left := s.pendingPipeReads.filter fun r => !s.sockets.poll r.pipeFd
  finishReads { s with pendingPipeReads := left } ready.reverse

/-! ### Writes -/

structure WriteRequest where
  clientFd : Int
  handle : UInt32
  data : List UInt8

structure WriteReply where
  error : UInt32
  wait : UInt32
  options : UInt32
  size : UInt32
deriving DecidableEq

inductive WriteEnd
  | done (total : Nat)
  | failed (total : Nat)
  | spinning
deriving DecidableEq

/-- The loop over `write`, for at most `fuel` calls. A full buffer means another turn. -/
def writeLoop (rule : SendRule) (fd : Int) : Nat → Sockets → List UInt8 → Nat → WriteEnd × Sockets
  | _, k, [], total => (.done total, k)
  | 0, k, _ :: _, _ => (.spinning, k)
  | fuel + 1, k, b :: rest, total =>
    match k.write rule fd (b :: rest) with
    | (.wrote 0, k) => (.done total, k)
    | (.wrote n, k) => writeLoop rule fd fuel k ((b :: rest).drop n) (total + n)
    | (.wouldBlock, k) => writeLoop rule fd fuel k (b :: rest) total
    | (.failed, k) => (.failed total, k)

/-- No result where the loop has not come to its end within `fuel` calls. -/
def handleWrite (rule : SendRule) (fuel : Nat) (s : State) (req : WriteRequest) (made : Bool) :
    Option (WriteReply × State × List Note) :=
  let pid := clientPid s req.clientFd
  match entryFd s pid req.handle with
  | none => some (⟨0xC0000008, 0, 0, 0⟩, s, [])
  | some (fd, entry) =>
    if req.data = [] then some (⟨0, 0, entry.options, 0⟩, s, [])
    else
      let note (total : Nat) : Note :=
        .sent ((s.sockets.target fd).map Prod.fst) (req.data.take total)
      match writeLoop rule fd fuel s.sockets req.data 0 with
      | (.spinning, _) => none
      | (.failed total, sockets) =>
        some (⟨0xC0000185, 0, entry.options, UInt32.ofNat total⟩, { s with sockets }, [note total])
      | (.done total, sockets) =>
        let s := { s with sockets }
        let (wait, s) := if isPipe entry then completeIo s pid req.handle made else (0, s)
        let (s, notes) :=
          if 0 < total ∧ isStream entry then checkPendingPipeReads s else (s, [])
        some (⟨0, wait, entry.options, UInt32.ofNat total⟩, s, note total :: notes)

/-! ### Results -/

def getAsyncResult (s : State) (clientFd : Int) (user : UInt64) :
    (UInt32 × List UInt8) × State × List Note :=
  let pid := clientPid s clientFd
  match s.completedIoctls.get? (pid, user) with
  | some status => ((status, []), { s with completedIoctls := s.completedIoctls.erase (pid, user) }, [])
  | none =>
    match s.completedPipeReads.find? fun c => c.pid = pid ∧ c.clientFd = clientFd with
    | some c =>
      ((if c.data = [] then 0xC000014B else 0, c.data),
        { s with completedPipeReads := s.completedPipeReads.erase c }, [.answered pid user c.data])
    | none =>
      match s.pendingReads.get? (pid, user) with
      | none => ((0x103, []), s, [])
      | some p =>
        let (got, sockets) := s.sockets.recv p.fd p.maxBytes
        let s := { s with sockets }
        match got with
        | .data bytes =>
          ((0, bytes), { s with pendingReads := s.pendingReads.erase (pid, user) },
            [.finished p.ticket (socketOf s p.fd) bytes, .answered pid user bytes])
        | _ => ((0x103, []), s, [])

/-! ### Runs -/

inductive Event
  | read (req : ReadRequest) (made : Bool)
  | write (req : WriteRequest) (made : Bool) (fuel : Nat)
  | getAsyncResult (clientFd : Int) (user : UInt64)
  | tick
  | hangUp (socket : Nat)

/-- A write that does not return is the last thing the daemon does. -/
def act (rule : SendRule) (s : State) : Event → State × List Note
  | .read req made => (handleRead s req made).2
  | .write req made fuel =>
    match handleWrite rule fuel s req made with
    | some done => done.2
    | none => ({ s with stalled := true }, [])
  | .getAsyncResult clientFd user => (getAsyncResult s clientFd user).2
  | .tick => checkPendingPipeReads s
  | .hangUp socket => ({ s with sockets := s.sockets.hangUp socket }, [])

structure Observed where
  state : State
  notes : List Note

def step (rule : SendRule) (o : Observed) (event : Event) : Observed :=
  if o.state.stalled then o
  else ⟨(act rule o.state event).1, o.notes ++ (act rule o.state event).2⟩

end Triskelion.PipeIo
