import Triskelion.IoThread
import Triskelion.SharedHandlers

/-! The authority thread (`csp_loop.rs`, `event_loop/client.rs`): it takes one message
after another from the I/O thread. Messages with the codes -1 and -2 register and
remove a client; every other one is dispatched to a handler and answered. Handlers
are a parameter: what one does to the tables below is a list of edits. -/

namespace Triskelion

structure Client where
  msgFd : RawFd
  replyFd : Option RawFd := none
  waitFd : Option RawFd := none
  queueFd : Option RawFd := none
  processId : UInt32 := 0
  threadId : UInt32 := 0
  pendingFd : Option (RawFd × UInt32) := none
  inflightFds : List InflightFd := []
  isPhantom : Bool := false
  isMsgPrimary : Bool := true
deriving DecidableEq

structure ClosedFd where
  fd : RawFd
  inFlight : Bool
deriving DecidableEq

def InflightFd.close (x : InflightFd) : ClosedFd := ⟨x.fd, true⟩

def Client.dropped (c : Client) : List ClosedFd :=
  (c.replyFd.toList ++ c.waitFd.toList ++ c.queueFd.toList).map (⟨·, false⟩) ++
    c.inflightFds.map InflightFd.close

def seconds (n : Nat) : Nat := n * 1000000000

structure EventLoop where
  clients : Table RawFd Client
  /-- the descriptors the I/O thread already knows -/
  knownIoFds : List RawFd
  processInflightFds : Table UInt32 (List InflightFd)
  /-- the threads of each process -/
  processes : Table UInt32 (List UInt32)
  systemPids : List UInt32
  pendingPipeWatches : List (RawFd × RawFd)
  pendingQueueFdWatches : List (RawFd × RawFd)
  pendingQueueFdRearms : List RawFd
  lingerDeadline : Option Nat
  lingerSecs : Nat
  totalRequests : Nat

/-- A step of a handler, as far as these tables see it; the client meant is the one
that made the request, except where one is inserted. -/
inductive HandlerEdit
  | takeInflight (fdNum : Int)
  | takeFirstInflight
  | insertClient (fd msgFd : RawFd) (pid tid : UInt32) (isMsgPrimary : Bool)
  | identify (fd : RawFd) (pid tid : UInt32)
  | setReplyFd (fd : RawFd)
  | setWaitFd (fd : RawFd)
  | setQueueFd (fd : RawFd)
  | setPendingFd (fd : RawFd) (tag : UInt32)
  | setThreads (pid : UInt32) (threads : List UInt32)
  | setSystem (pid : UInt32)
  | watchPipe (pipeFd ntsyncFd : RawFd)
  | watchQueue (queueFd ntsyncEventFd : RawFd)
  | rearmQueue (queueFd : RawFd)
  | countRequest
deriving DecidableEq

namespace EventLoop

def new (lingerSecs : Nat) : EventLoop :=
  ⟨.empty, [], .empty, .empty, [], [], [], [], none, lingerSecs, 0⟩

def clientPid (ev : EventLoop) (fd : RawFd) : UInt32 :=
  ((ev.clients.get? fd).map Client.processId).getD 0

def clientTid (ev : EventLoop) (fd : RawFd) : UInt32 :=
  ((ev.clients.get? fd).map Client.threadId).getD 0

/-! ### Descriptors in flight -/

def takeNumber (fdNum : Int) : List InflightFd → Option (RawFd × List InflightFd)
  | [] => none
  | x :: rest =>
    if x.fdNum = fdNum then some (x.fd, rest)
    else (takeNumber fdNum rest).map fun (fd, rest) => (fd, x :: rest)

section
variable (ev : EventLoop) (clientFd : RawFd)

def setClientInflight (queue : List InflightFd) : EventLoop :=
  { ev with clients := ev.clients.modify clientFd fun c => { c with inflightFds := queue } }

def clientInflight : List InflightFd :=
  ((ev.clients.get? clientFd).map Client.inflightFds).getD []

/-- The client's own queue first, then the pool of its process. -/
def takeInflightFd (fdNum : Int) : Option RawFd × EventLoop :=
  match takeNumber fdNum (ev.clientInflight clientFd) with
  | some (fd, queue) => (some fd, ev.setClientInflight clientFd queue)
  | none =>
    let pid := ev.clientPid clientFd
    if pid = 0 then (none, ev)
    else
      match (ev.processInflightFds.get? pid).bind (takeNumber fdNum) with
      | some (fd, pool) =>
        (some fd, { ev with processInflightFds := ev.processInflightFds.insert pid pool })
      | none => (none, ev)

def takeFirstInflightFd : Option RawFd × EventLoop :=
  match ev.clientInflight clientFd with
  | [] => (none, ev)
  | x :: rest => (some x.fd, ev.setClientInflight clientFd rest)

end

/-! ### Handlers -/

/-- The state after an edit, the descriptor that a handler took from those in flight,
and the descriptors closed with a client that was overwritten. -/
structure EditResult where
  ev : EventLoop
  taken : Option RawFd := none
  closed : List ClosedFd := []

def applyEdit (ev : EventLoop) (clientFd : RawFd) : HandlerEdit → EditResult
  | .takeInflight fdNum =>
    let (taken, ev) := ev.takeInflightFd clientFd fdNum
    { ev, taken }
  | .takeFirstInflight =>
    let (taken, ev) := ev.takeFirstInflightFd clientFd
    { ev, taken }
  | .insertClient fd msgFd processId threadId isMsgPrimary =>
    { ev := { ev with clients := ev.clients.insert fd { msgFd, processId, threadId, isMsgPrimary } }
      closed := ((ev.clients.get? fd).map Client.dropped).getD [] }
  | .identify fd pid tid =>
    { ev := { ev with
        clients := ev.clients.modify fd fun c => { c with processId := pid, threadId := tid } } }
  | .setReplyFd fd =>
    { ev := { ev with clients := ev.clients.modify clientFd fun c => { c with replyFd := some fd } } }
  | .setWaitFd fd =>
    { ev := { ev with clients := ev.clients.modify clientFd fun c => { c with waitFd := some fd } } }
  | .setQueueFd fd =>
    { ev := { ev with clients := ev.clients.modify clientFd fun c => { c with queueFd := some fd } } }
  | .setPendingFd fd tag =>
    { ev := { ev with
        clients := ev.clients.modify clientFd fun c => { c with pendingFd := some (fd, tag) } } }
  | .setThreads pid threads => { ev := { ev with processes := ev.processes.insert pid threads } }
  | .setSystem pid => { ev := { ev with systemPids := pid :: ev.systemPids } }
  | .watchPipe pipeFd ntsyncFd =>
    { ev := { ev with pendingPipeWatches := ev.pendingPipeWatches ++ [(pipeFd, ntsyncFd)] } }
  | .watchQueue queueFd ntsyncEventFd =>
    { ev := { ev with
        pendingQueueFdWatches := ev.pendingQueueFdWatches ++ [(queueFd, ntsyncEventFd)] } }
  | .rearmQueue queueFd =>
    { ev := { ev with pendingQueueFdRearms := ev.pendingQueueFdRearms ++ [queueFd] } }
  | .countRequest => { ev := { ev with totalRequests := ev.totalRequests + 1 } }

structure HandlerResult where
  ev : EventLoop
  taken : List RawFd
  closed : List ClosedFd

def applyEdits (ev : EventLoop) (clientFd : RawFd) : List HandlerEdit → HandlerResult
  | [] => ⟨ev, [], []⟩
  | edit :: later =>
    let first := ev.applyEdit clientFd edit
    let rest := applyEdits first.ev clientFd later
    ⟨rest.ev, first.taken.toList ++ rest.taken, first.closed ++ rest.closed⟩

/-! ### Disconnecting -/

def connectedThreads (clients : Table RawFd Client) (pid tid : UInt32)
    (threads : List UInt32) : List UInt32 :=
  threadsLeft (clients.entries.map fun e => (e.2.processId, e.2.threadId)) pid tid threads

section
variable (ev : EventLoop)

def userProcessesAlive : Nat :=
  (ev.processes.entries.filter fun e => e.1 ∉ ev.systemPids ∧ e.2 ≠ []).length

def endProcess (now : Nat) (pid : UInt32) : EventLoop × List ClosedFd :=
  let pool := (ev.processInflightFds.get? pid).getD []
  let deadline :=
    if pid ∉ ev.systemPids ∧ ev.userProcessesAlive = 0 then some (now + seconds 5) else
      ev.lingerDeadline
  ({ ev with
    processInflightFds := ev.processInflightFds.erase pid
    lingerDeadline := deadline
    systemPids := ev.systemPids.filter (· ≠ pid)
    processes := ev.processes.erase pid }, pool.map InflightFd.close)

def removeClient (fd : RawFd) : EventLoop × List ClosedFd :=
  let pid := ev.clientPid fd
  let tid := ev.clientTid fd
  let clients := ev.clients.erase fd
  ({ ev with
    clients
    processes :=
      if pid ≠ 0 ∧ tid ≠ 0 then ev.processes.modify pid (connectedThreads clients pid tid)
      else ev.processes }, ((ev.clients.get? fd).map Client.dropped).getD [])

def disconnectClient (now : Nat) (fd : RawFd) : EventLoop × List ClosedFd :=
  let pid := ev.clientPid fd
  let tid := ev.clientTid fd
  let (removed, closed) := ev.removeClient fd
  let remaining := ((removed.processes.get? pid).map List.length).getD 0
  if pid ≠ 0 ∧ tid ≠ 0 ∧ remaining = 0 then
    let (ended, more) := removed.endProcess now pid
    (ended, closed ++ more)
  else (removed, closed)

end

end EventLoop

/-- The handlers: what the request with a header and a body does, and its answer. -/
abbrev Handlers := EventLoop → RawFd → RequestHeader → List UInt8 → List HandlerEdit × List UInt8

namespace EventLoop

/-- The message was taken for a registration or an end of stream, or it was
dispatched. -/
inductive Outcome
  | registered
  | disconnected (closed : List ClosedFd)
  /-- with the descriptors the handler took, those closed, and those dropped because
  no client had the number -/
  | answered (reply : ReplyMsg) (taken : List RawFd) (closed : List ClosedFd) (dropped : List RawFd)
deriving DecidableEq

section
variable (ev : EventLoop)

/-- A client that is connected already is not registered again. -/
def register (fd msgFd : RawFd) : EventLoop :=
  if ev.clients.contains fd then ev
  else { ev with
    clients := ev.clients.insert fd { msgFd }
    knownIoFds := fd :: ev.knownIoFds }

def finish (now : Nat) (fd : RawFd) : EventLoop × List ClosedFd :=
  let (gone, closed) := ev.disconnectClient now fd
  let known := { gone with knownIoFds := gone.knownIoFds.filter (· ≠ fd) }
  if known.clients.entries.isEmpty then
    if known.lingerDeadline.isNone && known.totalRequests > 0 then
      ({ known with lingerDeadline := some (now + seconds known.lingerSecs) }, closed)
    else (known, closed)
  else ({ known with lingerDeadline := none }, closed)

def deposit (fd : RawFd) (inflight : List InflightFd) : EventLoop × List RawFd :=
  if inflight.isEmpty then (ev, [])
  else
    let pid := ev.clientPid fd
    if pid ≠ 0 then
      let pool := (ev.processInflightFds.get? pid).getD [] ++ inflight
      ({ ev with processInflightFds := ev.processInflightFds.insert pid pool }, [])
    else if ev.clients.contains fd then
      (ev.setClientInflight fd (ev.clientInflight fd ++ inflight), [])
    else (ev, inflight.map InflightFd.fd)

def newClients : List (RawFd × Client) :=
  ev.clients.entries.filter fun e => !e.2.isPhantom && e.1 ∉ ev.knownIoFds

def announce (clientsBefore : Nat) : EventLoop × List Effect :=
  if clientsBefore < ev.clients.entries.length then
    ({ ev with knownIoFds := ev.newClients.map Prod.fst ++ ev.knownIoFds },
      ev.newClients.map fun e => .registerClient e.1 e.2.msgFd e.2.isMsgPrimary)
  else (ev, [])

def sendPending (fd : RawFd) : EventLoop × List Effect × List ClosedFd :=
  match (ev.clients.get? fd).bind fun c => c.pendingFd.map fun p => (c, p) with
  | none => (ev, [], [])
  | some (c, pending, version) =>
    let ev := { ev with clients := ev.clients.modify fd fun c => { c with pendingFd := none } }
    if 0 ≤ c.msgFd then (ev, [.sendFd c.msgFd pending version], [])
    else (ev, [], [⟨pending, false⟩])

def drainWatches : EventLoop × List Effect :=
  ({ ev with pendingPipeWatches := [], pendingQueueFdWatches := [], pendingQueueFdRearms := [] },
    (ev.pendingPipeWatches.map fun w => Effect.watchPipeFd w.1 w.2) ++
      (ev.pendingQueueFdWatches.map fun w => .watchQueueFd w.1 w.2) ++
      ev.pendingQueueFdRearms.map .rearmQueueFd)

end

section
variable (H : Handlers) (ev : EventLoop)

def answer (msg : RequestMsg) : EventLoop × Outcome :=
  let fd := msg.clientFd
  let (ev, dropped) := ev.deposit fd msg.inflightFds
  let clientsBefore := ev.clients.entries.length
  let (edits, reply) := H ev fd msg.header msg.buf
  let handled := ev.applyEdits fd edits
  let (ev, announced) := handled.ev.announce clientsBefore
  let (ev, sent, unsent) := ev.sendPending fd
  let (ev, watched) := ev.drainWatches
  let replyFd := (ev.clients.get? fd).bind Client.replyFd
  (ev, .answered ⟨fd, reply, replyFd, announced ++ sent ++ watched⟩
    handled.taken (handled.closed ++ unsent) dropped)

def processRequest (now : Nat) (msg : RequestMsg) : EventLoop × Outcome :=
  if msg.header.req = -1 then (ev.register msg.clientFd msg.msgFd, .registered)
  else if msg.header.req = -2 then
    let (ev, closed) := ev.finish now msg.clientFd
    (ev, .disconnected closed)
  else ev.answer H msg

end

/-! ### What stays -/

/-- At most one client's entry has changed, but neither its reply pipe nor its message
socket, and the deadline stands as it was. -/
structure Touched (ev after : EventLoop) : Prop where
  lingerDeadline : after.lingerDeadline = ev.lingerDeadline
  clients : after.clients = ev.clients ∨ ∃ fd g, after.clients = ev.clients.modify fd g ∧
    ∀ c : Client, (g c).replyFd = c.replyFd ∧ (g c).msgFd = c.msgFd

theorem Touched.of_eq {ev after : EventLoop} (lingerDeadline : after.lingerDeadline = ev.lingerDeadline)
    (clients : after.clients = ev.clients) : Touched ev after :=
  ⟨lingerDeadline, .inl clients⟩

variable (ev : EventLoop) (fd : RawFd)

theorem touched_setClientInflight (queue : List InflightFd) :
    Touched ev (ev.setClientInflight fd queue) :=
  ⟨rfl, .inr ⟨fd, _, rfl, fun _ => ⟨rfl, rfl⟩⟩⟩

theorem touched_takeInflightFd (n : Int) : Touched ev (ev.takeInflightFd fd n).2 := by
  unfold takeInflightFd
  split
  · exact touched_setClientInflight ev fd _
  · dsimp only
    split
    · exact .of_eq rfl rfl
    · split <;> exact .of_eq rfl rfl

theorem touched_takeFirstInflightFd : Touched ev (ev.takeFirstInflightFd fd).2 := by
  unfold takeFirstInflightFd
  split
  · exact .of_eq rfl rfl
  · exact touched_setClientInflight ev fd _

theorem touched_deposit (inflight : List InflightFd) : Touched ev (ev.deposit fd inflight).1 := by
  unfold deposit
  split
  · exact .of_eq rfl rfl
  · dsimp only
    split
    · exact .of_eq rfl rfl
    · split
      · exact touched_setClientInflight ev fd _
      · exact .of_eq rfl rfl

theorem touched_sendPending : Touched ev (ev.sendPending fd).1 := by
  unfold sendPending
  split
  · exact .of_eq rfl rfl
  · split <;> exact ⟨rfl, .inr ⟨fd, _, rfl, fun _ => ⟨rfl, rfl⟩⟩⟩

variable {n : Nat}

theorem announce_lingerDeadline : (ev.announce n).1.lingerDeadline = ev.lingerDeadline := by
  unfold announce
  split <;> rfl

theorem announce_clients : (ev.announce n).1.clients = ev.clients := by
  unfold announce
  split <;> rfl

end EventLoop

def EventLoop.Outcome.reply : EventLoop.Outcome → Option ReplyMsg
  | .answered reply _ _ _ => some reply
  | _ => none

end Triskelion
