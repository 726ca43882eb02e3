import Triskelion.DescriptorTables
import Triskelion.Utf16Text

/-! `handle_select` with its worker threads and timers (`sync.rs`, `ntsync.rs`), and what
the requests on named pipes (`pipes.rs`) leave for it: APCs, deferred events, and the
waiters of a pipe that does not listen yet.

The kernel's part comes with a request: how its calls ended and what the clocks said.
Besides the tables of the daemon the state keeps what a run is judged by: which listen an
APC or a deferred event comes from, which APCs a thread holds, and the timeout of the
select that a wake-up is for. -/

namespace Triskelion.Select

/-- A connection is one life of a client descriptor. -/
structure Client where
  processId : UInt32
  threadId : UInt32
  waitFd : Option Int
  suspendCookie : UInt64
  connection : Nat
deriving DecidableEq

structure Process where
  handles : HandleTable
  threads : List UInt32
  idleSignaled : Bool

/-- `listen` numbers the listen requests. -/
structure PipeListenAsync where
  serverClientFd : Int
  user : UInt64
  sb : UInt64
  userArg : UInt64
  listen : Nat
deriving DecidableEq

structure PipeInstance where
  serverPid : UInt32
  serverHandle : UInt32
  state : PipeState
  listenEvent : Option (UInt32 × UInt32)
  listenAsync : Option PipeListenAsync
deriving DecidableEq

/-- `name` is the name as the request had it. -/
structure PendingPipeWaiter where
  pid : UInt32
  waitHandle : UInt32
  name : Str
deriving DecidableEq

/-- `deferred` is whether an event waits for the answer. -/
structure Apc where
  apcType : UInt32
  status : UInt32
  user : UInt64
  sb : UInt64
  result : UInt32
  listen : Nat
  deferred : Bool
deriving DecidableEq

structure DeferredEvent where
  pid : UInt32
  handle : UInt32
  listen : Nat
deriving DecidableEq

structure PendingWait where
  deadline : Nat
  clientFd : Int
  cookie : UInt64
deriving DecidableEq

/-- A thread blocked in an ntsync wait over `objects` objects. It writes to a copy of
the wait descriptor, which stays that of the connection. -/
structure Worker where
  connection : Nat
  cookie : UInt64
  timeoutNs : UInt64
  objects : Nat
  waitAll : Bool
  owner : UInt32
  interrupt : Bool
deriving DecidableEq

/-- An APC that was handed to its thread under a handle. -/
structure Delivery where
  listen : Nat
  deferred : Bool
  handle : UInt32
deriving DecidableEq

/-- `ntsyncObjects` gives the type of an object. The waits are in the order in which the
heap gives them up. The last five fields are for judging a run: `eventsSet` are the events
that waiters for a pipe were woken by. -/
structure State where
  clients : Table Int Client
  processes : Table UInt32 Process
  suspendCounts : Table UInt32 Int
  nextObjectId : UInt64
  ntsync : Bool
  ntsyncObjects : Table (UInt32 × UInt32) UInt32
  workerInterrupts : Table Int Unit
  idleEvents : Table UInt32 Bool
  namedPipes : Table Str (List PipeInstance)
  pendingPipeWaiters : Table Str (List PendingPipeWaiter)
  pendingKernelApcs : Table Int (List Apc)
  deferredEventSignals : Table Int (List DeferredEvent)
  completedIoctls : Table (UInt32 × UInt64) UInt32
  pendingWaits : List PendingWait
  workers : List Worker
  nextListen : Nat
  nextConnection : Nat
  delivered : Table Int (List Delivery)
  asked : Table (Nat × UInt64) Int64
  eventsSet : List (UInt32 × UInt32)

def State.start (processes : Table UInt32 Process)
    (ntsyncObjects : Table (UInt32 × UInt32) UInt32) : State where
  clients := .empty
  processes
  suspendCounts := .empty
  nextObjectId := 0x1000
  ntsync := true
  ntsyncObjects
  workerInterrupts := .empty
  idleEvents := .empty
  namedPipes := .empty
  pendingPipeWaiters := .empty
  pendingKernelApcs := .empty
  deferredEventSignals := .empty
  completedIoctls := .empty
  pendingWaits := []
  workers := []
  nextListen := 0
  nextConnection := 0
  delivered := .empty
  asked := .empty
  eventsSet := []

/-- What a run has done. `closed` is whether the handle of the APC was open before the
request and is not any more; `asked` is the timeout of the select that a wake-up is for. -/
inductive Note
  | queued (clientFd : Int) (listen : Nat)
  | delivered (clientFd : Int) (listen : Nat)
  | acknowledged (listen : Nat) (deferred closed : Bool)
  | signalled (listen : Nat)
  | replied (timeout : Int64) (error : UInt32)
  | woke (status : UInt32) (asked : Option Int64)
deriving DecidableEq

def statusTimeout : UInt32 := 0x102
def statusPending : UInt32 := 0x103
def statusKernelApc : UInt32 := 0x100

section
variable (s : State)

def clientPid (clientFd : Int) : UInt32 :=
  ((s.clients.get? clientFd).map Client.processId).getD 0

def clientThreadId (clientFd : Int) : Option UInt32 :=
  ((s.clients.get? clientFd).map Client.threadId).filter (· ≠ 0)

def handleEntry (pid handle : UInt32) : Option HandleEntry :=
  (s.processes.get? pid).bind fun p => p.handles.get handle

def allocHandle (pid : UInt32) (fd : Option Int) (objType access options : UInt32) :
    UInt32 × State :=
  match s.processes.get? pid with
  | none => (0, { s with nextObjectId := s.nextObjectId + 1 })
  | some p =>
    let made := p.handles.allocateFull ⟨s.nextObjectId, fd, objType, access, options⟩
    (made.1, { s with
      nextObjectId := s.nextObjectId + 1
      processes := s.processes.insert pid { p with handles := made.2 } })

def allocWaitHandle (pid : UInt32) (made : Bool) : UInt32 × State :=
  if made = false then (0, s)
  else
    let made := allocHandle s pid (some (-1)) fdTypeFile 0x001F0003 0x20
    (made.1,
      if made.1 ≠ 0 then
        { made.2 with ntsyncObjects := made.2.ntsyncObjects.insert (pid, made.1) 1 }
      else made.2)

end

variable {pid access options : UInt32}

theorem allocHandle_eq (s : State) (pid : UInt32) (fd : Option Int)
    (objType access options : UInt32) :
    ∃ processes, (allocHandle s pid fd objType access options).2 =
      { s with processes, nextObjectId := s.nextObjectId + 1 } := by
  unfold allocHandle
  split <;> exact ⟨_, rfl⟩

theorem allocWaitHandle_eq (s : State) (pid : UInt32) (made : Bool) :
    ∃ processes nextObjectId ntsyncObjects, (allocWaitHandle s pid made).2 =
      { s with processes, nextObjectId, ntsyncObjects } := by
  unfold allocWaitHandle
  split
  · exact ⟨_, _, _, rfl⟩
  · obtain ⟨processes, made⟩ := allocHandle_eq s pid (some (-1)) fdTypeFile 0x001F0003 0x20
    simp only [made]
    split <;> exact ⟨_, _, _, rfl⟩

/-! ### Names -/

def le32 (bytes : List UInt8) (offset : Nat) : UInt32 :=
  let byte (i : Nat) : Nat := ((bytes[offset + i]?).getD 0).toNat
  UInt32.ofNat (byte 0 + 256 * byte 1 + 65536 * byte 2 + 16777216 * byte 3)

def utf16leToString (bytes : List UInt8) : Str :=
  Utf16Text.fromUtf16Lossy (Utf16Text.ofLeBytes bytes)

def basename (name : Str) : Str := name.rtakeWhile (· ≠ '\\')

section Lower

-- `str::to_lowercase`, of which nothing is used.
variable (lower : Str → Str)

def extractObjattrName (oa : List UInt8) : Option Str :=
  let sdLen := (le32 oa 8).toNat
  let nameLen := (le32 oa 12).toNat
  if oa.length < 16 ∨ nameLen = 0 ∨ oa.length < 16 + sdLen + nameLen then none
  else
    let short := basename (utf16leToString ((oa.drop (16 + sdLen)).take nameLen))
    if short = [] then none else some (lower short)

def pipeWaitName (vararg : List UInt8) : Option Str :=
  let nameLen := (le32 vararg 8).toNat
  if vararg.length < 14 ∨ vararg.length < 14 + nameLen then none
  else some (utf16leToString ((vararg.drop 14).take nameLen))

/-! ### Named pipes -/

def PipeInstance.isListening (i : PipeInstance) : Bool := i.state = .listening

def PipeInstance.isServer (pid handle : UInt32) (i : PipeInstance) : Bool :=
  i.serverPid = pid ∧ i.serverHandle = handle

def updateFirst {α : Type} (p : α → Bool) (f : α → α) : List α → List α
  | [] => []
  | x :: rest => if p x then f x :: rest else x :: updateFirst p f rest

def wakePipeWaiters (s : State) (name : Str) : State :=
  let waiters := (s.pendingPipeWaiters.get? name).getD []
  { s with
    pendingPipeWaiters := s.pendingPipeWaiters.erase name
    eventsSet := s.eventsSet ++
      (waiters.map fun w => (w.pid, w.waitHandle)).filter s.ntsyncObjects.contains }

/-- `fds` is the pair of sockets, if there is one. Both ends of a pipe without a name
get a handle. -/
def createNamedPipe (s : State) (clientFd : Int) (oa : List UInt8) (fds : Option (Int × Int)) :
    State :=
  match fds with
  | none => s
  | some (server, client) =>
    let pid := clientPid s clientFd
    let made := allocHandle s pid (some server) fdTypeDevice 0x001F01FF 0x20
    let name := (extractObjattrName lower oa).getD []
    if name = [] then (allocHandle made.2 pid (some client) fdTypeDevice 0x0012019F 0).2
    else
      let instances := (s.namedPipes.get? name).getD []
      wakePipeWaiters { made.2 with
        namedPipes := s.namedPipes.insert name
          (instances ++ [⟨pid, made.1, .listening, none, none⟩]) } name

def pipeOf (s : State) (pid handle : UInt32) : Option Str :=
  (s.namedPipes.entries.find? fun e => e.2.any (PipeInstance.isServer pid handle)).map Prod.fst

structure IoctlReply where
  error : UInt32
  wait : UInt32
deriving DecidableEq

structure ListenRequest where
  clientFd : Int
  handle : UInt32
  event : UInt32
  user : UInt64
  iosb : UInt64

section
variable (s : State)

def startListen (req : ListenRequest) (name : Str) (event : UInt32) : State :=
  let pid := clientPid s req.clientFd
  let async : PipeListenAsync := ⟨req.clientFd, req.user, req.iosb, req.user, s.nextListen⟩
  wakePipeWaiters { s with
    nextListen := s.nextListen + 1
    namedPipes := s.namedPipes.modify name (updateFirst (PipeInstance.isServer pid req.handle)
      fun i => { i with
        state := .listening, listenEvent := some (pid, event), listenAsync := some async }) } name

/-- `made` is whether an event can be created for a caller that has none. -/
def pipeListen (req : ListenRequest) (made : Bool) : IoctlReply × State :=
  match pipeOf s (clientPid s req.clientFd) req.handle with
  | none => (⟨0, 0⟩, s)
  | some name =>
    if req.event ≠ 0 then (⟨statusPending, 0⟩, startListen s req name req.event)
    else
      let wait := allocWaitHandle s (clientPid s req.clientFd) made
      if wait.1 ≠ 0 then (⟨statusPending, wait.1⟩, startListen wait.2 req name wait.1)
      else (⟨0, 0⟩, wait.2)

/-- The listen itself is not taken back. -/
def pipeDisconnect (clientFd : Int) (handle : UInt32) : IoctlReply × State :=
  let pid := clientPid s clientFd
  (⟨0, 0⟩,
    match pipeOf s pid handle with
    | none => s
    | some name => { s with
        namedPipes := s.namedPipes.modify name (updateFirst (PipeInstance.isServer pid handle)
          fun i => { i with state := .listening, listenEvent := none }) })

def hasListener (name : Str) : Bool :=
  ((s.namedPipes.get? name).getD []).any PipeInstance.isListening

def pipeWait (clientFd : Int) (vararg : List UInt8) (made : Bool) : IoctlReply × State :=
  match pipeWaitName vararg with
  | none => (⟨0xC0000034, 0⟩, s)
  | some name =>
    if hasListener s (lower name) then (⟨0, 0⟩, s)
    else
      let pid := clientPid s clientFd
      let wait := allocWaitHandle s pid made
      if wait.1 ≠ 0 then
        let waiters := (s.pendingPipeWaiters.get? (lower name)).getD []
        (⟨statusPending, wait.1⟩, { wait.2 with
          pendingPipeWaiters :=
            s.pendingPipeWaiters.insert (lower name) (waiters ++ [⟨pid, wait.1, name⟩]) })
      else (⟨0xC0000034, 0⟩, wait.2)

end

end Lower

section
variable (s : State)

def queueApc (la : PipeListenAsync) (event : Option (UInt32 × UInt32)) : State × List Note :=
  let fd := la.serverClientFd
  let apcs := (s.pendingKernelApcs.get? fd).getD []
  let events := (s.deferredEventSignals.get? fd).getD []
  ({ s with
      pendingKernelApcs := s.pendingKernelApcs.insert fd 
        (apcs ++ [⟨2, 0, la.user, la.sb, 0, la.listen, event.isSome⟩])
      deferredEventSignals :=
        match event with
        | some (pid, handle) => s.deferredEventSignals.insert fd (events ++ [⟨pid, handle, la.listen⟩])
        | none => s.deferredEventSignals
      completedIoctls := s.completedIoctls.insert (clientPid s fd, la.userArg) 0 },
    [.queued fd la.listen])

def markConnected (name : Str) : State :=
  { s with
    namedPipes := s.namedPipes.modify name (updateFirst PipeInstance.isListening
      fun i => { i with state := .connected, listenAsync := none }) }

def tellListener (info : PipeInstance) : State × List Note :=
  match info.listenAsync with
  | some la => queueApc s la info.listenEvent
  | none => (s, [])

section
variable (pid : UInt32) (fd : Int) (access options : UInt32)

/-- A client that has not said who it is gets no handle. -/
def allocClientEnd : UInt32 × State :=
  if pid = 0 then (0, { s with nextObjectId := s.nextObjectId + 1 })
  else allocHandle s pid (some fd) fdTypeDevice (mapFileAccess access) (options ||| 0x20)

/-- `copy` is what `dup` returns for the client's end. There is no reply where the name
is not a pipe's. -/
def tryConnectNamedPipe (clientFd : Int) (name : Str) (access options : UInt32)
    (copy : Option Int) : Option (UInt32 × UInt32) × State × List Note :=
  match s.namedPipes.get? name with
  | none => (none, s, [])
  | some instances =>
    match instances.find? PipeInstance.isListening with
    | none => (some (0xC00000AE, 0), s, [])
    | some info =>
      match copy with
      | none => (some (0xC0000017, 0), s, [])
      | some fd =>
        let told := tellListener (markConnected s name) info
        let made := allocClientEnd told.1 (clientPid s clientFd) fd access options
        (some (0, made.1), made.2, told.2)

theorem allocClientEnd_eq : ∃ processes, (allocClientEnd s pid fd access options).2 =
      { s with processes, nextObjectId := s.nextObjectId + 1 } := by
  unfold allocClientEnd
  split
  · exact ⟨_, rfl⟩
  · exact allocHandle_eq _ _ _ _ _ _

end

theorem tryConnectNamedPipe_cases (clientFd : Int) (name : Str)
    (access options : UInt32) (copy : Option Int) :
    (tryConnectNamedPipe s clientFd name access options copy).2 = (s, []) ∨
      ∃ instances info fd, s.namedPipes.get? name = some instances ∧
        instances.find? PipeInstance.isListening = some info ∧
        let told := tellListener (markConnected s name) info
        (tryConnectNamedPipe s clientFd name access options copy).2 =
          ((allocClientEnd told.1 (clientPid s clientFd) fd access options).2, told.2) := by
  unfold tryConnectNamedPipe
  split
  · exact .inl rfl
  · next instances found =>
    split
    · exact .inl rfl
    · next info listening =>
      split
      · exact .inl rfl
      · next fd => exact .inr ⟨instances, info, fd, found, listening, rfl⟩

end

/-! ### Timeouts -/

def maxNs : UInt64 := 0xFFFFFFFFFFFFFFFF

def saturatingMul (a b : UInt64) : UInt64 := UInt64.ofNat (min (a.toNat * b.toNat) maxNs.toNat)

def saturatingAdd (a b : UInt64) : UInt64 := UInt64.ofNat (min (a.toNat + b.toNat) maxNs.toNat)

def computeNtsyncTimeout (timeout : Int64) (mono : UInt64) (real : Int64) : UInt64 :=
  if timeout = Int64.maxValue then maxNs
  else if timeout < 0 then saturatingAdd mono (saturatingMul (-timeout).toUInt64 100)
  else if 0 < timeout then
    if timeout ≤ real then 1
    else saturatingAdd mono (saturatingMul (timeout - real).toUInt64 100)
  else 1

/-! ### Waiting on objects -/

inductive IoctlResult
  | ok (index : UInt32)
  | timedOut
  | canceled
  | failed
deriving DecidableEq

inductive WaitResult
  | signaled (index : UInt32)
  | timeout
  | alerted
  | error
deriving DecidableEq

/-- How a call ends; `alert` is whether an alert object was given. -/
def doWaitInner (objects : Nat) (alert : Bool) (result : IoctlResult) : WaitResult :=
  if objects = 0 then .timeout
  else
    match result with
    | .ok index => if alert ∧ index = UInt32.ofNat objects then .alerted else .signaled index
    | .timedOut => .timeout
    | .canceled => .alerted
    | .failed => .error

/-- `vararg` is what follows the fixed part: the result of an APC in 40 bytes, then
`size` bytes of the operation, then contexts. -/
structure SelectRequest where
  prevApc : UInt32
  timeout : Int64
  size : UInt32
  cookie : UInt64
  vararg : List UInt8

/-- What the kernel does during a select: whether an event can be created for the i-th
handle, how the poll ends, whether a worker interrupt can be created and the wait
descriptor copied, and the clocks. -/
structure SelectKernel where
  created : Nat → Bool
  poll : IoctlResult
  interrupt : Bool
  copied : Bool
  mono : UInt64
  real : Int64
  monoAgain : UInt64
  instant : Nat

structure SelectReply where
  error : UInt32
  apcHandle : UInt32
  signaled : UInt32
  apc : Option Apc
deriving DecidableEq

def handleAt (vararg : List UInt8) (i : Nat) : Option UInt32 :=
  if vararg.length < 44 + 4 * i + 4 then none else some (le32 vararg (44 + 4 * i))

/-- The handles that are waited for, and whether the loop came to its end. A handle
without an object gets one that is set. -/
def collectObjects (pid : UInt32) (vararg : List UInt8) (created : Nat → Bool) :
    List Nat → State → List UInt32 → State × List UInt32 × Bool
  | [], s, found => (s, found, true)
  | i :: rest, s, found =>
    match handleAt vararg i with
    | none => (s, found, false)
    | some h =>
      if s.ntsyncObjects.contains (pid, h) then collectObjects pid vararg created rest s (found ++ [h])
      else if created i then
        collectObjects pid vararg created rest
          { s with ntsyncObjects := s.ntsyncObjects.insert (pid, h) 2 } (found ++ [h])
      else (s, found, false)

structure WaitSet where
  objects : List UInt32
  waitAll : Bool
  owner : UInt32

def waitObjects (s : State) (clientFd : Int) (req : SelectRequest) (k : SelectKernel) :
    State × WaitSet :=
  let opcode := le32 req.vararg 40
  if s.ntsync ∧ 4 ≤ req.size ∧ 44 ≤ req.vararg.length ∧ (opcode = 1 ∨ opcode = 2) then
    let found := collectObjects (clientPid s clientFd) req.vararg k.created
      (List.range ((req.size.toNat - 4) / 4)) s []
    (found.1, ⟨if found.2.2 then found.2.1 else [], opcode = 2, (clientThreadId s clientFd).getD 0⟩)
  else (s, ⟨[], false, 0⟩)

theorem collectObjects_eq (vararg : List UInt8) (created : Nat → Bool)
    (indices : List Nat) (s : State) (found : List UInt32) :
    ∃ ntsyncObjects, (∀ key, s.ntsyncObjects.contains key → ntsyncObjects.contains key) ∧
      (collectObjects pid vararg created indices s found).1 = { s with ntsyncObjects } := by
  induction indices generalizing s found with
  | nil => exact ⟨_, fun _ => id, rfl⟩
  | cons i rest ih =>
    unfold collectObjects
    split
    · exact ⟨_, fun _ => id, rfl⟩
    · split
      · exact ih s _
      · split
        · obtain ⟨objects, more, done⟩ := ih { s with ntsyncObjects := s.ntsyncObjects.insert _ 2 } _
          exact ⟨objects, fun key there => more key (by simp [Table.contains_insert, there]), done⟩
        · exact ⟨_, fun _ => id, rfl⟩

section
variable (s : State) (clientFd : Int) (req : SelectRequest)

theorem waitObjects_eq (k : SelectKernel) :
    ∃ ntsyncObjects, (∀ key, s.ntsyncObjects.contains key → ntsyncObjects.contains key) ∧
      (waitObjects s clientFd req k).1 = { s with ntsyncObjects } := by
  unfold waitObjects
  dsimp only
  split
  · exact collectObjects_eq _ _ _ _ _
  · exact ⟨_, fun _ => id, rfl⟩

def immediate (timeout : Int64) (set : WaitSet) (poll : IoctlResult) : Option UInt32 :=
  let late : Option UInt32 := if timeout = 0 then some statusTimeout else none
  if set.objects = [] then late
  else
    match doWaitInner set.objects.length false poll with
    | .signaled index => some index
    | _ => late

def signalIdle (pid : UInt32) : State :=
  match s.processes.get? pid with
  | none => s
  | some p =>
    if p.idleSignaled then s
    else { s with
      idleEvents := s.idleEvents.modify pid fun _ => true
      processes := s.processes.insert pid { p with idleSignaled := true } }

theorem signalIdle_eq (pid : UInt32) :
    ∃ idleEvents processes, signalIdle s pid = { s with idleEvents, processes } := by
  unfold signalIdle
  split
  · exact ⟨_, _, rfl⟩
  · split <;> exact ⟨_, _, rfl⟩

def workerInterrupt (made : Bool) : Bool × State :=
  if s.workerInterrupts.contains clientFd then (true, s)
  else if made then (true, { s with workerInterrupts := s.workerInterrupts.insert clientFd () })
  else (false, s)

theorem workerInterrupt_eq (made : Bool) :
    ∃ workerInterrupts, (workerInterrupt s clientFd made).2 = { s with workerInterrupts } := by
  unfold workerInterrupt
  split
  · exact ⟨_, rfl⟩
  · split <;> exact ⟨_, rfl⟩

def pushWait (w : PendingWait) : List PendingWait → List PendingWait
  | [] => [w]
  | x :: rest => if w.deadline < x.deadline then w :: x :: rest else x :: pushWait w rest

section
variable (timeoutNs : UInt64) (k : SelectKernel)

def deadlineOf : Nat :=
  if timeoutNs = maxNs then k.instant + 86400 * 1000000000
  else k.instant + (timeoutNs.toNat - k.monoAgain.toNat)

def pending : SelectReply := ⟨statusPending, 0, 0, none⟩

def onTimer : State :=
  { s with
    pendingWaits := pushWait ⟨deadlineOf timeoutNs k, clientFd, req.cookie⟩ s.pendingWaits }

end

def defer (set : WaitSet) (k : SelectKernel) : State :=
  let timeoutNs := computeNtsyncTimeout req.timeout k.mono k.real
  let idle :=
    if set.objects ≠ [] ∨ 1000000 < timeoutNs then signalIdle s (clientPid s clientFd) else s
  if set.objects = [] then onTimer idle clientFd req timeoutNs k
  else
    let made := workerInterrupt idle clientFd k.interrupt
    match s.clients.get? clientFd with
    | some c =>
      if c.waitFd.isSome ∧ k.copied then
        { made.2 with workers := s.workers ++
            [⟨c.connection, req.cookie, timeoutNs, set.objects.length, set.waitAll, set.owner, made.1⟩] }
      else onTimer made.2 clientFd req timeoutNs k
    | none => onTimer made.2 clientFd req timeoutNs k

end

theorem defer_cases (s : State) (clientFd : Int) (req : SelectRequest) (set : WaitSet)
    (k : SelectKernel) : ∃ idleEvents processes workerInterrupts,
      let ns := computeNtsyncTimeout req.timeout k.mono k.real
      (∀ c, s.clients.get? clientFd = some c → c.waitFd.isSome ∧ k.copied → set.objects = []) ∧
      defer s clientFd req set k = { s with
        idleEvents, processes, workerInterrupts
        pendingWaits := pushWait ⟨deadlineOf ns k, clientFd, req.cookie⟩ s.pendingWaits } ∨
      ∃ c interrupt, s.clients.get? clientFd = some c ∧ c.waitFd.isSome ∧ set.objects ≠ [] ∧
        defer s clientFd req set k = { s with
          idleEvents, processes, workerInterrupts
          workers := s.workers ++ [⟨c.connection, req.cookie, ns, set.objects.length, set.waitAll,
            set.owner, interrupt⟩] } := by
  generalize told : (if set.objects ≠ [] ∨ 1000000 < computeNtsyncTimeout req.timeout k.mono k.real
      then signalIdle s (clientPid s clientFd) else s) = idle
  have quiet : ∃ idleEvents processes, idle = { s with idleEvents, processes } := by
    rw [← told]
    split
    · exact signalIdle_eq s _
    · exact ⟨_, _, rfl⟩
  obtain ⟨idleEvents, processes, rfl⟩ := quiet
  simp only [defer, told]
  split
  · next none_found => exact ⟨_, _, _, .inl ⟨fun _ _ _ => none_found, rfl⟩⟩
  · next objects =>
    obtain ⟨interrupts, made⟩ :=
      workerInterrupt_eq { s with idleEvents, processes } clientFd k.interrupt
    refine ⟨idleEvents, processes, interrupts, ?_⟩
    simp only [made]
    split
    · next c found =>
      split
      · next there => exact .inr ⟨c, _, found, there.1, objects, rfl⟩
      · next missing =>
        refine .inl ⟨fun b at_b there => absurd there ?_, rfl⟩
        exact Option.some.inj (found.symm.trans at_b) ▸ missing
    · next unknown => exact .inl ⟨fun b at_b => absurd (unknown.symm.trans at_b) nofun, rfl⟩

section
variable (s : State) (clientFd : Int) (req : SelectRequest)

def waitFor (k : SelectKernel) : SelectReply × State :=
  let found := waitObjects s clientFd req k
  match immediate req.timeout found.2 k.poll with
  | some signaled => (⟨signaled, 0, 1, none⟩, found.1)
  | none => (pending, defer found.1 clientFd req found.2 k)

/-! ### APCs -/

def popApc : Option (Apc × State) :=
  (s.pendingKernelApcs.get? clientFd).bind fun apcs =>
    apcs.getLast?.map fun apc =>
      (apc, { s with
        pendingKernelApcs :=
          if apcs.dropLast = [] then s.pendingKernelApcs.erase clientFd
          else s.pendingKernelApcs.insert clientFd apcs.dropLast })

def deliverApc (apc : Apc) : SelectReply × State × List Note :=
  let pid := clientPid s clientFd
  let oid := s.nextObjectId
  let made :=
    match s.processes.get? pid with
    | none => (0, { s with nextObjectId := oid + 1 })
    | some p =>
      ((p.handles.allocate oid).1, { s with
        nextObjectId := oid + 1
        processes := s.processes.insert pid { p with handles := (p.handles.allocate oid).2 } })
  (⟨if 2 ≤ apc.apcType then statusKernelApc else 0xC0, made.1, 1, some apc⟩, made.2,
    [.delivered clientFd apc.listen])

def acknowledge (prevApc : UInt32) : State × List Note :=
  if prevApc = 0 then (s, [])
  else
    let events := (s.deferredEventSignals.get? clientFd).getD []
    ({ s with
        deferredEventSignals := s.deferredEventSignals.erase clientFd
        processes := s.processes.modify (clientPid s clientFd) fun p =>
          { p with handles := (p.handles.close prevApc).1 } },
      (events.filter fun e => s.ntsyncObjects.contains (e.pid, e.handle)).map
        fun e => .signalled e.listen)

theorem acknowledge_eq (prevApc : UInt32) : ∃ deferredEventSignals processes,
    (acknowledge s clientFd prevApc).1 = { s with deferredEventSignals, processes } := by
  unfold acknowledge
  split <;> exact ⟨_, _, rfl⟩

def suspends : Bool :=
  req.size = 0 ∧ 40 < req.vararg.length ∧
    0 < (s.suspendCounts.get? ((clientThreadId s clientFd).getD 0)).getD 0

def handleSelect (k : SelectKernel) : SelectReply × State × List Note :=
  match popApc s clientFd with
  -- nothing else of the request is looked at
  | some (apc, popped) => deliverApc popped clientFd apc
  | none =>
    let acked := acknowledge s clientFd req.prevApc
    if suspends s clientFd req then
      (pending, { acked.1 with
        clients := s.clients.modify clientFd fun c => { c with suspendCookie := req.cookie } },
        acked.2)
    else
      let waited := waitFor acked.1 clientFd req k
      (waited.1, waited.2, acked.2)

theorem handleSelect_cases (k : SelectKernel) :
    ∃ pendingKernelApcs deferredEventSignals processes nextObjectId ntsyncObjects,
      (∀ key, s.ntsyncObjects.contains key → ntsyncObjects.contains key) ∧
      let out := handleSelect s clientFd req k
      let t : State := { s with
        pendingKernelApcs, deferredEventSignals, processes, nextObjectId, ntsyncObjects }
      if (popApc s clientFd).isNone ∧ suspends s clientFd req then
        out.1 = pending ∧ out.2.1 = { t with
          clients := s.clients.modify clientFd fun c => { c with suspendCookie := req.cookie } }
      else out.1.signaled = 1 ∧ out.2.1 = t ∨
        out.1 = pending ∧ ∃ set, out.2.1 = defer t clientFd req set k := by
  unfold handleSelect
  cases queued : popApc s clientFd with
  | some pair =>
    obtain ⟨apc, popped⟩ := pair
    obtain ⟨queues, rfl⟩ : ∃ pendingKernelApcs, popped = { s with pendingKernelApcs } := by
      simp only [popApc, Option.bind_eq_some_iff, Option.map_eq_some_iff, Prod.mk.injEq] at queued
      obtain ⟨apcs, -, last, -, -, rfl⟩ := queued
      exact ⟨_, rfl⟩
    obtain ⟨processes, id_, made⟩ : ∃ processes nextObjectId,
        (deliverApc { s with pendingKernelApcs := queues } clientFd apc).2.1 =
          { s with pendingKernelApcs := queues, processes, nextObjectId } := by
      unfold deliverApc
      dsimp only
      split <;> exact ⟨_, _, rfl⟩
    refine ⟨queues, s.deferredEventSignals, processes, id_, s.ntsyncObjects, fun _ => id, ?_⟩
    exact .inl ⟨rfl, made⟩
  | none =>
    obtain ⟨deferred, processes, acked⟩ := acknowledge_eq s clientFd req.prevApc
    by_cases stops : suspends s clientFd req
    · refine ⟨s.pendingKernelApcs, deferred, processes, s.nextObjectId, s.ntsyncObjects, fun _ => id, ?_⟩
      simp [stops, acked]
    · obtain ⟨objects, more, found⟩ := waitObjects_eq
        { s with deferredEventSignals := deferred, processes } clientFd req k
      refine ⟨s.pendingKernelApcs, deferred, processes, s.nextObjectId, objects, more, ?_⟩
      simp only [stops, acked, waitFor, found, Bool.false_eq_true, and_false, if_false]
      split
      · exact .inl ⟨rfl, rfl⟩
      · exact .inr ⟨rfl, _, rfl⟩

/-! ### The ends of waits -/

def wakeUp (connection : Nat) (cookie : UInt64) (status : UInt32) : Note :=
  .woke status (s.asked.get? (connection, cookie))

def sendWakeUp (w : PendingWait) (status : UInt32) : List Note :=
  match s.clients.get? w.clientFd with
  | some c => if c.waitFd.isSome then [wakeUp s c.connection w.cookie status] else []
  | none => []

end

def checkWaits (s : State) (now : Nat) : List PendingWait → List PendingWait × List Note
  | [] => ([], [])
  | w :: rest =>
    if s.clients.contains w.clientFd = false then checkWaits s now rest
    else if w.deadline ≤ now then
      let later := checkWaits s now rest
      (later.1, sendWakeUp s w statusTimeout ++ later.2)
    else (w :: rest, [])

section
variable (s : State)

def checkPendingWaits (now : Nat) : State × List Note :=
  let checked := checkWaits s now s.pendingWaits
  ({ s with pendingWaits := checked.1 }, checked.2)

def workerStatus : WaitResult → UInt32
  | .signaled index => index
  | .timeout => statusTimeout
  | .alerted => statusKernelApc
  | .error => statusTimeout

def finishWorker (i : Nat) (result : IoctlResult) : State × List Note :=
  match s.workers[i]? with
  | none => (s, [])
  | some w =>
    ({ s with workers := s.workers.eraseIdx i },
      [wakeUp s w.connection w.cookie (workerStatus (doWaitInner w.objects true result))])

def resumeThread (clientFd : Int) (handle : UInt32) : State × List Note :=
  match handleEntry s (clientPid s clientFd) handle with
  | none => (s, [])
  | some entry =>
    let tid := entry.objectId.toUInt32
    let s := { s with
      suspendCounts := s.suspendCounts.modify tid fun n => if 0 < n then n - 1 else n }
    match s.clients.entries.find? fun e => e.2.threadId = tid ∧ e.2.suspendCookie ≠ 0 with
    | none => (s, [])
    | some (fd, c) =>
      if (c.waitFd.getD (-1)) < 0 then (s, [])
      else
        ({ s with clients := s.clients.modify fd fun c => { c with suspendCookie := 0 } },
          [wakeUp s c.connection c.suspendCookie statusKernelApc])

/-! ### Clients -/

def connectClient (clientFd : Int) (pid tid : UInt32) (waitFd : Option Int) : State :=
  if s.clients.contains clientFd then s
  else { s with
    clients := s.clients.insert clientFd ⟨pid, tid, waitFd, 0, s.nextConnection⟩
    nextConnection := s.nextConnection + 1
    processes := s.processes.modify pid fun p => { p with threads := p.threads ++ [tid] } }

def retainAll {α : Type} [DecidableEq α] (p : α → Bool) (t : Table Str (List α)) :
    Table Str (List α) :=
  (t.mapValues (List.filter p)).retain fun _ l => l ≠ []

def buryProcess (pid : UInt32) : State :=
  { s with
    ntsyncObjects := s.ntsyncObjects.retain fun key _ => key.1 ≠ pid
    completedIoctls := s.completedIoctls.retain fun key _ => key.1 ≠ pid
    namedPipes := retainAll (fun i => i.serverPid ≠ pid) s.namedPipes
    idleEvents := s.idleEvents.erase pid
    processes := s.processes.erase pid }

/-- Waits of the client that are left to the timer stay. -/
def disconnectClient (clientFd : Int) : State :=
  let pid := clientPid s clientFd
  let tid := (clientThreadId s clientFd).getD 0
  let s := { s with
    clients := s.clients.erase clientFd
    workerInterrupts := s.workerInterrupts.erase clientFd
    deferredEventSignals := s.deferredEventSignals.erase clientFd
    pendingKernelApcs := s.pendingKernelApcs.erase clientFd
    delivered := s.delivered.erase clientFd
    pendingPipeWaiters :=
      if pid = 0 then s.pendingPipeWaiters
      else retainAll (fun w => w.pid ≠ pid) s.pendingPipeWaiters }
  if pid = 0 ∨ tid = 0 then s
  else
    let s := { s with
      processes := s.processes.modify pid fun p => { p with
        threads := threadsLeft (s.clients.entries.map fun e => (e.2.processId, e.2.threadId)) pid tid
          p.threads } }
    if (s.processes.get? pid).all fun p => p.threads.isEmpty then buryProcess s pid else s

theorem disconnectClient_eq (clientFd : Int) :
    ∃ ntsyncObjects completedIoctls idleEvents processes namedPipes,
      (namedPipes = s.namedPipes ∧ ntsyncObjects = s.ntsyncObjects ∨
        namedPipes = retainAll (fun i => i.serverPid ≠ clientPid s clientFd) s.namedPipes ∧
        ntsyncObjects = s.ntsyncObjects.retain (fun key _ => key.1 ≠ clientPid s clientFd) ∧
        clientPid s clientFd ≠ 0) ∧
      disconnectClient s clientFd = { s with
        ntsyncObjects, completedIoctls, idleEvents, processes, namedPipes
        clients := s.clients.erase clientFd
        workerInterrupts := s.workerInterrupts.erase clientFd
        deferredEventSignals := s.deferredEventSignals.erase clientFd
        pendingKernelApcs := s.pendingKernelApcs.erase clientFd
        delivered := s.delivered.erase clientFd
        pendingPipeWaiters :=
          if clientPid s clientFd = 0 then s.pendingPipeWaiters
          else retainAll (fun w => w.pid ≠ clientPid s clientFd) s.pendingPipeWaiters } := by
  unfold disconnectClient
  dsimp only
  split
  · exact ⟨_, _, _, _, _, .inl ⟨rfl, rfl⟩, rfl⟩
  · next known =>
    split
    · exact ⟨_, _, _, _, _, .inr ⟨rfl, rfl, fun zero => known (.inl zero)⟩, rfl⟩
    · exact ⟨_, _, _, _, _, .inl ⟨rfl, rfl⟩, rfl⟩

end

/-! ### Runs -/

inductive Event
  | connectClient (clientFd : Int) (pid tid : UInt32) (waitFd : Option Int)
  | disconnectClient (clientFd : Int)
  | createNamedPipe (clientFd : Int) (oa : List UInt8) (fds : Option (Int × Int))
  | pipeListen (req : ListenRequest) (made : Bool)
  | pipeDisconnect (clientFd : Int) (handle : UInt32)
  | pipeWait (clientFd : Int) (vararg : List UInt8) (made : Bool)
  | connectPipe (clientFd : Int) (name : Str) (access options : UInt32) (copy : Option Int)
  | select (clientFd : Int) (req : SelectRequest) (kernel : SelectKernel)
  | resumeThread (clientFd : Int) (handle : UInt32)
  | finishWorker (index : Nat) (result : IoctlResult)
  | tick (now : Nat)

section
variable (s : State) (clientFd : Int)

def heldAs (prevApc : UInt32) : Option Delivery :=
  if prevApc = 0 then none
  else ((s.delivered.get? clientFd).getD []).find? fun d => d.handle = prevApc

section
variable (req : SelectRequest)

def holdings (reply : SelectReply) : List Delivery :=
  let held := (s.delivered.get? clientFd).getD []
  let left := (heldAs s clientFd req.prevApc).elim held held.erase
  left ++ (reply.apc.map fun apc => ⟨apc.listen, apc.deferred, reply.apcHandle⟩).toList

/-- A select that is not answered at once is what the next wake-up under its cookie is
for. -/
def askedAfter (reply : SelectReply) : Table (Nat × UInt64) Int64 :=
  match s.clients.get? clientFd with
  | some c =>
    if reply.error = statusPending ∧ reply.signaled = 0 then
      s.asked.insert (c.connection, req.cookie) req.timeout
    else s.asked
  | none => s.asked

def select (k : SelectKernel) : State × List Note :=
  let done := handleSelect s clientFd req k
  let pid := clientPid s clientFd
  let closed := (handleEntry s pid req.prevApc).isSome && (handleEntry done.2.1 pid req.prevApc).isNone
  ({ done.2.1 with
      delivered := s.delivered.insert clientFd (holdings s clientFd req done.1)
      asked := askedAfter s clientFd req done.1 },
    (heldAs s clientFd req.prevApc).toList.map (fun d => .acknowledged d.listen d.deferred closed) ++
      done.2.2 ++ [.replied req.timeout done.1.error])

end

end

def act (lower : Str → Str) (s : State) : Event → State × List Note
  | .connectClient clientFd pid tid waitFd => (connectClient s clientFd pid tid waitFd, [])
  | .disconnectClient clientFd => (disconnectClient s clientFd, [])
  | .createNamedPipe clientFd oa fds => (createNamedPipe lower s clientFd oa fds, [])
  | .pipeListen req made => ((pipeListen s req made).2, [])
  | .pipeDisconnect clientFd handle => ((pipeDisconnect s clientFd handle).2, [])
  | .pipeWait clientFd vararg made => ((pipeWait lower s clientFd vararg made).2, [])
  | .connectPipe clientFd name access options copy =>
    (tryConnectNamedPipe s clientFd name access options copy).2
  | .select clientFd req k => select s clientFd req k
  | .resumeThread clientFd handle => resumeThread s clientFd handle
  | .finishWorker index result => finishWorker s index result
  | .tick now => checkPendingWaits s now

structure Observed where
  state : State
  notes : List Note

def step (lower : Str → Str) (o : Observed) (event : Event) : Observed :=
  ⟨(act lower o.state event).1, o.notes ++ (act lower o.state event).2⟩

end Triskelion.Select
