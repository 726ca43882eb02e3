import Triskelion.Select

/-! Completion ports and jobs (`completion.rs`), with what the connection of a pipe and the
end of a client (`pipes.rs`, `client.rs`) do to them. Queues and waiters are kept by the
number of the port's handle, whichever process it is a handle of; a message for a thread
that waits is put into a cache with one place for each thread.

A message carries the port it is meant for, and a waiter the port it waits on: the object
that the handle denotes in the process of the caller at the time of the request. -/

namespace Triskelion.CompletionPorts

open Select (PipeListenAsync PipeInstance Process clientPid clientThreadId handleEntry allocHandle)

structure CompletionMsg where
  ckey : UInt64
  cvalue : UInt64
  information : UInt64
  status : UInt32
deriving DecidableEq

structure Posted where
  msg : CompletionMsg
  handle : UInt32
  port : Option UInt64
deriving DecidableEq

structure CompletionWaiter where
  clientFd : Int
  pid : UInt32
  waitHandle : UInt32
  port : Option UInt64
deriving DecidableEq

structure Job where
  processes : List UInt32
  numProcesses : UInt32
  totalProcesses : UInt32
  completionPortHandle : Option UInt32
  completionKey : UInt64
  port : Option UInt64

structure Binding where
  handle : UInt32
  key : UInt64
  port : Option UInt64

structure Delivered where
  message : Posted
  port : Option UInt64
deriving DecidableEq

structure State where
  base : Select.State
  jobs : Table UInt64 Job
  processJob : Table UInt32 UInt64
  completionQueues : Table UInt32 (List Posted)
  completionWaiters : Table UInt32 (List CompletionWaiter)
  threadCompletionCache : Table Int Delivered
  completionBindings : Table (UInt32 × UInt32) Binding
  posted : List Posted
  returned : List Delivered

def State.start (base : Select.State) : State where
  base
  jobs := .empty
  processJob := .empty
  completionQueues := .empty
  completionWaiters := .empty
  threadCompletionCache := .empty
  completionBindings := .empty
  posted := []
  returned := []

def queueOf (s : State) (handle : UInt32) : List Posted :=
  (s.completionQueues.get? handle).getD []

def waitersOf (s : State) (handle : UInt32) : List CompletionWaiter :=
  (s.completionWaiters.get? handle).getD []

section
variable (s : State) (clientFd : Int) (handle : UInt32)

def portOf : Option UInt64 :=
  (handleEntry s.base (clientPid s.base clientFd) handle).map HandleEntry.objectId

/-! ### Messages -/

def enqueue (p : Posted) : State :=
  { s with
    completionQueues := s.completionQueues.insert p.handle (queueOf s p.handle ++ [p])
    posted := s.posted ++ [p] }

def post (p : Posted) : State :=
  let waiters := waitersOf s p.handle
  match waiters.getLast? with
  | none => enqueue s p
  | some w =>
    { s with
      threadCompletionCache := s.threadCompletionCache.insert w.clientFd ⟨p, w.port⟩
      completionWaiters :=
        if waiters.dropLast = [] then s.completionWaiters.erase p.handle
        else s.completionWaiters.insert p.handle waiters.dropLast
      posted := s.posted ++ [p] }

def addCompletion (msg : CompletionMsg) : State :=
  post s ⟨msg, handle, portOf s clientFd handle⟩

structure CompletionReply where
  error : UInt32
  msg : CompletionMsg
  waitHandle : UInt32
deriving DecidableEq

def pending (waitHandle : UInt32) : CompletionReply := ⟨0x103, ⟨0, 0, 0, 0⟩, waitHandle⟩

/-- The port's own handle is what the thread waits on; `made` is whether an event can be
created for it. -/
def awaitCompletion (made : Bool) : State :=
  let pid := clientPid s.base clientFd
  let objects := s.base.ntsyncObjects
  { s with
    base := { s.base with
      ntsyncObjects :=
        if s.base.ntsync ∧ objects.contains (pid, handle) = false ∧ made then
          objects.insert (pid, handle) 1
        else objects }
    completionWaiters := s.completionWaiters.insert handle
      (waitersOf s handle ++ [⟨clientFd, pid, handle, portOf s clientFd handle⟩]) }

def removeCompletion (made : Bool) : CompletionReply × State :=
  match queueOf s handle with
  | [] => (pending handle, awaitCompletion s clientFd handle made)
  | p :: rest =>
    (⟨0, p.msg, 0⟩, { s with
      completionQueues :=
        if rest = [] then s.completionQueues.erase handle
        else s.completionQueues.insert handle rest
      returned := s.returned ++ [⟨p, portOf s clientFd handle⟩] })

def getThreadCompletion : CompletionReply × State :=
  match s.threadCompletionCache.get? clientFd with
  | none => (pending 0, s)
  | some d =>
    (⟨0, d.message.msg, 0⟩, { s with
      threadCompletionCache := s.threadCompletionCache.erase clientFd
      returned := s.returned ++ [d] })

end

/-! ### Ports and jobs -/

/-- `eventfd` is the descriptor that the handle is for, if there is one. -/
def allocWaitableHandleForClient (s : Select.State) (clientFd : Int) (eventfd : Option Int) :
    UInt32 × Select.State :=
  match eventfd with
  | none => (0, { s with nextObjectId := s.nextObjectId + 1 })
  | some fd =>
    let pid := clientPid s clientFd
    if pid = 0 then (0, { s with nextObjectId := s.nextObjectId + 1 })
    else allocHandle s pid (some fd) fdTypeFile 0x001F0003 0x20

def withEvent (s : Select.State) (pid handle : UInt32) (made : Bool) : Select.State :=
  if made then { s with ntsyncObjects := s.ntsyncObjects.insert (pid, handle) 1 } else s

section
variable (s : State) (clientFd : Int) (eventfd : Option Int)

def createCompletion (made : Bool) : UInt32 × State :=
  let alloc := allocWaitableHandleForClient s.base clientFd eventfd
  (alloc.1, { s with
    base := if alloc.1 = 0 then alloc.2 else withEvent alloc.2 (clientPid s.base clientFd) alloc.1 made })

def createJob (made : Bool) : UInt32 × State :=
  let alloc := allocWaitableHandleForClient s.base clientFd eventfd
  if alloc.1 = 0 then (0, { s with base := alloc.2 })
  else
    let pid := clientPid s.base clientFd
    let oid := ((handleEntry alloc.2 pid alloc.1).map HandleEntry.objectId).getD 0
    (alloc.1, { s with
      base := withEvent alloc.2 pid alloc.1 made
      jobs := s.jobs.insert oid ⟨[], 0, 0, none, 0, none⟩ })

def setJobCompletionPort (job port : UInt32) (key : UInt64) : State :=
  match handleEntry s.base (clientPid s.base clientFd) job with
  | none => s
  | some entry => { s with
      jobs := s.jobs.modify entry.objectId fun j => { j with
        completionPortHandle := some port
        completionKey := key
        port := portOf s clientFd port } }

def Job.news (j : Job) (cvalue : UInt64) (status : UInt32) : Option Posted :=
  j.completionPortHandle.map fun handle => ⟨⟨j.completionKey, cvalue, 0, status⟩, handle, j.port⟩

def assignment (job process : UInt32) : Except UInt32 (UInt64 × UInt32) :=
  let entry := handleEntry s.base (clientPid s.base clientFd)
  match entry job, entry process with
  | some j, some p =>
    let pid := p.objectId.toUInt32
    if (s.base.processes.get? pid).any fun p => p.threads ≠ [] then .ok (j.objectId, pid)
    else .error 0xC000010A
  | _, _ => .error 0xC0000008

def joinJob (oid : UInt64) (pid : UInt32) : State :=
  { s with
    jobs := s.jobs.modify oid fun j =>
      if pid ∈ j.processes then j
      else { j with
        processes := j.processes ++ [pid]
        numProcesses := j.numProcesses + 1
        totalProcesses := j.totalProcesses + 1 }
    processJob := s.processJob.insert pid oid }

def joinNews (oid : UInt64) (pid : UInt32) : Option Posted :=
  (s.jobs.get? oid).bind fun j => j.news pid.toUInt64 1

def assignJob (job process : UInt32) : UInt32 × State :=
  match assignment s clientFd job process with
  | .error error => (error, s)
  | .ok (oid, pid) => (0, (joinNews s oid pid).elim (joinJob s oid pid) (post (joinJob s oid pid)))

/-! ### Pipes -/

def setCompletionInfo (handle chandle : UInt32) (ckey : UInt64) : State :=
  { s with
    completionBindings := s.completionBindings.insert (clientPid s.base clientFd, handle)
      ⟨chandle, ckey, portOf s clientFd chandle⟩ }

end

/-- The listen that a connect completes; `copy` is what `dup` returns. -/
def listener (s : Select.State) (name : Str) (copy : Option Int) : Option PipeListenAsync :=
  copy.bind fun _ => (s.namedPipes.get? name).bind fun instances =>
    (instances.find? PipeInstance.isListening).bind PipeInstance.listenAsync

def connectedHandle (s : Select.State) (pid : UInt32) : Option UInt32 :=
  let connected (i : PipeInstance) : Bool := i.serverPid = pid ∧ i.state = .connected
  (s.namedPipes.entries.find? fun e => e.2.any connected).bind fun e =>
    (e.2.find? connected).map PipeInstance.serverHandle

def pipeNews (s : State) (after : Select.State) (name : Str) (copy : Option Int) : Option Posted :=
  (listener s.base name copy).bind fun la =>
    let pid := clientPid s.base la.serverClientFd
    (connectedHandle after pid).bind fun handle =>
      (s.completionBindings.get? (pid, handle)).map fun b => ⟨⟨b.key, la.user, 0, 0⟩, b.handle, b.port⟩

section
variable (s : State) (clientFd : Int)

def connectPipe (name : Str) (access options : UInt32) (copy : Option Int) : State :=
  let base := (Select.tryConnectNamedPipe s.base clientFd name access options copy).2.1
  (pipeNews s base name copy).elim { s with base } (post { s with base })

/-! ### The end of a client -/

def handOut : List CompletionWaiter → List Posted → Table Int Delivered →
    List Posted × Table Int Delivered
  | [], queue, cache => (queue, cache)
  | _ :: more, [], cache => handOut more [] cache
  | w :: more, p :: queue, cache => handOut more queue (cache.insert w.clientFd ⟨p, w.port⟩)

def wakeAll (handle : UInt32) : State :=
  match s.completionWaiters.get? handle with
  | none => s
  | some waiters =>
    let left := handOut waiters.reverse (queueOf s handle) s.threadCompletionCache
    { s with
      completionQueues := s.completionQueues.insert handle left.1
      threadCompletionCache := left.2
      completionWaiters := s.completionWaiters.erase handle }

def Job.leave (j : Job) (pid : UInt32) : Job :=
  { j with
    processes := j.processes.filter (· ≠ pid)
    numProcesses := if j.numProcesses = 0 then 0 else j.numProcesses - 1 }

def exitNews (oid : UInt64) (pid : UInt32) : List Posted :=
  match s.jobs.get? oid with
  | none => []
  | some j =>
    (j.news pid.toUInt64 4).toList ++
      if (j.leave pid).numProcesses = 0 then (j.news 0 8).toList else []

def leaveJob (oid : UInt64) (pid : UInt32) : State :=
  { s with
    processJob := s.processJob.erase pid
    jobs := s.jobs.modify oid fun j => j.leave pid }

def exitJob (pid : UInt32) : State :=
  match s.processJob.get? pid with
  | none => s
  | some oid =>
    match exitNews s oid pid with
    | [] => leaveJob s oid pid
    | p :: more => wakeAll ((p :: more).foldl enqueue (leaveJob s oid pid)) p.handle

def dropClient : State :=
  { s with
    base := Select.disconnectClient s.base clientFd
    threadCompletionCache := s.threadCompletionCache.erase clientFd
    completionWaiters :=
      s.completionWaiters.mapValues fun waiters => waiters.filter fun w => w.clientFd ≠ clientFd }

def wasLast : Bool :=
  let pid := clientPid s.base clientFd
  pid ≠ 0 ∧ (clientThreadId s.base clientFd).getD 0 ≠ 0 ∧
    ((Select.disconnectClient s.base clientFd).processes.get? pid).all fun p => p.threads.isEmpty

def disconnectClient : State :=
  let pid := clientPid s.base clientFd
  let t := dropClient s clientFd
  if wasLast s clientFd then
    exitJob { t with completionBindings := t.completionBindings.retain fun key _ => key.1 ≠ pid } pid
  else t

def closeHandle (handle : UInt32) : State :=
  if (clientThreadId s.base clientFd).isNone then s
  else
    let pid := clientPid s.base clientFd
    { s with
      base := { s.base with
        processes := s.base.processes.modify pid fun p =>
          { p with handles := (p.handles.close handle).1 } }
      completionBindings := s.completionBindings.erase (pid, handle) }

end

/-! ### Runs -/

/-- Requests about completions, those of the other model, and what any other request may
do to the processes and their handles. -/
inductive Event
  | createCompletion (clientFd : Int) (eventfd : Option Int) (made : Bool)
  | createJob (clientFd : Int) (eventfd : Option Int) (made : Bool)
  | setJobCompletionPort (clientFd : Int) (job port : UInt32) (key : UInt64)
  | assignJob (clientFd : Int) (job process : UInt32)
  | setCompletionInfo (clientFd : Int) (handle chandle : UInt32) (ckey : UInt64)
  | addCompletion (clientFd : Int) (handle : UInt32) (msg : CompletionMsg)
  | removeCompletion (clientFd : Int) (handle : UInt32) (made : Bool)
  | getThreadCompletion (clientFd : Int)
  | closeHandle (clientFd : Int) (handle : UInt32)
  | select (event : Select.Event)
  | handles (processes : Table UInt32 Process)

def Event.client : Event → Option Int
  | .createCompletion clientFd _ _ => some clientFd
  | .createJob clientFd _ _ => some clientFd
  | .setJobCompletionPort clientFd _ _ _ => some clientFd
  | .assignJob clientFd _ _ => some clientFd
  | .setCompletionInfo clientFd _ _ _ => some clientFd
  | .addCompletion clientFd _ _ => some clientFd
  | .removeCompletion clientFd _ _ => some clientFd
  | .getThreadCompletion clientFd => some clientFd
  | .closeHandle clientFd _ => some clientFd
  | _ => none

section Lower

variable (lower : Str → Str)

def act (s : State) : Event → State
  | .createCompletion clientFd eventfd made => (createCompletion s clientFd eventfd made).2
  | .createJob clientFd eventfd made => (createJob s clientFd eventfd made).2
  | .setJobCompletionPort clientFd job port key => setJobCompletionPort s clientFd job port key
  | .assignJob clientFd job process => (assignJob s clientFd job process).2
  | .setCompletionInfo clientFd handle chandle ckey =>
    setCompletionInfo s clientFd handle chandle ckey
  | .addCompletion clientFd handle msg => addCompletion s clientFd handle msg
  | .removeCompletion clientFd handle made => (removeCompletion s clientFd handle made).2
  | .getThreadCompletion clientFd => (getThreadCompletion s clientFd).2
  | .closeHandle clientFd handle => closeHandle s clientFd handle
  | .select (.connectPipe clientFd name access options copy) =>
    connectPipe s clientFd name access options copy
  | .select (.disconnectClient clientFd) => disconnectClient s clientFd
  | .select event => { s with base := (Select.act lower s.base event).1 }
  | .handles processes => { s with base := { s.base with processes } }

/-- Requests come from clients that are connected. -/
def step (s : State) (event : Event) : State :=
  if event.client.all s.base.clients.contains then act lower s event else s

end Lower

end Triskelion.CompletionPorts
