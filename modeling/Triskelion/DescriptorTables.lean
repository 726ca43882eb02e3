import Mathlib.Data.List.Dedup
import Triskelion.SharedHandlers

/-! The tables in which the event loop holds descriptors for a process: handle tables,
the pipe side table, reads that wait for data, the instances of named pipes and the
ntsync objects, with the handlers that copy a descriptor into one of them or close it
(`handles.rs`, `pipes.rs`, `file_io.rs`, `sync.rs`, `window.rs`, `client.rs`).

The kernel is the set of numbers that are open. It may hand out a number again as soon
as it is closed, so a request brings the numbers that its calls return. -/

namespace Triskelion

/-- The open numbers, with the process each was opened for, and the numbers that were
closed or used while they were not open. -/
structure Kernel where
  descriptors : Table Int UInt32
  misused : List Int

namespace Kernel

def new : Kernel := ⟨.empty, []⟩

def openFd (k : Kernel) (pid : UInt32) (fd : Int) : Kernel :=
  { k with descriptors := k.descriptors.insert fd pid }

/-- A negative number names no descriptor: the call fails and changes nothing. -/
def closeFd (k : Kernel) (fd : Int) : Kernel :=
  if fd < 0 then k
  else if k.descriptors.contains fd then { k with descriptors := k.descriptors.erase fd }
  else { k with misused := fd :: k.misused }

def useFd (k : Kernel) (fd : Int) : Kernel :=
  if fd < 0 ∨ k.descriptors.contains fd then k else { k with misused := fd :: k.misused }

def closeAll (k : Kernel) (fds : List Int) : Kernel := fds.foldl closeFd k

end Kernel

structure AsyncPipeRead where
  pipeFd : Int
  pid : UInt32
  waitHandle : UInt32

inductive PipeState
  | listening
  | connected
deriving DecidableEq

structure NamedPipeInfo where
  serverPid : UInt32
  serverHandle : UInt32
  clientDataFd : Int
  state : PipeState

def NamedPipeInfo.isListening (info : NamedPipeInfo) : Bool := info.state = .listening

def NamedPipeInfo.isServer (pid handle : UInt32) (info : NamedPipeInfo) : Bool :=
  info.serverPid = pid ∧ info.serverHandle = handle

def NamedPipeInfo.isConnected (info : NamedPipeInfo) : Bool := info.state = .connected

/-- A counted reference to an ntsync object: which object, and the descriptor that the
object closes when its last reference goes. -/
structure NtsyncRef where
  obj : Nat
  fd : Int
deriving DecidableEq

/-- `clones` are the references that waits and exit events keep, with their process. -/
structure DescriptorTables where
  processes : Table UInt32 HandleTable
  nextObjectId : UInt64
  sideTables : HandleSideTables
  pendingReads : Table (UInt32 × UInt64) Int
  pendingPipeReads : List AsyncPipeRead
  namedPipes : Table String (List NamedPipeInfo)
  ntsyncObjects : Table (UInt32 × UInt32) NtsyncRef
  clones : List (UInt32 × NtsyncRef)
  nextObj : Nat
  kernel : Kernel

def fdTypeFile : UInt32 := 1
def fdTypeSocket : UInt32 := 3
def fdTypePipe : UInt32 := 5
def fdTypeDevice : UInt32 := 8

def mapRight (generic specific mapped : UInt32) : UInt32 :=
  if mapped &&& generic ≠ 0 then (mapped &&& ~~~generic) ||| specific else mapped

def mapFileAccess (access : UInt32) : UInt32 :=
  mapRight 0x10000000 0x001F01FF <| mapRight 0x20000000 0x001200A0 <|
    mapRight 0x40000000 0x00120116 <| mapRight 0x80000000 0x00120089 access

namespace DescriptorTables

def new : DescriptorTables :=
  ⟨.empty, 0x1000, .new, .empty, [], .empty, .empty, [], 0, .new⟩

variable (s : DescriptorTables)

def openFd (pid : UInt32) (fd : Int) : DescriptorTables :=
  { s with kernel := s.kernel.openFd pid fd }

def closeFd (fd : Int) : DescriptorTables :=
  { s with kernel := s.kernel.closeFd fd }

def useFd (fd : Int) : DescriptorTables :=
  { s with kernel := s.kernel.useFd fd }

def closeAll (fds : List Int) : DescriptorTables :=
  { s with kernel := s.kernel.closeAll fds }

/-! ### Handles -/

def entryAt (pid handle : UInt32) : Option HandleEntry := entryOf s.processes pid handle

def fdOf (pid handle : UInt32) : Option Int :=
  (s.entryAt pid handle).bind HandleEntry.fd

/-- `allocate_full` in the table of a process; handle 0 where there is none. -/
def allocEntry (pid : UInt32) (entry : HandleEntry) : UInt32 × DescriptorTables :=
  match s.processes.get? pid with
  | some t => ((t.allocateFull entry).1,
      { s with processes := s.processes.insert pid (t.allocateFull entry).2 })
  | none => (0, s)

def allocHandle (pid : UInt32) (fd : Int)
    (objType access options : UInt32) : UInt32 × DescriptorTables :=
  allocEntry { s with nextObjectId := s.nextObjectId + 1 } pid
    ⟨s.nextObjectId, some fd, objType, access, options⟩

/-! ### Ntsync objects -/

def references : List (UInt32 × NtsyncRef) :=
  s.ntsyncObjects.entries.map (fun e => (e.1.1, e.2)) ++ s.clones

/-- What is closed when the given references are gone: the descriptor of each object
to which no other reference is left. -/
def orphaned (gone : List NtsyncRef) : List Int :=
  (gone.filter fun r => s.references.all fun e => e.2.obj ≠ r.obj).dedup.map NtsyncRef.fd

def dropRefs (gone : List NtsyncRef) : DescriptorTables :=
  s.closeAll (s.orphaned gone)

section
variable (pid handle : UInt32)

/-- `ntsync_objects.insert` of a new object, which drops the one it displaces. -/
def insertObject (fd : Int) : DescriptorTables :=
  dropRefs { s with
    ntsyncObjects := s.ntsyncObjects.insert (pid, handle) ⟨s.nextObj, fd⟩
    nextObj := s.nextObj + 1 } (s.ntsyncObjects.get? (pid, handle)).toList

def createObject : Option Int → DescriptorTables
  | none => s
  | some fd => (s.openFd pid fd).insertObject pid handle fd

def signal : DescriptorTables :=
  match s.ntsyncObjects.get? (pid, handle) with
  | some r => s.useFd r.fd
  | none => s

def syncObject (evt : Option Int) : DescriptorTables :=
  match s.ntsyncObjects.get? (pid, handle) with
  | some r => s.useFd r.fd
  | none => s.createObject pid handle evt

def cloneObject : DescriptorTables :=
  match s.ntsyncObjects.get? (pid, handle) with
  | some r => { s with clones := (pid, r) :: s.clones }
  | none => s

end

def dropClone (i : Nat) : DescriptorTables :=
  match s.clones[i]? with
  | some e => dropRefs { s with clones := s.clones.eraseIdx i } [e.2]
  | none => s

/-! ### Handle-creating requests -/

section
variable (pid : UInt32)

def allocWaitableHandle : Option Int → UInt32 × DescriptorTables
  | none => (0, { s with nextObjectId := s.nextObjectId + 1 })
  | some efd =>
    let made := (s.openFd pid efd).allocHandle pid efd fdTypeFile 0x001F0003 0x20
    if s.processes.contains pid then made else (made.1, made.2.closeFd efd)

def createEvent (efd evt : Option Int) : DescriptorTables :=
  let made := s.allocWaitableHandle pid efd
  if made.1 ≠ 0 then made.2.createObject pid made.1 evt else made.2

def createFileHandle (fd : Int)
    (objType access options : UInt32) (evt : Option Int) : DescriptorTables :=
  let made := (s.openFd pid fd).allocHandle pid fd objType (mapFileAccess access) options
  if made.1 = 0 then made.2.closeFd fd
  else if made.2.ntsyncObjects.contains (pid, made.1) then made.2
  else made.2.createObject pid made.1 evt

def allocEventHandle (exposed : Bool) : Option Int → UInt32 × DescriptorTables
  | none => (0, s)
  | some evt =>
    let made := (s.openFd pid evt).allocHandle pid (if exposed then evt else -1) fdTypeFile
      0x001F0003 0x20
    if made.1 ≠ 0 then (made.1, made.2.insertObject pid made.1 evt)
    else (0, made.2.closeFd evt)

def getMsgQueueHandle (evt : Option Int) : DescriptorTables :=
  (s.allocEventHandle pid true evt).2

end

def getHandleFd (pid handle : UInt32) : DescriptorTables :=
  match s.fdOf pid handle with
  | some fd =>
    { s with
      kernel := s.kernel.useFd fd
      sideTables := { s.sideTables with fdSent := s.sideTables.fdSent.insert (pid, handle) () } }
  | none => s

def dupFd (pid : UInt32) (fd : Int) (result : Option Int) : DescriptorTables × Int :=
  if fd < 0 then (s, -1)
  else
    match result with
    | none => (s.useFd fd, -1)
    | some copy => ((s.useFd fd).openFd pid copy, copy)

def dupEntry (pid : UInt32) (entry : HandleEntry) (result : Option Int) :
    DescriptorTables × HandleEntry :=
  match entry.fd with
  | none => (s, entry)
  | some fd =>
    let copied := s.dupFd pid fd result
    (copied.1, { entry with fd := some copied.2 })

structure DupHandle where
  callerPid : UInt32
  callerTid : UInt32
  srcPid : UInt32
  dstPid : UInt32
  srcHandle : UInt32
  options : UInt32
  access : UInt32

def DupHandle.source (req : DupHandle) : Option HandleEntry :=
  dupSource s.processes req.callerPid req.callerTid req.srcPid req.srcHandle

def dupHandle (req : DupHandle) (fd evt : Option Int) : DescriptorTables :=
  match req.source s with
  | none => s
  | some entry =>
    let copied := s.dupEntry req.dstPid entry fd
    let made := copied.1.allocEntry req.dstPid { copied.2 with
      access := dupAccess req.options req.access entry }
    if made.1 ≠ 0 then
      (made.2.signal req.srcPid req.srcHandle).createObject req.dstPid made.1 evt
    else made.2

def inheritHandle (parent child handle : UInt32) (fd : Option Int) : DescriptorTables :=
  match s.entryAt parent handle with
  | none => s
  | some entry =>
    let copied := s.dupEntry child entry fd
    match s.processes.get? child with
    | none => copied.1
    | some t =>
      match t.insertAt handle copied.2 with
      | none => copied.1
      | some stored =>
        closeAll { copied.1 with processes := copied.1.processes.insert child stored.1 } stored.2

/-! ### Pipes -/

def trackPipe (pid handle : UInt32) (fd : Int) : DescriptorTables :=
  { s with sideTables := { s.sideTables with
      pipeHandles := s.sideTables.pipeHandles.insert (pid, handle) fd } }

def addInstance (name : String) (info : NamedPipeInfo) : DescriptorTables :=
  { s with
    namedPipes := s.namedPipes.insert name ((s.namedPipes.get? name).getD [] ++ [info]) }

def createNamedPipe (pid : UInt32) (name : String) : Option (Int × Int) → DescriptorTables
  | none => s
  | some (server, client) =>
    let made := ((s.openFd pid server).openFd pid client).allocHandle pid server fdTypeDevice
      0x001F01FF 0x20
    let tracked := made.2.trackPipe pid made.1 server
    if name ≠ "" then tracked.addInstance name ⟨pid, made.1, client, .listening⟩
    else (tracked.allocHandle pid client fdTypeDevice 0x0012019F 0).2

def updateFirst (p : NamedPipeInfo → Bool) (f : NamedPipeInfo → NamedPipeInfo) :
    List NamedPipeInfo → List NamedPipeInfo
  | [] => []
  | info :: rest => if p info then f info :: rest else info :: updateFirst p f rest

def findListening (name : String) : Option NamedPipeInfo :=
  (s.namedPipes.get? name).bind fun instances => instances.find? NamedPipeInfo.isListening

def tryConnectNamedPipe (pid : UInt32) (name : String)
    (access options : UInt32) (fd : Option Int) : DescriptorTables :=
  match s.findListening name with
  | none => s
  | some info =>
    match fd with
    | none => s.useFd info.clientDataFd
    | some copy =>
      let opened := (s.useFd info.clientDataFd).openFd pid copy
      let made := allocHandle { opened with
          namedPipes := s.namedPipes.modify name
            (updateFirst NamedPipeInfo.isListening fun i => { i with state := .connected }) }
        pid copy fdTypeDevice (mapFileAccess access) (options ||| 0x20)
      if s.processes.contains pid then made.2.trackPipe pid made.1 copy else made.2

section
variable (pid handle : UInt32)

def findInstance : Option (String × NamedPipeInfo) :=
  s.namedPipes.entries.findSome? fun e =>
    (e.2.find? (NamedPipeInfo.isServer pid handle)).map fun info => (e.1, info)

def resetSockets (info : NamedPipeInfo) : Option (Int × Int) → DescriptorTables × Int
  | none => (s, info.clientDataFd)
  | some (server, client) =>
    let opened := (s.openFd pid server).openFd pid client
    let replaced :=
      match opened.processes.get? pid with
      | some t =>
        closeAll { opened with
          processes := opened.processes.insert pid (t.replaceFd handle server).1 }
          (t.replaceFd handle server).2
      | none => opened
    (replaced.closeFd info.clientDataFd, client)

def relisten (renew : NamedPipeInfo → Bool) (fds : Option (Int × Int)) : DescriptorTables :=
  match s.findInstance pid handle with
  | none => s
  | some (name, info) =>
    let reset := if renew info then s.resetSockets pid handle info fds else (s, info.clientDataFd)
    { reset.1 with
      namedPipes := s.namedPipes.modify name (updateFirst (NamedPipeInfo.isServer pid handle)
        fun i => { i with clientDataFd := reset.2, state := .listening }) }

/-- A client that left without a disconnect is disconnected. -/
def pipeListen (overlapped : Bool)
    (evt : Option Int) (fds : Option (Int × Int)) : DescriptorTables :=
  if (s.findInstance pid handle).isNone then s
  else if overlapped then s.relisten pid handle NamedPipeInfo.isConnected fds
  else
    let made := s.allocEventHandle pid false evt
    if made.1 ≠ 0 then made.2.relisten pid handle NamedPipeInfo.isConnected fds else made.2

def pipeDisconnect (fds : Option (Int × Int)) : DescriptorTables :=
  s.relisten pid handle (fun _ => true) fds

end

def pipeWait (pid : UInt32) (name : String) (evt : Option Int) : DescriptorTables :=
  if (s.findListening name).isSome then s else (s.allocEventHandle pid false evt).2

/-! ### Reads and writes -/

def getPipeWaitHandle (pid pipeHandle : UInt32) (evt : Option Int) : UInt32 × DescriptorTables :=
  match s.sideTables.ioWaitHandles.get? (pid, pipeHandle) with
  | some wait => (wait, s)
  | none =>
    let made := s.allocEventHandle pid false evt
    if made.1 ≠ 0 then
      (made.1, { made.2 with sideTables := { made.2.sideTables with
        ioWaitHandles := made.2.sideTables.ioWaitHandles.insert (pid, pipeHandle) made.1 } })
    else made

def completeIo (pid handle : UInt32) (evt : Option Int) : DescriptorTables :=
  let wait := s.getPipeWaitHandle pid handle evt
  if wait.1 ≠ 0 then wait.2.signal pid wait.1 else wait.2

def awaitRead (pid handle : UInt32) (fd : Int) (evt : Option Int) : DescriptorTables :=
  let wait := s.getPipeWaitHandle pid handle evt
  if wait.1 ≠ 0 then
    { wait.2 with pendingPipeReads := wait.2.pendingPipeReads ++ [⟨fd, pid, wait.1⟩] }
  else wait.2

inductive IoOutcome
  | data
  | eof
  | wouldBlock
  | failed
deriving DecidableEq

def isPipe (entry : HandleEntry) : Bool :=
  entry.objType = fdTypePipe ∨ entry.objType = fdTypeDevice

def isStream (entry : HandleEntry) : Bool := isPipe entry ∨ entry.objType = fdTypeSocket

def read (pid handle : UInt32) (user : UInt64) (outcome : IoOutcome)
    (evt : Option Int) : DescriptorTables :=
  match s.entryAt pid handle with
  | none => s
  | some entry =>
    match entry.fd with
    | none => s
    | some fd =>
      let done := s.useFd fd
      match outcome with
      | .data => if isPipe entry then done.completeIo pid handle evt else done
      | .eof | .failed => done
      | .wouldBlock =>
        let kept := { done with pendingReads := done.pendingReads.insert (pid, user) fd }
        if isStream entry then kept.awaitRead pid handle fd evt else kept

/-- Every read that does not succeed counts as one that would block. -/
def transceive (pid handle : UInt32) (sent : Bool) (outcome : IoOutcome)
    (evt : Option Int) : DescriptorTables :=
  match s.fdOf pid handle with
  | none => s
  | some fd =>
    let done := s.useFd fd
    if sent = false then done
    else
      match outcome with
      | .data | .eof => done
      | .wouldBlock | .failed => done.awaitRead pid handle fd evt

def checkPendingPipeReads (ready : List Int) : DescriptorTables :=
  let polled := s.pendingPipeReads.foldl (fun t r => t.useFd r.pipeFd) s
  (s.pendingPipeReads.filter fun r => ready.contains r.pipeFd).reverse.foldl
    (fun t r => (t.useFd r.pipeFd).signal r.pid r.waitHandle)
    { polled with
      pendingPipeReads := s.pendingPipeReads.filter fun r => !ready.contains r.pipeFd }

/-- A write that fails ends the request; one that finds no data to write never starts.
`eof` is a write that took nothing. -/
def write (pid handle : UInt32) (empty : Bool) (outcome : IoOutcome)
    (evt : Option Int) (ready : List Int) : DescriptorTables :=
  match s.entryAt pid handle with
  | none => s
  | some entry =>
    match entry.fd with
    | none => s
    | some fd =>
      if empty then s
      else
        let done := s.useFd fd
        if outcome = .failed then done
        else
          let waited := if isPipe entry then done.completeIo pid handle evt else done
          if outcome ≠ .eof ∧ isStream entry then waited.checkPendingPipeReads ready else waited

def getAsyncResult (pid : UInt32) (user : UInt64) (got : Bool) : DescriptorTables :=
  match s.pendingReads.get? (pid, user) with
  | none => s
  | some fd =>
    if got then { s.useFd fd with pendingReads := s.pendingReads.erase (pid, user) }
    else s.useFd fd

def cancelAsync (pid handle : UInt32) : DescriptorTables :=
  if handle ≠ 0 then
    match s.fdOf pid handle with
    | some fd => { s with pendingReads := s.pendingReads.retain fun k v => k.1 ≠ pid ∨ v ≠ fd }
    | none => s
  else { s with pendingReads := s.pendingReads.retain fun k _ => k.1 ≠ pid }

/-! ### Closing -/

/-- The objects of the handle, and of the wait handle that `purge` returns, stay. -/
def closeHandle (pid handle : UInt32) : DescriptorTables :=
  let purged := closeAll { s with sideTables := (s.sideTables.purge pid handle).1 }
    (s.sideTables.purge pid handle).2.1
  match s.processes.get? pid with
  | some t =>
    closeAll { purged with processes := s.processes.insert pid (t.close handle).1 }
      (t.close handle).2
  | none => purged

section
variable (pid : UInt32)

def objectsOf : List NtsyncRef :=
  (s.ntsyncObjects.entries.filter fun e => e.1.1 = pid).map Prod.snd

def readsOf : List Int :=
  (s.pendingPipeReads.filter fun r => r.pid = pid).map AsyncPipeRead.pipeFd

def endsOf : List Int :=
  s.namedPipes.entries.flatMap fun e =>
    (e.2.filter fun info => info.serverPid = pid).map NamedPipeInfo.clientDataFd

def without : DescriptorTables :=
  { s with
    processes := s.processes.erase pid
    sideTables := (s.sideTables.purgePid pid).1
    pendingReads := s.pendingReads.retain fun k _ => k.1 ≠ pid
    pendingPipeReads := s.pendingPipeReads.filter fun r => r.pid ≠ pid
    namedPipes := (s.namedPipes.mapValues fun instances =>
      instances.filter fun info => info.serverPid ≠ pid).retain fun _ v => !v.isEmpty
    ntsyncObjects := s.ntsyncObjects.retain fun k _ => k.1 ≠ pid }

/-- The part of `disconnect_client` for the last thread of a process, in the order in
which it closes. The descriptors of the handle table are dropped with it, unclosed. -/
def teardown : DescriptorTables :=
  ((((s.without pid).dropRefs (s.objectsOf pid)).closeAll (s.sideTables.purgePid pid).2).closeAll
    (s.readsOf pid)).closeAll (s.endsOf pid)

end

/-! ### Runs -/

inductive Request
  | newProcess (pid : UInt32)
  | allocWaitable (pid : UInt32) (efd : Option Int)
  | createEvent (pid : UInt32) (efd evt : Option Int)
  | createFile (pid : UInt32) (fd : Int) (objType access options : UInt32) (evt : Option Int)
  | getMsgQueueHandle (pid : UInt32) (evt : Option Int)
  | getHandleFd (pid handle : UInt32)
  | dupHandle (req : DupHandle) (fd evt : Option Int)
  | inheritHandle (parent child handle : UInt32) (fd : Option Int)
  | createNamedPipe (pid : UInt32) (name : String) (fds : Option (Int × Int))
  | connect (pid : UInt32) (name : String) (access options : UInt32) (fd : Option Int)
  | pipeListen (pid handle : UInt32) (overlapped : Bool) (evt : Option Int)
      (fds : Option (Int × Int))
  | pipeDisconnect (pid handle : UInt32) (fds : Option (Int × Int))
  | pipeWait (pid : UInt32) (name : String) (evt : Option Int)
  | read (pid handle : UInt32) (user : UInt64) (outcome : IoOutcome) (evt : Option Int)
  | transceive (pid handle : UInt32) (sent : Bool) (outcome : IoOutcome) (evt : Option Int)
  | write (pid handle : UInt32) (empty : Bool) (outcome : IoOutcome) (evt : Option Int)
      (ready : List Int)
  | checkPendingPipeReads (ready : List Int)
  | getAsyncResult (pid : UInt32) (user : UInt64) (got : Bool)
  | cancelAsync (pid handle : UInt32)
  | syncObject (pid handle : UInt32) (evt : Option Int)
  | cloneObject (pid handle : UInt32)
  | dropClone (i : Nat)
  | closeHandle (pid handle : UInt32)
  | teardown (pid : UInt32)

def step : Request → DescriptorTables
  | .newProcess pid => { s with processes := s.processes.insert pid .new }
  | .allocWaitable pid efd => (s.allocWaitableHandle pid efd).2
  | .createEvent pid efd evt => s.createEvent pid efd evt
  | .createFile pid fd objType access options evt =>
    s.createFileHandle pid fd objType access options evt
  | .getMsgQueueHandle pid evt => s.getMsgQueueHandle pid evt
  | .getHandleFd pid handle => s.getHandleFd pid handle
  | .dupHandle req fd evt => s.dupHandle req fd evt
  | .inheritHandle parent child handle fd => s.inheritHandle parent child handle fd
  | .createNamedPipe pid name fds => s.createNamedPipe pid name fds
  | .connect pid name access options fd => s.tryConnectNamedPipe pid name access options fd
  | .pipeListen pid handle overlapped evt fds => s.pipeListen pid handle overlapped evt fds
  | .pipeDisconnect pid handle fds => s.pipeDisconnect pid handle fds
  | .pipeWait pid name evt => s.pipeWait pid name evt
  | .read pid handle user outcome evt => s.read pid handle user outcome evt
  | .transceive pid handle sent outcome evt => s.transceive pid handle sent outcome evt
  | .write pid handle empty outcome evt ready => s.write pid handle empty outcome evt ready
  | .checkPendingPipeReads ready => s.checkPendingPipeReads ready
  | .getAsyncResult pid user got => s.getAsyncResult pid user got
  | .cancelAsync pid handle => s.cancelAsync pid handle
  | .syncObject pid handle evt => s.syncObject pid handle evt
  | .cloneObject pid handle => s.cloneObject pid handle
  | .dropClone i => s.dropClone i
  | .closeHandle pid handle => s.closeHandle pid handle
  | .teardown pid => s.teardown pid

def pairList : Option (Int × Int) → List Int
  | some (server, client) => [server, client]
  | none => []

def Request.returned : Request → List Int
  | .allocWaitable _ efd => efd.toList
  | .createEvent _ efd evt => efd.toList ++ evt.toList
  | .createFile _ fd _ _ _ evt => fd :: evt.toList
  | .dupHandle _ fd evt => fd.toList ++ evt.toList
  | .inheritHandle _ _ _ fd | .connect _ _ _ _ fd => fd.toList
  | .createNamedPipe _ _ fds | .pipeDisconnect _ _ fds => pairList fds
  | .pipeListen _ _ _ evt fds => evt.toList ++ pairList fds
  | .getMsgQueueHandle _ evt | .pipeWait _ _ evt | .read _ _ _ _ evt | .transceive _ _ _ _ evt
  | .write _ _ _ _ evt _ | .syncObject _ _ evt => evt.toList
  | .newProcess _ | .getHandleFd _ _ | .checkPendingPipeReads _ | .getAsyncResult _ _ _
  | .cancelAsync _ _ | .cloneObject _ _ | .dropClone _ | .closeHandle _ _ | .teardown _ => []

def Request.created : Request → Option UInt32
  | .newProcess pid => some pid
  | _ => none

/-- What the kernel promises of the numbers it returns, and the allocator of process
ids of a new one. -/
def Legal (req : Request) : Prop :=
  req.returned.Nodup ∧ (∀ fd ∈ req.returned, 0 ≤ fd ∧ s.kernel.descriptors.get? fd = none) ∧
    req.created.all (fun pid => !s.processes.contains pid)

instance decidableLegal (req : Request) : Decidable (Legal s req) :=
  inferInstanceAs (Decidable (req.returned.Nodup ∧
    (∀ fd ∈ req.returned, 0 ≤ fd ∧ s.kernel.descriptors.get? fd = none) ∧ _))

end DescriptorTables
end Triskelion
