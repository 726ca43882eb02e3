import Triskelion.DescriptorTables
import Triskelion.RunRules

/-! Object ids (`objects.rs`, `handles.rs`, `process.rs`, `thread.rs`, `sync.rs`,
`file_io.rs`). The entry of a handle has the id of its object; that of a process or thread
handle is the process or thread id. Process and thread ids come from one counter, all other
object ids from another one. Beside the tables stands what each slot was filled for. -/

namespace Triskelion

/-- What a handle stands for. A process or thread goes by the number of its id among all
that were given out, any other object by the number of its object id. -/
inductive ServerObject
  | task (n : Nat)
  | made (n : Nat)
  | token (process : ServerObject)
  | sharedFile (mapping : ServerObject)
deriving DecidableEq

/-- Events, mutexes and semaphores with a name, the event of all system processes, and the one that
tells when a process is idle. -/
inductive SharedSync
  | named (name : String)
  | shutdown
  | idle (pid : UInt32)
deriving DecidableEq

structure Thread where
  pid : UInt32
  suspendCount : Int

structure NamedObject where
  objectId : UInt64
  object : ServerObject

/-- The fields from `tasks` on are not in the code: how many ids of either kind were given
out, the number of each process or thread id, and what each slot stands for. -/
structure ObjectState where
  processes : Table UInt32 HandleTable
  threads : Table UInt32 Thread
  nextPtid : UInt32
  nextObjectId : UInt64
  namedObjects : Table String NamedObject
  mappings : Table UInt64 Bool
  sharedSync : Table SharedSync ServerObject
  threadHandleTids : Table UInt32 UInt32
  tasks : Nat
  minted : Nat
  born : Table UInt32 Nat
  denotes : UInt32 × UInt32 → Option ServerObject

namespace ObjectState

def empty : ObjectState :=
  ⟨.empty, .empty, 0, 0x1000, .empty, .empty, .empty, .empty, 0, 0, .empty, fun _ => none⟩

/-! ### Ids -/

variable (s : ObjectState)

def allocObjectId : UInt64 × ObjectState :=
  (s.nextObjectId, { s with nextObjectId := s.nextObjectId + 1, minted := s.minted + 1 })

def allocPtid : UInt32 × ObjectState :=
  (ptid s.nextPtid, { s with
    nextPtid := s.nextPtid + 1
    tasks := s.tasks + 1
    born := s.born.insert (ptid s.nextPtid) s.tasks })

def createProcess : UInt32 × ObjectState :=
  let taken := s.allocPtid
  (taken.1, { taken.2 with processes := taken.2.processes.insert taken.1 .new })

def createThread (pid : UInt32) (suspendCount : Int) : UInt32 × ObjectState :=
  let taken := s.allocPtid
  (taken.1, { taken.2 with threads := taken.2.threads.insert taken.1 ⟨pid, suspendCount⟩ })

/-- The daemon as it starts: the session mapping has a name, the window station has not. -/
def start : ObjectState :=
  let session := empty.allocObjectId
  let named := { session.2 with
    namedObjects := session.2.namedObjects.insert "__wine_session" ⟨session.1, .made 0⟩
    mappings := session.2.mappings.insert session.1 false }
  named.allocObjectId.2

def who (id : UInt32) : Option ServerObject := (s.born.get? id).map .task

/-! ### Handles -/

section
variable (pid handle : UInt32)

def entryAt : Option HandleEntry := entryOf s.processes pid handle

def denoted : Option ServerObject :=
  s.denotes (pid, handle >>> 2)

def targetOf : Option UInt32 :=
  (s.entryAt pid handle).map fun entry => entry.objectId.toUInt32

end

def allocEntry (pid : UInt32) (entry : HandleEntry)
    (object : Option ServerObject) : UInt32 × ObjectState :=
  match s.processes.get? pid with
  | some t => ((t.allocateFull entry).1, { s with
      processes := s.processes.insert pid (t.allocateFull entry).2
      denotes := Function.update s.denotes (pid, t.slab.bump) object })
  | none => (0, s)

def allocWaitableHandle (pid : UInt32) (efd : Option Int)
    (object : Option ServerObject) : UInt32 × ObjectState :=
  let taken := s.allocObjectId
  match efd with
  | none => (0, taken.2)
  | some efd => taken.2.allocEntry pid ⟨taken.1, some efd, fdTypeFile, 0x001F0003, 0x20⟩ object

def setObjectId (pid handle : UInt32) (id : UInt64) (object : Option ServerObject) : ObjectState :=
  { s with
    processes := s.processes.modify pid fun t => { t with
      slab := t.slab.modifyUnchecked (handle >>> 2) fun entry => { entry with objectId := id } }
    denotes := Function.update s.denotes (pid, handle >>> 2) object }

/-! ### Processes and threads -/

def initThread : Option UInt32 → ObjectState
  | some pid => (s.createThread pid 0).2
  | none =>
    let made := s.createProcess
    (made.2.createThread made.1 0).2

def inheritHandle (parent child handle : UInt32) (fd : Option Int) : ObjectState :=
  match s.entryAt parent handle, s.processes.get? child with
  | some entry, some t =>
    match t.insertAt handle { entry with fd := entry.fd.map fun _ => fd.getD (-1) } with
    | some stored => { s with
        processes := s.processes.insert child stored.1
        denotes := Function.update s.denotes (child, handle >>> 2) (s.denoted parent handle) }
    | none => s
  | _, _ => s

def newProcess (caller : UInt32) (inherited : List (UInt32 × Option Int))
    (efd info : Option Int) : ObjectState :=
  let made := s.createProcess
  let filled := inherited.foldl (fun t h => t.inheritHandle caller made.1 h.1 h.2) made.2
  let handle := filled.allocWaitableHandle caller efd (some (.made filled.minted))
  let named :=
    if handle.1 ≠ 0 then
      handle.2.setObjectId caller handle.1 made.1.toUInt64 (some (.task s.tasks))
    else handle.2
  (named.allocWaitableHandle caller info (some (.made named.minted))).2

/-- The target process goes by the object id of its handle. -/
def newThread (caller process : UInt32) (suspended : Bool) (efd : Option Int) : ObjectState :=
  let made := s.createThread ((s.targetOf caller process).getD caller) (if suspended then 1 else 0)
  let handle := made.2.allocWaitableHandle caller efd (some (.made made.2.minted))
  if handle.1 ≠ 0 then
    handle.2.setObjectId caller handle.1 made.1.toUInt64 (some (.task s.tasks))
  else handle.2

/-- The id in the request is not read: the handle has a new object id. -/
def openTask (caller id : UInt32) (efd : Option Int) : ObjectState :=
  (s.allocWaitableHandle caller efd ((s.who id).or (some (.made s.minted)))).2

def openProcess (caller pid : UInt32) (efd : Option Int) : ObjectState :=
  s.openTask caller pid efd

def openThread (caller tid : UInt32) (efd : Option Int) : ObjectState :=
  s.openTask caller tid efd

section
variable (caller last : UInt32) (backwards : Bool)

def nextThread : Option UInt32 :=
  nextThreadOf ((s.threads.entries.filter fun e => e.2.pid = caller).map Prod.fst) last
    (s.threadHandleTids.get? last) backwards

def getNextThread : ObjectState :=
  match s.nextThread caller last backwards with
  | none => s
  | some tid =>
    let made := s.allocEntry caller ⟨tid.toUInt64, none, 0, 0, 0⟩ (s.who tid)
    if made.1 = 0 then made.2
    else { made.2 with threadHandleTids := made.2.threadHandleTids.insert made.1 tid }

end

def resumeThread (caller handle : UInt32) : ObjectState :=
  match s.targetOf caller handle with
  | none => s
  | some tid => { s with threads := s.threads.modify tid fun thread =>
      { thread with suspendCount :=
          if thread.suspendCount > 0 then thread.suspendCount - 1 else thread.suspendCount } }

def suspendThread (caller handle : UInt32) : ObjectState :=
  match (s.targetOf caller handle).or (s.threadHandleTids.get? handle) with
  | none => s
  | some tid => { s with threads := s.threads.modify tid fun thread =>
      { thread with suspendCount := thread.suspendCount + 1 } }

def exitProcess (pid : UInt32) : ObjectState :=
  { s with
    processes := s.processes.erase pid
    threads := s.threads.retain fun _ thread => thread.pid ≠ pid }

/-! ### Other objects -/

section
variable (caller : UInt32)

def createObject (fd : Option Int) (objType access options : UInt32) : ObjectState :=
  let taken := s.allocObjectId
  (taken.2.allocEntry caller ⟨taken.1, fd, objType, access, options⟩
    (some (.made s.minted))).2

def createWaitable (efd : Option Int) : ObjectState :=
  (s.allocWaitableHandle caller efd (some (.made s.minted))).2

def createSync (name : Option SharedSync) (efd : Option Int) (canonical : Bool) : ObjectState :=
  let known := name.bind s.sharedSync.get?
  let made := s.allocWaitableHandle caller efd (known.or (some (.made s.minted)))
  match name with
  | some name =>
    if made.1 ≠ 0 ∧ known.isNone ∧ canonical = true then
      { made.2 with sharedSync := made.2.sharedSync.insert name (.made s.minted) }
    else made.2
  | none => made.2

def openSync (name : SharedSync) (efd : Option Int) : ObjectState :=
  match s.sharedSync.get? name with
  | some object => (s.allocWaitableHandle caller efd (some object)).2
  | none => s

def makeProcessSystem (efd : Option Int) (made : Bool) : ObjectState :=
  s.createSync caller (some .shutdown) efd made

/-- `copied` says that the process has such an event and that its descriptor could be copied. -/
def getProcessIdleEvent (process : UInt32) (copied : Bool) (efd : Option Int) : ObjectState :=
  if copied then s.createSync caller (some (.idle ((s.targetOf caller process).getD 0))) efd true
  else s

def createMapping (created : Bool) (name : Option String)
    (shared : Bool) (fd : Int) (access : UInt32) : ObjectState :=
  let taken := s.allocObjectId
  if created = false then taken.2
  else
    let stored := { taken.2 with mappings := taken.2.mappings.insert taken.1 shared }
    let named :=
      match name with
      | some name => { stored with
          namedObjects := stored.namedObjects.insert name ⟨taken.1, .made s.minted⟩ }
      | none => stored
    (named.allocEntry caller ⟨taken.1, some fd, fdTypeFile, access, 0⟩ (some (.made s.minted))).2

end

def usdName : String := "__wine_user_shared_data"

def openMapping (caller : UInt32) (short full : String) (usd : Bool) (fd : Int) : ObjectState :=
  match (s.namedObjects.get? short).or (s.namedObjects.get? full) with
  | some named =>
    (s.allocEntry caller ⟨named.objectId, some fd, fdTypeFile, 0x000F001F, 0⟩ (some named.object)).2
  | none =>
    if usd = false then s
    else
      let taken := s.allocObjectId
      let stored := { taken.2 with
        mappings := taken.2.mappings.insert taken.1 false
        namedObjects := taken.2.namedObjects.insert usdName ⟨taken.1, .made s.minted⟩ }
      (stored.allocEntry caller ⟨taken.1, some fd, fdTypeFile, 0x000F001F, 0⟩
        (some (.made s.minted))).2

def sharesFile (caller handle : UInt32) : Bool :=
  ((s.entryAt caller handle).bind fun entry => s.mappings.get? entry.objectId) = some true

def getMappingInfo (caller handle : UInt32) (dup : Option Int) : ObjectState :=
  match dup with
  | some fd =>
    if s.sharesFile caller handle then
      (s.allocEntry caller ⟨0, some fd, fdTypeFile, 0x12019F, 0⟩
        ((s.denoted caller handle).map .sharedFile)).2
    else s
  | none => s

def allocateLocallyUniqueId : ObjectState := s.allocObjectId.2

/-! ### Copies -/

structure DupRequest where
  callerPid : UInt32
  callerTid : UInt32
  srcProcess : UInt32
  dstProcess : UInt32
  srcHandle : UInt32
  options : UInt32
  access : UInt32

def processOf (caller process : UInt32) : UInt32 :=
  processNamed s.processes caller process

def pseudoObject (pid tid handle : UInt32) : Option ServerObject :=
  if handle = 0xFFFFFFFE then s.who tid
  else if handle = 0xFFFFFFFF ∨ handle = 0x7FFFFFFF then s.who pid
  else if handle = 0xFFFFFFFC then (s.who pid).map .token
  else none

def dupHandle (req : DupRequest) (fd : Option Int) : ObjectState :=
  let src := s.processOf req.callerPid req.srcProcess
  let dst := s.processOf req.callerPid req.dstProcess
  match dupSource s.processes req.callerPid req.callerTid src req.srcHandle with
  | none => s
  | some entry =>
    (s.allocEntry dst { entry with
        fd := entry.fd.map fun _ => fd.getD (-1)
        access := dupAccess req.options req.access entry }
      (if (pseudoEntry req.callerPid req.callerTid req.srcHandle).isSome then
        s.pseudoObject req.callerPid req.callerTid req.srcHandle
        else s.denoted src req.srcHandle)).2

def closeHandle (caller handle : UInt32) : ObjectState :=
  { s with processes := s.processes.modify caller fun t => (t.close handle).1 }

def statusNotSameObject : UInt32 := 0xC0000460
def statusInvalidHandle : UInt32 := 0xC0000008

def compareObjects (pid first second : UInt32) : UInt32 :=
  match s.entryAt pid first, s.entryAt pid second with
  | some a, some b => if a.objectId = b.objectId then 0 else statusNotSameObject
  | _, _ => statusInvalidHandle

/-! ### Runs -/

inductive ObjectRequest
  | initThread (pid : Option UInt32)
  | newProcess (caller : UInt32) (inherited : List (UInt32 × Option Int)) (efd info : Option Int)
  | newThread (caller process : UInt32) (suspended : Bool) (efd : Option Int)
  | openProcess (caller pid : UInt32) (efd : Option Int)
  | openThread (caller tid : UInt32) (efd : Option Int)
  | getNextThread (caller last : UInt32) (backwards : Bool)
  | resumeThread (caller handle : UInt32)
  | suspendThread (caller handle : UInt32)
  | exitProcess (pid : UInt32)
  | createObject (caller : UInt32) (fd : Option Int) (objType access options : UInt32)
  | createWaitable (caller : UInt32) (efd : Option Int)
  | createSync (caller : UInt32) (name : Option String) (efd : Option Int) (canonical : Bool)
  | openSync (caller : UInt32) (name : String) (efd : Option Int)
  | makeProcessSystem (caller : UInt32) (efd : Option Int) (made : Bool)
  | getProcessIdleEvent (caller process : UInt32) (copied : Bool) (efd : Option Int)
  | createMapping (caller : UInt32) (created : Bool) (name : Option String) (shared : Bool)
      (fd : Int) (access : UInt32)
  | openMapping (caller : UInt32) (short full : String) (usd : Bool) (fd : Int)
  | getMappingInfo (caller handle : UInt32) (dup : Option Int)
  | allocateLocallyUniqueId
  | dupHandle (req : DupRequest) (fd : Option Int)
  | closeHandle (caller handle : UInt32)

def step : ObjectRequest → ObjectState
  | .initThread pid => s.initThread pid
  | .newProcess caller inherited efd info => s.newProcess caller inherited efd info
  | .newThread caller process suspended efd => s.newThread caller process suspended efd
  | .openProcess caller pid efd => s.openProcess caller pid efd
  | .openThread caller tid efd => s.openThread caller tid efd
  | .getNextThread caller last backwards => s.getNextThread caller last backwards
  | .resumeThread caller handle => s.resumeThread caller handle
  | .suspendThread caller handle => s.suspendThread caller handle
  | .exitProcess pid => s.exitProcess pid
  | .createObject caller fd objType access options => s.createObject caller fd objType access options
  | .createWaitable caller efd => s.createWaitable caller efd
  | .createSync caller name efd canonical => s.createSync caller (name.map .named) efd canonical
  | .openSync caller name efd => s.openSync caller (.named name) efd
  | .makeProcessSystem caller efd made => s.makeProcessSystem caller efd made
  | .getProcessIdleEvent caller process copied efd => s.getProcessIdleEvent caller process copied efd
  | .createMapping caller created name shared fd access =>
    s.createMapping caller created name shared fd access
  | .openMapping caller short full usd fd => s.openMapping caller short full usd fd
  | .getMappingInfo caller handle dup => s.getMappingInfo caller handle dup
  | .allocateLocallyUniqueId => s.allocateLocallyUniqueId
  | .dupHandle req fd => s.dupHandle req fd
  | .closeHandle caller handle => s.closeHandle caller handle

end ObjectState
end Triskelion
