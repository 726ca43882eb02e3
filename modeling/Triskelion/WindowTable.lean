import Mathlib.Data.UInt
import Triskelion.SharedHandlers

/-! The window table of the event loop: user-handle allocation, the requests that
create, reparent and destroy windows, and the three walks over the parent links.
A request buffer has been decoded; the session memory is left out, apart from
the user entries that `alloc_user_handle` writes. -/

namespace Triskelion

/-- `[left, top, right, bottom]` of a window rectangle. -/
structure Rect where
  left : Int32
  top : Int32
  right : Int32
  bottom : Int32
deriving DecidableEq

def Rect.zero : Rect := ⟨0, 0, 0, 0⟩

def Rect.contains (r : Rect) (x y : Int32) : Bool :=
  decide (r.left ≤ x) && decide (x < r.right) && decide (r.top ≤ y) && decide (y < r.bottom)

structure WindowState where
  style : UInt32
  exStyle : UInt32
  isUnicode : Int16
  owner : UInt32
  parent : UInt32
  tid : UInt32
  id : UInt64
  inst : UInt64
  userData : UInt64
  dpiContext : UInt32
  windowRect : Rect
  clientRect : Rect
  visibleRect : Rect
  surfaceRect : Rect
  paintFlags : UInt16
  needsPaint : Bool
  windowText : List UInt8
  extraBytes : List UInt8
deriving DecidableEq

structure WindowClient where
  processId : UInt32
  threadId : UInt32
deriving DecidableEq

structure Locator where
  id : Nat
  offset : Nat
deriving DecidableEq

structure UserEntry where
  offset : Nat
  tid : UInt32
  pid : UInt32
  id : Nat
  objType : UInt16
  generation : UInt16
deriving DecidableEq

/-- What the window requests read of the rest of the server. `processes` keeps
the thread list of each process, `threads` the process of each thread. -/
structure Surroundings where
  clients : Table Int32 WindowClient
  processes : Table UInt32 (List UInt32)
  threads : Table UInt32 UInt32
  atomNames : Table (List UInt16) UInt32
  classLocators : Table UInt32 Locator
  classClientPtrs : Table UInt32 UInt64
  classWinExtra : Table UInt32 Int32
  monitorRect : Rect
  sessionFd : Int32

/-- The newest entry of `userHandleFreeList` stands first. -/
structure WindowServer extends Surroundings where
  windowStates : Table UInt32 WindowState
  desktopTopWindow : UInt32
  desktopMsgWindow : UInt32
  nextUserHandleIndex : UInt32
  userHandleFreeList : List UInt32
  nextSharedOffset : Nat
  nextSharedId : Nat
  userEntries : Table UInt32 UserEntry
  windowProperties : Table (UInt32 × UInt32) UInt64
  clipboardListeners : Table UInt32 Unit

structure CreateWindowRequest where
  owner : UInt32
  parent : UInt32
  atom : UInt32
  style : UInt32
  exStyle : UInt32
  dpiContext : UInt32
  inst : UInt64
  name : List UInt16

inductive WindowReply
  | error (code : UInt32)
  | ok
  | createWindow (handle parent owner : UInt32) (extra : Int32) (classPtr : UInt64)
  | setParent (oldParent fullParent : UInt32)
  | allocUserHandle (handle : UInt32)
deriving DecidableEq

def statusInvalidHandle : UInt32 := 0xC0000008
def firstUserHandle : UInt32 := 0x0020
def sharedObjectStride : Nat := 1024
def ntuserObjWindow : UInt16 := 1
def ntuserDpiPerMonitorAware : UInt32 := 0x12
def desktopClassAtom : UInt32 := 32769
def hwndMessage : UInt32 := 0xFFFFFFFD
def wsVisible : UInt32 := 0x10000000
def paintHasSurface : UInt16 := 0x01

def handleOfIndex (index : UInt32) : UInt32 := (index <<< 1) + firstUserHandle

def indexOfHandle (handle : UInt32) : UInt32 := (handle - firstUserHandle) >>> 1

namespace WindowServer

variable (s : WindowServer) (fd : Int32)

def clientThreadId : Option UInt32 :=
  (s.clients.get? fd).bind fun c => if c.threadId ≠ 0 then some c.threadId else none

def clientPid : UInt32 :=
  ((s.clients.get? fd).map (·.processId)).getD 0

def takeIndex : UInt32 × WindowServer :=
  match s.userHandleFreeList with
  | recycled :: rest => (recycled, { s with userHandleFreeList := rest })
  | [] => (s.nextUserHandleIndex, { s with nextUserHandleIndex := s.nextUserHandleIndex + 1 })

def allocUserHandle (objType : UInt16) (tid pid : UInt32) : UInt32 × WindowServer :=
  let (index, s) := s.takeIndex
  let entry : UserEntry :=
    { offset := s.nextSharedOffset, tid, pid, id := s.nextSharedId, objType, generation := 0 }
  (handleOfIndex index, { s with
      nextSharedOffset := s.nextSharedOffset + sharedObjectStride
      nextSharedId := s.nextSharedId + 1
      userEntries :=
        if 0 ≤ s.sessionFd then s.userEntries.insert index entry else s.userEntries })

def allocSharedObject : Locator × WindowServer :=
  (⟨s.nextSharedId, s.nextSharedOffset⟩, { s with
      nextSharedOffset := s.nextSharedOffset + sharedObjectStride
      nextSharedId := s.nextSharedId + 1 })

def lowerAsciiUnit (c : UInt16) : UInt16 := if 65 ≤ c ∧ c ≤ 90 then c + 32 else c

section
variable (req : CreateWindowRequest)

def resolveAtom : UInt32 :=
  if req.atom ≠ 0 then req.atom
  else
    ((s.atomNames.get? req.name).or (s.atomNames.get? (req.name.map lowerAsciiUnit))).getD 0

def replyParent : UInt32 :=
  if s.resolveAtom req = desktopClassAtom then 0
  else if req.parent = hwndMessage ∧ s.desktopMsgWindow ≠ 0 then s.desktopMsgWindow
  else if req.parent = 0 ∧ s.desktopTopWindow ≠ 0 then s.desktopTopWindow
  else req.parent

def requestDpi : UInt32 :=
  if req.dpiContext ≠ 0 then req.dpiContext else ntuserDpiPerMonitorAware

def windowDpi (parent : UInt32) : UInt32 :=
  if parent ≠ 0 ∧ parent ≠ s.desktopTopWindow then
    ((s.windowStates.get? parent).map (·.dpiContext)).getD (requestDpi req)
  else requestDpi req

def ensureClassLocator (atom : UInt32) : WindowServer :=
  match s.classLocators.get? atom with
  | some _ => s
  | none =>
    let (loc, s) := s.allocSharedObject
    { s with classLocators := s.classLocators.insert atom loc }

def newWindow (tid : UInt32) : WindowState :=
  let atom := s.resolveAtom req
  let parent := s.replyParent req
  let visible := req.style &&& wsVisible ≠ 0
  let toplevel := parent = s.desktopTopWindow ∧ atom ≠ desktopClassAtom
  let desktop := parent = 0 ∧ atom = desktopClassAtom
  let rect := if toplevel ∧ visible then s.monitorRect else Rect.zero
  { style := req.style, exStyle := req.exStyle, isUnicode := 1, owner := req.owner, parent, tid
    id := 0, inst := req.inst, userData := 0, dpiContext := s.windowDpi req parent
    windowRect := rect, clientRect := rect, visibleRect := rect, surfaceRect := rect
    paintFlags := if (toplevel ∨ desktop) ∧ visible then paintHasSurface else 0
    needsPaint := false, windowText := []
    extraBytes := List.replicate ((s.classWinExtra.get? atom).getD 0).toNatClampNeg 0 }

def rootWindow (style tid : UInt32) (rect : Rect) : WindowState :=
  { style, exStyle := 0, isUnicode := 1, owner := 0, parent := 0, tid, id := 0, inst := 0
    userData := 0, dpiContext := ntuserDpiPerMonitorAware, windowRect := rect
    clientRect := rect, visibleRect := rect, surfaceRect := rect, paintFlags := 0
    needsPaint := false, windowText := [], extraBytes := [] }

def adoptDesktop (handle tid pid : UInt32) : List UInt32 × WindowServer :=
  let (msg, s) := { s with desktopTopWindow := handle }.allocUserHandle ntuserObjWindow tid pid
  ([msg], { s with
    desktopMsgWindow := msg
    windowStates := s.windowStates.insert msg (rootWindow 0 tid Rect.zero) })

/-- A handled request: the user handles it took from `alloc_user_handle`, in
order, the server after it and the reply. -/
structure Outcome where
  allocated : List UInt32
  server : WindowServer
  reply : WindowReply

def handleCreateWindow : Outcome :=
  let atom := s.resolveAtom req
  let pid := s.clientPid fd
  let tid := (s.clientThreadId fd).getD 0
  let window := s.newWindow req tid
  let (handle, s) := s.allocUserHandle ntuserObjWindow tid pid
  let s := s.ensureClassLocator atom
  let s := { s with windowStates := s.windowStates.insert handle window }
  let (more, s) :=
    if atom = desktopClassAtom ∧ s.desktopTopWindow = 0 then s.adoptDesktop handle tid pid
    else ([], s)
  let classPtr := (s.classClientPtrs.get? atom).getD 0
  -- a class without a client pointer is refused only after the window exists
  let reply :=
    if classPtr = 0 then WindowReply.error statusInvalidHandle
    else WindowReply.createWindow handle window.parent req.owner
      ((s.classWinExtra.get? atom).getD 0) classPtr
  ⟨handle :: more, s, reply⟩

end

/-- `destroy_window` recycles the index of any handle it is given. -/
def handleDestroyWindow (handle : UInt32) : Outcome :=
  let parent := ((s.windowStates.get? handle).map (·.parent)).getD 0
  let adopted := s.windowStates.mapValues fun child =>
    if child.parent = handle then { child with parent } else child
  ⟨[], { s with
    windowStates := adopted.erase handle
    windowProperties := s.windowProperties.retain fun key _ => key.1 ≠ handle
    clipboardListeners := s.clipboardListeners.erase handle
    userHandleFreeList :=
      if firstUserHandle ≤ handle then indexOfHandle handle :: s.userHandleFreeList
      else s.userHandleFreeList }, .ok⟩

def handleSetParent (handle parent : UInt32) : Outcome :=
  if parent ≠ 0 ∧ parent ≠ s.desktopTopWindow ∧ parent ≠ s.desktopMsgWindow ∧
      s.windowStates.contains parent = false then
    ⟨[], s, .error statusInvalidHandle⟩
  else
    let oldParent := ((s.windowStates.get? handle).map (·.parent)).getD 0
    ⟨[], { s with windowStates := s.windowStates.modify handle fun ws => { ws with parent } },
      .setParent oldParent parent⟩

def handleAllocUserHandle : Outcome :=
  let (handle, s) := s.allocUserHandle 1 ((s.clientThreadId fd).getD 0) (s.clientPid fd)
  ⟨[handle], s, .allocUserHandle handle⟩

def handleFreeUserHandle (handle : UInt32) : Outcome :=
  if handle < firstUserHandle then ⟨[], s, .error statusInvalidHandle⟩
  else if s.nextUserHandleIndex ≤ indexOfHandle handle then ⟨[], s, .error statusInvalidHandle⟩
  else
    ⟨[], { s with
      userHandleFreeList := indexOfHandle handle :: s.userHandleFreeList
      windowStates := s.windowStates.erase handle }, .ok⟩

def remainingThreads (pid tid : UInt32) (threads : List UInt32) : List UInt32 :=
  threadsLeft (s.clients.entries.map fun e => (e.2.processId, e.2.threadId)) pid tid threads

def buryProcess (pid : UInt32) : WindowServer :=
  let dead := (s.threads.entries.filter fun t => t.2 = pid).map (·.1)
  let windows := (s.windowStates.entries.filter fun w => w.2.tid ∈ dead).map (·.1)
  { s with
    windowStates := s.windowStates.retain fun _ ws => ws.tid ∉ dead
    clipboardListeners := s.clipboardListeners.retain fun h _ => h ∉ windows
    windowProperties := s.windowProperties.retain fun key _ => key.1 ∉ windows
    threads := s.threads.retain fun tid _ => tid ∉ dead
    processes := s.processes.erase pid }

def disconnectClient : WindowServer :=
  let client := (s.clients.get? fd).getD ⟨0, 0⟩
  let pid := client.processId
  let tid := client.threadId
  let s := { s with clients := s.clients.erase fd }
  if pid ≠ 0 ∧ tid ≠ 0 then
    let s := { s with processes := s.processes.modify pid (s.remainingThreads pid tid) }
    if (s.processes.get? pid).getD [] = [] then s.buryProcess pid else s
  else s

end WindowServer

/-- The requests on the window table. `elsewhere` is any other request: it may
leave clients, processes, classes and atoms in any state. -/
inductive WindowRequest
  | createWindow (fd : Int32) (req : CreateWindowRequest)
  | setParent (handle parent : UInt32)
  | destroyWindow (handle : UInt32)
  | allocUserHandle (fd : Int32)
  | freeUserHandle (handle : UInt32)
  | disconnect (fd : Int32)
  | elsewhere (after : Surroundings)

namespace WindowServer

def handle (s : WindowServer) : WindowRequest → Outcome
  | .createWindow fd req => s.handleCreateWindow fd req
  | .setParent handle parent => s.handleSetParent handle parent
  | .destroyWindow handle => s.handleDestroyWindow handle
  | .allocUserHandle fd => s.handleAllocUserHandle fd
  | .freeUserHandle handle => s.handleFreeUserHandle handle
  | .disconnect fd => ⟨[], s.disconnectClient fd, .ok⟩
  | .elsewhere after => ⟨[], { s with toSurroundings := after }, .ok⟩

def step (s : WindowServer) (request : WindowRequest) : WindowServer := (s.handle request).server

/-- The server as `EventLoop::new` leaves it: the two desktop windows exist, with
the first two user handles. -/
def startup (around : Surroundings) (desktopRect : Rect) (sharedBase : Nat) : WindowServer :=
  let bare : WindowServer :=
    { toSurroundings := around, windowStates := .empty, desktopTopWindow := 0
      desktopMsgWindow := 0, nextUserHandleIndex := 0, userHandleFreeList := []
      nextSharedOffset := sharedBase, nextSharedId := 0x101, userEntries := .empty
      windowProperties := .empty, clipboardListeners := .empty }
  let (top, s) := bare.allocSharedObject.2.allocUserHandle ntuserObjWindow 0 0
  let s := { s with
    desktopTopWindow := top
    windowStates := s.windowStates.insert top (rootWindow 0x96000000 0 desktopRect) }
  let (msg, s) := s.allocSharedObject.2.allocUserHandle ntuserObjWindow 0 0
  { s with
    desktopMsgWindow := msg
    windowStates := s.windowStates.insert msg (rootWindow 0 0 Rect.zero) }

/-- `None` while the loop has not ended within `fuel` turns. -/
def getTopClippingWindow (s : WindowServer) : Nat → UInt32 → Option UInt32
  | 0, _ => none
  | fuel + 1, win =>
    match s.windowStates.get? win with
    | none => some win
    | some ws =>
      if ws.paintFlags &&& paintHasSurface ≠ 0 then some win
      else if ws.parent = 0 ∨ ws.parent = s.desktopTopWindow then some win
      else getTopClippingWindow s fuel ws.parent

def collectWindowChildren (s : WindowServer) : Nat → UInt32 → List UInt32 → Option (List UInt32)
  | 0, _, _ => none
  | fuel + 1, parent, out =>
    s.windowStates.entries.foldlM (fun out entry =>
      if entry.2.parent = parent ∧ entry.1 ≠ parent then
        collectWindowChildren s fuel entry.1 (out ++ [entry.1])
      else some out) out

def childAt (s : WindowServer) (parent : UInt32) (x y : Int32) : Option (UInt32 × WindowState) :=
  s.windowStates.entries.find? fun entry =>
    entry.2.parent = parent ∧ entry.1 ≠ parent ∧ entry.2.windowRect.contains x y

/-- `None` while the recursion has not ended within depth `fuel`. -/
def childFromPoint (s : WindowServer) :
    Nat → UInt32 → Int32 → Int32 → List UInt32 → Option (List UInt32)
  | 0, _, _, _, _ => none
  | fuel + 1, parent, x, y, chain =>
    match s.childAt parent x y with
    | none => some chain
    | some (h, ws) =>
      childFromPoint s fuel h (x - ws.clientRect.left) (y - ws.clientRect.top) (chain ++ [h])

end WindowServer
end Triskelion
