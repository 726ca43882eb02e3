import Triskelion.SentTracking
import Triskelion.TeardownTiming

/-! The tables of the event loop that are keyed by processes, threads, windows and client
descriptors, the requests that fill them, and what a disconnect takes out of them
(`client.rs`, `window.rs`, `thread.rs`, `sync.rs`, `completion.rs`, `pipes.rs`). The tables
that a disconnect purges in one and the same way stand in two families, `PidTable` and
`FdTable`: any request may leave anything in them. -/

namespace Triskelion.DaemonTables

open Lifecycle (Window clientPid clientTid ends)

/-! ### The tables -/

/-- `due` is `when` in milliseconds, `rate` is `rate_ms`. -/
structure WinTimer where
  due : Nat
  rate : Nat
  win : UInt32
  msg : UInt32
  id : UInt64
  lparam : UInt64
deriving DecidableEq

structure UserOwner where
  tid : UInt32
  pid : UInt32
deriving DecidableEq

/-- `owner` is not in the code: the process of the client that waits. -/
structure PendingWait where
  deadline : Nat
  clientFd : Int
  cookie : UInt64
  owner : UInt32
deriving DecidableEq

structure CompletionWaiter where
  clientFd : Int
  pid : UInt32
  waitHandle : UInt32
deriving DecidableEq

/-- `thread` is not in the code: the thread that waits. -/
structure PendingPipeWaiter where
  pid : UInt32
  waitHandle : UInt32
  thread : UInt32
deriving DecidableEq

/-- The tables of a process that go with it, each by its pid. -/
inductive PidTable
  | processInflightFds | ntsyncObjects | ntsyncRecyclable | pendingReads | completedIoctls
  | kernelObjectPtrs | processWinstations | pipeHandles | ioWaitHandles | fdSent
  | completionBindings | ntTimers | pendingPipeReads | completedPipeReads | namedPipes
  | notifyList | processIdleEvents | processExitEvents | processJob | systemPids | imageViews
  | processInfoHandles
deriving DecidableEq

/-- The tables of a client that go with it, each by its descriptor. -/
inductive FdTable
  | clientAlerts | clientWorkerInterrupts | clientApcFlags | deferredEventSignals | pendingWakes
  | pendingKernelApcs | threadCompletionCache | threadExitEvents
deriving DecidableEq

/-- An entry of `pidTables` is one of the named table, for the process and the rest of the
key; what it holds is a number here. -/
structure State where
  core : Lifecycle.State
  userHandleFreeList : List UInt32
  nextUserHandleIndex : UInt32
  userEntries : Table UInt32 UserOwner
  windowProperties : Table (UInt32 × UInt32) UInt64
  clipboardListeners : Table UInt32 Unit
  winTimersPending : Table UInt32 (List WinTimer)
  winTimersExpired : Table UInt32 (List WinTimer)
  nextTimerIds : Table UInt32 UInt64
  caretState : Table UInt32 UInt32
  threadQuitState : Table UInt32 UInt32
  threadHandleTids : Table UInt32 UInt32
  sentMessages : SentMessages
  pendingWaits : List PendingWait
  completionWaiters : Table UInt32 (List CompletionWaiter)
  pendingPipeWaiters : Table String (List PendingPipeWaiter)
  pidTables : Table (PidTable × UInt32 × UInt64) Nat
  fdTables : Table (FdTable × Int) Nat

/-- The two desktop windows have the first two user handles, and no owner. -/
def State.start : State where
  core := .start 0x20 0x22 ((Table.empty.insert 0x20 ⟨0, 0⟩).insert 0x22 ⟨0, 0⟩)
  userHandleFreeList := []
  nextUserHandleIndex := 2
  userEntries := (Table.empty.insert 0 ⟨0, 0⟩).insert 1 ⟨0, 0⟩
  windowProperties := .empty
  clipboardListeners := .empty
  winTimersPending := .empty
  winTimersExpired := .empty
  nextTimerIds := .empty
  caretState := .empty
  threadQuitState := .empty
  threadHandleTids := .empty
  sentMessages := ⟨.empty, .empty⟩
  pendingWaits := []
  completionWaiters := .empty
  pendingPipeWaiters := .empty
  pidTables := .empty
  fdTables := .empty

/-! ### Windows and user handles -/

def takeIndex (s : State) : UInt32 × State :=
  match s.userHandleFreeList with
  | recycled :: rest => (recycled, { s with userHandleFreeList := rest })
  | [] => (s.nextUserHandleIndex, { s with nextUserHandleIndex := s.nextUserHandleIndex + 1 })

section
variable (s : State) (fd : Int)

def allocUserHandle : UInt32 × State :=
  let taken := takeIndex s
  (handleOfIndex taken.1, { taken.2 with
    userEntries := taken.2.userEntries.insert taken.1 ⟨clientTid s.core fd, clientPid s.core fd⟩ })

/-- `parent` is the one that the request comes to. -/
def handleCreateWindow (parent : UInt32) : State :=
  let made := allocUserHandle s fd
  { made.2 with core := { made.2.core with
      windowStates := made.2.core.windowStates.insert made.1 ⟨clientTid s.core fd, parent⟩ } }

def handleDestroyWindow (handle : UInt32) : State :=
  let parent := ((s.core.windowStates.get? handle).map Window.parent).getD 0
  let adopted := s.core.windowStates.mapValues fun child =>
    if child.parent = handle then { child with parent } else child
  { s with
    core := { s.core with windowStates := adopted.erase handle }
    windowProperties := s.windowProperties.retain fun key _ => key.1 ≠ handle
    clipboardListeners := s.clipboardListeners.erase handle
    userHandleFreeList :=
      if firstUserHandle ≤ handle then indexOfHandle handle :: s.userHandleFreeList
      else s.userHandleFreeList }

def handleFreeUserHandle (handle : UInt32) : State :=
  if handle < firstUserHandle ∨ s.nextUserHandleIndex ≤ indexOfHandle handle then s
  else { s with
    userHandleFreeList := indexOfHandle handle :: s.userHandleFreeList
    core := { s.core with windowStates := s.core.windowStates.erase handle } }

def reassignUserHandleOwner (entries : Table UInt32 UserOwner) (handle : UInt32)
    (owner : UserOwner) : Table UInt32 UserOwner :=
  if handle < firstUserHandle then entries else entries.insert (indexOfHandle handle) owner

/-- A process that nobody made gets the user handles of the desktop. -/
def handleInitFirstThread (slot : Bool) : State :=
  let claimed := Lifecycle.claim s.core fd
  let thread := Lifecycle.threadOf claimed.2 fd claimed.1
  { s with
    core := Lifecycle.handleInitFirstThread s.core fd slot
    userEntries :=
      if slot = false ∨ Lifecycle.isUnparented s.core fd = false then s.userEntries
      else reassignUserHandleOwner
        (reassignUserHandleOwner s.userEntries s.core.desktopTopWindow ⟨thread.1, claimed.1⟩)
        s.core.desktopMsgWindow ⟨thread.1, claimed.1⟩ }

/-! ### Window timers -/

structure TimerRequest where
  win : UInt32
  msg : UInt32
  id : UInt64
  rate : Nat
  lparam : UInt64

def userTimerMinimum : Nat := 10

def timerThread (win : UInt32) : Option UInt32 :=
  if clientTid s.core fd = 0 then none
  else if win = 0 then some (clientTid s.core fd)
  else (s.core.windowStates.get? win).map Window.tid

section
variable (req : TimerRequest)

def withoutTimer (timers : List WinTimer) : List WinTimer :=
  timers.filter fun t => ¬ (t.win = req.win ∧ t.msg = req.msg ∧ t.id = req.id)

def pushTimer (timers : Table UInt32 (List WinTimer)) (tid : UInt32) (timer : WinTimer) :
    Table UInt32 (List WinTimer) :=
  timers.insert tid ((timers.get? tid).getD [] ++ [timer])

def timerId (tid : UInt32) (req : TimerRequest) : UInt64 × Table UInt32 UInt64 :=
  if req.win = 0 ∧ req.id = 0 then
    let next := (s.nextTimerIds.get? tid).getD 0x7fff
    (next, s.nextTimerIds.insert tid (if next - 1 ≤ 0x100 then 0x7fff else next - 1))
  else (req.id, s.nextTimerIds)

def handleSetWinTimer (now : Nat) : State :=
  match timerThread s fd req.win with
  | none => s
  | some tid =>
    let rate := max req.rate userTimerMinimum
    let named := timerId s tid req
    { s with
      winTimersPending := pushTimer (s.winTimersPending.modify tid (withoutTimer req)) tid
        ⟨now + rate, rate, req.win, req.msg, named.1, req.lparam⟩
      winTimersExpired := s.winTimersExpired.modify tid (withoutTimer req)
      nextTimerIds := named.2 }

def handleKillWinTimer : State :=
  match timerThread s fd req.win with
  | none => s
  | some tid => { s with
      winTimersPending := s.winTimersPending.modify tid (withoutTimer req)
      winTimersExpired := s.winTimersExpired.modify tid (withoutTimer req) }

end

def expireTimers (now : Nat) (expired : Table UInt32 (List WinTimer))
    (e : UInt32 × List WinTimer) : Table UInt32 (List WinTimer) :=
  let due := e.2.filter fun t => t.due ≤ now
  if due = [] then expired else expired.insert e.1 ((expired.get? e.1).getD [] ++ due)

def checkWinTimers (now : Nat) : State :=
  { s with
    winTimersPending := s.winTimersPending.mapValues fun l => l.filter fun t => ¬ t.due ≤ now
    winTimersExpired := s.winTimersPending.entries.foldl (expireTimers now) s.winTimersExpired }

/-- `quit` and `timer` are whether the request comes to look for a quit message, and for an
expired timer: both are after the posted messages, and only if its filter asks for them. -/
def handleGetMessage (quit timer remove : Bool) (now : Nat) : State :=
  let tid := clientTid s.core fd
  if tid = 0 then s
  else if quit ∧ s.threadQuitState.contains tid then
    if remove then { s with threadQuitState := s.threadQuitState.erase tid } else s
  else
    match if timer then (s.winTimersExpired.get? tid).getD [] else [] with
    | [] => s
    | first :: rest =>
      if remove then { s with
        winTimersExpired := s.winTimersExpired.insert tid rest
        winTimersPending :=
          pushTimer s.winTimersPending tid { first with due := now + first.rate } }
      else s

/-! ### Threads -/

/-- A caret of a client without a thread is kept under 0. -/
def handleSetCaretWindow (handle : UInt32) : State :=
  { s with caretState :=
      if handle ≠ 0 then s.caretState.insert (clientTid s.core fd) handle
      else s.caretState.erase (clientTid s.core fd) }

def handleSetCaretInfo (handle : UInt32) : State :=
  { s with caretState := s.caretState.insert (clientTid s.core fd) handle }

def handlePostQuitMessage (exitCode : UInt32) : State :=
  if clientTid s.core fd = 0 then s
  else { s with threadQuitState := s.threadQuitState.insert (clientTid s.core fd) exitCode }

def nextThread (pid last : UInt32) (backwards : Bool) : Option UInt32 :=
  nextThreadOf ((s.core.threads.entries.filter fun e => e.2 = pid).map Prod.fst) last
    (s.threadHandleTids.get? last) backwards

/-- The handle is one of the caller, the map is one for all. -/
def handleGetNextThread (last : UInt32) (backwards : Bool) : State :=
  let pid := clientPid s.core fd
  match nextThread s pid last backwards, s.core.processes.get? pid with
  | some tid, some p =>
    let made := p.handles.allocate tid.toUInt64
    let s := { s with core := Lifecycle.setHandles s.core pid made.2 }
    if made.1 = 0 then s else { s with threadHandleTids := s.threadHandleTids.insert made.1 tid }
  | _, _ => s

/-! ### Waits -/

def insertWait (w : PendingWait) : List PendingWait → List PendingWait
  | [] => [w]
  | x :: l => if w.deadline < x.deadline then w :: x :: l else x :: insertWait w l

def handleSelect (cookie : UInt64) (deadline : Nat) : State :=
  { s with pendingWaits := insertWait ⟨deadline, fd, cookie, clientPid s.core fd⟩ s.pendingWaits }

def checkPendingWaits (now : Nat) : State :=
  { s with pendingWaits := s.pendingWaits.dropWhile fun w =>
      !s.core.clients.contains w.clientFd || decide (w.deadline ≤ now) }

def handleRemoveCompletion (port : UInt32) : State :=
  let waiters := (s.completionWaiters.get? port).getD []
  { s with completionWaiters :=
      s.completionWaiters.insert port (waiters ++ [⟨fd, clientPid s.core fd, port⟩]) }

def handleAddCompletion (port : UInt32) : State :=
  match (s.completionWaiters.get? port).map List.dropLast with
  | some [] => { s with completionWaiters :=
      if s.completionWaiters.get? port = some [] then s.completionWaiters
      else s.completionWaiters.erase port }
  | some rest => { s with completionWaiters := s.completionWaiters.insert port rest }
  | none => s

/-- A wait for a pipe that nobody listens on. `event` is the event that the kernel makes. -/
def handlePipeWait (name : String) (event : Option Nat) : State :=
  let pid := clientPid s.core fd
  match event with
  | none => s
  | some event =>
    let made := Lifecycle.allocWaitableHandle s.core pid (some (-1)) s.core.nextObjectId
    let s := { s with core := made.2 }
    if made.1 = 0 then s
    else { s with
      pidTables := s.pidTables.insert (.ntsyncObjects, pid, made.1.toUInt64) event
      pendingPipeWaiters := s.pendingPipeWaiters.insert name
        ((s.pendingPipeWaiters.get? name).getD [] ++ [⟨pid, made.1, clientTid s.core fd⟩]) }

def wakePipeWaiters (name : String) : State :=
  { s with pendingPipeWaiters := s.pendingPipeWaiters.erase name }

end

/-! ### Disconnecting -/

def deadWindow (s : Lifecycle.State) (pid handle : UInt32) : Bool :=
  (s.windowStates.get? handle).any fun w => s.threads.get? w.tid = some pid

section
variable (s : State)

def endThread (fd : Int) : State :=
  let pid := clientPid s.core fd
  let tid := clientTid s.core fd
  { s with
    -- the waiters of all threads of the process, though only one of them exits
    pendingPipeWaiters :=
      if pid = 0 then s.pendingPipeWaiters
      else (s.pendingPipeWaiters.mapValues fun l => l.filter fun w => w.pid ≠ pid).retain
        fun _ l => l ≠ []
    caretState := if tid = 0 then s.caretState else s.caretState.erase tid
    nextTimerIds := if tid = 0 then s.nextTimerIds else s.nextTimerIds.erase tid
    threadQuitState := if tid = 0 then s.threadQuitState else s.threadQuitState.erase tid
    sentMessages :=
      if tid = 0 then s.sentMessages else (s.sentMessages.drainAllForReceiver tid).2
    completionWaiters := s.completionWaiters.mapValues fun l => l.filter fun w => w.clientFd ≠ fd
    fdTables := s.fdTables.retain fun k _ => k.2 ≠ fd }

def endProcess (pid : UInt32) : State :=
  { s with
    windowProperties := s.windowProperties.retain fun k _ => !deadWindow s.core pid k.1
    clipboardListeners := s.clipboardListeners.retain fun h _ => !deadWindow s.core pid h
    -- the keys of these two are thread ids
    winTimersPending := s.winTimersPending.retain fun h _ => !deadWindow s.core pid h
    winTimersExpired := s.winTimersExpired.retain fun h _ => !deadWindow s.core pid h
    pidTables := s.pidTables.retain fun k _ => k.2.1 ≠ pid }

def disconnectClient (fd : Int) : State :=
  let left := endThread s fd
  let t := if ends s.core fd then endProcess left (clientPid s.core fd) else left
  { t with core := Lifecycle.disconnectClient s.core fd }

/-! ### Runs -/

inductive Event
  | core (e : Lifecycle.Event)
  | createWindow (fd : Int) (parent : UInt32)
  | destroyWindow (handle : UInt32)
  | allocUserHandle (fd : Int)
  | freeUserHandle (handle : UInt32)
  | setWindowProperty (window atom : UInt32) (data : UInt64)
  | removeWindowProperty (window atom : UInt32)
  | addClipboardListener (window : UInt32)
  | setWinTimer (fd : Int) (req : TimerRequest) (now : Nat)
  | killWinTimer (fd : Int) (req : TimerRequest)
  | checkWinTimers (now : Nat)
  | getMessage (fd : Int) (quit timer remove : Bool) (now : Nat)
  | setCaretWindow (fd : Int) (handle : UInt32)
  | setCaretInfo (fd : Int) (handle : UInt32)
  | postQuitMessage (fd : Int) (exitCode : UInt32)
  | trackSent (msg : PendingSentMessage)
  | replyMessage (fd : Int) (result : UInt64)
  | getNextThread (fd : Int) (last : UInt32) (backwards : Bool)
  | select (fd : Int) (cookie : UInt64) (deadline : Nat)
  | checkPendingWaits (now : Nat)
  | removeCompletion (fd : Int) (port : UInt32)
  | addCompletion (port : UInt32)
  | pipeWait (fd : Int) (name : String) (event : Option Nat)
  | wakePipeWaiters (name : String)
  | fill (pids : Table (PidTable × UInt32 × UInt64) Nat) (fds : Table (FdTable × Int) Nat)

def act : Lifecycle.Event → State
  | .initFirstThread fd slot => handleInitFirstThread s fd slot
  | .disconnect fd => disconnectClient s fd
  | e => { s with core := Lifecycle.act s.core e }

def Event.sender : Event → Option Int
  | .createWindow fd _ | .allocUserHandle fd | .setWinTimer fd _ _ | .killWinTimer fd _
  | .getMessage fd _ _ _ _ | .setCaretWindow fd _ | .setCaretInfo fd _ | .postQuitMessage fd _
  | .replyMessage fd _ | .getNextThread fd _ _ | .select fd _ _ | .removeCompletion fd _
  | .pipeWait fd _ _ => some fd
  | _ => none

def answers : Event → Bool
  | .core e => Lifecycle.answers s.core e
  | e => e.sender.all s.core.clients.contains

def handle : Event → State
  | .core e => act s e
  | .createWindow fd parent => handleCreateWindow s fd parent
  | .destroyWindow handle => handleDestroyWindow s handle
  | .allocUserHandle fd => (allocUserHandle s fd).2
  | .freeUserHandle handle => handleFreeUserHandle s handle
  | .setWindowProperty window atom data =>
    { s with windowProperties := s.windowProperties.insert (window, atom) data }
  | .removeWindowProperty window atom =>
    { s with windowProperties := s.windowProperties.erase (window, atom) }
  | .addClipboardListener window =>
    { s with clipboardListeners := s.clipboardListeners.insert window () }
  | .setWinTimer fd req now => handleSetWinTimer s fd req now
  | .killWinTimer fd req => handleKillWinTimer s fd req
  | .checkWinTimers now => checkWinTimers s now
  | .getMessage fd quit timer remove now => handleGetMessage s fd quit timer remove now
  | .setCaretWindow fd handle => handleSetCaretWindow s fd handle
  | .setCaretInfo fd handle => handleSetCaretInfo s fd handle
  | .postQuitMessage fd exitCode => handlePostQuitMessage s fd exitCode
  | .trackSent msg => { s with sentMessages := s.sentMessages.track msg }
  | .replyMessage fd result =>
    let tid := clientTid s.core fd
    match if tid = 0 then none else s.sentMessages.drainOneWithCode tid with
    | some ((_, code), left) => { s with sentMessages := left.observeReply code result }
    | none => s
  | .getNextThread fd last backwards => handleGetNextThread s fd last backwards
  | .select fd cookie deadline => handleSelect s fd cookie deadline
  | .checkPendingWaits now => checkPendingWaits s now
  | .removeCompletion fd port => handleRemoveCompletion s fd port
  | .addCompletion port => handleAddCompletion s port
  | .pipeWait fd name event => handlePipeWait s fd name event
  | .wakePipeWaiters name => wakePipeWaiters s name
  | .fill pids fds => { s with pidTables := pids, fdTables := fds }

def step (e : Event) : State := if answers s e then handle s e else s

end

end Triskelion.DaemonTables
