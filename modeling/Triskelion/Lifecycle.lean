import Mathlib.Algebra.Group.Nat.Defs
import Triskelion.ObjectIds

/-! Connections, processes and threads (`thread.rs`, `process.rs`, `client.rs`,
`objects.rs`, and the registration of clients in `csp_loop.rs`). A client is a connection
of one thread; its process and thread ids are written by the handlers here and by nothing
else. Where the code takes any entry of a hash map, the request names the one it gets. -/

namespace Triskelion.Lifecycle

open Table Option List

/-- The last two fields are not in the code: the number of the connection, and the thread
id that the client was given when it introduced itself. -/
structure Client where
  processId : UInt32
  threadId : UInt32
  connection : Nat
  given : Option UInt32
deriving DecidableEq

/-- The last two fields are not in the code: whether `new_process` made the process, and
the connection that claimed it. -/
structure Process where
  threads : List UInt32
  claimed : Bool
  startupDone : Bool
  exitCode : UInt32
  parentPid : UInt32
  handles : HandleTable
  spawned : Bool
  claimant : Option Nat

structure Window where
  tid : UInt32
  parent : UInt32
deriving DecidableEq

/-- `threads` gives the process of a thread. -/
structure State where
  clients : Table Int Client
  processes : Table UInt32 Process
  threads : Table UInt32 UInt32
  nextPtid : UInt32
  nextObjectId : UInt64
  unclaimedPids : List UInt32
  bootProcessClaimed : Bool
  desktopTopWindow : UInt32
  desktopMsgWindow : UInt32
  windowStates : Table UInt32 Window
  nextConnection : Nat

def State.start (desktopTop desktopMsg : UInt32) (windows : Table UInt32 Window) : State where
  clients := .empty
  processes := .empty
  threads := .empty
  nextPtid := 0
  nextObjectId := 0x1002
  unclaimedPids := []
  bootProcessClaimed := false
  desktopTopWindow := desktopTop
  desktopMsgWindow := desktopMsg
  windowStates := windows
  nextConnection := 0

def Process.new (spawned : Bool) : Process where
  threads := []
  claimed := false
  startupDone := false
  exitCode := 259
  parentPid := 0
  handles := .new
  spawned := spawned
  claimant := none

section
variable (s : State)

def createProcess (spawned : Bool) : UInt32 × State :=
  (ptid s.nextPtid, { s with
    nextPtid := s.nextPtid + 1
    processes := s.processes.insert (ptid s.nextPtid) (.new spawned) })

def createThread (pid : UInt32) : UInt32 × State :=
  (ptid s.nextPtid, { s with
    nextPtid := s.nextPtid + 1
    threads := s.threads.insert (ptid s.nextPtid) pid
    processes := s.processes.modify pid fun p =>
      { p with threads := p.threads ++ [ptid s.nextPtid] } })

def clientPid (fd : Int) : UInt32 := ((s.clients.get? fd).map Client.processId).getD 0

def clientTid (fd : Int) : UInt32 := ((s.clients.get? fd).map Client.threadId).getD 0

/-! ### New connections -/

def unusedFd (hint : Int) : Int :=
  if s.clients.contains hint then (s.clients.entries.foldl (fun m e => max m e.1) 0) + 1 else hint

def connect (fd : Int) (pid tid : UInt32) : State :=
  { s with
    clients := s.clients.insert fd ⟨pid, tid, s.nextConnection, none⟩
    nextConnection := s.nextConnection + 1 }

/-- `csp_loop.rs`: a descriptor that is known already is not registered again. -/
def accept (fd : Int) : State :=
  if s.clients.contains fd then s else connect s fd 0 0

/-! ### New processes -/

/-- `handles` are those the child inherits, each with its copied descriptor; `socket` is
what the descriptor of its connection will be, if the parent sent a socket that can be set
up; `efd` and `info` are the descriptors for the two new handles. -/
structure NewProcessRequest where
  handles : List (UInt32 × Option Int)
  socket : Option Int
  efd : Option Int
  info : Option Int

def allocWaitableHandle (pid : UInt32) (efd : Option Int) (objectId : UInt64) : UInt32 × State :=
  let s := { s with nextObjectId := s.nextObjectId + 1 }
  match efd, if pid = 0 then none else s.processes.get? pid with
  | some efd, some p =>
    let made := p.handles.allocateFull ⟨objectId, some efd, fdTypeFile, 0x001F0003, 0x20⟩
    (made.1, { s with processes := s.processes.modify pid fun p => { p with handles := made.2 } })
  | _, _ => (0, s)

def inheritHandle (parent : HandleTable) (child : HandleTable) (h : UInt32 × Option Int) :
    HandleTable :=
  match parent.get h.1 with
  | some entry =>
    ((child.insertAt h.1 { entry with fd := entry.fd.map fun _ => h.2.getD (-1) }).map
      Prod.fst).getD child
  | none => child

def inherited (parent : UInt32) (handles : List (UInt32 × Option Int)) : HandleTable :=
  match s.processes.get? parent with
  | some p => handles.foldl (inheritHandle p.handles) .new
  | none => .new

def spawn (parent : UInt32) (req : NewProcessRequest) : UInt32 × State :=
  let handles := inherited s parent req.handles
  let made := createProcess s true
  let filled := { made.2 with
    processes := made.2.processes.modify made.1 fun p => { p with parentPid := parent, handles } }
  let joined :=
    match req.socket with
    | some hint => connect filled (unusedFd filled hint) made.1 0
    | none => filled
  (made.1, { joined with unclaimedPids := joined.unclaimedPids ++ [made.1] })

structure NewProcessReply where
  info : UInt32
  pid : UInt32
  handle : UInt32

def handleNewProcess (fd : Int) (req : NewProcessRequest) : NewProcessReply × State :=
  let parent := clientPid s fd
  let made := spawn s parent req
  let handle := allocWaitableHandle made.2 parent req.efd made.1.toUInt64
  let info := allocWaitableHandle handle.2 parent req.info handle.2.nextObjectId
  (⟨info.1, made.1, handle.1⟩, info.2)

/-! ### New threads -/

/-- How the new thread is to reach the daemon: through the copy of a pipe that its process
sent (if it could be copied), or, for request descriptor -1, through the connection that
its process has or a pipe that is made for it, or not at all. -/
inductive ThreadPipe
  | inflight (copy : Option Int)
  | ofProcess (pick : Int) (pipe : Option Int)
  | missing

/-- `process` is a handle. `any` is the process that is taken where the caller has none. -/
structure NewThreadRequest where
  process : UInt32
  any : UInt32
  pipe : ThreadPipe
  efd : Option Int

def anyProcess (pick : UInt32) : Option UInt32 :=
  if s.processes.contains pick then some pick else s.processes.entries.head?.map Prod.fst

/-- The object id of the handle, whatever the handle is for. -/
def targetPid (fd : Int) (req : NewThreadRequest) : UInt32 :=
  let caller := clientPid s fd
  if caller = 0 then (anyProcess s req.any).getD 0
  else
    match (s.processes.get? caller).bind fun p => p.handles.get req.process with
    | some entry => entry.objectId.toUInt32
    | none => caller

def findClient (pid : UInt32) (pick : Int) : Option Int :=
  if (s.clients.get? pick).any fun c => c.processId = pid then some pick
  else (s.clients.entries.find? fun e => e.2.processId = pid).map Prod.fst

def connectThread (pid tid : UInt32) : ThreadPipe → State
  | .inflight (some hint) => connect s (unusedFd s hint) pid tid
  | .inflight none => s
  | .ofProcess pick pipe =>
    match findClient s pid pick, pipe with
    -- also a client that has introduced itself, with a thread id of its own
    | some fd, _ => { s with clients := s.clients.modify fd fun c => { c with threadId := tid } }
    | none, some hint => connect s (unusedFd s hint) pid 0
    | none, none => s
  | .missing => s

def handleNewThread (fd : Int) (req : NewThreadRequest) : State :=
  let target := targetPid s fd req
  let made := createThread s target
  let handle := allocWaitableHandle made.2 (clientPid s fd) req.efd made.1.toUInt64
  connectThread handle.2 target made.1 req.pipe

/-! ### Introductions -/

section
variable (fd : Int)

def claimPid : UInt32 × State :=
  if clientPid s fd ≠ 0 then (clientPid s fd, s)
  else
    match s.unclaimedPids with
    | pid :: rest => (pid, { s with unclaimedPids := rest })
    | [] => createProcess s false

def isUnparented : Bool := clientPid s fd = 0 ∧ s.unclaimedPids = []

def claim : UInt32 × State :=
  let chosen := claimPid s fd
  let connection := (s.clients.get? fd).map Client.connection
  (chosen.1, { chosen.2 with
    processes := chosen.2.processes.modify chosen.1 fun p =>
      { p with claimed := true, claimant := p.claimant.or connection }
    unclaimedPids := chosen.2.unclaimedPids.filter fun p => p ≠ chosen.1 })

def threadOf (pid : UInt32) : UInt32 × State :=
  if clientTid s fd ≠ 0 then (clientTid s fd, s) else createThread s pid

def introduce (pid tid : UInt32) : State :=
  { s with clients := s.clients.modify fd fun c =>
      { c with processId := pid, threadId := tid, given := c.given.or (some tid) } }

end

/-- A process that nobody made is given the desktop windows, except the first one. -/
def ownDesktop (unparented : Bool) (tid : UInt32) : State :=
  if unparented = false then s
  else if s.bootProcessClaimed = false then { s with bootProcessClaimed := true }
  else { s with
    windowStates := (s.windowStates.modify s.desktopTopWindow fun w => { w with tid }).modify
      s.desktopMsgWindow fun w => { w with tid } }

/-- `slot` is whether the thread gets a slot for its message queue. Without one the client
keeps the ids it had. -/
def handleInitFirstThread (fd : Int) (slot : Bool) : State :=
  let claimed := claim s fd
  let thread := threadOf claimed.2 fd claimed.1
  if slot = false then thread.2
  else ownDesktop (introduce thread.2 fd claimed.1 thread.1) (isUnparented s fd) thread.1

def joinPid (fd : Int) (pick : UInt32) : UInt32 × State :=
  if clientPid s fd ≠ 0 then (clientPid s fd, s)
  else
    match anyProcess s pick with
    | some pid => (pid, s)
    | none => createProcess s false

def handleInitThread (fd : Int) (pick : UInt32) : State :=
  let joined := joinPid s fd pick
  let thread := threadOf joined.2 fd joined.1
  introduce thread.2 fd joined.1 thread.1

/-! ### The end -/

def handleTerminateProcess (fd : Int) (handle exitCode : UInt32) : State :=
  if (handle = 0 ∨ handle = 0xFFFFFFFF) ∧ clientPid s fd ≠ 0 then
    { s with processes := s.processes.modify (clientPid s fd) fun p =>
        { p with exitCode, threads := p.threads.filter fun t => t = clientTid s fd } }
  else s

def handleInitProcessDone (fd : Int) : State :=
  if clientPid s fd ≠ 0 then
    { s with processes :=
        s.processes.modify (clientPid s fd) fun p => { p with startupDone := true } }
  else s

def connectedTids (pid : UInt32) : List UInt32 :=
  threadsConnected (s.clients.entries.map fun e => (e.2.processId, e.2.threadId)) pid

def leaveProcess (pid tid : UInt32) : State :=
  { s with processes := s.processes.modify pid fun p =>
      { p with threads := threadsLeft (s.clients.entries.map fun e =>
          (e.2.processId, e.2.threadId)) pid tid p.threads } }

def remainingThreads (pid : UInt32) : Nat :=
  ((s.processes.get? pid).map fun p => p.threads.length).getD 0

def tearDown (pid : UInt32) : State :=
  { s with
    windowStates := s.windowStates.retain fun _ w => s.threads.get? w.tid ≠ some pid
    threads := s.threads.retain fun _ p => p ≠ pid
    processes := s.processes.erase pid }

def disconnectClient (fd : Int) : State :=
  let pid := clientPid s fd
  let tid := clientTid s fd
  let gone := { s with clients := s.clients.erase fd }
  if pid ≠ 0 ∧ tid ≠ 0 then
    let left := leaveProcess gone pid tid
    if remainingThreads left pid = 0 then tearDown left pid else left
  else gone

/-! ### Runs -/

/-- Any other request may change the handles of its process and the windows. -/
inductive Event
  | accept (fd : Int)
  | newProcess (fd : Int) (req : NewProcessRequest)
  | newThread (fd : Int) (req : NewThreadRequest)
  | initFirstThread (fd : Int) (slot : Bool)
  | initThread (fd : Int) (pick : UInt32)
  | terminateProcess (fd : Int) (handle exitCode : UInt32)
  | initProcessDone (fd : Int)
  | other (fd : Int) (handles : HandleTable) (windows : Table UInt32 Window)
  | disconnect (fd : Int)

def setHandles (pid : UInt32) (handles : HandleTable) : State :=
  { s with processes := s.processes.modify pid fun p => { p with handles } }

def Event.fd : Event → Int
  | .accept fd | .newProcess fd _ | .newThread fd _ | .initFirstThread fd _ | .initThread fd _
  | .terminateProcess fd _ _ | .initProcessDone fd | .other fd _ _ | .disconnect fd => fd

def act : Event → State
  | .accept fd => accept s fd
  | .newProcess fd req => (handleNewProcess s fd req).2
  | .newThread fd req => handleNewThread s fd req
  | .initFirstThread fd slot => handleInitFirstThread s fd slot
  | .initThread fd pick => handleInitThread s fd pick
  | .terminateProcess fd handle exitCode => handleTerminateProcess s fd handle exitCode
  | .initProcessDone fd => handleInitProcessDone s fd
  | .other fd handles windows =>
    { setHandles s (clientPid s fd) handles with windowStates := windows }
  | .disconnect fd => disconnectClient s fd

def answers : Event → Bool
  | .accept _ => true
  | e => s.clients.contains e.fd

def step (e : Event) : State := if answers s e then act s e else s

/-! ### What an event can do to the clients -/

def threadsOf (pid : UInt32) : Option (List UInt32) :=
  (s.processes.get? pid).map Process.threads

def idsLeft : Bool := s.nextPtid.toNat + 2 ≤ 2 ^ 30 - 8

def Allocated (id : UInt32) : Prop := ∃ i < s.nextPtid.toNat, id.toNat = 4 * (i + 8)

theorem le_foldl_max (l : List (Int × Client)) (m : Int) :
    m ≤ l.foldl (fun m e => max m e.1) m ∧ ∀ e ∈ l, e.1 ≤ l.foldl (fun m e => max m e.1) m := by
  induction l generalizing m with
  | nil => simp
  | cons a l ih =>
    obtain ⟨start, rest⟩ := ih (max m a.1)
    rw [foldl_cons]
    refine ⟨by omega, fun e mem => ?_⟩
    rcases mem_cons.mp mem with rfl | tail
    · omega
    · exact rest e tail

theorem get?_unusedFd (hint : Int) : s.clients.get? (unusedFd s hint) = none := by
  rw [unusedFd]
  split
  · by_contra found
    obtain ⟨c, found⟩ := ne_none_iff_exists'.mp found
    have le := (le_foldl_max s.clients.entries 0).2 _ ((s.clients.mem_entries _ c).mpr found)
    omega
  · next unknown => simpa [Table.contains] using unknown

/-! Creating a thread. -/

@[simp] theorem clients_createThread (pid : UInt32) :
    (createThread s pid).2.clients = s.clients := rfl

theorem threadsOf_createThread (pid q : UInt32) : threadsOf (createThread s pid).2 q =
      if q = pid then (threadsOf s pid).map fun l => l ++ [ptid s.nextPtid] else threadsOf s q := by
  simp only [threadsOf, createThread, get?_modify]
  split
  · simp [Function.comp_def]
  · rfl

end

/-- The states have the same counter, threads and queue, and the same processes up to their
handles. -/
structure SameLists (s t : State) : Prop where
  nextPtid : t.nextPtid = s.nextPtid
  threads : t.threads = s.threads
  unclaimedPids : t.unclaimedPids = s.unclaimedPids
  processes : ∀ q, (t.processes.get? q).map (fun p => { p with handles := .new }) =
    (s.processes.get? q).map fun p => { p with handles := .new }

structure OnlyHandles (s t : State) : Prop extends SameLists s t where
  clients : t.clients = s.clients
  windowStates : t.windowStates = s.windowStates
  nextConnection : t.nextConnection = s.nextConnection

theorem onlyHandles_setHandles (s : State) (pid : UInt32) (handles : HandleTable) :
    OnlyHandles s (setHandles s pid handles) :=
  ⟨⟨rfl, rfl, rfl, fun q => map_get?_modify (fun _ => by rfl) _ _ q⟩, rfl, rfl, rfl⟩

theorem onlyHandles_allocWaitableHandle (s : State) (pid : UInt32) (efd : Option Int)
    (objectId : UInt64) : OnlyHandles s (allocWaitableHandle s pid efd objectId).2 := by
  unfold allocWaitableHandle
  dsimp only
  split
  · exact ⟨⟨rfl, rfl, rfl, (onlyHandles_setHandles s pid _).processes⟩, rfl, rfl, rfl⟩
  · exact ⟨⟨rfl, rfl, rfl, fun _ => rfl⟩, rfl, rfl, rfl⟩

variable {u : State} {id pid : UInt32} {c : Client} {fd : Int}

theorem SameLists.trans {s t : State} (first : SameLists s t) (second : SameLists t u) :
    SameLists s u where
  nextPtid := second.nextPtid.trans first.nextPtid
  threads := second.threads.trans first.threads
  unclaimedPids := second.unclaimedPids.trans first.unclaimedPids
  processes q := (second.processes q).trans (first.processes q)

theorem OnlyHandles.trans {s t : State} (first : OnlyHandles s t) (second : OnlyHandles t u) :
    OnlyHandles s u where
  toSameLists := first.toSameLists.trans second.toSameLists
  clients := second.clients.trans first.clients
  windowStates := second.windowStates.trans first.windowStates
  nextConnection := second.nextConnection.trans first.nextConnection

theorem onlyHandles_handleNewProcess (s : State) (fd : Int) (req : NewProcessRequest) :
    OnlyHandles (spawn s (clientPid s fd) req).2 (handleNewProcess s fd req).2 :=
  (onlyHandles_allocWaitableHandle _ _ _ _).trans (onlyHandles_allocWaitableHandle _ _ _ _)

theorem SameLists.threadsOf {s t : State} (same : SameLists s t) (q : UInt32) :
    threadsOf t q = threadsOf s q := by
  have eq := congrArg (Option.map Process.threads) (same.processes q)
  simp only [Option.map_map, Function.comp_def] at eq
  exact eq

variable {tid : UInt32} {pipe : ThreadPipe}

theorem sameLists_connectThread (s : State) : SameLists s (connectThread s pid tid pipe) := by
  unfold connectThread
  split
  · exact ⟨rfl, rfl, rfl, fun _ => rfl⟩
  · exact ⟨rfl, rfl, rfl, fun _ => rfl⟩
  · split <;> exact ⟨rfl, rfl, rfl, fun _ => rfl⟩
  · exact ⟨rfl, rfl, rfl, fun _ => rfl⟩

theorem sameLists_handleNewThread (s : State) (fd : Int) (req : NewThreadRequest) :
    SameLists (createThread s (targetPid s fd req)).2 (handleNewThread s fd req) :=
  (onlyHandles_allocWaitableHandle _ _ _ _).toSameLists.trans (sameLists_connectThread _)

theorem findClient_congr {s t : State} (clients : t.clients = s.clients)
    (pick : Int) : findClient t pid pick = findClient s pid pick := by
  rw [findClient, findClient, clients]

def Fresh (s t : State) (id : UInt32) : Prop :=
  ∃ i, s.nextPtid.toNat ≤ i ∧ i < t.nextPtid.toNat ∧ id.toNat = 4 * (i + 8)

/-- A thread id that an event gives out, for a thread of the process. -/
structure Minted (s t : State) (pid tid : UInt32) : Prop where
  fresh : Fresh s t tid
  home : t.threads.get? tid = some pid
  listed : ∀ l, threadsOf t pid = some l → tid ∈ l

def retoldClient (s : State) : Event → Option Int
  | .newThread fd ⟨process, any, .ofProcess pick pipe, efd⟩ =>
    findClient s (targetPid s fd ⟨process, any, .ofProcess pick pipe, efd⟩) pick
  | _ => none

def Targeted (s : State) (e : Event) (pid : UInt32) : Prop :=
  ∃ fd req, e = .newThread fd req ∧ pid = targetPid s fd req

/-- Where a client without a process gets one when it introduces itself. -/
inductive PidSource (s t : State) (pid : UInt32) : Prop
  | fresh (new : Fresh s t pid)
  | queued (mem : pid ∈ s.unclaimedPids)
  | present (known : s.processes.contains pid)

/-- Every event changes the entry of at most one descriptor. -/
inductive ClientChange (s : State) (e : Event) (t : State) : Prop
  | same (clients : t.clients = s.clients)
  | joined (fd : Int) (pid : UInt32) (unused : s.clients.get? fd = none)
      (process : pid = 0 ∨ Fresh s t pid ∨ Targeted s e pid)
      (clients : t.clients = s.clients.insert fd ⟨pid, 0, s.nextConnection, none⟩)
  | made (fd : Int) (pid tid : UInt32) (unused : s.clients.get? fd = none)
      (target : Targeted s e pid) (minted : Minted s t pid tid)
      (clients : t.clients = s.clients.insert fd ⟨pid, tid, s.nextConnection, none⟩)
  | retold (fd : Int) (c : Client) (tid : UInt32) (told : retoldClient s e = some fd)
      (found : s.clients.get? fd = some c) (target : Targeted s e c.processId)
      (minted : Minted s t c.processId tid)
      (clients : t.clients = s.clients.insert fd { c with threadId := tid })
  | introduced (fd : Int) (c : Client) (pid tid : UInt32) (found : s.clients.get? fd = some c)
      (process : c.processId ≠ 0 ∧ pid = c.processId ∨ c.processId = 0 ∧ PidSource s t pid)
      (thread : c.threadId ≠ 0 ∧ tid = c.threadId ∨ c.threadId = 0 ∧ Minted s t pid tid)
      (clients : t.clients = s.clients.insert fd
        ⟨pid, tid, c.connection, c.given.or (some tid)⟩)
  | left (fd : Int) (event : e = .disconnect fd) (clients : t.clients = s.clients.erase fd)

variable {s t : State}

theorem idsLeft_iff : idsLeft s ↔ s.nextPtid.toNat + 2 ≤ 2 ^ 30 - 8 := by
  rw [idsLeft, decide_eq_true_eq]

section Ids
variable {index : UInt32}

theorem toNat_succ (small : index.toNat < 2 ^ 30 - 8) : (index + 1).toNat = index.toNat + 1 := by
  simp
  omega

theorem toNat_nextPtid_succ (left : idsLeft s) : (s.nextPtid + 1).toNat = s.nextPtid.toNat + 1 := by
  have small := idsLeft_iff.mp left
  exact toNat_succ (by omega)

theorem toNat_ptid (small : index.toNat < 2 ^ 30 - 8) :
    (ptid index).toNat = 4 * (index.toNat + 8) := by
  rw [ptid]
  simp
  omega

theorem Allocated.ne_ptid (known : Allocated s id) (later : s.nextPtid.toNat ≤ index.toNat)
    (small : index.toNat < 2 ^ 30 - 8) : id ≠ ptid index := by
  rintro rfl
  obtain ⟨i, below, eq⟩ := known
  rw [toNat_ptid small] at eq
  omega

end Ids

theorem Allocated.ne_next (known : Allocated s id) (left : idsLeft s) : id ≠ ptid s.nextPtid := by
  have small := idsLeft_iff.mp left
  exact known.ne_ptid (Nat.le_refl _) (by omega)

/-- The thread is created in a state that has given out at most one id since `s`, and
nothing but clients and handles changes after that. -/
theorem minted_createThread (left : idsLeft s)
    (first : u.nextPtid = s.nextPtid ∨ u.nextPtid = s.nextPtid + 1)
    (next : t.nextPtid = u.nextPtid + 1) (threads : t.threads = (createThread u pid).2.threads)
    (lists : threadsOf t pid = threadsOf (createThread u pid).2 pid) :
    Minted s t pid (ptid u.nextPtid) := by
  have small := idsLeft_iff.mp left
  have succ := toNat_nextPtid_succ left
  have bound : s.nextPtid.toNat ≤ u.nextPtid.toNat ∧ u.nextPtid.toNat ≤ s.nextPtid.toNat + 1 := by
    rcases first with same | more
    · rw [same]
      omega
    · rw [more]
      omega
  have nextNat : t.nextPtid.toNat = u.nextPtid.toNat + 1 := by
    rw [next, toNat_succ (by omega)]
  refine ⟨⟨u.nextPtid.toNat, bound.1, by omega, toNat_ptid (by omega)⟩, ?_, fun l found => ?_⟩
  · rw [threads]
    exact (get?_insert _ _ _ _).trans (if_pos rfl)
  rw [lists, threadsOf_createThread, if_pos rfl] at found
  obtain ⟨old, -, rfl⟩ := map_eq_some_iff.mp found
  simp

theorem findClient_some {pid : UInt32} {pick fd : Int} (found : findClient s pid pick = some fd) :
    ∃ c, s.clients.get? fd = some c ∧ c.processId = pid := by
  rw [findClient] at found
  split at found
  · next picked =>
    cases found
    cases at_fd : s.clients.get? pick with
    | none => simp [at_fd] at picked
    | some c => exact ⟨c, rfl, by simpa [at_fd] using picked⟩
  · obtain ⟨e, at_e, rfl⟩ := map_eq_some_iff.mp found
    have mem := mem_of_find?_eq_some at_e
    have eq := find?_some at_e
    exact ⟨e.2, (s.clients.mem_entries _ _).mp mem, by simpa using eq⟩

variable {e : Event}

theorem clientChange_accept : ClientChange s e (accept s fd) := by
  rw [accept]
  split
  · exact .same rfl
  · next unknown => exact .joined fd 0 (by simpa [Table.contains] using unknown) (.inl rfl) rfl

theorem nextPtid_handleNewProcess (s : State) (fd : Int) (req : NewProcessRequest) :
    (handleNewProcess s fd req).2.nextPtid = s.nextPtid + 1 := by
  rw [(onlyHandles_handleNewProcess s fd req).nextPtid]
  simp only [spawn]
  split <;> rfl

theorem fresh_ptid (left : idsLeft s) (next : t.nextPtid = s.nextPtid + 1) :
    Fresh s t (ptid s.nextPtid) := by
  have small := idsLeft_iff.mp left
  refine ⟨s.nextPtid.toNat, Nat.le_refl _, ?_, toNat_ptid (by omega)⟩
  rw [next, toNat_succ (by omega)]
  omega

theorem clientChange_handleNewProcess (left : idsLeft s)
    (req : NewProcessRequest) : ClientChange s e (handleNewProcess s fd req).2 := by
  have clients := (onlyHandles_handleNewProcess s fd req).clients
  cases socket : req.socket with
  | none =>
    refine .same (clients.trans ?_)
    simp [spawn, socket, createProcess]
  | some hint =>
    refine .joined (unusedFd s hint) (ptid s.nextPtid) (get?_unusedFd s hint)
      (.inr (.inl (fresh_ptid left (nextPtid_handleNewProcess s fd req)))) (clients.trans ?_)
    simp only [spawn, socket]
    rfl

theorem Minted.of_same (minted : Minted s u pid tid) (next : t.nextPtid = u.nextPtid)
    (threads : t.threads = u.threads) (processes : t.processes = u.processes) :
    Minted s t pid tid := by
  refine ⟨?_, threads ▸ minted.home, fun l found => minted.listed l ?_⟩
  · rw [Fresh, next]
    exact minted.fresh
  · rw [threadsOf, ← processes]
    exact found

theorem clientChange_connectThread (clients : u.clients = s.clients)
    (connections : u.nextConnection = s.nextConnection) (minted : Minted s u pid tid)
    (target : Targeted s e pid) (asked : ∀ pick other, pipe = .ofProcess pick other →
      retoldClient s e = findClient s pid pick) :
    ClientChange s e (connectThread u pid tid pipe) := by
  cases pipe with
  | inflight copy =>
    cases copy with
    | none => exact .same clients
    | some hint =>
      refine .made (unusedFd u hint) pid tid ?_ target (minted.of_same rfl rfl rfl) ?_
      · rw [← clients]
        exact get?_unusedFd u hint
      · simp only [connectThread, connect, clients, connections]
  | ofProcess pick pipe =>
    cases found : findClient u pid pick with
    | some fd =>
      obtain ⟨c, at_fd, rfl⟩ := findClient_some found
      have at_s := clients ▸ at_fd
      have told : retoldClient s e = some fd := by
        rw [asked pick pipe rfl, ← findClient_congr clients]
        exact found
      refine .retold fd c tid told at_s target ?_ ?_
      · refine minted.of_same ?_ ?_ ?_ <;> simp only [connectThread, found]
      · simp only [connectThread, found, clients, modify_of_get? at_s]
    | none =>
      cases pipe with
      | none =>
        refine .same ?_
        simp only [connectThread, found, clients]
      | some hint =>
        refine .joined (unusedFd u hint) pid ?_ (.inr (.inr target)) ?_
        · rw [← clients]
          exact get?_unusedFd u hint
        · simp only [connectThread, found, connect, clients, connections]
  | missing => exact .same clients

theorem clientChange_handleNewThread (left : idsLeft s) (req : NewThreadRequest) :
    ClientChange s (.newThread fd req) (handleNewThread s fd req) := by
  have same := onlyHandles_allocWaitableHandle (createThread s (targetPid s fd req)).2
    (clientPid s fd) req.efd (ptid s.nextPtid).toUInt64
  refine clientChange_connectThread (s := s) same.clients same.nextConnection
    (minted_createThread left (.inl rfl) same.nextPtid same.threads (same.threadsOf _))
    ⟨fd, req, rfl, rfl⟩ ?_
  intro pick other pipe
  cases req
  cases pipe
  rfl

theorem claimPid_cases : (claimPid s fd = (clientPid s fd, s) ∧ clientPid s fd ≠ 0) ∨
      (∃ pid rest, s.unclaimedPids = pid :: rest ∧ clientPid s fd = 0 ∧
        claimPid s fd = (pid, { s with unclaimedPids := rest })) ∨
      (s.unclaimedPids = [] ∧ clientPid s fd = 0 ∧ claimPid s fd = createProcess s false) := by
  rw [claimPid]
  by_cases own : clientPid s fd = 0
  · right
    rw [if_neg (by simpa using own)]
    cases queued : s.unclaimedPids with
    | nil => exact .inr ⟨rfl, own, rfl⟩
    | cons pid rest => exact .inl ⟨pid, rest, rfl, own, rfl⟩
  · exact .inl ⟨if_pos own, own⟩

theorem anyProcess_some {pick : UInt32} (found : anyProcess s pick = some pid) :
    s.processes.contains pid := by
  rw [anyProcess] at found
  split at found
  · next known =>
    cases found
    exact known
  · cases first : s.processes.entries.head? with
    | none => simp [first] at found
    | some entry =>
      simp only [first, map_some, some.injEq] at found
      subst found
      have mem := mem_of_mem_head? (mem_def.mpr first)
      exact (s.processes.contains_iff _).mpr ⟨entry.2, (s.processes.mem_entries _ _).mp mem⟩

/-- What comes before the introduction gives out at most one id. -/
structure Prepared (s u : State) (fd : Int) (pid : UInt32) : Prop where
  clients : u.clients = s.clients
  nextPtid : u.nextPtid = s.nextPtid ∨ u.nextPtid = s.nextPtid + 1
  process : clientPid s fd ≠ 0 ∧ pid = clientPid s fd ∨ clientPid s fd = 0 ∧
    (pid ∈ s.unclaimedPids ∨ s.processes.contains pid ∨
      pid = ptid s.nextPtid ∧ u.nextPtid = s.nextPtid + 1)

theorem prepared_claim (s : State) (fd : Int) : Prepared s (claim s fd).2 fd (claim s fd).1 := by
  simp only [claim]
  rcases claimPid_cases with ⟨eq, own⟩ | ⟨pid, rest, queued, own, eq⟩ | ⟨-, own, eq⟩
  · rw [eq]
    exact ⟨rfl, .inl rfl, .inl ⟨own, rfl⟩⟩
  · rw [eq]
    exact ⟨rfl, .inl rfl, .inr ⟨own, .inl (queued ▸ mem_cons_self)⟩⟩
  · rw [eq]
    exact ⟨rfl, .inr rfl, .inr ⟨own, .inr (.inr ⟨rfl, rfl⟩)⟩⟩

theorem prepared_joinPid (s : State) (fd : Int) (pick : UInt32) :
    Prepared s (joinPid s fd pick).2 fd (joinPid s fd pick).1 := by
  rw [joinPid]
  split
  · next own => exact ⟨rfl, .inl rfl, .inl ⟨own, rfl⟩⟩
  · next own =>
    have zero : clientPid s fd = 0 := by simpa using own
    split
    · next known => exact ⟨rfl, .inl rfl, .inr ⟨zero, .inr (.inl (anyProcess_some known))⟩⟩
    · exact ⟨rfl, .inr rfl, .inr ⟨zero, .inr (.inr ⟨rfl, rfl⟩)⟩⟩

theorem clientPid_of_get? (found : s.clients.get? fd = some c) : clientPid s fd = c.processId := by
  simp [clientPid, found]

theorem clientTid_of_get? (found : s.clients.get? fd = some c) : clientTid s fd = c.threadId := by
  simp [clientTid, found]

theorem nextPtid_threadOf (s : State) (fd : Int) (pid : UInt32) :
    (threadOf s fd pid).2.nextPtid = s.nextPtid ∨
      (threadOf s fd pid).2.nextPtid = s.nextPtid + 1 := by
  rw [threadOf]
  split
  · exact .inl rfl
  · exact .inr rfl

structure SameTables (s t : State) : Prop where
  nextPtid : t.nextPtid = s.nextPtid
  threads : t.threads = s.threads
  unclaimedPids : t.unclaimedPids = s.unclaimedPids
  processes : t.processes = s.processes

theorem SameTables.trans (first : SameTables s t) (second : SameTables t u) : SameTables s u where
  nextPtid := second.nextPtid.trans first.nextPtid
  threads := second.threads.trans first.threads
  unclaimedPids := second.unclaimedPids.trans first.unclaimedPids
  processes := second.processes.trans first.processes

theorem sameTables_introduce : SameTables s (introduce s fd pid tid) := ⟨rfl, rfl, rfl, rfl⟩

theorem sameTables_ownDesktop (unparented : Bool) : SameTables s (ownDesktop s unparented tid) := by
  rw [ownDesktop]
  split
  · exact ⟨rfl, rfl, rfl, rfl⟩
  split <;> exact ⟨rfl, rfl, rfl, rfl⟩

theorem clients_ownDesktop (unparented : Bool) :
    (ownDesktop s unparented tid).clients = s.clients := by
  rw [ownDesktop]
  split
  · rfl
  split <;> rfl

theorem sameTables_handleInitFirstThread (s : State) (fd : Int) (slot : Bool) :
    SameTables (threadOf (claim s fd).2 fd (claim s fd).1).2 (handleInitFirstThread s fd slot) := by
  rw [handleInitFirstThread]
  split
  · exact ⟨rfl, rfl, rfl, rfl⟩
  · exact sameTables_introduce.trans (sameTables_ownDesktop _)

theorem sameTables_handleInitThread (s : State) (fd : Int) (pick : UInt32) :
    SameTables (threadOf (joinPid s fd pick).2 fd (joinPid s fd pick).1).2
      (handleInitThread s fd pick) :=
  sameTables_introduce

theorem clientChange_introduce (left : idsLeft s) (ready : Prepared s u fd pid)
    (found : s.clients.get? fd = some c)
    (clients : t.clients = (introduce (threadOf u fd pid).2 fd pid (threadOf u fd pid).1).clients)
    (same : SameTables (threadOf u fd pid).2 t) : ClientChange s e t := by
  obtain ⟨next, threads, -, processes⟩ := same
  have at_u := ready.clients ▸ found
  have tid := clientTid_of_get? at_u
  have process : c.processId ≠ 0 ∧ pid = c.processId ∨ c.processId = 0 ∧ PidSource s t pid := by
    have own := ready.process
    rw [clientPid_of_get? found] at own
    refine own.imp_right fun other => ⟨other.1, ?_⟩
    rcases other.2 with queued | known | ⟨rfl, more⟩
    · exact .queued queued
    · exact .present known
    · obtain ⟨i, above, below, eq⟩ := fresh_ptid left more
      refine .fresh ⟨i, above, ?_, eq⟩
      have small := idsLeft_iff.mp left
      have succ := toNat_nextPtid_succ left
      rw [more] at below
      rcases nextPtid_threadOf u fd (ptid s.nextPtid) with same | again
      · rw [next, same, more]
        exact below
      · rw [next, again, more, toNat_succ (by omega)]
        omega
  rw [threadOf] at clients next threads processes
  by_cases new : c.threadId = 0
  · rw [tid, if_neg (by simpa using new)] at clients next threads processes
    refine .introduced fd c pid (ptid u.nextPtid) found process (.inr ⟨new, ?_⟩)
      (clients.trans ?_)
    · refine minted_createThread left ready.nextPtid next threads ?_
      rw [threadsOf, processes]
      rfl
    · rw [← ready.clients]
      exact modify_of_get? at_u _
  · rw [tid, if_pos new] at clients
    refine .introduced fd c pid c.threadId found process (.inl ⟨new, rfl⟩) (clients.trans ?_)
    rw [← ready.clients]
    exact modify_of_get? at_u _

theorem clients_threadOf (s : State) (fd : Int) (pid : UInt32) :
    (threadOf s fd pid).2.clients = s.clients := by
  rw [threadOf]
  split <;> rfl

theorem clientChange_handleInitFirstThread (left : idsLeft s)
    (found : s.clients.get? fd = some c) (slot : Bool) :
    ClientChange s e (handleInitFirstThread s fd slot) := by
  have ready := prepared_claim s fd
  have same := sameTables_handleInitFirstThread s fd slot
  rw [handleInitFirstThread] at same ⊢
  split
  · exact .same ((clients_threadOf _ _ _).trans ready.clients)
  · next slotted =>
    rw [if_neg slotted] at same
    exact clientChange_introduce left ready found (clients_ownDesktop _) same

theorem clients_disconnectClient : (disconnectClient s fd).clients = s.clients.erase fd := by
  simp only [disconnectClient]
  split
  · split <;> rfl
  · rfl

theorem of_clients_disconnect {i : Int} {d : Client}
    (here : (disconnectClient s fd).clients.get? i = some d) : i ≠ fd ∧ s.clients.get? i = some d :=
  Table.of_erase (clients_disconnectClient ▸ here)

theorem clientChange_step (left : idsLeft s) (e : Event) : ClientChange s e (step s e) := by
  rw [step]
  split
  · next answered =>
    cases e with
    | accept fd => exact clientChange_accept
    | newProcess fd req => exact clientChange_handleNewProcess left req
    | newThread fd req => exact clientChange_handleNewThread left req
    | initFirstThread fd slot =>
      obtain ⟨c, found⟩ := (s.clients.contains_iff fd).mp answered
      exact clientChange_handleInitFirstThread left found slot
    | initThread fd pick =>
      obtain ⟨c, found⟩ := (s.clients.contains_iff fd).mp answered
      exact clientChange_introduce left (prepared_joinPid s fd pick) found
        (by rw [act, handleInitThread]) (sameTables_handleInitThread s fd pick)
    | terminateProcess =>
      refine .same ?_
      simp only [act, handleTerminateProcess]
      split <;> rfl
    | initProcessDone =>
      refine .same ?_
      simp only [act, handleInitProcessDone]
      split <;> rfl
    | other => exact .same rfl
    | disconnect fd => exact .left fd rfl clients_disconnectClient
  · exact .same rfl

/-! ### The counter -/

theorem nextPtid_act : (act s e).nextPtid = s.nextPtid ∨ (act s e).nextPtid = s.nextPtid + 1 ∨
      (act s e).nextPtid = s.nextPtid + 1 + 1 := by
  have twice : ∀ {u : State} {fd : Int} {pid : UInt32}, Prepared s u fd pid →
      (threadOf u fd pid).2.nextPtid = s.nextPtid ∨
        (threadOf u fd pid).2.nextPtid = s.nextPtid + 1 ∨
        (threadOf u fd pid).2.nextPtid = s.nextPtid + 1 + 1 := by
    intro u fd pid ready
    rcases nextPtid_threadOf u fd pid with more | more <;>
      rcases ready.nextPtid with before | before <;> simp [more, before]
  cases e with
  | accept =>
    left
    simp only [act, accept]
    split <;> rfl
  | newProcess fd req =>
    right; left
    exact nextPtid_handleNewProcess s fd req
  | newThread fd req =>
    right; left
    exact (sameLists_handleNewThread s fd req).nextPtid
  | initFirstThread fd slot =>
    simp only [act, (sameTables_handleInitFirstThread s fd slot).nextPtid]
    exact twice (prepared_claim s fd)
  | initThread fd pick =>
    simp only [act, (sameTables_handleInitThread s fd pick).nextPtid]
    exact twice (prepared_joinPid s fd pick)
  | terminateProcess =>
    left
    simp only [act, handleTerminateProcess]
    split <;> rfl
  | initProcessDone =>
    left
    simp only [act, handleInitProcessDone]
    split <;> rfl
  | other => exact .inl rfl
  | disconnect =>
    left
    simp only [act, disconnectClient]
    split
    · split <;> rfl
    · rfl

theorem nextPtid_step (left : idsLeft s) : s.nextPtid.toNat ≤ (step s e).nextPtid.toNat := by
  have small := idsLeft_iff.mp left
  have succ := toNat_nextPtid_succ left
  rw [step]
  split
  · rcases nextPtid_act with same | one | two
    · exact Nat.le_of_eq (congrArg UInt32.toNat same.symm)
    · rw [one]
      omega
    · rw [two, toNat_succ (by omega)]
      omega
  · exact Nat.le_refl _

theorem Allocated.step (allocated : Allocated s id) (left : idsLeft s) (e : Event) :
    Allocated (step s e) id := by
  obtain ⟨i, before, eq⟩ := allocated
  exact ⟨i, Nat.lt_of_lt_of_le before (nextPtid_step left), eq⟩

theorem Fresh.allocated (fresh : Fresh s t id) : Allocated t id := by
  obtain ⟨i, -, below, eq⟩ := fresh
  exact ⟨i, below, eq⟩

theorem Fresh.not_allocated (fresh : Fresh s t id) : ¬ Allocated s id := by
  rintro ⟨j, below, eq⟩
  obtain ⟨i, above, -, same⟩ := fresh
  omega

theorem Allocated.ne_zero (allocated : Allocated s id) : id ≠ 0 := by
  rintro rfl
  obtain ⟨i, -, same⟩ := allocated
  simp at same

/-! ### What is read of a process -/

section View

variable {β : Type} {g : Process → β}

def viewOf (g : Process → β) (s : State) (pid : UInt32) : Option β := (s.processes.get? pid).map g

theorem SameLists.viewOf (same : SameLists s t)
    (handles : ∀ p, g { p with handles := .new } = g p) (q : UInt32) :
    viewOf g t q = viewOf g s q := by
  have eq := congrArg (Option.map g) (same.processes q)
  simp only [Option.map_map, Function.comp_def, handles] at eq
  exact eq

section
variable (threads : ∀ p l, g { p with threads := l } = g p) (s : State)
include threads

theorem viewOf_createThread (pid q : UInt32) : viewOf g (createThread s pid).2 q = viewOf g s q :=
  map_get?_modify (fun p => threads p _) _ _ _

theorem viewOf_threadOf
    (fd : Int) (pid q : UInt32) : viewOf g (threadOf s fd pid).2 q = viewOf g s q := by
  rw [threadOf]
  split
  · rfl
  · exact viewOf_createThread threads s pid q

end

theorem viewOf_createProcess (spawned : Bool) (q : UInt32) :
    viewOf g (createProcess s spawned).2 q =
      if q = ptid s.nextPtid then some (g (.new spawned)) else viewOf g s q := by
  simp only [viewOf, createProcess, get?_insert]
  split <;> rfl

section
variable (threads : ∀ p l, g { p with threads := l } = g p) (s : State) (fd : Int)
include threads

theorem viewOf_handleInitFirstThread (slot : Bool) (q : UInt32) :
    viewOf g (handleInitFirstThread s fd slot) q = viewOf g (claim s fd).2 q := by
  rw [← viewOf_threadOf threads (claim s fd).2 fd (claim s fd).1, viewOf, viewOf,
    (sameTables_handleInitFirstThread s fd slot).processes]

theorem viewOf_handleInitThread (pick q : UInt32) :
    viewOf g (handleInitThread s fd pick) q = viewOf g (joinPid s fd pick).2 q := by
  rw [← viewOf_threadOf threads (joinPid s fd pick).2 fd (joinPid s fd pick).1, viewOf, viewOf,
    (sameTables_handleInitThread s fd pick).processes]

end

theorem viewOf_handleNewProcess (handles : ∀ p t, g { p with handles := t } = g p)
    (parent : ∀ p pid, g { p with parentPid := pid } = g p) (s : State) (fd : Int)
    (req : NewProcessRequest) (q : UInt32) : viewOf g (handleNewProcess s fd req).2 q =
      if q = ptid s.nextPtid then some (g (.new true)) else viewOf g s q := by
  rw [(onlyHandles_handleNewProcess s fd req).viewOf (fun p => handles p _), ← viewOf_createProcess]
  have filled : ∀ p : Process, g { p with
      parentPid := clientPid s fd, handles := inherited s (clientPid s fd) req.handles } = g p :=
    fun p => (handles { p with parentPid := clientPid s fd } _).trans (parent p _)
  simp only [viewOf, spawn]
  split <;> exact map_get?_modify filled _ _ _

theorem viewOf_tearDown (q : UInt32) :
    viewOf g (tearDown s pid) q = if q = pid then none else viewOf g s q := by
  simp only [viewOf, tearDown, get?_erase]
  split <;> rfl

end View

end Triskelion.Lifecycle
