import Triskelion.TeardownTiming

/-! How a parent learns about the process it made (`process.rs`, `client.rs`). `new_process`
returns a handle to wait on, which is signalled when the child has started or is dead. All
parents share one table for these handles, and its key is the value of the handle, which is a
number of the parent's own. -/

namespace Triskelion.InfoHandles

open Lifecycle (Process NewProcessRequest NewProcessReply clientPid clientTid viewOf Allocated idsLeft
  ends)
open RunRules List Table

/-- `ntsyncObj` is the copied descriptor of the event, if there is one. -/
structure ProcessInfoHandle where
  targetPid : UInt32
  parentPid : UInt32
  ntsyncObj : Option Nat
deriving DecidableEq

structure Issue where
  parent : UInt32
  info : UInt32
  child : UInt32
  object : Option Nat
deriving DecidableEq

/-- Events are numbered as the kernel makes them. `issued` is not in the code: the handles
that parents have and have not closed. -/
structure State where
  core : Lifecycle.State
  processInfoHandles : Table UInt32 ProcessInfoHandle
  ntsyncObjects : Table (UInt32 × UInt32) Nat
  nextObject : Nat
  signalled : List Nat
  issued : List Issue

def State.start (desktopTop desktopMsg : UInt32) (windows : Table UInt32 Lifecycle.Window) :
    State where
  core := .start desktopTop desktopMsg windows
  processInfoHandles := .empty
  ntsyncObjects := .empty
  nextObject := 0
  signalled := []
  issued := []

/-! ### The requests -/

/-- Whether the kernel makes the events for the two handles, and copies the second one. -/
structure NewEvents where
  exit : Bool
  info : Bool
  copied : Bool

section
variable (s : State)

def createEvent (pid handle : UInt32) : State :=
  { s with
    ntsyncObjects := s.ntsyncObjects.insert (pid, handle) s.nextObject
    nextObject := s.nextObject + 1 }

def insertInfo (parent : UInt32) (reply : NewProcessReply) (object copy : Option Nat) : State :=
  { s with
    processInfoHandles := s.processInfoHandles.insert reply.info ⟨reply.pid, parent, copy⟩
    issued := s.issued ++ [⟨parent, reply.info, reply.pid, object⟩] }

def registerInfo (parent : UInt32) (reply : NewProcessReply) (events : NewEvents) : State :=
  if reply.info = 0 then s
  else if events.info then
    insertInfo (createEvent s parent reply.info) parent reply (some s.nextObject)
      (if events.copied then some s.nextObject else none)
  else insertInfo s parent reply none none

def handleNewProcess (fd : Int) (req : NewProcessRequest) (events : NewEvents) : State :=
  let parent := clientPid s.core fd
  let made := Lifecycle.handleNewProcess s.core fd req
  let s := { s with core := made.2 }
  let s := if made.1.handle ≠ 0 ∧ events.exit then createEvent s parent made.1.handle else s
  registerInfo s parent made.1 events

end

def status : Option Process → Int × UInt32
  | some p => (if p.threads = [] ∧ p.startupDone then 0 else 1, p.exitCode)
  | none => (0, 0)

section
variable (s : State)

def handleGetNewProcessInfo (info : UInt32) : Int × UInt32 :=
  status ((s.processInfoHandles.get? info).bind fun h => s.core.processes.get? h.targetPid)

def infoEntries (pid : UInt32) : List (UInt32 × ProcessInfoHandle) :=
  s.processInfoHandles.entries.filter fun e => e.2.targetPid = pid

def eventOf (e : UInt32 × ProcessInfoHandle) : Option Nat :=
  (s.ntsyncObjects.get? (e.2.parentPid, e.1)).or e.2.ntsyncObj

def handleInitProcessDone (fd : Int) : State :=
  let pid := clientPid s.core fd
  { s with
    core := Lifecycle.handleInitProcessDone s.core fd
    signalled :=
      if pid = 0 then s.signalled else s.signalled ++ (infoEntries s pid).filterMap (eventOf s) }

/-- `close_handle` finds the process by the thread; the event stays. -/
def handleCloseHandle (fd : Int) (handle : UInt32) : State :=
  match s.core.threads.get? (clientTid s.core fd) with
  | some pid => { s with
      core := { s.core with processes := s.core.processes.modify pid fun p =>
        { p with handles := (p.handles.close handle).1 } }
      issued := s.issued.filter fun i => ¬ (i.parent = pid ∧ i.info >>> 2 = handle >>> 2) }
  | none => s

end

def didInit (s : Lifecycle.State) (pid : UInt32) : Bool :=
  (s.processes.get? pid).any Process.startupDone

section
variable (s : State)

/-- The tables when a process is gone. Only the event under the handle is used for a child
that dies early. -/
def endProcess (pid : UInt32) : State :=
  let objects := s.ntsyncObjects.retain fun k _ => k.1 ≠ pid
  { s with
    ntsyncObjects := objects
    signalled :=
      if didInit s.core pid then s.signalled
      else s.signalled ++ (infoEntries s pid).filterMap fun e => objects.get? (e.2.parentPid, e.1)
    processInfoHandles := s.processInfoHandles.retain fun _ v => v.targetPid ≠ pid
    issued := s.issued.filter fun i => i.parent ≠ pid }

def disconnectClient (fd : Int) : State :=
  let t := if ends s.core fd then endProcess s (clientPid s.core fd) else s
  { t with core := Lifecycle.disconnectClient s.core fd }

inductive Event
  | request (e : Lifecycle.Event) (events : NewEvents)
  | closeHandle (fd : Int) (handle : UInt32)

def act (e : Lifecycle.Event) (events : NewEvents) : State :=
  match e with
  | .newProcess fd req => handleNewProcess s fd req events
  | .initProcessDone fd => handleInitProcessDone s fd
  | .disconnect fd => disconnectClient s fd
  | e => { s with core := Lifecycle.act s.core e }

def step : Event → State
  | .request e events => if Lifecycle.answers s.core e then act s e events else s
  | .closeHandle fd handle => if s.core.clients.contains fd then handleCloseHandle s fd handle else s

end

/-! ### What the parents see -/

section
variable (s : State)

def Settled (child : UInt32) : Prop :=
  ∀ p, s.core.processes.get? child = some p → p.startupDone

/-- Every parent is told about its own child, and no parent waits for a child that has
started or is dead. -/
def Correlated : Prop :=
  ∀ i ∈ s.issued, handleGetNewProcessInfo s i.info = status (s.core.processes.get? i.child) ∧
    ∀ object, i.object = some object → Settled s i.child → object ∈ s.signalled

/-- A caller that `new_thread` put into a process not yet made can be in the new one. -/
def callerTable (pid : UInt32) (req : NewProcessRequest) : Option HandleTable :=
  if pid = 0 then none
  else if pid = ptid s.core.nextPtid then some (Lifecycle.inherited s.core pid req.handles)
  else (s.core.processes.get? pid).map Process.handles

/-- The numbers that the caller's table gives out next: for the process, then for the handle
to wait on. -/
def nextHandles (pid : UInt32) (req : NewProcessRequest) : UInt32 × UInt32 :=
  match callerTable s pid req with
  | some t =>
    let later := if req.efd.isSome then t.slab.bump + 1 else t.slab.bump
    (if req.efd.isSome then t.slab.bump <<< 2 else 0, if req.info.isSome then later <<< 2 else 0)
  | none => (0, 0)

/-- The value of the new handle is not that of a handle that another parent has; and the
handle for the process is not one that its parent has already. -/
def apart : Event → Bool
  | .request (.newProcess fd req) _ =>
    let pid := clientPid s.core fd
    s.issued.all fun i => i.info ≠ (nextHandles s pid req).2 ∧
      (i.parent = pid → i.info ≠ (nextHandles s pid req).1)
  | _ => true

def answered : Event → Bool
  | .request e _ => Lifecycle.answers s.core e
  | .closeHandle fd _ => s.core.clients.contains fd

def distinct (e : Event) : Bool := idsLeft s.core && (!answered s e || apart s e)

end

def doneView (s : Lifecycle.State) (pid : UInt32) : Option Bool := viewOf Process.startupDone s pid

/-- Each handle has its entry for as long as the child is there, and its event. -/
structure Correlation (s : State) : Prop where
  child : ∀ i ∈ s.issued, Allocated s.core i.child
  entry : ∀ i ∈ s.issued, (s.processInfoHandles.get? i.info).map
    (fun h => (h.targetPid, h.parentPid)) =
      (doneView s.core i.child).map fun _ => (i.child, i.parent)
  event : ∀ i ∈ s.issued, ∀ object, i.object = some object →
    s.ntsyncObjects.get? (i.parent, i.info) = some object
  signalled : ∀ i ∈ s.issued, ∀ object, i.object = some object →
    doneView s.core i.child ≠ some false → object ∈ s.signalled

variable {s : State}

theorem settled_iff {child : UInt32} : Settled s child ↔ doneView s.core child ≠ some false := by
  rw [Settled, doneView, viewOf]
  cases s.core.processes.get? child with
  | none | some => simp

theorem Correlation.of_core (inv : Correlation s) {core : Lifecycle.State} {issued : List Issue}
    (fewer : ∀ i ∈ issued, i ∈ s.issued) (mono : ∀ id, Allocated s.core id → Allocated core id)
    (views : ∀ q, Allocated s.core q → doneView core q = doneView s.core q) :
    Correlation { s with core, issued } where
  child i mem := mono _ (inv.child i (fewer i mem))
  entry i mem := by
    rw [views _ (inv.child i (fewer i mem))]
    exact inv.entry i (fewer i mem)
  event i mem := inv.event i (fewer i mem)
  signalled i mem := by
    rw [views _ (inv.child i (fewer i mem))]
    exact inv.signalled i (fewer i mem)

theorem Correlation.correlated (inv : Correlation s) : Correlated s := by
  intro i mem
  have entry := inv.entry i mem
  refine ⟨?_, fun object has settled => inv.signalled i mem object has (settled_iff.mp settled)⟩
  rw [handleGetNewProcessInfo]
  congr 1
  rw [doneView, viewOf] at entry
  cases found : s.core.processes.get? i.child with
  | none =>
    rw [found] at entry
    rw [Option.map_eq_none_iff.mp entry]
    rfl
  | some =>
    rw [found] at entry
    obtain ⟨h, at_info, eq⟩ := Option.map_eq_some_iff.mp entry
    rw [at_info]
    exact (congrArg s.core.processes.get? (Prod.mk.inj eq).1).trans found

/-! ### Views after an event -/

variable {q : UInt32}

theorem doneView_claim {s : Lifecycle.State} (fd : Int) (other : q ≠ ptid s.nextPtid) :
    doneView (Lifecycle.claim s fd).2 q = doneView s q := by
  have claimed : doneView (Lifecycle.claim s fd).2 q = doneView (Lifecycle.claimPid s fd).2 q :=
    map_get?_modify (fun _ => by rfl) _ _ _
  rw [claimed]
  rcases Lifecycle.claimPid_cases with ⟨eq, -⟩ | ⟨pid, rest, -, -, eq⟩ | ⟨-, -, eq⟩
  · rw [eq]
  · rw [eq]
    rfl
  · rw [eq]
    exact (Lifecycle.viewOf_createProcess false q).trans (if_neg other)

theorem doneView_joinPid {s : Lifecycle.State} (fd : Int) (pick : UInt32)
    (other : q ≠ ptid s.nextPtid) : doneView (Lifecycle.joinPid s fd pick).2 q = doneView s q := by
  rw [Lifecycle.joinPid]
  split
  · rfl
  · split
    · rfl
    · exact (Lifecycle.viewOf_createProcess false q).trans (if_neg other)

def quiet : Lifecycle.Event → Bool
  | .initProcessDone _ | .disconnect _ => false
  | _ => true

theorem doneView_act {s : Lifecycle.State} {e : Lifecycle.Event} (silent : quiet e)
    (other : q ≠ ptid s.nextPtid) : doneView (Lifecycle.act s e) q = doneView s q := by
  cases e with
  | accept =>
    simp only [Lifecycle.act, Lifecycle.accept]
    split <;> rfl
  | newProcess fd req =>
    exact (Lifecycle.viewOf_handleNewProcess (fun _ _ => rfl) (fun _ _ => rfl) s fd req q).trans
      (if_neg other)
  | newThread fd req =>
    exact ((Lifecycle.sameLists_handleNewThread s fd req).viewOf (fun _ => rfl) q).trans
      (Lifecycle.viewOf_createThread (fun _ _ => rfl) s _ q)
  | initFirstThread fd slot =>
    exact (Lifecycle.viewOf_handleInitFirstThread (fun _ _ => rfl) s fd slot q).trans
      (doneView_claim fd other)
  | initThread fd pick =>
    exact (Lifecycle.viewOf_handleInitThread (fun _ _ => rfl) s fd pick q).trans
      (doneView_joinPid fd pick other)
  | terminateProcess =>
    simp only [Lifecycle.act, Lifecycle.handleTerminateProcess]
    split
    · exact map_get?_modify (fun _ => by rfl) _ _ _
    · rfl
  | other => exact map_get?_modify (fun _ => by rfl) _ _ _
  | initProcessDone | disconnect => cases silent

theorem doneView_handleInitProcessDone (s : Lifecycle.State) (fd : Int) (q : UInt32) :
    doneView (Lifecycle.handleInitProcessDone s fd) q =
      if clientPid s fd ≠ 0 ∧ q = clientPid s fd then (doneView s q).map fun _ => true
      else doneView s q := by
  rw [Lifecycle.handleInitProcessDone]
  by_cases some_pid : clientPid s fd = 0
  · rw [if_neg (by simpa using some_pid), if_neg (fun both => both.1 some_pid)]
  · rw [if_pos some_pid]
    simp only [doneView, viewOf, get?_modify]
    by_cases same : q = clientPid s fd
    · subst same
      rw [if_pos rfl, if_pos ⟨some_pid, rfl⟩]
      simp [Function.comp_def]
    · rw [if_neg same, if_neg (fun both => same both.2)]

/-! ### The handles of a new process -/

theorem callerTable_spawn (pid : UInt32) (req : NewProcessRequest) :
    callerTable s pid req = if pid = 0 then none
      else ((Lifecycle.spawn s.core pid req).2.processes.get? pid).map Process.handles := by
  have spawned : (Lifecycle.spawn s.core pid req).2.processes =
      (s.core.processes.insert (ptid s.core.nextPtid) (.new true)).modify (ptid s.core.nextPtid)
        fun p => { p with parentPid := pid, handles := Lifecycle.inherited s.core pid req.handles } := by
    rw [Lifecycle.spawn]
    cases req.socket with
    | none | some => rfl
  rw [callerTable, spawned, get?_modify]
  by_cases same : pid = ptid s.core.nextPtid <;> simp [same, get?_insert]

theorem nextHandles_eq (fd : Int) (req : NewProcessRequest) :
    nextHandles s (clientPid s.core fd) req =
      ((Lifecycle.handleNewProcess s.core fd req).1.handle,
        (Lifecycle.handleNewProcess s.core fd req).1.info) := by
  rw [nextHandles, callerTable_spawn, Lifecycle.handleNewProcess]
  generalize Lifecycle.spawn s.core (clientPid s.core fd) req = made
  by_cases nobody : clientPid s.core fd = 0
  · simp [nobody, Lifecycle.allocWaitableHandle]
  · cases found : made.2.processes.get? (clientPid s.core fd) with
    | none => simp [nobody, found, Lifecycle.allocWaitableHandle]
    | some p =>
      cases req.efd <;> cases req.info <;>
        simp [nobody, found, Lifecycle.allocWaitableHandle, get?_modify, HandleTable.allocateFull,
          HeapSlab.insertBump]

/-! ### The invariant over an event -/

section
variable (inv : Correlation s)
include inv

theorem Correlation.createEvent {pid handle : UInt32}
    (other : ∀ i ∈ s.issued, (i.parent, i.info) ≠ (pid, handle)) :
    Correlation (createEvent s pid handle) where
  __ := inv
  event i mem object has := by
    rw [InfoHandles.createEvent, get?_insert, if_neg (other i mem)]
    exact inv.event i mem object has

variable {parent : UInt32} {reply : NewProcessReply}

theorem Correlation.insertInfo {object copy : Option Nat} (known : Allocated s.core reply.pid)
    (new : doneView s.core reply.pid = some false) (other : ∀ i ∈ s.issued, i.info ≠ reply.info)
    (event : ∀ o, object = some o → s.ntsyncObjects.get? (parent, reply.info) = some o) :
    Correlation (insertInfo s parent reply object copy) := by
  have cases_ : ∀ i ∈ (InfoHandles.insertInfo s parent reply object copy).issued,
      i ∈ s.issued ∨ i = ⟨parent, reply.info, reply.pid, object⟩ := by
    intro i mem
    exact (mem_append.mp mem).imp_right mem_singleton.mp
  refine ⟨fun i mem => ?_, fun i mem => ?_, fun i mem o has => ?_, fun i mem o has done => ?_⟩
  · rcases cases_ i mem with old | rfl
    · exact inv.child i old
    · exact known
  · simp only [InfoHandles.insertInfo, get?_insert]
    rcases cases_ i mem with old | rfl
    · rw [if_neg (other i old)]
      exact inv.entry i old
    · rw [if_pos rfl, new]
      rfl
  · rcases cases_ i mem with old | rfl
    · exact inv.event i old o has
    · exact event o has
  · rcases cases_ i mem with old | rfl
    · exact inv.signalled i old o has done
    · exact absurd new done

theorem Correlation.registerInfo (events : NewEvents) (known : Allocated s.core reply.pid)
    (new : doneView s.core reply.pid = some false) (other : ∀ i ∈ s.issued, i.info ≠ reply.info) :
    Correlation (registerInfo s parent reply events) := by
  rw [InfoHandles.registerInfo]
  split
  · exact inv
  split
  · have made : Correlation (InfoHandles.createEvent s parent reply.info) :=
      inv.createEvent fun i mem same => other i mem (Prod.mk.inj same).2
    refine made.insertInfo known new other fun o eq => ?_
    rw [InfoHandles.createEvent, get?_insert, if_pos rfl]
    exact eq
  · exact inv.insertInfo known new other (by simp)

theorem Correlation.newProcess (left : idsLeft s.core) {fd : Int}
    {req : NewProcessRequest} {events : NewEvents}
    (free : apart s (.request (.newProcess fd req) events)) :
    Correlation (handleNewProcess s fd req events) := by
  simp only [apart, nextHandles_eq, all_eq_true, decide_eq_true_eq] at free
  have next := Lifecycle.nextPtid_handleNewProcess s.core fd req
  have fresh := Lifecycle.fresh_ptid left next
  have view := Lifecycle.viewOf_handleNewProcess (g := Process.startupDone) (fun _ _ => rfl)
    (fun _ _ => rfl) s.core fd req
  have moved : Correlation { s with core := (Lifecycle.handleNewProcess s.core fd req).2 } := by
    refine inv.of_core (fun _ mem => mem) (fun id known => ?_) fun q known => ?_
    · obtain ⟨i, below, eq⟩ := known
      obtain ⟨j, above, more, -⟩ := fresh
      exact ⟨i, by omega, eq⟩
    · exact (view q).trans (if_neg (known.ne_next left))
  have made : (Lifecycle.handleNewProcess s.core fd req).1.pid = ptid s.core.nextPtid := rfl
  have new := (view _).trans (if_pos made)
  simp only [handleNewProcess]
  split
  · refine Correlation.registerInfo (moved.createEvent fun i mem same => ?_) events fresh.allocated
      new fun i mem => (free i mem).1
    obtain ⟨parent, handle⟩ := Prod.mk.inj same
    exact (free i mem).2 parent handle
  · exact moved.registerInfo events fresh.allocated new fun i mem => (free i mem).1

theorem Correlation.targetPid {i : Issue} (mem : i ∈ s.issued)
    {h : ProcessInfoHandle} (at_info : s.processInfoHandles.get? i.info = some h) :
    h.targetPid = i.child := by
  have entry := inv.entry i mem
  rw [at_info] at entry
  obtain ⟨_, -, eq⟩ := Option.map_eq_some_iff.mp entry.symm
  exact (Prod.mk.inj eq).1.symm

theorem Correlation.mem_infoEntries {i : Issue} (mem : i ∈ s.issued)
    {done : Bool} (present : doneView s.core i.child = some done) :
    ∃ h, (i.info, h) ∈ infoEntries s i.child ∧ h.parentPid = i.parent := by
  have entry := inv.entry i mem
  rw [present] at entry
  obtain ⟨h, at_info, eq⟩ := Option.map_eq_some_iff.mp entry
  obtain ⟨target, parent⟩ := Prod.mk.inj eq
  refine ⟨h, mem_filter.mpr ⟨(s.processInfoHandles.mem_entries _ _).mpr at_info, ?_⟩, parent⟩
  exact decide_eq_true target

theorem Correlation.initProcessDone (fd : Int) : Correlation (handleInitProcessDone s fd) := by
  have view := doneView_handleInitProcessDone s.core fd
  have next : (Lifecycle.handleInitProcessDone s.core fd).nextPtid = s.core.nextPtid := by
    rw [Lifecycle.handleInitProcessDone]
    split <;> rfl
  refine ⟨fun i mem => ?_, fun i mem => ?_, inv.event, fun i mem object has done => ?_⟩
  · rw [Allocated]
    exact next ▸ inv.child i mem
  · refine (inv.entry i mem).trans ?_
    simp only [handleInitProcessDone, view]
    split
    · rw [Option.map_map]
      rfl
    · rfl
  · simp only [handleInitProcessDone]
    simp only [handleInitProcessDone, view] at done
    by_cases signals : clientPid s.core fd ≠ 0 ∧ i.child = clientPid s.core fd
    · rw [if_neg signals.1, ← signals.2]
      cases present : doneView s.core i.child with
      | none =>
        refine mem_append_left _ (inv.signalled i mem object has ?_)
        simp [present]
      | some =>
        obtain ⟨h, entry, parent⟩ := inv.mem_infoEntries mem present
        refine mem_append_right _ (mem_filterMap.mpr ⟨_, entry, ?_⟩)
        rw [eventOf, parent, inv.event i mem object has]
        rfl
    · rw [if_neg signals] at done
      have before := inv.signalled i mem object has done
      split
      · exact before
      · exact mem_append_left _ before

theorem Correlation.endProcess {pid : UInt32} {core : Lifecycle.State}
    (next : core.nextPtid = s.core.nextPtid)
    (view : ∀ q, doneView core q = if q = pid then none else doneView s.core q) :
    Correlation { endProcess s pid with core } := by
  have kept : ∀ i ∈ (InfoHandles.endProcess s pid).issued, i ∈ s.issued ∧ i.parent ≠ pid := by
    intro i mem
    obtain ⟨old, other⟩ := mem_filter.mp mem
    exact ⟨old, of_decide_eq_true other⟩
  have event : ∀ i ∈ (InfoHandles.endProcess s pid).issued, ∀ object, i.object = some object →
      (InfoHandles.endProcess s pid).ntsyncObjects.get? (i.parent, i.info) = some object := by
    intro i mem object has
    obtain ⟨old, other⟩ := kept i mem
    simp [InfoHandles.endProcess, get?_retain, inv.event i old object has, other]
  refine ⟨fun i mem => ?_, fun i mem => ?_, event, fun i mem object has done => ?_⟩
  · rw [Allocated]
    exact next ▸ inv.child i (kept i mem).1
  · have target : ∀ h, s.processInfoHandles.get? i.info = some h → h.targetPid = i.child :=
      fun h at_info => inv.targetPid (kept i mem).1 at_info
    refine Eq.trans ?_ (congrArg (Option.map fun _ => (i.child, i.parent)) (view i.child).symm)
    simp only [InfoHandles.endProcess, get?_retain]
    by_cases same : i.child = pid
    · rw [if_pos same, Option.map_none, Option.map_eq_none_iff, Option.filter_eq_none_iff]
      intro h at_info
      simp [target h at_info, same]
    · rw [if_neg same, ← inv.entry i (kept i mem).1]
      cases at_info : s.processInfoHandles.get? i.info with
      | none => rfl
      | some h => simp [Option.filter, target h at_info, same]
  · obtain ⟨old, -⟩ := kept i mem
    have settled : doneView s.core i.child ≠ some false →
        object ∈ (InfoHandles.endProcess s pid).signalled := by
      intro done
      have before := inv.signalled i old object has done
      simp only [InfoHandles.endProcess]
      split
      · exact before
      · exact mem_append_left _ before
    by_cases same : i.child = pid
    · -- the child dies: it had started, or its parent is told now
      subst same
      cases present : doneView s.core i.child with
      | none => exact settled (by simp [present])
      | some started =>
        cases started with
        | true => exact settled (by simp [present])
        | false =>
          obtain ⟨h, entry, parent⟩ := inv.mem_infoEntries old present
          obtain ⟨p, at_child, not_yet⟩ := Option.map_eq_some_iff.mp present
          have early : didInit s.core i.child = false := by simp [didInit, at_child, not_yet]
          have found := event i mem object has
          simp only [InfoHandles.endProcess, early] at found ⊢
          refine mem_append_right _ (mem_filterMap.mpr ⟨_, entry, ?_⟩)
          rw [parent]
          exact found
    · refine settled ?_
      rw [← (view i.child).trans (if_neg same)]
      exact done

theorem Correlation.disconnect (fd : Int) : Correlation (disconnectClient s fd) := by
  have view : ∀ q, doneView (Lifecycle.disconnectClient s.core fd) q = _ :=
    Lifecycle.viewOf_disconnectClient (fun _ _ => rfl) s.core fd
  have next := Lifecycle.nextPtid_disconnectClient s.core fd
  simp only [disconnectClient]
  cases last : ends s.core fd with
  | true =>
    refine inv.endProcess next fun q => (view q).trans ?_
    simp [last]
    rfl
  | false =>
    refine inv.of_core (fun _ mem => mem) (fun id known => ?_) fun q _ => (view q).trans ?_
    · rw [Allocated, next]
      exact known
    · simp [last]
      rfl

theorem Correlation.closeHandle (fd : Int) (handle : UInt32) :
    Correlation (handleCloseHandle s fd handle) := by
  rw [handleCloseHandle]
  split
  · refine inv.of_core (fun i mem => (mem_filter.mp mem).1) (fun _ known => known)
      fun q _ => ?_
    exact map_get?_modify (fun _ => by rfl) _ _ _
  · exact inv

theorem Correlation.step {e : Event} (fine : distinct s e) : Correlation (step s e) := by
  simp only [distinct, Bool.and_eq_true, Bool.or_eq_true, Bool.not_eq_true'] at fine
  obtain ⟨left, free⟩ := fine
  cases e with
  | closeHandle fd handle =>
    simp only [InfoHandles.step]
    split
    · exact inv.closeHandle fd handle
    · exact inv
  | request e events =>
    simp only [InfoHandles.step]
    split
    · next answers =>
      have free := free.resolve_left (by simp [answered, answers])
      have moved : quiet e → Correlation { s with core := Lifecycle.act s.core e } := by
        intro silent
        refine inv.of_core (fun _ mem => mem) (fun id known => ?_) fun q known =>
          doneView_act silent (known.ne_next left)
        have := known.step left e
        rwa [Lifecycle.step, if_pos answers] at this
      cases e with
      | newProcess => exact inv.newProcess left free
      | initProcessDone fd => exact inv.initProcessDone fd
      | disconnect fd => exact inv.disconnect fd
      | accept | newThread | initFirstThread | initThread | terminateProcess | other =>
        exact moved rfl
    · exact inv

end

def bareStart : State := State.start 0x10020 0x10022 .empty

def ask (e : Lifecycle.Event) : Event := .request e ⟨true, true, true⟩

def parents : List Event := [ask (.accept 5), ask (.initFirstThread 5 true), ask (.accept 15),
  ask (.initFirstThread 15 true), ask (.newProcess 5 ⟨[], some 6, some 9, some 10⟩)]

/-- The second parent has made a thread before. The first child starts, the second one dies early. -/
def twoFamilies : List Event := parents ++ [ask (.newThread 15 ⟨0, 0, .missing, some 18⟩),
  ask (.newProcess 15 ⟨[], some 16, some 19, some 20⟩), ask (.initFirstThread 6 true),
  ask (.initProcessDone 6), ask (.initFirstThread 16 true), .closeHandle 5 8, ask (.disconnect 16)]

def twoParents : List Event := parents ++
  [ask (.newProcess 15 ⟨[], some 16, some 19, some 20⟩), ask (.initFirstThread 6 true)]

end Triskelion.InfoHandles
