import Triskelion.AtomTable

/-! Window classes (`create_class`, `destroy_class` and `create_window` of
`event_loop/window.rs`). A class is kept under its atom: where its shared object is, the
pointer that the client gave for it, and the extra bytes of its windows. The process that
registers a class is not kept.

Beside the server stands what each process has registered, which is not in the code. -/

namespace Triskelion.WindowClasses

open RunRules (AllSteps)
open WindowServer (allocUserHandle ensureClassLocator handleCreateWindow startup takeIndex)
open AtomTable (AtomServer)

structure CreateClassRequest where
  atom : UInt32
  winExtra : Int32
  clientPtr : UInt64
  vararg : List UInt8

structure ClassServer where
  windows : WindowServer
  atomTable : AtomServer

namespace ClassServer

section
variable (s : ClassServer)

/-- The atom and the locator of the class. The maps of names are one. -/
def handleCreateClass (req : CreateClassRequest) : UInt32 × Locator × ClassServer :=
  let named := s.atomTable.classAtom req.atom req.vararg
  let made := s.windows.allocSharedObject
  (named.1, made.1,
    { windows := { made.2 with
        atomNames := named.2.atomNames
        classLocators := made.2.classLocators.insert named.1 made.1
        classClientPtrs := made.2.classClientPtrs.insert named.1 req.clientPtr
        classWinExtra := made.2.classWinExtra.insert named.1 req.winExtra }
      atomTable := named.2 })

def handleDestroyClass (atom : UInt32) : UInt64 × ClassServer :=
  ((s.windows.classClientPtrs.get? atom).getD 0, { s with windows := { s.windows with
        classLocators := s.windows.classLocators.erase atom
        classClientPtrs := s.windows.classClientPtrs.erase atom
        classWinExtra := s.windows.classWinExtra.erase atom } })

def handleCreateWindow (fd : Int32) (req : CreateWindowRequest) : ClassServer × WindowReply :=
  let out := s.windows.handleCreateWindow fd req
  ({ s with windows := out.server }, out.reply)

end

def boot (clients : Table Int32 WindowClient) (desktopRect : Rect) (sessionFd : Int32)
    (sharedBase : Nat) : ClassServer :=
  let windows := startup
    { clients, processes := .empty, threads := .empty, atomNames := .empty
      classLocators := .empty, classClientPtrs := .empty, classWinExtra := .empty
      monitorRect := Rect.zero, sessionFd } desktopRect sharedBase
  let atomTable := AtomServer.boot windows.desktopTopWindow
  { windows := { windows with
      atomNames := atomTable.atomNames
      windowProperties := atomTable.windowProperties }
    atomTable }

end ClassServer

/-- The pointer and the extra bytes of a class. -/
abbrev ClassData := UInt64 × Int32

/-- The server, the classes that each process has registered and not destroyed, and the
process of the last request on the class of an atom. -/
structure ClassRun where
  server : ClassServer
  registered : Table (UInt32 × UInt32) ClassData
  last : Table UInt32 UInt32

inductive ClassEvent
  | connect (fd : Int32) (client : WindowClient)
  | createClass (fd : Int32) (req : CreateClassRequest)
  | destroyClass (fd : Int32) (atom : UInt32)
  | createWindow (fd : Int32) (req : CreateWindowRequest)

namespace ClassRun

def pidOf (r : ClassRun) (fd : Int32) : UInt32 := r.server.windows.clientPid fd

def step (r : ClassRun) : ClassEvent → ClassRun
  | .connect fd client => { r with
      server := { r.server with windows := { r.server.windows with
        clients := r.server.windows.clients.insert fd client } } }
  | .createClass fd req =>
    let made := r.server.handleCreateClass req
    { server := made.2.2
      registered := r.registered.insert (r.pidOf fd, made.1) (req.clientPtr, req.winExtra)
      last := r.last.insert made.1 (r.pidOf fd) }
  | .destroyClass fd atom =>
    { server := (r.server.handleDestroyClass atom).2
      registered := r.registered.erase (r.pidOf fd, atom)
      last := r.last.insert atom (r.pidOf fd) }
  | .createWindow fd req => { r with server := (r.server.handleCreateWindow fd req).1 }

def start (server : ClassServer) : ClassRun := ⟨server, .empty, .empty⟩

/-- The class of a process under an atom. There are no built-in ones, and a class with a null
pointer is none. -/
def classOf (r : ClassRun) (pid atom : UInt32) : Option ClassData :=
  (r.registered.get? (pid, atom)).filter fun c => c.1 ≠ 0

def classReturned : WindowReply → Option ClassData
  | .createWindow _ _ _ extra classPtr => some (classPtr, extra)
  | _ => none

def Own (r : ClassRun) : ClassEvent → Prop
  | .createWindow fd req => classReturned (r.server.handleCreateWindow fd req).2 =
      r.classOf (r.pidOf fd) (r.server.windows.resolveAtom req)
  | _ => True

instance decidableOwn (r : ClassRun) (event : ClassEvent) : Decidable (r.Own event) := by
  cases event <;> unfold Own <;> infer_instance

/-- The last request on the class of the atom was made by the process itself, or by one whose
class under the atom looks the same. -/
def undisturbed (r : ClassRun) : ClassEvent → Bool
  | .createWindow fd req =>
    let atom := r.server.windows.resolveAtom req
    (r.last.get? atom).bind (fun pid => r.classOf pid atom) = r.classOf (r.pidOf fd) atom
  | _ => true

/-! ### The shared maps -/

/-- What the maps hold for an atom is what the last process to touch it has. -/
def Recorded (r : ClassRun) : Prop :=
  ∀ atom, r.server.windows.classClientPtrs.get? atom =
      ((r.last.get? atom).bind fun pid => r.registered.get? (pid, atom)).map Prod.fst ∧
    r.server.windows.classWinExtra.get? atom =
      ((r.last.get? atom).bind fun pid => r.registered.get? (pid, atom)).map Prod.snd

section
variable (w : WindowServer)

def classesOf : Table UInt32 UInt64 × Table UInt32 Int32 :=
  (w.classClientPtrs, w.classWinExtra)

theorem classesOf_allocUserHandle (objType : UInt16) (tid pid : UInt32) :
    classesOf (w.allocUserHandle objType tid pid).2 = classesOf w := by
  unfold allocUserHandle takeIndex
  dsimp only
  split <;> rfl

theorem classesOf_ensureClassLocator (atom : UInt32) :
    classesOf (w.ensureClassLocator atom) = classesOf w := by
  rw [ensureClassLocator]
  split <;> rfl

theorem classesOf_adoptDesktop (handle tid pid : UInt32) :
    classesOf (w.adoptDesktop handle tid pid).2 = classesOf w :=
  classesOf_allocUserHandle { w with desktopTopWindow := handle } ntuserObjWindow tid pid

section
variable (fd : Int32) (req : CreateWindowRequest)

theorem classesOf_handleCreateWindow :
    classesOf (w.handleCreateWindow fd req).server = classesOf w := by
  have ready : ∀ window, classesOf { ((w.allocUserHandle ntuserObjWindow
      ((w.clientThreadId fd).getD 0) (w.clientPid fd)).2.ensureClassLocator
      (w.resolveAtom req)) with windowStates := window } = classesOf w := fun _ =>
    (classesOf_ensureClassLocator _ _).trans (classesOf_allocUserHandle _ _ _ _)
  rw [handleCreateWindow]
  dsimp only
  split
  · exact (classesOf_adoptDesktop _ _ _ _).trans (ready _)
  · exact ready _

theorem reply_handleCreateWindow : ∃ handle parent, (w.handleCreateWindow fd req).reply =
      if (w.classClientPtrs.get? (w.resolveAtom req)).getD 0 = 0 then .error statusInvalidHandle
      else .createWindow handle parent req.owner ((w.classWinExtra.get? (w.resolveAtom req)).getD 0)
        ((w.classClientPtrs.get? (w.resolveAtom req)).getD 0) := by
  have kept := classesOf_handleCreateWindow w fd req
  simp only [classesOf, handleCreateWindow, Prod.mk.injEq] at kept ⊢
  rw [kept.1, kept.2]
  exact ⟨_, _, rfl⟩

end

end

variable {r : ClassRun}

theorem Recorded.step (recorded : Recorded r) (event : ClassEvent) : Recorded (r.step event) := by
  intro atom
  obtain ⟨ptrs, extras⟩ := recorded atom
  cases event with
  | connect => exact ⟨ptrs, extras⟩
  | createClass fd req =>
    simp only [ClassRun.step, ClassServer.handleCreateClass, Table.get?_insert]
    split
    next here => simp [here]
    next other =>
      have apart : ∀ pid : UInt32, (pid, atom) ≠ (r.pidOf fd,
          (r.server.atomTable.classAtom req.atom req.vararg).1) :=
        fun pid same => other (congrArg Prod.snd same)
      simp only [if_neg (apart _)]
      exact ⟨ptrs, extras⟩
  | destroyClass fd gone =>
    simp only [ClassRun.step, ClassServer.handleDestroyClass, Table.get?_insert, Table.get?_erase]
    split
    next here => simp [here]
    next other =>
      have apart : ∀ pid : UInt32, (pid, atom) ≠ (r.pidOf fd, gone) :=
        fun pid same => other (congrArg Prod.snd same)
      simp only [if_neg (apart _)]
      exact ⟨ptrs, extras⟩
  | createWindow fd req =>
    have kept := classesOf_handleCreateWindow r.server.windows fd req
    rw [classesOf, Prod.mk.injEq] at kept
    simp only [ClassRun.step, ClassServer.handleCreateWindow, kept.1, kept.2]
    exact ⟨ptrs, extras⟩

theorem Recorded.returned (recorded : Recorded r) (fd : Int32) (req : CreateWindowRequest) :
    classReturned (r.server.handleCreateWindow fd req).2 =
      (r.last.get? (r.server.windows.resolveAtom req)).bind fun pid =>
        r.classOf pid (r.server.windows.resolveAtom req) := by
  obtain ⟨ptrs, extras⟩ := recorded (r.server.windows.resolveAtom req)
  obtain ⟨handle, parent, reply⟩ := reply_handleCreateWindow r.server.windows fd req
  rw [ptrs, extras] at reply
  rw [ClassServer.handleCreateWindow, reply]
  cases last : r.last.get? (r.server.windows.resolveAtom req) with
  | none => simp [classReturned]
  | some pid =>
    cases entry : r.registered.get? (pid, r.server.windows.resolveAtom req) with
    | none => simp [classReturned, classOf, entry]
    | some c =>
      obtain ⟨ptr, extra⟩ := c
      by_cases null : ptr = 0 <;>
        simp [classReturned, classOf, entry, null, Option.filter_some]

theorem Recorded.own_iff (recorded : Recorded r) (event : ClassEvent) :
    r.Own event ↔ r.undisturbed event := by
  cases event with
  | connect | createClass | destroyClass => simp [Own, undisturbed]
  | createWindow => simp only [Own, undisturbed, recorded.returned, decide_eq_true_eq]

section
variable (clients : Table Int32 WindowClient) (desktopRect : Rect) (sessionFd : Int32)
  (sharedBase : Nat)
include desktopRect

theorem recorded_start : Recorded (start (.boot clients desktopRect sessionFd sharedBase)) :=
  fun _ => ⟨rfl, rfl⟩

/-- Along a run every window is created with the class of its own process exactly if every
window comes when nobody else has been at the class of its atom since, or has left it alike. -/
theorem windows_own_class_iff (events : List ClassEvent) :
    AllSteps step Own (start (.boot clients desktopRect sessionFd sharedBase)) events ↔
      AllSteps step (fun r event => r.undisturbed event)
        (start (.boot clients desktopRect sessionFd sharedBase)) events :=
  RunRules.allSteps_iff (fun _ event recorded => recorded.step event)
    (fun _ event recorded => recorded.own_iff event)
    (recorded_start clients desktopRect sessionFd sharedBase) events

end

def rivals : List ClassEvent :=
  [.connect 3 ⟨0x20, 0x24⟩, .connect 4 ⟨0x28, 0x2c⟩,
    .createClass 3 ⟨0x8005, 0, 0x1000, []⟩, .createClass 4 ⟨0x8005, 8, 0x2000, []⟩,
    .createWindow 3 ⟨0, 0, 0x8005, 0, 0, 0, 0, []⟩]

theorem rivals_share_class :
    ¬ AllSteps step Own (start (.boot .empty Rect.zero (-1) 0)) rivals := by
  decide +kernel

end ClassRun

/-! ### A window that is refused -/

section Refusals
variable (w : WindowServer)

theorem nextSharedOffset_allocUserHandle (objType : UInt16) (tid pid : UInt32) :
    w.nextSharedOffset < (w.allocUserHandle objType tid pid).2.nextSharedOffset := by
  unfold allocUserHandle takeIndex
  dsimp only
  split <;> exact Nat.lt_add_of_pos_right (by decide)

/-- The shared object of a window is taken before its class is looked at. -/
theorem nextSharedOffset_handleCreateWindow (fd : Int32) (req : CreateWindowRequest) :
    w.nextSharedOffset < (w.handleCreateWindow fd req).server.nextSharedOffset := by
  have desktop : ∀ (t : WindowServer) handle tid pid,
      t.nextSharedOffset < (t.adoptDesktop handle tid pid).2.nextSharedOffset := fun t handle =>
    nextSharedOffset_allocUserHandle { t with desktopTopWindow := handle } ntuserObjWindow
  have locator : ∀ t : WindowServer,
      t.nextSharedOffset ≤ (t.ensureClassLocator (w.resolveAtom req)).nextSharedOffset := by
    intro t
    unfold ensureClassLocator
    split
    · exact Nat.le_refl _
    · exact Nat.le_add_right _ _
  have made := Nat.lt_of_lt_of_le (nextSharedOffset_allocUserHandle w ntuserObjWindow
    ((w.clientThreadId fd).getD 0) (w.clientPid fd)) (locator _)
  rw [handleCreateWindow]
  dsimp only
  split
  · refine Nat.lt_trans ?_ (desktop _ _ _ _)
    exact made
  · exact made

end Refusals

namespace ClassServer

section
variable (s : ClassServer)

def createWindow (fd : Int32) : Option CreateWindowRequest → ClassServer × WindowReply
  | none => (s, .error 0xC000000D)
  | some req => s.handleCreateWindow fd req

/-- The windows, the user handles, the classes, the atoms and the part of the session memory
that is taken. -/
def holdings :=
  (s.windows.windowStates, (s.windows.nextUserHandleIndex, s.windows.userHandleFreeList),
    (s.windows.classLocators, s.windows.classClientPtrs, s.windows.classWinExtra),
    (s.windows.atomNames, s.atomTable), s.windows.nextSharedOffset, s.windows.nextSharedId)

/-- A window that is refused leaves nothing behind exactly if its class is one that a client
has registered, in which case it is not refused, or the request is too short. -/
theorem refused_unchanged_iff (fd : Int32) (req : Option CreateWindowRequest) :
    (∀ code, (s.createWindow fd req).2 = .error code → code ≠ 0 →
        (s.createWindow fd req).1.holdings = s.holdings) ↔
      (req.all fun req =>
        (s.windows.classClientPtrs.get? (s.windows.resolveAtom req)).getD 0 ≠ 0) := by
  cases req with
  | none => exact iff_of_true (fun _ _ _ => rfl) rfl
  | some req =>
    obtain ⟨handle, parent, reply⟩ := ClassRun.reply_handleCreateWindow s.windows fd req
    rw [Option.all_some, decide_eq_true_eq]
    constructor
    · intro unchanged missing
      rw [if_pos missing] at reply
      have same := congrArg (fun h => h.2.2.2.2.1) (unchanged _ reply (by decide))
      exact absurd same (Nat.ne_of_gt (nextSharedOffset_handleCreateWindow s.windows fd req))
    · intro known code refused
      rw [if_neg known] at reply
      cases reply.symm.trans refused

end

/-- A window without a class, which is refused and stays. -/
theorem refused_window_stays : let s := ClassServer.boot .empty Rect.zero (-1) 0
    let out := s.createWindow 3 (some ⟨0, 0, 0x8005, 0, 0, 0, 0, []⟩)
    out.2 = .error statusInvalidHandle ∧
      out.1.windows.windowStates.entries.length = s.windows.windowStates.entries.length + 1 ∧
      out.1.windows.nextUserHandleIndex = s.windows.nextUserHandleIndex + 1 := by
  decide +kernel

end ClassServer
end Triskelion.WindowClasses
