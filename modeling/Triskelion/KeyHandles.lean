import Triskelion.HandleTable
import Triskelion.RegistryOps
import Triskelion.RunRules

/-! Registry key handles and object handles. Keys are numbered by one counter of the
registry, objects by the slab of each process, and `close_handle` takes every
number for an object handle. -/

namespace Triskelion
open HandleSideTables

/-- What the handle requests read and write. `closedFds` records the calls of
`libc::close`, `keysReturned` the key handles each process was given. -/
structure HandleServer where
  registry : Registry
  processes : Table UInt32 HandleTable
  sideTables : HandleSideTables
  ntsyncRecyclable : Table (UInt32 × UInt32) Unit
  closedFds : List Int
  keysReturned : List (UInt32 × UInt32)

/-- Requests that allocate, register or close handles, with the process of the
client; `close_handle` finds none for an unknown thread. -/
inductive HandleRequest
  | newProcess (pid : UInt32)
  | allocate (pid : UInt32) (objectId : UInt64)
  | allocateFull (pid : UInt32) (entry : HandleEntry)
  | createNamedPipe (pid : UInt32) (objectId : UInt64) (dataFd : Int)
  | getPipeWaitHandle (pid pipeHandle : UInt32) (objectId : UInt64)
  | sendHandleFd (pid handle : UInt32)
  | setCompletionInfo (pid handle port : UInt32) (key : UInt64)
  | createKey (pid parent : UInt32) (name : List UInt8)
  | openKey (pid parent : UInt32) (name : List UInt8)
  | closeHandle (pid : Option UInt32) (handle : UInt32)

namespace HandleServer

def start (userSid : Str) : HandleServer := ⟨.empty userSid, .empty, .new, .empty, [], []⟩

section
variable (s : HandleServer)

def allocateFull (pid : UInt32) (entry : HandleEntry) : UInt32 × HandleServer :=
  match s.processes.get? pid with
  | none => (0, s)
  | some table =>
    let (handle, table) := table.allocateFull entry
    (handle, { s with processes := s.processes.insert pid table })

section
variable (pid : UInt32) (objectId : UInt64)

def allocate : HandleServer :=
  match s.processes.get? pid with
  | none => s
  | some table => { s with processes := s.processes.insert pid (table.allocate objectId).2 }

def createNamedPipe (dataFd : Int) : HandleServer :=
  let (handle, s) := s.allocateFull pid ⟨objectId, some dataFd, 8, 0x001F01FF, 0x20⟩
  { s with sideTables :=
      { s.sideTables with pipeHandles := s.sideTables.pipeHandles.insert (pid, handle) dataFd } }

end

/-- A new event is cached under the pipe's handle, unless one is there already. -/
def getPipeWaitHandle (pid pipeHandle : UInt32) (objectId : UInt64) : HandleServer :=
  if s.sideTables.ioWaitHandles.contains (pid, pipeHandle) then s
  else
    let (handle, s) := s.allocateFull pid ⟨objectId, some (-1), 1, 0x001F0003, 0x20⟩
    if handle = 0 then s
    else { s with
      ntsyncRecyclable := s.ntsyncRecyclable.insert (pid, handle) ()
      sideTables := { s.sideTables with
        ioWaitHandles := s.sideTables.ioWaitHandles.insert (pid, pipeHandle) handle } }

section
variable (pid handle : UInt32)

def removeNtsyncObj : HandleServer :=
  { s with ntsyncRecyclable := s.ntsyncRecyclable.erase (pid, handle) }

def closeEntry : HandleServer :=
  match s.processes.get? pid with
  | none => s
  | some table =>
    { s with
      processes := s.processes.insert pid (table.close handle).1
      closedFds := s.closedFds ++ (table.close handle).2 }

def closeHandle : HandleServer :=
  let s := s.removeNtsyncObj pid handle
  let (sideTables, closed, waitHandle) := s.sideTables.purge pid handle
  let s := { s with sideTables, closedFds := s.closedFds ++ closed }
  let s := match waitHandle with
    | some wh => s.removeNtsyncObj pid wh
    | none => s
  s.closeEntry pid handle

end

end

variable [CaseMap]

def handle (s : HandleServer) : HandleRequest → HandleServer
  | .newProcess pid => { s with processes := s.processes.insert pid .new }
  | .allocate pid objectId => s.allocate pid objectId
  | .allocateFull pid entry => (s.allocateFull pid entry).2
  | .createNamedPipe pid objectId dataFd => s.createNamedPipe pid objectId dataFd
  | .getPipeWaitHandle pid pipeHandle objectId => s.getPipeWaitHandle pid pipeHandle objectId
  | .sendHandleFd pid h =>
    { s with sideTables :=
        { s.sideTables with fdSent := s.sideTables.fdSent.insert (pid, h) () } }
  | .setCompletionInfo pid h port key =>
    { s with sideTables :=
        { s.sideTables with
          completionBindings := s.sideTables.completionBindings.insert (pid, h) (port, key) } }
  | .createKey pid parent name =>
    match s.registry.createKey parent name with
    | .error _ => s
    | .ok ((hkey, _), registry) =>
      { s with registry, keysReturned := (pid, hkey) :: s.keysReturned }
  | .openKey pid parent name =>
    match s.registry.openKey parent name with
    | .ok (some hkey, registry) =>
      { s with registry, keysReturned := (pid, hkey) :: s.keysReturned }
    | _ => s
  | .closeHandle (some pid) h => s.closeHandle pid h
  | .closeHandle none _ => s

omit [CaseMap]

def entry (s : HandleServer) (pid handle : UInt32) : Option HandleEntry :=
  (s.processes.get? pid).bind fun table => table.get handle

def references (s : HandleServer) (pid : UInt32) (fd : Int) : Option UInt32 :=
  (s.processes.get? pid).bind fun table => table.fdRefcounts.get? fd

end HandleServer

namespace KeyHandles
open HandleServer RunRules

/-- Nothing that a process holds through object handles differs. -/
structure Untouched (s t : HandleServer) (pid : UInt32) : Prop where
  entries : ∀ h, t.entry pid h = s.entry pid h
  references : ∀ fd, t.references pid fd = s.references pid fd
  closedFds : t.closedFds = s.closedFds
  sideTables : ∀ h, t.sideTables.kept pid h = s.sideTables.kept pid h

structure Free (s : HandleServer) (pid hkey : UInt32) : Prop where
  slot : s.entry pid hkey = none
  sideTables : s.sideTables.kept pid hkey = (none, none, none, none)

variable {s : HandleServer} {pid h : UInt32}

theorem closeHandle_eq : ∃ recyclable, s.closeHandle pid h = closeEntry { s with
        ntsyncRecyclable := recyclable
        sideTables := (s.sideTables.purge pid h).1
        closedFds := s.closedFds ++ (s.sideTables.purge pid h).2.1 } pid h := by
  rw [closeHandle]
  cases cached : ((s.removeNtsyncObj pid h).sideTables.purge pid h).2.2 with
  | none | some => exact ⟨_, by simp only [cached]; rfl⟩

theorem closeEntry_free (free : s.entry pid h = none) : Untouched s (s.closeEntry pid h) pid := by
  rw [closeEntry]
  cases found : s.processes.get? pid with
  | none => exact ⟨fun _ => rfl, fun _ => rfl, rfl, fun _ => rfl⟩
  | some table =>
    have vacant : table.get h = none := by simpa [entry, found] using free
    dsimp only
    rw [HandleTable.close_vacant vacant]
    refine ⟨fun _ => ?_, fun _ => ?_, by simp, fun _ => rfl⟩
    · simp [entry, found, Table.get?_insert]
    · simp [references, found, Table.get?_insert]

theorem closeEntry_entry : (s.closeEntry pid h).entry pid h = none := by
  rw [closeEntry]
  cases found : s.processes.get? pid with
  | none => simp [entry, found]
  | some => simp [entry, Table.get?_insert, HandleTable.get_close]

theorem closeEntry_sideTables : (s.closeEntry pid h).sideTables = s.sideTables := by
  rw [closeEntry]
  split <;> rfl

theorem closeHandle_untouched_iff : Untouched s (s.closeHandle pid h) pid ↔ Free s pid h := by
  obtain ⟨recyclable, closes⟩ := closeHandle_eq
  rw [closes]
  constructor
  · intro same
    refine ⟨?_, ?_⟩
    · rw [← same.entries h, closeEntry_entry]
    · rw [← same.sideTables h, closeEntry_sideTables, kept_purge, if_pos rfl]
  · intro free
    have noPipe : s.sideTables.pipeHandles.get? (pid, h) = none :=
      congrArg Prod.fst free.sideTables
    have rest := closeEntry_free (s := { s with
        ntsyncRecyclable := recyclable
        sideTables := (s.sideTables.purge pid h).1
        closedFds := s.closedFds ++ (s.sideTables.purge pid h).2.1 }) free.slot
    refine ⟨rest.entries, rest.references, ?_, fun other => ?_⟩
    · rw [rest.closedFds]
      simp [purge, noPipe]
    · rw [rest.sideTables other]
      rw [kept_purge]
      split
      · next same => rw [same, free.sideTables]
      · rfl

section
variable [CaseMap]

/-- A close of a key handle that the process was given leaves its objects alone. -/
def Separated (s : HandleServer) : HandleRequest → Prop
  | .closeHandle (some pid) h =>
    (pid, h) ∈ s.keysReturned → Untouched s (s.handle (.closeHandle (some pid) h)) pid
  | _ => True

def ClosesFree (s : HandleServer) : HandleRequest → Prop
  | .closeHandle (some pid) h => (pid, h) ∈ s.keysReturned → Free s pid h
  | _ => True

theorem run_separated_iff (userSid : Str) (requests : List HandleRequest) :
    AllSteps handle Separated (start userSid) requests ↔
      AllSteps handle ClosesFree (start userSid) requests := by
  have step : ∀ s req, Separated s req ↔ ClosesFree s req := by
    intro s req
    cases req with
    | closeHandle pid h =>
      cases pid with
      | none => exact Iff.rfl
      | some pid => exact imp_congr_right fun _ => closeHandle_untouched_iff
    | _ => exact Iff.rfl
  generalize start userSid = s
  induction requests generalizing s with
  | nil => exact Iff.rfl
  | cons req rest ih => exact and_congr (step s req) (ih (s.handle req))

end

def fourthKeyClosed : List HandleRequest :=
  [.newProcess 32, .allocateFull 32 ⟨0x1000, some 7, 1, 0, 0⟩, .createKey 32 0 [], .createKey 32 0 [],
    .createKey 32 0 [], .createKey 32 0 [], .closeHandle (some 32) 4]

theorem fourthKeyClosed_closes_object :
    ¬ AllSteps (@handle asciiCase) (@Separated asciiCase) (start []) fourthKeyClosed := by
  rintro ⟨-, -, -, -, -, -, separated, -⟩
  have closed := (separated (by decide)).closedFds
  revert closed
  decide

end KeyHandles
end Triskelion
