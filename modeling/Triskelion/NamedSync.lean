import Triskelion.HandleTable
import Triskelion.RunRules

/-! Named events, mutexes and semaphores (`sync.rs`). One table has the names of all three
kinds. A name that is found there is answered with a handle to the object it has, whatever
the kind of the request. -/

namespace Triskelion.NamedSync

open RunRules

inductive SyncKind
  | event
  | mutex
  | semaphore
deriving DecidableEq

def SyncKind.code : SyncKind → UInt32
  | .event => 2
  | .mutex => 3
  | .semaphore => 4

theorem SyncKind.code_inj {a b : SyncKind} (same : a.code = b.code) : a = b := by
  revert same
  cases a <;> cases b <;> decide

inductive NtsyncObject
  | event (manual signaled : Bool)
  | mutex (owner count : UInt32)
  | semaphore (count max : UInt32)
deriving DecidableEq

def NtsyncObject.kind : NtsyncObject → SyncKind
  | .event _ _ => .event
  | .mutex _ _ => .mutex
  | .semaphore _ _ => .semaphore

/-- A descriptor for an object, which goes by its number among all that were made, and the
kind that is recorded with it. -/
structure SyncRef where
  object : Nat
  syncType : UInt32
deriving DecidableEq

structure SyncState where
  processes : Table UInt32 HandleTable
  nextObjectId : UInt64
  objects : List NtsyncObject
  namedSync : Table String SyncRef
  ntsyncObjects : Table (UInt32 × UInt32) SyncRef

/-- The part of a request that all six have: the process of the caller, the name as it was
read, and whether `eventfd` and `dup` succeed. -/
structure Call where
  caller : UInt32
  name : Option String
  efd : Option Int
  dup : Bool

structure SyncReply where
  error : UInt32
  handle : UInt32
deriving DecidableEq

def statusObjectNameExists : UInt32 := 0x40000000
def statusObjectNameNotFound : UInt32 := 0xC0000034

def SyncReply.succeeded (reply : SyncReply) : Bool := reply.error < 0x80000000

namespace SyncState

/-! ### The handlers -/

section
variable (s : SyncState)

def allocWaitableHandle (pid : UInt32) (efd : Option Int) : UInt32 × SyncState :=
  let taken := { s with nextObjectId := s.nextObjectId + 1 }
  match efd, s.processes.get? pid with
  | some efd, some t =>
    let made := t.allocateFull ⟨s.nextObjectId, some efd, 1, 0x001F0003, 0x20⟩
    (made.1, { taken with processes := s.processes.insert pid made.2 })
  | _, _ => (0, taken)

def make (object : NtsyncObject) : SyncState :=
  { s with objects := s.objects ++ [object] }

def attach (pid handle : UInt32) (ref : SyncRef) : SyncState :=
  { s with ntsyncObjects := s.ntsyncObjects.insert (pid, handle) ref }

def nameObject (name : String) (ref : SyncRef) : SyncState :=
  { s with namedSync := s.namedSync.insert name ref }

def find (name : Option String) : Option SyncRef := name.bind s.namedSync.get?

def register (call : Call) (handle syncType : UInt32) (object : NtsyncObject) : SyncState :=
  let ref : SyncRef := ⟨s.objects.length, syncType⟩
  let made := s.make object
  let named :=
    match call.name with
    | some name => if call.dup then made.nameObject name ref else made
    | none => made
  named.attach call.caller handle ref

def create (syncType : UInt32) (call : Call) (object : Option NtsyncObject) :
    SyncReply × SyncState :=
  let made := s.allocWaitableHandle call.caller call.efd
  if made.1 = 0 then (⟨0, made.1⟩, made.2)
  else
    match made.2.find call.name with
    -- the type in `ref` is copied, and not compared with the kind that is asked for
    | some ref => (⟨statusObjectNameExists, made.1⟩,
        if call.dup then made.2.attach call.caller made.1 ref else made.2)
    | none => (⟨0, made.1⟩,
        match object with
        | some object => made.2.register call made.1 syncType object
        | none => made.2)

section
variable (call : Call)
include call

def handleCreateEvent (manualReset initialState made : Bool) : SyncReply × SyncState :=
  s.create SyncKind.event.code call (if made then some (.event manualReset initialState) else none)

def handleCreateMutex (owned : Bool) (tid : UInt32) (made : Bool) : SyncReply × SyncState :=
  s.create SyncKind.mutex.code call
    (if made then some (if owned then .mutex tid 1 else .mutex 0 0) else none)

def handleCreateSemaphore (initial max : UInt32) (made : Bool) : SyncReply × SyncState :=
  s.create SyncKind.semaphore.code call (if made then some (.semaphore initial max) else none)

/-- Where `dup` fails an event is made in place of the object. -/
def openNamed (fallback : UInt32 → Option NtsyncObject) : SyncReply × SyncState :=
  match s.find call.name with
  | none => (⟨statusObjectNameNotFound, 0⟩, s)
  | some ref =>
    let made := s.allocWaitableHandle call.caller call.efd
    (⟨0, made.1⟩,
      if made.1 = 0 then made.2
      else if call.dup then made.2.attach call.caller made.1 ref
      else
        match fallback ref.syncType with
        | some object =>
          (made.2.make object).attach call.caller made.1 ⟨made.2.objects.length, ref.syncType⟩
        | none => made.2)

def handleOpenEvent (made : Bool) : SyncReply × SyncState :=
  s.openNamed call fun syncType => if made then some (.event (syncType == 4) false) else none

def handleOpenMutex (made : Bool) : SyncReply × SyncState :=
  s.openNamed call fun _ => if made then some (.event false false) else none

def handleOpenSemaphore (made : Bool) : SyncReply × SyncState :=
  s.openNamed call fun _ => if made then some (.event false false) else none

end

end

/-- Two mutexes have a name before the first client comes. -/
def start (processes : Table UInt32 HandleTable) (display font : Bool) : SyncState :=
  let empty : SyncState := ⟨processes, 0x1000, [], .empty, .empty⟩
  let preset (s : SyncState) (made : Bool) (name : String) : SyncState :=
    if made then (s.make (.mutex 0 0)).nameObject name ⟨s.objects.length, 3⟩ else s
  preset (preset empty display "display_device_init") font "__wine_font_mutex__"

end SyncState

/-! ### Runs -/

inductive SyncRequest
  | createEvent (call : Call) (manualReset initialState made : Bool)
  | createMutex (call : Call) (owned : Bool) (tid : UInt32) (made : Bool)
  | createSemaphore (call : Call) (initial max : UInt32) (made : Bool)
  | openEvent (call : Call) (made : Bool)
  | openMutex (call : Call) (made : Bool)
  | openSemaphore (call : Call) (made : Bool)

def SyncRequest.call : SyncRequest → Call
  | .createEvent call _ _ _ | .createMutex call _ _ _ | .createSemaphore call _ _ _
  | .openEvent call _ | .openMutex call _ | .openSemaphore call _ => call

def SyncRequest.kind : SyncRequest → SyncKind
  | .createEvent _ _ _ _ | .openEvent _ _ => .event
  | .createMutex _ _ _ _ | .openMutex _ _ => .mutex
  | .createSemaphore _ _ _ _ | .openSemaphore _ _ => .semaphore

open SyncState
def answer (s : SyncState) : SyncRequest → SyncReply × SyncState
  | .createEvent call manualReset initialState made =>
    s.handleCreateEvent call manualReset initialState made
  | .createMutex call owned tid made => s.handleCreateMutex call owned tid made
  | .createSemaphore call initial max made => s.handleCreateSemaphore call initial max made
  | .openEvent call made => s.handleOpenEvent call made
  | .openMutex call made => s.handleOpenMutex call made
  | .openSemaphore call made => s.handleOpenSemaphore call made

def step (s : SyncState) (req : SyncRequest) : SyncState := (answer s req).2

/-! ### Kinds -/

namespace SyncState

section
variable (s : SyncState)

def kindOf (ref : SyncRef) : Option SyncKind :=
  s.objects[ref.object]?.map NtsyncObject.kind

def kindAt (pid handle : UInt32) : Option SyncKind :=
  (s.ntsyncObjects.get? (pid, handle)).bind s.kindOf

def Recorded : Prop :=
  ∀ name ref, s.namedSync.get? name = some ref →
    (s.kindOf ref).map SyncKind.code = some ref.syncType

end

end SyncState

section
variable (s : SyncState) (req : SyncRequest)

/-- What a request does for a name that an object has: if it succeeds then with a handle to
an object of its own kind, and it fails where the object is of another kind. -/
def Typed : Prop :=
  ∀ ref, s.find req.call.name = some ref → ((answer s req).1.succeeded →
      (step s req).kindAt req.call.caller (answer s req).1.handle = some req.kind) ∧
    (s.kindOf ref ≠ some req.kind → (answer s req).1.succeeded = false)

/-- The system has a handle and a descriptor for a request on a name that is known. -/
def served : Bool :=
  (s.find req.call.name).isNone ||
    req.call.dup && (s.allocWaitableHandle req.call.caller req.call.efd).1 ≠ 0

def fitting : Bool :=
  (s.find req.call.name).all fun ref => ref.syncType = req.kind.code

end

section Lemmas
variable {s : SyncState} {call : Call} {ref : SyncRef} {syncType : UInt32}

variable {pid : UInt32} {efd : Option Int}

theorem allocWaitableHandle_eq : (s.allocWaitableHandle pid efd).2 = { s with
      processes := (s.allocWaitableHandle pid efd).2.processes
      nextObjectId := s.nextObjectId + 1 } := by
  unfold allocWaitableHandle
  split <;> rfl

theorem kindAt_attach (handle : UInt32) :
    (s.attach pid handle ref).kindAt pid handle = s.kindOf ref := by
  simp [kindAt, attach, Table.get?_insert, kindOf]

theorem find_allocated (name : Option String) :
    (s.allocWaitableHandle pid efd).2.find name = s.find name := by
  rw [allocWaitableHandle_eq]
  rfl

/-! The answer for a name that is known. -/

variable {req : SyncRequest}

theorem answer_known (known : s.find req.call.name = some ref) (dup : req.call.dup)
    (handle : (s.allocWaitableHandle req.call.caller req.call.efd).1 ≠ 0) :
    ∃ error, SyncReply.succeeded ⟨error, 0⟩ ∧ answer s req =
      (⟨error, (s.allocWaitableHandle req.call.caller req.call.efd).1⟩,
        (s.allocWaitableHandle req.call.caller req.call.efd).2.attach req.call.caller
          (s.allocWaitableHandle req.call.caller req.call.efd).1 ref) := by
  cases req with
  | createEvent | createMutex | createSemaphore =>
    refine ⟨statusObjectNameExists, rfl, ?_⟩
    simp only [SyncRequest.call] at known dup handle
    simp [answer, handleCreateEvent, handleCreateMutex, handleCreateSemaphore, create, handle,
      find_allocated, known, dup, SyncRequest.call]
  | openEvent | openMutex | openSemaphore =>
    refine ⟨0, rfl, ?_⟩
    simp only [SyncRequest.call] at known dup handle
    simp [answer, handleOpenEvent, handleOpenMutex, handleOpenSemaphore, openNamed, handle, known,
      dup, SyncRequest.call]

theorem typed_iff (recorded : s.Recorded) (ok : served s req) : Typed s req ↔ fitting s req := by
  unfold Typed fitting
  cases known : s.find req.call.name with
  | none => simp
  | some ref =>
    obtain ⟨name, -, at_name⟩ := Option.bind_eq_some_iff.mp known
    obtain ⟨kind, has, code⟩ := Option.map_eq_some_iff.mp (recorded name ref at_name)
    obtain ⟨dup, handle⟩ : req.call.dup ∧
        (s.allocWaitableHandle req.call.caller req.call.efd).1 ≠ 0 := by
      simpa [served, known] using ok
    obtain ⟨error, succeeded, answered⟩ := answer_known known dup handle
    have good : (answer s req).1.succeeded := by
      rw [answered]
      exact succeeded
    have behind : (step s req).kindAt req.call.caller (answer s req).1.handle = some kind := by
      rw [step, answered, kindAt_attach, ← has, allocWaitableHandle_eq]
      rfl
    have fits : ref.syncType = req.kind.code ↔ kind = req.kind := by
      rw [← code]
      exact ⟨SyncKind.code_inj, congrArg SyncKind.code⟩
    simp [good, behind, has, fits]

/-! Every name is recorded with the kind of its object. -/

theorem SyncState.Recorded.of_same {t : SyncState} (recorded : s.Recorded) (named : t.namedSync = s.namedSync)
    (objects : t.objects = s.objects) : t.Recorded := by
  intro name ref found
  rw [named] at found
  rw [kindOf, objects]
  exact recorded name ref found

variable {object : NtsyncObject}

theorem SyncState.Recorded.make (recorded : s.Recorded) (object : NtsyncObject) : (s.make object).Recorded := by
  intro name ref found
  have has := recorded name ref found
  obtain ⟨kind, at_ref, -⟩ := Option.map_eq_some_iff.mp has
  obtain ⟨old, at_index, -⟩ := Option.map_eq_some_iff.mp at_ref
  have inside := (List.getElem?_eq_some_iff.mp at_index).1
  rw [kindOf, SyncState.make, List.getElem?_append_left inside]
  exact has

theorem SyncState.Recorded.nameObject (recorded : s.Recorded) (name : String)
    (has : (s.kindOf ref).map SyncKind.code = some ref.syncType) :
    (s.nameObject name ref).Recorded :=
  Table.forall_insert recorded has

theorem kindOf_made : (s.make object).kindOf ⟨s.objects.length, syncType⟩ = some object.kind := by
  simp [kindOf, make]

section
variable (recorded : s.Recorded)
include recorded

theorem SyncState.Recorded.register (call : Call) (handle : UInt32)
    (kind : object.kind.code = syncType) : (s.register call handle syncType object).Recorded := by
  have made := recorded.make object
  have attached : ∀ t : SyncState, t.Recorded →
      (t.attach call.caller handle ⟨s.objects.length, syncType⟩).Recorded :=
    fun t recorded => recorded.of_same rfl rfl
  apply attached
  split
  · split
    · refine made.nameObject _ ?_
      rw [kindOf_made, Option.map_some, kind]
    · exact made
  · exact made

theorem SyncState.Recorded.allocated (pid : UInt32) (efd : Option Int) :
    (s.allocWaitableHandle pid efd).2.Recorded := by
  rw [allocWaitableHandle_eq]
  exact recorded.of_same rfl rfl

theorem SyncState.Recorded.create {object : Option NtsyncObject}
    (kind : ∀ o, object = some o → o.kind.code = syncType) :
    (s.create syncType call object).2.Recorded := by
  have made := recorded.allocated call.caller call.efd
  unfold SyncState.create
  dsimp only
  split
  · exact made
  · split
    · split
      · exact made.of_same rfl rfl
      · exact made
    · cases object with
      | none => exact made
      | some object => exact made.register call _ (kind object rfl)

theorem SyncState.Recorded.openNamed (fallback : UInt32 → Option NtsyncObject) :
    (s.openNamed call fallback).2.Recorded := by
  have made := recorded.allocated call.caller call.efd
  unfold SyncState.openNamed
  split
  · exact recorded
  · dsimp only
    split
    · exact made
    · split
      · exact made.of_same rfl rfl
      · split
        · exact (made.make _).of_same rfl rfl
        · exact made

theorem recorded_step : (step s req).Recorded := by
  cases req with
  | createEvent _ _ _ made | createSemaphore _ _ _ made =>
    exact recorded.create (by cases made <;> simp [NtsyncObject.kind])
  | createMutex _ owned _ made =>
    exact recorded.create (by cases made <;> cases owned <;> simp [NtsyncObject.kind])
  | openEvent | openMutex | openSemaphore => exact recorded.openNamed _

end

theorem recorded_start (processes : Table UInt32 HandleTable) (display font : Bool) :
    (start processes display font).Recorded := by
  have preset : ∀ (s : SyncState) (made : Bool) (name : String), s.Recorded →
      (if made then (s.make (.mutex 0 0)).nameObject name ⟨s.objects.length, 3⟩ else s).Recorded := by
    intro s made name recorded
    split
    · refine (recorded.make _).nameObject name ?_
      rw [kindOf_made]
      rfl
    · exact recorded
  exact preset _ font _ (preset _ display _ nofun)

end Lemmas

/-- A request on a known name is answered with an object of its kind, and refused where the
name has another kind, exactly as long as nobody uses a name for two kinds. -/
theorem typed_iff_fitting (processes : Table UInt32 HandleTable) (display font : Bool)
    (reqs : List SyncRequest)
    (ok : AllSteps step (fun s req => served s req) (start processes display font) reqs) :
    AllSteps step Typed (start processes display font) reqs ↔
      AllSteps step (fun s req => fitting s req) (start processes display font) reqs := by
  have recorded := recorded_start processes display font
  constructor
  · intro typed
    exact allSteps_of_invariant (fun s req recorded _ => recorded_step recorded)
      (fun s req recorded both => (typed_iff recorded both.1).mp both.2) recorded (ok.and typed)
  · intro fits
    exact allSteps_of_invariant (fun s req recorded _ => recorded_step recorded)
      (fun s req recorded both => (typed_iff recorded both.1).mpr both.2) recorded (ok.and fits)

/-- The processes 32 and 36 share an event and a mutex, each under its own name. -/
theorem typed_two_names :
    AllSteps step Typed (start ((Table.empty.insert 32 .new).insert 36 .new) true true)
      [.createEvent ⟨32, some "ready", some 5, true⟩ true false true,
        .createMutex ⟨32, some "lock", some 6, true⟩ true 40 true,
        .openEvent ⟨36, some "ready", some 7, true⟩ true,
        .createMutex ⟨36, some "lock", some 8, true⟩ false 44 true,
        .openMutex ⟨36, some "__wine_font_mutex__", some 9, true⟩ true] :=
  (typed_iff_fitting _ true true _ (by decide +kernel)).mpr (by decide +kernel)

/-- Process 36 creates a mutex with the name of an event, and gets a handle to the event. -/
theorem mutex_for_event_name :
    ¬ AllSteps step Typed (start ((Table.empty.insert 32 .new).insert 36 .new) true true)
      [.createEvent ⟨32, some "ready", some 5, true⟩ true false true,
        .createMutex ⟨36, some "ready", some 6, true⟩ true 44 true] := by
  rintro ⟨-, typed, -⟩
  have fits := (typed_iff (recorded_step (recorded_start _ _ _)) (by decide +kernel)).mp typed
  revert fits
  decide +kernel

end Triskelion.NamedSync
