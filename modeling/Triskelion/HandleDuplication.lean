import Triskelion.Authority
import Triskelion.DescriptorTables
import Triskelion.SlabContents

/-! `dup_handle` (`event_loop/handles.rs`): an entry of one handle table is copied into
another one, together with its descriptor and the ntsync object that is registered for the
handle. Which processes are meant goes by handles of the caller, and falls back to the
caller itself.

A descriptor number stands for an open file, and an ntsync object for a kernel object; two
descriptors are copies of one another when they stand for the same one. -/

namespace Triskelion.HandleDuplication

open Table Option HandleTable DescriptorTables HeapSlab List

/-- A registered ntsync object: the kernel object behind it, and its type. -/
structure SyncObject where
  kernel : Nat
  syncType : UInt32
deriving DecidableEq

structure Server where
  clients : Table RawFd Client
  processes : Table UInt32 HandleTable
  ntsyncObjects : Table (UInt32 × UInt32) SyncObject
  /-- the open descriptors, and the file of each -/
  files : Table RawFd Nat

/-- What the calls of one request return: the number of the copied descriptor, whether the
ntsync object can be copied, and the kernel object of a new event. -/
structure KernelCalls where
  dup : Option Nat
  dupObject : Bool
  createEvent : Option Nat

structure DupHandleRequest where
  srcProcess : UInt32
  srcHandle : UInt32
  dstProcess : UInt32
  access : UInt32
  options : UInt32

structure DupHandleReply where
  error : UInt32
  handle : UInt32

def duplicateCloseSource : UInt32 := 1

def DupHandleRequest.newAccess (req : DupHandleRequest) (entry : HandleEntry) : UInt32 :=
  dupAccess req.options req.access entry

namespace Server

def entryAt (s : Server) (pid handle : UInt32) : Option HandleEntry := entryOf s.processes pid handle

section
variable (s : Server) (clientFd : RawFd)

def callerPid : Option UInt32 :=
  (s.clients.get? clientFd).bind fun c => if c.processId ≠ 0 then some c.processId else none

def callerTid : UInt32 :=
  ((s.clients.get? clientFd).map Client.threadId).getD 0

def processNamed (handle : UInt32) : Option UInt32 :=
  (s.callerPid clientFd).map fun caller => Triskelion.processNamed s.processes caller handle

section
variable (req : DupHandleRequest)

def srcPid : Option UInt32 :=
  s.processNamed clientFd req.srcProcess

def dstPid : Option UInt32 :=
  s.processNamed clientFd req.dstProcess

def pseudoSource (handle : UInt32) : Option HandleEntry :=
  pseudoEntry ((s.callerPid clientFd).getD 0) (s.callerTid clientFd) handle

def source : Option HandleEntry :=
  (s.pseudoSource clientFd req.srcHandle).or
    ((s.srcPid clientFd req).bind fun pid => s.entryAt pid req.srcHandle)

end

section
variable (k : KernelCalls)

/-- `libc::dup`: the number is one that was not open, or -1. -/
def dup (fd : RawFd) : RawFd × Server :=
  if fd < 0 then (-1, s)
  else
    match s.files.get? fd, k.dup with
    | some file, some n =>
      if s.files.contains n then (-1, s) else (n, { s with files := s.files.insert n file })
    | _, _ => (-1, s)

def copyEntry (entry : HandleEntry) (access : UInt32) : HandleEntry × Server :=
  match entry.fd with
  | none => ({ entry with access }, s)
  | some fd => ({ entry with access, fd := some (s.dup k fd).1 }, (s.dup k fd).2)

def allocate (dst : Option UInt32) (entry : HandleEntry) : UInt32 × Server :=
  match dst.bind fun pid => (s.processes.get? pid).map fun t => (pid, t) with
  | some (pid, t) => ((t.allocateFull entry).1,
      { s with processes := s.processes.insert pid (t.allocateFull entry).2 })
  | none => (0, s)

def newEvent : Option SyncObject :=
  (k.createEvent.filter fun id => s.ntsyncObjects.entries.all fun e => e.2.kernel ≠ id).map
    fun id => ⟨id, 1⟩

def objectFor (src : Option UInt32) (srcHandle : UInt32) : Option SyncObject :=
  match src.bind fun pid => s.ntsyncObjects.get? (pid, srcHandle) with
  | some obj => if k.dupObject then some obj else s.newEvent k
  | none => s.newEvent k

end

def register (dst : Option UInt32) (handle : UInt32) (obj : Option SyncObject) : Server :=
  match dst, obj with
  | some pid, some obj => { s with ntsyncObjects := s.ntsyncObjects.insert (pid, handle) obj }
  | _, _ => s

end

/-- `DUPLICATE_CLOSE_SOURCE` is not looked at. -/
def handleDupHandle (s : Server) (k : KernelCalls) (clientFd : RawFd) :
    Option DupHandleRequest → Server × DupHandleReply
  | none => (s, ⟨0xC000000D, 0⟩)
  | some req =>
    match s.source clientFd req with
    | none => (s, ⟨0xC0000008, 0⟩)
    | some entry =>
      let copied := s.copyEntry k entry (req.newAccess entry)
      let made := copied.2.allocate (s.dstPid clientFd req) copied.1
      if made.1 ≠ 0 then
        (made.2.register (s.dstPid clientFd req) made.1
          (s.objectFor k (s.srcPid clientFd req) req.srcHandle), ⟨0, made.1⟩)
      else (made.2, ⟨0, made.1⟩)

end Server

/-! ### What a duplicate is -/

def descriptorOf (entry : HandleEntry) : Option RawFd := entry.fd.filter fun fd => 0 ≤ fd

section
variable (handle : UInt32)

/-- The handle value under which an entry was given out: the two low bits do not count. -/
def givenOut : UInt32 := (handle >>> 2) <<< 2

def isPseudo : Bool := handle ∈ [0xFFFFFFFE, 0xFFFFFFFF, 0x7FFFFFFF, 0xFFFFFFFC]

def sourceKey : UInt32 := if isPseudo handle then handle else givenOut handle

end

/-- Whom a process handle of the caller means: the process with the number of the object, or,
under the caller's own pseudo handles and where nothing is open, the caller. -/
inductive Names (s : Server) (caller handle : UInt32) : UInt32 → Prop
  | opened {e : HandleEntry} (real : handle ≠ 0xFFFFFFFF ∧ handle ≠ 0x7FFFFFFF)
    (found : s.entryAt caller handle = some e) : Names s caller handle e.objectId.toUInt32
  | self (own : handle = 0xFFFFFFFF ∨ handle = 0x7FFFFFFF) : Names s caller handle caller
  | fallback (missing : s.entryAt caller handle = none) : Names s caller handle caller

def Means (s : Server) (clientFd : RawFd) (handle pid : UInt32) : Prop :=
  ∃ caller, s.callerPid clientFd = some caller ∧ Names s caller handle pid

theorem names_iff {s : Server} {caller handle pid : UInt32} :
    Names s caller handle pid ↔ Triskelion.processNamed s.processes caller handle = pid := by
  rw [Triskelion.processNamed, ← Server.entryAt]
  constructor
  · intro names
    cases names with
    | opened real found => simp [real, found]
    | self own => rw [if_pos own]
    | fallback missing => simp [missing]
  · rintro rfl
    split_ifs with own
    · exact .self own
    · cases found : s.entryAt caller handle with
      | none => exact .fallback found
      | some => exact .opened (not_or.mp own) found

theorem means_iff {s : Server} {clientFd : RawFd} {handle pid : UInt32} :
    Means s clientFd handle pid ↔ s.processNamed clientFd handle = some pid := by
  simp only [Means, Server.processNamed, names_iff, map_eq_some_iff]

def DescriptorCopied (s after : Server) (entry copy : HandleEntry) : Prop :=
  match descriptorOf entry with
  | none => descriptorOf copy = none
  | some fd => ∃ fd' file, descriptorOf copy = some fd' ∧ s.files.get? fd = some file ∧
      after.files.get? fd' = some file ∧ s.files.get? fd' = none

/-- The new handle of the destination stands for what the source handle stands for, and the
source is closed if that was asked for. -/
structure Duplicated (s after : Server) (clientFd : RawFd) (req : DupHandleRequest)
    (entry : HandleEntry) (dst handle : UInt32) : Prop where
  nonzero : handle ≠ 0
  process : s.processes.contains dst
  free : s.entryAt dst handle = none
  copied : ∃ copy, after.entryAt dst handle = some copy ∧
    (copy.objectId = entry.objectId ∧ copy.objType = entry.objType) ∧
    copy.access = req.newAccess entry ∧ DescriptorCopied s after entry copy
  object : ∀ src obj, Means s clientFd req.srcProcess src →
    s.ntsyncObjects.get? (src, sourceKey req.srcHandle) = some obj →
    after.ntsyncObjects.get? (dst, handle) = some obj
  closed : req.options &&& duplicateCloseSource ≠ 0 → isPseudo req.srcHandle = false →
    ∀ src, Means s clientFd req.srcProcess src → after.entryAt src req.srcHandle = none

def Honest (s : Server) (clientFd : RawFd) (request : Option DupHandleRequest)
    (out : Server × DupHandleReply) : Prop :=
  (out.2.error = 0 → ∃ req entry dst, request = some req ∧ s.source clientFd req = some entry ∧
    Means s clientFd req.dstProcess dst ∧ Duplicated s out.1 clientFd req entry dst out.2.handle) ∧
    (out.2.error ≠ 0 → out.1 = s)

/-! ### When it is one -/

def nextHandle (t : HandleTable) : UInt32 := t.slab.bump <<< 2

def NextFits (t : HandleTable) : Prop :=
  nextHandle t ≠ 0 ∧ (nextHandle t >>> 2).toNat = t.slab.slots.length

def CanDup (s : Server) (k : KernelCalls) (fd : RawFd) : Prop :=
  s.files.contains fd ∧ ∃ n, k.dup = some n ∧ s.files.get? n = none

/-- The object of the source is registered under the very value in the request and can be
copied. Where no object at all can be registered, one that was left at the new handle may be
the right one by chance. -/
def ObjectKept (s : Server) (k : KernelCalls) (src srcHandle dst handle : UInt32)
    (obj : SyncObject) : Prop :=
  if k.dupObject ∧ (s.ntsyncObjects.get? (src, srcHandle)).isSome then
    s.ntsyncObjects.get? (src, srcHandle) = some obj
  else s.newEvent k = none ∧ s.ntsyncObjects.get? (dst, handle) = some obj

/-- The destination exists and has room, the kernel copies what there is to copy, and the
source is not to be closed. -/
structure Faithful (s : Server) (k : KernelCalls) (clientFd : RawFd) (req : DupHandleRequest)
    (entry : HandleEntry) (dst : UInt32) (t : HandleTable) : Prop where
  dstPid : s.dstPid clientFd req = some dst
  process : s.processes.get? dst = some t
  fits : NextFits t
  descriptor : ∀ fd, descriptorOf entry = some fd → CanDup s k fd
  object : ∀ src obj, s.srcPid clientFd req = some src →
    s.ntsyncObjects.get? (src, sourceKey req.srcHandle) = some obj →
    ObjectKept s k src req.srcHandle dst (nextHandle t) obj
  keep : req.options &&& duplicateCloseSource = 0 ∨ isPseudo req.srcHandle

/-! ### The steps of the handler -/

theorem get_allocateFull_free {t : HandleTable} {h : UInt32} (free : t.get h = none)
    (entry : HandleEntry) {x : HandleEntry} : (t.allocateFull entry).2.get h = some x ↔
      (h >>> 2).toNat = t.slab.slots.length ∧ x = entry := by
  rw [get_eq] at free
  simp only [get_eq, allocateFull, contents_insertBump, getElem?_concat, contents_length]
  split
  next here => simp only [here, join_some, Option.some.injEq, true_and, eq_comm]
  next other => simp only [free, reduceCtorEq, other, false_and]

variable {fd : RawFd}

section
variable (s : Server) (k : KernelCalls)
include s

@[simp] theorem processes_dup : (s.dup k fd).2.processes = s.processes := by
  rw [Server.dup]
  split
  · rfl
  · split
    · split <;> rfl
    · rfl

@[simp] theorem ntsyncObjects_dup : (s.dup k fd).2.ntsyncObjects = s.ntsyncObjects := by
  rw [Server.dup]
  split
  · rfl
  · split
    · split <;> rfl
    · rfl

theorem copyEntry_spec (entry : HandleEntry) (access : UInt32) :
    (s.copyEntry k entry access).1.objectId = entry.objectId ∧
      (s.copyEntry k entry access).1.objType = entry.objType ∧
      (s.copyEntry k entry access).1.access = access ∧
      (s.copyEntry k entry access).2.processes = s.processes ∧
      (s.copyEntry k entry access).2.ntsyncObjects = s.ntsyncObjects := by
  rw [Server.copyEntry]
  split <;> simp

end

theorem dup_spec {s : Server} {k : KernelCalls} (nonneg : 0 ≤ fd) :
    (CanDup s k fd ∧ ∃ n file, s.dup k fd = (n, { s with files := s.files.insert n file }) ∧
        0 ≤ n ∧ s.files.get? n = none ∧ s.files.get? fd = some file) ∨
      ¬ CanDup s k fd ∧ s.dup k fd = (-1, s) := by
  rw [Server.dup, if_neg (Int.not_lt.mpr nonneg)]
  cases opened : s.files.get? fd with
  | none =>
    refine .inr ⟨fun can => ?_, rfl⟩
    obtain ⟨file, found⟩ := (contains_iff _ _).mp can.1
    cases opened.symm.trans found
  | some file =>
    cases returned : k.dup with
    | none =>
      refine .inr ⟨fun ⟨_, n, some_, _⟩ => ?_, rfl⟩
      cases returned.symm.trans some_
    | some n =>
      dsimp only
      split
      next taken =>
        refine .inr ⟨fun ⟨_, m, some_, fresh⟩ => ?_, rfl⟩
        cases returned.symm.trans some_
        obtain ⟨other, found⟩ := (contains_iff _ _).mp taken
        cases fresh.symm.trans found
      next fresh =>
        have unopened : s.files.get? (n : Int) = none := by
          cases found : s.files.get? (n : Int) with
          | none => rfl
          | some other => exact absurd (contains_of_get? found) fresh
        exact .inl ⟨⟨contains_of_get? opened, n, returned, unopened⟩,
          n, file, rfl, Int.natCast_nonneg n, unopened, rfl⟩

theorem descriptorCopied_iff {s after : Server} {k : KernelCalls} {entry : HandleEntry}
    {access : UInt32} (files : after.files = (s.copyEntry k entry access).2.files) :
    DescriptorCopied s after entry (s.copyEntry k entry access).1 ↔
      ∀ fd, descriptorOf entry = some fd → CanDup s k fd := by
  rw [DescriptorCopied]
  cases has : descriptorOf entry with
  | none =>
    simp only [reduceCtorEq, false_implies, implies_true, iff_true]
    rw [descriptorOf, filter_eq_none_iff] at has
    rw [Server.copyEntry]
    split
    next none_ => simp [descriptorOf, none_]
    next fd stored =>
      have negative : fd < 0 := by simpa using has fd stored
      simp [descriptorOf, Server.dup, negative]
  | some fd =>
    obtain ⟨stored, nonneg⟩ := filter_eq_some_iff.mp has
    replace nonneg : 0 ≤ fd := of_decide_eq_true nonneg
    simp only [Server.copyEntry, stored] at files
    simp only [Server.copyEntry, stored, Option.some.injEq, forall_eq']
    rcases dup_spec (k := k) (s := s) nonneg with ⟨can, n, file, copied, fresh⟩ | ⟨cannot, failed⟩
    · rw [copied] at files ⊢
      refine ⟨fun _ => can, fun _ => ⟨n, file, ?_, fresh.2.2, ?_, fresh.2.1⟩⟩
      · simp [descriptorOf, fresh.1]
      · rw [files, get?_insert, if_pos rfl]
    · rw [failed]
      refine ⟨fun ⟨fd', file, none_, _⟩ => ?_, fun can => absurd can cannot⟩
      obtain ⟨same, valid⟩ := filter_eq_some_iff.mp none_
      cases same
      exact absurd (of_decide_eq_true valid) (by decide : ¬ (0 : Int) ≤ -1)

structure Outcome (s : Server) (k : KernelCalls) (clientFd : RawFd) (req : DupHandleRequest)
    (entry : HandleEntry) (dst : UInt32) (t : HandleTable) (out : Server × DupHandleReply) :
    Prop where
  error : out.2.error = 0
  handle : out.2.handle = nextHandle t
  processes : out.1.processes = s.processes.insert dst (t.allocateFull
    (s.copyEntry k entry (req.newAccess entry)).1).2
  files : out.1.files = (s.copyEntry k entry (req.newAccess entry)).2.files
  object : nextHandle t ≠ 0 → out.1.ntsyncObjects.get? (dst, nextHandle t) =
    (s.objectFor k (s.srcPid clientFd req) req.srcHandle).or
      (s.ntsyncObjects.get? (dst, nextHandle t))

section Handler
variable {s : Server} {k : KernelCalls} {clientFd : RawFd} {req : DupHandleRequest}
  {entry : HandleEntry} {dst : UInt32} {t : HandleTable}

theorem handle_outcome (found : s.source clientFd req = some entry)
    (named : s.dstPid clientFd req = some dst) (process : s.processes.get? dst = some t) :
    Outcome s k clientFd req entry dst t (s.handleDupHandle k clientFd (some req)) := by
  obtain ⟨-, -, -, processes, objects⟩ := copyEntry_spec s k entry (req.newAccess entry)
  have made : ∀ copy, Server.allocate (s.copyEntry k entry (req.newAccess entry)).2 (some dst)
      copy = (nextHandle t, { (s.copyEntry k entry (req.newAccess entry)).2 with
        processes := s.processes.insert dst (t.allocateFull copy).2 }) := by
    intro copy
    simp only [Server.allocate, bind_some, processes, process, map_some]
    rfl
  rw [Server.handleDupHandle, found]
  simp only [named, made]
  split
  next nonzero =>
    cases obj : s.objectFor k (s.srcPid clientFd req) req.srcHandle with
    | none => exact ⟨rfl, rfl, rfl, rfl, fun _ => by rw [obj]; simp [Server.register, objects]⟩
    | some =>
      exact ⟨rfl, rfl, rfl, rfl, fun _ => by
        rw [obj]; simp [Server.register, get?_insert]⟩
  next zero => exact ⟨rfl, rfl, rfl, rfl, fun nonzero => absurd nonzero zero⟩

theorem handle_unplaced (found : s.source clientFd req = some entry)
    (unplaced : ∀ dst, s.dstPid clientFd req = some dst → s.processes.get? dst = none) :
    (s.handleDupHandle k clientFd (some req)).2 = ⟨0, 0⟩ := by
  obtain ⟨-, -, -, processes, -⟩ := copyEntry_spec s k entry (req.newAccess entry)
  have nothing : ((s.dstPid clientFd req).bind fun pid =>
      (s.processes.get? pid).map fun t => (pid, t)) = none := by
    cases named : s.dstPid clientFd req with
    | none => rfl
    | some dst => simp [unplaced dst named]
  rw [Server.handleDupHandle, found]
  simp [Server.allocate, processes, nothing]

theorem newEvent_ne {key : UInt32 × UInt32} {obj event : SyncObject}
    (registered : s.ntsyncObjects.get? key = some obj) (made : s.newEvent k = some event) :
    event ≠ obj := by
  rintro rfl
  obtain ⟨id, allowed, rfl⟩ := map_eq_some_iff.mp made
  have fresh := (filter_eq_some_iff.mp allowed).2
  have mem := (s.ntsyncObjects.mem_entries key ⟨id, 1⟩).mpr registered
  simpa using all_eq_true.mp fresh _ mem

theorem objectKept_iff {src srcKey handle : UInt32} {obj : SyncObject}
    (registered : s.ntsyncObjects.get? (src, srcKey) = some obj) :
    (s.objectFor k (some src) req.srcHandle).or (s.ntsyncObjects.get? (dst, handle)) = some obj ↔
      ObjectKept s k src req.srcHandle dst handle obj := by
  have fallback : (s.newEvent k).or (s.ntsyncObjects.get? (dst, handle)) = some obj ↔
      s.newEvent k = none ∧ s.ntsyncObjects.get? (dst, handle) = some obj := by
    cases made : s.newEvent k with
    | none => simp
    | some => simp [newEvent_ne registered made]
  rw [Server.objectFor, ObjectKept, bind_some]
  cases stored : s.ntsyncObjects.get? (src, req.srcHandle) with
  | none => simpa using fallback
  | some =>
    by_cases can : k.dupObject
    · simp [can]
    · simpa [can] using fallback

theorem source_entryAt (found : s.source clientFd req = some entry)
    (real : isPseudo req.srcHandle = false) {src : UInt32}
    (named : s.srcPid clientFd req = some src) : s.entryAt src req.srcHandle = some entry := by
  simp only [isPseudo, mem_cons, not_mem_nil, or_false, decide_eq_false_iff_not, not_or] at real
  have none_ : s.pseudoSource clientFd req.srcHandle = none := by
    simp [Server.pseudoSource, pseudoEntry, real]
  rwa [Server.source, none_, named] at found

variable {out : Server × DupHandleReply}

theorem Outcome.entryAt_live (outcome : Outcome s k clientFd req entry dst t out)
    (process : s.processes.get? dst = some t) {pid handle : UInt32} {old : HandleEntry}
    (live : s.entryAt pid handle = some old) : out.1.entryAt pid handle = some old := by
  rw [Server.entryAt, entryOf, outcome.processes, get?_insert]
  split
  next here =>
    subst here
    rw [Server.entryAt, entryOf, process, bind_some] at live
    rw [bind_some, get_allocateFull _ (by rw [live]; rfl), live]
  next other => exact live

theorem srcPid_of_source (found : s.source clientFd req = some entry)
    (real : isPseudo req.srcHandle = false) : ∃ src, s.srcPid clientFd req = some src := by
  cases named : s.srcPid clientFd req with
  | some src => exact ⟨src, rfl⟩
  | none =>
    simp only [isPseudo, mem_cons, not_mem_nil, or_false, decide_eq_false_iff_not, not_or] at real
    simp [Server.source, Server.pseudoSource, pseudoEntry, real, named] at found

section
variable (outcome : Outcome s k clientFd req entry dst t out)
include outcome

theorem faithful_of_duplicated
    (found : s.source clientFd req = some entry) (named : s.dstPid clientFd req = some dst)
    (process : s.processes.get? dst = some t)
    (duplicated : Duplicated s out.1 clientFd req entry dst out.2.handle) :
    Faithful s k clientFd req entry dst t := by
  have nonzero := outcome.handle ▸ duplicated.nonzero
  have free : t.get (nextHandle t) = none := by
    have vacant := duplicated.free
    rwa [Server.entryAt, entryOf, process, outcome.handle] at vacant
  obtain ⟨copy, stored, -, -, descriptor⟩ := duplicated.copied
  rw [Server.entryAt, entryOf, outcome.processes, get?_insert, if_pos rfl, bind_some,
    outcome.handle, get_allocateFull_free free] at stored
  obtain ⟨here, rfl⟩ := stored
  refine ⟨named, process, ⟨nonzero, here⟩, (descriptorCopied_iff outcome.files).mp descriptor,
    fun src obj source registered => ?_, ?_⟩
  · have kept := duplicated.object src obj (means_iff.mpr source) registered
    rwa [outcome.handle, outcome.object nonzero, source, objectKept_iff registered] at kept
  · by_contra asked
    simp only [not_or, Bool.not_eq_true] at asked
    obtain ⟨src, source⟩ := srcPid_of_source found asked.2
    have closed := duplicated.closed asked.1 asked.2 src (means_iff.mpr source)
    rw [outcome.entryAt_live process (source_entryAt found asked.2 source)] at closed
    cases closed

theorem duplicated_of_faithful (faithful : Faithful s k clientFd req entry dst t) :
    Duplicated s out.1 clientFd req entry dst out.2.handle := by
  obtain ⟨nonzero, here⟩ := faithful.fits
  have free : t.get (nextHandle t) = none := by
    rw [get_eq, here, getElem?_eq_none (Nat.le_of_eq (contents_length _))]
    rfl
  obtain ⟨objectId, objType, access, -, -⟩ := copyEntry_spec s k entry (req.newAccess entry)
  rw [outcome.handle]
  refine ⟨nonzero, contains_of_get? faithful.process, ?_, ?_,
    fun src obj source registered => ?_, fun asked real => ?_⟩
  · rw [Server.entryAt, entryOf, faithful.process, bind_some, free]
  · refine ⟨(s.copyEntry k entry (req.newAccess entry)).1, ?_, ⟨objectId, objType⟩, access,
      (descriptorCopied_iff outcome.files).mpr faithful.descriptor⟩
    rw [Server.entryAt, entryOf, outcome.processes, get?_insert, if_pos rfl, bind_some,
      get_allocateFull_free free]
    exact ⟨here, rfl⟩
  · have source : s.srcPid clientFd req = some src := means_iff.mp source
    rw [outcome.object nonzero, source, objectKept_iff registered]
    exact faithful.object src obj source registered
  · rcases faithful.keep with kept | pseudo
    · exact absurd kept asked
    · rw [pseudo] at real
      cases real

end

end Handler

theorem honest_of_error {s : Server} (clientFd : RawFd) (request : Option DupHandleRequest)
    {error : UInt32} (nonzero : error ≠ 0) : Honest s clientFd request (s, ⟨error, 0⟩) :=
  ⟨fun zero => absurd zero nonzero, fun _ => rfl⟩

theorem dup_handle_honest_iff (s : Server) (k : KernelCalls) (clientFd : RawFd)
    (request : Option DupHandleRequest) :
    Honest s clientFd request (s.handleDupHandle k clientFd request) ↔
      ∀ req entry, request = some req → s.source clientFd req = some entry →
        ∃ dst t, Faithful s k clientFd req entry dst t := by
  cases request with
  | none =>
    exact ⟨fun _ _ _ none_ => (some_ne_none _ none_.symm).elim,
      fun _ => honest_of_error clientFd none (by decide)⟩
  | some req =>
    cases found : s.source clientFd req with
    | none =>
      have refused : s.handleDupHandle k clientFd (some req) = (s, ⟨0xC0000008, 0⟩) := by
        rw [Server.handleDupHandle, found]
      rw [refused]
      refine ⟨fun _ req' entry same source => ?_,
        fun _ => honest_of_error clientFd (some req) (by decide)⟩
      cases same
      rw [found] at source
      cases source
    | some entry =>
      by_cases placed : ∃ dst t, s.dstPid clientFd req = some dst ∧ s.processes.get? dst = some t
      · obtain ⟨dst, t, named, process⟩ := placed
        have outcome := handle_outcome (k := k) found named process
        constructor
        · intro honest req' entry' same source
          cases same
          cases found.symm.trans source
          obtain ⟨req', entry', dst', same, source, named', duplicated⟩ := honest.1 outcome.error
          cases same
          cases found.symm.trans source
          cases named.symm.trans (means_iff.mp named')
          exact ⟨dst, t, faithful_of_duplicated outcome found named process duplicated⟩
        · intro faithful
          obtain ⟨dst', t', faithful⟩ := faithful req entry rfl found
          cases named.symm.trans faithful.dstPid
          cases process.symm.trans faithful.process
          exact ⟨fun _ => ⟨req, entry, dst, rfl, found, means_iff.mpr named,
            duplicated_of_faithful outcome faithful⟩, fun error => absurd outcome.error error⟩
      · have unplaced := handle_unplaced (k := k) found fun dst named => by
          cases process : s.processes.get? dst with
          | none => rfl
          | some t => exact absurd ⟨dst, t, named, process⟩ placed
        constructor
        · intro honest
          obtain ⟨_, _, _, _, _, _, duplicated⟩ := honest.1 (by rw [unplaced])
          exact absurd (by rw [unplaced]) duplicated.nonzero
        · intro faithful
          obtain ⟨dst, t, faithful⟩ := faithful req entry rfl found
          exact absurd ⟨dst, t, faithful.dstPid, faithful.process⟩ placed

/-! ### A duplicate that closes its source -/

def fileServer : Server where
  clients := Table.empty.insert 7 { msgFd := 8, processId := 0x20, threadId := 0x24 }
  processes := Table.empty.insert 0x20
    (new.allocateFull ⟨0x1000, some 5, 1, 0x120089, 0x20⟩).2
  ntsyncObjects := .empty
  files := Table.empty.insert 5 0

/-- `DuplicateHandle` within the process with `DUPLICATE_CLOSE_SOURCE`. -/
def moveRequest : DupHandleRequest := ⟨0xFFFFFFFF, 4, 0xFFFFFFFF, 0, 3⟩

theorem move_keeps_source :
    (fileServer.handleDupHandle ⟨some 9, true, some 1⟩ 7 (some moveRequest)).2.error = 0 ∧
      ¬ Honest fileServer 7 (some moveRequest)
        (fileServer.handleDupHandle ⟨some 9, true, some 1⟩ 7 (some moveRequest)) := by
  have error : (fileServer.handleDupHandle ⟨some 9, true, some 1⟩ 7 (some moveRequest)).2.error = 0 := by
    decide +kernel
  refine ⟨error, fun honest => ?_⟩
  obtain ⟨req, entry, dst, same, -, -, duplicated⟩ := honest.1 error
  cases same
  have gone := duplicated.closed (by decide) (by decide) 0x20 (means_iff.mpr (by decide +kernel))
  exact absurd gone (by decide +kernel)

end Triskelion.HandleDuplication
