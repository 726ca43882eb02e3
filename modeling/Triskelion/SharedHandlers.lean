import Mathlib.Data.List.Sort
import Triskelion.HandleTable

/-! Parts of handlers that several models have. Each model keeps the tables that its results are
about; whom a handle names, what is copied and which threads stay is said here for all of them. -/

namespace Triskelion

/-- Process and thread ids, from one counter. -/
def ptid (index : UInt32) : UInt32 := (index + 8) * 4

/-! ### `get_next_thread` -/

/-- The next one of the threads of a process; `kept` is the thread under the last handle. -/
def nextThreadOf (tids : List UInt32) (last : UInt32) (kept : Option UInt32) (backwards : Bool) :
    Option UInt32 :=
  let tids := tids.insertionSort fun a b => a ≤ b
  let tids := if backwards then tids.reverse else tids
  if last = 0 then tids.head? else kept.bind fun lastTid => tids.find? fun tid => tid > lastTid

/-! ### `disconnect_client` -/

section
variable (clients : List (UInt32 × UInt32)) (pid : UInt32)

/-- The threads of the process with a client, from the process and thread ids of all clients. -/
def threadsConnected : List UInt32 :=
  (clients.filter fun c => c.1 = pid ∧ c.2 ≠ 0).map Prod.snd

/-- What is left of the threads of the process when `tid` leaves it. -/
def threadsLeft (tid : UInt32) (threads : List UInt32) : List UInt32 :=
  (threads.filter fun t => t ≠ tid).filter fun t => t ∈ threadsConnected clients pid

end

/-! ### `dup_handle` -/

def pseudoEntry (pid tid : UInt32) (handle : UInt32) : Option HandleEntry :=
  if handle = 0xFFFFFFFE then some ⟨tid.toUInt64, none, 2, 0x1FFFFF, 0⟩
  else if handle = 0xFFFFFFFF ∨ handle = 0x7FFFFFFF then some ⟨pid.toUInt64, none, 1, 0x1FFFFF, 0⟩
  else if handle = 0xFFFFFFFC then some ⟨0, none, 5, 0xF01FF, 0⟩
  else none

section
variable (processes : Table UInt32 HandleTable)

def entryOf (pid handle : UInt32) : Option HandleEntry :=
  (processes.get? pid).bind fun t => t.get handle

/-- The process that a handle of the caller stands for. -/
def processNamed (caller handle : UInt32) : UInt32 :=
  if handle = 0xFFFFFFFF ∨ handle = 0x7FFFFFFF then caller
  else ((entryOf processes caller handle).map fun e => e.objectId.toUInt32).getD caller

/-- What is copied. -/
def dupSource (pid tid src handle : UInt32) : Option HandleEntry :=
  (pseudoEntry pid tid handle).or (entryOf processes src handle)

end

def duplicateSameAccess : UInt32 := 2

def dupAccess (options access : UInt32) (entry : HandleEntry) : UInt32 :=
  if options &&& duplicateSameAccess ≠ 0 then entry.access else access

end Triskelion
