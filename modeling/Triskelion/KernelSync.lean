import Mathlib.Data.UInt
import Triskelion.WaitAll

/-! The semaphores and mutexes of the kernel module (`triskelion_sync.c`), with the requests of
`triskelion_dispatch.c` for them. A semaphore is released by an addition of 32-bit words that may
wrap, and its count is then read with a sign. A mutex is taken by the calling thread, but created
and released for whichever thread the request names. -/

namespace Triskelion.KernelSync

open RunRules WaitAll Operation Function

/-! ### Semaphores -/

structure Semaphore where
  count : Int32
  max : UInt32
deriving DecidableEq

def semCreate (initial max : UInt32) : Option Semaphore :=
  if max < initial ∨ max = 0 then none else some ⟨initial.toInt32, max⟩

def eoverflow : Int := 75

namespace Semaphore

variable (s : Semaphore)

def release (n : UInt32) : (Int × UInt32) × Semaphore :=
  let new := s.count.toUInt32 + n
  if s.max < new then ((-eoverflow, s.count.toUInt32), s)
  else ((0, s.count.toUInt32), { s with count := new.toInt32 })

def tryAcquire : Option Semaphore :=
  if s.count ≤ 0 then none else some { s with count := s.count - 1 }

def object : Object := .semaphore s.count s.max

theorem object_release (n : UInt32) :
    (s.release n).2.object = (releaseSemaphore n).apply s.object := by
  simp only [release, object, apply]
  split <;> rfl

theorem object_tryAcquire (tid : UInt32) : s.tryAcquire.map object = s.object.tryAcquire tid := by
  simp only [tryAcquire, object, Object.tryAcquire]
  split <;> rfl

end Semaphore

inductive SemRequest
  | release (n : UInt32)
  | acquire

namespace Semaphore

section
variable (s : Semaphore)
include s

def step : SemRequest → Semaphore
  | .release n => (s.release n).2
  | .acquire => s.tryAcquire.getD s

def Bounded : Prop := 0 ≤ s.count.toInt ∧ s.count.toInt ≤ s.max.toNat

/-- A release that succeeds adds what it should and tells the count before, and one that would
exceed the maximum fails and changes nothing; what is there can be acquired. -/
def Exact : SemRequest → Prop
  | .release n =>
    let out := s.release n
    (out.1.1 = 0 → out.2.count.toInt = s.count.toInt + n.toNat ∧ out.1.2.toNat = s.count.toInt) ∧
      (s.max.toNat < s.count.toInt + n.toNat → out.1.1 ≠ 0 ∧ out.2 = s)
  | .acquire => s.tryAcquire.isSome ↔ 0 < s.count.toInt

/-- The sum is too large for the maximum as a word, or is no more than the largest signed word. -/
def inRange : SemRequest → Bool
  | .release n => s.max < s.count.toUInt32 + n ∨ s.count.toUInt32.toNat + n.toNat < 2 ^ 31
  | .acquire => true

end

variable {s : Semaphore}

theorem toInt_eq (c : Int32) : c.toInt =
    if c.toUInt32.toNat < 2 ^ 31 then (c.toUInt32.toNat : Int) else c.toUInt32.toNat - 2 ^ 32 := by
  rw [Int32.toInt, BitVec.toInt_eq_toNat_cond, show c.toUInt32.toNat = c.toBitVec.toNat from rfl]
  split_ifs <;> omega

theorem inRange_iff (bounded : s.Bounded) (req : SemRequest) :
    s.inRange req ↔ s.Exact req ∧ (s.step req).Bounded := by
  obtain ⟨low, high⟩ := bounded
  have value := toInt_eq s.count
  cases req with
  | release n =>
    have sum := UInt32.toNat_add s.count.toUInt32 n
    have signed := toInt_eq (s.count.toUInt32 + n).toInt32
    rw [UInt32.toUInt32_toInt32] at signed
    simp only [inRange, Exact, step, release, UInt32.lt_iff_toNat_lt, Bounded, decide_eq_true_eq]
    split_ifs with above
    · grind [eoverflow]
    · dsimp only
      generalize (s.count.toUInt32 + n).toInt32.toInt = total at *
      grind
  | acquire =>
    have less := Int32.toInt_sub s.count 1
    rw [show Int32.toInt 1 = 1 from rfl] at less
    have top := s.count.toInt_lt
    rw [Int.bmod_eq_of_le_mul_two (by omega) (by omega)] at less
    simp only [inRange, Exact, step, tryAcquire, Int32.le_iff_toInt_le, Bounded]
    split_ifs <;> simp [less] <;> grind

/-- The counts are kept as they should be exactly when no count passes the largest signed word. -/
theorem counts_sound_iff {initial max : UInt32} {sem : Semaphore}
    (created : semCreate initial max = some sem) (requests : List SemRequest) :
    (∀ t ∈ states step sem requests, t.Bounded) ∧ AllSteps step Exact sem requests ↔
      initial.toNat < 2 ^ 31 ∧ AllSteps step (fun s req => s.inRange req) sem requests := by
  have start : sem.Bounded ↔ initial.toNat < 2 ^ 31 := by
    have value := toInt_eq initial.toInt32
    have small := initial.toNat_lt
    rw [UInt32.toUInt32_toInt32] at value
    grind [semCreate, Bounded, UInt32.lt_iff_toNat_lt]
  rw [← start]
  by_cases bounded : sem.Bounded
  · simp only [bounded, true_and]
    exact good_and_seen_iff (fun _ req good => inRange_iff good req) bounded
  · have first : sem ∈ states step sem requests := by cases requests <;> simp [states]
    exact iff_of_false (fun good => bounded (good.1 sem first)) fun good => bounded good.1

theorem released_and_acquired : (∀ t ∈ states step ⟨1, 5⟩ [.release 3, .acquire], t.Bounded) ∧
      AllSteps step Exact ⟨1, 5⟩ [.release 3, .acquire] :=
  (counts_sound_iff (by decide : semCreate 1 5 = some ⟨1, 5⟩) [.release 3, .acquire]).mpr
    (by decide)

/-- A release by `2 ^ 32 - 1` succeeds and takes one from the count. -/
theorem release_wraps : semCreate 1 5 = some ⟨1, 5⟩ ∧
    Semaphore.release ⟨1, 5⟩ (-1) = ((0, 1), ⟨0, 5⟩) ∧ ¬ Exact ⟨1, 5⟩ (.release (-1)) :=
  ⟨by decide, by decide, fun exact => absurd (exact.1 rfl).1 (by decide)⟩

end Semaphore

/-! ### Mutexes -/

structure Mutex where
  owner : UInt32
  count : UInt32
deriving DecidableEq

def mutexCreate (ownerTid : UInt32) : Mutex := ⟨ownerTid, if ownerTid = 0 then 0 else 1⟩

def eperm : Int := 1

namespace Mutex

variable (m : Mutex) (tid : UInt32)

def release : (Int × Option UInt32) × Mutex :=
  if m.owner ≠ tid then ((-eperm, none), m)
  else if m.count - 1 = 0 then ((0, m.count), ⟨0, 0⟩)
  else ((0, m.count), { m with count := m.count - 1 })

def tryAcquire : Option Mutex :=
  if m.owner = 0 then some ⟨tid, 1⟩
  else if m.owner = tid then some { m with count := m.count + 1 }
  else none

def object : Object := .mutex m.owner m.count

theorem object_release : (m.release tid).2.object = (releaseMutex tid).apply m.object := by
  simp only [release, object, apply]
  split_ifs <;> rfl

theorem object_tryAcquire : (m.tryAcquire tid).map object = m.object.tryAcquire tid := by
  simp only [tryAcquire, object, Object.tryAcquire]
  split_ifs <;> rfl

def Consistent : Prop := m.owner = 0 ↔ m.count = 0

end Mutex

/-- The id of a thread that makes a request, which is never zero. -/
abbrev Thread := {pid : UInt32 // pid ≠ 0}

structure Held where
  mutex : Mutex
  /-- The thread that acquired the mutex by waiting, and how often it has still to release it. -/
  holder : Option (Thread × Nat)
deriving DecidableEq

inductive MutexRequest
  /-- With the handle that the table gives for it. -/
  | create (handle : Nat) (ownerTid : UInt32)
  | wait (thread : Thread) (handle : Nat)
  | release (thread : Thread) (handle : Nat) (ownerTid : UInt32)

namespace Held

variable (m : Held) (thread : Thread)

def acquire : Held :=
  match m.mutex.tryAcquire thread with
  | none => m
  | some mutex =>
    ⟨mutex, some (thread, if m.holder.map Prod.fst = some thread then
      (m.holder.map Prod.snd).getD 0 + 1 else 1)⟩

def released (ownerTid : UInt32) : Held :=
  let out := m.mutex.release ownerTid
  ⟨out.2, if out.1.1 = 0 then m.holder.bind fun (holder, n) =>
    if holder ≠ thread then some (holder, n) else if n ≤ 1 then none else some (holder, n - 1)
    else m.holder⟩

end Held

abbrev Mutexes := Nat → Option Held

namespace Mutexes

variable (s : Mutexes)

def step : MutexRequest → Mutexes
  | .create handle tid =>
    if (s handle).isNone then update s handle (some ⟨mutexCreate tid, none⟩) else s
  | .wait thread handle => update s handle ((s handle).map (·.acquire thread))
  | .release thread handle tid =>
    update s handle ((s handle).map (·.released thread tid))

def AllConsistent : Prop := ∀ handle m, s handle = some m → m.mutex.Consistent

/-- A release by another thread than the one that holds the mutex fails and changes nothing. -/
def Guarded : MutexRequest → Prop
  | .release thread handle tid => ∀ m, s handle = some m → ∀ holder n,
    m.holder = some (holder, n) → thread ≠ holder →
      (m.mutex.release tid).1.1 ≠ 0 ∧ (m.released thread tid).mutex = m.mutex
  | _ => True

def fair : MutexRequest → Bool
  | .create _ _ => true
  | .wait thread handle =>
    (s handle).all fun m => m.mutex.owner ≠ thread.1 ∨ m.mutex.count + 1 ≠ 0
  | .release thread handle tid => (s handle).all fun m => m.mutex.owner ≠ tid ∨
    tid ≠ 0 ∧ m.holder.all (·.1 = thread)

variable {s}

theorem allConsistent_update (good : s.AllConsistent) (handle : Nat) (new : Option Held) :
    AllConsistent (update s handle new) ↔ ∀ m, new = some m → m.mutex.Consistent := by
  refine ⟨fun all m held => all handle m (by simpa using held), fun here handle' m held => ?_⟩
  by_cases same : handle' = handle
  · exact here m (by simpa [same] using held)
  · exact good handle' m (by simpa [same] using held)

theorem fair_iff (good : s.AllConsistent) (req : MutexRequest) :
    s.fair req ↔ s.Guarded req ∧ (s.step req).AllConsistent := by
  cases req with
  | create handle tid =>
    simp only [fair, Guarded, step, true_and, true_iff]
    split_ifs with free
    · rw [allConsistent_update good]
      grind [mutexCreate, Mutex.Consistent]
    · exact good
  | wait thread handle =>
    simp only [fair, Guarded, step, true_and, allConsistent_update good]
    cases found : s handle with
    | none => simp
    | some m =>
      have here := good handle m found
      have := thread.2
      grind [Held.acquire, Mutex.tryAcquire, Mutex.Consistent]
  | release thread handle tid =>
    simp only [fair, Guarded, step, allConsistent_update good]
    cases found : s handle with
    | none => simp
    | some m =>
      have here := good handle m found
      by_cases own : m.mutex.owner = tid
      · have done : (m.mutex.release tid).1.1 = 0 := by grind [Mutex.release]
        have kept : (m.released thread tid).mutex.Consistent ↔ tid ≠ 0 := by
          grind [Held.released, Mutex.release, Mutex.Consistent]
        cases held : m.holder <;> simp [own, done, kept, held]
        grind
      · simp [own, Held.released, Mutex.release, eperm, here]

/-- The mutexes are kept as they should be exactly when no count wraps, no free mutex is released
for thread 0, and only the holder of a mutex releases it for its owner. -/
theorem ownership_kept_iff (requests : List MutexRequest) :
    (∀ t ∈ states step (fun _ => none) requests, t.AllConsistent) ∧
        AllSteps step Guarded (fun _ => none) requests ↔
      AllSteps step (fun s req => s.fair req) (fun _ => none) requests :=
  good_and_seen_iff (fun _ req good => fair_iff good req) (by simp [AllConsistent])

/-- Thread 2 releases the mutex that thread 1 acquired, by naming it; a free mutex is released for
thread 0 and has a count. -/
theorem foreign_release :
    let s : Mutexes := run step (fun _ => none) [.create 1 0, .wait ⟨1, by decide⟩ 1]
    s 1 = some ⟨⟨1, 1⟩, some (⟨1, by decide⟩, 1)⟩ ∧
      (step s (.release ⟨2, by decide⟩ 1 1) 1).map Held.mutex = some ⟨0, 0⟩ ∧
      (step s (.release ⟨1, by decide⟩ 1 1) 1).map (·.mutex.release 0) =
        some ((0, some 0), ⟨0, -1⟩) := by
  decide

end Mutexes

end Triskelion.KernelSync
