import Triskelion.DaemonTables

/-! The threads of a process one after another, by `get_next_thread`. A call goes on from the
thread that is kept under the number of the last handle, whichever process was given it, to
the next larger id, also where the ids are walked from the largest on. -/

namespace Triskelion.DaemonTables

open RunRules List Table Option
open Lifecycle (clientPid)

variable (s : State) (fd : Int)

def tidsOf : List UInt32 :=
  ((s.core.threads.entries.filter fun e => e.2 = clientPid s.core fd).map Prod.fst).insertionSort
    fun a b => a ≤ b

def nextReply (last : UInt32) (backwards : Bool) : Option (UInt32 × UInt32) :=
  (nextThread s (clientPid s.core fd) last backwards).bind fun tid =>
    (s.core.processes.get? (clientPid s.core fd)).bind fun p =>
      let handle := (p.handles.allocate tid.toUInt64).1
      if handle = 0 then none else some (tid, handle)

/-- Calls of one client, each with the handle of the one before, with other events in the
gaps: the threads that are returned, and whether the end is reported. -/
def enumerate (fd : Int) (backwards : Bool) : State → UInt32 → List (List Event) → List UInt32 × Bool
  | _, _, [] => ([], false)
  | s, last, gap :: gaps =>
    let s := run step s gap
    match nextReply s fd last backwards with
    | none => ([], true)
    | some (tid, handle) =>
      let rest := enumerate fd backwards (handleGetNextThread s fd last backwards) handle gaps
      (tid :: rest.1, rest.2)

/-- In the gaps the threads of the process stay, and so does the thread that is kept under
the last handle; and a thread that comes next gets a handle. -/
def undisturbed (fd : Int) (backwards : Bool) (tids : List UInt32) :
    State → UInt32 → List (List Event) → Bool
  | _, _, [] => true
  | s, last, gap :: gaps =>
    let t := run step s gap
    tidsOf t fd = tids && t.threadHandleTids.get? last = s.threadHandleTids.get? last &&
      match nextReply t fd last backwards with
      | none => (nextThread t (clientPid t.core fd) last backwards).isNone
      | some reply =>
        undisturbed fd backwards tids (handleGetNextThread t fd last backwards) reply.2 gaps

variable {s fd} {last tid : UInt32} {backwards : Bool}

theorem tidsOf_increasing (s : State) (fd : Int) : (tidsOf s fd).Pairwise (· < ·) := by
  have sorted : (tidsOf s fd).Pairwise (· ≤ ·) := pairwise_insertionSort _ _
  have distinct : (tidsOf s fd).Nodup :=
    (perm_insertionSort _ _).nodup_iff.mpr (s.core.threads.nodup.sublist (filter_sublist.map _))
  exact (sorted.and distinct).imp fun ordered => UInt32.lt_of_le_of_ne ordered.1 ordered.2

/-- One call keeps the thread that it returns under the handle that it returns. -/
theorem nextReply_kept {reply : UInt32 × UInt32} (replied : nextReply s fd last backwards = some reply) :
    nextThread s (clientPid s.core fd) last backwards = some reply.1 ∧ reply.2 ≠ 0 ∧
      (handleGetNextThread s fd last backwards).threadHandleTids.get? reply.2 = some reply.1 := by
  obtain ⟨tid, next, rest⟩ := bind_eq_some_iff.mp replied
  obtain ⟨p, found, made⟩ := bind_eq_some_iff.mp rest
  dsimp only at made
  split_ifs at made with zero
  cases made
  refine ⟨next, zero, ?_⟩
  simp [handleGetNextThread, next, found, zero, get?_insert]

theorem nextThread_eq (order : backwards = false ∨ (tidsOf s fd).length ≤ 1) :
    nextThread s (clientPid s.core fd) last backwards = if last = 0 then (tidsOf s fd).head?
      else (s.threadHandleTids.get? last).bind fun lastTid =>
        (tidsOf s fd).find? fun tid => tid > lastTid := by
  have forward : (if backwards then (tidsOf s fd).reverse else tidsOf s fd) = tidsOf s fd := by
    rcases order with rfl | few
    · rfl
    · cases listed : tidsOf s fd with
      | nil => exact ite_self _
      | cons tid rest =>
        have alone : rest = [] := by simpa [listed] using few
        rw [alone]
        exact ite_self _
  unfold nextThread nextThreadOf
  dsimp only
  rw [← tidsOf, forward]

theorem find?_larger {before after : List UInt32}
    (increasing : (before ++ tid :: after).Pairwise (· < ·)) :
    (before ++ tid :: after).find? (fun other => other > tid) = after.head? := by
  obtain ⟨-, larger, smaller⟩ := pairwise_append.mp increasing
  have none_before : before.find? (fun other => other > tid) = none := by
    refine find?_eq_none.mpr fun other mem => ?_
    simpa using UInt32.le_of_lt (smaller other mem tid mem_cons_self)
  rw [find?_append, none_before, none_or, find?_cons_of_neg (by simp)]
  cases after with
  | nil => rfl
  | cons next rest => exact find?_cons_of_pos (by simpa using rel_of_pairwise_cons larger mem_cons_self)

variable {tids after : List UInt32} {gaps : List (List Event)}

/-- The calls return the threads after the one that the first of them goes on from. -/
theorem enumerate_after (order : backwards = false ∨ tids.length ≤ 1)
    (increasing : tids.Pairwise (· < ·)) (before : List UInt32) (split : tids = before ++ after)
    (calm : undisturbed fd backwards tids s last gaps) (enough : after.length < gaps.length)
    (next : ∀ t, tidsOf t fd = tids → t.threadHandleTids.get? last = s.threadHandleTids.get? last →
      nextThread t (clientPid t.core fd) last backwards = after.head?) :
    enumerate fd backwards s last gaps = (after, true) := by
  induction gaps generalizing s last before after with
  | nil => simp at enough
  | cons gap gaps ih =>
    simp only [undisturbed, Bool.and_eq_true, decide_eq_true_eq] at calm
    obtain ⟨⟨same, kept⟩, rest⟩ := calm
    have found := next _ same kept
    rw [enumerate]
    cases replied : nextReply (run step s gap) fd last backwards with
    | none =>
      rw [replied] at rest
      cases after with
      | nil => rfl
      | cons => simp [found] at rest
    | some reply =>
      rw [replied] at rest
      obtain ⟨returned, nonzero, stored⟩ := nextReply_kept replied
      obtain ⟨later, rfl⟩ := head?_eq_some_iff.mp (found.symm.trans returned)
      have more := ih (before ++ [reply.1]) (by simpa using split) rest (by simpa using enough)
        fun t same_t kept_t => by
          rw [nextThread_eq (same_t ▸ order), if_neg nonzero, kept_t, stored, bind_some, same_t, split]
          exact find?_larger (split ▸ increasing)
      simp [more]

/-- The threads are returned in the order of their ids, each once, and then the end. -/
theorem threads_enumerated (s : State) (fd : Int) (backwards : Bool) (gaps : List (List Event))
    (order : backwards = false ∨ (tidsOf s fd).length ≤ 1)
    (calm : undisturbed fd backwards (tidsOf s fd) s 0 gaps)
    (enough : (tidsOf s fd).length < gaps.length) :
    enumerate fd backwards s 0 gaps = (tidsOf s fd, true) ∧ (tidsOf s fd).Nodup ∧
      ∀ tid, tid ∈ tidsOf s fd ↔ s.core.threads.get? tid = some (clientPid s.core fd) := by
  have increasing := tidsOf_increasing s fd
  refine ⟨?_, increasing.imp UInt32.ne_of_lt, fun tid => by simp [tidsOf, mem_entries]⟩
  refine enumerate_after order increasing [] rfl calm enough fun t same _ => ?_
  rw [nextThread_eq (same ▸ order), if_pos rfl, same]

def twoProcesses : State :=
  run step State.start [.core (.accept 5), .core (.initFirstThread 5 true),
    .core (.newThread 5 ⟨0xFFFFFFFF, 0, .missing, some 20⟩),
    .core (.newProcess 5 ⟨[], some 6, some 21, some 22⟩), .core (.initFirstThread 6 true)]

theorem two_threads_enumerated :
    undisturbed 5 false (tidsOf twoProcesses 5) twoProcesses 0 [[], [.allocUserHandle 6], []] ∧
      enumerate 5 false twoProcesses 0 [[], [.allocUserHandle 6], []] =
        (tidsOf twoProcesses 5, true) := by
  have calm : undisturbed 5 false (tidsOf twoProcesses 5) twoProcesses 0
      [[], [.allocUserHandle 6], []] := by decide +kernel
  exact ⟨calm, (threads_enumerated twoProcesses 5 false _ (.inl rfl) calm (by decide +kernel)).1⟩

/-- No id is larger than the largest, which comes first backwards. The child asks until it is given
the handle that its parent has, too, and the parent goes on from the child's thread. -/
theorem enumeration_cut_short : enumerate 5 true twoProcesses 0 [[], [], []] = ([40], true) ∧
    enumerate 5 false twoProcesses 0 [[], replicate 4 (.getNextThread 6 0 false), []] =
      ([36], true) := by
  decide +kernel

end Triskelion.DaemonTables
