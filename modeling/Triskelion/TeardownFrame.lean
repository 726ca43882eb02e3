import Triskelion.DaemonTables

/-! What a disconnect leaves alone. The end of a process keeps every other process as it
was, except where the number of one of its windows is the number of a thread that has
timers; the exit of a thread takes the pipe waiters of all threads of its process. -/

namespace Triskelion.DaemonTables

open Lifecycle (clientPid clientTid ends)
open RunRules

def pipeWaiters (s : State) (name : String) : List PendingPipeWaiter :=
  (s.pendingPipeWaiters.get? name).getD []

/-- What the end of a process is to leave to the others: their handles and whatever else is
kept by pid, their windows with the parents and properties, the timers of their threads, and
their pipe waiters. -/
structure OthersKept (s t : State) (pid : UInt32) : Prop where
  processes : ∀ q ≠ pid, t.core.processes.get? q = s.core.processes.get? q
  tables : ∀ table key, ∀ q ≠ pid,
    t.pidTables.get? (table, q, key) = s.pidTables.get? (table, q, key)
  windows : ∀ h w, s.core.windowStates.get? h = some w → s.core.threads.get? w.tid ≠ some pid →
    t.core.windowStates.get? h = some w
  properties : ∀ h atom, deadWindow s.core pid h = false →
    t.windowProperties.get? (h, atom) = s.windowProperties.get? (h, atom)
  timers : ∀ tid, ∀ q ≠ pid, s.core.threads.get? tid = some q →
    t.winTimersPending.get? tid = s.winTimersPending.get? tid ∧
      t.winTimersExpired.get? tid = s.winTimersExpired.get? tid
  waiters : ∀ name, (pipeWaiters t name).filter (fun w => w.pid ≠ pid) =
    (pipeWaiters s name).filter fun w => w.pid ≠ pid

/-- The messages sent to other threads stay. -/
def MailKept (s t : State) (fd : Int) : Prop :=
  ∀ tid ≠ clientTid s.core fd, t.sentMessages.pendingFor tid = s.sentMessages.pendingFor tid

def SiblingsWait (s t : State) (fd : Int) : Prop :=
  ∀ name, ∀ w ∈ pipeWaiters s name, w.pid = clientPid s.core fd → w.thread ≠ clientTid s.core fd →
    w ∈ pipeWaiters t name

def Framed (s : State) (fd : Int) : Prop :=
  MailKept s (disconnectClient s fd) fd ∧
    (ends s.core fd → OthersKept s (disconnectClient s fd) (clientPid s.core fd)) ∧
    (ends s.core fd = false → clientPid s.core fd ≠ 0 → clientTid s.core fd ≠ 0 →
      SiblingsWait s (disconnectClient s fd) fd)

def apart (s : Lifecycle.State) (pid tid : UInt32) : Bool :=
  !deadWindow s pid tid || (s.threads.get? tid).all fun q => q = pid

def unmixed (s : State) (fd : Int) : Bool :=
  if ends s.core fd then
    (s.winTimersPending.entries.all fun e => apart s.core (clientPid s.core fd) e.1) &&
      s.winTimersExpired.entries.all fun e => apart s.core (clientPid s.core fd) e.1
  else
    clientPid s.core fd = 0 || clientTid s.core fd = 0 ||
      s.pendingPipeWaiters.entries.all fun e => e.2.all fun w =>
        w.pid ≠ clientPid s.core fd ∨ w.thread = clientTid s.core fd

/-! ### The tables after a disconnect -/

theorem mailKept (s : State) (fd : Int) : MailKept s (disconnectClient s fd) fd := by
  intro tid other
  have same : (disconnectClient s fd).sentMessages = (endThread s fd).sentMessages := by
    simp only [disconnectClient]
    split <;> rfl
  rw [same, endThread]
  split
  · rfl
  · rw [SentMessages.pendingFor, SentMessages.get?_drainAll, if_neg other]
    rfl

variable {name : String}

theorem pipeWaiters_disconnectClient (s : State) (fd : Int) :
    pipeWaiters (disconnectClient s fd) name =
      if clientPid s.core fd = 0 then pipeWaiters s name
      else (pipeWaiters s name).filter fun w => w.pid ≠ clientPid s.core fd := by
  have same : (disconnectClient s fd).pendingPipeWaiters = (endThread s fd).pendingPipeWaiters := by
    simp only [disconnectClient]
    split <;> rfl
  rw [pipeWaiters, same]
  by_cases none_ : clientPid s.core fd = 0
  · simp only [endThread, if_pos none_]
    rfl
  · simp only [endThread, if_neg none_]
    exact getD_prune _ rfl name

variable {s : State} {fd : Int}

theorem mem_pipeWaiters {w : PendingPipeWaiter} :
    w ∈ pipeWaiters s name ↔ ∃ l, (name, l) ∈ s.pendingPipeWaiters.entries ∧ w ∈ l := by
  simp only [s.pendingPipeWaiters.mem_entries, pipeWaiters]
  cases s.pendingPipeWaiters.get? name <;> simp

theorem all_waiters_iff {q : PendingPipeWaiter → Bool} :
    (s.pendingPipeWaiters.entries.all fun e => e.2.all q) ↔
      ∀ name, ∀ w ∈ pipeWaiters s name, q w := by
  simp only [List.all_eq_true, mem_pipeWaiters]
  constructor
  · rintro all name w ⟨l, mem, here⟩
    exact all (name, l) mem w here
  · intro all e mem w here
    exact all e.1 w ⟨e.2, mem, here⟩

/-- All waiters of the process go, so the siblings had none. -/
theorem siblingsWait_iff (process : clientPid s.core fd ≠ 0) :
    SiblingsWait s (disconnectClient s fd) fd ↔ ∀ name, ∀ w ∈ pipeWaiters s name,
      w.pid ≠ clientPid s.core fd ∨ w.thread = clientTid s.core fd := by
  simp only [SiblingsWait, pipeWaiters_disconnectClient, if_neg process, List.mem_filter,
    decide_eq_true_eq]
  constructor
  · intro stay name w mem
    by_contra sibling
    obtain ⟨own, other⟩ := not_or.mp sibling
    have own := not_not.mp own
    exact (stay name w mem own other).2 own
  · intro none_ name w mem own other
    exact absurd own ((none_ name w mem).resolve_right other)

variable {pid : UInt32}

theorem get?_retain_dead {ν : Type} (s : Lifecycle.State) (t : Table UInt32 ν)
    (h : UInt32) : (t.retain fun h _ => !deadWindow s pid h).get? h =
      if deadWindow s pid h then none else t.get? h := by
  rw [Table.get?_retain]
  cases t.get? h <;> cases deadWindow s pid h <;> rfl

theorem disconnectClient_of_ends (last : ends s.core fd) :
    disconnectClient s fd = { endProcess (endThread s fd) (clientPid s.core fd) with
      core := Lifecycle.disconnectClient s.core fd } := by
  simp [disconnectClient, last]

theorem othersKept_of_apart (last : ends s.core fd)
    (timers : ∀ tid q, s.core.threads.get? tid = some q → q ≠ clientPid s.core fd →
      deadWindow s.core (clientPid s.core fd) tid →
      s.winTimersPending.get? tid = none ∧ s.winTimersExpired.get? tid = none) :
    OthersKept s (disconnectClient s fd) (clientPid s.core fd) := by
  have core := Lifecycle.disconnectClient_of_ends last
  have tables := disconnectClient_of_ends last
  refine ⟨fun q other => ?_, fun table key q other => ?_, fun h w found alive => ?_,
    fun h atom alive => ?_, fun tid q other home => ?_, fun name => ?_⟩
  · rw [tables, core]
    simp [Lifecycle.tearDown, Lifecycle.afterLeaving, Lifecycle.leaveProcess, Table.get?_erase,
      Table.get?_modify, other]
  · rw [tables]
    simp only [endProcess, endThread, Table.get?_retain]
    cases s.pidTables.get? (table, q, key) <;> simp [Option.filter, other]
  · rw [tables, core]
    simp [Lifecycle.tearDown, Lifecycle.afterLeaving, Lifecycle.leaveProcess, Table.get?_retain,
      found, Option.filter, alive]
  · rw [tables]
    simp only [endProcess, endThread, Table.get?_retain]
    cases s.windowProperties.get? (h, atom) <;> simp [Option.filter, alive]
  · rw [tables]
    simp only [endProcess, endThread, get?_retain_dead]
    cases dead : deadWindow s.core (clientPid s.core fd) tid with
    | false => exact ⟨rfl, rfl⟩
    | true =>
      obtain ⟨pending, expired⟩ := timers tid q home other dead
      exact ⟨pending.symm, expired.symm⟩
  · rw [pipeWaiters_disconnectClient]
    split
    · rfl
    · simp

theorem apart_iff (s : Lifecycle.State) (tid : UInt32) : apart s pid tid ↔
    (deadWindow s pid tid → ∀ q, s.threads.get? tid = some q → q = pid) := by
  rw [apart]
  cases deadWindow s pid tid <;> cases s.threads.get? tid <;> simp

/-- No timer stands under the number of a window that goes, unless it is one of a thread
that goes as well. -/
theorem all_apart_iff {ν : Type} (s : Lifecycle.State) (t : Table UInt32 ν) :
    (t.entries.all fun e => apart s pid e.1) ↔
      ∀ tid q, s.threads.get? tid = some q → q ≠ pid → deadWindow s pid tid →
        t.get? tid = none := by
  rw [t.all_entries_iff]
  constructor
  · intro all tid q home other dead
    by_contra some_
    obtain ⟨v, found⟩ := Option.ne_none_iff_exists'.mp some_
    exact other ((apart_iff s tid).mp (all tid v found) dead q home)
  · intro none_ tid v found
    refine (apart_iff s tid).mpr fun dead q home => ?_
    by_contra other
    cases (none_ tid q home other dead).symm.trans found

theorem framed_of_ends (last : ends s.core fd) :
    Framed s fd ↔ OthersKept s (disconnectClient s fd) (clientPid s.core fd) := by
  simp [Framed, last, mailKept]

theorem unmixed_of_stays (stays : ends s.core fd = false) (process : clientPid s.core fd ≠ 0)
    (thread : clientTid s.core fd ≠ 0) : unmixed s fd ↔ ∀ name, ∀ w ∈ pipeWaiters s name,
      w.pid ≠ clientPid s.core fd ∨ w.thread = clientTid s.core fd := by
  have all := all_waiters_iff (s := s) (q := fun w =>
    w.pid ≠ clientPid s.core fd ∨ w.thread = clientTid s.core fd)
  rw [unmixed, if_neg (by simp [stays]), decide_eq_false process, decide_eq_false thread,
    Bool.false_or, Bool.false_or, all]
  simp

theorem unmixed_of_framed (framed : Framed s fd) : unmixed s fd := by
  cases last : ends s.core fd with
  | true =>
    have kept := (framed_of_ends last).mp framed
    have gone : ∀ tid, deadWindow s.core (clientPid s.core fd) tid →
        (disconnectClient s fd).winTimersPending.get? tid = none ∧
          (disconnectClient s fd).winTimersExpired.get? tid = none := by
      intro tid dead
      simp [disconnectClient, last, endProcess, endThread, get?_retain_dead, dead]
    rw [unmixed, if_pos last, Bool.and_eq_true, all_apart_iff, all_apart_iff]
    constructor
    · intro tid q home other dead
      exact (kept.timers tid q other home).1.symm.trans (gone tid dead).1
    · intro tid q home other dead
      exact (kept.timers tid q other home).2.symm.trans (gone tid dead).2
  | false =>
    by_cases process : clientPid s.core fd = 0
    · simp [unmixed, last, process]
    by_cases thread : clientTid s.core fd = 0
    · simp [unmixed, last, thread]
    refine (unmixed_of_stays last process thread).mpr ((siblingsWait_iff process).mp ?_)
    simpa [Framed, mailKept, last, process, thread] using framed

theorem framed_of_unmixed (fine : unmixed s fd) : Framed s fd := by
  cases last : ends s.core fd with
  | true =>
    rw [unmixed, if_pos last, Bool.and_eq_true, all_apart_iff, all_apart_iff] at fine
    exact (framed_of_ends last).mpr (othersKept_of_apart last fun tid q home other dead =>
      ⟨fine.1 tid q home other dead, fine.2 tid q home other dead⟩)
  | false =>
    refine ⟨mailKept s fd, fun ended => ?_, fun _ process thread => ?_⟩
    · rw [last] at ended
      cases ended
    · exact (siblingsWait_iff process).mpr ((unmixed_of_stays last process thread).mp fine)

/-- For every state and every client: the end of its process leaves the others alone, and
its exit leaves the waiters of its siblings, if and only if no timer of another process is
kept under the number of one of its windows, and no sibling waits for a pipe. -/
theorem disconnect_framed_iff (s : State) (fd : Int) : Framed s fd ↔ unmixed s fd :=
  ⟨unmixed_of_framed, framed_of_unmixed⟩

/-- A thread of one process has a timer. Another process has a window, whose number 0x24 is
the thread's as well, and ends: the timer is gone. And a thread waits for a pipe when its
sibling exits: it waits on, and is not in the table. -/
theorem timer_lost_to_window :
    (¬ Framed (run step State.start [.core (.accept 5), .core (.initFirstThread 5 true),
      .setWinTimer 5 ⟨0, 0x113, 1, 50, 0⟩ 1000, .core (.accept 6),
      .core (.initFirstThread 6 true), .createWindow 6 0x20]) 6) ∧
    ¬ Framed (run step State.start [.core (.accept 5), .core (.initFirstThread 5 true),
      .core (.newThread 5 ⟨0, 0, .inflight (some 6), some 9⟩), .core (.initThread 6 0),
      .pipeWait 6 "lrpc" (some 1)]) 5 := by
  constructor <;> exact fun framed => absurd (unmixed_of_framed framed) (by decide +kernel)

end Triskelion.DaemonTables
