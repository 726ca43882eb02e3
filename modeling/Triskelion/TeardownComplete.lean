import Triskelion.TeardownFrame

/-! What is left of a process when it has ended. Carets, quit messages, timer ids, messages and
completion waiters go with the thread. Timers go by the numbers of windows, though they are kept by
thread; the map of thread handles, user handles, unclaimed processes, waits for a timeout and other
clients of the process are not looked at. -/

namespace Triskelion.DaemonTables

open Lifecycle (clientPid clientTid ends)
open RunRules

section
variable {κ ν : Type} [DecidableEq κ] {meant : κ → ν → Bool} {t : Table κ ν}

/-- No entry of the table is one of those meant. -/
def without (meant : κ → ν → Bool) (t : Table κ ν) : Bool :=
  t.entries.all fun e => !meant e.1 e.2

theorem without_iff : without meant t ↔ ∀ k v, t.get? k = some v → meant k v = false := by
  rw [without, Table.all_entries_iff]
  simp

theorem without_retain (kept : κ → ν → Bool) :
    without meant (t.retain kept) = without (fun k v => kept k v && meant k v) t := by
  simp [without, Table.retain, List.all_filter, Bool.not_and]

theorem without_erase (j : κ) :
    without meant (t.erase j) = without (fun k v => decide (k ≠ j) && meant k v) t := by
  simp [without, Table.erase, KeyedTable.erase, List.all_filter]

theorem without_mapValues (f : ν → ν) :
    without meant (t.mapValues f) = without (fun k v => meant k (f v)) t := by
  simp [without, Table.mapValues, List.all_map, Function.comp_def]

theorem without_never (never : ∀ k v, meant k v = false) : without meant t := by
  simp [without, never]

end

/-! ### What is left -/

section
variable (s : Lifecycle.State) (pid : UInt32)

def ownTid (k : UInt32) : Bool := s.threads.get? k = some pid

def ownFd (i : Int) : Bool := (s.clients.get? i).any fun c => c.processId = pid

end

/-- What is kept by the pid, or by the windows that the process had in `s`. -/
structure Purged (s t : State) (pid : UInt32) : Prop where
  process : without (fun q _ => q = pid) t.core.processes
  thread : without (fun _ q => q = pid) t.core.threads
  window : without (fun _ w => ownTid s.core pid w.tid) t.core.windowStates
  property : without (fun k _ => deadWindow s.core pid k.1) t.windowProperties
  listener : without (fun h _ => deadWindow s.core pid h) t.clipboardListeners
  pipe : without (fun _ l => l.any fun w => w.pid = pid) t.pendingPipeWaiters
  byPid : without (fun k _ => k.2.1 = pid) t.pidTables

/-- In `t` nothing is kept for the process that has ended, or for the threads, windows and
client descriptors that it had in `s`. -/
@[mk_iff clean_fields]
structure Clean (s t : State) (pid : UInt32) : Prop where
  purged : Purged s t pid
  client : without (fun i c => ownFd s.core pid i || c.processId = pid) t.core.clients
  byFd : without (fun k _ => ownFd s.core pid k.2) t.fdTables
  unclaimed : decide (pid ∉ t.core.unclaimedPids)
  pending : without (fun k _ => ownTid s.core pid k) t.winTimersPending
  expired : without (fun k _ => ownTid s.core pid k) t.winTimersExpired
  timerIds : without (fun k _ => ownTid s.core pid k) t.nextTimerIds
  caret : without (fun k _ => ownTid s.core pid k) t.caretState
  quit : without (fun k _ => ownTid s.core pid k) t.threadQuitState
  mail : without (fun k _ => ownTid s.core pid k) t.sentMessages.pending
  threadHandle : without (fun _ k => ownTid s.core pid k) t.threadHandleTids
  userEntry : without (fun _ o => o.pid = pid || ownTid s.core pid o.tid) t.userEntries
  wait : t.pendingWaits.all fun w => !ownFd s.core pid w.clientFd && w.owner ≠ pid
  completion : without (fun _ l => l.any fun w => ownFd s.core pid w.clientFd || w.pid = pid)
    t.completionWaiters

def Complete (s : State) : Event → Prop
  | .core (.disconnect fd) =>
    ends s.core fd → Clean s (step s (.core (.disconnect fd))) (clientPid s.core fd)
  | _ => True

section
variable (s : Lifecycle.State) (fd : Int) {ν : Type}

def timersGo (t : Table UInt32 ν) : Bool :=
  without (fun k _ => !deadWindow s (clientPid s fd) k && ownTid s (clientPid s fd) k) t

/-- No other thread of the process has an entry. -/
def onlyLast (t : Table UInt32 ν) : Bool :=
  without (fun k _ => decide (k ≠ clientTid s fd) && ownTid s (clientPid s fd) k) t

end

/-- Timers stand under numbers of windows, no other thread or client of the process has anything,
and it has nothing in the tables that are not looked at. -/
def leavesNothing (s : State) (fd : Int) : Bool :=
  let pid := clientPid s.core fd
  without (fun i c => i ≠ fd && c.processId = pid) s.core.clients &&
    decide (pid ∉ s.core.unclaimedPids) &&
    timersGo s.core fd s.winTimersPending && timersGo s.core fd s.winTimersExpired &&
    onlyLast s.core fd s.nextTimerIds && onlyLast s.core fd s.caretState &&
    onlyLast s.core fd s.threadQuitState && onlyLast s.core fd s.sentMessages.pending &&
    without (fun _ k => ownTid s.core pid k) s.threadHandleTids &&
    without (fun _ o => o.pid = pid || ownTid s.core pid o.tid) s.userEntries &&
    (s.pendingWaits.all fun w => w.clientFd ≠ fd && w.owner ≠ pid) &&
    without (fun _ l => l.any fun w => w.clientFd ≠ fd && w.pid = pid) s.completionWaiters

def forgotten (s : State) : Event → Bool
  | .core (.disconnect fd) => !ends s.core fd || leavesNothing s fd
  | _ => true

/-! ### The tables after the end -/

variable {s : State} {fd : Int}

theorem ownFd_of_ends (last : ends s.core fd) : ownFd s.core (clientPid s.core fd) fd := by
  obtain ⟨process, -⟩ := of_decide_eq_true last
  cases found : s.core.clients.get? fd with
  | none => simp [clientPid, found] at process
  | some => simp [ownFd, clientPid, found]

/-- Where no other client has the pid, the descriptor of the last one is the only one. -/
theorem ownFd_eq (last : ends s.core fd) (alone : without (fun i c =>
      i ≠ fd && c.processId = clientPid s.core fd) s.core.clients) (i : Int) :
    ownFd s.core (clientPid s.core fd) i = decide (i = fd) := by
  by_cases same : i = fd
  · rw [same, ownFd_of_ends last]
    simp
  · rw [decide_eq_false same, ownFd]
    cases found : s.core.clients.get? i with
    | none => rfl
    | some c => simpa [same] using without_iff.mp alone i c found

theorem without_drained (m : SentMessages) (tid : UInt32) (meant : UInt32 → Bool) :
    without (fun k _ => meant k) (m.drainAllForReceiver tid).2.pending =
      without (fun k _ => k ≠ tid && meant k) m.pending := by
  rw [← without_erase, Bool.eq_iff_iff, without_iff, without_iff]
  simp only [SentMessages.get?_drainAll, Table.get?_erase]

theorem purged_of_ends (last : ends s.core fd) :
    Purged s (disconnectClient s fd) (clientPid s.core fd) := by
  rw [disconnectClient_of_ends last, Lifecycle.disconnectClient_of_ends last]
  obtain ⟨process, -⟩ := of_decide_eq_true last
  constructor
  all_goals
    simp only [endProcess, endThread, if_neg process, Lifecycle.tearDown, without_retain,
      without_mapValues, without_erase]
    refine without_never fun k v => ?_
    simp [ownTid, Lifecycle.afterLeaving, Lifecycle.leaveProcess]
  -- the windows, which the daemon sorts out after the thread has left
  exact of_decide_eq_true

theorem without_clients (last : ends s.core fd) :
    without (fun i c => ownFd s.core (clientPid s.core fd) i || c.processId = clientPid s.core fd)
        (Lifecycle.disconnectClient s.core fd).clients ↔
      without (fun i c => i ≠ fd && c.processId = clientPid s.core fd) s.core.clients := by
  rw [Lifecycle.clients_disconnectClient, without_erase]
  constructor
  · intro none_
    refine without_iff.mpr fun i c found => ?_
    have here := without_iff.mp none_ i c found
    rw [Bool.and_eq_false_iff, Bool.or_eq_false_iff] at here
    exact Bool.and_eq_false_iff.mpr (here.imp_right And.right)
  · intro alone
    simpa only [ownFd_eq last alone, decide_not, Bool.and_or_distrib_left, Bool.not_and_self,
      Bool.false_or] using alone

theorem clean_iff (last : ends s.core fd) :
    Clean s (disconnectClient s fd) (clientPid s.core fd) ↔ leavesNothing s fd := by
  obtain ⟨-, thread, -⟩ := of_decide_eq_true last
  rw [clean_fields, and_iff_right (purged_of_ends last), disconnectClient_of_ends last,
    without_clients last]
  simp only [leavesNothing, Bool.and_eq_true, and_assoc]
  refine and_congr_right fun alone => ?_
  have only := ownFd_eq last alone
  simp only [endProcess, endThread, if_neg thread, Lifecycle.unclaimedPids_disconnectClient,
    without_retain, without_erase, without_mapValues, without_drained, timersGo, onlyLast, only,
    List.any_filter, ne_eq, decide_not, Bool.and_or_distrib_left, Bool.not_and_self, Bool.false_or]
  have empty : without (fun _ _ => false) s.fdTables := without_never fun _ _ => rfl
  exact and_iff_right empty

theorem complete_iff {e : Event} : Complete s e ↔ forgotten s e := by
  unfold Complete forgotten
  split
  · next fd =>
    cases last : ends s.core fd with
    | false => simp
    | true =>
      have here : s.core.clients.contains fd := by
        obtain ⟨process, -⟩ := of_decide_eq_true last
        cases found : s.core.clients.get? fd with
        | none => simp [clientPid, found] at process
        | some => exact Table.contains_of_get? found
      have stepped : step s (.core (.disconnect fd)) = disconnectClient s fd := if_pos here
      rw [stepped, clean_iff last]
      simp
  · simp

theorem complete_eq : Complete = fun s e => forgotten s e = true :=
  funext fun _ => funext fun _ => propext complete_iff

def newChild : List Event := [.core (.accept 5), .core (.initFirstThread 5 true),
  .core (.newProcess 5 ⟨[], some 6, some 9, some 10⟩)]

/-- The child has a caret and a completion wait when it ends. -/
example : AllSteps step (fun s e => forgotten s e) State.start (newChild ++
    [.core (.initFirstThread 6 true), .setCaretWindow 6 0x20, .removeCompletion 6 4,
      .core (.disconnect 6)]) := by
  decide +kernel

end Triskelion.DaemonTables
