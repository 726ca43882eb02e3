import Triskelion.ThreadIdentity

/-! When a process ends. A client that disconnects takes its process along if no thread of
the process is left in the process's list, which is compared with the clients first. The
list has every connected thread in it as long as threads are made in processes that exist
and `terminate_process` is called by the last thread of its process. -/

namespace Triskelion.Lifecycle

open RunRules List Table

/-! ### How the lists of threads grow -/

/-- No process or thread leaves, and processes that appear have new ids. -/
structure Grown (s t : State) : Prop where
  le : s.nextPtid.toNat ≤ t.nextPtid.toNat
  kept : ∀ q l, threadsOf s q = some l → ∃ l', threadsOf t q = some l' ∧ l ⊆ l'
  new : ∀ q l, threadsOf t q = some l → threadsOf s q = none → Fresh s t q

def TableAllocated (s : State) : Prop := ∀ q l, threadsOf s q = some l → Allocated s q

variable {s t u : State}

theorem Grown.of_alike (lists : ∀ q, threadsOf t q = threadsOf s q)
    (next : t.nextPtid = s.nextPtid) : Grown s t where
  le := Nat.le_of_eq (congrArg UInt32.toNat next.symm)
  kept q l found := ⟨l, (lists q).trans found, List.Subset.refl l⟩
  new q l found none_ := by cases (lists q ▸ found).symm.trans none_

theorem Grown.of_same (same : SameTables s t) : Grown s t :=
  .of_alike (fun q => by rw [threadsOf, threadsOf, same.processes]) same.nextPtid

theorem Grown.refl (s : State) : Grown s s := .of_alike (fun _ => rfl) rfl

theorem Grown.trans (first : Grown s t) (second : Grown t u) : Grown s u where
  le := Nat.le_trans first.le second.le
  kept q l found := by
    obtain ⟨m, at_t, sub⟩ := first.kept q l found
    obtain ⟨n, at_u, sub'⟩ := second.kept q m at_t
    exact ⟨n, at_u, List.Subset.trans sub sub'⟩
  new q l found none_ := by
    cases at_t : threadsOf t q with
    | none =>
      obtain ⟨i, above, below, eq⟩ := second.new q l found at_t
      exact ⟨i, Nat.le_trans first.le above, below, eq⟩
    | some m =>
      obtain ⟨i, above, below, eq⟩ := first.new q m at_t none_
      exact ⟨i, above, Nat.lt_of_lt_of_le below second.le, eq⟩

theorem TableAllocated.of_grown (known : TableAllocated s) (grown : Grown s t) :
    TableAllocated t := by
  intro q l found
  cases before : threadsOf s q with
  | none => exact (grown.new q l found before).allocated
  | some m =>
    obtain ⟨i, below, eq⟩ := known q m before
    exact ⟨i, Nat.lt_of_lt_of_le below grown.le, eq⟩

def RoomLeft (s : State) : Prop := s.nextPtid.toNat + 1 ≤ 2 ^ 30 - 8

theorem grown_createProcess (room : RoomLeft s) (known : TableAllocated s) (spawned : Bool) :
    Grown s (createProcess s spawned).2 := by
  have succ := toNat_succ room
  have fresh : Fresh s (createProcess s spawned).2 (ptid s.nextPtid) :=
    ⟨s.nextPtid.toNat, Nat.le_refl _, by change _ < (s.nextPtid + 1).toNat; omega, toNat_ptid room⟩
  have lists : ∀ q, threadsOf (createProcess s spawned).2 q =
      if q = ptid s.nextPtid then some [] else threadsOf s q := by
    intro q
    simp only [threadsOf, createProcess, get?_insert]
    split <;> rfl
  refine ⟨by change _ ≤ (s.nextPtid + 1).toNat; omega, fun q l found => ?_, fun q l found none_ => ?_⟩
  · have other : q ≠ ptid s.nextPtid := by
      rintro rfl
      exact fresh.not_allocated (known _ l found)
    exact ⟨l, by rw [lists, if_neg other, found], List.Subset.refl l⟩
  · rw [lists] at found
    split at found
    · next same => exact same ▸ fresh
    · cases found.symm.trans none_

theorem grown_createThread (room : RoomLeft s) (pid : UInt32) : Grown s (createThread s pid).2 := by
  have succ := toNat_succ room
  refine ⟨by change _ ≤ (s.nextPtid + 1).toNat; omega, fun q l found => ?_, fun q l found none_ => ?_⟩
  · rw [threadsOf_createThread]
    split
    · next same =>
      subst same
      exact ⟨l ++ [ptid s.nextPtid], by rw [found]; rfl, subset_append_left l _⟩
    · exact ⟨l, found, List.Subset.refl l⟩
  · rw [threadsOf_createThread] at found
    split at found
    · next same =>
      subst same
      rw [none_] at found
      cases found
    · cases found.symm.trans none_

theorem grown_threadOf (room : RoomLeft s) (fd : Int) (pid : UInt32) :
    Grown s (threadOf s fd pid).2 := by
  rw [threadOf]
  split
  · exact .refl s
  · exact grown_createThread room pid

theorem room_of_left (left : idsLeft s) : RoomLeft s := by
  have small := idsLeft_iff.mp left
  rw [RoomLeft]
  omega

variable {fd : Int} {pid : UInt32} {e : Event} {c : Client}

section
variable (left : idsLeft s)
include left

theorem room_of_prepared (ready : Prepared s u fd pid) : RoomLeft u := by
  have small := idsLeft_iff.mp left
  rw [RoomLeft]
  rcases ready.nextPtid with same | more
  · rw [same]
    omega
  · rw [more, toNat_succ (by omega)]
    omega

section
variable (known : TableAllocated s)
include known

theorem grown_spawn (parent : UInt32)
    (req : NewProcessRequest) : Grown s (spawn s parent req).2 := by
  refine (grown_createProcess (room_of_left left) known true).trans (.of_alike (fun q => ?_) ?_)
  · simp only [threadsOf, spawn]
    split <;> exact map_get?_modify (fun _ => by rfl) _ _ q
  · simp only [spawn]
    split <;> rfl

theorem grown_claim : Grown s (claim s fd).2 := by
  have chosen : Grown s (claimPid s fd).2 := by
    rcases claimPid_cases with ⟨eq, -⟩ | ⟨pid, rest, -, -, eq⟩ | ⟨-, -, eq⟩
    · rw [eq]
      exact .refl s
    · rw [eq]
      exact .of_alike (fun _ => rfl) rfl
    · rw [eq]
      exact grown_createProcess (room_of_left left) known false
  exact chosen.trans (.of_alike (fun q => map_get?_modify (fun _ => by rfl) _ _ q) rfl)

theorem grown_joinPid (pick : UInt32) : Grown s (joinPid s fd pick).2 := by
  rw [joinPid]
  split
  · exact .refl s
  · split
    · exact .refl s
    · exact grown_createProcess (room_of_left left) known false

end

end

def Event.shrinks : Event → Bool
  | .terminateProcess .. | .disconnect _ => true
  | _ => false

theorem grown_step (left : idsLeft s) (known : TableAllocated s) (grows : e.shrinks = false) :
    Grown s (step s e) := by
  rw [step]
  split
  · cases e with
    | accept =>
      refine .of_alike (fun q => ?_) ?_ <;> simp only [act, accept] <;> split <;> rfl
    | newProcess fd req =>
      have same := onlyHandles_handleNewProcess s fd req
      exact (grown_spawn left known _ req).trans (.of_alike same.threadsOf same.nextPtid)
    | newThread fd req =>
      have same := sameLists_handleNewThread s fd req
      exact (grown_createThread (room_of_left left) _).trans
        (.of_alike same.threadsOf same.nextPtid)
    | initFirstThread fd slot =>
      have grown := (grown_claim left known).trans
        (grown_threadOf (room_of_prepared left (prepared_claim s fd)) fd (claim s fd).1)
      exact grown.trans (.of_same (sameTables_handleInitFirstThread s fd slot))
    | initThread fd pick =>
      have grown := (grown_joinPid left known pick).trans
        (grown_threadOf (room_of_prepared left (prepared_joinPid s fd pick)) fd
          (joinPid s fd pick).1)
      exact grown.trans (.of_same (sameTables_handleInitThread s fd pick))
    | initProcessDone =>
      simp only [act, handleInitProcessDone]
      split
      · exact .of_alike (fun q => map_get?_modify (fun _ => by rfl) _ _ q) rfl
      · exact .refl s
    | other =>
      exact .of_alike (fun q => map_get?_modify (fun _ => by rfl) _ _ q) rfl
    | terminateProcess | disconnect => cases grows
  · exact .refl s

/-! ### What disconnecting does to the lists -/

theorem mem_connectedTids {tid : UInt32} : tid ∈ connectedTids s pid ↔
      ∃ i c, s.clients.get? i = some c ∧ c.processId = pid ∧ c.threadId ≠ 0 ∧ c.threadId = tid := by
  simp only [connectedTids, threadsConnected, mem_map, mem_filter, decide_eq_true_eq, Prod.exists,
    mem_entries]
  constructor
  · rintro ⟨_, _, ⟨⟨i, c, found, same⟩, here, some_id⟩, rfl⟩
    cases same
    exact ⟨i, c, found, here, some_id, rfl⟩
  · rintro ⟨i, c, found, here, some_id, rfl⟩
    exact ⟨_, _, ⟨⟨i, c, found, rfl⟩, here, some_id⟩, rfl⟩

def afterLeaving (s : State) (fd : Int) (pid tid : UInt32) : State :=
  leaveProcess { s with clients := s.clients.erase fd } pid tid

theorem disconnectClient_eq (found : s.clients.get? fd = some c) (process : c.processId ≠ 0)
    (thread : c.threadId ≠ 0) : disconnectClient s fd =
      if remainingThreads (afterLeaving s fd c.processId c.threadId) c.processId = 0 then
        tearDown (afterLeaving s fd c.processId c.threadId) c.processId
      else afterLeaving s fd c.processId c.threadId := by
  simp only [disconnectClient, clientPid_of_get? found, clientTid_of_get? found]
  rw [if_pos ⟨process, thread⟩]
  rfl

theorem disconnectClient_bare (bare : ¬ (clientPid s fd ≠ 0 ∧ clientTid s fd ≠ 0)) :
    disconnectClient s fd = { s with clients := s.clients.erase fd } := by
  simp only [disconnectClient]
  rw [if_neg bare]

def ends (s : State) (fd : Int) : Bool :=
  clientPid s fd ≠ 0 ∧ clientTid s fd ≠ 0 ∧
    remainingThreads (afterLeaving s fd (clientPid s fd) (clientTid s fd)) (clientPid s fd) = 0

theorem disconnectClient_of_ends (last : ends s fd) : disconnectClient s fd =
      tearDown (afterLeaving s fd (clientPid s fd) (clientTid s fd)) (clientPid s fd) := by
  obtain ⟨process, thread, none_⟩ := of_decide_eq_true last
  simp only [disconnectClient]
  rw [if_pos ⟨process, thread⟩]
  exact if_pos none_

theorem disconnectClient_of_stays (stays : ends s fd = false) :
    disconnectClient s fd = { s with clients := s.clients.erase fd } ∨
      disconnectClient s fd = afterLeaving s fd (clientPid s fd) (clientTid s fd) := by
  by_cases both : clientPid s fd ≠ 0 ∧ clientTid s fd ≠ 0
  · right
    simp only [disconnectClient]
    rw [if_pos both]
    exact if_neg fun none_ => of_decide_eq_false stays ⟨both.1, both.2, none_⟩
  · exact .inl (disconnectClient_bare both)

theorem viewOf_disconnectClient {β : Type} {g : Process → β}
    (threads : ∀ p l, g { p with threads := l } = g p) (s : State) (fd : Int) (q : UInt32) :
    viewOf g (disconnectClient s fd) q =
      if ends s fd ∧ q = clientPid s fd then none else viewOf g s q := by
  have left : viewOf g (afterLeaving s fd (clientPid s fd) (clientTid s fd)) q = viewOf g s q :=
    map_get?_modify (fun p => threads p _) _ _ _
  cases last : ends s fd with
  | true =>
    rw [disconnectClient_of_ends last, viewOf_tearDown, left]
    simp
  | false =>
    rcases disconnectClient_of_stays last with eq | eq
    · rw [eq]
      rfl
    · rw [eq]
      exact left

theorem threadsOf_afterLeaving (fd : Int) (pid tid q : UInt32) :
    threadsOf (afterLeaving s fd pid tid) q =
      if q = pid then (threadsOf s pid).map fun l => (l.filter fun t => t ≠ tid).filter fun t =>
        t ∈ connectedTids { s with clients := s.clients.erase fd } pid
      else threadsOf s q := by
  simp only [threadsOf, afterLeaving, leaveProcess, get?_modify]
  split
  · rw [Option.map_map, Option.map_map]
    rfl
  · rfl

theorem remainingThreads_eq :
    remainingThreads s pid = ((threadsOf s pid).map List.length).getD 0 := by
  simp [remainingThreads, threadsOf, Function.comp_def]

/-! ### The invariant -/

section
variable (s : State)

/-- Threads are made in processes that exist, and a process is terminated by its last
thread. -/
def proper : Event → Bool
  | .newThread fd req => s.processes.contains (targetPid s fd req)
  | .terminateProcess fd _ _ => (connectedTids s (clientPid s fd)).all fun t => t = clientTid s fd
  | _ => true

def orderly (e : Event) : Bool := idsLeft s && (!answers s e || proper s e)

/-- Every connected thread is in the list of its process. -/
structure Listed (s : State) : Prop where
  numbered : Numbered s
  table : TableAllocated s
  queue : ∀ q ∈ s.unclaimedPids, Allocated s q
  attached : ∀ i c, s.clients.get? i = some c → c.processId ≠ 0 → Allocated s c.processId
  owned : ∀ i c, s.clients.get? i = some c → c.threadId ≠ 0 → c.processId ≠ 0
  listed : ∀ i c l, s.clients.get? i = some c → c.threadId ≠ 0 →
    threadsOf s c.processId = some l → c.threadId ∈ l

theorem listed_start (desktopTop desktopMsg : UInt32) (windows : Table UInt32 Window) :
    Listed (State.start desktopTop desktopMsg windows) where
  numbered := (identified_start desktopTop desktopMsg windows).toNumbered
  table q l found := by simp [State.start, threadsOf] at found
  queue := by simp [State.start]
  attached := by simp [State.start]
  owned := by simp [State.start]
  listed := by simp [State.start]

theorem unclaimedPids_claim (fd : Int) :
    ∀ q ∈ (claim s fd).2.unclaimedPids, q ∈ s.unclaimedPids := by
  intro q mem
  have here := (mem_filter.mp mem).1
  rcases claimPid_cases with ⟨eq, -⟩ | ⟨pid, rest, queued, -, eq⟩ | ⟨-, -, eq⟩
  · rw [eq] at here
    exact here
  · rw [eq] at here
    exact queued ▸ mem_cons_of_mem _ here
  · rw [eq] at here
    exact here

theorem unclaimedPids_threadOf (fd : Int) (pid : UInt32) :
    (threadOf s fd pid).2.unclaimedPids = s.unclaimedPids := by
  rw [threadOf]
  split <;> rfl

end

theorem unclaimedPids_disconnectClient :
    (disconnectClient s fd).unclaimedPids = s.unclaimedPids := by
  simp only [disconnectClient]
  split
  · split <;> rfl
  · rfl

theorem mem_unclaimedPids_act {q : UInt32} (mem : q ∈ (act s e).unclaimedPids) :
    q ∈ s.unclaimedPids ∨ ∃ fd req, e = .newProcess fd req ∧ q = ptid s.nextPtid := by
  cases e with
  | accept =>
    left
    simp only [act, accept] at mem
    split at mem <;> exact mem
  | newProcess fd req =>
    have queue := (onlyHandles_handleNewProcess s fd req).unclaimedPids
    have spawned : (spawn s (clientPid s fd) req).2.unclaimedPids =
        s.unclaimedPids ++ [ptid s.nextPtid] := by
      simp only [spawn]
      split <;> rfl
    simp only [act] at mem
    rw [queue, spawned, mem_append, mem_singleton] at mem
    exact mem.imp_right fun here => ⟨fd, req, rfl, here⟩
  | newThread fd req =>
    left
    exact (sameLists_handleNewThread s fd req).unclaimedPids ▸ mem
  | initFirstThread fd slot =>
    left
    refine unclaimedPids_claim s fd q ?_
    rw [← unclaimedPids_threadOf (claim s fd).2 fd (claim s fd).1]
    exact (sameTables_handleInitFirstThread s fd slot).unclaimedPids ▸ mem
  | initThread fd pick =>
    left
    simp only [act, (sameTables_handleInitThread s fd pick).unclaimedPids,
      unclaimedPids_threadOf] at mem
    rw [joinPid] at mem
    split at mem
    · exact mem
    · split at mem <;> exact mem
  | terminateProcess =>
    left
    simp only [act, handleTerminateProcess] at mem
    split at mem <;> exact mem
  | initProcessDone =>
    left
    simp only [act, handleInitProcessDone] at mem
    split at mem <;> exact mem
  | other => exact .inl mem
  | disconnect fd => exact .inl (unclaimedPids_disconnectClient ▸ mem)

section
variable (inv : Listed s)
include inv

theorem Listed.queue_step (left : idsLeft s) (e : Event) :
    ∀ q ∈ (step s e).unclaimedPids, Allocated (step s e) q := by
  intro q mem
  cases answered : answers s e with
  | false =>
    rw [step, answered] at mem ⊢
    exact inv.queue q mem
  | true =>
    have eq : step s e = act s e := by rw [step, answered, if_pos rfl]
    rw [eq] at mem
    rcases mem_unclaimedPids_act mem with before | ⟨fd, req, rfl, rfl⟩
    · exact (inv.queue q before).step left e
    · rw [eq]
      exact (fresh_ptid left (nextPtid_handleNewProcess s fd req)).allocated

theorem Listed.mem_of_grown (grown : Grown s t) {i : Int} {c : Client}
    (found : s.clients.get? i = some c) (thread : c.threadId ≠ 0) {l : List UInt32}
    (now : threadsOf t c.processId = some l) : c.threadId ∈ l := by
  cases before : threadsOf s c.processId with
  | none =>
    exact absurd (inv.attached i c found (inv.owned i c found thread))
      (grown.new _ l now before).not_allocated
  | some m =>
    obtain ⟨l', at_t, sub⟩ := grown.kept _ m before
    cases now.symm.trans at_t
    exact sub (inv.listed i c m found thread before)

theorem Listed.of_insert (grown : Grown s t) (numbered : Numbered t)
    (queue : ∀ q ∈ t.unclaimedPids, Allocated t q) (clients : t.clients = s.clients.insert fd c)
    (process : c.processId = 0 ∧ c.threadId = 0 ∨ Allocated t c.processId)
    (thread : ∀ l, c.threadId ≠ 0 → threadsOf t c.processId = some l → c.threadId ∈ l) :
    Listed t where
  numbered := numbered
  table := inv.table.of_grown grown
  queue := queue
  attached i d found some_pid := by
    rcases get?_of_insert clients found with ⟨rfl, rfl⟩ | before
    · exact process.resolve_left fun none_ => some_pid none_.1
    · obtain ⟨j, below, eq⟩ := inv.attached i d before some_pid
      exact ⟨j, Nat.lt_of_lt_of_le below grown.le, eq⟩
  owned i d found some_tid := by
    rcases get?_of_insert clients found with ⟨rfl, rfl⟩ | before
    · exact (process.resolve_left fun none_ => some_tid none_.2).ne_zero
    · exact inv.owned i d before some_tid
  listed i d l found some_tid now := by
    rcases get?_of_insert clients found with ⟨rfl, rfl⟩ | before
    · exact thread l some_tid now
    · exact inv.mem_of_grown grown before some_tid now

theorem Listed.of_shrunk (numbered : Numbered t)
    (next : t.nextPtid = s.nextPtid) (queue : t.unclaimedPids = s.unclaimedPids)
    (clients : ∀ i c, t.clients.get? i = some c → s.clients.get? i = some c)
    (table : ∀ q l, threadsOf t q = some l → ∃ m, threadsOf s q = some m)
    (kept : ∀ i c l m, t.clients.get? i = some c → c.threadId ≠ 0 →
      threadsOf s c.processId = some m → threadsOf t c.processId = some l →
      c.threadId ∈ m → c.threadId ∈ l) : Listed t where
  numbered := numbered
  table q l found := by
    obtain ⟨m, before⟩ := table q l found
    rw [Allocated, next]
    exact inv.table q m before
  queue q mem := by
    rw [Allocated, next]
    exact inv.queue q (queue ▸ mem)
  attached i c found some_pid := by
    rw [Allocated, next]
    exact inv.attached i c (clients i c found) some_pid
  owned i c found := inv.owned i c (clients i c found)
  listed i c l found some_tid now := by
    obtain ⟨m, before⟩ := table _ l now
    exact kept i c l m found some_tid before now
      (inv.listed i c m (clients i c found) some_tid before)

end

theorem Targeted.contains (target : Targeted s e pid) (fine : proper s e) :
    s.processes.contains pid := by
  obtain ⟨fd, req, rfl, rfl⟩ := target
  exact fine

section
variable (inv : Listed s)
include inv

theorem Listed.allocated_of_contains (known : s.processes.contains pid) : Allocated s pid := by
  obtain ⟨p, found⟩ := (s.processes.contains_iff pid).mp known
  exact inv.table pid p.threads (by rw [threadsOf, found]; rfl)

theorem Listed.grow {e : Event} (left : idsLeft s)
    (fine : proper s e) (grows : e.shrinks = false) : Listed (step s e) := by
  have grown := grown_step left inv.table grows
  have numbered := inv.numbered.step left e
  have queue := inv.queue_step left e
  have target : ∀ {pid}, Targeted s e pid → Allocated (step s e) pid := fun here =>
    (inv.allocated_of_contains (here.contains fine)).step left e
  cases clientChange_step left e with
  | same clients =>
    refine ⟨numbered, inv.table.of_grown grown, queue, ?_, ?_, ?_⟩
    · intro i c found some_pid
      exact (inv.attached i c (clients ▸ found) some_pid).step left e
    · intro i c found
      exact inv.owned i c (clients ▸ found)
    · intro i c l found some_tid now
      exact inv.mem_of_grown grown (clients ▸ found) some_tid now
  | joined _ _ _ process clients =>
    refine inv.of_insert grown numbered queue clients ?_ fun l some_tid => absurd rfl some_tid
    rcases process with zero | fresh | here
    · exact .inl ⟨zero, rfl⟩
    · exact .inr fresh.allocated
    · exact .inr (target here)
  | made _ _ _ _ here minted clients | retold _ _ _ _ _ here minted clients =>
    exact inv.of_insert grown numbered queue clients (.inr (target here))
      fun l _ now => minted.listed l now
  | introduced fd c pid _ found process thread clients =>
    refine inv.of_insert grown numbered queue clients (.inr ?_) fun l some_tid now => ?_
    · rcases process with ⟨some_pid, rfl⟩ | ⟨-, source⟩
      · exact (inv.attached fd c found some_pid).step left e
      · cases source with
        | fresh new => exact new.allocated
        | queued mem => exact (inv.queue pid mem).step left e
        | present known => exact (inv.allocated_of_contains known).step left e
    · rcases thread with ⟨old, rfl⟩ | ⟨-, minted⟩
      · rcases process with ⟨-, rfl⟩ | ⟨none_, -⟩
        · exact inv.mem_of_grown grown found old now
        · exact absurd none_ (inv.owned fd c found old)
      · exact minted.listed l now
  | left _ _ clients =>
    refine ⟨numbered, inv.table.of_grown grown, queue, ?_, ?_, ?_⟩
    · intro i c found some_pid
      exact (inv.attached i c (get?_of_erase clients found).2 some_pid).step left e
    · intro i c found
      exact inv.owned i c (get?_of_erase clients found).2
    · intro i c l found some_tid now
      exact inv.mem_of_grown grown (get?_of_erase clients found).2 some_tid now

theorem Listed.terminate {handle exitCode : UInt32}
    (last : ∀ tid ∈ connectedTids s (clientPid s fd), tid = clientTid s fd) :
    Listed (handleTerminateProcess s fd handle exitCode) := by
  rw [handleTerminateProcess]
  split
  · have lists : ∀ q, threadsOf { s with processes := s.processes.modify (clientPid s fd) fun p =>
        { p with exitCode, threads := p.threads.filter fun t => t = clientTid s fd } } q =
        if q = clientPid s fd then
          (threadsOf s (clientPid s fd)).map fun l => l.filter fun t => t = clientTid s fd
        else threadsOf s q := by
      intro q
      simp only [threadsOf, get?_modify]
      split
      · simp [Function.comp_def]
      · rfl
    refine inv.of_shrunk (inv.numbered.of_subset (fun _ _ found => found) fun _ h => h) rfl rfl
      (fun _ _ found => found) (fun q l now => ?_) fun i c l m found some_tid before now mem => ?_
    · rw [lists] at now
      split at now
      · next same =>
        obtain ⟨m, before, -⟩ := Option.map_eq_some_iff.mp now
        exact ⟨m, same ▸ before⟩
      · exact ⟨l, now⟩
    · rw [lists] at now
      split at now
      · next same =>
        rw [← same, before] at now
        cases now
        have here := last _ (mem_connectedTids.mpr ⟨i, c, found, same, some_tid, rfl⟩)
        exact mem_filter.mpr ⟨mem, by simpa using here⟩
      · cases now.symm.trans before
        exact mem
  · exact inv

theorem Listed.mem_afterLeaving {i : Int} {d : Client}
    (leaving : s.clients.get? fd = some c) (other : i ≠ fd) (found : s.clients.get? i = some d)
    (some_tid : d.threadId ≠ 0) (same : d.processId = c.processId) {m : List UInt32}
    (mem : d.threadId ∈ m) : d.threadId ∈ (m.filter fun t => t ≠ c.threadId).filter fun t =>
      t ∈ connectedTids { s with clients := s.clients.erase fd } c.processId := by
  have apart : d.threadId ≠ c.threadId := by
    intro eq
    exact other (inv.numbered.distinct i fd d c found leaving some_tid eq)
  have connected : d.threadId ∈
      connectedTids { s with clients := s.clients.erase fd } c.processId := by
    refine mem_connectedTids.mpr ⟨i, d, ?_, same, some_tid, rfl⟩
    rw [get?_erase, if_neg other]
    exact found
  exact mem_filter.mpr ⟨mem_filter.mpr ⟨mem, by simpa using apart⟩, by simpa using connected⟩

end

theorem nextPtid_disconnectClient (s : State) (fd : Int) :
    (disconnectClient s fd).nextPtid = s.nextPtid := by
  simp only [disconnectClient]
  split
  · split <;> rfl
  · rfl

theorem threadsOf_disconnectClient (found : s.clients.get? fd = some c) (process : c.processId ≠ 0)
    (thread : c.threadId ≠ 0) {q : UInt32} {l : List UInt32}
    (now : threadsOf (disconnectClient s fd) q = some l) :
    threadsOf (afterLeaving s fd c.processId c.threadId) q = some l := by
  rw [disconnectClient_eq found process thread] at now
  split at now
  · simp only [threadsOf, tearDown, get?_erase] at now
    split at now
    · cases now
    · exact now
  · exact now

theorem Listed.disconnect (inv : Listed s) (found : s.clients.get? fd = some c) :
    Listed (disconnectClient s fd) := by
  have numbered : Numbered (disconnectClient s fd) := by
    refine inv.numbered.of_subset (fun _ _ here => (of_clients_disconnect here).2) fun id before => ?_
    rw [Allocated, nextPtid_disconnectClient]
    exact before
  by_cases both : c.processId ≠ 0 ∧ c.threadId ≠ 0
  · -- its process loses threads, but none that another client has
    refine inv.of_shrunk numbered (nextPtid_disconnectClient s fd)
      unclaimedPids_disconnectClient (fun _ _ here => (of_clients_disconnect here).2) ?_ ?_
    · intro q l now
      have here := threadsOf_disconnectClient found both.1 both.2 now
      rw [threadsOf_afterLeaving] at here
      split at here
      · next same =>
        obtain ⟨m, before, -⟩ := Option.map_eq_some_iff.mp here
        exact ⟨m, same ▸ before⟩
      · exact ⟨l, here⟩
    · intro i d l m at_i some_tid before now mem
      have here := threadsOf_disconnectClient found both.1 both.2 now
      rw [threadsOf_afterLeaving] at here
      split at here
      · next same =>
        rw [← same, before] at here
        cases here
        obtain ⟨other, at_s⟩ := of_clients_disconnect at_i
        rw [same]
        exact inv.mem_afterLeaving found other at_s some_tid same mem
      · cases here.symm.trans before
        exact mem
  · -- a client without process or thread leaves the lists alone
    have bare : ¬ (clientPid s fd ≠ 0 ∧ clientTid s fd ≠ 0) := by
      rwa [clientPid_of_get? found, clientTid_of_get? found]
    have lists : ∀ q, threadsOf (disconnectClient s fd) q = threadsOf s q := by
      intro q
      rw [disconnectClient_bare bare]
      rfl
    refine inv.of_shrunk numbered (nextPtid_disconnectClient s fd)
      unclaimedPids_disconnectClient (fun _ _ here => (of_clients_disconnect here).2) ?_ ?_
    · intro q l now
      exact ⟨l, lists q ▸ now⟩
    · intro i d l m _ _ before now mem
      cases (lists _ ▸ now).symm.trans before
      exact mem

theorem Listed.step (inv : Listed s) (fine : orderly s e) : Listed (step s e) := by
  simp only [orderly, Bool.and_eq_true, Bool.or_eq_true, Bool.not_eq_true'] at fine
  obtain ⟨left, fine⟩ := fine
  cases answered : answers s e with
  | false =>
    rw [Lifecycle.step, answered]
    exact inv
  | true =>
    have fine := fine.resolve_left (by simp [answered])
    cases shrinks : e.shrinks with
    | false => exact inv.grow left fine shrinks
    | true =>
      rw [Lifecycle.step, if_pos answered]
      cases e with
      | terminateProcess =>
        refine inv.terminate fun tid mem => ?_
        simpa using all_eq_true.mp fine tid mem
      | disconnect fd =>
        obtain ⟨c, found⟩ := (s.clients.contains_iff fd).mp answered
        exact inv.disconnect found
      | _ => cases shrinks

/-! ### The moment of the end -/

def OthersConnected (s : State) (fd : Int) (pid : UInt32) : Prop :=
  ∃ i c, i ≠ fd ∧ s.clients.get? i = some c ∧ c.processId = pid ∧ c.threadId ≠ 0

def Available (s t : State) (pid : UInt32) : Prop :=
  (t.processes.get? pid).map Process.handles = (s.processes.get? pid).map Process.handles ∧
    t.windowStates = s.windowStates

/-- A disconnect ends the process of a thread exactly if no other thread of it is connected,
and leaves the process to the others. -/
def Timely (s : State) : Event → Prop
  | .disconnect fd => ∀ c, s.clients.get? fd = some c → c.processId ≠ 0 → c.threadId ≠ 0 →
      s.processes.contains c.processId →
      ((step s (.disconnect fd)).processes.contains c.processId = false ↔
        ¬ OthersConnected s fd c.processId) ∧
      (OthersConnected s fd c.processId → Available s (step s (.disconnect fd)) c.processId)
  | _ => True

theorem contains_disconnectClient (found : s.clients.get? fd = some c) (process : c.processId ≠ 0)
    (thread : c.threadId ≠ 0) {l : List UInt32} (here : threadsOf s c.processId = some l) :
    (disconnectClient s fd).processes.contains c.processId = false ↔ ∀ t ∈ l, t ≠ c.threadId →
        t ∉ connectedTids { s with clients := s.clients.erase fd } c.processId := by
  have rest := threadsOf_afterLeaving (s := s) fd c.processId c.threadId c.processId
  rw [if_pos rfl, here] at rest
  have present : (afterLeaving s fd c.processId c.threadId).processes.contains c.processId := by
    obtain ⟨p, at_pid, -⟩ := Option.map_eq_some_iff.mp rest
    exact contains_of_get? at_pid
  rw [disconnectClient_eq found process thread, remainingThreads_eq, rest]
  split
  · next none_ =>
    refine iff_of_true ?_ ?_
    · rw [tearDown, contains_erase]
      simp
    · intro t mem other connected
      have empty := eq_nil_of_length_eq_zero none_
      refine absurd (mem_filter.mpr ⟨mem_filter.mpr ⟨mem, ?_⟩, ?_⟩)
        (empty ▸ not_mem_nil)
      · simpa using other
      · simpa using connected
  · next some_left =>
    refine iff_of_false (by rw [present]; simp) fun all => some_left ?_
    refine length_eq_zero_iff.mpr (filter_eq_nil_iff.mpr fun t mem connected => ?_)
    obtain ⟨mem, other⟩ := mem_filter.mp mem
    exact all t mem (by simpa using other) (by simpa using connected)

theorem Listed.timely (inv : Listed s) (e : Event) : Timely s e := by
  cases e with
  | disconnect fd =>
    intro c found process thread known
    have eq : Lifecycle.step s (.disconnect fd) = disconnectClient s fd :=
      if_pos (contains_of_get? found)
    obtain ⟨p, at_pid⟩ := (s.processes.contains_iff c.processId).mp known
    have here : threadsOf s c.processId = some p.threads := by rw [threadsOf, at_pid]; rfl
    have ends := contains_disconnectClient found process thread here
    have stays : OthersConnected s fd c.processId →
        ¬ (disconnectClient s fd).processes.contains c.processId = false := by
      rintro ⟨i, d, other, at_i, same, some_tid⟩ gone
      have mem := inv.listed i d p.threads at_i some_tid (same ▸ here)
      have kept := inv.mem_afterLeaving found other at_i some_tid same mem
      obtain ⟨mem, connected⟩ := mem_filter.mp kept
      obtain ⟨mem, apart⟩ := mem_filter.mp mem
      exact ends.mp gone _ mem (by simpa using apart) (by simpa using connected)
    rw [eq]
    refine ⟨⟨fun gone others => stays others gone, fun alone => ends.mpr ?_⟩, fun others => ?_⟩
    · intro t _ _ connected
      obtain ⟨i, d, at_i, same, some_tid, -⟩ := mem_connectedTids.mp connected
      have before := get?_of_erase (s := s) rfl at_i
      exact alone ⟨i, d, before.1, before.2, same, some_tid⟩
    · have gone := stays others
      rw [disconnectClient_eq found process thread] at gone ⊢
      split at gone
      · exact absurd (by rw [tearDown, contains_erase]; simp) gone
      · next some_left =>
        rw [if_neg some_left]
        refine ⟨?_, rfl⟩
        simp only [afterLeaving, leaveProcess, get?_modify, if_true, Option.map_map]
        rfl
  | _ => trivial

/-- Over any run in which threads are made in processes that exist and processes are
terminated by their last thread: a disconnecting thread takes its process along exactly if
no other thread of the process is connected, and otherwise leaves the process, its handles
and all windows. -/
theorem teardown_timely (desktopTop desktopMsg : UInt32) (windows : Table UInt32 Window)
    (events : List Event) (fine : AllSteps step (fun s e => orderly s e)
      (State.start desktopTop desktopMsg windows) events) :
    AllSteps step Timely (State.start desktopTop desktopMsg windows) events :=
  allSteps_of_invariant (fun _ _ inv fine => inv.step fine) (fun _ e inv _ => inv.timely e)
    (listed_start desktopTop desktopMsg windows) fine

/-- Two threads of a process that leave one after the other. -/
theorem two_threads_timely : AllSteps step Timely bareStart [.accept 5, .initFirstThread 5 true,
      .newThread 5 ⟨0, 0, .inflight (some 6), some 9⟩, .initThread 6 0, .disconnect 5,
      .disconnect 6] :=
  teardown_timely 0x10020 0x10022 .empty _ (by decide +kernel)

/-- A thread terminates its process while another one is connected, and disconnects: the
process is gone although the other thread is still there. -/
theorem terminated_under_connected_thread :
    ¬ AllSteps step Timely bareStart [.accept 5, .initFirstThread 5 true,
      .newThread 5 ⟨0, 0, .inflight (some 6), some 9⟩, .initThread 6 0,
      .terminateProcess 5 0 0, .disconnect 5] := by
  rintro ⟨-, -, -, -, -, timely, -⟩
  have ends := (timely ⟨32, 36, 0, some 36⟩ (by decide +kernel) (by decide) (by decide)
    (by decide +kernel)).1
  exact ends.mp (by decide +kernel)
    ⟨6, ⟨32, 40, 1, some 40⟩, by decide, by decide +kernel, rfl, by decide⟩

end Triskelion.Lifecycle
