import Triskelion.RunRules
import Triskelion.Select

/-! Threads that wait for a pipe to listen (`FSCTL_PIPE_WAIT`). A server's pipe is kept
under the last part of its name, a waiter under the name as it gave it; creating a pipe
and listening on it wake those who are found under the pipe's own name, disconnecting a
client from it wakes nobody. -/

namespace Triskelion.Select

open RunRules List Table PipeInstance

def waitersOf (s : State) (name : Str) : List PendingPipeWaiter :=
  (s.pendingPipeWaiters.get? name).getD []

section Lower

variable (lower : Str → Str)

def PendingPipeWaiter.pipe (w : PendingPipeWaiter) : Str := lower (basename w.name)

/-- Nobody waits for a pipe that listens, and who waits has an event to be woken by. -/
structure Awake (s : State) : Prop where
  unheard : ∀ name, ∀ w ∈ waitersOf s name, hasListener s (w.pipe lower) = false
  events : ∀ name, ∀ w ∈ waitersOf s name, s.ntsyncObjects.contains (w.pid, w.waitHandle)

def allUnder (s : State) (name : Str) : Bool :=
  s.pendingPipeWaiters.entries.all fun e => e.2.all fun w => e.1 = name || w.pipe lower ≠ name

def unawaited (s : State) (name : Str) : Bool :=
  s.pendingPipeWaiters.entries.all fun e => e.2.all fun w => w.pipe lower ≠ name

/-- A pipe that begins to listen wakes all who wait for it, and nobody begins to wait
for one that listens. -/
def wakes (s : State) : Event → Bool
  | .createNamedPipe _ oa fds =>
    let name := (extractObjattrName lower oa).getD []
    fds.isNone || name = [] || allUnder lower s name
  | .pipeListen req made =>
    (pipeListen s req made).1.error ≠ statusPending ||
      (pipeOf s (clientPid s req.clientFd) req.handle).all (allUnder lower s)
  | .pipeDisconnect clientFd handle =>
    (pipeOf s (clientPid s clientFd) handle).all (unawaited lower s)
  | .pipeWait clientFd vararg made =>
    (pipeWait lower s clientFd vararg made).1.error ≠ statusPending ||
      (pipeWaitName vararg).all fun name => !hasListener s (lower (basename name))
  | _ => true

end Lower

/-! ### Tables of lists -/

theorem all_entries {α : Type} (t : Table Str (List α)) (p : Str → α → Bool) :
    (t.entries.all fun e => e.2.all (p e.1)) ↔ ∀ name, ∀ x ∈ (t.get? name).getD [], p name x := by
  simp only [all_eq_true, Prod.forall, mem_entries]
  constructor
  · intro all name x mem
    cases found : t.get? name with
    | none => simp [found] at mem
    | some l => exact all name l found x (by simpa [found] using mem)
  · intro all name l found x mem
    exact all name x (by simpa [found] using mem)

theorem getD_retainAll {α : Type} [DecidableEq α] (p : α → Bool) (t : Table Str (List α))
    (name : Str) : ((retainAll p t).get? name).getD [] = ((t.get? name).getD []).filter p := by
  rw [retainAll, get?_retain, get?_mapValues]
  cases t.get? name with
  | none => rfl
  | some l =>
    by_cases empty : l.filter p = [] <;> simp [Option.filter, empty]

section UpdateFirst

variable {α : Type} {p q : α → Bool} {f : α → α}

theorem any_updateFirst {l : List α} (there : l.any p) (made : ∀ x, q (f x)) :
    (updateFirst p f l).any q := by
  induction l with
  | nil => simp at there
  | cons x rest ih =>
    rw [updateFirst]
    split
    · simp [made]
    · next no =>
      simp only [any_cons, no, Bool.false_or] at there
      simp [ih there]

theorem any_of_updateFirst {l : List α} (was : ∀ x, q (f x) → q x)
    (any : (updateFirst p f l).any q) : l.any q := by
  induction l with
  | nil => exact any
  | cons x rest ih =>
    rw [updateFirst] at any
    split at any
    · simp only [any_cons, Bool.or_eq_true] at any ⊢
      exact any.imp_left (was x)
    · simp only [any_cons, Bool.or_eq_true] at any ⊢
      exact any.imp_right ih

end UpdateFirst

variable {lower : Str → Str} {s t : State} {name : Str}

theorem Awake.events_set (awake : Awake lower s) {w : PendingPipeWaiter} (waits : w ∈ waitersOf s name) :
    (w.pid, w.waitHandle) ∈ (wakePipeWaiters s name).eventsSet :=
  mem_append_right _ (mem_filter.mpr ⟨mem_map_of_mem waits, awake.events name w waits⟩)

theorem allUnder_iff : allUnder lower s name ↔
    ∀ other, other ≠ name → ∀ w ∈ waitersOf s other, w.pipe lower ≠ name := by
  refine (all_entries s.pendingPipeWaiters fun key w => key = name || w.pipe lower ≠ name).trans ?_
  refine forall_congr' fun other => ?_
  by_cases here : other = name <;> simp [here, waitersOf]

theorem unawaited_iff : unawaited lower s name ↔
    ∀ other, ∀ w ∈ waitersOf s other, w.pipe lower ≠ name := by
  refine (all_entries s.pendingPipeWaiters fun _ w => w.pipe lower ≠ name).trans ?_
  simp [waitersOf]

/-! ### What wakes nobody -/

/-- Fewer pipes listen and fewer threads wait, and those keep their events. -/
structure Quieter (s t : State) : Prop where
  listeners : ∀ name, hasListener t name → hasListener s name
  waiters : ∀ name, waitersOf t name ⊆ waitersOf s name
  events : ∀ name, ∀ w ∈ waitersOf t name, s.ntsyncObjects.contains (w.pid, w.waitHandle) →
    t.ntsyncObjects.contains (w.pid, w.waitHandle)

theorem Awake.quieter (awake : Awake lower s) (quieter : Quieter s t) : Awake lower t where
  unheard name w mem := by
    have before := awake.unheard name w (quieter.waiters name mem)
    by_contra listens
    simp [quieter.listeners _ (by simpa using listens)] at before
  events name w mem := quieter.events name w mem (awake.events name w (quieter.waiters name mem))

theorem Quieter.of_tables (pipes : t.namedPipes = s.namedPipes)
    (waiters : t.pendingPipeWaiters = s.pendingPipeWaiters)
    (objects : ∀ key, s.ntsyncObjects.contains key → t.ntsyncObjects.contains key) :
    Quieter s t where
  listeners name := by simp [hasListener, pipes]
  waiters name := by simp [waitersOf, waiters]
  events _ _ _ := objects _

theorem objects_allocHandle (s : State) (pid : UInt32) (fd : Option Int)
    (objType access options : UInt32) :
    (allocHandle s pid fd objType access options).2.ntsyncObjects = s.ntsyncObjects := by
  obtain ⟨_, made⟩ := allocHandle_eq s pid fd objType access options
  rw [made]

theorem quieter_allocHandle (pid : UInt32) (fd : Option Int) (objType access options : UInt32) :
    Quieter s (allocHandle s pid fd objType access options).2 := by
  obtain ⟨_, made⟩ := allocHandle_eq s pid fd objType access options
  rw [made]
  exact .of_tables rfl rfl fun _ => id

section
variable (s : State) (pid : UInt32) (made : Bool)

theorem objects_allocWaitHandle : (∀ key, s.ntsyncObjects.contains key →
      (allocWaitHandle s pid made).2.ntsyncObjects.contains key) ∧
    ((allocWaitHandle s pid made).1 ≠ 0 → (allocWaitHandle s pid made).2.ntsyncObjects.contains
        (pid, (allocWaitHandle s pid made).1)) := by
  unfold allocWaitHandle
  split
  · simp
  · have same := objects_allocHandle s pid (some (-1)) fdTypeFile 0x001F0003 0x20
    dsimp only
    split
    · simp only [same]
      exact ⟨fun key there => by simp [Table.contains_insert, there],
        fun _ => by simp [Table.contains_insert]⟩
    · next none_ => exact ⟨fun key there => by rwa [same], fun some_ => absurd some_ none_⟩

theorem quieter_allocWaitHandle : Quieter s (allocWaitHandle s pid made).2 := by
  have objects := (objects_allocWaitHandle s pid made).1
  obtain ⟨_, _, _, same⟩ := allocWaitHandle_eq s pid made
  exact .of_tables (by rw [same]) (by rw [same]) objects

end

theorem Quieter.refl (s : State) : Quieter s s := .of_tables rfl rfl fun _ => id

theorem Quieter.trans {u : State} (one : Quieter s t) (two : Quieter t u) : Quieter s u where
  listeners name listens := one.listeners name (two.listeners name listens)
  waiters name := List.Subset.trans (two.waiters name) (one.waiters name)
  events name w mem there := two.events name w mem (one.events name w (two.waiters name mem) there)

variable {clientFd : Int} {req : SelectRequest} {k : SelectKernel}

theorem quieter_defer (set : WaitSet) : Quieter s (defer s clientFd req set k) := by
  obtain ⟨_, _, _, ⟨-, timer⟩ | ⟨_, _, -, -, -, worker⟩⟩ := defer_cases s clientFd req set k
  · simp only [timer]
    exact .of_tables rfl rfl fun _ => id
  · simp only [worker]
    exact .of_tables rfl rfl fun _ => id

theorem quieter_handleSelect : Quieter s (handleSelect s clientFd req k).2.1 := by
  obtain ⟨_, _, _, _, _, objects, out⟩ := handleSelect_cases s clientFd req k
  split at out
  · rw [out.2]
    exact .of_tables rfl rfl objects
  · rcases out with ⟨-, same⟩ | ⟨-, set, deferred⟩
    · rw [same]
      exact .of_tables rfl rfl objects
    · rw [deferred]
      refine Quieter.trans ?_ (quieter_defer set)
      exact .of_tables rfl rfl objects

variable {handle : UInt32}

theorem quieter_resumeThread : Quieter s (resumeThread s clientFd handle).1 := by
  unfold resumeThread
  split
  · exact .refl s
  · dsimp only
    split
    · exact .of_tables rfl rfl fun _ => id
    · split <;> exact .of_tables rfl rfl fun _ => id

theorem hasListener_markConnected (other : Str)
    (listens : hasListener (markConnected s name) other) : hasListener s other := by
  simp only [hasListener, markConnected, get?_modify] at listens ⊢
  split at listens
  · next here =>
    subst here
    cases found : s.namedPipes.get? other with
    | none => simp [found] at listens
    | some =>
      simp only [found, Option.map_some, Option.getD_some] at listens ⊢
      exact any_of_updateFirst (by simp [isListening]) listens
  · exact listens

theorem quieter_tellListener (info : PipeInstance) : Quieter s (tellListener s info).1 := by
  unfold tellListener
  split <;> exact .of_tables rfl rfl fun _ => id

theorem quieter_connectPipe (access options : UInt32)
    (copy : Option Int) : Quieter s (tryConnectNamedPipe s clientFd name access options copy).2.1 := by
  rcases tryConnectNamedPipe_cases s clientFd name access options copy with
    same | ⟨instances, info, fd, -, -, done⟩
  · rw [same]
    exact .refl s
  · have marked : Quieter s (markConnected s name) :=
      ⟨hasListener_markConnected, fun _ _ => id, fun _ _ _ => id⟩
    obtain ⟨_, made⟩ := allocClientEnd_eq (tellListener (markConnected s name) info).1
      (clientPid s clientFd) fd access options
    simp only [done, made]
    exact (marked.trans (quieter_tellListener info)).trans (.of_tables rfl rfl fun _ => id)

theorem quieter_disconnectClient : Quieter s (disconnectClient s clientFd) := by
  obtain ⟨objects, _, _, _, pipes, which, gone⟩ := disconnectClient_eq s clientFd
  rw [gone]
  refine ⟨fun name listens => ?_, fun name w mem => ?_, fun name w mem there => ?_⟩
  · rcases which with ⟨rfl, -⟩ | ⟨rfl, -⟩
    · exact listens
    · simp only [hasListener, getD_retainAll, any_eq_true] at listens ⊢
      obtain ⟨instance_, mem, listening⟩ := listens
      exact ⟨instance_, mem_of_mem_filter mem, listening⟩
  · simp only [waitersOf] at mem ⊢
    split at mem
    · exact mem
    · rw [getD_retainAll] at mem
      exact mem_of_mem_filter mem
  · rcases which with ⟨-, rfl⟩ | ⟨-, rfl, known⟩
    · exact there
    · simp only [waitersOf, known, if_false, getD_retainAll, mem_filter, decide_eq_true_eq] at mem
      simp only [Table.contains, get?_retain] at there ⊢
      simp [there, mem.2]

/-! ### A pipe begins to listen -/

structure Listens (s t : State) (name : Str) : Prop where
  here : hasListener t name
  others : ∀ other, other ≠ name → hasListener t other = hasListener s other
  objects : ∀ key, s.ntsyncObjects.contains key → t.ntsyncObjects.contains key

theorem waitersOf_erase (woken : t.pendingPipeWaiters = s.pendingPipeWaiters.erase name)
    (other : Str) : waitersOf t other = if other = name then [] else waitersOf s other := by
  simp only [waitersOf, woken, get?_erase]
  split <;> rfl

section
variable (awake : Awake lower s) (listens : Listens s t name)
include awake listens

theorem Awake.of_listens (fewer : ∀ other, ∀ w ∈ waitersOf t other, w ∈ waitersOf s other) :
    Awake lower t ↔ ∀ other, ∀ w ∈ waitersOf t other, w.pipe lower ≠ name := by
  constructor
  · intro after other w mem same
    have unheard := after.unheard other w mem
    simp [same, listens.here] at unheard
  · intro none_
    refine ⟨fun other w mem => ?_, fun other w mem => ?_⟩
    · rw [listens.others _ (none_ other w mem)]
      exact awake.unheard other w (fewer other w mem)
    · exact listens.objects _ (awake.events other w (fewer other w mem))

theorem Awake.woken (woken : t.pendingPipeWaiters = s.pendingPipeWaiters.erase name) :
    Awake lower t ↔ allUnder lower s name := by
  have waiters := waitersOf_erase woken
  rw [awake.of_listens listens (by grind), allUnder_iff]
  grind

theorem Awake.unwoken (kept : t.pendingPipeWaiters = s.pendingPipeWaiters) :
    Awake lower t ↔ unawaited lower s name := by
  have waiters : ∀ other, waitersOf t other = waitersOf s other := by simp [waitersOf, kept]
  rw [awake.of_listens listens (by simp [waiters]), unawaited_iff]
  simp only [waiters]

end

theorem awake_createNamedPipe (awake : Awake lower s) (oa : List UInt8)
    (fds : Option (Int × Int)) : Awake lower (createNamedPipe lower s clientFd oa fds) ↔
      wakes lower s (.createNamedPipe clientFd oa fds) := by
  cases fds with
  | none => simp [createNamedPipe, wakes, awake]
  | some pair =>
    obtain ⟨server, client⟩ := pair
    simp only [createNamedPipe, wakes, Option.isNone_some, Bool.false_or]
    generalize (extractObjattrName lower oa).getD [] = name
    by_cases unnamed : name = []
    · simp only [unnamed, if_true, decide_true, Bool.true_or, iff_true]
      exact (awake.quieter (quieter_allocHandle _ _ _ _ _)).quieter
        (quieter_allocHandle _ _ _ _ _)
    · obtain ⟨_, made⟩ :=
        allocHandle_eq s (clientPid s clientFd) (some server) fdTypeDevice 0x001F01FF 0x20
      simp only [unnamed, if_false, decide_false, Bool.false_or, made]
      refine awake.woken ⟨?_, fun other apart => ?_, fun _ => id⟩ rfl
      · simp [hasListener, wakePipeWaiters, get?_insert, isListening]
      · simp [hasListener, wakePipeWaiters, get?_insert, apart]

theorem pipeOf_some {pid : UInt32} (found : pipeOf s pid handle = some name) :
    ∃ instances, s.namedPipes.get? name = some instances ∧ instances.any (isServer pid handle) := by
  simp only [pipeOf, Option.map_eq_some_iff] at found
  obtain ⟨⟨_, instances⟩, first, rfl⟩ := found
  exact ⟨instances, (mem_entries _ _ _).mp (mem_of_find?_eq_some first),
    by simpa using find?_some first⟩

theorem listens_update {pid : UInt32} (found : pipeOf s pid handle = some name)
    {f : PipeInstance → PipeInstance} (listening : ∀ i, (f i).isListening)
    (pipes : t.namedPipes = s.namedPipes.modify name (updateFirst (isServer pid handle) f))
    (objects : t.ntsyncObjects = s.ntsyncObjects) : Listens s t name where
  here := by
    obtain ⟨instances, there, server⟩ := pipeOf_some found
    simp [hasListener, pipes, get?_modify, there, any_updateFirst server listening]
  others other apart := by simp [hasListener, pipes, get?_modify, apart]
  objects key there := by rwa [objects]

section
variable (awake : Awake lower s)
include awake

theorem awake_startListen (req : ListenRequest) (event : UInt32)
    (found : pipeOf s (clientPid s req.clientFd) req.handle = some name) :
    Awake lower (startListen s req name event) ↔ allUnder lower s name :=
  awake.woken (listens_update found (by simp [isListening]) rfl rfl) rfl

theorem awake_pipeListen (req : ListenRequest) (made : Bool) :
    Awake lower (pipeListen s req made).2 ↔ wakes lower s (.pipeListen req made) := by
  simp only [pipeListen, wakes]
  cases found : pipeOf s (clientPid s req.clientFd) req.handle with
  | none => simp [awake]
  | some =>
    simp only [Option.all_some]
    split
    · simp [awake_startListen awake req req.event found]
    · have still := awake.quieter (quieter_allocWaitHandle s (clientPid s req.clientFd) made)
      obtain ⟨_, _, _, same⟩ := allocWaitHandle_eq s (clientPid s req.clientFd) made
      split
      · rw [awake_startListen still req _ (by rw [same]; exact found), same]
        simp [allUnder]
      · simp [still, statusPending]

theorem awake_pipeDisconnect : Awake lower (pipeDisconnect s clientFd handle).2 ↔
      wakes lower s (.pipeDisconnect clientFd handle) := by
  simp only [pipeDisconnect, wakes]
  cases found : pipeOf s (clientPid s clientFd) handle with
  | none => simp [awake]
  | some =>
    exact awake.unwoken (listens_update found (by simp [isListening]) rfl rfl) rfl

/-! ### A thread begins to wait -/

theorem Awake.wait (key : Str) {w : PendingPipeWaiter}
    (event : s.ntsyncObjects.contains (w.pid, w.waitHandle)) : Awake lower { s with
      pendingPipeWaiters := s.pendingPipeWaiters.insert key (waitersOf s key ++ [w]) } ↔
      hasListener s (w.pipe lower) = false := by
  have waiters : ∀ name x, x ∈ ((s.pendingPipeWaiters.insert key (waitersOf s key ++ [w])).get?
      name).getD [] ↔ x ∈ waitersOf s name ∨ name = key ∧ x = w := by
    intro name x
    rw [get?_insert]
    by_cases here : name = key <;> simp [here, waitersOf]
  constructor
  · intro after
    exact after.unheard key w ((waiters key w).mpr (.inr ⟨rfl, rfl⟩))
  · intro unheard
    refine ⟨fun name x mem => ?_, fun name x mem => ?_⟩
    · rcases (waiters name x).mp mem with before | ⟨-, rfl⟩
      · exact awake.unheard name x before
      · exact unheard
    · rcases (waiters name x).mp mem with before | ⟨-, rfl⟩
      · exact awake.events name x before
      · exact event

theorem awake_pipeWait (vararg : List UInt8)
    (made : Bool) : Awake lower (pipeWait lower s clientFd vararg made).2 ↔
      wakes lower s (.pipeWait clientFd vararg made) := by
  simp only [pipeWait, wakes]
  cases said : pipeWaitName vararg with
  | none => simp [awake, statusPending]
  | some name =>
    simp only [Option.all_some]
    split
    · simp [awake, statusPending]
    · have still := awake.quieter (quieter_allocWaitHandle s (clientPid s clientFd) made)
      have event := (objects_allocWaitHandle s (clientPid s clientFd) made).2
      obtain ⟨_, _, _, same⟩ := allocWaitHandle_eq s (clientPid s clientFd) made
      generalize allocWaitHandle s (clientPid s clientFd) made = wait at still event same ⊢
      obtain ⟨handle, after⟩ := wait
      obtain rfl := same
      split
      · next there =>
        simp only [ne_eq, not_true_eq_false, decide_false, Bool.false_or, Bool.not_eq_true']
        exact still.wait (lower name) (event there)
      · simp [still, statusPending]

/-! ### Runs -/

theorem awake_act (event : Event) : Awake lower (act lower s event).1 ↔ wakes lower s event := by
  cases event with
  | createNamedPipe clientFd oa fds => exact awake_createNamedPipe awake oa fds
  | pipeListen req made => exact awake_pipeListen awake req made
  | pipeDisconnect clientFd handle => exact awake_pipeDisconnect awake
  | pipeWait clientFd vararg made => exact awake_pipeWait awake vararg made
  | connectClient | finishWorker =>
    refine iff_of_true (awake.quieter ?_) rfl
    simp only [act, connectClient, finishWorker]
    split <;> exact .of_tables rfl rfl fun _ => id
  | disconnectClient clientFd =>
    exact iff_of_true (awake.quieter quieter_disconnectClient) rfl
  | connectPipe clientFd name access options copy =>
    exact iff_of_true (awake.quieter (quieter_connectPipe access options copy)) rfl
  | select clientFd req k =>
    refine iff_of_true (awake.quieter ?_) rfl
    exact quieter_handleSelect.trans (.of_tables rfl rfl fun _ => id)
  | resumeThread clientFd handle =>
    exact iff_of_true (awake.quieter quieter_resumeThread) rfl
  | tick => exact iff_of_true (awake.quieter (.of_tables rfl rfl fun _ => id)) rfl

end

theorem waiters_awake_iff (lower : Str → Str) (processes : Table UInt32 Process)
    (objects : Table (UInt32 × UInt32) UInt32) (events : List Event) :
    (∀ o ∈ states (step lower) ⟨.start processes objects, []⟩ events, Awake lower o.state) ↔
      AllSteps (step lower) (fun o event => wakes lower o.state event)
        ⟨.start processes objects, []⟩ events :=
  observed_iff_allSteps (fun o : Observed => Awake lower o.state) (fun _ _ => True)
    (fun _ awake => awake)
    (fun _ event awake _ wakes => (awake_act awake event).mpr wakes)
    (fun _ event awake _ asleep after => asleep ((awake_act awake event).mp after))
    ⟨by simp [waitersOf, State.start], by simp [waitersOf, State.start]⟩ (allSteps_of_forall (fun _ _ => trivial) _ _)

def waitForP : List UInt8 := List.replicate 8 0 ++ [2, 0, 0, 0, 0, 0, 112, 0]

def twoProcesses : Table UInt32 Process :=
  (Table.empty.insert 32 ⟨HandleTable.new, [], true⟩).insert 36 ⟨HandleTable.new, [], true⟩

/-- The server lets its client go, and nobody tells the thread that waits. -/
theorem disconnect_wakes_nobody : ¬ ∀ o ∈ states (step id) ⟨.start twoProcesses .empty, []⟩
      [.connectClient 7 32 40 (some 9), .connectClient 8 36 44 (some 10),
        .createNamedPipe 7 (List.replicate 12 0 ++ [2, 0, 0, 0, 112, 0]) (some (20, 21)),
        .connectPipe 8 ['p'] 0x80000000 0 (some 22), .pipeWait 8 waitForP true,
        .pipeDisconnect 7 4], Awake id o.state := by
  intro awake
  have unheard := (awake _ (run_mem_states _ _)).unheard ['p'] ⟨36, 8, ['p']⟩ (by decide +kernel)
  exact absurd unheard (by decide +kernel)

end Triskelion.Select
