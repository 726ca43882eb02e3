import Triskelion.Select

/-! What the requests of the select model do to the clients and their waits: most leave
them alone, a select may be left with its thread, the timer or a worker. -/

namespace Triskelion.Select

/-- The tables that wake-ups are made from. -/
structure WaitView where
  clients : Table Int Client
  pendingWaits : List PendingWait
  workers : List Worker
  asked : Table (Nat × UInt64) Int64
  nextConnection : Nat

def view (s : State) : WaitView :=
  ⟨s.clients, s.pendingWaits, s.workers, s.asked, s.nextConnection⟩

variable {s : State} {clientFd : Int}

theorem view_allocHandle (pid : UInt32) (fd : Option Int) (objType access options : UInt32) :
    view (allocHandle s pid fd objType access options).2 = view s := by
  obtain ⟨processes, made⟩ := allocHandle_eq s pid fd objType access options
  rw [made]
  rfl

theorem view_allocWaitHandle (pid : UInt32) (made : Bool) :
    view (allocWaitHandle s pid made).2 = view s := by
  obtain ⟨processes, oid, objects, done⟩ := allocWaitHandle_eq s pid made
  rw [done]
  rfl

theorem view_createNamedPipe (lower : Str → Str) (oa : List UInt8)
    (fds : Option (Int × Int)) : view (createNamedPipe lower s clientFd oa fds) = view s := by
  unfold createNamedPipe
  split
  · rfl
  · dsimp only
    split
    · rw [view_allocHandle, view_allocHandle]
    · exact view_allocHandle _ _ _ _ _

theorem view_pipeListen (req : ListenRequest) (made : Bool) :
    view (pipeListen s req made).2 = view s := by
  unfold pipeListen
  split
  · rfl
  · dsimp only
    split
    · rfl
    · split <;> exact view_allocWaitHandle _ _

theorem view_pipeDisconnect (handle : UInt32) :
    view (pipeDisconnect s clientFd handle).2 = view s := by
  unfold pipeDisconnect
  dsimp only
  split <;> rfl

theorem view_pipeWait (lower : Str → Str) (vararg : List UInt8)
    (made : Bool) : view (pipeWait lower s clientFd vararg made).2 = view s := by
  unfold pipeWait
  split
  · rfl
  · split
    · rfl
    · dsimp only
      split <;> exact view_allocWaitHandle _ _

theorem view_tryConnectNamedPipe (name : Str) (access options : UInt32) (copy : Option Int) :
    view (tryConnectNamedPipe s clientFd name access options copy).2.1 = view s := by
  rcases tryConnectNamedPipe_cases s clientFd name access options copy with
    same | ⟨instances, info, fd, -, -, done⟩
  · rw [same]
  · obtain ⟨processes, made⟩ := allocClientEnd_eq (tellListener (markConnected s name) info).1
      (clientPid s clientFd) fd access options
    simp only [done, made]
    show view (tellListener (markConnected s name) info).1 = view s
    unfold tellListener
    split <;> rfl

theorem view_disconnectClient :
    view (disconnectClient s clientFd) = { view s with clients := s.clients.erase clientFd } := by
  obtain ⟨_, _, _, _, _, -, gone⟩ := disconnectClient_eq s clientFd
  rw [gone]
  rfl

/-- The three places in which a select may be left: with the thread itself, with the timer,
or with a worker. -/
inductive WaitView.Left (v : WaitView) (clientFd : Int) (req : SelectRequest) (k : SelectKernel) :
    WaitView → Prop
  | suspended : v.Left clientFd req k { v with
      clients := v.clients.modify clientFd fun c => { c with suspendCookie := req.cookie } }
  | timer (deadline : Nat) : v.Left clientFd req k { v with
      pendingWaits := pushWait ⟨deadline, clientFd, req.cookie⟩ v.pendingWaits }
  | worker {c : Client} {w : Worker} (client : v.clients.get? clientFd = some c)
      (connection : w.connection = c.connection) (cookie : w.cookie = req.cookie)
      (timeout : w.timeoutNs = computeNtsyncTimeout req.timeout k.mono k.real)
      (busy : w.objects ≠ 0) : v.Left clientFd req k { v with workers := v.workers ++ [w] }

variable {req : SelectRequest} {k : SelectKernel}

theorem left_defer {v : WaitView} (same : view s = v)
    (set : WaitSet) : v.Left clientFd req k (view (defer s clientFd req set k)) := by
  subst same
  obtain ⟨_, _, _, ⟨-, timer⟩ | ⟨c, interrupt, there, -, objects, worker⟩⟩ :=
    defer_cases s clientFd req set k
  · rw [timer]
    exact .timer _
  · rw [worker]
    exact .worker there rfl rfl rfl (mt List.eq_nil_of_length_eq_zero objects)

theorem view_handleSelect (s : State) (clientFd : Int) (req : SelectRequest) (k : SelectKernel) :
    (handleSelect s clientFd req k).1.signaled = 1 ∧ view (handleSelect s clientFd req k).2.1 = view s ∨
      (handleSelect s clientFd req k).1 = pending ∧
      (view s).Left clientFd req k (view (handleSelect s clientFd req k).2.1) := by
  obtain ⟨_, _, _, _, _, -, out⟩ := handleSelect_cases s clientFd req k
  split at out
  · rw [out.1, out.2]
    exact .inr ⟨rfl, .suspended⟩
  · rcases out with ⟨one, same⟩ | ⟨waits, set, deferred⟩
    · rw [same]
      exact .inl ⟨one, rfl⟩
    · rw [waits, deferred]
      refine .inr ⟨rfl, left_defer ?_ set⟩
      rfl

/-! ### Who is connected -/

theorem clients_of_view {t : State} (same : view t = view s) : t.clients = s.clients :=
  congrArg WaitView.clients same

variable {fd : Int}

theorem contains_select
    : (select s clientFd req k).1.clients.contains fd = s.clients.contains fd := by
  change (view (handleSelect s clientFd req k).2.1).clients.contains fd = _
  rcases view_handleSelect s clientFd req k with ⟨-, same⟩ | ⟨-, left⟩
  · rw [same]
    rfl
  · generalize view (handleSelect s clientFd req k).2.1 = after at left
    cases left with
    | suspended => exact Table.contains_modify _ _ _ _
    | timer | worker => rfl

theorem contains_resumeThread (handle : UInt32) :
    (resumeThread s clientFd handle).1.clients.contains fd = s.clients.contains fd := by
  unfold resumeThread
  split
  · rfl
  · dsimp only
    split
    · rfl
    · split
      · rfl
      · exact Table.contains_modify _ _ _ _

theorem contains_act (lower : Str → Str) {event : Event}
    (stays : ∀ fd, event ≠ .disconnectClient fd) (there : s.clients.contains fd) :
    (act lower s event).1.clients.contains fd := by
  cases event with
  | disconnectClient clientFd => exact absurd rfl (stays clientFd)
  | connectClient =>
    simp only [act, connectClient]
    split
    · exact there
    · simp [Table.contains_insert, there]
  | createNamedPipe clientFd oa fds =>
    simpa only [act, clients_of_view (view_createNamedPipe lower oa fds)] using there
  | pipeListen req made =>
    simpa only [act, clients_of_view (view_pipeListen req made)] using there
  | pipeDisconnect clientFd handle =>
    simpa only [act, clients_of_view (view_pipeDisconnect handle)] using there
  | pipeWait clientFd vararg made =>
    simpa only [act, clients_of_view (view_pipeWait lower vararg made)] using there
  | connectPipe clientFd name access options copy =>
    simpa only [act, clients_of_view
      (view_tryConnectNamedPipe name access options copy)] using there
  | select => simpa only [act, contains_select] using there
  | resumeThread => simpa only [act, contains_resumeThread] using there
  | finishWorker =>
    simp only [act, finishWorker]
    split <;> exact there
  | tick => exact there

end Triskelion.Select
