import Triskelion.TeardownTiming

/-! Which process a client gets that introduces its first thread. A child made by
`new_process` may have a connection set up for it, and its process is queued all the same.
As long as the queue is not used for a process whose connection is still there, every
process is claimed once, and no client is left with a process that is gone. -/

namespace Triskelion.Lifecycle

open RunRules

def claimView (s : State) (pid : UInt32) : Option (Bool × Option Nat) :=
  (s.processes.get? pid).map fun p => (p.spawned, p.claimant)

def Event.claims : Event → Bool
  | .accept _ | .newProcess .. | .initFirstThread .. | .disconnect _ => true
  | _ => false

def unshared (s : State) : Event → Bool
  | .initFirstThread fd _ => clientPid s fd ≠ 0 ∨
      s.unclaimedPids.head?.all fun pid => s.clients.entries.all fun e => e.2.processId ≠ pid
  | _ => true

def claimable (s : State) (e : Event) : Bool :=
  idsLeft s && e.claims && (!answers s e || unshared s e)

/-- Every client has a process that is there, and that nobody else has claimed. -/
structure Claims (s : State) : Prop where
  table : ∀ q v, claimView s q = some v → Allocated s q
  queue : ∀ q ∈ s.unclaimedPids, claimView s q = some (true, none)
  own : ∀ i c, s.clients.get? i = some c → c.processId ≠ 0 →
    ∃ v, claimView s c.processId = some v ∧ (v.2 = some c.connection ∨ v = (true, none))
  introduced : ∀ i c, s.clients.get? i = some c → c.threadId ≠ 0 →
    c.processId ≠ 0 ∧ ∃ b, claimView s c.processId = some (b, some c.connection)
  single : ∀ i j c d, s.clients.get? i = some c → s.clients.get? j = some d →
    c.processId ≠ 0 → c.processId = d.processId → i = j

variable {s t : State}

theorem claims_start (desktopTop desktopMsg : UInt32) (windows : Table UInt32 Window) :
    Claims (State.start desktopTop desktopMsg windows) := by
  constructor <;> simp [State.start, claimView]

variable {c : Client} {fd : Int}

section
variable (inv : Claims s)
include inv

theorem Claims.allocated {i : Int} (found : s.clients.get? i = some c)
    (process : c.processId ≠ 0) : Allocated s c.processId := by
  obtain ⟨v, here, -⟩ := inv.own i c found process
  exact inv.table _ v here

section
variable (table : ∀ q v, claimView t q = some v → Allocated t q)
  (queue : ∀ q ∈ t.unclaimedPids, claimView t q = some (true, none))
include table queue

theorem Claims.of_views (clients : ∀ i c, t.clients.get? i = some c → s.clients.get? i = some c)
    (views : ∀ i c, t.clients.get? i = some c → c.processId ≠ 0 →
      claimView t c.processId = claimView s c.processId) : Claims t where
  table := table
  queue := queue
  own i c found some_pid := by
    rw [views i c found some_pid]
    exact inv.own i c (clients i c found) some_pid
  introduced i c found some_tid := by
    obtain ⟨some_pid, here⟩ := inv.introduced i c (clients i c found) some_tid
    rw [views i c found some_pid]
    exact ⟨some_pid, here⟩
  single i j c d at_i at_j := inv.single i j c d (clients i c at_i) (clients j d at_j)

theorem Claims.join (views : ∀ q, Allocated s q → claimView t q = claimView s q)
    (clients : t.clients = s.clients.insert fd c) (thread : c.threadId = 0)
    (process : c.processId = 0 ∨
      ¬ Allocated s c.processId ∧ claimView t c.processId = some (true, none)) :
    Claims t where
  table := table
  queue := queue
  own i d found some_pid := by
    rcases get?_of_insert clients found with ⟨rfl, rfl⟩ | before
    · exact ⟨_, (process.resolve_left some_pid).2, .inr rfl⟩
    · rw [views _ (inv.allocated before some_pid)]
      exact inv.own i d before some_pid
  introduced i d found some_tid := by
    rcases get?_of_insert clients found with ⟨rfl, rfl⟩ | before
    · exact absurd thread some_tid
    · obtain ⟨some_pid, here⟩ := inv.introduced i d before some_tid
      rw [views _ (inv.allocated before some_pid)]
      exact ⟨some_pid, here⟩
  single i j d d' at_i at_j some_pid same := by
    rcases get?_of_insert clients at_i with ⟨rfl, rfl⟩ | before
    · rcases get?_of_insert clients at_j with ⟨rfl, rfl⟩ | before'
      · rfl
      · exact absurd (same ▸ inv.allocated before' (same ▸ some_pid))
          (process.resolve_left some_pid).1
    · rcases get?_of_insert clients at_j with ⟨rfl, rfl⟩ | before'
      · exact absurd (same ▸ inv.allocated before some_pid)
          (process.resolve_left (same ▸ some_pid)).1
      · exact inv.single i j d d' before before' some_pid same

end

theorem Claims.claim (found : s.clients.get? fd = some c) {pid : UInt32}
    (some_pid : pid ≠ 0) (nobody : ∀ i d, s.clients.get? i = some d → i ≠ fd → d.processId ≠ pid)
    (mono : ∀ id, Allocated s id → Allocated t id) (allocated : Allocated t pid)
    (views : ∀ q ≠ pid, claimView t q = claimView s q)
    (claimed : ∃ b, claimView t pid = some (b, some c.connection))
    (queue : ∀ q ∈ t.unclaimedPids, q ∈ s.unclaimedPids ∧ q ≠ pid)
    (clients : t.clients = s.clients ∨ ∃ tid given, t.clients =
      s.clients.insert fd ⟨pid, tid, c.connection, given⟩) : Claims t := by
  obtain ⟨b, claimed⟩ := claimed
  -- a client afterwards: the claiming one, or one with another process
  have cases_ : ∀ i d, t.clients.get? i = some d →
      (i = fd ∧ d.processId = pid ∧ d.connection = c.connection) ∨
        s.clients.get? i = some d ∧ d.processId ≠ pid := by
    intro i d now
    rcases clients with same | ⟨tid, given, same⟩
    · rw [same] at now
      by_cases here : i = fd
      · subst here
        cases found.symm.trans now
        by_cases eq : c.processId = pid
        · exact .inl ⟨rfl, eq, rfl⟩
        · exact .inr ⟨found, eq⟩
      · exact .inr ⟨now, nobody i d now here⟩
    · rw [same, Table.get?_insert] at now
      split at now
      · next here =>
        cases now
        exact .inl ⟨here, rfl, rfl⟩
      · next here => exact .inr ⟨now, nobody i d now here⟩
  constructor
  · intro q v now
    by_cases here : q = pid
    · exact here ▸ allocated
    · rw [views q here] at now
      exact mono q (inv.table q v now)
  · intro q mem
    obtain ⟨before, other⟩ := queue q mem
    rw [views q other]
    exact inv.queue q before
  · intro i d now process
    rcases cases_ i d now with ⟨-, eq, same⟩ | ⟨before, other⟩
    · exact ⟨_, eq ▸ claimed, .inl (congrArg some same.symm)⟩
    · rw [views _ other]
      exact inv.own i d before process
  · intro i d now thread
    rcases cases_ i d now with ⟨-, eq, same⟩ | ⟨before, other⟩
    · exact ⟨eq ▸ some_pid, b, by rw [eq, same, claimed]⟩
    · rw [views _ other]
      exact inv.introduced i d before thread
  · intro i j d d' at_i at_j process same
    rcases cases_ i d at_i with ⟨rfl, eq, -⟩ | ⟨before, other⟩
    · rcases cases_ j d' at_j with ⟨rfl, -, -⟩ | ⟨-, other'⟩
      · rfl
      · exact absurd (same ▸ eq) other'
    · rcases cases_ j d' at_j with ⟨-, eq', -⟩ | ⟨before', -⟩
      · exact absurd (same.trans eq') other
      · exact inv.single i j d d' before before' process same

end

/-! ### The views after an event -/

theorem claimView_createProcess (s : State) (spawned : Bool) (q : UInt32) :
    claimView (createProcess s spawned).2 q =
      if q = ptid s.nextPtid then some (spawned, none) else claimView s q :=
  viewOf_createProcess spawned q

theorem claimView_claim (s : State) (fd : Int) (q : UInt32) : claimView (claim s fd).2 q =
      if q = (claimPid s fd).1 then (claimView (claimPid s fd).2 q).map fun v =>
        (v.1, v.2.or ((s.clients.get? fd).map Client.connection))
      else claimView (claimPid s fd).2 q := by
  simp only [claimView, claim, Table.get?_modify]
  split
  · next same =>
    subst same
    simp [Function.comp_def]
  · rfl

theorem claimView_handleInitFirstThread (s : State) (fd : Int) (slot : Bool) (q : UInt32) :
    claimView (handleInitFirstThread s fd slot) q = claimView (claim s fd).2 q :=
  viewOf_handleInitFirstThread (fun _ _ => rfl) s fd slot q

/-! ### The events -/

theorem Claims.accept (inv : Claims s) : Claims (accept s fd) := by
  rw [Lifecycle.accept]
  split
  · exact inv
  · exact inv.join inv.table inv.queue (fun _ _ => rfl) rfl rfl (.inl rfl)

theorem Claims.newProcess (inv : Claims s) (left : idsLeft s) (fd : Int)
    (req : NewProcessRequest) : Claims (handleNewProcess s fd req).2 := by
  have fresh := fresh_ptid left (nextPtid_handleNewProcess s fd req)
  have view (q : UInt32) : claimView (handleNewProcess s fd req).2 q =
      if q = ptid s.nextPtid then some (true, none) else claimView s q :=
    viewOf_handleNewProcess (fun _ _ => rfl) (fun _ _ => rfl) s fd req q
  have same := onlyHandles_handleNewProcess s fd req
  have views : ∀ q, Allocated s q → claimView (handleNewProcess s fd req).2 q = claimView s q := by
    intro q allocated
    rw [view, if_neg]
    rintro rfl
    exact fresh.not_allocated allocated
  have table : ∀ q v, claimView (handleNewProcess s fd req).2 q = some v →
      Allocated (handleNewProcess s fd req).2 q := by
    intro q v now
    rw [view] at now
    split at now
    · next new => exact new ▸ fresh.allocated
    · obtain ⟨i, below, eq⟩ := inv.table q v now
      obtain ⟨j, above, more, -⟩ := fresh
      exact ⟨i, by omega, eq⟩
  have queued : ∀ q ∈ (handleNewProcess s fd req).2.unclaimedPids,
      claimView (handleNewProcess s fd req).2 q = some (true, none) := by
    intro q mem
    rcases mem_unclaimedPids_act (e := .newProcess fd req) mem with before | ⟨_, _, -, rfl⟩
    · rw [views q (inv.table q _ (inv.queue q before))]
      exact inv.queue q before
    · rw [view, if_pos rfl]
  cases socket : req.socket with
  | none =>
    have clients : (handleNewProcess s fd req).2.clients = s.clients := by
      rw [same.clients]
      simp [spawn, socket, createProcess]
    refine inv.of_views table queued (fun i c found => clients ▸ found) fun i c found some_pid => ?_
    exact views _ (inv.allocated (clients ▸ found) some_pid)
  | some hint =>
    have clients : (handleNewProcess s fd req).2.clients = s.clients.insert (unusedFd s hint)
        ⟨ptid s.nextPtid, 0, s.nextConnection, none⟩ := by
      rw [same.clients]
      simp only [spawn, socket]
      rfl
    refine inv.join table queued views clients rfl (.inr ⟨fresh.not_allocated, ?_⟩)
    rw [view, if_pos rfl]

theorem Claims.disconnect (inv : Claims s) (found : s.clients.get? fd = some c) :
    Claims (disconnectClient s fd) := by
  have view (q : UInt32) : claimView (disconnectClient s fd) q =
      if ends s fd ∧ q = clientPid s fd then none else claimView s q :=
    viewOf_disconnectClient (fun _ _ => rfl) s fd q
  rw [clientPid_of_get? found] at view
  refine inv.of_views ?_ ?_ (fun _ _ here => (of_clients_disconnect here).2) ?_
  · intro q v now
    rw [Allocated, nextPtid_disconnectClient]
    rw [view q] at now
    split at now
    · cases now
    · exact inv.table q v now
  · intro q mem
    rw [unclaimedPids_disconnectClient] at mem
    rw [view q, if_neg]
    · exact inv.queue q mem
    · -- a process that a thread was introduced to is not in the queue
      rintro ⟨last, rfl⟩
      have thread := (of_decide_eq_true last).2.1
      rw [clientTid_of_get? found] at thread
      obtain ⟨-, b, claimed⟩ := inv.introduced fd c found thread
      cases claimed.symm.trans (inv.queue _ mem)
  · intro i d here some_pid
    obtain ⟨other, before⟩ := of_clients_disconnect here
    rw [view d.processId, if_neg]
    exact fun both => other (inv.single i fd d c before found some_pid both.2)

theorem clients_handleInitFirstThread (found : s.clients.get? fd = some c) (slot : Bool) :
    (handleInitFirstThread s fd slot).clients = s.clients ∨
      ∃ tid given, (handleInitFirstThread s fd slot).clients =
        s.clients.insert fd ⟨(claimPid s fd).1, tid, c.connection, given⟩ := by
  have before := (clients_threadOf (claim s fd).2 fd (claim s fd).1).trans
    (prepared_claim s fd).clients
  rw [handleInitFirstThread]
  split
  · exact .inl before
  · rw [clients_ownDesktop]
    refine .inr ⟨(threadOf (claim s fd).2 fd (claim s fd).1).1, c.given.or
      (some (threadOf (claim s fd).2 fd (claim s fd).1).1), ?_⟩
    rw [introduce, before]
    exact Table.modify_of_get? found _

theorem unclaimedPids_handleInitFirstThread (s : State) (fd : Int) (slot : Bool) :
    (handleInitFirstThread s fd slot).unclaimedPids =
      (claimPid s fd).2.unclaimedPids.filter fun p => p ≠ (claimPid s fd).1 :=
  (sameTables_handleInitFirstThread s fd slot).unclaimedPids.trans
    (unclaimedPids_threadOf (claim s fd).2 fd (claim s fd).1)

variable {v : Bool × Option Nat}

theorem claimView_claimed (found : s.clients.get? fd = some c) (slot : Bool)
    (here : claimView (claimPid s fd).2 (claimPid s fd).1 = some v)
    (free : v.2 = some c.connection ∨ v.2 = none) :
    ∃ b, claimView (handleInitFirstThread s fd slot) (claimPid s fd).1 =
      some (b, some c.connection) := by
  rw [claimView_handleInitFirstThread, claimView_claim, here, found]
  rcases free with own | none_
  · simp [own]
  · simp [none_]

theorem allocated_newProcess (left : idsLeft s)
    (chosen : claimPid s fd = createProcess s false) (slot : Bool) :
    Allocated (handleInitFirstThread s fd slot) (ptid s.nextPtid) := by
  have small := room_of_left left
  have made : (Lifecycle.claim s fd).2.nextPtid = s.nextPtid + 1 := by
    simp only [Lifecycle.claim]
    rw [chosen]
    rfl
  have le := (grown_threadOf (room_of_prepared left (prepared_claim s fd)) fd
    (Lifecycle.claim s fd).1).le
  rw [made, toNat_succ small] at le
  refine ⟨s.nextPtid.toNat, ?_, toNat_ptid small⟩
  rw [(sameTables_handleInitFirstThread s fd slot).nextPtid]
  omega

theorem Claims.initFirstThread (inv : Claims s) (left : idsLeft s)
    (found : s.clients.get? fd = some c) {slot : Bool}
    (spare : unshared s (.initFirstThread fd slot)) :
    Claims (step s (.initFirstThread fd slot)) := by
  have eq : step s (.initFirstThread fd slot) = handleInitFirstThread s fd slot :=
    if_pos (Table.contains_of_get? found)
  have mono : ∀ id, Allocated s id → Allocated (handleInitFirstThread s fd slot) id :=
    fun id before => eq ▸ before.step left (.initFirstThread fd slot)
  have clients := clients_handleInitFirstThread found slot
  have queue := unclaimedPids_handleInitFirstThread s fd slot
  have view : ∀ q ≠ (claimPid s fd).1, claimView (handleInitFirstThread s fd slot) q =
      claimView (claimPid s fd).2 q := by
    intro q other
    rw [claimView_handleInitFirstThread, claimView_claim, if_neg other]
  have pid := clientPid_of_get? found
  rw [eq]
  rcases claimPid_cases with ⟨chosen, own⟩ | ⟨head, rest, queued, none_, chosen⟩ |
    ⟨empty, none_, chosen⟩
  · -- the process the connection was set up for, or the one it has
    rw [pid] at own chosen
    obtain ⟨v, here, free⟩ := inv.own fd c found own
    have claimed := claimView_claimed found slot (v := v) (by rw [chosen]; exact here)
      (free.imp_right fun eq => by rw [eq])
    rw [chosen] at view claimed clients queue
    refine inv.claim found own ?_ mono (mono _ (inv.table _ v here)) view claimed ?_ clients
    · intro i d at_i other same
      exact other (inv.single i fd d c at_i found (same ▸ own) same)
    · intro q mem
      rw [queue] at mem
      simpa using mem
  · -- the head of the queue
    have here := inv.queue head (queued ▸ List.mem_cons_self)
    have allocated := inv.table head _ here
    have claimed := claimView_claimed found slot (v := (true, none)) (by rw [chosen]; exact here) (.inr rfl)
    rw [chosen] at view claimed clients queue
    refine inv.claim found allocated.ne_zero ?_ mono (mono _ allocated) view claimed ?_ clients
    · intro i d at_i _ same
      simp only [unshared, none_, ne_eq, not_true, false_or, queued, List.head?_cons,
        Option.all_some, decide_eq_true_eq] at spare
      have apart := List.all_eq_true.mp spare (i, d) ((s.clients.mem_entries i d).mpr at_i)
      exact absurd same (by simpa using apart)
    · intro q mem
      rw [queue] at mem
      have here := List.mem_filter.mp mem
      exact ⟨queued ▸ List.mem_cons_of_mem _ here.1, by simpa using here.2⟩
  · -- a new process
    have unknown : ¬ Allocated s (ptid s.nextPtid) := fun known => known.ne_next left rfl
    have allocated := allocated_newProcess left chosen slot
    have claimed := claimView_claimed found slot (v := (false, none))
      (by rw [chosen]; exact (claimView_createProcess s false _).trans (if_pos rfl)) (.inr rfl)
    rw [chosen] at view claimed clients queue
    refine inv.claim found allocated.ne_zero ?_ mono allocated ?_ claimed ?_ clients
    · intro i d at_i _ same
      have some_pid : d.processId ≠ 0 := by
        rw [same]
        exact allocated.ne_zero
      exact unknown (same ▸ inv.allocated at_i some_pid)
    · intro q other
      rw [view q other, claimView_createProcess]
      exact if_neg other
    · intro q mem
      rw [queue] at mem
      have here := List.mem_filter.mp mem
      exact ⟨here.1, of_decide_eq_true here.2⟩

theorem Claims.step (inv : Claims s) {e : Event} (fine : claimable s e) : Claims (step s e) := by
  simp only [claimable, Bool.and_eq_true, Bool.or_eq_true, Bool.not_eq_true'] at fine
  obtain ⟨⟨left, claims⟩, spare⟩ := fine
  cases answered : answers s e with
  | false =>
    rw [Lifecycle.step, answered]
    exact inv
  | true =>
    have spare := spare.resolve_left (by simp [answered])
    cases e with
    | initFirstThread fd =>
      obtain ⟨c, found⟩ := (s.clients.contains_iff fd).mp answered
      exact inv.initFirstThread left found spare
    | accept fd => exact inv.accept
    | newProcess fd req =>
      rw [Lifecycle.step, if_pos answered]
      exact inv.newProcess left fd req
    | disconnect fd =>
      obtain ⟨c, found⟩ := (s.clients.contains_iff fd).mp answered
      rw [Lifecycle.step, if_pos answered]
      exact inv.disconnect found
    | _ => cases claims

/-! ### What a client gets -/

/-- The client gets a new process, or one in the table that it has claimed already or that
`new_process` made and nobody has claimed. -/
def WellClaimed (s : State) : Event → Prop
  | .initFirstThread fd _ => ∀ c, s.clients.get? fd = some c →
      (claimPid s fd = createProcess s false ∧ s.processes.contains (claimPid s fd).1 = false) ∨
      ∃ p, s.processes.get? (claimPid s fd).1 = some p ∧
        (p.claimant = some c.connection ∨ p.spawned ∧ p.claimant = none)
  | _ => True

def Attached (s : State) : Prop :=
  ∀ i c, s.clients.get? i = some c → c.processId ≠ 0 → s.processes.contains c.processId

theorem get?_of_claimView {pid : UInt32} (view : claimView s pid = some v) :
    ∃ p, s.processes.get? pid = some p ∧ (p.spawned, p.claimant) = v :=
  Option.map_eq_some_iff.mp view

theorem Claims.attached (inv : Claims s) : Attached s := by
  intro i c found some_pid
  obtain ⟨v, view, -⟩ := inv.own i c found some_pid
  obtain ⟨p, at_pid, -⟩ := get?_of_claimView view
  exact Table.contains_of_get? at_pid

theorem Claims.wellClaimed (inv : Claims s) (left : idsLeft s) (e : Event) : WellClaimed s e := by
  cases e with
  | initFirstThread fd =>
    intro c found
    have pid := clientPid_of_get? found
    rcases claimPid_cases with ⟨chosen, own⟩ | ⟨head, rest, queued, none_, chosen⟩ |
      ⟨empty, none_, chosen⟩
    · right
      rw [pid] at own chosen
      obtain ⟨v, view, free⟩ := inv.own fd c found own
      obtain ⟨p, at_pid, rfl⟩ := get?_of_claimView view
      rw [chosen]
      exact ⟨p, at_pid, free.imp_right fun eq => Prod.mk.inj eq⟩
    · right
      obtain ⟨p, at_pid, eq⟩ := get?_of_claimView (inv.queue head (queued ▸ List.mem_cons_self))
      rw [chosen]
      exact ⟨p, at_pid, .inr (Prod.mk.inj eq)⟩
    · left
      rw [chosen]
      by_contra known
      obtain ⟨p, at_pid⟩ := (s.processes.contains_iff _).mp (by simpa using known)
      have table := inv.table (ptid s.nextPtid) (p.spawned, p.claimant)
        (Option.map_eq_some_iff.mpr ⟨p, at_pid, rfl⟩)
      exact table.ne_next left rfl
  | _ => trivial

theorem not_wellClaimed {slot : Bool} (c : Client) (found : s.clients.get? fd = some c)
    (other : Nat) (view : claimView s (claimPid s fd).1 = some (true, some other))
    (differ : other ≠ c.connection) : ¬ WellClaimed s (.initFirstThread fd slot) := by
  intro claimed
  obtain ⟨p, at_pid, eq⟩ := get?_of_claimView view
  obtain ⟨-, claimant⟩ := Prod.mk.inj eq
  rcases claimed c found with ⟨-, unknown⟩ | ⟨q, at_q, free⟩
  · rw [Table.contains_of_get? at_pid] at unknown
    cases unknown
  · rw [at_pid] at at_q
    cases at_q
    rw [claimant] at free
    rcases free with same | ⟨-, none_⟩
    · exact differ (Option.some.inj same)
    · cases none_

/-- Over any run of connections, new processes, introductions and disconnects: if the queue
is never used for a process that has a connection, every introduction gives the client a
process that is there and that no other client has claimed, and no client ever has a process
that is not there. -/
theorem processes_claimed_once (desktopTop desktopMsg : UInt32) (windows : Table UInt32 Window)
    (events : List Event) (fine : AllSteps step (fun s e => claimable s e)
      (State.start desktopTop desktopMsg windows) events) :
    AllSteps step WellClaimed (State.start desktopTop desktopMsg windows) events ∧
      ∀ t ∈ states step (State.start desktopTop desktopMsg windows) events, Attached t := by
  constructor
  · refine allSteps_of_invariant (fun _ _ inv fine => inv.step fine) (fun _ e inv fine => ?_)
      (claims_start desktopTop desktopMsg windows) fine
    simp only [claimable, Bool.and_eq_true] at fine
    exact inv.wellClaimed fine.1.1 e
  · intro t mem
    exact (good_of_allSteps (fun _ _ inv fine => inv.step fine)
      (claims_start desktopTop desktopMsg windows) fine t mem).attached

/-- One child comes through the socket that was set up for it, another one through the
queue. -/
theorem two_children_claimed :
    AllSteps step WellClaimed bareStart [.accept 5, .initFirstThread 5 true,
      .newProcess 5 ⟨[], some 6, some 9, some 10⟩, .initFirstThread 6 true,
      .newProcess 5 ⟨[], none, some 11, some 12⟩, .accept 7, .initFirstThread 7 true,
      .disconnect 6] :=
  (processes_claimed_once 0x10020 0x10022 .empty _ (by decide +kernel)).1

/-- A child has a connection set up for it, and another client takes its process out of the
queue. Then the child claims the process a second time, or, if the other client has left,
gets one that is gone. And a child that is given a thread and leaves before it introduces
itself has its process in the queue for the next client. -/
theorem process_claimed_twice :
    (¬ AllSteps step WellClaimed bareStart [.accept 5, .initFirstThread 5 true,
      .newProcess 5 ⟨[], some 6, some 9, some 10⟩, .accept 7, .initFirstThread 7 true,
      .initFirstThread 6 true]) ∧
    (¬ Attached (run step bareStart [.accept 5, .initFirstThread 5 true,
      .newProcess 5 ⟨[], some 6, some 9, some 10⟩, .accept 7, .initFirstThread 7 true,
      .disconnect 7, .initFirstThread 6 true])) ∧
    ¬ Attached (run step bareStart [.accept 5, .initFirstThread 5 true,
      .newProcess 5 ⟨[], some 6, some 9, some 10⟩,
      .newThread 5 ⟨4, 0, .ofProcess 6 none, some 11⟩, .disconnect 6, .accept 7,
      .initFirstThread 7 true]) := by
  refine ⟨?_, fun attached => ?_, fun attached => ?_⟩
  · rintro ⟨-, -, -, -, -, claimed, -⟩
    exact not_wellClaimed ⟨40, 0, 1, none⟩ (by decide +kernel) 2 (by decide +kernel) (by decide)
      claimed
  · have known := attached 6 ⟨40, 48, 1, some 48⟩ (by decide +kernel) (by decide)
    exact absurd known (by decide +kernel)
  · have known := attached 7 ⟨40, 48, 2, some 48⟩ (by decide +kernel) (by decide)
    exact absurd known (by decide +kernel)

end Triskelion.Lifecycle
