import Mathlib.Data.List.Nodup
import Triskelion.ApcDesk
import Triskelion.RunRules

/-! APCs from the connect that queues them to the select that acknowledges them. As long
as a thread gets its next APC only after it has acknowledged the last, they come in order,
their handles are closed and their events are set. The queue itself is emptied from its
end, a select that receives an APC acknowledges none, and one that does sets all events. -/

namespace Triskelion.Select

open RunRules List Table HandleTable DeferredEvent PipeInstance

variable {s t u : State}

/-! ### What a run keeps -/

def free (s : State) (fd : Int) : Bool := (queueOf s fd).isEmpty && (heldBy s fd).isEmpty

/-- The table of the thread's process gives out a handle that is not open. -/
def handleFree (s : State) (clientFd : Int) : Bool :=
  (s.processes.get? (clientPid s clientFd)).any fun p =>
    let made := p.handles.allocate s.nextObjectId
    (p.handles.get made.1).isNone && (made.2.get made.1).isSome

/-- A pipe is connected whose listener has no APC; a select acknowledges what its thread
holds, while the events to be set exist; threads come and go without APCs, and a process
does not go while another thread of it holds one. -/
def unhurried (s : State) : Event → Bool
  | .connectClient fd _ _ _ => free s fd
  | .disconnectClient fd =>
    free s fd && s.delivered.entries.all fun e =>
      e.2.all fun d => (handleEntry (disconnectClient s fd) (clientPid s e.1) d.handle).isSome
  | .connectPipe _ name _ _ _ =>
    (((s.namedPipes.get? name).getD []).find? isListening).all fun info =>
      info.listenAsync.all fun la => free s la.serverClientFd
  | .select fd req _ =>
    (req.prevApc = 0 || (heldAs s fd req.prevApc).isSome) &&
      (deferredOf s fd).all (fun e => s.ntsyncObjects.contains (e.pid, e.handle)) &&
      ((queueOf s fd).isEmpty || handleFree s fd)
  | _ => true

/-- Threads of one process hold handles in different slots. -/
structure Holds (s : State) : Prop where
  opened : ∀ fd, ∀ d ∈ heldBy s fd, (handleEntry s (clientPid s fd) d.handle).isSome
  slots : ∀ fd e, fd ≠ e → clientPid s fd = clientPid s e → ∀ d ∈ heldBy s fd, ∀ b ∈ heldBy s e,
    d.handle >>> 2 ≠ b.handle >>> 2

structure Prompt (s : State) (notes : List Note) : Prop where
  desk : ∀ fd, Desk (queueOf s fd) (deferredOf s fd) (heldBy s fd) (queuedTo fd notes)
    (deliveredTo fd notes)
  holds : Holds s
  closed : ∀ l d c, .acknowledged l d c ∈ notes → c = true
  signalled : signalled notes = deferredAcks notes
  single : ∀ l, live s l + (acked notes).count l ≤ 1
  unused : ∀ l, s.nextListen ≤ l → live s l + (acked notes).count l = 0

variable {notes : List Note}

theorem Holds.steady (holds : Holds s) (steady : Steady s t) : Holds t where
  opened fd d mem := by
    rw [steady.held] at mem
    rw [steady.pid fd (ne_nil_of_mem mem)]
    exact steady.opened fd d mem (holds.opened fd d mem)
  slots fd e ne same d mem b mem' := by
    rw [steady.held] at mem mem'
    rw [steady.pid fd (ne_nil_of_mem mem), steady.pid e (ne_nil_of_mem mem')] at same
    exact holds.slots fd e ne same d mem b mem'

theorem Prompt.steady (prompt : Prompt s notes) (steady : Steady s t) : Prompt t notes where
  __ := prompt
  desk fd := by
    rw [steady.queue, steady.deferred, steady.held]
    exact prompt.desk fd
  holds := prompt.holds.steady steady
  single l := by
    have old := prompt.single l
    have more := steady.live l
    by_cases new : s.nextListen ≤ l
    · have zero := prompt.unused l new
      split at more <;> omega
    · rw [if_neg (by omega)] at more
      omega
  unused l new := by
    have zero := prompt.unused l (Nat.le_trans steady.listens new)
    have more := steady.live l
    rw [if_neg (by omega)] at more
    omega

def Note.aside : Note → Bool
  | .replied _ _ | .woke _ _ => true
  | _ => false

variable {new : List Note} {fd : Int} {popped : State}

theorem filterMap_aside (aside : ∀ note ∈ new, note.aside) {f : Note → Option Nat}
    (replied : ∀ t e, f (.replied t e) = none)
    (woke : ∀ status asked, f (.woke status asked) = none) : new.filterMap f = [] := by
  refine filterMap_eq_nil_iff.mpr fun note mem => ?_
  have side := aside note mem
  cases note with
  | replied t e => exact replied t e
  | woke status asked => exact woke status asked
  | _ => cases side

theorem Prompt.skip (prompt : Prompt s notes) (aside : ∀ note ∈ new, note.aside = true) :
    Prompt s (notes ++ new) := by
  have queued (fd : Int) : queuedTo fd new = [] :=
    filterMap_aside aside (fun _ _ => rfl) fun _ _ => rfl
  have delivered (fd : Int) : deliveredTo fd new = [] :=
    filterMap_aside aside (fun _ _ => rfl) fun _ _ => rfl
  have ack : acked new = [] := filterMap_aside aside (fun _ _ => rfl) fun _ _ => rfl
  have defer : deferredAcks new = [] := filterMap_aside aside (fun _ _ => rfl) fun _ _ => rfl
  have signal : Select.signalled new = [] := filterMap_aside aside (fun _ _ => rfl) fun _ _ => rfl
  refine ⟨fun fd => ?_, prompt.holds, fun l d c mem => ?_, ?_, fun l => ?_, fun l fresh => ?_⟩
  · simpa [queued, delivered] using prompt.desk fd
  · rcases mem_append.mp mem with old | fresh
    · exact prompt.closed l d c old
    · cases aside _ fresh
  · simpa [defer, signal] using prompt.signalled
  · simpa [ack] using prompt.single l
  · simpa [ack] using prompt.unused l fresh

/-! ### Threads that come and go -/

variable {pid : UInt32}

theorem handleEntry_modify (s : State) (pid : UInt32) {f : Process → Process}
    (same : ∀ p, (f p).handles = p.handles) (x h : UInt32) :
    handleEntry { s with processes := s.processes.modify pid f } x h = handleEntry s x h := by
  simp only [handleEntry, get?_modify]
  split
  · next equal =>
    subst equal
    cases s.processes.get? x <;> simp [same]
  · rfl

theorem steady_connectClient (idle : free s fd) (tid : UInt32) (waitFd : Option Int) :
    Steady s (connectClient s fd pid tid waitFd) := by
  unfold connectClient
  split
  · exact Steady.refl s
  · refine ⟨fun _ => rfl, fun _ => rfl, fun _ => rfl, fun e holds => ?_, fun e d _ opened => ?_,
      Nat.le_refl _, fun l => Nat.le_add_right _ _⟩
    · have other : e ≠ fd := by
        rintro rfl
        simp only [free, Bool.and_eq_true, List.isEmpty_iff] at idle
        exact holds idle.2
      simp [clientPid, get?_insert, other]
    · have same := handleEntry_modify s pid (f := fun p => { p with threads := p.threads ++ [tid] })
        (fun _ => rfl) (clientPid s e) d.handle
      exact (congrArg Option.isSome same).trans opened

theorem total_retainAll {α : Type} [DecidableEq α] (p q : α → Bool) (t : Table Str (List α)) :
    (retainAll p t).total (fun l => l.countP q) ≤ t.total fun l => l.countP q := by
  rw [total_eq_weigh, total_eq_weigh, retainAll, weigh_retain, weigh_mapValues]
  · refine t.weigh_mono fun _ l => ?_
    exact filter_sublist.countP_le
  · intro _ l empty
    simp only [ne_eq, decide_not, Bool.not_eq_eq_eq_not, Bool.not_false, decide_eq_true_eq] at empty
    rw [empty, countP_nil]

variable {e : Int}

theorem getD_erase_empty {α : Type} (t : Table Int (List α)) (empty : (t.get? fd).getD [] = [])
    : ((t.erase fd).get? e).getD [] = (t.get? e).getD [] := by
  rw [get?_erase]
  split
  · next same => rw [same, empty, Option.getD_none]
  · rfl

theorem total_erase_empty {α : Type} (t : Table Int (List α)) (q : α → Bool)
    (empty : (t.get? fd).getD [] = []) :
    (t.erase fd).total (fun l => l.countP q) = t.total fun l => l.countP q := by
  have sum := t.total_erase (fun l => l.countP q) fd
  rwa [getD_countP, empty] at sum

theorem steady_disconnectClient (prompt : Prompt s notes)
    (care : unhurried s (.disconnectClient fd) = true) : Steady s (disconnectClient s fd) := by
  simp only [unhurried, free, Bool.and_eq_true, List.isEmpty_iff, List.all_eq_true] at care
  obtain ⟨⟨no_queue, no_held⟩, kept⟩ := care
  have no_events : deferredOf s fd = [] := by
    have events := (prompt.desk fd).events
    rw [no_queue, no_held] at events
    simpa using events
  have opened : ∀ e, ∀ d ∈ heldBy s e,
      (handleEntry (disconnectClient s fd) (clientPid s e) d.handle).isSome := by
    intro e d mem
    unfold heldBy at mem
    cases found : s.delivered.get? e with
    | none => simp [found] at mem
    | some ds =>
      rw [found] at mem
      exact kept (e, ds) ((mem_entries _ _ _).mpr found) d mem
  obtain ⟨_, _, _, _, pipes, which, gone⟩ := disconnectClient_eq s fd
  refine ⟨fun e => ?_, fun e => ?_, fun e => ?_, fun e holds => ?_, fun e d mem _ => opened e d mem,
    ?_, fun l => ?_⟩
  · rw [gone]
    exact getD_erase_empty _ no_queue
  · rw [gone]
    exact getD_erase_empty _ no_events
  · rw [gone]
    exact getD_erase_empty _ no_held
  · have other : e ≠ fd := by
      rintro rfl
      exact holds no_held
    rw [gone]
    simp [clientPid, get?_erase, other]
  · rw [gone]
  · have fewer : pipes.total (fun is => is.countP (listensFor l)) ≤ waiting s l := by
      rcases which with ⟨rfl, -⟩ | ⟨rfl, -⟩
      · exact Nat.le_refl _
      · exact total_retainAll _ _ _
    have queue := total_erase_empty s.pendingKernelApcs (fun a => a.listen = l) no_queue
    have held := total_erase_empty s.delivered (fun d => d.listen = l) no_held
    rw [gone]
    simp only [live, waiting, inQueue, inHand] at fewer ⊢
    omega

/-! ### The step of one thread -/

/-- One thread's desk changes, with a listen that moves along. -/
structure Moved (s t : State) (fd : Int) (queue : List Apc) (events : List DeferredEvent)
    (held : List Delivery) : Prop where
  queue : ∀ e, queueOf t e = if e = fd then queue else queueOf s e
  deferred : ∀ e, deferredOf t e = if e = fd then events else deferredOf s e
  held : ∀ e, heldBy t e = if e = fd then held else heldBy s e
  pid : ∀ e, clientPid t e = clientPid s e
  listens : t.nextListen = s.nextListen

theorem getD_insert {α : Type} (t : Table Int (List α)) (new : List α) :
    ((t.insert fd new).get? e).getD [] = if e = fd then new else (t.get? e).getD [] := by
  rw [get?_insert]
  split <;> rfl

theorem getD_erase {α : Type} (t : Table Int (List α)) :
    ((t.erase fd).get? e).getD [] = if e = fd then [] else (t.get? e).getD [] := by
  rw [get?_erase]
  split <;> rfl

variable {queue : List Apc} {events : List DeferredEvent} {held : List Delivery}

theorem Holds.moved (holds : Holds s) (moved : Moved s t fd queue events held)
    (mine : ∀ d ∈ held, (handleEntry t (clientPid s fd) d.handle).isSome)
    (others : ∀ e, e ≠ fd → ∀ b ∈ heldBy s e, (handleEntry t (clientPid s e) b.handle).isSome)
    (apart : ∀ d ∈ held, ∀ e, e ≠ fd → clientPid s fd = clientPid s e → ∀ b ∈ heldBy s e,
      d.handle >>> 2 ≠ b.handle >>> 2) :
    Holds t where
  opened e d mem := by
    rw [moved.held] at mem
    rw [moved.pid]
    split at mem
    · next same => exact same ▸ mine d mem
    · next other => exact others e other d mem
  slots a b ne same d mem c mem' := by
    simp only [moved.pid] at same
    rw [moved.held] at mem mem'
    split at mem
    · next first =>
      subst first
      rw [if_neg ne.symm] at mem'
      exact apart d mem b ne.symm same c mem'
    · split at mem'
      · next second =>
        subst second
        exact (apart c mem' a ne same.symm d mem).symm
      · exact holds.slots a b ne same d mem c mem'

section
variable (prompt : Prompt s notes)
include prompt

/-- The step of one thread: its desk, what was said, and a listen that is where it was or
one place further. -/
theorem Prompt.moved (moved : Moved s t fd queue events held) (holds : Holds t)
    (desk : Desk queue events held (queuedTo fd notes ++ queuedTo fd new)
      (deliveredTo fd notes ++ deliveredTo fd new))
    (others : ∀ e, e ≠ fd → queuedTo e new = [] ∧ deliveredTo e new = [])
    (closed : ∀ l d c, .acknowledged l d c ∈ new → c = true)
    (signals : Select.signalled new = deferredAcks new)
    (same : ∀ l, live t l + (acked new).count l = live s l) : Prompt t (notes ++ new) where
  desk e := by
    rw [moved.queue, moved.deferred, moved.held, queuedTo_append, deliveredTo_append]
    by_cases mine : e = fd
    · subst mine
      simpa only [if_true] using desk
    · obtain ⟨no_queued, no_delivered⟩ := others e mine
      simpa only [if_neg mine, no_queued, no_delivered, append_nil] using prompt.desk e
  holds := holds
  closed l d c mem := by
    rcases mem_append.mp mem with old | new
    · exact prompt.closed l d c old
    · exact closed l d c new
  signalled := by
    rw [signalled_append, deferredAcks_append, prompt.signalled, signals]
  single l := by
    have old := prompt.single l
    have here := same l
    rw [acked_append, count_append]
    omega
  unused l new := by
    have old := prompt.unused l (moved.listens ▸ new)
    have here := same l
    rw [acked_append, count_append]
    omega

/-! ### A pipe is connected -/

theorem prompt_queueApc {name : Str} {instances : List PipeInstance}
    (found : s.namedPipes.get? name = some instances) {info : PipeInstance}
    (first : instances.find? isListening = some info) {la : PipeListenAsync}
    (async : info.listenAsync = some la) (idle : free s la.serverClientFd = true) :
    Prompt (queueApc (markConnected s name) la info.listenEvent).1
      (notes ++ [.queued la.serverClientFd la.listen]) := by
  simp only [free, Bool.and_eq_true, List.isEmpty_iff] at idle
  obtain ⟨no_queue, no_held⟩ := idle
  have moved : ∀ l, live (queueApc (markConnected s name) la info.listenEvent).1 l = live s l := by
    intro l
    have sum := waiting_update s name isListening
      (fun i => { i with state := .connected, listenAsync := none }) l
    have queue := s.pendingKernelApcs.total_insert (fun q => q.countP fun a => a.listen = l)
      la.serverClientFd (queueOf s la.serverClientFd ++
        [⟨2, 0, la.user, la.sb, 0, la.listen, info.listenEvent.isSome⟩])
    rw [getD_countP, ← queueOf] at queue
    simp only [found, Option.getD_some, first, Option.map_some, listensFor, async, Option.any_some,
      Option.any_none, toNat_eq_cond, Bool.cond_decide, Bool.cond_false] at sum
    simp only [no_queue, List.nil_append, List.countP_nil, List.countP_singleton,
      decide_eq_true_eq] at queue
    change waiting (markConnected s name) l + (s.pendingKernelApcs.insert la.serverClientFd
      (queueOf s la.serverClientFd ++ _)).total _ + inHand s l = _
    simp only [live, inQueue, markConnected, no_queue, List.nil_append] at sum queue ⊢
    split at sum <;> split at queue <;> omega
  have desk := prompt.desk la.serverClientFd
  rw [no_queue, no_held] at desk
  let apc : Apc := ⟨2, 0, la.user, la.sb, 0, la.listen, info.listenEvent.isSome⟩
  let events : List DeferredEvent := (info.listenEvent.map fun e => ⟨e.1, e.2, la.listen⟩).toList
  have announced : events.map listen = if apc.deferred then [apc.listen] else [] := by
    cases event : info.listenEvent <;> simp [events, apc, event]
  have queued := desk.queue announced
  have desk_moved : Moved s (queueApc (markConnected s name) la info.listenEvent).1 la.serverClientFd
      [⟨2, 0, la.user, la.sb, 0, la.listen, info.listenEvent.isSome⟩]
      (deferredOf s la.serverClientFd ++
        (info.listenEvent.map fun e => ⟨e.1, e.2, la.listen⟩).toList) [] := by
    refine ⟨fun e => ?_, fun e => ?_, fun e => ?_, fun _ => rfl, rfl⟩
    · simp only [queueOf] at no_queue
      simp [queueApc, queueOf, markConnected, getD_insert, no_queue]
    · cases event : info.listenEvent with
      | none =>
        simp only [queueApc, deferredOf, markConnected, Option.map_none, Option.toList_none,
          append_nil]
        split
        · next same => rw [same]
        · rfl
      | some => simp only [queueApc, deferredOf, markConnected, getD_insert, Option.map_some,
          Option.toList_some]
    · split
      · next same => exact same ▸ no_held
      · rfl
  refine prompt.moved desk_moved ⟨prompt.holds.opened, prompt.holds.slots⟩ ?_ (fun e other => ?_)
    (fun l d c mem => ?_) rfl moved
  · simpa [queuedTo, deliveredTo, filterMap_cons, queuedNote, deliveredNote] using queued
  · simp [queuedTo, deliveredTo, filterMap_cons, queuedNote, deliveredNote, other.symm]
  · simp at mem

theorem prompt_connectPipe {clientFd : Int} {name : Str}
    {access options : UInt32} {copy : Option Int}
    (care : unhurried s (.connectPipe clientFd name access options copy) = true) :
    Prompt (tryConnectNamedPipe s clientFd name access options copy).2.1
      (notes ++ (tryConnectNamedPipe s clientFd name access options copy).2.2) := by
  rcases tryConnectNamedPipe_cases s clientFd name access options copy with
    same | ⟨instances, info, fd, found, first, done⟩
  · simpa [same] using prompt
  · have made : ∀ told : State, Steady told
        (allocClientEnd told (clientPid s clientFd) fd access options).2 := by
      intro told
      have keeps := keeps_allocClientEnd told (clientPid s clientFd) fd access options
      obtain ⟨processes, made⟩ := allocClientEnd_eq told (clientPid s clientFd) fd access options
      rw [made] at keeps ⊢
      exact .of_same (fun _ => rfl) rfl rfl rfl keeps rfl rfl
    rw [done]
    refine Prompt.steady ?_ (made _)
    unfold tellListener
    cases async : info.listenAsync with
    | some =>
      simp only [unhurried, found, Option.getD_some, first, async, Option.all_some] at care
      exact prompt_queueApc prompt found first async care
    | none =>
      rw [append_nil]
      refine prompt.steady (.of_tables (fun _ => rfl) rfl rfl rfl (keeps_of_processes rfl)
        (Nat.le_refl _) fun l => ?_)
      refine waiting_update_le s fun i => ?_
      simp [listensFor]

end

/-! ### A select -/

structure Rest (s t : State) : Prop where
  queue : t.pendingKernelApcs = s.pendingKernelApcs
  deferred : t.deferredEventSignals = s.deferredEventSignals
  pipes : t.namedPipes = s.namedPipes
  listens : t.nextListen = s.nextListen
  pid : ∀ fd, clientPid t fd = clientPid s fd
  entries : ∀ pid h, handleEntry t pid h = handleEntry s pid h

theorem Rest.trans (one : Rest s t) (two : Rest t u) : Rest s u :=
  ⟨two.queue.trans one.queue, two.deferred.trans one.deferred, two.pipes.trans one.pipes,
    two.listens.trans one.listens, fun fd => (two.pid fd).trans (one.pid fd),
    fun pid h => (two.entries pid h).trans (one.entries pid h)⟩

theorem rest_signalIdle : Rest s (signalIdle s pid) := by
  have entries := handleEntry_signalIdle s pid
  obtain ⟨_, _, told⟩ := signalIdle_eq s pid
  rw [told] at entries ⊢
  exact ⟨rfl, rfl, rfl, rfl, fun _ => rfl, entries⟩

theorem rest_workerInterrupt (clientFd : Int) (made : Bool) :
    Rest s (workerInterrupt s clientFd made).2 := by
  obtain ⟨_, done⟩ := workerInterrupt_eq s clientFd made
  rw [done]
  exact ⟨rfl, rfl, rfl, rfl, fun _ => rfl, fun _ _ => rfl⟩

theorem Rest.refl : Rest s s := ⟨rfl, rfl, rfl, rfl, fun _ => rfl, fun _ _ => rfl⟩

section
variable (clientFd : Int) (req : SelectRequest)

theorem rest_defer (set : WaitSet) (k : SelectKernel) : Rest s (defer s clientFd req set k) := by
  generalize told : (if set.objects ≠ [] ∨ 1000000 < computeNtsyncTimeout req.timeout k.mono k.real
      then signalIdle s (clientPid s clientFd) else s) = idle
  have one : Rest s idle := by
    rw [← told]
    split
    · exact rest_signalIdle
    · exact Rest.refl
  have two := one.trans (rest_workerInterrupt clientFd k.interrupt)
  simp only [defer, told]
  split
  · exact { one with }
  · split
    · split <;> exact { two with }
    · exact { two with }

theorem rest_waitFor (k : SelectKernel) : Rest s (waitFor s clientFd req k).2 := by
  obtain ⟨objects, -, found⟩ := waitObjects_eq s clientFd req k
  have one : Rest s (waitObjects s clientFd req k).1 := by
    rw [found]
    exact ⟨rfl, rfl, rfl, rfl, fun _ => rfl, fun _ _ => rfl⟩
  unfold waitFor
  dsimp only
  split
  · exact one
  · exact one.trans (rest_defer clientFd req _ k)

end

theorem rest_handleSelect {clientFd : Int} (no_apc : popApc s clientFd = none) (req : SelectRequest)
    (k : SelectKernel) :
    Rest (acknowledge s clientFd req.prevApc).1 (handleSelect s clientFd req k).2.1 ∧
      (handleSelect s clientFd req k).1.apc = none ∧
      (handleSelect s clientFd req k).2.2 = (acknowledge s clientFd req.prevApc).2 := by
  have clients : (acknowledge s clientFd req.prevApc).1.clients = s.clients := by
    unfold acknowledge
    split <;> rfl
  simp only [handleSelect, no_apc]
  split
  · refine ⟨⟨rfl, rfl, rfl, rfl, fun fd => ?_, fun _ _ => rfl⟩, rfl, rfl⟩
    simp only [clientPid, clients, get?_modify]
    split
    · next same => subst same; simp [Option.map_map, Function.comp_def]
    · rfl
  · refine ⟨rest_waitFor clientFd req k, ?_, rfl⟩
    unfold waitFor
    dsimp only
    split <;> rfl

variable {clientFd : Int} {req : SelectRequest} {k : SelectKernel}

theorem popApc_some {apc : Apc} (found : popApc s clientFd = some (apc, popped)) :
    ∃ earlier, s.pendingKernelApcs.get? clientFd = some (earlier ++ [apc]) ∧ popped = { s with
        pendingKernelApcs :=
          if earlier = [] then s.pendingKernelApcs.erase clientFd
          else s.pendingKernelApcs.insert clientFd earlier } := by
  simp only [popApc, Option.bind_eq_some_iff, Option.map_eq_some_iff, Prod.mk.injEq] at found
  obtain ⟨apcs, here, last, end_, rfl, rfl⟩ := found
  refine ⟨apcs.dropLast, ?_, rfl⟩
  rw [here, dropLast_append_getLast? last end_]

theorem popApc_none (none_ : popApc s clientFd = none) : queueOf s clientFd = [] := by
  unfold popApc at none_
  unfold queueOf
  cases found : s.pendingKernelApcs.get? clientFd with
  | none => rfl
  | some => simpa [found] using none_

theorem handleEntry_congr {g h : UInt32} (same : g >>> 2 = h >>> 2) :
    handleEntry s pid g = handleEntry s pid h := by
  simp only [handleEntry, HandleTable.get, same]

theorem keeps_deliverApc (s : State) (clientFd : Int) (apc : Apc) :
    Keeps s (deliverApc s clientFd apc).2.1 := by
  unfold deliverApc
  dsimp only
  split
  · exact keeps_of_processes rfl
  · next p found =>
    refine keeps_insert found (fun h live => ?_) rfl
    rwa [get_allocate _ live]

/-- The thread has one APC in its queue and none in hand, and its select gets it. -/
structure Receives (s : State) (clientFd : Int) (req : SelectRequest) (k : SelectKernel)
    (apc : Apc) : Prop where
  queue : queueOf s clientFd = [apc]
  no_held : heldBy s clientFd = []
  done : handleSelect s clientFd req k =
    deliverApc { s with pendingKernelApcs := s.pendingKernelApcs.erase clientFd } clientFd apc

theorem Prompt.receives (prompt : Prompt s notes) {apc : Apc}
    (found : popApc s clientFd = some (apc, popped)) : Receives s clientFd req k apc := by
  obtain ⟨earlier, here, rfl⟩ := popApc_some found
  have one := (prompt.desk clientFd).one
  have queue : queueOf s clientFd = earlier ++ [apc] := by rw [queueOf, here, Option.getD_some]
  rw [queue, length_append, length_singleton] at one
  obtain rfl : earlier = [] := eq_nil_of_length_eq_zero (by omega)
  simp only [if_true] at found
  refine ⟨queue, eq_nil_of_length_eq_zero (by omega), ?_⟩
  simp only [handleSelect, found]

section Receives
variable {apc : Apc} (receives : Receives s clientFd req k apc)
include receives

theorem Receives.apc_eq : (handleSelect s clientFd req k).1.apc = some apc := by
  rw [receives.done]
  rfl

theorem Receives.keeps : Keeps s (handleSelect s clientFd req k).2.1 := by
  rw [receives.done]
  exact keeps_deliverApc { s with pendingKernelApcs := s.pendingKernelApcs.erase clientFd } clientFd apc

theorem Receives.after : ∃ processes, (handleSelect s clientFd req k).2.1 = { s with
      pendingKernelApcs := s.pendingKernelApcs.erase clientFd, processes
      nextObjectId := s.nextObjectId + 1 } := by
  rw [receives.done]
  unfold deliverApc
  dsimp only
  split <;> exact ⟨_, rfl⟩

theorem Receives.heldAs_eq : heldAs s clientFd req.prevApc = none := by
  have no_held := receives.no_held
  simp only [heldBy] at no_held
  simp [heldAs, no_held]

theorem Receives.holdings_eq : holdings s clientFd req (handleSelect s clientFd req k).1 =
      [⟨apc.listen, apc.deferred, (handleSelect s clientFd req k).1.apcHandle⟩] := by
  have no_held := receives.no_held
  simp only [heldBy] at no_held
  simp [holdings, receives.heldAs_eq, receives.apc_eq, no_held]

theorem Receives.notes_eq : (select s clientFd req k).2 = [.delivered clientFd apc.listen,
      .replied req.timeout (handleSelect s clientFd req k).1.error] := by
  have said : (handleSelect s clientFd req k).2.2 = [.delivered clientFd apc.listen] := by
    rw [receives.done]
    rfl
  simp [select, receives.heldAs_eq, said]

theorem Receives.moved : Moved s (select s clientFd req k).1 clientFd [] (deferredOf s clientFd)
      [⟨apc.listen, apc.deferred, (handleSelect s clientFd req k).1.apcHandle⟩] := by
  obtain ⟨processes, after⟩ := receives.after
  refine ⟨fun e => ?_, fun e => ?_, fun e => ?_, fun e => ?_, ?_⟩
  · simp only [select, queueOf, after]
    exact getD_erase _
  · simp only [select, deferredOf, after]
    split
    · next same => rw [same]
    · rfl
  · simp only [select, heldBy, receives.holdings_eq]
    exact getD_insert _ _
  · simp only [select, clientPid, after]
  · simp only [select, after]

theorem Receives.holds (holds : Holds s)
    (free : handleFree s clientFd) : Holds (select s clientFd req k).1 := by
  obtain ⟨p, found, free⟩ := (Option.any_eq_true _ _).mp free
  simp only [Bool.and_eq_true, Option.isNone_iff_eq_none] at free
  have handle : (handleSelect s clientFd req k).1.apcHandle =
      (p.handles.allocate s.nextObjectId).1 := by
    rw [receives.done]
    simp only [deliverApc, clientPid] at found ⊢
    rw [found]
  have new : handleEntry s (clientPid s clientFd) (handleSelect s clientFd req k).1.apcHandle =
      none := by
    rw [handle, handleEntry, found]
    exact free.1
  have opened : (handleEntry (handleSelect s clientFd req k).2.1 (clientPid s clientFd)
      (handleSelect s clientFd req k).1.apcHandle).isSome := by
    rw [handle, receives.done]
    simp only [deliverApc, clientPid] at found ⊢
    rw [found]
    simpa [handleEntry, get?_insert] using free.2
  have entries : ∀ pid h, handleEntry (select s clientFd req k).1 pid h =
      handleEntry (handleSelect s clientFd req k).2.1 pid h := fun _ _ => rfl
  refine holds.moved receives.moved ?_ ?_ ?_
  · simpa [entries] using opened
  · intro e _ b mem
    exact receives.keeps _ _ (holds.opened e b mem)
  · intro d mem e _ same b mem' slot
    rw [mem_singleton.mp mem] at slot
    have live := holds.opened e b mem'
    rw [← handleEntry_congr slot, ← same, new] at live
    cases live

theorem Receives.live_eq (l : Nat) : live (select s clientFd req k).1 l = live s l := by
  have queues := s.pendingKernelApcs.total_erase (fun q => q.countP fun a => a.listen = l) clientFd
  have hands := s.delivered.total_insert (fun ds => ds.countP fun d => d.listen = l) clientFd
    [⟨apc.listen, apc.deferred, (handleSelect s clientFd req k).1.apcHandle⟩]
  rw [getD_countP, ← queueOf, receives.queue, countP_singleton] at queues
  rw [getD_countP, ← heldBy, receives.no_held, countP_nil, countP_singleton] at hands
  obtain ⟨processes, after⟩ := receives.after
  simp only [live, waiting, inQueue, inHand, select, after, receives.holdings_eq] at hands ⊢
  omega

end Receives

theorem prompt_deliver (prompt : Prompt s notes) {apc : Apc}
    (found : popApc s clientFd = some (apc, popped))
    (care : unhurried s (.select clientFd req k) = true) :
    Prompt (select s clientFd req k).1 (notes ++ (select s clientFd req k).2) := by
  have receives : Receives s clientFd req k apc := prompt.receives found
  have desk := prompt.desk clientFd
  rw [receives.queue, receives.no_held] at desk
  simp only [unhurried, receives.queue, isEmpty_cons, Bool.false_or, Bool.and_eq_true] at care
  refine prompt.moved receives.moved (receives.holds prompt.holds care.2) ?_ ?_ ?_ ?_ ?_
  · rw [receives.notes_eq]
    simpa [queuedTo, deliveredTo, filterMap_cons, queuedNote, deliveredNote] using desk.deliver _
  · intro e other
    rw [receives.notes_eq]
    simp [queuedTo, deliveredTo, filterMap_cons, queuedNote, deliveredNote, other.symm]
  · rw [receives.notes_eq]
    simp
  · rw [receives.notes_eq]
    rfl
  · intro l
    rw [receives.notes_eq, receives.live_eq]
    rfl

theorem steady_select (no_apc : popApc s clientFd = none) (no_ack : req.prevApc = 0) :
    Steady s (select s clientFd req k).1 := by
  obtain ⟨rest, apc, -⟩ := rest_handleSelect no_apc req k
  have same : (acknowledge s clientFd req.prevApc).1 = s := by rw [acknowledge, if_pos no_ack]
  rw [same] at rest
  have hold : holdings s clientFd req (handleSelect s clientFd req k).1 = heldBy s clientFd := by
    simp [holdings, heldAs, no_ack, apc, heldBy]
  refine ⟨fun e => ?_, fun e => ?_, fun e => ?_, fun e _ => rest.pid e, fun e d _ opened => ?_,
    Nat.le_of_eq rest.listens.symm, fun l => ?_⟩
  · simp only [select, queueOf, rest.queue]
  · simp only [select, deferredOf, rest.deferred]
  · simp only [select, hold, heldBy, getD_insert]
    split
    · next same => rw [same]
    · rfl
  · exact (congrArg Option.isSome (rest.entries _ _)).trans opened
  · have hands := s.delivered.total_insert (fun ds => ds.countP fun d => d.listen = l) clientFd
      (heldBy s clientFd)
    rw [getD_countP, ← heldBy] at hands
    simp only [live, waiting, inQueue, inHand, select, hold, rest.queue, rest.pipes]
    omega

variable {prevApc : UInt32}

theorem handleEntry_acknowledge (some_apc : prevApc ≠ 0) (h : UInt32) :
    handleEntry (acknowledge s clientFd prevApc).1 pid h =
      if pid = clientPid s clientFd then
        (s.processes.get? pid).bind fun p => (p.handles.close prevApc).1.get h
      else handleEntry s pid h := by
  simp only [acknowledge, some_apc, if_false, handleEntry, get?_modify]
  split
  · next same =>
    subst same
    cases s.processes.get? (clientPid s clientFd) <;> rfl
  · rfl

theorem acknowledge_notes (some_apc : prevApc ≠ 0)
    (exist : ∀ e ∈ deferredOf s clientFd, s.ntsyncObjects.contains (e.pid, e.handle)) :
    (acknowledge s clientFd prevApc).2 = ((deferredOf s clientFd).map listen).map .signalled := by
  have all := filter_eq_self.mpr exist
  unfold deferredOf at all ⊢
  simp only [acknowledge, some_apc, if_false, all, map_map]
  rfl

/-- The thread has one APC in hand and none in its queue, and its select answers for it. -/
structure Answers (s : State) (clientFd : Int) (req : SelectRequest) (d : Delivery) : Prop where
  no_apc : popApc s clientFd = none
  some_ack : req.prevApc ≠ 0
  only : heldBy s clientFd = [d]
  handle : d.handle = req.prevApc
  exist : ∀ e ∈ deferredOf s clientFd, s.ntsyncObjects.contains (e.pid, e.handle)

theorem Prompt.answers (prompt : Prompt s notes) (no_apc : popApc s clientFd = none)
    (some_ack : req.prevApc ≠ 0) (care : unhurried s (.select clientFd req k) = true) :
    ∃ d, Answers s clientFd req d := by
  simp only [unhurried, some_ack, decide_false, Bool.false_or, Bool.and_eq_true, all_eq_true] at care
  obtain ⟨⟨held, exist⟩, -⟩ := care
  obtain ⟨d, found⟩ := Option.isSome_iff_exists.mp held
  have lookup : (heldBy s clientFd).find? (fun d => d.handle = req.prevApc) = some d := by
    simpa [heldAs, some_ack, heldBy] using found
  have mem := mem_of_find?_eq_some lookup
  have one := (prompt.desk clientFd).one
  obtain ⟨x, single⟩ := length_eq_one_iff.mp (show (heldBy s clientFd).length = 1 by
    have := length_pos_of_mem mem
    omega)
  rw [single, mem_singleton] at mem
  exact ⟨d, no_apc, some_ack, by rw [single, mem], by simpa using find?_some lookup, exist⟩

section Answers
variable {d : Delivery} (answers : Answers s clientFd req d)
include answers

theorem Answers.heldAs_eq : heldAs s clientFd req.prevApc = some d := by
  have only := answers.only
  simp only [heldBy] at only
  simp [heldAs, answers.some_ack, only, answers.handle]

section
variable (k : SelectKernel)

theorem Answers.holdings_eq : holdings s clientFd req (handleSelect s clientFd req k).1 = [] := by
  obtain ⟨-, apc, -⟩ := rest_handleSelect answers.no_apc req k
  have only := answers.only
  simp only [heldBy] at only
  simp [holdings, answers.heldAs_eq, apc, only]

theorem Answers.moved : Moved s (select s clientFd req k).1 clientFd [] [] [] := by
  obtain ⟨rest, -, -⟩ := rest_handleSelect answers.no_apc req k
  have some_ack := answers.some_ack
  refine ⟨fun e => ?_, fun e => ?_, fun e => ?_, fun e => ?_, ?_⟩
  · simp only [select, queueOf, rest.queue, acknowledge, some_ack, if_false]
    split
    · next same => exact same ▸ popApc_none answers.no_apc
    · rfl
  · simp only [select, deferredOf, rest.deferred, acknowledge, some_ack, if_false]
    exact getD_erase _
  · simp only [select, heldBy, answers.holdings_eq k]
    exact getD_insert _ _
  · refine (rest.pid e).trans ?_
    simp [acknowledge, some_ack, clientPid]
  · refine rest.listens.trans ?_
    simp [acknowledge, some_ack]

theorem Answers.holds (holds : Holds s) : Holds (select s clientFd req k).1 := by
  obtain ⟨rest, -, -⟩ := rest_handleSelect answers.no_apc req k
  refine holds.moved (answers.moved k) (by simp) (fun e other b mem => ?_) (by simp)
  have live := holds.opened e b mem
  refine (congrArg Option.isSome (rest.entries _ _)).trans ?_
  rw [handleEntry_acknowledge answers.some_ack]
  split
  · next same =>
    have slots := holds.slots clientFd e other.symm same.symm d (by simp [answers.only]) b mem
    rw [answers.handle] at slots
    simp only [get_close_ne slots]
    exact live
  · exact live

theorem Answers.closes :
    handleEntry (handleSelect s clientFd req k).2.1 (clientPid s clientFd) req.prevApc = none := by
  obtain ⟨rest, -, -⟩ := rest_handleSelect answers.no_apc req k
  rw [rest.entries, handleEntry_acknowledge answers.some_ack, if_pos rfl]
  cases s.processes.get? (clientPid s clientFd) with
  | none => rfl
  | some p => exact get_close p.handles req.prevApc

theorem Answers.notes_eq (holds : Holds s) (events : (deferredOf s clientFd).map listen =
      if d.deferred then [d.listen] else []) :
    (select s clientFd req k).2 = .acknowledged d.listen d.deferred true ::
      (if d.deferred then [.signalled d.listen] else []) ++
        [.replied req.timeout (handleSelect s clientFd req k).1.error] := by
  obtain ⟨-, -, said⟩ := rest_handleSelect answers.no_apc req k
  have opened := holds.opened clientFd d (by simp [answers.only])
  rw [answers.handle] at opened
  rw [acknowledge_notes answers.some_ack answers.exist, events] at said
  simp only [select, answers.heldAs_eq, said, answers.closes k, opened, Option.toList_some,
    map_singleton, Option.isNone_none, Bool.and_self]
  cases d.deferred <;> rfl

theorem Answers.live_eq (l : Nat) :
    live (select s clientFd req k).1 l + (if d.listen = l then 1 else 0) = live s l := by
  obtain ⟨rest, -, -⟩ := rest_handleSelect answers.no_apc req k
  have hands := s.delivered.total_insert (fun ds => ds.countP fun d => d.listen = l) clientFd []
  rw [getD_countP, ← heldBy, answers.only, countP_nil, countP_singleton] at hands
  have pipes : (select s clientFd req k).1.namedPipes = s.namedPipes := by
    refine rest.pipes.trans ?_
    simp [acknowledge, answers.some_ack]
  have queues : (select s clientFd req k).1.pendingKernelApcs = s.pendingKernelApcs := by
    refine rest.queue.trans ?_
    simp [acknowledge, answers.some_ack]
  simp only [live, waiting, inQueue, inHand, pipes, queues, decide_eq_true_eq] at hands ⊢
  simp only [select, answers.holdings_eq k]
  omega

end

end Answers

theorem prompt_acknowledge (prompt : Prompt s notes) (no_apc : popApc s clientFd = none)
    (some_ack : req.prevApc ≠ 0) (care : unhurried s (.select clientFd req k) = true) :
    Prompt (select s clientFd req k).1 (notes ++ (select s clientFd req k).2) := by
  obtain ⟨d, answers⟩ := prompt.answers no_apc some_ack care
  have desk := prompt.desk clientFd
  rw [popApc_none no_apc, answers.only] at desk
  obtain ⟨cleared, events⟩ := desk.acknowledge
  have said := answers.notes_eq k prompt.holds events
  refine prompt.moved (answers.moved k) (answers.holds k prompt.holds) ?_ ?_ ?_ ?_ ?_
  · rw [said]
    cases d.deferred <;>
      simpa [queuedTo, deliveredTo, filterMap_cons, queuedNote, deliveredNote] using cleared
  · rw [said]
    cases d.deferred <;> simp [queuedTo, deliveredTo, filterMap_cons, queuedNote, deliveredNote]
  · cases d.deferred <;> simp_all
  · rw [said]
    cases d.deferred <;> rfl
  · intro l
    have ack : (acked (select s clientFd req k).2).count l = if d.listen = l then 1 else 0 := by
      rw [said]
      cases d.deferred <;> simp [acked, filterMap_cons, ackedNote, count_singleton]
    rw [ack]
    exact answers.live_eq k l

theorem prompt_select (prompt : Prompt s notes)
    (care : unhurried s (.select clientFd req k) = true) :
    Prompt (select s clientFd req k).1 (notes ++ (select s clientFd req k).2) := by
  cases found : popApc s clientFd with
  | some => exact prompt_deliver prompt found care
  | none =>
    by_cases no_ack : req.prevApc = 0
    · obtain ⟨-, -, said⟩ := rest_handleSelect found req k
      refine (prompt.steady (steady_select found no_ack)).skip fun note mem => ?_
      simp only [select, heldAs, no_ack, if_true, said, acknowledge, Option.toList_none,
        map_nil, nil_append, mem_singleton] at mem
      rw [mem]
      rfl
    · exact prompt_acknowledge prompt found no_ack care

/-! ### Whole runs -/

theorem checkWaits_aside (now : Nat) (waits : List PendingWait) :
    ∀ note ∈ (checkWaits s now waits).2, note.aside := by
  induction waits with
  | nil => simp [checkWaits]
  | cons w rest ih =>
    rw [checkWaits]
    split
    · exact ih
    · split
      · simp only [mem_append]
        rintro note (sent | later)
        · unfold sendWakeUp at sent
          split at sent
          · split at sent
            · rw [mem_singleton.mp sent]
              rfl
            · cases sent
          · cases sent
        · exact ih note later
      · simp

theorem prompt_act (lower : Str → Str) (prompt : Prompt s notes) {event : Event}
    (care : unhurried s event = true) :
    Prompt (act lower s event).1 (notes ++ (act lower s event).2) := by
  cases event with
  | connectClient _ pid tid waitFd =>
    rw [act, append_nil]
    exact prompt.steady (steady_connectClient care tid waitFd)
  | disconnectClient =>
    rw [act, append_nil]
    exact prompt.steady (steady_disconnectClient prompt care)
  | createNamedPipe fd oa fds =>
    rw [act, append_nil]
    exact prompt.steady (steady_createNamedPipe oa fds)
  | pipeListen req made =>
    rw [act, append_nil]
    exact prompt.steady steady_pipeListen
  | pipeDisconnect fd handle =>
    rw [act, append_nil]
    exact prompt.steady steady_pipeDisconnect
  | pipeWait fd vararg made =>
    rw [act, append_nil]
    exact prompt.steady (steady_pipeWait vararg)
  | connectPipe => exact prompt_connectPipe prompt care
  | select => exact prompt_select prompt care
  | resumeThread fd handle =>
    refine (prompt.steady steady_resumeThread).skip fun note mem => ?_
    simp only [act, resumeThread] at mem
    split at mem
    · cases mem
    · split at mem
      · cases mem
      · split at mem
        · cases mem
        · rw [mem_singleton.mp mem]
          rfl
  | finishWorker i result =>
    have same : Steady s (finishWorker s i result).1 := by
      unfold finishWorker
      split
      · exact Steady.refl s
      · exact .of_same (fun _ => rfl) rfl rfl rfl (keeps_of_processes rfl) rfl rfl
    refine (prompt.steady same).skip fun note mem => ?_
    simp only [act, finishWorker] at mem
    split at mem
    · cases mem
    · rw [mem_singleton.mp mem]
      rfl
  | tick now =>
    have same : Steady s (checkPendingWaits s now).1 :=
      .of_same (fun _ => rfl) rfl rfl rfl (keeps_of_processes rfl) rfl rfl
    exact (prompt.steady same).skip (checkWaits_aside now s.pendingWaits)

/-- Nobody listens, and no APC is on its way. -/
structure NoApcs (s : State) : Prop where
  namedPipes : s.namedPipes = .empty
  pendingKernelApcs : s.pendingKernelApcs = .empty
  deferredEventSignals : s.deferredEventSignals = .empty
  delivered : s.delivered = .empty

theorem NoApcs.prompt (none_ : NoApcs s) : Prompt s [] := by
  have queue : ∀ fd, queueOf s fd = [] := by simp [queueOf, none_.pendingKernelApcs]
  have events : ∀ fd, deferredOf s fd = [] := by simp [deferredOf, none_.deferredEventSignals]
  have held : ∀ fd, heldBy s fd = [] := by simp [heldBy, none_.delivered]
  have zero : ∀ l, live s l = 0 := fun l => by
    simp only [live, waiting, inQueue, inHand, none_.namedPipes, none_.pendingKernelApcs,
      none_.delivered]
    rfl
  refine ⟨fun fd => ?_, ⟨by simp [held], by simp [held]⟩, by simp, rfl, fun l => ?_, fun l _ => ?_⟩
  · rw [queue, events, held]
    exact ⟨Nat.zero_le 1, rfl, rfl⟩
  all_goals simp [zero, acked]

theorem deferredAcks_sublist : (deferredAcks notes).Sublist (acked notes) := by
  induction notes with
  | nil => exact List.Sublist.refl _
  | cons note later ih =>
    cases note with
    | acknowledged l deferred =>
      cases deferred with
      | true => exact ih.cons_cons l
      | false => exact ih.cons l
    | _ => exact ih

theorem Prompt.sound (prompt : Prompt s notes) : ApcSound notes where
  in_order fd := by
    rw [(prompt.desk fd).conserved]
    exact prefix_append _ _
  closed := prompt.closed
  signalled_acked := prompt.signalled
  signalled_once := by
    have once : (acked notes).Nodup := nodup_iff_count_le_one.mpr fun l => by
      have := prompt.single l
      omega
    rw [prompt.signalled]
    exact once.sublist deferredAcks_sublist

def PromptSoFar (o : Observed) : Prop := Prompt o.state o.notes

theorem apcs_sound_of_unhurried (lower : Str → Str) (start : State) (none_ : NoApcs start)
    (events : List Event)
    (care : AllSteps (step lower) (fun o event => unhurried o.state event = true) ⟨start, []⟩ events) :
    ApcSound (run (step lower) ⟨start, []⟩ events).notes := by
  have begun : PromptSoFar ⟨start, []⟩ := none_.prompt
  exact (good_run (fun o event so_far => prompt_act lower so_far) begun care).sound

def serverAndClient : State :=
  .start ((Table.empty.insert 32 ⟨HandleTable.new, [], true⟩).insert 36 ⟨HandleTable.new, [], true⟩)
    (Table.empty.insert (32, 256) 2)

def namedP : List UInt8 := replicate 12 0 ++ [2, 0, 0, 0, 112, 0]

def oneListen : List Event :=
  [.connectClient 7 32 40 (some 9), .connectClient 8 36 44 (some 10),
    .createNamedPipe 7 namedP (some (20, 21)), .pipeListen ⟨7, 4, 256, 1000, 2000⟩ true]

def acking (prevApc : UInt32) : Event :=
  .select 7 ⟨prevApc, 0, 0, 0x7F00, []⟩ ⟨fun _ => true, .timedOut, true, true, 0, 0, 0, 0⟩

theorem apcs_sound_one_listen : ApcSound (run (step id) ⟨serverAndClient, []⟩ (oneListen ++
      [.connectPipe 8 ['p'] 0x80000000 0 (some 22), acking 0, acking 8, acking 0])).notes :=
  apcs_sound_of_unhurried id _ ⟨rfl, rfl, rfl, rfl⟩ _ (by decide +kernel)

/-- Two listens of one thread: the APC of the second comes first, and acknowledging it sets
the event of the first. -/
theorem second_listen_first : ¬ ApcSound (run (step id) ⟨serverAndClient, []⟩ (oneListen ++
      [.createNamedPipe 7 namedP (some (22, 23)), .pipeListen ⟨7, 8, 256, 3000, 4000⟩ true,
        .connectPipe 8 ['p'] 0x80000000 0 (some 24), .connectPipe 8 ['p'] 0x80000000 0 (some 25),
        acking 0])).notes := by
  intro sound
  have in_order := sound.in_order 7
  revert in_order
  decide +kernel

end Triskelion.Select
