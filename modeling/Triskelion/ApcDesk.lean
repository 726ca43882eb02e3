import Triskelion.Select
import Triskelion.SlabContents

/-! What the APCs of pipe listens are judged by: the order in which a thread gets them, the
handles it gets them under, and the events that wait for its answer. A listen is a token
that goes from its instance to the queue of a thread and from there into its hands; most
requests leave all of this alone. -/

namespace Triskelion.Select

open List Option DeferredEvent

/-! ### Reading the notes -/

section
variable (fd : Int)

def queuedNote : Note → Option Nat
  | .queued f l => if f = fd then some l else none
  | _ => none

def deliveredNote : Note → Option Nat
  | .delivered f l => if f = fd then some l else none
  | _ => none

def ackedNote : Note → Option Nat
  | .acknowledged l _ _ => some l
  | _ => none

def deferredAckNote : Note → Option Nat
  | .acknowledged l deferred _ => if deferred then some l else none
  | _ => none

def signalledNote : Note → Option Nat
  | .signalled l => some l
  | _ => none

def queuedTo (notes : List Note) : List Nat := notes.filterMap (queuedNote fd)

def deliveredTo (notes : List Note) : List Nat := notes.filterMap (deliveredNote fd)

end

section
variable (notes : List Note)

def acked : List Nat := notes.filterMap ackedNote

def deferredAcks : List Nat := notes.filterMap deferredAckNote

def signalled : List Nat := notes.filterMap signalledNote

end

variable {fd : Int} {a b : List Note}

@[simp] theorem queuedTo_append :
    queuedTo fd (a ++ b) = queuedTo fd a ++ queuedTo fd b := filterMap_append

@[simp] theorem deliveredTo_append :
    deliveredTo fd (a ++ b) = deliveredTo fd a ++ deliveredTo fd b := filterMap_append

@[simp] theorem acked_append : acked (a ++ b) = acked a ++ acked b :=
  filterMap_append

@[simp] theorem deferredAcks_append :
    deferredAcks (a ++ b) = deferredAcks a ++ deferredAcks b := filterMap_append

@[simp] theorem signalled_append : signalled (a ++ b) = signalled a ++ signalled b :=
  filterMap_append

structure ApcSound (notes : List Note) : Prop where
  in_order : ∀ fd, deliveredTo fd notes <+: queuedTo fd notes
  closed : ∀ l d c, .acknowledged l d c ∈ notes → c = true
  signalled_acked : signalled notes = deferredAcks notes
  signalled_once : (signalled notes).Nodup

/-! ### One thread -/

section
variable (s : State) (fd : Int)

def queueOf : List Apc := (s.pendingKernelApcs.get? fd).getD []

def deferredOf : List DeferredEvent :=
  (s.deferredEventSignals.get? fd).getD []

def heldBy : List Delivery := (s.delivered.get? fd).getD []

end

/-- A thread has one APC at most, queued or held, and the deferred events are those of
it. -/
structure Desk (queue : List Apc) (events : List DeferredEvent) (held : List Delivery)
    (queued delivered : List Nat) : Prop where
  one : queue.length + held.length ≤ 1
  events : events.map listen =
    (queue.filter Apc.deferred).map Apc.listen ++ (held.filter Delivery.deferred).map Delivery.listen
  conserved : queued = delivered ++ queue.map Apc.listen

namespace Desk

variable {events : List DeferredEvent} {queued delivered : List Nat}

variable {apc : Apc}

theorem queue (desk : Desk [] events [] queued delivered) {new : List DeferredEvent}
    (same : new.map listen = if apc.deferred then [apc.listen] else []) :
    Desk [apc] (events ++ new) [] (queued ++ [apc.listen]) delivered where
  one := Nat.le_refl 1
  events := by
    have nothing : events = [] := by simpa using desk.events
    rw [nothing, nil_append, same]
    cases apc with
    | mk _ _ _ _ _ _ deferred => cases deferred <;> rfl
  conserved := by simp [desk.conserved]

theorem deliver (desk : Desk [apc] events [] queued delivered) (handle : UInt32) :
    Desk [] events [⟨apc.listen, apc.deferred, handle⟩] queued (delivered ++ [apc.listen]) where
  one := Nat.le_refl 1
  events := by
    rw [desk.events]
    cases apc with
    | mk _ _ _ _ _ _ deferred => cases deferred <;> rfl
  conserved := by simp [desk.conserved]

theorem acknowledge {d : Delivery} (desk : Desk [] events [d] queued delivered) :
    Desk [] [] [] queued delivered ∧ events.map listen = if d.deferred then [d.listen] else [] := by
  refine ⟨⟨Nat.zero_le 1, rfl, desk.conserved⟩, ?_⟩
  rw [desk.events]
  cases d with
  | mk _ deferred => cases deferred <;> rfl

end Desk

/-! ### Listens as tokens -/

def listensFor (l : Nat) (i : PipeInstance) : Bool := i.listenAsync.any fun la => la.listen = l

section
variable (s : State) (l : Nat)

def waiting : Nat := s.namedPipes.total fun is => is.countP (listensFor l)

def inQueue : Nat :=
  s.pendingKernelApcs.total fun q => q.countP fun a => a.listen = l

def inHand : Nat := s.delivered.total fun ds => ds.countP fun d => d.listen = l

/-- The places in which a listen is: its instance, the queue of a thread, or its hands. -/
def live : Nat := waiting s l + inQueue s l + inHand s l

end

theorem toNat_eq_cond (b : Bool) : b.toNat = bif b then 1 else 0 := by cases b <;> rfl

theorem countP_updateFirst {α : Type} (p q : α → Bool) (f : α → α) (l : List α) :
    (updateFirst p f l).countP q + ((l.find? p).map fun x => (q x).toNat).getD 0 =
      l.countP q + ((l.find? p).map fun x => (q (f x)).toNat).getD 0 := by
  induction l with
  | nil => rfl
  | cons x rest ih =>
    rw [updateFirst, find?_cons]
    cases p x with
    | true =>
      simp only [if_true, countP_cons, map_some, getD_some, toNat_eq_cond, Bool.cond_eq_ite]
      omega
    | false =>
      simp only [Bool.false_eq_true, if_false, countP_cons]
      omega

variable {name : Str} {p : PipeInstance → Bool} {f : PipeInstance → PipeInstance} {l : Nat}

theorem waiting_update (s : State) (name : Str) (p : PipeInstance → Bool)
    (f : PipeInstance → PipeInstance) (l : Nat) :
    waiting { s with namedPipes := s.namedPipes.modify name (updateFirst p f) } l +
        ((((s.namedPipes.get? name).getD []).find? p).map fun i => (listensFor l i).toNat).getD 0 =
      waiting s l +
        ((((s.namedPipes.get? name).getD []).find? p).map fun i => (listensFor l (f i)).toNat).getD 0 := by
  have sum := s.namedPipes.total_modify (fun is => is.countP (listensFor l)) name (updateFirst p f)
  simp only [waiting]
  cases found : s.namedPipes.get? name with
  | none => simpa [found] using sum
  | some is =>
    have one := countP_updateFirst p (listensFor l) f is
    simp only [found, map_some, getD_some, Function.comp_apply] at sum ⊢
    omega

theorem waiting_update_le (s : State) {new : Nat}
    (le : ∀ i, (listensFor l (f i)).toNat ≤ (listensFor l i).toNat + new) :
    waiting { s with namedPipes := s.namedPipes.modify name (updateFirst p f) } l ≤
      waiting s l + new := by
  have sum := waiting_update s name p f l
  cases found : ((s.namedPipes.get? name).getD []).find? p with
  | none =>
    simp only [found, map_none, getD_none] at sum
    omega
  | some i =>
    have one := le i
    simp only [found, map_some, getD_some] at sum
    omega

/-! ### Handles -/

def Keeps (s t : State) : Prop :=
  ∀ pid h, (handleEntry s pid h).isSome → (handleEntry t pid h).isSome

variable {s t u : State}

theorem Keeps.refl (s : State) : Keeps s s := fun _ _ live => live

theorem Keeps.trans (one : Keeps s t) (two : Keeps t u) : Keeps s u := fun pid h live =>
  two pid h (one pid h live)

theorem keeps_of_processes (same : t.processes = s.processes) : Keeps s t := by
  intro pid h live
  rwa [handleEntry, same]

variable {pid : UInt32}

theorem keeps_insert {p q : Process} (found : s.processes.get? pid = some p)
    (all : ∀ h, (p.handles.get h).isSome → (q.handles.get h).isSome)
    (changed : t.processes = s.processes.insert pid q) : Keeps s t := by
  intro x h live
  simp only [handleEntry, changed, Table.get?_insert] at live ⊢
  split
  · next same =>
    subst same
    simp only [found, bind_some] at live ⊢
    exact all h live
  · exact live

theorem keeps_allocHandle (s : State) (pid : UInt32) (fd : Option Int)
    (objType access options : UInt32) : Keeps s (allocHandle s pid fd objType access options).2 := by
  unfold allocHandle
  split
  · exact keeps_of_processes rfl
  · next p found =>
    refine keeps_insert found (fun h live => ?_) rfl
    rwa [HandleTable.get_allocateFull _ live]

variable {made : Bool}

theorem keeps_allocWaitHandle (s : State) (pid : UInt32) (made : Bool) :
    Keeps s (allocWaitHandle s pid made).2 := by
  unfold allocWaitHandle
  split
  · exact Keeps.refl s
  · have one := keeps_allocHandle s pid (some (-1)) fdTypeFile 0x001F0003 0x20
    dsimp only
    split
    · exact one.trans (keeps_of_processes rfl)
    · exact one

theorem keeps_allocClientEnd (s : State) (pid : UInt32) (fd : Int) (access options : UInt32) :
    Keeps s (allocClientEnd s pid fd access options).2 := by
  unfold allocClientEnd
  split
  · exact keeps_of_processes rfl
  · exact keeps_allocHandle _ _ _ _ _ _

theorem handleEntry_signalIdle (s : State) (pid x h : UInt32) :
    handleEntry (signalIdle s pid) x h = handleEntry s x h := by
  unfold signalIdle
  split
  · rfl
  · next p found =>
    split
    · rfl
    · simp only [handleEntry, Table.get?_insert]
      split
      · next same => rw [same, found, bind_some, bind_some]
      · rfl

/-! ### Steps that leave the APCs alone -/

/-- Only new listens are added, and instances may forget theirs. -/
structure Steady (s t : State) : Prop where
  queue : ∀ fd, queueOf t fd = queueOf s fd
  deferred : ∀ fd, deferredOf t fd = deferredOf s fd
  held : ∀ fd, heldBy t fd = heldBy s fd
  pid : ∀ fd, heldBy s fd ≠ [] → clientPid t fd = clientPid s fd
  opened : ∀ fd, ∀ d ∈ heldBy s fd, (handleEntry s (clientPid s fd) d.handle).isSome →
    (handleEntry t (clientPid s fd) d.handle).isSome
  listens : s.nextListen ≤ t.nextListen
  live : ∀ l, live t l ≤ live s l + if s.nextListen ≤ l ∧ l < t.nextListen then 1 else 0

section
variable (clients : ∀ fd, clientPid t fd = clientPid s fd)
  (queue : t.pendingKernelApcs = s.pendingKernelApcs)
  (deferred : t.deferredEventSignals = s.deferredEventSignals) (held : t.delivered = s.delivered)
  (keeps : Keeps s t)
include clients queue deferred held keeps

theorem Steady.of_tables (listens : s.nextListen ≤ t.nextListen) (instances : ∀ l, waiting t l ≤
      waiting s l + if s.nextListen ≤ l ∧ l < t.nextListen then 1 else 0) : Steady s t where
  queue fd := by rw [queueOf, queue, queueOf]
  deferred fd := by rw [deferredOf, deferred, deferredOf]
  held fd := by rw [heldBy, held, heldBy]
  pid fd _ := clients fd
  opened fd d _ live := keeps _ _ live
  listens := listens
  live l := by
    have old := instances l
    simp only [Select.live, inQueue, inHand, queue, held]
    omega

theorem Steady.of_same (listens : t.nextListen = s.nextListen)
    (instances : t.namedPipes = s.namedPipes) : Steady s t := by
  refine .of_tables clients queue deferred held keeps (Nat.le_of_eq listens.symm) fun l => ?_
  rw [waiting, instances, waiting]
  omega

end

variable {lower : Str → Str} {clientFd : Int}

theorem steady_createNamedPipe (oa : List UInt8)
    (fds : Option (Int × Int)) : Steady s (createNamedPipe lower s clientFd oa fds) := by
  unfold createNamedPipe
  split
  · exact .of_same (fun _ => rfl) rfl rfl rfl (Keeps.refl s) rfl rfl
  · next server client =>
    have first := keeps_allocHandle s (clientPid s clientFd) (some server) fdTypeDevice 0x001F01FF 0x20
    obtain ⟨processes, made⟩ := allocHandle_eq s (clientPid s clientFd) (some server) fdTypeDevice
      0x001F01FF 0x20
    dsimp only
    split
    · have second := first.trans (keeps_allocHandle _ (clientPid s clientFd) (some client)
        fdTypeDevice 0x0012019F 0)
      obtain ⟨processes', made'⟩ := allocHandle_eq
        (allocHandle s (clientPid s clientFd) (some server) fdTypeDevice 0x001F01FF 0x20).2
        (clientPid s clientFd) (some client) fdTypeDevice 0x0012019F 0
      rw [made'] at second ⊢
      rw [made] at second ⊢
      exact .of_same (fun _ => rfl) rfl rfl rfl second rfl rfl
    · rw [made] at first ⊢
      refine .of_tables (fun _ => rfl) rfl rfl rfl first (Nat.le_refl _) fun l => ?_
      generalize (extractObjattrName lower oa).getD [] = name
      have sum := s.namedPipes.total_insert (fun is => is.countP (listensFor l)) name
        ((s.namedPipes.get? name).getD [] ++
          [⟨clientPid s clientFd, (allocHandle s (clientPid s clientFd) (some server) fdTypeDevice
            0x001F01FF 0x20).1, .listening, none, none⟩])
      have new : List.countP (listensFor l)
          [(⟨clientPid s clientFd, (allocHandle s (clientPid s clientFd) (some server) fdTypeDevice
            0x001F01FF 0x20).1, .listening, none, none⟩ : PipeInstance)] = 0 := by
        simp [listensFor]
      rw [countP_append] at sum
      rw [getD_countP] at sum
      simp only [waiting, wakePipeWaiters]
      omega

variable {req : ListenRequest}

theorem steady_startListen (event : UInt32) : Steady s (startListen s req name event) := by
  refine .of_tables (fun _ => rfl) rfl rfl rfl (keeps_of_processes rfl) (Nat.le_succ _) fun l => ?_
  have next : (startListen s req name event).nextListen = s.nextListen + 1 := rfl
  refine waiting_update_le s fun i => ?_
  simp only [listensFor, any_some, toNat_eq_cond, Bool.cond_decide]
  split <;> split <;> omega

theorem Steady.trans (one : Steady s t) (two : Steady t u) : Steady s u where
  queue fd := (two.queue fd).trans (one.queue fd)
  deferred fd := (two.deferred fd).trans (one.deferred fd)
  held fd := (two.held fd).trans (one.held fd)
  pid fd holds := (two.pid fd (by rwa [one.held])).trans (one.pid fd holds)
  opened fd d mem live := by
    have same := one.pid fd (ne_nil_of_mem mem)
    have next := two.opened fd d (by rwa [one.held])
    rw [same] at next
    exact next (one.opened fd d mem live)
  listens := Nat.le_trans one.listens two.listens
  live l := by
    have a := one.live l
    have b := two.live l
    have c := one.listens
    have d := two.listens
    split at a <;> split at b <;> split <;> omega

theorem steady_allocWaitHandle (s : State) (pid : UInt32) (made : Bool) :
    Steady s (allocWaitHandle s pid made).2 := by
  have keeps := keeps_allocWaitHandle s pid made
  obtain ⟨processes, oid, objects, done⟩ := allocWaitHandle_eq s pid made
  rw [done] at keeps ⊢
  exact .of_same (fun _ => rfl) rfl rfl rfl keeps rfl rfl

theorem Steady.refl (s : State) : Steady s s :=
  .of_same (fun _ => rfl) rfl rfl rfl (Keeps.refl s) rfl rfl

theorem steady_pipeListen : Steady s (pipeListen s req made).2 := by
  unfold pipeListen
  split
  · exact Steady.refl s
  · dsimp only
    split
    · exact steady_startListen _
    · split
      · exact (steady_allocWaitHandle s _ made).trans (steady_startListen _)
      · exact steady_allocWaitHandle s _ made

variable {handle : UInt32}

theorem steady_pipeDisconnect : Steady s (pipeDisconnect s clientFd handle).2 := by
  unfold pipeDisconnect
  dsimp only
  split
  · exact Steady.refl s
  · next name found =>
    refine .of_tables (fun _ => rfl) rfl rfl rfl (keeps_of_processes rfl) (Nat.le_refl _) fun l => ?_
    exact waiting_update_le s fun i => Nat.le_add_right _ _

theorem steady_pipeWait (vararg : List UInt8)
    : Steady s (pipeWait lower s clientFd vararg made).2 := by
  unfold pipeWait
  split
  · exact Steady.refl s
  · split
    · exact Steady.refl s
    · have wait := steady_allocWaitHandle s (clientPid s clientFd) made
      dsimp only
      split
      · exact wait.trans (.of_same (fun _ => rfl) rfl rfl rfl (keeps_of_processes rfl) rfl rfl)
      · exact wait

theorem steady_resumeThread : Steady s (resumeThread s clientFd handle).1 := by
  unfold resumeThread
  split
  · exact Steady.refl s
  · dsimp only
    split
    · exact .of_same (fun _ => rfl) rfl rfl rfl (keeps_of_processes rfl) rfl rfl
    · split
      · exact .of_same (fun _ => rfl) rfl rfl rfl (keeps_of_processes rfl) rfl rfl
      · refine .of_same (fun fd => ?_) rfl rfl rfl (keeps_of_processes rfl) rfl rfl
        simp only [clientPid, Table.get?_modify]
        split
        · next same => subst same; simp [Option.map_map, Function.comp_def]
        · rfl

end Triskelion.Select
