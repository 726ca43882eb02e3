import Triskelion.PipeStreams
import Triskelion.ReadLedger
import Triskelion.RunRules

/-! The tables of `handle_read`, `check_pending_pipe_reads` and `get_async_result` as a
ledger of reads. Where no read is made while another one waits on the same pipe, and none
by a client that has one outstanding, the ledger stays fair: reads are kept, finished in
order and answered to who made them. Two reads on one pipe are finished from the last to
the first, and the first of them may be dropped. -/

namespace Triskelion.PipeIo

open Ledger RunRules List Table PipeIo Sockets DescriptorTables

/-! ### The ledger of a state -/

section
variable (s : State) (reads : List AsyncPipeRead)

/-- `reads` are the watched reads; while a pass is under way it has more of them than the
list of the state. -/
def Waits (t : Ticket) (e : Nat) (w : Bool) : Prop :=
  if w then ∃ r ∈ reads, r.ticket = t ∧ socketOf s r.pipeFd = some e
  else ∃ p, s.pendingReads.get? t.owner = some p ∧ p.watched = false ∧ p.ticket = t ∧
    socketOf s p.fd = some e

def ledger (notes : List Note) : Ledger where
  waits := Waits s reads
  ready := s.completedPipeReads.map fun c => (c.ticket, c.data)
  notes
  next := s.nextRead

end

structure Tidy (s : State) (reads : List AsyncPipeRead) (notes : List Note) : Prop where
  fair : (ledger s reads notes).Fair
  nodup : (reads.map fun r => r.ticket.id).Nodup
  marked : ∀ r ∈ reads, r.pid = r.ticket.pid ∧ r.clientFd = r.ticket.client
  connected : ∀ r ∈ reads, (s.sockets.endOf r.pipeFd).isSome
  completed : ∀ c ∈ s.completedPipeReads, c.pid = c.ticket.pid ∧ c.clientFd = c.ticket.client
  keyed : ∀ key p, s.pendingReads.get? key = some p →
    p.ticket.owner = key ∧ (s.sockets.endOf p.fd).isSome
  own : ∀ r ∈ reads, ∀ p, s.pendingReads.get? r.ticket.owner = some p → p.fd = r.pipeFd

def Quiet (s : State) (reads : List AsyncPipeRead) : Prop :=
  ∀ r ∈ reads, ∀ e ep, s.sockets.endOf r.pipeFd = some (e, ep) → ep.incoming = []

variable {s : State} {reads : List AsyncPipeRead} {notes : List Note}

theorem socketOf_eq {fd : Int} {e : Nat} {ep : Endpoint}
    (here : s.sockets.endOf fd = some (e, ep)) : socketOf s fd = some e := by
  obtain ⟨i, at_fd, found⟩ := Option.bind_eq_some_iff.mp here
  obtain ⟨_, -, same⟩ := Option.map_eq_some_iff.mp found
  cases same
  exact at_fd

theorem socketOf_isSome {fd : Int} (here : (s.sockets.endOf fd).isSome) :
    ∃ e, socketOf s fd = some e := by
  obtain ⟨⟨e, ep⟩, found⟩ := Option.isSome_iff_exists.mp here
  exact ⟨e, socketOf_eq found⟩

variable {w : Bool}

theorem waits_iff {s' : State} (pending : s'.pendingReads = s.pendingReads)
    (fds : s'.sockets.ofFd = s.sockets.ofFd) {t : Ticket} {e : Nat} :
    Waits s' reads t e w ↔ Waits s reads t e w := by
  simp only [Waits, socketOf, pending, fds]

variable {r : AsyncPipeRead} {p : PendingRead} {made : Bool} {clientFd : Int} {user : UInt64}

section
variable (tidy : Tidy s reads notes)
include tidy

theorem Tidy.waits (mem : r ∈ reads) :
    ∃ e, socketOf s r.pipeFd = some e ∧ Waits s reads r.ticket e true := by
  obtain ⟨e, at_r⟩ := socketOf_isSome (tidy.connected r mem)
  exact ⟨e, at_r, r, mem, rfl, at_r⟩

theorem Tidy.perm {reads' : List AsyncPipeRead}
    (same : reads.Perm reads') : Tidy s reads' notes where
  __ := tidy
  fair := by
    refine tidy.fair.of_same (fun t e w => ?_) rfl rfl rfl
    simp only [Waits, ledger, same.mem_iff]
  nodup := (same.map _).nodup_iff.mp tidy.nodup
  marked := fun r mem => tidy.marked r (same.mem_iff.mpr mem)
  connected := fun r mem => tidy.connected r (same.mem_iff.mpr mem)
  own := fun r mem => tidy.own r (same.mem_iff.mpr mem)

theorem Tidy.apart {x : AsyncPipeRead} (at_r : r ∈ reads)
    (at_x : x ∈ reads) (other : r.ticket.id ≠ x.ticket.id) :
    socketOf s x.pipeFd ≠ socketOf s r.pipeFd := by
  intro same
  obtain ⟨e, socket, waits⟩ := tidy.waits at_r
  have both : Waits s reads x.ticket e true := ⟨x, at_x, rfl, same.trans socket⟩
  exact other (congrArg Ticket.id (tidy.fair.sockets _ _ e true true waits both))

end

/-! ### The pass -/

theorem finishRead_done (ready : s.sockets.poll r.pipeFd) : ∃ data, finishRead s r =
      ({ signalPipeWait { s with sockets := (s.sockets.recv r.pipeFd r.maxBytes).2 } r.pid
          r.waitHandle with
          completedPipeReads := s.completedPipeReads ++ [⟨r.clientFd, data, r.pid, r.ticket⟩] },
        [.finished r.ticket (socketOf s r.pipeFd) data]) := by
  rcases recv_of_poll ready r.maxBytes with ⟨bytes, got⟩ | got
  all_goals
    simp only [finishRead, got]
    simp [socketOf, signalPipeWait]

theorem waits_without (tidy : Tidy s (r :: reads) notes) (t : Ticket) (e : Nat) :
    Waits s reads t e w ↔ Waits s (r :: reads) t e w ∧ t ≠ r.ticket := by
  obtain ⟨i, socket, waits⟩ := tidy.waits mem_cons_self
  cases w with
  | true =>
    constructor
    · rintro ⟨x, mem, rfl, at_x⟩
      refine ⟨⟨x, mem_cons_of_mem _ mem, rfl, at_x⟩, fun same => ?_⟩
      exact (nodup_cons.mp tidy.nodup).1 (mem_map.mpr ⟨x, mem, congrArg Ticket.id same⟩)
    · rintro ⟨⟨x, mem, rfl, at_x⟩, other⟩
      rcases mem_cons.mp mem with rfl | later
      · exact absurd rfl other
      · exact ⟨x, later, rfl, at_x⟩
  | false =>
    refine ⟨fun unwatched => ⟨unwatched, ?_⟩, And.left⟩
    rintro rfl
    have both := tidy.fair.once_waiting r.ticket e i false true unwatched waits
    cases both.2

theorem Tidy.finishRead (tidy : Tidy s (r :: reads) notes) (ready : s.sockets.poll r.pipeFd) :
    Tidy (finishRead s r).1 reads (notes ++ (finishRead s r).2) ∧
      (∀ x ∈ reads, (finishRead s r).1.sockets.endOf x.pipeFd = s.sockets.endOf x.pipeFd) ∧
      (finishRead s r).1.pendingPipeReads = s.pendingPipeReads ∧
      (finishRead s r).1.stalled = s.stalled := by
  obtain ⟨data, done⟩ := finishRead_done ready
  obtain ⟨fresh, nodup⟩ := nodup_cons.mp tidy.nodup
  have other : ∀ x ∈ reads, r.ticket.id ≠ x.ticket.id := fun x mem same =>
    fresh (mem_map.mpr ⟨x, mem, same.symm⟩)
  have frame : ∀ x ∈ reads,
      (s.sockets.recv r.pipeFd r.maxBytes).2.endOf x.pipeFd = s.sockets.endOf x.pipeFd :=
    fun x mem => endOf_recv_ne
      (tidy.apart mem_cons_self (mem_cons_of_mem _ mem) (other x mem))
  obtain ⟨e, socket, waits⟩ := tidy.waits mem_cons_self
  rw [done]
  refine ⟨⟨?_, nodup, ?_, ?_, ?_, ?_, ?_⟩, frame, rfl, rfl⟩
  · refine (tidy.fair.finish (e := e) (w := true) waits data).of_same (fun t i w => ?_) ?_ ?_ rfl
    · refine Iff.trans (waits_iff (s := s) ?_ ?_) (waits_without tidy t i)
      · rfl
      · exact recv_ofFd
    · simp [ledger, finish]
    · simp [ledger, finish, socket]
  · exact fun x mem => tidy.marked x (mem_cons_of_mem _ mem)
  · intro x mem
    simp only [signalPipeWait, frame x mem]
    exact tidy.connected x (mem_cons_of_mem _ mem)
  · simp only [mem_append, mem_singleton]
    rintro c (old | rfl)
    · exact tidy.completed c old
    · exact tidy.marked r mem_cons_self
  · intro key p found
    simp only [signalPipeWait, endOf_recv_isSome]
    exact tidy.keyed key p found
  · exact fun x mem => tidy.own x (mem_cons_of_mem _ mem)

theorem Tidy.finishReads {left ready : List AsyncPipeRead} (tidy : Tidy s (ready ++ left) notes)
    (polled : ∀ r ∈ ready, s.sockets.poll r.pipeFd) :
    Tidy (PipeIo.finishReads s ready).1 left (notes ++ (PipeIo.finishReads s ready).2) ∧
      (∀ x ∈ left,
        (PipeIo.finishReads s ready).1.sockets.endOf x.pipeFd = s.sockets.endOf x.pipeFd) ∧
      (PipeIo.finishReads s ready).1.pendingPipeReads = s.pendingPipeReads ∧
      (PipeIo.finishReads s ready).1.stalled = s.stalled := by
  induction ready generalizing s notes with
  | nil => simpa [PipeIo.finishReads] using tidy
  | cons r rest ih =>
    obtain ⟨after, frame, kept, stalled⟩ := tidy.finishRead (polled r mem_cons_self)
    have still : ∀ x ∈ rest, (PipeIo.finishRead s r).1.sockets.poll x.pipeFd := by
      intro x mem
      rw [poll, frame x (mem_append_left _ mem)]
      exact polled x (mem_cons_of_mem _ mem)
    obtain ⟨tidy', frame', kept', stalled'⟩ := ih after still
    refine ⟨?_, fun x mem => ?_, kept'.trans kept, stalled'.trans stalled⟩
    · simpa [PipeIo.finishReads] using tidy'
    · exact (frame' x mem).trans (frame x (mem_append_right _ mem))

theorem Tidy.check (tidy : Tidy s s.pendingPipeReads notes) :
    Tidy (checkPendingPipeReads s).1 (checkPendingPipeReads s).1.pendingPipeReads
        (notes ++ (checkPendingPipeReads s).2) ∧
      Quiet (checkPendingPipeReads s).1 (checkPendingPipeReads s).1.pendingPipeReads ∧
      (checkPendingPipeReads s).1.stalled = s.stalled := by
  have split : (((s.pendingPipeReads.filter fun r => s.sockets.poll r.pipeFd).reverse) ++
      s.pendingPipeReads.filter fun r => !s.sockets.poll r.pipeFd).Perm s.pendingPipeReads :=
    ((reverse_perm _).append_right _).trans (filter_append_perm _ _)
  have start : Tidy { s with
      pendingPipeReads := s.pendingPipeReads.filter fun r => !s.sockets.poll r.pipeFd } _ notes :=
    { tidy with }
  obtain ⟨after, frame, kept, stalled⟩ := (start.perm split.symm).finishReads (by simp)
  simp only [checkPendingPipeReads, kept]
  refine ⟨after, fun x mem e ep here => ?_, stalled⟩
  rw [frame x mem] at here
  have idle : s.sockets.poll x.pipeFd = false := by simpa using (mem_filter.mp mem).2
  simp only [poll, here, Option.any_some, decide_eq_false_iff_not, not_or, not_not] at idle
  exact idle.1

theorem Tidy.waited (tidy : Tidy s reads notes) (processes : Table UInt32 HandleTable)
    (nextObjectId : UInt64) (ioWaitHandles : Table (UInt32 × UInt32) UInt32)
    (events : Table (UInt32 × UInt32) Bool) :
    Tidy { s with processes, nextObjectId, ioWaitHandles, events } reads notes :=
  { tidy with }

/-! ### Careful use -/

section
variable (s : State)

def unwatched : List PendingRead :=
  (s.pendingReads.entries.map Prod.snd).filter fun p => !p.watched

def waitingFds : List Int :=
  s.pendingPipeReads.map AsyncPipeRead.pipeFd ++ (unwatched s).map PendingRead.fd

def outstanding : List Ticket :=
  s.pendingPipeReads.map AsyncPipeRead.ticket ++ (unwatched s).map PendingRead.ticket ++
    s.completedPipeReads.map CompletedPipeRead.ticket

/-- A read is made on a pipe on which none waits, by a client that has none outstanding
and under an argument that none goes by. A result is asked for by the client that made the
read, or where there is nothing to be taken. Reads and writes go to pipe handles. -/
def careful : Event → Bool
  | .read req _ =>
    (entryFd s (clientPid s req.clientFd) req.handle).all fun at_ =>
      isStream at_.2 &&
        (outstanding s).all (fun t =>
          t.client ≠ req.clientFd && t.owner ≠ (clientPid s req.clientFd, req.user)) &&
        (waitingFds s).all fun fd => socketOf s fd ≠ socketOf s at_.1
  | .write req _ _ =>
    (entryFd s (clientPid s req.clientFd) req.handle).all fun at_ =>
      isStream at_.2
  | .getAsyncResult clientFd user =>
    (outstanding s).any (fun t => t.client = clientFd ∧ t.owner = (clientPid s clientFd, user)) ||
      (s.completedIoctls.get? (clientPid s clientFd, user)).isSome ||
      ((s.completedPipeReads.find? fun c => c.pid = clientPid s clientFd ∧ c.clientFd = clientFd).isNone
        && (s.pendingReads.get? (clientPid s clientFd, user)).isNone)
  | .tick | .hangUp _ => true

end

theorem mem_unwatched :
    p ∈ unwatched s ↔ p.watched = false ∧ ∃ key, s.pendingReads.get? key = some p := by
  simp only [unwatched, mem_filter, mem_map, Bool.not_eq_eq_eq_not, Bool.not_true]
  constructor
  · rintro ⟨⟨e, mem, rfl⟩, free⟩
    exact ⟨free, e.1, (mem_entries _ _ _).mp mem⟩
  · rintro ⟨free, key, found⟩
    exact ⟨⟨(key, p), (mem_entries _ _ _).mpr found, rfl⟩, free⟩

theorem Tidy.outstanding_iff (tidy : Tidy s s.pendingPipeReads notes) (t : Ticket) :
    (ledger s s.pendingPipeReads notes).Outstanding t ↔ t ∈ outstanding s := by
  simp only [outstanding, mem_append, mem_map, Outstanding, ledger, map_map, Function.comp_apply]
  refine or_congr_left ⟨?_, ?_⟩
  · rintro ⟨e, w, waits⟩
    cases w with
    | true =>
      obtain ⟨r, mem, rfl, -⟩ := waits
      exact .inl ⟨r, mem, rfl⟩
    | false =>
      obtain ⟨p, found, free, rfl, -⟩ := waits
      exact .inr ⟨p, mem_unwatched.mpr ⟨free, _, found⟩, rfl⟩
  · rintro (⟨r, mem, rfl⟩ | ⟨p, mem, rfl⟩)
    · obtain ⟨e, -, waits⟩ := tidy.waits mem
      exact ⟨e, true, waits⟩
    · obtain ⟨free, key, found⟩ := mem_unwatched.mp mem
      obtain ⟨rfl, here⟩ := tidy.keyed key p found
      obtain ⟨e, socket⟩ := socketOf_isSome here
      exact ⟨e, false, p, found, free, rfl, socket⟩

theorem not_waits {fd : Int} {e : Nat} (socket : socketOf s fd = some e)
    (free : ∀ x ∈ waitingFds s, socketOf s x ≠ socketOf s fd) (u : Ticket) (w : Bool) :
    ¬ Waits s s.pendingPipeReads u e w := by
  intro waits
  cases w with
  | true =>
    obtain ⟨r, mem, -, at_r⟩ := waits
    have waiting : r.pipeFd ∈ waitingFds s := mem_append_left _ (mem_map_of_mem mem)
    exact free _ waiting (at_r.trans socket.symm)
  | false =>
    obtain ⟨p, found, unseen, -, at_p⟩ := waits
    have waiting : p.fd ∈ waitingFds s :=
      mem_append_right _ (mem_map_of_mem (mem_unwatched.mpr ⟨unseen, _, found⟩))
    exact free _ waiting (at_p.trans socket.symm)

/-! ### One request -/

structure Good (s : State) (notes : List Note) : Prop where
  tidy : Tidy s s.pendingPipeReads notes
  quiet : Quiet s s.pendingPipeReads

theorem Good.waited (good : Good s notes) (processes : Table UInt32 HandleTable)
    (nextObjectId : UInt64) (ioWaitHandles : Table (UInt32 × UInt32) UInt32)
    (events : Table (UInt32 × UInt32) Bool) :
    Good { s with processes, nextObjectId, ioWaitHandles, events } notes :=
  ⟨good.tidy.waited processes nextObjectId ioWaitHandles events, good.quiet⟩

theorem Good.check (tidy : Tidy s s.pendingPipeReads notes) :
    Good (checkPendingPipeReads s).1 (notes ++ (checkPendingPipeReads s).2) :=
  ⟨tidy.check.1, tidy.check.2.1⟩

section Reads

variable {fd : Int} {e : Nat} {t : Ticket}

@[simp] theorem socketOf_receive (max : Nat) (x : Int) :
    socketOf (receive s fd max).2 x = socketOf s x := by
  simp [receive, socketOf]

theorem Good.received (good : Good s notes) (free : ∀ x ∈ waitingFds s, socketOf s x ≠ socketOf s fd)
    (max : Nat) {notes' : List Note}
    (fair : (ledger { s with nextRead := s.nextRead + 1 } s.pendingPipeReads notes').Fair) :
    Good (receive s fd max).2 notes' where
  tidy := by
    have tidy := good.tidy
    refine { tidy with fair := ?_, connected := ?_, keyed := ?_ }
    · refine fair.of_same (fun t i w => waits_iff ?_ ?_) rfl rfl rfl
      · rfl
      · exact recv_ofFd
    · intro r mem
      simpa only [receive, endOf_recv_isSome] using tidy.connected r mem
    · intro key p found
      simpa only [receive, endOf_recv_isSome] using tidy.keyed key p found
  quiet := by
    intro r mem i ep here
    have waiting : r.pipeFd ∈ waitingFds s := mem_append_left _ (mem_map_of_mem mem)
    simp only [receive, endOf_recv_ne (free _ waiting)] at here
    exact good.quiet r mem i ep here

theorem Good.immediate (good : Good s notes) (socket : socketOf s fd = some e)
    (free : ∀ x ∈ waitingFds s, socketOf s x ≠ socketOf s fd) (fresh : t.id = s.nextRead)
    (apart : ∀ u ∈ outstanding s, u.client ≠ t.client ∧ u.owner ≠ t.owner) (max : Nat)
    (d : List UInt8) : Good (receive s fd max).2
      (notes ++ [.finished t (some e) d, .answered t.pid t.user d]) :=
  good.received free max (good.tidy.fair.immediate fresh (not_waits socket free)
    (fun u out => apart u ((good.tidy.outstanding_iff u).mp out)) d)

theorem Good.failed (good : Good s notes)
    (free : ∀ x ∈ waitingFds s, socketOf s x ≠ socketOf s fd) (max : Nat) :
    Good (receive s fd max).2 notes :=
  good.received free max good.tidy.fair.skip

/-- The watched reads once a read with this wait handle was put into the tables. -/
def watch (reads : List AsyncPipeRead) (t : Ticket) (fd : Int) (max : Nat) (wait : UInt32) :
    List AsyncPipeRead :=
  if wait ≠ 0 then reads ++ [⟨fd, max, t.pid, wait, t.client, t⟩] else reads

theorem mem_watch {max : Nat} {wait : UInt32} : r ∈ watch reads t fd max wait ↔
      r ∈ reads ∨ wait ≠ 0 ∧ r = ⟨fd, max, t.pid, wait, t.client, t⟩ := by
  unfold watch
  split <;> simp_all

def keep (s : State) (t : Ticket) (fd : Int) (max : Nat) (wait : UInt32) : State :=
  { s with
    nextRead := s.nextRead + 1
    pendingReads := s.pendingReads.insert t.owner ⟨fd, max, t, wait ≠ 0⟩
    pendingPipeReads := watch s.pendingPipeReads t fd max wait }

theorem Good.waits_keep (good : Good s notes) (socket : socketOf s fd = some e)
    (apart : ∀ u ∈ outstanding s, u.client ≠ t.client ∧ u.owner ≠ t.owner) (max : Nat)
    (wait : UInt32) (u : Ticket) (i : Nat) (w : Bool) :
    Waits (keep s t fd max wait) (keep s t fd max wait).pendingPipeReads u i w ↔
      Waits s s.pendingPipeReads u i w ∨ u = t ∧ i = e ∧ w = decide (wait ≠ 0) := by
  cases w with
  | true =>
    constructor
    · rintro ⟨r, mem, rfl, at_r⟩
      rcases mem_watch.mp mem with old | ⟨watched, rfl⟩
      · exact .inl ⟨r, old, rfl, at_r⟩
      · exact .inr ⟨rfl, Option.some.inj (at_r.symm.trans socket), by simpa using watched⟩
    · rintro (⟨r, mem, rfl, at_r⟩ | ⟨rfl, rfl, watched⟩)
      · exact ⟨r, mem_watch.mpr (.inl mem), rfl, at_r⟩
      · exact ⟨_, mem_watch.mpr (.inr ⟨by simpa using watched, rfl⟩), rfl, socket⟩
  | false =>
    by_cases same : u.owner = t.owner
    · have gone : ¬ Waits s s.pendingPipeReads u i false := fun waits =>
        (apart u ((good.tidy.outstanding_iff u).mp (.inl ⟨i, false, waits⟩))).2 same
      simp only [gone, false_or]
      constructor
      · rintro ⟨p, found, unseen, rfl, at_p⟩
        simp only [keep, get?_insert, same, if_true, Option.some.injEq] at found
        subst found
        exact ⟨rfl, Option.some.inj (at_p.symm.trans socket), unseen.symm⟩
      · rintro ⟨rfl, rfl, unseen⟩
        exact ⟨⟨fd, max, u, wait ≠ 0⟩, by simp [keep, get?_insert], unseen.symm, rfl, socket⟩
    · have other : u ≠ t := fun equal => same (equal ▸ rfl)
      simp [Waits, keep, get?_insert, same, other, socketOf]

theorem Good.keep (good : Good s notes) {ep : Endpoint} (here : s.sockets.endOf fd = some (e, ep))
    (empty : ep.incoming = []) (free : ∀ x ∈ waitingFds s, socketOf s x ≠ socketOf s fd)
    (fresh : t.id = s.nextRead)
    (apart : ∀ u ∈ outstanding s, u.client ≠ t.client ∧ u.owner ≠ t.owner) (max : Nat)
    (wait : UInt32) :
    Good (PipeIo.keep s t fd max wait) (notes ++ [.pended t (some e) (wait ≠ 0)]) where
  tidy := by
    have tidy := good.tidy
    have socket := socketOf_eq here
    have mine : ∀ r ∈ s.pendingPipeReads, r.ticket ∈ outstanding s := fun r mem =>
      mem_append_left _ (mem_append_left _ (mem_map_of_mem mem))
    refine ⟨?_, ?_, ?_, ?_, tidy.completed, ?_, ?_⟩
    · have pended := tidy.fair.pend fresh (not_waits socket free)
        (fun u out => apart u ((tidy.outstanding_iff u).mp out)) (wait ≠ 0)
      exact pended.of_same (good.waits_keep socket apart max wait) rfl rfl rfl
    · have newer : t.id ∉ s.pendingPipeReads.map fun r => r.ticket.id := by
        intro mem
        obtain ⟨r, at_r, same⟩ := mem_map.mp mem
        obtain ⟨i, -, waits⟩ := tidy.waits at_r
        have : r.ticket.id < s.nextRead := tidy.fair.below r.ticket i true waits
        omega
      simp only [PipeIo.keep, watch]
      split
      · rw [map_append, nodup_append_comm]
        exact nodup_cons.mpr ⟨newer, tidy.nodup⟩
      · exact tidy.nodup
    · intro r mem
      rcases mem_watch.mp mem with old | ⟨-, rfl⟩
      · exact tidy.marked r old
      · exact ⟨rfl, rfl⟩
    · intro r mem
      rcases mem_watch.mp mem with old | ⟨-, rfl⟩
      · exact tidy.connected r old
      · exact Option.isSome_of_eq_some here
    · exact forall_insert tidy.keyed ⟨rfl, Option.isSome_of_eq_some here⟩
    · intro r mem p found
      simp only [PipeIo.keep, get?_insert] at found
      rcases mem_watch.mp mem with old | ⟨-, rfl⟩
      · rw [if_neg (apart _ (mine r old)).2] at found
        exact tidy.own r old p found
      · rw [if_pos rfl] at found
        cases found
        rfl
  quiet := by
    intro r mem i ep' at_r
    rcases mem_watch.mp mem with old | ⟨-, rfl⟩
    · exact good.quiet r old i ep' at_r
    · cases here.symm.trans at_r
      exact empty

theorem Good.handleRead (good : Good s notes) {req : ReadRequest}
    (care : careful s (.read req made)) :
    Good (handleRead s req made).2.1 (notes ++ (handleRead s req made).2.2) := by
  cases found : entryFd s (clientPid s req.clientFd) req.handle with
  | none => simpa [PipeIo.handleRead, found] using good
  | some at_ =>
    obtain ⟨fd, entry⟩ := at_
    simp only [careful, found, Option.all_some, Bool.and_eq_true, all_eq_true, decide_eq_true_eq,
      and_assoc] at care
    obtain ⟨stream, apart, free⟩ := care
    have outcome : (receive s fd (maxSize req.maxReply)).1 =
        (s.sockets.recv fd (maxSize req.maxReply)).1 := rfl
    cases got : (s.sockets.recv fd (maxSize req.maxReply)).1 with
    | data bytes =>
      obtain ⟨e, ep, here, -⟩ := recv_data got
      obtain ⟨p, n, i, ev, waited⟩ := completeIo_eq (receive s fd (maxSize req.maxReply)).2 entry
        (clientPid s req.clientFd) req.handle made
      have socket : socketOf { (receive s fd (maxSize req.maxReply)).2 with
          processes := p, nextObjectId := n, ioWaitHandles := i, events := ev } fd = some e :=
        (socketOf_receive _ fd).trans (socketOf_eq here)
      simp only [PipeIo.handleRead, found, outcome, got, waited, socket]
      exact (good.immediate (socketOf_eq here) free rfl apart _ bytes).waited p n i ev
    | eof =>
      obtain ⟨e, ep, here⟩ : ∃ e ep, s.sockets.endOf fd = some (e, ep) := by
        grind [recv]
      simp only [PipeIo.handleRead, found, outcome, got, socketOf_receive, socketOf_eq here]
      exact good.immediate (socketOf_eq here) free rfl apart _ []
    | wouldBlock =>
      obtain ⟨e, ep, here, empty⟩ := recv_wouldBlock got
      obtain ⟨p, n, i, ev, waited⟩ := getPipeWaitHandle_eq (receive s fd (maxSize req.maxReply)).2
        (clientPid s req.clientFd) req.handle made
      have same : (receive s fd (maxSize req.maxReply)).2 = { s with nextRead := s.nextRead + 1 } := by
        have nothing : ∀ bytes, (s.sockets.recv fd (maxSize req.maxReply)).1 ≠ .data bytes := by
          simp [got]
        simp [receive, recv_same nothing]
      simp only [PipeIo.handleRead, found, outcome, got, keepRead, stream, if_true, waited]
      generalize (getPipeWaitHandle (receive s fd (maxSize req.maxReply)).2 _ _ _).1 = wait
      rw [same]
      have kept := (good.keep (t := ⟨s.nextRead, req.clientFd, clientPid s req.clientFd, req.user⟩) here
        empty free rfl apart (maxSize req.maxReply) wait).waited p n i ev
      have socket : s.sockets.ofFd.get? fd = some e := socketOf_eq here
      by_cases watched : wait = 0
      all_goals simpa [PipeIo.keep, watch, watched, socketOf, socket, Ticket.owner] using kept
    | failed =>
      simp only [PipeIo.handleRead, found, outcome, got, append_nil]
      exact good.failed free _

end Reads

/-- Bytes that arrived may be for reads that are watched: the reads are in order, and the
pass comes next. -/
theorem Good.delivered (good : Good s notes) (p : Nat) (bytes : List UInt8) :
    Tidy { s with sockets := s.sockets.deliver p bytes } s.pendingPipeReads
      (notes ++ [.sent (some p) bytes]) where
  fair := (good.tidy.fair.hear (some p) bytes).of_same (fun _ _ _ => waits_iff rfl rfl) rfl rfl rfl
  nodup := good.tidy.nodup
  marked := good.tidy.marked
  connected := fun r mem => by
    simpa only [endOf_deliver_isSome] using good.tidy.connected r mem
  completed := good.tidy.completed
  keyed := fun key p found => by
    simpa only [endOf_deliver_isSome] using good.tidy.keyed key p found
  own := good.tidy.own

theorem Good.heard (good : Good s notes) (e : Option Nat) (bytes : List UInt8) :
    Good s (notes ++ [.sent e bytes]) :=
  ⟨⟨good.tidy.fair.hear e bytes, good.tidy.nodup, good.tidy.marked, good.tidy.connected,
    good.tidy.completed, good.tidy.keyed, good.tidy.own⟩, good.quiet⟩

theorem Good.handleWrite (good : Good s notes) (rule : SendRule) {req : WriteRequest} {fuel : Nat}
    (care : careful s (.write req made fuel)) {done : WriteReply × State × List Note}
    (returned : handleWrite rule fuel s req made = some done) :
    Good done.2.1 (notes ++ done.2.2) := by
  rcases handleWrite_cases returned with same | same | ⟨fd, entry, p, peer, found, -, t, n, i, ev, same⟩
  · simpa [same] using good
  · rw [same]
    exact good.heard none []
  · have stream : isStream entry := by simpa [careful, found] using care
    have passed := Good.check ((good.delivered p req.data).waited t n i ev)
    simp only [same, stream, if_true]
    simpa using passed

/-! ### Results -/

theorem careful_result (care : careful s (.getAsyncResult clientFd user))
    (no_ioctl : s.completedIoctls.get? (clientPid s clientFd, user) = none)
    (something : (s.completedPipeReads.find? fun c =>
        c.pid = clientPid s clientFd ∧ c.clientFd = clientFd).isSome ∨
      (s.pendingReads.get? (clientPid s clientFd, user)).isSome) :
    ∃ t ∈ outstanding s, t.client = clientFd ∧ t.owner = (clientPid s clientFd, user) := by
  simp only [careful, no_ioctl, Option.isSome_none, Bool.or_false, Bool.or_eq_true, any_eq_true,
    decide_eq_true_eq, Bool.and_eq_true, Option.isNone_iff_eq_none] at care
  rcases care with mine | ⟨none_ready, none_pending⟩
  · exact mine
  · rw [none_ready, none_pending] at something
    simp at something

section
variable (good : Good s notes)
include good

theorem Good.answered {c : CompletedPipeRead} (found : s.completedPipeReads.find? (fun c =>
      c.pid = clientPid s clientFd ∧ c.clientFd = clientFd) = some c)
    {t : Ticket} (mine : t ∈ outstanding s) (client : t.client = clientFd)
    (owner : t.owner = (clientPid s clientFd, user)) :
    Good { s with completedPipeReads := s.completedPipeReads.erase c }
      (notes ++ [.answered (clientPid s clientFd) user c.data]) := by
  have tidy := good.tidy
  have mem := mem_of_find?_eq_some found
  obtain ⟨-, by_client⟩ : c.pid = clientPid s clientFd ∧ c.clientFd = clientFd := by
    simpa using find?_some found
  have same : c.ticket = t := by
    by_contra other
    have out : c.ticket ∈ outstanding s := mem_append_right _ (mem_map_of_mem mem)
    refine (tidy.fair.apart _ _ ((tidy.outstanding_iff _).mpr out)
      ((tidy.outstanding_iff _).mpr mine) other).1 ?_
    rw [client, ← by_client, (tidy.completed c mem).2]
  obtain ⟨pid, user⟩ : t.pid = clientPid s clientFd ∧ t.user = user := by
    simpa [Ticket.owner] using owner
  have split := (perm_cons_erase mem).map fun c => (c.ticket, c.data)
  rw [map_cons, same] at split
  refine ⟨{ tidy with fair := ?_, completed := ?_ }, good.quiet⟩
  · rw [← pid, ← user]
    exact (tidy.fair.answer split).of_same (fun _ _ _ => waits_iff rfl rfl) rfl rfl rfl
  · exact fun c mem => tidy.completed c (mem_of_mem_erase mem)

theorem Good.live {t : Ticket} {e : Nat}
    (waits : Waits s s.pendingPipeReads t e false) (found : s.pendingReads.get? t.owner = some p)
    (bytes : List UInt8) : Good { s with
        sockets := (s.sockets.recv p.fd p.maxBytes).2
        pendingReads := s.pendingReads.erase t.owner }
      (notes ++ [.finished t (some e) bytes, .answered t.pid t.user bytes]) := by
  have tidy := good.tidy
  have not_mine : ∀ r ∈ s.pendingPipeReads, r.ticket ≠ t := by
    rintro r mem rfl
    obtain ⟨i, -, watched⟩ := tidy.waits mem
    cases (tidy.fair.once_waiting r.ticket e i false true waits watched).2
  obtain ⟨p', found', unseen, ticket, socket⟩ := waits
  obtain rfl : p' = p := Option.some.inj (found'.symm.trans found)
  have apart : ∀ r ∈ s.pendingPipeReads, socketOf s r.pipeFd ≠ socketOf s p'.fd := by
    intro r mem same
    have both : Waits s s.pendingPipeReads r.ticket e true := ⟨r, mem, rfl, same.trans socket⟩
    exact not_mine r mem (tidy.fair.sockets _ _ e true false both ⟨p', found, unseen, ticket, socket⟩)
  refine ⟨⟨?_, tidy.nodup, tidy.marked, ?_, tidy.completed, ?_, ?_⟩, ?_⟩
  · have finished := tidy.fair.finish (e := e) (w := false) ⟨p', found, unseen, ticket, socket⟩ bytes
    have answered := finished.answer (perm_append_singleton _ _)
    refine answered.of_same (fun u i w => ?_) rfl (by simp [ledger, answer, finish]) rfl
    have same : ∀ fd, (s.sockets.recv p'.fd p'.maxBytes).2.ofFd.get? fd = socketOf s fd := by
      simp [socketOf]
    cases w with
    | true =>
      simp only [ledger, answer, finish, Waits, if_true, socketOf, same]
      refine ⟨fun waits => ⟨waits, ?_⟩, And.left⟩
      obtain ⟨r, mem, rfl, -⟩ := waits
      exact not_mine r mem
    | false =>
      simp only [ledger, answer, finish, Waits, Bool.false_eq_true, if_false, socketOf,
        same, get?_erase]
      by_cases key : u.owner = t.owner
      · simp only [key, if_true, reduceCtorEq, false_and, exists_false, false_iff, not_and, not_not]
        rintro ⟨q, at_q, -, rfl, -⟩
        rw [found] at at_q
        rw [← Option.some.inj at_q, ticket]
      · have other : u ≠ t := fun equal => key (equal ▸ rfl)
        simp [key, other]
  · intro r mem
    simpa only [endOf_recv_isSome] using tidy.connected r mem
  · intro key q at_q
    simpa only [endOf_recv_isSome] using tidy.keyed key q (of_erase at_q).2
  · exact fun r mem q at_q => tidy.own r mem q (of_erase at_q).2
  · intro r mem i ep here
    simp only [endOf_recv_ne (apart r mem)] at here
    exact good.quiet r mem i ep here

theorem Good.still_waits {t : Ticket} (mine : t ∈ outstanding s)
    (client : t.client = clientFd) (owner : t.owner = (clientPid s clientFd, user))
    (none_ready : (s.completedPipeReads.find? fun c =>
      c.pid = clientPid s clientFd ∧ c.clientFd = clientFd) = none) :
    ∃ e w, Waits s s.pendingPipeReads t e w := by
  rcases (good.tidy.outstanding_iff t).mpr mine with waits | ready
  · exact waits
  · simp only [ledger, map_map, mem_map, Function.comp_apply] at ready
    obtain ⟨c, mem, rfl⟩ := ready
    have mark := good.tidy.completed c mem
    have mismatch := find?_eq_none.mp none_ready c mem
    have pid : c.ticket.pid = clientPid s clientFd := congrArg Prod.fst owner
    simp [mark.1, mark.2, pid, client] at mismatch

/-- Nothing has arrived for a watched read, so what is received is for one that is not. -/
theorem Good.unwatched_of_data {t : Ticket} {e : Nat}
    (waits : Waits s s.pendingPipeReads t e w) (found : s.pendingReads.get? t.owner = some p)
    {bytes : List UInt8} (got : (s.sockets.recv p.fd p.maxBytes).1 = .data bytes) : w = false := by
  cases w with
  | false => rfl
  | true =>
    obtain ⟨r, mem, rfl, -⟩ := waits
    obtain ⟨⟨i, ep⟩, here⟩ := Option.isSome_iff_exists.mp (good.tidy.connected r mem)
    rw [good.tidy.own r mem p found] at got
    exact absurd got (recv_empty here (good.quiet r mem i ep here) _ bytes)

end

theorem ticket_of_waits {t : Ticket} {e : Nat} (waits : Waits s reads t e false)
    (found : s.pendingReads.get? t.owner = some p) : p.ticket = t ∧ socketOf s p.fd = some e := by
  obtain ⟨q, at_q, -, ticket, socket⟩ := waits
  obtain rfl := Option.some.inj (at_q.symm.trans found)
  exact ⟨ticket, socket⟩

theorem Good.getAsyncResult (good : Good s notes)
    (care : careful s (.getAsyncResult clientFd user)) :
    Good (getAsyncResult s clientFd user).2.1 (notes ++ (getAsyncResult s clientFd user).2.2) := by
  have tidy := good.tidy
  cases ioctl : s.completedIoctls.get? (clientPid s clientFd, user) with
  | some =>
    simp only [PipeIo.getAsyncResult, ioctl, append_nil]
    exact ⟨{ tidy with }, good.quiet⟩
  | none =>
    cases ready : s.completedPipeReads.find? fun c =>
        c.pid = clientPid s clientFd ∧ c.clientFd = clientFd with
    | some c =>
      obtain ⟨t, mine, client, owner⟩ := careful_result care ioctl (.inl (by rw [ready]; rfl))
      simp only [PipeIo.getAsyncResult, ioctl, ready]
      exact good.answered ready mine client owner
    | none =>
      cases found : s.pendingReads.get? (clientPid s clientFd, user) with
      | none =>
        simp only [PipeIo.getAsyncResult, ioctl, ready, found, append_nil]
        exact good
      | some p =>
        obtain ⟨t, mine, client, owner⟩ := careful_result care ioctl (.inr (by rw [found]; rfl))
        obtain ⟨e, w, waits⟩ := good.still_waits mine client owner ready
        rw [← owner] at found ioctl
        simp only [PipeIo.getAsyncResult, ioctl, ready, ← owner, found]
        cases got : (s.sockets.recv p.fd p.maxBytes).1 with
        | data bytes =>
          have unseen := good.unwatched_of_data waits found got
          subst unseen
          obtain ⟨rfl, socket⟩ := ticket_of_waits waits found
          obtain ⟨pid, user⟩ : p.ticket.pid = clientPid s clientFd ∧ p.ticket.user = user := by
            simpa [Ticket.owner] using owner
          simp only [socketOf, recv_ofFd, ← pid, ← user]
          rw [show s.sockets.ofFd.get? p.fd = some e from socket]
          exact good.live waits found bytes
        | _ =>
          have nothing : ∀ bytes, (s.sockets.recv p.fd p.maxBytes).1 ≠ .data bytes := by simp [got]
          simp only [recv_same nothing, append_nil]
          exact good

theorem Good.hangUp (good : Good s notes) (e : Nat) :
    Good { s with sockets := s.sockets.hangUp e } notes where
  tidy := by
    have tidy := good.tidy
    refine { tidy with
      connected := ?_
      keyed := ?_ }
    · intro r mem
      simpa only [endOf_hangUp_isSome] using tidy.connected r mem
    · intro key p found
      simpa only [endOf_hangUp_isSome] using tidy.keyed key p found
  quiet := by
    intro r mem i ep here
    obtain ⟨before, there, same⟩ := incoming_hangUp here
    rw [← same]
    exact good.quiet r mem i before there

theorem Good.act (good : Good s notes) (rule : SendRule) (event : Event)
    (care : careful s event) : Good (act rule s event).1 (notes ++ (act rule s event).2) := by
  cases event with
  | read => exact good.handleRead care
  | write req made fuel =>
    cases returned : PipeIo.handleWrite rule fuel s req made with
    | some =>
      simp only [PipeIo.act, returned]
      exact good.handleWrite rule care returned
    | none =>
      have tidy := good.tidy
      simp only [PipeIo.act, returned, append_nil]
      exact ⟨{ tidy with }, good.quiet⟩
  | getAsyncResult => exact good.getAsyncResult care
  | tick => exact Good.check good.tidy
  | hangUp e => simpa [PipeIo.act] using good.hangUp e

/-! ### Whole runs -/

def Registered (s : State) (t : Ticket) (watched : Bool) : Prop :=
  if watched then ∃ r ∈ s.pendingPipeReads, r.ticket = t
  else ∃ p, s.pendingReads.get? t.owner = some p ∧ p.ticket = t

/-- `start` are the sockets before the first request. -/
structure Sound (start : Sockets) (o : Observed) : Prop where
  registered : ∀ t e w, .pended t e w ∈ o.notes → t ∈ finishedOn e o.notes ∨ Registered o.state t w
  in_order : ∀ e, (finishedOn e o.notes).Pairwise fun t u => t.id < u.id
  first_come : ∀ t e w, .pended t e w ∈ o.notes → t ∉ finishedOn e o.notes →
    ∀ u ∈ finishedOn e o.notes, u.id < t.id
  stream : Flow start o.state.sockets o.notes
  finished_once : ((finished o.notes).map fun c => c.1.id).Nodup
  delivered : ((finished o.notes).map named).Perm
    (answered o.notes ++ o.state.completedPipeReads.map fun c => (c.ticket.owner, c.data))

theorem registered_of_waits {t : Ticket} {e : Nat}
    (waits : Waits s s.pendingPipeReads t e w) : Registered s t w := by
  cases w with
  | true =>
    obtain ⟨r, mem, ticket, -⟩ := waits
    exact ⟨r, mem, ticket⟩
  | false =>
    obtain ⟨p, found, -, ticket, -⟩ := waits
    exact ⟨p, found, ticket⟩

variable {start : Sockets}

theorem Good.sound (good : Good s notes) (stream : Flow start s.sockets notes) :
    Sound start ⟨s, notes⟩ where
  registered t e w mem := by
    refine (good.tidy.fair.pended t e w mem).imp_right ?_
    rintro ⟨i, -, waits⟩
    exact registered_of_waits waits
  in_order := good.tidy.fair.in_order
  first_come t e w mem open_ := by
    rcases good.tidy.fair.pended t e w mem with done | ⟨i, rfl, waits⟩
    · exact absurd done open_
    · exact good.tidy.fair.overtakes t i w waits
  stream := stream
  finished_once := good.tidy.fair.once
  delivered := by
    have delivered := good.tidy.fair.delivered
    rwa [ledger, map_map] at delivered

/-- No read has been made that is not answered yet. -/
structure Idle (s : State) : Prop where
  pendingReads : s.pendingReads = .empty
  pendingPipeReads : s.pendingPipeReads = []
  completedPipeReads : s.completedPipeReads = []

theorem Idle.good (idle : Idle s) : Good s [] where
  tidy := by
    refine ⟨?_, ?_, ?_, ?_, ?_, ?_, ?_⟩
    · refine (fair_empty s.nextRead).of_same (fun t e w => ?_) ?_ rfl rfl
      · cases w <;> simp [ledger, Waits, idle.pendingReads, idle.pendingPipeReads, Ledger.empty]
      · simp [ledger, idle.completedPipeReads, Ledger.empty]
    all_goals simp [idle.pendingReads, idle.pendingPipeReads, idle.completedPipeReads]
  quiet := by simp [Quiet, idle.pendingPipeReads]

structure GoodSoFar (start : Sockets) (o : Observed) : Prop where
  good : Good o.state o.notes
  stream : Flow start o.state.sockets o.notes

theorem goodSoFar_step (rule : SendRule) (o : Observed) (event : Event)
    (so_far : GoodSoFar start o) (care : careful o.state event) :
    GoodSoFar start (step rule o event) := by
  unfold step
  split
  · exact so_far
  · exact ⟨so_far.good.act rule event care, so_far.stream.trans (flow_act rule o.state event)⟩

theorem reads_sound_of_careful (rule : SendRule) (start : State) (idle : Idle start)
    (events : List Event)
    (care : AllSteps (step rule) (fun o event => careful o.state event) ⟨start, []⟩ events) :
    Sound start.sockets (run (step rule) ⟨start, []⟩ events) := by
  have so_far := good_run (goodSoFar_step rule) ⟨idle.good, Flow.refl⟩ care
  exact so_far.good.sound so_far.stream

def twoClients : State := { narrowPipe with
  clients := (Table.empty.insert 7 32).insert 8 32
  sockets := { narrowPipe.sockets with
    ends := (Table.empty.insert 0 ⟨[], 16, 1, false⟩).insert 1 ⟨[], 16, 0, false⟩ } }

theorem reads_sound_one_read : Sound twoClients.sockets (run (step .greedy) ⟨twoClients, []⟩
      [.read ⟨8, 8, 100, 4⟩ true, .write ⟨7, 4, [1, 2, 3]⟩ true 3, .getAsyncResult 8 100]) :=
  reads_sound_of_careful _ _ ⟨rfl, rfl, rfl⟩ _ (by decide +kernel)

/-- Of two reads on one pipe the one byte goes to the second, and nothing is left of the
first. -/
theorem first_read_lost : ¬ Sound twoClients.sockets (run (step .greedy) ⟨twoClients, []⟩
      [.read ⟨7, 8, 100, 4⟩ true, .read ⟨8, 8, 200, 4⟩ true, .write ⟨7, 4, [1]⟩ true 1]) := by
  intro sound
  have kept := sound.registered ⟨0, 7, 32, 100⟩ (some 1) true (by decide +kernel)
  revert kept
  simp only [Registered, if_true]
  decide +kernel

end Triskelion.PipeIo
