import Triskelion.OwnedHandles

/-! Pipes, reads and writes, `close_handle` and the teardown of a process: under which
condition on the tables every descriptor still has its one owner afterwards. -/

namespace Triskelion.DescriptorTables

open DescriptorCounts List Table Option DescriptorTables NamedPipeInfo

variable {s : DescriptorTables} {pid : UInt32} {hand : List Int}

/-! ### Pipes -/

def NextUnpiped (s : DescriptorTables) (pid : UInt32) : Prop :=
  s.sideTables.pipeHandles.get? (pid, s.nextHandle pid) = none

variable {fd : Int} {fds : Option (Int × Int)} {name : String} {handle : UInt32} {evt : Option Int}
  {outcome : IoOutcome}

theorem Owned.allocPipe (own : Owned s pid (fd :: hand)) (unheld : held s.processes pid fd = 0)
    (unpiped : NextUnpiped s pid) (objType access options : UInt32) :
    let made := s.allocHandle pid fd objType access options
    Owned (made.2.trackPipe pid made.1 fd) pid hand := by
  refine (own.allocHandle objType access options fun _ => ⟨unheld, mem_cons_self⟩).trackPipe ?_
  rw [allocHandle_fst]
  unfold DescriptorTables.allocHandle
  rw [allocEntry_sideTables]
  exact unpiped

theorem contains_allocHandle (objType access options : UInt32) :
    (s.allocHandle pid fd objType access options).2.processes.contains pid =
      s.processes.contains pid := by
  unfold allocHandle allocEntry
  split
  · next t found =>
    simp [Table.contains, get?_insert, found]
  · rfl

theorem Owned.createNamedPipe (own : Owned s pid []) (ready : Ready s (pairList fds))
    (unpiped : NextUnpiped s pid) (known : name = "" → s.processes.contains pid) :
    Owned (s.createNamedPipe pid name fds) pid [] := by
  cases fds with
  | none => exact own
  | some pair =>
    obtain ⟨server, client⟩ := pair
    have apart : server ≠ client := by
      have nodup : [server, client].Nodup := ready.1
      simpa using nodup
    obtain ⟨opened, ready, -, unheld⟩ := own.opens ready
    obtain ⟨opened, -, -, unheld'⟩ := opened.opens ready
    simp only [createNamedPipe]
    have unheld : held ((s.openFd pid server).openFd pid client).processes pid server = 0 :=
      unheld pid
    have unpiped : NextUnpiped ((s.openFd pid server).openFd pid client) pid := unpiped
    have known : name = "" →
      ((s.openFd pid server).openFd pid client).processes.contains pid := known
    generalize (s.openFd pid server).openFd pid client = t at opened unheld unheld' unpiped known ⊢
    have swapped : Owned t pid [server, client] := by
      refine opened.rehand fun x _ => ?_
      simp only [count_cons, count_nil]
      omega
    have tracked := swapped.allocPipe unheld unpiped fdTypeDevice 0x001F01FF 0x20
    split
    · exact tracked.addInstance name _ .listening
    · next unnamed =>
      have known := known (not_not.mp unnamed)
      rw [← contains_allocHandle fdTypeDevice 0x001F01FF 0x20] at known
      have free : held (t.allocHandle pid server fdTypeDevice 0x001F01FF 0x20).2.processes pid
          client = 0 := by
        rw [held_allocHandle, unheld' pid, if_neg fun both => apart both.2.2]
      refine (tracked.allocHandle _ _ _ fun _ => ⟨free, mem_singleton_self client⟩).unhand
        fun _ => ?_
      rw [held_allocHandle, if_pos ⟨rfl, known, rfl⟩]
      exact Nat.succ_pos _

variable {info : NamedPipeInfo}

theorem ends_pos {pipes : Table String (List NamedPipeInfo)} {instances : List NamedPipeInfo}
    (found : pipes.get? name = some instances) (mem : info ∈ instances) :
    0 < ends pipes info.serverPid info.clientDataFd := by
  have some_ : 0 < instances.countP fun i =>
      i.serverPid = info.serverPid ∧ i.clientDataFd = info.clientDataFd :=
    countP_pos_iff.mpr ⟨info, mem, by simp⟩
  exact Nat.lt_of_lt_of_le some_ (pipes.le_weigh (fun _ l => l.countP fun i : NamedPipeInfo =>
    i.serverPid = info.serverPid ∧ i.clientDataFd = info.clientDataFd) found)

theorem Owned.updateInstance (own : Owned s pid hand) (name : String) (q : NamedPipeInfo → Bool)
    (f : NamedPipeInfo → NamedPipeInfo)
    (same : ∀ instances, s.namedPipes.get? name = some instances → ∀ i ∈ instances.find? q,
      (f i).serverPid = i.serverPid ∧ (f i).clientDataFd = i.clientDataFd) :
    Owned { s with namedPipes := s.namedPipes.modify name (updateFirst q f) } pid hand := by
  refine own.moved rfl rfl rfl rfl rfl rfl rfl fun p x => ?_
  have sum := s.namedPipes.weigh_modify (fun _ l => l.countP fun info : NamedPipeInfo =>
    info.serverPid = p ∧ info.clientDataFd = x) name (updateFirst q f)
  have equal : ends (s.namedPipes.modify name (updateFirst q f)) p x = ends s.namedPipes p x := by
    unfold ends
    cases found : s.namedPipes.get? name with
    | none => simpa [found] using sum
    | some instances =>
      have count := countP_updateFirst q f (q := fun info =>
        decide (info.serverPid = p ∧ info.clientDataFd = x)) (l := instances) fun i mem => by
          rw [(same instances found i mem).1, (same instances found i mem).2]
      simp only [found, map_some, getD_some, Function.comp_apply, count] at sum
      omega
  change _ + _ + ends (s.namedPipes.modify name (updateFirst q f)) p x + _ + _ = _
  rw [equal]
  rfl

theorem Owned.tryConnectNamedPipe (own : Owned s pid []) {access options : UInt32} {fd : Option Int}
    (ready : Ready s fd.toList)
    (known : (s.findListening name).isSome → s.processes.contains pid)
    (unpiped : NextUnpiped s pid) :
    Owned (s.tryConnectNamedPipe pid name access options fd) pid [] := by
  unfold DescriptorTables.tryConnectNamedPipe
  split
  · exact own
  · next info found =>
    rw [found] at known
    obtain ⟨instances, at_name, first⟩ := bind_eq_some_iff.mp found
    have owned : 0 < owners s info.serverPid info.clientDataFd := by
      have some_ := ends_pos at_name (mem_of_find?_eq_some first)
      unfold owners
      omega
    rw [useFd_eq fun nonneg => own.opened nonneg (Nat.add_pos_right _ owned)]
    cases fd with
    | none => exact own
    | some =>
      obtain ⟨opened, -, -, unheld⟩ := own.opens ready
      have connected := opened.updateInstance name isListening
        (fun i => { i with state := .connected }) fun _ _ _ _ => ⟨rfl, rfl⟩
      simp only [known rfl, if_true]
      exact connected.allocPipe (unheld pid) unpiped _ _ _

variable {p : UInt32}

theorem findInstance_some (found : s.findInstance p handle = some (name, info)) :
    ∃ instances, s.namedPipes.get? name = some instances ∧
      instances.find? (isServer p handle) = some info := by
  obtain ⟨e, mem, first⟩ := exists_of_findSome?_eq_some found
  obtain ⟨i, first, same⟩ := map_eq_some_iff.mp first
  cases same
  exact ⟨e.2, (mem_entries _ _ _).mp mem, first⟩

theorem Owned.relisten (own : Owned s pid hand) {renew : NamedPipeInfo → Bool}
    (keep : ∀ found ∈ s.findInstance p handle, renew found.2 → fds = none) :
    Owned (s.relisten p handle renew fds) pid hand := by
  unfold DescriptorTables.relisten
  split
  · exact own
  · next name info found =>
    have kept : (if renew info then s.resetSockets p handle info fds
        else (s, info.clientDataFd)) = (s, info.clientDataFd) := by
      split
      · next yes => rw [keep _ found yes, resetSockets]
      · rfl
    simp only [kept]
    refine own.updateInstance _ _ _ fun instances at_name i mem => ⟨rfl, ?_⟩
    obtain ⟨_, here, first⟩ := findInstance_some found
    cases at_name.symm.trans here
    rw [first, mem_some_iff] at mem
    rw [mem]

theorem allocEventHandle_namedPipes (exposed : Bool)
    : (s.allocEventHandle pid exposed evt).2.namedPipes = s.namedPipes := by
  cases evt with
  | none => rfl
  | some fd =>
    simp only [allocEventHandle]
    generalize (if exposed then fd else -1) = y
    split <;> exact allocEntry_namedPipes _ _ _

theorem Owned.pipeListen (own : Owned s pid []) {overlapped : Bool} (ready : Ready s evt.toList)
    (vacant : NextVacant s pid)
    (keep : ∀ found ∈ s.findInstance pid handle, found.2.isConnected → fds = none) :
    Owned (s.pipeListen pid handle overlapped evt fds) pid [] := by
  unfold DescriptorTables.pipeListen
  split
  · exact own
  · split
    · exact own.relisten keep
    · have made : Owned (s.allocEventHandle pid false evt).2 pid [] :=
        own.allocEventHandle ready vacant nofun
      simp only
      split
      · refine made.relisten ?_
        rw [findInstance, allocEventHandle_namedPipes]
        exact keep
      · exact made

theorem Owned.pipeWait (own : Owned s pid []) (ready : Ready s evt.toList)
    (vacant : NextVacant s pid) : Owned (s.pipeWait pid name evt) pid [] := by
  unfold DescriptorTables.pipeWait
  split
  · exact own
  · exact own.allocEventHandle ready vacant nofun

/-! ### Reads and writes -/

theorem allocHandle_reads (s : DescriptorTables) (pid : UInt32) (fd : Int)
    (objType access options : UInt32) (reads : List AsyncPipeRead) :
    allocHandle { s with pendingPipeReads := reads } pid fd objType access options =
      ((s.allocHandle pid fd objType access options).1,
        { (s.allocHandle pid fd objType access options).2 with pendingPipeReads := reads }) := by
  cases found : s.processes.get? pid <;> simp [allocHandle, allocEntry, found]

theorem allocEventHandle_reads (reads : List AsyncPipeRead) :
    allocEventHandle { s with pendingPipeReads := reads } pid false evt =
      ((s.allocEventHandle pid false evt).1,
        { (s.allocEventHandle pid false evt).2 with pendingPipeReads := reads }) := by
  cases evt with
  | none => rfl
  | some fd =>
    have made := allocHandle_reads (s.openFd pid fd) pid (-1) fdTypeFile 0x001F0003 0x20 reads
    simp only [allocEventHandle, Bool.false_eq_true, if_false]
    rw [show openFd { s with pendingPipeReads := reads } pid fd =
      { s.openFd pid fd with pendingPipeReads := reads } from rfl, made]
    split <;> rfl

section
variable (s : DescriptorTables) (pid handle : UInt32) (evt : Option Int)

theorem getPipeWaitHandle_reads (reads : List AsyncPipeRead) :
    getPipeWaitHandle { s with pendingPipeReads := reads } pid handle evt =
      ((s.getPipeWaitHandle pid handle evt).1,
        { (s.getPipeWaitHandle pid handle evt).2 with pendingPipeReads := reads }) := by
  simp only [getPipeWaitHandle, allocEventHandle_reads]
  cases s.sideTables.ioWaitHandles.get? (pid, handle) with
  | some => rfl
  | none => simp only; split <;> rfl

theorem getPipeWaitHandle_kept :
    (s.getPipeWaitHandle pid handle evt).2.pendingPipeReads = s.pendingPipeReads := by
  have same := getPipeWaitHandle_reads s pid handle evt s.pendingPipeReads
  exact congrArg (fun made => made.2.pendingPipeReads) same

end

section
variable (own : Owned s pid [])
include own

theorem Owned.getPipeWaitHandle (handle : UInt32)
    (ready : Ready s evt.toList) (vacant : NextVacant s pid) :
    Owned (s.getPipeWaitHandle pid handle evt).2 pid [] := by
  unfold DescriptorTables.getPipeWaitHandle
  split
  · exact own
  · have made : Owned (s.allocEventHandle pid false evt).2 pid [] :=
      own.allocEventHandle ready vacant nofun
    simp only
    split
    · exact made.moved rfl rfl rfl rfl rfl rfl rfl fun _ _ => rfl
    · exact made

theorem Owned.completeIo (ready : Ready s evt.toList)
    (vacant : NextVacant s pid) : Owned (s.completeIo pid handle evt) pid [] := by
  have made := own.getPipeWaitHandle handle ready vacant
  simp only [DescriptorTables.completeIo]
  split
  · rwa [made.signal_eq]
  · exact made

theorem Owned.pushRead (held_ : 0 < held s.processes pid fd)
    (unowned : 0 ≤ fd → owners s pid fd = 0) (wait : UInt32) :
    Owned { s with pendingPipeReads := s.pendingPipeReads ++ [⟨fd, pid, wait⟩] } pid [] := by
  refine { own with single := fun p x nonneg => ?_, waits := fun r mem nonneg => ?_ }
  · have one := own.single p x nonneg
    change Single _ _ (piped s.sideTables.pipeHandles p x +
      awaited (s.pendingPipeReads ++ [⟨fd, pid, wait⟩]) p x + ends s.namedPipes p x +
        objects s.references p x + _)
    unfold awaited
    rw [countP_append, countP_singleton]
    by_cases new : pid = p ∧ fd = x
    · obtain ⟨rfl, rfl⟩ := new
      have before := unowned nonneg
      unfold owners awaited at before one
      simp only [and_self, decide_true, if_true, count_nil] at one ⊢
      unfold Single at one ⊢
      omega
    · simpa [new, owners, awaited] using one
  · rcases mem_append.mp mem with old | new
    · exact own.waits r old nonneg
    · cases mem_singleton.mp new
      exact held_

theorem Owned.awaitRead (ready : Ready s evt.toList)
    (vacant : NextVacant s pid) (held_ : 0 < held s.processes pid fd)
    (unowned : 0 ≤ fd → owners s pid fd = 0) : Owned (s.awaitRead pid handle fd evt) pid [] := by
  simp only [DescriptorTables.awaitRead]
  split
  · -- the read is kept first, though the source asks for the wait handle before
    have pushed := own.pushRead held_ unowned (s.getPipeWaitHandle pid handle evt).1
    have made := pushed.getPipeWaitHandle handle (ready.of_kernel rfl) vacant
    rw [getPipeWaitHandle_reads] at made
    rw [getPipeWaitHandle_kept]
    exact made
  · exact own.getPipeWaitHandle handle ready vacant

end

def Unshared (s : DescriptorTables) (pid handle : UInt32) : Prop :=
  ∀ x ∈ s.fdOf pid handle, 0 ≤ x → owners s pid x = 0

theorem Owned.keepRead (own : Owned s pid hand) (held_ : 0 < held s.processes p fd)
    (user : UInt64) :
    Owned { s with pendingReads := s.pendingReads.insert (p, user) fd } pid hand := by
  refine { own with reads := fun q u x found nonneg => ?_ }
  rcases of_insert found with ⟨same, rfl⟩ | ⟨-, before⟩
  · cases same
    exact held_
  · exact own.reads q u x before nonneg

theorem Owned.fewerReads (own : Owned s pid hand) {reads : Table (UInt32 × UInt64) Int}
    (fewer : ∀ k x, reads.get? k = some x → s.pendingReads.get? k = some x) :
    Owned { s with pendingReads := reads } pid hand :=
  { own with reads := fun p user x found nonneg => own.reads p user x (fewer _ x found) nonneg }

theorem Owned.read (own : Owned s pid []) (user : UInt64) (ready : Ready s evt.toList)
    (vacant : NextVacant s pid) (unshared : outcome = .wouldBlock → Unshared s pid handle) :
    Owned (s.read pid handle user outcome evt) pid [] := by
  unfold DescriptorTables.read
  split
  · exact own
  · next entry live =>
    split
    · exact own
    · next fd at_fd =>
      have held_ := held_entryAt live at_fd
      rw [own.useHeld fun _ => held_]
      cases outcome with
      | data =>
        dsimp only
        split
        · exact own.completeIo ready vacant
        · exact own
      | eof | failed => exact own
      | wouldBlock =>
        have kept := own.keepRead held_ user
        dsimp only
        split
        · refine kept.awaitRead (ready.of_kernel rfl) vacant held_ (unshared rfl fd ?_)
          rw [fdOf, live]
          exact at_fd
        · exact kept

theorem Owned.transceive (own : Owned s pid []) {sent : Bool} (ready : Ready s evt.toList)
    (vacant : NextVacant s pid)
    (unshared : outcome = .wouldBlock ∨ outcome = .failed → Unshared s pid handle) :
    Owned (s.transceive pid handle sent outcome evt) pid [] := by
  unfold DescriptorTables.transceive
  split
  · exact own
  · next fd at_fd =>
    have held_ := held_fdOf at_fd
    rw [own.useHeld fun _ => held_]
    split
    · exact own
    · cases outcome with
      | data | eof => exact own
      | wouldBlock => exact own.awaitRead ready vacant held_ (unshared (.inl rfl) fd at_fd)
      | failed => exact own.awaitRead ready vacant held_ (unshared (.inr rfl) fd at_fd)

theorem foldl_unchanged {α : Type} {f : DescriptorTables → α → DescriptorTables} {l : List α}
    (same : ∀ a ∈ l, f s a = s) : l.foldl f s = s := by
  induction l with
  | nil => rfl
  | cons a rest ih =>
    rw [foldl_cons, same a mem_cons_self]
    exact ih fun b mem => same b (mem_cons_of_mem _ mem)

theorem Owned.finishReads (own : Owned s pid hand) (keep : AsyncPipeRead → Bool) :
    Owned { s with pendingPipeReads := s.pendingPipeReads.filter keep } pid hand := by
  refine { own with
    single := fun p x nonneg => ?_
    waits := fun r mem => own.waits r (mem_filter.mp mem).1 }
  have one := own.single p x nonneg
  have fewer : awaited (s.pendingPipeReads.filter keep) p x ≤ awaited s.pendingPipeReads p x :=
    filter_sublist.countP_le
  have held_ : 0 < awaited s.pendingPipeReads p x → 0 < held s.processes p x := by
    intro some_
    obtain ⟨r, mem, same⟩ := countP_pos_iff.mp some_
    obtain ⟨rfl, rfl⟩ := of_decide_eq_true same
    exact own.waits r mem nonneg
  change Single _ (held s.processes p x) (piped s.sideTables.pipeHandles p x +
    awaited (s.pendingPipeReads.filter keep) p x + ends s.namedPipes p x +
      objects s.references p x + _)
  unfold owners at one
  unfold Single at one ⊢
  change openFor s.kernel p x = 0 ∧ _ ∨ openFor s.kernel p x = 1 ∧ _
  omega

theorem Owned.checkPendingPipeReads (own : Owned s pid hand) (ready : List Int) :
    Owned (s.checkPendingPipeReads ready) pid hand := by
  unfold DescriptorTables.checkPendingPipeReads
  have finished := own.finishReads fun r => !ready.contains r.pipeFd
  have polled : s.pendingPipeReads.foldl (fun t r => t.useFd r.pipeFd) s = s :=
    foldl_unchanged fun r mem => own.useHeld (own.waits r mem)
  rw [polled]
  rw [foldl_unchanged]
  · exact finished
  · intro r mem
    have old := (mem_filter.mp (mem_reverse.mp mem)).1
    rw [finished.useHeld (own.waits r old), finished.signal_eq]

theorem Owned.write (own : Owned s pid []) {empty : Bool} (readable : List Int)
    (ready : Ready s evt.toList) (vacant : NextVacant s pid) :
    Owned (s.write pid handle empty outcome evt readable) pid [] := by
  unfold DescriptorTables.write
  split
  · exact own
  · next entry live =>
    split
    · exact own
    · next fd at_fd =>
      rw [own.useHeld fun _ => held_entryAt live at_fd]
      have waited : Owned (if isPipe entry then s.completeIo pid handle evt else s) pid [] := by
        split
        · exact own.completeIo ready vacant
        · exact own
      dsimp only
      generalize (if isPipe entry then s.completeIo pid handle evt else s) = t at waited ⊢
      split_ifs
      · exact own
      · exact own
      · exact waited.checkPendingPipeReads readable
      · exact waited

theorem Owned.getAsyncResult (own : Owned s pid hand) (p : UInt32) (user : UInt64) (got : Bool) :
    Owned (s.getAsyncResult p user got) pid hand := by
  unfold DescriptorTables.getAsyncResult
  split
  · exact own
  · next fd found =>
    rw [own.useHeld (own.reads p user fd found)]
    split
    · exact own.fewerReads fun k x later => (of_erase later).2
    · exact own

theorem Owned.cancelAsync (own : Owned s pid hand) (p handle : UInt32) :
    Owned (s.cancelAsync p handle) pid hand := by
  unfold DescriptorTables.cancelAsync
  split
  · split
    · exact own.fewerReads fun k x found => (of_retain found).1
    · exact own
  · exact own.fewerReads fun k x found => (of_retain found).1

/-! ### Closing -/

/-- What may be closed through a handle: not a pipe, and nothing that another table would
close or a read still uses. -/
def Closable (s : DescriptorTables) (pid handle : UInt32) : Prop :=
  s.sideTables.pipeHandles.get? (pid, handle) = none ∧ ∀ x ∈ s.fdOf pid handle, 0 ≤ x →
      owners s pid x = 0 ∧ ∀ e ∈ s.pendingReads.entries, e.1.1 = pid → e.2 ≠ x

variable {x : Int}

theorem piped_erase {pipes : Table (UInt32 × UInt32) Int} {k : UInt32 × UInt32}
    (missing : pipes.get? k = none) : piped (pipes.erase k) p x = piped pipes p x := by
  have sum := pipes.weigh_erase (fun k v => if k.1 = p ∧ v = x then 1 else 0) k
  rwa [missing] at sum

theorem owners_purge (missing : s.sideTables.pipeHandles.get? (pid, handle) = none) :
    owners { s with sideTables := (s.sideTables.purge pid handle).1 } p x = owners s p x := by
  change piped (s.sideTables.pipeHandles.erase (pid, handle)) p x + _ + _ + _ = _
  rw [piped_erase missing]
  rfl

theorem Closable.unneeded (closable : Closable s pid handle)
    (at_x : s.fdOf pid handle = some x) (nonneg : 0 ≤ x) : ¬ s.Needed pid x := by
  obtain ⟨unowned, unread⟩ := closable.2 x at_x nonneg
  rintro (⟨user, found⟩ | ⟨r, mem, rfl, rfl⟩)
  · exact unread ((pid, user), x) ((mem_entries _ _ _).mpr found) rfl rfl
  · have some_ : 0 < awaited s.pendingPipeReads r.pid r.pipeFd :=
      countP_pos_iff.mpr ⟨r, mem, by simp⟩
    unfold owners at unowned
    omega

theorem Owned.closeEntry (own : Owned s pid []) {t : HandleTable}
    (found : s.processes.get? pid = some t)
    (alone : ∀ x, fdAt t handle = some x → 0 ≤ x → owners s pid x = 0 ∧ ¬ s.Needed pid x) :
    Owned (DescriptorTables.closeAll
      { s with processes := s.processes.insert pid (t.close handle).1 } (t.close handle).2) pid
        [] := by
  have once : ∀ x, 0 ≤ x → holders t x ≤ 1 := by
    intro x nonneg
    have one := own.single pid x nonneg
    rw [← held_of_table found]
    unfold Single at one
    omega
  obtain ⟨tracked, count⟩ := (own.tracked pid t found).close once handle
  have sum := holders_close t handle
  have closed : Owned { s with processes := s.processes.insert pid (t.close handle).1 } pid
      ((t.close handle).2 ++ []) := by
    refine own.withTable tracked (fun x nonneg one => ?_) (fun x nonneg needed pos => ?_)
      fun e _ _ free => ?_
    · have here := sum x
      rw [held_of_table found, count_nil] at one
      rw [append_nil, count x nonneg]
      by_cases same : fdAt t handle = some x
      · obtain ⟨unowned, -⟩ := alone x same nonneg
        unfold Single at one ⊢
        omega
      · simp only [same, if_false, Nat.add_zero] at one here ⊢
        rwa [here]
    · have here := sum x
      rw [held_of_table found] at pos
      by_cases same : fdAt t handle = some x
      · exact absurd needed (alone x same nonneg).2
      · rw [if_neg same] at here
        omega
    · have here := sum e.2.fd
      rw [held_of_table found] at free
      omega
  refine closed.closeAll fun x mem nonneg => ?_
  have here := sum x
  have most := once x nonneg
  have some_ := count_pos_iff.mpr mem
  rw [count x nonneg] at some_
  rw [held_insert, if_pos rfl]
  split_ifs at some_ here <;> omega

theorem Owned.closeHandle (own : Owned s pid []) (closable : Closable s pid handle) :
    Owned (s.closeHandle pid handle) pid [] := by
  have purged : Owned { s with sideTables := (s.sideTables.purge pid handle).1 } pid [] :=
    own.moved rfl rfl rfl rfl rfl rfl rfl fun p x => by rw [owners_purge closable.1]
  have nothing : (s.sideTables.purge pid handle).2.1 = [] := by
    simp [HandleSideTables.purge, closable.1]
  unfold DescriptorTables.closeHandle
  rw [nothing]
  split
  · next t found =>
    refine purged.closeEntry found fun x at_x nonneg => ?_
    have at_x : s.fdOf pid handle = some x := by
      rw [fdOf, entryAt, entryOf, found]
      exact at_x
    rw [owners_purge closable.1]
    exact ⟨(closable.2 x at_x nonneg).1, closable.unneeded at_x nonneg⟩
  · exact purged

/-! ### Teardown -/

/-- A process may go when every descriptor of its handle table is also in a table that
closes it, and nothing outside keeps a reference to one of its objects. -/
def Departing (s : DescriptorTables) (pid : UInt32) : Prop :=
  (∀ t ∈ s.processes.get? pid, ∀ entry ∈ t.slab.iter, ∀ x ∈ entry.fd, 0 ≤ x → 0 < owners s pid x) ∧
    ∀ e ∈ s.clones, e.1 ≠ pid

theorem Departing.owned (departing : Departing s pid) (nonneg : 0 ≤ x)
    (held_ : 0 < held s.processes pid x) : 0 < owners s pid x := by
  cases found : s.processes.get? pid with
  | none => simp [held, found] at held_
  | some t =>
    rw [held_of_table found] at held_
    obtain ⟨entry, mem, at_x⟩ := countP_pos_iff.mp held_
    exact departing.1 t found entry mem x (of_decide_eq_true at_x) nonneg

theorem count_records {α : Type} (records : List α) (owner : α → UInt32) (fd : α → Int) :
    ((records.filter fun a => owner a = pid).map fd).count x =
      records.countP fun a => owner a = pid ∧ fd a = x := by
  rw [count_eq_countP, countP_map, countP_filter]
  refine countP_congr fun a _ => ?_
  simp [and_comm]

theorem countP_records {α : Type} (records : List α) (owner : α → UInt32) (fd : α → Int)
    (p : UInt32) (x : Int) :
    (records.filter fun a => owner a ≠ pid).countP (fun a => owner a = p ∧ fd a = x) =
      if p = pid then 0 else records.countP fun a => owner a = p ∧ fd a = x := by
  rw [countP_filter]
  split
  · next ours =>
    refine countP_eq_zero.mpr fun a _ => ?_
    simp only [ours, Bool.and_eq_true, decide_eq_true_eq]
    exact fun both => both.2 both.1.1
  · next other =>
    refine countP_congr fun a _ => ?_
    simp only [Bool.and_eq_true, decide_eq_true_eq]
    exact ⟨And.left, fun both => ⟨both, fun same => other (both.1.symm.trans same)⟩⟩

theorem piped_eq (pipes : Table (UInt32 × UInt32) Int) (p : UInt32) (x : Int) :
    piped pipes p x = pipes.entries.countP fun e => e.1.1 = p ∧ e.2 = x :=
  pipes.weigh_ite fun k v => k.1 = p ∧ v = x

theorem count_purgePid (t : HandleSideTables) :
    (t.purgePid pid).2.count x = piped t.pipeHandles pid x := by
  rw [piped_eq]
  exact count_records t.pipeHandles.entries (fun e => e.1.1) Prod.snd

theorem piped_purgePid (t : HandleSideTables) (p : UInt32) (x : Int) :
    piped (t.purgePid pid).1.pipeHandles p x =
      if p = pid then 0 else piped t.pipeHandles p x := by
  rw [piped_eq, piped_eq]
  exact countP_records t.pipeHandles.entries (fun e => e.1.1) Prod.snd p x

theorem count_readsOf : (s.readsOf pid).count x = awaited s.pendingPipeReads pid x :=
  count_records s.pendingPipeReads AsyncPipeRead.pid AsyncPipeRead.pipeFd

theorem count_endsOf : (s.endsOf pid).count x = ends s.namedPipes pid x := by
  unfold endsOf ends Table.weigh
  induction s.namedPipes.entries with
  | nil => rfl
  | cons e rest ih =>
    rw [flatMap_cons, count_append, ih, KeyedTable.weigh, count_records e.2 serverPid clientDataFd]

theorem ends_without (p : UInt32) (x : Int) :
    ends (s.without pid).namedPipes p x = if p = pid then 0 else ends s.namedPipes p x := by
  have light : ∀ (k : String) (v : List NamedPipeInfo), (!v.isEmpty) = false →
      v.countP (fun info => info.serverPid = p ∧ info.clientDataFd = x) = 0 := by
    simp_all
  have kept : ends (s.without pid).namedPipes p x = s.namedPipes.weigh fun _ v =>
      if p = pid then 0 else v.countP fun info => info.serverPid = p ∧ info.clientDataFd = x := by
    rw [ends, without, weigh_retain _ light, weigh_mapValues]
    exact weigh_congr _ fun _ v _ =>
      countP_records v serverPid clientDataFd p x
  rw [kept]
  split
  · exact weigh_eq_zero _ fun _ _ => rfl
  · rfl

theorem held_without (s : DescriptorTables) (pid p : UInt32) (x : Int) :
    held (s.without pid).processes p x = if p = pid then 0 else held s.processes p x := by
  rw [held, without, get?_erase]
  split <;> rfl

theorem get?_ntsync_without {r : NtsyncRef} :
    (s.without pid).ntsyncObjects.get? (p, handle) = some r ↔
      s.ntsyncObjects.get? (p, handle) = some r ∧ p ≠ pid := by
  rw [without, get?_retain]
  simp

section
variable (away : ∀ e ∈ s.clones, e.1 ≠ pid)
include away

theorem lost_without : Lost s (s.without pid) pid (s.objectsOf pid) := by
  rintro ⟨p, r⟩
  have objects : r ∈ s.objectsOf pid ↔ ∃ handle, s.ntsyncObjects.get? (pid, handle) = some r := by
    simp only [objectsOf, List.mem_map, mem_filter, decide_eq_true_eq, Prod.exists, mem_entries]
    constructor
    · rintro ⟨q, handle, r', ⟨found, rfl⟩, rfl⟩
      exact ⟨handle, found⟩
    · rintro ⟨handle, found⟩
      exact ⟨pid, handle, r, ⟨found, rfl⟩, rfl⟩
  simp only [mem_references, get?_ntsync_without, objects]
  constructor
  · rintro (⟨handle, found⟩ | kept)
    · by_cases ours : p = pid
      · subst ours
        exact .inr ⟨rfl, handle, found⟩
      · exact .inl (.inl ⟨handle, found, ours⟩)
    · exact .inl (.inr kept)
  · rintro ((⟨handle, found, -⟩ | kept) | ⟨rfl, handle, found⟩)
    · exact .inl ⟨handle, found⟩
    · exact .inr kept
    · exact .inl ⟨handle, found⟩

theorem objects_without (p : UInt32) (x : Int) : objects (s.without pid).references p x =
      if p = pid then 0 else objects s.references p x := by
  split
  · next ours =>
    refine if_neg ?_
    rintro ⟨e, mem, at_p, -⟩
    rcases mem_references.mp mem with ⟨handle, found⟩ | kept
    · exact (get?_ntsync_without.mp found).2 (at_p.trans ours)
    · exact away e kept (at_p.trans ours)
  · next other =>
    refine objects_congr (fun e at_p => ?_) x
    rw [lost_without away e]
    exact (or_iff_left fun both => other (at_p.symm.trans both.1)).symm

theorem owners_without (p : UInt32) (x : Int) :
    owners (s.without pid) p x = if p = pid then 0 else owners s p x := by
  have pipes : piped (s.without pid).sideTables.pipeHandles p x = _ :=
    piped_purgePid s.sideTables p x
  have reads : awaited (s.without pid).pendingPipeReads p x = _ :=
    countP_records s.pendingPipeReads AsyncPipeRead.pid AsyncPipeRead.pipeFd p x
  rw [owners, pipes, reads, ends_without, objects_without away]
  split <;> rfl

end

/-- Everything that a process leaves is in the hands of the teardown. -/
theorem Owned.without (own : Owned s pid []) (departing : Departing s pid) :
    Owned (s.without pid) pid ((s.without pid).orphaned (s.objectsOf pid) ++
      ((s.sideTables.purgePid pid).2 ++ (s.readsOf pid ++ s.endsOf pid))) := by
  have away := departing.2
  have lost := lost_without away
  refine ⟨fun p x nonneg => ?_, fun p t found => ?_, fun e mem f mem' => ?_, fun e mem => ?_,
    fun e mem => ?_, fun p user x found nonneg => ?_, fun r mem nonneg => ?_, own.clean⟩
  · have one := own.single p x nonneg
    rw [held_without, owners_without away]
    by_cases ours : p = pid
    · subst ours
      have gone := own.count_orphaned lost x
      rw [objects_without away, if_pos rfl] at gone
      have left := departing.owned nonneg
      simp only [if_true, count_append, count_purgePid, count_readsOf, count_endsOf,
        count_nil] at one ⊢
      unfold owners at one left
      unfold Single at one ⊢
      change openFor s.kernel p x = 0 ∧ _ ∨ openFor s.kernel p x = 1 ∧ _
      omega
    · simp only [ours, if_false] at one ⊢
      exact one
  · exact own.tracked p t (of_erase found).2
  · exact own.refs e ((lost e).mpr (.inl mem)) f ((lost f).mpr (.inl mem'))
  · exact own.fresh e ((lost e).mpr (.inl mem))
  · have other := away e mem
    rcases own.cloned e mem with ⟨handle, found⟩ | free
    · exact .inl ⟨handle, get?_ntsync_without.mpr ⟨found, other⟩⟩
    · exact .inr (by rw [held_without, if_neg other, free])
  · obtain ⟨before, other⟩ := of_retain found
    rw [held_without, if_neg (by simpa using other)]
    exact own.reads p user x before nonneg
  · obtain ⟨old, other⟩ := mem_filter.mp mem
    rw [held_without, if_neg (by simpa using other)]
    exact own.waits r old nonneg

theorem Owned.teardown (own : Owned s pid []) (departing : Departing s pid) :
    Owned (s.teardown pid) pid [] := by
  have free : ∀ x, held (s.without pid).processes pid x = 0 := by
    intro x
    rw [held_without, if_pos rfl]
  have first := (own.without departing).closeAll fun x _ _ => free x
  have second := first.closeAll fun x _ _ => free x
  have third := second.closeAll fun x _ _ => free x
  rw [← append_nil (s.endsOf pid)] at third
  exact third.closeAll fun x _ _ => free x

end Triskelion.DescriptorTables
