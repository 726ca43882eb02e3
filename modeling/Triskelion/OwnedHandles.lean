import Triskelion.DescriptorOwnership

/-! The requests that make handles and ntsync objects: under which condition on the tables
every descriptor still has its one owner afterwards. -/

namespace Triskelion.DescriptorTables

open DescriptorCounts List Table DescriptorTables

variable {s : DescriptorTables} {pid : UInt32} {hand : List Int}

/-! ### Frames -/

section
variable (s : DescriptorTables) (pid : UInt32) (entry : HandleEntry)

theorem allocEntry_eq :
    (s.allocEntry pid entry).2 = { s with processes := (s.allocEntry pid entry).2.processes } := by
  unfold allocEntry
  split <;> rfl

@[simp] theorem allocEntry_kernel : (s.allocEntry pid entry).2.kernel = s.kernel := by
  rw [allocEntry_eq]

@[simp] theorem allocEntry_ntsyncObjects : (s.allocEntry pid entry).2.ntsyncObjects = s.ntsyncObjects := by
  rw [allocEntry_eq]

@[simp] theorem allocEntry_sideTables : (s.allocEntry pid entry).2.sideTables = s.sideTables := by
  rw [allocEntry_eq]

@[simp] theorem allocEntry_namedPipes : (s.allocEntry pid entry).2.namedPipes = s.namedPipes := by
  rw [allocEntry_eq]

theorem held_allocEntry (p : UInt32)
    (x : Int) : held (s.allocEntry pid entry).2.processes p x = held s.processes p x +
      if p = pid ∧ s.processes.contains pid ∧ entry.fd = some x then 1 else 0 := by
  unfold allocEntry
  split
  · next t found =>
    rw [held_insert, Table.contains, found]
    by_cases ours : p = pid
    · subst ours
      rw [held_of_table found]
      simpa using holders_insertBump (t := t) (u := (t.allocateFull entry).2) rfl x
    · simp [ours]
  · next unknown => simp [Table.contains, unknown]

end

def Ready (s : DescriptorTables) (fds : List Int) : Prop :=
  fds.Nodup ∧ ∀ fd ∈ fds, 0 ≤ fd ∧ s.kernel.descriptors.get? fd = none

variable {fd : Int} {fds later : List Int} {entry : HandleEntry} {handle : UInt32}
  {evt : Option Int}

theorem Ready.openFd (ready : Ready s (fd :: fds)) : Ready (s.openFd pid fd) fds := by
  obtain ⟨nodup, unopened⟩ := ready
  refine ⟨nodup.of_cons, fun x mem => ⟨(unopened x (mem_cons_of_mem _ mem)).1, ?_⟩⟩
  have other : x ≠ fd := fun same => (nodup_cons.mp nodup).1 (same ▸ mem)
  change (s.kernel.descriptors.insert fd pid).get? x = none
  rw [get?_insert, if_neg other]
  exact (unopened x (mem_cons_of_mem _ mem)).2

theorem Ready.of_kernel {t : DescriptorTables} (ready : Ready s fds) (same : t.kernel = s.kernel) :
    Ready t fds := by
  rw [Ready, same]
  exact ready

theorem Ready.right (ready : Ready s (fds ++ later)) : Ready s later :=
  ⟨(nodup_append.mp ready.1).2.1, fun x mem => ready.2 x (mem_append_right _ mem)⟩

theorem Ready.left (ready : Ready s (fds ++ later)) : Ready s fds :=
  ⟨(nodup_append.mp ready.1).1, fun x mem => ready.2 x (mem_append_left _ mem)⟩

theorem Owned.opens (own : Owned s pid hand) (ready : Ready s (fd :: fds)) :
    Owned (s.openFd pid fd) pid (fd :: hand) ∧ Ready (s.openFd pid fd) fds ∧ 0 ≤ fd ∧
      ∀ p, held (s.openFd pid fd).processes p fd = 0 := by
  obtain ⟨nonneg, unopened⟩ := ready.2 fd mem_cons_self
  exact ⟨own.openFd unopened, ready.openFd, nonneg, fun p => (own.unrecorded nonneg unopened p).1⟩

/-! ### Handles and objects -/

theorem Owned.renumber (own : Owned s pid hand) :
    Owned { s with nextObjectId := s.nextObjectId + 1 } pid hand :=
  own.moved rfl rfl rfl rfl rfl rfl rfl fun _ _ => rfl

theorem Owned.allocHandle (own : Owned s pid hand) (objType access options : UInt32)
    (inHand : 0 ≤ fd → held s.processes pid fd = 0 ∧ fd ∈ hand) :
    Owned (s.allocHandle pid fd objType access options).2 pid hand := by
  refine own.renumber.allocEntry fun x same nonneg => ?_
  cases same
  exact inHand nonneg

variable {p : UInt32} {x : Int}

theorem held_allocHandle (s : DescriptorTables) (pid : UInt32) (fd : Int)
    (objType access options : UInt32) (p : UInt32) (x : Int) :
    held (s.allocHandle pid fd objType access options).2.processes p x = held s.processes p x +
      if p = pid ∧ s.processes.contains pid ∧ fd = x then 1 else 0 := by
  have sum := held_allocEntry { s with nextObjectId := s.nextObjectId + 1 } pid
    ⟨s.nextObjectId, some fd, objType, access, options⟩ p x
  simp only [Option.some.injEq] at sum
  exact sum

theorem allocHandle_fst (objType access options : UInt32) :
    (s.allocHandle pid fd objType access options).1 = s.nextHandle pid :=
  allocEntry_fst

/-- The object that the next handle of the process would displace, if there is one, has
a descriptor that is in no entry. -/
def NextVacant (s : DescriptorTables) (pid : UInt32) : Prop :=
  ∀ r ∈ s.ntsyncObjects.get? (pid, s.nextHandle pid), held s.processes pid r.fd = 0

theorem Owned.vacated (own : Owned s pid hand) (inHand : ∀ x, entry.fd = some x → 0 ≤ x → x ∈ hand)
    (vacant : NextVacant s pid) :
    ∀ r ∈ (s.allocEntry pid entry).2.ntsyncObjects.get? (pid, (s.allocEntry pid entry).1),
      held (s.allocEntry pid entry).2.processes pid r.fd = 0 := by
  rw [allocEntry_ntsyncObjects, allocEntry_fst]
  intro r found
  have ref : (pid, r) ∈ s.references := mem_references.mpr (.inl ⟨_, found⟩)
  have nonneg := (own.fresh _ ref).2
  rw [held_allocEntry, vacant r found, if_neg]
  rintro ⟨-, -, same⟩
  exact own.hand_unreferenced nonneg (inHand _ same nonneg) _ ref rfl

theorem Owned.vacatedHandle (own : Owned s pid hand) (objType access options : UInt32)
    (inHand : 0 ≤ fd → fd ∈ hand) (vacant : NextVacant s pid) :
    ∀ r ∈ (s.allocHandle pid fd objType access options).2.ntsyncObjects.get?
        (pid, (s.allocHandle pid fd objType access options).1),
      held (s.allocHandle pid fd objType access options).2.processes pid r.fd = 0 := by
  refine own.renumber.vacated (fun x same nonneg => ?_) vacant
  cases same
  exact inHand nonneg

def takeObject (s : DescriptorTables) (pid handle : UInt32) : DescriptorTables :=
  { s with ntsyncObjects := s.ntsyncObjects.erase (pid, handle) }

theorem lost_takeObject :
    Lost s (s.takeObject pid handle) pid (s.ntsyncObjects.get? (pid, handle)).toList := by
  rintro ⟨p, r⟩
  simp only [mem_references, takeObject, get?_erase, Option.mem_toList]
  constructor
  · rintro (⟨h, found⟩ | kept)
    · by_cases same : (p, h) = (pid, handle)
      · cases same
        exact .inr ⟨rfl, found⟩
      · exact .inl (.inl ⟨h, by rw [if_neg same, found]⟩)
    · exact .inl (.inr kept)
  · rintro ((⟨h, found⟩ | kept) | ⟨rfl, found⟩)
    · split at found
      · cases found
      · exact .inl ⟨h, found⟩
    · exact .inr kept
    · exact .inl ⟨handle, found⟩

theorem Owned.takeObject (own : Owned s pid hand)
    (unheld : ∀ r ∈ s.ntsyncObjects.get? (pid, handle), held s.processes pid r.fd = 0) :
    Owned (s.takeObject pid handle) pid ((s.takeObject pid handle).orphaned
      (s.ntsyncObjects.get? (pid, handle)).toList ++ hand) := by
  refine own.release lost_takeObject (fun _ mem => mem) fun e _ h found => ?_
  by_cases same : (e.1, h) = (pid, handle)
  · obtain ⟨ours, rfl⟩ := Prod.mk.inj same
    rw [ours] at found ⊢
    exact .inr (unheld e.2 found)
  · exact .inl ⟨h, by rw [get?_erase, if_neg same, found]⟩

theorem Owned.insertObject (own : Owned s pid (x :: hand)) (nonneg : 0 ≤ x)
    (unheld : ∀ r ∈ s.ntsyncObjects.get? (pid, handle), held s.processes pid r.fd = 0) :
    Owned (s.insertObject pid handle x) pid hand := by
  -- the object that is displaced goes first, though the table is written once
  have known : ∀ r ∈ (s.ntsyncObjects.get? (pid, handle)).toList, r.obj < s.nextObj := by
    intro r mem
    have ref : (pid, r) ∈ s.references :=
      mem_references.mpr (.inl ⟨handle, Option.mem_toList.mp mem⟩)
    exact (own.fresh _ ref).1
  have free : ∀ r ∈ (s.ntsyncObjects.get? (pid, handle)).toList,
      held s.processes pid r.fd = 0 := fun r mem => unheld r (Option.mem_toList.mp mem)
  have taken := own.takeObject unheld
  unfold DescriptorTables.insertObject dropRefs
  generalize (s.ntsyncObjects.get? (pid, handle)).toList = gone at known free taken ⊢
  have ready : Owned (s.takeObject pid handle) pid
      (x :: ((s.takeObject pid handle).orphaned gone ++ hand)) := by
    refine taken.rehand fun y _ => ?_
    simp only [count_cons, count_append]
    omega
  have gained : Gained (s.takeObject pid handle) { s with
      ntsyncObjects := s.ntsyncObjects.insert (pid, handle) ⟨s.nextObj, x⟩
      nextObj := s.nextObj + 1 } pid handle x := by
    refine ⟨?_, rfl, fun k => ?_⟩
    · rw [DescriptorTables.takeObject, get?_erase, if_pos rfl]
    · rw [get?_insert, DescriptorTables.takeObject, get?_erase]
      split <;> rfl
  have adopted := ready.adopt nonneg gained
  have mem_iff := gained.references
  have same : orphaned { s with
      ntsyncObjects := s.ntsyncObjects.insert (pid, handle) ⟨s.nextObj, x⟩
      nextObj := s.nextObj + 1 } gone = (s.takeObject pid handle).orphaned gone := by
    refine congrArg (fun l => (List.dedup l).map NtsyncRef.fd)
      (filter_congr fun r mem => Bool.eq_iff_iff.mpr ?_)
    simp only [all_eq_true, decide_eq_true_eq]
    refine ⟨fun all e here => all e ((mem_iff e).mpr (.inr here)), fun all e here => ?_⟩
    rcases (mem_iff e).mp here with rfl | old
    · exact (Nat.ne_of_lt (known r mem)).symm
    · exact all e old
  rw [← same] at adopted
  refine adopted.closeAll fun y mem _ => ?_
  obtain ⟨r, r_gone, -, rfl⟩ := mem_orphaned.mp mem
  exact free r r_gone

theorem Owned.createObject (own : Owned s pid hand) (ready : Ready s evt.toList)
    (unheld : ∀ r ∈ s.ntsyncObjects.get? (pid, handle), held s.processes pid r.fd = 0) :
    Owned (s.createObject pid handle evt) pid hand := by
  cases evt with
  | none => exact own
  | some =>
    obtain ⟨opened, -, nonneg, -⟩ := own.opens ready
    exact opened.insertObject nonneg unheld

theorem Owned.syncObject (own : Owned s pid []) (ready : Ready s evt.toList) :
    Owned (s.syncObject p handle evt) p [] := by
  unfold DescriptorTables.syncObject
  split
  · next r found =>
    have ref : (p, r) ∈ s.references := mem_references.mpr (.inl ⟨handle, found⟩)
    rw [useFd_eq fun _ => own.ref_opened ref]
    exact own.anyone p
  · next missing =>
    refine (own.anyone p).createObject ready fun r found => ?_
    rw [missing] at found
    cases found

theorem Owned.cloneObject (own : Owned s pid hand) (p handle : UInt32) :
    Owned (s.cloneObject p handle) pid hand := by
  unfold DescriptorTables.cloneObject
  split
  · next r found =>
    have same : ∀ e, e ∈ references { s with clones := (p, r) :: s.clones } ↔ e ∈ s.references := by
      intro e
      simp only [mem_references, mem_cons]
      constructor
      · rintro (kept | rfl | kept)
        · exact .inl kept
        · exact .inl ⟨handle, found⟩
        · exact .inr kept
      · rintro (kept | kept)
        · exact .inl kept
        · exact .inr (.inr kept)
    refine ⟨fun q x nonneg => ?_, own.tracked, fun e mem f mem' => ?_, fun e mem => ?_,
      fun e mem => ?_, own.reads, own.waits, own.clean⟩
    · have one := own.single q x nonneg
      unfold owners at one ⊢
      rw [objects_congr (fun e _ => same e)]
      exact one
    · exact own.refs e ((same e).mp mem) f ((same f).mp mem')
    · exact own.fresh e ((same e).mp mem)
    · rcases mem_cons.mp mem with rfl | kept
      · exact .inl ⟨handle, found⟩
      · exact own.cloned e kept
  · exact own

theorem Owned.dropClone (own : Owned s pid []) (i : Nat) : ∃ p, Owned (s.dropClone i) p [] := by
  unfold DescriptorTables.dropClone
  split
  · next e found =>
    obtain ⟨bound, rfl⟩ := List.getElem?_eq_some_iff.mp found
    have split_ : ∀ f, f ∈ s.clones ↔ f = s.clones[i] ∨ f ∈ s.clones.eraseIdx i := by
      intro f
      rw [← (getElem_cons_eraseIdx_perm bound).mem_iff, mem_cons]
    refine ⟨s.clones[i].1, ?_⟩
    have lost : Lost s { s with clones := s.clones.eraseIdx i } s.clones[i].1
        [s.clones[i].2] := by
      intro f
      simp only [mem_references, split_ f, mem_singleton, Prod.ext_iff]
      tauto
    have released := (own.anyone s.clones[i].1).release lost
      (fun f mem => (split_ f).mpr (.inr mem)) fun f _ h kept => .inl ⟨h, kept⟩
    refine released.closeAll fun x mem _ => ?_
    obtain ⟨r, r_gone, alone, rfl⟩ := mem_orphaned.mp mem
    rw [mem_singleton.mp r_gone] at alone ⊢
    refine (own.cloned _ (getElem_mem bound)).resolve_left ?_
    rintro ⟨h, kept⟩
    exact alone s.clones[i] (mem_references.mpr (.inl ⟨h, kept⟩)) rfl
  · exact ⟨pid, own⟩

/-! ### Handle-creating requests -/

theorem nextHandle_unknown (unknown : ¬ s.processes.contains pid) : s.nextHandle pid = 0 := by
  unfold nextHandle
  split
  · next t found => simp [Table.contains, found] at unknown
  · rfl

theorem Owned.openHandle (own : Owned s pid hand) (ready : Ready s (fd :: later))
    (objType access options : UInt32) :
    let made := (s.openFd pid fd).allocHandle pid fd objType access options
    Owned made.2 pid (fd :: hand) ∧ Ready made.2 later ∧ 0 ≤ fd ∧ made.1 = s.nextHandle pid ∧
      held made.2.processes pid fd = if s.processes.contains pid = true then 1 else 0 := by
  obtain ⟨opened, ready, nonneg, unheld⟩ := own.opens ready
  have now := held_allocHandle (s.openFd pid fd) pid fd objType access options pid fd
  rw [unheld pid] at now
  refine ⟨opened.allocHandle objType access options fun _ => ⟨unheld pid, mem_cons_self⟩,
    ready.of_kernel (allocEntry_kernel _ _ _), nonneg, allocHandle_fst _ _ _, ?_⟩
  rw [now, Nat.zero_add]
  exact if_congr ⟨fun both => both.2.1, fun known => ⟨rfl, known, rfl⟩⟩ rfl rfl

variable {efd : Option Int}

section
variable (own : Owned s pid [])
include own

theorem Owned.allocWaitableHandle
    (ready : Ready s (efd.toList ++ later)) : let made := s.allocWaitableHandle pid efd
    Owned made.2 pid [] ∧ (made.1 ≠ 0 → NextVacant s pid → Ready made.2 later ∧
      ∀ r ∈ made.2.ntsyncObjects.get? (pid, made.1), held made.2.processes pid r.fd = 0) := by
  cases efd with
  | none => exact ⟨own.renumber, fun nonzero => absurd rfl nonzero⟩
  | some fd =>
    obtain ⟨opened, -, -, -⟩ := own.opens ready
    obtain ⟨made, ready, -, handle, now⟩ := own.openHandle ready fdTypeFile 0x001F0003 0x20
    simp only [allocWaitableHandle]
    split
    · next known =>
      rw [if_pos known] at now
      refine ⟨made.unhand fun _ => now ▸ Nat.one_pos, fun _ vacant => ⟨ready, ?_⟩⟩
      exact opened.vacatedHandle _ _ _ (fun _ => mem_singleton_self fd) vacant
    · next unknown =>
      rw [if_neg unknown] at now
      refine ⟨made.closeFd fun _ => now, fun nonzero => ?_⟩
      exact absurd (handle.trans (nextHandle_unknown unknown)) nonzero

theorem Owned.createEvent (ready : Ready s (efd.toList ++ evt.toList)) (vacant : NextVacant s pid) :
    Owned (s.createEvent pid efd evt) pid [] := by
  obtain ⟨made, rest⟩ := own.allocWaitableHandle ready
  simp only [DescriptorTables.createEvent]
  split
  · next nonzero =>
    obtain ⟨ready, unheld⟩ := rest nonzero vacant
    exact made.createObject ready unheld
  · exact made

theorem Owned.createFileHandle (ready : Ready s (fd :: evt.toList))
    (objType access options : UInt32)
    (nonzero : s.processes.contains pid → s.nextHandle pid ≠ 0) :
    Owned (s.createFileHandle pid fd objType access options evt) pid [] := by
  obtain ⟨made, ready, -, handle, now⟩ :=
    own.openHandle ready objType (mapFileAccess access) options
  simp only [DescriptorTables.createFileHandle]
  split
  · next zero =>
    have unknown : ¬ s.processes.contains pid := fun known =>
      nonzero known (handle.symm.trans zero)
    rw [if_neg unknown] at now
    exact made.closeFd fun _ => now
  · next handle_ne =>
    have known : s.processes.contains pid := by
      by_contra unknown
      exact handle_ne (handle.trans (nextHandle_unknown unknown))
    rw [if_pos known] at now
    have kept := made.unhand fun _ => now ▸ Nat.one_pos
    split
    · exact kept
    · next missing =>
      refine kept.createObject ready fun r found => ?_
      rw [Option.mem_def] at found
      simp [Table.contains, found] at missing

theorem Owned.allocEventHandle (ready : Ready s evt.toList)
    (vacant : NextVacant s pid) {exposed : Bool}
    (nonzero : exposed → s.processes.contains pid → s.nextHandle pid ≠ 0) :
    Owned (s.allocEventHandle pid exposed evt).2 pid [] := by
  cases evt with
  | none => exact own
  | some fd =>
    obtain ⟨opened, -, nonneg, unheld⟩ := own.opens ready
    -- what the entry shows is the descriptor in hand, or nothing
    simp only [allocEventHandle]
    generalize at_y : (if exposed then fd else -1) = y
    have shown : 0 ≤ y → y = fd := by
      subst at_y
      cases exposed <;> simp
    have made : Owned ((s.openFd pid fd).allocHandle pid y fdTypeFile 0x001F0003 0x20).2 pid
        [fd] := by
      refine opened.allocHandle _ _ _ fun sign => ?_
      rw [shown sign]
      exact ⟨unheld pid, mem_singleton_self fd⟩
    split
    · refine made.insertObject nonneg (opened.vacatedHandle _ _ _ (fun sign => ?_) vacant)
      rw [shown sign]
      exact mem_singleton_self fd
    · next zero =>
      rw [allocHandle_fst] at zero
      refine made.closeFd fun _ => ?_
      rw [held_allocHandle, unheld pid, if_neg]
      rintro ⟨-, known, same⟩
      have exposed_ : exposed := by
        by_contra hidden
        rw [if_neg hidden] at at_y
        omega
      exact nonzero exposed_ known (not_not.mp zero)

end

theorem held_entryAt (live : s.entryAt p handle = some entry)
    (at_x : entry.fd = some x) : 0 < held s.processes p x := by
  obtain ⟨t, found, live⟩ := Option.bind_eq_some_iff.mp live
  have at_handle : fdAt t handle = some x := by rw [fdAt, live, Option.bind_some, at_x]
  rw [held_of_table found]
  exact holders_pos at_handle

theorem held_fdOf (at_x : s.fdOf p handle = some x) : 0 < held s.processes p x := by
  obtain ⟨entry, live, at_x⟩ := Option.bind_eq_some_iff.mp at_x
  exact held_entryAt live at_x

theorem Owned.getHandleFd (own : Owned s pid hand) (p handle : UInt32) :
    Owned (s.getHandleFd p handle) pid hand := by
  unfold DescriptorTables.getHandleFd
  split
  · next fd at_fd =>
    have same : s.kernel.useFd fd = s.kernel :=
      congrArg DescriptorTables.kernel (own.useHeld fun _ => held_fdOf at_fd)
    rw [same]
    exact own.moved rfl rfl rfl rfl rfl rfl rfl fun _ _ => rfl
  · exact own

theorem Owned.dupEntry (own : Owned s pid [])
    (held_ : ∀ x, entry.fd = some x → 0 < held s.processes p x) {result : Option Int}
    (ready : Ready s (result.toList ++ later)) (dst : UInt32) :
    let copied := s.dupEntry dst entry result
    Owned copied.1 dst copied.2.fd.toList ∧ Ready copied.1 later ∧
      copied.1 = { s with kernel := copied.1.kernel } ∧
      ∀ x, copied.2.fd = some x → 0 ≤ x → held s.processes dst x = 0 := by
  have failed : Owned s dst [-1] := by
    refine (own.anyone dst).rehand fun y _ => ?_
    rw [count_cons_of_ne (by omega)]
  have negative : ∀ x : Int, some (-1) = some x → 0 ≤ x → held s.processes dst x = 0 := by
    intro x same nonneg
    cases same
    omega
  unfold DescriptorTables.dupEntry
  split
  · next none_ => exact ⟨by simpa [none_] using own.anyone dst, ready.right, rfl, by simp [none_]⟩
  · next fd at_fd =>
    unfold DescriptorTables.dupFd
    split
    · exact ⟨failed, ready.right, rfl, negative⟩
    · have used := own.useHeld fun _ => held_ fd at_fd
      rw [used]
      cases result with
      | none => exact ⟨failed, ready, rfl, negative⟩
      | some =>
        obtain ⟨opened, ready, -, unheld⟩ := (own.anyone dst).opens ready
        refine ⟨opened, ready, rfl, fun x same _ => ?_⟩
        cases same
        exact unheld dst

theorem Owned.letGo {fd : Option Int} (own : Owned s pid fd.toList)
    (held_ : ∀ x, fd = some x → 0 < held s.processes pid x) : Owned s pid [] := by
  cases fd with
  | none => exact own
  | some x => exact own.unhand fun _ => held_ x rfl

theorem Owned.dupHandle (own : Owned s pid []) {req : DupHandle} {fd : Option Int}
    (ready : Ready s (fd.toList ++ evt.toList)) (known : s.processes.contains req.dstPid)
    (vacant : NextVacant s req.dstPid) : Owned (s.dupHandle req fd evt) req.dstPid [] := by
  unfold DescriptorTables.dupHandle
  split
  · exact own.anyone req.dstPid
  · next entry source =>
    have held_ : ∀ x, entry.fd = some x → 0 < held s.processes req.srcPid x := by
      intro x at_x
      rcases Option.or_eq_some_iff.mp source with pseudo | ⟨-, live⟩
      · unfold pseudoEntry at pseudo
        split_ifs at pseudo <;> cases pseudo <;> cases at_x
      · exact held_entryAt live at_x
    obtain ⟨copied, ready, frame, unheld⟩ := own.dupEntry held_ ready req.dstPid
    generalize s.dupEntry req.dstPid entry fd = copy at copied ready frame unheld ⊢
    obtain ⟨t, entry'⟩ := copy
    simp only at copied ready frame unheld ⊢
    generalize stored : ({ entry' with
      access := dupAccess req.options req.access entry } : HandleEntry) = new
    have same : new.fd = entry'.fd := by rw [← stored]
    rw [← same] at copied unheld
    have processes : t.processes = s.processes := by rw [frame]
    have known : t.processes.contains req.dstPid := by rw [processes, known]
    have next : NextVacant t req.dstPid := by
      rw [frame]
      exact vacant
    have inHand : ∀ x, new.fd = some x → 0 ≤ x → x ∈ new.fd.toList := by
      intro x at_x _
      rw [at_x]
      exact mem_singleton_self x
    have made := copied.allocEntry fun x at_x nonneg =>
      ⟨by rw [processes, unheld x at_x nonneg], inHand x at_x nonneg⟩
    have kept := made.letGo fun x at_x => by
      rw [held_allocEntry, if_pos ⟨rfl, known, at_x⟩]
      exact Nat.succ_pos _
    split
    · rw [kept.signal_eq]
      exact kept.createObject (ready.of_kernel (allocEntry_kernel _ _ _))
        (copied.vacated inHand next)
    · exact kept

theorem Owned.inheritHandle (own : Owned s pid []) {parent child : UInt32} {fd : Option Int}
    (ready : Ready s fd.toList) (known : s.processes.contains child)
    (vacant : s.entryAt child handle = none) :
    Owned (s.inheritHandle parent child handle fd) child [] := by
  unfold DescriptorTables.inheritHandle
  split
  · exact own.anyone child
  · next entry live =>
    obtain ⟨t, found⟩ := (contains_iff _ _).mp known
    rw [← append_nil fd.toList] at ready
    obtain ⟨copied, -, frame, unheld⟩ :=
      own.dupEntry (fun x at_x => held_entryAt live at_x) ready child
    generalize s.dupEntry child entry fd = copy at copied frame unheld ⊢
    obtain ⟨u, entry'⟩ := copy
    simp only at copied frame unheld ⊢
    have found' : u.processes.get? child = some t := by rw [frame, found]
    have empty : t.get handle = none := by simpa [entryAt, entryOf, found] using vacant
    obtain ⟨t', inserted, tracked, sum⟩ := (own.tracked child t found).insertAt empty
      fun x at_x nonneg => by rw [← held_of_table found, unheld x at_x nonneg]
    simp only [found, inserted]
    have stored := copied.storeEntry found' tracked sum fun x at_x nonneg =>
      ⟨by rw [← held_of_table found, unheld x at_x nonneg], by simp [at_x]⟩
    refine stored.letGo fun x at_x => ?_
    rw [held_insert, if_pos rfl, sum, if_pos at_x]
    exact Nat.succ_pos _

end Triskelion.DescriptorTables
