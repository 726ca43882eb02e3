import Triskelion.DescriptorCounts
import Triskelion.DescriptorTables

/-! Who owns a descriptor. A number that is open for a process is in at most one entry of
the process's handle table and in at most one of the tables that close what they hold;
while a handler runs, its local variables are one more such table. -/

namespace Triskelion.DescriptorTables

open HandleTable DescriptorCounts List Table DescriptorTables Option

/-! ### The census -/

def openFor (k : Kernel) (p : UInt32) (x : Int) : Nat :=
  if k.descriptors.get? x = some p then 1 else 0

def held (processes : Table UInt32 HandleTable) (p : UInt32) (x : Int) : Nat :=
  ((processes.get? p).map fun t => holders t x).getD 0

def piped (pipes : Table (UInt32 × UInt32) Int) (p : UInt32) (x : Int) : Nat :=
  pipes.weigh fun k v => if k.1 = p ∧ v = x then 1 else 0

def awaited (reads : List AsyncPipeRead) (p : UInt32) (x : Int) : Nat :=
  reads.countP fun r => r.pid = p ∧ r.pipeFd = x

def ends (pipes : Table String (List NamedPipeInfo)) (p : UInt32) (x : Int) : Nat :=
  pipes.weigh fun _ instances =>
    instances.countP fun info => info.serverPid = p ∧ info.clientDataFd = x

/-- An object counts once, however many references it has. -/
def objects (references : List (UInt32 × NtsyncRef)) (p : UInt32) (x : Int) : Nat :=
  if ∃ e ∈ references, e.1 = p ∧ e.2.fd = x then 1 else 0

def owners (s : DescriptorTables) (p : UInt32) (x : Int) : Nat :=
  piped s.sideTables.pipeHandles p x + awaited s.pendingPipeReads p x + ends s.namedPipes p x +
    objects s.references p x

def Single (opened held owned : Nat) : Prop :=
  opened = 0 ∧ held = 0 ∧ owned = 0 ∨ opened = 1 ∧ held ≤ 1 ∧ owned ≤ 1 ∧ 1 ≤ held + owned

/-- A handle table whose counts are those of its entries, as far as they name a
descriptor. -/
structure Tracked (t : HandleTable) : Prop where
  free : t.slab.FreeList
  counts : ∀ x, 0 ≤ x → t.fdRefcounts.get? x = if holders t x = 0 then none else some 1

/-- The tables together with the descriptors in the hands of a handler of `pid`. -/
structure Owned (s : DescriptorTables) (pid : UInt32) (hand : List Int) : Prop where
  single : ∀ p x, 0 ≤ x → Single (openFor s.kernel p x) (held s.processes p x)
    (owners s p x + if p = pid then hand.count x else 0)
  tracked : ∀ p t, s.processes.get? p = some t → Tracked t
  refs : ∀ e ∈ s.references, ∀ f ∈ s.references, e.2.obj = f.2.obj ↔ e.2.fd = f.2.fd
  fresh : ∀ e ∈ s.references, e.2.obj < s.nextObj ∧ 0 ≤ e.2.fd
  cloned : ∀ e ∈ s.clones,
    (∃ handle, s.ntsyncObjects.get? (e.1, handle) = some e.2) ∨ held s.processes e.1 e.2.fd = 0
  reads : ∀ p user x, s.pendingReads.get? (p, user) = some x → 0 ≤ x → 0 < held s.processes p x
  waits : ∀ r ∈ s.pendingPipeReads, 0 ≤ r.pipeFd → 0 < held s.processes r.pid r.pipeFd
  clean : s.kernel.misused = []

variable {e : UInt32 × NtsyncRef} {k : Kernel} {p : UInt32}

theorem mem_references {s : DescriptorTables} :
    e ∈ s.references ↔ (∃ handle, s.ntsyncObjects.get? (e.1, handle) = some e.2) ∨ e ∈ s.clones := by
  simp only [references, mem_append, List.mem_map, Prod.exists, ← mem_entries]
  obtain ⟨p, r⟩ := e
  constructor
  · rintro (⟨q, h, r', mem, equal⟩ | kept)
    · cases equal
      exact .inl ⟨h, mem⟩
    · exact .inr kept
  · rintro (⟨h, mem⟩ | kept)
    · exact .inl ⟨p, h, r, mem, rfl⟩
    · exact .inr kept

theorem objects_eq_one {references : List (UInt32 × NtsyncRef)} (mem : e ∈ references) :
    objects references e.1 e.2.fd = 1 :=
  if_pos ⟨e, mem, rfl, rfl⟩

theorem owners_ref {s : DescriptorTables} (mem : e ∈ s.references) : 0 < owners s e.1 e.2.fd := by
  have := objects_eq_one mem
  unfold owners
  omega

theorem openFor_eq_one {x : Int} : openFor k p x = 1 ↔ k.descriptors.get? x = some p := by
  simp [openFor]

theorem openFor_unopened {x : Int} (unopened : k.descriptors.get? x = none) :
    openFor k p x = 0 := by
  simp [openFor, unopened]

section
variable {s : DescriptorTables} {pid : UInt32} {hand : List Int}

/-! ### What is recorded is open -/

section
variable (own : Owned s pid hand)
include own

theorem Owned.opened {x : Int} (nonneg : 0 ≤ x)
    (recorded : 0 < held s.processes p x + owners s p x) :
    s.kernel.descriptors.get? x = some p := by
  rw [← openFor_eq_one]
  have one := own.single p x nonneg
  unfold Single at one
  omega

theorem Owned.ref_opened (mem : e ∈ s.references) :
    s.kernel.descriptors.get? e.2.fd = some e.1 := by
  exact own.opened (own.fresh e mem).2 (Nat.add_pos_right _ (owners_ref mem))

theorem Owned.hand_opened {x : Int} (nonneg : 0 ≤ x) (mem : x ∈ hand) :
    s.kernel.descriptors.get? x = some pid := by
  rw [← openFor_eq_one]
  have one := own.single pid x nonneg
  have := count_pos_iff.mpr mem
  unfold Single at one
  simp only [if_true] at one
  omega

theorem Owned.unrecorded {x : Int} (nonneg : 0 ≤ x)
    (unopened : s.kernel.descriptors.get? x = none) (p : UInt32) :
    held s.processes p x = 0 ∧ owners s p x = 0 := by
  have one := own.single p x nonneg
  rw [openFor_unopened unopened] at one
  unfold Single at one
  omega

end

variable {hand' : List Int} {entry : HandleEntry} {gone : List NtsyncRef}

theorem Owned.rehand (own : Owned s pid hand) (same : ∀ x, 0 ≤ x → hand'.count x = hand.count x) :
    Owned s pid hand' := by
  refine { own with single := ?_ }
  intro p x nonneg
  rw [same x nonneg]
  exact own.single p x nonneg

theorem Owned.anyone (own : Owned s pid []) (other : UInt32) : Owned s other [] := by
  refine { own with single := ?_ }
  simpa using own.single

/-! ### Calls of the kernel -/

theorem Owned.withKernel (own : Owned s pid hand) (clean : k.misused = [])
    (single : ∀ p x, 0 ≤ x → ∀ h w,
      Single (openFor s.kernel p x) h (w + if p = pid then hand.count x else 0) →
        h = held s.processes p x →
        Single (openFor k p x) h (w + if p = pid then hand'.count x else 0)) :
    Owned { s with kernel := k } pid hand' :=
  { own with
    single := fun p x nonneg => single p x nonneg _ _ (own.single p x nonneg) rfl
    clean := clean }

theorem Owned.openFd (own : Owned s pid hand) {x : Int}
    (unopened : s.kernel.descriptors.get? x = none) : Owned (s.openFd pid x) pid (x :: hand) := by
  refine own.withKernel own.clean fun p y _ h w one _ => ?_
  have opened : (s.kernel.openFd pid x).descriptors.get? y =
      if y = x then some pid else s.kernel.descriptors.get? y := get?_insert _ _ _ _
  by_cases same : y = x
  · subst same
    rw [openFor_unopened unopened] at one
    simp only [openFor, opened, if_true, count_cons_self, some.injEq]
    by_cases ours : p = pid
    · simp only [ours, if_true] at one ⊢
      unfold Single at one ⊢
      omega
    · simpa [ours, Ne.symm ours] using one
  · simpa [openFor, opened, same, count_cons_of_ne (Ne.symm same)] using one

theorem Owned.closeFd {x : Int} (own : Owned s pid (x :: hand))
    (unheld : 0 ≤ x → held s.processes pid x = 0) : Owned (s.closeFd x) pid hand := by
  by_cases sign : x < 0
  · have same : s.closeFd x = s := by
      rw [DescriptorTables.closeFd, Kernel.closeFd, if_pos sign]
    rw [same]
    refine own.rehand fun y nonneg => ?_
    rw [count_cons_of_ne (by omega)]
  · have nonneg : 0 ≤ x := by omega
    have opened := own.hand_opened nonneg mem_cons_self
    have closed : s.kernel.closeFd x = { s.kernel with
        descriptors := s.kernel.descriptors.erase x } := by
      simp [Kernel.closeFd, sign, Table.contains, opened]
    rw [DescriptorTables.closeFd, closed]
    refine own.withKernel own.clean fun p y _ h w one here => ?_
    have left : (s.kernel.descriptors.erase x).get? y =
        if y = x then none else s.kernel.descriptors.get? y := get?_erase _ _ _
    by_cases same : y = x
    · subst same
      simp only [openFor, left, if_true, reduceCtorEq, if_false]
      by_cases ours : p = pid
      · subst ours
        simp only [if_true, count_cons_self] at one ⊢
        unfold Single at one ⊢
        omega
      · simpa [openFor, opened, ours, Ne.symm ours] using one
    · simpa [openFor, left, same, count_cons_of_ne (Ne.symm same)] using one

theorem Owned.closeAll {fds : List Int} (own : Owned s pid (fds ++ hand))
    (unheld : ∀ x ∈ fds, 0 ≤ x → held s.processes pid x = 0) : Owned (s.closeAll fds) pid hand := by
  induction fds generalizing s with
  | nil => exact own
  | cons x rest ih =>
    have first := Owned.closeFd own (unheld x mem_cons_self)
    exact ih first fun y mem => unheld y (mem_cons_of_mem _ mem)

theorem useFd_eq {x : Int} (opened : 0 ≤ x → s.kernel.descriptors.get? x = some p) :
    s.useFd x = s := by
  have same : s.kernel.useFd x = s.kernel := by
    rw [Kernel.useFd, if_pos]
    by_cases sign : x < 0
    · exact .inl sign
    · exact .inr (by simp [Table.contains, opened (by omega)])
  rw [useFd, same]

theorem Owned.useHeld (own : Owned s pid hand) {x : Int} (held_ : 0 ≤ x → 0 < held s.processes p x) :
    s.useFd x = s :=
  useFd_eq fun nonneg => own.opened nonneg (Nat.add_pos_left (held_ nonneg) _)

theorem Owned.signal_eq (own : Owned s pid hand) (handle : UInt32) : s.signal p handle = s := by
  unfold signal
  split
  · next r found =>
    have mem : (p, r) ∈ s.references := mem_references.mpr (.inl ⟨handle, found⟩)
    exact useFd_eq fun _ => own.ref_opened mem
  · rfl

/-! ### Handle tables -/

variable {slab : HeapSlab HandleEntry} {counts : Table Int UInt32}

theorem get?_releaseFd_ne {fd f : Int}
    (other : f ≠ fd) : (releaseFd slab counts fd).1.get? f = counts.get? f := by
  unfold releaseFd
  split
  · split
    · rw [get?_erase, if_neg other]
    · rw [get?_insert, if_neg other]
  · rfl

theorem releaseFd_last {fd : Int}
    (found : counts.get? fd = some 1) : releaseFd slab counts fd = (counts.erase fd, true) := by
  rw [releaseFd, found]
  rfl

section
variable {t : HandleTable}

section
variable (tracked : Tracked t)
include tracked

theorem Tracked.trackFd {fd : Option Int}
    (unheld : ∀ x, fd = some x → 0 ≤ x → holders t x = 0) {x : Int} (nonneg : 0 ≤ x) :
    (HandleTable.trackFd t.fdRefcounts fd).get? x =
      if holders t x + (if fd = some x then 1 else 0) = 0 then none else some 1 := by
  have before := tracked.counts x nonneg
  cases fd with
  | none => simpa [HandleTable.trackFd] using before
  | some y =>
    rw [HandleTable.trackFd, get?_insert]
    by_cases same : x = y
    · subst same
      rw [unheld x rfl nonneg] at before
      simp [before]
    · simpa [same, Ne.symm same] using before

theorem Tracked.allocateFull (unheld : ∀ x, entry.fd = some x → 0 ≤ x → holders t x = 0) :
    Tracked (t.allocateFull entry).2 := by
  refine ⟨tracked.free.insertBump entry, fun x nonneg => ?_⟩
  have sum : holders (t.allocateFull entry).2 x = _ := holders_insertBump rfl x
  rw [counts_allocateFull, sum, tracked.trackFd unheld nonneg]

theorem Tracked.insertAt {handle : UInt32} (vacant : t.get handle = none)
    (unheld : ∀ x, entry.fd = some x → 0 ≤ x → holders t x = 0) :
    ∃ t', t.insertAt handle entry = some (t', []) ∧ Tracked t' ∧
      ∀ x, holders t' x = holders t x + if entry.fd = some x then 1 else 0 := by
  obtain ⟨slab, inserted, free, sum, -⟩ := holders_insertAt tracked.free
  have old : fdAt t handle = none := by rw [fdAt, vacant, bind_none]
  obtain ⟨counts, closed⟩ := Prod.mk.inj ((releaseOld_counts t handle).2 old)
  rw [counts, closed] at inserted
  have total : ∀ x, holders ⟨slab, HandleTable.trackFd t.fdRefcounts entry.fd⟩ x =
      holders t x + if entry.fd = some x then 1 else 0 := by
    intro x
    simpa [old] using sum (HandleTable.trackFd t.fdRefcounts entry.fd) x
  refine ⟨_, inserted, ⟨free, fun x nonneg => ?_⟩, total⟩
  rw [total x]
  exact tracked.trackFd unheld nonneg

theorem Tracked.close (once : ∀ x, 0 ≤ x → holders t x ≤ 1) (handle : UInt32) :
    Tracked (t.close handle).1 ∧ ∀ x, 0 ≤ x →
      (t.close handle).2.count x = if fdAt t handle = some x then 1 else 0 := by
  have sum := holders_close t handle
  have free := free_close tracked.free handle
  obtain ⟨slab, old, unheld⟩ := close_counts t handle
  cases at_handle : fdAt t handle with
  | none =>
    obtain ⟨counts, closed⟩ := Prod.mk.inj (unheld at_handle)
    simp only [at_handle, reduceCtorEq, if_false, Nat.add_zero] at sum
    refine ⟨⟨free, fun x nonneg => ?_⟩, fun x _ => ?_⟩
    · rw [counts, sum, tracked.counts x nonneg]
    · simp [closed]
  | some y =>
    obtain ⟨counts, closed⟩ := Prod.mk.inj (old y at_handle)
    simp only [at_handle, some.injEq] at sum
    have last : 0 ≤ y → t.fdRefcounts.get? y = some 1 := by
      intro nonneg
      have := holders_pos at_handle
      rw [tracked.counts y nonneg, if_neg (by omega)]
    refine ⟨⟨free, fun x nonneg => ?_⟩, fun x nonneg => ?_⟩
    · rw [counts]
      by_cases same : x = y
      · subst same
        have here := sum x
        have most := once x nonneg
        rw [if_pos rfl] at here
        rw [releaseFd_last (last nonneg), get?_erase, if_pos rfl, if_pos (by omega)]
      · have here := sum x
        rw [if_neg (Ne.symm same), Nat.add_zero] at here
        rw [get?_releaseFd_ne same, here, tracked.counts x nonneg]
    · rw [closed]
      by_cases same : x = y
      · subst same
        simp [releaseFd_last (last nonneg)]
      · split <;> simp [Ne.symm same]

end

end

def nextHandle (s : DescriptorTables) (pid : UInt32) : UInt32 :=
  match s.processes.get? pid with
  | some t => t.slab.bump <<< 2
  | none => 0

def Needed (s : DescriptorTables) (p : UInt32) (x : Int) : Prop :=
  (∃ user, s.pendingReads.get? (p, user) = some x) ∨
    ∃ r ∈ s.pendingPipeReads, r.pid = p ∧ r.pipeFd = x

theorem held_insert (processes : Table UInt32 HandleTable) (t : HandleTable) (x : Int) :
    held (processes.insert pid t) p x = if p = pid then holders t x else held processes p x := by
  rw [held, get?_insert]
  split <;> rfl

theorem Owned.withTable (own : Owned s pid hand) {t : HandleTable} (tracked : Tracked t)
    (single : ∀ x, 0 ≤ x → Single (openFor s.kernel pid x) (held s.processes pid x)
      (owners s pid x + hand.count x) →
        Single (openFor s.kernel pid x) (holders t x) (owners s pid x + hand'.count x))
    (needed : ∀ x, 0 ≤ x → s.Needed pid x → 0 < held s.processes pid x → 0 < holders t x)
    (unheld : ∀ e ∈ s.clones, e.1 = pid → held s.processes pid e.2.fd = 0 → holders t e.2.fd = 0) :
    Owned { s with processes := s.processes.insert pid t } pid hand' := by
  refine ⟨?_, ?_, own.refs, own.fresh, ?_, ?_, ?_, own.clean⟩
  · intro p x nonneg
    have one := own.single p x nonneg
    change Single _ (held (s.processes.insert pid t) p x) (owners s p x + _)
    rw [held_insert]
    by_cases ours : p = pid
    · subst ours
      simp only [if_true] at one ⊢
      exact single x nonneg one
    · simpa [ours] using one
  · exact forall_insert own.tracked tracked
  · intro e mem
    rcases own.cloned e mem with kept | free
    · exact .inl kept
    · refine .inr ?_
      rw [held_insert]
      split
      · next ours => exact unheld e mem ours (ours ▸ free)
      · exact free
  · intro p user x found nonneg
    have before := own.reads p user x found nonneg
    rw [held_insert]
    split
    · next ours =>
      subst ours
      exact needed x nonneg (.inl ⟨user, found⟩) before
    · exact before
  · intro r mem nonneg
    have before := own.waits r mem nonneg
    rw [held_insert]
    split
    · next ours =>
      exact needed _ nonneg (.inr ⟨r, mem, ours, rfl⟩) (ours ▸ before)
    · exact before

theorem held_of_table {t : HandleTable} (found : s.processes.get? p = some t) (x : Int) :
    held s.processes p x = holders t x := by
  simp [held, found]

section
variable (own : Owned s pid hand)
include own

theorem Owned.newProcess (unknown : s.processes.get? pid = none) :
    Owned { s with processes := s.processes.insert pid .new } pid hand := by
  have before : ∀ x, held s.processes pid x = 0 := by simp [held, unknown]
  refine own.withTable ⟨⟨[], nodup_nil, rfl⟩, fun _ _ => rfl⟩ (fun x _ one => ?_)
    (fun x _ _ pos => ?_) fun _ _ _ _ => rfl
  · rwa [before] at one
  · rw [before] at pos
    cases pos

theorem Owned.hand_alone {x : Int} (nonneg : 0 ≤ x) (mem : x ∈ hand) :
    owners s pid x = 0 ∧ hand.count x = 1 := by
  have one := own.single pid x nonneg
  have := count_pos_iff.mpr mem
  simp only [if_true] at one
  unfold Single at one
  omega

theorem Owned.hand_unreferenced {x : Int} (nonneg : 0 ≤ x)
    (mem : x ∈ hand) : ∀ e ∈ s.references, e.2.fd ≠ x := by
  intro e ref same
  have at_e := own.ref_opened ref
  rw [same, own.hand_opened nonneg mem, some.injEq] at at_e
  have some_ := owners_ref ref
  rw [same, ← at_e, (own.hand_alone nonneg mem).1] at some_
  exact Nat.lt_irrefl 0 some_

theorem Owned.storeEntry {t t' : HandleTable} {fd : Option Int}
    (found : s.processes.get? pid = some t) (tracked : Tracked t')
    (sum : ∀ x, holders t' x = holders t x + if fd = some x then 1 else 0)
    (inHand : ∀ x, fd = some x → 0 ≤ x → holders t x = 0 ∧ x ∈ hand) :
    Owned { s with processes := s.processes.insert pid t' } pid hand := by
  refine own.withTable tracked (fun x nonneg one => ?_) (fun x _ _ pos => ?_)
    fun e mem _ free => ?_
  · rw [held_of_table found] at one
    rw [sum x]
    by_cases same : fd = some x
    · obtain ⟨none_, mem⟩ := inHand x same nonneg
      have := count_pos_iff.mpr mem
      rw [if_pos same]
      unfold Single at one ⊢
      omega
    · rwa [if_neg same]
  · rw [held_of_table found] at pos
    rw [sum x]
    omega
  · have ref := mem_references.mpr (.inr mem)
    rw [held_of_table found] at free
    rw [sum, free, if_neg]
    intro same
    obtain ⟨-, nonneg⟩ := own.fresh e ref
    exact own.hand_unreferenced nonneg (inHand _ same nonneg).2 e ref rfl

theorem Owned.allocEntry
    (inHand : ∀ x, entry.fd = some x → 0 ≤ x → held s.processes pid x = 0 ∧ x ∈ hand) :
    Owned (s.allocEntry pid entry).2 pid hand := by
  unfold DescriptorTables.allocEntry
  split
  · next t found =>
    have inHand : ∀ x, entry.fd = some x → 0 ≤ x → holders t x = 0 ∧ x ∈ hand := by
      intro x same nonneg
      rw [← held_of_table found]
      exact inHand x same nonneg
    exact own.storeEntry found
      ((own.tracked pid t found).allocateFull fun x same nonneg => (inHand x same nonneg).1)
      (holders_insertBump rfl) inHand
  · exact own

end

theorem allocEntry_fst : (s.allocEntry pid entry).1 = s.nextHandle pid := by
  cases found : s.processes.get? pid <;>
    simp [allocEntry, nextHandle, found, HandleTable.allocateFull, HeapSlab.insertBump]

/-! ### Records that move -/

theorem Owned.unhand {x : Int} (own : Owned s pid (x :: hand))
    (held_ : 0 ≤ x → 0 < held s.processes pid x) : Owned s pid hand := by
  refine { own with single := fun p y nonneg => ?_ }
  have one := own.single p y nonneg
  by_cases same : y = x
  · subst same
    rw [count_cons_self] at one
    unfold Single at one ⊢
    by_cases ours : p = pid
    · subst ours
      simp only [if_true] at one ⊢
      omega
    · simpa [ours] using one
  · rwa [count_cons_of_ne (Ne.symm same)] at one

theorem Owned.moved {t : DescriptorTables} (own : Owned s pid hand) (kernel : t.kernel = s.kernel)
    (processes : t.processes = s.processes) (ntsyncObjects : t.ntsyncObjects = s.ntsyncObjects)
    (clones : t.clones = s.clones) (nextObj : t.nextObj = s.nextObj)
    (pendingReads : t.pendingReads = s.pendingReads)
    (pendingPipeReads : t.pendingPipeReads = s.pendingPipeReads)
    (sum : ∀ p x, owners t p x + (if p = pid then hand'.count x else 0) =
      owners s p x + if p = pid then hand.count x else 0) : Owned t pid hand' := by
  have references : t.references = s.references := by
    rw [references, ntsyncObjects, clones, references]
  refine ⟨?_, ?_, ?_, ?_, ?_, ?_, ?_, ?_⟩
  · intro p x nonneg
    rw [kernel, processes, sum]
    exact own.single p x nonneg
  · rw [processes]
    exact own.tracked
  · rw [references]
    exact own.refs
  · rw [references, nextObj]
    exact own.fresh
  · rw [clones, ntsyncObjects, processes]
    exact own.cloned
  · rw [pendingReads, processes]
    exact own.reads
  · rw [pendingPipeReads, processes]
    exact own.waits
  · rw [kernel]
    exact own.clean

theorem stow_sum {t : DescriptorTables} {x : Int}
    (sum : ∀ p y, owners t p y = owners s p y + if p = pid ∧ y = x then 1 else 0) (p : UInt32)
    (y : Int) : owners t p y + (if p = pid then hand.count y else 0) =
      owners s p y + if p = pid then (x :: hand).count y else 0 := by
  rw [sum, count_cons]
  by_cases ours : p = pid <;> by_cases same : y = x
  · simp only [ours, same, and_self, if_true, beq_self_eq_true]
    omega
  · simp [ours, same, Ne.symm same]
  all_goals simp [ours]

theorem Owned.trackPipe {x : Int} (own : Owned s pid (x :: hand)) {handle : UInt32}
    (vacant : s.sideTables.pipeHandles.get? (pid, handle) = none) :
    Owned (s.trackPipe pid handle x) pid hand := by
  refine own.moved rfl rfl rfl rfl rfl rfl rfl (stow_sum fun p y => ?_)
  change piped (s.sideTables.pipeHandles.insert (pid, handle) x) p y +
    awaited s.pendingPipeReads p y + ends s.namedPipes p y + objects s.references p y = _
  have sum := s.sideTables.pipeHandles.weigh_insert (fun k v => if k.1 = p ∧ v = y then 1 else 0)
    (pid, handle) x
  simp only [vacant, map_none, getD_none, Nat.add_zero] at sum
  rw [piped, sum, owners, piped]
  grind

theorem ends_addInstance (pipes : Table String (List NamedPipeInfo)) (name : String)
    (handle : UInt32) (x : Int) (state : PipeState) (p : UInt32) (y : Int) :
    ends (pipes.insert name ((pipes.get? name).getD [] ++ [⟨pid, handle, x, state⟩])) p y =
      ends pipes p y + if p = pid ∧ y = x then 1 else 0 := by
  have sum := pipes.weigh_insert (fun _ l => l.countP fun info : NamedPipeInfo =>
    info.serverPid = p ∧ info.clientDataFd = y) name
      ((pipes.get? name).getD [] ++ [⟨pid, handle, x, state⟩])
  have one : List.countP (fun info : NamedPipeInfo => decide (info.serverPid = p ∧
      info.clientDataFd = y)) [⟨pid, handle, x, state⟩] = if p = pid ∧ y = x then 1 else 0 := by
    rw [countP_singleton]
    exact if_congr (decide_eq_true_iff.trans (and_congr eq_comm eq_comm)) rfl rfl
  rw [countP_append] at sum
  unfold ends
  cases found : pipes.get? name <;> simp only [found, map_none, map_some,
    getD_none, getD_some, countP_nil] at sum ⊢ <;> omega

theorem Owned.addInstance {x : Int} (own : Owned s pid (x :: hand)) (name : String)
    (handle : UInt32) (state : PipeState) :
    Owned (s.addInstance name ⟨pid, handle, x, state⟩) pid hand := by
  refine own.moved rfl rfl rfl rfl rfl rfl rfl (stow_sum fun p y => ?_)
  change piped s.sideTables.pipeHandles p y + awaited s.pendingPipeReads p y +
    ends (s.namedPipes.insert name _) p y + objects s.references p y = _
  rw [ends_addInstance, owners]
  omega

theorem countP_updateFirst (p : NamedPipeInfo → Bool) (f : NamedPipeInfo → NamedPipeInfo)
    {q : NamedPipeInfo → Bool} {l : List NamedPipeInfo} (same : ∀ i ∈ l.find? p, q (f i) = q i) :
    (updateFirst p f l).countP q = l.countP q := by
  induction l with
  | nil => rfl
  | cons i rest ih =>
    rw [updateFirst]
    cases yes : p i with
    | true | false => simp_all [countP_cons]

/-! ### References to objects -/

theorem objects_congr {a b : List (UInt32 × NtsyncRef)}
    (same : ∀ e : UInt32 × NtsyncRef, e.1 = p → (e ∈ a ↔ e ∈ b)) (x : Int) :
    objects a p x = objects b p x := by
  refine if_congr (exists_congr fun e => ?_) rfl rfl
  constructor
  · rintro ⟨mem, ours, rest⟩
    exact ⟨(same e ours).mp mem, ours, rest⟩
  · rintro ⟨mem, ours, rest⟩
    exact ⟨(same e ours).mpr mem, ours, rest⟩

theorem mem_orphaned {t : DescriptorTables} {x : Int} : x ∈ t.orphaned gone ↔
      ∃ r ∈ gone, (∀ e ∈ t.references, e.2.obj ≠ r.obj) ∧ r.fd = x := by
  simp [orphaned, and_assoc]

def Lost (s t : DescriptorTables) (pid : UInt32) (gone : List NtsyncRef) : Prop :=
  ∀ e, e ∈ s.references ↔ e ∈ t.references ∨ e.1 = pid ∧ e.2 ∈ gone

/-- Each object loses its last reference once, and its descriptor is closed then. -/
theorem Owned.count_orphaned (own : Owned s pid hand) {t : DescriptorTables}
    (lost : Lost s t pid gone) (x : Int) :
    objects t.references pid x + (t.orphaned gone).count x = objects s.references pid x := by
  have was : ∀ r ∈ gone, (pid, r) ∈ s.references := fun r mem => (lost (pid, r)).mpr (.inr ⟨rfl, mem⟩)
  have nodup : (t.orphaned gone).Nodup := by
    refine (nodup_dedup _).map_on fun r mem r' mem' same => ?_
    have mem := was r (mem_filter.mp (mem_dedup.mp mem)).1
    have mem' := was r' (mem_filter.mp (mem_dedup.mp mem')).1
    have obj := (own.refs _ mem _ mem').mpr same
    cases r
    simp_all
  rw [nodup.count]
  by_cases kept : ∃ e ∈ t.references, e.1 = pid ∧ e.2.fd = x
  · obtain ⟨e, mem, ours, at_x⟩ := kept
    have before := (lost e).mpr (.inl mem)
    have alive : x ∉ t.orphaned gone := by
      intro dead
      obtain ⟨r, r_gone, alone, same⟩ := mem_orphaned.mp dead
      exact alone e mem ((own.refs e before _ (was r r_gone)).mpr (at_x.trans same.symm))
    rw [← ours, ← at_x, objects_eq_one mem, objects_eq_one before, at_x, if_neg alive]
  · rw [objects, if_neg kept, Nat.zero_add]
    refine if_congr ?_ rfl rfl
    rw [mem_orphaned]
    constructor
    · rintro ⟨r, mem, -, same⟩
      exact ⟨(pid, r), was r mem, rfl, same⟩
    · rintro ⟨e, mem, ours, at_x⟩
      obtain ⟨-, gone_⟩ := ((lost e).mp mem).resolve_left fun here => kept ⟨e, here, ours, at_x⟩
      refine ⟨e.2, gone_, fun f here same => kept ⟨f, here, ?_⟩, at_x⟩
      have before := (lost f).mpr (.inl here)
      have fds := (own.refs f before e mem).mp same
      have opened := own.ref_opened before
      rw [fds, own.ref_opened mem, ours] at opened
      exact ⟨(some.inj opened).symm, fds.trans at_x⟩

variable {objects_ : Table (UInt32 × UInt32) NtsyncRef}

/-- References that go leave the descriptors of their objects to the handler. -/
theorem Owned.release (own : Owned s pid hand) {clones : List (UInt32 × NtsyncRef)}
    (lost : Lost s { s with ntsyncObjects := objects_, clones := clones } pid gone)
    (fewer : ∀ e ∈ clones, e ∈ s.clones)
    (kept : ∀ e ∈ clones, ∀ handle, s.ntsyncObjects.get? (e.1, handle) = some e.2 →
      (∃ handle, objects_.get? (e.1, handle) = some e.2) ∨ held s.processes e.1 e.2.fd = 0) :
    Owned { s with ntsyncObjects := objects_, clones := clones } pid
      (orphaned { s with ntsyncObjects := objects_, clones := clones } gone ++ hand) := by
  refine { own with single := ?_, refs := ?_, fresh := ?_, cloned := ?_ }
  · intro p x nonneg
    have one := own.single p x nonneg
    have count := own.count_orphaned lost x
    unfold owners at one ⊢
    rw [count_append]
    by_cases ours : p = pid
    · subst ours
      simp only [if_true] at one ⊢
      convert one using 1
      omega
    · have same : objects (references { s with ntsyncObjects := objects_, clones := clones }) p x =
          objects s.references p x := by
        refine objects_congr (fun e at_p => ?_) x
        rw [lost e]
        exact (or_iff_left fun both => ours (at_p.symm.trans both.1)).symm
      simp only [ours, if_false] at one ⊢
      rw [same]
      exact one
  · intro e mem f mem'
    exact own.refs e ((lost e).mpr (.inl mem)) f ((lost f).mpr (.inl mem'))
  · intro e mem
    exact own.fresh e ((lost e).mpr (.inl mem))
  · intro e mem
    rcases own.cloned e (fewer e mem) with ⟨handle, found⟩ | free
    · exact kept e mem handle found
    · exact .inr free

theorem objects_add {a b : List (UInt32 × NtsyncRef)} {new : UInt32 × NtsyncRef}
    (mem_iff : ∀ e, e ∈ a ↔ e = new ∨ e ∈ b) (other : ∀ e ∈ b, e.2.fd ≠ new.2.fd)
    (y : Int) : objects a p y = objects b p y + if p = new.1 ∧ y = new.2.fd then 1 else 0 := by
  by_cases here : p = new.1 ∧ y = new.2.fd
  · obtain ⟨rfl, rfl⟩ := here
    have before : objects b new.1 new.2.fd = 0 := if_neg fun ⟨e, mem, _, same⟩ => other e mem same
    rw [before, objects_eq_one ((mem_iff new).mpr (.inl rfl)), if_pos ⟨rfl, rfl⟩]
  · rw [if_neg here]
    refine if_congr (exists_congr fun e => ?_) rfl rfl
    rw [mem_iff]
    constructor
    · rintro ⟨rfl | mem, ours, at_y⟩
      · exact absurd ⟨ours.symm, at_y.symm⟩ here
      · exact ⟨mem, ours, at_y⟩
    · rintro ⟨mem, rest⟩
      exact ⟨.inr mem, rest⟩

def Gained (s t : DescriptorTables) (pid handle : UInt32) (x : Int) : Prop :=
  s.ntsyncObjects.get? (pid, handle) = none ∧ t.clones = s.clones ∧ ∀ k, t.ntsyncObjects.get? k =
      if k = (pid, handle) then some ⟨s.nextObj, x⟩ else s.ntsyncObjects.get? k

section
variable {t : DescriptorTables} {handle : UInt32} {x : Int}

theorem Gained.kept (gained : Gained s t pid handle x) {h : UInt32} {r : NtsyncRef}
    (found : s.ntsyncObjects.get? (p, h) = some r) : t.ntsyncObjects.get? (p, h) = some r := by
  obtain ⟨vacant, -, lookup⟩ := gained
  rw [lookup, if_neg, found]
  intro same
  rw [same, vacant] at found
  cases found

theorem Gained.references (gained : Gained s t pid handle x) (e : UInt32 × NtsyncRef) :
    e ∈ t.references ↔ e = (pid, ⟨s.nextObj, x⟩) ∨ e ∈ s.references := by
  obtain ⟨p, r⟩ := e
  have clones := gained.2.1
  have lookup := gained.2.2
  simp only [mem_references, clones]
  constructor
  · rintro (⟨h, found⟩ | kept)
    · rw [lookup] at found
      split at found
      · next same =>
        cases found
        cases same
        exact .inl rfl
      · exact .inr (.inl ⟨h, found⟩)
    · exact .inr (.inr kept)
  · rintro (same | ⟨h, found⟩ | kept)
    · cases same
      exact .inl ⟨handle, by rw [lookup, if_pos rfl]⟩
    · exact .inl ⟨h, gained.kept found⟩
    · exact .inr kept

end

theorem Owned.adopt {x : Int} (own : Owned s pid (x :: hand)) (nonneg : 0 ≤ x) {handle : UInt32}
    (gained : Gained s { s with ntsyncObjects := objects_, nextObj := s.nextObj + 1 } pid handle x) :
    Owned { s with ntsyncObjects := objects_, nextObj := s.nextObj + 1 } pid hand := by
  have mem_iff := gained.references
  have other := own.hand_unreferenced nonneg mem_cons_self
  have sum : ∀ p y, owners { s with ntsyncObjects := objects_, nextObj := s.nextObj + 1 } p y =
      owners s p y + if p = pid ∧ y = x then 1 else 0 := by
    intro p y
    unfold owners
    rw [objects_add mem_iff other, ← Nat.add_assoc]
  refine ⟨fun p y y_nonneg => ?_, own.tracked, fun e mem f mem' => ?_, fun e mem => ?_,
    fun e mem => ?_, own.reads, own.waits, own.clean⟩
  · rw [stow_sum sum]
    exact own.single p y y_nonneg
  · rcases (mem_iff e).mp mem with rfl | old <;> rcases (mem_iff f).mp mem' with rfl | old'
    · simp
    · have := (own.fresh f old').1
      exact iff_of_false (by dsimp only; omega) (other f old').symm
    · have := (own.fresh e old).1
      exact iff_of_false (by dsimp only; omega) (other e old)
    · exact own.refs e old f old'
  · rcases (mem_iff e).mp mem with rfl | old
    · exact ⟨Nat.lt_succ_self _, nonneg⟩
    · exact ⟨Nat.lt_succ_of_lt (own.fresh e old).1, (own.fresh e old).2⟩
  · rcases own.cloned e mem with ⟨h, found⟩ | free
    · exact .inl ⟨h, gained.kept found⟩
    · exact .inr free

end
end Triskelion.DescriptorTables
