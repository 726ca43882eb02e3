import Triskelion.RunRules
import Triskelion.SlabContents
import Mathlib.Logic.Function.Basic

/-! The descriptor counts of a handle table: over which runs they stay exact, and a
descriptor is closed just when its last holder goes. The pipe handlers change the
descriptor of an entry behind the counts. -/

namespace Triskelion.DescriptorCounts

open HandleTable RunRules List Option HeapSlab

/-! ### Counts against a number of holders -/

def CountsOf (counts : Table Int UInt32) (n : Int → Nat) : Prop :=
  ∀ fd, (counts.get? fd).map UInt32.toNat = if n fd = 0 then none else some (n fd)

variable {counts : Table Int UInt32} {fd : Int} {n : Int → Nat} {handle : UInt32} {t : HandleTable}
  {entry : HandleEntry}

theorem CountsOf.get (exact_ : CountsOf counts n) (held : 0 < n fd) :
    ∃ count, counts.get? fd = some count ∧ count.toNat = n fd := by
  have here := exact_ fd
  rw [if_neg (by omega)] at here
  exact map_eq_some_iff.mp here

theorem CountsOf.lt (exact_ : CountsOf counts n) (fd : Int) : n fd < 4294967296 := by
  rcases Nat.eq_zero_or_pos (n fd) with zero | held
  · omega
  · obtain ⟨count, -, same⟩ := exact_.get held
    have := count.toNat_lt
    omega

variable {m : Int → Nat} {slab : HeapSlab HandleEntry}

section
variable (exact_ : CountsOf counts n)
include exact_

theorem releaseFd_counts (here : m fd + 1 = n fd) (off : ∀ f, f ≠ fd → m f = n f) :
    CountsOf (releaseFd slab counts fd).1 m ∧ (releaseFd slab counts fd).2 = decide (m fd = 0) := by
  have held : 0 < n fd := by omega
  obtain ⟨count, found, same⟩ := exact_.get held
  have less : (count - 1).toNat = m fd := by
    have small := count.toNat_lt
    simp only [UInt32.toNat_sub, UInt32.reduceToNat]
    omega
  have last : count - 1 = 0 ↔ m fd = 0 := by
    rw [← less, ← UInt32.toNat_inj]
    rfl
  rw [releaseFd, found]
  dsimp only
  split
  · next zero =>
    refine ⟨fun f => ?_, (decide_eq_true (last.mp zero)).symm⟩
    rw [Table.get?_erase]
    split
    · next equal => rw [equal, if_pos (last.mp zero), map_none]
    · next other => rw [off f other, exact_ f]
  · next more =>
    have several : m fd ≠ 0 := fun zero => more (last.mpr zero)
    refine ⟨fun f => ?_, (decide_eq_false several).symm⟩
    rw [Table.get?_insert]
    split
    · next equal => rw [equal, if_neg several, map_some, less]
    · next other => rw [off f other, exact_ f]

theorem get?_trackFd :
    ((trackFd counts (some fd)).get? fd).map UInt32.toNat = some ((n fd + 1) % 4294967296) := by
  have here := exact_ fd
  rw [trackFd, Table.get?_insert, if_pos rfl]
  cases found : counts.get? fd with
  | none =>
    rw [found] at here
    have zero : n fd = 0 := by
      by_contra held
      rw [if_neg held] at here
      cases here
    rw [zero]
    rfl
  | some =>
    have held : n fd ≠ 0 := by
      intro zero
      rw [found, if_pos zero] at here
      cases here
    rw [found, if_neg held] at here
    rw [← some.inj here]
    rfl

theorem trackFd_counts {stored : Option Int}
    (sum : ∀ f, m f = n f + if stored = some f then 1 else 0)
    (room : ∀ fd, stored = some fd → n fd + 1 < 4294967296) :
    CountsOf (trackFd counts stored) m := by
  intro f
  cases stored with
  | none => rw [sum f, if_neg (some_ne_none f).symm, trackFd, exact_ f, Nat.add_zero]
  | some fd =>
    by_cases equal : f = fd
    · subst equal
      rw [get?_trackFd exact_, Nat.mod_eq_of_lt (room f rfl), sum f, if_pos rfl, if_neg (by omega)]
    · have other : some fd ≠ some f := fun same => equal (some.inj same).symm
      rw [trackFd, Table.get?_insert, if_neg equal, sum f, if_neg other, exact_ f, Nat.add_zero]

end

/-! ### The holders of a descriptor -/

def holders (t : HandleTable) (fd : Int) : Nat := t.slab.iter.countP fun e => e.fd = some fd

def holds (fd : Int) (slot : Option HandleEntry) : Bool := slot.bind HandleEntry.fd = some fd

theorem holders_eq : holders t fd = t.slab.contents.countP (holds fd) := by
  rw [holders, iter_eq, countP_filterMap]
  congr 1
  ext1 slot
  cases slot <;> simp [holds]

theorem countP_set_add {p : Option HandleEntry → Bool} {l : List (Option HandleEntry)} {i : Nat}
    (bound : i < l.length) (a : Option HandleEntry) :
    (l.set i a).countP p + (if p l[i] then 1 else 0) = l.countP p + if p a then 1 else 0 := by
  rw [countP_set bound]
  have : p l[i] → 0 < l.countP p := fun yes =>
    countP_pos_iff.mpr ⟨l[i], getElem_mem bound, yes⟩
  by_cases yes : p l[i]
  · have := this yes
    simp only [yes, if_true]
    omega
  · simp only [yes]
    rfl

def fdAt (t : HandleTable) (handle : UInt32) : Option Int := (t.get handle).bind HandleEntry.fd

variable {u : HandleTable}

theorem holders_set {slot : Option HandleEntry} {n : Nat} (contents : u.slab.contents =
      (t.slab.contents ++ replicate n none).set (handle >>> 2).toNat slot)
    (bound : (handle >>> 2).toNat < t.slab.slots.length + n) (fd : Int) :
    holders u fd + (if fdAt t handle = some fd then 1 else 0) =
      holders t fd + if slot.bind HandleEntry.fd = some fd then 1 else 0 := by
  have inside : (handle >>> 2).toNat < (t.slab.contents ++ replicate n none).length := by
    rwa [length_append, length_replicate, contents_length]
  have none_free : (replicate n (none : Option HandleEntry)).countP (holds fd) = 0 := by
    rw [countP_replicate]
    rfl
  have old : (t.slab.contents ++ replicate n none)[(handle >>> 2).toNat] = t.get handle := by
    rw [get_eq, getElem_append]
    split
    · next less => rw [getElem?_eq_getElem less]; rfl
    · next more =>
      rw [getElem_replicate, getElem?_eq_none (Nat.le_of_not_lt more)]
      rfl
  have count := countP_set_add (p := holds fd) inside slot
  rw [← contents, countP_append, none_free, old] at count
  rw [holders_eq, holders_eq, fdAt]
  simpa [holds] using count

theorem holders_pos (held : fdAt t handle = some fd) : 0 < holders t fd := by
  rw [holders_eq]
  obtain ⟨entry, live, at_fd⟩ := bind_eq_some_iff.mp held
  rw [get_eq] at live
  have found := join_eq_some_iff.mp live
  refine countP_pos_iff.mpr ⟨some entry, mem_of_getElem? found, ?_⟩
  simpa [holds] using at_fd

theorem mem_iter_of_get (live : t.get handle = some entry) : entry ∈ t.slab.iter := by
  rw [get_eq] at live
  rw [iter_eq, mem_filterMap]
  exact ⟨some entry, mem_of_getElem? (join_eq_some_iff.mp live), rfl⟩

/-! ### Runs -/

inductive FdOp
  | allocate (objectId : UInt64)
  | allocateFull (entry : HandleEntry)
  | insertAt (handle : UInt32) (entry : HandleEntry)
  | replaceFd (handle : UInt32) (fd : Int)
  | close (handle : UInt32)

def FdOp.opens : FdOp → Option Int
  | .allocate _ | .close _ => none
  | .allocateFull entry | .insertAt _ entry => entry.fd
  | .replaceFd _ fd => some fd

/-- The table, the one before the last operation with the descriptors that operation
closed, and the descriptors that are closed by now: closed by the table and not
opened again since. -/
structure FdLedger where
  table : HandleTable
  before : HandleTable
  closes : List Int
  dead : List Int

namespace FdLedger

def new : FdLedger := ⟨.new, .new, [], []⟩

def apply (t : HandleTable) : FdOp → HandleTable × List Int
  | .allocate objectId => ((t.allocate objectId).2, [])
  | .allocateFull entry => ((t.allocateFull entry).2, [])
  | .insertAt handle entry => (t.insertAt handle entry).getD (t, [])
  | .replaceFd handle fd => t.replaceFd handle fd
  | .close handle => t.close handle

def step (s : FdLedger) (op : FdOp) : FdLedger where
  table := (apply s.table op).1
  before := s.table
  closes := (apply s.table op).2
  dead := (apply s.table op).2 ++ s.dead.filter fun fd => op.opens ≠ some fd

end FdLedger

open FdLedger

/-- The counts are those of the live entries, the last operation closed what lost
its last holder, once, and nothing live is closed. -/
structure Exact (s : FdLedger) : Prop where
  counts : CountsOf s.table.fdRefcounts (holders s.table)
  closes : ∀ fd, s.closes.count fd =
    if 0 < holders s.before fd ∧ holders s.table fd = 0 then 1 else 0
  live : ∀ entry ∈ s.table.slab.iter, ∀ fd, entry.fd = some fd → fd ∉ s.dead

section
variable (t : HandleTable) (handle : UInt32) (fd : Int)

def otherHolders : Nat :=
  holders t fd - if fdAt t handle = some fd then 1 else 0

theorem otherHolders_add :
    otherHolders t handle fd + (if fdAt t handle = some fd then 1 else 0) = holders t fd := by
  rw [otherHolders]
  split
  · next held =>
    have := holders_pos held
    omega
  · rfl

end

/-- The operations that keep the counts: one that stores a descriptor does not
overwrite its only other holder and finds room in the count, and no descriptor is
replaced in place. -/
def Counted (s : FdLedger) : FdOp → Prop
  | .allocate _ | .close _ => True
  | .allocateFull entry => ∀ fd, entry.fd = some fd → holders s.table fd + 1 < 4294967296
  | .insertAt handle entry => ∀ fd, entry.fd = some fd →
      (fdAt s.table handle = some fd → otherHolders s.table handle fd ≠ 0) ∧
        otherHolders s.table handle fd + 1 < 4294967296
  | .replaceFd handle _ => s.table.get handle = none

structure Kept (s : FdLedger) : Prop extends Exact s where
  free : s.table.slab.FreeList

variable {s : FdLedger}

variable {closed : List Int}

theorem exact_of_holders (kept : Exact s) {op : FdOp} {table : HandleTable}
    (applied : apply s.table op = (table, closed))
    (counts : CountsOf table.fdRefcounts (holders table)) (closes : ∀ fd, closed.count fd =
      if 0 < holders s.table fd ∧ holders table fd = 0 then 1 else 0)
    (held : ∀ fd, 0 < holders table fd → op.opens = some fd ∨ 0 < holders s.table fd) :
    Exact (s.step op) := by
  refine ⟨?_, ?_, ?_⟩
  · rw [step, applied]
    exact counts
  · rw [step, applied]
    exact closes
  · rw [step, applied]
    intro entry mem fd at_fd dead
    have now : 0 < holders table fd :=
      countP_pos_iff.mpr ⟨entry, mem, by simpa using at_fd⟩
    rcases mem_append.mp dead with just | earlier
    · have : closed.count fd = 0 := by
        rw [closes fd, if_neg (by omega)]
      exact count_eq_zero.mp this just
    · obtain ⟨old, unopened⟩ := mem_filter.mp earlier
      have unopened : op.opens ≠ some fd := by simpa using unopened
      obtain ⟨holder, live, same⟩ := countP_pos_iff.mp ((held fd now).resolve_left unopened)
      exact kept.live holder live fd (by simpa using same) old

theorem holders_insertBump (slab : u.slab = (t.slab.insertBump entry).2)
    (fd : Int) : holders u fd = holders t fd + if entry.fd = some fd then 1 else 0 := by
  rw [holders_eq, slab, contents_insertBump, countP_append, ← holders_eq]
  simp [holds, countP_cons]

theorem counts_allocateFull :
    (t.allocateFull entry).2.fdRefcounts = trackFd t.fdRefcounts entry.fd := by
  obtain ⟨_, fd, _, _, _⟩ := entry
  cases fd <;> rfl

theorem closes_nil {t' : HandleTable} (more : ∀ fd, holders t fd ≤ holders t' fd) (fd : Int) :
    ([] : List Int).count fd = if 0 < holders t fd ∧ holders t' fd = 0 then 1 else 0 := by
  have := more fd
  rw [if_neg (by omega)]
  rfl

theorem exact_allocate (kept : Exact s) (objectId : UInt64) :
    Exact (s.step (.allocate objectId)) := by
  have same : ∀ fd, holders (s.table.allocate objectId).2 fd = holders s.table fd := by
    intro fd
    have sum := holders_insertBump (u := (s.table.allocate objectId).2) (t := s.table) rfl fd
    rw [sum, if_neg (some_ne_none fd).symm, Nat.add_zero]
  refine exact_of_holders kept rfl ?_ (closes_nil fun fd => Nat.le_of_eq (same fd).symm) ?_
  · intro fd
    rw [same fd]
    exact kept.counts fd
  · intro fd now
    exact .inr (same fd ▸ now)

theorem exact_allocateFull (kept : Exact s) (room : Counted s (.allocateFull entry)) :
    Exact (s.step (.allocateFull entry)) := by
  have sum : ∀ fd, holders (s.table.allocateFull entry).2 fd =
      holders s.table fd + if entry.fd = some fd then 1 else 0 :=
    holders_insertBump rfl
  refine exact_of_holders kept rfl ?_ (closes_nil fun fd => ?_) fun fd now => ?_
  · exact trackFd_counts kept.counts sum room
  · rw [sum fd]
    exact Nat.le_add_right _ _
  · rw [sum fd] at now
    split at now
    · next same => exact .inl same
    · exact .inr now

theorem released (exact_ : CountsOf counts n) (slab : HeapSlab HandleEntry)
    (sum : ∀ f, m f + (if f = fd then 1 else 0) = n f) : CountsOf (releaseFd slab counts fd).1 m ∧
      ∀ f, (if (releaseFd slab counts fd).2 then [fd] else []).count f =
        if 0 < n f ∧ m f = 0 then 1 else 0 := by
  have at_fd := sum fd
  rw [if_pos rfl] at at_fd
  have off : ∀ f, f ≠ fd → m f = n f := by
    intro f other
    have := sum f
    rwa [if_neg other] at this
  obtain ⟨counts', closes⟩ := releaseFd_counts exact_ at_fd off
  refine ⟨counts', fun f => ?_⟩
  rw [closes]
  by_cases equal : f = fd
  · subst equal
    by_cases last : m f = 0
    · rw [if_pos (decide_eq_true last), if_pos ⟨by omega, last⟩, count_singleton_self]
    · rw [if_neg (by simpa using last), if_neg fun both => last both.2, count_nil]
  · have held : ¬ (0 < n f ∧ m f = 0) := by
      rw [off f equal]
      omega
    rw [if_neg held, count_eq_zero]
    intro mem
    split at mem
    · exact equal (mem_singleton.mp mem)
    · cases mem

theorem released_fdAt (exact_ : CountsOf t.fdRefcounts (holders t))
    (sum : ∀ f, m f + (if fdAt t handle = some f then 1 else 0) = holders t f)
    (old : ∀ fd, fdAt t handle = some fd → (counts, closed) = ((releaseFd slab t.fdRefcounts fd).1,
        if (releaseFd slab t.fdRefcounts fd).2 then [fd] else []))
    (unheld : fdAt t handle = none → (counts, closed) = (t.fdRefcounts, [])) :
    CountsOf counts m ∧ ∀ f, closed.count f = if 0 < holders t f ∧ m f = 0 then 1 else 0 := by
  cases at_handle : fdAt t handle with
  | none =>
    obtain ⟨rfl, rfl⟩ := Prod.mk.inj (unheld at_handle)
    have same : ∀ f, m f = holders t f := by
      intro f
      have := sum f
      rwa [at_handle] at this
    refine ⟨fun f => same f ▸ exact_ f, fun f => ?_⟩
    rw [same f, if_neg (by omega)]
    rfl
  | some fd =>
    obtain ⟨rfl, rfl⟩ := Prod.mk.inj (old fd at_handle)
    refine released exact_ slab fun f => ?_
    rw [← sum f, at_handle]
    simp [eq_comm]

section
variable (t : HandleTable) (handle : UInt32)

theorem holders_close (fd : Int) :
    holders (t.close handle).1 fd + (if fdAt t handle = some fd then 1 else 0) = holders t fd := by
  by_cases live : t.get handle = none
  · rw [close_vacant live, fdAt, live, bind_none, if_neg (some_ne_none fd).symm, Nat.add_zero]
  · have inside : (handle >>> 2).toNat < t.slab.slots.length := by
      by_contra outside
      apply live
      rw [get_eq, getElem?_eq_none (by rw [contents_length]; omega)]
      rfl
    have contents := contents_close t handle
    rw [← append_nil t.slab.contents] at contents
    exact holders_set (n := 0) contents inside fd

theorem close_counts : ∃ slab, (∀ fd, fdAt t handle = some fd →
        ((t.close handle).1.fdRefcounts, (t.close handle).2) = ((releaseFd slab t.fdRefcounts fd).1,
            if (releaseFd slab t.fdRefcounts fd).2 then [fd] else [])) ∧
      (fdAt t handle = none →
        ((t.close handle).1.fdRefcounts, (t.close handle).2) = (t.fdRefcounts, [])) := by
  rw [fdAt]
  cases live : t.get handle with
  | none =>
    rw [close_vacant live]
    exact ⟨t.slab, fun fd held => absurd held.symm (some_ne_none fd), fun _ => rfl⟩
  | some entry =>
    obtain ⟨slab, removed⟩ := removeUnchecked_some live
    rw [close, removed]
    obtain ⟨_, stored, _, _, _⟩ := entry
    cases stored with
    | none => exact ⟨slab, fun fd held => absurd held.symm (some_ne_none fd), fun _ => rfl⟩
    | some own =>
      refine ⟨slab, fun fd held => ?_, fun unheld => absurd unheld (some_ne_none own)⟩
      cases held
      rfl

end

theorem exact_close (kept : Exact s) (handle : UInt32) : Exact (s.step (.close handle)) := by
  have sum := holders_close s.table handle
  obtain ⟨slab, old, unheld⟩ := close_counts s.table handle
  obtain ⟨counts, closes⟩ := released_fdAt kept.counts sum old unheld
  refine exact_of_holders kept rfl counts closes fun fd now => .inr ?_
  exact Nat.lt_of_lt_of_le now ((sum fd).symm ▸ Nat.le_add_right _ _)

theorem holders_insertAt (free : t.slab.FreeList) :
    ∃ slab, t.insertAt handle entry = some (⟨slab, trackFd (t.releaseOld (handle >>> 2)).1 entry.fd⟩,
        (t.releaseOld (handle >>> 2)).2) ∧ slab.FreeList ∧
      (∀ counts fd, holders ⟨slab, counts⟩ fd + (if fdAt t handle = some fd then 1 else 0) =
        holders t fd + if entry.fd = some fd then 1 else 0) ∧
      ∀ counts, (⟨slab, counts⟩ : HandleTable).get handle = some entry := by
  obtain ⟨slab, stored, free', -, contents⟩ :=
    insertAt_spec free (index_ne_freeEnd handle)
  refine ⟨slab, insertAt_some stored, free', fun counts fd => ?_, fun counts => ?_⟩
  · exact holders_set (u := ⟨slab, counts⟩) contents (by omega) fd
  · rw [get_eq]
    rw [contents, getElem?_set_self]
    · rfl
    · rw [length_append, length_replicate, contents_length]
      omega

theorem releaseOld_counts (t : HandleTable) (handle : UInt32) : (∀ fd, fdAt t handle = some fd →
        ((t.releaseOld (handle >>> 2)).1, (t.releaseOld (handle >>> 2)).2) =
          ((releaseFd t.slab t.fdRefcounts fd).1,
            if (releaseFd t.slab t.fdRefcounts fd).2 then [fd] else [])) ∧
      (fdAt t handle = none → ((t.releaseOld (handle >>> 2)).1, (t.releaseOld (handle >>> 2)).2) =
          (t.fdRefcounts, [])) := by
  have at_index : (t.slab.getUnchecked (handle >>> 2)).bind HandleEntry.fd = fdAt t handle := rfl
  rw [releaseOld, at_index]
  cases fdAt t handle with
  | none => exact ⟨fun fd held => absurd held.symm (some_ne_none fd), fun _ => rfl⟩
  | some own =>
    refine ⟨fun fd held => ?_, fun unheld => absurd unheld (some_ne_none own)⟩
    cases held
    rfl

theorem releaseOld_exact (exact_ : CountsOf t.fdRefcounts (holders t)) :
    CountsOf (t.releaseOld (handle >>> 2)).1 (otherHolders t handle) ∧
      ∀ f, (t.releaseOld (handle >>> 2)).2.count f =
        if 0 < holders t f ∧ otherHolders t handle f = 0 then 1 else 0 := by
  obtain ⟨old, unheld⟩ := releaseOld_counts t handle
  exact released_fdAt exact_ (otherHolders_add t handle) old unheld

theorem apply_insertAt {result : HandleTable × List Int}
    (inserted : t.insertAt handle entry = some result) : apply t (.insertAt handle entry) = result := by
  rw [apply, inserted, getD_some]

theorem exact_insertAt (kept : Kept s) (counted : Counted s (.insertAt handle entry)) :
    Kept (s.step (.insertAt handle entry)) := by
  obtain ⟨slab, inserted, free, sum, -⟩ := holders_insertAt kept.free
  obtain ⟨counts, closes⟩ := releaseOld_exact kept.counts
  have applied : apply s.table (.insertAt handle entry) = _ := apply_insertAt inserted
  have total : ∀ fd, holders ⟨slab, trackFd (s.table.releaseOld (handle >>> 2)).1 entry.fd⟩ fd =
      otherHolders s.table handle fd + if entry.fd = some fd then 1 else 0 := by
    intro fd
    have := sum (trackFd (s.table.releaseOld (handle >>> 2)).1 entry.fd) fd
    have := otherHolders_add s.table handle fd
    omega
  refine ⟨exact_of_holders kept.toExact applied ?_ ?_ ?_, ?_⟩
  · exact trackFd_counts counts total fun fd stored => (counted fd stored).2
  · intro fd
    rw [closes fd, total fd]
    by_cases stored : entry.fd = some fd
    · -- a descriptor that is stored again had another holder, or none at all
      have other := (counted fd stored).1
      have split_ := otherHolders_add s.table handle fd
      have again : ¬ (0 < holders s.table fd ∧ otherHolders s.table handle fd = 0) := by
        rintro ⟨held, alone⟩
        by_cases same : fdAt s.table handle = some fd
        · exact other same alone
        · rw [if_neg same] at split_
          omega
      rw [if_neg again, if_neg (by omega)]
    · rw [if_neg stored, Nat.add_zero]
  · intro fd now
    rw [total fd] at now
    by_cases stored : entry.fd = some fd
    · exact .inl stored
    · have := otherHolders_add s.table handle fd
      rw [if_neg stored] at now
      exact .inr (by omega)
  · rw [step, applied]
    exact free

/-! ### Which runs are exact -/

theorem kept_step (s : FdLedger) (op : FdOp) (kept : Kept s) (counted : Counted s op) :
    Kept (s.step op) := by
  cases op with
  | allocate objectId => exact ⟨exact_allocate kept.toExact objectId, kept.free.insertBump _⟩
  | allocateFull => exact ⟨exact_allocateFull kept.toExact counted, kept.free.insertBump _⟩
  | insertAt => exact exact_insertAt kept counted
  | replaceFd handle fd =>
    have applied : apply s.table (.replaceFd handle fd) = (s.table, []) := by
      rw [apply, replaceFd, show s.table.get handle = none from counted]
    refine ⟨exact_of_holders kept.toExact applied kept.counts
      (closes_nil fun _ => Nat.le_refl _) fun _ => .inr, ?_⟩
    rw [step, applied]
    exact kept.free
  | close handle =>
    exact ⟨exact_close kept.toExact handle, free_close kept.free handle⟩

/-- A count that overflows is zero, which no count of holders is. -/
theorem overflow_breaks (exact_ : CountsOf counts n) (full : ¬ n fd + 1 < 4294967296)
    (after : t.fdRefcounts = trackFd counts (some fd)) : ¬ CountsOf t.fdRefcounts (holders t) := by
  intro now
  have zero := now fd
  have small := exact_.lt fd
  rw [after, get?_trackFd exact_, show n fd + 1 = 4294967296 by omega] at zero
  split at zero
  · cases zero
  · next held => exact held (some.inj zero).symm

theorem holders_replaceFd (live : t.get handle = some entry) (fd f : Int) :
    holders (t.replaceFd handle fd).1 f + (if entry.fd = some f then 1 else 0) =
      holders t f + if some fd = some f then 1 else 0 := by
  have inside : (handle >>> 2).toNat < t.slab.slots.length := by
    rw [get_eq] at live
    have found := join_eq_some_iff.mp live
    rw [← t.slab.contents_length]
    exact (List.getElem?_eq_some_iff.mp found).1
  have contents := contents_modifyUnchecked live
    fun e : HandleEntry => { e with fd := some fd }
  rw [← append_nil t.slab.contents] at contents
  have sum := holders_set (t := t) (n := 0)
    (u := ⟨t.slab.modifyUnchecked (handle >>> 2) fun e => { e with fd := some fd },
      t.fdRefcounts⟩) contents inside f
  rw [fdAt, live] at sum
  rw [replaceFd_live live]
  exact sum

/-- Replacing a descriptor in place always breaks something: the new one is not
counted, and one that replaces itself is closed. -/
theorem replaceFd_breaks (kept : Exact s) (live : s.table.get handle = some entry) (fd : Int) :
    ¬ Exact (s.step (.replaceFd handle fd)) := by
  intro now
  have sum := holders_replaceFd live fd fd
  rw [if_pos rfl] at sum
  by_cases same : entry.fd = some fd
  · have closed := now.closes fd
    have one : (s.step (.replaceFd handle fd)).closes = [fd] := by
      rw [step, apply, replaceFd_live live]
      rw [same, toList_some]
    have at_handle : fdAt s.table handle = some fd := by
      rw [fdAt, live]
      exact same
    have held := holders_pos at_handle
    rw [if_pos same] at sum
    rw [one, count_singleton_self, if_neg] at closed
    · cases closed
    · rintro ⟨-, gone⟩
      have : holders (s.table.replaceFd handle fd).1 fd = 0 := gone
      omega
  · rw [if_neg same] at sum
    have counts : (s.step (.replaceFd handle fd)).table.fdRefcounts = s.table.fdRefcounts := by
      rw [step, apply, replaceFd_live live]
    have after := now.counts fd
    rw [counts, kept.counts fd,
      show holders (s.step (.replaceFd handle fd)).table fd = holders s.table fd + 1 from sum] at after
    split at after
    · cases after
    · have := some.inj after
      omega

theorem insertAt_breaks (kept : Kept s) (stored : entry.fd = some fd)
    (wrong : ¬ ((fdAt s.table handle = some fd → otherHolders s.table handle fd ≠ 0) ∧
      otherHolders s.table handle fd + 1 < 4294967296)) :
    ¬ Exact (s.step (.insertAt handle entry)) := by
  intro now
  obtain ⟨slab, inserted, -, -, get⟩ := holders_insertAt kept.free
  obtain ⟨counts, closes⟩ := releaseOld_exact kept.counts
  have applied := apply_insertAt inserted
  by_cases full : otherHolders s.table handle fd + 1 < 4294967296
  · have alone : fdAt s.table handle = some fd ∧ otherHolders s.table handle fd = 0 := by
      by_contra not_alone
      exact wrong ⟨fun held zero => not_alone ⟨held, zero⟩, full⟩
    have closed : 0 < (s.table.releaseOld (handle >>> 2)).2.count fd := by
      rw [closes fd, if_pos ⟨holders_pos alone.1, alone.2⟩]
      exact Nat.one_pos
    have live := now.live entry (by
      rw [step, applied]
      exact mem_iter_of_get (get _)) fd stored
    apply live
    rw [step, applied]
    exact mem_append_left _ (count_pos_iff.mp closed)
  · refine overflow_breaks counts full ?_ now.counts
    rw [step, applied, stored]

theorem uncounted_breaks (op : FdOp) (kept : Kept s) (wrong : ¬ Counted s op) :
    ¬ Exact (s.step op) := by
  cases op with
  | allocate | close => exact absurd trivial wrong
  | replaceFd _ fd =>
    obtain ⟨entry, live⟩ := ne_none_iff_exists'.mp wrong
    exact replaceFd_breaks kept.toExact live fd
  | insertAt =>
    simp only [Counted, not_forall] at wrong
    obtain ⟨fd, stored, wrong⟩ := wrong
    exact insertAt_breaks kept stored wrong
  | allocateFull entry =>
    simp only [Counted, not_forall] at wrong
    obtain ⟨fd, stored, full⟩ := wrong
    intro now
    refine overflow_breaks kept.counts full ?_ now.counts
    rw [← stored]
    exact counts_allocateFull

theorem new_kept : Kept .new where
  counts := fun fd => rfl
  closes := fun fd => rfl
  live := by
    intro entry mem
    cases mem
  free := ⟨[], nodup_nil, rfl⟩

theorem exact_iff_counted (ops : List FdOp) :
    (∀ s ∈ states step .new ops, Exact s) ↔ AllSteps step Counted .new ops :=
  observed_iff_allSteps Kept (fun _ _ => True) (fun _ kept => kept.toExact)
    (fun s op kept _ => kept_step s op kept) (fun _ op kept _ => uncounted_breaks op kept)
    new_kept (allSteps_of_forall (fun _ _ => trivial) _ ops)

/-- A server end of a pipe gets a fresh socket when its client is gone. -/
theorem reconnect_uncounted :
    ¬ ∀ s ∈ states step .new [.allocateFull ⟨1, some 20, 2, 0, 0⟩, .replaceFd 4 22], Exact s := by
  intro all
  have first : Kept (FdLedger.new.step (.allocateFull ⟨1, some 20, 2, 0, 0⟩)) := by
    refine kept_step _ _ new_kept ?_
    intro fd _
    exact (by decide : 0 + 1 < 4294967296)
  have live : (FdLedger.new.step (.allocateFull ⟨1, some 20, 2, 0, 0⟩)).table.get 4 =
      some ⟨1, some 20, 2, 0, 0⟩ := rfl
  exact replaceFd_breaks first.toExact live 22 (all _ (by simp [states]))

end Triskelion.DescriptorCounts
