import Triskelion.SlabContents

/-! Handles of one process over any run of its table: a new handle has never been
seen before, and a lookup finds what was stored last. The low two bits of a handle
are reserved and take no part in the lookup, so two handles are told apart by their
slots. -/

namespace Triskelion.HandleFreshness

open HandleTable List HeapSlab

inductive HandleOp
  | allocate (objectId : UInt64)
  | allocateFull (entry : HandleEntry)
  | close (handle : UInt32)
  | insertAt (handle : UInt32) (entry : HandleEntry)

inductive HandleEvent
  | returned (handle : UInt32) (entry : HandleEntry)
  | inserted (handle : UInt32) (entry : HandleEntry)
  | closed (handle : UInt32)

/-- The table and what has happened to it, the latest event first. -/
structure HandleRun where
  table : HandleTable
  events : List HandleEvent

namespace HandleRun

def new : HandleRun := ⟨.new, []⟩

/-- There is no next state where `insert_at` does not come to an end. -/
def step (r : HandleRun) : HandleOp → Option HandleRun
  | .allocate objectId =>
    let (handle, table) := r.table.allocate objectId
    some ⟨table, .returned handle ⟨objectId, none, 0, 0, 0⟩ :: r.events⟩
  | .allocateFull entry =>
    let (handle, table) := r.table.allocateFull entry
    some ⟨table, .returned handle entry :: r.events⟩
  | .close handle => some ⟨(r.table.close handle).1, .closed handle :: r.events⟩
  | .insertAt handle entry =>
    (r.table.insertAt handle entry).map fun (table, _) =>
      ⟨table, .inserted handle entry :: r.events⟩

def run (r : HandleRun) (ops : List HandleOp) : Option HandleRun := ops.foldlM step r

end HandleRun

def SameSlot (g h : UInt32) : Prop := g >>> 2 = h >>> 2

instance (g h : UInt32) : Decidable (SameSlot g h) := inferInstanceAs (Decidable (_ = _))

/-- The entry most recently stored under a handle, unless it was closed since. -/
def lastStored (h : UInt32) : List HandleEvent → Option HandleEntry
  | [] => none
  | .returned g entry :: earlier | .inserted g entry :: earlier =>
    if SameSlot g h then some entry else lastStored h earlier
  | .closed g :: earlier => if SameSlot g h then none else lastStored h earlier

def named : List HandleEvent → List UInt32
  | [] => []
  | .returned g _ :: earlier | .inserted g _ :: earlier => g :: named earlier
  | .closed _ :: earlier => named earlier

def Fresh : List HandleEvent → Prop
  | [] => True
  | .returned h _ :: earlier =>
    h ≠ 0 ∧ h % 4 = 0 ∧ (∀ g ∈ named earlier, g ≠ h ∧ ¬ SameSlot g h) ∧ Fresh earlier
  | .inserted _ _ :: earlier | .closed _ :: earlier => Fresh earlier

/-! ### The invariant -/

structure Orderly (r : HandleRun) : Prop where
  level : r.table.slab.Level
  reserved : 1 ≤ r.table.slab.slots.length
  fresh : Fresh r.events
  seen : ∀ g ∈ named r.events, (g >>> 2).toNat < r.table.slab.slots.length
  stored : ∀ h, r.table.get h = lastStored h r.events

variable {b : UInt32} {r : HandleRun}

theorem shiftLeft_toNat (bound : b.toNat < slotLimit) : (b <<< 2).toNat = 4 * b.toNat := by
  rw [slotLimit] at bound
  rw [UInt32.toNat_shiftLeft]
  simp only [UInt32.reduceToNat, Nat.reduceMod, Nat.reducePow]
  omega

theorem shift_round (bound : b.toNat < slotLimit) : b <<< 2 >>> 2 = b := by
  rw [← UInt32.toNat_inj, shiftRight_toNat, shiftLeft_toNat bound]
  omega

theorem new_orderly : Orderly .new where
  level := rfl
  reserved := Nat.le_refl 1
  fresh := trivial
  seen := by simp [HandleRun.new, named]
  stored h := by
    rw [get_eq]
    cases (h >>> 2).toNat <;> rfl

theorem next_valid (reserved : 1 ≤ b.toNat) (bound : b.toNat < slotLimit) :
    b <<< 2 ≠ 0 ∧ b <<< 2 % 4 = 0 ∧
      ∀ g : UInt32, (g >>> 2).toNat < b.toNat → g ≠ b <<< 2 ∧ ¬ SameSlot g (b <<< 2) := by
  have value := shiftLeft_toNat bound
  refine ⟨fun zero => ?_, ?_, fun g below => ?_⟩
  · rw [zero] at value
    have : (0 : UInt32).toNat = 0 := rfl
    omega
  · rw [← UInt32.toNat_inj, UInt32.toNat_mod, value]
    exact Nat.mul_mod_right 4 _
  · have other : ¬ SameSlot g (b <<< 2) := by
      intro same
      rw [same, shift_round bound] at below
      exact Nat.lt_irrefl _ below
    exact ⟨fun equal => other (equal ▸ rfl), other⟩

variable {table : HandleTable} {entry : HandleEntry}

theorem orderly_returned (orderly : Orderly r)
    (slab : table.slab = (r.table.slab.insertBump entry).2)
    (room : table.slab.slots.length ≤ slotLimit) :
    Orderly ⟨table, .returned (r.table.slab.bump <<< 2) entry :: r.events⟩ := by
  obtain ⟨level, reserved, fresh, seen, stored⟩ := orderly
  have length : table.slab.slots.length = r.table.slab.slots.length + 1 := by
    rw [slab, insertBump, length_append, length_singleton]
  have bump := level.symm
  have bound : r.table.slab.bump.toNat < slotLimit := by omega
  have index := shift_round bound
  obtain ⟨nonzero, aligned, past⟩ := next_valid (bump ▸ reserved) bound
  refine ⟨?_, (by omega : 1 ≤ table.slab.slots.length),
    ⟨nonzero, aligned, fun g mem => past g (bump ▸ seen g mem), fresh⟩, fun g mem => ?_,
    fun h => ?_⟩
  · rw [slab]
    refine level.insertBump ?_ entry
    have : freeEnd.toNat = 4294967295 := rfl
    rw [slotLimit] at bound
    omega
  · rw [length]
    rcases mem_cons.mp mem with rfl | old
    · rw [index]
      omega
    · have := seen g old
      omega
  · have slot : (h >>> 2).toNat = r.table.slab.contents.length ↔
        SameSlot (r.table.slab.bump <<< 2) h := by
      rw [contents_length, ← bump, SameSlot, index, UInt32.toNat_inj, eq_comm]
    rw [lastStored, ← stored h, get_eq, get_eq, slab, contents_insertBump, getElem?_concat]
    simp only [slot]
    split <;> rfl

theorem orderly_closed (orderly : Orderly r) (g : UInt32) :
    Orderly ⟨(r.table.close g).1, .closed g :: r.events⟩ := by
  obtain ⟨level, reserved, fresh, seen, stored⟩ := orderly
  have length := length_close r.table g
  refine ⟨?_, length ▸ reserved, fresh, ?_, ?_⟩
  · rw [Level, length, bump_close]
    exact level
  · intro h mem
    rw [length]
    exact seen h mem
  · intro h
    have before := stored h
    rw [lastStored]
    split
    · next same =>
      have gone := r.table.get_close g
      rw [HandleTable.get, same] at gone
      exact gone
    · next other =>
      rw [← before, get_eq, get_eq, contents_close,
        getElem?_set_ne fun equal => other (UInt32.toNat_inj.mp equal)]

theorem orderly_inserted (orderly : Orderly r) (g : UInt32) (level : table.slab.Level)
    (contents : table.slab.contents = (r.table.slab.contents ++ List.replicate
      ((g >>> 2).toNat + 1 - r.table.slab.slots.length) none).set (g >>> 2).toNat (some entry)) :
    Orderly ⟨table, .inserted g entry :: r.events⟩ := by
  obtain ⟨-, reserved, fresh, seen, stored⟩ := orderly
  have length := length_stored contents
  refine ⟨level, (by omega : 1 ≤ table.slab.slots.length), fresh, ?_, ?_⟩
  · intro h mem
    rw [length]
    rcases mem_cons.mp mem with rfl | old
    · omega
    · have := seen h old
      omega
  · intro h
    rw [lastStored, ← stored h, HandleTable.get, HandleTable.get, getUnchecked_stored contents]
    split
    · next here =>
      have same : SameSlot g h := here.symm
      rw [if_pos same]
    · next other =>
      have apart : ¬ SameSlot g h := fun same => other same.symm
      rw [if_neg apart]

/-! ### Runs -/

/-- What one operation leads to. The free list keeps `insert_at` from walking
forever, however many slots there are; the rest needs the indices to fit. -/
theorem step_orderly (r : HandleRun) (op : HandleOp) (free : r.table.slab.FreeList) :
    ∃ r', r.step op = some r' ∧ r'.table.slab.FreeList ∧
      r.table.slab.slots.length ≤ r'.table.slab.slots.length ∧
      (r'.table.slab.slots.length ≤ slotLimit → Orderly r → Orderly r') := by
  cases op with
  | allocate | allocateFull =>
    refine ⟨_, rfl, free.insertBump _, ?_, fun room orderly => orderly_returned orderly rfl room⟩
    rw [length_append]
    exact Nat.le_add_right _ _
  | close g =>
    exact ⟨_, rfl, free_close free g, Nat.le_of_eq (length_close r.table g).symm,
      fun _ orderly => orderly_closed orderly g⟩
  | insertAt g entry =>
    obtain ⟨slab, stored, free', level, contents⟩ :=
      insertAt_spec free (index_ne_freeEnd g)
    refine ⟨⟨⟨slab, trackFd (r.table.releaseOld (g >>> 2)).1 entry.fd⟩,
      .inserted g entry :: r.events⟩, ?_, free', ?_, ?_⟩
    · rw [HandleRun.step, insertAt_some stored]
      rfl
    · rw [length_stored contents]
      exact Nat.le_add_right _ _
    · exact fun _ orderly => orderly_inserted orderly g (level orderly.level) contents

theorem run_orderly (ops : List HandleOp) (r : HandleRun) (free : r.table.slab.FreeList) :
    ∃ r', r.run ops = some r' ∧ r.table.slab.slots.length ≤ r'.table.slab.slots.length ∧
      (r'.table.slab.slots.length ≤ slotLimit → Orderly r → Orderly r') := by
  induction ops generalizing r with
  | nil => exact ⟨r, rfl, Nat.le_refl _, fun _ orderly => orderly⟩
  | cons op rest ih =>
    obtain ⟨s, stepped, freeS, longer, keeps⟩ := step_orderly r op free
    obtain ⟨t, ran, longest, later⟩ := ih s freeS
    refine ⟨t, ?_, Nat.le_trans longer longest, fun room orderly => ?_⟩
    · rw [HandleRun.run, foldlM_cons, stepped]
      exact ran
    · exact later room (keeps (Nat.le_trans longest room) orderly)

theorem new_freeList : HandleRun.new.table.slab.FreeList := ⟨[], nodup_nil, rfl⟩

/-- Every run of the table comes to its end. While its indices fit a handle, each
handle it returned was new, and every lookup finds the entry stored last. -/
theorem handles_fresh (ops : List HandleOp) : ∃ r, HandleRun.new.run ops = some r ∧
      (r.table.slab.slots.length ≤ slotLimit →
        Fresh r.events ∧ ∀ h, r.table.get h = lastStored h r.events) := by
  obtain ⟨r, ran, -, orderly⟩ := run_orderly ops .new new_freeList
  refine ⟨r, ran, fun room => ?_⟩
  have sound := orderly room new_orderly
  exact ⟨sound.fresh, sound.stored⟩

/-- Nothing was ever stored under handle 5, which finds the entry of handle 4; and
handle 4, which was not closed, finds none once handle 6 was. -/
theorem low_bits_ignored :
    (∃ r e, HandleRun.new.run [.allocate 7] = some r ∧ r.events = [.returned 4 e] ∧
      r.table.get 5 = some e) ∧
    ∃ r e, HandleRun.new.run [.allocate 7, .close 6] = some r ∧
      r.events = [.closed 6, .returned 4 e] ∧ r.table.get 4 = none :=
  ⟨⟨_, _, rfl, rfl, rfl⟩, _, _, rfl, rfl, rfl⟩

end Triskelion.HandleFreshness
