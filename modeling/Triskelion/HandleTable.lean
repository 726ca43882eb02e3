import Triskelion.KeyedTable

/-! Object handles of a process (`objects.rs`, `slab.rs`) and the per-handle side
tables (`side_tables.rs`). A handle is a slab index shifted left by two, so four
consecutive handle values name one slot. -/

namespace Triskelion

inductive HeapSlot (α : Type)
  | occupied (generation : UInt32) (value : α)
  | vacant (generation nextFree : UInt32)

def freeEnd : UInt32 := 0xFFFFFFFF

structure HeapSlab (α : Type) where
  slots : List (HeapSlot α)
  freeHead : UInt32
  len : UInt32
  bump : UInt32

namespace HeapSlab
variable {α : Type}

def empty : HeapSlab α := ⟨[], freeEnd, 0, 0⟩

section
variable (s : HeapSlab α)

def skipIndexZero : HeapSlab α :=
  if s.bump = 0 then { s with slots := s.slots ++ [.vacant 0 freeEnd], bump := 1 } else s

def insertBump (value : α) : UInt32 × HeapSlab α :=
  (s.bump, { s with slots := s.slots ++ [.occupied 0 value], len := s.len + 1, bump := s.bump + 1 })

def getUnchecked (index : UInt32) : Option α :=
  match s.slots[index.toNat]? with
  | some (.occupied _ value) => some value
  | _ => none

def removeUnchecked (index : UInt32) : Option (α × HeapSlab α) :=
  match s.slots[index.toNat]? with
  | some (.occupied generation value) =>
    some (value, { s with
      slots := s.slots.set index.toNat (.vacant (generation + 1) s.freeHead)
      freeHead := index
      len := s.len - 1 })
  | _ => none

def pushVacant : HeapSlab α :=
  let i := UInt32.ofNat s.slots.length
  { s with
    slots := s.slots ++ [.vacant 0 freeEnd]
    bump := if s.bump ≤ i then i + 1 else s.bump }

end

def growBy : Nat → HeapSlab α → HeapSlab α
  | 0, s => s
  | n + 1, s => growBy n s.pushVacant

def growTo (s : HeapSlab α) (idx : Nat) : HeapSlab α := s.growBy (idx + 1 - s.slots.length)

def nextFree (slots : List (HeapSlot α)) (index : UInt32) : UInt32 :=
  match slots[index.toNat]? with
  | some (.vacant _ next) => next
  | _ => freeEnd

/-- The walk along the free list that takes `index` out of it. There is no result
where the walk leaves the slots, which panics, or goes on for longer than `fuel`. -/
def unlinkFrom (slots : List (HeapSlot α)) (index : UInt32) :
    Nat → UInt32 → Option (List (HeapSlot α))
  | 0, _ => none
  | fuel + 1, prev =>
    if prev = freeEnd then some slots
    else
      match slots[prev.toNat]? with
      | none => none
      | some (.occupied _ _) => some slots
      | some (.vacant generation next) =>
        if next = index then
          some (slots.set prev.toNat (.vacant generation (nextFree slots index)))
        else unlinkFrom slots index fuel next

section
variable (s : HeapSlab α) (index : UInt32)

/-- A list without cycles is walked in as many turns as there are slots. -/
def unlink : Option (HeapSlab α) :=
  if s.freeHead = index then
    match s.slots[index.toNat]? with
    | some (.vacant _ next) => some { s with freeHead := next }
    | _ => some s
  else (unlinkFrom s.slots index (s.slots.length + 1) s.freeHead).map fun slots => { s with slots }

def generationAt : UInt32 :=
  match s.slots[index.toNat]? with
  | some (.occupied generation _) | some (.vacant generation _) => generation
  | none => 0

def occupy (value : α) : HeapSlab α :=
  { s with
    slots := s.slots.set index.toNat (.occupied (s.generationAt index) value)
    len := s.len + 1
    bump := if s.bump ≤ index then index + 1 else s.bump }

/-- There is no result where the unlinking has none. -/
def insertAt (value : α) : Option (HeapSlab α) :=
  let grown := s.growTo index.toNat
  let cleared := ((grown.removeUnchecked index).map Prod.snd).getD grown
  (cleared.unlink index).map fun s => s.occupy index value

def modifyUnchecked (f : α → α) : HeapSlab α :=
  match s.slots[index.toNat]? with
  | some (.occupied generation value) =>
    { s with slots := s.slots.set index.toNat (.occupied generation (f value)) }
  | _ => s

def iter : List α :=
  s.slots.filterMap fun
    | .occupied _ value => some value
    | .vacant _ _ => none

end

variable {index : UInt32} {s : HeapSlab α}

theorem removeUnchecked_none (empty : s.getUnchecked index = none) :
    s.removeUnchecked index = none := by
  rw [getUnchecked] at empty
  rw [removeUnchecked]
  split
  · next found => simp [found] at empty
  · rfl

theorem getUnchecked_removed {t : HeapSlab α} {value : α}
    (removed : s.removeUnchecked index = some (value, t)) : t.getUnchecked index = none := by
  rw [removeUnchecked] at removed
  split at removed
  · next generation v found =>
    obtain ⟨bound, -⟩ := List.getElem?_eq_some_iff.mp found
    cases removed
    simp [getUnchecked, bound]
  · cases removed

theorem removeUnchecked_some {value : α} (live : s.getUnchecked index = some value) :
    ∃ t, s.removeUnchecked index = some (value, t) := by
  rw [getUnchecked] at live
  rw [removeUnchecked]
  split at live
  · next found => cases live; exact ⟨_, rfl⟩
  · cases live

end HeapSlab

structure HandleEntry where
  objectId : UInt64
  fd : Option Int
  objType : UInt32
  access : UInt32
  options : UInt32
deriving DecidableEq

structure HandleTable where
  slab : HeapSlab HandleEntry
  fdRefcounts : Table Int UInt32

namespace HandleTable

def new : HandleTable := ⟨HeapSlab.empty.skipIndexZero, .empty⟩

section
variable (t : HandleTable)

def allocate (objectId : UInt64) : UInt32 × HandleTable :=
  let (index, slab) := t.slab.insertBump ⟨objectId, none, 0, 0, 0⟩
  (index <<< 2, { t with slab })

def allocateFull (entry : HandleEntry) : UInt32 × HandleTable :=
  let fdRefcounts :=
    match entry.fd with
    | some fd => t.fdRefcounts.insert fd ((t.fdRefcounts.get? fd).getD 0 + 1)
    | none => t.fdRefcounts
  let (index, slab) := t.slab.insertBump entry
  (index <<< 2, ⟨slab, fdRefcounts⟩)

def get (handle : UInt32) : Option HandleEntry :=
  t.slab.getUnchecked (handle >>> 2)

end

def releaseFd (slab : HeapSlab HandleEntry) (counts : Table Int UInt32) (fd : Int) :
    Table Int UInt32 × Bool :=
  match counts.get? fd with
  | some count =>
    if count - 1 = 0 then (counts.erase fd, true) else (counts.insert fd (count - 1), false)
  | none => (counts, !slab.iter.any fun e => e.fd = some fd)

def close (t : HandleTable) (handle : UInt32) : HandleTable × List Int :=
  match t.slab.removeUnchecked (handle >>> 2) with
  | none => (t, [])
  | some (entry, slab) =>
    match entry.fd with
    | none => ({ t with slab }, [])
    | some fd =>
      let (counts, closes) := releaseFd slab t.fdRefcounts fd
      (⟨slab, counts⟩, if closes then [fd] else [])

def releaseOld (t : HandleTable) (index : UInt32) : Table Int UInt32 × List Int :=
  match (t.slab.getUnchecked index).bind HandleEntry.fd with
  | some fd =>
    let (counts, closes) := releaseFd t.slab t.fdRefcounts fd
    (counts, if closes then [fd] else [])
  | none => (t.fdRefcounts, [])

def trackFd (counts : Table Int UInt32) : Option Int → Table Int UInt32
  | some fd => counts.insert fd ((counts.get? fd).getD 0 + 1)
  | none => counts

section
variable (t : HandleTable) (handle : UInt32)

def insertAt (entry : HandleEntry) : Option (HandleTable × List Int) :=
  let (counts, closed) := t.releaseOld (handle >>> 2)
  (t.slab.insertAt (handle >>> 2) entry).map fun slab =>
    (⟨slab, trackFd counts entry.fd⟩, closed)

def replaceFd (fd : Int) : HandleTable × List Int :=
  match t.get handle with
  | some entry =>
    ({ t with slab := t.slab.modifyUnchecked (handle >>> 2) fun e => { e with fd := some fd } },
      entry.fd.toList)
  | none => (t, [])

end

variable {handle : UInt32} {t : HandleTable}

theorem insertAt_some {entry : HandleEntry} {slab : HeapSlab HandleEntry}
    (stored : t.slab.insertAt (handle >>> 2) entry = some slab) :
    t.insertAt handle entry = some (⟨slab, trackFd (t.releaseOld (handle >>> 2)).1 entry.fd⟩,
      (t.releaseOld (handle >>> 2)).2) := by
  rw [insertAt, stored]
  rfl

theorem replaceFd_live {entry : HandleEntry} (live : t.get handle = some entry) (fd : Int) :
    t.replaceFd handle fd =
      ({ t with slab := t.slab.modifyUnchecked (handle >>> 2) fun e => { e with fd := some fd } },
        entry.fd.toList) := by
  rw [replaceFd, live]

theorem close_vacant (vacant : t.get handle = none) : t.close handle = (t, []) := by
  rw [close, HeapSlab.removeUnchecked_none vacant]

theorem get_close (t : HandleTable) (handle : UInt32) : (t.close handle).1.get handle = none := by
  cases live : t.get handle with
  | none => rw [close_vacant live, live]
  | some =>
    obtain ⟨slab, removed⟩ := HeapSlab.removeUnchecked_some live
    rw [close, removed]
    dsimp only
    split <;> exact HeapSlab.getUnchecked_removed removed

end HandleTable

/-- State kept per process and handle. -/
structure HandleSideTables where
  pipeHandles : Table (UInt32 × UInt32) Int
  ioWaitHandles : Table (UInt32 × UInt32) UInt32
  fdSent : Table (UInt32 × UInt32) Unit
  completionBindings : Table (UInt32 × UInt32) (UInt32 × UInt64)

namespace HandleSideTables

def new : HandleSideTables := ⟨.empty, .empty, .empty, .empty⟩

section
variable (t : HandleSideTables)

def purge (pid handle : UInt32) : HandleSideTables × List Int × Option UInt32 :=
  (⟨t.pipeHandles.erase (pid, handle), t.ioWaitHandles.erase (pid, handle),
      t.fdSent.erase (pid, handle), t.completionBindings.erase (pid, handle)⟩,
    (t.pipeHandles.get? (pid, handle)).toList, t.ioWaitHandles.get? (pid, handle))

def purgePid (pid : UInt32) : HandleSideTables × List Int :=
  (⟨t.pipeHandles.retain fun k _ => k.1 ≠ pid, t.ioWaitHandles.retain fun k _ => k.1 ≠ pid,
      t.fdSent.retain fun k _ => k.1 ≠ pid, t.completionBindings.retain fun k _ => k.1 ≠ pid⟩,
    (t.pipeHandles.entries.filter fun e => e.1.1 = pid).map Prod.snd)

def kept (pid handle : UInt32) :
    Option Int × Option UInt32 × Option Unit × Option (UInt32 × UInt64) :=
  (t.pipeHandles.get? (pid, handle), t.ioWaitHandles.get? (pid, handle),
    t.fdSent.get? (pid, handle), t.completionBindings.get? (pid, handle))

theorem kept_purge (pid handle other : UInt32) : (t.purge pid handle).1.kept pid other =
      if other = handle then (none, none, none, none) else t.kept pid other := by
  simp only [kept, purge, Table.get?_erase, Prod.mk.injEq, true_and]
  split <;> rfl

end

end HandleSideTables
end Triskelion
