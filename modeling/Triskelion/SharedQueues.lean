import Triskelion.HandleTable
import Triskelion.RunRules
import Mathlib.Tactic.Ring

/-! Slots of the shared message queues (`shm.rs`) and the slab that numbers them
(`MmapSlab` of `slab.rs`). The slab marks a slot in use and the last free slot alike,
so it cannot tell them apart; the map from threads to slots is what keeps a slot from
being freed twice. -/

namespace Triskelion.SharedQueues

open List RunRules Option
open UInt32 (le_iff_toNat_le lt_iff_toNat_lt toNat_add toNat_one)

structure SlotMeta where
  generation : UInt32
  nextFree : UInt32
deriving DecidableEq

structure MmapSlab where
  slotMeta : List SlotMeta
  freeHead : UInt32
  len : UInt32
  bump : UInt32
  cap : UInt32
deriving DecidableEq

namespace MmapSlab

def new (cap : UInt32) : MmapSlab := ⟨[], freeEnd, 0, 0, cap⟩

section
variable (s : MmapSlab)

def reuse (m : SlotMeta) : MmapSlab :=
  { s with
    slotMeta := s.slotMeta.set s.freeHead.toNat { m with nextFree := freeEnd }
    freeHead := m.nextFree
    len := s.len + 1 }

def extend : MmapSlab :=
  { s with slotMeta := s.slotMeta ++ [⟨0, freeEnd⟩], bump := s.bump + 1, len := s.len + 1 }

/-- No index either where the head of the free list is not a slot, which panics. -/
def insert : Option (UInt32 × MmapSlab) :=
  if s.freeHead ≠ freeEnd then
    match s.slotMeta[s.freeHead.toNat]? with
    | some m => some (s.freeHead, s.reuse m)
    | none => none
  else if s.bump < s.cap then some (s.bump, s.extend)
  else none

def release (index : UInt32) (m : SlotMeta) : MmapSlab :=
  { s with
    slotMeta := s.slotMeta.set index.toNat ⟨m.generation + 1, s.freeHead⟩
    freeHead := index
    len := s.len - 1 }

def remove (index : UInt32) : Bool × MmapSlab :=
  match s.slotMeta[index.toNat]? with
  | none => (false, s)
  | some m => if m.nextFree ≠ freeEnd then (false, s) else (true, s.release index m)

def highWater : UInt32 := s.bump

end

end MmapSlab

def maxThreads : UInt32 := 8192

def headerSize : Nat := 64

def threadQueueSize : Nat := 12480

def totalSize : Nat := headerSize + maxThreads.toNat * threadQueueSize

def slotOffset (slot : UInt32) : Nat := headerSize + slot.toNat * threadQueueSize

/-- Of the mapping: the mark in the header, and by offset the `thread_id` of each queue
that was initialised and not zeroed since. -/
structure ShmManager where
  slotMap : Table UInt32 UInt32
  slab : MmapSlab
  nextSlot : UInt32
  queues : Table Nat UInt32

namespace ShmManager

def create : ShmManager := ⟨.empty, .new maxThreads, 0, .empty⟩

section
variable (s : ShmManager) (tid : UInt32)
include s

def allocSlot : Option UInt32 × ShmManager :=
  match s.slotMap.get? tid with
  | some existing => (some existing, { s with queues := s.queues.insert (slotOffset existing) tid })
  | none =>
    match s.slab.insert with
    | none => (none, s)
    | some (slot, slab) =>
      (some slot, {
        slotMap := s.slotMap.insert tid slot
        slab
        nextSlot := slab.highWater
        queues := s.queues.insert (slotOffset slot) tid })

def freeSlot : ShmManager :=
  match s.slotMap.get? tid with
  | none => s
  | some slot =>
    { s with
      slotMap := s.slotMap.erase tid
      slab := (s.slab.remove slot).2
      queues := s.queues.erase (slotOffset slot) }

def getQueue : Option UInt32 :=
  (s.slotMap.get? tid).bind fun slot => s.queues.get? (slotOffset slot)

end

end ShmManager

/-! ### A list threaded through its elements -/

section Threaded

variable {α : Type*}

/-- The elements from `head` on, up to the mark `stop`. -/
def Threaded (next : α → Option α) (stop : α) : α → List α → Prop
  | head, [] => head = stop
  | head, i :: rest => head = i ∧ i ≠ stop ∧ ∃ j, next i = some j ∧ Threaded next stop j rest

variable {next next' : α → Option α} {stop head : α} {chain : List α}

theorem Threaded.agree (threaded : Threaded next stop head chain)
    (same : ∀ i ∈ chain, next' i = next i) : Threaded next' stop head chain := by
  induction chain generalizing head with
  | nil => exact threaded
  | cons i rest ih =>
    obtain ⟨at_i, inside, j, link, later⟩ := threaded
    exact ⟨at_i, inside, j, (same i mem_cons_self).trans link,
      ih later fun k mem => same k (mem_cons_of_mem i mem)⟩

theorem Threaded.nil_iff (threaded : Threaded next stop head chain) : chain = [] ↔ head = stop := by
  cases chain with
  | nil => simpa [Threaded] using threaded
  | cons i rest =>
    obtain ⟨rfl, inside, -⟩ := threaded
    simpa using inside

end Threaded

/-! ### The slab -/

variable {i : UInt32}

namespace MmapSlab

def link (s : MmapSlab) (i : UInt32) : Option UInt32 := (s.slotMeta[i.toNat]?).map SlotMeta.nextFree

/-- The slots that are out and those on the free list are all slots there are. -/
structure Partition (s : MmapSlab) (live : List UInt32) : Prop where
  free : ∃ chain, Threaded s.link freeEnd s.freeHead chain ∧
    ((live ++ chain).map UInt32.toNat).Perm (List.range s.slotMeta.length)
  marked : ∀ i ∈ live, s.link i = some freeEnd
  bump : s.bump.toNat = s.slotMeta.length
  bound : s.bump ≤ s.cap
  len : s.len.toNat = live.length

variable {s : MmapSlab} {live : List UInt32}

theorem partition_new (cap : UInt32) : (new cap).Partition [] where
  free := ⟨[], rfl, .refl _⟩
  marked := by simp
  bump := rfl
  bound := by simp [new, le_iff_toNat_le]
  len := rfl

section
variable (whole : s.Partition live)
include whole

theorem Partition.perm {live' : List UInt32} (same : live.Perm live') : s.Partition live' where
  __ := whole
  free := by
    obtain ⟨chain, threaded, all⟩ := whole.free
    exact ⟨chain, threaded, ((same.symm.append_right chain).map _).trans all⟩
  marked := fun i mem => whole.marked i (same.mem_iff.mpr mem)
  len := whole.len.trans same.length_eq

theorem Partition.distinct : live.Nodup := by
  obtain ⟨chain, -, all⟩ := whole.free
  have nodup := (all.nodup_iff.mpr nodup_range).of_map
  exact (nodup_append.mp nodup).1

theorem Partition.below (out : i ∈ live) : i < s.bump := by
  obtain ⟨chain, -, all⟩ := whole.free
  have mem : i.toNat ∈ List.range s.slotMeta.length :=
    all.mem_iff.mp (mem_map_of_mem (mem_append_left chain out))
  rw [lt_iff_toNat_lt, whole.bump]
  exact mem_range.mp mem

end

theorem link_set {j : UInt32} (m : SlotMeta) (other : j ≠ i) :
    ((s.slotMeta.set i.toNat m)[j.toNat]?).map SlotMeta.nextFree = s.link j := by
  rw [getElem?_set_ne fun same => other (UInt32.toNat_inj.mp same).symm, link]

section
variable (whole : s.Partition live)
include whole

theorem Partition.reuse (some_free : s.freeHead ≠ freeEnd) :
    ∃ m, s.insert = some (s.freeHead, s.reuse m) ∧ (s.reuse m).Partition (s.freeHead :: live) ∧
      s.freeHead < s.bump := by
  obtain ⟨chain, threaded, all⟩ := whole.free
  cases chain with
  | nil => exact absurd threaded some_free
  | cons i rest =>
    obtain ⟨rfl, -, j, linked, later⟩ := threaded
    obtain ⟨m, found, rfl⟩ := map_eq_some_iff.mp linked
    have inside : s.freeHead.toNat < s.slotMeta.length := (List.getElem?_eq_some_iff.mp found).1
    have size : live.length + (rest.length + 1) = s.bump.toNat := by
      simpa [whole.bump] using all.length_eq
    have small := s.bump.toNat_lt
    have moved := perm_middle.nodup_iff.mp (all.nodup_iff.mpr nodup_range).of_map
    obtain ⟨off_live, off_rest⟩ : s.freeHead ∉ live ∧ s.freeHead ∉ rest := by
      simpa using (nodup_cons.mp moved).1
    refine ⟨m, by rw [insert, if_pos some_free, found], ⟨⟨rest, ?_, ?_⟩, ?_, ?_, whole.bound, ?_⟩, ?_⟩
    · exact later.agree fun k mem => link_set _ fun same => off_rest (same ▸ mem)
    · simp only [MmapSlab.reuse, length_set]
      exact (perm_middle.symm.map _).trans all
    · intro k mem
      rcases mem_cons.mp mem with rfl | out
      · simp [link, MmapSlab.reuse, inside]
      · have other : k ≠ s.freeHead := fun same => off_live (same ▸ out)
        exact (link_set _ other).trans (whole.marked k out)
    · simpa [MmapSlab.reuse] using whole.bump
    · have len := whole.len
      simp only [MmapSlab.reuse, length_cons, toNat_add, toNat_one]
      omega
    · rw [lt_iff_toNat_lt, whole.bump]
      exact inside

theorem Partition.extend (none_free : s.freeHead = freeEnd) (room : s.bump < s.cap) :
    s.insert = some (s.bump, s.extend) ∧ s.extend.Partition (s.bump :: live) ∧
      s.extend.bump.toNat = s.bump.toNat + 1 ∧ live.length = s.bump.toNat := by
  obtain ⟨chain, threaded, all⟩ := whole.free
  obtain rfl := threaded.nil_iff.mpr none_free
  rw [append_nil] at all
  have full : live.length = s.bump.toNat := by simpa [whole.bump] using all.length_eq
  have top : s.cap.toNat < 2 ^ 32 := s.cap.toNat_lt
  rw [lt_iff_toNat_lt] at room
  have next : s.extend.bump.toNat = s.bump.toNat + 1 := by
    simp only [MmapSlab.extend, toNat_add, toNat_one]
    omega
  refine ⟨?_, ⟨⟨[], none_free, ?_⟩, ?_, ?_, ?_, ?_⟩, next, full⟩
  · rw [insert, if_neg (not_not_intro none_free), if_pos (lt_iff_toNat_lt.mpr room)]
  · simp only [MmapSlab.extend, append_nil, map_cons, whole.bump, length_append,
      length_singleton, range_succ]
    exact (all.cons _).trans (perm_append_singleton _ _).symm
  · intro k mem
    rcases mem_cons.mp mem with rfl | out
    · simp [link, MmapSlab.extend, whole.bump]
    · have old := lt_iff_toNat_lt.mp (whole.below out)
      rw [whole.bump] at old
      rw [link, MmapSlab.extend, getElem?_append_left old]
      exact whole.marked k out
  · rw [next, whole.bump]
    simp [MmapSlab.extend]
  · rw [le_iff_toNat_le, next]
    exact room
  · have len := whole.len
    simp only [MmapSlab.extend, length_cons, toNat_add, toNat_one]
    omega

theorem Partition.full_iff : s.insert = none ↔ live.length = s.cap.toNat := by
  obtain ⟨chain, threaded, all⟩ := whole.free
  have size : live.length + chain.length = s.bump.toNat := by
    simpa [whole.bump] using all.length_eq
  have bound := le_iff_toNat_le.mp whole.bound
  by_cases none_free : s.freeHead = freeEnd
  · have empty : chain.length = 0 := by simpa using threaded.nil_iff.mpr none_free
    by_cases room : s.bump < s.cap
    · have grows := (whole.extend none_free room).1
      rw [lt_iff_toNat_lt] at room
      simp only [grows, reduceCtorEq, false_iff]
      omega
    · rw [insert, if_neg (not_not_intro none_free), if_neg room]
      rw [lt_iff_toNat_lt] at room
      simp only [true_iff]
      omega
  · obtain ⟨m, taken, -⟩ := whole.reuse none_free
    have : chain.length ≠ 0 := by simpa using mt threaded.nil_iff.mp none_free
    simp only [taken, reduceCtorEq, false_iff]
    omega

theorem Partition.release (out : i ∈ live) :
    ∃ m, s.remove i = (true, s.release i m) ∧ (s.release i m).Partition (live.erase i) ∧
      i ≠ freeEnd := by
  obtain ⟨chain, threaded, all⟩ := whole.free
  obtain ⟨m, found, last⟩ := map_eq_some_iff.mp (whole.marked i out)
  have inside : i.toNat < s.slotMeta.length := (List.getElem?_eq_some_iff.mp found).1
  have nodup := nodup_append.mp (all.nodup_iff.mpr nodup_range).of_map
  have off_chain : i ∉ chain := fun mem => nodup.2.2 i out i mem rfl
  have proper : i ≠ freeEnd := by
    rintro rfl
    have := lt_iff_toNat_lt.mp (whole.below out)
    have := s.bump.toNat_lt
    have : freeEnd.toNat = 4294967295 := rfl
    omega
  refine ⟨m, by simp [remove, found, last],
    ⟨⟨i :: chain, ⟨rfl, proper, s.freeHead, ?_, ?_⟩, ?_⟩, ?_, ?_, whole.bound, ?_⟩, proper⟩
  · simp [link, MmapSlab.release, inside]
  · exact threaded.agree fun k mem => link_set _ fun same => off_chain (same ▸ mem)
  · simp only [MmapSlab.release, length_set]
    have back := (perm_cons_erase out).symm.append_right chain
    exact ((perm_middle.trans back).map _).trans all
  · intro k mem
    have other : k ≠ i := fun same => nodup.1.not_mem_erase (same ▸ mem)
    exact (link_set _ other).trans (whole.marked k (mem_of_mem_erase mem))
  · simpa [MmapSlab.release] using whole.bump
  · have len := whole.len
    have pos : 0 < live.length := length_pos_of_mem out
    have one_le : (1 : UInt32) ≤ s.len := by
      rw [le_iff_toNat_le, toNat_one]
      omega
    rw [length_erase_of_mem out]
    simp only [MmapSlab.release, UInt32.toNat_sub_of_le _ _ one_le, toNat_one]
    omega

end

end MmapSlab

/-! ### The map and the slab together -/

namespace ShmManager

inductive SlotCall
  | alloc (tid : UInt32)
  | free (tid : UInt32)

def step (s : ShmManager) : SlotCall → ShmManager
  | .alloc tid => (s.allocSlot tid).2
  | .free tid => s.freeSlot tid

def live (s : ShmManager) : List UInt32 := s.slotMap.entries.map Prod.snd

structure Orderly (s : ShmManager) : Prop where
  whole : s.slab.Partition s.live
  cap : s.slab.cap = maxThreads
  published : s.nextSlot = s.slab.bump
  owned : ∀ tid slot, s.slotMap.get? tid = some slot → s.queues.get? (slotOffset slot) = some tid

variable {s : ShmManager}

variable {tid slot : UInt32}

theorem mem_live (found : s.slotMap.get? tid = some slot) : slot ∈ s.live :=
  mem_map.mpr ⟨(tid, slot), (s.slotMap.mem_entries tid slot).mpr found, rfl⟩

theorem slotOffset_inj {j : UInt32} (same : slotOffset i = slotOffset j) : i = j := by
  simp only [slotOffset, threadQueueSize] at same
  exact UInt32.toNat_inj.mp (by omega)

section
variable (orderly : s.Orderly)
include orderly

theorem Orderly.distinct {t u : UInt32}
    (at_t : s.slotMap.get? t = some slot) (at_u : s.slotMap.get? u = some slot) : t = u := by
  have queue := orderly.owned t slot at_t
  rw [orderly.owned u slot at_u] at queue
  exact (some.inj queue).symm

theorem Orderly.register {slab : MmapSlab}
    (unknown : s.slotMap.get? tid = none) (whole : slab.Partition (slot :: s.live))
    (cap : slab.cap = s.slab.cap) : Orderly ⟨s.slotMap.insert tid slot, slab, slab.highWater,
      s.queues.insert (slotOffset slot) tid⟩ where
  whole := by
    refine whole.perm ?_
    simp only [live, s.slotMap.entries_insert unknown, map_append]
    exact (perm_append_singleton _ _).symm
  cap := cap.trans orderly.cap
  published := rfl
  owned := by
    intro t i found
    rw [Table.get?_insert] at found ⊢
    split at found
    · next same => simp [same, some.inj found]
    · have other : slotOffset i ≠ slotOffset slot := fun same =>
        (nodup_cons.mp whole.distinct).1 (slotOffset_inj same ▸ mem_live found)
      rw [if_neg other]
      exact orderly.owned t i found

theorem Orderly.allocSlot (unknown : s.slotMap.get? tid = none) : (s.allocSlot tid).2.Orderly ∧
      ((s.allocSlot tid).1 = none ↔ s.slotMap.entries.length = maxThreads.toNat) ∧
      ∀ slot, (s.allocSlot tid).1 = some slot →
        slot < s.nextSlot ∨ s.slotMap.entries.length = s.nextSlot.toNat := by
  have count : s.live.length = s.slotMap.entries.length := length_map ..
  have full := orderly.whole.full_iff
  rw [count, orderly.cap] at full
  simp only [ShmManager.allocSlot, unknown, ← full]
  by_cases some_free : s.slab.freeHead = freeEnd
  · by_cases room : s.slab.bump < s.slab.cap
    · obtain ⟨taken, whole, -, all⟩ := orderly.whole.extend some_free room
      simp only [taken, reduceCtorEq, true_and, orderly.published]
      exact ⟨orderly.register unknown whole rfl, fun slot _ => .inr (count.symm.trans all)⟩
    · have none_left : s.slab.insert = none := by
        rw [MmapSlab.insert, if_neg (not_not_intro some_free), if_neg room]
      simp only [none_left, true_and]
      exact ⟨orderly, by simp⟩
  · obtain ⟨m, taken, whole, below⟩ := orderly.whole.reuse some_free
    simp only [taken, reduceCtorEq, true_and, orderly.published]
    exact ⟨orderly.register unknown whole rfl, fun slot given => .inl (some.inj given ▸ below)⟩

theorem Orderly.alloc : (s.allocSlot tid).2.Orderly := by
  cases found : s.slotMap.get? tid with
  | none => exact (orderly.allocSlot found).1
  | some =>
    simp only [ShmManager.allocSlot, found]
    refine { orderly with owned := fun t i at_t => ?_ }
    rw [Table.get?_insert]
    split
    · next same => rw [orderly.distinct found (slotOffset_inj same ▸ at_t)]
    · exact orderly.owned t i at_t

theorem Orderly.freeSlot (found : s.slotMap.get? tid = some slot) :
    (s.freeSlot tid).Orderly ∧ (s.freeSlot tid).slab.freeHead = slot ∧ slot ≠ freeEnd := by
  obtain ⟨m, removed, whole, proper⟩ := orderly.whole.release (mem_live found)
  simp only [ShmManager.freeSlot, found, removed]
  refine ⟨⟨whole.perm ?_, orderly.cap, orderly.published, ?_⟩, rfl, proper⟩
  · have all := (s.slotMap.entries_erase found).map Prod.snd
    simpa [live] using all.erase slot
  · intro t i at_t
    obtain ⟨other, before⟩ := Table.of_erase at_t
    have apart : slotOffset i ≠ slotOffset slot := fun same =>
      other (orderly.distinct before (slotOffset_inj same ▸ found))
    rw [Table.get?_erase, if_neg apart]
    exact orderly.owned t i before

theorem Orderly.step (call : SlotCall) : (s.step call).Orderly := by
  cases call with
  | alloc tid => exact orderly.alloc
  | free tid =>
    cases found : s.slotMap.get? tid with
    | none => simpa only [ShmManager.step, ShmManager.freeSlot, found] using orderly
    | some => exact (orderly.freeSlot found).1

end

structure Sound (s : ShmManager) : Prop where
  /-- The slot that is returned is the one registered, and no other thread's changes. -/
  given : ∀ t u, (s.allocSlot t).2.slotMap.get? u =
    if u = t then (s.allocSlot t).1 else s.slotMap.get? u
  unregistered : ∀ t u, (s.freeSlot t).slotMap.get? u =
    if u = t then none else s.slotMap.get? u
  distinct : ∀ t u slot, s.slotMap.get? t = some slot → s.slotMap.get? u = some slot → t = u
  inside : ∀ t slot, s.slotMap.get? t = some slot → slot < maxThreads ∧
    headerSize ≤ slotOffset slot ∧ slotOffset slot + threadQueueSize ≤ totalSize
  published : ∀ t slot, s.slotMap.get? t = some slot → slot < s.nextSlot
  own_queue : ∀ t slot, s.slotMap.get? t = some slot → s.getQueue t = some t
  /-- A freed slot goes to the next thread that asks. -/
  reused : ∀ t slot u, s.slotMap.get? t = some slot → (s.freeSlot t).slotMap.get? u = none →
    ((s.freeSlot t).allocSlot u).1 = some slot
  /-- No slot is forgotten: a new one is opened only while all the others are in use. -/
  opened : ∀ t slot, s.slotMap.get? t = none → (s.allocSlot t).1 = some slot →
    slot < s.nextSlot ∨ s.slotMap.entries.length = s.nextSlot.toNat
  fails : ∀ t, (s.allocSlot t).1 = none ↔
    s.slotMap.get? t = none ∧ s.slotMap.entries.length = maxThreads.toNat

theorem get?_ite {o : Option UInt32} (found : s.slotMap.get? tid = o) (u : UInt32) :
    s.slotMap.get? u = if u = tid then o else s.slotMap.get? u := by
  split
  · next same => exact same ▸ found
  · rfl

theorem Orderly.sound (orderly : s.Orderly) : s.Sound where
  given t u := by
    cases found : s.slotMap.get? t with
    | none =>
      cases taken : s.slab.insert with
      | none => simpa only [ShmManager.allocSlot, found, taken] using get?_ite found u
      | some =>
        simp only [ShmManager.allocSlot, found, taken]
        exact Table.get?_insert ..
    | some => simpa only [ShmManager.allocSlot, found] using get?_ite found u
  unregistered t u := by
    cases found : s.slotMap.get? t with
    | none => simpa only [ShmManager.freeSlot, found] using get?_ite found u
    | some =>
      simp only [ShmManager.freeSlot, found]
      exact Table.get?_erase ..
  distinct _ _ _ := orderly.distinct
  inside t slot found := by
    have below := lt_iff_toNat_lt.mp (orderly.whole.below (mem_live found))
    have bound := le_iff_toNat_le.mp orderly.whole.bound
    rw [orderly.cap] at bound
    have small : slot.toNat < maxThreads.toNat := by omega
    refine ⟨lt_iff_toNat_lt.mpr small, Nat.le_add_right _ _, ?_⟩
    calc slotOffset slot + threadQueueSize
        = headerSize + (slot.toNat + 1) * threadQueueSize := by rw [slotOffset]; ring
      _ ≤ totalSize := Nat.add_le_add_left (Nat.mul_le_mul_right _ small) _
  published t slot found := by
    rw [orderly.published]
    exact orderly.whole.below (mem_live found)
  own_queue t slot found := by
    rw [getQueue, found]
    exact orderly.owned t slot found
  reused t slot u found unknown := by
    obtain ⟨after, head, proper⟩ := orderly.freeSlot found
    obtain ⟨m, taken, -⟩ := after.whole.reuse (head ▸ proper)
    simp only [ShmManager.allocSlot, unknown, taken, head]
  opened t slot unknown := (orderly.allocSlot unknown).2.2 slot
  fails t := by
    cases found : s.slotMap.get? t with
    | none => simp only [(orderly.allocSlot found).2.1, true_and]
    | some => simp [ShmManager.allocSlot, found]

theorem slots_sound (calls : List SlotCall) : (run step create calls).Sound := by
  have orderly : (run step create calls).Orderly :=
    good_run (fun _ call orderly _ => orderly.step call)
      ⟨MmapSlab.partition_new maxThreads, rfl, rfl, by simp [create]⟩
      (allSteps_of_forall (fun _ _ => trivial) create calls)
  exact orderly.sound

theorem freed_slot_given_again :
    let s := run step create [.alloc 7, .alloc 9, .free 7, .alloc 5]
    s.Sound ∧ [5, 7, 9].map s.slotMap.get? = [some 0, none, some 1] :=
  ⟨slots_sound _, rfl⟩

end ShmManager
end Triskelion.SharedQueues
