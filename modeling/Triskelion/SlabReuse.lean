import Triskelion.SharedQueues

/-! The slab of the shared queues on its own. A slot that is handed out and the slot the free list
ends with carry the same link, so the second can be given back twice. -/

namespace Triskelion.SlabReuse
open SharedQueues MmapSlab List RunRules

structure Books where
  slab : MmapSlab
  /-- not in the code: what was handed out and has not come back -/
  allocated : List UInt32

inductive Op
  | insert
  | remove (index : UInt32)

def step (s : Books) : Op → Books
  | .insert => (s.slab.insert.map fun made => ⟨made.2, made.1 :: s.allocated⟩).getD s
  | .remove index => ⟨(s.slab.remove index).2,
      if (s.slab.remove index).1 then s.allocated.erase index else s.allocated⟩

/-- Every slot is handed out or on the free list, once, so the list has no cycle. -/
def Sound (s : Books) : Prop := s.slab.Partition s.allocated

def Exact (s : Books) : Op → Prop
  | .insert => ∀ made, s.slab.insert = some made → made.1 ∉ s.allocated
  | .remove index => ((s.slab.remove index).1 = true ↔ index ∈ s.allocated) ∧
      (index ∉ s.allocated → (s.slab.remove index).2 = s.slab)

/-- What comes back is not the slot the free list ends with. -/
def Careful (s : Books) : Op → Prop
  | .insert => True
  | .remove index => index ∈ s.allocated ∨ s.slab.link index ≠ some freeEnd

section
variable {s : Books} (sound : Sound s)
include sound

theorem insert_sound : Exact s .insert ∧ Sound (step s .insert) := by
  have handed : ∀ i slab, s.slab.insert = some (i, slab) → slab.Partition (i :: s.allocated) →
      Exact s .insert ∧ Sound (step s .insert) := by
    intro i slab made whole
    simp only [Exact, Sound, step, made]
    exact ⟨fun _ same => Option.some.inj same ▸ (nodup_cons.mp whole.distinct).1, whole⟩
  by_cases none_free : s.slab.freeHead = freeEnd
  · by_cases room : s.slab.bump < s.slab.cap
    · obtain ⟨made, whole, -⟩ := Partition.extend sound none_free room
      exact handed _ _ made whole
    · have full : s.slab.insert = none := by simp [MmapSlab.insert, none_free, room]
      simp only [Exact, Sound, step, full]
      exact ⟨by simp, sound⟩
  · obtain ⟨m, made, whole, -⟩ := Partition.reuse sound none_free
    exact handed _ _ made whole

theorem remove_sound (index : UInt32) :
    Careful s (.remove index) ↔ Exact s (.remove index) ∧ Sound (step s (.remove index)) := by
  by_cases mem : index ∈ s.allocated
  · obtain ⟨m, freed, whole, -⟩ := Partition.release sound mem
    simp [Careful, Exact, Sound, step, mem, freed, whole]
  · have kept : s.slab.Partition s.allocated := sound
    cases found : s.slab.slotMeta[index.toNat]? with
    | none => simp [Careful, Exact, Sound, step, remove, link, found, mem, kept]
    | some m =>
      by_cases free : m.nextFree = freeEnd <;>
        simp [Careful, Exact, Sound, step, remove, link, found, mem, free, kept]

end

/-- The books are right as long as nobody gives back the last free slot. -/
theorem slots_freed_once_iff (cap : UInt32) (ops : List Op) :
    (∀ s ∈ states step ⟨.new cap, []⟩ ops, Sound s) ∧ AllSteps step Exact ⟨.new cap, []⟩ ops ↔
      AllSteps step Careful ⟨.new cap, []⟩ ops := by
  refine good_and_seen_iff (fun s op sound => ?_) (partition_new cap)
  cases op with
  | insert => simpa [Careful] using insert_sound sound
  | remove index => exact remove_sound sound index

/-- Slot 0 is handed out once and given back twice. -/
theorem freed_twice : ¬ Exact (run step ⟨.new 4, []⟩ [.insert, .remove 0]) (.remove 0) := by
  intro exact
  exact absurd (exact.1.mp (by decide)) (by decide)

end Triskelion.SlabReuse
