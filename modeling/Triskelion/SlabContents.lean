import Triskelion.HandleTable

/-! What the slots of a slab hold, apart from the links between the free ones, and
the free list as a chain. Every operation is described by what it does to the
contents; the chain shows that the walk of `insert_at` comes to its end. -/

namespace Triskelion.HeapSlab

open List

variable {α : Type}

def slotValue : HeapSlot α → Option α
  | .occupied _ value => some value
  | .vacant _ _ => none

def contents (s : HeapSlab α) : List (Option α) := s.slots.map slotValue

section
variable (s : HeapSlab α)

theorem contents_length : s.contents.length = s.slots.length :=
  length_map ..

theorem getUnchecked_eq (index : UInt32) :
    s.getUnchecked index = (s.contents[index.toNat]?).join := by
  rw [getUnchecked, contents, getElem?_map]
  rcases s.slots[index.toNat]? with _ | ⟨_, _⟩ | ⟨_, _⟩ <;> rfl

theorem iter_eq : s.iter = s.contents.filterMap id := by
  rw [contents, filterMap_map]
  congr 1

end

variable {value : α}

theorem contents_insertBump (s : HeapSlab α) :
    (s.insertBump value).2.contents = s.contents ++ [some value] := by
  simp [insertBump, contents, slotValue]

variable {index head i : UInt32} {s : HeapSlab α} {chain : List UInt32} {slots : List (HeapSlot α)}

variable {t : HeapSlab α}

theorem contents_removed (removed : s.removeUnchecked index = some (value, t)) :
    t.contents = s.contents.set index.toNat none := by
  rw [removeUnchecked] at removed
  split at removed
  · cases removed
    rw [contents, map_set, contents, slotValue]
  · cases removed

theorem contents_modifyUnchecked (live : s.getUnchecked index = some value) (f : α → α) :
    (s.modifyUnchecked index f).contents = s.contents.set index.toNat (some (f value)) := by
  rw [getUnchecked] at live
  rw [modifyUnchecked]
  split at live
  · cases live
    rw [contents, map_set, contents, slotValue]
  · cases live

/-! ### Lookups -/

theorem getElem?_concat {α : Type} (l : List α) (a : α) (i : Nat) :
    (l ++ [a])[i]? = if i = l.length then some a else l[i]? := by
  rcases Nat.lt_trichotomy i l.length with less | rfl | more
  · rw [if_neg (Nat.ne_of_lt less), getElem?_append_left less]
  · rw [if_pos rfl, getElem?_concat_length]
  · have past : (l ++ [a]).length ≤ i := by
      rw [length_append]
      exact more
    rw [if_neg (Nat.ne_of_gt more), getElem?_eq_none past, getElem?_eq_none (Nat.le_of_lt more)]

theorem modifyUnchecked_vacant (vacant : s.getUnchecked index = none) (f : α → α) :
    s.modifyUnchecked index f = s := by
  rw [getUnchecked] at vacant
  rw [modifyUnchecked]
  split
  · next found => simp [found] at vacant
  · rfl

theorem getUnchecked_modifyUnchecked (f : α → α) : (s.modifyUnchecked index f).getUnchecked i =
      if i = index then (s.getUnchecked i).map f else s.getUnchecked i := by
  cases live : s.getUnchecked index with
  | none =>
    rw [modifyUnchecked_vacant live]
    split
    · next here => rw [here, live, Option.map_none]
    · rfl
  | some =>
    rw [getUnchecked_eq, contents_modifyUnchecked live]
    by_cases here : i = index
    · obtain ⟨slot, at_index⟩ : ∃ slot, s.contents[index.toNat]? = some slot := by
        rw [getUnchecked_eq] at live
        exact ⟨_, Option.join_eq_some_iff.mp live⟩
      rw [if_pos here, here, live, getElem?_set_self', at_index]
      rfl
    · rw [if_neg here, getElem?_set_ne fun same => here (UInt32.toNat_inj.mp same.symm),
        getUnchecked_eq]

section
variable (s : HeapSlab α) (index : UInt32) (f : α → α)
include f

theorem length_modifyUnchecked : (s.modifyUnchecked index f).slots.length = s.slots.length := by
  rw [modifyUnchecked]
  split
  · exact length_set
  · rfl

theorem bump_modifyUnchecked : (s.modifyUnchecked index f).bump = s.bump := by
  rw [modifyUnchecked]
  split <;> rfl

end

/-! ### The free list -/

def Chain (slots : List (HeapSlot α)) : UInt32 → List UInt32 → Prop
  | head, [] => head = freeEnd
  | head, i :: rest => head = i ∧ i ≠ freeEnd ∧
      ∃ generation next, slots[i.toNat]? = some (.vacant generation next) ∧ Chain slots next rest

def FreeList (s : HeapSlab α) : Prop := ∃ chain, chain.Nodup ∧ Chain s.slots s.freeHead chain

section
variable (linked : Chain slots head chain)
include linked

theorem Chain.agree {slots' : List (HeapSlot α)}
    (same : ∀ i ∈ chain, slots'[i.toNat]? = slots[i.toNat]?) : Chain slots' head chain := by
  induction chain generalizing head with
  | nil => exact linked
  | cons i rest ih =>
    obtain ⟨at_i, inside, generation, next, vacant, later⟩ := linked
    exact ⟨at_i, inside, generation, next, (same i mem_cons_self).trans vacant,
      ih later fun j mem => same j (mem_cons_of_mem i mem)⟩

theorem Chain.vacant (mem : i ∈ chain) :
    ∃ generation next, slots[i.toNat]? = some (.vacant generation next) := by
  induction chain generalizing head with
  | nil => cases mem
  | cons j rest ih =>
    obtain ⟨-, -, generation, next, vacant, later⟩ := linked
    rcases mem_cons.mp mem with rfl | tail
    · exact ⟨generation, next, vacant⟩
    · exact ih later tail

theorem Chain.lt_length (mem : i ∈ chain) : i.toNat < slots.length := by
  obtain ⟨_, _, found⟩ := linked.vacant mem
  exact (List.getElem?_eq_some_iff.mp found).1

theorem Chain.append (more : List (HeapSlot α)) : Chain (slots ++ more) head chain :=
  linked.agree fun _ mem => getElem?_append_left (linked.lt_length mem)

theorem Chain.set_of_notMem (off : i ∉ chain) (slot : HeapSlot α) :
    Chain (slots.set i.toNat slot) head chain := by
  refine linked.agree fun j mem => getElem?_set_ne fun equal => off ?_
  rwa [UInt32.toNat_inj.mp equal]

theorem Chain.length_le (nodup : chain.Nodup) : chain.length ≤ slots.length := by
  have inside : chain.map UInt32.toNat ⊆ range slots.length := by
    intro n mem
    obtain ⟨i, at_i, rfl⟩ := mem_map.mp mem
    exact mem_range.mpr (linked.lt_length at_i)
  have distinct := nodup.map fun i j equal => UInt32.toNat_inj.mp equal
  simpa using (subperm_of_subset distinct inside).length_le

end

section
variable (free : s.FreeList)
include free

theorem FreeList.insertBump (value : α) : (s.insertBump value).2.FreeList := by
  obtain ⟨chain, nodup, linked⟩ := free
  exact ⟨chain, nodup, linked.append _⟩

theorem FreeList.pushVacant : s.pushVacant.FreeList := by
  obtain ⟨chain, nodup, linked⟩ := free
  exact ⟨chain, nodup, linked.append _⟩

theorem FreeList.removed (inside : index ≠ freeEnd)
    (removed : s.removeUnchecked index = some (value, t)) : t.FreeList := by
  obtain ⟨chain, nodup, linked⟩ := free
  rw [removeUnchecked] at removed
  split at removed
  · next generation v found =>
    cases removed
    have off : index ∉ chain := by
      intro mem
      obtain ⟨_, _, vacant⟩ := linked.vacant mem
      rw [found] at vacant
      cases vacant
    refine ⟨index :: chain, nodup_cons.mpr ⟨off, nodup⟩, rfl, inside, generation + 1,
      s.freeHead, ?_, linked.set_of_notMem off _⟩
    rw [List.getElem?_set_self (List.getElem?_eq_some_iff.mp found).1]
  · cases removed

theorem FreeList.modifyUnchecked (index : UInt32) (f : α → α) :
    (s.modifyUnchecked index f).FreeList := by
  obtain ⟨chain, nodup, linked⟩ := free
  rw [HeapSlab.modifyUnchecked]
  split
  · next found =>
    refine ⟨chain, nodup, linked.set_of_notMem ?_ _⟩
    intro mem
    obtain ⟨_, _, vacant⟩ := linked.vacant mem
    rw [found] at vacant
    cases vacant
  · exact ⟨chain, nodup, linked⟩

end

/-! ### The walk -/

structure Relinked (slots slots' : List (HeapSlot α)) (chain : List UInt32) : Prop where
  values : slots'.map slotValue = slots.map slotValue
  frame : ∀ i ∉ chain, slots'[i.toNat]? = slots[i.toNat]?

theorem map_set_vacant {generation next : UInt32}
    (vacant : slots[i.toNat]? = some (.vacant generation next)) (generation' next' : UInt32) :
    (slots.set i.toNat (.vacant generation' next')).map slotValue = slots.map slotValue := by
  obtain ⟨bound, at_i⟩ := List.getElem?_eq_some_iff.mp vacant
  have mapped : i.toNat < (slots.map slotValue).length := by rwa [length_map]
  have free : (slots.map slotValue)[i.toNat] = none := by rw [getElem_map, at_i, slotValue]
  rw [map_set, slotValue, ← free, set_getElem_self]

/-- The walk finds the slot if it is on the list and stops at the end otherwise.
The induction is on the part of the list that is still ahead. -/
theorem unlinkFrom_spec (inside : index ≠ freeEnd) (linked : Chain slots head chain)
    (nodup : chain.Nodup) (other : head ≠ index) {fuel : Nat} (enough : chain.length < fuel) :
    ∃ slots', unlinkFrom slots index fuel head = some slots' ∧ Relinked slots slots' chain ∧
      Chain slots' head (chain.erase index) := by
  induction chain generalizing head fuel with
  | nil =>
    obtain ⟨fuel, rfl⟩ := Nat.exists_eq_succ_of_ne_zero (by omega : fuel ≠ 0)
    exact ⟨slots, if_pos linked, ⟨rfl, fun _ _ => rfl⟩, linked⟩
  | cons prev rest ih =>
    obtain ⟨fuel, rfl⟩ := Nat.exists_eq_succ_of_ne_zero (by omega : fuel ≠ 0)
    obtain ⟨rfl, before, generation, next, vacant, later⟩ := linked
    rw [nodup_cons] at nodup
    rw [length_cons] at enough
    rw [erase_cons_tail (by simpa using other)]
    have turn : unlinkFrom slots index (fuel + 1) head =
        if next = index then
          some (slots.set head.toNat (.vacant generation (nextFree slots index)))
        else unlinkFrom slots index fuel next := by
      rw [unlinkFrom, if_neg before, vacant]
    by_cases found : next = index
    · subst found
      cases rest with
      | nil => exact absurd later inside
      | cons i rest =>
        obtain ⟨rfl, -, generation', next', target, later⟩ := later
        rw [mem_cons, not_or] at nodup
        have link : nextFree slots next = next' := by rw [nextFree, target]
        refine ⟨_, turn.trans (if_pos rfl), ⟨map_set_vacant vacant _ _, ?_⟩, ?_⟩
        · intro i off
          refine List.getElem?_set_ne fun equal => off ?_
          rw [UInt32.toNat_inj.mp equal]
          exact mem_cons_self
        · rw [erase_cons_head, link]
          refine ⟨rfl, before, generation, next', ?_, later.set_of_notMem nodup.1.2 _⟩
          rw [List.getElem?_set_self (List.getElem?_eq_some_iff.mp vacant).1]
    · obtain ⟨slots', walked, ⟨values, frame⟩, chained⟩ :=
        ih later nodup.2 found (by omega : rest.length < fuel)
      refine ⟨slots', (turn.trans (if_neg found)).trans walked, ⟨values, ?_⟩, ?_⟩
      · intro i off
        exact frame i fun mem => off (mem_cons_of_mem _ mem)
      · exact ⟨rfl, before, generation, next, (frame head nodup.1).trans vacant, chained⟩

theorem unlink_spec (free : s.FreeList) (inside : index ≠ freeEnd) {generation next : UInt32}
    (vacant : s.slots[index.toNat]? = some (.vacant generation next)) :
    ∃ t, s.unlink index = some t ∧ t.contents = s.contents ∧ t.bump = s.bump ∧
      ∃ chain, chain.Nodup ∧ Chain t.slots t.freeHead chain ∧ index ∉ chain := by
  obtain ⟨chain, nodup, linked⟩ := free
  rw [unlink]
  split
  · next head =>
    subst head
    rw [vacant]
    refine ⟨_, rfl, rfl, rfl, ?_⟩
    cases chain with
    | nil => exact absurd linked inside
    | cons i rest =>
      obtain ⟨rfl, -, generation', next', at_head, later⟩ := linked
      obtain ⟨-, rfl⟩ := HeapSlot.vacant.inj (Option.some.inj (vacant.symm.trans at_head))
      exact ⟨rest, (nodup_cons.mp nodup).2, later, (nodup_cons.mp nodup).1⟩
  · next head =>
    obtain ⟨slots', walked, relinked, chained⟩ :=
      unlinkFrom_spec inside linked nodup head (Nat.lt_succ_of_le (linked.length_le nodup))
    refine ⟨_, congrArg _ walked, relinked.values, rfl, chain.erase index, nodup.erase index,
      chained, ?_⟩
    exact nodup.not_mem_erase

/-! ### Growth -/

def Level (s : HeapSlab α) : Prop := s.slots.length = s.bump.toNat

theorem Level.pushVacant (level : s.Level) (room : s.slots.length < freeEnd.toNat) :
    s.pushVacant.Level := by
  have bound : s.slots.length < 4294967295 := room
  have same : UInt32.ofNat s.slots.length = s.bump := by
    rw [← UInt32.toNat_inj, level]
    exact Nat.mod_eq_of_lt s.bump.toNat_lt
  rw [Level, HeapSlab.pushVacant, same]
  simp only [UInt32.le_refl, if_true, length_append, length_singleton, UInt32.toNat_add,
    UInt32.reduceToNat]
  rw [Level] at level
  omega

theorem slots_growBy (n : Nat) :
    (s.growBy n).slots = s.slots ++ replicate n (.vacant 0 freeEnd) := by
  induction n generalizing s with
  | zero => simp [growBy]
  | succ n ih => simp [growBy, ih, pushVacant, replicate_succ]

theorem FreeList.growBy (free : s.FreeList) (n : Nat) : (s.growBy n).FreeList := by
  induction n generalizing s with
  | zero => exact free
  | succ n ih => exact ih free.pushVacant

theorem Level.growBy (level : s.Level) {n : Nat} (room : s.slots.length + n ≤ freeEnd.toNat) :
    (s.growBy n).Level := by
  induction n generalizing s with
  | zero => exact level
  | succ n ih =>
    refine ih (level.pushVacant (by omega)) ?_
    rw [HeapSlab.pushVacant, length_append, length_singleton]
    omega

theorem contents_growTo (idx : Nat) :
    (s.growTo idx).contents = s.contents ++ replicate (idx + 1 - s.slots.length) none := by
  rw [growTo, contents, slots_growBy, map_append, map_replicate, contents, slotValue]

theorem Level.insertBump (level : s.Level) (room : s.slots.length < freeEnd.toNat) (value : α) :
    (s.insertBump value).2.Level := by
  have bound : s.slots.length < 4294967295 := room
  rw [Level] at level
  simp only [Level, HeapSlab.insertBump, length_append, length_singleton,
    UInt32.toNat_add, UInt32.reduceToNat]
  omega

theorem getUnchecked_insertBump (level : s.Level) (value : α) (i : UInt32) :
    (s.insertBump value).2.getUnchecked i = if i = s.bump then some value else s.getUnchecked i := by
  have bump := s.contents_length.trans level
  rw [getUnchecked_eq, getUnchecked_eq, contents_insertBump, getElem?_concat, bump]
  by_cases here : i = s.bump
  · simp [here]
  · simp [here, mt UInt32.toNat_inj.mp here]

/-! ### Storing at an index -/

theorem cleared_spec (free : s.FreeList) (inside : index ≠ freeEnd)
    (bound : index.toNat < s.slots.length) :
    ∃ t, ((s.removeUnchecked index).map Prod.snd).getD s = t ∧ t.FreeList ∧
      t.contents = s.contents.set index.toNat none ∧ t.bump = s.bump ∧
      ∃ generation next, t.slots[index.toNat]? = some (.vacant generation next) := by
  cases slot : s.slots[index.toNat] with
  | occupied generation value =>
    have found : s.slots[index.toNat]? = some (.occupied generation value) := by
      rw [getElem?_eq_getElem bound, slot]
    have removed : s.removeUnchecked index = some (value, { s with
        slots := s.slots.set index.toNat (.vacant (generation + 1) s.freeHead)
        freeHead := index
        len := s.len - 1 }) := by
      rw [removeUnchecked, found]
    refine ⟨_, by rw [removed]; rfl, free.removed inside removed, contents_removed removed, rfl,
      generation + 1, s.freeHead, ?_⟩
    rw [getElem?_set_self bound]
  | vacant generation next =>
    have found : s.slots[index.toNat]? = some (.vacant generation next) := by
      rw [getElem?_eq_getElem bound, slot]
    have kept : s.removeUnchecked index = none := by rw [removeUnchecked, found]
    refine ⟨s, by rw [kept]; rfl, free, ?_, rfl, generation, next, found⟩
    have same := map_set_vacant found 0 0
    rw [map_set] at same
    exact same.symm

theorem insertAt_spec (free : s.FreeList) (inside : index ≠ freeEnd) :
    ∃ t, s.insertAt index value = some t ∧ t.FreeList ∧ (s.Level → t.Level) ∧
      t.contents = (s.contents ++ replicate (index.toNat + 1 - s.slots.length) none).set
        index.toNat (some value) := by
  have bound : index.toNat < (s.growTo index.toNat).slots.length := by
    rw [growTo, slots_growBy, length_append, length_replicate]
    omega
  have below : index.toNat < freeEnd.toNat := by
    have : index.toNat ≠ freeEnd.toNat := fun equal => inside (UInt32.toNat_inj.mp equal)
    have : index.toNat < 4294967296 := index.toNat_lt
    have : freeEnd.toNat = 4294967295 := rfl
    omega
  obtain ⟨c, cleared, freeC, contentsC, bumpC, _, _, vacant⟩ :=
    cleared_spec (free.growBy (index.toNat + 1 - s.slots.length)) inside bound
  obtain ⟨u, unlinked, contentsU, bumpU, chain, nodup, linked, off⟩ :=
    unlink_spec freeC inside vacant
  have lengthU : u.slots.length = (s.growTo index.toNat).slots.length := by
    rw [← contents_length, contentsU, contentsC, length_set, contents_length, growTo]
  refine ⟨u.occupy index value, ?_, ⟨chain, nodup, linked.set_of_notMem off _⟩, ?_, ?_⟩
  · rw [insertAt, growTo, cleared, unlinked]
    rfl
  · intro level
    have grown : (s.growTo index.toNat).Level := by
      by_cases short : s.slots.length ≤ index.toNat + 1
      · exact level.growBy (by omega)
      · have none : index.toNat + 1 - s.slots.length = 0 := by omega
        rw [growTo, none]
        exact level
    have bump : u.bump = (s.growTo index.toNat).bump := bumpU.trans bumpC
    have above : ¬ u.bump ≤ index := by
      rw [bump, UInt32.le_iff_toNat_le, ← grown]
      omega
    rw [Level, occupy, length_set, lengthU, if_neg above, bump]
    exact grown
  · rw [occupy, contents, map_set, slotValue, ← contents, contentsU, contentsC, set_set,
      ← contents_growTo, growTo]

section
variable (contents : t.contents = (s.contents ++ replicate (index.toNat + 1 - s.slots.length)
    none).set index.toNat (some value))
include contents

theorem length_stored : t.slots.length = s.slots.length + (index.toNat + 1 - s.slots.length) := by
  rw [← contents_length, contents, length_set, length_append, length_replicate, contents_length]

theorem getUnchecked_stored (i : UInt32) :
    t.getUnchecked i = if i = index then some value else s.getUnchecked i := by
  rw [getUnchecked_eq, getUnchecked_eq, contents]
  split_ifs with here
  · rw [here, getElem?_set_self (by
      rw [length_append, length_replicate, contents_length]; omega)]
    rfl
  · rw [getElem?_set_ne fun same => here (UInt32.toNat_inj.mp same.symm)]
    by_cases inside : i.toNat < s.contents.length
    · rw [getElem?_append_left inside]
    · -- the slots the table grew by are free
      rw [getElem?_append_right (Nat.le_of_not_lt inside), getElem?_replicate,
        getElem?_eq_none (Nat.le_of_not_lt inside)]
      split <;> rfl

end

end Triskelion.HeapSlab

/-! ### The handle table -/

namespace Triskelion.HandleTable

def slotLimit : Nat := 0x40000000

theorem shiftRight_toNat (h : UInt32) : (h >>> 2).toNat = h.toNat / 4 := by
  rw [UInt32.toNat_shiftRight, Nat.shiftRight_eq_div_pow]
  rfl

theorem index_ne_freeEnd (h : UInt32) : h >>> 2 ≠ freeEnd := by
  intro equal
  have bound := h.toNat_lt
  have shifted := shiftRight_toNat h
  have top : freeEnd.toNat = 4294967295 := rfl
  rw [equal] at shifted
  omega

variable {t : HandleTable}

theorem get_eq (h : UInt32) : t.get h = (t.slab.contents[(h >>> 2).toNat]?).join :=
  t.slab.getUnchecked_eq _

theorem slab_close (h : UInt32) :
    (t.close h).1.slab = ((t.slab.removeUnchecked (h >>> 2)).map Prod.snd).getD t.slab := by
  rw [HandleTable.close]
  cases t.slab.removeUnchecked (h >>> 2) with
  | none => rfl
  | some removed =>
    obtain ⟨⟨_, fd, _, _, _⟩, slab⟩ := removed
    cases fd <;> rfl

section
variable (t : HandleTable) (h : UInt32)

theorem contents_close :
    (t.close h).1.slab.contents = t.slab.contents.set (h >>> 2).toNat none := by
  rw [slab_close]
  cases live : t.slab.getUnchecked (h >>> 2) with
  | none =>
    rw [HeapSlab.removeUnchecked_none live, Option.map_none, Option.getD_none]
    rw [HeapSlab.getUnchecked_eq] at live
    apply List.ext_getElem?
    intro i
    rw [List.getElem?_set]
    split
    · next equal =>
      subst equal
      split
      · next bound =>
        rw [List.getElem?_eq_getElem bound] at live ⊢
        exact congrArg some live
      · next bound => exact List.getElem?_eq_none (Nat.le_of_not_lt bound)
    · rfl
  | some =>
    obtain ⟨slab, removed⟩ := HeapSlab.removeUnchecked_some live
    rw [removed]
    exact HeapSlab.contents_removed removed

theorem bump_close : (t.close h).1.slab.bump = t.slab.bump := by
  rw [slab_close, HeapSlab.removeUnchecked]
  split <;> rfl

theorem length_close : (t.close h).1.slab.slots.length = t.slab.slots.length := by
  rw [← HeapSlab.contents_length, contents_close, List.length_set, HeapSlab.contents_length]

end

theorem free_close (free : t.slab.FreeList) (h : UInt32) : (t.close h).1.slab.FreeList := by
  rw [slab_close]
  cases removed : t.slab.removeUnchecked (h >>> 2) with
  | none => exact free
  | some => exact free.removed (index_ne_freeEnd h) removed

theorem getElem?_concat_live {l : List (Option HandleEntry)} {i : Nat} (x : Option HandleEntry)
    (live : ((l[i]?).join).isSome) : ((l ++ [x])[i]?).join = (l[i]?).join := by
  have inside : i < l.length := by
    by_contra outside
    simp [List.getElem?_eq_none (Nat.le_of_not_lt outside)] at live
  rw [List.getElem?_append_left inside]

theorem get_allocate {h : UInt32} (oid : UInt64) (live : (t.get h).isSome) :
    (t.allocate oid).2.get h = t.get h := by
  rw [get_eq] at live
  simp only [get_eq, allocate, HeapSlab.contents_insertBump, getElem?_concat_live _ live]

theorem get_allocateFull {h : UInt32} (entry : HandleEntry)
    (live : (t.get h).isSome) : (t.allocateFull entry).2.get h = t.get h := by
  rw [get_eq] at live
  simp only [get_eq, allocateFull, HeapSlab.contents_insertBump, getElem?_concat_live _ live]

/-! ### Entries -/

theorem getUnchecked_new (index : UInt32) : HandleTable.new.slab.getUnchecked index = none := by
  rw [HeapSlab.getUnchecked_eq]
  cases index.toNat <;> rfl

theorem getUnchecked_close (handle index : UInt32) : (t.close handle).1.slab.getUnchecked index =
      if index = handle >>> 2 then none else t.slab.getUnchecked index := by
  rw [HeapSlab.getUnchecked_eq, HeapSlab.getUnchecked_eq, contents_close]
  by_cases here : index = handle >>> 2
  · rw [if_pos here, here, List.getElem?_set_self']
    cases t.slab.contents[(handle >>> 2).toNat]? <;> rfl
  · rw [if_neg here, List.getElem?_set_ne fun same => here (UInt32.toNat_inj.mp same.symm)]

theorem replaceFd_slab (handle : UInt32) (fd : Int) : (t.replaceFd handle fd).1.slab =
      t.slab.modifyUnchecked (handle >>> 2) fun entry => { entry with fd := some fd } := by
  cases live : t.get handle with
  | none =>
    have vacant := live
    rw [replaceFd, live, HeapSlab.modifyUnchecked_vacant vacant]
  | some => rw [replaceFd_live live]

theorem length_allocateFull (t : HandleTable) (entry : HandleEntry) :
    (t.allocateFull entry).2.slab.slots.length = t.slab.slots.length + 1 := by
  simp [allocateFull, HeapSlab.insertBump]

theorem get_close_ne {g h : UInt32} (other : g >>> 2 ≠ h >>> 2) :
    (t.close g).1.get h = t.get h := by
  have apart := mt UInt32.toNat_inj.mp other
  rw [get_eq, get_eq, contents_close, List.getElem?_set_ne apart]

end Triskelion.HandleTable
