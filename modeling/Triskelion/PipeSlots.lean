import Mathlib.Logic.Function.Basic
import Triskelion.HandleFreshness
import Triskelion.OwnedPipes

/-! Which descriptor is where: what the slots of the handle tables hold, and what the
instances of named pipes keep for their next client. Each function that handles a pipe is
described by what it does to the two, and to the set of open descriptors. -/

namespace Triskelion.PipeSlots

open DescriptorTables HandleTable List Table Option Function HeapSlab NamedPipeInfo

/-- A process and a slot of its handle table. -/
abbrev Slot := UInt32 × UInt32

/-- The name of a pipe and the number of an instance. -/
abbrev Place := String × Nat

def slotOf (pid handle : UInt32) : Slot := (pid, handle >>> 2)

def tableFd (t : HandleTable) (index : UInt32) : Option Int :=
  (t.slab.getUnchecked index).bind HandleEntry.fd

def slotFd (s : DescriptorTables) (slot : Slot) : Option Int :=
  (s.processes.get? slot.1).bind fun t => tableFd t slot.2

def server (info : NamedPipeInfo) : Slot := slotOf info.serverPid info.serverHandle

def instancesOf (s : DescriptorTables) (name : String) : List NamedPipeInfo :=
  (s.namedPipes.get? name).getD []

def placed (info : NamedPipeInfo) : Slot × Int := (server info, info.clientDataFd)

section
variable (s : DescriptorTables)

def places (i : Place) : Option (Slot × Int) :=
  (instancesOf s i.1)[i.2]?.map placed

def opened (x : Int) : Bool := s.kernel.descriptors.contains x

def nextSlot (pid : UInt32) : Slot := slotOf pid (s.nextHandle pid)

def room (pid : UInt32) : Bool :=
  (s.processes.get? pid).all fun t => t.slab.slots.length + 2 ≤ slotLimit

end

variable {s : DescriptorTables} {pid handle : UInt32} {t : HandleTable}

/-! ### Tables -/

/-- A table in which every entry has a descriptor, `-1` included. -/
structure Sane (t : HandleTable) : Prop where
  level : t.slab.Level
  reserved : 1 ≤ t.slab.slots.length
  filled : ∀ index entry, t.slab.getUnchecked index = some entry → entry.fd ≠ none

variable {entry : HandleEntry} {index : UInt32}

theorem tableFd_allocateFull (level : t.slab.Level) : tableFd (t.allocateFull entry).2 index =
      if index = t.slab.bump then entry.fd else tableFd t index := by
  change ((t.slab.insertBump entry).2.getUnchecked index).bind _ = _
  rw [getUnchecked_insertBump level]
  split <;> rfl

theorem tableFd_close :
    tableFd (t.close handle).1 index = if index = handle >>> 2 then none else tableFd t index := by
  rw [tableFd, getUnchecked_close]
  split <;> rfl

variable {fd : Int}

theorem tableFd_replaceFd (sane : Sane t) : tableFd (t.replaceFd handle fd).1 index =
      if index = handle >>> 2 then (tableFd t index).map fun _ => fd else tableFd t index := by
  rw [tableFd, replaceFd_slab, getUnchecked_modifyUnchecked]
  split_ifs with here
  · cases found : t.slab.getUnchecked index with
    | none => simp [tableFd, found]
    | some entry =>
      obtain ⟨old, has⟩ := ne_none_iff_exists'.mp (sane.filled index entry found)
      simp [tableFd, found, has]
  · rfl

theorem sane_new : Sane .new where
  level := rfl
  reserved := Nat.le_refl 1
  filled index entry found := by
    rw [getUnchecked_new] at found
    cases found

theorem Sane.allocateFull (sane : Sane t) (fits : t.slab.slots.length < slotLimit)
    (has : entry.fd ≠ none) : Sane (t.allocateFull entry).2 where
  level := sane.level.insertBump (Nat.lt_trans fits (by decide)) entry
  reserved := by
    rw [length_allocateFull]
    omega
  filled index other found := by
    change (t.slab.insertBump entry).2.getUnchecked index = some other at found
    rw [getUnchecked_insertBump sane.level] at found
    split_ifs at found
    · cases found
      exact has
    · exact sane.filled index other found

theorem Sane.close (sane : Sane t) (handle : UInt32) : Sane (t.close handle).1 where
  level := by
    rw [Level, length_close, bump_close]
    exact sane.level
  reserved := by
    rw [length_close]
    exact sane.reserved
  filled index entry found := by
    rw [getUnchecked_close] at found
    split_ifs at found
    exact sane.filled index entry found

theorem Sane.replaceFd (sane : Sane t) (handle : UInt32) (fd : Int) :
    Sane (t.replaceFd handle fd).1 where
  level := by
    rw [Level, replaceFd_slab, length_modifyUnchecked, bump_modifyUnchecked]
    exact sane.level
  reserved := by
    rw [replaceFd_slab, length_modifyUnchecked]
    exact sane.reserved
  filled index entry found := by
    rw [replaceFd_slab, getUnchecked_modifyUnchecked] at found
    split_ifs at found
    · obtain ⟨old, -, rfl⟩ := map_eq_some_iff.mp found
      simp
    · exact sane.filled index entry found

/-! ### Slots -/

variable {slot : Slot}

theorem slotFd_insert : slotFd { s with processes := s.processes.insert pid t } slot =
      if slot.1 = pid then tableFd t slot.2 else slotFd s slot := by
  rw [slotFd, get?_insert]
  split <;> rfl

theorem slotFd_newProcess (unknown : s.processes.get? pid = none) :
    slotFd { s with processes := s.processes.insert pid .new } = slotFd s := by
  funext slot
  rw [slotFd_insert]
  split_ifs with here
  · rw [tableFd, getUnchecked_new, bind_none, slotFd, here, unknown, bind_none]
  · rfl

theorem nextSlot_eq (found : s.processes.get? pid = some t) (level : t.slab.Level)
    (fits : t.slab.slots.length < slotLimit) : nextSlot s pid = (pid, t.slab.bump) := by
  have bound := level ▸ fits
  simp [nextSlot, slotOf, nextHandle, found, HandleFreshness.shift_round bound]

theorem nextSlot_unknown (unknown : s.processes.get? pid = none) : nextSlot s pid = (pid, 0) := by
  simp [nextSlot, slotOf, nextHandle, unknown]

section
variable (found : s.processes.get? pid = some t)
include found

theorem slotFd_allocEntry (level : t.slab.Level)
    (fits : t.slab.slots.length < slotLimit) (entry : HandleEntry) :
    slotFd (s.allocEntry pid entry).2 = update (slotFd s) (nextSlot s pid) entry.fd := by
  funext slot
  rw [nextSlot_eq found level fits, allocEntry, found]
  rw [slotFd_insert, update_apply, tableFd_allocateFull level]
  obtain ⟨p, index⟩ := slot
  by_cases here : p = pid
  · subst here
    simp [slotFd, found]
  · simp [here]

theorem slotFd_close : slotFd { s with processes := s.processes.insert pid (t.close handle).1 } =
      update (slotFd s) (slotOf pid handle) none := by
  funext slot
  obtain ⟨p, index⟩ := slot
  rw [slotFd_insert, update_apply, tableFd_close]
  by_cases here : p = pid
  · subst here
    simp [slotFd, found, slotOf]
  · simp [here, slotOf]

theorem slotFd_replaceFd (sane : Sane t) :
    slotFd { s with processes := s.processes.insert pid (t.replaceFd handle fd).1 } =
      fun slot => if slot = slotOf pid handle then (slotFd s (slotOf pid handle)).map fun _ => fd
        else slotFd s slot := by
  funext slot
  obtain ⟨p, index⟩ := slot
  rw [slotFd_insert, tableFd_replaceFd sane]
  by_cases here : p = pid
  · subst here
    by_cases there : index = handle >>> 2 <;> simp [slotFd, found, slotOf, there]
  · simp [here, slotOf]

end

/-! ### Open descriptors -/

theorem opened_openFd (s : DescriptorTables) (pid : UInt32) (fd x : Int) :
    opened (s.openFd pid fd) x = (decide (x = fd) || opened s x) :=
  contains_insert ..

theorem opened_useFd (s : DescriptorTables) (fd : Int) : opened (s.useFd fd) = opened s := by
  unfold opened useFd Kernel.useFd
  split <;> rfl

variable {x : Int} {s' : DescriptorTables} {info : NamedPipeInfo} {name : String} {t' : HandleTable}

theorem opened_closeAll (still : opened s x) {fds : List Int} (other : x ∉ fds) :
    opened (s.closeAll fds) x := by
  induction fds generalizing s with
  | nil => exact still
  | cons fd later ih =>
    obtain ⟨apart, rest⟩ := ne_and_not_mem_of_not_mem_cons other
    refine ih (s := s.closeFd fd) ?_ rest
    unfold opened closeFd Kernel.closeFd
    split_ifs
    · exact still
    · rw [contains_erase]
      rw [opened] at still
      simpa [apart] using still
    · exact still

theorem opened_closeFd (still : opened s x) (other : x ≠ fd) : opened (s.closeFd fd) x := by
  have alone : x ∉ [fd] := by simpa using other
  exact opened_closeAll still alone

theorem closes_entry (mem : x ∈ (t.close handle).2) : tableFd t (handle >>> 2) = some x := by
  cases live : t.get handle with
  | none => simp [close_vacant live] at mem
  | some entry =>
    obtain ⟨slab, removed⟩ := removeUnchecked_some live
    have found : t.slab.getUnchecked (handle >>> 2) = some entry := live
    rw [HandleTable.close, removed] at mem
    dsimp only at mem
    split at mem
    · simp at mem
    · next fd has =>
      split at mem
      · rw [tableFd, found, bind_some, has, mem_singleton.mp mem]
      · simp at mem

/-! ### Places -/

variable {f : NamedPipeInfo → NamedPipeInfo}

theorem getElem?_updateFirst (p : NamedPipeInfo → Bool) (l : List NamedPipeInfo) (n : Nat) :
    (updateFirst p f l)[n]? = if n = l.findIdx p then l[n]?.map f else l[n]? := by
  induction l generalizing n with
  | nil => simp [updateFirst]
  | cons info rest ih =>
    rw [updateFirst]
    cases first : p info with
    | true => cases n <;> simp [findIdx_cons, first]
    | false =>
      cases n with
      | zero => simp [findIdx_cons, first]
      | succ n => simp [findIdx_cons, first, ih]

theorem places_of_namedPipes (same : s'.namedPipes = s.namedPipes) : places s' = places s := by
  funext i
  rw [places, places, instancesOf, instancesOf, same]

theorem places_addInstance : places (s.addInstance name info) =
      update (places s) (name, (instancesOf s name).length) (some (placed info)) := by
  funext i
  obtain ⟨other, n⟩ := i
  rw [update_apply, places, instancesOf, addInstance, get?_insert]
  by_cases here : other = name
  · subst here
    simp only [if_true, getD_some, Prod.mk.injEq, true_and]
    by_cases last : n = (instancesOf s other).length
    · rw [last]
      simp [instancesOf]
    · rw [places]
      change (instancesOf s other ++ [info])[n]?.map placed = _
      rw [getElem?_concat]
      simp [last]
  · simp [here, places, instancesOf]

theorem places_updateFirst (s : DescriptorTables) (name : String) (p : NamedPipeInfo → Bool)
    (f : NamedPipeInfo → NamedPipeInfo) :
    places { s with namedPipes := s.namedPipes.modify name (updateFirst p f) } =
      update (places s) (name, (instancesOf s name).findIdx p)
        (((instancesOf s name).find? p).map fun info => placed (f info)) := by
  funext i
  obtain ⟨other, n⟩ := i
  rw [update_apply, places, instancesOf, get?_modify]
  by_cases here : other = name
  · subst here
    cases found : s.namedPipes.get? other with
    | none => simp [places, instancesOf, found]
    | some instances =>
      have all : instancesOf s other = instances := by simp [instancesOf, found]
      simp only [if_true, map_some, getD_some, getElem?_updateFirst, all, Prod.mk.injEq, true_and]
      by_cases first : n = instances.findIdx p
      · rw [if_pos first, if_pos first, first, Option.map_map, find?_eq_getElem?_findIdx]
        rfl
      · rw [if_neg first, if_neg first, places, all]
  · simp [here, places, instancesOf]

theorem places_updateState (p : NamedPipeInfo → Bool) (state : PipeState) : places { s with
      namedPipes := s.namedPipes.modify name (updateFirst p fun i => { i with state }) } =
        places s := by
  rw [places_updateFirst, update_eq_self_iff, places, ← find?_eq_getElem?_findIdx]
  rfl

theorem findListening_place (listening : s.findListening name = some info) :
    places s (name, (instancesOf s name).findIdx isListening) = some (placed info) := by
  obtain ⟨instances, at_name, first⟩ := bind_eq_some_iff.mp listening
  rw [places, ← find?_eq_getElem?_findIdx, instancesOf, at_name, getD_some, first, map_some]

theorem findInstance_place (found : s.findInstance pid handle = some (name, info)) :
    (instancesOf s name).find? (isServer pid handle) = some info ∧
      server info = slotOf pid handle := by
  obtain ⟨instances, at_name, first⟩ := findInstance_some found
  have matches_ := find?_some first
  simp only [isServer, decide_eq_true_eq] at matches_
  exact ⟨by rw [instancesOf, at_name, getD_some, first], by rw [server, matches_.1, matches_.2]⟩

/-! ### Slots that exist -/

/-- A slot below the end of its table; slot 0 exists before the table does. -/
def Inside (s : DescriptorTables) (slot : Slot) : Prop :=
  (s.processes.get? slot.1).elim (slot.2 = 0) fun t => slot.2.toNat < t.slab.slots.length

/-- What the instances and the ntsync objects name is no slot of the future. -/
structure Tidy (s : DescriptorTables) : Prop where
  tables : ∀ pid t, s.processes.get? pid = some t → Sane t
  served : ∀ i slot x, places s i = some (slot, x) → Inside s slot
  objects : ∀ key, s.ntsyncObjects.contains key → Inside s (slotOf key.1 key.2)
  clones : s.clones = []

theorem tidy_new : Tidy .new :=
  ⟨nofun, nofun, nofun, rfl⟩

theorem Inside.insert (inside : Inside s slot) (sane : Sane t')
    (longer : ∀ t, s.processes.get? pid = some t → t.slab.slots.length ≤ t'.slab.slots.length) :
    Inside { s with processes := s.processes.insert pid t' } slot := by
  rw [Inside, get?_insert]
  split_ifs with here
  · rw [Inside, here] at inside
    cases found : s.processes.get? pid with
    | none =>
      rw [found] at inside
      have zero := inside
      rw [zero]
      exact sane.reserved
    | some t =>
      rw [found] at inside
      exact Nat.lt_of_lt_of_le inside (longer t found)
  · exact inside

theorem Inside.of_processes (inside : Inside s slot)
    (same : s'.processes = s.processes) : Inside s' slot := by
  rw [Inside, same]
  exact inside

section
variable (tidy : Tidy s)
include tidy

theorem Tidy.insert (sane : Sane t')
    (longer : ∀ t, s.processes.get? pid = some t → t.slab.slots.length ≤ t'.slab.slots.length) :
    Tidy { s with processes := s.processes.insert pid t' } where
  tables := forall_insert tidy.tables sane
  served i slot x there := (tidy.served i slot x there).insert sane longer
  objects key there := (tidy.objects key there).insert sane longer
  clones := tidy.clones

theorem Tidy.update (found : s.processes.get? pid = some t) (sane : Sane t')
    (longer : t.slab.slots.length ≤ t'.slab.slots.length) :
    Tidy { s with processes := s.processes.insert pid t' } := by
  refine tidy.insert sane fun u at_pid => ?_
  rw [found, some.injEq] at at_pid
  exact at_pid ▸ longer

theorem Tidy.moved (processes : s'.processes = s.processes)
    (served : ∀ i slot x, places s' i = some (slot, x) → Inside s slot)
    (objects : ∀ key, s'.ntsyncObjects.contains key → Inside s (slotOf key.1 key.2))
    (clones : s'.clones = s.clones) : Tidy s' where
  tables p t found := tidy.tables p t (processes ▸ found)
  served i slot x there := (served i slot x there).of_processes processes
  objects key there := (objects key there).of_processes processes
  clones := clones.trans tidy.clones

theorem Tidy.of_tables (processes : s'.processes = s.processes)
    (namedPipes : s'.namedPipes = s.namedPipes) (objects : s'.ntsyncObjects = s.ntsyncObjects)
    (clones : s'.clones = s.clones) : Tidy s' := by
  refine tidy.moved processes ?_ ?_ clones
  · rw [places_of_namedPipes namedPipes]
    exact tidy.served
  · rw [objects]
    exact tidy.objects

theorem Tidy.addInstance (name : String) (info : NamedPipeInfo)
    (inside : Inside s (server info)) : Tidy (s.addInstance name info) := by
  refine tidy.moved rfl (fun i slot x there => ?_) tidy.objects rfl
  rw [places_addInstance, update_apply] at there
  split_ifs at there
  · cases there
    exact inside
  · exact tidy.served i slot x there

theorem Tidy.updateFirst (name : String) (p : NamedPipeInfo → Bool)
    (same : ∀ info, server (f info) = server info) :
    Tidy { s with namedPipes := s.namedPipes.modify name (updateFirst p f) } := by
  refine tidy.moved rfl (fun i slot x there => ?_) tidy.objects rfl
  rw [places_updateFirst, update_apply] at there
  split_ifs at there
  · obtain ⟨info, found, placed_⟩ := map_eq_some_iff.mp there
    have at_place : places s (name, (instancesOf s name).findIdx p) = some (placed info) := by
      rw [places, ← find?_eq_getElem?_findIdx, found, map_some]
    rw [placed, same] at placed_
    cases placed_
    exact tidy.served _ _ _ at_place
  · exact tidy.served i slot x there

theorem Tidy.insertObject (inside : Inside s (slotOf pid handle)) (r : NtsyncRef)
    (nextObj : Nat) : Tidy { s with
      ntsyncObjects := s.ntsyncObjects.insert (pid, handle) r
      nextObj } := by
  refine tidy.moved rfl tidy.served (fun key there => ?_) rfl
  rcases of_contains_insert there with rfl | old
  · exact inside
  · exact tidy.objects key old

end

/-! ### The next slot -/

section
variable (space : room s pid) (found : s.processes.get? pid = some t)
include space found

theorem room_fits : t.slab.slots.length + 2 ≤ slotLimit := by
  simpa [room, found] using space

theorem room_lt : t.slab.slots.length < slotLimit := by
  have := room_fits space found
  omega

end

theorem Tidy.allocEntry (tidy : Tidy s) (has : entry.fd ≠ none)
    (fits : ∀ t, s.processes.get? pid = some t → t.slab.slots.length < slotLimit) :
    Tidy (s.allocEntry pid entry).2 := by
  unfold DescriptorTables.allocEntry
  split
  · next t found =>
    refine tidy.update found ((tidy.tables pid t found).allocateFull (fits t found) has) ?_
    rw [length_allocateFull]
    omega
  · exact tidy

theorem Tidy.next_vacant (tidy : Tidy s) (found : s.processes.get? pid = some t)
    (fits : t.slab.slots.length < slotLimit) :
    slotFd s (nextSlot s pid) = none ∧ ¬ Inside s (nextSlot s pid) := by
  have level := (tidy.tables pid t found).level
  rw [nextSlot_eq found level fits]
  have past := Nat.le_of_eq level
  have empty : t.slab.getUnchecked t.slab.bump = none := by
    rw [getUnchecked_eq, getElem?_eq_none (by rw [contents_length]; exact past)]
    rfl
  refine ⟨by simp [slotFd, found, tableFd, empty], ?_⟩
  simpa [Inside, found] using past

theorem allocEntry_unknown (unknown : s.processes.get? pid = none) :
    (s.allocEntry pid entry).2 = s := by
  rw [allocEntry, unknown]

section
variable (tidy : Tidy s)
  (fits : ∀ t, s.processes.get? pid = some t → t.slab.slots.length < slotLimit)
include tidy fits

theorem Tidy.next_stored
    (holds : slotFd (s.allocEntry pid entry).2 (nextSlot s pid) = some x) : entry.fd = some x := by
  cases found : s.processes.get? pid with
  | none =>
    rw [allocEntry_unknown found, nextSlot_unknown found, slotFd, found] at holds
    cases holds
  | some t =>
    rw [slotFd_allocEntry found (tidy.tables pid t found).level (fits t found),
      update_self] at holds
    exact holds

theorem Tidy.next_unserved {i : Place}
    (there : places (s.allocEntry pid entry).2 i = some (nextSlot s pid, x)) :
    slotFd (s.allocEntry pid entry).2 (nextSlot s pid) = none := by
  cases found : s.processes.get? pid with
  | none => rw [allocEntry_unknown found, nextSlot_unknown found, slotFd, found, bind_none]
  | some t =>
    rw [places_of_namedPipes (allocEntry_namedPipes s pid entry)] at there
    exact absurd (tidy.served i _ x there) (tidy.next_vacant found (fits t found)).2

end

theorem fits_allocEntry (space : room s pid)
    (found : (s.allocEntry pid entry).2.processes.get? pid = some t') :
    t'.slab.slots.length < slotLimit := by
  unfold allocEntry at found
  split at found
  · next t at_pid =>
    have fits := room_fits space at_pid
    simp only [get?_insert, if_true, some.injEq] at found
    rw [← found, length_allocateFull]
    omega
  · next unknown =>
    rw [unknown] at found
    cases found

theorem Tidy.next_inside (tidy : Tidy s)
    (fits : ∀ t, s.processes.get? pid = some t → t.slab.slots.length < slotLimit)
    (entry : HandleEntry) : Inside (s.allocEntry pid entry).2 (nextSlot s pid) := by
  cases found : s.processes.get? pid with
  | none =>
    rw [allocEntry_unknown found, nextSlot_unknown found, Inside, found]
    rfl
  | some t =>
    have level := (tidy.tables pid t found).level
    rw [nextSlot_eq found level (fits t found), DescriptorTables.allocEntry, found]
    simp only [Inside, get?_insert, if_true, elim_some, length_allocateFull]
    rw [← level]
    omega

section
variable (tidy : Tidy s) (found : s.processes.get? pid = some t)
  (fits : t.slab.slots.length < slotLimit)
include tidy found fits

theorem Tidy.next_object : s.ntsyncObjects.get? (pid, s.nextHandle pid) = none := by
  have outside := (tidy.next_vacant found fits).2
  by_contra there
  obtain ⟨r, at_key⟩ := ne_none_iff_exists'.mp there
  exact outside (tidy.objects _ (contains_of_get? at_key))

theorem Tidy.next_nonzero : s.nextHandle pid ≠ 0 := by
  have sane := tidy.tables pid t found
  have handed : s.nextHandle pid = t.slab.bump <<< 2 := by simp [nextHandle, found]
  rw [handed]
  exact (HandleFreshness.next_valid (sane.level ▸ sane.reserved) (sane.level ▸ fits)).1

theorem allocEventHandle_known (evt : Int) : (s.allocEventHandle pid false (some evt)).1 ≠ 0 ∧
      slotFd (s.allocEventHandle pid false (some evt)).2 =
        update (slotFd s) (nextSlot s pid) (some (-1)) ∧
      opened (s.allocEventHandle pid false (some evt)).2 = opened (s.openFd pid evt) ∧
      Tidy (s.allocEventHandle pid false (some evt)).2 := by
  have nonzero := tidy.next_nonzero found fits
  let entry : HandleEntry := ⟨s.nextObjectId, some (-1), fdTypeFile, 0x001F0003, 0x20⟩
  let before : DescriptorTables := { s.openFd pid evt with nextObjectId := s.nextObjectId + 1 }
  have known : before.processes.get? pid = some t := found
  have ready : Tidy before := tidy.of_tables rfl rfl rfl rfl
  have first : (before.allocEntry pid entry).1 = s.nextHandle pid := allocEntry_fst
  have vacant : (before.allocEntry pid entry).2.ntsyncObjects.get? (pid, s.nextHandle pid) = none := by
    rw [allocEntry_ntsyncObjects]
    exact tidy.next_object found fits
  have made : s.allocEventHandle pid false (some evt) =
      (s.nextHandle pid, { (before.allocEntry pid entry).2 with
        ntsyncObjects := (before.allocEntry pid entry).2.ntsyncObjects.insert
          (pid, s.nextHandle pid) ⟨(before.allocEntry pid entry).2.nextObj, evt⟩
        nextObj := (before.allocEntry pid entry).2.nextObj + 1 }) := by
    change (if (before.allocEntry pid entry).1 ≠ 0 then
      ((before.allocEntry pid entry).1, (before.allocEntry pid entry).2.insertObject pid
        (before.allocEntry pid entry).1 evt)
      else (0, (before.allocEntry pid entry).2.closeFd evt)) = _
    rw [first, if_pos nonzero, insertObject, vacant]
    rfl
  rw [made]
  refine ⟨nonzero, ?_, ?_, ?_⟩
  · exact slotFd_allocEntry known (tidy.tables pid t found).level fits entry
  · funext x
    exact congrArg (fun k : Kernel => k.descriptors.contains x) (allocEntry_kernel before pid entry)
  · have has : entry.fd ≠ none := some_ne_none _
    have short : ∀ u, before.processes.get? pid = some u → u.slab.slots.length < slotLimit := by
      intro u at_pid
      rw [known, some.injEq] at at_pid
      exact at_pid ▸ fits
    exact (ready.allocEntry has short).insertObject (ready.next_inside short entry) _ _

end

theorem allocEventHandle_unknown (unknown : s.processes.get? pid = none) (evt : Int) :
    s.allocEventHandle pid false (some evt) =
      (0, { (s.openFd pid evt).closeFd evt with nextObjectId := s.nextObjectId + 1 }) := by
  simp [allocEventHandle, allocHandle, allocEntry, openFd, closeFd, unknown]

/-! ### Listening again -/

/-- The instance of a server slot keeps its sockets, or gets new ones. -/
inductive Relistened (s after : DescriptorTables) (slot : Slot) (fds : Option (Int × Int)) : Prop
  | same (slots : slotFd after = slotFd s) (kept : places after = places s)
      (kernel : opened after = opened s)
  | renewed (i : Place) (old a b : Int) (pair : fds = some (a, b))
      (here : places s i = some (slot, old))
      (slots : slotFd after = fun other =>
        if other = slot then (slotFd s slot).map fun _ => a else slotFd s other)
      (kept : places after = update (places s) i (some (slot, b)))
      (still : ∀ x, opened s x ∨ x = a ∨ x = b → slotFd s slot ≠ some x → x ≠ old → opened after x)

theorem resetSockets_some (tidy : Tidy s) (a b : Int) :
    (slotFd (s.resetSockets pid handle info (some (a, b))).1 = fun other =>
      if other = slotOf pid handle then (slotFd s (slotOf pid handle)).map fun _ => a
      else slotFd s other) ∧
    ∀ x, opened s x ∨ x = a ∨ x = b → slotFd s (slotOf pid handle) ≠ some x →
      x ≠ info.clientDataFd → opened (s.resetSockets pid handle info (some (a, b))).1 x := by
  have both : ∀ x, opened s x ∨ x = a ∨ x = b → opened ((s.openFd pid a).openFd pid b) x := by
    intro x any
    rw [opened_openFd, opened_openFd]
    simp only [Bool.or_eq_true, decide_eq_true_eq]
    tauto
  unfold resetSockets
  dsimp only
  split
  · next t found =>
    have known : s.processes.get? pid = some t := found
    refine ⟨slotFd_replaceFd known (tidy.tables pid t known), fun x any apart other => ?_⟩
    refine opened_closeFd (opened_closeAll (both x any) fun mem => apart ?_) other
    cases live : t.get handle with
    | none => simp [HandleTable.replaceFd, live] at mem
    | some entry =>
      have held : entry.fd = some x := by simpa [replaceFd_live live] using mem
      have at_slot : t.slab.getUnchecked (handle >>> 2) = some entry := live
      simp [slotFd, slotOf, known, tableFd, at_slot, held]
  · next unknown =>
    have missing : s.processes.get? pid = none := unknown
    refine ⟨?_, fun x any _ other => opened_closeFd (both x any) other⟩
    funext slot
    split_ifs with here
    · rw [here]
      simp [slotFd, slotOf, missing, closeFd, openFd]
    · rfl

section
variable (found : s.findInstance pid handle = some (name, info))
include found

theorem places_relisten (t : DescriptorTables) : places { t with
        namedPipes := s.namedPipes.modify name (updateFirst (isServer pid handle)
          fun i => { i with clientDataFd := fd, state := .listening }) } =
      update (places s)
        (name, (instancesOf s name).findIdx (isServer pid handle))
        (some (slotOf pid handle, fd)) := by
  obtain ⟨first, at_slot⟩ := findInstance_place found
  have updated := places_updateFirst s name (isServer pid handle)
    fun i => { i with clientDataFd := fd, state := .listening }
  rw [first] at updated
  rw [← at_slot]
  exact (places_of_namedPipes rfl).trans updated

theorem place_of_findInstance :
    places s (name, (instancesOf s name).findIdx (isServer pid handle)) =
      some (slotOf pid handle, info.clientDataFd) := by
  obtain ⟨first, at_slot⟩ := findInstance_place found
  rw [places, ← find?_eq_getElem?_findIdx, first, map_some, placed, at_slot]

end

theorem relistened (tidy : Tidy s) (renew : NamedPipeInfo → Bool) (fds : Option (Int × Int)) :
    Relistened s (s.relisten pid handle renew fds) (slotOf pid handle) fds := by
  unfold relisten
  split
  · exact .same rfl rfl rfl
  · next name info found =>
    have here := place_of_findInstance found
    -- without new sockets the instance keeps what it has
    have unchanged : Relistened s { s with
        namedPipes := s.namedPipes.modify name (updateFirst (isServer pid handle)
          fun i => { i with clientDataFd := info.clientDataFd, state := .listening }) }
        (slotOf pid handle) fds := by
      refine .same rfl ?_ rfl
      rw [places_relisten found, ← here, update_eq_self]
    split_ifs
    · cases fds with
      | none => exact unchanged
      | some pair =>
        obtain ⟨a, b⟩ := pair
        obtain ⟨slots, still⟩ := resetSockets_some tidy a b
        refine .renewed _ _ a b rfl here slots ?_ still
        exact places_relisten found _
    · exact unchanged

theorem Tidy.resetSockets (tidy : Tidy s) (fds : Option (Int × Int)) :
    Tidy (s.resetSockets pid handle info fds).1 := by
  cases fds with
  | none => exact tidy
  | some pair =>
    unfold DescriptorTables.resetSockets
    dsimp only
    split
    · next t found =>
      have known := found
      have length : (t.replaceFd handle pair.1).1.slab.slots.length = t.slab.slots.length := by
        rw [replaceFd_slab, length_modifyUnchecked]
      have replaced := tidy.update known ((tidy.tables pid t known).replaceFd handle pair.1)
        (Nat.le_of_eq length.symm)
      exact replaced.of_tables rfl rfl rfl rfl
    · exact tidy.of_tables rfl rfl rfl rfl

theorem resetSockets_namedPipes (fds : Option (Int × Int)) :
    (s.resetSockets pid handle info fds).1.namedPipes = s.namedPipes := by
  cases fds with
  | none => rfl
  | some =>
    unfold resetSockets
    dsimp only
    split <;> rfl

theorem Tidy.relisten (tidy : Tidy s) (renew : NamedPipeInfo → Bool) (fds : Option (Int × Int)) :
    Tidy (s.relisten pid handle renew fds) := by
  unfold DescriptorTables.relisten
  split
  · exact tidy
  · next name info found =>
    split_ifs
    · rw [← resetSockets_namedPipes fds]
      exact (tidy.resetSockets fds).updateFirst name _ fun _ => rfl
    · exact tidy.updateFirst name _ fun _ => rfl

/-! ### Closing -/

theorem Tidy.closeHandle (tidy : Tidy s) : Tidy (s.closeHandle pid handle) := by
  unfold DescriptorTables.closeHandle
  split
  · next t found =>
    have closed := tidy.update found ((tidy.tables pid t found).close handle)
      (Nat.le_of_eq (length_close t handle).symm)
    exact closed.of_tables rfl rfl rfl rfl
  · exact tidy.of_tables rfl rfl rfl rfl

theorem slotFd_closeHandle :
    slotFd (s.closeHandle pid handle) = update (slotFd s) (slotOf pid handle) none := by
  unfold closeHandle
  split
  · next t found => exact slotFd_close found
  · next unknown =>
    have vacant : slotFd s (slotOf pid handle) = none := by simp [slotFd, slotOf, unknown]
    rw [← vacant, update_eq_self]
    rfl

theorem places_closeHandle : places (s.closeHandle pid handle) = places s := by
  unfold closeHandle
  split <;> rfl

theorem opened_closeHandle (still : opened s x)
    (apart : slotFd s (slotOf pid handle) ≠ some x)
    (other : s.sideTables.pipeHandles.get? (pid, handle) ≠ some x) :
    opened (s.closeHandle pid handle) x := by
  have unlisted : x ∉ (s.sideTables.purge pid handle).2.1 := by
    rw [HandleSideTables.purge, mem_toList]
    exact other
  unfold closeHandle
  split
  · next t found =>
    refine opened_closeAll (opened_closeAll still unlisted) fun mem => apart ?_
    simpa [slotFd, slotOf, found] using closes_entry mem
  · exact opened_closeAll still unlisted

end Triskelion.PipeSlots
