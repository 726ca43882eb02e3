import Triskelion.HandleFreshness
import Triskelion.ObjectIds

/-! When object ids tell objects apart. Process and thread ids are the multiples of four
from 32 on, other object ids count up from 0x1000: the two meet at the 1017th process or
thread. Below that, and as long as no handle is opened for an object that has one, ids and
objects go together. -/

namespace Triskelion.ObjectState

open HandleTable RunRules List Table Option ObjectState HeapSlab DescriptorTables Function

def slotEntry (s : ObjectState) (slot : UInt32 × UInt32) : Option HandleEntry :=
  (s.processes.get? slot.1).bind fun t => t.slab.getUnchecked slot.2

/-- Ids and objects go together: over all handles, for the comparison of two handles of a
process, and where an id is looked up as that of a process or thread. -/
structure Identified (s : ObjectState) : Prop where
  same_id : ∀ j k e f, s.slotEntry j = some e → s.slotEntry k = some f →
    (e.objectId = f.objectId ↔ s.denotes j = s.denotes k)
  own_id : ∀ k e id, s.slotEntry k = some e → (s.who id).isSome → s.denotes k = s.who id →
    e.objectId = id.toUInt64
  compared : ∀ pid g h e f, s.entryAt pid g = some e → s.entryAt pid h = some f →
    (s.compareObjects pid g h = 0 ↔ s.denoted pid g = s.denoted pid h)
  resolved : ∀ k e, s.slotEntry k = some e → s.processes.contains e.objectId.toUInt32 ∨
      s.threads.contains e.objectId.toUInt32 →
    s.denotes k = s.who e.objectId.toUInt32

/-! ### Requests that keep them together -/

section
variable (s : ObjectState)

def ptidsLeft (count : Nat) : Bool := s.nextPtid.toNat + count ≤ 1016

def idsLeft (count : Nat) : Bool := s.nextObjectId.toNat + count ≤ 0x100000000

def room (pid : UInt32) : Bool :=
  (s.processes.get? pid).all fun t => t.slab.slots.length + 2 ≤ slotLimit

/-- A pseudo handle is that of a process or thread with an id, not of a token. -/
def plainSource (req : DupRequest) : Bool :=
  (pseudoEntry req.callerPid req.callerTid req.srcHandle).isNone ||
    req.srcHandle ≠ 0xFFFFFFFC &&
      (s.pseudoObject req.callerPid req.callerTid req.srcHandle).isSome

def newSync (caller : UInt32) (name : Option SharedSync) : Bool :=
  s.idsLeft 1 && s.room caller && name.all fun name => !s.sharedSync.contains name

/-- The counters are in range, the tables have room, and no new id is given to an object
that has one. -/
def plain : ObjectRequest → Bool
  | .initThread _ => s.ptidsLeft 2
  | .newProcess caller _ _ _ => s.ptidsLeft 1 && s.idsLeft 2 && s.room caller
  | .newThread caller _ _ _ => s.ptidsLeft 1 && s.idsLeft 1 && s.room caller
  | .openProcess caller id _ | .openThread caller id _ =>
    s.idsLeft 1 && s.room caller && (s.who id).isNone
  | .createObject caller _ _ _ _ | .createWaitable caller _ | .createMapping caller _ _ _ _ _
  | .openMapping caller _ _ _ _ => s.idsLeft 1 && s.room caller
  | .createSync caller name _ _ => s.newSync caller (name.map .named)
  | .openSync _ name _ => !s.sharedSync.contains (.named name)
  | .makeProcessSystem caller _ _ => s.newSync caller (some .shutdown)
  | .getProcessIdleEvent caller process copied _ =>
    !copied || s.newSync caller (some (.idle ((s.targetOf caller process).getD 0)))
  | .getMappingInfo caller handle dup => dup.isNone || !s.sharesFile caller handle
  | .allocateLocallyUniqueId => s.idsLeft 1
  | .dupHandle req _ => s.room (s.processOf req.callerPid req.dstProcess) && s.plainSource req
  | .getNextThread caller _ _ => s.room caller
  | .resumeThread _ _ | .suspendThread _ _ | .exitProcess _ | .closeHandle _ _ => true

end

/-! ### Tables -/

structure Orderly (t : HandleTable) : Prop where
  level : t.slab.Level
  free : t.slab.FreeList
  reserved : 1 ≤ t.slab.slots.length

theorem Orderly.allocateFull {t : HandleTable} (orderly : Orderly t)
    (fits : t.slab.slots.length < slotLimit) (entry : HandleEntry) :
    Orderly (t.allocateFull entry).2 := by
  refine ⟨orderly.level.insertBump (Nat.lt_trans fits (by decide)) entry,
    orderly.free.insertBump entry, ?_⟩
  rw [length_allocateFull]
  omega

theorem Orderly.close {t : HandleTable} (orderly : Orderly t) (handle : UInt32) :
    Orderly (t.close handle).1 := by
  refine ⟨?_, free_close orderly.free handle, ?_⟩
  · rw [Level, length_close, bump_close]
    exact orderly.level
  · rw [length_close]
    exact orderly.reserved

theorem Orderly.modify {t : HandleTable} (orderly : Orderly t) (index : UInt32)
    (f : HandleEntry → HandleEntry) :
    Orderly { t with slab := t.slab.modifyUnchecked index f } := by
  refine ⟨?_, orderly.free.modifyUnchecked index f, ?_⟩
  · rw [Level, length_modifyUnchecked, bump_modifyUnchecked]
    exact orderly.level
  · rw [length_modifyUnchecked]
    exact orderly.reserved

theorem Orderly.insertAt {t : HandleTable} (orderly : Orderly t) (handle : UInt32)
    (entry : HandleEntry) : ∃ stored, t.insertAt handle entry = some stored ∧ Orderly stored.1 ∧
      (∀ i, stored.1.slab.getUnchecked i =
        if i = handle >>> 2 then some entry else t.slab.getUnchecked i) ∧
      stored.1.slab.slots.length =
        t.slab.slots.length + ((handle >>> 2).toNat + 1 - t.slab.slots.length) := by
  obtain ⟨slab, stored, free, level, contents⟩ :=
    insertAt_spec orderly.free (index_ne_freeEnd handle)
  have length := length_stored contents
  refine ⟨_, insertAt_some stored, ⟨level orderly.level, free, ?_⟩,
    getUnchecked_stored contents, length⟩
  change 1 ≤ slab.slots.length
  omega

/-! ### The invariant -/

def code : ServerObject → Nat
  | .task n => (n + 8) * 4
  | .made n => 0x1000 + n
  | .token _ | .sharedFile _ => 0

def Known (s : ObjectState) : ServerObject → Prop
  | .task n => n < s.tasks
  | .made n => n < s.minted
  | .token _ | .sharedFile _ => False

def Names (s : ObjectState) (a : ServerObject) (id : Nat) : Prop := s.Known a ∧ id = code a

structure Faithful (s : ObjectState) : Prop where
  tasks : s.nextPtid.toNat = s.tasks ∧ s.tasks ≤ 1016
  minted : s.nextObjectId.toNat = 0x1000 + s.minted ∧ 0x1000 + s.minted ≤ 0x100000000
  tables : ∀ pid t, s.processes.get? pid = some t → Orderly t
  carried : ∀ slot entry, s.slotEntry slot = some entry →
    ∃ a, s.denotes slot = some a ∧ s.Known a ∧ entry.objectId.toNat = code a
  born : ∀ id n, s.born.get? id = some n → n < s.tasks ∧ id.toNat = code (.task n)
  living : ∀ id, s.processes.contains id ∨ s.threads.contains id → (s.who id).isSome
  named : ∀ name o, s.namedObjects.get? name = some o → s.Known o.object ∧
    o.objectId.toNat = code o.object

theorem faithful_start : Faithful start := by
  refine ⟨by decide, by decide, nofun, nofun, nofun, nofun, fun name o found => ?_⟩
  rcases of_insert found with ⟨-, rfl⟩ | ⟨-, none_⟩
  · exact ⟨Nat.zero_lt_two, rfl⟩
  · cases none_

variable {a : ServerObject}

/-- Two counters with one range each: an id tells what it was given to. -/
theorem Faithful.code_inj {s : ObjectState} (faithful : s.Faithful) {b : ServerObject}
    (known_a : s.Known a) (known_b : s.Known b) (same : code a = code b) : a = b := by
  have tasks := faithful.tasks.2
  cases a with
  | token | sharedFile => exact known_a.elim
  | task =>
    cases b with
    | token | sharedFile => exact known_b.elim
    | task =>
      simp only [code] at same
      congr 1
      omega
    | made =>
      simp only [code, Known] at same known_a
      omega
  | made =>
    cases b with
    | token | sharedFile => exact known_b.elim
    | made =>
      simp only [code] at same
      congr 1
      omega
    | task =>
      simp only [code, Known] at same known_b
      omega

theorem Faithful.code_lt {s : ObjectState} (faithful : s.Faithful) (known : s.Known a) :
    code a < 0x100000000 := by
  have tasks := faithful.tasks.2
  have minted := faithful.minted.2
  cases a with
  | task | made =>
    simp only [code, Known] at known ⊢
    omega
  | token | sharedFile => exact known.elim

theorem Faithful.who_known {s : ObjectState} (faithful : s.Faithful) {id : UInt32}
    (found : s.who id = some a) : s.Names a id.toNat := by
  obtain ⟨n, at_id, rfl⟩ := map_eq_some_iff.mp found
  exact faithful.born id n at_id

theorem Faithful.identified {s : ObjectState} (faithful : s.Faithful) : s.Identified := by
  have same_id : ∀ j k e f, s.slotEntry j = some e → s.slotEntry k = some f →
      (e.objectId = f.objectId ↔ s.denotes j = s.denotes k) := by
    intro j k e f at_j at_k
    obtain ⟨a, denotes_a, known_a, code_a⟩ := faithful.carried j e at_j
    obtain ⟨b, denotes_b, known_b, code_b⟩ := faithful.carried k f at_k
    rw [denotes_a, denotes_b, Option.some.injEq, ← UInt64.toNat_inj, code_a, code_b]
    exact ⟨faithful.code_inj known_a known_b, congrArg code⟩
  refine ⟨same_id, ?_, ?_, ?_⟩
  · intro k e id at_k known same
    obtain ⟨a, denotes_a, known_a, code_a⟩ := faithful.carried k e at_k
    obtain ⟨-, code_id⟩ := faithful.who_known (same.symm.trans denotes_a)
    rw [← UInt64.toNat_inj, code_a, UInt32.toNat_toUInt64, code_id]
  · intro pid g h e f at_g at_h
    have slots := same_id (pid, g >>> 2) (pid, h >>> 2) e f at_g at_h
    rw [compareObjects, at_g, at_h, denoted, denoted, ← slots]
    dsimp only
    split
    · next same => simp [same]
    · next differs => simp [differs, statusNotSameObject]
  · intro k e at_k live
    obtain ⟨a, denotes_a, known_a, code_a⟩ := faithful.carried k e at_k
    obtain ⟨b, found⟩ := isSome_iff_exists.mp (faithful.living _ live)
    obtain ⟨known_b, code_b⟩ := faithful.who_known found
    have low : e.objectId.toUInt32.toNat = code a := by
      rw [UInt64.toNat_toUInt32, code_a, Nat.mod_eq_of_lt (faithful.code_lt known_a)]
    rw [denotes_a, found, faithful.code_inj known_a known_b (low.symm.trans code_b)]

/-! ### Steps -/

section Steps
variable {s : ObjectState} {pid handle : UInt32} {t : HandleTable}

theorem slotEntry_insert (slot : UInt32 × UInt32) :
    { s with processes := s.processes.insert pid t }.slotEntry slot =
      if slot.1 = pid then t.slab.getUnchecked slot.2 else s.slotEntry slot := by
  rw [slotEntry, get?_insert]
  split <;> rfl

theorem Names.mono {id : Nat} (names : s.Names a id) (s' : ObjectState)
    (tasks : s.tasks ≤ s'.tasks) (minted : s.minted ≤ s'.minted) : s'.Names a id := by
  refine ⟨?_, names.2⟩
  cases a with
  | task => exact Nat.lt_of_lt_of_le names.1 tasks
  | made => exact Nat.lt_of_lt_of_le names.1 minted
  | token | sharedFile => exact names.1

theorem Faithful.store (faithful : s.Faithful) (found : s.processes.get? pid = some t)
    {t' : HandleTable} (orderly : Orderly t') {index : UInt32}
    (new : ∀ entry, t'.slab.getUnchecked index = some entry → s.Names a entry.objectId.toNat)
    (old : ∀ i, i ≠ index → t'.slab.getUnchecked i = t.slab.getUnchecked i) : Faithful { s with
      processes := s.processes.insert pid t'
      denotes := update s.denotes (pid, index) (some a) } where
  __ := faithful
  tables := forall_insert faithful.tables orderly
  carried slot entry at_slot := by
    have cases_at := (slotEntry_insert slot).symm.trans at_slot
    by_cases here : slot = (pid, index)
    · subst here
      rw [if_pos rfl] at cases_at
      exact ⟨a, update_self .., new entry cases_at⟩
    · have before : s.slotEntry slot = some entry := by
        split_ifs at cases_at with own
        · have other : slot.2 ≠ index := fun same => here (Prod.ext own same)
          simpa [slotEntry, own, found, old slot.2 other] using cases_at
        · exact cases_at
      obtain ⟨b, denotes, rest⟩ := faithful.carried slot entry before
      exact ⟨b, (update_of_ne here _ _).trans denotes, rest⟩
  living id live := by
    refine faithful.living id (live.imp_left fun there => ?_)
    rcases of_contains_insert there with rfl | before
    · exact contains_of_get? found
    · exact before

theorem Faithful.shrink (faithful : s.Faithful) {s' : ObjectState}
    (tables : ∀ p u, s'.processes.get? p = some u → ∃ t, s.processes.get? p = some t ∧ Orderly u ∧
      ∀ i entry, u.slab.getUnchecked i = some entry → t.slab.getUnchecked i = some entry)
    (threads : ∀ id, s'.threads.contains id → s.threads.contains id)
    (counters : s'.nextPtid = s.nextPtid ∧ s'.nextObjectId = s.nextObjectId ∧ s'.tasks = s.tasks ∧
      s'.minted = s.minted)
    (others : s'.born = s.born ∧ s'.denotes = s.denotes ∧ s'.namedObjects = s.namedObjects) :
    Faithful s' := by
  obtain ⟨nextPtid, nextObjectId, tasks, minted⟩ := counters
  obtain ⟨born, denotes, named⟩ := others
  have names : ∀ a id, s.Names a id → s'.Names a id := fun a id known =>
    known.mono s' (Nat.le_of_eq tasks.symm) (Nat.le_of_eq minted.symm)
  refine ⟨?_, ?_, fun p u at_p => ?_, fun slot entry at_slot => ?_, ?_, fun id live => ?_, ?_⟩
  · rw [nextPtid, tasks]
    exact faithful.tasks
  · rw [nextObjectId, minted]
    exact faithful.minted
  · obtain ⟨t, -, orderly, -⟩ := tables p u at_p
    exact orderly
  · obtain ⟨u, at_p, there⟩ := bind_eq_some_iff.mp at_slot
    obtain ⟨t, found, -, subset⟩ := tables slot.1 u at_p
    have old : s.slotEntry slot = some entry := by simp [slotEntry, found, subset _ _ there]
    obtain ⟨a, denotes_a, known⟩ := faithful.carried slot entry old
    exact ⟨a, denotes ▸ denotes_a, names a _ known⟩
  · rw [born, tasks]
    exact faithful.born
  · rw [who, born]
    refine faithful.living id (live.imp (fun there => ?_) (threads id))
    obtain ⟨u, at_id⟩ := (contains_iff _ _).mp there
    obtain ⟨t, found, -⟩ := tables id u at_id
    exact contains_of_get? found
  · rw [named]
    exact fun name o found => names _ _ (faithful.named name o found)

variable {count : Nat} {caller : UInt32}

theorem Faithful.allocObjectId (faithful : s.Faithful) (left : s.idsLeft (count + 1)) :
    Faithful s.allocObjectId.2 ∧ s.allocObjectId.2.Names (.made s.minted) s.allocObjectId.1.toNat ∧
      s.allocObjectId.2.idsLeft count := by
  obtain ⟨next, bound⟩ := faithful.minted
  simp only [idsLeft, decide_eq_true_eq] at left
  have value : (s.nextObjectId + 1).toNat = 0x1000 + (s.minted + 1) := by
    rw [UInt64.toNat_add]
    simp only [UInt64.reduceToNat]
    omega
  have names : ∀ a id, s.Names a id → s.allocObjectId.2.Names a id := fun a id known =>
    known.mono s.allocObjectId.2 (Nat.le_refl s.tasks) (Nat.le_succ s.minted)
  refine ⟨⟨faithful.tasks, ⟨value, by change 0x1000 + (s.minted + 1) ≤ _; omega⟩, faithful.tables,
    fun slot entry at_slot => ?_, faithful.born, faithful.living,
    fun name o found => names _ _ (faithful.named name o found)⟩, ⟨Nat.lt_succ_self _, next⟩, ?_⟩
  · obtain ⟨a, denotes, known⟩ := faithful.carried slot entry at_slot
    exact ⟨a, denotes, names a _ known⟩
  · change decide ((s.nextObjectId + 1).toNat + count ≤ _)
    rw [decide_eq_true_eq]
    omega

theorem Faithful.allocPtid (faithful : s.Faithful) (left : s.ptidsLeft (count + 1)) :
    Faithful s.allocPtid.2 ∧ s.allocPtid.2.Names (.task s.tasks) s.allocPtid.1.toNat ∧
      s.allocPtid.2.ptidsLeft count := by
  obtain ⟨next, bound⟩ := faithful.tasks
  simp only [ptidsLeft, decide_eq_true_eq] at left
  have value : (s.nextPtid + 1).toNat = s.tasks + 1 := by
    rw [UInt32.toNat_add]
    simp only [UInt32.reduceToNat]
    omega
  have id : (ptid s.nextPtid).toNat = code (.task s.tasks) := by
    rw [ptid, UInt32.toNat_mul, UInt32.toNat_add, code]
    simp only [UInt32.reduceToNat]
    omega
  have names : ∀ a id, s.Names a id → s.allocPtid.2.Names a id := fun a id known =>
    known.mono s.allocPtid.2 (Nat.le_succ s.tasks) (Nat.le_refl s.minted)
  refine ⟨⟨⟨value, by change s.tasks + 1 ≤ _; omega⟩, faithful.minted, faithful.tables,
    fun slot entry at_slot => ?_, fun i n at_i => ?_, fun i live => ?_,
    fun name o found => names _ _ (faithful.named name o found)⟩, ⟨Nat.lt_succ_self _, id⟩, ?_⟩
  · obtain ⟨a, denotes, known⟩ := faithful.carried slot entry at_slot
    exact ⟨a, denotes, names a _ known⟩
  · rcases of_insert at_i with ⟨rfl, rfl⟩ | ⟨-, before⟩
    · exact ⟨Nat.lt_succ_self _, id⟩
    · obtain ⟨less, same⟩ := faithful.born i n before
      exact ⟨Nat.lt_succ_of_lt less, same⟩
  · have before := faithful.living i live
    change ((s.born.insert (ptid s.nextPtid) s.tasks).get? i |>.map ServerObject.task).isSome
    rw [isSome_map, get?_insert]
    rw [who, isSome_map] at before
    split
    · rfl
    · exact before
  · change decide ((s.nextPtid + 1).toNat + count ≤ _)
    rw [decide_eq_true_eq]
    omega

theorem who_allocPtid (s : ObjectState) : s.allocPtid.2.who s.allocPtid.1 = some (.task s.tasks) := by
  change ((s.born.insert (ptid s.nextPtid) s.tasks).get? (ptid s.nextPtid)).map _ = _
  rw [get?_insert, if_pos rfl, map_some]

section
variable (faithful : s.Faithful) (left : s.ptidsLeft (count + 1))
include faithful left

theorem Faithful.createThread
    (target : UInt32) (suspendCount : Int) : Faithful (s.createThread target suspendCount).2 := by
  have taken := (faithful.allocPtid left).1
  refine { taken with living := fun id live => ?_ }
  rcases live with process | thread
  · exact taken.living id (.inl process)
  · rcases of_contains_insert thread with rfl | before
    · exact isSome_of_eq_some s.who_allocPtid
    · exact taken.living id (.inr before)

theorem Faithful.createProcess : Faithful s.createProcess.2 := by
  have taken := (faithful.allocPtid left).1
  refine ⟨taken.tasks, taken.minted, forall_insert taken.tables
      ⟨rfl, HandleFreshness.new_freeList, Nat.le_refl 1⟩,
    fun slot entry at_slot => ?_, taken.born, fun id live => ?_, taken.named⟩
  · have cases_at := (slotEntry_insert slot).symm.trans at_slot
    split_ifs at cases_at
    · rw [getUnchecked_new] at cases_at
      cases cases_at
    · exact taken.carried slot entry cases_at
  · rcases live with process | thread
    · rcases of_contains_insert process with rfl | before
      · exact isSome_of_eq_some s.who_allocPtid
      · exact taken.living id (.inl before)
    · exact taken.living id (.inr thread)

end

theorem room_fits (space : s.room pid) (found : s.processes.get? pid = some t) :
    t.slab.slots.length + 2 ≤ slotLimit := by
  simpa [room, found] using space

variable {entry : HandleEntry}

theorem Faithful.allocEntry (faithful : s.Faithful)
    (fits : ∀ t, s.processes.get? pid = some t → t.slab.slots.length < slotLimit)
    (names : s.Names a entry.objectId.toNat) : Faithful (s.allocEntry pid entry (some a)).2 := by
  unfold ObjectState.allocEntry
  split
  · next t found =>
    have orderly := faithful.tables pid t found
    have stored := getUnchecked_insertBump orderly.level entry
    refine faithful.store found (orderly.allocateFull (fits t found) entry)
      (fun other at_index => ?_) fun i other => (stored i).trans (if_neg other)
    cases ((stored _).symm.trans at_index).symm.trans (if_pos rfl)
    exact names
  · exact faithful

theorem Faithful.allocWaitable (faithful : s.Faithful) (left : s.idsLeft (count + 1))
    (fits : ∀ t, s.processes.get? pid = some t → t.slab.slots.length < slotLimit) (efd : Option Int) :
    Faithful (s.allocWaitableHandle pid efd (some (.made s.minted))).2 := by
  obtain ⟨taken, names, -⟩ := faithful.allocObjectId left
  cases efd with
  | none => exact taken
  | some => exact taken.allocEntry fits names

theorem Faithful.setObjectId (faithful : s.Faithful) {id : UInt64}
    (names : s.Names a id.toNat) : Faithful (s.setObjectId pid handle id (some a)) := by
  unfold ObjectState.setObjectId Table.modify
  cases found : s.processes.get? pid with
  | some t =>
    refine faithful.store found ((faithful.tables pid t found).modify _ _)
      (fun entry at_index => ?_) fun i other => ?_
    · rw [getUnchecked_modifyUnchecked, if_pos rfl] at at_index
      obtain ⟨old, -, rfl⟩ := map_eq_some_iff.mp at_index
      exact names
    · rw [getUnchecked_modifyUnchecked, if_neg other]
  | none =>
    refine { faithful with carried := fun slot entry at_slot => ?_ }
    obtain ⟨b, denotes, rest⟩ := faithful.carried slot entry at_slot
    have apart : slot ≠ (pid, handle >>> 2) := by
      rintro rfl
      simp [slotEntry, found] at at_slot
    exact ⟨b, (update_of_ne apart _ _).trans denotes, rest⟩

variable {parent : UInt32}

theorem Faithful.inheritHandle (faithful : s.Faithful) (child : UInt32)
    (fd : Option Int) : Faithful (s.inheritHandle parent child handle fd) := by
  unfold ObjectState.inheritHandle
  split
  · next entry t at_parent found =>
    obtain ⟨stored, inserted, orderly, entries, -⟩ := (faithful.tables child t found).insertAt handle
      { entry with fd := entry.fd.map fun _ => fd.getD (-1) }
    obtain ⟨a, denotes, names⟩ := faithful.carried (parent, handle >>> 2) entry at_parent
    have origin : s.denoted parent handle = some a := denotes
    rw [inserted, origin]
    refine faithful.store found orderly (fun other at_index => ?_)
      fun i other => (entries i).trans (if_neg other)
    cases ((entries _).symm.trans at_index).symm.trans (if_pos rfl)
    exact names
  · exact faithful

theorem room_inheritHandle (faithful : s.Faithful) (space : s.room parent)
    (child : UInt32) (fd : Option Int) : (s.inheritHandle parent child handle fd).room parent := by
  unfold inheritHandle
  split
  · next entry t at_parent found =>
    obtain ⟨stored, inserted, -, -, length⟩ := (faithful.tables child t found).insertAt handle
      { entry with fd := entry.fd.map fun _ => fd.getD (-1) }
    rw [inserted]
    by_cases own : parent = child
    · subst own
      have inside : (handle >>> 2).toNat < t.slab.slots.length := by
        have live : t.slab.getUnchecked (handle >>> 2) = some entry := by
          rw [entryAt, entryOf, found] at at_parent
          exact at_parent
        rw [getUnchecked_eq] at live
        obtain ⟨bound, -⟩ := List.getElem?_eq_some_iff.mp (join_eq_some_iff.mp live)
        rwa [contents_length] at bound
      have fits := room_fits space found
      simp only [room, get?_insert, if_true, all_some, decide_eq_true_eq]
      omega
    · simpa [room, get?_insert, own] using space
  · exact space

/-! ### What a handle leaves alone -/

theorem allocEntry_eq (s : ObjectState) (pid : UInt32) (entry : HandleEntry)
    (object : Option ServerObject) : (s.allocEntry pid entry object).2 = { s with
      processes := (s.allocEntry pid entry object).2.processes
      denotes := (s.allocEntry pid entry object).2.denotes } := by
  unfold allocEntry
  split <;> rfl

theorem allocWaitable_eq (s : ObjectState) (pid : UInt32) (efd : Option Int)
    (object : Option ServerObject) : (s.allocWaitableHandle pid efd object).2 =
      { s.allocObjectId.2 with
        processes := (s.allocWaitableHandle pid efd object).2.processes
        denotes := (s.allocWaitableHandle pid efd object).2.denotes } := by
  cases efd with
  | none => rfl
  | some => exact allocEntry_eq ..

theorem fits_allocWaitable (space : s.room pid) (efd : Option Int)
    (object : Option ServerObject) {u : HandleTable}
    (found : (s.allocWaitableHandle pid efd object).2.processes.get? pid = some u) :
    u.slab.slots.length < slotLimit := by
  cases efd with
  | none =>
    have fits := room_fits space found
    omega
  | some =>
    unfold allocWaitableHandle allocEntry at found
    dsimp only at found
    split at found
    · next t at_pid =>
      have fits := room_fits space at_pid
      rw [get?_insert, if_pos rfl, Option.some.injEq] at found
      rw [← found, length_allocateFull]
      omega
    · next unknown =>
      rw [unknown] at found
      cases found

theorem fits_of_room (space : s.room pid) (t : HandleTable)
    (found : s.processes.get? pid = some t) : t.slab.slots.length < slotLimit :=
  Nat.lt_of_succ_le (Nat.le_of_succ_le (room_fits space found))

/-! ### Requests -/

def allocTask (s : ObjectState) (pid : UInt32) (efd : Option Int) (id : UInt32) (n : Nat) :
    ObjectState :=
  let handle := s.allocWaitableHandle pid efd (some (.made s.minted))
  if handle.1 ≠ 0 then handle.2.setObjectId pid handle.1 id.toUInt64 (some (.task n)) else handle.2

theorem Faithful.allocTask (faithful : s.Faithful) (left : s.idsLeft (count + 1))
    (space : s.room pid) (efd : Option Int) {n : Nat} {id : UInt32}
    (names : s.Names (.task n) id.toNat) : Faithful (s.allocTask pid efd id n) := by
  have made := faithful.allocWaitable left (fits_of_room space) efd
  have tasks : (s.allocWaitableHandle pid efd (some (.made s.minted))).2.tasks = s.tasks := by
    rw [allocWaitable_eq]
    rfl
  unfold ObjectState.allocTask
  dsimp only
  split
  · refine made.setObjectId ⟨?_, names.2⟩
    change n < _
    rw [tasks]
    exact names.1
  · exact made

theorem allocTask_left (efd : Option Int) (id : UInt32) (n : Nat) :
    (s.allocTask pid efd id n).nextObjectId = s.nextObjectId + 1 := by
  have taken : (s.allocWaitableHandle pid efd (some (.made s.minted))).2.nextObjectId =
      s.nextObjectId + 1 := by
    rw [allocWaitable_eq]
    rfl
  unfold allocTask
  dsimp only
  split <;> exact taken

theorem allocTask_fits (space : s.room pid) (efd : Option Int) (id : UInt32) (n : Nat)
    (t : HandleTable) (found : (s.allocTask pid efd id n).processes.get? pid = some t) :
    t.slab.slots.length < slotLimit := by
  unfold allocTask at found
  dsimp only at found
  split at found
  · simp only [setObjectId, get?_modify, if_true] at found
    obtain ⟨u, at_pid, rfl⟩ := map_eq_some_iff.mp found
    rw [length_modifyUnchecked]
    exact fits_allocWaitable space efd _ at_pid
  · exact fits_allocWaitable space efd _ found

theorem Faithful.inherited (faithful : s.Faithful) (space : s.room parent)
    (child : UInt32) (handles : List (UInt32 × Option Int)) :
    let filled := handles.foldl (fun t h => t.inheritHandle parent child h.1 h.2) s
    Faithful filled ∧ filled.room parent ∧ filled.nextObjectId = s.nextObjectId ∧
      filled.tasks = s.tasks := by
  induction handles generalizing s with
  | nil => exact ⟨faithful, space, rfl, rfl⟩
  | cons h later ih =>
    obtain ⟨filled, wide, ids, tasks⟩ := ih (faithful.inheritHandle child h.2)
      (room_inheritHandle faithful space child h.2)
    refine ⟨filled, wide, ids.trans ?_, tasks.trans ?_⟩ <;> unfold ObjectState.inheritHandle <;>
      grind

theorem room_createProcess (space : s.room caller) : s.createProcess.2.room caller := by
  simp only [room, createProcess, get?_insert]
  split
  · decide
  · exact space

section
variable (faithful : s.Faithful)
include faithful

theorem Faithful.newProcess (ptids : s.ptidsLeft 1)
    (ids : s.idsLeft 2) (space : s.room caller) (handles : List (UInt32 × Option Int))
    (efd info : Option Int) : Faithful (s.newProcess caller handles efd info) := by
  have created := faithful.createProcess ptids
  obtain ⟨filled, wide, sameIds, tasks⟩ :=
    created.inherited (room_createProcess space) s.createProcess.1 handles
  unfold ObjectState.newProcess
  dsimp only
  generalize handles.foldl (fun t h => t.inheritHandle caller s.createProcess.1 h.1 h.2)
    s.createProcess.2 = child at filled wide sameIds tasks ⊢
  have left : child.idsLeft 2 := by
    rw [idsLeft, sameIds]
    exact ids
  have known : s.tasks < child.tasks := by
    rw [tasks]
    exact Nat.lt_succ_self s.tasks
  have named := filled.allocTask left wide efd ⟨known, (faithful.allocPtid ptids).2.1.2⟩
  have more : (child.allocTask caller efd s.createProcess.1 s.tasks).idsLeft (0 + 1) := by
    obtain ⟨-, -, one⟩ := filled.allocObjectId left
    rw [idsLeft, allocTask_left]
    exact one
  exact named.allocWaitable more (allocTask_fits wide efd _ _) info

theorem Faithful.newThread (ptids : s.ptidsLeft 1)
    (ids : s.idsLeft 1) (space : s.room caller) (process : UInt32) (suspended : Bool)
    (efd : Option Int) : Faithful (s.newThread caller process suspended efd) := by
  have created := faithful.createThread ptids ((s.targetOf caller process).getD caller)
    (if suspended then 1 else 0)
  exact created.allocTask ids space efd (faithful.allocPtid ptids).2.1

theorem Faithful.initThread (ptids : s.ptidsLeft 2)
    (claimed : Option UInt32) : Faithful (s.initThread claimed) := by
  cases claimed with
  | some pid => exact faithful.createThread ptids pid 0
  | none =>
    have second := (faithful.allocPtid ptids).2.2
    exact (faithful.createProcess ptids).createThread second s.createProcess.1 0

theorem Faithful.openTask {id : UInt32} (ids : s.idsLeft 1)
    (space : s.room caller) (unknown : (s.who id).isNone) (efd : Option Int) :
    Faithful (s.openTask caller id efd) := by
  rw [ObjectState.openTask, isNone_iff_eq_none.mp unknown]
  exact faithful.allocWaitable ids (fits_of_room space) efd

end

theorem mem_of_nextThreadOf {tids : List UInt32} {last tid : UInt32} {kept : Option UInt32}
    {backwards : Bool} (next : nextThreadOf tids last kept backwards = some tid) : tid ∈ tids := by
  have among (l : List UInt32) (mem : tid ∈ if backwards then l.reverse else l) : tid ∈ l := by
    split at mem
    · exact mem_reverse.mp mem
    · exact mem
  have sorted : tid ∈ tids.insertionSort fun a b => a ≤ b := by
    apply among
    unfold nextThreadOf at next
    by_cases first : last = 0
    · rw [if_pos first] at next
      exact mem_of_mem_head? next
    · rw [if_neg first] at next
      obtain ⟨lastTid, -, found⟩ := bind_eq_some_iff.mp next
      exact mem_of_find?_eq_some found
  exact (mem_insertionSort _).mp sorted

theorem nextThread_contains {last tid : UInt32} {backwards : Bool}
    (next : s.nextThread caller last backwards = some tid) : s.threads.contains tid := by
  obtain ⟨⟨id, thread⟩, kept, rfl⟩ := mem_map.mp (mem_of_nextThreadOf next)
  exact contains_of_get? ((mem_entries _ _ _).mp (mem_filter.mp kept).1)

section
variable (faithful : s.Faithful)
include faithful

theorem Faithful.getNextThread (space : s.room caller)
    (last : UInt32) (backwards : Bool) : Faithful (s.getNextThread caller last backwards) := by
  unfold ObjectState.getNextThread
  split
  · exact faithful
  · next tid next =>
    obtain ⟨a, found⟩ := isSome_iff_exists.mp
      (faithful.living tid (.inr (nextThread_contains next)))
    have made : Faithful (s.allocEntry caller ⟨tid.toUInt64, none, 0, 0, 0⟩ (some a)).2 :=
      faithful.allocEntry (fits_of_room space) (faithful.who_known found)
    rw [found]
    dsimp only
    split
    · exact made
    · exact { made with }

theorem Faithful.changeThreads (tid : UInt32) (f : Thread → Thread) :
    Faithful { s with threads := s.threads.modify tid f } := by
  refine { faithful with
    living := fun id live => faithful.living id (live.imp_right fun there => ?_) }
  rwa [contains_modify] at there

theorem Faithful.resumeThread : Faithful (s.resumeThread caller handle) := by
  unfold ObjectState.resumeThread
  split
  · exact faithful
  · exact faithful.changeThreads _ _

theorem Faithful.suspendThread : Faithful (s.suspendThread caller handle) := by
  unfold ObjectState.suspendThread
  split
  · exact faithful
  · exact faithful.changeThreads _ _

theorem Faithful.exitProcess : Faithful (s.exitProcess pid) := by
  refine faithful.shrink (fun p u at_p => ?_) (fun id there => ?_) ⟨rfl, rfl, rfl, rfl⟩ ⟨rfl, rfl, rfl⟩
  · obtain ⟨-, before⟩ := of_erase at_p
    exact ⟨u, before, faithful.tables p u before, fun i entry at_i => at_i⟩
  · obtain ⟨thread, at_id⟩ := (contains_iff _ _).mp there
    exact contains_of_get? (of_retain at_id).1

theorem Faithful.closeHandle : Faithful (s.closeHandle caller handle) := by
  refine faithful.shrink (fun p u at_p => ?_) (fun id there => there) ⟨rfl, rfl, rfl, rfl⟩
    ⟨rfl, rfl, rfl⟩
  rcases of_modify at_p with ⟨rfl, t, found, rfl⟩ | ⟨-, before⟩
  · refine ⟨t, found, (faithful.tables p t found).close handle, fun i entry at_i => ?_⟩
    rw [getUnchecked_close] at at_i
    split_ifs at at_i
    exact at_i
  · exact ⟨u, before, faithful.tables p u before, fun i entry at_i => at_i⟩

theorem Faithful.createObject (ids : s.idsLeft 1)
    (space : s.room caller) (fd : Option Int) (objType access options : UInt32) :
    Faithful (s.createObject caller fd objType access options) := by
  obtain ⟨taken, names, -⟩ := faithful.allocObjectId ids
  exact taken.allocEntry (fits_of_room space) names

end

theorem unnamed {name : SharedSync} (unknown : (!s.sharedSync.contains name)) :
    s.sharedSync.get? name = none := by
  simpa [Table.contains] using unknown

section
variable (faithful : s.Faithful)
include faithful

theorem Faithful.createSync {name : Option SharedSync} (fresh : s.newSync caller name)
    (efd : Option Int) (canonical : Bool) : Faithful (s.createSync caller name efd canonical) := by
  simp only [newSync, Bool.and_eq_true] at fresh
  obtain ⟨⟨ids, space⟩, fresh⟩ := fresh
  have made := faithful.allocWaitable ids (fits_of_room space) efd
  unfold ObjectState.createSync
  cases name with
  | none => exact made
  | some =>
    dsimp only [bind_some]
    rw [unnamed fresh]
    split
    · exact { made with }
    · exact made

theorem Faithful.nameObject (name : String) {o : NamedObject}
    (names : s.Names o.object o.objectId.toNat) (mappings : Table UInt64 Bool) :
    Faithful { s with mappings := mappings, namedObjects := s.namedObjects.insert name o } :=
  { faithful with named := forall_insert faithful.named names }

section
variable (ids : s.idsLeft 1) (space : s.room caller)
include ids space

theorem Faithful.createMapping (created : Bool) (name : Option String) (shared : Bool)
    (fd : Int) (access : UInt32) :
    Faithful (s.createMapping caller created name shared fd access) := by
  obtain ⟨taken, names, -⟩ := faithful.allocObjectId ids
  unfold ObjectState.createMapping
  split
  · exact taken
  · cases name with
    | none =>
      have stored : Faithful { s.allocObjectId.2 with
          mappings := s.allocObjectId.2.mappings.insert s.allocObjectId.1 shared } := { taken with }
      exact stored.allocEntry (fits_of_room space) names
    | some name =>
      have stored := taken.nameObject (o := ⟨s.allocObjectId.1, .made s.minted⟩) name names
        (s.allocObjectId.2.mappings.insert s.allocObjectId.1 shared)
      exact stored.allocEntry (fits_of_room space) names

theorem Faithful.openMapping (short full : String) (usd : Bool) (fd : Int) :
    Faithful (s.openMapping caller short full usd fd) := by
  obtain ⟨taken, names, -⟩ := faithful.allocObjectId ids
  unfold ObjectState.openMapping
  split
  · next o found =>
    apply faithful.allocEntry (fits_of_room space)
    rcases or_eq_some_iff.mp found with at_short | ⟨-, at_full⟩
    · exact faithful.named short o at_short
    · exact faithful.named full o at_full
  · split
    · exact faithful
    · have stored := taken.nameObject (o := ⟨s.allocObjectId.1, .made s.minted⟩) usdName names
        (s.allocObjectId.2.mappings.insert s.allocObjectId.1 false)
      exact stored.allocEntry (fits_of_room space) names

end

end

theorem getMappingInfo_plain {handle : UInt32} {dup : Option Int}
    (plain : (dup.isNone || !s.sharesFile caller handle)) :
    s.getMappingInfo caller handle dup = s := by
  cases dup with
  | none => rfl
  | some =>
    have unshared : s.sharesFile caller handle = false := by simpa using plain
    simp [getMappingInfo, unshared]

theorem Faithful.pseudo (faithful : s.Faithful) {pid tid handle : UInt32}
    (pseudo : pseudoEntry pid tid handle = some entry) (task : handle ≠ 0xFFFFFFFC)
    (found : s.pseudoObject pid tid handle = some a) : s.Names a entry.objectId.toNat := by
  unfold pseudoEntry at pseudo
  unfold pseudoObject at found
  split_ifs at pseudo found
  all_goals
    cases pseudo
    exact faithful.who_known found

theorem Faithful.dupHandle (faithful : s.Faithful) {req : DupRequest}
    (space : s.room (s.processOf req.callerPid req.dstProcess))
    (source : s.plainSource req) (fd : Option Int) : Faithful (s.dupHandle req fd) := by
  unfold ObjectState.dupHandle dupSource
  dsimp only
  cases pseudo : pseudoEntry req.callerPid req.callerTid req.srcHandle with
  | some =>
    obtain ⟨task, known⟩ : req.srcHandle ≠ 0xFFFFFFFC ∧
        (s.pseudoObject req.callerPid req.callerTid req.srcHandle).isSome := by
      simpa [plainSource, pseudo] using source
    obtain ⟨a, found⟩ := isSome_iff_exists.mp known
    have names := faithful.pseudo pseudo task found
    rw [found]
    exact faithful.allocEntry (fits_of_room space) names
  | none =>
    split
    · exact faithful
    · next entry at_src =>
      obtain ⟨a, denotes, names⟩ := faithful.carried (_, req.srcHandle >>> 2) entry at_src
      have origin : s.denoted (s.processOf req.callerPid req.srcProcess) req.srcHandle = some a :=
        denotes
      rw [origin]
      exact faithful.allocEntry (fits_of_room space) names

theorem faithful_step (s : ObjectState) (req : ObjectRequest) (faithful : s.Faithful)
    (plain : s.plain req) : (s.step req).Faithful := by
  cases req <;> simp only [ObjectState.plain, Bool.and_eq_true] at plain
  case initThread claimed => exact faithful.initThread plain claimed
  case newProcess handles efd info =>
    exact faithful.newProcess plain.1.1 plain.1.2 plain.2 handles efd info
  case newThread process suspended efd =>
    exact faithful.newThread plain.1.1 plain.1.2 plain.2 process suspended efd
  case openProcess efd =>
    exact faithful.openTask plain.1.1 plain.1.2 plain.2 efd
  case openThread efd =>
    exact faithful.openTask plain.1.1 plain.1.2 plain.2 efd
  case getNextThread last backwards => exact faithful.getNextThread plain last backwards
  case resumeThread caller handle => exact faithful.resumeThread
  case suspendThread caller handle => exact faithful.suspendThread
  case exitProcess pid => exact faithful.exitProcess
  case createObject fd objType access options =>
    exact faithful.createObject plain.1 plain.2 fd objType access options
  case createWaitable efd =>
    exact faithful.allocWaitable plain.1 (fits_of_room plain.2) efd
  case createSync efd canonical => exact faithful.createSync plain efd canonical
  case openSync caller name efd =>
    change (s.openSync caller (.named name) efd).Faithful
    rw [ObjectState.openSync, unnamed plain]
    exact faithful
  case makeProcessSystem efd made => exact faithful.createSync plain efd made
  case getProcessIdleEvent caller process copied efd =>
    cases copied with
    | false => exact faithful
    | true => exact faithful.createSync plain efd true
  case createMapping created name shared fd access =>
    exact faithful.createMapping plain.1 plain.2 created name shared fd access
  case openMapping short full usd fd =>
    exact faithful.openMapping plain.1 plain.2 short full usd fd
  case getMappingInfo caller handle dup =>
    change (s.getMappingInfo caller handle dup).Faithful
    rw [getMappingInfo_plain plain]
    exact faithful
  case allocateLocallyUniqueId => exact (faithful.allocObjectId plain).1
  case dupHandle fd =>
    exact faithful.dupHandle plain.1 plain.2 fd
  case closeHandle caller handle => exact faithful.closeHandle

end Steps

/-- As long as no id runs over and none is given to an object that has one, two handles have
one id just when they are for one object. -/
theorem identified_of_plain (reqs : List ObjectRequest)
    (all : AllSteps step (fun s req => s.plain req) start reqs) :
    ∀ s ∈ states step start reqs, s.Identified :=
  fun s mem => (good_of_allSteps faithful_step faithful_start all s mem).identified

/-- A system process with a second thread, an event it names, the idle event of its child and a
copy of its own process handle. -/
def smallRun : List ObjectRequest :=
  [.initThread none, .newThread 32 0xFFFFFFFF true (some 5), .makeProcessSystem 32 (some 9) true,
    .createSync 32 (some "ready") (some 6) true, .newProcess 32 [] (some 7) (some 8),
    .getProcessIdleEvent 32 16 true (some 10),
    .dupHandle ⟨32, 36, 0xFFFFFFFF, 0xFFFFFFFF, 0xFFFFFFFF, 2, 0⟩ none, .resumeThread 32 4,
    .closeHandle 32 8]

theorem identified_small_run : (run step start smallRun).Identified :=
  identified_of_plain smallRun (by decide +kernel) _ (run_mem_states _ _)

theorem not_identified {s : ObjectState} (pid g h : UInt32)
    (live : (s.entryAt pid g).isSome ∧ (s.entryAt pid h).isSome)
    (differs : ¬ (s.compareObjects pid g h = 0 ↔ s.denoted pid g = s.denoted pid h)) :
    ¬ s.Identified := by
  intro identified
  obtain ⟨e, at_g⟩ := isSome_iff_exists.mp live.1
  obtain ⟨f, at_h⟩ := isSome_iff_exists.mp live.2
  exact differs (identified.compared pid g h e f at_g at_h)

theorem denotes_dup_self {s : ObjectState} {pid index : UInt32} (tid : UInt32)
    (free : (s.processes.get? pid).map (fun t => t.slab.bump) = some index) :
    (s.dupHandle ⟨pid, tid, 0xFFFFFFFF, 0xFFFFFFFF, 0xFFFFFFFF, 2, 0⟩ none).denotes (pid, index) =
      s.who pid := by
  obtain ⟨t, found, rfl⟩ := map_eq_some_iff.mp free
  simp [dupHandle, dupSource, processOf, processNamed, pseudoEntry, pseudoObject, allocEntry, found]

def exitedProcesses : List ObjectRequest :=
  (List.range 508).flatMap fun n => [.initThread none, .exitProcess (ptid (2 * n).toUInt32)]

def sessionOpened : List ObjectRequest :=
  exitedProcesses ++ [.initThread none, .openMapping 0x1000 "__wine_session" "__wine_session" false 7]

/-- A process that opens itself has two handles with two ids. Process 0x1000 has one id for
the session mapping and for itself. -/
theorem ids_split_and_meet : ¬ (run step start [.initThread none,
      .dupHandle ⟨32, 36, 0xFFFFFFFF, 0xFFFFFFFF, 0xFFFFFFFF, 2, 0⟩ none,
      .openProcess 32 32 (some 5)]).Identified ∧
    ¬ (run step start (sessionOpened ++
      [.dupHandle ⟨0x1000, 0x1004, 0xFFFFFFFF, 0xFFFFFFFF, 0xFFFFFFFF, 2, 0⟩ none])).Identified := by
  constructor
  · apply not_identified 32 4 8 <;> decide +kernel
  · have mapping : (run step start (sessionOpened ++ [.dupHandle
        ⟨0x1000, 0x1004, 0xFFFFFFFF, 0xFFFFFFFF, 0xFFFFFFFF, 2, 0⟩ none])).denoted 0x1000 4 =
        some (.made 0) := by decide +kernel
    have process : (run step start (sessionOpened ++ [.dupHandle
        ⟨0x1000, 0x1004, 0xFFFFFFFF, 0xFFFFFFFF, 0xFFFFFFFF, 2, 0⟩ none])).denoted 0x1000 8 =
        (run step start sessionOpened).who 0x1000 := by
      have free : ((run step start sessionOpened).processes.get? 0x1000).map
          (fun t => t.slab.bump) = some 2 := by decide +kernel
      rw [run_append]
      generalize run step start sessionOpened = s at free ⊢
      exact denotes_dup_self 0x1004 free
    have equal : (run step start (sessionOpened ++ [.dupHandle
        ⟨0x1000, 0x1004, 0xFFFFFFFF, 0xFFFFFFFF, 0xFFFFFFFF, 2, 0⟩ none])).compareObjects
        0x1000 4 8 = 0 := by decide +kernel
    apply not_identified 0x1000 4 8
    · decide +kernel
    · rw [equal, mapping, process, who]
      cases (run step start sessionOpened).born.get? 0x1000 <;> simp

end Triskelion.ObjectState
