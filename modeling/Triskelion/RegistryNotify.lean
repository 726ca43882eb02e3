import Triskelion.ByteWords
import Triskelion.ReadYourWrites

/-! Change notification (`register_notify` and `collect_notifications` of `registry.rs`, and the
handlers of `registry_handlers.rs` that change the registry). A watch is kept with the path of
its key and fires once. A change is reported under a key handle: a new key under the handle that
its name was relative to, a deleted key under its own.

Of the handlers, the events they set are here as the pairs of process and handle. -/

namespace Triskelion.RegistryNotify

open List Registry

structure RegNotify where
  path : List Str
  pid : UInt32
  eventHandle : UInt32
  subtree : Bool
  filter : UInt32
deriving DecidableEq

structure NotifyServer where
  registry : Registry
  notifyList : List RegNotify

def regNotifyChangeName : UInt32 := 0x01

def regNotifyChangeLastSet : UInt32 := 0x04

def parseObjattrName (vararg : List UInt8) : UInt32 × List UInt8 :=
  if vararg.length < 16 then (0, [])
  else
    let rootdir := (ByteWords.readWord vararg 0).getD 0
    let sdLen := ((ByteWords.readWord vararg 8).getD 0).toNat
    let nameLen := ((ByteWords.readWord vararg 12).getD 0).toNat
    let nameStart := 16 + sdLen
    let nameEnd := min (nameStart + nameLen) vararg.length
    (rootdir, if nameStart ≤ vararg.length then (vararg.take nameEnd).drop nameStart else [])

/-- The events of the watches that heard of a change, and the watches that stay. -/
def notify (watches : List RegNotify) (heard : RegNotify → Bool) :
    List (UInt32 × UInt32) × List RegNotify :=
  ((watches.filter heard).map fun n => (n.pid, n.eventHandle), watches.filter fun n => !heard n)

variable {watches : List RegNotify}

@[simp] theorem notify_none : notify watches (fun _ => false) = ([], watches) := by
  simp [notify]

/-- The watches that stay tell who heard. -/
theorem notify_eq_iff {p q : RegNotify → Bool} :
    notify watches p = notify watches q ↔ ∀ n ∈ watches, p n = q n := by
  constructor
  · intro same n mem
    have stay : watches.filter (fun n => !p n) = watches.filter fun n => !q n :=
      congrArg Prod.snd same
    have both : n ∈ watches.filter (fun n => !p n) ↔ n ∈ watches.filter fun n => !q n := by
      rw [stay]
    simpa [mem] using both
  · intro same
    have heard := filter_congr same
    have stay : watches.filter (fun n => !p n) = watches.filter fun n => !q n :=
      filter_congr fun n mem => by rw [same n mem]
    rw [notify, notify, heard, stay]

theorem and_bit_eq_iff {p q : Bool} {n : RegNotify} {change : UInt32} :
    (p && decide (n.filter &&& change ≠ 0)) = (q && decide (n.filter &&& change ≠ 0)) ↔
      (n.filter &&& change ≠ 0 → p = q) := by
  by_cases bit : n.filter &&& change = 0 <;> simp [bit]

section
variable [CaseMap]

def covers (changed : List Str) (n : RegNotify) : Bool :=
  n.path.map lower = changed.map lower ∨
    n.subtree ∧ (n.path.map lower).isPrefixOf (changed.map lower)

def hears (changed : List Str) (change : UInt32) (n : RegNotify) : Bool :=
  covers changed n ∧ n.filter &&& change ≠ 0

def hearsOf (change : Option (List Str × UInt32)) (n : RegNotify) : Bool :=
  change.any fun c => hears c.1 c.2 n

@[simp] theorem hearsOf_none : hearsOf none = fun _ => false := rfl

variable {change : UInt32}

@[simp] theorem hearsOf_some (changed : List Str) :
    hearsOf (some (changed, change)) = hears changed change := rfl

namespace NotifyServer

def registerNotify (s : NotifyServer) (hkey pid eventHandle : UInt32) (subtree : Bool)
    (filter : UInt32) : Bool × NotifyServer :=
  match s.registry.openKeys.get? hkey with
  | some path =>
    (true, { s with notifyList := s.notifyList ++ [⟨path, pid, eventHandle, subtree, filter⟩] })
  | none => (false, s)

def collectNotifications (s : NotifyServer) (changedHkey change : UInt32) :
    List (UInt32 × UInt32) × NotifyServer :=
  match s.registry.openKeys.get? changedHkey with
  | none => ([], s)
  | some changed =>
    let told := notify s.notifyList (hears changed change)
    (told.1, { s with notifyList := told.2 })

end NotifyServer

structure Outcome where
  error : UInt32
  fired : List (UInt32 × UInt32)
  server : NotifyServer

inductive RegistryRequest
  | createKey (vararg : List UInt8)
  | setKeyValue (hkey namelen dataType : UInt32) (vararg : List UInt8)
  | deleteKeyValue (hkey : UInt32) (name : List UInt8)
  | deleteKey (hkey : UInt32)

namespace NotifyServer

variable (s : NotifyServer)

def fire (error changedHkey change : UInt32) : Outcome :=
  let told := s.collectNotifications changedHkey change
  ⟨error, told.1, told.2⟩

def quiet (error : UInt32) : Outcome := ⟨error, [], s⟩

def handleCreateKey (vararg : List UInt8) : Except Panic Outcome :=
  let parent := (parseObjattrName vararg).1
  let name := (parseObjattrName vararg).2
  (s.registry.createKey parent name).map fun made =>
    let after := { s with registry := made.2 }
    if made.1.2 then
      if parent ≠ 0 then after.fire 0 parent regNotifyChangeName else after.quiet 0
    else after.quiet 0x40000000

/-- The reply tells of no failure. -/
def handleSetKeyValue (hkey namelen dataType : UInt32) (vararg : List UInt8) : Outcome :=
  if namelen.toNat ≤ vararg.length then
    let name := vararg.take namelen.toNat
    let data := vararg.drop namelen.toNat
    let after := { s with registry := s.registry.setValue hkey name dataType data }
    after.fire 0 hkey regNotifyChangeLastSet
  else s.quiet 0

def handleDeleteKeyValue (hkey : UInt32) (name : List UInt8) : Outcome :=
  let gone := s.registry.deleteValue hkey name
  if hkey ≠ 0 ∧ gone.1 then
    let after := { s with registry := gone.2 }
    after.fire 0 hkey regNotifyChangeLastSet
  else s.quiet 0xC0000034

def handleDeleteKey (hkey : UInt32) : Except Panic Outcome :=
  if hkey = 0 then .ok (s.quiet 0xC0000022)
  else (s.registry.deleteKey hkey).map fun gone =>
    let after := { s with registry := gone.2 }
    if gone.1 then after.fire 0 hkey regNotifyChangeName else after.quiet 0xC0000022

def handle : RegistryRequest → Except Panic Outcome
  | .createKey vararg => s.handleCreateKey vararg
  | .setKeyValue hkey namelen dataType vararg =>
    .ok (s.handleSetKeyValue hkey namelen dataType vararg)
  | .deleteKeyValue hkey name => .ok (s.handleDeleteKeyValue hkey name)
  | .deleteKey hkey => s.handleDeleteKey hkey

/-! ### What the watches are promised -/

section
variable (vararg : List UInt8)

def target : List Str :=
  s.registry.requestPath (parseObjattrName vararg).1 (parseObjattrName vararg).2

def creates : Bool :=
  match s.registry.walk (s.target vararg) with
  | .ok none => true
  | _ => false

def deletes (hkey : UInt32) : Bool :=
  match s.registry.deleteKey hkey with
  | .ok (true, _) => hkey ≠ 0
  | _ => false

/-- The key that a request changes, if it does, and how. A new key and a deleted one change their
parent. -/
def changed : RegistryRequest → Option (List Str × UInt32)
  | .createKey vararg =>
    if s.creates vararg then some ((s.target vararg).dropLast, regNotifyChangeName) else none
  | .setKeyValue hkey namelen _ vararg =>
    if namelen.toNat ≤ vararg.length then
      (s.registry.openKeys.get? hkey).map fun path => (path, regNotifyChangeLastSet)
    else none
  | .deleteKeyValue hkey name =>
    if hkey ≠ 0 ∧ (s.registry.deleteValue hkey name).1 then
      (s.registry.openKeys.get? hkey).map fun path => (path, regNotifyChangeLastSet)
    else none
  | .deleteKey hkey =>
    if s.deletes hkey then
      (s.registry.openKeys.get? hkey).map fun path => (path.dropLast, regNotifyChangeName)
    else none

/-- A handler that returns fires the watches that hear of the change of the registry, each once and
in order, and keeps the others. -/
def Notifies (request : RegistryRequest) : Prop :=
  ∀ out, s.handle request = .ok out →
    (out.fired, out.server.notifyList) = notify s.notifyList (hearsOf (s.changed request))

/-- The key of the handle that a new key is reported under. The handle may be the one that the
key is about to get. -/
def directory : Option (List Str) :=
  let parent := (parseObjattrName vararg).1
  if parent = 0 then none
  else if parent = s.registry.nextHkey then some (s.target vararg)
  else s.registry.openKeys.get? parent

end

def reported : RegistryRequest → Option (List Str × UInt32)
  | .createKey vararg =>
    if s.creates vararg then
      (s.directory vararg).map fun path => (path, regNotifyChangeName)
    else none
  | .deleteKey hkey =>
    if s.deletes hkey then
      (s.registry.openKeys.get? hkey).map fun path => (path, regNotifyChangeName)
    else none
  | request => s.changed request

/-- A key is created where every watch on names covers the key of the handle exactly if it covers
the parent of the new key, and deleted where no such watch is on the key itself, or on its parent
without the subtree. -/
def inPlace : RegistryRequest → Bool
  | .createKey vararg =>
    s.creates vararg → ∀ n ∈ s.notifyList, n.filter &&& regNotifyChangeName ≠ 0 →
      (s.directory vararg).any (covers · n) = covers (s.target vararg).dropLast n
  | .deleteKey hkey =>
    s.deletes hkey → ∀ path ∈ s.registry.openKeys.get? hkey, ∀ n ∈ s.notifyList,
      n.filter &&& regNotifyChangeName ≠ 0 →
        n.path.map lower ≠ path.map lower ∧ (n.subtree ∨ n.path.map lower ≠ path.dropLast.map lower)
  | _ => true

end NotifyServer

/-! ### Firing -/

/-- A deleted key and its parent are covered by the same watches, apart from those on either. -/
theorem covers_dropLast_iff {path : List Str} (below : path ≠ []) (n : RegNotify) :
    covers path n = covers path.dropLast n ↔ n.path.map lower ≠ path.map lower ∧
        (n.subtree ∨ n.path.map lower ≠ path.dropLast.map lower) := by
  have split : path.map lower = path.dropLast.map lower ++ [lower (path.getLast below)] := by
    rw [← map_singleton, ← map_append, dropLast_append_getLast]
  simp only [covers, split, decide_eq_decide, isPrefixOf_iff_prefix, prefix_concat_iff]
  generalize path.dropLast.map lower = above
  generalize lower (path.getLast below) = last
  by_cases own : n.path.map lower = above ++ [last]
  · have longer : ¬ above ++ [last] <+: above := fun down =>
      absurd down.length_le (by simp)
    simp [own, longer]
  · by_cases parent : n.path.map lower = above
    · simp [parent]
    · simp [own, parent]

variable {s : NotifyServer}

namespace NotifyServer

theorem fire_notifies (s : NotifyServer) (error hkey change : UInt32) :
    ((s.fire error hkey change).fired, (s.fire error hkey change).server.notifyList) =
      notify s.notifyList
        (hearsOf ((s.registry.openKeys.get? hkey).map fun path => (path, change))) := by
  cases found : s.registry.openKeys.get? hkey with
  | none | some => simp [fire, collectNotifications, found]

theorem quiet_notifies (s : NotifyServer) (error : UInt32) :
    ((s.quiet error).fired, (s.quiet error).server.notifyList) =
      notify s.notifyList (hearsOf none) := by
  simp [quiet]

variable {vararg : List UInt8} {out : Outcome}

variable {existed : Option RegistryKey}

theorem creates_of_walk (walked : s.registry.walk (s.target vararg) = .ok existed) :
    s.creates vararg = existed.isNone := by
  cases existed <;> simp [creates, walked]

def created (s : NotifyServer) (vararg : List UInt8) : NotifyServer :=
  let registry := { s.registry with
    root := RegistryKey.walkMutCreate (s.target vararg) id s.registry.root
    writeSeq := s.registry.writeSeq + 1 }
  { s with registry := registry.openAt (s.target vararg) }

@[simp] theorem notifyList_created : (s.created vararg).notifyList = s.notifyList := rfl

theorem get?_created (hkey : UInt32) : (s.created vararg).registry.openKeys.get? hkey =
      if hkey = s.registry.nextHkey then some (s.target vararg)
      else s.registry.openKeys.get? hkey :=
  Table.get?_insert ..

theorem handleCreateKey_of_walk (walked : s.registry.walk (s.target vararg) = .ok existed) :
    s.handleCreateKey vararg = .ok
      (if existed.isNone then
        if (parseObjattrName vararg).1 ≠ 0 then
          (s.created vararg).fire 0 (parseObjattrName vararg).1 regNotifyChangeName
        else (s.created vararg).quiet 0
      else (s.created vararg).quiet 0x40000000) := by
  rw [target] at walked
  rw [handleCreateKey, createKey]
  simp only [walked, Except.map]
  rfl

theorem handleCreateKey_notifies (done : s.handleCreateKey vararg = .ok out) :
    (out.fired, out.server.notifyList) =
      notify s.notifyList (hearsOf (s.reported (.createKey vararg))) := by
  cases walked : s.registry.walk (s.target vararg) with
  | error =>
    rw [target] at walked
    simp [handleCreateKey, createKey, walked, Except.map] at done
  | ok existed =>
    rw [handleCreateKey_of_walk walked] at done
    cases done
    cases existed with
    | some =>
      have silent := (s.created vararg).quiet_notifies 0x40000000
      simpa [reported, creates_of_walk walked] using silent
    | none =>
      by_cases rooted : (parseObjattrName vararg).1 = 0
      · have silent := (s.created vararg).quiet_notifies 0
        simpa [reported, directory, rooted] using silent
      · have fired := (s.created vararg).fire_notifies 0 (parseObjattrName vararg).1
          regNotifyChangeName
        simpa [reported, creates_of_walk walked, directory, rooted, get?_created] using fired

theorem handleDeleteKey_notifies {hkey : UInt32} (done : s.handleDeleteKey hkey = .ok out) :
    (out.fired, out.server.notifyList) =
      notify s.notifyList (hearsOf (s.reported (.deleteKey hkey))) := by
  by_cases zero : hkey = 0
  · have kept : s.deletes hkey = false := by
      unfold deletes
      split <;> simp [zero]
    rw [handleDeleteKey, if_pos zero] at done
    cases done
    rw [quiet_notifies, reported, kept, if_neg Bool.false_ne_true]
  · rw [handleDeleteKey, if_neg zero] at done
    cases deleted : s.registry.deleteKey hkey with
    | error => simp [deleted, Except.map] at done
    | ok gone =>
      rw [deleted] at done
      cases done
      obtain ⟨gone, after⟩ := gone
      have handles : after.openKeys = s.registry.openKeys := by
        rcases deleteKey_cases deleted with same | ⟨_, _, _, -, -, -, -, same⟩
        all_goals
          cases same
          rfl
      cases gone with
      | false =>
        have silent := quiet_notifies ⟨after, s.notifyList⟩ 0xC0000022
        simpa [reported, deletes, deleted] using silent
      | true =>
        have fired := fire_notifies ⟨after, s.notifyList⟩ 0 hkey regNotifyChangeName
        simpa [reported, deletes, deleted, zero, handles] using fired

variable {request : RegistryRequest}

theorem handle_notifies (done : s.handle request = .ok out) :
    (out.fired, out.server.notifyList) = notify s.notifyList (hearsOf (s.reported request)) := by
  cases request with
  | createKey => exact handleCreateKey_notifies done
  | setKeyValue hkey namelen dataType vararg =>
    cases done
    change _ = notify s.notifyList (hearsOf (s.changed (.setKeyValue hkey namelen dataType vararg)))
    by_cases whole : namelen.toNat ≤ vararg.length
    · rw [handleSetKeyValue, if_pos whole, fire_notifies, changed, if_pos whole, openKeys_setValue]
    · rw [handleSetKeyValue, if_neg whole, quiet_notifies, changed, if_neg whole]
  | deleteKeyValue hkey name =>
    cases done
    change _ = notify s.notifyList (hearsOf (s.changed (.deleteKeyValue hkey name)))
    by_cases gone : hkey ≠ 0 ∧ (s.registry.deleteValue hkey name).1
    · rw [handleDeleteKeyValue, if_pos gone, fire_notifies, changed, if_pos gone,
        openKeys_deleteValue]
    · rw [handleDeleteKeyValue, if_neg gone, quiet_notifies, changed, if_neg gone]
  | deleteKey => exact handleDeleteKey_notifies done

theorem reported_eq_changed_of_panic {panic : Panic}
    (failed : s.handle request = .error panic) : s.reported request = s.changed request := by
  cases request with
  | createKey vararg =>
    have kept : s.creates vararg = false := by
      cases walked : s.registry.walk (s.target vararg) with
      | error => simp [creates, walked]
      | ok => simp [handle, handleCreateKey_of_walk walked] at failed
    simp [reported, changed, kept]
  | setKeyValue | deleteKeyValue => cases failed
  | deleteKey hkey =>
    have kept : s.deletes hkey = false := by
      by_cases zero : hkey = 0
      · simp [handle, handleDeleteKey, zero] at failed
      · cases deleted : s.registry.deleteKey hkey with
        | error => simp [deletes, deleted]
        | ok => simp [handle, handleDeleteKey, zero, deleted, Except.map] at failed
    simp [reported, changed, kept]

theorem notifies_iff_heard {s : NotifyServer} : s.Notifies request ↔
      ∀ n ∈ s.notifyList, hearsOf (s.reported request) n = hearsOf (s.changed request) n := by
  cases handled : s.handle request with
  | error =>
    have same := reported_eq_changed_of_panic handled
    constructor
    · intro _ n _
      rw [same]
    · intro _ out done
      rw [handled] at done
      cases done
  | ok out =>
    rw [← notify_eq_iff, ← handle_notifies handled]
    constructor
    · intro told
      exact told out handled
    · intro told _ done
      rw [handled] at done
      cases done
      exact told

end NotifyServer

theorem hearsOf_map (found : Option (List Str)) (n : RegNotify) :
    hearsOf (found.map fun path => (path, change)) n =
      (found.any (covers · n) && decide (n.filter &&& change ≠ 0)) := by
  cases found <;> simp [hears]

namespace NotifyServer

theorem opened_of_deletes {hkey : UInt32} (deletes : s.deletes hkey) :
    ∃ path, s.registry.openKeys.get? hkey = some path ∧ path ≠ [] := by
  cases deleted : s.registry.deleteKey hkey with
  | error => simp [NotifyServer.deletes, deleted] at deletes
  | ok gone =>
    rcases deleteKey_cases deleted with rfl | ⟨path, -, below, found, -⟩
    · simp [NotifyServer.deletes, deleted] at deletes
    · exact ⟨path, found, below⟩

theorem inPlace_iff_heard {s : NotifyServer} {request : RegistryRequest} : s.inPlace request ↔
      ∀ n ∈ s.notifyList, hearsOf (s.reported request) n = hearsOf (s.changed request) n := by
  cases request with
  | createKey vararg =>
    by_cases creates : s.creates vararg
    · have report : s.reported (.createKey vararg) =
          (s.directory vararg).map fun path => (path, regNotifyChangeName) := by
        simp [reported, creates]
      have change : s.changed (.createKey vararg) =
          (some (s.target vararg).dropLast).map fun path => (path, regNotifyChangeName) := by
        simp [changed, creates]
      simp only [report, change, hearsOf_map, and_bit_eq_iff, inPlace, creates, true_imp_iff,
        decide_eq_true_eq, Option.any_some]
    · simp [inPlace, reported, changed, creates]
  | setKeyValue | deleteKeyValue => simp [inPlace, reported]
  | deleteKey hkey =>
    by_cases deletes : s.deletes hkey
    · obtain ⟨path, isOpen, below⟩ := opened_of_deletes deletes
      have report : s.reported (.deleteKey hkey) =
          (some path).map fun path => (path, regNotifyChangeName) := by
        simp [reported, deletes, isOpen]
      have change : s.changed (.deleteKey hkey) =
          (some path.dropLast).map fun path => (path, regNotifyChangeName) := by
        simp [changed, deletes, isOpen]
      simp only [report, change, hearsOf_map, and_bit_eq_iff, inPlace, deletes, true_imp_iff,
        decide_eq_true_eq, Option.any_some, isOpen, Option.mem_some_iff, forall_eq',
        covers_dropLast_iff below]
    · simp [inPlace, reported, changed, deletes]

/-- A change of the registry fires the watches that it should exactly if it is a change of a value,
or a key is created or deleted where the watches on names do not tell the reported key from the
changed one. -/
theorem watches_notified_iff (s : NotifyServer) (request : RegistryRequest) :
    s.Notifies request ↔ s.inPlace request := by
  rw [notifies_iff_heard, inPlace_iff_heard]

end NotifyServer
end

/-! ### A key created by its full name -/

open ReadYourWrites

def watchedKey : NotifyServer :=
  (NotifyServer.registerNotify ⟨oneKey, []⟩ 1 7 0x24 true regNotifyChangeName).2

def fullName (name : String) : List UInt8 :=
  [0, 0, 0, 0, 0, 0, 0, 0, 0, 0, 0, 0, UInt8.ofNat (utf16Name name).length, 0, 0, 0] ++
    utf16Name name

theorem full_name_unnoticed :
    ¬ @NotifyServer.Notifies asciiCase watchedKey (.createKey (fullName "a\\b")) := by
  rw [@NotifyServer.notifies_iff_heard asciiCase]
  decide +kernel

end Triskelion.RegistryNotify
